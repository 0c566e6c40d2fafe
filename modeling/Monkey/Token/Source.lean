import Monkey.Token.Basic

/-!
# Token supplies

A supply hands out tokens one at a time and cannot be rewound. Every supply is drained in the end
and from then on hands out end-of-input tokens only; `remaining` bounds how many tokens there are
before that, which is what bounds a parse. `TokenStream` is the supply over a prepared list.
-/

namespace Monkey

/-- A supply of tokens, with states of type `σ`. -/
class TokenSource (σ : Type) where
  /-- Hands out the next token. -/
  next : σ → Token × σ
  /-- A bound on the number of tokens handed out before the supply is drained. -/
  remaining : σ → Nat
  remaining_next_lt : ∀ s, 0 < remaining s → remaining (next s).2 < remaining s
  remaining_next_of_drained : ∀ s, remaining s = 0 → remaining (next s).2 = 0
  kind_next_of_drained : ∀ s, remaining s = 0 → (next s).1.kind = .endOfInput

namespace TokenSource

variable {σ : Type} [TokenSource σ]

theorem remaining_next_le (s : σ) : remaining (next s).2 ≤ remaining s := by
  rcases Nat.eq_zero_or_pos (remaining s) with h | h
  · rw [remaining_next_of_drained s h]; exact Nat.zero_le _
  · exact Nat.le_of_lt (remaining_next_lt s h)

/-- The next `count` tokens of a supply. -/
def take : Nat → σ → List Token
  | 0, _ => []
  | count + 1, s => (next s).1 :: take count (next s).2

/-- The tokens of a supply up to the first end of input, at most `count` of them. -/
def takeUntilEnd : Nat → σ → List Token
  | 0, _ => []
  | count + 1, s =>
    if (next s).1.kind = .endOfInput then [(next s).1]
    else (next s).1 :: takeUntilEnd count (next s).2

/-- All tokens of a supply, up to and with the first end of input. -/
def drain (s : σ) : List Token :=
  takeUntilEnd (remaining s + 1) s

/-- Looking for the end further than the bound changes nothing. -/
theorem takeUntilEnd_eq_drain {count : Nat} {s : σ} (enough : remaining s < count) :
    takeUntilEnd count s = drain s := by
  induction count using Nat.strongRecOn generalizing s with
  | _ count ih =>
    match count, enough with
    | count + 1, enough =>
      simp only [drain, takeUntilEnd]
      split
      next => rfl
      next more =>
        have pos : 0 < remaining s := Nat.pos_of_ne_zero fun h => more (kind_next_of_drained s h)
        have lt := remaining_next_lt s pos
        obtain ⟨bound, hbound⟩ : ∃ bound, remaining s = bound + 1 :=
          ⟨remaining s - 1, by omega⟩
        rw [ih count (Nat.lt_succ_self _) (by omega), hbound,
          ← ih (bound + 1) (by omega) (by omega)]

/-- Draining hands out the next token and, unless that is the end of input, drains the rest. -/
theorem drain_eq (s : σ) :
    drain s =
      if (next s).1.kind = .endOfInput then [(next s).1] else (next s).1 :: drain (next s).2 := by
  conv => lhs; rw [drain, takeUntilEnd]
  split
  next => rfl
  next more =>
    have pos : 0 < remaining s := Nat.pos_of_ne_zero fun h => more (kind_next_of_drained s h)
    rw [takeUntilEnd_eq_drain (remaining_next_lt s pos)]

end TokenSource

/-! ## Prepared lists -/

/-- A supply over a list of tokens, and the place where the list ends. -/
structure TokenStream where
  tokens : List Token
  finish : Position

namespace TokenStream

/-- The supply that hands out the given tokens; it ends where the last of them does. -/
def ofList (tokens : List Token) : TokenStream :=
  ⟨tokens, (tokens.getLast?.map (·.span.stop)).getD .nowhere⟩

/-- What a drained list hands out: an end of input without text, placed where the list ended. -/
def endToken (stream : TokenStream) : Token :=
  ⟨.endOfInput, "", .empty stream.finish⟩

/-- Hands out the first token of the list. -/
def next (stream : TokenStream) : Token × TokenStream :=
  match stream.tokens with
  | [] => (stream.endToken, stream)
  | token :: tokens => (token, ⟨tokens, stream.finish⟩)

@[simp] theorem next_nil (finish : Position) :
    next ⟨[], finish⟩ = (endToken ⟨[], finish⟩, ⟨[], finish⟩) := rfl

@[simp] theorem next_cons (token : Token) (tokens : List Token) (finish : Position) :
    next ⟨token :: tokens, finish⟩ = (token, ⟨tokens, finish⟩) := rfl

instance : TokenSource TokenStream where
  next := next
  remaining stream := stream.tokens.length
  remaining_next_lt := by
    rintro ⟨_ | ⟨token, tokens⟩, finish⟩ h
    · exact absurd h (Nat.lt_irrefl _)
    · exact Nat.lt_succ_self _
  remaining_next_of_drained := by
    rintro ⟨_ | ⟨token, tokens⟩, finish⟩ h
    · rfl
    · cases h
  kind_next_of_drained := by
    rintro ⟨_ | ⟨token, tokens⟩, finish⟩ h
    · rfl
    · cases h

end TokenStream

end Monkey
