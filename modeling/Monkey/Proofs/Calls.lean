import Mathlib.Data.List.Chain
import Monkey.Proofs.Invariant
import Monkey.Proofs.Upcoming

/-!
# Calls change nothing where none is written

An opening parenthesis is an operator only with the option for calls, and it is looked up as one
only behind an operand. So on tokens of which no opening parenthesis stands right behind a token
that can end an operand, the option makes no difference, whatever else is wrong with them
(`parseTokens_calls`).

What carries the proof is that the current token can end an operand whenever operators are looked
for: a name, an integer, a truth value, a closing parenthesis or a closing brace. The one exception
is a block that the end of input closes, and behind that end nothing comes.
-/

namespace Monkey

open ParserM TokenSource

variable {σ : Type} [TokenSource σ]

/-- Whether an operand can end with a token of the kind. -/
def TokenKind.endsOperand : TokenKind → Bool
  | identifier => true
  | integer => true
  | trueWord => true
  | falseWord => true
  | closeParen => true
  | closeCurly => true
  | _ => false

/-- No opening parenthesis stands right behind a token that can end an operand. -/
def NoCallForm (tokens : List Token) : Prop :=
  tokens.IsChain fun t t' => t.kind.endsOperand = true → t'.kind ≠ .openParen

instance (tokens : List Token) : Decidable (NoCallForm tokens) :=
  inferInstanceAs (Decidable (List.IsChain _ tokens))

/-- All operators but the opening parenthesis are there with any options. -/
theorem Tables.standardOperator?_eq {kind : TokenKind} (h : kind ≠ .openParen)
    (options options' : Options) :
    standardOperator? options kind = standardOperator? options' kind := by
  cases kind with
  | openParen => exact absurd rfl h
  | _ => rfl

/-! ## Parsers in front of such tokens -/

namespace Parser

/-- The current token can end an operand, or it is the end of input in place of a closing brace. -/
def AtOperandEnd (p : Parser σ) : Prop :=
  p.current.kind.endsOperand = true ∨ p.current.kind = .endOfInput

/-- Wherever the parser comes to the end of an operand, no opening parenthesis is next. -/
def CallFree (p : Parser σ) : Prop :=
  ∀ count, (p.skip count).AtOperandEnd → (p.skip count).peek.kind ≠ .openParen

theorem CallFree.of_window {p q : Parser σ} {n : Nat} (h : p.CallFree)
    (hq : q.window = (p.skip n).window) : q.CallFree := by
  intro count hend
  have hwindow := window_skip hq count
  rw [skip_skip] at hwindow
  simp only [window, Prod.mk.injEq] at hwindow
  rw [AtOperandEnd, hwindow.1] at hend
  rw [hwindow.2.1]
  exact h (n + count) hend

/-- A parser in front of tokens without the form of a call. -/
theorem callFree_ofList {tokens : List Token} (hinner : NoInnerEnd tokens) (h : NoCallForm tokens)
    (options : Options) : (ofSupply (TokenStream.ofList tokens) options).CallFree := by
  intro count hend
  let parser := ofSupply (TokenStream.ofList tokens) options
  have htoken (n : Nat) : parser.token n =
      tokens.getD n (TokenStream.endToken ⟨[], (TokenStream.ofList tokens).finish⟩) := by
    rw [token_ofSupply]
    exact nth_tokenStream tokens _ n
  change (parser.token count).kind.endsOperand = true ∨ (parser.token count).kind = _ at hend
  change (parser.skip count).peek.kind ≠ _
  rw [peek_skip, htoken]
  by_cases hless : count + 1 < tokens.length
  · rw [htoken, List.getD_eq_getElem _ _ (by omega)] at hend
    rw [List.getD_eq_getElem _ _ hless]
    refine List.isChain_iff_getElem.1 h count hless (hend.resolve_right (hinner _ ?_))
    rw [← List.getElem_dropLast (by rw [List.length_dropLast]; omega)]
    exact List.getElem_mem _
  · -- behind the last token there is only the end of input
    rw [List.getD_eq_default _ _ (by omega)]
    exact fun hparen => by cases hparen

/-- The parser without calls. -/
def dropCalls (p : Parser σ) : Parser σ :=
  { p with
    options := { p.options with calls := false }
    tables := .standard { p.options with calls := false } }

/-- A parser of the language in front of tokens without the form of a call. -/
structure Callless (p : Parser σ) : Prop where
  tables : p.tables = .standard p.options
  callFree : p.CallFree

namespace Callless

variable {p p' : Parser σ}

theorem of_view (h : p.Callless) (hview : p'.view = p.view) : p'.Callless := by
  simp only [view, Prod.mk.injEq] at hview
  obtain ⟨hwindow, htables, hoptions, -⟩ := hview
  exact ⟨by rw [htables, hoptions, h.tables], h.callFree.of_window (n := 0) hwindow⟩

theorem record (h : p.Callless) (cause : Cause) (place : Position) :
    (p.record cause place).Callless :=
  ⟨h.tables, h.callFree.of_window (n := 0) rfl⟩

theorem advance (h : p.Callless) : p.advance.Callless :=
  ⟨h.tables, h.callFree.of_window (n := 1) rfl⟩

/-- Behind an operand the same operators are there with and without calls. -/
theorem operator?_peek (h : p.Callless) (hend : p.AtOperandEnd) :
    p.tables.operator? p.peek.kind = p.dropCalls.tables.operator? p.peek.kind := by
  rw [h.tables]
  exact Tables.standardOperator?_eq (h.callFree 0 hend) _ _

end Callless

end Parser

/-- What is known of a parser at a stage of reading. -/
def Parser.ReadsNoCall (p : Parser σ) : Stage → Prop
  | .operand => p.Callless ∧ p.AtOperandEnd
  | _ => p.Callless

namespace Parser.ReadsNoCall

variable {ι : Type} {inner : ι → ι} {i i' : ι} {stage stage' : Stage} {p p' : Parser σ}

theorem callless (h : p.ReadsNoCall stage) : p.Callless := by
  cases stage with
  | operand => exact h.1
  | _ => exact h

/-- Nesting and the log make no difference. -/
theorem of_view (h : p.ReadsNoCall stage) (hview : p'.view = p.view) : p'.ReadsNoCall stage := by
  have hcallless : p'.Callless := h.callless.of_view hview
  cases stage with
  | operand =>
    have hcurrent : p'.current = p.current := congrArg (·.1.1) hview
    refine ⟨hcallless, ?_⟩
    rw [AtOperandEnd, hcurrent]
    exact h.2
  | _ => exact hcallless

/-- What is turned into the last token of an operand can end one. -/
theorem turn (h : p.ReadsNoCall stage) (hturns : p.Turns inner stage i stage' i') :
    p.ReadsNoCall stage' := by
  cases hturns with
  | start _ => exact h
  | take => exact h
  | leave => exact h.callless
  | operand hkind =>
    refine ⟨h, .inl ?_⟩
    simp only [List.mem_cons, List.not_mem_nil, or_false] at hkind
    rcases hkind with hkind | hkind | hkind | hkind | hkind <;> rw [hkind] <;> rfl
  | block hends =>
    refine ⟨h, ?_⟩
    unfold AtOperandEnd
    cases hkind : p.current.kind with
    | closeCurly => exact .inl rfl
    | endOfInput => exact .inr rfl
    | _ => rw [hkind] at hends; cases hends

theorem advance (h : p.ReadsNoCall stage) (hmoves : p.Moves inner stage i stage' i') :
    p.advance.ReadsNoCall stage' := by
  have hcallless : p.advance.Callless := h.callless.advance
  cases hmoves <;> exact hcallless

theorem record (h : p.ReadsNoCall stage) {cause : Cause} {token : Token}
    (hfinds : p.Finds stage cause token stage') :
    (p.record cause token.span.start).ReadsNoCall stage' := by
  have hcallless : (p.record cause token.span.start).Callless := h.callless.record cause _
  cases hfinds with
  | outOfRange hkind _ =>
    have hend : p.AtOperandEnd := .inl (by rw [hkind]; rfl)
    exact ⟨hcallless, hend⟩
  | _ => exact hcallless

end Parser.ReadsNoCall

/-- Each parser beside itself without calls. -/
def besideCallless : Beside σ σ where
  parser p := p.dropCalls
  tables _ := rfl

/-- Without the form of a call, parsers with and without calls go side by side. -/
def droppingCalls : Invariant (besideCallless (σ := σ)) Unit where
  values := .same
  inner := id
  holds stage _ p := p.ReadsNoCall stage
  tables h := h.tables
  operators h := h.1.operator?_peek h.2
  turn h hturns := h.turn hturns
  advance h hmoves := h.advance hmoves
  record h hfinds := h.record hfinds
  of_view h hview := h.of_view hview

/--
On tokens without the form of a call, well-formed or not, parsing with and without calls yields the
same program and finds the same wrong.
-/
theorem parseTokens_calls {tokens : List Token} (hinner : NoInnerEnd tokens)
    (h : NoCallForm tokens) (strict : Bool) :
    (parseTokens tokens { strictSemicolons := strict, calls := true }).program =
        (parseTokens tokens { strictSemicolons := strict, calls := false }).program ∧
      (parseTokens tokens { strictSemicolons := strict, calls := true }).diagnostics =
        (parseTokens tokens { strictSemicolons := strict, calls := false }).diagnostics := by
  let options : Options := { strictSemicolons := strict, calls := true }
  let lacking : Options := { strictSemicolons := strict, calls := false }
  have hfresh : (Parser.ofSupply (TokenStream.ofList tokens) options).Callless :=
    ⟨rfl, Parser.callFree_ofList hinner h options⟩
  have hbeside : .ofSupply (TokenStream.ofList tokens) lacking =
      (Parser.ofSupply (TokenStream.ofList tokens) options).dropCalls := rfl
  obtain ⟨p, -, hstatements, hp, hq⟩ := droppingCalls.parse (i := ()) hbeside hfresh
  constructor
  · exact congrArg Program.mk (List.forall₂_eq_eq_eq ▸ hstatements)
  · rw [parseTokens, parseTokens, hp, hq]
    rfl

/-- Groups and conditions are no calls, also where parentheses and braces are not closed. -/
theorem parseTokens_calls_sample :
    NoCallForm (tokenize "-(a + b) * (c; ) if (d) \x7b fn(e) \x7b (f" none) ∧
    (parseTokens (tokenize "-(a + b) * (c; ) if (d) \x7b fn(e) \x7b (f" none)
      { strictSemicolons := true, calls := true }).diagnostics.length = 3 ∧
    (parseTokens (tokenize "-(a + b) * (c; ) if (d) \x7b fn(e) \x7b (f" none)
      { strictSemicolons := true, calls := true }).program =
    (parseTokens (tokenize "-(a + b) * (c; ) if (d) \x7b fn(e) \x7b (f" none)
      { strictSemicolons := true, calls := false }).program := by
  refine ⟨by decide +kernel, by decide +kernel, (parseTokens_calls ?_ ?_ true).1⟩
  · decide +kernel
  · decide +kernel

example : (parseTokens (tokenize "a (b)" none) { calls := true }).program ≠
    (parseTokens (tokenize "a (b)" none) { calls := false }).program := by
  decide +kernel

end Monkey
