import Mathlib.Data.List.GetD
import Monkey.Proofs.Input

/-!
# The tokens that come, one by one

`Parser.token` is the token a number of moves ahead. A parser shows a list of tokens
(`Parser.Shows`) if these come first and then one end of input for ever, always the same. A prepared
list without an end of input is shown by a parser in front of it (`shows_tokenStream`), and so are
the tokens of a source (`exists_shows_scanner`). Unlike `Parser.input`, this also says what the end
of input looks like, which is where the last diagnostics are placed.
-/

namespace Monkey

open TokenSource

variable {σ : Type} [TokenSource σ]

/-- The token that a supply hands out after a number of others. -/
def TokenSource.nth (supply : σ) : Nat → Token
  | 0 => (next supply).1
  | count + 1 => nth (next supply).2 count

namespace Parser

/-- The token that is current after a number of moves. -/
def token (parser : Parser σ) (count : Nat) : Token :=
  (parser.skip count).current

theorem token_of_window {p q : Parser σ} {moves : Nat} (h : q.window = (p.skip moves).window)
    (count : Nat) : q.token count = p.token (moves + count) := by
  have hwindow := window_skip h count
  rw [skip_skip] at hwindow
  exact congrArg Prod.fst hwindow

theorem token_of_same_window {p q : Parser σ} (h : q.window = p.window) (count : Nat) :
    q.token count = p.token count :=
  congrArg Prod.fst (window_skip h count)

/-- The token behind the one that is current after a number of moves. -/
theorem peek_skip (parser : Parser σ) (count : Nat) :
    (parser.skip count).peek = parser.token (count + 1) := by
  rw [token, ← skip_skip]
  rfl

/-- A fresh parser goes through the tokens of its supply. -/
theorem token_ofSupply (supply : σ) (options : Options) (count : Nat) :
    (ofSupply supply options).token count = nth supply count := by
  -- the parser holds two tokens already, so its window is what the induction is about
  have hwindow (parser : Parser σ)
      (h : parser.window =
        ((next supply).1, (next (next supply).2).1, (next (next supply).2).2)) :
      parser.token count = nth supply count := by
    induction count generalizing supply parser with
    | zero => exact congrArg Prod.fst h
    | succ count ih =>
      refine ih (next supply).2 parser.advance ?_
      simp only [window, Prod.mk.injEq] at h
      simp only [window, advance, h]
  exact hwindow _ rfl

/-- The tokens up to the first end of input are the input. -/
theorem input_eq_of_token {parser : Parser σ} {tokens : List Token}
    (htoken : ∀ index (h : index < tokens.length), parser.token index = tokens[index])
    (hnoEnd : NoEnd tokens) (hlast : (parser.token tokens.length).kind = .endOfInput) :
    parser.input = tokens := by
  induction tokens generalizing parser with
  | nil => exact if_pos hlast
  | cons token tokens ih =>
    obtain ⟨hmore, hnoEnd⟩ := noEnd_cons.1 hnoEnd
    have hcurrent : parser.current = token := htoken 0 (Nat.succ_pos _)
    have hahead : parser.advance.input = tokens :=
      ih (fun index h => htoken (index + 1) (Nat.succ_lt_succ h)) hnoEnd hlast
    rw [input_of_current (hcurrent ▸ hmore), ← input_advance, hahead, hcurrent]

/-! ## Lists of tokens that are shown -/

/-- The tokens that come are those of a list, and then one and the same end of input. -/
structure Shows (parser : Parser σ) (tokens : List Token) (eof : Token) : Prop where
  token_eq (count : Nat) : parser.token count = tokens.getD count eof
  noEnd : NoEnd tokens
  isEnd : eof.kind = .endOfInput

namespace Shows

variable {p q : Parser σ} {tokens : List Token} {eof : Token}

theorem current_eq (h : p.Shows tokens eof) : p.current = tokens.getD 0 eof :=
  h.token_eq 0

theorem peek_eq (h : p.Shows tokens eof) : p.peek = tokens.getD 1 eof :=
  h.token_eq 1

theorem of_window {n : Nat} (h : p.Shows tokens eof)
    (hq : q.window = (p.skip n).window) : q.Shows (tokens.drop n) eof := by
  refine ⟨fun count => ?_, fun t ht => h.noEnd t (List.mem_of_mem_drop ht), h.isEnd⟩
  rw [token_of_window hq, h.token_eq]
  simp [List.getD_eq_getElem?_getD]

theorem same_window (h : p.Shows tokens eof) (hq : q.window = p.window) : q.Shows tokens eof :=
  h.of_window (n := 0) hq

theorem advance (h : p.Shows tokens eof) : p.advance.Shows tokens.tail eof := by
  rw [← List.drop_one]
  exact h.of_window (n := 1) rfl

theorem current_kind_eq_end (h : p.Shows tokens eof) :
    p.current.kind = .endOfInput ↔ tokens = [] := by
  rw [h.current_eq]
  cases tokens with
  | nil => simpa using h.isEnd
  | cons token tokens => simpa using (noEnd_cons.1 h.noEnd).1

/-- The tokens that are shown are the input. -/
theorem input_eq (h : p.Shows tokens eof) : p.input = tokens := by
  refine input_eq_of_token (fun index hless => ?_) h.noEnd ?_
  · rw [h.token_eq, List.getD_eq_getElem _ _ hless]
  · rw [h.token_eq, List.getD_eq_default _ _ (Nat.le_refl _)]
    exact h.isEnd

theorem ahead_eq (h : p.Shows tokens eof) : p.ahead = tokens.tail := by
  rw [← input_advance, h.advance.input_eq]

end Shows

end Parser

/-! ## Prepared lists -/

theorem nth_tokenStream (tokens : List Token) (finish : Position) (count : Nat) :
    nth (⟨tokens, finish⟩ : TokenStream) count =
      tokens.getD count (TokenStream.endToken ⟨[], finish⟩) := by
  induction count generalizing tokens with
  | zero => cases tokens <;> rfl
  | succ count ih =>
    cases tokens with
    | nil => exact ih []
    | cons token tokens => exact ih tokens

theorem shows_tokenStream {tokens : List Token} (h : NoEnd tokens) (options : Options) :
    (Parser.ofSupply (TokenStream.ofList tokens) options).Shows tokens
      (TokenStream.ofList tokens).endToken := by
  refine ⟨fun count => ?_, h, rfl⟩
  rw [Parser.token_ofSupply]
  exact nth_tokenStream tokens _ count

/-! ## Sources -/

theorem Scanner.moveBy_moveBy (scanner : Scanner) (front text mid rest : List Char) :
    (scanner.moveBy front mid).moveBy text rest = scanner.moveBy (front ++ text) rest := by
  simp [Scanner.moveBy, Nat.add_assoc]

/-- What a scanner hands out stands behind a gap that is skipped: the end of input, if nothing else
is left, or a token made of the next characters. -/
theorem Scanner.next_cases (scanner : Scanner) :
    Scanner.next scanner =
        ((scanner.moveBy scanner.rest []).endToken, scanner.moveBy scanner.rest []) ∨
      ∃ gap text rest kind, scanner.rest = gap ++ (text ++ rest) ∧ text ≠ [] ∧
        kind ≠ .endOfInput ∧
        Scanner.next scanner =
          ((scanner.moveBy gap (text ++ rest)).tokenOf kind text,
            scanner.moveBy (gap ++ text) rest) := by
  generalize hlen : scanner.rest.length = n
  induction n using Nat.strongRecOn generalizing scanner with
  | _ n ih =>
    subst hlen
    obtain ⟨rest, offset, file⟩ := scanner
    rw [Scanner.next_eq]
    cases rest with
    | nil => exact .inl rfl
    | cons c rest =>
      simp only
      cases found : lexeme? (c :: rest) with
      | none =>
        exact .inr ⟨[], [c], rest, .illegal, rfl, List.cons_ne_nil _ _, by decide, rfl⟩
      | some lexeme =>
        have hsplit := lexeme?_append found
        simp only
        cases hkind : lexeme.pattern.kind? (String.ofList lexeme.text) with
        | some kind =>
          refine .inr ⟨[], lexeme.text, lexeme.rest, kind, hsplit.symm, lexeme?_ne_nil found, ?_,
            rfl⟩
          rintro rfl
          exact Pattern.kind?_ne_end (lexeme?_eq_some found).1 _ hkind
        | none =>
          simp only
          rcases ih _ (lexeme?_rest_length found)
            (Scanner.moveBy ⟨c :: rest, offset, file⟩ lexeme.text lexeme.rest) rfl with
            hend | ⟨gap, text, behind, kind, hrest, htext, hkind, hnext⟩
          · refine .inl ?_
            rw [hend, Scanner.moveBy_moveBy]
            simp only [Scanner.moveBy_rest, hsplit]
          · refine .inr ⟨lexeme.text ++ gap, text, behind, kind, ?_, htext, hkind, ?_⟩
            · rw [List.append_assoc, ← hrest, Scanner.moveBy_rest, hsplit]
            · rw [hnext, Scanner.moveBy_moveBy, Scanner.moveBy_moveBy, List.append_assoc]

/-- A scanner hands out a list of tokens and then, for ever, the end of input behind them. -/
theorem Scanner.exists_nth (scanner : Scanner) :
    ∃ tokens last, drain scanner = tokens ++ [Scanner.endToken last] ∧ NoEnd tokens ∧
      ∀ count, nth scanner count = tokens.getD count (Scanner.endToken last) := by
  generalize hlen : remaining scanner = n
  induction n using Nat.strongRecOn generalizing scanner with
  | _ n ih =>
    subst hlen
    rw [drain_eq]
    rcases Scanner.next_cases scanner with hend | ⟨gap, text, rest, kind, -, -, hkind, hnext⟩
    · -- behind the end of input the scanner stays as it is
      have hstay (count : Nat) : nth (scanner.moveBy scanner.rest []) count =
          (scanner.moveBy scanner.rest []).endToken := by
        induction count with
        | zero => rfl
        | succ count hcount => exact hcount
      refine ⟨[], scanner.moveBy scanner.rest [], ?_, noEnd_nil, fun count => ?_⟩
      · rw [show TokenSource.next scanner = _ from hend]
        rfl
      · cases count with
        | zero => exact congrArg Prod.fst hend
        | succ count =>
          refine Eq.trans ?_ (hstay count)
          exact congrArg (fun result => nth result.2 count) hend
    · have hmore : (TokenSource.next scanner).1.kind ≠ .endOfInput := by
        rw [show TokenSource.next scanner = _ from hnext]
        exact hkind
      have hpos : 0 < remaining scanner :=
        Nat.pos_of_ne_zero fun h => hmore (kind_next_of_drained scanner h)
      obtain ⟨tokens, last, hdrain, hnoEnd, hnth⟩ := ih _ (remaining_next_lt scanner hpos) _ rfl
      refine ⟨(TokenSource.next scanner).1 :: tokens, last, ?_, ?_, fun count => ?_⟩
      · rw [if_neg hmore, hdrain, List.cons_append]
      · exact noEnd_cons.2 ⟨hmore, hnoEnd⟩
      · cases count with
        | zero => rfl
        | succ count => exact hnth count

/-- The tokens of a source end with the end of input, and a parser in front of the source shows
them. -/
theorem exists_shows_scanner (source : String) (file : Option String) (options : Options) :
    ∃ tokens last, tokenize source file = tokens ++ [Scanner.endToken last] ∧
      (Parser.ofSupply (Scanner.ofSource source file) options).Shows tokens
        (Scanner.endToken last) := by
  obtain ⟨tokens, last, hdrain, hnoEnd, hnth⟩ :=
    Scanner.exists_nth (Scanner.ofSource source file)
  refine ⟨tokens, last, hdrain, fun count => ?_, hnoEnd, rfl⟩
  rw [Parser.token_ofSupply, hnth]

end Monkey
