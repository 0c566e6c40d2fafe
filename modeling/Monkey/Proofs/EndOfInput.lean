import Monkey.Proofs.Mirror
import Monkey.Proofs.Progress

/-!
# What stands behind an end of input

A supply has to hand out ends of input only once it has handed out one. A list of tokens with an end
of input inside does not: it hands out what stands behind. The parser relies on the supply, and does
not stop at an end of input in the middle of a statement: a statement that is cut off there is
passed like any other, and then the parser stands behind it (`parseTokens_reads_on`).

So the tokens behind an end of input make a difference only if the parser takes that end of input as
it takes other tokens (`parseTokens_behind_end`). How many tokens it takes is counted by a supply
with a diary. Up to the end of input a parser in front of the longer list goes side by side with one
in front of the shorter (`Parser.Abreast`), and behind it the shorter one comes to ends of input
only.
-/

namespace Monkey

open ParserM TokenSource

variable {σ τ : Type} [TokenSource σ] [TokenSource τ]

/-! ## Tokens that are taken -/

/-- How many tokens a parse takes: those that it asks its supply for, but for the two that are in
view at the end. -/
def tokensTaken (supply : σ) (options : Options) : Nat :=
  ((parseProgram.run (Parser.ofSupply (⟨supply, 0, []⟩ : Diary σ) options)).parser?.map
    fun after => after.supply.moves - 2).getD 0

/-- A diary leaves the tokens as they are. -/
theorem nth_diary (diary : Diary σ) (count : Nat) : nth diary count = nth diary.supply count := by
  induction count generalizing diary with
  | zero => rfl
  | succ count ih => exact ih (next diary).2

/-- The tokens that were taken are those that reading all statements has taken. -/
theorem tokensTaken_eq {supply : σ} {options : Options} {statements : List Statement}
    {after : Parser (Diary σ)}
    (h : ((routines (Parser.ofSupply (⟨supply, 0, []⟩ : Diary σ) options).steps).statements
      .program).run (((Parser.ofSupply (⟨supply, 0, []⟩ : Diary σ) options).write
        .openedProgram).write .entered) = .ok statements after) :
    tokensTaken supply options = after.supply.moves - 2 := by
  have hrun : parseProgram.run (Parser.ofSupply (⟨supply, 0, []⟩ : Diary σ) options) =
      .ok ⟨statements⟩ ((after.write (.event (.parsed statements.length
        after.diagnostics.size))).write .left) := by
    rw [run_parseProgram, Routines.program]
    simp only [run_bind, run_modify, h]
    rfl
  rw [tokensTaken, hrun]
  rfl

/-! ## Side by side up to a place -/

namespace Parser

/-- The first parser counts its tokens and has not asked for more than some number; up to there the
second one comes to the same tokens, and behind to ends of input. -/
structure SameUpTo (stop : Nat) (p : Parser (Diary σ)) (q : Parser τ) : Prop where
  le_stop : p.supply.moves ≤ stop
  token (count : Nat) : p.supply.moves + count ≤ stop → p.token count = q.token count
  ended (count : Nat) : stop ≤ p.supply.moves + count → (q.token count).kind = .endOfInput

namespace SameUpTo

variable {stop : Nat} {p p' : Parser (Diary σ)} {q q' : Parser τ}

theorem of_window (h : p.SameUpTo stop q) (hp : p'.window = p.window) (hq : q'.window = q.window) :
    p'.SameUpTo stop q' := by
  have hsupply : p'.supply = p.supply := congrArg (·.2.2) hp
  refine ⟨by rw [hsupply]; exact h.le_stop, fun count hle => ?_, fun count hle => ?_⟩
  · rw [hsupply] at hle
    rw [token_of_same_window hp, token_of_same_window hq]
    exact h.token count hle
  · rw [hsupply] at hle
    rw [token_of_same_window hq]
    exact h.ended count hle

theorem current_eq (h : p.SameUpTo stop q) : p.current = q.current :=
  h.token 0 h.le_stop

theorem advance (h : p.SameUpTo stop q) (hless : p.supply.moves < stop) :
    p.advance.SameUpTo stop q.advance := by
  have hmoves (count : Nat) : p.advance.supply.moves + count = p.supply.moves + (count + 1) :=
    Nat.add_right_comm p.supply.moves 1 count
  refine ⟨hless, fun count hle => ?_, fun count hle => ?_⟩
  · rw [hmoves] at hle
    exact h.token (count + 1) hle
  · rw [hmoves] at hle
    exact h.ended (count + 1) hle

/-- The next token is the same, or one more token takes the first parser too far while the second
one is at its end. -/
theorem peek_cases (h : p.SameUpTo stop q) :
    p.peek = q.peek ∧ p.supply.moves < stop ∨
      stop < p.advance.supply.moves ∧ q.peek.kind = .endOfInput := by
  by_cases hless : p.supply.moves < stop
  · exact .inl ⟨h.token 1 hless, hless⟩
  · have hstop : stop ≤ p.supply.moves := Nat.le_of_not_lt hless
    exact .inr ⟨Nat.lt_succ_of_le hstop, h.ended 1 (Nat.le_succ_of_le hstop)⟩

end SameUpTo

/-- Two parsers of the language that come to the same tokens up to a place, and have recorded the
same causes. -/
structure Abreast (stop : Nat) (p : Parser (Diary σ)) (q : Parser τ) : Prop
    extends p.SameUpTo stop q where
  options : p.options = q.options
  tables : p.tables = .standard p.options
  tables_eq : q.tables = p.tables
  depth : p.depth = q.depth
  causes : p.diagnostics.toList.map Diagnostic.cause = q.diagnostics.toList.map Diagnostic.cause

namespace Abreast

variable {stop : Nat} {p : Parser (Diary σ)} {q : Parser τ}

theorem alike (h : p.Abreast stop q) : p.Alike q :=
  ⟨h.depth, by rw [h.options], h.tables, by rw [h.tables_eq, h.tables, h.options]⟩

theorem current_kind (h : p.Abreast stop q) : p.current.kind = q.current.kind := by
  rw [h.current_eq]

theorem current_text (h : p.Abreast stop q) : p.current.text = q.current.text := by
  rw [h.current_eq]

theorem peek_kind (h : p.Abreast stop q) :
    p.peek.kind = q.peek.kind ∨ stop < p.advance.supply.moves ∧ q.peek.kind = .endOfInput :=
  h.peek_cases.imp_left fun hpeek => congrArg Token.kind hpeek.1

theorem advance_cases (h : p.Abreast stop q) :
    stop < p.advance.supply.moves ∨ p.advance.Abreast stop q.advance := by
  rcases h.peek_cases with ⟨-, hless⟩ | ⟨hmore, -⟩
  · exact .inr { h with toSameUpTo := h.toSameUpTo.advance hless }
  · exact .inl hmore

theorem write (h : p.Abreast stop q) (entry : LogEntry) :
    (p.write entry).Abreast stop (q.write entry) :=
  { h with toSameUpTo := h.toSameUpTo.of_window rfl rfl }

theorem enterNesting (h : p.Abreast stop q) :
    { p with depth := p.depth + 1 }.Abreast stop { q with depth := q.depth + 1 } :=
  { h with
    toSameUpTo := h.toSameUpTo.of_window rfl rfl
    depth := congrArg (· + 1) h.depth }

theorem leaveNesting (h : p.Abreast stop q) : p.leaveNesting.Abreast stop q.leaveNesting :=
  { h with
    toSameUpTo := h.toSameUpTo.of_window rfl rfl
    depth := congrArg (· - 1) h.depth }

/-- The same cause may be recorded at different places. -/
theorem record (h : p.Abreast stop q) {cause cause' : Cause} (hcause : cause = cause')
    (place place' : Position) : (p.record cause place).Abreast stop (q.record cause' place') :=
  { h with
    toSameUpTo := h.toSameUpTo.of_window rfl rfl
    causes := by simp [Parser.record, h.causes, hcause] }

end Abreast

end Parser

/-- Two parsers that come to the same tokens up to a place go on side by side, until the first one
asks for more. -/
def steppingTo (stop : Nat) : Coupling (Diary σ) τ Unit where
  values := .same
  inner := id
  gone p := stop < p.supply.moves
  holds _ _ p q := p.Abreast stop q
  gone_later {p p' n} h hwindow := by
    have hsupply : p'.supply = (p.skip n).supply := congrArg (·.2.2) hwindow
    rw [hsupply, Parser.moves_skip]
    exact Nat.lt_of_lt_of_le h (Nat.le_add_right _ _)
  alike h := h.alike
  current_between h := h.current_kind
  current_taken h := h.current_kind
  peek_taken h := h.peek_kind
  peek_failed h := h.peek_kind.imp_right And.left
  operator_peek h hkind := by rw [h.tables_eq, hkind]
  facing_of_between h _ := h
  taken_of_facing h := h
  taken_of_operand h := h
  operand_of_facing h _ := h
  operand_of_block h _ := h
  advance h _ := h.advance_cases
  next h := h.advance_cases
  enter h _ := h.advance_cases
  recover h := h.advance_cases
  failed_advance := by
    intro _ p q h hp hq
    rcases h.peek_cases with ⟨-, hless⟩ | ⟨-, hend⟩
    · exact { h with toSameUpTo := h.toSameUpTo.advance hless }
    · rw [hend] at hq
      cases hq
  write entry h := h.write entry
  deeper h _ := h.enterNesting
  leave_operand h := h.leaveNesting
  leave_failed h := h.leaveNesting
  unexpected h hkind _ := h.record (by rw [hkind]) _ _
  missing h _ := h.record (by rw [h.current_kind]) _ _
  tooDeep h := h.record rfl _ _
  name h _ := h.current_text
  sign h _ := h.current_text
  operator h _ := h.current_text
  integer {i p q} h _ := by
    change (integerOperand p).Coupled _ _ _ _ (integerOperand q)
    unfold integerOperand
    rw [h.current_eq]
    cases Text.readInt64? q.current.text.toList with
    | some value => exact .ok rfl h
    | none => exact .ok rfl (h.record rfl _ _)

/-- If no more tokens are taken than two supplies have in common before the second one comes to its
end, then both are parsed alike. -/
theorem parse_of_tokensTaken {supply : σ} {supply' : τ} {options : Options} {stop : Nat}
    (hsame : ∀ count ≤ stop, nth supply count = nth supply' count)
    (hended : ∀ count, stop ≤ count → (nth supply' count).kind = .endOfInput)
    (htaken : tokensTaken supply options ≤ stop) :
    (parse supply options).program = (parse supply' options).program ∧
      (parse supply options).diagnostics.map Diagnostic.cause =
        (parse supply' options).diagnostics.map Diagnostic.cause := by
  let diary : Diary σ := ⟨supply, 0, []⟩
  -- counting changes nothing, and so the parse that counts stands for the one that does not
  have htoken (count : Nat) : (nth supply count).Mirrors Eq (nth diary count) := by
    rw [nth_diary]
    exact .refl _ rfl
  obtain ⟨hprogram, hdiagnostics⟩ := parse_mirrors options htoken
  have hfresh : (Parser.ofSupply diary options).Abreast (stop + 2)
      (.ofSupply supply' options) := by
    refine ⟨⟨Nat.le_add_left 2 stop, fun count hle => ?_, fun count hle => ?_⟩, rfl, rfl, rfl, rfl,
      rfl⟩
    · rw [Parser.token_ofSupply, Parser.token_ofSupply, nth_diary]
      exact hsame count (Nat.le_of_add_le_add_left (Nat.add_comm stop 2 ▸ hle))
    · rw [Parser.token_ofSupply]
      exact hended count (Nat.le_of_add_le_add_left (Nat.add_comm stop 2 ▸ hle))
  obtain ⟨statements, p, hrun, hcases⟩ := (steppingTo (stop + 2)).parse_or_gone (i := ()) hfresh
  rw [tokensTaken_eq hrun] at htaken
  rcases hcases with hgone | ⟨q, hlast, hstatements, hp, hq⟩
  · have hmore : stop + 2 < p.supply.moves := hgone
    omega
  · rw [hprogram, eq_of_forall₂_mirrors hdiagnostics, hp, hq]
    refine ⟨congrArg Program.mk ?_, hlast.causes⟩
    rwa [← List.forall₂_eq_eq_eq]

/-! ## Lists of tokens -/

section Lists

variable {tokens back : List Token} {eof : Token}

/-- Up to an end of input it makes no difference what stands behind. -/
theorem nth_behind_end {count : Nat} (h : count ≤ tokens.length) :
    nth (TokenStream.ofList (tokens ++ eof :: back)) count =
      nth (TokenStream.ofList (tokens ++ [eof])) count := by
  rw [TokenStream.ofList, TokenStream.ofList, nth_tokenStream, nth_tokenStream]
  rcases Nat.lt_or_eq_of_le h with hless | rfl
  · rw [List.getD_append _ _ _ _ hless, List.getD_append _ _ _ _ hless,
      List.getD_eq_getElem _ _ hless, List.getD_eq_getElem _ _ hless]
  · rw [List.getD_append_right _ _ _ _ (Nat.le_refl _),
      List.getD_append_right _ _ _ _ (Nat.le_refl _), Nat.sub_self]
    rfl

/-- From an end of input on, a list hands out nothing else if there is nothing else in it. -/
theorem kind_nth_of_ends (heof : eof.kind = .endOfInput)
    (hback : ∀ token ∈ back, token.kind = .endOfInput) {count : Nat} (h : tokens.length ≤ count) :
    (nth (TokenStream.ofList (tokens ++ eof :: back)) count).kind = .endOfInput := by
  rw [TokenStream.ofList, nth_tokenStream, List.getD_append_right _ _ _ _ h,
    List.getD_eq_getElem?_getD]
  cases hget : (eof :: back)[count - tokens.length]? with
  | none => rfl
  | some token =>
    rcases List.mem_cons.1 (List.mem_of_getElem? hget) with rfl | hmem
    · exact heof
    · exact hback token hmem

/-- Ends of input behind an end of input may only move what is found wrong there. -/
theorem parse_of_ends (heof : eof.kind = .endOfInput)
    (hback : ∀ token ∈ back, token.kind = .endOfInput) (options : Options) :
    (parseTokens (tokens ++ eof :: back) options).program =
        (parseTokens (tokens ++ [eof]) options).program ∧
      (parseTokens (tokens ++ eof :: back) options).diagnostics.map Diagnostic.cause =
        (parseTokens (tokens ++ [eof]) options).diagnostics.map Diagnostic.cause := by
  have htoken (count : Nat) : (nth (TokenStream.ofList (tokens ++ eof :: back)) count).Mirrors
      (fun _ _ => True) (nth (TokenStream.ofList (tokens ++ [eof])) count) := by
    rcases Nat.le_total count tokens.length with hle | hge
    · rw [nth_behind_end hle]
      exact .refl _ trivial
    · have hkind := kind_nth_of_ends heof hback hge
      have hlast : (nth (TokenStream.ofList (tokens ++ [eof])) count).kind = .endOfInput :=
        kind_nth_of_ends heof (List.forall_mem_nil _) hge
      exact ⟨hkind.trans hlast.symm, fun hmore => absurd hkind hmore, trivial⟩
  obtain ⟨hprogram, hdiagnostics⟩ := parse_mirrors options htoken
  refine ⟨hprogram, ?_⟩
  rw [← List.forall₂_eq_eq_eq, List.forall₂_map_left_iff, List.forall₂_map_right_iff]
  exact hdiagnostics.imp fun _ _ h => h.cause

/--
The tokens behind an end of input make no difference to the program and to what is found wrong, as
long as the parser does not take that end of input itself, or if they are nothing but further ends
of input.
-/
theorem parseTokens_behind_end (heof : eof.kind = .endOfInput) (options : Options)
    (h : tokensTaken (TokenStream.ofList (tokens ++ eof :: back)) options ≤ tokens.length ∨
      ∀ token ∈ back, token.kind = .endOfInput) :
    (parseTokens (tokens ++ eof :: back) options).program =
        (parseTokens (tokens ++ [eof]) options).program ∧
      (parseTokens (tokens ++ eof :: back) options).diagnostics.map Diagnostic.cause =
        (parseTokens (tokens ++ [eof]) options).diagnostics.map Diagnostic.cause := by
  rcases h with htaken | hback
  · exact parse_of_tokensTaken (fun count hle => nth_behind_end hle)
      (fun count hle => kind_nth_of_ends heof (List.forall_mem_nil _) hle) htaken
  · exact parse_of_ends heof hback options

end Lists

/-- Nothing goes on with the last expression behind the end of input. -/
theorem parseTokens_behind_end_sample :
    tokensTaken (TokenStream.ofList ((tokenize "let b = 1; !b" none).dropLast ++
      .synthetic .endOfInput "" :: [.synthetic .plus "+", .synthetic .identifier "c"])) {} = 7 ∧
    (parseTokens ((tokenize "let b = 1; !b" none).dropLast ++
      .synthetic .endOfInput "" :: [.synthetic .plus "+", .synthetic .identifier "c"]) {}).program =
    (parseTokens ((tokenize "let b = 1; !b" none).dropLast ++ [.synthetic .endOfInput ""])
      {}).program := by
  have htaken : tokensTaken (TokenStream.ofList ((tokenize "let b = 1; !b" none).dropLast ++
      .synthetic .endOfInput "" :: [.synthetic .plus "+", .synthetic .identifier "c"])) {} = 7 := by
    decide +kernel
  have hlength : (tokenize "let b = 1; !b" none).dropLast.length = 7 := by decide +kernel
  exact ⟨htaken,
    (parseTokens_behind_end rfl {} (.inl (Nat.le_of_eq (htaken.trans hlength.symm)))).1⟩

/-- A value that is missing at an end of input is passed, and so is that end of input: what stands
behind becomes a statement. -/
theorem parseTokens_reads_on :
    ¬ ∀ (tokens back : List Token) (eof : Token) (options : Options), eof.kind = .endOfInput →
      (parseTokens (tokens ++ eof :: back) options).program =
          (parseTokens (tokens ++ [eof]) options).program ∧
        (parseTokens (tokens ++ eof :: back) options).diagnostics.map Diagnostic.cause =
          (parseTokens (tokens ++ [eof]) options).diagnostics.map Diagnostic.cause := by
  intro h
  have hsame := (h [.synthetic .returnWord "return"] [.synthetic .identifier "a"]
    (.synthetic .endOfInput "") {} rfl).1
  have hlonger : (parseTokens ([.synthetic .returnWord "return"] ++
      .synthetic .endOfInput "" :: [.synthetic .identifier "a"]) {}).program =
        ⟨[.expression (.identifier "a")]⟩ := by
    decide +kernel
  have hshorter : (parseTokens ([.synthetic .returnWord "return"] ++
      [.synthetic .endOfInput ""]) {}).program = ⟨[]⟩ := by
    decide +kernel
  rw [hlonger, hshorter] at hsame
  cases hsame

end Monkey
