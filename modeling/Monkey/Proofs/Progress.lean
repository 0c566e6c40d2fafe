import Monkey.Proofs.Diary

/-!
# Parsing goes on to the end

A program is read up to the end of input, and a bound on the number of tokens taken on the way is
known in advance (`parseProgram_reaches_end`): as many as there are, one more for the statement that
the last of them is in, and one more for each block, since a statement or a block that is cut off by
the end of input is passed like a token. On the way no rule is turned to at the end of input, and
every round of every loop takes a token.

What carries the bound is the sum of what was taken, what is ahead, the blocks around the parser and
the opening braces ahead (`Parser.Affords`). It only grows where a statement ends at the end of
input, and then the parser leaves the block around it.
-/

namespace Monkey

open ParserM TokenSource

variable {σ : Type} [TokenSource σ]

/-! ## Supplies of so many tokens -/

/-- A supply hands out some tokens, none of them an end of input, and then nothing but that. -/
structure TokenSource.Yields (supply : σ) (tokens : List Token) : Prop where
  token {index : Nat} (h : index < tokens.length) : nth supply index = tokens[index]
  noEnd : NoEnd tokens
  last {index : Nat} (h : tokens.length ≤ index) : (nth supply index).kind = .endOfInput

theorem yields_tokenStream {tokens : List Token} (h : NoEnd tokens) :
    Yields (TokenStream.ofList tokens) tokens where
  token hless := by
    rw [TokenStream.ofList, nth_tokenStream, List.getD_eq_getElem _ _ hless]
  noEnd := h
  last hmore := by
    rw [TokenStream.ofList, nth_tokenStream, List.getD_eq_default _ _ hmore]
    rfl

namespace TokenSource.Yields

variable {supply : σ} {tokens : List Token}

theorem endStays (h : Yields supply tokens) (options : Options) :
    (Parser.ofSupply supply options).EndStays := by
  intro count hend
  change ((Parser.ofSupply supply options).token count).kind = _ at hend
  rw [Parser.token_ofSupply] at hend
  rw [Parser.peek_skip, Parser.token_ofSupply]
  refine h.last (Nat.le_succ_of_le (Nat.le_of_not_lt fun hless => ?_))
  rw [h.token hless] at hend
  exact h.noEnd _ (List.getElem_mem hless) hend

theorem input_eq (h : Yields supply tokens) (options : Options) :
    (Parser.ofSupply supply options).input = tokens := by
  refine Parser.input_eq_of_token (fun index hless => ?_) h.noEnd ?_
  · rw [Parser.token_ofSupply, h.token hless]
  · rw [Parser.token_ofSupply, h.last (Nat.le_refl _)]

end TokenSource.Yields

/-! ## Loops that go on -/

/-- Whatever an action comes to, at least one token was taken. -/
def Outcome.Advances {α : Type} (before : Parser (Diary σ)) (outcome : Outcome (Diary σ) α) : Prop :=
  ∀ after, outcome.parser? = some after → before.supply.moves < after.supply.moves

theorem Parser.moves_skip (parser : Parser (Diary σ)) (count : Nat) :
    (parser.skip count).supply.moves = parser.supply.moves + count := by
  induction count generalizing parser with
  | zero => rfl
  | succ count ih =>
    rw [skip, ih]
    exact Nat.succ_add_eq_add_succ parser.supply.moves count

theorem Outcome.Moves.advances {α : Type} {before : Parser (Diary σ)}
    {outcome : Outcome (Diary σ) α} (h : outcome.Moves before) : outcome.Advances before := by
  have hless {after : Parser (Diary σ)}
      (hmoved : ∃ count, after.window = (before.skip (count + 1)).window) :
      before.supply.moves < after.supply.moves := by
    obtain ⟨count, hcount⟩ := hmoved
    have hsupply : after.supply = (before.skip (count + 1)).supply := congrArg (·.2.2) hcount
    rw [hsupply, Parser.moves_skip]
    omega
  intro after hafter
  cases outcome with
  | ok value last => cases hafter; exact hless h
  | absent last => cases hafter; exact hless h
  | stuck => cases hafter

/-- The loops of some routines over a supply that counts: each is a test, a round and the loop
again, and every round takes at least one token, whether it has a value or not. -/
structure Routines.GoesOnBy (again r : Routines (Diary σ)) : Prop where
  statements (region : Region) : r.statements region = unlessOver region (do
    let statement ← again.statementRound
    let rest ← again.statements region
    return statement.toList ++ rest)
  operators (limit : Precedence) (left : Expression) :
    r.operators limit left = byOperator limit left fun precedence rule =>
      again.operatorRound left precedence rule >>= again.operators limit
  parameters : r.parameters = ifComma (do
    let name ← parameterRound
    let rest ← again.parameters
    return name :: rest)
  arguments : r.arguments = ifComma (do
    let first ← again.argumentRound
    let rest ← again.arguments
    return first :: rest)
  statementRound (parser : Parser (Diary σ)) : (again.statementRound.run parser).Advances parser
  operatorRound (left : Expression) (precedence : Precedence) (rule : OperatorRule)
    (parser : Parser (Diary σ)) :
    ((again.operatorRound left precedence rule).run parser).Advances parser
  parameterRound (parser : Parser (Diary σ)) : (parameterRound.run parser).Advances parser
  argumentRound (parser : Parser (Diary σ)) : (again.argumentRound.run parser).Advances parser

theorem routines_goesOnBy (fuel : Nat) :
    (routines fuel : Routines (Diary σ)).GoesOnBy (routines (fuel + 1)) where
  statements := (routines fuel).statementsStep_eq
  operators := (routines fuel).operatorsStep_eq
  parameters := (routines fuel).parametersStep_eq
  arguments := (routines fuel).argumentsStep_eq
  statementRound parser := ((routines_framed fuel).statementRound_moves parser).advances
  operatorRound left precedence rule parser :=
    ((routines_framed fuel).operatorRound_moves left precedence rule parser).advances
  parameterRound parser := (parameterRound_moves parser).advances
  argumentRound parser := ((routines_framed fuel).argumentRound_moves parser).advances

/-! ## The end is reached -/

/--
A program is read up to the end of input, and at most as many tokens are taken as there are and, of
the end of input, one and one for each opening brace. On the way no statement and no rule for
operands or operators is turned to at the end of input, and every round of every loop goes on.
-/
theorem parseProgram_reaches_end {supply : σ} {tokens : List Token} (h : Yields supply tokens)
    (options : Options) :
    (∃ program after,
      (Parser.ofSupply supply options).watch (fun r => r.program) = .ok program after ∧
      parseProgram.run (Parser.ofSupply supply options) = .ok program after.bare ∧
      after.current.kind = .endOfInput ∧
      after.supply.moves ≤ tokens.length + 1 + braces tokens ∧
      ∀ moment ∈ after.supply.moments, moment.deed ≠ .deeper →
        moment.parser.current.kind ≠ .endOfInput) ∧
    ∀ fuel, (routines fuel : Routines (Diary σ)).GoesOnBy (routines (fuel + 1)) := by
  refine ⟨?_, routines_goesOnBy⟩
  let parser := Parser.ofSupply supply options
  let total := tokens.length + 1 + braces tokens
  -- the program counts as a block, for the statement that the end of input may cut off
  have hstart : Watches (some total) .between 1 parser parser.withDiary := by
    refine ⟨rfl, .withDiary rfl (Nat.zero_le _), fun bound hbound => ?_⟩
    cases hbound
    refine ⟨h.endStays options, fun _ => ?_, Nat.le_add_left _ _⟩
    change 0 + parser.input.length + braces parser.input + 1 ≤ total
    rw [h.input_eq options]
    omega
  obtain ⟨program, last, hrun⟩ := parseProgram_eq_ok parser (Tables.keepsEnd_standard options)
  have hprogram := watching_program hstart parser.steps
  rw [← run_parseProgram, hrun] at hprogram
  rw [Parser.watch]
  generalize (watched parser.steps).program.run parser.withDiary = y at hprogram ⊢
  cases hprogram with
  | @ok _ _ _ after hvalue hpost =>
    obtain ⟨⟨rfl, hproper, hspare⟩, hend⟩ := hpost
    subst hvalue
    obtain ⟨-, -, hmoves⟩ := hspare total rfl
    exact ⟨program, after, rfl, hrun, hend, Nat.le_of_succ_le_succ hmoves,
      fun moment hmem => (hproper.moments moment hmem).current⟩
  | gone hfalse => exact hfalse.elim

/-- All of them are taken where neither a block nor the statement in it is finished. -/
theorem parseProgram_reaches_end_sample :
    let tokens := (tokenize "fn() \x7b return" none).dropLast
    let parser := Parser.ofSupply (TokenStream.ofList tokens) {}
    tokens.length + 1 + braces tokens = 7 ∧
      ((parser.watch fun r => r.program).parser?.map fun after => after.supply.moves) = some 7 ∧
      ∃ program after, parser.watch (fun r => r.program) = .ok program after ∧
        after.current.kind = .endOfInput := by
  intro tokens parser
  refine ⟨by decide +kernel, by decide +kernel, ?_⟩
  have hnoEnd : ∀ token ∈ tokens, token.kind ≠ .endOfInput := by decide +kernel
  obtain ⟨⟨program, after, hwatch, -, hend, -⟩, -⟩ :=
    parseProgram_reaches_end (yields_tokenStream hnoEnd) {}
  exact ⟨program, after, hwatch, hend⟩

end Monkey
