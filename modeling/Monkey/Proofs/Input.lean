import Monkey.Parser.Parse
import Monkey.Parser.Refinement
import Monkey.Proofs.Frame
import Monkey.Proofs.Grammar

/-!
# The tokens in front of a parser

`Parser.input` is the list of tokens from the current one up to the end of input, and
`Parser.ahead` the list behind the current one. Moving on turns what is ahead into the input, so
where a parser stands is told by a list, and what it has read by how that list was cut. A supply
whose first end of input is its last token, such as a scanner or a list without one inside, hands
out nothing behind it (`Parser.EndStays`).
-/

namespace Monkey

open TokenSource

variable {σ : Type} [TokenSource σ]

/-! ## The content of a supply -/

/-- The tokens of a supply up to the end of input, without it. -/
def TokenSource.content (supply : σ) : List Token :=
  (drain supply).filter (·.kind ≠ .endOfInput)

theorem content_of_end {supply : σ} (h : (next supply).1.kind = .endOfInput) :
    content supply = [] := by
  rw [content, drain_eq, if_pos h]
  simp [h]

theorem content_of_more {supply : σ} (h : (next supply).1.kind ≠ .endOfInput) :
    content supply = (next supply).1 :: content (next supply).2 := by
  rw [content, drain_eq, if_neg h, List.filter_cons_of_pos (by simpa using h)]
  rfl

/-! ## Input and what is ahead -/

namespace Parser

/-- The tokens behind the current one, up to the end of input. -/
def ahead (parser : Parser σ) : List Token :=
  if parser.peek.kind = .endOfInput then [] else parser.peek :: content parser.supply

/-- The tokens from the current one on, up to the end of input. -/
def input (parser : Parser σ) : List Token :=
  if parser.current.kind = .endOfInput then [] else parser.current :: parser.ahead

@[simp] theorem ahead_write (parser : Parser σ) (entry : LogEntry) :
    (parser.write entry).ahead = parser.ahead := rfl

@[simp] theorem leadKind_ahead (parser : Parser σ) :
    leadKind .endOfInput parser.ahead = parser.peek.kind := by
  unfold ahead
  split
  next h => exact h.symm
  next => rfl

@[simp] theorem leadKind_input (parser : Parser σ) :
    leadKind .endOfInput parser.input = parser.current.kind := by
  unfold input
  split
  next h => exact h.symm
  next => rfl

/-- Moving on, what was ahead becomes the input. -/
@[simp] theorem input_advance (parser : Parser σ) : parser.advance.input = parser.ahead := by
  have hnext : parser.advance.ahead = content parser.supply := by
    unfold ahead
    by_cases h : (next parser.supply).1.kind = .endOfInput
    · rw [content_of_end h]
      exact if_pos h
    · rw [content_of_more h]
      exact if_neg h
  rw [input, hnext, ahead]
  rfl

theorem input_of_current {parser : Parser σ} (h : parser.current.kind ≠ .endOfInput) :
    parser.input = parser.current :: parser.ahead :=
  if_neg h

theorem ahead_of_peek {parser : Parser σ} (h : parser.peek.kind ≠ .endOfInput) :
    parser.ahead = parser.peek :: parser.advance.ahead := by
  rw [← input_advance]
  exact input_of_current h

theorem input_eq_cons {parser : Parser σ} {token : Token} {tokens : List Token}
    (h : parser.input = token :: tokens) : parser.current = token ∧ parser.ahead = tokens := by
  unfold input at h
  split at h
  next => cases h
  next => exact List.cons.inj h

theorem ahead_eq_cons {parser : Parser σ} {token : Token} {tokens : List Token}
    (h : parser.ahead = token :: tokens) :
    parser.peek = token ∧ parser.advance.ahead = tokens := by
  rw [← input_advance] at h
  exact input_eq_cons h

/-- Behind the end of input there is nothing. -/
theorem EndStays.ahead_eq_nil {parser : Parser σ} (h : parser.EndStays)
    (hend : parser.current.kind = .endOfInput) : parser.ahead = [] :=
  if_pos (h 0 hend)

/-! ## Fresh parsers -/

theorem input_ofSupply (supply : σ) (options : Options) :
    (ofSupply supply options).input = content supply := by
  by_cases h : (next supply).1.kind = .endOfInput
  · rw [content_of_end h]
    exact if_pos h
  · rw [content_of_more h]
    by_cases h' : (next (next supply).2).1.kind = .endOfInput
    · rw [content_of_end h']
      exact (if_neg h).trans (congrArg _ (if_pos h'))
    · rw [content_of_more h']
      exact (if_neg h).trans (congrArg _ (if_neg h'))

/-- The end of input stays if it does for the supply, as long as that keeps some property. -/
theorem endStays_ofSupply {supply : σ} (options : Options) {I : σ → Prop} (hI : I supply)
    (hnext : ∀ s, I s → I (next s).2)
    (hend : ∀ s, I s → (next s).1.kind = .endOfInput →
      (next (next s).2).1.kind = .endOfInput) :
    (ofSupply supply options).EndStays := by
  -- the window is two tokens behind the supply, so the property is carried for both of them
  let J (p : Parser σ) : Prop :=
    (p.current.kind = .endOfInput → p.peek.kind = .endOfInput) ∧
      (p.peek.kind = .endOfInput → (next p.supply).1.kind = .endOfInput) ∧ I p.supply
  have hadvance : ∀ p, J p → J p.advance := by
    intro p ⟨_, hpeek, hsupply⟩
    exact ⟨hpeek, hend _ hsupply, hnext _ hsupply⟩
  have hskip : ∀ count p, J p → J (p.skip count) := by
    intro count
    induction count with
    | zero => exact fun p h => h
    | succ count ih => exact fun p h => ih _ (hadvance p h)
  intro count
  refine (hskip count _ ?_).1
  exact ⟨hend _ hI, hend _ (hnext _ hI), hnext _ (hnext _ hI)⟩

end Parser

/-! ## Lists -/

/-- A list of tokens in which nothing stands behind an end of input. -/
def NoInnerEnd (tokens : List Token) : Prop :=
  ∀ token ∈ tokens.dropLast, token.kind ≠ .endOfInput

instance (tokens : List Token) : Decidable (NoInnerEnd tokens) :=
  inferInstanceAs (Decidable (∀ token ∈ tokens.dropLast, token.kind ≠ .endOfInput))

theorem NoInnerEnd.tail {token : Token} {tokens : List Token} (h : NoInnerEnd (token :: tokens)) :
    NoInnerEnd tokens := by
  cases tokens with
  | nil => exact fun _ hmem => by cases hmem
  | cons _ _ => exact fun t hmem => h t (List.mem_cons_of_mem _ hmem)

theorem NoInnerEnd.eq_nil {token : Token} {tokens : List Token}
    (h : NoInnerEnd (token :: tokens)) (hend : token.kind = .endOfInput) : tokens = [] := by
  cases tokens with
  | nil => rfl
  | cons _ _ => exact absurd hend (h token List.mem_cons_self)

/-- Tokens none of which is the end of input. -/
def NoEnd (tokens : List Token) : Prop :=
  ∀ token ∈ tokens, token.kind ≠ .endOfInput

@[simp] theorem noEnd_nil : NoEnd [] :=
  fun _ hmem => by cases hmem

@[simp] theorem noEnd_cons {token : Token} {tokens : List Token} :
    NoEnd (token :: tokens) ↔ token.kind ≠ .endOfInput ∧ NoEnd tokens :=
  List.forall_mem_cons

@[simp] theorem noEnd_append {front back : List Token} :
    NoEnd (front ++ back) ↔ NoEnd front ∧ NoEnd back :=
  List.forall_mem_append

theorem NoEnd.noInnerEnd {tokens : List Token} (h : NoEnd tokens) : NoInnerEnd tokens :=
  fun token hmem => h token (List.dropLast_subset _ hmem)

theorem NoEnd.filter {tokens : List Token} (h : NoEnd tokens) :
    tokens.filter (·.kind ≠ .endOfInput) = tokens :=
  List.filter_eq_self.2 fun token hmem => decide_eq_true (h token hmem)

/-- A list without an end of input inside is handed out whole. -/
theorem content_tokenStream {tokens : List Token} {finish : Position} (h : NoInnerEnd tokens) :
    content (⟨tokens, finish⟩ : TokenStream) = tokens.filter (·.kind ≠ .endOfInput) := by
  induction tokens with
  | nil => exact content_of_end rfl
  | cons token tokens ih =>
    by_cases hend : token.kind = .endOfInput
    · rw [content_of_end hend, h.eq_nil hend]
      simp [hend]
    · rw [content_of_more hend, List.filter_cons_of_pos (by simpa using hend)]
      exact congrArg _ (ih h.tail)

theorem endStays_tokenStream {tokens : List Token} (options : Options) (h : NoInnerEnd tokens) :
    (Parser.ofSupply (TokenStream.ofList tokens) options).EndStays := by
  refine Parser.endStays_ofSupply options (I := fun stream => NoInnerEnd stream.tokens) h ?_ ?_
  · rintro ⟨_ | ⟨token, tokens⟩, finish⟩ hI
    · exact hI
    · exact NoInnerEnd.tail hI
  · rintro ⟨_ | ⟨token, tokens⟩, finish⟩ hI hend
    · rfl
    · obtain rfl := NoInnerEnd.eq_nil hI hend
      rfl

/-! ## Sources -/

theorem Pattern.kind?_ne_end {pattern : Pattern} (h : pattern ∈ patterns) (text : String) :
    pattern.kind? text ≠ some .endOfInput := by
  cases pattern with
  | word =>
    intro hkind
    simp only [kind?, Option.some.injEq] at hkind
    cases hword : reserved? text with
    | none => rw [hword] at hkind; cases hkind
    | some kind =>
      have hmem := reserved?_eq_some_iff.1 hword
      rw [hword] at hkind
      simp only [Option.getD_some] at hkind
      subst hkind
      simp [reservedWords] at hmem
  | number => exact fun hkind => by cases hkind
  | blanks => exact fun hkind => by cases hkind
  | comment => exact fun hkind => by cases hkind
  | fixed lexeme kind =>
    intro hkind
    obtain rfl : kind = .endOfInput := Option.some.inj hkind
    simp [patterns] at h

/-- A scanner hands out the end of input only when nothing is left. -/
theorem Scanner.rest_next_of_end {scanner : Scanner}
    (h : (Scanner.next scanner).1.kind = .endOfInput) : (Scanner.next scanner).2.rest = [] := by
  generalize hlen : scanner.rest.length = n
  induction n using Nat.strongRecOn generalizing scanner with
  | _ n ih =>
    subst hlen
    obtain ⟨rest, offset, file⟩ := scanner
    rw [Scanner.next_eq] at h ⊢
    cases rest with
    | nil => rfl
    | cons c rest =>
      simp only at h ⊢
      cases found : lexeme? (c :: rest) with
      | none => rw [found] at h; cases h
      | some lexeme =>
        have hshorter := lexeme?_rest_length found
        rw [found] at h
        simp only at h ⊢
        cases hkind : lexeme.pattern.kind? (String.ofList lexeme.text) with
        | none =>
          rw [hkind] at h
          exact ih _ hshorter h rfl
        | some kind =>
          rw [hkind] at h
          obtain rfl : kind = .endOfInput := h
          exact absurd hkind (Pattern.kind?_ne_end (lexeme?_eq_some found).1 _)

theorem endStays_scanner (source : String) (file : Option String) (options : Options) :
    (Parser.ofSupply (Scanner.ofSource source file) options).EndStays := by
  refine Parser.endStays_ofSupply options (I := fun _ => True) trivial (fun _ _ => trivial) ?_
  intro scanner _ hend
  have hrest := Scanner.rest_next_of_end hend
  change (Scanner.next (Scanner.next scanner).2).1.kind = .endOfInput
  rw [Scanner.next_of_rest_nil hrest]
  rfl

/-! ## Statements in a row -/

section Statements

open ParserM

variable {region : Region} {parser : Parser σ}

theorem Region.endsAt_program {kind : TokenKind} :
    Region.program.endsAt kind = true ↔ kind = .endOfInput := by
  cases kind <;> decide

/-- Where a stretch of statements is over, there is nothing to read. -/
theorem run_statements_of_ends (h : region.endsAt parser.current.kind = true) (fuel : Nat) :
    ((routines (fuel + 1)).statements region).run parser = .ok [] parser := by
  change ((routines fuel).statementsStep region).run parser = _
  unfold Routines.statementsStep
  rw [run_bind, run_current]
  simp only
  rw [if_pos h]
  rfl

/-- Behind a statement that was read, the others are read. -/
theorem run_statements_cons {fuel : Nat} {value : Statement} {rest : List Statement}
    {mid after : Parser σ} (hmore : region.endsAt parser.current.kind = false)
    (hfirst : (routines fuel).statement.run parser = .ok value mid)
    (hrest : ((routines fuel).statements region).run mid.advance = .ok rest after) :
    ((routines (fuel + 1)).statements region).run parser = .ok (value :: rest) after := by
  change ((routines fuel).statementsStep region).run parser = _
  unfold Routines.statementsStep
  rw [run_bind, run_current]
  simp only
  rw [if_neg (by rw [hmore]; exact Bool.false_ne_true), run_bind, run_attempt, hfirst]
  simp only
  rw [run_bind, run_advance]
  simp only
  rw [run_bind, hrest]
  rfl

/-- Statements that were read are read alike with more steps. -/
theorem run_statements_of_le {fewer more : Nat} (hle : fewer ≤ more) {read : List Statement}
    {after : Parser σ} (h : ((routines fewer).statements region).run parser = .ok read after) :
    ((routines more).statements region).run parser = .ok read after := by
  rw [← h]
  refine (((routines_refines hle).statements region parser).eq_of_ne_stuck ?_).symm
  rw [h]
  exact fun hstuck => by cases hstuck

end Statements

/-! ## Programs -/

open ParserM in
/-- What a parse leaves behind is what reading all statements leaves behind. -/
theorem parse_eq_of_statements (supply : σ) (options : Options) :
    ∃ statements after,
      ((routines (Parser.ofSupply supply options).steps).statements .program).run
        (((Parser.ofSupply supply options).write .openedProgram).write .entered) =
          .ok statements after ∧
      (parse supply options).program = ⟨statements⟩ ∧
      (parse supply options).diagnostics = after.diagnostics.toList := by
  let parser := Parser.ofSupply supply options
  let started := (parser.write .openedProgram).write .entered
  obtain ⟨program, last, hrun⟩ := parseProgram_eq_ok parser (Tables.keepsEnd_standard options)
  have hparse := parse_eq_of_run hrun
  have hsplit : parseProgram.run parser =
      (withRoutines (fun r => r.statements .program) >>= fun statements => do
        modify fun parser =>
          parser.write (.event (.parsed statements.length parser.diagnostics.size))
        modify (·.write .left)
        return (⟨statements⟩ : Program)).run started := rfl
  rw [hsplit, run_bind, run_withRoutines] at hrun
  cases hread : ((routines started.steps).statements .program).run started with
  | ok statements after =>
    rw [hread] at hrun
    cases hrun
    exact ⟨statements, after, hread, by rw [hparse], by rw [hparse]; rfl⟩
  | absent after => rw [hread] at hrun; cases hrun
  | stuck => rw [hread] at hrun; cases hrun

open ParserM in
/-- Reading all statements with any number of steps, if that ends, is parsing. -/
theorem parse_of_statements {supply : σ} {options : Options} {fuel : Nat}
    {statements : List Statement} {after : Parser σ}
    (h : ((routines fuel).statements .program).run
      (((Parser.ofSupply supply options).write .openedProgram).write .entered) =
        .ok statements after) :
    (parse supply options).program = ⟨statements⟩ ∧
      (parse supply options).diagnostics = after.diagnostics.toList := by
  obtain ⟨statements', after', hrun, hprogram, hdiagnostics⟩ :=
    parse_eq_of_statements supply options
  have hboth := run_statements_of_le
    (Nat.le_max_left fuel (Parser.ofSupply supply options).steps) h
  rw [run_statements_of_le (Nat.le_max_right fuel _) hrun] at hboth
  cases hboth
  exact ⟨hprogram, hdiagnostics⟩

end Monkey
