import Monkey.Proofs.Accounting
import Monkey.Proofs.Coupling
import Monkey.Proofs.Upcoming

/-!
# Statements depend on their own tokens only

The calls that a parse makes for the statements of a program cut the list of tokens into pieces,
one behind the other (`Linked`). A statement that is kept is what its piece alone is parsed to, with
the same diagnostics: a parser in front of the piece goes side by side with the one in front of
the whole list (`Parser.Cut`) until the statement is read. The one token that is looked at behind
the piece makes no difference, because where the shorter parser sees the end of input a statement
may end; and the longer one has not gone past the piece, or it would not have left off there.
-/

namespace Monkey

open ParserM TokenSource

variable {σ τ : Type} [TokenSource σ] [TokenSource τ]

/-! ## A parser in front of the first tokens of another one -/

/-- The second parser is in front of the tokens `own`, the first one in front of these and then the
`rest`, and it has recorded what the second one has, after what was there before. As long as there
is a rest, the first parser has not come to it. -/
structure Parser.Cut (rest : List Token) (eof eof' : Token) (base : List Diagnostic)
    (p : Parser σ) (q : Parser τ) (own : List Token) : Prop where
  options : p.options = q.options
  tables : p.tables = .standard p.options
  tables_eq : q.tables = p.tables
  depth : p.depth = q.depth
  whole : p.Shows (own ++ rest) eof
  part : q.Shows own eof'
  ends : rest = [] → eof = eof'
  nonempty : rest ≠ [] → own ≠ []
  diagnostics : p.diagnostics.toList = base ++ q.diagnostics.toList

/-- A parser that has come to a rest of the tokens. -/
def Parser.Beyond (rest : List Token) (eof : Token) (p : Parser σ) : Prop :=
  rest ≠ [] ∧ ∃ tokens, p.Shows tokens eof ∧ tokens.length ≤ rest.length

theorem Parser.Beyond.later {rest : List Token} {eof : Token} {p p' : Parser σ} {n : Nat}
    (h : p.Beyond rest eof) (hwindow : p'.window = (p.skip n).window) : p'.Beyond rest eof := by
  obtain ⟨hrest, tokens, hshows, hlength⟩ := h
  refine ⟨hrest, tokens.drop n, hshows.of_window hwindow, ?_⟩
  rw [List.length_drop]
  omega

namespace Parser.Cut

variable {rest own : List Token} {eof eof' : Token} {base : List Diagnostic} {p : Parser σ}
  {q : Parser τ}

theorem alike (h : p.Cut rest eof eof' base q own) : p.Alike q :=
  ⟨h.depth, by rw [h.options], h.tables, by rw [h.tables_eq, h.tables, h.options]⟩

theorem current_eq (h : p.Cut rest eof eof' base q own) : p.current = q.current := by
  rw [h.whole.current_eq, h.part.current_eq]
  cases own with
  | cons token own => rfl
  | nil =>
    have hrest : rest = [] := by
      by_contra hne
      exact h.nonempty hne rfl
    rw [hrest]
    exact h.ends hrest

/-- The next token is the same, unless it is the first one of the rest. -/
theorem peek_eq (h : p.Cut rest eof eof' base q own) (hnext : rest = [] ∨ own.tail ≠ []) :
    p.peek = q.peek := by
  rw [h.whole.peek_eq, h.part.peek_eq]
  rcases hnext with hrest | htail
  · rw [hrest, List.append_nil, h.ends hrest]
  · obtain ⟨token, own, rfl⟩ := List.exists_cons_of_ne_nil (mt (congrArg List.tail) htail)
    obtain ⟨next, own, rfl⟩ := List.exists_cons_of_ne_nil htail
    rfl

theorem advance (h : p.Cut rest eof eof' base q own) (hnext : rest = [] ∨ own.tail ≠ []) :
    p.advance.Cut rest eof eof' base q.advance own.tail := by
  have hwhole : p.advance.Shows (own.tail ++ rest) eof := by
    rcases hnext with hrest | htail
    · have hshows := h.whole.advance
      rw [hrest, List.append_nil] at hshows ⊢
      exact hshows
    · rw [← List.tail_append_of_ne_nil (mt (congrArg List.tail) htail)]
      exact h.whole.advance
  exact ⟨h.options, h.tables, h.tables_eq, h.depth, hwhole, h.part.advance, h.ends,
    fun hrest => hnext.resolve_left hrest, h.diagnostics⟩

/-- In front of the rest, a move takes the first parser beyond, and the second one is at its
end. -/
theorem beyond (h : p.Cut rest eof eof' base q own) (hlast : ¬(rest = [] ∨ own.tail ≠ [])) :
    p.advance.Beyond rest eof ∧ q.peek.kind = .endOfInput := by
  rw [not_or, not_not] at hlast
  obtain ⟨token, tail, rfl⟩ := List.exists_cons_of_ne_nil (h.nonempty hlast.1)
  obtain rfl : tail = [] := hlast.2
  refine ⟨⟨hlast.1, rest, h.whole.advance, Nat.le_refl _⟩, ?_⟩
  rw [h.part.peek_eq]
  exact h.part.isEnd

theorem write (h : p.Cut rest eof eof' base q own) (entry : LogEntry) :
    (p.write entry).Cut rest eof eof' base (q.write entry) own :=
  { h with whole := h.whole.same_window rfl, part := h.part.same_window rfl }

theorem enterNesting (h : p.Cut rest eof eof' base q own) :
    { p with depth := p.depth + 1 }.Cut rest eof eof' base { q with depth := q.depth + 1 } own :=
  { h with
    depth := congrArg (· + 1) h.depth
    whole := h.whole.same_window rfl
    part := h.part.same_window rfl }

theorem leaveNesting (h : p.Cut rest eof eof' base q own) :
    p.leaveNesting.Cut rest eof eof' base q.leaveNesting own :=
  { h with
    depth := congrArg (· - 1) h.depth
    whole := h.whole.same_window rfl
    part := h.part.same_window rfl }

theorem record (h : p.Cut rest eof eof' base q own) (cause : Cause) (place : Position) :
    (p.record cause place).Cut rest eof eof' base (q.record cause place) own :=
  { h with
    whole := h.whole.same_window rfl
    part := h.part.same_window rfl
    diagnostics := by simp [Parser.record, h.diagnostics] }

end Parser.Cut

/-- Parsers side by side, the second one in front of the first tokens only. -/
def Parser.Together (rest : List Token) (eof eof' : Token) (base : List Diagnostic)
    (p : Parser σ) (q : Parser τ) : Prop :=
  ∃ own, p.Cut rest eof eof' base q own

/-- Parsers that go on side by side, unless the first one goes beyond. -/
def Parser.Parting (rest : List Token) (eof eof' : Token) (base : List Diagnostic)
    (p : Parser σ) (q : Parser τ) : Prop :=
  (∃ own, p.Cut rest eof eof' base q own ∧ (rest = [] ∨ own.tail ≠ [])) ∨
    p.advance.Beyond rest eof

section Parting

variable {rest : List Token} {eof eof' : Token} {base : List Diagnostic} {p : Parser σ}
  {q : Parser τ}

theorem Parser.Together.parting (h : p.Together rest eof eof' base q) :
    p.Parting rest eof eof' base q := by
  obtain ⟨own, hcut⟩ := h
  by_cases hnext : rest = [] ∨ own.tail ≠ []
  · exact .inl ⟨own, hcut, hnext⟩
  · exact .inr (hcut.beyond hnext).1

theorem Parser.Parting.advance (h : p.Parting rest eof eof' base q) :
    p.advance.Beyond rest eof ∨ p.advance.Together rest eof eof' base q.advance := by
  rcases h with ⟨own, hcut, hnext⟩ | hbeyond
  · exact .inr ⟨own.tail, hcut.advance hnext⟩
  · exact .inl hbeyond

theorem Parser.Together.current_eq (h : p.Together rest eof eof' base q) :
    p.current = q.current := by
  obtain ⟨own, hcut⟩ := h
  exact hcut.current_eq

theorem Parser.Together.advance (h : p.Together rest eof eof' base q) :
    p.advance.Beyond rest eof ∨ p.advance.Together rest eof eof' base q.advance :=
  h.parting.advance

theorem Parser.Together.write (h : p.Together rest eof eof' base q) (entry : LogEntry) :
    (p.write entry).Together rest eof eof' base (q.write entry) := by
  obtain ⟨own, hcut⟩ := h
  exact ⟨own, hcut.write entry⟩

/-- What is recorded at the current token is recorded by both. -/
theorem Parser.Together.record (h : p.Together rest eof eof' base q) (cause : Cause)
    {cause' : Cause} (hcause : cause = cause') :
    (p.record cause p.current.span.start).Together rest eof eof' base
      (q.record cause' q.current.span.start) := by
  obtain ⟨own, hcut⟩ := h
  rw [hcut.current_eq, hcause]
  exact ⟨own, hcut.record cause' _⟩

end Parting

/-- A parser in front of the first tokens of another one goes side by side with it until that one
comes to the rest. -/
def cutting (rest : List Token) (eof eof' : Token) (base : List Diagnostic) :
    Coupling σ τ Unit where
  values := .same
  inner := id
  gone p := p.Beyond rest eof
  holds
    | .failed, _, p, q => p.Parting rest eof eof' base q
    | _, _, p, q => p.Together rest eof eof' base q
  gone_later h hwindow := h.later hwindow
  alike := by
    rintro _ p q ⟨own, hcut⟩
    exact hcut.alike
  current_between h := congrArg Token.kind h.current_eq
  current_taken h := congrArg Token.kind h.current_eq
  peek_taken := by
    rintro _ p q ⟨own, hcut⟩
    by_cases hnext : rest = [] ∨ own.tail ≠ []
    · exact .inl (congrArg Token.kind (hcut.peek_eq hnext))
    · exact .inr (hcut.beyond hnext)
  peek_failed := by
    rintro _ p q (⟨own, hcut, hnext⟩ | hbeyond)
    · exact .inl (congrArg Token.kind (hcut.peek_eq hnext))
    · exact .inr hbeyond
  operator_peek := by
    rintro _ p q ⟨own, hcut⟩ hkind
    rw [hcut.tables_eq, hkind]
  facing_of_between h _ := h
  taken_of_facing h := h
  taken_of_operand h := h
  operand_of_facing h _ := h
  operand_of_block h _ := h
  advance h _ := h.advance
  next h := h.advance
  enter h _ := h.advance
  recover h := h.advance
  failed_advance := by
    rintro _ p q h - -
    rcases h.advance with hbeyond | htogether
    · exact .inr (hbeyond.later (n := 1) rfl)
    · exact htogether.parting
  write := by
    intro stage _ p q entry h
    cases stage with
    | failed =>
      rcases h with ⟨own, hcut, hnext⟩ | hbeyond
      · exact .inl ⟨own, hcut.write entry, hnext⟩
      · exact .inr (hbeyond.later (n := 0) rfl)
    | _ => exact h.write entry
  deeper := by
    rintro _ p q ⟨own, hcut⟩ -
    exact ⟨own, hcut.enterNesting⟩
  leave_operand := by
    rintro _ p q ⟨own, hcut⟩
    exact ⟨own, hcut.leaveNesting⟩
  leave_failed := by
    rintro _ p q (⟨own, hcut, hnext⟩ | hbeyond)
    · exact .inl ⟨own, hcut.leaveNesting, hnext⟩
    · exact .inr (hbeyond.later (n := 0) rfl)
  unexpected := by
    rintro _ p q kind ⟨own, hcut⟩ - -
    by_cases hnext : rest = [] ∨ own.tail ≠ []
    · rw [hcut.peek_eq hnext]
      exact .inl ⟨own, hcut.record _ _, hnext⟩
    · exact .inr ((hcut.beyond hnext).1.later (n := 0) rfl)
  missing h _ := (h.record _ (by rw [h.current_eq])).parting
  tooDeep h := (h.record _ rfl).parting
  name h _ := congrArg Token.text h.current_eq
  sign h _ := congrArg Token.text h.current_eq
  operator h _ := congrArg Token.text h.current_eq
  integer {i p q} h _ := by
    change (integerOperand p).Coupled _ _ _ _ (integerOperand q)
    unfold integerOperand
    rw [h.current_eq]
    cases Text.readInt64? q.current.text.toList with
    | some value => exact .ok rfl h
    | none =>
      have hrecord := h.record (.integerOutOfRange q.current.text) rfl
      rw [h.current_eq] at hrecord
      exact .ok rfl hrecord

/-! ## Calls one behind the other -/

/-- Calls for statements in a row: each starts one token behind where the one before it left off. -/
inductive Linked : Parser σ → List (Call σ) → Parser σ → Prop where
  | nil (parser : Parser σ) : Linked parser [] parser
  | cons {call : Call σ} {calls : List (Call σ)} {last : Parser σ} :
    call.start.current.kind ≠ .endOfInput → Linked call.finish.advance calls last →
    Linked call.start (call :: calls) last

/-- The tokens that a call takes: those in front of it that are not left for the next one. -/
def Call.tokens (call : Call σ) : List Token :=
  call.start.input.take (call.start.input.length - call.finish.ahead.length)

theorem Call.Sound.follows {call : Call σ} (h : call.Sound) : call.start.Follows call.finish := by
  obtain ⟨fuel, hrun⟩ := h.run
  have hframed := (routines_framed fuel).statement.keeps call.start
  rw [hrun] at hframed
  unfold Call.outcome at hframed
  cases hvalue : call.value with
  | some value => rw [hvalue] at hframed; exact hframed
  | none => rw [hvalue] at hframed; exact hframed

/-- What is in front of a call is what it takes and what is left. -/
theorem Call.Sound.tokens_append {call : Call σ} (h : call.Sound) {tokens : List Token}
    {eof : Token} (hshows : call.start.Shows tokens eof) :
    call.tokens ++ call.finish.ahead = tokens := by
  obtain ⟨count, hcount⟩ := h.follows.window
  have hfinish := (hshows.of_window hcount).ahead_eq
  rw [List.tail_drop] at hfinish
  unfold Call.tokens
  rw [hshows.input_eq, hfinish, List.length_drop]
  rcases Nat.le_total (count + 1) tokens.length with hle | hge
  · rw [show tokens.length - (tokens.length - (count + 1)) = count + 1 by omega]
    exact List.take_append_drop _ _
  · rw [List.drop_eq_nil_of_le hge, List.append_nil, Nat.sub_eq_zero_of_le hge, Nat.sub_zero,
      List.take_length]

theorem Call.Sound.tokens_ne_nil {call : Call σ} (h : call.Sound) {tokens : List Token}
    {eof : Token} (hshows : call.start.Shows tokens eof)
    (hmore : call.start.current.kind ≠ .endOfInput) : call.tokens ≠ [] := by
  obtain ⟨count, hcount⟩ := h.follows.window
  have hfinish := (hshows.of_window hcount).ahead_eq
  have hsplit := h.tokens_append hshows
  intro hnil
  rw [hnil, List.nil_append, hfinish, List.tail_drop] at hsplit
  have hlength := congrArg List.length hsplit
  rw [List.length_drop] at hlength
  have hne := mt hshows.current_kind_eq_end.2 hmore
  have hpos := List.length_pos_iff.2 hne
  omega

namespace Linked

variable {start last : Parser σ} {calls front back : List (Call σ)}

theorem split (h : Linked start (front ++ back) last) :
    ∃ mid, Linked start front mid ∧ Linked mid back last := by
  induction front generalizing start with
  | nil => exact ⟨start, .nil start, h⟩
  | cons call front ih =>
    cases h with
    | cons hmore hrest =>
      obtain ⟨mid, hfront, hback⟩ := ih hrest
      exact ⟨mid, .cons hmore hfront, hback⟩

theorem follows (h : Linked start calls last) (hsound : ∀ call ∈ calls, call.Sound) :
    start.Follows last := by
  induction h with
  | nil parser => exact .refl parser
  | cons _ _ ih =>
    obtain ⟨hcall, hcalls⟩ := List.forall_mem_cons.1 hsound
    exact (hcall.follows.trans (.advance _)).trans (ih hcalls)

/-- The tokens of the calls, one after the other, and what is left behind them. -/
theorem exists_left (h : Linked start calls last) (hsound : ∀ call ∈ calls, call.Sound)
    {tokens : List Token} {eof : Token} (hshows : start.Shows tokens eof) :
    ∃ left, last.Shows left eof ∧ tokens = (calls.map Call.tokens).flatten ++ left := by
  induction h generalizing tokens with
  | nil parser => exact ⟨tokens, hshows, rfl⟩
  | @cons call calls last _ _ ih =>
    obtain ⟨hcall, hcalls⟩ := List.forall_mem_cons.1 hsound
    obtain ⟨count, hcount⟩ := hcall.follows.window
    have hfinish := hshows.of_window hcount
    have hahead : call.finish.advance.Shows call.finish.ahead eof := by
      rw [hfinish.ahead_eq]
      exact hfinish.advance
    obtain ⟨left, hlast, hleft⟩ := ih hcalls hahead
    refine ⟨left, hlast, ?_⟩
    rw [← hcall.tokens_append hshows, hleft, List.map_cons, List.flatten_cons, List.append_assoc]

/-- What the calls have recorded, one after the other. -/
theorem diagnostics_eq (h : Linked start calls last) (hsound : ∀ call ∈ calls, call.Sound) :
    last.diagnostics.toList =
      start.diagnostics.toList ++ (calls.map Call.recorded).flatten := by
  induction h with
  | nil parser => simp
  | @cons call calls last _ _ ih =>
    obtain ⟨hcall, hcalls⟩ := List.forall_mem_cons.1 hsound
    rw [ih hcalls, List.map_cons, List.flatten_cons, ← List.append_assoc]
    refine congrArg (· ++ _) ?_
    obtain ⟨more, hmore⟩ := hcall.precedes.diagnostics
    change call.finish.diagnostics.toList = _
    rw [Call.recorded, ← hmore, ← Array.length_toList, List.drop_left]

/-- A call among others: it starts in front of its tokens, and leaves those of the calls behind
it. -/
theorem exists_call {call : Call σ} (h : Linked start (front ++ call :: back) last)
    (hend : last.current.kind = .endOfInput)
    (hsound : ∀ c ∈ front ++ call :: back, c.Sound) {tokens : List Token} {eof : Token}
    (hshows : start.Shows tokens eof) :
    start.Follows call.start ∧ call.start.current.kind ≠ .endOfInput ∧
      call.finish.ahead = (back.map Call.tokens).flatten ∧
      ∃ left, call.start.Shows left eof ∧ tokens = (front.map Call.tokens).flatten ++ left := by
  obtain ⟨mid, hfront, hback⟩ := h.split
  obtain ⟨hsoundFront, hsoundBack⟩ := List.forall_mem_append.1 hsound
  obtain ⟨left, hleft, htokens⟩ := hfront.exists_left hsoundFront hshows
  cases hback with
  | cons hmore hrest =>
    obtain ⟨hcall, hcalls⟩ := List.forall_mem_cons.1 hsoundBack
    obtain ⟨count, hcount⟩ := hcall.follows.window
    obtain ⟨none, hlast, hahead⟩ := hrest.exists_left hcalls (hleft.of_window hcount).advance
    rw [hlast.current_kind_eq_end.1 hend, List.append_nil] at hahead
    refine ⟨hfront.follows hsoundFront, hmore, ?_, left, hleft, htokens⟩
    rw [(hleft.of_window hcount).ahead_eq, hahead]

end Linked

/-- A call of the statement routine, as it is noted in the journal. -/
theorem calls_of_statement {fuel : Nat} {before mid : Parser (Journal σ)}
    (h : ((journaled fuel).statement.run before).parser? = some mid) :
    ∃ call : Call σ, mid.calls = before.calls ++ [call] ∧ call.start = before.erase ∧
      call.finish = mid.erase := by
  cases fuel with
  | zero => cases h
  | succ fuel =>
    change ((observe (journaled fuel).statementStep).run before).parser? = some mid at h
    rw [run_observe] at h
    cases hrun : (journaled fuel).statementStep.run (before.withCalls []) with
    | ok value after =>
      rw [hrun] at h
      cases h
      exact ⟨_, rfl, rfl, rfl⟩
    | absent after =>
      rw [hrun] at h
      cases h
      exact ⟨_, rfl, rfl, rfl⟩
    | stuck => rw [hrun] at h; cases h

/-- The calls for the statements of a stretch are linked, and they stop at its end. -/
theorem linked_of_statements {fuel : Nat} {region : Region} {before after : Parser (Journal σ)}
    {values : List Statement}
    (h : ((journaled fuel).statements region).run before = .ok values after) :
    region.endsAt after.current.kind = true ∧
      ∃ calls, after.calls = before.calls ++ calls ∧ Linked before.erase calls after.erase := by
  induction fuel generalizing before values with
  | zero => cases h
  | succ fuel ih =>
    change ((journaled fuel).statementsStep region).run before = .ok values after at h
    unfold Routines.statementsStep at h
    rw [run_bind, run_current] at h
    simp only at h
    split at h
    next hends =>
      cases h
      exact ⟨hends, [], (List.append_nil _).symm, .nil _⟩
    next hends =>
      have hmore : before.current.kind ≠ .endOfInput := by
        intro hend
        rw [hend] at hends
        cases region <;> exact hends rfl
      obtain ⟨value, mid, hmid, hrest⟩ : ∃ value mid,
          ((journaled fuel).statement.run before).parser? = some mid ∧
          (((journaled fuel).statements region) >>= fun rest =>
            Pure.pure (Option.toList value ++ rest)).run mid.advance = .ok values after := by
        rw [run_bind, run_attempt] at h
        cases hrun : (journaled fuel).statement.run before with
        | ok value mid => rw [hrun] at h; exact ⟨some value, mid, rfl, h⟩
        | absent mid => rw [hrun] at h; exact ⟨none, mid, rfl, h⟩
        | stuck => rw [hrun] at h; cases h
      obtain ⟨call, hcalls, hstart, hfinish⟩ := calls_of_statement hmid
      rw [run_bind] at hrest
      cases hread : ((journaled fuel).statements region).run mid.advance with
      | ok rest last =>
        rw [hread] at hrest
        cases hrest
        obtain ⟨hends, calls, hmore', hlinked⟩ := ih hread
        have hnext : Linked call.finish.advance calls after.erase := by
          rw [hfinish]
          exact hlinked
        refine ⟨hends, call :: calls, ?_, ?_⟩
        · rw [hmore', show mid.advance.calls = _ from hcalls, List.append_assoc]
          rfl
        · rw [← hstart]
          exact .cons (by rw [hstart]; exact hmore) hnext
      | absent last => rw [hread] at hrest; cases hrest
      | stuck => rw [hread] at hrest; cases hrest

/-- The calls of a whole parse are linked, from the first token to the end of input. -/
theorem linked_of_parse (supply : σ) (options : Options) :
    ∃ last : Parser σ, last.current.kind = .endOfInput ∧
      Linked (((Parser.ofSupply supply options).write .openedProgram).write .entered)
        (statementCalls supply options) last ∧
      (parse supply options).diagnostics = last.diagnostics.toList := by
  obtain ⟨statements, last, hrun, -, hdiagnostics⟩ := parse_eq_of_statements supply options
  let started := ((Parser.ofSupply (⟨supply, []⟩ : Journal σ) options).write .openedProgram).write
    .entered
  have haccounts := (journaled_accounts (Parser.ofSupply supply options).steps).statements .program
    started rfl
  rw [show started.erase =
    ((Parser.ofSupply supply options).write .openedProgram).write .entered from rfl, hrun]
    at haccounts
  obtain ⟨after, hjournal, herase⟩ : ∃ after,
      ((journaled (Parser.ofSupply (⟨supply, []⟩ : Journal σ) options).steps).statements
        .program).run started = .ok statements after ∧ after.erase = last := by
    change ∃ after, ((journaled (Parser.ofSupply supply options).steps).statements .program).run
      started = _ ∧ _
    generalize ((journaled _).statements .program).run started = x at haccounts ⊢
    generalize hy : Outcome.ok statements last = y at haccounts
    cases haccounts with
    | ok _ _ => cases hy; exact ⟨_, rfl, rfl⟩
    | absent _ _ => cases hy
    | stuck => cases hy
  obtain ⟨hends, calls, hcalls, hlinked⟩ := linked_of_statements hjournal
  have hsame : statementCalls supply options = calls := by
    unfold statementCalls
    simp only
    rw [hjournal]
    exact hcalls
  subst herase
  exact ⟨after.erase, Region.endsAt_program.1 hends, hsame ▸ hlinked, hdiagnostics⟩

/-! ## Pieces parsed alone -/

/-- A parser has not come to what is ahead of it. -/
theorem Parser.not_beyond_ahead (p : Parser σ) (eof : Token) : ¬p.Beyond p.ahead eof := by
  rintro ⟨hne, tokens, hshows, hlength⟩
  have hpos := List.length_pos_iff.2 hne
  rw [hshows.ahead_eq, List.length_tail] at hlength hpos
  omega

/-- A statement that is kept is what the tokens of its call alone are parsed to, with what was
recorded in the course of the call. -/
theorem Call.Sound.parse_tokens {call : Call σ} (h : call.Sound) {tokens : List Token}
    {eof : Token} (hshows : call.start.Shows tokens eof)
    (hmore : call.start.current.kind ≠ .endOfInput)
    (hend : call.finish.ahead = [] → eof = (TokenStream.ofList call.tokens).endToken)
    {options : Options} (hoptions : call.start.options = options)
    (htables : call.start.tables = .standard options) (hdepth : call.start.depth = 0)
    {value : Statement} (hvalue : call.value = some value) :
    (parseTokens call.tokens options).program = ⟨[value]⟩ ∧
      (parseTokens call.tokens options).diagnostics = call.recorded := by
  have hsplit := h.tokens_append hshows
  have hnoEnd : NoEnd call.tokens := by
    have hall := hshows.noEnd
    rw [← hsplit, noEnd_append] at hall
    exact hall.1
  let alone := ((Parser.ofSupply (TokenStream.ofList call.tokens) options).write
    .openedProgram).write .entered
  have hcut : call.start.Cut call.finish.ahead eof (TokenStream.ofList call.tokens).endToken
      call.start.diagnostics.toList alone call.tokens := by
    refine ⟨hoptions, by rw [htables, hoptions], by rw [htables]; rfl, hdepth, ?_, ?_, hend,
      fun _ => h.tokens_ne_nil hshows hmore, (List.append_nil _).symm⟩
    · rw [hsplit]
      exact hshows
    · exact (shows_tokenStream hnoEnd options).same_window rfl
  obtain ⟨fuel, hrun⟩ := h.run
  have hcoupled := ((cutting call.finish.ahead eof (TokenStream.ofList call.tokens).endToken
    call.start.diagnostics.toList).routines fuel).statement (i := ()) ⟨call.tokens, hcut⟩
  rw [hrun, Call.outcome, hvalue] at hcoupled
  generalize hread : (routines fuel).statement.run alone = y at hcoupled
  cases hcoupled with
  | gone hbeyond => exact absurd hbeyond (call.finish.not_beyond_ahead eof)
  | @ok _ _ _ after hsame htogether =>
    obtain rfl : value = _ := hsame
    obtain ⟨own, hafter⟩ := htogether
    have hown : own.tail = [] := by
      have hahead := hafter.whole.ahead_eq
      cases own with
      | nil => rfl
      | cons token own => exact List.append_left_eq_self.1 hahead.symm
    have hover : Region.program.endsAt after.advance.current.kind = true := by
      rw [Region.endsAt_program, hafter.part.advance.current_kind_eq_end, hown]
    have hstart : Region.program.endsAt alone.current.kind = false := by
      rw [Bool.eq_false_iff, Ne, Region.endsAt_program, ← hcut.current_eq]
      exact hmore
    cases fuel with
    | zero => cases hread
    | succ fuel =>
      have hparse := parse_of_statements
        (run_statements_cons hstart hread (run_statements_of_ends hover fuel))
      refine ⟨hparse.1, hparse.2.trans ?_⟩
      have hdiagnostics := hafter.diagnostics
      rw [Call.recorded, hdiagnostics, ← Array.length_toList, List.drop_left]
      rfl

/--
The calls for the statements of a program cut the tokens into pieces that are not empty: each call
starts in front of its piece, and leaves off in front of the pieces of the calls behind it. What a
parse records is what its calls record, one after the other. And each statement that is kept is what
its piece alone is parsed to, with what was recorded in the course of its call.
-/
theorem statementCalls_partition {tokens : List Token} (h : NoEnd tokens) (options : Options) :
    ((statementCalls (TokenStream.ofList tokens) options).map Call.tokens).flatten = tokens ∧
    ((statementCalls (TokenStream.ofList tokens) options).map Call.recorded).flatten =
      (parseTokens tokens options).diagnostics ∧
    (statementCalls (TokenStream.ofList tokens) options).filterMap Call.value =
      (parseTokens tokens options).program.statements ∧
    (∀ front call back, statementCalls (TokenStream.ofList tokens) options = front ++ call :: back →
      call.Sound ∧ call.tokens ≠ [] ∧
      call.start.input = call.tokens ++ (back.map Call.tokens).flatten ∧
      call.finish.ahead = (back.map Call.tokens).flatten) ∧
    (∀ call ∈ statementCalls (TokenStream.ofList tokens) options, ∀ value,
      call.value = some value →
      (parseTokens call.tokens options).program = ⟨[value]⟩ ∧
      (parseTokens call.tokens options).diagnostics = call.recorded) := by
  obtain ⟨_, hbooks, hprogram, -⟩ := books_of_parse (TokenStream.ofList tokens) options
  obtain ⟨last, hend, hlinked, hdiagnostics⟩ :=
    linked_of_parse (TokenStream.ofList tokens) options
  have hsound : ∀ call ∈ statementCalls (TokenStream.ofList tokens) options, call.Sound :=
    fun call hmem => (hbooks.sound call (mem_allCalls hmem)).1
  have hshows : (((Parser.ofSupply (TokenStream.ofList tokens) options).write
      .openedProgram).write .entered).Shows tokens (TokenStream.ofList tokens).endToken :=
    (shows_tokenStream h options).same_window rfl
  generalize statementCalls (TokenStream.ofList tokens) options = calls at *
  refine ⟨?_, ?_, hprogram.symm, ?_, ?_⟩
  · obtain ⟨left, hlast, htokens⟩ := hlinked.exists_left hsound hshows
    rw [hlast.current_kind_eq_end.1 hend, List.append_nil] at htokens
    exact htokens.symm
  · rw [parseTokens, hdiagnostics, hlinked.diagnostics_eq hsound]
    rfl
  · rintro front call back rfl
    obtain ⟨-, hmore, hahead, left, hleft, -⟩ := hlinked.exists_call hend hsound hshows
    have hcall : call.Sound := hsound call (by simp)
    refine ⟨hcall, hcall.tokens_ne_nil hleft hmore, ?_, hahead⟩
    rw [← hahead, hcall.tokens_append hleft, hleft.input_eq]
  · intro call hmem value hvalue
    obtain ⟨front, back, rfl⟩ := List.append_of_mem hmem
    obtain ⟨hfollows, hmore, hahead, left, hleft, htokens⟩ :=
      hlinked.exists_call hend hsound hshows
    have hcall : call.Sound := hsound call hmem
    refine hcall.parse_tokens hleft hmore (fun hnone => ?_) hfollows.options hfollows.tables
      hfollows.depth hvalue
    -- the last piece ends where the list does
    have hlast := hcall.tokens_append hleft
    rw [hnone, List.append_nil] at hlast
    have hne : left ≠ [] := hlast ▸ hcall.tokens_ne_nil hleft hmore
    rw [hlast, htokens, TokenStream.ofList, TokenStream.ofList,
      List.getLast?_append_of_ne_nil _ hne]
    rfl

/-- A statement with an integer out of range, a token that starts none, a statement with something
wrong in its block, and one more: four pieces, of which the second is dropped. -/
theorem statementCalls_partition_sample :
    (statementCalls (TokenStream.ofList (tokenize
      "9223372036854775808; ) let b = if (c) \x7b d + ; \x7d e" none).dropLast) {}).map
        (fun call => (call.tokens.length, call.value.isSome, call.recorded.length)) =
      [(2, true, 1), (1, false, 1), (12, true, 1), (1, true, 0)] ∧
    ((statementCalls (TokenStream.ofList (tokenize
      "9223372036854775808; ) let b = if (c) \x7b d + ; \x7d e" none).dropLast) {}).map
        Call.tokens).flatten =
      (tokenize "9223372036854775808; ) let b = if (c) \x7b d + ; \x7d e" none).dropLast := by
  refine ⟨by decide +kernel, (statementCalls_partition ?_ {}).1⟩
  unfold NoEnd
  decide +kernel

end Monkey
