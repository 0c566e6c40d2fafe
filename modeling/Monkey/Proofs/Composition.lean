import Monkey.Proofs.Completeness
import Monkey.Proofs.Mirror
import Monkey.Proofs.Soundness

/-!
# Programs one behind the other

A parser that has read the last semicolon of a program is as good as a fresh one. So the tokens of
a program that nothing is wrong with can be put in front of any others, whatever is wrong with
those: the statements of the two come out in a row, and what is recorded is what is recorded for
the second alone (`parseTokens_append`).

Two conditions make sure that the program is over where its tokens are. They have to end with a
semicolon, and they have to close as many blocks as they open, since at the end of input a block
may be left open, and then the semicolon belongs to a statement in it. Tokens that fail one of these
conditions are `Unfinished`. A tree of the grammar never closes more blocks than it opens
(`Phrase.Fits.closesNoMore`), so an expression is unfinished whatever stands in front of it, and the
last statement of a program that is over has its semicolon (`ClausesFit.semicolon_ne_none`).
-/

namespace Monkey

open ParserM TokenSource

/-! ## Braces -/

/-- How many of some tokens are of a kind. -/
def countKind (kind : TokenKind) (tokens : List Token) : Nat :=
  tokens.countP (·.kind = kind)

@[simp] theorem countKind_nil (kind : TokenKind) : countKind kind [] = 0 := rfl

@[simp] theorem countKind_cons (kind : TokenKind) (token : Token) (tokens : List Token) :
    countKind kind (token :: tokens) =
      countKind kind tokens + if token.kind = kind then 1 else 0 := by
  simp [countKind, List.countP_cons]

@[simp] theorem countKind_append (kind : TokenKind) (front back : List Token) :
    countKind kind (front ++ back) = countKind kind front + countKind kind back :=
  List.countP_append

/-- Tokens with at most as many closing braces as opening ones. -/
def ClosesNoMore (tokens : List Token) : Prop :=
  countKind .closeCurly tokens ≤ countKind .openCurly tokens

namespace ClosesNoMore

variable {token : Token} {tokens front back : List Token}

theorem nil : ClosesNoMore [] :=
  Nat.le_refl 0

theorem cons (h : token.kind ≠ .closeCurly) (htokens : ClosesNoMore tokens) :
    ClosesNoMore (token :: tokens) := by
  unfold ClosesNoMore at *
  rw [countKind_cons, countKind_cons, if_neg h]
  omega

theorem single (h : token.kind ≠ .closeCurly) : ClosesNoMore [token] :=
  cons h nil

theorem append (hfront : ClosesNoMore front) (hback : ClosesNoMore back) :
    ClosesNoMore (front ++ back) := by
  unfold ClosesNoMore at *
  rw [countKind_append, countKind_append]
  omega

end ClosesNoMore

theorem Parameters.Fits.closesNoMore {parameters : Parameters} (h : parameters.Fits) :
    ClosesNoMore parameters.tokens := by
  cases parameters with
  | none => exact .nil
  | some first further =>
    obtain ⟨hfirst, hfurther⟩ := h
    refine .cons (by rw [hfirst]; decide) ?_
    induction further with
    | nil => exact .nil
    | cons pair further ih =>
      obtain ⟨⟨hcomma, hname⟩, hfurther⟩ := List.forall_mem_cons.1 hfurther
      exact .cons (by rw [hcomma]; decide) (.cons (by rw [hname]; decide) (ih hfurther))

theorem Grammar.EndsStatement.closesNoMore {g : Grammar} {next : TokenKind}
    {semicolon : Option Token} (h : g.EndsStatement next semicolon) :
    ClosesNoMore semicolon.toList := by
  cases semicolon with
  | none => exact .nil
  | some token => exact .single (by rw [show token.kind = _ from h]; decide)

section Braces

variable {options : Options}

/-- A closing brace is no operator. -/
theorem Grammar.ne_closeCurly {kind : TokenKind} {level : Nat}
    (h : (standard options).level? kind = some level) : kind ≠ .closeCurly := by
  rintro rfl
  cases h

mutual

/-- A tree of the language closes no more blocks than it opens. -/
theorem Phrase.Fits.closesNoMore : {phrase : Phrase} → {next : TokenKind} →
    phrase.Fits (.standard options) next → ClosesNoMore phrase.tokens
  | .identifier token, _, h => .single (by rw [show token.kind = _ from h]; decide)
  | .integer _ _, _, ⟨h, _⟩ => .single (by rw [h]; decide)
  | .boolean token value, _, h => by
    cases value <;> exact .single (by rw [show token.kind = _ from h]; decide)
  | .group _ _ _, _, ⟨hopen, hinner, _, hclose⟩ =>
    .cons (by rw [hopen]; decide) (hinner.closesNoMore.append (.single (by rw [hclose]; decide)))
  | .unary _ _, _, ⟨hoperator, _, hright⟩ => by
    refine .cons ?_ hright.closesNoMore
    rcases hoperator with hkind | hkind <;> rw [hkind] <;> decide
  | .binary _ _ _, _, ⟨_, hlevel, _, hleft, _, hright⟩ =>
    hleft.closesNoMore.append (.cons (Grammar.ne_closeCurly hlevel) hright.closesNoMore)
  | .conditional _ _ _ _ _ _, _,
      ⟨hword, hopen, hcondition, _, hclose, hconsequence, halternative⟩ =>
    .cons (by rw [hword]; decide) (.cons (by rw [hopen]; decide) (hcondition.closesNoMore.append
      (.cons (by rw [hclose]; decide)
        (hconsequence.closesNoMore.append halternative.closesNoMore))))
  | .function _ _ _ _ _, _, ⟨hword, hopen, hparameters, hclose, hbody⟩ =>
    .cons (by rw [hword]; decide) (.cons (by rw [hopen]; decide) (hparameters.closesNoMore.append
      (.cons (by rw [hclose]; decide) hbody.closesNoMore)))
  | .call _ _ _ _, _, ⟨_, _, hcallee, hopen, harguments, hclose⟩ =>
    hcallee.closesNoMore.append (.cons (by rw [hopen]; decide)
      (harguments.closesNoMore.append (.single (by rw [hclose]; decide))))

theorem Arguments.Fits.closesNoMore : {arguments : Arguments} →
    arguments.Fits (.standard options) → ClosesNoMore arguments.tokens
  | .none, _ => .nil
  | .some _ _, ⟨hfirst, _, hfurther⟩ => hfirst.closesNoMore.append hfurther.closesNoMore

theorem FurtherArguments.Fits.closesNoMore : {further : FurtherArguments} →
    further.Fits (.standard options) → ClosesNoMore further.tokens
  | .none, _ => .nil
  | .some _ _ _, ⟨hcomma, hargument, _, hfurther⟩ =>
    .cons (by rw [hcomma]; decide) (hargument.closesNoMore.append hfurther.closesNoMore)

theorem Block.Fits.closesNoMore : {block : Block} → {next : TokenKind} →
    block.Fits (.standard options) next → ClosesNoMore block.tokens
  | .mk _ _ (some _), _, ⟨hopen, hbody, hclose⟩ => by
    have hinner := hbody.closesNoMore
    unfold ClosesNoMore at *
    simp [Block.tokens, hopen, hclose]
    omega
  | .mk _ _ none, _, ⟨hopen, hbody, _⟩ =>
    .cons (by rw [hopen]; decide) (hbody.closesNoMore.append .nil)

theorem Alternative.Fits.closesNoMore : {alternative : Alternative} → {next : TokenKind} →
    alternative.Fits (.standard options) next → ClosesNoMore alternative.tokens
  | .none, _, _ => .nil
  | .some _ _, _, ⟨hword, hblock⟩ => .cons (by rw [hword]; decide) hblock.closesNoMore

theorem Clause.Fits.closesNoMore : {clause : Clause} → {next : TokenKind} →
    clause.Fits (.standard options) next → ClosesNoMore clause.tokens
  | .letBinding _ _ _ _ _, _, ⟨hword, hname, hassign, hvalue, hends⟩ =>
    .cons (by rw [hword]; decide) (.cons (by rw [hname]; decide)
      (.cons (by rw [hassign]; decide) (hvalue.closesNoMore.append hends.closesNoMore)))
  | .returning _ _ _, _, ⟨hword, hvalue, hends⟩ =>
    .cons (by rw [hword]; decide) (hvalue.closesNoMore.append hends.closesNoMore)
  | .expression _ _, _, ⟨hvalue, hends⟩ => hvalue.closesNoMore.append hends.closesNoMore

theorem ClausesFit.closesNoMore : {clauses : List Clause} → {next : TokenKind} →
    ClausesFit (.standard options) next clauses → ClosesNoMore (clausesTokens clauses)
  | [], _, _ => .nil
  | _ :: _, _, ⟨hclause, hclauses⟩ => hclause.closesNoMore.append hclauses.closesNoMore

end

/-! ## Where a program is not over -/

/-- Tokens the last of which is no semicolon, or that leave a block open. -/
def Unfinished (tokens : List Token) : Prop :=
  (∃ front last, tokens = front ++ [last] ∧ last.kind ≠ .semicolon) ∨
    countKind .closeCurly tokens < countKind .openCurly tokens

theorem Unfinished.single {token : Token} (h : token.kind ≠ .semicolon) : Unfinished [token] :=
  .inl ⟨[], token, rfl, h⟩

theorem not_unfinished {tokens : List Token}
    (hlast : ∃ last ∈ tokens.getLast?, last.kind = .semicolon)
    (hbraces : countKind .closeCurly tokens = countKind .openCurly tokens) :
    ¬Unfinished tokens := by
  rintro (⟨front, token, rfl, hkind⟩ | hless)
  · obtain ⟨last, hmem, hsemicolon⟩ := hlast
    rw [List.getLast?_concat] at hmem
    cases hmem
    exact hkind hsemicolon
  · omega

theorem Unfinished.append {front back : List Token} (hfront : ClosesNoMore front)
    (h : Unfinished back) : Unfinished (front ++ back) := by
  rcases h with ⟨more, last, rfl, hlast⟩ | hless
  · exact .inl ⟨front ++ more, last, (List.append_assoc _ _ _).symm, hlast⟩
  · refine .inr ?_
    unfold ClosesNoMore at hfront
    rw [countKind_append, countKind_append]
    omega

theorem Unfinished.cons {token : Token} {tokens : List Token} (h : token.kind ≠ .closeCurly)
    (htokens : Unfinished tokens) : Unfinished (token :: tokens) :=
  htokens.append (.single h)

theorem Block.Fits.unfinished {block : Block} {next : TokenKind}
    (h : block.Fits (.standard options) next) : Unfinished block.tokens := by
  match block, h with
  | .mk opening body (some closing), ⟨_, _, hclose⟩ =>
    exact .inl ⟨opening :: clausesTokens body, closing, rfl, by rw [hclose]; decide⟩
  | .mk opening body none, ⟨hopen, hbody, _⟩ =>
    have hinner := hbody.closesNoMore
    unfold ClosesNoMore at hinner
    refine .inr ?_
    simp [Block.tokens, hopen]
    omega

/-- Behind an expression, the statement that it stands in is not over. -/
theorem Phrase.Fits.unfinished : {phrase : Phrase} → {next : TokenKind} →
    phrase.Fits (.standard options) next → Unfinished phrase.tokens
  | .identifier token, _, h => .single (by rw [show token.kind = _ from h]; decide)
  | .integer _ _, _, ⟨h, _⟩ => .single (by rw [h]; decide)
  | .boolean token value, _, h => by
    cases value <;> exact .single (by rw [show token.kind = _ from h]; decide)
  | .group opening inner closing, _, ⟨_, _, _, hclose⟩ =>
    .inl ⟨opening :: inner.tokens, closing, rfl, by rw [hclose]; decide⟩
  | .unary _ _, _, ⟨hoperator, _, hright⟩ => by
    refine .cons ?_ hright.unfinished
    rcases hoperator with hkind | hkind <;> rw [hkind] <;> decide
  | .binary _ _ _, _, ⟨_, hlevel, _, hleft, _, hright⟩ =>
    .append hleft.closesNoMore (.cons (Grammar.ne_closeCurly hlevel) hright.unfinished)
  | .conditional _ _ _ _ _ alternative, _,
      ⟨hword, hopen, hcondition, _, hclose, hconsequence, halternative⟩ => by
    refine .cons (by rw [hword]; decide) (.cons (by rw [hopen]; decide)
      (.append hcondition.closesNoMore (.cons (by rw [hclose]; decide) ?_)))
    match alternative, halternative with
    | .none, _ =>
      rw [Alternative.tokens, List.append_nil]
      exact hconsequence.unfinished
    | .some _ _, ⟨hother, hblock⟩ =>
      exact .append hconsequence.closesNoMore (.cons (by rw [hother]; decide) hblock.unfinished)
  | .function _ _ _ _ _, _, ⟨hword, hopen, hparameters, hclose, hbody⟩ =>
    .cons (by rw [hword]; decide) (.cons (by rw [hopen]; decide)
      (.append hparameters.closesNoMore (.cons (by rw [hclose]; decide) hbody.unfinished)))
  | .call callee opening arguments closing, _, ⟨_, _, _, _, _, hclose⟩ =>
    .inl ⟨callee.tokens ++ opening :: arguments.tokens, closing, by simp [Phrase.tokens],
      by rw [hclose]; decide⟩

/-- Without its semicolon, a statement is not over. -/
theorem Clause.Fits.unfinished {clause : Clause} {next : TokenKind}
    (h : clause.Fits (.standard options) next) (hnone : clause.semicolon = none) :
    Unfinished clause.tokens := by
  cases clause with
  | letBinding word name assign value semicolon =>
    obtain rfl : semicolon = none := hnone
    obtain ⟨hword, hname, hassign, hvalue, -⟩ := h
    rw [Clause.tokens, Option.toList_none, List.append_nil]
    exact .cons (by rw [hword]; decide) (.cons (by rw [hname]; decide)
      (.cons (by rw [hassign]; decide) hvalue.unfinished))
  | returning word value semicolon =>
    obtain rfl : semicolon = none := hnone
    obtain ⟨hword, hvalue, -⟩ := h
    rw [Clause.tokens, Option.toList_none, List.append_nil]
    exact .cons (by rw [hword]; decide) hvalue.unfinished
  | expression value semicolon =>
    obtain rfl : semicolon = none := hnone
    rw [Clause.tokens, Option.toList_none, List.append_nil]
    exact h.1.unfinished

/-- The last of some statements has its semicolon if the program is over behind them. -/
theorem ClausesFit.semicolon_ne_none {clauses : List Clause} {next : TokenKind}
    (hfit : ClausesFit (.standard options) next clauses)
    (hover : ¬Unfinished (clausesTokens clauses)) :
    ∀ clause ∈ clauses.getLast?, clause.semicolon ≠ none := by
  induction clauses with
  | nil => exact fun clause hmem => by cases hmem
  | cons first clauses ih =>
    obtain ⟨hfirst, hclauses⟩ := hfit
    cases clauses with
    | nil =>
      intro clause hmem hnone
      obtain rfl : first = clause := Option.some.inj hmem
      rw [clausesTokens, clausesTokens, List.append_nil] at hover
      exact hover (hfirst.unfinished hnone)
    | cons second clauses =>
      exact ih hclauses fun hmore => hover (hmore.append hfirst.closesNoMore)

end Braces

/-! ## What stands behind a semicolon -/

/-- With its semicolon, a statement fits in front of anything. -/
theorem Clause.Fits.of_semicolon {g : Grammar} {next next' : TokenKind} : {clause : Clause} →
    clause.Fits g next → clause.semicolon ≠ none → clause.Fits g next'
  | .letBinding _ _ _ _ (some _), h, _ => h
  | .returning _ _ (some _), h, _ => h
  | .expression _ (some _), h, _ => h
  | .letBinding _ _ _ _ none, _, hsome => absurd rfl hsome
  | .returning _ _ none, _, hsome => absurd rfl hsome
  | .expression _ none, _, hsome => absurd rfl hsome

theorem leadKind_eq_of_ne_nil {tokens : List Token} (h : tokens ≠ []) (kind kind' : TokenKind) :
    leadKind kind tokens = leadKind kind' tokens := by
  cases tokens with
  | nil => exact absurd rfl h
  | cons token tokens => rfl

theorem ClausesFit.tokens_ne_nil {g : Grammar} {next : TokenKind} {clause : Clause}
    {clauses : List Clause} (h : ClausesFit g next (clause :: clauses)) :
    clausesTokens (clause :: clauses) ≠ [] := by
  intro hnil
  have hlead := (h.1.lead (clausesTokens clauses)).1 .program
  rw [show clause.tokens ++ clausesTokens clauses = [] from hnil] at hlead
  cases hlead

/-- Statements the last of which has its semicolon fit in front of anything. -/
theorem ClausesFit.of_semicolon {g : Grammar} {next next' : TokenKind} {clauses : List Clause}
    (h : ClausesFit g next clauses)
    (hlast : ∀ clause ∈ clauses.getLast?, clause.semicolon ≠ none) :
    ClausesFit g next' clauses := by
  induction clauses with
  | nil => trivial
  | cons first clauses ih =>
    obtain ⟨hfirst, hclauses⟩ := h
    cases clauses with
    | nil => exact ⟨hfirst.of_semicolon (hlast first rfl), trivial⟩
    | cons second clauses =>
      refine ⟨?_, ih hclauses hlast⟩
      rw [leadKind_eq_of_ne_nil hclauses.tokens_ne_nil next' next]
      exact hfirst

variable {σ τ : Type} [TokenSource σ] [TokenSource τ]

/-- Statements the last of which has its semicolon are read before whatever follows. -/
theorem run_statements_append {g : Grammar} (region : Region) {clauses : List Clause}
    {p : Parser σ} {rest : List Token} (hp : p.Prepared g) (hstays : p.EndStays)
    (hinput : p.input = clausesTokens clauses ++ rest) {next : TokenKind}
    (hfit : ClausesFit g next clauses)
    (hlast : ∀ clause ∈ clauses.getLast?, clause.semicolon ≠ none)
    (hnesting : p.depth + clausesNesting clauses ≤ maxNesting) :
    ∃ mid, p.Passes mid ∧ mid.input = rest ∧ ∀ {more after},
      (unbounded.statements region).run mid = .ok more after →
      (unbounded.statements region).run p = .ok (clausesTrees clauses ++ more) after := by
  induction clauses generalizing p with
  | nil => exact ⟨p, .refl p, hinput, fun hrun => hrun⟩
  | cons first clauses ih =>
    have hinput : p.input = first.tokens ++ (clausesTokens clauses ++ rest) := by
      rw [hinput, clausesTokens, List.append_assoc]
    obtain ⟨hfirst, hclauses⟩ := hfit.of_semicolon hlast
    rw [← leadKind_append] at hfirst
    have hdepth : max first.nesting (clausesNesting clauses) ≤ maxNesting - p.depth := by
      rw [clausesNesting] at hnesting
      omega
    -- a semicolon of its own, or the next statement, keeps it apart from one that follows
    have hnext : first.semicolon = none →
        leadKind .endOfInput (clausesTokens clauses ++ rest) ≠ .semicolon := by
      intro hnone
      cases clauses with
      | nil => exact absurd hnone (hlast first rfl)
      | cons second clauses =>
        rw [clausesTokens, List.append_assoc]
        exact (hclauses.1.lead _).2
    have hreaches := Clause.Parses.statements (Clause.parses g first) region hp hinput hfirst hnext
      fun _ => hstays
    obtain ⟨q, hpass, hrest, hrun⟩ := hreaches.within (by omega)
    have htail : ∀ clause ∈ clauses.getLast?, clause.semicolon ≠ none := by
      cases clauses with
      | nil => exact fun clause hmem => by cases hmem
      | cons second clauses => exact hlast
    obtain ⟨mid, hmid, hleft, hmore⟩ := ih (hp.passes hpass) (hpass.endStays hstays) hrest
      hfit.2 htail (by rw [hpass.depth]; omega)
    refine ⟨mid, hpass.trans hmid, hleft, fun {more after} hbehind => ?_⟩
    rw [hrun, run_bind, hmore hbehind]
    rfl

/-- A parser in front of the tokens of a supply reads what a fresh one does. -/
theorem run_statements_of_mirrors {supply : σ} {options : Options} {q : Parser τ}
    (h : (Parser.ofSupply supply options).Mirrors Eq q) :
    ∃ after, (unbounded.statements .program).run q =
        .ok (parse supply options).program.statements after ∧
      after.diagnostics.toList = (parse supply options).diagnostics := by
  obtain ⟨statements, last, hrun, hprogram, hdiagnostics⟩ := parse_eq_of_statements supply options
  have hstarted : (((Parser.ofSupply supply options).write .openedProgram).write
      .entered).Mirrors Eq q :=
    ⟨h.options, h.tables, h.tables_eq, h.depth, h.token_of_window rfl rfl, h.diagnostics⟩
  have hcoupled := ((mirroring Eq).routines (Parser.ofSupply supply options).steps).statements
    .program (i := ()) hstarted
  rw [hrun] at hcoupled
  generalize hread : ((routines (Parser.ofSupply supply options).steps).statements .program).run
    q = y at hcoupled
  cases hcoupled with
  | @ok _ read _ after hvalue hpost =>
    obtain rfl : statements = read := by rwa [← List.forall₂_eq_eq_eq]
    refine ⟨after, ?_, ?_⟩
    · rw [hprogram]
      exact run_unbounded_statements hread
    · rw [hdiagnostics]
      exact (eq_of_forall₂_mirrors hpost.1.diagnostics).symm
  | gone hgone => exact absurd hgone id

/-! ## Lists of tokens -/

/-- Where a program is parsed without fault and is over behind its tokens, it consists of
statements the last of which has its semicolon, none nested too deeply. -/
theorem exists_clauses_of_parseTokens {tokens : List Token} {options : Options}
    (hnoEnd : NoEnd tokens) (hclean : (parseTokens tokens options).diagnostics = [])
    (hover : ¬Unfinished tokens) :
    ∃ clauses, ClausesFit (.standard options) .endOfInput clauses ∧
      clausesTokens clauses = tokens ∧
      clausesTrees clauses = (parseTokens tokens options).program.statements ∧
      (∀ clause ∈ clauses.getLast?, clause.semicolon ≠ none) ∧
      clausesNesting clauses ≤ maxNesting := by
  have hderives := derives_of_parse (endStays_tokenStream options hnoEnd.noInnerEnd) hclean
  rw [TokenStream.ofList, content_tokenStream hnoEnd.noInnerEnd, hnoEnd.filter] at hderives
  obtain ⟨clauses, hfit, rfl, htrees⟩ := hderives
  have hcontent : content (TokenStream.ofList (clausesTokens clauses)) = clausesTokens clauses := by
    rw [TokenStream.ofList, content_tokenStream hnoEnd.noInnerEnd, hnoEnd.filter]
  have hanswers := parse_answers (endStays_tokenStream options hnoEnd.noInnerEnd) hcontent hfit
  refine ⟨clauses, hfit, rfl, htrees, hfit.semicolon_ne_none hover, clausesNesting_le_iff.2 ?_⟩
  intro clause hmem
  by_contra hdeep
  obtain ⟨position, more, hreport⟩ := hanswers.beyond ⟨clause, hmem, Nat.lt_of_not_le hdeep⟩
  rw [show (parse _ options).diagnostics = [] from hclean] at hreport
  cases hreport

/-- Behind the tokens of a first list, a parser shows those of the second as a fresh one does. -/
theorem mirrors_of_passes {front back : List Token} {options : Options}
    (hnoEnd : NoEnd (front ++ back)) (hback : back ≠ []) {mid : Parser TokenStream}
    (hpass : (Parser.ofSupply (TokenStream.ofList (front ++ back)) options).Passes mid)
    (hinput : mid.input = back) :
    (Parser.ofSupply (TokenStream.ofList back) options).Mirrors Eq mid := by
  obtain ⟨count, hcount⟩ := hpass.window
  have hmid := (shows_tokenStream hnoEnd options).of_window hcount
  have hleft : (front ++ back).drop count = back := hmid.input_eq.symm.trans hinput
  have hfresh := shows_tokenStream (noEnd_append.1 hnoEnd).2 options
  have heof : (TokenStream.ofList (front ++ back)).endToken =
      (TokenStream.ofList back).endToken := by
    rw [TokenStream.ofList, TokenStream.ofList, List.getLast?_append_of_ne_nil _ hback]
    rfl
  refine ⟨hpass.options.symm, rfl, hpass.tables, hpass.depth.symm, fun count => ?_, ?_⟩
  · rw [hfresh.token_eq, hmid.token_eq, hleft, heof]
    exact .refl _ rfl
  · rw [hpass.clean]
    exact .nil

/-- The tokens of statements the last of which has its semicolon are parsed into these, and what
follows as if it stood alone. -/
theorem parseTokens_clausesTokens_append {clauses : List Clause} {back : List Token}
    {options : Options} (hnoEnd : NoEnd (clausesTokens clauses ++ back)) (hback : back ≠ [])
    (hfit : ClausesFit (.standard options) .endOfInput clauses)
    (hlast : ∀ clause ∈ clauses.getLast?, clause.semicolon ≠ none)
    (hnesting : clausesNesting clauses ≤ maxNesting) :
    (parseTokens (clausesTokens clauses ++ back) options).program.statements =
        clausesTrees clauses ++ (parseTokens back options).program.statements ∧
      (parseTokens (clausesTokens clauses ++ back) options).diagnostics =
        (parseTokens back options).diagnostics := by
  obtain ⟨statements, last, hall, hprogram, hrecorded⟩ :=
    parse_eq_of_statements (TokenStream.ofList (clausesTokens clauses ++ back)) options
  let parser := Parser.ofSupply (TokenStream.ofList (clausesTokens clauses ++ back)) options
  let started := (parser.write .openedProgram).write .entered
  have hpass : parser.Passes started := (Parser.Passes.write parser _).trans (.write _ _)
  have hready : started.Prepared (.standard options) :=
    ⟨(obeys_ofSupply _ options).follows hpass.toFollows, Nat.zero_le _⟩
  have hshows := (shows_tokenStream hnoEnd options).same_window (q := started) rfl
  have hdepth : started.depth + clausesNesting clauses ≤ maxNesting := by
    rw [show started.depth = 0 from rfl, Nat.zero_add]
    exact hnesting
  -- behind the statements stands a parser that nothing tells from a fresh one
  obtain ⟨mid, hmid, hleft, hmore⟩ := run_statements_append .program hready
    (hpass.endStays (endStays_tokenStream options hnoEnd.noInnerEnd)) hshows.input_eq hfit hlast
    hdepth
  obtain ⟨after, hrun, hdiagnostics⟩ :=
    run_statements_of_mirrors (mirrors_of_passes hnoEnd hback (hpass.trans hmid) hleft)
  cases (run_unbounded_statements hall).symm.trans (hmore hrun)
  unfold parseTokens
  rw [hprogram, hrecorded]
  exact ⟨rfl, hdiagnostics⟩

/--
The tokens of a program that nothing is wrong with, that end with a semicolon and close all blocks
that they open, can be put in front of any others: the statements of the two come out in a row, and
what is recorded is what is recorded for the others alone.
-/
theorem parseTokens_append {front back : List Token} (options : Options) (hfront : NoEnd front)
    (hback : NoEnd back) (hclean : (parseTokens front options).diagnostics = [])
    (hlast : ∃ last ∈ front.getLast?, last.kind = .semicolon)
    (hbraces : countKind .closeCurly front = countKind .openCurly front) :
    (parseTokens (front ++ back) options).program.statements =
        (parseTokens front options).program.statements ++
          (parseTokens back options).program.statements ∧
      (parseTokens (front ++ back) options).diagnostics =
        (parseTokens back options).diagnostics := by
  by_cases hne : back = []
  · -- the end of input is at another place then, but nothing is recorded there
    subst hne
    have hempty : (next (TokenStream.ofList [])).1.kind = .endOfInput := rfl
    obtain ⟨hprogram, hdiagnostics⟩ := parse_of_end hempty options
    unfold parseTokens at hclean ⊢
    rw [List.append_nil, hprogram, hdiagnostics, List.append_nil]
    exact ⟨rfl, hclean⟩
  · obtain ⟨clauses, hfit, rfl, htrees, hsemicolon, hnesting⟩ :=
      exists_clauses_of_parseTokens hfront hclean (not_unfinished hlast hbraces)
    rw [← htrees]
    exact parseTokens_clausesTokens_append (noEnd_append.2 ⟨hfront, hback⟩) hne hfit hsemicolon
      hnesting

/-- A statement with two blocks and its semicolon. -/
def sampleFront : List Token :=
  (tokenize "if (x) \x7b return x; \x7d else \x7b y \x7d;" none).dropLast

/-- A semicolon, a brace and an alternative that belong to nothing, a sum without its second operand
and a binding without a name, each of them reported, and an identifier. -/
def sampleBack : List Token :=
  (tokenize "; \x7d else a + ; let 5; b" none).dropLast

theorem parseTokens_append_sample :
    NoEnd sampleFront ∧ NoEnd sampleBack ∧
    (parseTokens sampleFront ⟨true, true⟩).diagnostics = [] ∧
    countKind .closeCurly sampleFront = 2 ∧ countKind .openCurly sampleFront = 2 ∧
    (parseTokens sampleBack ⟨true, true⟩).diagnostics.length = 5 ∧
    (parseTokens (sampleFront ++ sampleBack) ⟨true, true⟩).program.statements =
      (parseTokens sampleFront ⟨true, true⟩).program.statements ++
        (parseTokens sampleBack ⟨true, true⟩).program.statements ∧
    (parseTokens (sampleFront ++ sampleBack) ⟨true, true⟩).diagnostics =
      (parseTokens sampleBack ⟨true, true⟩).diagnostics := by
  have hfront : NoEnd sampleFront := by
    unfold NoEnd
    decide +kernel
  have hback : NoEnd sampleBack := by
    unfold NoEnd
    decide +kernel
  have hclean : (parseTokens sampleFront ⟨true, true⟩).diagnostics = [] := by decide +kernel
  exact ⟨hfront, hback, hclean, by decide +kernel, by decide +kernel, by decide +kernel,
    parseTokens_append ⟨true, true⟩ hfront hback hclean (by decide +kernel) (by decide +kernel)⟩

end Monkey
