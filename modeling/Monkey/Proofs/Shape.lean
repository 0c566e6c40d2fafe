import Monkey.Proofs.Input

/-!
# The shape of trees

How trees of the grammar start and end, and which kinds of tokens do not occur in them. A phrase
starts with a token that starts an operand (`Phrase.Fits.operand`), ends with a token of its own
unless the end of input closes it (`Phrase.Fits.closed`), and has no end of input among its tokens
(`Phrase.Fits.noEnd`).
-/

namespace Monkey

/-! ## How trees start and end -/

theorem Phrase.nesting_pos (phrase : Phrase) : 0 < phrase.nesting := by
  cases phrase <;> simp only [nesting] <;> omega

theorem Phrase.Fits.level_pos {g : Grammar} {next : TokenKind} {phrase : Phrase}
    (h : phrase.Fits g next) : 0 < phrase.level g := by
  cases phrase with
  | binary left operator right =>
    obtain ⟨level, hlevel, -⟩ := h
    rw [Phrase.level, hlevel]
    exact g.level_pos hlevel
  | _ => exact Nat.succ_pos 5

/-- An operator that binds no tighter than a unary one leaves a phrase above it whole. -/
theorem Phrase.le_reach {g : Grammar} {phrase : Phrase} {level : Nat} (hle : level ≤ 5)
    (hlevel : level ≤ phrase.level g) : level ≤ phrase.reach g := by
  cases phrase with
  | unary operator right => exact hle
  | _ => exact hlevel

theorem Block.Fits.closed {g : Grammar} {next : TokenKind} {block : Block}
    (h : block.Fits g next) (hnext : next ≠ .endOfInput) : block.closed = true := by
  match block, h with
  | .mk _ _ (some _), _ => rfl
  | .mk _ _ none, h => exact absurd h.2.2 hnext

/-- Only at the end of input does a phrase end without a token of its own. -/
theorem Phrase.Fits.closed {g : Grammar} {next : TokenKind} : ∀ {phrase : Phrase},
    phrase.Fits g next → next ≠ .endOfInput → phrase.closed = true
  | .identifier _, _, _ => rfl
  | .integer _ _, _, _ => rfl
  | .boolean _ _, _, _ => rfl
  | .group _ _ _, _, _ => rfl
  | .call _ _ _ _, _, _ => rfl
  | .unary _ right, h, hnext => show right.closed = true from closed h.2.2 hnext
  | .binary _ _ right, ⟨_, _, _, _, _, hright⟩, hnext =>
    show right.closed = true from closed hright hnext
  | .conditional _ _ _ _ _ .none, h, hnext => h.2.2.2.2.2.1.closed hnext
  | .conditional _ _ _ _ _ (.some _ _), h, hnext => h.2.2.2.2.2.2.2.closed hnext
  | .function _ _ _ _ _, h, hnext => h.2.2.2.2.closed hnext

/-- A phrase starts with a token that starts an operand. -/
theorem Phrase.Fits.operand {g : Grammar} (kind : TokenKind) :
    ∀ {phrase : Phrase} {next : TokenKind} (_ : phrase.Fits g next) (tokens : List Token),
    ∃ rule, Tables.standardOperand? (leadKind kind (phrase.tokens ++ tokens)) = some rule
  | .identifier _, _, h, _ => ⟨.identifier, congrArg Tables.standardOperand? h⟩
  | .integer _ _, _, h, _ => ⟨.integer, congrArg Tables.standardOperand? h.1⟩
  | .boolean _ true, _, h, _ => ⟨.boolean, congrArg Tables.standardOperand? h⟩
  | .boolean _ false, _, h, _ => ⟨.boolean, congrArg Tables.standardOperand? h⟩
  | .group _ _ _, _, h, _ => ⟨.grouping, congrArg Tables.standardOperand? h.1⟩
  | .unary _ _, _, h, _ =>
    ⟨.unary, h.1.elim (congrArg Tables.standardOperand?) (congrArg Tables.standardOperand?)⟩
  | .conditional _ _ _ _ _ _, _, h, _ => ⟨.conditional, congrArg Tables.standardOperand? h.1⟩
  | .function _ _ _ _ _, _, h, _ => ⟨.function, congrArg Tables.standardOperand? h.1⟩
  | .binary left _ _, _, ⟨_, _, _, hleft, _⟩, tokens => by
    rw [Phrase.tokens, List.append_assoc]
    exact operand kind hleft _
  | .call callee _ _ _, _, h, tokens => by
    rw [Phrase.tokens, List.append_assoc]
    exact operand kind h.2.2.1 _

theorem Block.Fits.opening {g : Grammar} {next : TokenKind} {block : Block}
    (h : block.Fits g next) (tokens : List Token) (kind : TokenKind) :
    leadKind kind (block.tokens ++ tokens) = .openCurly := by
  match block, h with
  | .mk opening _ (some _), h => exact h.1
  | .mk opening _ none, h => exact h.1

/-! ## No end of input inside -/

theorem Parameters.Fits.noEnd {parameters : Parameters} (h : parameters.Fits) :
    NoEnd parameters.tokens := by
  cases parameters with
  | none => exact noEnd_nil
  | some first further =>
    obtain ⟨hfirst, hfurther⟩ := h
    refine noEnd_cons.2 ⟨by rw [hfirst]; decide, ?_⟩
    intro token hmem
    obtain ⟨pair, hpair, hmem⟩ := List.mem_flatMap.1 hmem
    obtain ⟨hcomma, hname⟩ := hfurther pair hpair
    simp only [List.mem_cons, List.not_mem_nil, or_false] at hmem
    rcases hmem with rfl | rfl
    · rw [hcomma]; decide
    · rw [hname]; decide

theorem Grammar.EndsStatement.noEnd {g : Grammar} {next : TokenKind} {semicolon : Option Token}
    (h : g.EndsStatement next semicolon) : NoEnd semicolon.toList := by
  cases semicolon with
  | none => exact noEnd_nil
  | some token => exact noEnd_cons.2 ⟨by rw [show token.kind = _ from h]; decide, noEnd_nil⟩

mutual

/-- No token of a tree of the language is the end of input. -/
theorem Phrase.Fits.noEnd {g : Grammar} : {phrase : Phrase} → {next : TokenKind} →
    phrase.Fits g next → NoEnd phrase.tokens
  | .identifier token, _, h => by simp [Phrase.tokens, show token.kind = _ from h]
  | .integer _ _, _, ⟨h, _⟩ => by simp [Phrase.tokens, h]
  | .boolean token value, _, h => by
    cases value <;> simp [Phrase.tokens, show token.kind = _ from h]
  | .group _ _ _, _, ⟨hopen, hinner, _, hclose⟩ => by
    simp [Phrase.tokens, hopen, hclose, hinner.noEnd]
  | .unary _ _, _, ⟨hoperator, _, hright⟩ => by
    rcases hoperator with hkind | hkind <;> simp [Phrase.tokens, hkind, hright.noEnd]
  | .binary _ operator _, _, ⟨_, hlevel, _, hleft, _, hright⟩ => by
    have hoperator : operator.kind ≠ .endOfInput := by
      intro hend
      rw [hend, g.level?_endOfInput] at hlevel
      cases hlevel
    simp [Phrase.tokens, hoperator, hleft.noEnd, hright.noEnd]
  | .conditional _ _ _ _ _ _, _,
      ⟨hword, hopen, hcondition, _, hclose, hconsequence, halternative⟩ => by
    simp [Phrase.tokens, hword, hopen, hclose, hcondition.noEnd, hconsequence.noEnd,
      halternative.noEnd]
  | .function _ _ _ _ _, _, ⟨hword, hopen, hparameters, hclose, hbody⟩ => by
    simp [Phrase.tokens, hword, hopen, hclose, hparameters.noEnd, hbody.noEnd]
  | .call _ _ _ _, _, ⟨_, _, hcallee, hopen, harguments, hclose⟩ => by
    simp [Phrase.tokens, hopen, hclose, hcallee.noEnd, harguments.noEnd]

theorem Arguments.Fits.noEnd {g : Grammar} : {arguments : Arguments} →
    arguments.Fits g → NoEnd arguments.tokens
  | .none, _ => noEnd_nil
  | .some _ _, ⟨hfirst, _, hfurther⟩ => by simp [Arguments.tokens, hfirst.noEnd, hfurther.noEnd]

theorem FurtherArguments.Fits.noEnd {g : Grammar} : {further : FurtherArguments} →
    further.Fits g → NoEnd further.tokens
  | .none, _ => noEnd_nil
  | .some _ _ _, ⟨hcomma, hargument, _, hfurther⟩ => by
    simp [FurtherArguments.tokens, hcomma, hargument.noEnd, hfurther.noEnd]

theorem Block.Fits.noEnd {g : Grammar} : {block : Block} → {next : TokenKind} →
    block.Fits g next → NoEnd block.tokens
  | .mk _ _ (some _), _, ⟨hopen, hbody, hclose⟩ => by
    simp [Block.tokens, hopen, hclose, hbody.noEnd]
  | .mk _ _ none, _, ⟨hopen, hbody, _⟩ => by simp [Block.tokens, hopen, hbody.noEnd]

theorem Alternative.Fits.noEnd {g : Grammar} : {alternative : Alternative} → {next : TokenKind} →
    alternative.Fits g next → NoEnd alternative.tokens
  | .none, _, _ => noEnd_nil
  | .some _ _, _, ⟨hword, hblock⟩ => by simp [Alternative.tokens, hword, hblock.noEnd]

theorem Clause.Fits.noEnd {g : Grammar} : {clause : Clause} → {next : TokenKind} →
    clause.Fits g next → NoEnd clause.tokens
  | .letBinding _ _ _ _ _, _, ⟨hword, hname, hassign, hvalue, hends⟩ => by
    simp [Clause.tokens, hword, hname, hassign, hvalue.noEnd, hends.noEnd]
  | .returning _ _ _, _, ⟨hword, hvalue, hends⟩ => by
    simp [Clause.tokens, hword, hvalue.noEnd, hends.noEnd]
  | .expression _ _, _, ⟨hvalue, hends⟩ => by simp [Clause.tokens, hvalue.noEnd, hends.noEnd]

theorem ClausesFit.noEnd {g : Grammar} : {clauses : List Clause} → {next : TokenKind} →
    ClausesFit g next clauses → NoEnd (clausesTokens clauses)
  | [], _, _ => noEnd_nil
  | _ :: _, _, ⟨hclause, hclauses⟩ => by simp [clausesTokens, hclause.noEnd, hclauses.noEnd]

end

end Monkey
