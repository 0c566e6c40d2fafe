import Monkey.Proofs.Height
import Monkey.Proofs.Soundness

/-!
# Parsing, printing and parsing again

A source that is parsed without anything found wrong into one expression of names, numbers, truth
values and operators has a canonical text, and that is parsed once more. What a scanner hands out
is spelled as its kind demands (`Scanner.spelled_next`), so the tree can be printed and read again
but for the way its integers were written, which the canonical text does not show
(`Expression.canonical`). What decides is the depth of the tree: the parentheses of the canonical
text take levels that the source may have done without (`fixedPoint_iff_depth_le`).
-/

namespace Monkey

open TokenSource

/-! ## How tokens are spelled -/

/-- The text of the tokens of a kind that all have the same one. -/
def TokenKind.sign? (kind : TokenKind) : Option String :=
  patterns.findSome? fun
    | .fixed text k => if k = kind then some text else none
    | _ => none

theorem sign?_of_fixed {text : String} {kind : TokenKind} (h : Pattern.fixed text kind ∈ patterns) :
    kind.sign? = some text := by
  simp only [patterns, List.mem_cons, reduceCtorEq, Pattern.fixed.injEq, List.not_mem_nil, or_false,
    false_or] at h
  rcases h with ⟨rfl, rfl⟩ | ⟨rfl, rfl⟩ | ⟨rfl, rfl⟩ | ⟨rfl, rfl⟩ | ⟨rfl, rfl⟩ | ⟨rfl, rfl⟩ |
    ⟨rfl, rfl⟩ | ⟨rfl, rfl⟩ | ⟨rfl, rfl⟩ | ⟨rfl, rfl⟩ | ⟨rfl, rfl⟩ | ⟨rfl, rfl⟩ | ⟨rfl, rfl⟩ |
    ⟨rfl, rfl⟩ | ⟨rfl, rfl⟩ | ⟨rfl, rfl⟩ <;> rfl

/-- A token whose text is as its kind demands. -/
structure Token.Spelled (token : Token) : Prop where
  name : token.kind = .identifier → IsName token.text
  digits : token.kind = .integer →
    token.text.toList ≠ [] ∧ token.text.toList.all Char.isDigit = true
  sign : ∀ text ∈ token.kind.sign?, token.text = text

theorem Token.Spelled.of_name {token : Token} (hkind : token.kind = .identifier)
    (h : IsName token.text) : token.Spelled := by
  refine ⟨fun _ => h, fun hdigits => ?_, ?_⟩
  · rw [hkind] at hdigits
    cases hdigits
  · rw [hkind]
    exact fun _ hmem => by cases hmem

theorem Token.Spelled.of_digits {token : Token} (hkind : token.kind = .integer)
    (hne : token.text.toList ≠ []) (h : token.text.toList.all Char.isDigit = true) :
    token.Spelled := by
  refine ⟨fun hname => ?_, fun _ => ⟨hne, h⟩, ?_⟩
  · rw [hkind] at hname
    cases hname
  · rw [hkind]
    exact fun _ hmem => by cases hmem

/-- A kind that is neither that of names nor that of integers and has no sign of its own leaves the
text free. -/
theorem Token.Spelled.of_free {token : Token} (hname : token.kind ≠ .identifier)
    (hdigits : token.kind ≠ .integer) (hsign : token.kind.sign? = none) : token.Spelled := by
  refine ⟨fun h => absurd h hname, fun h => absurd h hdigits, ?_⟩
  rw [hsign]
  exact fun _ hmem => by cases hmem

/-- What a pattern matches is spelled as the kind of token demands that it makes. -/
theorem Pattern.spelled {pattern : Pattern} (hpattern : pattern ∈ patterns)
    {source text back : List Char} (hsplit : pattern.split? source = some (text, back))
    {kind : TokenKind} (hkind : pattern.kind? (String.ofList text) = some kind) (span : Span) :
    Token.Spelled ⟨kind, String.ofList text, span⟩ := by
  cases pattern with
  | word =>
    have hword := Pattern.isWord_of_split? hsplit
    cases hreserved : reserved? (String.ofList text) with
    | none =>
      rw [Pattern.kind?, hreserved] at hkind
      cases hkind
      refine .of_name rfl ⟨?_, hreserved⟩
      rwa [String.toList_ofList]
    | some word =>
      rw [Pattern.kind?, hreserved] at hkind
      cases hkind
      have hmem := reserved?_eq_some_iff.1 hreserved
      simp only [reservedWords, List.mem_cons, Prod.mk.injEq, List.not_mem_nil, or_false] at hmem
      rcases hmem with ⟨-, rfl⟩ | ⟨-, rfl⟩ | ⟨-, rfl⟩ | ⟨-, rfl⟩ | ⟨-, rfl⟩ | ⟨-, rfl⟩ |
        ⟨-, rfl⟩ <;> exact .of_free (fun h => by cases h) (fun h => by cases h) rfl
  | number =>
    cases hkind
    obtain ⟨hne, htext, -⟩ := splitRun?_eq_some_iff.1 hsplit
    refine .of_digits rfl ?_ ?_
    · rwa [String.toList_ofList]
    · rw [String.toList_ofList, htext]
      exact List.all_takeWhile
  | blanks => cases hkind
  | comment => cases hkind
  | fixed lexeme sign =>
    cases hkind
    have hsign := sign?_of_fixed hpattern
    obtain ⟨rest, -, heq⟩ := Option.map_eq_some_iff.1 hsplit
    cases heq
    refine ⟨?_, ?_, ?_⟩
    · rintro rfl
      cases hsign
    · rintro rfl
      cases hsign
    · intro text hmem
      rw [hsign] at hmem
      cases hmem
      exact String.ofList_toList

/-- A scanner hands out tokens that are spelled as their kinds demand. -/
theorem Scanner.spelled_next (scanner : Scanner) : (Scanner.next scanner).1.Spelled := by
  generalize hlen : scanner.rest.length = n
  induction n using Nat.strongRecOn generalizing scanner with
  | _ n ih =>
    subst hlen
    obtain ⟨rest, offset, file⟩ := scanner
    rw [Scanner.next_eq]
    cases rest with
    | nil => exact .of_free (fun h => by cases h) (fun h => by cases h) rfl
    | cons c rest =>
      simp only
      cases found : lexeme? (c :: rest) with
      | none => exact .of_free (fun h => by cases h) (fun h => by cases h) rfl
      | some lexeme =>
        simp only
        cases hkind : lexeme.pattern.kind? (String.ofList lexeme.text) with
        | none => exact ih _ (lexeme?_rest_length found) _ rfl
        | some kind =>
          obtain ⟨hpattern, hsplit⟩ := lexeme?_eq_some found
          exact Pattern.spelled hpattern hsplit hkind _

/-- What holds of every token that a supply hands out holds of its content. -/
theorem forall_mem_content {σ : Type} [TokenSource σ] {good : Token → Prop}
    (hnext : ∀ supply : σ, good (next supply).1) (supply : σ) :
    ∀ token ∈ content supply, good token := by
  generalize hlen : remaining supply = n
  induction n using Nat.strongRecOn generalizing supply with
  | _ n ih =>
    subst hlen
    by_cases hend : (next supply).1.kind = .endOfInput
    · rw [content_of_end hend]
      exact fun _ hmem => by cases hmem
    · have hpos : 0 < remaining supply :=
        Nat.pos_of_ne_zero fun hzero => hend (kind_next_of_drained supply hzero)
      rw [content_of_more hend]
      exact List.forall_mem_cons.2 ⟨hnext supply, ih _ (remaining_next_lt supply hpos) _ rfl⟩

/-! ## Expressions of operators -/

/-- Whether an expression consists of names, integers, truth values and operators only. -/
def Expression.isPlain : Expression → Bool
  | .identifier _ => true
  | .integer _ _ => true
  | .boolean _ => true
  | .unary _ right => right.isPlain
  | .binary left _ right => left.isPlain && right.isPlain
  | .conditional _ _ _ => false
  | .function _ _ => false
  | .call _ _ => false

/-- An expression of operators with its integers written in their canonical form. -/
def Expression.canonical : Expression → Expression
  | .integer value _ => .canonicalInteger value
  | .unary operator right => .unary operator right.canonical
  | .binary left operator right => .binary left.canonical operator right.canonical
  | e => e

/-- The canonical text does not show how integers were written. -/
theorem Expression.render_canonical : (e : Expression) → e.canonical.render = e.render
  | .integer _ _ => rfl
  | .unary _ right => by
    rw [canonical, Expression.render, Expression.render, right.render_canonical]
  | .binary left _ right => by
    rw [canonical, Expression.render, Expression.render, left.render_canonical,
      right.render_canonical]
  | .identifier _ => rfl
  | .boolean _ => rfl
  | .conditional _ _ _ => rfl
  | .function _ _ => rfl
  | .call _ _ => rfl

theorem Expression.depth_canonical : (e : Expression) → e.canonical.depth = e.depth
  | .integer _ _ => rfl
  | .unary _ right => by rw [canonical, depth, depth, right.depth_canonical]
  | .binary left _ right => by
    rw [canonical, depth, depth, left.depth_canonical, right.depth_canonical]
  | .identifier _ => rfl
  | .boolean _ => rfl
  | .conditional _ _ _ => rfl
  | .function _ _ => rfl
  | .call _ _ => rfl

/-- A text of digits alone stands for no negative number. -/
theorem nonneg_of_digits {text : List Char} (hne : text ≠ [])
    (hdigits : text.all Char.isDigit = true) {n : Int} (h : Text.readDecimal? text = some n) :
    0 ≤ n := by
  rw [Text.readDecimal?_of_all_isDigit hne hdigits] at h
  cases h
  exact Int.natCast_nonneg _

/-- The sign of an operator with a level is one of the eight. -/
theorem Token.Spelled.binary {options : Options} {token : Token} (h : token.Spelled) {level : Nat}
    (hlevel : (Grammar.standard options).level? token.kind = some level) :
    token.text ∈ ["==", "!=", "<", ">", "+", "-", "*", "/"] := by
  have hsign := h.sign
  have hlevel : Grammar.standardLevel? token.kind = some level := hlevel
  cases hkind : token.kind <;> rw [hkind] at hlevel hsign <;> first
    | (rw [hsign _ rfl]; decide)
    | cases hlevel

theorem Token.Spelled.unary {token : Token} (h : token.Spelled)
    (hkind : token.kind = .bang ∨ token.kind = .dash) : token.text ∈ ["!", "-"] := by
  have hsign := h.sign
  rcases hkind with hkind | hkind <;> rw [hkind] at hsign <;> rw [hsign _ rfl] <;> decide

/-- What is written with tokens that are spelled as they should be can be printed and read again,
but for its integers. -/
theorem Phrase.Fits.printable {options : Options} {calls : Bool} : {phrase : Phrase} →
    {next : TokenKind} → phrase.Fits (.standard options) next →
    (∀ token ∈ phrase.tokens, token.Spelled) → phrase.tree.isPlain = true →
    phrase.tree.canonical.Printable calls
  | .identifier token, _, hfits, hspelled, _ =>
    .identifier ((hspelled token List.mem_cons_self).name hfits)
  | .integer token value, _, ⟨hkind, hvalue⟩, hspelled, _ => by
    obtain ⟨hne, hdigits⟩ := (hspelled token List.mem_cons_self).digits hkind
    exact .integer (nonneg_of_digits hne hdigits hvalue)
  | .boolean _ value, _, _, _, _ => .boolean value
  | .group _ inner _, _, ⟨_, hinner, _⟩, hspelled, hplain => by
    refine hinner.printable (fun token hmem => hspelled token ?_) hplain
    simp [Phrase.tokens, hmem]
  | .unary operator right, _, ⟨hoperator, _, hright⟩, hspelled, hplain => by
    obtain ⟨hsign, hspelled⟩ := List.forall_mem_cons.1 hspelled
    exact .unary (hsign.unary hoperator) (hright.printable hspelled hplain)
  | .binary left operator right, _, ⟨level, hlevel, _, hleft, _, hright⟩, hspelled, hplain => by
    obtain ⟨hspelledLeft, hspelled⟩ := List.forall_mem_append.1 hspelled
    obtain ⟨hsign, hspelledRight⟩ := List.forall_mem_cons.1 hspelled
    obtain ⟨hplainLeft, hplainRight⟩ := Bool.and_eq_true_iff.1 hplain
    exact .binary (hsign.binary hlevel) (hleft.printable hspelledLeft hplainLeft)
      (hright.printable hspelledRight hplainRight)
  | .conditional _ _ _ _ _ _, _, _, _, hplain => by cases hplain
  | .function _ _ _ _ _, _, _, _, hplain => by cases hplain
  | .call _ _ _ _, _, _, _, hplain => by cases hplain

/-! ## Twice parsed -/

/-- One expression as a statement is written as one clause. -/
theorem exists_of_clausesTrees_singleton {clauses : List Clause} {e : Expression}
    (h : clausesTrees clauses = [.expression e]) :
    ∃ value semicolon, clauses = [.expression value semicolon] ∧ value.tree = e := by
  obtain ⟨clause, rfl, htree⟩ := eq_singleton_of_clausesTrees h
  cases clause with
  | expression value semicolon => exact ⟨value, semicolon, rfl, Statement.expression.inj htree⟩
  | letBinding _ _ _ _ _ => cases htree
  | returning _ _ _ => cases htree

/-- What a source is parsed into without anything found wrong can be printed and read again, but
for its integers. -/
theorem printable_of_parseSource {source : String} {file : Option String} {options : Options}
    {e : Expression} (hclean : (parseSource source file options).diagnostics = [])
    (hprogram : (parseSource source file options).program = ⟨[.expression e]⟩)
    (hplain : e.isPlain = true) (calls : Bool) : e.canonical.Printable calls := by
  obtain ⟨clauses, hfit, htokens, htrees⟩ :=
    derives_of_parse (endStays_scanner source file options) hclean
  have hspelled : ∀ token ∈ clausesTokens clauses, token.Spelled := by
    rw [htokens]
    exact forall_mem_content Scanner.spelled_next _
  have htrees : clausesTrees clauses = [.expression e] := by
    rw [htrees]
    exact congrArg Program.statements hprogram
  obtain ⟨value, semicolon, rfl, rfl⟩ := exists_of_clausesTrees_singleton htrees
  obtain ⟨⟨hvalue, -⟩, -⟩ := hfit
  refine hvalue.printable (fun token hmem => hspelled token ?_) hplain
  simp [clausesTokens, Clause.tokens, hmem]

/-- The canonical text of an expression that can be printed and read again is one statement, nested
as deeply as the expression is deep. -/
theorem Expression.Printable.exists_clause {options : Options} {e : Expression}
    (h : e.Printable options.calls) (file : Option String) :
    ∃ clause : Clause, (parseSource e.render file options).Answers [clause] ∧
      clause.tree = .expression e ∧ clause.nesting = e.depth := by
  have hrest : (Scanner.ofSource e.render file).rest =
      (renderBlock [.expression e]).toList := by
    rw [renderBlock, Statement.render, renderBlock, String.append_empty]
    rfl
  obtain ⟨clauses, hcontent, htrees, hfit, hnesting⟩ :=
    (PrintableStatements.expression h).exists_clauses hrest
  obtain ⟨value, semicolon, rfl, hvalue⟩ := exists_of_clausesTrees_singleton htrees
  exact ⟨.expression value semicolon,
    parse_answers (endStays_scanner e.render file options) hcontent hfit,
    congrArg Statement.expression hvalue, (List.cons.inj hnesting).1⟩

/-- An expression that is a whole program has the canonical text of the program. -/
theorem render_singleton (e : Expression) : Program.render ⟨[.expression e]⟩ = e.render := by
  rw [Program.render, renderBlock, renderBlock, Statement.render, String.append_empty]

/-- The canonical text of what a source is parsed into without anything found wrong is one
statement, nested as deeply as the tree is deep. -/
theorem exists_clause_of_parseSource {source : String} {file : Option String} {e : Expression}
    (hclean : (parseSource source file {}).diagnostics = [])
    (hprogram : (parseSource source file {}).program = ⟨[.expression e]⟩)
    (hplain : e.isPlain = true) (again : Option String) :
    ∃ clause : Clause, (parseSource e.render again {}).Answers [clause] ∧
      clause.tree = .expression e.canonical ∧ clause.nesting = e.depth := by
  have hprintable : e.canonical.Printable ({} : Options).calls :=
    printable_of_parseSource hclean hprogram hplain _
  have hexists := hprintable.exists_clause again
  rwa [e.render_canonical, e.depth_canonical] at hexists

/--
For a source with nothing wrong that is one expression of names, integers, truth values and
operators, parsing the canonical text again finds nothing wrong and has the same canonical text
exactly if the tree is no deeper than 256 levels, its parentheses included. Otherwise the nesting
is reported as too deep before anything else.
-/
theorem fixedPoint_iff_depth_le {source : String} {file again : Option String} {e : Expression}
    (hclean : (parseSource source file {}).diagnostics = [])
    (hprogram : (parseSource source file {}).program = ⟨[.expression e]⟩)
    (hplain : e.isPlain = true) :
    ((parseSource (parseSource source file {}).program.render again {}).diagnostics = [] ∧
      (parseSource (parseSource source file {}).program.render again {}).program.render =
        (parseSource source file {}).program.render ↔ e.depth ≤ 256) ∧
    (256 < e.depth → ∃ position more,
      (parseSource (parseSource source file {}).program.render again {}).diagnostics =
        ⟨.nestingTooDeep 256, position⟩ :: more) := by
  obtain ⟨clause, hanswers, htree, hnesting⟩ :=
    exists_clause_of_parseSource hclean hprogram hplain again
  rw [hprogram, render_singleton]
  have hbeyond : 256 < e.depth → ∃ position more,
      (parseSource e.render again {}).diagnostics = ⟨.nestingTooDeep 256, position⟩ :: more :=
    fun hdeep => hanswers.beyond ⟨clause, List.mem_singleton_self _, hnesting ▸ hdeep⟩
  refine ⟨⟨fun h => Nat.not_lt.1 fun hdeep => ?_, fun hdepth => ?_⟩, hbeyond⟩
  · obtain ⟨position, more, hfirst⟩ := hbeyond hdeep
    rw [h.1] at hfirst
    cases hfirst
  · obtain ⟨hsecond, hfaultless⟩ :=
      hanswers.within (List.forall_mem_singleton.2 (hnesting ▸ hdepth))
    refine ⟨hfaultless, ?_⟩
    rw [hsecond, clausesTrees, htree, clausesTrees, render_singleton, e.render_canonical]

theorem isPlain_sumTree (signs : Nat) : (sumTree signs).isPlain = true := by
  induction signs with
  | zero => rfl
  | succ signs ih => rw [sumTree, Expression.isPlain, ih]; rfl

/-- Every sign of a sum but the first takes a level of the canonical text. -/
theorem depth_sumTree (signs : Nat) : (sumTree (signs + 1)).depth = signs + 3 := by
  induction signs with
  | zero => rfl
  | succ signs ih =>
    rw [sumTree, Expression.depth, ih, Expression.depth]
    omega

/-- The longest sum whose canonical text is parsed like the sum itself. -/
theorem fixedPoint_iff_depth_le_sum :
    (parseSource (parseSource (sumText 254) none {}).program.render none {}).diagnostics = [] ∧
    (parseSource (parseSource (sumText 254) none {}).program.render none {}).program.render =
      (parseSource (sumText 254) none {}).program.render := by
  obtain ⟨hprogram, hclean⟩ := parse_sumText 254 none {}
  have hdepth : (sumTree 254).depth ≤ 256 := Nat.le_of_eq (depth_sumTree 253)
  exact (fixedPoint_iff_depth_le hclean hprogram (isPlain_sumTree 254)).1.2 hdepth

/-- A sum of 256 names has nothing wrong and a tree no higher than the limit of nesting, and its
canonical text is nested too deeply. -/
theorem fixedPoint_sum_fails :
    (parseSource (sumText 255) none {}).diagnostics = [] ∧
    (parseSource (sumText 255) none {}).program = ⟨[.expression (sumTree 255)]⟩ ∧
    (sumTree 255).isPlain = true ∧ (sumTree 255).height ≤ maxNesting ∧
    ∃ position more,
      (parseSource (parseSource (sumText 255) none {}).program.render none {}).diagnostics =
        ⟨.nestingTooDeep 256, position⟩ :: more := by
  obtain ⟨hprogram, hclean⟩ := parse_sumText 255 none {}
  obtain ⟨clause, hanswers, -, hnesting⟩ :=
    exists_clause_of_parseSource hclean hprogram (isPlain_sumTree 255) none
  refine ⟨hclean, hprogram, isPlain_sumTree 255, ?_, ?_⟩
  · rw [height_sumTree]
    exact Nat.le_refl 256
  · rw [hprogram, render_singleton]
    refine hanswers.beyond ⟨clause, List.mem_singleton_self _, ?_⟩
    rw [hnesting, depth_sumTree]
    decide

end Monkey
