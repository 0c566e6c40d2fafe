import Monkey.Proofs.Completeness
import Monkey.Proofs.Scanning
import Monkey.Tree.Printer

/-!
# Printing and parsing again

The canonical text of a program is a text of the grammar: the parentheses around every operation
make groups of them, and what is printed next to each other is scanned as it was meant, since a word
or a number is followed by a blank or a sign, `!` never by `=`, and a slash by a blank. So a program
is parsed back from its canonical text if the groups are not nested too deeply, and the depth of a
tree counts the levels that they take.
-/

namespace Monkey

open TokenSource

/-! ## Trees that can be printed and read again -/

/-- A word that is not reserved. -/
def IsName (name : String) : Prop :=
  IsWord name.toList ∧ reserved? name = none

/-- An expression of names, canonical integers, truth values and operators, and of calls if there
are any. -/
inductive Expression.Printable (calls : Bool) : Expression → Prop where
  | identifier {name : String} (hname : IsName name) : Printable calls (.identifier name)
  | integer {value : Int64} (hvalue : 0 ≤ value.toInt) :
      Printable calls (.canonicalInteger value)
  | boolean (value : Bool) : Printable calls (.boolean value)
  | unary {operator : String} {right : Expression} (hoperator : operator ∈ ["!", "-"])
      (hright : Printable calls right) : Printable calls (.unary operator right)
  | binary {left : Expression} {operator : String} {right : Expression}
      (hoperator : operator ∈ ["==", "!=", "<", ">", "+", "-", "*", "/"])
      (hleft : Printable calls left) (hright : Printable calls right) :
      Printable calls (.binary left operator right)
  | call {callee : Expression} {arguments : List Expression} (hcalls : calls = true)
      (hcallee : Printable calls callee)
      (harguments : ∀ argument ∈ arguments, Printable calls argument) :
      Printable calls (.call callee arguments)

mutual

/-- How many levels of nesting the canonical text of an expression takes, its parentheses
included. -/
def Expression.depth : Expression → Nat
  | .identifier _ => 1
  | .integer _ _ => 1
  | .boolean _ => 1
  | .unary _ right => 2 + right.depth
  | .binary left _ right => max (1 + left.depth) (2 + right.depth)
  | .call callee arguments => max callee.depth (1 + depthEach arguments)
  | .conditional _ _ _ => 0
  | .function _ _ => 0

/-- The greatest depth of several expressions. -/
def depthEach : List Expression → Nat
  | [] => 0
  | expression :: rest => max expression.depth (depthEach rest)

end

/-- Statements that can be printed and read again: bindings and returns, and at the end perhaps an
expression. -/
inductive PrintableStatements (calls : Bool) : List Statement → Prop where
  | nil : PrintableStatements calls []
  | expression {value : Expression} (hvalue : value.Printable calls) :
      PrintableStatements calls [.expression value]
  | letBinding {name : String} {value : Expression} {rest : List Statement}
      (hname : IsName name) (hvalue : value.Printable calls)
      (hrest : PrintableStatements calls rest) :
      PrintableStatements calls (.letBinding name value :: rest)
  | returning {value : Expression} {rest : List Statement} (hvalue : value.Printable calls)
      (hrest : PrintableStatements calls rest) :
      PrintableStatements calls (.returning value :: rest)

/-- The depth of the value of a statement. -/
def Statement.depth : Statement → Nat
  | .letBinding _ value => value.depth
  | .returning value => value.depth
  | .expression value => value.depth
  | .block _ => 0

/-! ## The text of expressions -/

section Text

variable {calls : Bool}

/-- The text of arguments behind the first, each behind its comma. -/
def furtherText (arguments : List Expression) : List Char :=
  arguments.flatMap fun argument => ',' :: ' ' :: argument.render.toList

theorem toList_intercalate_render (first : Expression) (further : List Expression) :
    (", ".intercalate (renderEach (first :: further))).toList =
      first.render.toList ++ furtherText further := by
  induction further generalizing first with
  | nil => simp [renderEach, furtherText]
  | cons second further ih =>
    rw [renderEach, renderEach, String.intercalate_cons_cons, String.toList_append, ← renderEach,
      ih]
    simp [furtherText]

theorem exists_repr_of_nonneg {value : Int64} (h : 0 ≤ value.toInt) :
    ∃ n : Nat, value.toInt = n ∧ Text.writeDecimal value.toInt = n.repr := by
  obtain ⟨n, hn⟩ := Int.eq_ofNat_of_zero_le h
  exact ⟨n, hn, by rw [hn]; rfl⟩

/-- The text of an expression starts with a part of a word or a parenthesis. -/
theorem Expression.Printable.exists_head {e : Expression} (h : e.Printable calls) :
    ∃ c rest, e.render.toList = c :: rest ∧ (isWordPart c = true ∨ c = '(') := by
  induction h with
  | identifier hname =>
    obtain ⟨c, rest, htext, hpart⟩ := hname.1.exists_head
    exact ⟨c, rest, htext, .inl hpart⟩
  | @integer value hvalue =>
    obtain ⟨n, -, htext⟩ := exists_repr_of_nonneg hvalue
    obtain ⟨c, rest, hdigits⟩ := List.exists_cons_of_ne_nil (Nat.toDigits_ne_nil (b := 10) (n := n))
    have hdigit : c.isDigit = true :=
      Nat.isDigit_of_mem_toDigits (by decide) (by decide) (hdigits ▸ List.mem_cons_self)
    refine ⟨c, rest, ?_, .inl (isWordPart_of_isDigit hdigit)⟩
    rw [canonicalInteger, Expression.render, htext, Nat.toList_repr, hdigits]
  | boolean value =>
    cases value with
    | true => exact ⟨'t', ['r', 'u', 'e'], rfl, .inl (by decide)⟩
    | false => exact ⟨'f', ['a', 'l', 's', 'e'], rfl, .inl (by decide)⟩
  | @unary operator right hoperator hright ih =>
    refine ⟨'(', (operator ++ right.render ++ ")").toList, ?_, .inr rfl⟩
    simp [Expression.render]
  | @binary left operator right hoperator hleft hright ihl ihr =>
    refine ⟨'(', (left.render ++ " " ++ operator ++ " " ++ right.render ++ ")").toList, ?_,
      .inr rfl⟩
    simp [Expression.render]
  | @call callee arguments hcalls hcallee harguments ihc iha =>
    obtain ⟨c, rest, htext, hc⟩ := ihc
    refine ⟨c, rest ++ ("(" ++ ", ".intercalate (renderEach arguments) ++ ")").toList, ?_, hc⟩
    simp [Expression.render, htext]

/-- In front of an expression anything breaks off that does not go on with a word or a
parenthesis. -/
theorem Expression.Printable.breaks {e : Expression} (h : e.Printable calls) {p : Char → Bool}
    (hword : ∀ c, isWordPart c = true → p c = false) (hparen : p '(' = false) (back : List Char) :
    Breaks p (e.render.toList ++ back) := by
  obtain ⟨c, rest, htext, hc⟩ := h.exists_head
  rw [htext, List.cons_append, breaks_cons]
  rcases hc with hc | rfl
  · exact hword c hc
  · exact hparen

theorem Expression.Printable.breaks_blank {e : Expression} (h : e.Printable calls)
    (back : List Char) : Breaks Text.isBlank (e.render.toList ++ back) :=
  h.breaks (fun _ => isBlank_of_isWordPart) (by decide) back

end Text

/-! ## Scanning expressions -/

/-- A phrase as which an expression is written. -/
structure Expression.Written (e : Expression) (g : Grammar) (phrase : Phrase) : Prop where
  tree : phrase.tree = e
  nesting : phrase.nesting = e.depth
  reach : 6 ≤ phrase.reach g
  fits : ∀ next, phrase.Fits g next

section Scan

variable {options : Options}

theorem not_continues_closeParen : ¬(Grammar.standard options).Continues .closeParen := by
  simp [Grammar.Continues, Grammar.standard, Grammar.standardLevel?]

theorem not_continues_lead (further : FurtherArguments) :
    ¬(Grammar.standard options).Continues further.lead := by
  cases further <;>
    simp [Grammar.Continues, Grammar.standard, Grammar.standardLevel?, FurtherArguments.lead]

/-- A scanner in front of the text of an expression hands out a phrase for it, if the text breaks
off behind it. -/
def Expression.Scans (e : Expression) (options : Options) : Prop :=
  ∀ {scanner : Scanner} {back : List Char}, scanner.rest = e.render.toList ++ back →
    Breaks isWordPart back →
    ∃ (phrase : Phrase) (after : Scanner), e.Written (.standard options) phrase ∧
      after.rest = back ∧ content scanner = phrase.tokens ++ content after

theorem Expression.scans_identifier {name : String} (hname : IsName name) :
    (identifier name).Scans options := by
  intro scanner back hrest hback
  have hrest : scanner.rest = name.toList ++ back := hrest
  obtain ⟨token, after, hkind, htext, hafter, hcontent⟩ :=
    Scanner.exists_word hrest hname.1 hback
  rw [String.ofList_toList, hname.2] at hkind
  rw [String.ofList_toList] at htext
  exact ⟨.identifier token, after, ⟨congrArg _ htext, rfl, Nat.le_refl 6, fun _ => hkind⟩, hafter,
    hcontent⟩

theorem Expression.scans_integer {value : Int64} (hvalue : 0 ≤ value.toInt) :
    (canonicalInteger value).Scans options := by
  intro scanner back hrest hback
  obtain ⟨n, hn, htext⟩ := exists_repr_of_nonneg hvalue
  have hdigits : ∀ c ∈ n.repr.toList, c.isDigit = true := by
    intro c hmem
    rw [Nat.toList_repr] at hmem
    exact Nat.isDigit_of_mem_toDigits (by decide) (by decide) hmem
  have hne : n.repr.toList ≠ [] := by
    rw [Nat.toList_repr]
    exact Nat.toDigits_ne_nil
  have hbreak : Breaks Char.isDigit back := by
    intro c hc
    cases hdigit : c.isDigit with
    | false => rfl
    | true => exact absurd (hback c hc) (by rw [isWordPart_of_isDigit hdigit]; decide)
  rw [canonicalInteger, Expression.render, htext] at hrest
  obtain ⟨token, after, hkind, htoken, hafter, hcontent⟩ :=
    Scanner.exists_number hrest hne hdigits hbreak
  rw [String.ofList_toList] at htoken
  refine ⟨.integer token value, after, ⟨?_, rfl, Nat.le_refl 6, fun _ => ⟨hkind, ?_⟩⟩, hafter,
    hcontent⟩
  · rw [Phrase.tree, htoken, ← htext]
    rfl
  · rw [htoken, Text.readDecimal?_repr, hn]

theorem Expression.scans_boolean (value : Bool) : (boolean value).Scans options := by
  intro scanner back hrest hback
  have hword : IsWord (booleanText value).toList := by
    cases value with
    | true => exact ⟨⟨'t', _, rfl, by decide⟩, by decide⟩
    | false => exact ⟨⟨'f', _, rfl, by decide⟩, by decide⟩
  have hrest : scanner.rest = (booleanText value).toList ++ back := hrest
  obtain ⟨token, after, hkind, -, hafter, hcontent⟩ := Scanner.exists_word hrest hword hback
  have hfits : token.kind = if value then .trueWord else .falseWord := by
    rw [hkind, String.ofList_toList]
    cases value <;> rfl
  exact ⟨.boolean token value, after, ⟨rfl, rfl, Nat.le_refl 6, fun _ => hfits⟩, hafter, hcontent⟩

/-- A unary operator is scanned in front of an expression. -/
theorem exists_unarySign {calls : Bool} {operator : String} (hoperator : operator ∈ ["!", "-"])
    {e : Expression} (he : e.Printable calls) {scanner : Scanner} {back : List Char}
    (hrest : scanner.rest = operator.toList ++ (e.render.toList ++ back)) :
    ∃ (token : Token) (after : Scanner), (token.kind = .bang ∨ token.kind = .dash) ∧
      token.text = operator ∧ after.rest = e.render.toList ++ back ∧
      content scanner = token :: content after := by
  simp only [List.mem_cons, List.not_mem_nil, or_false] at hoperator
  rcases hoperator with rfl | rfl
  · have hbreak : Breaks (· == '=') (e.render.toList ++ back) := by
      refine he.breaks ?_ (by decide) back
      intro c hc
      cases heq : c == '=' with
      | false => rfl
      | true =>
        rw [eq_of_beq heq] at hc
        exact absurd hc (by decide)
    obtain ⟨token, after, hkind, hcontent⟩ :=
      Scanner.exists_sign "!" .bang hrest (lexeme?_bang hbreak)
    exact ⟨token, after, .inl hkind, hcontent⟩
  · obtain ⟨token, after, hkind, hcontent⟩ :=
      Scanner.exists_plainSign "-" .dash (by decide) hrest
    exact ⟨token, after, .inr hkind, hcontent⟩

theorem breaks_closeParen (back : List Char) : Breaks isWordPart (')' :: back) :=
  breaks_cons.2 (by decide)

theorem Expression.scans_unary {operator : String} {right : Expression}
    (hoperator : operator ∈ ["!", "-"]) (hright : right.Printable options.calls)
    (hr : right.Scans options) : (unary operator right).Scans options := by
  intro scanner back hrest hback
  have hrest : scanner.rest =
      "(".toList ++ (operator.toList ++ (right.render.toList ++ ")".toList ++ back)) := by
    rw [hrest, Expression.render]
    simp
  obtain ⟨opening, s₁, hopen, -, hs₁, hcontent₁⟩ :=
    Scanner.exists_plainSign "(" .openParen (by decide) hrest
  rw [List.append_assoc] at hs₁
  obtain ⟨sign, s₂, hsign, rfl, hs₂, hcontent₂⟩ := exists_unarySign hoperator hright hs₁
  obtain ⟨phrase, s₃, hphrase, hs₃, hcontent₃⟩ := hr hs₂ (breaks_closeParen back)
  obtain ⟨closing, after, hclose, -, hafter, hcontent₄⟩ :=
    Scanner.exists_plainSign ")" .closeParen (by decide) hs₃
  have hlevel := Nat.le_trans hphrase.reach (phrase.reach_le_level (.standard options))
  refine ⟨.group opening (.unary sign phrase) closing, after, ⟨?_, ?_, Nat.le_refl 6, ?_⟩, hafter,
    ?_⟩
  · rw [Phrase.tree, Phrase.tree, hphrase.tree]
  · rw [Phrase.nesting, Phrase.nesting, hphrase.nesting, depth]
    omega
  · intro next
    exact ⟨hopen, ⟨hsign, hlevel, hphrase.fits _⟩, not_continues_closeParen, hclose⟩
  · rw [hcontent₁, hcontent₂, hcontent₃, hcontent₄]
    simp [Phrase.tokens]

/-- The sign of a binary operator has a level. -/
theorem exists_level_of_operator {operator : String}
    (hoperator : operator ∈ ["==", "!=", "<", ">", "+", "-", "*", "/"]) :
    ∃ kind level, (operator, kind) ∈ spacedSigns ∧
      Grammar.standardLevel? kind = some level := by
  simp only [List.mem_cons, List.not_mem_nil, or_false] at hoperator
  rcases hoperator with rfl | rfl | rfl | rfl | rfl | rfl | rfl | rfl
  · exact ⟨.equals, 1, by decide, rfl⟩
  · exact ⟨.notEquals, 1, by decide, rfl⟩
  · exact ⟨.less, 2, by decide, rfl⟩
  · exact ⟨.greater, 2, by decide, rfl⟩
  · exact ⟨.plus, 3, by decide, rfl⟩
  · exact ⟨.dash, 3, by decide, rfl⟩
  · exact ⟨.star, 4, by decide, rfl⟩
  · exact ⟨.slash, 4, by decide, rfl⟩

theorem Expression.scans_binary {left right : Expression} {operator : String}
    (hoperator : operator ∈ ["==", "!=", "<", ">", "+", "-", "*", "/"])
    (hright : right.Printable options.calls) (hl : left.Scans options)
    (hr : right.Scans options) : (binary left operator right).Scans options := by
  intro scanner back hrest hback
  obtain ⟨kind, level, hkind, hlevel⟩ := exists_level_of_operator hoperator
  have hlevel : (Grammar.standard options).level? kind = some level := hlevel
  have hrest : scanner.rest = "(".toList ++ (left.render.toList ++
      ' ' :: (operator.toList ++ ' ' :: (right.render.toList ++ (")".toList ++ back)))) := by
    rw [hrest, Expression.render]
    simp
  obtain ⟨opening, s₁, hopen, -, hs₁, hcontent₁⟩ :=
    Scanner.exists_plainSign "(" .openParen (by decide) hrest
  obtain ⟨first, s₂, hfirst, hs₂, hcontent₂⟩ := hl hs₁ (breaks_cons.2 (by decide))
  obtain ⟨sign, s₃, hsign, rfl, hs₃, hcontent₃⟩ :=
    Scanner.exists_spacedSign hkind hs₂ (hright.breaks_blank _)
  obtain ⟨second, s₄, hsecond, hs₄, hcontent₄⟩ := hr hs₃ (breaks_closeParen back)
  obtain ⟨closing, after, hclose, -, hafter, hcontent₅⟩ :=
    Scanner.exists_plainSign ")" .closeParen (by decide) hs₄
  have hle := Grammar.level_le _ hlevel
  have hreach := hfirst.reach
  have hsecondLevel := Nat.le_trans hsecond.reach (second.reach_le_level (.standard options))
  refine ⟨.group opening (.binary first sign second) closing, after,
    ⟨?_, ?_, Nat.le_refl 6, ?_⟩, hafter, ?_⟩
  · rw [Phrase.tree, Phrase.tree, hfirst.tree, hsecond.tree]
  · rw [Phrase.nesting, Phrase.nesting, hfirst.nesting, hsecond.nesting, depth]
    omega
  · intro next
    exact ⟨hopen, ⟨level, hsign ▸ hlevel, by omega, hfirst.fits _, by omega, hsecond.fits _⟩,
      not_continues_closeParen, hclose⟩
  · rw [hcontent₁, hcontent₂, hcontent₃, hcontent₄, hcontent₅]
    simp [Phrase.tokens]

/-- What stands behind an argument goes on with no word. -/
theorem breaks_furtherText (arguments : List Expression) (back : List Char) :
    Breaks isWordPart (furtherText arguments ++ ')' :: back) := by
  cases arguments with
  | nil => exact breaks_closeParen back
  | cons argument arguments => exact breaks_cons.2 (by decide)

/-- Further arguments are scanned up to the parenthesis that closes them. -/
theorem exists_furtherArguments {arguments : List Expression}
    (hprintable : ∀ argument ∈ arguments, argument.Printable options.calls)
    (hscans : ∀ argument ∈ arguments, argument.Scans options) {scanner : Scanner}
    {back : List Char} (hrest : scanner.rest = furtherText arguments ++ ')' :: back) :
    ∃ (further : FurtherArguments) (after : Scanner), further.trees = arguments ∧
      further.nesting = depthEach arguments ∧ further.Fits (.standard options) ∧
      after.rest = ')' :: back ∧ content scanner = further.tokens ++ content after := by
  induction arguments generalizing scanner with
  | nil => exact ⟨.none, scanner, rfl, rfl, trivial, hrest, rfl⟩
  | cons argument arguments ih =>
    obtain ⟨hargument, hothers⟩ := List.forall_mem_cons.1 hprintable
    obtain ⟨hscan, hscanOthers⟩ := List.forall_mem_cons.1 hscans
    have hrest : scanner.rest = ",".toList ++
        (' ' :: (argument.render.toList ++ (furtherText arguments ++ ')' :: back))) := by
      rw [hrest, furtherText]
      simp [furtherText]
    obtain ⟨comma, s₁, hcomma, -, hs₁, hcontent₁⟩ :=
      Scanner.exists_plainSign "," .comma (by decide) hrest
    obtain ⟨s₂, hs₂, hcontent₂⟩ :=
      Scanner.exists_behind_blank hs₁ (hargument.breaks_blank _)
    obtain ⟨phrase, s₃, hphrase, hs₃, hcontent₃⟩ := hscan hs₂ (breaks_furtherText _ _)
    obtain ⟨further, after, htrees, hnesting, hfits, hafter, hcontent₄⟩ :=
      ih hothers hscanOthers hs₃
    refine ⟨.some comma phrase further, after, ?_, ?_,
      ⟨hcomma, hphrase.fits _, not_continues_lead further, hfits⟩, hafter, ?_⟩
    · rw [FurtherArguments.trees, hphrase.tree, htrees]
    · rw [FurtherArguments.nesting, hphrase.nesting, hnesting, depthEach]
    · rw [hcontent₁, hcontent₂, hcontent₃, hcontent₄]
      simp [FurtherArguments.tokens]

theorem exists_arguments {arguments : List Expression}
    (hprintable : ∀ argument ∈ arguments, argument.Printable options.calls)
    (hscans : ∀ argument ∈ arguments, argument.Scans options) {scanner : Scanner}
    {back : List Char}
    (hrest : scanner.rest =
      (", ".intercalate (renderEach arguments)).toList ++ ')' :: back) :
    ∃ (list : Arguments) (after : Scanner), list.trees = arguments ∧
      list.nesting = depthEach arguments ∧ list.Fits (.standard options) ∧
      after.rest = ')' :: back ∧ content scanner = list.tokens ++ content after := by
  cases arguments with
  | nil => exact ⟨.none, scanner, rfl, rfl, trivial, hrest, rfl⟩
  | cons first arguments =>
    obtain ⟨-, hothers⟩ := List.forall_mem_cons.1 hprintable
    obtain ⟨hscan, hscanOthers⟩ := List.forall_mem_cons.1 hscans
    rw [toList_intercalate_render, List.append_assoc] at hrest
    obtain ⟨phrase, s₁, hphrase, hs₁, hcontent₁⟩ := hscan hrest (breaks_furtherText _ _)
    obtain ⟨further, after, htrees, hnesting, hfits, hafter, hcontent₂⟩ :=
      exists_furtherArguments hothers hscanOthers hs₁
    refine ⟨.some phrase further, after, ?_, ?_,
      ⟨hphrase.fits _, not_continues_lead further, hfits⟩, hafter, ?_⟩
    · rw [Arguments.trees, hphrase.tree, htrees]
    · rw [Arguments.nesting, hphrase.nesting, hnesting, depthEach]
    · rw [hcontent₁, hcontent₂, Arguments.tokens, List.append_assoc]

theorem Expression.scans_call {callee : Expression} {arguments : List Expression}
    (hcalls : options.calls = true)
    (hprintable : ∀ argument ∈ arguments, argument.Printable options.calls)
    (hc : callee.Scans options) (ha : ∀ argument ∈ arguments, argument.Scans options) :
    (call callee arguments).Scans options := by
  intro scanner back hrest hback
  have hrest : scanner.rest = callee.render.toList ++ ("(".toList ++
      ((", ".intercalate (renderEach arguments)).toList ++ ')' :: back)) := by
    rw [hrest, Expression.render]
    simp
  obtain ⟨phrase, s₁, hphrase, hs₁, hcontent₁⟩ := hc hrest (breaks_cons.2 (by decide))
  obtain ⟨opening, s₂, hopen, -, hs₂, hcontent₂⟩ :=
    Scanner.exists_plainSign "(" .openParen (by decide) hs₁
  obtain ⟨list, s₃, htrees, hnesting, hfits, hs₃, hcontent₃⟩ := exists_arguments hprintable ha hs₂
  obtain ⟨closing, after, hclose, -, hafter, hcontent₄⟩ :=
    Scanner.exists_plainSign ")" .closeParen (by decide) hs₃
  refine ⟨.call phrase opening list closing, after, ⟨?_, ?_, Nat.le_refl 6, ?_⟩, hafter, ?_⟩
  · rw [Phrase.tree, hphrase.tree, htrees]
  · rw [Phrase.nesting, hphrase.nesting, hnesting, depth]
  · intro next
    exact ⟨hcalls, hphrase.reach, hphrase.fits _, hopen, hfits, hclose⟩
  · rw [hcontent₁, hcontent₂, hcontent₃, hcontent₄]
    simp [Phrase.tokens]

/-- Every expression that can be printed is scanned as it was meant. -/
theorem Expression.Printable.scans {e : Expression} (h : e.Printable options.calls) :
    e.Scans options := by
  induction h with
  | identifier hname => exact scans_identifier hname
  | integer hvalue => exact scans_integer hvalue
  | boolean value => exact scans_boolean value
  | unary hoperator hright ih => exact scans_unary hoperator hright ih
  | binary hoperator hleft hright ihl ihr => exact scans_binary hoperator hright ihl ihr
  | call hcalls hcallee harguments ihc iha => exact scans_call hcalls harguments ihc iha

/-! ## Scanning statements -/

theorem content_of_rest_nil {scanner : Scanner} (h : scanner.rest = []) : content scanner = [] := by
  apply content_of_end
  change (Scanner.next scanner).1.kind = _
  rw [Scanner.next_of_rest_nil h]
  rfl

/-- A reserved word in front of a blank is handed out, and the blank is skipped. -/
theorem exists_reserved {word : String} {kind : TokenKind} (hword : IsWord word.toList)
    (hkind : reserved? word = some kind) {scanner : Scanner} {back : List Char}
    (hrest : scanner.rest = word.toList ++ ' ' :: back) (hback : Breaks Text.isBlank back) :
    ∃ (token : Token) (after : Scanner), token.kind = kind ∧ after.rest = back ∧
      content scanner = token :: content after := by
  obtain ⟨token, s₁, htoken, -, hs₁, hcontent₁⟩ :=
    Scanner.exists_word hrest hword (breaks_cons.2 (by decide))
  obtain ⟨after, hafter, hcontent₂⟩ := Scanner.exists_behind_blank hs₁ hback
  rw [String.ofList_toList, hkind] at htoken
  exact ⟨token, after, htoken, hafter, by rw [hcontent₁, hcontent₂]⟩

/-- A value with its semicolon is scanned. -/
theorem exists_value {value : Expression} (hvalue : value.Printable options.calls)
    {scanner : Scanner} {back : List Char}
    (hrest : scanner.rest = value.render.toList ++ ';' :: back) :
    ∃ (phrase : Phrase) (semicolon : Token) (after : Scanner),
      value.Written (.standard options) phrase ∧ semicolon.kind = .semicolon ∧
      after.rest = back ∧ content scanner = phrase.tokens ++ semicolon :: content after := by
  obtain ⟨phrase, s₁, hphrase, hs₁, hcontent₁⟩ :=
    hvalue.scans hrest (breaks_cons.2 (by decide))
  obtain ⟨semicolon, after, hsemicolon, -, hafter, hcontent₂⟩ :=
    Scanner.exists_plainSign ";" .semicolon (by decide) hs₁
  exact ⟨phrase, semicolon, after, hphrase, hsemicolon, hafter, by rw [hcontent₁, hcontent₂]⟩

/-- Statements that can be printed are scanned as the clauses they were meant to be. -/
theorem PrintableStatements.exists_clauses {statements : List Statement}
    (h : PrintableStatements options.calls statements) {scanner : Scanner}
    (hrest : scanner.rest = (renderBlock statements).toList) :
    ∃ clauses, content scanner = clausesTokens clauses ∧ clausesTrees clauses = statements ∧
      ClausesFit (.standard options) .endOfInput clauses ∧
      clauses.map Clause.nesting = statements.map Statement.depth := by
  induction h generalizing scanner with
  | nil => exact ⟨[], content_of_rest_nil hrest, rfl, trivial, rfl⟩
  | @expression value hvalue =>
    have hrest : scanner.rest = value.render.toList ++ [] := by
      rw [hrest, renderBlock, Statement.render, renderBlock]
      simp
    obtain ⟨phrase, after, hphrase, hafter, hcontent⟩ := hvalue.scans hrest (breaks_nil _)
    have hstop : ¬(Grammar.standard options).Continues .endOfInput :=
      Grammar.not_continues_iff.2 (Grammar.strength_endOfInput _)
    refine ⟨[.expression phrase none], ?_, ?_, ⟨⟨hphrase.fits _, hstop, ?_⟩, trivial⟩, ?_⟩
    · rw [hcontent, content_of_rest_nil hafter]
      simp [clausesTokens, Clause.tokens]
    · rw [clausesTrees, Clause.tree, hphrase.tree, clausesTrees]
    · exact fun _ => .inr rfl
    · simp [Clause.nesting, Statement.depth, hphrase.nesting]
  | @letBinding name value rest hname hvalue hmore ih =>
    have hrest : scanner.rest = "let".toList ++ ' ' :: (name.toList ++ ' ' :: ("=".toList ++
        ' ' :: (value.render.toList ++ ';' :: (renderBlock rest).toList))) := by
      rw [hrest, renderBlock, Statement.render]
      simp
    obtain ⟨word, s₁, hword, hs₁, hcontent₁⟩ :=
      exists_reserved ⟨⟨'l', _, rfl, by decide⟩, by decide⟩ rfl hrest (hname.1.breaks_blank _)
    obtain ⟨token, s₂, htoken, htext, hs₂, hcontent₂⟩ :=
      Scanner.exists_word hs₁ hname.1 (breaks_cons.2 (by decide))
    have hequals : ("=", TokenKind.assign) ∈ spacedSigns := by decide
    obtain ⟨assign, s₃, hassign, -, hs₃, hcontent₃⟩ :=
      Scanner.exists_spacedSign hequals hs₂ (hvalue.breaks_blank _)
    obtain ⟨phrase, semicolon, s₄, hphrase, hsemicolon, hs₄, hcontent₄⟩ := exists_value hvalue hs₃
    obtain ⟨clauses, hclauses, htrees, hfit, hnesting⟩ := ih hs₄
    rw [String.ofList_toList, hname.2] at htoken
    rw [String.ofList_toList] at htext
    refine ⟨.letBinding word token assign phrase (some semicolon) :: clauses, ?_, ?_,
      ⟨⟨hword, htoken, hassign, hphrase.fits _, hsemicolon⟩, hfit⟩, ?_⟩
    · rw [hcontent₁, hcontent₂, hcontent₃, hcontent₄, hclauses]
      simp [clausesTokens, Clause.tokens]
    · rw [clausesTrees, Clause.tree, hphrase.tree, htrees, htext]
    · simp [Clause.nesting, Statement.depth, hphrase.nesting, hnesting]
  | @returning value rest hvalue hmore ih =>
    have hrest : scanner.rest = "return".toList ++
        ' ' :: (value.render.toList ++ ';' :: (renderBlock rest).toList) := by
      rw [hrest, renderBlock, Statement.render]
      simp
    obtain ⟨word, s₁, hword, hs₁, hcontent₁⟩ :=
      exists_reserved ⟨⟨'r', _, rfl, by decide⟩, by decide⟩ rfl hrest (hvalue.breaks_blank _)
    obtain ⟨phrase, semicolon, s₂, hphrase, hsemicolon, hs₂, hcontent₂⟩ := exists_value hvalue hs₁
    obtain ⟨clauses, hclauses, htrees, hfit, hnesting⟩ := ih hs₂
    refine ⟨.returning word phrase (some semicolon) :: clauses, ?_, ?_,
      ⟨⟨hword, hphrase.fits _, hsemicolon⟩, hfit⟩, ?_⟩
    · rw [hcontent₁, hcontent₂, hclauses]
      simp [clausesTokens, Clause.tokens]
    · rw [clausesTrees, Clause.tree, hphrase.tree, htrees]
    · simp [Clause.nesting, Statement.depth, hphrase.nesting, hnesting]

end Scan

/--
The canonical text of a program is parsed without anything found wrong exactly if no statement is
deeper than 256 levels, and then into the program itself. Else the first thing found wrong is that
the nesting is too deep.
-/
theorem parse_render (options : Options) (file : Option String) {program : Program}
    (h : PrintableStatements options.calls program.statements) :
    ((parseSource program.render file options).diagnostics = [] ↔
      ∀ statement ∈ program.statements, statement.depth ≤ 256) ∧
    ((∀ statement ∈ program.statements, statement.depth ≤ 256) →
      (parseSource program.render file options).program = program) ∧
    ((∃ statement ∈ program.statements, 256 < statement.depth) →
      ∃ position more, (parseSource program.render file options).diagnostics =
        ⟨.nestingTooDeep 256, position⟩ :: more) := by
  have hrest : (Scanner.ofSource program.render file).rest =
      (renderBlock program.statements).toList := rfl
  obtain ⟨clauses, hcontent, htrees, hfit, hnesting⟩ := h.exists_clauses hrest
  have hanswers : (parseSource program.render file options).Answers clauses :=
    parse_answers (endStays_scanner program.render file options) hcontent hfit
  have hwithin : (∀ statement ∈ program.statements, statement.depth ≤ 256) →
      (parseSource program.render file options).program = program ∧
      (parseSource program.render file options).diagnostics = [] := by
    intro hall
    have hclauses : ∀ clause ∈ clauses, clause.nesting ≤ 256 := by
      intro clause hmem
      have hmap : clause.nesting ∈ program.statements.map Statement.depth := by
        rw [← hnesting]
        exact List.mem_map_of_mem hmem
      obtain ⟨statement, hstatement, heq⟩ := List.mem_map.1 hmap
      exact heq ▸ hall statement hstatement
    obtain ⟨hprogram, hclean⟩ := hanswers.within hclauses
    exact ⟨by rw [hprogram, htrees], hclean⟩
  have hbeyond : (∃ statement ∈ program.statements, 256 < statement.depth) →
      ∃ position more, (parseSource program.render file options).diagnostics =
        ⟨.nestingTooDeep 256, position⟩ :: more := by
    rintro ⟨statement, hmem, hdeep⟩
    have hmap : statement.depth ∈ clauses.map Clause.nesting := by
      rw [hnesting]
      exact List.mem_map_of_mem hmem
    obtain ⟨clause, hclause, heq⟩ := List.mem_map.1 hmap
    exact hanswers.beyond ⟨clause, hclause, heq ▸ hdeep⟩
  refine ⟨⟨?_, fun hall => (hwithin hall).2⟩, fun hall => (hwithin hall).1, hbeyond⟩
  intro hclean statement hmem
  refine Nat.not_lt.1 fun hdeep => ?_
  obtain ⟨position, more, hfirst⟩ := hbeyond ⟨statement, hmem, hdeep⟩
  rw [hclean] at hfirst
  cases hfirst

/-- A program whose text is `let x = (!(a != 1));return f()(true, (-_b2));(x / 12)`. -/
def sampleProgram : Program :=
  ⟨[.letBinding "x" (.unary "!" (.binary (.identifier "a") "!=" (.canonicalInteger 1))),
    .returning (.call (.call (.identifier "f") [])
      [.boolean true, .unary "-" (.identifier "_b2")]),
    .expression (.binary (.identifier "x") "/" (.canonicalInteger 12))]⟩

theorem printable_sampleProgram : PrintableStatements true sampleProgram.statements := by
  refine .letBinding ⟨⟨⟨'x', [], rfl, by decide⟩, by decide⟩, rfl⟩ ?_
    (.returning ?_ (.expression ?_))
  · exact .unary (by decide) (.binary (by decide)
      (.identifier ⟨⟨⟨'a', [], rfl, by decide⟩, by decide⟩, rfl⟩) (.integer (by decide)))
  · refine .call rfl (.call rfl (.identifier ⟨⟨⟨'f', [], rfl, by decide⟩, by decide⟩, rfl⟩)
      (by simp)) ?_
    simp only [List.forall_mem_cons, List.not_mem_nil, false_implies, implies_true, and_true]
    exact ⟨.boolean true, .unary (by decide)
      (.identifier ⟨⟨⟨'_', ['b', '2'], rfl, by decide⟩, by decide⟩, rfl⟩)⟩
  · exact .binary (by decide) (.identifier ⟨⟨⟨'x', [], rfl, by decide⟩, by decide⟩, rfl⟩)
      (.integer (by decide))

theorem parse_render_sampleProgram :
    (∀ statement ∈ sampleProgram.statements, statement.depth ≤ 256) ∧
    (parseSource sampleProgram.render none ⟨true, true⟩).diagnostics = [] ∧
    (parseSource sampleProgram.render none ⟨true, true⟩).program = sampleProgram := by
  have hdepth : ∀ statement ∈ sampleProgram.statements, statement.depth ≤ 256 := by decide
  have hparse := parse_render ⟨true, true⟩ none printable_sampleProgram
  exact ⟨hdepth, hparse.1.2 hdepth, hparse.2.1 hdepth⟩

end Monkey
