import Monkey.Proofs.RoundTrip

/-!
# The canonical text tells expressions apart

The canonical text of an expression, however deep, stands for that expression only, but for the way
its integers were written (`render_eq_iff_respelled_eq`). Parsing the text again does not show this,
since a deep text is not parsed.

An expression is a head, which is no call, and the lists of arguments that it is called with. In any
longer text the text of an expression can be split off in one way only
(`Expression.Printable.splitsOff`): the first characters tell what the head is, a word or number
ends where the text goes on with something else, and a list of arguments follows exactly if there is
another parenthesis.
-/

namespace Monkey

/-! ## How integers were written -/

mutual

/-- An expression with its integers written in their canonical form. -/
def Expression.respelled : Expression → Expression
  | .identifier name => .identifier name
  | .integer value _ => .canonicalInteger value
  | .boolean value => .boolean value
  | .unary operator right => .unary operator right.respelled
  | .binary left operator right => .binary left.respelled operator right.respelled
  | .conditional condition consequence alternative =>
    .conditional condition.respelled (respelledBlock consequence)
      (respelledAlternative alternative)
  | .function parameters body => .function parameters (respelledBlock body)
  | .call callee arguments => .call callee.respelled (respelledEach arguments)

/-- A statement with its integers written in their canonical form. -/
def Statement.respelled : Statement → Statement
  | .letBinding name value => .letBinding name value.respelled
  | .returning value => .returning value.respelled
  | .expression value => .expression value.respelled
  | .block body => .block (respelledBlock body)

/-- Statements with their integers written in their canonical form. -/
def respelledBlock : List Statement → List Statement
  | [] => []
  | statement :: body => statement.respelled :: respelledBlock body

/-- What follows the first block of a conditional, with its integers in their canonical form. -/
def respelledAlternative : Option (List Statement) → Option (List Statement)
  | none => none
  | some body => some (respelledBlock body)

/-- Expressions with their integers written in their canonical form. -/
def respelledEach : List Expression → List Expression
  | [] => []
  | expression :: rest => expression.respelled :: respelledEach rest

end

mutual

/-- The canonical text does not show how integers were written. -/
theorem Expression.render_respelled : (e : Expression) → e.respelled.render = e.render
  | .identifier _ => rfl
  | .integer _ _ => rfl
  | .boolean _ => rfl
  | .unary _ right => by
    rw [Expression.respelled, Expression.render, Expression.render, right.render_respelled]
  | .binary left _ right => by
    rw [Expression.respelled, Expression.render, Expression.render, left.render_respelled,
      right.render_respelled]
  | .conditional condition consequence alternative => by
    rw [Expression.respelled, Expression.render, Expression.render, condition.render_respelled,
      renderBlock_respelled consequence, renderAlternative_respelled alternative]
  | .function _ body => by
    rw [Expression.respelled, Expression.render, Expression.render, renderBlock_respelled body]
  | .call callee arguments => by
    rw [Expression.respelled, Expression.render, Expression.render, callee.render_respelled,
      renderEach_respelled arguments]

theorem Statement.render_respelled : (s : Statement) → s.respelled.render = s.render
  | .letBinding _ value => by
    rw [Statement.respelled, Statement.render, Statement.render, value.render_respelled]
  | .returning value => by
    rw [Statement.respelled, Statement.render, Statement.render, value.render_respelled]
  | .expression value => by
    rw [Statement.respelled, Statement.render, Statement.render, value.render_respelled]
  | .block body => by
    rw [Statement.respelled, Statement.render, Statement.render, renderBlock_respelled body]

theorem renderBlock_respelled : (body : List Statement) →
    renderBlock (respelledBlock body) = renderBlock body
  | [] => rfl
  | statement :: body => by
    rw [respelledBlock, renderBlock, renderBlock, statement.render_respelled,
      renderBlock_respelled body]

theorem renderAlternative_respelled : (alternative : Option (List Statement)) →
    renderAlternative (respelledAlternative alternative) = renderAlternative alternative
  | none => rfl
  | some body => by
    rw [respelledAlternative, renderAlternative, renderAlternative, renderBlock_respelled body]

theorem renderEach_respelled : (expressions : List Expression) →
    renderEach (respelledEach expressions) = renderEach expressions
  | [] => rfl
  | expression :: rest => by
    rw [respelledEach, renderEach, renderEach, expression.render_respelled,
      renderEach_respelled rest]

end

/-! ## Runs -/

/-- A text splits in one way only into a run of a class and what does not go on with it. -/
theorem run_append_inj {p : Char → Bool} {run run' back back' : List Char}
    (hrun : ∀ c ∈ run, p c = true) (hrun' : ∀ c ∈ run', p c = true) (hback : Breaks p back)
    (hback' : Breaks p back') (h : run ++ back = run' ++ back') : run = run' ∧ back = back' := by
  constructor
  · rw [← takeWhile_append_of_breaks hrun hback, h, takeWhile_append_of_breaks hrun' hback']
  · rw [← dropWhile_append_of_breaks hrun hback, h, dropWhile_append_of_breaks hrun' hback']

/-! ## Names, integers and truth values -/

namespace Expression

/-- Whether an expression is a name, an integer or a truth value. -/
def isAtom : Expression → Bool
  | identifier _ => true
  | integer _ _ => true
  | boolean _ => true
  | _ => false

/-- The name, the integer or the truth value that a text stands for. -/
def ofAtomText (text : String) : Expression :=
  match Text.readInt64? text.toList with
  | some value => canonicalInteger value
  | none =>
    if text = booleanText true then boolean true
    else if text = booleanText false then boolean false
    else identifier text

end Expression

/-- A word is read as no integer. -/
theorem readInt64?_of_isWord {text : List Char} (h : IsWord text) :
    Text.readInt64? text = none := by
  obtain ⟨c, rest, rfl, hstart⟩ := h.first
  have hdigit : c.isDigit = false := by
    cases hdigit : c.isDigit with
    | false => rfl
    | true =>
      rw [isWordStart_of_isDigit hdigit] at hstart
      cases hstart
  have hread : Text.readDecimal? (c :: rest) = none := by
    unfold Text.readDecimal?
    split
    next h => cases h; exact absurd hstart (by decide)
    next h => cases h; exact absurd hstart (by decide)
    next => simp [Text.readDigits?, hdigit]
  rw [Text.readInt64?, hread]

section Atoms

variable {calls : Bool} {e : Expression}

/-- An atom is found again from its text. -/
theorem Expression.Printable.ofAtomText_render (h : e.Printable calls) (hatom : e.isAtom = true) :
    Expression.ofAtomText e.render = e := by
  cases h with
  | @identifier name hname =>
    have hreserved : ∀ value, name ≠ booleanText value := by
      intro value heq
      have hnone := hname.2
      rw [heq] at hnone
      cases value <;> cases hnone
    rw [Expression.render, Expression.ofAtomText, readInt64?_of_isWord hname.1]
    simp [hreserved]
  | @integer value hvalue =>
    obtain ⟨n, hn, htext⟩ := exists_repr_of_nonneg hvalue
    have hread : Text.readInt64? n.repr.toList = some value := by
      apply Text.readInt64?_of_readDecimal?
      rw [Text.readDecimal?_repr, hn]
    have hrender : (Expression.canonicalInteger value).render = n.repr := htext
    rw [hrender, Expression.ofAtomText, hread]
  | boolean value => cases value <;> rfl
  | unary => cases hatom
  | binary => cases hatom
  | call => cases hatom

/-- The text of an atom is a word or a number. -/
theorem Expression.Printable.isWordPart_of_isAtom (h : e.Printable calls)
    (hatom : e.isAtom = true) {c : Char} (hc : c ∈ e.render.toList) : isWordPart c = true := by
  cases h with
  | identifier hname => exact hname.1.isPart hc
  | @integer value hvalue =>
    obtain ⟨n, -, htext⟩ := exists_repr_of_nonneg hvalue
    rw [Expression.canonicalInteger, Expression.render, htext, Nat.toList_repr] at hc
    exact isWordPart_of_isDigit (Nat.isDigit_of_mem_toDigits (by decide) (by decide) hc)
  | boolean value =>
    have hall : (booleanText value).toList.all isWordPart = true := by cases value <;> decide
    exact List.all_eq_true.1 hall c hc
  | unary => cases hatom
  | binary => cases hatom
  | call => cases hatom

end Atoms

/-! ## Heads and lists of arguments -/

/-- Whether the text of an expression may go on with a character: it may belong to the same word or
number, or open a list of arguments. -/
def goesOn (c : Char) : Bool :=
  isWordPart c || c == '('

namespace Expression

/-- What is called in the end, if an expression is a call; else the expression itself. -/
def head : Expression → Expression
  | call callee _ => callee.head
  | e => e

/-- The lists of arguments that the head of an expression is called with, one after the other. -/
def argumentLists : Expression → List (List Expression)
  | call callee arguments => callee.argumentLists ++ [arguments]
  | _ => []

end Expression

/-- The text of a list of arguments in its parentheses. -/
def argumentText (arguments : List Expression) : List Char :=
  '(' :: ((", ".intercalate (renderEach arguments)).toList ++ [')'])

theorem foldl_call_argumentLists (e : Expression) :
    e.argumentLists.foldl .call e.head = e := by
  match e with
  | .call callee arguments =>
    rw [Expression.argumentLists, Expression.head, List.foldl_append,
      foldl_call_argumentLists callee]
    rfl
  | .identifier _ => rfl
  | .integer _ _ => rfl
  | .boolean _ => rfl
  | .unary _ _ => rfl
  | .binary _ _ _ => rfl
  | .conditional _ _ _ => rfl
  | .function _ _ => rfl

/-- The text of an expression is that of its head and of its lists of arguments. -/
theorem toList_render (e : Expression) :
    e.render.toList = e.head.render.toList ++ e.argumentLists.flatMap argumentText := by
  match e with
  | .call callee arguments =>
    rw [Expression.argumentLists, Expression.head, Expression.render, String.toList_append,
      String.toList_append, String.toList_append, toList_render callee]
    simp [argumentText]
  | .identifier _ => simp [Expression.head, Expression.argumentLists]
  | .integer _ _ => simp [Expression.head, Expression.argumentLists]
  | .boolean _ => simp [Expression.head, Expression.argumentLists]
  | .unary _ _ => simp [Expression.head, Expression.argumentLists]
  | .binary _ _ _ => simp [Expression.head, Expression.argumentLists]
  | .conditional _ _ _ => simp [Expression.head, Expression.argumentLists]
  | .function _ _ => simp [Expression.head, Expression.argumentLists]

section Splits

variable {calls : Bool}

theorem Expression.Printable.head {e : Expression} (h : e.Printable calls) :
    e.head.Printable calls := by
  induction h with
  | call hcalls hcallee harguments ih => exact ih
  | identifier hname => exact .identifier hname
  | integer hvalue => exact .integer hvalue
  | boolean value => exact .boolean value
  | unary hoperator hright => exact .unary hoperator hright
  | binary hoperator hleft hright => exact .binary hoperator hleft hright

theorem Expression.Printable.argumentLists {e : Expression} (h : e.Printable calls) :
    ∀ list ∈ e.argumentLists, ∀ argument ∈ list, argument.Printable calls := by
  induction h with
  | @call callee arguments hcalls hcallee harguments ih iha =>
    intro list hlist
    rcases List.mem_append.1 hlist with hlist | hlist
    · exact ih list hlist
    · rw [List.mem_singleton.1 hlist]
      exact harguments
  | identifier => exact List.forall_mem_nil _
  | integer => exact List.forall_mem_nil _
  | boolean => exact List.forall_mem_nil _
  | unary => exact List.forall_mem_nil _
  | binary => exact List.forall_mem_nil _

/-- In any longer text the text of an expression can be split off in one way only. -/
def Expression.SplitsOff (e : Expression) (calls : Bool) : Prop :=
  ∀ {other : Expression} {back back' : List Char}, other.Printable calls →
    Breaks goesOn back → Breaks goesOn back' →
    e.render.toList ++ back = other.render.toList ++ back' → e = other ∧ back = back'

/-- In any longer text the text of a head can be split off in one way only from that of a head. -/
def Expression.HeadSplitsOff (e : Expression) (calls : Bool) : Prop :=
  ∀ {other : Expression} {back back' : List Char}, other.Printable calls → other.head = other →
    Breaks isWordPart back → Breaks isWordPart back' →
    e.render.toList ++ back = other.render.toList ++ back' → e = other ∧ back = back'

theorem breaks_isWordPart_of_goesOn {text : List Char} (h : Breaks goesOn text) :
    Breaks isWordPart text := by
  intro c hc
  exact (Bool.or_eq_false_iff.1 (h c hc)).1

/-! ## Lists of arguments -/

theorem breaks_goesOn_furtherText (arguments : List Expression) (back : List Char) :
    Breaks goesOn (furtherText arguments ++ ')' :: back) := by
  cases arguments with
  | nil => exact breaks_cons.2 (by decide)
  | cons argument arguments => exact breaks_cons.2 (by decide)

/-- The arguments behind the first are told from their text up to the closing parenthesis. -/
theorem furtherText_inj {xs ys : List Expression} (hxs : ∀ x ∈ xs, x.SplitsOff calls)
    (hys : ∀ y ∈ ys, y.Printable calls) {back back' : List Char}
    (h : furtherText xs ++ ')' :: back = furtherText ys ++ ')' :: back') :
    xs = ys ∧ back = back' := by
  induction xs generalizing ys with
  | nil =>
    cases ys with
    | nil => exact ⟨rfl, (List.cons.inj h).2⟩
    | cons y ys => simp [furtherText] at h
  | cons x xs ih =>
    cases ys with
    | nil => simp [furtherText] at h
    | cons y ys =>
      obtain ⟨hx, hfurther⟩ := List.forall_mem_cons.1 hxs
      obtain ⟨hy, hfurther'⟩ := List.forall_mem_cons.1 hys
      have hfirst : x.render.toList ++ (furtherText xs ++ ')' :: back) =
          y.render.toList ++ (furtherText ys ++ ')' :: back') := by
        simpa [furtherText] using h
      obtain ⟨heq, hrest⟩ := hx hy (breaks_goesOn_furtherText xs back)
        (breaks_goesOn_furtherText ys back') hfirst
      obtain ⟨heqs, hback⟩ := ih hfurther hfurther' hrest
      exact ⟨by rw [heq, heqs], hback⟩

/-- The text of an expression does not start with a closing parenthesis. -/
theorem Expression.Printable.render_append_ne {e : Expression} (h : e.Printable calls)
    (back back' : List Char) : e.render.toList ++ back ≠ ')' :: back' := by
  obtain ⟨c, rest, htext, hc⟩ := h.exists_head
  intro heq
  rw [htext] at heq
  obtain rfl : c = ')' := (List.cons.inj heq).1
  rcases hc with hc | hc
  · exact absurd hc (by decide)
  · exact absurd hc (by decide)

theorem argumentText_cons (first : Expression) (further : List Expression) (back : List Char) :
    argumentText (first :: further) ++ back =
      '(' :: (first.render.toList ++ (furtherText further ++ ')' :: back)) := by
  rw [argumentText, toList_intercalate_render]
  simp

/-- A list of arguments is told from its text. -/
theorem argumentText_inj {xs ys : List Expression} (hxs : ∀ x ∈ xs, x.SplitsOff calls)
    (hprintable : ∀ x ∈ xs, x.Printable calls) (hys : ∀ y ∈ ys, y.Printable calls)
    {back back' : List Char} (h : argumentText xs ++ back = argumentText ys ++ back') :
    xs = ys ∧ back = back' := by
  cases xs with
  | nil =>
    cases ys with
    | nil => exact ⟨rfl, List.append_cancel_left h⟩
    | cons y ys =>
      rw [argumentText_cons] at h
      exact absurd (List.cons.inj h).2.symm ((hys y List.mem_cons_self).render_append_ne _ _)
  | cons x xs =>
    cases ys with
    | nil =>
      rw [argumentText_cons] at h
      exact absurd (List.cons.inj h).2 ((hprintable x List.mem_cons_self).render_append_ne _ _)
    | cons y ys =>
      obtain ⟨hx, hfurther⟩ := List.forall_mem_cons.1 hxs
      obtain ⟨hy, hfurther'⟩ := List.forall_mem_cons.1 hys
      rw [argumentText_cons, argumentText_cons] at h
      obtain ⟨heq, hrest⟩ := hx hy (breaks_goesOn_furtherText xs back)
        (breaks_goesOn_furtherText ys back') (List.cons.inj h).2
      obtain ⟨heqs, hback⟩ := furtherText_inj hfurther hfurther' hrest
      exact ⟨by rw [heq, heqs], hback⟩

/-- There is another list of arguments exactly if there is another parenthesis. -/
theorem flatMap_argumentText_inj {lists lists' : List (List Expression)}
    (hlists : ∀ list ∈ lists, ∀ argument ∈ list, argument.SplitsOff calls)
    (hprintable : ∀ list ∈ lists, ∀ argument ∈ list, argument.Printable calls)
    (hprintable' : ∀ list ∈ lists', ∀ argument ∈ list, argument.Printable calls)
    {back back' : List Char} (hback : Breaks goesOn back) (hback' : Breaks goesOn back')
    (h : lists.flatMap argumentText ++ back = lists'.flatMap argumentText ++ back') :
    lists = lists' ∧ back = back' := by
  have hopen : ∀ {text : List Char}, Breaks goesOn text → ∀ list rest,
      text ≠ argumentText list ++ rest := by
    intro text htext list rest heq
    rw [heq] at htext
    exact absurd (breaks_cons.1 htext) (by decide)
  induction lists generalizing lists' with
  | nil =>
    cases lists' with
    | nil => exact ⟨rfl, h⟩
    | cons list lists' =>
      rw [List.flatMap_cons, List.append_assoc] at h
      exact absurd h (hopen hback list _)
  | cons list lists ih =>
    cases lists' with
    | nil =>
      rw [List.flatMap_cons, List.append_assoc] at h
      exact absurd h.symm (hopen hback' list _)
    | cons list' lists' =>
      obtain ⟨hlist, hmore⟩ := List.forall_mem_cons.1 hlists
      obtain ⟨hprint, hprints⟩ := List.forall_mem_cons.1 hprintable
      obtain ⟨hprint', hprints'⟩ := List.forall_mem_cons.1 hprintable'
      rw [List.flatMap_cons, List.flatMap_cons, List.append_assoc, List.append_assoc] at h
      obtain ⟨heq, hrest⟩ := argumentText_inj hlist hprint hprint' h
      obtain ⟨heqs, hrest⟩ := ih hmore hprints hprints' hrest
      exact ⟨by rw [heq, heqs], hrest⟩

/-! ## Heads -/

theorem Expression.head_ne_call (e callee : Expression) (arguments : List Expression) :
    e.head ≠ .call callee arguments := by
  match e with
  | .call inner _ => exact head_ne_call inner callee arguments
  | .identifier _ => exact Expression.noConfusion
  | .integer _ _ => exact Expression.noConfusion
  | .boolean _ => exact Expression.noConfusion
  | .unary _ _ => exact Expression.noConfusion
  | .binary _ _ _ => exact Expression.noConfusion
  | .conditional _ _ _ => exact Expression.noConfusion
  | .function _ _ => exact Expression.noConfusion

theorem toList_render_unary (operator : String) (right : Expression) (back : List Char) :
    (Expression.unary operator right).render.toList ++ back =
      '(' :: (operator.toList ++ (right.render.toList ++ ')' :: back)) := by
  simp [Expression.render]

theorem toList_render_binary (left : Expression) (operator : String) (right : Expression)
    (back : List Char) : (Expression.binary left operator right).render.toList ++ back =
      '(' :: (left.render.toList ++
        ' ' :: (operator.toList ++ ' ' :: (right.render.toList ++ ')' :: back))) := by
  simp [Expression.render]

/-- The text of an atom does not start with a parenthesis. -/
theorem Expression.Printable.render_append_ne_of_isAtom {e : Expression} (h : e.Printable calls)
    (hatom : e.isAtom = true) (back back' : List Char) :
    e.render.toList ++ back ≠ '(' :: back' := by
  obtain ⟨c, rest, htext, -⟩ := h.exists_head
  intro heq
  have hpart : isWordPart c = true :=
    h.isWordPart_of_isAtom hatom (htext ▸ List.mem_cons_self)
  rw [htext] at heq
  obtain rfl : c = '(' := (List.cons.inj heq).1
  exact absurd hpart (by decide)

/-- A head is an atom, or a unary or binary expression. -/
theorem Expression.Printable.head_cases {e : Expression} (h : e.Printable calls)
    (hhead : e.head = e) :
    e.isAtom = true ∨
    (∃ operator right, operator ∈ ["!", "-"] ∧ right.Printable calls ∧
      e = .unary operator right) ∨
    ∃ left operator right, operator ∈ ["==", "!=", "<", ">", "+", "-", "*", "/"] ∧
      left.Printable calls ∧ right.Printable calls ∧ e = .binary left operator right := by
  cases h with
  | identifier => exact .inl rfl
  | integer => exact .inl rfl
  | boolean => exact .inl rfl
  | unary hoperator hright => exact .inr (.inl ⟨_, _, hoperator, hright, rfl⟩)
  | binary hoperator hleft hright =>
    exact .inr (.inr ⟨_, _, _, hoperator, hleft, hright, rfl⟩)
  | call => exact absurd hhead (head_ne_call _ _ _)

theorem headSplitsOff_of_isAtom {e : Expression} (he : e.Printable calls)
    (hatom : e.isAtom = true) : e.HeadSplitsOff calls := by
  intro other back back' hother hhead hback hback' h
  rcases hother.head_cases hhead with hatom' | ⟨operator, right, -, -, rfl⟩ |
    ⟨left, operator, right, -, -, -, rfl⟩
  · obtain ⟨htext, hrest⟩ := run_append_inj (fun _ => he.isWordPart_of_isAtom hatom)
      (fun _ => hother.isWordPart_of_isAtom hatom') hback hback' h
    refine ⟨?_, hrest⟩
    rw [← he.ofAtomText_render hatom, ← hother.ofAtomText_render hatom', String.toList_inj.1 htext]
  · rw [toList_render_unary] at h
    exact absurd h (he.render_append_ne_of_isAtom hatom _ _)
  · rw [toList_render_binary] at h
    exact absurd h (he.render_append_ne_of_isAtom hatom _ _)

/-- Behind the parenthesis of a unary expression stands its operator, with which no expression
starts. -/
theorem unary_ne_left {operator : String} (hoperator : operator ∈ ["!", "-"]) {left : Expression}
    (hleft : left.Printable calls) (back back' : List Char) :
    operator.toList ++ back ≠ left.render.toList ++ back' := by
  obtain ⟨c, rest, htext, hc⟩ := hleft.exists_head
  intro heq
  rw [htext] at heq
  simp only [List.mem_cons, List.not_mem_nil, or_false] at hoperator
  rcases hoperator with rfl | rfl
  · obtain rfl : '!' = c := (List.cons.inj heq).1
    exact absurd hc (by decide)
  · obtain rfl : '-' = c := (List.cons.inj heq).1
    exact absurd hc (by decide)

theorem headSplitsOff_unary {operator : String} {right : Expression}
    (hoperator : operator ∈ ["!", "-"]) (hright : right.SplitsOff calls) :
    (Expression.unary operator right).HeadSplitsOff calls := by
  intro other back back' hother hhead hback hback' h
  rw [toList_render_unary] at h
  rcases hother.head_cases hhead with hatom | ⟨operator', right', hoperator', hright', rfl⟩ |
    ⟨left', operator', right', -, hleft', -, rfl⟩
  · exact absurd h.symm (hother.render_append_ne_of_isAtom hatom _ _)
  · have hlength : ∀ sign ∈ ["!", "-"], sign.toList.length = 1 := by decide
    rw [toList_render_unary] at h
    obtain ⟨hsign, hrest⟩ := List.append_inj (List.cons.inj h).2
      ((hlength _ hoperator).trans (hlength _ hoperator').symm)
    obtain ⟨heq, hback⟩ := hright hright' (breaks_cons.2 (by decide)) (breaks_cons.2 (by decide))
      hrest
    exact ⟨by rw [String.toList_inj.1 hsign, heq], (List.cons.inj hback).2⟩
  · rw [toList_render_binary] at h
    exact absurd (List.cons.inj h).2 (unary_ne_left hoperator hleft' _ _)

theorem headSplitsOff_binary {left right : Expression} {operator : String}
    (hoperator : operator ∈ ["==", "!=", "<", ">", "+", "-", "*", "/"])
    (hprintable : left.Printable calls) (hleft : left.SplitsOff calls)
    (hright : right.SplitsOff calls) :
    (Expression.binary left operator right).HeadSplitsOff calls := by
  intro other back back' hother hhead hback hback' h
  rw [toList_render_binary] at h
  rcases hother.head_cases hhead with hatom | ⟨operator', right', hoperator', -, rfl⟩ |
    ⟨left', operator', right', hoperator', hleft', hright', rfl⟩
  · exact absurd h.symm (hother.render_append_ne_of_isAtom hatom _ _)
  · rw [toList_render_unary] at h
    exact absurd (List.cons.inj h).2.symm (unary_ne_left hoperator' hprintable _ _)
  · have hsigns : ∀ sign ∈ ["==", "!=", "<", ">", "+", "-", "*", "/"],
        ∀ c ∈ sign.toList, (c != ' ') = true := by simp
    rw [toList_render_binary] at h
    obtain ⟨heq, hrest⟩ := hleft hleft' (breaks_cons.2 (by decide)) (breaks_cons.2 (by decide))
      (List.cons.inj h).2
    -- no operator contains the blank that follows it
    obtain ⟨hsign, hrest⟩ := run_append_inj (hsigns _ hoperator) (hsigns _ hoperator')
      (breaks_cons.2 (by decide)) (breaks_cons.2 (by decide)) (List.cons.inj hrest).2
    obtain ⟨heq', hback⟩ := hright hright' (breaks_cons.2 (by decide)) (breaks_cons.2 (by decide))
      (List.cons.inj hrest).2
    exact ⟨by rw [heq, String.toList_inj.1 hsign, heq'], (List.cons.inj hback).2⟩

/-! ## Expressions -/

/-- An expression whose head and arguments can be split off in one way only. -/
structure Expression.PartsSplitOff (e : Expression) (calls : Bool) : Prop where
  head : e.head.HeadSplitsOff calls
  arguments : ∀ list ∈ e.argumentLists, ∀ argument ∈ list, argument.SplitsOff calls

/-- What follows the head of an expression does not belong to the same word or number. -/
theorem breaks_argumentLists {back : List Char} (hback : Breaks goesOn back)
    (lists : List (List Expression)) :
    Breaks isWordPart (lists.flatMap argumentText ++ back) := by
  cases lists with
  | nil => exact breaks_isWordPart_of_goesOn hback
  | cons list lists => exact breaks_cons.2 (by decide)

theorem Expression.PartsSplitOff.splitsOff {e : Expression} (h : e.PartsSplitOff calls)
    (he : e.Printable calls) : e.SplitsOff calls := by
  intro other back back' hother hback hback' htext
  rw [toList_render e, toList_render other, List.append_assoc, List.append_assoc] at htext
  have hidem : other.head.head = other.head := by
    cases hhead : other.head with
    | call => exact absurd hhead (Expression.head_ne_call _ _ _)
    | _ => rfl
  obtain ⟨hhead, hrest⟩ := h.head hother.head hidem (breaks_argumentLists hback _)
    (breaks_argumentLists hback' _) htext
  obtain ⟨hlists, hrest⟩ := flatMap_argumentText_inj h.arguments he.argumentLists
    hother.argumentLists hback hback' hrest
  refine ⟨?_, hrest⟩
  rw [← foldl_call_argumentLists e, ← foldl_call_argumentLists other, hhead, hlists]

theorem Expression.Printable.partsSplitOff {e : Expression} (h : e.Printable calls) :
    e.PartsSplitOff calls := by
  induction h with
  | identifier hname =>
    exact ⟨headSplitsOff_of_isAtom (.identifier hname) rfl, List.forall_mem_nil _⟩
  | integer hvalue => exact ⟨headSplitsOff_of_isAtom (.integer hvalue) rfl, List.forall_mem_nil _⟩
  | boolean value => exact ⟨headSplitsOff_of_isAtom (.boolean value) rfl, List.forall_mem_nil _⟩
  | unary hoperator hright ih =>
    exact ⟨headSplitsOff_unary hoperator (ih.splitsOff hright), List.forall_mem_nil _⟩
  | binary hoperator hleft hright ihl ihr =>
    exact ⟨headSplitsOff_binary hoperator hleft (ihl.splitsOff hleft) (ihr.splitsOff hright),
      List.forall_mem_nil _⟩
  | @call callee arguments hcalls hcallee harguments ihc iha =>
    refine ⟨ihc.head, ?_⟩
    intro list hlist
    rcases List.mem_append.1 hlist with hlist | hlist
    · exact ihc.arguments list hlist
    · rw [List.mem_singleton.1 hlist]
      exact fun argument hmem => (iha argument hmem).splitsOff (harguments argument hmem)

/-- The text of an expression tells the expression and where it ends. -/
theorem Expression.Printable.splitsOff {e : Expression} (h : e.Printable calls) :
    e.SplitsOff calls :=
  h.partsSplitOff.splitsOff h

theorem Expression.Printable.eq_of_render_eq {a b : Expression} (ha : a.Printable calls)
    (hb : b.Printable calls) (h : a.render = b.render) : a = b :=
  (ha.splitsOff hb (breaks_nil _) (breaks_nil _) (by rw [h])).1

end Splits

/--
Expressions of names, integers that are not negative, truth values, operators and calls, of any
depth, have the same canonical text exactly if they are the same but for the way their integers were
written.
-/
theorem render_eq_iff_respelled_eq {a b : Expression} (ha : a.respelled.Printable true)
    (hb : b.respelled.Printable true) : a.render = b.render ↔ a.respelled = b.respelled := by
  rw [← a.render_respelled, ← b.render_respelled]
  constructor
  · intro h
    exact ha.eq_of_render_eq hb h
  · intro h
    rw [h]

/-- `f()((-x), (7 * true))`, with the 7 read from some other text. -/
def sampleCall (literal : String) : Expression :=
  .call (.call (.identifier "f") [])
    [.unary "-" (.identifier "x"), .binary (.integer 7 literal) "*" (.boolean true)]

theorem printable_sampleCall (literal : String) :
    (sampleCall literal).respelled.Printable true := by
  refine .call rfl (.call rfl (.identifier ⟨⟨⟨'f', [], rfl, by decide⟩, by decide⟩, rfl⟩)
    (List.forall_mem_nil _)) ?_
  simp only [respelledEach, List.forall_mem_cons, List.not_mem_nil, false_implies, implies_true,
    and_true]
  exact ⟨.unary (by decide) (.identifier ⟨⟨⟨'x', [], rfl, by decide⟩, by decide⟩, rfl⟩),
    .binary (by decide) (.integer (by decide)) (.boolean true)⟩

/-- Leading zeros do not show in the text, and a call of a call is no call with more arguments. -/
theorem render_eq_iff_respelled_eq_samples :
    sampleCall "007" ≠ sampleCall "7" ∧ (sampleCall "007").render = (sampleCall "7").render ∧
    (sampleCall "7").render ≠ (Expression.call (.identifier "f") []).render := by
  have hcall : (Expression.call (.identifier "f") []).respelled.Printable true :=
    .call rfl (.identifier ⟨⟨⟨'f', [], rfl, by decide⟩, by decide⟩, rfl⟩) (List.forall_mem_nil _)
  refine ⟨by simp [sampleCall], ?_, ?_⟩
  · exact (render_eq_iff_respelled_eq (printable_sampleCall "007") (printable_sampleCall "7")).2 rfl
  · intro h
    have heq := (render_eq_iff_respelled_eq (printable_sampleCall "7") hcall).1 h
    exact absurd heq (by decide +kernel)

end Monkey
