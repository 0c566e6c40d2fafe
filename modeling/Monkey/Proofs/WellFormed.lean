import Monkey.Proofs.FixedPoint
import Monkey.Proofs.Invariant
import Monkey.Proofs.Upcoming

/-!
# Trees that are well formed

Whatever a source is parsed into is a tree that the language knows: names are words that are not
reserved, integers are written in digits and are not negative, operators are those of the language,
calls occur only if there are any, and a block is never a statement of its own
(`wellFormed_of_parseSource`). It does not matter what is wrong with the source, since a node is
made of tokens that were looked at for their kind, and a scanner spells every token as its kind
demands (`Parser.Scanned`).
-/

namespace Monkey

open ParserM TokenSource

/-! ## Well-formed trees -/

/-- A text of one or more digits. -/
def InDigits (text : String) : Prop :=
  text.toList ≠ [] ∧ text.toList.all Char.isDigit = true

mutual

/-- An expression all of whose parts are such that the language knows them. -/
inductive Expression.WellFormed (calls : Bool) : Expression → Prop where
  | identifier {name : String} (hname : IsName name) :
    Expression.WellFormed calls (.identifier name)
  | integer {value : Int64} {literal : String} (hdigits : InDigits literal)
    (hnonneg : 0 ≤ value.toInt) (hle : value.toInt ≤ 9223372036854775807) :
    Expression.WellFormed calls (.integer value literal)
  | boolean (value : Bool) : Expression.WellFormed calls (.boolean value)
  | unary {operator : String} {right : Expression} (hoperator : operator ∈ ["!", "-"])
    (hright : right.WellFormed calls) : Expression.WellFormed calls (.unary operator right)
  | binary {left : Expression} {operator : String} {right : Expression}
    (hoperator : operator ∈ ["==", "!=", "<", ">", "+", "-", "*", "/"])
    (hleft : left.WellFormed calls) (hright : right.WellFormed calls) :
    Expression.WellFormed calls (.binary left operator right)
  | conditional {condition : Expression} {consequence : List Statement}
    {alternative : Option (List Statement)} (hcondition : condition.WellFormed calls)
    (hconsequence : ∀ statement ∈ consequence, statement.WellFormed calls)
    (halternative : ∀ body ∈ alternative, ∀ statement ∈ body, statement.WellFormed calls) :
    Expression.WellFormed calls (.conditional condition consequence alternative)
  | function {parameters : List String} {body : List Statement}
    (hparameters : ∀ name ∈ parameters, IsName name)
    (hbody : ∀ statement ∈ body, statement.WellFormed calls) :
    Expression.WellFormed calls (.function parameters body)
  | call {callee : Expression} {arguments : List Expression} (hcalls : calls = true)
    (hcallee : callee.WellFormed calls)
    (harguments : ∀ argument ∈ arguments, argument.WellFormed calls) :
    Expression.WellFormed calls (.call callee arguments)

/-- A statement all of whose parts are such that the language knows them; none is a block. -/
inductive Statement.WellFormed (calls : Bool) : Statement → Prop where
  | letBinding {name : String} {value : Expression} (hname : IsName name)
    (hvalue : value.WellFormed calls) : Statement.WellFormed calls (.letBinding name value)
  | returning {value : Expression} (hvalue : value.WellFormed calls) :
    Statement.WellFormed calls (.returning value)
  | expression {value : Expression} (hvalue : value.WellFormed calls) :
    Statement.WellFormed calls (.expression value)

end

/-- A property of the first of two related values alone. -/
theorem forall_mem_of_forall₂ {α β : Type} {good : α → Prop} {l : List α} {l' : List β}
    (h : List.Forall₂ (fun value _ => good value) l l') : ∀ value ∈ l, good value := by
  induction h with
  | nil => exact List.forall_mem_nil good
  | cons hvalue _ ih => exact List.forall_mem_cons.2 ⟨hvalue, ih⟩

/-- The values of one reading, all of them well formed. -/
def Values.wellFormed (calls : Bool) : Values where
  calls := calls = true
  name n _ := IsName n
  sign s _ := s ∈ ["!", "-"]
  operator s _ := s ∈ ["==", "!=", "<", ">", "+", "-", "*", "/"]
  expression e _ := e.WellFormed calls
  statement s _ := s.WellFormed calls
  identifier := .identifier
  boolean := .boolean
  unary := .unary
  binary hleft hoperator hright := .binary hoperator hleft hright
  conditional := by
    intro _ _ _ _ _ _ hcondition hconsequence halternative
    refine .conditional hcondition (forall_mem_of_forall₂ hconsequence) ?_
    rintro body rfl
    cases halternative with
    | some hbody => exact forall_mem_of_forall₂ hbody
  function hparameters hbody :=
    .function (forall_mem_of_forall₂ hparameters) (forall_mem_of_forall₂ hbody)
  call hcalls hcallee harguments := .call hcalls hcallee (forall_mem_of_forall₂ harguments)
  letBinding := .letBinding
  returning := .returning
  expressionStatement := .expression

/-! ## Tokens and trees -/

variable {σ : Type} [TokenSource σ]

/-- A parser of the language in front of tokens that are spelled as their kinds demand. -/
structure Parser.Scanned (options : Options) (p : Parser σ) : Prop where
  options_eq : p.options = options
  tables_eq : p.tables = .standard options
  spelled : ∀ count, (p.token count).Spelled

namespace Parser.Scanned

variable {options : Options} {p p' : Parser σ}

theorem current (h : p.Scanned options) : p.current.Spelled :=
  h.spelled 0

/-- Only what is ahead matters. -/
theorem of_window {n : Nat} (h : p.Scanned options)
    (hwindow : p'.window = (p.skip n).window) (htables : p'.tables = p.tables)
    (hoptions : p'.options = p.options) : p'.Scanned options := by
  refine ⟨hoptions.trans h.options_eq, htables.trans h.tables_eq, fun count => ?_⟩
  rw [token_of_window hwindow]
  exact h.spelled _

theorem of_view (h : p.Scanned options) (hview : p'.view = p.view) : p'.Scanned options := by
  simp only [view, Prod.mk.injEq] at hview
  obtain ⟨hwindow, htables, hoptions, -⟩ := hview
  exact h.of_window (n := 0) hwindow htables hoptions

theorem advance (h : p.Scanned options) : p.advance.Scanned options :=
  h.of_window (n := 1) rfl rfl rfl

end Parser.Scanned

/-- What stands between two operands in the language has a level. -/
theorem Tables.exists_level_of_binary {options : Options} {kind : TokenKind}
    {precedence : Precedence}
    (h : (standard options).operator? kind = some (precedence, .binary)) :
    ∃ level, (Grammar.standard options).level? kind = some level := by
  have hentry := (Grammar.describes_standard options).operator kind
  rw [h, Grammar.operator?] at hentry
  split at hentry
  next => simp at hentry
  next =>
    obtain ⟨level, hlevel, -⟩ := Option.map_eq_some_iff.1 hentry.symm
    exact ⟨level, hlevel⟩

/-- The value of an integer operand written in digits is not negative. -/
theorem Token.Spelled.wellFormed_integer {calls : Bool} {token : Token} (h : token.Spelled)
    (hkind : token.kind = .integer) {value : Int64}
    (hvalue : value = 0 ∨ Text.readInt64? token.text.toList = some value) :
    (Expression.integer value token.text).WellFormed calls := by
  have hdigits : InDigits token.text := h.digits hkind
  have hnonneg : 0 ≤ value.toInt := by
    rcases hvalue with rfl | hread
    · exact Int.le_refl 0
    · exact nonneg_of_digits hdigits.1 hdigits.2 (Text.readDecimal?_of_readInt64? hread)
  exact .integer hdigits hnonneg (Int.le_of_lt_add_one value.toInt_lt)

/-- Whatever is read of tokens that are spelled as their kinds demand is well formed. -/
def wellForming (options : Options) : Invariant (.same σ) Unit where
  values := .wellFormed options.calls
  inner := id
  holds _ _ p := p.Scanned options
  tables h := by rw [h.tables_eq, h.options_eq]
  turn h _ := h
  advance h _ := h.advance
  record h _ := h.of_window (n := 0) rfl rfl rfl
  of_view h hview := h.of_view hview
  name h hkind := h.current.name hkind
  sign {_ p} h hrule := by
    apply h.current.unary
    cases hkind : p.current.kind <;> rw [hkind] at hrule <;>
      simp [Tables.standardOperand?] at hrule ⊢
  operator h hrule := by
    rw [h.tables_eq] at hrule
    obtain ⟨level, hlevel⟩ := Tables.exists_level_of_binary hrule
    exact h.current.binary hlevel
  calls h hcalls := by rwa [h.options_eq] at hcalls
  integer h hkind hvalue := h.current.wellFormed_integer hkind hvalue

/-- What a supply of tokens that are spelled as their kinds demand is parsed into is well formed. -/
theorem wellFormed_of_parse {supply : σ} (options : Options)
    (h : ∀ count, (nth supply count).Spelled) :
    ∀ statement ∈ (parse supply options).program.statements,
      statement.WellFormed options.calls := by
  have hfresh : (Parser.ofSupply supply options).Scanned options :=
    ⟨rfl, rfl, fun count => by rw [Parser.token_ofSupply]; exact h count⟩
  obtain ⟨_, -, hstatements, -⟩ := (wellForming options).parse (i := ()) rfl hfresh
  exact forall_mem_of_forall₂ hstatements

/-! ## Sources -/

theorem Scanner.spelled_nth (scanner : Scanner) (count : Nat) : (nth scanner count).Spelled := by
  induction count generalizing scanner with
  | zero => exact scanner.spelled_next
  | succ count ih => exact ih (next scanner).2

/-- Every statement that a source is parsed into is well formed, whatever is found wrong. -/
theorem wellFormed_of_parseSource (source : String) (file : Option String) (options : Options) :
    ∀ statement ∈ (parseSource source file options).program.statements,
      statement.WellFormed options.calls := by
  have hspelled : ∀ count, (nth (Scanner.ofSource source file) count).Spelled :=
    Scanner.spelled_nth _
  rw [parseSource]
  exact wellFormed_of_parse options hspelled

/-- Between two statements that are dropped, a call is kept whose argument holds an integer out of
range. -/
theorem wellFormed_of_parseSource_sample :
    Statement.expression (.call (.identifier "f")
        [.binary (.unary "-" (.integer 0 "9223372036854775808")) "/" (.integer 7 "07")]) ∈
      (parseSource "let = 1; f(-9223372036854775808 / 07); g(" none
        ⟨false, true⟩).program.statements ∧
    Statement.WellFormed true (.expression (.call (.identifier "f")
      [.binary (.unary "-" (.integer 0 "9223372036854775808")) "/" (.integer 7 "07")])) := by
  have hmem : Statement.expression (.call (.identifier "f")
      [.binary (.unary "-" (.integer 0 "9223372036854775808")) "/" (.integer 7 "07")]) ∈
      (parseSource "let = 1; f(-9223372036854775808 / 07); g(" none
        ⟨false, true⟩).program.statements := by decide +kernel
  exact ⟨hmem, wellFormed_of_parseSource _ none ⟨false, true⟩ _ hmem⟩

end Monkey
