import Monkey.Proofs.Composition

/-!
# Where operands begin

A statement without braces can be cut off in front of every operand in it: in front of its value,
and inside of this behind an operator, behind the parenthesis of a group, and in front of every
argument of a call. On trees these are the places where a further expression starts
(`Clause.Opens`). On tokens they can be told from the two tokens around them (`BeginsOperand`): the
one in front of the place has to be followed by an operand, and the one behind it starts one. For
statements of the language the two say the same (`Clause.Fits.opens_iff`).
-/

namespace Monkey

/-! ## On tokens -/

/-- Tokens without braces. -/
def Flat (tokens : List Token) : Prop :=
  ∀ token ∈ tokens, token.kind ≠ .openCurly ∧ token.kind ≠ .closeCurly

@[simp] theorem flat_cons {token : Token} {tokens : List Token} :
    Flat (token :: tokens) ↔
      (token.kind ≠ .openCurly ∧ token.kind ≠ .closeCurly) ∧ Flat tokens :=
  List.forall_mem_cons

@[simp] theorem flat_append {front back : List Token} :
    Flat (front ++ back) ↔ Flat front ∧ Flat back :=
  List.forall_mem_append

/-- Tokens without braces close as many blocks as they open. -/
theorem Flat.braces {tokens : List Token} (h : Flat tokens) :
    countKind .closeCurly tokens = countKind .openCurly tokens := by
  have hclose : countKind .closeCurly tokens = 0 :=
    List.countP_eq_zero.2 fun token hmem => by simpa using (h token hmem).2
  have hopen : countKind .openCurly tokens = 0 :=
    List.countP_eq_zero.2 fun token hmem => by simpa using (h token hmem).1
  rw [hclose, hopen]

/-- Whether an operand has to follow: what starts a value, an operator, a group, or what separates
arguments. -/
def TokenKind.wantsOperand : TokenKind → Bool
  | .assign | .returnWord => true
  | .bang | .dash | .plus | .star | .slash => true
  | .equals | .notEquals | .less | .greater => true
  | .openParen | .comma => true
  | _ => false

/-- Behind some tokens of a statement, an operand begins with a token. -/
def BeginsOperand (front : List Token) (token : Token) : Prop :=
  (∀ last ∈ front.getLast?, last.kind.wantsOperand = true) ∧
    (Tables.standardOperand? token.kind).isSome = true

theorem BeginsOperand.of_append {front more : List Token} {token : Token}
    (h : BeginsOperand (front ++ more) token) : BeginsOperand more token := by
  refine ⟨fun last hlast => h.1 last ?_, h.2⟩
  rw [List.getLast?_append, Option.mem_def.1 hlast]
  rfl

theorem BeginsOperand.of_cons {first : Token} {more : List Token} {token : Token}
    (h : BeginsOperand (first :: more) token) : BeginsOperand more token :=
  BeginsOperand.of_append (show BeginsOperand ([first] ++ more) token from h)

theorem BeginsOperand.kind_ne {front : List Token} {token : Token} {kind : TokenKind}
    (h : BeginsOperand front token) (hkind : Tables.standardOperand? kind = none) :
    token.kind ≠ kind := by
  rintro rfl
  rw [BeginsOperand, hkind] at h
  exact absurd h.2 (by decide)

/-- No operand begins with a parenthesis that closes something. -/
theorem BeginsOperand.ne_closing {front more rest : List Token} {token closing : Token}
    (h : BeginsOperand front token) (hclosing : closing.kind = .closeParen) :
    [closing] ≠ more ++ token :: rest := by
  intro heq
  cases more with
  | nil =>
    obtain ⟨rfl, -⟩ := List.cons.inj heq
    exact h.kind_ne rfl hclosing
  | cons first more =>
    obtain ⟨-, hnil⟩ := List.cons.inj heq
    exact absurd hnil.symm (by simp)

/-- A token of two lists in a row is one of the first or one of the second. -/
theorem append_eq_append_cons {α : Type} {xs ys front rest : List α} {x : α}
    (h : xs ++ ys = front ++ x :: rest) :
    (∃ more, xs = front ++ x :: more) ∨ ∃ more, front = xs ++ more ∧ ys = more ++ x :: rest := by
  rcases List.append_eq_append_iff.1 h with ⟨more, hfront, hys⟩ | ⟨more, hxs, hrest⟩
  · exact .inr ⟨more, hfront, hys⟩
  · cases more with
    | nil =>
      rw [List.append_nil] at hxs
      rw [List.nil_append] at hrest
      exact .inr ⟨[], by rw [hxs, List.append_nil], hrest.symm⟩
    | cons y more =>
      obtain ⟨rfl, -⟩ := List.cons.inj hrest
      exact .inl ⟨more, hxs⟩

/-! ## On trees -/

mutual

/-- Behind some tokens of a phrase, a further expression starts. -/
inductive Phrase.Opens : Phrase → List Token → Prop where
  | start (phrase : Phrase) : Phrase.Opens phrase []
  | group {opening closing : Token} {inner : Phrase} {front : List Token} :
    Phrase.Opens inner front → Phrase.Opens (.group opening inner closing) (opening :: front)
  | unary {operator : Token} {right : Phrase} {front : List Token} :
    Phrase.Opens right front → Phrase.Opens (.unary operator right) (operator :: front)
  | left {left right : Phrase} {operator : Token} {front : List Token} :
    Phrase.Opens left front → Phrase.Opens (.binary left operator right) front
  | right {left right : Phrase} {operator : Token} {front : List Token} :
    Phrase.Opens right front →
    Phrase.Opens (.binary left operator right) (left.tokens ++ operator :: front)
  | callee {callee : Phrase} {opening closing : Token} {arguments : Arguments}
      {front : List Token} :
    Phrase.Opens callee front → Phrase.Opens (.call callee opening arguments closing) front
  | arguments {callee : Phrase} {opening closing : Token} {arguments : Arguments}
      {front : List Token} :
    Arguments.Opens arguments front →
    Phrase.Opens (.call callee opening arguments closing) (callee.tokens ++ opening :: front)

/-- Behind some tokens of the arguments of a call, an expression starts. -/
inductive Arguments.Opens : Arguments → List Token → Prop where
  | first {first : Phrase} {further : FurtherArguments} {front : List Token} :
    Phrase.Opens first front → Arguments.Opens (.some first further) front
  | further {first : Phrase} {further : FurtherArguments} {front : List Token} :
    FurtherArguments.Opens further front →
    Arguments.Opens (.some first further) (first.tokens ++ front)

/-- Behind some tokens of further arguments, an expression starts. -/
inductive FurtherArguments.Opens : FurtherArguments → List Token → Prop where
  | argument {comma : Token} {argument : Phrase} {further : FurtherArguments}
      {front : List Token} :
    Phrase.Opens argument front →
    FurtherArguments.Opens (.some comma argument further) (comma :: front)
  | later {comma : Token} {argument : Phrase} {further : FurtherArguments}
      {front : List Token} :
    FurtherArguments.Opens further front →
    FurtherArguments.Opens (.some comma argument further) (comma :: (argument.tokens ++ front))

end

/-- Behind some tokens of a statement, an expression starts. -/
inductive Clause.Opens : Clause → List Token → Prop where
  | letBinding {word name assign : Token} {value : Phrase} {semicolon : Option Token}
      {front : List Token} : value.Opens front →
    Clause.Opens (.letBinding word name assign value semicolon) (word :: name :: assign :: front)
  | returning {word : Token} {value : Phrase} {semicolon : Option Token} {front : List Token} :
    value.Opens front → Clause.Opens (.returning word value semicolon) (word :: front)
  | expression {value : Phrase} {semicolon : Option Token} {front : List Token} :
    value.Opens front → Clause.Opens (.expression value semicolon) front

/-! ## Both are the same -/

theorem Block.Fits.not_flat {g : Grammar} {next : TokenKind} {block : Block}
    (h : block.Fits g next) : ¬Flat block.tokens := by
  match block, h with
  | .mk opening _ (some _), h => exact fun hflat => (flat_cons.1 hflat).1.1 h.1
  | .mk opening _ none, h => exact fun hflat => (flat_cons.1 hflat).1.1 h.1

section Tokens

variable {g : Grammar}

/-- The last token of a phrase without braces wants no operand behind it. -/
theorem Phrase.Fits.last : {phrase : Phrase} → {next : TokenKind} → phrase.Fits g next →
    Flat phrase.tokens → ∃ front last, phrase.tokens = front ++ [last] ∧
      last.kind.wantsOperand = false
  | .identifier token, _, h, _ => ⟨[], token, rfl, by rw [show token.kind = _ from h]; rfl⟩
  | .integer token _, _, h, _ => ⟨[], token, rfl, by rw [h.1]; rfl⟩
  | .boolean token value, _, h, _ => by
    refine ⟨[], token, rfl, ?_⟩
    rw [show token.kind = _ from h]
    cases value <;> rfl
  | .group opening inner closing, _, h, _ =>
    ⟨opening :: inner.tokens, closing, rfl, by rw [h.2.2.2]; rfl⟩
  | .unary operator right, _, h, hflat => by
    obtain ⟨front, last, htokens, hlast⟩ := h.2.2.last (flat_cons.1 hflat).2
    exact ⟨operator :: front, last, by rw [Phrase.tokens, htokens]; rfl, hlast⟩
  | .binary left operator right, _, ⟨_, _, _, _, _, hright⟩, hflat => by
    obtain ⟨front, last, htokens, hlast⟩ := hright.last (flat_cons.1 (flat_append.1 hflat).2).2
    exact ⟨left.tokens ++ operator :: front, last, by simp [Phrase.tokens, htokens], hlast⟩
  | .conditional _ _ _ _ consequence _, _, h, hflat => by
    simp only [Phrase.tokens, flat_cons, flat_append] at hflat
    exact absurd hflat.2.2.2.2.1 h.2.2.2.2.2.1.not_flat
  | .function _ _ _ _ body, _, h, hflat => by
    simp only [Phrase.tokens, flat_cons, flat_append] at hflat
    exact absurd hflat.2.2.2.2 h.2.2.2.2.not_flat
  | .call callee opening arguments closing, _, h, _ =>
    ⟨callee.tokens ++ opening :: arguments.tokens, closing, by simp [Phrase.tokens],
      by rw [h.2.2.2.2.2]; rfl⟩

/-- Behind a whole phrase no operand begins. -/
theorem Phrase.Fits.not_beginsOperand {phrase : Phrase} {next : TokenKind} (h : phrase.Fits g next)
    (hflat : Flat phrase.tokens) (token : Token) : ¬BeginsOperand phrase.tokens token := by
  intro hbegins
  obtain ⟨front, last, htokens, hlast⟩ := h.last hflat
  have hwants := hbegins.1 last (by rw [htokens]; exact List.getLast?_concat)
  rw [hlast] at hwants
  cases hwants

/-- A phrase of one token opens nowhere but at its start. -/
theorem Phrase.opens_of_single {phrase : Phrase} {only token : Token} {front rest : List Token}
    (h : [only] = front ++ token :: rest) : phrase.Opens front := by
  obtain rfl : front = [] := by
    have hlength := congrArg List.length h
    simp only [List.length_append, List.length_cons, List.length_nil] at hlength
    exact List.eq_nil_of_length_eq_zero (by omega)
  exact .start phrase

mutual

/-- Where an operand begins among the tokens of a phrase, an expression starts. -/
theorem Phrase.Fits.opens : {phrase : Phrase} → {next : TokenKind} → {front rest : List Token} →
    {token : Token} → phrase.Fits g next → Flat phrase.tokens →
    phrase.tokens = front ++ token :: rest → BeginsOperand front token → phrase.Opens front
  | phrase, _, [], _, _, _, _, _, _ => .start phrase
  | .identifier _, _, _ :: _, _, _, _, _, h, _ => Phrase.opens_of_single h
  | .integer _ _, _, _ :: _, _, _, _, _, h, _ => Phrase.opens_of_single h
  | .boolean _ _, _, _ :: _, _, _, _, _, h, _ => Phrase.opens_of_single h
  | .group opening inner closing, _, first :: front, _, token, hfits, hflat, h, hbegins => by
    obtain ⟨rfl, hinner⟩ := List.cons.inj h
    obtain ⟨hinnerFlat, -⟩ := flat_append.1 (flat_cons.1 hflat).2
    rcases append_eq_append_cons hinner with ⟨more, htokens⟩ | ⟨more, rfl, hclosing⟩
    · exact .group (hfits.2.1.opens hinnerFlat htokens hbegins.of_cons)
    · exact absurd hclosing (hbegins.ne_closing hfits.2.2.2)
  | .unary operator right, _, first :: front, _, _, hfits, hflat, h, hbegins => by
    obtain ⟨rfl, hright⟩ := List.cons.inj h
    exact .unary (hfits.2.2.opens (flat_cons.1 hflat).2 hright hbegins.of_cons)
  | .binary left operator right, _, first :: front, _, _, hfits, hflat, h, hbegins => by
    obtain ⟨_, _, _, hleft, _, hright⟩ := hfits
    obtain ⟨hleftFlat, hrightFlat⟩ := flat_append.1 hflat
    rcases append_eq_append_cons h with ⟨more, htokens⟩ | ⟨more, hfront, htokens⟩
    · exact .left (hleft.opens hleftFlat htokens hbegins)
    · rw [hfront] at hbegins ⊢
      -- right behind the left side stands the operator, and only then the other operand
      cases more with
      | nil =>
        rw [List.append_nil] at hbegins
        exact absurd hbegins (hleft.not_beginsOperand hleftFlat _)
      | cons second more =>
        obtain ⟨rfl, hmore⟩ := List.cons.inj htokens
        exact .right (hright.opens (flat_cons.1 hrightFlat).2 hmore hbegins.of_append.of_cons)
  | .conditional _ _ _ _ _ _, _, _ :: _, _, _, hfits, hflat, _, _ => by
    simp only [Phrase.tokens, flat_cons, flat_append] at hflat
    exact absurd hflat.2.2.2.2.1 hfits.2.2.2.2.2.1.not_flat
  | .function _ _ _ _ _, _, _ :: _, _, _, hfits, hflat, _, _ => by
    simp only [Phrase.tokens, flat_cons, flat_append] at hflat
    exact absurd hflat.2.2.2.2 hfits.2.2.2.2.not_flat
  | .call callee opening arguments closing, _, first :: front, _, _, hfits, hflat, h, hbegins => by
    obtain ⟨-, -, hcallee, -, harguments, hclose⟩ := hfits
    obtain ⟨hcalleeFlat, hbehind⟩ := flat_append.1 hflat
    obtain ⟨hargumentsFlat, -⟩ := flat_append.1 (flat_cons.1 hbehind).2
    rcases append_eq_append_cons h with ⟨more, htokens⟩ | ⟨more, hfront, htokens⟩
    · exact .callee (hcallee.opens hcalleeFlat htokens hbegins)
    · rw [hfront] at hbegins ⊢
      cases more with
      | nil =>
        rw [List.append_nil] at hbegins
        exact absurd hbegins (hcallee.not_beginsOperand hcalleeFlat _)
      | cons second more =>
        obtain ⟨rfl, hmore⟩ := List.cons.inj htokens
        have hinner := hbegins.of_append.of_cons
        rcases append_eq_append_cons hmore with ⟨left, hleft⟩ | ⟨left, rfl, hclosing⟩
        · exact .arguments (harguments.opens hargumentsFlat hleft hinner)
        · exact absurd hclosing (hinner.ne_closing hclose)

theorem Arguments.Fits.opens : {arguments : Arguments} → {front rest : List Token} →
    {token : Token} → arguments.Fits g → Flat arguments.tokens →
    arguments.tokens = front ++ token :: rest → BeginsOperand front token →
    arguments.Opens front
  | .none, _, _, _, _, _, h, _ => absurd h (by simp [Arguments.tokens])
  | .some first further, _, _, _, hfits, hflat, h, hbegins => by
    obtain ⟨hfirstFlat, hfurtherFlat⟩ := flat_append.1 hflat
    rcases append_eq_append_cons h with ⟨more, htokens⟩ | ⟨more, rfl, htokens⟩
    · exact .first (hfits.1.opens hfirstFlat htokens hbegins)
    · exact .further (hfits.2.2.opens hfurtherFlat htokens hbegins.of_append)

theorem FurtherArguments.Fits.opens : {further : FurtherArguments} → {front rest : List Token} →
    {token : Token} → further.Fits g → Flat further.tokens →
    further.tokens = front ++ token :: rest → BeginsOperand front token →
    further.Opens front
  | .none, _, _, _, _, _, h, _ => absurd h (by simp [FurtherArguments.tokens])
  | .some comma argument further, [], _, _, hfits, _, h, hbegins => by
    obtain ⟨rfl, -⟩ := List.cons.inj h
    exact absurd hfits.1 (hbegins.kind_ne rfl)
  | .some comma argument further, first :: front, _, _, hfits, hflat, h, hbegins => by
    obtain ⟨-, hargument, -, hfurther⟩ := hfits
    obtain ⟨hargumentFlat, hfurtherFlat⟩ := flat_append.1 (flat_cons.1 hflat).2
    obtain ⟨rfl, hmore⟩ := List.cons.inj h
    rcases append_eq_append_cons hmore with ⟨left, htokens⟩ | ⟨left, rfl, htokens⟩
    · exact .argument (hargument.opens hargumentFlat htokens hbegins.of_cons)
    · exact .later (hfurther.opens hfurtherFlat htokens hbegins.of_cons.of_append)

end

/-- The semicolon behind a value is not where an operand begins. -/
theorem Phrase.Fits.opens_of_value {value : Phrase} {next next' : TokenKind}
    {semicolon : Option Token} {front rest : List Token} {token : Token}
    (hfits : value.Fits g next) (hflat : Flat value.tokens)
    (hends : g.EndsStatement next' semicolon)
    (h : value.tokens ++ semicolon.toList = front ++ token :: rest)
    (hbegins : BeginsOperand front token) : value.Opens front := by
  rcases append_eq_append_cons h with ⟨more, htokens⟩ | ⟨more, rfl, hlast⟩
  · exact hfits.opens hflat htokens hbegins
  · have hmem : token ∈ semicolon.toList := by simp [hlast]
    rw [Option.mem_toList] at hmem
    cases hmem
    exact absurd hends (hbegins.kind_ne rfl)

/-- Where an operand begins among the tokens of a statement, an expression starts. -/
theorem Clause.Fits.opens {clause : Clause} {next : TokenKind} {front rest : List Token}
    {token : Token} (hfits : clause.Fits g next) (hflat : Flat clause.tokens)
    (h : clause.tokens = front ++ token :: rest) (hbegins : BeginsOperand front token) :
    clause.Opens front := by
  cases clause with
  | letBinding word name assign value semicolon =>
    obtain ⟨hword, hname, hassign, hvalue, hends⟩ := hfits
    simp only [Clause.tokens, flat_cons, flat_append] at hflat
    match front with
    | [] =>
      obtain ⟨rfl, -⟩ := List.cons.inj h
      exact absurd hword (hbegins.kind_ne rfl)
    | [first] =>
      -- the name could start an operand, but none may follow the first word
      obtain ⟨rfl, -⟩ := List.cons.inj h
      have hwants := hbegins.1 word rfl
      rw [hword] at hwants
      cases hwants
    | [first, second] =>
      obtain ⟨-, hmore⟩ := List.cons.inj h
      obtain ⟨-, hlast⟩ := List.cons.inj hmore
      obtain ⟨rfl, -⟩ := List.cons.inj hlast
      exact absurd hassign (hbegins.kind_ne rfl)
    | first :: second :: third :: front =>
      obtain ⟨rfl, hmore⟩ := List.cons.inj h
      obtain ⟨rfl, hlast⟩ := List.cons.inj hmore
      obtain ⟨rfl, htokens⟩ := List.cons.inj hlast
      exact .letBinding (hvalue.opens_of_value hflat.2.2.2.1 hends htokens
        hbegins.of_cons.of_cons.of_cons)
  | returning word value semicolon =>
    obtain ⟨hword, hvalue, hends⟩ := hfits
    simp only [Clause.tokens, flat_cons, flat_append] at hflat
    cases front with
    | nil =>
      obtain ⟨rfl, -⟩ := List.cons.inj h
      exact absurd hword (hbegins.kind_ne rfl)
    | cons first front =>
      obtain ⟨rfl, htokens⟩ := List.cons.inj h
      exact .returning (hvalue.opens_of_value hflat.2.1 hends htokens hbegins.of_cons)
  | expression value semicolon =>
    obtain ⟨hvalue, hends⟩ := hfits
    exact .expression (hvalue.opens_of_value (flat_append.1 hflat).1 hends h hbegins)

end Tokens

/-! ## The other way round -/

theorem BeginsOperand.cons {first token : Token} {front : List Token}
    (h : BeginsOperand front token) (hfirst : first.kind.wantsOperand = true) :
    BeginsOperand (first :: front) token := by
  refine ⟨fun last hlast => ?_, h.2⟩
  rw [List.getLast?_cons] at hlast
  cases hfront : front.getLast? with
  | none =>
    rw [hfront] at hlast
    cases hlast
    exact hfirst
  | some final =>
    rw [hfront] at hlast
    cases hlast
    exact h.1 _ hfront

theorem BeginsOperand.prepend {front : List Token} {token : Token} (h : BeginsOperand front token)
    (hne : front ≠ []) (before : List Token) : BeginsOperand (before ++ front) token := by
  refine ⟨fun last hlast => h.1 last ?_, h.2⟩
  rwa [List.getLast?_append_of_ne_nil _ hne] at hlast

section Trees

variable {options : Options}

/-- An operand follows a binary operator. -/
theorem Grammar.wantsOperand_of_level {kind : TokenKind} {level : Nat}
    (h : (standard options).level? kind = some level) : kind.wantsOperand = true := by
  cases kind <;> first | rfl | cases h

/-- A phrase begins with an operand. -/
theorem Phrase.Fits.exists_first {g : Grammar} {phrase : Phrase} {next : TokenKind}
    (h : phrase.Fits g next) :
    ∃ token rest, phrase.tokens = token :: rest ∧ BeginsOperand [] token := by
  obtain ⟨rule, hrule⟩ := h.operand .illegal []
  rw [List.append_nil] at hrule
  cases htokens : phrase.tokens with
  | nil => rw [htokens] at hrule; cases hrule
  | cons token rest =>
    rw [htokens] at hrule
    have hstarts : Tables.standardOperand? token.kind = some rule := hrule
    refine ⟨token, rest, rfl, ?_, by rw [hstarts]; rfl⟩
    exact fun last hlast => nomatch hlast

mutual

/-- Where an expression starts in a phrase, an operand begins. -/
theorem Phrase.Opens.exists_token {phrase : Phrase} {front : List Token} {next : TokenKind}
    (h : phrase.Opens front) (hfits : phrase.Fits (.standard options) next) :
    ∃ token rest, phrase.tokens = front ++ token :: rest ∧ BeginsOperand front token := by
  cases h with
  | start => exact hfits.exists_first
  | @group opening closing inner front hinner =>
    obtain ⟨token, rest, htokens, hbegins⟩ := hinner.exists_token hfits.2.1
    exact ⟨token, rest ++ [closing], by simp [Phrase.tokens, htokens],
      hbegins.cons (by rw [hfits.1]; rfl)⟩
  | @unary operator right front hright =>
    obtain ⟨token, rest, htokens, hbegins⟩ := hright.exists_token hfits.2.2
    refine ⟨token, rest, by simp [Phrase.tokens, htokens], hbegins.cons ?_⟩
    rcases hfits.1 with hkind | hkind <;> rw [hkind] <;> rfl
  | @left left right operator front hleft =>
    obtain ⟨_, -, -, hleftFits, -⟩ := hfits
    obtain ⟨token, rest, htokens, hbegins⟩ := hleft.exists_token hleftFits
    exact ⟨token, rest ++ operator :: right.tokens, by simp [Phrase.tokens, htokens], hbegins⟩
  | @right left right operator front hright =>
    obtain ⟨_, hlevel, -, -, -, hrightFits⟩ := hfits
    obtain ⟨token, rest, htokens, hbegins⟩ := hright.exists_token hrightFits
    have hoperator := hbegins.cons (Grammar.wantsOperand_of_level hlevel)
    exact ⟨token, rest, by simp [Phrase.tokens, htokens],
      hoperator.prepend (List.cons_ne_nil _ _) left.tokens⟩
  | @callee callee opening closing arguments front hcallee =>
    obtain ⟨token, rest, htokens, hbegins⟩ := hcallee.exists_token hfits.2.2.1
    exact ⟨token, rest ++ opening :: (arguments.tokens ++ [closing]),
      by simp [Phrase.tokens, htokens], hbegins⟩
  | @arguments callee opening closing arguments front harguments =>
    obtain ⟨token, rest, htokens, hbegins⟩ := harguments.exists_token hfits.2.2.2.2.1
    have hopening : BeginsOperand (opening :: front) token :=
      hbegins.cons (by rw [hfits.2.2.2.1]; rfl)
    exact ⟨token, rest ++ [closing], by simp [Phrase.tokens, htokens],
      hopening.prepend (List.cons_ne_nil _ _) callee.tokens⟩

theorem Arguments.Opens.exists_token {arguments : Arguments} {front : List Token}
    (h : arguments.Opens front) (hfits : arguments.Fits (.standard options)) :
    ∃ token rest, arguments.tokens = front ++ token :: rest ∧ BeginsOperand front token := by
  cases h with
  | @first first further front hfirst =>
    obtain ⟨token, rest, htokens, hbegins⟩ := hfirst.exists_token hfits.1
    exact ⟨token, rest ++ further.tokens, by simp [Arguments.tokens, htokens], hbegins⟩
  | @further first further front hfurther =>
    obtain ⟨token, rest, htokens, hne, hbegins⟩ := hfurther.exists_token hfits.2.2
    exact ⟨token, rest, by simp [Arguments.tokens, htokens], hbegins.prepend hne first.tokens⟩

theorem FurtherArguments.Opens.exists_token {further : FurtherArguments} {front : List Token}
    (h : further.Opens front) (hfits : further.Fits (.standard options)) :
    ∃ token rest, further.tokens = front ++ token :: rest ∧ front ≠ [] ∧
      BeginsOperand front token := by
  cases h with
  | @argument comma argument further front hargument =>
    obtain ⟨token, rest, htokens, hbegins⟩ := hargument.exists_token hfits.2.1
    exact ⟨token, rest ++ further.tokens, by simp [FurtherArguments.tokens, htokens],
      List.cons_ne_nil _ _, hbegins.cons (by rw [hfits.1]; rfl)⟩
  | @later comma argument further front hlater =>
    obtain ⟨token, rest, htokens, hne, hbegins⟩ := hlater.exists_token hfits.2.2.2
    exact ⟨token, rest, by simp [FurtherArguments.tokens, htokens], List.cons_ne_nil _ _,
      (hbegins.prepend hne argument.tokens).prepend
        (fun hnil => hne (List.append_eq_nil_iff.1 hnil).2) [comma]⟩

end

/-- Where an expression starts in a statement, an operand begins. -/
theorem Clause.Opens.exists_token {clause : Clause} {front : List Token} {next : TokenKind}
    (h : clause.Opens front) (hfits : clause.Fits (.standard options) next) :
    ∃ token rest, clause.tokens = front ++ token :: rest ∧ BeginsOperand front token := by
  cases h with
  | @letBinding word name assign value semicolon front hvalue =>
    obtain ⟨token, rest, htokens, hbegins⟩ := hvalue.exists_token hfits.2.2.2.1
    have hassign : BeginsOperand (assign :: front) token :=
      hbegins.cons (by rw [hfits.2.2.1]; rfl)
    exact ⟨token, rest ++ semicolon.toList, by simp [Clause.tokens, htokens],
      hassign.prepend (List.cons_ne_nil _ _) [word, name]⟩
  | @returning word value semicolon front hvalue =>
    obtain ⟨token, rest, htokens, hbegins⟩ := hvalue.exists_token hfits.2.1
    exact ⟨token, rest ++ semicolon.toList, by simp [Clause.tokens, htokens],
      hbegins.cons (by rw [hfits.1]; rfl)⟩
  | @expression value semicolon front hvalue =>
    obtain ⟨token, rest, htokens, hbegins⟩ := hvalue.exists_token hfits.1
    exact ⟨token, rest ++ semicolon.toList, by simp [Clause.tokens, htokens], hbegins⟩

/-- The places in a statement without braces where an expression starts are those in front of the
tokens with which an operand begins. -/
theorem Clause.Fits.opens_iff {clause : Clause} {next : TokenKind}
    (hfits : clause.Fits (.standard options) next) (hflat : Flat clause.tokens)
    (front : List Token) :
    clause.Opens front ↔
      ∃ token rest, clause.tokens = front ++ token :: rest ∧ BeginsOperand front token := by
  constructor
  · exact fun h => h.exists_token hfits
  · rintro ⟨token, rest, htokens, hbegins⟩
    exact hfits.opens hflat htokens hbegins

end Trees

end Monkey
