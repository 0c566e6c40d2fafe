/-!
# Token kinds

What kinds of token there are, the names messages give them, and the words that the language
reserves. `all` lists the kinds in the order in which lists of kinds are written; it holds every
kind (`mem_all`), and no two kinds share a name (`name_inj`).
-/

namespace Monkey

/-- The kinds of token. -/
inductive TokenKind where
  | endOfInput
  /-- a character that no token starts with -/
  | illegal
  | identifier
  | integer
  | openCurly
  | closeCurly
  | openParen
  | closeParen
  | assign
  | equals
  | bang
  | notEquals
  | less
  | greater
  | semicolon
  | comma
  | plus
  | dash
  | slash
  | star
  | letWord
  | fnWord
  | returnWord
  | ifWord
  | elseWord
  | trueWord
  | falseWord
  deriving DecidableEq, Inhabited

namespace TokenKind

/-- The name of a kind in messages. -/
def name : TokenKind → String
  | endOfInput => "EOF"
  | illegal => "Illegal"
  | identifier => "Identifier"
  | integer => "Int"
  | openCurly => "OpenCurly"
  | closeCurly => "CloseCurly"
  | openParen => "OpenParen"
  | closeParen => "CloseParen"
  | assign => "Assign"
  | equals => "Equals"
  | bang => "Bang"
  | notEquals => "NotEquals"
  | less => "Less"
  | greater => "Greater"
  | semicolon => "Semicolon"
  | comma => "Comma"
  | plus => "Plus"
  | dash => "Dash"
  | slash => "Slash"
  | star => "Star"
  | letWord => "Let"
  | fnWord => "Fn"
  | returnWord => "Return"
  | ifWord => "If"
  | elseWord => "Else"
  | trueWord => "True"
  | falseWord => "False"

/-- Every kind, in the order in which lists of kinds are written. -/
def all : List TokenKind :=
  [endOfInput, illegal, identifier, integer, openCurly, closeCurly, openParen, closeParen, assign,
   equals, bang, notEquals, less, greater, semicolon, comma, plus, dash, slash, star, letWord,
   fnWord, returnWord, ifWord, elseWord, trueWord, falseWord]

theorem mem_all (kind : TokenKind) : kind ∈ all := by
  cases kind <;> decide

/-- The kind of a given name. -/
def ofName? (text : String) : Option TokenKind :=
  all.find? fun kind => kind.name == text

theorem ofName?_name (kind : TokenKind) : ofName? kind.name = some kind := by
  cases kind <;> rfl

theorem name_inj {a b : TokenKind} : a.name = b.name ↔ a = b :=
  ⟨fun h => Option.some.inj (by rw [← ofName?_name a, h, ofName?_name]), congrArg name⟩

end TokenKind

/-! ## Reserved words -/

/-- The reserved words, each with the kind of token it is. -/
def reservedWords : List (String × TokenKind) :=
  [("let", .letWord), ("fn", .fnWord), ("if", .ifWord), ("else", .elseWord), ("true", .trueWord),
   ("false", .falseWord), ("return", .returnWord)]

/-- The kind of a reserved word; none for any other word. -/
def reserved? (word : String) : Option TokenKind :=
  reservedWords.lookup word

/-- No word is reserved twice. -/
theorem reserved?_eq_some_iff {word : String} {kind : TokenKind} :
    reserved? word = some kind ↔ (word, kind) ∈ reservedWords := by
  constructor
  · intro h
    obtain ⟨front, back, hsplit, -⟩ := List.lookup_eq_some_iff.1 h
    simp [hsplit]
  · intro h
    simp only [reservedWords, List.mem_cons, Prod.mk.injEq, List.not_mem_nil, or_false] at h
    rcases h with ⟨rfl, rfl⟩ | ⟨rfl, rfl⟩ | ⟨rfl, rfl⟩ | ⟨rfl, rfl⟩ | ⟨rfl, rfl⟩ | ⟨rfl, rfl⟩ |
      ⟨rfl, rfl⟩ <;> rfl

end Monkey
