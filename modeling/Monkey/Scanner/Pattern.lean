import Monkey.Text.Blank
import Monkey.Token.Basic

/-!
# Lexical patterns

The twenty patterns of the language, in order. At any point of a source the first pattern of the
table that matches there decides what stands there (`lexeme?`). A pattern splits the text it
matches off the front: nothing is lost (`Pattern.split?_append`), and a match is never empty
(`Pattern.split?_ne_nil`), so scanning always moves on.
-/

namespace Monkey

/-- Whether an identifier can start with a character. -/
def isWordStart (c : Char) : Bool :=
  c.isAlpha || c == '_'

/-- Whether an identifier can go on with a character. -/
def isWordPart (c : Char) : Bool :=
  c.isAlphanum || c == '_'

/-- What follows `front` in a text that starts with it. -/
def stripFront? : List Char → List Char → Option (List Char)
  | [], text => some text
  | _ :: _, [] => none
  | a :: front, c :: text => if a = c then stripFront? front text else none

theorem stripFront?_eq_some_iff {front text rest : List Char} :
    stripFront? front text = some rest ↔ text = front ++ rest := by
  induction front generalizing text with
  | nil => simp [stripFront?]
  | cons a front ih =>
    cases text with
    | nil => simp [stripFront?]
    | cons c text =>
      simp only [stripFront?, List.cons_append, List.cons.injEq]
      split
      next h => simp [ih, h]
      next h => simp [Ne.symm h]

/-- The longest non-empty run of characters of a class at the front of a text, and the rest. -/
def splitRun? (p : Char → Bool) (text : List Char) : Option (List Char × List Char) :=
  match text.takeWhile p with
  | [] => none
  | c :: run => some (c :: run, text.dropWhile p)

/-- A lexical pattern: a class of texts that can stand next in a source. -/
inductive Pattern where
  /-- a letter or underscore, then letters, digits and underscores -/
  | word
  /-- one or more digits -/
  | number
  /-- one or more blanks -/
  | blanks
  /-- two slashes and all that follows on the line -/
  | comment
  /-- exactly the given text, which is a token of the given kind -/
  | fixed (text : String) (kind : TokenKind)
  deriving DecidableEq

namespace Pattern

/-- Splits the longest match of a pattern off the front of a text. -/
def split? : Pattern → List Char → Option (List Char × List Char)
  | word, [] => none
  | word, c :: text =>
    if isWordStart c then some (c :: text.takeWhile isWordPart, text.dropWhile isWordPart)
    else none
  | number, text => splitRun? Char.isDigit text
  | blanks, text => splitRun? Text.isBlank text
  | comment, '/' :: '/' :: text =>
    some ('/' :: '/' :: text.takeWhile (· != '\n'), text.dropWhile (· != '\n'))
  | comment, _ => none
  | fixed lexeme _, text => (stripFront? lexeme.toList text).map fun rest => (lexeme.toList, rest)

/--
The kind of token that a match of a pattern makes; none for what only separates tokens. A word
is an identifier unless all of it is a reserved word.
-/
def kind? : Pattern → String → Option TokenKind
  | word, text => some ((reserved? text).getD .identifier)
  | number, _ => some .integer
  | blanks, _ => none
  | comment, _ => none
  | fixed _ kind, _ => some kind

end Pattern

/-- The patterns of the language; the order decides between several that match. -/
def patterns : List Pattern :=
  [.word, .number, .blanks, .comment,
   .fixed "\x7b" .openCurly, .fixed "\x7d" .closeCurly, .fixed "(" .openParen,
   .fixed ")" .closeParen, .fixed "==" .equals, .fixed "!=" .notEquals, .fixed "!" .bang,
   .fixed "=" .assign, .fixed "<" .less, .fixed ">" .greater, .fixed ";" .semicolon,
   .fixed "," .comma, .fixed "+" .plus, .fixed "-" .dash, .fixed "/" .slash, .fixed "*" .star]

/-- What stands at the front of a text: its pattern, its characters, and what follows them. -/
structure Lexeme where
  pattern : Pattern
  text : List Char
  rest : List Char
  deriving DecidableEq

/-- The lexeme at the front of a text under an ordered table of patterns: the first match. -/
def firstMatch? (table : List Pattern) (text : List Char) : Option Lexeme :=
  table.findSome? fun pattern => (pattern.split? text).map fun (front, rest) =>
    ⟨pattern, front, rest⟩

/-- The lexeme at the front of a text; none at the end and before an illegal character. -/
def lexeme? (text : List Char) : Option Lexeme :=
  firstMatch? patterns text

/-! ## A match is a non-empty front of the text -/

theorem splitRun?_eq_some_iff {p : Char → Bool} {text run rest : List Char} :
    splitRun? p text = some (run, rest) ↔
      run ≠ [] ∧ run = text.takeWhile p ∧ rest = text.dropWhile p := by
  unfold splitRun?
  split
  next h =>
    rw [h]
    exact ⟨nofun, fun ⟨nonempty, eq, _⟩ => absurd eq nonempty⟩
  next c tail h =>
    rw [h]
    constructor
    · rintro ⟨⟩; exact ⟨nofun, rfl, rfl⟩
    · rintro ⟨-, rfl, rfl⟩; rfl

theorem splitRun?_append {p : Char → Bool} {text run rest : List Char}
    (h : splitRun? p text = some (run, rest)) : run ++ rest = text := by
  obtain ⟨-, rfl, rfl⟩ := splitRun?_eq_some_iff.1 h
  exact List.takeWhile_append_dropWhile

/-- The match and the rest together are the text. -/
theorem Pattern.split?_append {pattern : Pattern} {text front rest : List Char}
    (h : pattern.split? text = some (front, rest)) : front ++ rest = text := by
  unfold Pattern.split? at h
  split at h
  next => cases h
  next c text =>
    split at h
    next => cases h; simp [List.takeWhile_append_dropWhile]
    next => cases h
  next => exact splitRun?_append h
  next => exact splitRun?_append h
  next text => cases h; simp [List.takeWhile_append_dropWhile]
  next => cases h
  next lexeme _ _ =>
    obtain ⟨r, hr, e⟩ := Option.map_eq_some_iff.1 h
    cases e
    exact (stripFront?_eq_some_iff.1 hr).symm

/-- No pattern of the table matches the empty text. -/
theorem Pattern.split?_ne_nil {pattern : Pattern} {text front rest : List Char}
    (member : pattern ∈ patterns) (h : pattern.split? text = some (front, rest)) :
    front ≠ [] := by
  unfold Pattern.split? at h
  split at h
  next => cases h
  next =>
    split at h
    next => cases h; exact List.cons_ne_nil _ _
    next => cases h
  next => exact (splitRun?_eq_some_iff.1 h).1
  next => exact (splitRun?_eq_some_iff.1 h).1
  next => cases h; exact List.cons_ne_nil _ _
  next => cases h
  next lexeme kind _ =>
    obtain ⟨r, hr, e⟩ := Option.map_eq_some_iff.1 h
    cases e
    have nonempty : ∀ p ∈ patterns, ∀ text kind, p = .fixed text kind → text ≠ "" := by
      intro p hp text kind e
      subst e
      simp only [patterns, List.mem_cons, Pattern.fixed.injEq, reduceCtorEq, false_or,
        List.not_mem_nil, or_false] at hp
      rcases hp with ⟨rfl, -⟩ | ⟨rfl, -⟩ | ⟨rfl, -⟩ | ⟨rfl, -⟩ | ⟨rfl, -⟩ | ⟨rfl, -⟩ | ⟨rfl, -⟩ |
        ⟨rfl, -⟩ | ⟨rfl, -⟩ | ⟨rfl, -⟩ | ⟨rfl, -⟩ | ⟨rfl, -⟩ | ⟨rfl, -⟩ | ⟨rfl, -⟩ | ⟨rfl, -⟩ |
        ⟨rfl, -⟩ <;> decide
    intro e
    exact nonempty _ member _ _ rfl (String.toList_inj.1 (by simpa using e))

theorem lexeme?_eq_some {text : List Char} {lexeme : Lexeme} (h : lexeme? text = some lexeme) :
    lexeme.pattern ∈ patterns ∧
      lexeme.pattern.split? text = some (lexeme.text, lexeme.rest) := by
  obtain ⟨pattern, member, split⟩ := List.exists_of_findSome?_eq_some h
  obtain ⟨⟨front, rest⟩, hsplit, rfl⟩ := Option.map_eq_some_iff.1 split
  exact ⟨member, hsplit⟩

/-- A lexeme and what follows it together are the text it was found in. -/
theorem lexeme?_append {text : List Char} {lexeme : Lexeme} (h : lexeme? text = some lexeme) :
    lexeme.text ++ lexeme.rest = text :=
  Pattern.split?_append (lexeme?_eq_some h).2

/-- A lexeme is never empty. -/
theorem lexeme?_ne_nil {text : List Char} {lexeme : Lexeme} (h : lexeme? text = some lexeme) :
    lexeme.text ≠ [] :=
  Pattern.split?_ne_nil (lexeme?_eq_some h).1 (lexeme?_eq_some h).2

theorem lexeme?_rest_length {text : List Char} {lexeme : Lexeme}
    (h : lexeme? text = some lexeme) : lexeme.rest.length < text.length := by
  have := List.length_pos_iff.2 (lexeme?_ne_nil h)
  rw [← lexeme?_append h, List.length_append]
  omega

end Monkey
