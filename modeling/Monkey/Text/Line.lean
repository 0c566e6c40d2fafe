import Monkey.Text.Bytes

/-!
# Lines of a source

A source is cut behind each newline into its lines, so that every line but perhaps the last ends
with one and the lines in a row are the source (`flatten_splitLines`). `lineAt?` finds the line
that holds a byte offset.
-/

namespace Monkey.Text

/-- The lines of a text, each with the newline that ends it. -/
def splitLines : List Char → List (List Char)
  | [] => []
  | c :: text =>
    if c = '\n' then [c] :: splitLines text
    else
      match splitLines text with
      | [] => [[c]]
      | line :: lines => (c :: line) :: lines

@[simp] theorem flatten_splitLines (text : List Char) : (splitLines text).flatten = text := by
  induction text with
  | nil => rfl
  | cons c text ih =>
    unfold splitLines
    split
    next => simp [ih]
    next =>
      split
      next h => rw [h] at ih; simp [← ih]
      next line lines h => rw [h] at ih; simp [← ih]

/-- A line of a source that holds a place: its number from one on, its text, and the bytes in
front of the place within the line. -/
structure Line where
  number : Nat
  text : List Char
  offset : Nat
  deriving DecidableEq

/-- The line that holds the byte `offset` bytes into `lines`, the first of which has a number. -/
def findLine? : Nat → Nat → List (List Char) → Option Line
  | _, _, [] => none
  | number, offset, line :: lines =>
    if offset < byteLength line then some ⟨number, line, offset⟩
    else findLine? (number + 1) (offset - byteLength line) lines

/-- The line that holds a byte offset of a source; none at and behind the end. -/
def lineAt? (source : List Char) (offset : Nat) : Option Line :=
  findLine? 1 offset (splitLines source)

theorem isSome_findLine? (number offset : Nat) (lines : List (List Char)) :
    (findLine? number offset lines).isSome = true ↔ offset < byteLength lines.flatten := by
  induction lines generalizing number offset with
  | nil => simp [findLine?]
  | cons line lines ih =>
    rw [findLine?, List.flatten_cons, byteLength_append]
    split
    next h => simp only [Option.isSome_some, true_iff]; omega
    next h => rw [ih]; omega

/-- The places of a source that a line holds are those in front of its end. -/
theorem isSome_lineAt? (source : List Char) (offset : Nat) :
    (lineAt? source offset).isSome = true ↔ offset < byteLength source := by
  rw [lineAt?, isSome_findLine?, flatten_splitLines]

end Monkey.Text
