import Monkey.Scanner.Basic

/-!
# A cursor that can be placed anywhere

A cursor is a byte offset into a source, which a caller may move forward by any number of bytes.
Scanning goes on from wherever it stands (`next?`), except from inside a character, where there is
nothing that could be read.
-/

namespace Monkey

/-- A byte offset into a source, and the file's name. -/
structure Cursor where
  source : String
  offset : Nat
  file : String
  deriving DecidableEq

namespace Cursor

/-- The cursor in front of a whole source. -/
def ofSource (source : String) (file : Option String) : Cursor :=
  ⟨source, 0, file.getD Scanner.defaultFile⟩

/-- Moves the cursor forward, wherever that leads. -/
def advance (cursor : Cursor) (bytes : Nat) : Cursor :=
  { cursor with offset := cursor.offset + bytes }

/-- Whether the cursor stands at or behind the end of the source. -/
def atEnd (cursor : Cursor) : Bool :=
  Text.byteLength cursor.source.toList ≤ cursor.offset

/-- The place where the cursor stands. -/
def position (cursor : Cursor) : Position :=
  .ofBytes cursor.offset cursor.file

/-- The stretch of the next `bytes` bytes. -/
def spanOf (cursor : Cursor) (bytes : Nat) : Span :=
  .ofBytes cursor.offset bytes cursor.file

/-- The source from the cursor on; none inside a character and behind the end. -/
def remainder? (cursor : Cursor) : Option String :=
  (Text.dropBytes? cursor.offset cursor.source.toList).map String.ofList

/-- The scanner that goes on where the cursor stands; none inside a character. -/
def scanner? (cursor : Cursor) : Option Scanner :=
  if cursor.atEnd then some ⟨[], cursor.offset, cursor.file⟩
  else
    (Text.dropBytes? cursor.offset cursor.source.toList).map fun rest =>
      ⟨rest, cursor.offset, cursor.file⟩

/-- Hands out the next token and moves behind it; none inside a character. -/
def next? (cursor : Cursor) : Option (Token × Cursor) :=
  cursor.scanner?.map fun scanner =>
    (scanner.next.1, { cursor with offset := scanner.next.2.offset })

/-- In front of a source, a cursor scans as a scanner does. -/
theorem scanner?_ofSource (source : String) (file : Option String) :
    (ofSource source file).scanner? = some (Scanner.ofSource source file) := by
  by_cases empty : source.toList = []
  · simp [scanner?, atEnd, ofSource, Scanner.ofSource, empty]
  · have pos := List.length_pos_iff.2 empty
    have le := Text.length_le_byteLength source.toList
    have more : (ofSource source file).atEnd = false :=
      decide_eq_false (by change ¬Text.byteLength source.toList ≤ 0; omega)
    rw [scanner?, more]
    simp [ofSource, Scanner.ofSource]

end Cursor

end Monkey
