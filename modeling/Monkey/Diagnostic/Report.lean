import Monkey.Diagnostic.Basic
import Monkey.Text.Blank
import Monkey.Text.Line

/-!
# Reports

A report shows a diagnostic beside the source line it belongs to:

    Error: UnexpectedToken (Unexpected token: expected Assign, got Int)
    -> main.mk
      |
    1 | let x 5;
      | ------^

The line is shown without the blanks at its ends, and the caret stands as many columns to the
right as there are bytes between the first character shown and the place. A place outside the
source has no line, and its report ends after the file's name.

The caret is padded to a width that is known at run time only, and a formatter panics if such a
width does not fit into 16 bits. So there is no report on a place that far to the right.
-/

namespace Monkey

/-- The first line of a report: the sort of cause and the tip, if there is one. -/
def Cause.headline (cause : Cause) : String :=
  match cause.tip? with
  | some tip => "Error: " ++ cause.name ++ " (" ++ tip ++ ")\n"
  | none => "Error: " ++ cause.name ++ "\n"

/-- A text of one character, repeated. -/
def repeated (count : Nat) (c : Char) : String :=
  String.ofList (List.replicate count c)

/-- The greatest width that a formatter takes at run time. -/
def greatestWidth : Nat := 65535

/-- A character at the end of a field of this width that is filled from the left. The formatter
panics if the width is too great. -/
def padded? (width : Nat) (fill c : Char) : Option String :=
  if width ≤ greatestWidth then some (repeated (width - 1) fill ++ c.toString) else none

namespace Text.Line

/-- The start of a report line that has no line number: a bar below the one behind the number. -/
def gutter (line : Line) : String :=
  repeated (line.number.repr.length + 1) ' ' ++ "|"

/-- The number of blanks, in bytes, that are cut off the front of the line. -/
def indentation (line : Line) : Nat :=
  byteLength (line.text.takeWhile isBlank)

/-- The columns in front of the caret. -/
def caretColumn (line : Line) : Nat :=
  line.offset - line.indentation

/-- The three report lines that show a line and point into it. There are none if the caret is too
far to the right: the formatter panics. The other width, that of the line number, is never so
great. -/
def snippet? (line : Line) : Option String := do
  let arrow ← padded? (line.caretColumn + 1) '-' '^'
  return line.gutter ++ "\n" ++
    line.number.repr ++ " | " ++ String.ofList (trim line.text) ++ "\n" ++
    line.gutter ++ " " ++ arrow ++ "\n"

end Text.Line

/-- What a report says in any case: what is wrong, and in which file. -/
def Diagnostic.heading (diagnostic : Diagnostic) : String :=
  diagnostic.cause.headline ++ "-> " ++ diagnostic.position.file ++ "\n"

/-- The report on a diagnostic against the source it belongs to, or nothing where writing it
panics. -/
def Diagnostic.report? (diagnostic : Diagnostic) (source : String) : Option String :=
  match Text.lineAt? source.toList diagnostic.position.offset.toNat with
  | some line => line.snippet?.map (diagnostic.heading ++ ·)
  | none => some diagnostic.heading

end Monkey
