import Monkey.Text.ExtendingMark
import Monkey.Text.Unprintable

/-!
# Quoted text

A text inside a message is written between double quotes so that every character can be seen:
the quote and the backslash get a backslash, four controls have a letter or digit of their own,
and any other character without a visible form of its own is written by its code point.
-/

namespace Monkey.Text

/-- A character by its code point: `\u`, then the number in lower-case hexadecimal in braces. -/
def codePointEscape (c : Char) : List Char :=
  "\\u\x7b".toList ++ Nat.toDigits 16 c.toNat ++ "\x7d".toList

/-- The written form of one character of a quoted text. -/
def quoteChar (c : Char) : List Char :=
  if c = '\x00' then ['\\', '0']
  else if c = '\t' then ['\\', 't']
  else if c = '\r' then ['\\', 'r']
  else if c = '\n' then ['\\', 'n']
  else if c = '\\' then ['\\', '\\']
  else if c = '"' then ['\\', '"']
  else if isExtendingMark c || isUnprintable c then codePointEscape c
  else [c]

/-- A text between double quotes. -/
def quoted (text : String) : String :=
  String.ofList ('"' :: text.toList.flatMap quoteChar ++ ['"'])

end Monkey.Text
