import Monkey.Token.Kind

/-!
# Tokens

A token is a piece of source text with its kind and the place it was read from. Places are byte
offsets into a named file, kept in 32 bits.
-/

namespace Monkey

/-- A place in a file: a byte offset, kept in 32 bits, and the file's name. -/
structure Position where
  offset : UInt32
  file : String
  deriving DecidableEq, Inhabited

/-- A stretch of source, from `start` up to and without `stop`. -/
structure Span where
  start : Position
  stop : Position
  deriving DecidableEq, Inhabited

/-- A token: its kind, its text and where it stands. -/
structure Token where
  kind : TokenKind
  text : String
  span : Span
  deriving DecidableEq, Inhabited

namespace Position

/-- The place `offset` bytes into `file`; what goes beyond 32 bits is cut off. -/
def ofBytes (offset : Nat) (file : String) : Position :=
  ⟨offset.toUInt32, file⟩

@[simp] theorem ofBytes_file (offset : Nat) (file : String) :
    (ofBytes offset file).file = file := rfl

@[simp] theorem ofBytes_offset_toNat (offset : Nat) (file : String) :
    (ofBytes offset file).offset.toNat = offset % 4294967296 := by
  simp [ofBytes]

/-- The place of something that no file holds. -/
def nowhere : Position :=
  ⟨0, "<null>"⟩

end Position

/-- The stretch of `length` bytes from `offset` on. -/
def Span.ofBytes (offset length : Nat) (file : String) : Span :=
  ⟨.ofBytes offset file, .ofBytes (offset + length) file⟩

/-- The empty stretch at a place. -/
def Span.empty (place : Position) : Span :=
  ⟨place, place⟩

namespace Token

/-- A token that was put together by hand and stands in no file. -/
def synthetic (kind : TokenKind) (text : String) : Token :=
  ⟨kind, text, .empty ⟨0, "<synthetic>"⟩⟩

/-- A token's kind and text over three lines. -/
def describe (token : Token) : String :=
  "Token \x7b\nkind: " ++ token.kind.name ++ ",\nvalue: " ++ token.text ++ "\x7d"

end Token

end Monkey
