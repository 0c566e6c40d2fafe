/-!
# Decimal text

How whole numbers are written and read. A number is written with the fewest digits and a minus
sign in front of a negative one; a text is read as a number when it is one or more ASCII digits
after at most one sign, plus or minus.
-/

namespace Monkey.Text

/-- The value of a run of digits, most significant first. -/
def digitsValue (digits : List Char) : Nat :=
  Nat.ofDigitChars 10 digits 0

/-- The number that a run of digits stands for; none without digits or with another character. -/
def readDigits? (text : List Char) : Option Nat :=
  if text ≠ [] ∧ text.all Char.isDigit then some (digitsValue text) else none

/-- The number that a text stands for, with at most one sign in front of the digits. -/
def readDecimal? : List Char → Option Int
  | '+' :: text => (readDigits? text).map Int.ofNat
  | '-' :: text => (readDigits? text).map fun n => -Int.ofNat n
  | text => (readDigits? text).map Int.ofNat

/-- The least 64-bit number. -/
def leastInt64 : Int :=
  -9223372036854775808

/-- The greatest 64-bit number. -/
def greatestInt64 : Int :=
  9223372036854775807

/-- The 64-bit number that a text stands for; none where it stands for no number or for one out of
range. -/
def readInt64? (text : List Char) : Option Int64 :=
  match readDecimal? text with
  | some n => if leastInt64 ≤ n ∧ n ≤ greatestInt64 then some (Int64.ofInt n) else none
  | none => none

/-- A number in decimal. -/
def writeDecimal : Int → String
  | .ofNat n => n.repr
  | .negSucc n => "-" ++ (n + 1).repr

/-- A text of digits alone is read as the value of its digits. -/
theorem readDecimal?_of_all_isDigit {text : List Char} (nonempty : text ≠ [])
    (digits : text.all Char.isDigit = true) :
    readDecimal? text = some (digitsValue text : Int) := by
  match text with
  | [] => exact absurd rfl nonempty
  | c :: rest =>
    have hc : c.isDigit = true := by simp_all
    unfold readDecimal?
    split
    next h => cases h; exact absurd hc (by decide)
    next h => cases h; exact absurd hc (by decide)
    next => simp only [readDigits?, if_pos (And.intro nonempty digits)]; rfl

/-- The decimal form of a natural number is read back as that number. -/
theorem readDecimal?_repr (n : Nat) : readDecimal? n.repr.toList = some (n : Int) := by
  rw [Nat.toList_repr, readDecimal?_of_all_isDigit Nat.toDigits_ne_nil]
  · rw [digitsValue, Nat.ofDigitChars_toDigits (by decide) (by decide)]
  · exact List.all_eq_true.2 fun c h => Nat.isDigit_of_mem_toDigits (by decide) (by decide) h

/-- A text that is read as a 64-bit number is read as that number. -/
theorem readDecimal?_of_readInt64? {text : List Char} {value : Int64}
    (h : readInt64? text = some value) : readDecimal? text = some value.toInt := by
  unfold readInt64? at h
  split at h
  next n hn =>
    split at h
    next range =>
      cases h
      simp only [leastInt64, greatestInt64] at range
      rw [hn, Int64.toInt_ofInt_of_le (by omega) (by omega)]
    next => cases h
  next => cases h

/-- A text that is read as a number in range is read as a 64-bit number. -/
theorem readInt64?_of_readDecimal? {text : List Char} {value : Int64}
    (h : readDecimal? text = some value.toInt) : readInt64? text = some value := by
  have range : leastInt64 ≤ value.toInt ∧ value.toInt ≤ greatestInt64 :=
    ⟨value.le_toInt, Int.le_of_lt_add_one value.toInt_lt⟩
  rw [readInt64?, h]
  simp only [if_pos range, Int64.ofInt_toInt]

/-- Digits that are read as no 64-bit number stand for one that is too great. -/
theorem greatestInt64_lt_digitsValue {text : List Char} (nonempty : text ≠ [])
    (digits : text.all Char.isDigit = true) (h : readInt64? text = none) :
    greatestInt64 < digitsValue text := by
  have range : ¬(leastInt64 ≤ digitsValue text ∧ digitsValue text ≤ greatestInt64) := by
    intro range
    rw [readInt64?, readDecimal?_of_all_isDigit nonempty digits] at h
    simp only [if_pos range] at h
    cases h
  unfold leastInt64 at range
  omega

end Monkey.Text
