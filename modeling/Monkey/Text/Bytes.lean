/-!
# Byte offsets

Offsets into a source count bytes of its UTF-8 form. `byteLength` is the length of a text in
bytes, and `dropBytes?` is the part of a text from a byte offset on, which exists only where the
offset falls between two characters (`dropBytes?_eq_some_iff`).
-/

namespace Monkey.Text

/-- The number of bytes of a text in UTF-8. -/
def byteLength : List Char → Nat
  | [] => 0
  | c :: text => c.utf8Size + byteLength text

@[simp] theorem byteLength_nil : byteLength [] = 0 := rfl

@[simp] theorem byteLength_cons (c : Char) (text : List Char) :
    byteLength (c :: text) = c.utf8Size + byteLength text := rfl

@[simp] theorem byteLength_append (front back : List Char) :
    byteLength (front ++ back) = byteLength front + byteLength back := by
  induction front with
  | nil => simp
  | cons c front ih => simp [ih, Nat.add_assoc]

theorem length_le_byteLength (text : List Char) : text.length ≤ byteLength text := by
  induction text with
  | nil => simp
  | cons c text ih =>
    have := c.utf8Size_pos
    simp only [List.length_cons, byteLength_cons]
    omega

/-- A text of characters of one byte has as many bytes as characters. -/
theorem byteLength_eq_length {text : List Char} (h : ∀ c ∈ text, c.utf8Size = 1) :
    byteLength text = text.length := by
  induction text with
  | nil => rfl
  | cons c text ih =>
    rw [List.forall_mem_cons] at h
    rw [byteLength_cons, h.1, ih h.2, List.length_cons, Nat.add_comm]

/--
The part of a text that starts at a byte offset; none where the offset falls inside a character
or behind the end of the text.
-/
def dropBytes? : Nat → List Char → Option (List Char)
  | 0, text => some text
  | _ + 1, [] => none
  | offset + 1, c :: text =>
    if c.utf8Size ≤ offset + 1 then dropBytes? (offset + 1 - c.utf8Size) text else none

@[simp] theorem dropBytes?_zero (text : List Char) : dropBytes? 0 text = some text := by
  cases text <;> rfl

@[simp] theorem dropBytes?_byteLength (front back : List Char) :
    dropBytes? (byteLength front) (front ++ back) = some back := by
  induction front with
  | nil => simp
  | cons c front ih =>
    have pos := c.utf8Size_pos
    obtain ⟨n, hn⟩ : ∃ n, c.utf8Size + byteLength front = n + 1 :=
      ⟨c.utf8Size + byteLength front - 1, by omega⟩
    have drop : n + 1 - c.utf8Size = byteLength front := by omega
    rw [byteLength_cons, hn, List.cons_append, dropBytes?, if_pos (by omega), drop, ih]

/-- An offset marks the start of a rest exactly where the text splits in front of that rest. -/
theorem dropBytes?_eq_some_iff {offset : Nat} {text back : List Char} :
    dropBytes? offset text = some back ↔
      ∃ front, text = front ++ back ∧ byteLength front = offset := by
  constructor
  · intro h
    induction text generalizing offset with
    | nil =>
      cases offset with
      | zero => simp only [dropBytes?, Option.some.injEq] at h; exact ⟨[], by simp [h], rfl⟩
      | succ n => simp [dropBytes?] at h
    | cons c text ih =>
      cases offset with
      | zero => simp only [dropBytes?, Option.some.injEq] at h; exact ⟨[], by simp [h], rfl⟩
      | succ n =>
        simp only [dropBytes?] at h
        split at h
        next fits =>
          obtain ⟨front, rfl, len⟩ := ih h
          exact ⟨c :: front, rfl, by simp only [byteLength_cons]; omega⟩
        next => simp at h
  · rintro ⟨front, rfl, rfl⟩
    exact dropBytes?_byteLength front back

end Monkey.Text
