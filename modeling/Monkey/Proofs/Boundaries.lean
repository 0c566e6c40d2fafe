import Monkey.Proofs.Layout
import Monkey.Scanner.Cursor

/-!
# Scanning from character to character

A cursor may be put anywhere, and it cannot be scanned from inside a character. That is the only
place from which nothing is handed out, since scanning leaves a cursor between two characters
(`Cursor.next?_between_characters`).

Scanning goes on in rounds, and each of them cuts the source anew where the cursor stands, and
again behind a character that starts no lexeme (`Cursor.round`). If the first cut can be made, then
all the others can: a round takes the piece that the source goes on with, so the cursor is moved
from one boundary between characters to a later one (`Cursor.round_of_piece`). So there is a last
round, and what it hands out is the next token (`Cursor.rounds_eq_next?`).
-/

namespace Monkey

/-! ## Cutting a text -/

namespace Text

/-- Whether a byte offset is between two characters of a text, or at one of its ends. -/
def IsBoundary (offset : Nat) (text : List Char) : Prop :=
  ∃ front back, text = front ++ back ∧ byteLength front = offset

/-- The text between two byte offsets; none where one of them is inside a character or behind the
end. -/
def slice? (start stop : Nat) (text : List Char) : Option (List Char) :=
  (dropBytes? start text).bind fun rest =>
    (dropBytes? (stop - start) rest).map fun back => rest.take (rest.length - back.length)

theorem dropBytes?_eq_none_iff {offset : Nat} {text : List Char} :
    dropBytes? offset text = none ↔ ¬IsBoundary offset text := by
  rw [Option.eq_none_iff_forall_ne_some]
  constructor
  · rintro h ⟨front, back, htext, hfront⟩
    exact h back (dropBytes?_eq_some_iff.2 ⟨front, htext, hfront⟩)
  · intro h back hback
    obtain ⟨front, htext, hfront⟩ := dropBytes?_eq_some_iff.1 hback
    exact h ⟨front, back, htext, hfront⟩

/-- What stands between two boundaries can be cut out. -/
theorem slice?_append (front text back : List Char) :
    slice? (byteLength front) (byteLength front + byteLength text) (front ++ (text ++ back)) =
      some text := by
  rw [slice?, dropBytes?_byteLength, Option.bind_some, Nat.add_sub_cancel_left,
    dropBytes?_byteLength]
  simp

end Text

/-! ## Rounds -/

/-- What comes of scanning for a while. -/
inductive Progress where
  /-- the source could not be cut -/
  | stuck
  /-- a token was found -/
  | done (token : Token) (after : Cursor)
  /-- only what separates tokens was found so far -/
  | again (after : Cursor)

/-- What has come of scanning when it is over. -/
def Progress.ofAnswer : Option (Token × Cursor) → Progress
  | none => stuck
  | some (token, after) => done token after

namespace Cursor

/-- One round of scanning: cuts off what comes behind the cursor and looks at what it starts with. A
character that starts no lexeme is cut out of the source. -/
def round (cursor : Cursor) : Progress :=
  if cursor.atEnd then .done ⟨.endOfInput, "EOF", cursor.spanOf 0⟩ cursor
  else
    match cursor.remainder? with
    | none => .stuck
    | some rest =>
      match lexeme? rest.toList with
      | some lexeme =>
        let bytes := Text.byteLength lexeme.text
        match lexeme.pattern.kind? (String.ofList lexeme.text) with
        | some kind =>
          .done ⟨kind, String.ofList lexeme.text, cursor.spanOf bytes⟩ (cursor.advance bytes)
        | none => .again (cursor.advance bytes)
      | none =>
        let bytes := (rest.toList.head?.map Char.utf8Size).getD 1
        match Text.slice? cursor.offset (cursor.offset + bytes) cursor.source.toList with
        | none => .stuck
        | some text =>
          .done ⟨.illegal, String.ofList text, cursor.spanOf bytes⟩ (cursor.advance bytes)

/-- Rounds of scanning, until one is the last or there are `count` of them. -/
def rounds : Nat → Cursor → Progress
  | 0, cursor => .again cursor
  | count + 1, cursor =>
    match cursor.round with
    | .again after => rounds count after
    | last => last

/-- What a round comes to that takes a piece: its token, if it makes one, and the cursor behind
it. -/
def take (cursor : Cursor) (piece : Piece) : Progress :=
  let bytes := Text.byteLength piece.text
  match piece.kind with
  | some kind =>
    .done ⟨kind, String.ofList piece.text, cursor.spanOf bytes⟩ (cursor.advance bytes)
  | none => .again (cursor.advance bytes)

variable {cursor : Cursor} {front rest : List Char}

/-! ## A round -/

theorem atEnd_eq_false_of_append (hsource : cursor.source.toList = front ++ rest)
    (hfront : Text.byteLength front = cursor.offset) (hrest : rest ≠ []) :
    cursor.atEnd = false := by
  have hpos := Text.byteLength_pos hrest
  apply decide_eq_false
  rw [hsource, Text.byteLength_append]
  omega

theorem remainder?_of_append (hsource : cursor.source.toList = front ++ rest)
    (hfront : Text.byteLength front = cursor.offset) :
    cursor.remainder? = some (String.ofList rest) := by
  rw [remainder?, Text.dropBytes?_eq_some_iff.2 ⟨front, hsource, hfront⟩, Option.map_some]

/-- A round from inside a character is stuck. -/
theorem round_of_not_isBoundary (hmore : cursor.atEnd = false)
    (h : ¬Text.IsBoundary cursor.offset cursor.source.toList) : cursor.round = .stuck := by
  rw [round, hmore, remainder?, Text.dropBytes?_eq_none_iff.2 h]
  rfl

/-- A round from a boundary takes the piece that the source goes on with, and is not stuck. -/
theorem round_of_piece (hsource : cursor.source.toList = front ++ rest)
    (hfront : Text.byteLength front = cursor.offset) {piece : Piece}
    (hpiece : piece? rest = some piece) : cursor.round = cursor.take piece := by
  have hne : rest ≠ [] := by
    intro hnil
    rw [hnil] at hpiece
    cases hpiece
  rw [round, atEnd_eq_false_of_append hsource hfront hne, remainder?_of_append hsource hfront]
  rcases piece?_cases hpiece with ⟨c, tail, rfl, hlexeme, rfl⟩ | ⟨lexeme, hlexeme, rfl⟩
  · have hslice : Text.slice? cursor.offset (cursor.offset + c.utf8Size) cursor.source.toList =
        some [c] := by
      rw [hsource, ← hfront]
      exact Text.slice?_append front [c] tail
    simp [hlexeme, hslice, take]
  · cases hkind : lexeme.pattern.kind? (String.ofList lexeme.text) with
    | some kind => simp [hlexeme, hkind, take]
    | none => simp [hlexeme, hkind, take]

theorem round_of_atEnd (h : cursor.atEnd = true) :
    cursor.round = .done ⟨.endOfInput, "EOF", cursor.spanOf 0⟩ cursor := by
  rw [round, if_pos h]

/-! ## All rounds -/

theorem rounds_of_done {token : Token} {after : Cursor} (h : cursor.round = .done token after)
    (count : Nat) : rounds (count + 1) cursor = .done token after := by
  rw [rounds, h]

theorem rounds_of_stuck (h : cursor.round = .stuck) (count : Nat) :
    rounds (count + 1) cursor = .stuck := by
  rw [rounds, h]

theorem rounds_of_again {after : Cursor} (h : cursor.round = .again after) (count : Nat) :
    rounds (count + 1) cursor = rounds count after := by
  rw [rounds, h]

/-- From a boundary the rounds come to what a scanner hands out that stands there. -/
theorem rounds_of_boundary (source : String) (scanner : Scanner)
    (hsource : source.toList = front ++ scanner.rest)
    (hfront : Text.byteLength front = scanner.offset) {count : Nat}
    (hcount : scanner.rest.length < count) :
    rounds count ⟨source, scanner.offset, scanner.file⟩ =
      .done scanner.next.1 ⟨source, scanner.next.2.offset, scanner.file⟩ := by
  induction scanner using Scanner.piece_induction generalizing front count with
  | finish scanner hrest =>
    obtain ⟨count, rfl⟩ : ∃ n, count = n + 1 := ⟨count - 1, by omega⟩
    rw [hrest, List.append_nil] at hsource
    have hend : (Cursor.mk source scanner.offset scanner.file).atEnd = true := by
      apply decide_eq_true
      rw [hsource, hfront]
    rw [rounds_of_done (round_of_atEnd hend), Scanner.next_of_rest_nil hrest]
    rfl
  | step scanner piece hpiece ih =>
    obtain ⟨count, rfl⟩ : ∃ n, count = n + 1 := ⟨count - 1, by omega⟩
    have hround : (Cursor.mk source scanner.offset scanner.file).round =
        (Cursor.mk source scanner.offset scanner.file).take piece :=
      round_of_piece hsource hfront hpiece
    cases hkind : piece.kind with
    | some kind =>
      rw [take, hkind] at hround
      rw [rounds_of_done hround, Scanner.next_of_piece hpiece hkind]
      rfl
    | none =>
      rw [take, hkind] at hround
      rw [rounds_of_again hround, Scanner.next_of_skipped hpiece hkind]
      -- behind the piece the cursor is on a boundary again
      have hbehind : source.toList = (front ++ piece.text) ++ piece.rest := by
        rw [hsource, List.append_assoc, piece?_append hpiece]
      have hlength := piece?_rest_length hpiece
      exact ih hbehind (by rw [Text.byteLength_append, hfront]; rfl)
        (by simp only [Scanner.moveBy_rest]; omega)

/-- A cursor is at the end, inside a character, or between two characters with more behind it. -/
theorem cases_of_place (cursor : Cursor) :
    (cursor.atEnd = true ∧ cursor.scanner? = some ⟨[], cursor.offset, cursor.file⟩) ∨
    (cursor.atEnd = false ∧ ¬Text.IsBoundary cursor.offset cursor.source.toList ∧
      cursor.scanner? = none) ∨
    ∃ front rest, cursor.atEnd = false ∧ cursor.source.toList = front ++ rest ∧ rest ≠ [] ∧
      Text.byteLength front = cursor.offset ∧
      cursor.scanner? = some ⟨rest, cursor.offset, cursor.file⟩ := by
  cases hend : cursor.atEnd with
  | true => exact .inl ⟨rfl, by rw [scanner?, if_pos hend]⟩
  | false =>
    refine .inr ?_
    by_cases hboundary : Text.IsBoundary cursor.offset cursor.source.toList
    · obtain ⟨front, rest, hsource, hfront⟩ := hboundary
      have hne : rest ≠ [] := by
        intro hnil
        have hlt : ¬Text.byteLength cursor.source.toList ≤ cursor.offset :=
          of_decide_eq_false hend
        rw [hsource, hnil, List.append_nil] at hlt
        omega
      refine .inr ⟨front, rest, rfl, hsource, hne, hfront, ?_⟩
      rw [scanner?, hend, Text.dropBytes?_eq_some_iff.2 ⟨front, hsource, hfront⟩]
      rfl
    · refine .inl ⟨rfl, hboundary, ?_⟩
      rw [scanner?, hend, Text.dropBytes?_eq_none_iff.2 hboundary]
      rfl

/-- There is a last round, and it comes to the next token. -/
theorem rounds_eq_next? (cursor : Cursor) {count : Nat}
    (hcount : cursor.source.toList.length < count) :
    rounds count cursor = .ofAnswer cursor.next? := by
  obtain ⟨more, rfl⟩ : ∃ n, count = n + 1 := ⟨count - 1, by omega⟩
  rcases cursor.cases_of_place with ⟨hend, hscanner⟩ | ⟨hmore, hinside, hscanner⟩ |
    ⟨front, rest, hmore, hsource, hrest, hfront, hscanner⟩
  · rw [next?, hscanner, rounds_of_done (round_of_atEnd hend)]
    rfl
  · rw [next?, hscanner, rounds_of_stuck (round_of_not_isBoundary hmore hinside)]
    rfl
  · have hlength : rest.length < more + 1 := by
      rw [hsource, List.length_append] at hcount
      omega
    rw [next?, hscanner]
    exact rounds_of_boundary cursor.source ⟨rest, cursor.offset, cursor.file⟩ hsource hfront hlength

end Cursor

/-! ## Where scanning leaves off -/

/-- A scanner leaves off behind what it hands out, with the rest of the text behind it, and further
on if there was a rest. -/
theorem Scanner.exists_taken (scanner : Scanner) :
    ∃ taken, scanner.rest = taken ++ scanner.next.2.rest ∧
      scanner.next.2.offset = scanner.offset + Text.byteLength taken ∧
      (scanner.rest ≠ [] → taken ≠ []) ∧
      scanner.next.1.span.stop = .ofBytes scanner.next.2.offset scanner.file := by
  rcases scanner.next_cases with hend | ⟨gap, text, rest, kind, hrest, htext, -, hnext⟩
  · rw [hend]
    exact ⟨scanner.rest, (List.append_nil _).symm, rfl, id, rfl⟩
  · rw [hnext]
    refine ⟨gap ++ text, by rw [hrest, List.append_assoc]; rfl, rfl, ?_, ?_⟩
    · intro _ hnil
      exact htext (List.append_eq_nil_iff.1 hnil).2
    · simp only [tokenOf, Span.ofBytes, moveBy_offset, Text.byteLength_append, moveBy_file,
        Nat.add_assoc]

namespace Cursor

theorem next?_eq_none_iff (cursor : Cursor) :
    cursor.next? = none ↔ cursor.offset < Text.byteLength cursor.source.toList ∧
      ¬Text.IsBoundary cursor.offset cursor.source.toList := by
  rw [next?, Option.map_eq_none_iff]
  rcases cursor.cases_of_place with ⟨hend, hscanner⟩ | ⟨hmore, hinside, hscanner⟩ |
    ⟨front, rest, hmore, hsource, hrest, hfront, hscanner⟩
  · have hle : Text.byteLength cursor.source.toList ≤ cursor.offset := of_decide_eq_true hend
    rw [hscanner]
    exact iff_of_false (Option.some_ne_none _) fun h => absurd h.1 (Nat.not_lt.2 hle)
  · have hlt : ¬Text.byteLength cursor.source.toList ≤ cursor.offset := of_decide_eq_false hmore
    exact iff_of_true hscanner ⟨Nat.lt_of_not_le hlt, hinside⟩
  · rw [hscanner]
    exact iff_of_false (Option.some_ne_none _) fun h => h.2 ⟨front, rest, hsource, hfront⟩

/-- What is handed out stops where the cursor is then, which is on a boundary further on unless it
was at the end. -/
theorem next?_eq_some {cursor after : Cursor} {token : Token}
    (h : cursor.next? = some (token, after)) :
    after.source = cursor.source ∧ after.file = cursor.file ∧
      token.span.stop = .ofBytes after.offset cursor.file ∧
      (cursor.atEnd = true → after.offset = cursor.offset) ∧
      (cursor.atEnd = false → cursor.offset < after.offset ∧
        Text.IsBoundary after.offset cursor.source.toList) := by
  rw [next?] at h
  rcases cursor.cases_of_place with ⟨hend, hscanner⟩ | ⟨hmore, hinside, hscanner⟩ |
    ⟨front, rest, hmore, hsource, hrest, hfront, hscanner⟩
  · rw [hscanner] at h
    cases h
    refine ⟨rfl, rfl, rfl, fun _ => rfl, ?_⟩
    intro hmore
    rw [hend] at hmore
    cases hmore
  · rw [hscanner] at h
    cases h
  · rw [hscanner] at h
    cases h
    obtain ⟨taken, htaken, hoffset, hne, hstop⟩ :=
      Scanner.exists_taken ⟨rest, cursor.offset, cursor.file⟩
    have hpos := Text.byteLength_pos (hne hrest)
    simp only at htaken hoffset
    refine ⟨rfl, rfl, hstop, ?_, fun _ => ⟨?_, ?_⟩⟩
    · intro hend
      rw [hend] at hmore
      cases hmore
    · simp only
      omega
    · refine ⟨front ++ taken, _, by rw [hsource, htaken, List.append_assoc], ?_⟩
      rw [Text.byteLength_append, hfront, hoffset]

/--
Wherever a cursor was put, nothing is handed out exactly if it is inside a character of the source.
Else the rounds of scanning come to an end, and to a token. From the end of the source and from
behind it the cursor is not moved; else it is moved further on, to a place between two characters.
The token stops where the cursor is then, as far as 32 bits tell.
-/
theorem next?_between_characters (cursor : Cursor) :
    (∀ count, cursor.source.toList.length < count →
      rounds count cursor = .ofAnswer cursor.next?) ∧
    (cursor.next? = none ↔ cursor.offset < Text.byteLength cursor.source.toList ∧
      ¬Text.IsBoundary cursor.offset cursor.source.toList) ∧
    ∀ token after, cursor.next? = some (token, after) →
      (Text.byteLength cursor.source.toList ≤ cursor.offset → after = cursor) ∧
      (cursor.offset < Text.byteLength cursor.source.toList →
        after.source = cursor.source ∧ after.file = cursor.file ∧
        cursor.offset < after.offset ∧ Text.IsBoundary after.offset cursor.source.toList) ∧
      token.span.stop.offset.toNat = after.offset % 4294967296 := by
  refine ⟨fun _ => cursor.rounds_eq_next?, cursor.next?_eq_none_iff, ?_⟩
  intro token after h
  obtain ⟨hsource, hfile, hstop, hend, hmore⟩ := next?_eq_some h
  refine ⟨?_, ?_, ?_⟩
  · intro hle
    have hoffset := hend (decide_eq_true hle)
    obtain ⟨source, offset, file⟩ := after
    obtain rfl : source = cursor.source := hsource
    obtain rfl : offset = cursor.offset := hoffset
    obtain rfl : file = cursor.file := hfile
    rfl
  · intro hlt
    exact ⟨hsource, hfile, hmore (decide_eq_false (Nat.not_le.2 hlt))⟩
  · rw [hstop, Position.ofBytes_offset_toNat]

/-- Between two characters a blank is skipped and the next character handed out; inside the first
character there is nothing, and far behind the end the offsets are cut off. -/
theorem next?_between_characters_samples :
    (Cursor.mk "é é" 1 "shell").next? = none ∧
    ¬Text.IsBoundary 1 "é é".toList ∧
    (Cursor.mk "é é" 2 "shell").next? =
      some (⟨.illegal, "é", .ofBytes 3 2 "shell"⟩, ⟨"é é", 5, "shell"⟩) ∧
    Text.IsBoundary 5 "é é".toList ∧
    (Cursor.mk "é é" 4294967299 "shell").next? =
      some (⟨.endOfInput, "EOF", .ofBytes 3 0 "shell"⟩, ⟨"é é", 4294967299, "shell"⟩) ∧
    (3 : UInt32).toNat = 4294967299 % 4294967296 := by
  have hinside : (Cursor.mk "é é" 1 "shell").next? = none := by decide +kernel
  have hbetween : (Cursor.mk "é é" 2 "shell").next? =
      some (⟨.illegal, "é", .ofBytes 3 2 "shell"⟩, ⟨"é é", 5, "shell"⟩) := by decide +kernel
  have hbehind : (Cursor.mk "é é" 4294967299 "shell").next? =
      some (⟨.endOfInput, "EOF", .ofBytes 3 0 "shell"⟩, ⟨"é é", 4294967299, "shell"⟩) := by
    decide +kernel
  have hnone := (next?_between_characters ⟨"é é", 1, "shell"⟩).2.1.1 hinside
  have hnext := (next?_between_characters ⟨"é é", 2, "shell"⟩).2.2 _ _ hbetween
  have hlast := (next?_between_characters ⟨"é é", 4294967299, "shell"⟩).2.2 _ _ hbehind
  exact ⟨hinside, hnone.2, hbetween, (hnext.2.1 (by decide +kernel)).2.2.2, hbehind, hlast.2.2⟩

end Cursor

end Monkey
