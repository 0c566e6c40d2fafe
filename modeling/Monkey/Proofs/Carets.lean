import Mathlib.Data.List.DropRight
import Monkey.Proofs.Lines
import Monkey.Proofs.Truth

/-!
# What the caret of a report points at

A report shows a diagnostic in three lines, with a bar in the same column of each: an empty one, the
line of the source, and one with a caret (`Text.Line.aligned`). A diagnostic is placed at a token,
which does not start with a blank. So it is never within the blanks that are cut off the line, and
the caret stands as many columns to the right as there are bytes in front of the token in what is
shown (`caret_column`), if the formatter takes a width like that.

A column is a character, not a byte. Hence the caret stands below the first character of the token
if all characters in front of it are of one byte, and beside it in most other lines
(`caret_misses_token`).
-/

namespace Monkey

open TokenSource

/-! ## Trimming and cutting -/

namespace Text

section Trimming

variable {p : Char → Bool} {c : Char} {front back text : List Char}

theorem dropWhile_append_cons (hc : p c = false) :
    (front ++ c :: back).dropWhile p = front.dropWhile p ++ c :: back := by
  rw [List.dropWhile_append]
  split
  next hnil =>
    rw [List.isEmpty_iff.1 hnil, List.dropWhile_cons_of_neg (by simp [hc])]
    rfl
  next => rfl

theorem takeWhile_append_cons (hc : p c = false) :
    (front ++ c :: back).takeWhile p = front.takeWhile p := by
  rw [List.takeWhile_append]
  split
  next hall =>
    rw [List.takeWhile_cons_of_neg (by simp [hc]), List.append_nil]
    exact ((List.takeWhile_prefix p).eq_of_length hall).symm
  next => rfl

/-- Trimming the end stops at a character that is no blank. -/
theorem trimEnd_append_cons (hc : isBlank c = false) :
    trimEnd (front ++ c :: back) = front ++ c :: trimEnd back := by
  have hreverse : (front ++ c :: back).reverse = back.reverse ++ c :: front.reverse := by simp
  rw [trimEnd, hreverse, dropWhile_append_cons hc, trimEnd]
  simp

/-- Trimming stops from both ends at a character that is no blank. -/
theorem trim_append_cons (hc : isBlank c = false) :
    trim (front ++ c :: back) = trimStart front ++ c :: trimEnd back := by
  rw [trim, trimStart, dropWhile_append_cons hc, trimEnd_append_cons hc]
  rfl

/-- A newline at the end of a text is trimmed. -/
theorem newline_not_mem_trimEnd (h : '\n' ∉ text.dropLast) : '\n' ∉ trimEnd text := by
  change '\n' ∉ text.rdropWhile isBlank
  rcases List.eq_nil_or_concat' text with rfl | ⟨front, c, rfl⟩
  · exact List.not_mem_nil
  · rw [List.dropLast_concat] at h
    rw [List.rdropWhile_concat]
    split
    next => exact fun hmem => h ((List.rdropWhile_prefix isBlank front).subset hmem)
    next hc =>
      rw [List.mem_append, List.mem_singleton, not_or]
      refine ⟨h, fun heq => hc ?_⟩
      rw [← heq]
      rfl

theorem newline_not_mem_trim (h : '\n' ∉ text.dropLast) : '\n' ∉ trim text := by
  apply newline_not_mem_trimEnd
  intro hmem
  apply h
  obtain ⟨blanks, htext⟩ := List.dropWhile_suffix (l := text) isBlank
  have hne : trimStart text ≠ [] := fun hnil => by simp [hnil] at hmem
  rw [← htext]
  change '\n' ∈ (blanks ++ trimStart text).dropLast
  rw [List.dropLast_append_of_ne_nil hne]
  exact List.mem_append_right _ hmem

end Trimming

/-- What is cut off a text further behind goes on beyond what was cut off first. -/
theorem exists_middle {front back front' back' : List Char} (h : front ++ back = front' ++ back')
    (hle : byteLength front ≤ byteLength front') :
    ∃ middle, front' = front ++ middle ∧ back = middle ++ back' := by
  rcases List.append_eq_append_iff.1 h with hmiddle | ⟨extra, rfl, rfl⟩
  · exact hmiddle
  · have hnil : extra = [] := by
      by_contra hne
      have hpos := byteLength_pos hne
      rw [byteLength_append] at hle
      omega
    subst hnil
    exact ⟨[], by simp, by simp⟩

/-! ## The lines of a report -/

/-- The column of the first character of its sort in a text. -/
theorem idxOf?_append_cons {c : Char} {front : List Char} (h : c ∉ front) (back : List Char) :
    (front ++ c :: back).idxOf? c = some front.length := by
  induction front with
  | nil => simp [List.idxOf?_cons]
  | cons d front ih =>
    rw [List.mem_cons, not_or] at h
    rw [List.cons_append, List.idxOf?_cons, if_neg (by simpa using Ne.symm h.1), ih h.2]
    rfl

/-- Three lines with a bar in the same column, and a caret in the last of them. -/
structure Aligned (bar shown caret : List Char) (edge column : Nat) : Prop where
  bar_edge : bar.idxOf? '|' = some edge
  shown_edge : shown.idxOf? '|' = some edge
  caret_edge : caret.idxOf? '|' = some edge
  tip : caret.idxOf? '^' = some column

namespace Line

/-- The line of a report that has a bar only. -/
def bar (line : Line) : List Char :=
  List.replicate (line.number.repr.length + 1) ' ' ++ '|' :: []

/-- The line of a report that shows a line of the source. -/
def shown (line : Line) : List Char :=
  (line.number.repr.toList ++ [' ']) ++ '|' :: ' ' :: trim line.text

/-- What stands in front of the caret. -/
def shaft (line : Line) : List Char :=
  List.replicate (line.number.repr.length + 1) ' ' ++
    '|' :: ' ' :: List.replicate line.caretColumn '-'

/-- The line of a report that has the caret. -/
def caret (line : Line) : List Char :=
  line.shaft ++ '^' :: []

theorem toList_snippet? {line : Line} {snippet : String} (h : line.snippet? = some snippet) :
    snippet.toList =
      line.bar ++ '\n' :: (line.shown ++ '\n' :: (line.caret ++ '\n' :: [])) := by
  obtain ⟨arrow, harrow, hsnippet⟩ := Option.bind_eq_some_iff.1 h
  obtain rfl := Option.some.inj hsnippet
  obtain ⟨-, harrow⟩ := Option.ite_none_right_eq_some.1 harrow
  obtain rfl := Option.some.inj harrow
  simp [gutter, repeated, bar, shown, caret, shaft]

/-- A number has digits only. -/
theorem not_mem_toDigits (number : Nat) {c : Char} (hc : c.isDigit = false) :
    c ∉ Nat.toDigits 10 number := by
  intro hmem
  rw [Nat.isDigit_of_mem_toDigits (by decide) (by decide) hmem] at hc
  cases hc

/-- In a report there is one newline for each line. -/
theorem splitLines_snippet? {line : Line} {snippet : String} (h : line.snippet? = some snippet)
    (hinside : '\n' ∉ line.text.dropLast) :
    splitLines snippet.toList =
      [line.bar ++ ['\n'], line.shown ++ ['\n'], line.caret ++ ['\n']] := by
  have hbar : '\n' ∉ line.bar := by simp [bar]
  have hshown : '\n' ∉ line.shown := by
    simp [shown, newline_not_mem_trim hinside, not_mem_toDigits]
  have hcaret : '\n' ∉ line.caret := by simp [caret, shaft]
  rw [toList_snippet? h, splitLines_concat hbar, splitLines_concat hshown, splitLines_concat hcaret]
  rfl

/-- The bars stand in one column, and the caret behind its shaft. -/
theorem aligned (line : Line) : Aligned line.bar line.shown line.caret
    (line.number.repr.length + 1) (line.number.repr.length + 3 + line.caretColumn) where
  bar_edge := by
    rw [bar, idxOf?_append_cons (by simp), List.length_replicate]
  shown_edge := by
    have hbar : '|' ∉ line.number.repr.toList ++ [' '] := by
      simp [not_mem_toDigits]
    rw [shown, idxOf?_append_cons hbar, List.length_append, String.length_toList]
    rfl
  caret_edge := by
    rw [caret, shaft, List.append_assoc, List.cons_append, idxOf?_append_cons (by simp),
      List.length_replicate]
  tip := by
    have hlength : line.shaft.length = line.number.repr.length + 3 + line.caretColumn := by
      simp only [shaft, List.length_append, List.length_replicate, List.length_cons]
      omega
    rw [caret, idxOf?_append_cons (by simp [shaft]), hlength]

/-- Behind the margin there is what is shown of the line. -/
theorem getElem?_shown (line : Line) (column : Nat) :
    line.shown[line.number.repr.length + 3 + column]? = (trim line.text)[column]? := by
  have hmargin : (line.number.repr.toList ++ [' ', '|', ' ']).length =
      line.number.repr.length + 3 := by
    rw [List.length_append, String.length_toList]
    rfl
  have hshown : line.shown = (line.number.repr.toList ++ [' ', '|', ' ']) ++ trim line.text := by
    simp [shown]
  rw [hshown, List.getElem?_append_right (by omega), hmargin, Nat.add_sub_cancel_left]

end Line

end Text

namespace Diagnostic

variable {d : Diagnostic} {source report : String} {line : Text.Line} {c : Char}

/-- In the report on a diagnostic there are three lines about the source, with a bar in the same
column of each, and `c` stands above the caret. -/
def PointsAt (d : Diagnostic) (source : String) (c : Char) : Prop :=
  ∃ report heading bar shown caret edge column,
    d.report? source = some report ∧
    Text.splitLines report.toList =
      heading ++ [bar ++ ['\n'], shown ++ ['\n'], caret ++ ['\n']] ∧
    Text.Aligned bar shown caret edge column ∧ shown[column]? = some c

/-- The lines of a report, if the diagnostic is in a line of the source. -/
theorem splitLines_report? (h : Text.lineAt? source.toList d.offset = some line)
    (hreport : d.report? source = some report) :
    Text.splitLines report.toList = Text.splitLines d.heading.toList ++
      [line.bar ++ ['\n'], line.shown ++ ['\n'], line.caret ++ ['\n']] := by
  obtain ⟨before, after, -, hline, -⟩ := Text.lineAt?_eq_some_iff.1 h
  have hlast : d.heading.toList.getLast? = some '\n' := by
    rw [heading, String.toList_append]
    exact List.getLast?_concat
  rw [report?_of_line h] at hreport
  obtain ⟨snippet, hsnippet, rfl⟩ := Option.map_eq_some_iff.1 hreport
  rw [String.toList_append, Text.splitLines_append (.inr hlast),
    Text.Line.splitLines_snippet? hsnippet hline.inside]

/-- The caret points at what stands in its column of the trimmed line. -/
theorem pointsAt_iff (h : Text.lineAt? source.toList d.offset = some line)
    (hreport : d.report? source = some report) :
    d.PointsAt source c ↔ (Text.trim line.text)[line.caretColumn]? = some c := by
  constructor
  · rintro ⟨report', heading, bar, shown, caret, edge, column, hreport', hlines, haligned, habove⟩
    rw [splitLines_report? h hreport'] at hlines
    obtain ⟨-, hsnippet⟩ := List.append_inj' hlines rfl
    simp only [List.cons.injEq, List.append_cancel_right_eq, and_true] at hsnippet
    obtain ⟨rfl, rfl, rfl⟩ := hsnippet
    have hcolumn := Option.some.inj (haligned.tip.symm.trans line.aligned.tip)
    rwa [hcolumn, line.getElem?_shown] at habove
  · intro habove
    refine ⟨report, _, _, _, _, _, _, hreport, splitLines_report? h hreport, line.aligned, ?_⟩
    rwa [line.getElem?_shown]

end Diagnostic

/-! ## Where a token stands in its line -/

/-- No token starts with a blank, since the blanks there would have been skipped. -/
theorem exists_head_of_piece {text : List Char} {piece : Piece} {kind : TokenKind}
    (h : piece? text = some piece) (hkind : piece.kind = some kind) :
    ∃ c rest, piece.text = c :: rest ∧ Text.isBlank c = false := by
  obtain ⟨c, rest, htext⟩ := List.exists_cons_of_ne_nil (piece?_ne_nil h)
  refine ⟨c, rest, htext, ?_⟩
  by_contra hblank
  rw [Bool.not_eq_false] at hblank
  have hsplit := piece?_append h
  rw [htext, List.cons_append] at hsplit
  have hne : text.takeWhile Text.isBlank ≠ [] := by
    rw [← hsplit, List.takeWhile_cons_of_pos hblank]
    exact List.cons_ne_nil _ _
  have hlexeme := lexeme?_blanks hne (fun _ => List.mem_takeWhile_imp)
    (breaks_dropWhile Text.isBlank text)
  rw [List.takeWhile_append_dropWhile] at hlexeme
  rw [piece?_of_lexeme hlexeme] at h
  cases h
  cases hkind

theorem exists_head_of_mem_drain (scanner : Scanner) :
    ∀ token ∈ drain scanner, ∃ c rest, token.text.toList = c :: rest ∧ Text.isBlank c = false := by
  induction scanner using Scanner.piece_induction with
  | finish scanner hnil =>
    rw [Scanner.drain_of_rest_nil hnil, List.forall_mem_singleton]
    exact ⟨'E', ['O', 'F'], by simp [Scanner.endToken], rfl⟩
  | step scanner piece hpiece ih =>
    rw [Scanner.drain_of_piece hpiece]
    cases hkind : piece.kind with
    | none => exact ih
    | some kind =>
      refine List.forall_mem_cons.2 ⟨?_, ih⟩
      obtain ⟨c, rest, htext, hc⟩ := exists_head_of_piece hpiece hkind
      exact ⟨c, rest, by rw [← htext]; exact String.toList_ofList, hc⟩

/-- A diagnostic is at the character `c` of a line, which is shown with `front` and `back` around
it. -/
structure Diagnostic.IsAt (d : Diagnostic) (source : String) (line : Text.Line)
    (front : List Char) (c : Char) (back : List Char) : Prop where
  found : Text.lineAt? source.toList d.offset = some line
  place : ∃ rest, Text.dropBytes? d.offset source.toList = some (c :: rest)
  text : Text.trim line.text = front ++ c :: back
  offset : line.offset = line.indentation + Text.byteLength front

namespace Diagnostic

variable {d : Diagnostic} {source report : String} {line : Text.Line} {c : Char}
  {front back : List Char}

/-- A character that is no blank is shown, and the blanks cut off are all in front of it. -/
theorem exists_isAt {rest : List Char} (h : d.offset < Text.byteLength source.toList)
    (hrest : Text.dropBytes? d.offset source.toList = some (c :: rest))
    (hc : Text.isBlank c = false) :
    ∃ line front back, d.IsAt source line front c back := by
  obtain ⟨line, hfound⟩ := Option.isSome_iff_exists.1 ((Text.isSome_lineAt? _ _).2 h)
  obtain ⟨before, after, hsource, -, -, hoffset, hinner⟩ := Text.lineAt?_eq_some_iff.1 hfound
  obtain ⟨whole, hwhole, hlength⟩ := Text.dropBytes?_eq_some_iff.1 hrest
  -- the line goes on where what is in front of it stops, and the character is in the line
  obtain ⟨inner, rfl, htext⟩ := Text.exists_middle (hsource.symm.trans hwhole) (by omega)
  rw [Text.byteLength_append] at hlength
  obtain ⟨behind, hline, hbehind⟩ := Text.exists_middle htext.symm (by omega)
  have hne : behind ≠ [] := by
    intro hnil
    rw [hline, hnil, List.append_nil] at hinner
    omega
  obtain ⟨c', tail, rfl⟩ := List.exists_cons_of_ne_nil hne
  obtain ⟨rfl, -⟩ := List.cons.inj hbehind
  refine ⟨line, Text.trimStart inner, Text.trimEnd tail, hfound, ⟨rest, hrest⟩, ?_, ?_⟩
  · rw [hline, Text.trim_append_cons hc]
  · have hcut := congrArg Text.byteLength (Text.takeWhile_append_trimStart inner)
    rw [Text.byteLength_append] at hcut
    rw [Text.Line.indentation, hline, Text.takeWhile_append_cons hc]
    omega

namespace IsAt

theorem caretColumn_eq (h : d.IsAt source line front c back) :
    line.caretColumn = Text.byteLength front := by
  rw [Text.Line.caretColumn, h.offset, Nat.add_sub_cancel_left]

/-- There is no report if so many bytes are shown in front of the character that the caret is more
than 65535 columns wide. -/
theorem report?_eq_none_iff (h : d.IsAt source line front c back) :
    d.report? source = none ↔ 65535 < Text.byteLength front + 1 := by
  rw [report?_of_line h.found, Option.map_eq_none_iff, Text.Line.snippet?_eq_none_iff,
    h.caretColumn_eq]
  rfl

theorem pointsAt_iff (h : d.IsAt source line front c back)
    (hreport : d.report? source = some report) :
    d.PointsAt source c ↔ (front ++ c :: back)[Text.byteLength front]? = some c := by
  rw [Diagnostic.pointsAt_iff h.found hreport, h.text, h.caretColumn_eq]

/-- If there are as many bytes as characters in front of the place, the caret is below it. -/
theorem pointsAt (h : d.IsAt source line front c back) (hreport : d.report? source = some report)
    (hfront : ∀ x ∈ front, x.utf8Size = 1) : d.PointsAt source c := by
  rw [h.pointsAt_iff hreport, Text.byteLength_eq_length hfront,
    List.getElem?_append_right (Nat.le_refl _), Nat.sub_self]
  rfl

end IsAt

end Diagnostic

/-- A diagnostic in front of the end of a source is at a character that is no blank. -/
theorem exists_place_of_mem {source : String} {file : Option String} {options : Options}
    (h : Text.byteLength source.toList < 4294967296) {d : Diagnostic}
    (hd : d ∈ (parseSource source file options).diagnostics)
    (hlt : d.offset < Text.byteLength source.toList) :
    ∃ c rest, Text.dropBytes? d.offset source.toList = some (c :: rest) ∧
      Text.isBlank c = false := by
  obtain ⟨token, hmem, hposition, -⟩ := exists_trueOf hd
  have hoffset : d.offset = token.offset := congrArg (·.offset.toNat) hposition
  obtain ⟨c, text, htext, hc⟩ := exists_head_of_mem_drain _ token hmem
  rw [hoffset, offset_lt_iff h hmem] at hlt
  obtain ⟨tokens, eof, htokens, hlayout⟩ :=
    Scanner.layout_drain h (Scanner.ofSource source file) ⟨[], rfl, rfl, rfl⟩
  rw [tokenize, htokens] at hmem
  have hinner : token ∈ tokens := by
    refine (List.mem_append.1 hmem).resolve_right fun hlast => hlt ?_
    rw [List.mem_singleton.1 hlast]
    exact hlayout.eof_kind
  obtain ⟨back, front, hsource, hfront, -⟩ := hlayout.texts token hinner
  rw [htext] at hsource
  exact ⟨c, text ++ back,
    Text.dropBytes?_eq_some_iff.2 ⟨front, hsource, hfront.trans hoffset.symm⟩, hc⟩

/--
Any diagnostic in front of the end of a source of less than 4 GiB is at a character of a line. There
is a report on it unless more than 65534 bytes are shown in front of this character. The report ends
with three lines that have their bars in one column. The second of them shows the line, and the
caret in the third is as many columns behind the margin as there are bytes in front of the character
in what is shown. So the caret points at the character exactly if it is the one in that column, as
it is if all characters in front of it are of one byte.
-/
theorem caret_column (source : String) (file : Option String) (options : Options)
    (h : Text.byteLength source.toList < 4294967296) :
    ∀ d ∈ (parseSource source file options).diagnostics,
      d.offset < Text.byteLength source.toList →
      ∃ line front c back, d.IsAt source line front c back ∧
        (d.report? source = none ↔ 65535 < Text.byteLength front + 1) ∧
        ∀ report, d.report? source = some report →
          Text.splitLines report.toList = Text.splitLines d.heading.toList ++
            [line.bar ++ ['\n'], line.shown ++ ['\n'], line.caret ++ ['\n']] ∧
          Text.Aligned line.bar line.shown line.caret (line.number.repr.length + 1)
            (line.number.repr.length + 3 + Text.byteLength front) ∧
          (d.PointsAt source c ↔ (front ++ c :: back)[Text.byteLength front]? = some c) ∧
          ((∀ x ∈ front, x.utf8Size = 1) → d.PointsAt source c) := by
  intro d hd hlt
  obtain ⟨c, rest, hrest, hc⟩ := exists_place_of_mem h hd hlt
  obtain ⟨line, front, back, hat⟩ := Diagnostic.exists_isAt hlt hrest hc
  refine ⟨line, front, c, back, hat, hat.report?_eq_none_iff, fun report hreport => ?_⟩
  refine ⟨Diagnostic.splitLines_report? hat.found hreport, ?_, hat.pointsAt_iff hreport,
    hat.pointsAt hreport⟩
  rw [← hat.caretColumn_eq]
  exact line.aligned

/-- The caret is below the number, behind the blanks that are cut off and some letters. -/
theorem caret_column_sample :
    (parseSource "x;\n\t let y 1;" none {}).diagnostics =
      [⟨.unexpectedToken .assign .integer, ⟨11, "shell"⟩⟩] ∧
    Diagnostic.PointsAt ⟨.unexpectedToken .assign .integer, ⟨11, "shell"⟩⟩
      "x;\n\t let y 1;" '1' := by
  have hdiagnostics : (parseSource "x;\n\t let y 1;" none {}).diagnostics =
      [⟨.unexpectedToken .assign .integer, ⟨11, "shell"⟩⟩] := by decide +kernel
  refine ⟨hdiagnostics, ?_⟩
  obtain ⟨line, front, c, back, hat, hnone, hsome⟩ :=
    caret_column "x;\n\t let y 1;" none {} (by decide +kernel)
      ⟨.unexpectedToken .assign .integer, ⟨11, "shell"⟩⟩
      (by rw [hdiagnostics]; exact List.mem_singleton_self _) (by decide +kernel)
  have hfound : Text.lineAt? "x;\n\t let y 1;".toList 11 =
      some ⟨2, "\t let y 1;".toList, 8⟩ := by decide +kernel
  obtain rfl := Option.some.inj (hat.found.symm.trans hfound)
  have hrest : Text.dropBytes? 11 "x;\n\t let y 1;".toList = some ['1', ';'] := by decide +kernel
  obtain ⟨rest, hplace⟩ := hat.place
  obtain ⟨rfl, -⟩ := List.cons.inj (Option.some.inj (hplace.symm.trans hrest))
  have hsmall : (Text.trim "\t let y 1;".toList).all (·.utf8Size == 1) = true := by decide +kernel
  have hbytes : ∀ x ∈ front, x.utf8Size = 1 := by
    intro x hx
    refine eq_of_beq (List.all_eq_true.1 hsmall x ?_)
    rw [hat.text]
    exact List.mem_append_left _ hx
  have hshort : front.length ≤ 8 := by
    have hlength : (Text.trim "\t let y 1;".toList).length = 8 := by decide +kernel
    rw [hat.text, List.length_append] at hlength
    omega
  have hreported : Diagnostic.report? ⟨.unexpectedToken .assign .integer, ⟨11, "shell"⟩⟩
      "x;\n\t let y 1;" ≠ none := by
    rw [Ne, hnone, Text.byteLength_eq_length hbytes]
    omega
  obtain ⟨report, hreport⟩ := Option.ne_none_iff_exists'.1 hreported
  obtain ⟨-, -, -, hpoints⟩ := hsome report hreport
  exact hpoints hbytes

/-- A character of two bytes in front of a parenthesis, and the caret is one column too far. -/
theorem caret_misses_token :
    ∃ d ∈ (parseSource "é)" none {}).diagnostics, d.offset < Text.byteLength "é)".toList ∧
      Text.dropBytes? d.offset "é)".toList = some [')'] ∧
      (d.report? "é)").isSome = true ∧ ¬d.PointsAt "é)" ')' := by
  have hreport : (Diagnostic.report? ⟨.missingOperand .closeParen, ⟨2, "shell"⟩⟩ "é)").isSome =
      true := by decide +kernel
  refine ⟨⟨.missingOperand .closeParen, ⟨2, "shell"⟩⟩, by decide +kernel, by decide +kernel,
    by decide +kernel, hreport, ?_⟩
  have hfound : Text.lineAt? "é)".toList
      (Diagnostic.offset ⟨.missingOperand .closeParen, ⟨2, "shell"⟩⟩) =
        some ⟨1, ['é', ')'], 2⟩ := by decide +kernel
  obtain ⟨report, hreport⟩ := Option.isSome_iff_exists.1 hreport
  rw [Diagnostic.pointsAt_iff hfound hreport]
  decide +kernel

end Monkey
