import Monkey.Proofs.Input

/-!
# Scanning a text piece by piece

A scanner in front of a word, a number, a sign or a blank hands out what that piece is and then
stands behind it (`Scanner.exists_token`), if what follows does not go on with the piece: a word
breaks off in front of a character that is no part of a word, and `!` in front of one that is not
`=`. A text whose pieces are all separated like this is scanned into the tokens of its pieces.
-/

namespace Monkey

open TokenSource

/-! ## Where a run breaks off -/

/-- A text that does not go on with a character of a class. -/
def Breaks (p : Char → Bool) (text : List Char) : Prop :=
  ∀ c ∈ text.head?, p c = false

theorem breaks_nil (p : Char → Bool) : Breaks p [] := by
  intro c hc
  cases hc

theorem breaks_cons {p : Char → Bool} {c : Char} {text : List Char} :
    Breaks p (c :: text) ↔ p c = false := by
  constructor
  · intro h
    exact h c rfl
  · intro h d hd
    cases hd
    exact h

theorem takeWhile_append_of_breaks {p : Char → Bool} {run back : List Char}
    (hrun : ∀ c ∈ run, p c = true) (hback : Breaks p back) : (run ++ back).takeWhile p = run := by
  rw [List.takeWhile_append_of_pos hrun]
  cases back with
  | nil => simp
  | cons c back => simp [List.takeWhile, breaks_cons.1 hback]

theorem dropWhile_append_of_breaks {p : Char → Bool} {run back : List Char}
    (hrun : ∀ c ∈ run, p c = true) (hback : Breaks p back) : (run ++ back).dropWhile p = back := by
  rw [List.dropWhile_append_of_pos hrun]
  cases back with
  | nil => rfl
  | cons c back => simp [List.dropWhile, breaks_cons.1 hback]

theorem breaks_dropWhile (p : Char → Bool) (text : List Char) : Breaks p (text.dropWhile p) := by
  intro c hc
  have hhead := List.head?_dropWhile_not p text
  rw [Option.mem_def.1 hc] at hhead
  simpa using hhead

/-! ## Lexemes -/

/-- A text that is a word: a letter or underscore, then letters, digits and underscores. -/
structure IsWord (text : List Char) : Prop where
  first : ∃ c rest, text = c :: rest ∧ isWordStart c = true
  parts : text.all isWordPart = true

theorem IsWord.isPart {text : List Char} (h : IsWord text) {c : Char} (hc : c ∈ text) :
    isWordPart c = true :=
  List.all_eq_true.1 h.parts c hc

theorem IsWord.exists_head {text : List Char} (h : IsWord text) :
    ∃ c rest, text = c :: rest ∧ isWordPart c = true := by
  obtain ⟨c, rest, rfl, -⟩ := h.first
  exact ⟨c, rest, rfl, h.isPart List.mem_cons_self⟩

theorem firstMatch?_of_none {pattern : Pattern} {table : List Pattern} {text : List Char}
    (h : pattern.split? text = none) :
    firstMatch? (pattern :: table) text = firstMatch? table text := by
  rw [firstMatch?, List.findSome?_cons, h]
  rfl

theorem firstMatch?_of_some {pattern : Pattern} {table : List Pattern}
    {text front back : List Char} (h : pattern.split? text = some (front, back)) :
    firstMatch? (pattern :: table) text = some ⟨pattern, front, back⟩ := by
  rw [firstMatch?, List.findSome?_cons, h]
  rfl

theorem lexeme?_word {word back : List Char} (hword : IsWord word)
    (hback : Breaks isWordPart back) : lexeme? (word ++ back) = some ⟨.word, word, back⟩ := by
  obtain ⟨c, rest, rfl, hstart⟩ := hword.first
  have hrest : ∀ d ∈ rest, isWordPart d = true :=
    fun d hmem => hword.isPart (List.mem_cons_of_mem c hmem)
  apply firstMatch?_of_some
  simp [Pattern.split?, hstart, takeWhile_append_of_breaks hrest hback,
    dropWhile_append_of_breaks hrest hback]

theorem toNat_of_isDigit {c : Char} (h : c.isDigit = true) : 48 ≤ c.toNat ∧ c.toNat ≤ 57 := by
  obtain ⟨hlow, hhigh⟩ := Bool.and_eq_true_iff.1 h
  exact ⟨of_decide_eq_true hlow, of_decide_eq_true hhigh⟩

theorem toNat_of_isAlpha {c : Char} (h : c.isAlpha = true) : 65 ≤ c.toNat ∧ c.toNat ≤ 122 := by
  rcases Bool.or_eq_true_iff.1 h with hupper | hlower
  · obtain ⟨hlow, hhigh⟩ := of_decide_eq_true hupper
    exact ⟨hlow, Nat.le_trans hhigh (by decide)⟩
  · obtain ⟨hlow, hhigh⟩ := Bool.and_eq_true_iff.1 hlower
    exact ⟨Nat.le_trans (by decide) (of_decide_eq_true hlow), of_decide_eq_true hhigh⟩

theorem isWordStart_of_isDigit {c : Char} (h : c.isDigit = true) : isWordStart c = false := by
  have hrange := toNat_of_isDigit h
  apply Bool.eq_false_iff.2
  intro hstart
  rcases Bool.or_eq_true_iff.1 hstart with halpha | hline
  · have hletter := toNat_of_isAlpha halpha
    omega
  · rw [beq_iff_eq] at hline
    rw [hline] at hrange
    exact absurd hrange (by decide)

theorem isWordPart_of_isDigit {c : Char} (h : c.isDigit = true) : isWordPart c = true := by
  simp [isWordPart, Char.isAlphanum, h]

theorem isWordPart_of_isWordStart {c : Char} (h : isWordStart c = true) :
    isWordPart c = true := by
  rcases Bool.or_eq_true_iff.1 h with halpha | hline
  · simp [isWordPart, Char.isAlphanum, halpha]
  · simp [isWordPart, hline]

theorem Pattern.isWord_of_split? {source text back : List Char}
    (h : Pattern.word.split? source = some (text, back)) : IsWord text := by
  cases source with
  | nil => cases h
  | cons c rest =>
    rw [Pattern.split?] at h
    split at h
    next hstart =>
      cases h
      refine ⟨⟨c, _, rfl, hstart⟩, ?_⟩
      rw [List.all_cons, isWordPart_of_isWordStart hstart, Bool.true_and]
      exact List.all_takeWhile
    next => cases h

theorem toNat_of_isWordPart {c : Char} (h : isWordPart c = true) :
    48 ≤ c.toNat ∧ c.toNat ≤ 122 := by
  rcases Bool.or_eq_true_iff.1 h with halphanum | hline
  · rcases Bool.or_eq_true_iff.1 halphanum with halpha | hdigit
    · have hletter := toNat_of_isAlpha halpha
      omega
    · have hrange := toNat_of_isDigit hdigit
      omega
  · rw [beq_iff_eq.1 hline]
    decide

/-- No part of a word is a blank. -/
theorem isBlank_of_isWordPart {c : Char} (h : isWordPart c = true) : Text.isBlank c = false := by
  obtain ⟨hlow, hhigh⟩ := toNat_of_isWordPart h
  simp [Text.isBlank, Text.inRanges, Text.blankRanges]
  omega

theorem IsWord.breaks_blank {text : List Char} (h : IsWord text) (back : List Char) :
    Breaks Text.isBlank (text ++ back) := by
  obtain ⟨c, rest, rfl, hpart⟩ := h.exists_head
  exact breaks_cons.2 (isBlank_of_isWordPart hpart)

theorem lexeme?_number {digits back : List Char} (hne : digits ≠ [])
    (hdigits : ∀ c ∈ digits, c.isDigit = true) (hback : Breaks Char.isDigit back) :
    lexeme? (digits ++ back) = some ⟨.number, digits, back⟩ := by
  obtain ⟨c, rest, rfl⟩ := List.exists_cons_of_ne_nil hne
  have hstart := isWordStart_of_isDigit (hdigits c List.mem_cons_self)
  have hword : Pattern.word.split? (c :: rest ++ back) = none := if_neg (by simp [hstart])
  rw [lexeme?, patterns, firstMatch?_of_none hword]
  apply firstMatch?_of_some
  exact splitRun?_eq_some_iff.2 ⟨hne, (takeWhile_append_of_breaks hdigits hback).symm,
    (dropWhile_append_of_breaks hdigits hback).symm⟩

theorem lexeme?_blanks {run back : List Char} (hne : run ≠ [])
    (hrun : ∀ c ∈ run, Text.isBlank c = true) (hback : Breaks Text.isBlank back) :
    lexeme? (run ++ back) = some ⟨.blanks, run, back⟩ := by
  obtain ⟨c, rest, rfl⟩ := List.exists_cons_of_ne_nil hne
  have hblank := hrun c List.mem_cons_self
  have hpart : isWordPart c = false := by
    apply Bool.eq_false_iff.2
    intro hpart
    rw [isBlank_of_isWordPart hpart] at hblank
    cases hblank
  have hword : Pattern.word.split? (c :: rest ++ back) = none := by
    refine if_neg fun hstart => ?_
    rw [isWordPart_of_isWordStart hstart] at hpart
    cases hpart
  have hnumber : Pattern.number.split? (c :: rest ++ back) = none := by
    have hdigit : ¬ c.isDigit = true := by
      intro hdigit
      rw [isWordPart_of_isDigit hdigit] at hpart
      cases hpart
    rw [Pattern.split?, splitRun?, List.cons_append, List.takeWhile_cons_of_neg hdigit]
  rw [lexeme?, patterns, firstMatch?_of_none hword, firstMatch?_of_none hnumber]
  apply firstMatch?_of_some
  exact splitRun?_eq_some_iff.2 ⟨hne, (takeWhile_append_of_breaks hrun hback).symm,
    (dropWhile_append_of_breaks hrun hback).symm⟩

theorem lexeme?_blank {back : List Char} (hback : Breaks Text.isBlank back) :
    lexeme? (' ' :: back) = some ⟨.blanks, [' '], back⟩ :=
  lexeme?_blanks (List.cons_ne_nil _ _) (List.forall_mem_singleton.2 rfl) hback

/-- The signs that are the same whatever follows them. -/
def plainSigns : List (String × TokenKind) :=
  [("(", .openParen), (")", .closeParen), (";", .semicolon), (",", .comma), ("-", .dash)]

theorem lexeme?_plainSign {text : String} {kind : TokenKind} (h : (text, kind) ∈ plainSigns)
    (back : List Char) :
    lexeme? (text.toList ++ back) = some ⟨.fixed text kind, text.toList, back⟩ := by
  simp only [plainSigns, List.mem_cons, Prod.mk.injEq, List.not_mem_nil, or_false] at h
  rcases h with ⟨rfl, rfl⟩ | ⟨rfl, rfl⟩ | ⟨rfl, rfl⟩ | ⟨rfl, rfl⟩ | ⟨rfl, rfl⟩ <;> rfl

/-- The signs of binary operators and of a binding, which a blank separates from what follows. -/
def spacedSigns : List (String × TokenKind) :=
  [("==", .equals), ("!=", .notEquals), ("<", .less), (">", .greater), ("+", .plus),
    ("-", .dash), ("*", .star), ("/", .slash), ("=", .assign)]

theorem lexeme?_spacedSign {text : String} {kind : TokenKind} (h : (text, kind) ∈ spacedSigns)
    (back : List Char) :
    lexeme? (text.toList ++ ' ' :: back) = some ⟨.fixed text kind, text.toList, ' ' :: back⟩ := by
  simp only [spacedSigns, List.mem_cons, Prod.mk.injEq, List.not_mem_nil, or_false] at h
  rcases h with ⟨rfl, rfl⟩ | ⟨rfl, rfl⟩ | ⟨rfl, rfl⟩ | ⟨rfl, rfl⟩ | ⟨rfl, rfl⟩ | ⟨rfl, rfl⟩ |
    ⟨rfl, rfl⟩ | ⟨rfl, rfl⟩ | ⟨rfl, rfl⟩ <;> rfl

theorem breaks_blank_spacedSign {text : String} {kind : TokenKind}
    (h : (text, kind) ∈ spacedSigns) (back : List Char) :
    Breaks Text.isBlank (text.toList ++ back) := by
  simp only [spacedSigns, List.mem_cons, Prod.mk.injEq, List.not_mem_nil, or_false] at h
  rcases h with ⟨rfl, rfl⟩ | ⟨rfl, rfl⟩ | ⟨rfl, rfl⟩ | ⟨rfl, rfl⟩ | ⟨rfl, rfl⟩ | ⟨rfl, rfl⟩ |
    ⟨rfl, rfl⟩ | ⟨rfl, rfl⟩ | ⟨rfl, rfl⟩ <;> exact breaks_cons.2 rfl

theorem lexeme?_bang {back : List Char} (hback : Breaks (· == '=') back) :
    lexeme? ('!' :: back) = some ⟨.fixed "!" .bang, ['!'], back⟩ := by
  cases back with
  | nil => rfl
  | cons c back =>
    have hc : ¬ '=' = c := by
      rintro rfl
      exact absurd (breaks_cons.1 hback) (by decide)
    simp [lexeme?, firstMatch?, patterns, Pattern.split?, splitRun?, stripFront?, isWordStart,
      Text.isBlank, Text.inRanges, Text.blankRanges, hc]

/-! ## Tokens -/

namespace Scanner

variable {scanner : Scanner} {text back : List Char} {pattern : Pattern}

theorem rest_eq_cons_of_lexeme (hrest : scanner.rest = text ++ back)
    (hlexeme : lexeme? (text ++ back) = some ⟨pattern, text, back⟩) :
    ∃ c tail, scanner.rest = c :: tail ∧
      lexeme? (c :: tail) = some ⟨pattern, text, back⟩ := by
  have hne : text ++ back ≠ [] := by
    intro hnil
    exact lexeme?_ne_nil hlexeme (List.append_eq_nil_iff.1 hnil).1
  obtain ⟨c, tail, hcons⟩ := List.exists_cons_of_ne_nil hne
  rw [hcons] at hrest hlexeme
  exact ⟨c, tail, hrest, hlexeme⟩

/-- A scanner in front of a lexeme that is a token hands it out and stands behind it. -/
theorem exists_token {kind : TokenKind} (hrest : scanner.rest = text ++ back)
    (hlexeme : lexeme? (text ++ back) = some ⟨pattern, text, back⟩)
    (hkind : pattern.kind? (String.ofList text) = some kind) :
    ∃ (token : Token) (after : Scanner), token.kind = kind ∧ token.text = String.ofList text ∧
      after.rest = back ∧ content scanner = token :: content after := by
  have hnext : TokenSource.next scanner =
      (scanner.tokenOf kind text, scanner.moveBy text back) := by
    obtain ⟨c, tail, hcons, hfound⟩ := rest_eq_cons_of_lexeme hrest hlexeme
    change Scanner.next scanner = _
    rw [next_eq, hcons]
    simp only [hfound, hkind]
  have hne : (TokenSource.next scanner).1.kind ≠ .endOfInput := by
    rw [hnext]
    rintro rfl
    exact Pattern.kind?_ne_end (lexeme?_eq_some hlexeme).1 _ hkind
  refine ⟨scanner.tokenOf kind text, scanner.moveBy text back, rfl, rfl, rfl, ?_⟩
  rw [content_of_more hne, hnext]

/-- A blank is skipped. -/
theorem exists_behind_blank (hrest : scanner.rest = ' ' :: back)
    (hback : Breaks Text.isBlank back) :
    ∃ after : Scanner, after.rest = back ∧ content scanner = content after := by
  have hnext : TokenSource.next scanner = TokenSource.next (scanner.moveBy [' '] back) := by
    change Scanner.next scanner = Scanner.next _
    rw [next_eq, hrest]
    simp only [lexeme?_blank hback, Pattern.kind?]
  refine ⟨scanner.moveBy [' '] back, rfl, ?_⟩
  rw [content, content, drain_eq, drain_eq (scanner.moveBy [' '] back), hnext]

theorem exists_word (hrest : scanner.rest = text ++ back) (hword : IsWord text)
    (hback : Breaks isWordPart back) :
    ∃ (token : Token) (after : Scanner),
      token.kind = (reserved? (String.ofList text)).getD .identifier ∧
      token.text = String.ofList text ∧ after.rest = back ∧
      content scanner = token :: content after :=
  exists_token hrest (lexeme?_word hword hback) rfl

theorem exists_number (hrest : scanner.rest = text ++ back) (hne : text ≠ [])
    (hdigits : ∀ c ∈ text, c.isDigit = true) (hback : Breaks Char.isDigit back) :
    ∃ (token : Token) (after : Scanner), token.kind = .integer ∧
      token.text = String.ofList text ∧ after.rest = back ∧
      content scanner = token :: content after :=
  exists_token hrest (lexeme?_number hne hdigits hback) rfl

/-- A sign is handed out where its lexeme is the first. -/
theorem exists_sign (sign : String) (kind : TokenKind)
    (hrest : scanner.rest = sign.toList ++ back)
    (hlexeme : lexeme? (sign.toList ++ back) = some ⟨.fixed sign kind, sign.toList, back⟩) :
    ∃ (token : Token) (after : Scanner), token.kind = kind ∧ token.text = sign ∧
      after.rest = back ∧ content scanner = token :: content after := by
  obtain ⟨token, after, hkind, htext, hafter, hcontent⟩ := exists_token hrest hlexeme rfl
  exact ⟨token, after, hkind, by rw [htext, String.ofList_toList], hafter, hcontent⟩

theorem exists_plainSign (sign : String) (kind : TokenKind) (hsign : (sign, kind) ∈ plainSigns)
    (hrest : scanner.rest = sign.toList ++ back) :
    ∃ (token : Token) (after : Scanner), token.kind = kind ∧ token.text = sign ∧
      after.rest = back ∧ content scanner = token :: content after :=
  exists_sign sign kind hrest (lexeme?_plainSign hsign back)

/-- A sign between two blanks is handed out, and the blanks are skipped. -/
theorem exists_spacedSign {sign : String} {kind : TokenKind} (hsign : (sign, kind) ∈ spacedSigns)
    (hrest : scanner.rest = ' ' :: (sign.toList ++ ' ' :: back))
    (hback : Breaks Text.isBlank back) :
    ∃ (token : Token) (after : Scanner), token.kind = kind ∧ token.text = sign ∧
      after.rest = back ∧ content scanner = token :: content after := by
  obtain ⟨s₁, hs₁, hcontent₁⟩ :=
    exists_behind_blank hrest (breaks_blank_spacedSign hsign (' ' :: back))
  obtain ⟨token, s₂, hkind, htext, hs₂, hcontent₂⟩ :=
    exists_sign sign kind hs₁ (lexeme?_spacedSign hsign back)
  obtain ⟨after, hafter, hcontent₃⟩ := exists_behind_blank hs₂ hback
  exact ⟨token, after, hkind, htext, hafter, by rw [hcontent₁, hcontent₂, hcontent₃]⟩

end Scanner

end Monkey
