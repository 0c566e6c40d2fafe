import Monkey.Proofs.Layout
import Monkey.Scanner.Cursor

/-!
# The first match is the longest

The patterns of the language are tried in order, and the first one that matches decides. That is no
more than a way to find the longest match: no text of a pattern is the front of a text of a later
one (`patterns_ordered`), and under a table with this property the first match is the longest of
all (`firstMatch?_eq_some_iff`). So what a scanner hands out can be said without the order of the
table (`LongestScan`), and this is what it hands out wherever it stands
(`Cursor.next?_iff_longest`).
-/

namespace Monkey

/-! ## The texts of a pattern -/

/-- The texts that a pattern stands for. -/
def Pattern.Accepts : Pattern → List Char → Prop
  | word, text => IsWord text
  | number, text => text ≠ [] ∧ ∀ c ∈ text, c.isDigit = true
  | blanks, text => text ≠ [] ∧ ∀ c ∈ text, Text.isBlank c = true
  | comment, text => ∃ body, text = '/' :: '/' :: body ∧ ∀ c ∈ body, c ≠ '\n'
  | fixed lexeme _, text => text = lexeme.toList

/-- The longest front of a text that a pattern of a table stands for, and the pattern. -/
structure LongestMatch (table : List Pattern) (text : List Char) (pattern : Pattern)
    (front : List Char) : Prop where
  member : pattern ∈ table
  accepts : pattern.Accepts front
  isFront : front <+: text
  longest : ∀ other ∈ table, ∀ run, run <+: text → other.Accepts run → run.length ≤ front.length

theorem splitRun?_of_run {p : Char → Bool} {run : List Char} (hne : run ≠ [])
    (hrun : ∀ c ∈ run, p c = true) (back : List Char) :
    ∃ front rest, splitRun? p (run ++ back) = some (front, rest) ∧ run.length ≤ front.length := by
  refine ⟨run ++ back.takeWhile p, back.dropWhile p, splitRun?_eq_some_iff.2 ⟨?_, ?_, ?_⟩, ?_⟩
  · exact List.append_ne_nil_of_left_ne_nil hne _
  · exact (List.takeWhile_append_of_pos hrun).symm
  · exact (List.dropWhile_append_of_pos hrun).symm
  · rw [List.length_append]
    exact Nat.le_add_right _ _

theorem forall_mem_of_splitRun? {p : Char → Bool} {text front back : List Char}
    (h : splitRun? p text = some (front, back)) : front ≠ [] ∧ ∀ c ∈ front, p c = true := by
  obtain ⟨hne, rfl, -⟩ := splitRun?_eq_some_iff.1 h
  exact ⟨hne, fun c hc => List.mem_takeWhile_imp hc⟩

namespace Pattern

variable {pattern other : Pattern} {text front back run : List Char}

/-- What a pattern splits off is one of its texts. -/
theorem accepts_of_split? (h : pattern.split? text = some (front, back)) :
    pattern.Accepts front := by
  cases pattern with
  | word => exact isWord_of_split? h
  | number => exact forall_mem_of_splitRun? h
  | blanks => exact forall_mem_of_splitRun? h
  | comment =>
    unfold split? at h
    split at h
    all_goals first | contradiction | skip
    cases h
    refine ⟨_, rfl, fun c hc => ?_⟩
    simpa using List.mem_takeWhile_imp hc
  | fixed lexeme kind =>
    obtain ⟨rest, -, heq⟩ := Option.map_eq_some_iff.1 h
    cases heq
    rfl

/-- In front of one of its texts, a pattern splits off at least that. -/
theorem Accepts.exists_split? (h : pattern.Accepts run) (back : List Char) :
    ∃ front rest, pattern.split? (run ++ back) = some (front, rest) ∧
      run.length ≤ front.length := by
  cases pattern with
  | word =>
    obtain ⟨c, tail, rfl, hstart⟩ := h.first
    have htail : ∀ d ∈ tail, isWordPart d = true :=
      fun d hd => h.isPart (List.mem_cons_of_mem c hd)
    refine ⟨_, _, if_pos hstart, ?_⟩
    rw [List.append_eq, List.takeWhile_append_of_pos htail]
    simp only [List.length_cons, List.length_append]
    omega
  | number => exact splitRun?_of_run h.1 h.2 back
  | blanks => exact splitRun?_of_run h.1 h.2 back
  | comment =>
    obtain ⟨body, rfl, hbody⟩ := h
    have hbody : ∀ c ∈ body, (c != '\n') = true := fun c hc => by simpa using hbody c hc
    refine ⟨_, _, rfl, ?_⟩
    rw [List.append_eq, List.takeWhile_append_of_pos hbody]
    simp only [List.length_cons, List.length_append]
    omega
  | fixed lexeme kind =>
    refine ⟨lexeme.toList, back, ?_, Nat.le_of_eq (congrArg List.length h)⟩
    rw [Accepts] at h
    rw [split?, stripFront?_eq_some_iff.2 (congrArg (· ++ back) h)]
    rfl

/-- What a pattern splits off is as long as any of its texts that the text starts with. -/
theorem length_le_of_split? (h : pattern.split? text = some (front, back)) (hrun : run <+: text)
    (haccepts : pattern.Accepts run) : run.length ≤ front.length := by
  obtain ⟨rest, rfl⟩ := hrun
  obtain ⟨front', rest', hsplit, hle⟩ := haccepts.exists_split? rest
  rw [h] at hsplit
  cases hsplit
  exact hle

theorem not_accepts_of_split? (h : pattern.split? text = none) (hrun : run <+: text) :
    ¬ pattern.Accepts run := by
  intro haccepts
  obtain ⟨rest, rfl⟩ := hrun
  obtain ⟨front, rest', hsplit, -⟩ := haccepts.exists_split? rest
  rw [h] at hsplit
  cases hsplit

/-! ## Ordered tables -/

/-- No text of the first pattern is the front of a text of the second one. -/
def Before (pattern other : Pattern) : Prop :=
  ∀ front run, pattern.Accepts front → other.Accepts run → ¬ front <+: run

end Pattern

section Tables

variable {table : List Pattern} {pattern other : Pattern} {text front back run : List Char}

/-- A pattern that does not match plays no part. -/
theorem longestMatch_cons_of_none (hsplit : pattern.split? text = none) :
    LongestMatch (pattern :: table) text other run ↔ LongestMatch table text other run := by
  have hnone : ∀ run, run <+: text → ¬ pattern.Accepts run :=
    fun run => Pattern.not_accepts_of_split? hsplit
  constructor
  · intro h
    refine ⟨?_, h.accepts, h.isFront, fun other hother =>
      h.longest other (List.mem_cons_of_mem _ hother)⟩
    rcases List.mem_cons.1 h.member with rfl | hmem
    · exact absurd h.accepts (hnone run h.isFront)
    · exact hmem
  · intro h
    refine ⟨List.mem_cons_of_mem _ h.member, h.accepts, h.isFront, fun other hother run hrun
      haccepts => ?_⟩
    rcases List.mem_cons.1 hother with rfl | hother
    · exact absurd haccepts (hnone run hrun)
    · exact h.longest other hother run hrun haccepts

/-- A pattern that matches, and none of whose texts is the front of a text of a later one, has the
longest match. -/
theorem longestMatch_cons_of_some (hfirst : ∀ other ∈ table, pattern.Before other)
    (hsplit : pattern.split? text = some (front, back)) :
    LongestMatch (pattern :: table) text other run ↔ other = pattern ∧ run = front := by
  have haccepts : pattern.Accepts front := Pattern.accepts_of_split? hsplit
  have hfront : front <+: text := ⟨back, Pattern.split?_append hsplit⟩
  constructor
  · intro h
    have hle : front.length ≤ run.length :=
      h.longest pattern List.mem_cons_self front hfront haccepts
    have hbegins : front <+: run := List.prefix_of_prefix_length_le hfront h.isFront hle
    rcases List.mem_cons.1 h.member with rfl | hmem
    · have hge : run.length ≤ front.length :=
        Pattern.length_le_of_split? hsplit h.isFront h.accepts
      exact ⟨rfl, (hbegins.eq_of_length (Nat.le_antisymm hle hge)).symm⟩
    · exact absurd hbegins (hfirst other hmem front run haccepts h.accepts)
  · rintro ⟨rfl, rfl⟩
    refine ⟨List.mem_cons_self, haccepts, hfront, fun later hlater text' htext' hlater' => ?_⟩
    rcases List.mem_cons.1 hlater with rfl | hlater
    · exact Pattern.length_le_of_split? hsplit htext' hlater'
    · -- both stand at the front of the text, and the later one does not go on with the first
      rcases List.prefix_or_prefix_of_prefix hfront htext' with hle | hle
      · exact absurd hle (hfirst later hlater run text' haccepts hlater')
      · exact hle.length_le

/-- Under a table where no text of a pattern is the front of a text of a later one, the first match
is the longest, and there is one only. -/
theorem firstMatch?_eq_some_iff (hordered : table.Pairwise Pattern.Before) {lexeme : Lexeme} :
    firstMatch? table text = some lexeme ↔
      LongestMatch table text lexeme.pattern lexeme.text ∧ lexeme.text ++ lexeme.rest = text := by
  induction table with
  | nil =>
    constructor
    · intro h
      cases h
    · rintro ⟨h, -⟩
      cases h.member
  | cons pattern table ih =>
    obtain ⟨hfirst, hordered⟩ := List.pairwise_cons.1 hordered
    cases hsplit : pattern.split? text with
    | none => rw [firstMatch?_of_none hsplit, ih hordered, longestMatch_cons_of_none hsplit]
    | some split =>
      obtain ⟨front, back⟩ := split
      have happend : front ++ back = text := Pattern.split?_append hsplit
      rw [firstMatch?_of_some hsplit, Option.some_inj, longestMatch_cons_of_some hfirst hsplit]
      constructor
      · rintro rfl
        exact ⟨⟨rfl, rfl⟩, happend⟩
      · obtain ⟨other, run, rest⟩ := lexeme
        rintro ⟨⟨rfl, rfl⟩, hrest⟩
        obtain rfl : back = rest := List.append_cancel_left (happend.trans hrest.symm)
        rfl

end Tables

/-! ## The patterns of the language -/

/-- The tokens that are always written the same, in the order in which they are tried. -/
def signs : List (String × TokenKind) :=
  [("\x7b", .openCurly), ("\x7d", .closeCurly), ("(", .openParen), (")", .closeParen),
    ("==", .equals), ("!=", .notEquals), ("!", .bang), ("=", .assign), ("<", .less),
    (">", .greater), (";", .semicolon), (",", .comma), ("+", .plus), ("-", .dash), ("/", .slash),
    ("*", .star)]

/-- The pattern of a sign. -/
def Pattern.ofSign (sign : String × TokenKind) : Pattern :=
  .fixed sign.1 sign.2

theorem patterns_eq :
    patterns = .word :: .number :: .blanks :: .comment :: signs.map .ofSign :=
  rfl

/-- The characters that signs start with. -/
def signHeads : List Char :=
  signs.filterMap (·.1.toList.head?)

namespace Pattern

variable {pattern other : Pattern}

/-- Whether a text of a pattern can start with a character. -/
def starts : Pattern → Char → Bool
  | word, c => isWordStart c
  | number, c => c.isDigit
  | blanks, c => Text.isBlank c
  | comment, c => c == '/'
  | fixed lexeme _, c => lexeme.toList.head? == some c

theorem Accepts.starts {c : Char} {rest : List Char} (h : pattern.Accepts (c :: rest)) :
    pattern.starts c = true := by
  cases pattern with
  | word =>
    obtain ⟨d, tail, heq, hstart⟩ := h.first
    cases heq
    exact hstart
  | number => exact h.2 c List.mem_cons_self
  | blanks => exact h.2 c List.mem_cons_self
  | comment =>
    obtain ⟨body, heq, -⟩ := h
    cases heq
    rfl
  | fixed lexeme kind =>
    rw [Accepts] at h
    rw [Pattern.starts, ← h]
    exact beq_self_eq_true _

/-- Patterns whose texts start with different characters can be tried in any order. -/
theorem before_of_starts (hne : ¬ pattern.Accepts [])
    (h : ∀ c, pattern.starts c = true → other.starts c = false) : pattern.Before other := by
  intro front run hfront hrun hprefix
  cases front with
  | nil => exact hne hfront
  | cons c front =>
    obtain ⟨back, rfl⟩ := hprefix
    have hother := hrun.starts
    rw [h c hfront.starts] at hother
    cases hother

end Pattern

/-- Signs and comments start with other characters than words, numbers and blanks do. -/
theorem starts_comment_or_sign {pattern : Pattern} (hmem : pattern ∈ .comment :: signs.map .ofSign)
    {c : Char} (hc : isWordPart c = true ∨ Text.isBlank c = true) :
    pattern.starts c = false := by
  have hheads : (signHeads.all fun c => !(isWordPart c || Text.isBlank c)) = true := by decide
  apply Bool.eq_false_iff.2
  intro hstarts
  have hhead : c ∈ signHeads := by
    rcases List.mem_cons.1 hmem with rfl | hmem
    · rw [beq_iff_eq.1 hstarts]
      decide
    · obtain ⟨sign, hsign, rfl⟩ := List.mem_map.1 hmem
      exact List.mem_filterMap.2 ⟨sign, hsign, beq_iff_eq.1 hstarts⟩
  have hnot := List.all_eq_true.1 hheads c hhead
  rw [Bool.or_eq_true _ _ |>.mpr hc] at hnot
  cases hnot

/-- A comment starts with two slashes, and no sign does. -/
theorem comment_before_sign {sign : String × TokenKind} (hsign : sign ∈ signs) :
    Pattern.comment.Before (.ofSign sign) := by
  have hslashes : ∀ sign ∈ signs, ¬ ['/', '/'] <+: sign.1.toList := by decide
  rintro front run ⟨body, rfl, -⟩ hrun hprefix
  obtain rfl : run = sign.1.toList := hrun
  exact hslashes sign hsign (List.IsPrefix.trans ⟨body, rfl⟩ hprefix)

/-- No sign is the front of a later one. -/
theorem pairwise_signs : (signs.map .ofSign).Pairwise Pattern.Before := by
  have hsigns : signs.Pairwise fun sign later => ¬ sign.1.toList <+: later.1.toList := by decide
  rw [List.pairwise_map]
  refine hsigns.imp fun {sign later} hnot front run hfront hrun hprefix => hnot ?_
  obtain rfl : front = sign.1.toList := hfront
  obtain rfl : run = later.1.toList := hrun
  exact hprefix

/-- No text of a pattern of the language is the front of a text of a later one. -/
theorem patterns_ordered : patterns.Pairwise Pattern.Before := by
  have hword : ¬ Pattern.word.Accepts [] := by
    rintro ⟨⟨c, rest, hnil, -⟩, -⟩
    cases hnil
  have hnumber : ¬ Pattern.number.Accepts [] := fun h => h.1 rfl
  have hblanks : ¬ Pattern.blanks.Accepts [] := fun h => h.1 rfl
  have hdigit {c : Char} (hc : c.isDigit = true) : Text.isBlank c = false :=
    isBlank_of_isWordPart (isWordPart_of_isDigit hc)
  rw [patterns_eq]
  refine .cons (fun other hother => Pattern.before_of_starts hword fun c hc => ?_)
    (.cons (fun other hother => Pattern.before_of_starts hnumber fun c hc => ?_)
      (.cons (fun other hother => Pattern.before_of_starts hblanks fun c hc => ?_)
        (.cons (fun other hother => ?_) pairwise_signs)))
  · have hpart := isWordPart_of_isWordStart hc
    rcases List.mem_cons.1 hother with rfl | hother
    · apply Bool.eq_false_iff.2
      intro hdigit
      have hstart : isWordStart c = true := hc
      rw [isWordStart_of_isDigit hdigit] at hstart
      cases hstart
    · rcases List.mem_cons.1 hother with rfl | hother
      · exact isBlank_of_isWordPart hpart
      · exact starts_comment_or_sign hother (.inl hpart)
  · rcases List.mem_cons.1 hother with rfl | hother
    · exact hdigit hc
    · exact starts_comment_or_sign hother (.inl (isWordPart_of_isDigit hc))
  · exact starts_comment_or_sign hother (.inr hc)
  · obtain ⟨sign, hsign, rfl⟩ := List.mem_map.1 hother
    exact comment_before_sign hsign

/-- The lexeme at the front of a text is the longest match there. -/
theorem lexeme?_eq_some_iff {text : List Char} {lexeme : Lexeme} :
    lexeme? text = some lexeme ↔
      LongestMatch patterns text lexeme.pattern lexeme.text ∧ lexeme.text ++ lexeme.rest = text :=
  firstMatch?_eq_some_iff patterns_ordered

/-- There is no lexeme where no pattern stands for any front of the text. -/
theorem lexeme?_eq_none_iff {text : List Char} :
    lexeme? text = none ↔
      ∀ pattern ∈ patterns, ∀ front, front <+: text → ¬ pattern.Accepts front := by
  constructor
  · intro h pattern hmem front hfront
    have hnone := List.findSome?_eq_none_iff.1 h pattern hmem
    exact Pattern.not_accepts_of_split? (Option.map_eq_none_iff.1 hnone) hfront
  · intro h
    cases hlexeme : lexeme? text with
    | none => rfl
    | some lexeme =>
      have hmatch := (lexeme?_eq_some_iff.1 hlexeme).1
      exact absurd hmatch.accepts (h _ hmatch.member _ hmatch.isFront)

/-! ## Scanning by the longest match -/

/-- The kind of token that a text of a pattern makes. A word is a keyword exactly if all of it is
a reserved word. -/
inductive Pattern.Makes : Pattern → List Char → TokenKind → Prop where
  | keyword {text : List Char} {kind : TokenKind} (h : (String.ofList text, kind) ∈ reservedWords) :
    Makes .word text kind
  | identifier {text : List Char} (h : String.ofList text ∉ reservedWords.map Prod.fst) :
    Makes .word text .identifier
  | integer (text : List Char) : Makes .number text .integer
  | sign (lexeme : String) (kind : TokenKind) (text : List Char) :
    Makes (.fixed lexeme kind) text kind

/-- What a scanner hands out at a byte of a file in front of some text, and at which byte it leaves
off, if at any place it takes the longest match of all patterns. -/
inductive LongestScan (file : String) : List Char → Nat → Token → Nat → Prop where
  | finish (offset : Nat) :
    LongestScan file [] offset ⟨.endOfInput, "EOF", .ofBytes offset 0 file⟩ offset
  | illegal {c : Char} {rest : List Char} {offset : Nat}
    (hnone : ∀ pattern ∈ patterns, ∀ front, front <+: c :: rest → ¬ pattern.Accepts front) :
    LongestScan file (c :: rest) offset
      ⟨.illegal, String.ofList [c], .ofBytes offset c.utf8Size file⟩ (offset + c.utf8Size)
  | skip {pattern : Pattern} {front back : List Char} {offset last : Nat} {token : Token}
    (hmatch : LongestMatch patterns (front ++ back) pattern front)
    (hskip : pattern = .blanks ∨ pattern = .comment)
    (hback : LongestScan file back (offset + Text.byteLength front) token last) :
    LongestScan file (front ++ back) offset token last
  | token {pattern : Pattern} {front back : List Char} {offset : Nat} {kind : TokenKind}
    (hmatch : LongestMatch patterns (front ++ back) pattern front)
    (hkind : pattern.Makes front kind) :
    LongestScan file (front ++ back) offset
      ⟨kind, String.ofList front, .ofBytes offset (Text.byteLength front) file⟩
      (offset + Text.byteLength front)

theorem Pattern.kind?_eq_none_iff {pattern : Pattern} {text : String} :
    pattern.kind? text = none ↔ pattern = .blanks ∨ pattern = .comment := by
  cases pattern <;> simp [kind?]

theorem Pattern.kind?_eq_some_iff {pattern : Pattern} {text : List Char} {kind : TokenKind} :
    pattern.kind? (String.ofList text) = some kind ↔ pattern.Makes text kind := by
  constructor
  · intro h
    cases pattern with
    | word =>
      cases hword : reserved? (String.ofList text) with
      | some keyword =>
        rw [kind?, hword] at h
        cases h
        exact .keyword (reserved?_eq_some_iff.1 hword)
      | none =>
        rw [kind?, hword] at h
        cases h
        refine .identifier fun hmem => ?_
        obtain ⟨⟨word, keyword⟩, hmem, rfl⟩ := List.mem_map.1 hmem
        rw [reserved?_eq_some_iff.2 hmem] at hword
        cases hword
    | number => cases h; exact .integer text
    | blanks => cases h
    | comment => cases h
    | fixed lexeme kind => cases h; exact .sign lexeme kind text
  · intro h
    cases h with
    | keyword hmem => rw [kind?, reserved?_eq_some_iff.2 hmem]; rfl
    | identifier hnot =>
      cases hword : reserved? (String.ofList text) with
      | some keyword =>
        exact absurd (List.mem_map_of_mem (reserved?_eq_some_iff.1 hword)) hnot
      | none => rw [kind?, hword]; rfl
    | integer => rfl
    | sign => rfl

namespace Scanner

/-- A scanner hands out what is found by the longest match. -/
theorem longestScan_next (scanner : Scanner) :
    LongestScan scanner.file scanner.rest scanner.offset (next scanner).1
      (next scanner).2.offset := by
  induction scanner using piece_induction with
  | finish scanner hrest =>
    rw [next_of_rest_nil hrest, hrest]
    exact .finish scanner.offset
  | step scanner piece hpiece ih =>
    rcases piece?_cases hpiece with ⟨c, rest, hrest, hlexeme, rfl⟩ | ⟨lexeme, hlexeme, rfl⟩
    · rw [next_of_piece hpiece rfl, hrest]
      exact .illegal (lexeme?_eq_none_iff.1 (hrest ▸ hlexeme))
    · obtain ⟨hmatch, happend⟩ := lexeme?_eq_some_iff.1 hlexeme
      rw [← happend] at hmatch ⊢
      cases hkind : lexeme.pattern.kind? (String.ofList lexeme.text) with
      | some kind =>
        rw [next_of_piece hpiece hkind]
        exact .token hmatch (Pattern.kind?_eq_some_iff.1 hkind)
      | none =>
        rw [next_of_skipped hpiece hkind]
        exact .skip hmatch (Pattern.kind?_eq_none_iff.1 hkind) ih

/-- By the longest match no other token is found than the one that a scanner hands out. -/
theorem next_of_longestScan {file : String} {rest : List Char} {offset last : Nat} {token : Token}
    (h : LongestScan file rest offset token last) :
    (next ⟨rest, offset, file⟩).1 = token ∧ (next ⟨rest, offset, file⟩).2.offset = last := by
  induction h with
  | finish offset => exact ⟨rfl, rfl⟩
  | @illegal c rest offset hnone =>
    rw [next_eq]
    simp only [lexeme?_eq_none_iff.2 hnone]
    exact ⟨rfl, rfl⟩
  | @skip pattern front back offset last token hmatch hskip hback ih =>
    have hlexeme : lexeme? (front ++ back) = some ⟨pattern, front, back⟩ :=
      lexeme?_eq_some_iff.2 ⟨hmatch, rfl⟩
    rw [next_of_skipped (piece?_of_lexeme hlexeme) (Pattern.kind?_eq_none_iff.2 hskip)]
    exact ih
  | @token pattern front back offset kind hmatch hkind =>
    have hlexeme : lexeme? (front ++ back) = some ⟨pattern, front, back⟩ :=
      lexeme?_eq_some_iff.2 ⟨hmatch, rfl⟩
    rw [next_of_piece (piece?_of_lexeme hlexeme) (Pattern.kind?_eq_some_iff.2 hkind)]
    exact ⟨rfl, rfl⟩

end Scanner

/-! ## Cursors -/

namespace Cursor

variable {cursor : Cursor} {rest : String}

theorem scanner?_of_remainder? (h : cursor.remainder? = some rest) :
    cursor.scanner? = some ⟨rest.toList, cursor.offset, cursor.file⟩ := by
  obtain ⟨back, hdrop, rfl⟩ := Option.map_eq_some_iff.1 h
  rw [String.toList_ofList, scanner?]
  cases hend : cursor.atEnd with
  | true =>
    -- at the end of the source there is nothing left to drop
    obtain ⟨front, hsource, hfront⟩ := Text.dropBytes?_eq_some_iff.1 hdrop
    have hle : Text.byteLength cursor.source.toList ≤ cursor.offset := of_decide_eq_true hend
    rw [hsource, Text.byteLength_append, hfront] at hle
    have hlength := Text.length_le_byteLength back
    obtain rfl : back = [] := List.length_eq_zero_iff.1 (by omega)
    rfl
  | false => rw [hdrop]; rfl

/--
Wherever a cursor stands between two characters of a source, it hands out the token that is found by
the longest match of all patterns, in whatever order they are listed, and moves behind it.
-/
theorem next?_iff_longest (h : cursor.remainder? = some rest) (token : Token) (after : Cursor) :
    cursor.next? = some (token, after) ↔
      ∃ last, LongestScan cursor.file rest.toList cursor.offset token last ∧
        after = { cursor with offset := last } := by
  rw [next?, scanner?_of_remainder? h, Option.map_some, Option.some_inj, Prod.mk.injEq]
  constructor
  · rintro ⟨rfl, rfl⟩
    exact ⟨_, Scanner.longestScan_next ⟨rest.toList, cursor.offset, cursor.file⟩, rfl⟩
  · rintro ⟨last, hscan, rfl⟩
    obtain ⟨htoken, hlast⟩ := Scanner.next_of_longestScan hscan
    exact ⟨htoken, by rw [hlast]⟩

/-- Behind a character of two bytes, three equals signs are a pair and one more, and a keyword that
goes on is a name. -/
theorem next?_iff_longest_sample :
    (Cursor.mk "é===lets" 2 "shell").remainder? = some "===lets" ∧
    LongestScan "shell" "===lets".toList 2 ⟨.equals, "==", .ofBytes 2 2 "shell"⟩ 4 := by
  have hremainder : (Cursor.mk "é===lets" 2 "shell").remainder? = some "===lets" := by
    decide +kernel
  refine ⟨hremainder, ?_⟩
  obtain ⟨last, hscan, hafter⟩ := (next?_iff_longest hremainder
    ⟨.equals, "==", .ofBytes 2 2 "shell"⟩ ⟨"é===lets", 4, "shell"⟩).1 (by decide +kernel)
  obtain rfl : 4 = last := congrArg Cursor.offset hafter
  exact hscan

end Cursor

end Monkey
