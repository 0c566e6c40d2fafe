import Monkey.Proofs.Layout

/-!
# Scanning across a line break

A line break keeps apart what is in front of it and what is behind it: the tokens of two sources
with a line break between them are the tokens of the first one and then those of the second one,
which stand as much later as the first one and the line break are long (`tokenize_newline`).

No lexeme but a run of blanks goes on over a line break (`Pattern.split?_newline`), so in front of
it there are the same pieces as at the end of a source (`piece?_newline`). A run of blanks makes no
token, wherever it is cut (`Scanner.drain_behind_blanks`).
-/

namespace Monkey

open TokenSource

/-! ## Pieces in front of a line break -/

section Newline

variable {p : Char → Bool} (a b : List Char)

theorem takeWhile_newline (h : p '\n' = false) :
    (a ++ '\n' :: b).takeWhile p = a.takeWhile p := by
  induction a with
  | nil => simp [List.takeWhile, h]
  | cons c a ih => simp only [List.cons_append, List.takeWhile_cons, ih]

theorem dropWhile_newline (h : p '\n' = false) :
    (a ++ '\n' :: b).dropWhile p = a.dropWhile p ++ '\n' :: b := by
  induction a with
  | nil => simp [List.dropWhile, h]
  | cons c a ih =>
    simp only [List.cons_append, List.dropWhile_cons, ih]
    split <;> rfl

theorem splitRun?_newline (h : p '\n' = false) :
    splitRun? p (a ++ '\n' :: b) =
      (splitRun? p a).map (Prod.map id (· ++ '\n' :: b)) := by
  rw [splitRun?, splitRun?, takeWhile_newline a b h, dropWhile_newline a b h]
  cases a.takeWhile p <;> rfl

theorem stripFront?_newline {front : List Char} (h : '\n' ∉ front) :
    stripFront? front (a ++ '\n' :: b) =
      (stripFront? front a).map (· ++ '\n' :: b) := by
  induction front generalizing a with
  | nil => rfl
  | cons c front ih =>
    obtain ⟨hc, hfront⟩ := not_or.1 (mt List.mem_cons.2 h)
    cases a with
    | nil => exact if_neg (Ne.symm hc)
    | cons d a =>
      simp only [List.cons_append, stripFront?, ih a hfront]
      split <;> rfl

/-- A comment is what follows two slashes on their line. -/
theorem Pattern.split?_comment (text : List Char) :
    Pattern.comment.split? text = (stripFront? ['/', '/'] text).map fun rest =>
      ('/' :: '/' :: rest.takeWhile (· != '\n'), rest.dropWhile (· != '\n')) := by
  cases hfront : stripFront? ['/', '/'] text with
  | some rest =>
    obtain rfl := stripFront?_eq_some_iff.1 hfront
    rfl
  | none =>
    unfold Pattern.split?
    split
    all_goals first | contradiction | rfl

/-- The characters of a lexeme that is always the same. -/
def Pattern.letters : Pattern → List Char
  | fixed lexeme _ => lexeme.toList
  | _ => []

/-- No pattern but the blanks matches over a line break. -/
theorem Pattern.split?_newline {pattern : Pattern} (hmem : pattern ∈ patterns)
    (hblanks : pattern ≠ .blanks) :
    pattern.split? (a ++ '\n' :: b) =
      (pattern.split? a).map (Prod.map id (· ++ '\n' :: b)) := by
  cases pattern with
  | word =>
    cases a with
    | nil => rfl
    | cons c a =>
      simp only [List.cons_append, Pattern.split?,
        takeWhile_newline (p := isWordPart) a b rfl, dropWhile_newline (p := isWordPart) a b rfl]
      split <;> rfl
  | number => exact splitRun?_newline a b rfl
  | blanks => exact absurd rfl hblanks
  | comment =>
    have hslashes : '\n' ∉ ['/', '/'] := by decide
    rw [split?_comment, split?_comment, stripFront?_newline a b hslashes, Option.map_map,
      Option.map_map]
    congr 1
    funext rest
    simp only [Function.comp_apply, takeWhile_newline (p := (· != '\n')) rest b rfl,
      dropWhile_newline (p := (· != '\n')) rest b rfl]
    rfl
  | fixed lexeme kind =>
    have hletters : ∀ pattern ∈ patterns, '\n' ∉ pattern.letters := by decide
    have hlexeme : '\n' ∉ lexeme.toList := hletters _ hmem
    simp only [Pattern.split?, stripFront?_newline a b hlexeme, Option.map_map]
    rfl

/-- A run of blanks that stops in front of the line break is the same without it. -/
theorem Pattern.split?_blanks_newline (h : ¬ ∀ c ∈ a, Text.isBlank c = true) :
    Pattern.blanks.split? (a ++ '\n' :: b) =
      (Pattern.blanks.split? a).map (Prod.map id (· ++ '\n' :: b)) := by
  have hlength : ¬ (a.takeWhile Text.isBlank).length = a.length := fun hlength =>
    h (List.takeWhile_eq_self_iff.1 (List.IsPrefix.eq_of_length (List.takeWhile_prefix _) hlength))
  have hdrop : ¬ (a.dropWhile Text.isBlank).isEmpty = true := by
    rw [List.isEmpty_iff]
    exact fun hdrop => h (List.dropWhile_eq_nil_iff.1 hdrop)
  simp only [Pattern.split?, splitRun?, List.takeWhile_append, if_neg hlength,
    List.dropWhile_append, if_neg hdrop]
  cases a.takeWhile Text.isBlank <;> rfl

/-- The first match goes on to be the first if every pattern of the table matches the same. -/
theorem firstMatch?_append {table : List Pattern} {text back : List Char}
    (h : ∀ pattern ∈ table, pattern.split? (text ++ back) =
      (pattern.split? text).map (Prod.map id (· ++ back))) :
    firstMatch? table (text ++ back) =
      (firstMatch? table text).map fun lexeme =>
        { lexeme with rest := lexeme.rest ++ back } := by
  induction table with
  | nil => rfl
  | cons pattern table ih =>
    obtain ⟨hpattern, htable⟩ := List.forall_mem_cons.1 h
    cases hsplit : pattern.split? text with
    | none =>
      rw [hsplit] at hpattern
      rw [firstMatch?_of_none hpattern, firstMatch?_of_none hsplit, ih htable]
    | some split =>
      rw [hsplit] at hpattern
      rw [firstMatch?_of_some hpattern, firstMatch?_of_some hsplit]
      rfl

/-- A line break that a run of blanks does not reach changes nothing but the rest. -/
theorem piece?_newline {piece : Piece} (h : ¬ ∀ c ∈ a, Text.isBlank c = true)
    (hpiece : piece? a = some piece) :
    piece? (a ++ '\n' :: b) = some { piece with rest := piece.rest ++ '\n' :: b } := by
  have hlexeme : lexeme? (a ++ '\n' :: b) =
      (lexeme? a).map fun lexeme => { lexeme with rest := lexeme.rest ++ '\n' :: b } := by
    refine firstMatch?_append fun pattern hmem => ?_
    by_cases hblanks : pattern = .blanks
    · subst hblanks
      exact Pattern.split?_blanks_newline a b h
    · exact Pattern.split?_newline a b hmem hblanks
  rcases piece?_cases hpiece with ⟨c, rest, rfl, hnone, rfl⟩ | ⟨lexeme, hsome, rfl⟩
  · rw [hnone] at hlexeme
    rw [List.cons_append] at hlexeme ⊢
    rw [piece?, hlexeme]
    rfl
  · rw [hsome] at hlexeme
    exact piece?_of_lexeme hlexeme

end Newline

/-! ## Scans in front of and behind a line break -/

namespace Scanner

theorem content_of_piece {scanner : Scanner} {piece : Piece}
    (h : piece? scanner.rest = some piece) :
    content scanner = (piece.kind.map (scanner.tokenOf · piece.text)).toList ++
      content (scanner.moveBy piece.text piece.rest) := by
  rw [content, drain_of_piece h, List.filter_append]
  cases hkind : piece.kind with
  | none => rfl
  | some kind =>
    have hmore : kind ≠ .endOfInput := fun hend =>
      piece?_kind_ne_end h (hkind.trans (congrArg some hend))
    have htoken : [scanner.tokenOf kind piece.text].filter (·.kind ≠ .endOfInput) =
        [scanner.tokenOf kind piece.text] := List.filter_cons_of_pos (decide_eq_true hmore)
    rw [Option.map_some, Option.toList_some, htoken]
    rfl

theorem moveBy_nil (scanner : Scanner) : scanner.moveBy [] scanner.rest = scanner := rfl

/-- Blanks make no tokens, also if they are not all that there are. -/
theorem drain_behind_blanks {scanner : Scanner} {run back : List Char}
    (hrest : scanner.rest = run ++ back) (hrun : ∀ c ∈ run, Text.isBlank c = true) :
    drain scanner = drain (scanner.moveBy run back) := by
  have hall (scanner : Scanner) : drain scanner =
      drain (scanner.moveBy (scanner.rest.takeWhile Text.isBlank)
        (scanner.rest.dropWhile Text.isBlank)) := by
    by_cases hnil : scanner.rest.takeWhile Text.isBlank = []
    · have hdrop : scanner.rest.dropWhile Text.isBlank = scanner.rest := by
        have := List.takeWhile_append_dropWhile (p := Text.isBlank) (l := scanner.rest)
        rwa [hnil] at this
      rw [hnil, hdrop, moveBy_nil]
    · have hlexeme := lexeme?_blanks hnil (fun c hc => List.mem_takeWhile_imp hc)
        (breaks_dropWhile Text.isBlank scanner.rest)
      rw [List.takeWhile_append_dropWhile] at hlexeme
      exact drain_of_piece (piece?_of_lexeme hlexeme)
  rw [hall scanner, hall (scanner.moveBy run back), moveBy_moveBy, hrest, moveBy_rest,
    List.takeWhile_append_of_pos hrun, List.dropWhile_append_of_pos hrun]

/-- In front of a line break a scan hands out what it does at the end of a source, and then it
hands out what is behind the line break. -/
theorem drain_newline (scanner : Scanner) (b : List Char) :
    drain { scanner with rest := scanner.rest ++ '\n' :: b } =
      content scanner ++
        drain (⟨b, scanner.offset + Text.byteLength scanner.rest + 1, scanner.file⟩ : Scanner) := by
  -- blanks up to the line break go on over it
  have hblank (scanner : Scanner) (hall : ∀ c ∈ scanner.rest, Text.isBlank c = true) :
      drain { scanner with rest := scanner.rest ++ '\n' :: b } =
        content scanner ++
          drain (⟨b, scanner.offset + Text.byteLength scanner.rest + 1, scanner.file⟩ :
            Scanner) := by
    have hnone : content scanner = [] := by
      rw [content, drain_behind_blanks (List.append_nil scanner.rest).symm hall,
        drain_of_rest_nil rfl]
      rfl
    have hrun : ∀ c ∈ scanner.rest ++ ['\n'], Text.isBlank c = true :=
      List.forall_mem_append.2 ⟨hall, List.forall_mem_singleton.2 rfl⟩
    have hrest : scanner.rest ++ '\n' :: b = (scanner.rest ++ ['\n']) ++ b :=
      List.append_cons scanner.rest '\n' b
    rw [hnone, drain_behind_blanks hrest hrun]
    simp only [moveBy, Text.byteLength_append, ← Nat.add_assoc]
    rfl
  induction scanner using piece_induction with
  | finish scanner hnil => exact hblank scanner (by simp [hnil])
  | step scanner piece hpiece ih =>
    by_cases hall : ∀ c ∈ scanner.rest, Text.isBlank c = true
    · exact hblank scanner hall
    · have hlength : Text.byteLength scanner.rest =
          Text.byteLength piece.text + Text.byteLength piece.rest := by
        rw [← piece?_append hpiece, Text.byteLength_append]
      rw [drain_of_piece (piece?_newline scanner.rest b hall hpiece), content_of_piece hpiece,
        List.append_assoc, hlength, ← Nat.add_assoc]
      exact congrArg _ ih

end Scanner

/-! ## Later tokens -/

/-- A place a number of bytes later in the same file. -/
def Position.later (bytes : Nat) (place : Position) : Position :=
  .ofBytes (place.offset.toNat + bytes) place.file

/-- The same token a number of bytes later. -/
def Token.later (bytes : Nat) (token : Token) : Token :=
  { token with span := ⟨token.span.start.later bytes, token.span.stop.later bytes⟩ }

theorem Position.later_ofBytes (bytes offset : Nat) (file : String) :
    (ofBytes offset file).later bytes = ofBytes (offset + bytes) file := by
  have hoffset : (offset.toUInt32.toNat + bytes).toUInt32 = (offset + bytes).toUInt32 := by
    rw [← UInt32.toNat_inj]
    simp
  simp only [later, ofBytes, hoffset]

theorem Position.later_offset {place : Position} {bytes : Nat}
    (h : place.offset.toNat + bytes < 4294967296) :
    (place.later bytes).offset.toNat = place.offset.toNat + bytes := by
  rw [later, ofBytes_offset_toNat, Nat.mod_eq_of_lt h]

namespace Scanner

/-- A scanner in front of the same text a number of bytes later. -/
def later (bytes : Nat) (scanner : Scanner) : Scanner :=
  { scanner with offset := scanner.offset + bytes }

theorem later_tokenOf (bytes : Nat) (scanner : Scanner) (kind : TokenKind) (text : List Char) :
    (scanner.later bytes).tokenOf kind text = (scanner.tokenOf kind text).later bytes := by
  simp only [tokenOf, later, Token.later, Span.ofBytes, Position.later_ofBytes,
    Nat.add_right_comm]

theorem later_endToken (bytes : Nat) (scanner : Scanner) :
    (scanner.later bytes).endToken = scanner.endToken.later bytes := by
  simp only [endToken, later, Token.later, Span.ofBytes, Position.later_ofBytes, Nat.add_zero]

theorem later_moveBy (bytes : Nat) (scanner : Scanner) (text rest : List Char) :
    (scanner.later bytes).moveBy text rest = (scanner.moveBy text rest).later bytes := by
  simp only [moveBy, later, Nat.add_right_comm]

/-- The same text further behind is scanned into the same tokens further behind. -/
theorem drain_later (bytes : Nat) (scanner : Scanner) :
    drain (scanner.later bytes) = (drain scanner).map (Token.later bytes) := by
  induction scanner using piece_induction with
  | finish scanner hnil =>
    have hnil' : (scanner.later bytes).rest = [] := hnil
    rw [drain_of_rest_nil hnil', drain_of_rest_nil hnil, later_endToken]
    rfl
  | step scanner piece hpiece ih =>
    have hpiece' : piece? (scanner.later bytes).rest = some piece := hpiece
    rw [drain_of_piece hpiece', drain_of_piece hpiece, List.map_append, ← ih, later_moveBy]
    cases piece.kind with
    | none => rfl
    | some kind =>
      rw [Option.map_some, Option.map_some, later_tokenOf]
      rfl

end Scanner

/--
The tokens of two sources with a line break between them, together less than 4 GiB: those of the
first one without its end of input, whatever it ends with, and then those of the second one, all of
whose offsets are as much greater as the first one and the line break are long.
-/
theorem tokenize_newline (a b : String) (file : Option String)
    (h : Text.byteLength a.toList + 1 + Text.byteLength b.toList < 4294967296) :
    tokenize (a ++ "\n" ++ b) file =
        (tokenize a file).filter (·.kind ≠ .endOfInput) ++
          (tokenize b file).map (Token.later (Text.byteLength a.toList + 1)) ∧
      ∀ token ∈ tokenize b file,
        (token.later (Text.byteLength a.toList + 1)).offset =
            token.offset + (Text.byteLength a.toList + 1) ∧
          (token.later (Text.byteLength a.toList + 1)).finish =
            token.finish + (Text.byteLength a.toList + 1) := by
  constructor
  · have hrest : (a ++ "\n" ++ b).toList = a.toList ++ '\n' :: b.toList := by
      simp [String.toList_append]
    have hdrain := Scanner.drain_newline (Scanner.ofSource a file) b.toList
    have hlater := Scanner.drain_later (Text.byteLength a.toList + 1) (Scanner.ofSource b file)
    simp only [Scanner.later, Scanner.ofSource, Nat.zero_add] at hdrain hlater
    rw [tokenize, tokenize, tokenize, Scanner.ofSource, hrest, Scanner.ofSource, hdrain, hlater]
    rfl
  · intro token hmem
    have hsmall : Text.byteLength b.toList < 4294967296 := by omega
    obtain ⟨tokens, eof, htokens, hlayout⟩ :=
      Scanner.layout_drain hsmall (Scanner.ofSource b file) ⟨[], rfl, rfl, rfl⟩
    have hinside : token.offset ≤ token.finish ∧ token.finish ≤ Text.byteLength b.toList := by
      rw [tokenize, htokens] at hmem
      rcases List.mem_append.1 hmem with hmem | hmem
      · obtain ⟨-, hlt, hle⟩ := hlayout.inside token hmem
        exact ⟨Nat.le_of_lt hlt, hle⟩
      · rw [List.mem_singleton.1 hmem, hlayout.eof_span.1, hlayout.eof_span.2]
        exact ⟨Nat.le_refl _, Nat.le_refl _⟩
    unfold Token.offset Token.finish at *
    exact ⟨Position.later_offset (by omega), Position.later_offset (by omega)⟩

/-- A comment at the end of the first source, and a character of three bytes in the second one. -/
theorem tokenize_newline_sample :
    tokenize ("a1 // \u00e9" ++ "\n" ++ "\u20ac=") none =
        (tokenize "a1 // \u00e9" none).filter (·.kind ≠ .endOfInput) ++
          (tokenize "\u20ac=" none).map (Token.later 9) ∧
      (tokenize ("a1 // \u00e9" ++ "\n" ++ "\u20ac=") none).map
        (fun token => (token.kind, token.text, token.offset, token.finish)) =
          [(.identifier, "a1", 0, 2), (.illegal, "\u20ac", 9, 12), (.assign, "=", 12, 13),
            (.endOfInput, "EOF", 13, 13)] := by
  refine ⟨(tokenize_newline _ _ none ?_).1, ?_⟩
  · decide +kernel
  · decide +kernel

end Monkey
