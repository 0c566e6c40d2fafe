import Mathlib.Data.List.TakeWhile
import Monkey.Proofs.Order
import Monkey.Proofs.Scanning

/-!
# Where the tokens of a source stand

Nothing of a source is lost when it is scanned, and every token knows where it stands: its text is
what stands between the bytes of its span, the spans come one after the other, and what is between
them is blanks and comments (`tokenize_layout`).

A scanner takes its source piece by piece (`piece?`): a lexeme, or one character that starts none.
A piece makes a token, or it separates two, and the scanner goes on behind it
(`Scanner.drain_of_piece`). So what holds of a scan is proved by going back over its pieces
(`Scanner.piece_induction`).
-/

namespace Monkey

open TokenSource

/-! ## Pieces -/

/-- What a text starts with: the kind of the token that it makes, if it makes one, its characters,
and what follows them. -/
structure Piece where
  kind : Option TokenKind
  text : List Char
  rest : List Char

/-- The piece that a text starts with. A character that starts no lexeme is a piece of its own. -/
def piece? : List Char → Option Piece
  | [] => none
  | c :: rest =>
    match lexeme? (c :: rest) with
    | none => some ⟨some .illegal, [c], rest⟩
    | some lexeme =>
      some ⟨lexeme.pattern.kind? (String.ofList lexeme.text), lexeme.text, lexeme.rest⟩

section Pieces

variable {text : List Char} {piece : Piece}

theorem piece?_of_lexeme {lexeme : Lexeme} (h : lexeme? text = some lexeme) :
    piece? text =
      some ⟨lexeme.pattern.kind? (String.ofList lexeme.text), lexeme.text, lexeme.rest⟩ := by
  cases text with
  | nil => cases h
  | cons c rest => rw [piece?, h]

/-- A piece is a lexeme or one illegal character. -/
theorem piece?_cases (h : piece? text = some piece) :
    (∃ c rest, text = c :: rest ∧ lexeme? text = none ∧ piece = ⟨some .illegal, [c], rest⟩) ∨
    ∃ lexeme, lexeme? text = some lexeme ∧
      piece = ⟨lexeme.pattern.kind? (String.ofList lexeme.text), lexeme.text, lexeme.rest⟩ := by
  cases text with
  | nil => cases h
  | cons c rest =>
    cases hlexeme : lexeme? (c :: rest) with
    | none =>
      rw [piece?, hlexeme] at h
      exact .inl ⟨c, rest, rfl, rfl, (Option.some.inj h).symm⟩
    | some lexeme =>
      rw [piece?_of_lexeme hlexeme] at h
      exact .inr ⟨lexeme, rfl, (Option.some.inj h).symm⟩

theorem exists_piece (h : text ≠ []) : ∃ piece, piece? text = some piece := by
  obtain ⟨c, rest, rfl⟩ := List.exists_cons_of_ne_nil h
  cases hlexeme : lexeme? (c :: rest) with
  | none => exact ⟨⟨some .illegal, [c], rest⟩, by rw [piece?, hlexeme]⟩
  | some lexeme => exact ⟨_, piece?_of_lexeme hlexeme⟩

theorem piece?_append (h : piece? text = some piece) : piece.text ++ piece.rest = text := by
  rcases piece?_cases h with ⟨c, rest, rfl, -, rfl⟩ | ⟨lexeme, hlexeme, rfl⟩
  · rfl
  · exact lexeme?_append hlexeme

theorem piece?_ne_nil (h : piece? text = some piece) : piece.text ≠ [] := by
  rcases piece?_cases h with ⟨c, rest, rfl, -, rfl⟩ | ⟨lexeme, hlexeme, rfl⟩
  · exact List.cons_ne_nil _ _
  · exact lexeme?_ne_nil hlexeme

theorem piece?_rest_length (h : piece? text = some piece) :
    piece.rest.length < text.length := by
  have hpos := List.length_pos_iff.2 (piece?_ne_nil h)
  rw [← piece?_append h, List.length_append]
  omega

theorem piece?_kind_ne_end (h : piece? text = some piece) :
    piece.kind ≠ some .endOfInput := by
  rcases piece?_cases h with ⟨c, rest, rfl, -, rfl⟩ | ⟨lexeme, hlexeme, rfl⟩
  · exact fun hkind => nomatch hkind
  · exact Pattern.kind?_ne_end (lexeme?_eq_some hlexeme).1 _

end Pieces

namespace Scanner

variable {scanner : Scanner} {piece : Piece}

/-- The lexeme in front of a scanner, found through the piece there. -/
theorem next_of_piece {kind : TokenKind} (h : piece? scanner.rest = some piece)
    (hkind : piece.kind = some kind) :
    next scanner = (scanner.tokenOf kind piece.text, scanner.moveBy piece.text piece.rest) := by
  rw [next_eq]
  rcases piece?_cases h with ⟨c, rest, hrest, hlexeme, rfl⟩ | ⟨lexeme, hlexeme, rfl⟩
  · rw [hrest] at hlexeme ⊢
    simp only [hlexeme]
    cases hkind
    rfl
  · cases hrest : scanner.rest with
    | nil => rw [hrest] at hlexeme; cases hlexeme
    | cons c rest =>
      rw [hrest] at hlexeme
      simp only at hkind
      simp only [hlexeme, hkind]

theorem next_of_skipped (h : piece? scanner.rest = some piece) (hkind : piece.kind = none) :
    next scanner = next (scanner.moveBy piece.text piece.rest) := by
  rw [next_eq]
  rcases piece?_cases h with ⟨c, rest, hrest, hlexeme, rfl⟩ | ⟨lexeme, hlexeme, rfl⟩
  · cases hkind
  · cases hrest : scanner.rest with
    | nil => rw [hrest] at hlexeme; cases hlexeme
    | cons c rest =>
      rw [hrest] at hlexeme
      simp only at hkind
      simp only [hlexeme, hkind]

/-- A scan hands out the token of the first piece, if the piece makes one, and then scans what is
behind the piece. -/
theorem drain_of_piece (h : piece? scanner.rest = some piece) :
    drain scanner = (piece.kind.map (scanner.tokenOf · piece.text)).toList ++
      drain (scanner.moveBy piece.text piece.rest) := by
  rw [drain_eq]
  cases hkind : piece.kind with
  | none =>
    rw [show TokenSource.next scanner = _ from next_of_skipped h hkind,
      drain_eq (scanner.moveBy piece.text piece.rest)]
    rfl
  | some kind =>
    have hmore : kind ≠ .endOfInput := fun hend =>
      piece?_kind_ne_end h (hkind.trans (congrArg some hend))
    rw [show TokenSource.next scanner = _ from next_of_piece h hkind]
    exact if_neg hmore

theorem drain_of_rest_nil {scanner : Scanner} (h : scanner.rest = []) :
    drain scanner = [scanner.endToken] := by
  rw [drain_eq, show TokenSource.next scanner = _ from next_of_rest_nil h]
  rfl

/-- What holds at the end of a text, and in front of a piece if it holds behind it, holds of every
scanner. -/
@[elab_as_elim]
theorem piece_induction {motive : Scanner → Prop} (scanner : Scanner)
    (finish : ∀ scanner : Scanner, scanner.rest = [] → motive scanner)
    (step : ∀ (scanner : Scanner) (piece : Piece), piece? scanner.rest = some piece →
      motive (scanner.moveBy piece.text piece.rest) → motive scanner) : motive scanner := by
  generalize hlen : scanner.rest.length = n
  induction n using Nat.strongRecOn generalizing scanner with
  | _ n ih =>
    subst hlen
    by_cases hrest : scanner.rest = []
    · exact finish scanner hrest
    · obtain ⟨piece, hpiece⟩ := exists_piece hrest
      exact step scanner piece hpiece (ih _ (piece?_rest_length hpiece) _ rfl)

end Scanner

/-! ## Gaps -/

/-- A text that separates tokens, in front of `back`: blanks, and comments from two slashes up to
the end of the line or of the source. -/
inductive IsGap : List Char → List Char → Prop where
  | nil (back : List Char) : IsGap [] back
  | blank {c : Char} {gap back : List Char} (hblank : Text.isBlank c = true)
      (hgap : IsGap gap back) : IsGap (c :: gap) back
  | comment {body gap back : List Char} (hbody : ∀ c ∈ body, c ≠ '\n')
      (hend : ∀ c ∈ (gap ++ back).head?, c = '\n') (hgap : IsGap gap back) :
      IsGap ('/' :: '/' :: (body ++ gap)) back

theorem IsGap.append {front gap back : List Char} (hfront : IsGap front (gap ++ back))
    (hgap : IsGap gap back) : IsGap (front ++ gap) back := by
  generalize hrest : gap ++ back = rest at hfront
  induction hfront with
  | nil => exact hgap
  | blank hblank _ ih => exact .blank hblank (ih hrest)
  | @comment body front rest hbody hend _ ih =>
    subst hrest
    rw [List.cons_append, List.cons_append, List.append_assoc]
    rw [← List.append_assoc] at hend
    exact .comment hbody hend (ih rfl)

theorem isGap_of_all_isBlank {gap : List Char} (back : List Char)
    (h : ∀ c ∈ gap, Text.isBlank c = true) : IsGap gap back := by
  induction gap with
  | nil => exact .nil back
  | cons c gap ih =>
    exact .blank (h c List.mem_cons_self) (ih fun d hd => h d (List.mem_cons_of_mem c hd))

theorem isGap_comment {text : List Char} :
    IsGap ('/' :: '/' :: text.takeWhile (· != '\n')) (text.dropWhile (· != '\n')) := by
  rw [← List.append_nil (text.takeWhile _)]
  refine .comment (fun c hc => ?_) (fun c hc => ?_) (.nil _)
  · simpa using List.mem_takeWhile_imp hc
  · simpa using breaks_dropWhile (· != '\n') text c hc

/-- A piece that makes no token is a gap. -/
theorem isGap_of_piece {text : List Char} {piece : Piece} (h : piece? text = some piece)
    (hkind : piece.kind = none) : IsGap piece.text piece.rest := by
  rcases piece?_cases h with ⟨c, rest, -, -, rfl⟩ | ⟨⟨pattern, front, rest⟩, hlexeme, rfl⟩
  · cases hkind
  · have hsplit := (lexeme?_eq_some hlexeme).2
    simp only at hkind hsplit ⊢
    cases pattern with
    | word => cases hkind
    | number => cases hkind
    | fixed => cases hkind
    | blanks =>
      obtain ⟨-, rfl, rfl⟩ := splitRun?_eq_some_iff.1 hsplit
      exact isGap_of_all_isBlank _ fun c hc => List.mem_takeWhile_imp hc
    | comment =>
      unfold Pattern.split? at hsplit
      split at hsplit
      all_goals first | contradiction | skip
      cases hsplit
      exact isGap_comment

/-! ## Layouts -/

/-- Where a token stops, in bytes. -/
def Token.finish (token : Token) : Nat :=
  token.span.stop.offset.toNat

/-- What stands in a source between two bytes is `text`, and what follows it is `back`. -/
def Text.Stands (source : List Char) (start stop : Nat) (text back : List Char) : Prop :=
  ∃ front, source = front ++ (text ++ back) ∧ Text.byteLength front = start ∧
    start + Text.byteLength text = stop

/-- The bytes between which the gaps are: in front of the first token, between each token and the
next one, and behind the last token. -/
def gapBounds : Nat → List Token → Nat → List (Nat × Nat)
  | start, [], stop => [(start, stop)]
  | start, token :: tokens, stop => (start, token.offset) :: gapBounds token.finish tokens stop

/-- From byte `start` on, a source is made of tokens and the gaps between them, and nothing else. -/
structure Layout (source : List Char) (file : String) (start : Nat) (tokens : List Token)
    (eof : Token) : Prop where
  /-- no token is an end of input, except for the one behind all of them -/
  noEnd : NoEnd tokens
  eof_kind : eof.kind = .endOfInput
  eof_text : eof.text = "EOF"
  /-- the end of input is an empty span at the end of the source -/
  eof_span : eof.offset = Text.byteLength source ∧ eof.finish = Text.byteLength source
  files : ∀ token ∈ tokens ++ [eof], token.span.start.file = file ∧ token.span.stop.file = file
  /-- the spans are not empty and inside the source -/
  inside : ∀ token ∈ tokens, start ≤ token.offset ∧ token.offset < token.finish ∧
    token.finish ≤ Text.byteLength source
  /-- the spans come one after the other -/
  disjoint : tokens.Pairwise fun token later => token.finish ≤ later.offset
  /-- the text of a token is what its span holds -/
  texts : ∀ token ∈ tokens, ∃ back,
    Text.Stands source token.offset token.finish token.text.toList back
  /-- what is between the spans are gaps -/
  gaps : ∀ bounds ∈ gapBounds start tokens (Text.byteLength source), ∃ gap back,
    Text.Stands source bounds.1 bounds.2 gap back ∧ IsGap gap back

namespace Text.Stands

variable {source text back text' back' : List Char} {start stop stop' : Nat}

theorem le_length (h : Text.Stands source start stop text back) :
    start ≤ stop ∧ stop ≤ Text.byteLength source := by
  obtain ⟨front, rfl, rfl, rfl⟩ := h
  simp only [Text.byteLength_append]
  omega

/-- The next piece of a text that is cut further stands behind what was cut off first. -/
theorem behind (h : Text.Stands source start stop text (text' ++ back)) :
    Text.Stands source stop (stop + Text.byteLength text') text' back := by
  obtain ⟨front, hsource, hfront, hstop⟩ := h
  refine ⟨front ++ text, ?_, ?_, rfl⟩
  · rw [hsource, List.append_assoc]
  · rw [Text.byteLength_append, hfront, hstop]

theorem rest (h : Text.Stands source start stop text back) :
    Text.Stands source stop stop [] back := by
  rw [← List.nil_append back] at h
  exact h.behind

/-- What follows a number of bytes of a source is one text only. -/
theorem rest_unique (h : Text.Stands source start stop text back)
    (h' : Text.Stands source start stop' text' back') : text ++ back = text' ++ back' := by
  obtain ⟨front, hsource, hfront, -⟩ := h
  obtain ⟨front', hsource', hfront', -⟩ := h'
  have hdrop := Text.dropBytes?_eq_some_iff.2 ⟨front, hsource, hfront⟩
  have hdrop' := Text.dropBytes?_eq_some_iff.2 ⟨front', hsource', hfront'⟩
  exact Option.some.inj (hdrop.symm.trans hdrop')

/-- Two neighbours together stand where the first starts and the second stops. -/
theorem join (h : Text.Stands source start stop text (text' ++ back))
    (h' : Text.Stands source stop stop' text' back) :
    Text.Stands source start stop' (text ++ text') back := by
  obtain ⟨front, hsource, hfront, hstop⟩ := h
  obtain ⟨-, -, -, hstop'⟩ := h'
  refine ⟨front, ?_, hfront, ?_⟩
  · rw [hsource, List.append_assoc]
  · rw [Text.byteLength_append, ← Nat.add_assoc, hstop, hstop']

end Text.Stands

/-- Where the first gap starts says nothing about where it stops, nor about the other gaps. -/
theorem exists_gapBounds (tokens : List Token) (last : Nat) :
    ∃ first more, ∀ start, gapBounds start tokens last = (start, first) :: more := by
  cases tokens with
  | nil => exact ⟨last, [], fun _ => rfl⟩
  | cons token tokens => exact ⟨token.offset, _, fun _ => rfl⟩

namespace Layout

variable {source text rest : List Char} {file : String} {start stop : Nat} {token : Token}
  {tokens : List Token} {eof : Token}

/-- A gap in front of the tokens becomes part of their first gap. -/
theorem widen (h : Layout source file stop tokens eof)
    (htext : Text.Stands source start stop text rest) (hgap : IsGap text rest) :
    Layout source file start tokens eof := by
  refine { h with inside := fun t ht => ?_, gaps := ?_ }
  · obtain ⟨hstart, hinside⟩ := h.inside t ht
    exact ⟨Nat.le_trans htext.le_length.1 hstart, hinside⟩
  · obtain ⟨first, more, hbounds⟩ := exists_gapBounds tokens (Text.byteLength source)
    have hgaps := h.gaps
    rw [hbounds, List.forall_mem_cons] at hgaps ⊢
    obtain ⟨⟨gap, back, hstands, hgap'⟩, hmore⟩ := hgaps
    obtain rfl : rest = gap ++ back := by
      simpa using htext.rest.rest_unique hstands
    exact ⟨⟨text ++ gap, back, htext.join hstands, hgap.append hgap'⟩, hmore⟩

/-- A token goes in front of the tokens that start behind it. -/
theorem cons (h : Layout source file token.finish tokens eof)
    (htext : Text.Stands source token.offset token.finish token.text.toList rest)
    (hne : token.text.toList ≠ []) (hkind : token.kind ≠ .endOfInput)
    (hfile : token.span.start.file = file ∧ token.span.stop.file = file) :
    Layout source file token.offset (token :: tokens) eof := by
  have hpos : token.offset < token.finish := by
    obtain ⟨-, -, -, hfinish⟩ := htext
    have := Text.byteLength_pos hne
    omega
  refine { h with
    noEnd := noEnd_cons.2 ⟨hkind, h.noEnd⟩
    files := List.forall_mem_cons.2 ⟨hfile, h.files⟩
    inside := List.forall_mem_cons.2 ⟨⟨Nat.le_refl _, hpos, htext.le_length.2⟩, fun t ht => ?_⟩
    disjoint := List.pairwise_cons.2 ⟨fun t ht => (h.inside t ht).1, h.disjoint⟩
    texts := List.forall_mem_cons.2 ⟨⟨rest, htext⟩, h.texts⟩
    gaps := List.forall_mem_cons.2 ⟨⟨[], token.text.toList ++ rest, ?_, .nil _⟩, h.gaps⟩ }
  · obtain ⟨hstart, hinside⟩ := h.inside t ht
    exact ⟨Nat.le_trans (Nat.le_of_lt hpos) hstart, hinside⟩
  · obtain ⟨front, hsource, hfront, -⟩ := htext
    exact ⟨front, hsource, hfront, rfl⟩

end Layout

namespace Scanner

theorem offset_tokenOf {scanner : Scanner} {text : List Char} (kind : TokenKind)
    (h : scanner.offset + Text.byteLength text < 4294967296) :
    (scanner.tokenOf kind text).offset = scanner.offset ∧
      (scanner.tokenOf kind text).finish = scanner.offset + Text.byteLength text := by
  simp only [Token.offset, Token.finish, tokenOf, Span.ofBytes, Position.ofBytes_offset_toNat]
  exact ⟨Nat.mod_eq_of_lt (by omega), Nat.mod_eq_of_lt h⟩

theorem offset_endToken {scanner : Scanner} (h : scanner.offset < 4294967296) :
    scanner.endToken.offset = scanner.offset ∧ scanner.endToken.finish = scanner.offset := by
  simp only [Token.offset, Token.finish, endToken, Span.ofBytes, Position.ofBytes_offset_toNat]
  exact ⟨Nat.mod_eq_of_lt h, Nat.mod_eq_of_lt h⟩

/-- What a scanner in the middle of a source hands out is laid out from there on. -/
theorem layout_drain {source : List Char} (hsmall : Text.byteLength source < 4294967296)
    (scanner : Scanner)
    (hrest : Text.Stands source scanner.offset scanner.offset [] scanner.rest) :
    ∃ tokens eof, drain scanner = tokens ++ [eof] ∧
      Layout source scanner.file scanner.offset tokens eof := by
  induction scanner using piece_induction with
  | finish scanner hnil =>
    rw [hnil] at hrest
    have hlength : scanner.offset = Text.byteLength source := by
      obtain ⟨front, hsource, hfront, -⟩ := hrest
      rw [hsource, List.append_nil, List.append_nil, hfront]
    obtain ⟨hoffset, hfinish⟩ := offset_endToken (hlength ▸ hsmall)
    refine ⟨[], scanner.endToken, drain_of_rest_nil hnil, ?_⟩
    exact {
      noEnd := noEnd_nil
      eof_kind := rfl
      eof_text := rfl
      eof_span := ⟨hoffset.trans hlength, hfinish.trans hlength⟩
      files := List.forall_mem_singleton.2 ⟨rfl, rfl⟩
      inside := fun t ht => nomatch ht
      disjoint := .nil
      texts := fun t ht => nomatch ht
      gaps := List.forall_mem_singleton.2 ⟨[], [], by rwa [← hlength], .nil _⟩ }
  | step scanner piece hpiece ih =>
    -- the piece stands where the scanner is, and the scanner goes on where it stops
    rw [← piece?_append hpiece] at hrest
    have htext := hrest.behind
    have hstop := Nat.lt_of_le_of_lt htext.le_length.2 hsmall
    obtain ⟨tokens, eof, hdrain, hlayout⟩ := ih htext.rest
    rw [drain_of_piece hpiece, hdrain]
    cases hkind : piece.kind with
    | none => exact ⟨tokens, eof, rfl, hlayout.widen htext (isGap_of_piece hpiece hkind)⟩
    | some kind =>
      obtain ⟨hoffset, hfinish⟩ := offset_tokenOf kind hstop
      refine ⟨scanner.tokenOf kind piece.text :: tokens, eof, rfl, ?_⟩
      rw [← hoffset]
      have htoken : (scanner.tokenOf kind piece.text).text.toList = piece.text :=
        String.toList_ofList
      refine Layout.cons ?_ (by rwa [hoffset, hfinish, htoken]) ?_ ?_ ⟨rfl, rfl⟩
      · rw [hfinish]
        exact hlayout
      · rw [htoken]
        exact piece?_ne_nil hpiece
      · exact fun hend => piece?_kind_ne_end hpiece (hkind.trans (congrArg some hend))

end Scanner

/--
Scanning loses nothing, and spans are exact: a source of less than 4 GiB is scanned into tokens and
one end of input, which stand where their spans say, and what is between them is blanks and
comments.
-/
theorem tokenize_layout (source : String) (file : Option String)
    (h : Text.byteLength source.toList < 4294967296) :
    ∃ tokens eof, tokenize source file = tokens ++ [eof] ∧
      Layout source.toList (file.getD "shell") 0 tokens eof :=
  Scanner.layout_drain h (Scanner.ofSource source file) ⟨[], rfl, rfl, rfl⟩

/-- A comment and a blank of two bytes each, and an illegal character of three. -/
theorem tokenize_layout_sample :
    (tokenize " let // é=
=€;" none).map
      (fun token => (token.kind, token.text, token.offset, token.finish)) =
        [(.letWord, "let", 2, 5), (.assign, "=", 13, 14), (.illegal, "€", 14, 17),
          (.semicolon, ";", 17, 18), (.endOfInput, "EOF", 18, 18)] ∧
    ∃ tokens eof, tokenize " let // é=
=€;" none = tokens ++ [eof] ∧
      Layout " let // é=
=€;".toList "shell" 0 tokens eof := by
  refine ⟨by decide +kernel, tokenize_layout _ none ?_⟩
  decide +kernel

end Monkey
