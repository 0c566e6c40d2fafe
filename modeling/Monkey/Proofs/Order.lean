import Monkey.Proofs.Invariant
import Monkey.Proofs.Upcoming

/-!
# Diagnostics come in order

What a parse of a source records is in the order of the source, and not much of it is at one place:
that a token was not the expected one may be followed by one more diagnostic at this token, and then
the token is passed. Only at the end of input more can come together, one for each block that was
not closed and one for the statement around them (`diagnostics_ordered`).

The proof follows the place of the parser. Between two tokens, all that was recorded leaves room for
what is recorded next (`Diagnostic.LeavesRoom`). At the end of input nothing is passed any more, so
there it is counted: the diagnostics at the end, the blocks around the parser and the opening braces
still ahead are together no more than the opening braces of the source, and one more only between
statements (`Parser.Between`).
-/

namespace Monkey

open ParserM TokenSource

/-! ## Places -/

/-- Where a token starts, in bytes. -/
def Token.offset (token : Token) : Nat :=
  token.span.start.offset.toNat

/-- Where a diagnostic is placed, in bytes. -/
def Diagnostic.offset (diagnostic : Diagnostic) : Nat :=
  diagnostic.position.offset.toNat

/-- Whether a token was found where another one was expected. -/
def Diagnostic.isUnexpected (diagnostic : Diagnostic) : Bool :=
  match diagnostic.cause with
  | .unexpectedToken _ _ => true
  | _ => false

/-- One diagnostic may come before another: it is placed before it, or at the same place and only
says that the token there was not the expected one; at the end of input any may come before any. -/
def Diagnostic.ComesBefore (last : Nat) (d d' : Diagnostic) : Prop :=
  d.offset < d'.offset ∨
    d.offset = d'.offset ∧ (d'.offset = last ∨ d.isUnexpected = true ∧ d'.isUnexpected = false)

/-- A diagnostic leaves room for one more at a place, other than that the token there is not the
expected one. -/
def Diagnostic.LeavesRoom (last place : Nat) (d : Diagnostic) : Prop :=
  d.offset < place ∨ d.offset = place ∧ (place = last ∨ d.isUnexpected = true)

theorem Diagnostic.LeavesRoom.le {last place : Nat} {d : Diagnostic}
    (h : d.LeavesRoom last place) : d.offset ≤ place := by
  rcases h with hlt | ⟨heq, -⟩
  · exact Nat.le_of_lt hlt
  · exact Nat.le_of_eq heq

theorem Diagnostic.LeavesRoom.comesBefore {last : Nat} {d d' : Diagnostic}
    (h : d.LeavesRoom last d'.offset) (hd' : d'.isUnexpected = false) : d.ComesBefore last d' := by
  rcases h with hlt | ⟨heq, hlast | hunexpected⟩
  · exact .inl hlt
  · exact .inr ⟨heq, .inl hlast⟩
  · exact .inr ⟨heq, .inr ⟨hunexpected, hd'⟩⟩

/-- The number of opening braces. -/
def braces (tokens : List Token) : Nat :=
  tokens.countP (·.kind = .openCurly)

theorem braces_tail_le (tokens : List Token) : braces tokens.tail ≤ braces tokens :=
  (List.tail_sublist tokens).countP_le

/-! ## Parsers in order -/

variable {σ : Type} [TokenSource σ]

/-- The number of diagnostics at the end of input. -/
def Parser.atEnd (eof : Token) (parser : Parser σ) : Nat :=
  parser.count (·.offset = eof.offset)

/-- A parser of the language in front of tokens whose places increase, with diagnostics in order. -/
structure Parser.Sorted (eof : Token) (p : Parser σ) (tokens : List Token) : Prop where
  tables : p.tables = .standard p.options
  shows : p.Shows tokens eof
  increasing : (tokens ++ [eof]).Pairwise fun t t' => t.offset < t'.offset
  ordered : p.diagnostics.toList.Pairwise (Diagnostic.ComesBefore eof.offset)

/-- Nothing was made of the current token yet, on some level of blocks. -/
structure Parser.Facing (eof : Token) (total level : Nat) (p : Parser σ) (tokens : List Token) :
    Prop extends p.Sorted eof tokens where
  room : ∀ d ∈ p.diagnostics.toList, d.LeavesRoom eof.offset p.current.offset
  spare : p.atEnd eof + braces tokens + level ≤ total

/-- The current token is taken. -/
structure Parser.Taken (eof : Token) (total level : Nat) (p : Parser σ) (tokens : List Token) :
    Prop extends p.Sorted eof tokens where
  upTo : ∀ d ∈ p.diagnostics.toList, d.offset ≤ p.current.offset
  spare : p.atEnd eof + braces tokens + level ≤ total

/-- The parser is between two statements: at the end of input there may be one diagnostic more. -/
structure Parser.Between (eof : Token) (total level : Nat) (p : Parser σ) (tokens : List Token) :
    Prop extends p.Sorted eof tokens where
  room : ∀ d ∈ p.diagnostics.toList, d.LeavesRoom eof.offset p.current.offset
  spare : tokens ≠ [] → p.atEnd eof + braces tokens + level ≤ total
  last : p.atEnd eof + level ≤ total + 1

section Moves

variable {eof : Token} {total level : Nat} {p p' : Parser σ} {tokens : List Token}

/-! ## Nesting and the log make no difference -/

namespace Parser

theorem Sorted.of_view (h : p.Sorted eof tokens) (hview : p'.view = p.view) :
    p'.Sorted eof tokens := by
  simp only [view, Prod.mk.injEq] at hview
  obtain ⟨hwindow, htables, hoptions, hdiagnostics⟩ := hview
  refine ⟨?_, h.shows.same_window hwindow, h.increasing, ?_⟩
  · rw [htables, hoptions, h.tables]
  · rw [hdiagnostics]
    exact h.ordered

omit [TokenSource σ] in
/-- What was recorded, relative to the current token and to the end. -/
theorem recorded_of_view (hview : p'.view = p.view) :
    p'.current = p.current ∧ p'.diagnostics = p.diagnostics ∧ p'.atEnd eof = p.atEnd eof := by
  have hdiagnostics : p'.diagnostics = p.diagnostics := congrArg (·.2.2.2) hview
  refine ⟨congrArg (·.1.1) hview, hdiagnostics, ?_⟩
  unfold atEnd count
  rw [hdiagnostics]

theorem Facing.of_view (h : p.Facing eof total level tokens) (hview : p'.view = p.view) :
    p'.Facing eof total level tokens := by
  obtain ⟨hcurrent, hdiagnostics, hatEnd⟩ := recorded_of_view hview
  refine ⟨h.toSorted.of_view hview, ?_, ?_⟩
  · rw [hdiagnostics, hcurrent]
    exact h.room
  · rw [hatEnd]
    exact h.spare

theorem Taken.of_view (h : p.Taken eof total level tokens) (hview : p'.view = p.view) :
    p'.Taken eof total level tokens := by
  obtain ⟨hcurrent, hdiagnostics, hatEnd⟩ := recorded_of_view hview
  refine ⟨h.toSorted.of_view hview, ?_, ?_⟩
  · rw [hdiagnostics, hcurrent]
    exact h.upTo
  · rw [hatEnd]
    exact h.spare

theorem Between.of_view (h : p.Between eof total level tokens) (hview : p'.view = p.view) :
    p'.Between eof total level tokens := by
  obtain ⟨hcurrent, hdiagnostics, hatEnd⟩ := recorded_of_view hview
  refine ⟨h.toSorted.of_view hview, ?_, ?_, ?_⟩
  · rw [hdiagnostics, hcurrent]
    exact h.room
  · rw [hatEnd]
    exact h.spare
  · rw [hatEnd]
    exact h.last

end Parser

/-! ## From place to place -/

namespace Parser.Sorted

theorem advance (h : p.Sorted eof tokens) : p.advance.Sorted eof tokens.tail := by
  refine ⟨h.tables, h.shows.advance, ?_, h.ordered⟩
  cases tokens with
  | nil => exact h.increasing
  | cons token tokens => exact (List.pairwise_cons.1 h.increasing).2

/-- The current token is before the next one and before the end, or it is the end. -/
theorem current_cases (h : p.Sorted eof tokens) :
    (tokens ≠ [] ∧ p.current.offset < p.peek.offset ∧ p.current.offset < eof.offset) ∨
      (tokens = [] ∧ p.current.offset = eof.offset ∧ p.peek.offset = eof.offset) := by
  rw [h.shows.current_eq, h.shows.peek_eq]
  cases tokens with
  | nil => exact .inr ⟨rfl, rfl, rfl⟩
  | cons token tokens =>
    have hfirst := (List.pairwise_cons.1 h.increasing).1
    refine .inl ⟨List.cons_ne_nil _ _, ?_, hfirst eof (by simp)⟩
    cases tokens with
    | nil => exact hfirst eof (by simp)
    | cons next tokens => exact hfirst next (by simp)

/-- What is placed up to the current token is placed before the next one, or both at the end. -/
theorem before_peek (h : p.Sorted eof tokens) {place : Nat} (hle : place ≤ p.current.offset) :
    place < p.peek.offset ∨ place = p.peek.offset ∧ p.peek.offset = eof.offset := by
  rcases h.current_cases with ⟨-, hless, -⟩ | ⟨-, hcurrent, hpeek⟩
  · exact .inl (Nat.lt_of_le_of_lt hle hless)
  · rw [hcurrent, ← hpeek] at hle
    exact (Nat.lt_or_eq_of_le hle).imp id fun heq => ⟨heq, hpeek⟩

theorem record (h : p.Sorted eof tokens) {cause : Cause} {place : Position}
    (hbefore : ∀ d ∈ p.diagnostics.toList, d.ComesBefore eof.offset ⟨cause, place⟩) :
    (p.record cause place).Sorted eof tokens := by
  refine ⟨h.tables, h.shows.same_window rfl, h.increasing, ?_⟩
  simp only [Parser.record, Array.toList_push, List.pairwise_append]
  refine ⟨h.ordered, List.pairwise_singleton _ _, fun d hd d' hd' => ?_⟩
  rw [List.mem_singleton.1 hd']
  exact hbefore d hd

end Parser.Sorted

omit [TokenSource σ] in
theorem Parser.atEnd_record (eof : Token) (p : Parser σ) (cause : Cause) (place : Position) :
    (p.record cause place).atEnd eof =
      p.atEnd eof + if place.offset.toNat = eof.offset then 1 else 0 := by
  unfold atEnd
  rw [count_record]
  by_cases h : place.offset.toNat = eof.offset <;> simp [Diagnostic.offset, h]

namespace Parser

theorem Facing.taken (h : p.Facing eof total level tokens) : p.Taken eof total level tokens :=
  { h with upTo := fun d hd => (h.room d hd).le }

theorem Facing.between (h : p.Facing eof total level tokens) : p.Between eof total level tokens :=
  { h with
    spare := fun _ => h.spare
    last := by have hspare := h.spare; omega }

theorem Between.facing (h : p.Between eof total level tokens)
    (hmore : p.current.kind ≠ .endOfInput) : p.Facing eof total level tokens :=
  { h with spare := h.spare (mt h.shows.current_kind_eq_end.2 hmore) }

/-- Behind a block, the level is the one around it. -/
theorem Between.taken_of_block (h : p.Between eof total (level + 1) tokens) :
    p.Taken eof total level tokens := by
  refine { h with upTo := fun d hd => (h.room d hd).le, spare := ?_ }
  by_cases hnil : tokens = []
  · have hlast := h.last
    rw [hnil]
    change _ + 0 + level ≤ total
    omega
  · have hspare := h.spare hnil
    omega

theorem Taken.advance (h : p.Taken eof total level tokens) :
    p.advance.Facing eof total level tokens.tail := by
  refine { h.toSorted.advance with room := fun d hd => ?_, spare := ?_ }
  · change d.LeavesRoom eof.offset p.peek.offset
    exact (h.before_peek (h.upTo d hd)).imp_right (And.imp_right .inl)
  · have hbraces := braces_tail_le tokens
    have hspare := h.spare
    change p.atEnd eof + braces tokens.tail + level ≤ total
    omega

/-- Behind an opening brace, the brace is one level more. -/
theorem Taken.enter (h : p.Taken eof total level tokens) (hopen : p.current.kind = .openCurly) :
    p.advance.Between eof total (level + 1) tokens.tail := by
  have hfacing := h.advance
  have hspare := h.spare
  have hbraces : braces tokens = braces tokens.tail + 1 := by
    have hcurrent := h.shows.current_eq
    cases tokens with
    | nil => rw [hcurrent, List.getD_nil, h.shows.isEnd] at hopen; cases hopen
    | cons token tokens =>
      rw [hcurrent] at hopen
      exact List.countP_cons_of_pos (by simpa using hopen)
  refine { hfacing with spare := fun _ => ?_, last := ?_ }
  · change p.atEnd eof + braces tokens.tail + (level + 1) ≤ total
    omega
  · change p.atEnd eof + (level + 1) ≤ total + 1
    omega

/-- Once something is recorded in order, at the current token or that the next one is not the
expected one, the parser may go on at the next token. -/
theorem Taken.record (h : p.Taken eof total level tokens) {cause : Cause} {place : Position}
    (hbefore : ∀ d ∈ p.diagnostics.toList, d.ComesBefore eof.offset ⟨cause, place⟩)
    (hplace : place.offset.toNat ≤ p.current.offset ∨
      place.offset.toNat = p.peek.offset ∧ Diagnostic.isUnexpected ⟨cause, place⟩ = true) :
    (p.record cause place).advance.Between eof total level tokens.tail := by
  have hspare := h.spare
  have hatEnd := p.atEnd_record eof cause place
  refine { (h.toSorted.record hbefore).advance with
    room := fun d hd => ?_, spare := fun htail => ?_, last := ?_ }
  · change d.LeavesRoom eof.offset p.peek.offset
    simp only [Parser.advance, Parser.record, Array.toList_push, List.mem_append,
      List.mem_singleton] at hd
    rcases hd with hd | rfl
    · exact h.advance.room d hd
    · rcases hplace with hle | ⟨hpeek, hunexpected⟩
      · exact (h.before_peek hle).imp_right (And.imp_right .inl)
      · exact .inr ⟨hpeek, .inr hunexpected⟩
  · have hless : place.offset.toNat < eof.offset := by
      have hnext : p.peek.offset < eof.offset := by
        rcases h.toSorted.advance.current_cases with ⟨-, -, hless⟩ | ⟨hnil, -⟩
        · exact hless
        · exact absurd hnil htail
      rcases h.current_cases with ⟨-, hcurrent, -⟩ | ⟨hnil, -⟩
      · rcases hplace with hle | ⟨hpeek, -⟩ <;> omega
      · rw [hnil] at htail
        exact absurd rfl htail
    have hbraces := braces_tail_le tokens
    rw [if_neg (Nat.ne_of_lt hless)] at hatEnd
    change (p.record cause place).atEnd eof + braces tokens.tail + level ≤ total
    omega
  · change (p.record cause place).atEnd eof + level ≤ total + 1
    split at hatEnd <;> omega

/-- A token that is not the expected one is recorded, and stays ahead. -/
theorem Taken.unexpected (h : p.Taken eof total level tokens) (expected found : TokenKind) :
    (p.record (.unexpectedToken expected found) p.peek.span.start).advance.Between eof total level
      tokens.tail := by
  refine h.record (fun d hd => ?_) (.inr ⟨rfl, rfl⟩)
  exact (h.before_peek (h.upTo d hd)).imp_right (And.imp_right .inl)

/-- What is wrong with the current token itself is recorded once. -/
theorem Facing.wrong (h : p.Facing eof total level tokens) {cause : Cause}
    (hcause : Diagnostic.isUnexpected ⟨cause, p.current.span.start⟩ = false) :
    (p.record cause p.current.span.start).advance.Between eof total level tokens.tail :=
  h.taken.record (fun d hd => (h.room d hd).comesBefore hcause) (.inl (Nat.le_refl _))

/-- An integer that is out of range is recorded, and counts as an operand. -/
theorem Facing.integer (h : p.Facing eof total level tokens)
    (hmore : p.current.kind ≠ .endOfInput) (literal : String) :
    (p.record (.integerOutOfRange literal) p.current.span.start).Taken eof total level tokens := by
  have hbefore : ∀ d ∈ p.diagnostics.toList,
      d.ComesBefore eof.offset ⟨.integerOutOfRange literal, p.current.span.start⟩ :=
    fun d hd => (h.room d hd).comesBefore rfl
  refine { h.toSorted.record hbefore with upTo := fun d hd => ?_, spare := ?_ }
  · simp only [Parser.record, Array.toList_push, List.mem_append, List.mem_singleton] at hd
    rcases hd with hd | rfl
    · exact (h.room d hd).le
    · exact Nat.le_refl _
  · have hless : p.current.offset ≠ eof.offset := by
      rcases h.current_cases with ⟨-, -, hless⟩ | ⟨hnil, -⟩
      · exact Nat.ne_of_lt hless
      · exact absurd (h.shows.current_kind_eq_end.2 hnil) hmore
    have hatEnd := p.atEnd_record eof (.integerOutOfRange literal) p.current.span.start
    rw [if_neg (show ¬p.current.span.start.offset.toNat = eof.offset from hless)] at hatEnd
    rw [hatEnd]
    exact h.spare

end Parser

end Moves

/-! ## Whole readings -/

/-- What is known of a parser at a stage of reading. -/
def Parser.Orderly (eof : Token) (total : Nat) (stage : Stage) (level : Nat) (p : Parser σ) :
    Prop :=
  match stage with
  | .between => ∃ tokens, p.Between eof total level tokens
  | .facing => ∃ tokens, p.Facing eof total level tokens
  | .taken => ∃ tokens, p.Taken eof total level tokens
  | .operand => ∃ tokens, p.Taken eof total level tokens
  | .failed => ∃ tokens, p.advance.Between eof total level tokens

namespace Parser.Orderly

variable {eof : Token} {total level level' : Nat} {stage stage' : Stage} {p p' : Parser σ}

/-- Nesting and the log make no difference. -/
theorem of_view (h : p.Orderly eof total stage level) (hview : p'.view = p.view) :
    p'.Orderly eof total stage level := by
  cases stage with
  | between => exact h.imp fun _ hbetween => hbetween.of_view hview
  | facing => exact h.imp fun _ hfacing => hfacing.of_view hview
  | taken => exact h.imp fun _ htaken => htaken.of_view hview
  | operand => exact h.imp fun _ htaken => htaken.of_view hview
  | failed => exact h.imp fun _ hbetween => hbetween.of_view (view_advance hview)

theorem turn (h : p.Orderly eof total stage level)
    (hturns : p.Turns (· + 1) stage level stage' level') : p.Orderly eof total stage' level' := by
  cases hturns with
  | start hmore => exact h.imp fun _ hbetween => hbetween.facing hmore
  | take => exact h.imp fun _ hfacing => hfacing.taken
  | leave => exact h
  | operand _ => exact h.imp fun _ hfacing => hfacing.taken
  | block _ => exact h.imp fun _ hbetween => hbetween.taken_of_block

theorem advance (h : p.Orderly eof total stage level)
    (hmoves : p.Moves (· + 1) stage level stage' level') :
    p.advance.Orderly eof total stage' level' := by
  cases hmoves with
  | advance _ =>
    obtain ⟨tokens, htaken⟩ := h
    exact ⟨tokens.tail, htaken.advance⟩
  | next =>
    obtain ⟨tokens, htaken⟩ := h
    exact ⟨tokens.tail, htaken.advance.between⟩
  | enter hopen =>
    obtain ⟨tokens, htaken⟩ := h
    exact ⟨tokens.tail, htaken.enter hopen⟩
  | recover => exact h
  | skip hsemicolon =>
    obtain ⟨tokens, hbetween⟩ := h
    have hmore : p.advance.current.kind ≠ .endOfInput := by
      rw [show p.advance.current.kind = _ from hsemicolon]
      decide
    exact ⟨tokens.tail, (hbetween.facing hmore).taken.advance.between⟩

theorem record (h : p.Orderly eof total stage level) {cause : Cause} {token : Token}
    (hfinds : p.Finds stage cause token stage') :
    (p.record cause token.span.start).Orderly eof total stage' level := by
  cases hfinds with
  | unexpected _ =>
    obtain ⟨tokens, htaken⟩ := h
    exact ⟨tokens.tail, htaken.unexpected _ _⟩
  | missing _ =>
    obtain ⟨tokens, hfacing⟩ := h
    exact ⟨tokens.tail, hfacing.wrong rfl⟩
  | tooDeep =>
    obtain ⟨tokens, hfacing⟩ := h
    exact ⟨tokens.tail, hfacing.wrong rfl⟩
  | outOfRange hkind _ =>
    obtain ⟨tokens, hfacing⟩ := h
    exact ⟨tokens, hfacing.integer (by rw [hkind]; decide) _⟩

end Parser.Orderly

/-- Diagnostics stay in order through every step. -/
def ordering (eof : Token) (total : Nat) : Invariant (.same σ) Nat where
  values := .same
  inner level := level + 1
  holds stage level p := p.Orderly eof total stage level
  tables := by
    rintro level p ⟨tokens, htaken⟩
    exact htaken.tables
  turn h hturns := h.turn hturns
  advance h hmoves := h.advance hmoves
  record h hfinds := h.record hfinds
  of_view h hview := h.of_view hview

/-! ## Sources -/

theorem Text.byteLength_pos {text : List Char} (h : text ≠ []) : 0 < byteLength text :=
  Nat.lt_of_lt_of_le (List.length_pos_iff.2 h) (length_le_byteLength text)

/-- The tokens of a source of less than 4 GiB start one behind the other. -/
theorem Scanner.pairwise_drain (scanner : Scanner)
    (h : scanner.offset + Text.byteLength scanner.rest < 4294967296) :
    (∀ token ∈ drain scanner, scanner.offset ≤ token.offset) ∧
      (drain scanner).Pairwise fun t t' => t.offset < t'.offset := by
  generalize hlen : remaining scanner = n
  induction n using Nat.strongRecOn generalizing scanner with
  | _ n ih =>
    subst hlen
    rw [drain_eq]
    rcases Scanner.next_cases scanner with
      hend | ⟨gap, text, rest, kind, hrest, htext, hkind, hnext⟩
    · rw [show TokenSource.next scanner = _ from hend]
      have hoffset : (scanner.moveBy scanner.rest []).endToken.offset =
          scanner.offset + Text.byteLength scanner.rest := by
        simp only [Token.offset, Scanner.endToken, Span.ofBytes, Position.ofBytes_offset_toNat,
          Scanner.moveBy_offset]
        exact Nat.mod_eq_of_lt h
      refine ⟨fun token hmem => ?_, List.pairwise_singleton _ _⟩
      rw [List.mem_singleton.1 hmem, hoffset]
      exact Nat.le_add_right _ _
    · have hpos := Text.byteLength_pos htext
      have hmore : (TokenSource.next scanner).1.kind ≠ .endOfInput := by
        rw [show TokenSource.next scanner = _ from hnext]
        exact hkind
      have hless : remaining (TokenSource.next scanner).2 < remaining scanner :=
        remaining_next_lt scanner
          (Nat.pos_of_ne_zero fun hnil => hmore (kind_next_of_drained scanner hnil))
      rw [if_neg hmore]
      rw [hrest, Text.byteLength_append, Text.byteLength_append] at h
      rw [show TokenSource.next scanner = _ from hnext] at hless ⊢
      obtain ⟨hall, hpairwise⟩ := ih _ hless (scanner.moveBy (gap ++ text) rest)
        (by simp only [Scanner.moveBy_offset, Scanner.moveBy_rest, Text.byteLength_append]; omega)
        rfl
      have hoffset : ((scanner.moveBy gap (text ++ rest)).tokenOf kind text).offset =
          scanner.offset + Text.byteLength gap := by
        simp only [Token.offset, Scanner.tokenOf, Span.ofBytes, Position.ofBytes_offset_toNat,
          Scanner.moveBy_offset]
        exact Nat.mod_eq_of_lt (by omega)
      have hbehind : ∀ token ∈ drain (scanner.moveBy (gap ++ text) rest),
          scanner.offset + Text.byteLength gap < token.offset := by
        intro token hmem
        have hle := hall token hmem
        rw [Scanner.moveBy_offset, Text.byteLength_append] at hle
        omega
      constructor
      · intro token hmem
        rcases List.mem_cons.1 hmem with rfl | hmem
        · rw [hoffset]
          exact Nat.le_add_right _ _
        · exact Nat.le_trans (Nat.le_add_right _ _) (Nat.le_of_lt (hbehind token hmem))
      · refine List.pairwise_cons.2 ⟨fun token hmem => ?_, hpairwise⟩
        rw [hoffset]
        exact hbehind token hmem

/-- Of diagnostics that leave room for each other at one place, there is at most one of each
sort. -/
theorem countP_le_one_of_pairwise {sort : Diagnostic → Bool} {ds : List Diagnostic}
    (h : ds.Pairwise fun d d' => sort d = true ∧ sort d' = false) :
    ds.countP sort ≤ 1 ∧ ds.countP (!sort ·) ≤ 1 := by
  match ds with
  | [] => simp
  | [d] => constructor <;> exact List.countP_le_length
  | [d, d'] =>
    obtain ⟨hd, hd'⟩ := List.pairwise_pair.1 h
    simp [hd, hd']
  | d :: d' :: d'' :: ds =>
    obtain ⟨hfirst, hrest⟩ := List.pairwise_cons.1 h
    have hsort := (List.pairwise_cons.1 hrest).1 d'' List.mem_cons_self
    rw [(hfirst d' List.mem_cons_self).2] at hsort
    cases hsort.1

/-- What a parse of a source records is in order, and the diagnostics at the end of input are no
more than the opening braces and one. -/
theorem ordered_of_parseSource (source : String) (file : Option String) (options : Options)
    (h : Text.byteLength source.toList < 4294967296) :
    ∃ tokens eof, tokenize source file = tokens ++ [eof] ∧ NoEnd tokens ∧
      eof.kind = .endOfInput ∧ (tokens ++ [eof]).Pairwise (fun t t' => t.offset < t'.offset) ∧
      (parseSource source file options).diagnostics.Pairwise
        (Diagnostic.ComesBefore eof.offset) ∧
      (parseSource source file options).diagnostics.countP (·.offset = eof.offset) ≤
        braces tokens + 1 := by
  obtain ⟨tokens, last, htokens, hshows⟩ := exists_shows_scanner source file options
  have hincreasing : (tokens ++ [last.endToken]).Pairwise fun t t' => t.offset < t'.offset := by
    rw [← htokens]
    refine (Scanner.pairwise_drain (Scanner.ofSource source file) ?_).2
    exact Nat.lt_of_le_of_lt (Nat.le_of_eq (Nat.zero_add _)) h
  have hfresh : (Parser.ofSupply (Scanner.ofSource source file) options).Between last.endToken
      (braces tokens) 0 tokens :=
    { tables := rfl
      shows := hshows
      increasing := hincreasing
      ordered := .nil
      room := fun _ hd => by cases hd
      spare := fun _ => Nat.le_of_eq (Nat.zero_add _)
      last := Nat.zero_le _ }
  have hstart : (Parser.ofSupply (Scanner.ofSource source file) options).Orderly last.endToken
      (braces tokens) .between 0 := ⟨tokens, hfresh⟩
  obtain ⟨p, ⟨left, hlast⟩, -, hdiagnostics, -⟩ :=
    (ordering last.endToken (braces tokens)).parse rfl hstart
  refine ⟨tokens, last.endToken, htokens, hshows.noEnd, hshows.isEnd, hincreasing, ?_, ?_⟩
  · rw [parseSource, hdiagnostics]
    exact hlast.ordered
  · rw [parseSource, hdiagnostics]
    exact hlast.last

/-- Of diagnostics in order, those at one place before the end: at most one that the token there is
not the expected one, and then at most one more. -/
theorem pairwise_filter_position {last : Nat} {ds : List Diagnostic}
    (h : ds.Pairwise (Diagnostic.ComesBefore last)) {place : Position}
    (hplace : place.offset.toNat ≠ last) :
    (ds.filter (·.position = place)).Pairwise
      fun d d' => d.isUnexpected = true ∧ d'.isUnexpected = false := by
  refine (h.filter _).imp_of_mem fun {d d'} hd hd' hbefore => ?_
  have hposition : d.position = place := by simpa using (List.mem_filter.1 hd).2
  have hposition' : d'.position = place := by simpa using (List.mem_filter.1 hd').2
  unfold Diagnostic.ComesBefore Diagnostic.offset at hbefore
  rw [hposition, hposition'] at hbefore
  rcases hbefore with hlt | ⟨-, hlast | hsorts⟩
  · exact absurd hlt (Nat.lt_irrefl _)
  · exact absurd hlast hplace
  · exact hsorts

/--
What a parse of a source of less than 4 GiB records is in the order of the source. At each token
there is at most one diagnostic that it was not the expected one, and then at most one of another
sort. At the end of input there are at most as many as there are opening braces, and one more.
-/
theorem diagnostics_ordered (source : String) (file : Option String) (options : Options)
    (h : Text.byteLength source.toList < 4294967296) :
    (parseSource source file options).diagnostics.Pairwise
      (fun d d' => d.position.offset ≤ d'.position.offset) ∧
    (∀ token ∈ tokenize source file, token.kind ≠ .endOfInput →
      ((parseSource source file options).diagnostics.filter
        (·.position = token.span.start)).countP Diagnostic.isUnexpected ≤ 1 ∧
      ((parseSource source file options).diagnostics.filter
        (·.position = token.span.start)).countP (!·.isUnexpected) ≤ 1 ∧
      ((parseSource source file options).diagnostics.filter
        (·.position = token.span.start)).Pairwise
          fun d d' => d.isUnexpected = true ∧ d'.isUnexpected = false) ∧
    (∀ token ∈ tokenize source file, token.kind = .endOfInput →
      (parseSource source file options).diagnostics.countP (·.position = token.span.start) ≤
        1 + (tokenize source file).countP (·.kind = .openCurly)) := by
  obtain ⟨tokens, eof, htokens, hnoEnd, hend, hincreasing, hordered, hcount⟩ :=
    ordered_of_parseSource source file options h
  rw [htokens]
  refine ⟨hordered.imp fun {d d'} hbefore => ?_, fun token hmem hmore => ?_,
    fun token hmem hkind => ?_⟩
  · rw [UInt32.le_iff_toNat_le]
    rcases hbefore with hlt | ⟨heq, -⟩
    · exact Nat.le_of_lt hlt
    · exact Nat.le_of_eq heq
  · have hbefore : token.offset < eof.offset := by
      rcases List.mem_append.1 hmem with hmem | hmem
      · exact (List.pairwise_append.1 hincreasing).2.2 token hmem eof (List.mem_singleton.2 rfl)
      · rw [List.mem_singleton.1 hmem] at hmore
        exact absurd hend hmore
    have hpairwise := pairwise_filter_position hordered (Nat.ne_of_lt hbefore)
    obtain ⟨hunexpected, hother⟩ := countP_le_one_of_pairwise hpairwise
    exact ⟨hunexpected, hother, hpairwise⟩
  · obtain rfl : token = eof := by
      rcases List.mem_append.1 hmem with hmem | hmem
      · exact absurd hkind (hnoEnd token hmem)
      · exact List.mem_singleton.1 hmem
    calc (parseSource source file options).diagnostics.countP (·.position = token.span.start)
        ≤ (parseSource source file options).diagnostics.countP (·.offset = token.offset) := by
          refine List.countP_mono_left fun d _ hposition => ?_
          simp only [decide_eq_true_eq] at hposition ⊢
          rw [Diagnostic.offset, hposition, Token.offset]
      _ ≤ braces tokens + 1 := hcount
      _ ≤ 1 + (tokens ++ [token]).countP (·.kind = .openCurly) := by
          rw [List.countP_append, Nat.add_comm, braces]
          omega

/-- A token that is not the expected one and starts no operand either is recorded twice, and two
blocks that are not closed make for three diagnostics at the end. -/
theorem diagnostics_ordered_sample :
    (parseSource "(a \x7d; (if (b) \x7b (if (c) \x7b d +" none {}).diagnostics.map
      (fun d => (d.position.offset.toNat, d.isUnexpected)) =
        [(3, true), (3, false), (29, false), (29, true), (29, true)] ∧
    (parseSource "(a \x7d; (if (b) \x7b (if (c) \x7b d +" none {}).diagnostics.Pairwise
      (fun d d' => d.position.offset ≤ d'.position.offset) := by
  refine ⟨by decide +kernel, (diagnostics_ordered _ none {} ?_).1⟩
  decide +kernel

end Monkey
