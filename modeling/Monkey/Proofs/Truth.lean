import Monkey.Diagnostic.Report
import Monkey.Proofs.FixedPoint
import Monkey.Proofs.Invariant
import Monkey.Proofs.Layout
import Monkey.Proofs.Lines
import Monkey.Proofs.Mirror
import Monkey.Proofs.Strictness

/-!
# Diagnostics tell the truth

A diagnostic is placed at the start of one token of the source, and what it says of this token is
so: its kind is the one that is named, it is not the expected one, it starts no operand, or its text
is an integer out of range (`diagnostics_truthful`). Therefore a report shows a line for all
diagnostics but those at the end of input and those whose caret cannot be drawn, for which there is
no report (`exists_no_report`).

That the parser says nothing else is an invariant of every step of it (`Parser.Truthful`). It does
not depend on how far reading has come, only on the tokens being those of the source. That a
semicolon is not missed by a lenient parser is known from parsing strictly beside it.
-/

namespace Monkey

open ParserM TokenSource

/-! ## True diagnostics -/

/-- What a cause says of a token is so. A missing semicolon is something to strict parsers only. -/
inductive Cause.TrueOf (strict : Bool) (token : Token) : Cause → Prop where
  | unexpectedToken {expected : TokenKind} (hne : expected ≠ token.kind)
      (hstrict : expected = .semicolon → strict = true) :
      Cause.TrueOf strict token (.unexpectedToken expected token.kind)
  | missingOperand (hnone : Tables.standardOperand? token.kind = none) :
      Cause.TrueOf strict token (.missingOperand token.kind)
  | integerOutOfRange (hkind : token.kind = .integer)
      (hdigits : token.text.toList.all Char.isDigit = true)
      (hvalue : 9223372036854775807 < Text.digitsValue token.text.toList) :
      Cause.TrueOf strict token (.integerOutOfRange token.text)
  | nestingTooDeep : Cause.TrueOf strict token (.nestingTooDeep 256)

theorem Cause.TrueOf.of_isMissingSemicolon {cause : Cause} {place : Position} {token : Token}
    (h : cause.TrueOf true token)
    (hsemicolon : Diagnostic.isMissingSemicolon ⟨cause, place⟩ = false) (strict : Bool) :
    cause.TrueOf strict token := by
  cases h with
  | unexpectedToken hne _ =>
    refine .unexpectedToken hne ?_
    rintro rfl
    cases hsemicolon
  | missingOperand hnone => exact .missingOperand hnone
  | integerOutOfRange hkind hdigits hvalue => exact .integerOutOfRange hkind hdigits hvalue
  | nestingTooDeep => exact .nestingTooDeep

variable {σ : Type} [TokenSource σ]

/-- A parser of the language that sees known tokens only, and has recorded what is true of them. -/
structure Parser.Truthful (known : List Token) (p : Parser σ) : Prop where
  tables : p.tables = .standard p.options
  shown : ∀ count, p.token count ∈ known
  recorded : ∀ d ∈ p.diagnostics.toList, ∃ token ∈ known,
    d.position = token.span.start ∧ d.cause.TrueOf true token

namespace Parser.Truthful

variable {known : List Token} {p p' : Parser σ}

theorem current (h : p.Truthful known) : p.current ∈ known :=
  h.shown 0

theorem peek (h : p.Truthful known) : p.peek ∈ known :=
  h.shown 1

/-- Nesting and the log make no difference. -/
theorem of_view (h : p.Truthful known) (hview : p'.view = p.view) : p'.Truthful known := by
  simp only [view, Prod.mk.injEq] at hview
  obtain ⟨hwindow, htables, hoptions, hdiagnostics⟩ := hview
  refine ⟨?_, fun count => ?_, ?_⟩
  · rw [htables, hoptions, h.tables]
  · rw [token_of_same_window hwindow]
    exact h.shown count
  · rw [hdiagnostics]
    exact h.recorded

theorem advance (h : p.Truthful known) : p.advance.Truthful known := by
  have hwindow : p.advance.window = (p.skip 1).window := rfl
  refine ⟨h.tables, fun count => ?_, h.recorded⟩
  rw [token_of_window hwindow]
  exact h.shown _

theorem record (h : p.Truthful known) {token : Token} (hmem : token ∈ known) {cause : Cause}
    (htrue : cause.TrueOf true token) : (p.record cause token.span.start).Truthful known := by
  have hwindow : (p.record cause token.span.start).window = p.window := rfl
  refine ⟨h.tables, fun count => ?_, fun d hd => ?_⟩
  · rw [token_of_same_window hwindow]
    exact h.shown count
  · simp only [Parser.record, Array.toList_push, List.mem_append, List.mem_singleton] at hd
    rcases hd with hd | rfl
    · exact h.recorded d hd
    · exact ⟨token, hmem, rfl, htrue⟩

end Parser.Truthful

/-- Whatever is recorded on the way is true, if all integers are written in digits. -/
def truthfulness (known : List Token) (hdigits : ∀ token ∈ known, token.kind = .integer →
    token.text.toList ≠ [] ∧ token.text.toList.all Char.isDigit = true) :
    Invariant (.same σ) Unit where
  values := .same
  inner := id
  holds _ _ p := p.Truthful known
  tables h := h.tables
  turn h _ := h
  advance h _ := h.advance
  record {_ _ _ p _ _} h hfinds := by
    cases hfinds with
    | unexpected hne => exact h.record h.peek (.unexpectedToken hne.symm fun _ => rfl)
    | missing hnone => exact h.record h.current (.missingOperand hnone)
    | tooDeep => exact h.record h.current .nestingTooDeep
    | outOfRange hkind hread =>
      obtain ⟨hne, hall⟩ := hdigits p.current h.current hkind
      have hgreat := Text.greatestInt64_lt_digitsValue hne hall hread
      exact h.record h.current
        (.integerOutOfRange hkind hall (by unfold Text.greatestInt64 at hgreat; omega))
  of_view h hview := h.of_view hview

/-! ## Sources -/

theorem digits_of_mem_tokenize {source : String} {file : Option String} {token : Token}
    (hmem : token ∈ tokenize source file) (hkind : token.kind = .integer) :
    token.text.toList ≠ [] ∧ token.text.toList.all Char.isDigit = true := by
  have hcontent : token ∈ content (Scanner.ofSource source file) :=
    List.mem_filter.2 ⟨hmem, by simp [hkind]⟩
  exact (forall_mem_content Scanner.spelled_next _ token hcontent).digits hkind

/-- All that is recorded of a source is true of a token of the source. -/
theorem exists_trueOf {source : String} {file : Option String} {options : Options}
    {d : Diagnostic} (hd : d ∈ (parseSource source file options).diagnostics) :
    ∃ token ∈ tokenize source file, d.position = token.span.start ∧
      d.cause.TrueOf options.strictSemicolons token := by
  obtain ⟨tokens, last, htokens, hshows⟩ := exists_shows_scanner source file options
  have hfresh : (Parser.ofSupply (Scanner.ofSource source file) options).Truthful
      (tokenize source file) := by
    refine ⟨rfl, fun count => ?_, fun _ hd => nomatch hd⟩
    rw [hshows.token_eq, htokens, List.getD_eq_getElem?_getD]
    cases hget : tokens[count]? with
    | none => simp
    | some token => simp [List.mem_of_getElem? hget]
  obtain ⟨p, hlast, -, hdiagnostics, -⟩ :=
    (truthfulness _ fun _ hmem hkind => digits_of_mem_tokenize hmem hkind).parse
      (i := ()) rfl hfresh
  obtain ⟨token, hmem, hposition, htrue⟩ := hlast.recorded d (by rwa [← hdiagnostics])
  refine ⟨token, hmem, hposition, ?_⟩
  -- to a lenient parser no semicolon is missing, so the cause is not the one that is too strict
  obtain ⟨strict, calls⟩ := options
  cases strict with
  | true => exact htrue
  | false => exact htrue.of_isMissingSemicolon (isMissingSemicolon_of_lenient hd) false

/-- Of tokens in order there is one only at each place. -/
theorem filter_start {tokens : List Token}
    (h : tokens.Pairwise fun token later => token.offset < later.offset) {token : Token}
    (hmem : token ∈ tokens) : tokens.filter (·.span.start = token.span.start) = [token] := by
  obtain ⟨front, back, rfl⟩ := List.append_of_mem hmem
  obtain ⟨-, hback, hfront⟩ := List.pairwise_append.1 h
  have hbefore : front.filter (·.span.start = token.span.start) = [] := by
    refine List.filter_eq_nil_iff.2 fun other hother hstart => ?_
    have hlt := hfront other hother token List.mem_cons_self
    rw [Token.offset, of_decide_eq_true hstart] at hlt
    exact Nat.lt_irrefl _ hlt
  have hbehind : back.filter (·.span.start = token.span.start) = [] := by
    refine List.filter_eq_nil_iff.2 fun other hother hstart => ?_
    have hlt := (List.pairwise_cons.1 hback).1 other hother
    rw [Token.offset, Token.offset, of_decide_eq_true hstart] at hlt
    exact Nat.lt_irrefl _ hlt
  rw [List.filter_append, List.filter_cons, hbefore, hbehind]
  simp

/-- The end of input is the one token that starts at the end of the source. -/
theorem offset_lt_iff {source : String} {file : Option String} {token : Token}
    (h : Text.byteLength source.toList < 4294967296) (hmem : token ∈ tokenize source file) :
    token.offset < Text.byteLength source.toList ↔ token.kind ≠ .endOfInput := by
  obtain ⟨tokens, eof, htokens, hlayout⟩ :=
    Scanner.layout_drain h (Scanner.ofSource source file) ⟨[], rfl, rfl, rfl⟩
  rw [tokenize, htokens] at hmem
  rcases List.mem_append.1 hmem with hmem | hmem
  · obtain ⟨-, hpos, hle⟩ := hlayout.inside token hmem
    exact iff_of_true (Nat.lt_of_lt_of_le hpos hle) (hlayout.noEnd token hmem)
  · rw [List.mem_singleton.1 hmem, hlayout.eof_span.1]
    exact iff_of_false (Nat.lt_irrefl _) (not_not_intro hlayout.eof_kind)

/-! ## Reports -/

namespace Text.Line

variable {line : Line}

theorem snippet?_eq_none_iff : line.snippet? = none ↔ greatestWidth < line.caretColumn + 1 := by
  rw [snippet?, padded?]
  split
  next hle => exact iff_of_false (Option.some_ne_none _) (Nat.not_lt.2 hle)
  next hgreat => exact iff_of_true rfl (Nat.lt_of_not_le hgreat)

theorem snippet?_ne_empty {snippet : String} (h : line.snippet? = some snippet) :
    snippet.length ≠ 0 := by
  obtain ⟨arrow, -, hsnippet⟩ := Option.bind_eq_some_iff.1 h
  obtain rfl := Option.some.inj hsnippet
  have hbar : "|".length = 1 := rfl
  simp only [gutter, String.length_append]
  omega

end Text.Line

namespace Diagnostic

variable {d : Diagnostic} {source : String}

/-- The report on a diagnostic shows a line of the source. -/
def ShowsLine (d : Diagnostic) (source : String) : Prop :=
  ∃ line snippet, Text.lineAt? source.toList d.offset = some line ∧
    line.snippet? = some snippet ∧ d.report? source = some (d.heading ++ snippet)

/-- A diagnostic is so far to the right in its line that no caret can be drawn below it. -/
def BeyondWidth (d : Diagnostic) (source : String) : Prop :=
  ∃ line, Text.lineAt? source.toList d.offset = some line ∧ greatestWidth < line.caretColumn + 1

theorem report?_of_line {line : Text.Line}
    (h : Text.lineAt? source.toList d.offset = some line) :
    d.report? source = line.snippet?.map (d.heading ++ ·) := by
  rw [report?, show Text.lineAt? source.toList d.position.offset.toNat = _ from h]

theorem report?_of_no_line (h : Text.lineAt? source.toList d.offset = none) :
    d.report? source = some d.heading := by
  rw [report?, show Text.lineAt? source.toList d.position.offset.toNat = _ from h]

theorem heading_append_ne {line : Text.Line} {snippet : String}
    (h : line.snippet? = some snippet) : d.heading ++ snippet ≠ d.heading := by
  intro heq
  have hlength := congrArg String.length heq
  rw [String.length_append] at hlength
  exact Text.Line.snippet?_ne_empty h (by omega)

/-- Writing a report panics if the caret is too far to the right, and only then. -/
theorem report?_eq_none_iff : d.report? source = none ↔ d.BeyondWidth source := by
  cases hline : Text.lineAt? source.toList d.offset with
  | none =>
    rw [report?_of_no_line hline]
    refine iff_of_false (Option.some_ne_none _) ?_
    rintro ⟨line, hsome, -⟩
    rw [hline] at hsome
    cases hsome
  | some line =>
    rw [report?_of_line hline, Option.map_eq_none_iff, Text.Line.snippet?_eq_none_iff]
    constructor
    · exact fun hwide => ⟨line, hline, hwide⟩
    · rintro ⟨line', hline', hwide⟩
      rwa [Option.some.inj (hline.symm.trans hline')]

/-- A report shows a line if the place is in front of the end of the source, and not too far to the
right in its line. -/
theorem showsLine_iff : d.ShowsLine source ↔
    d.offset < Text.byteLength source.toList ∧ ¬d.BeyondWidth source := by
  rw [← Text.isSome_lineAt?, ← report?_eq_none_iff]
  constructor
  · rintro ⟨line, snippet, hline, -, hreport⟩
    rw [hline, hreport]
    exact ⟨rfl, Option.some_ne_none _⟩
  · rintro ⟨hsome, hreport⟩
    obtain ⟨line, hline⟩ := Option.isSome_iff_exists.1 hsome
    rw [report?_of_line hline, Option.map_eq_none_iff] at hreport
    obtain ⟨snippet, hsnippet⟩ := Option.ne_none_iff_exists'.1 hreport
    refine ⟨line, snippet, hline, hsnippet, ?_⟩
    rw [report?_of_line hline, hsnippet]
    rfl

/-- A report has nothing behind the file's name if the place is not in front of the end of the
source, and only then. -/
theorem report?_eq_heading_iff :
    d.report? source = some d.heading ↔ ¬d.offset < Text.byteLength source.toList := by
  rw [← Text.isSome_lineAt?]
  cases hline : Text.lineAt? source.toList d.offset with
  | none => exact iff_of_true (report?_of_no_line hline) Bool.false_ne_true
  | some line =>
    refine iff_of_false ?_ (not_not_intro rfl)
    rw [report?_of_line hline]
    intro hreport
    obtain ⟨snippet, hsnippet, heq⟩ := Option.map_eq_some_iff.1 hreport
    exact heading_append_ne hsnippet heq

end Diagnostic

/--
Every diagnostic of a source of less than 4 GiB is placed at the start of exactly one token, the end
of input being one too, and is true of this token. Its report shows a line of the source unless the
token is the end of input or its caret is more than 65535 columns wide, and in the latter case there
is no report at all.
-/
theorem diagnostics_truthful (source : String) (file : Option String) (options : Options)
    (h : Text.byteLength source.toList < 4294967296) :
    ∀ d ∈ (parseSource source file options).diagnostics, ∃ token,
      (tokenize source file).filter (·.span.start = d.position) = [token] ∧
      d.cause.TrueOf options.strictSemicolons token ∧
      (d.ShowsLine source ↔ token.kind ≠ .endOfInput ∧ ¬d.BeyondWidth source) ∧
      (d.report? source = none ↔ d.BeyondWidth source) ∧
      (d.report? source = some d.heading ↔ token.kind = .endOfInput) := by
  intro d hd
  obtain ⟨token, hmem, hposition, htrue⟩ := exists_trueOf hd
  have hordered : (tokenize source file).Pairwise fun token later => token.offset < later.offset :=
    (Scanner.pairwise_drain (Scanner.ofSource source file)
      (by simpa [Scanner.ofSource] using h)).2
  have hoffset : d.offset = token.offset := congrArg (·.offset.toNat) hposition
  have hinside := offset_lt_iff h hmem
  rw [← hoffset] at hinside
  refine ⟨token, ?_, htrue, ?_, Diagnostic.report?_eq_none_iff, ?_⟩
  · rw [hposition]
    exact filter_start hordered hmem
  · rw [Diagnostic.showsLine_iff, hinside]
  · rw [Diagnostic.report?_eq_heading_iff, hinside, not_not]

/-- An integer that is too great, a name that should have been a semicolon, and an operand missing
at the end. -/
theorem diagnostics_truthful_sample :
    (parseSource "9223372036854775808; a b; -" none ⟨true, false⟩).diagnostics =
      [⟨.integerOutOfRange "9223372036854775808", ⟨0, "shell"⟩⟩,
        ⟨.unexpectedToken .semicolon .identifier, ⟨23, "shell"⟩⟩,
        ⟨.missingOperand .endOfInput, ⟨27, "shell"⟩⟩] ∧
    ∃ token, (tokenize "9223372036854775808; a b; -" none).filter
        (·.span.start = ⟨27, "shell"⟩) = [token] ∧
      (Cause.missingOperand .endOfInput).TrueOf true token := by
  refine ⟨by decide +kernel, ?_⟩
  obtain ⟨token, hone, htrue, -⟩ :=
    diagnostics_truthful "9223372036854775808; a b; -" none ⟨true, false⟩ (by decide +kernel)
      ⟨.missingOperand .endOfInput, ⟨27, "shell"⟩⟩ (by decide +kernel)
  exact ⟨token, hone, htrue⟩

/-! ## A caret that cannot be drawn -/

/-- A name and a parenthesis in one line, with blanks between them. -/
def apart (blanks : Nat) : String :=
  String.ofList ('a' :: (List.replicate blanks ' ' ++ [')']))

theorem toList_apart (blanks : Nat) :
    (apart blanks).toList = 'a' :: (List.replicate blanks ' ' ++ [')']) :=
  String.toList_ofList

theorem byteLength_blanks (blanks : Nat) :
    Text.byteLength (List.replicate blanks ' ') = blanks := by
  have hsmall : ∀ c ∈ List.replicate blanks ' ', c.utf8Size = 1 := by
    intro c hc
    rw [List.eq_of_mem_replicate hc]
    rfl
  rw [Text.byteLength_eq_length hsmall, List.length_replicate]

theorem byteLength_apart (blanks : Nat) : Text.byteLength (apart blanks).toList = blanks + 2 := by
  rw [toList_apart, Text.byteLength_cons, Text.byteLength_append, byteLength_blanks]
  exact Nat.add_comm 1 (blanks + 1)

theorem tokenize_apart (blanks : Nat) :
    tokenize (apart (blanks + 1)) none =
      [⟨.identifier, "a", .ofBytes 0 1 "shell"⟩,
        ⟨.closeParen, ")", .ofBytes (blanks + 2) 1 "shell"⟩,
        ⟨.endOfInput, "EOF", .ofBytes (blanks + 3) 0 "shell"⟩] := by
  let gap := List.replicate (blanks + 1) ' '
  let start : Scanner := ⟨'a' :: (gap ++ [')']), 0, "shell"⟩
  let behind := start.moveBy ['a'] (gap ++ [')'])
  let last := behind.moveBy gap [')']
  have hstart : Scanner.ofSource (apart (blanks + 1)) none = start := by
    rw [Scanner.ofSource, toList_apart]
    rfl
  have hlast : last.offset = blanks + 2 := by
    rw [show last.offset = 1 + Text.byteLength gap from rfl, byteLength_blanks]
    exact Nat.add_comm 1 (blanks + 1)
  have hgap : lexeme? (gap ++ [')']) = some ⟨.blanks, gap, [')']⟩ := by
    refine lexeme?_blanks (List.cons_ne_nil _ _) (fun c hc => ?_) (breaks_cons.2 rfl)
    rw [List.eq_of_mem_replicate hc]
    rfl
  have hname : piece? start.rest = some ⟨some .identifier, ['a'], gap ++ [')']⟩ :=
    piece?_of_lexeme (show lexeme? start.rest = some ⟨.word, ['a'], gap ++ [')']⟩ from rfl)
  have hskipped : piece? behind.rest = some ⟨none, gap, [')']⟩ := piece?_of_lexeme hgap
  have hparen : piece? last.rest = some ⟨some .closeParen, [')'], []⟩ := rfl
  rw [tokenize, hstart, Scanner.drain_of_piece hname, Scanner.drain_of_piece hskipped,
    Scanner.drain_of_piece hparen, Scanner.drain_of_rest_nil rfl,
    show blanks + 3 = last.offset + 1 by rw [hlast], ← hlast]
  rfl

/-- All that is wrong is that a parenthesis of this sort starts no operand. -/
theorem diagnostics_apart (blanks : Nat) :
    (parseSource (apart (blanks + 1)) none {}).diagnostics =
      [⟨.missingOperand .closeParen, .ofBytes (blanks + 2) "shell"⟩] := by
  rw [(parse_tokenize _ _ _).2, tokenize_apart]
  rfl

theorem lineAt?_apart (blanks : Nat) :
    Text.lineAt? (apart blanks).toList (blanks + 1) =
      some ⟨1, (apart blanks).toList, blanks + 1⟩ := by
  have hne : (apart blanks).toList ≠ [] := by
    rw [toList_apart]
    exact List.cons_ne_nil _ _
  have hinside : '\n' ∉ (apart blanks).toList.dropLast := by
    intro hmem
    have hmem := (List.dropLast_subset _) hmem
    simp [toList_apart] at hmem
  rw [Text.lineAt?, Text.splitLines_of_inside hne hinside, Text.findLine?, if_pos]
  rw [byteLength_apart]
  exact Nat.lt_succ_self _

/-- Behind enough blanks the parenthesis is reported, but there is no report to show: no caret can
be drawn below it. -/
theorem exists_no_report {blanks : Nat} (hwide : 65535 ≤ blanks + 2)
    (hsmall : blanks + 3 < 4294967296) :
    ∃ d ∈ (parseSource (apart (blanks + 1)) none {}).diagnostics,
      ∃ token ∈ tokenize (apart (blanks + 1)) none, token.span.start = d.position ∧
        token.kind ≠ .endOfInput ∧ d.report? (apart (blanks + 1)) = none := by
  let place := Position.ofBytes (blanks + 2) "shell"
  have hoffset : place.offset.toNat = blanks + 2 := by
    rw [Position.ofBytes_offset_toNat]
    exact Nat.mod_eq_of_lt (by omega)
  refine ⟨⟨.missingOperand .closeParen, place⟩, ?_,
    ⟨.closeParen, ")", .ofBytes (blanks + 2) 1 "shell"⟩, ?_, rfl, ?_, ?_⟩
  · rw [diagnostics_apart]
    exact List.mem_singleton_self _
  · rw [tokenize_apart]
    exact List.mem_cons_of_mem _ List.mem_cons_self
  · intro hkind
    cases hkind
  · let line : Text.Line := ⟨1, (apart (blanks + 1)).toList, blanks + 2⟩
    have hindent : line.indentation = 0 := by
      rw [Text.Line.indentation, show line.text = _ from toList_apart (blanks + 1)]
      rfl
    rw [Diagnostic.report?_eq_none_iff]
    refine ⟨line, ?_, ?_⟩
    · rw [Diagnostic.offset, hoffset]
      exact lineAt?_apart (blanks + 1)
    · rw [Text.Line.caretColumn, hindent]
      exact Nat.lt_succ_of_le hwide

/-- So it is behind a name and 65534 blanks. -/
theorem no_report_apart :
    Text.byteLength (apart 65534).toList < 4294967296 ∧
    ∃ d ∈ (parseSource (apart 65534) none {}).diagnostics,
      ∃ token ∈ tokenize (apart 65534) none, token.span.start = d.position ∧
        token.kind ≠ .endOfInput ∧ d.report? (apart 65534) = none := by
  refine ⟨?_, exists_no_report (by omega) (by omega)⟩
  rw [byteLength_apart]
  omega

end Monkey
