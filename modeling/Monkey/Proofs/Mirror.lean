import Monkey.Proofs.Coupling
import Monkey.Proofs.Upcoming

/-!
# Supplies of the same tokens

Two supplies that hand out tokens of the same kinds and texts are parsed alike, whatever is wrong
with the tokens: into the same program, with the same diagnostics at corresponding places
(`parse_mirrors`). So it makes no difference whether a source is scanned while it is parsed or
before: the texts of the two ends of input differ, but no one reads them. And if the end of input
is left out of the list of tokens, then all that changes is the place of what is found wrong there
(`parseSource_eq_parseTokens`).
-/

namespace Monkey

open ParserM TokenSource

/-! ## Tokens and diagnostics at corresponding places -/

/-- Two tokens of the same kind and text, at corresponding places; the text of an end of input does
not count. -/
structure Token.Mirrors (Q : Position → Position → Prop) (t t' : Token) : Prop where
  kind : t.kind = t'.kind
  text : t.kind ≠ .endOfInput → t.text = t'.text
  start : Q t.span.start t'.span.start

/-- Two diagnostics of the same cause, at corresponding places. -/
structure Diagnostic.Mirrors (Q : Position → Position → Prop) (d d' : Diagnostic) : Prop where
  cause : d.cause = d'.cause
  position : Q d.position d'.position

theorem Token.Mirrors.refl {Q : Position → Position → Prop} (t : Token)
    (h : Q t.span.start t.span.start) : t.Mirrors Q t :=
  ⟨rfl, fun _ => rfl, h⟩

/-- Diagnostics at the same places are the same. -/
theorem eq_of_forall₂_mirrors {ds ds' : List Diagnostic}
    (h : List.Forall₂ (Diagnostic.Mirrors Eq) ds ds') : ds = ds' := by
  induction h with
  | nil => rfl
  | cons hd _ ih =>
    rename_i d d' _ _ _
    cases d
    cases d'
    obtain ⟨rfl, rfl⟩ := hd
    rw [ih]

/-! ## Parsers -/

variable {σ τ : Type} [TokenSource σ] [TokenSource τ] {Q : Position → Position → Prop}

/-- Two parsers of the language in front of corresponding tokens, with corresponding
diagnostics. -/
structure Parser.Mirrors (Q : Position → Position → Prop) (p : Parser σ) (q : Parser τ) :
    Prop where
  options : p.options = q.options
  tables : p.tables = .standard p.options
  tables_eq : q.tables = p.tables
  depth : p.depth = q.depth
  token (count : Nat) : (p.token count).Mirrors Q (q.token count)
  diagnostics : List.Forall₂ (Diagnostic.Mirrors Q) p.diagnostics.toList q.diagnostics.toList

namespace Parser.Mirrors

variable {p : Parser σ} {q : Parser τ}

theorem current (h : p.Mirrors Q q) : p.current.Mirrors Q q.current :=
  h.token 0

theorem peek (h : p.Mirrors Q q) : p.peek.Mirrors Q q.peek :=
  h.token 1

theorem alike (h : p.Mirrors Q q) : p.Alike q :=
  ⟨h.depth, by rw [h.options], h.tables, by rw [h.tables_eq, h.tables, h.options]⟩

theorem advance (h : p.Mirrors Q q) : p.advance.Mirrors Q q.advance :=
  ⟨h.options, h.tables, h.tables_eq, h.depth, fun count => h.token (count + 1), h.diagnostics⟩

/-- What leaves the windows as they are leaves the tokens as they are. -/
theorem token_of_window {p' : Parser σ} {q' : Parser τ} (h : p.Mirrors Q q)
    (hp : p'.window = p.window) (hq : q'.window = q.window) (count : Nat) :
    (p'.token count).Mirrors Q (q'.token count) := by
  rw [token_of_same_window hp, token_of_same_window hq]
  exact h.token count

theorem write (h : p.Mirrors Q q) (entry : LogEntry) :
    (p.write entry).Mirrors Q (q.write entry) :=
  ⟨h.options, h.tables, h.tables_eq, h.depth, h.token_of_window rfl rfl, h.diagnostics⟩

theorem enterNesting (h : p.Mirrors Q q) :
    { p with depth := p.depth + 1 }.Mirrors Q { q with depth := q.depth + 1 } :=
  ⟨h.options, h.tables, h.tables_eq, congrArg (· + 1) h.depth, h.token_of_window rfl rfl,
    h.diagnostics⟩

theorem leaveNesting (h : p.Mirrors Q q) : p.leaveNesting.Mirrors Q q.leaveNesting :=
  ⟨h.options, h.tables, h.tables_eq, congrArg (· - 1) h.depth, h.token_of_window rfl rfl,
    h.diagnostics⟩

/-- The same cause is recorded at corresponding tokens. -/
theorem record (h : p.Mirrors Q q) {cause cause' : Cause} (hcause : cause = cause')
    {t t' : Token} (ht : t.Mirrors Q t') :
    (p.record cause t.span.start).Mirrors Q (q.record cause' t'.span.start) := by
  refine ⟨h.options, h.tables, h.tables_eq, h.depth, h.token_of_window rfl rfl, ?_⟩
  simp only [Parser.record, Array.toList_push]
  exact List.rel_append h.diagnostics (.cons ⟨hcause, ht.start⟩ .nil)

theorem text (h : p.Mirrors Q q) (hkind : p.current.kind ≠ .endOfInput) :
    p.current.text = q.current.text :=
  h.current.text hkind

end Parser.Mirrors

/-- Parsers in front of corresponding tokens stay side by side and read the same. -/
def mirroring (Q : Position → Position → Prop) : Coupling σ τ Unit where
  values := .same
  inner := id
  gone _ := False
  holds _ _ p q := p.Mirrors Q q
  gone_later h _ := h
  alike h := h.alike
  current_between h := h.current.kind
  current_taken h := h.current.kind
  peek_taken h := .inl h.peek.kind
  peek_failed h := .inl h.peek.kind
  operator_peek h hkind := by rw [h.tables_eq, hkind]
  facing_of_between h _ := h
  taken_of_facing h := h
  taken_of_operand h := h
  operand_of_facing h _ := h
  operand_of_block h _ := h
  advance h _ := .inr h.advance
  next h := .inr h.advance
  enter h _ := .inr h.advance
  recover h := .inr h.advance
  failed_advance h _ _ := h.advance
  write entry h := h.write entry
  deeper h _ := h.enterNesting
  leave_operand h := h.leaveNesting
  leave_failed h := h.leaveNesting
  unexpected h hkind _ := h.record (by rw [hkind]) h.peek
  missing h _ := h.record (by rw [h.current.kind]) h.current
  tooDeep h := h.record rfl h.current
  name h hkind := h.text (by rw [hkind]; decide)
  sign h hrule := h.text fun hend => by rw [hend] at hrule; cases hrule
  operator h hrule := h.text fun hend => by
    rw [h.tables, hend] at hrule
    cases hrule
  integer {i p q} h hkind := by
    have htext := h.text (by rw [hkind]; decide)
    change (integerOperand p).Coupled _ _ _ _ (integerOperand q)
    unfold integerOperand
    rw [← htext]
    cases Text.readInt64? p.current.text.toList with
    | some value => exact .ok rfl h
    | none => exact .ok rfl (h.record rfl h.current)

/-- Supplies that hand out corresponding tokens are parsed alike. -/
theorem parse_mirrors {supply : σ} {supply' : τ} (options : Options)
    (h : ∀ count, (nth supply count).Mirrors Q (nth supply' count)) :
    (parse supply options).program = (parse supply' options).program ∧
      List.Forall₂ (Diagnostic.Mirrors Q) (parse supply options).diagnostics
        (parse supply' options).diagnostics := by
  have hfresh : (Parser.ofSupply supply options).Mirrors Q (.ofSupply supply' options) := by
    refine ⟨rfl, rfl, rfl, rfl, fun count => ?_, .nil⟩
    rw [Parser.token_ofSupply, Parser.token_ofSupply]
    exact h count
  obtain ⟨p, q, hlast, hstatements, hp, hq⟩ :=
    (mirroring Q).parse (i := ()) (fun _ => id) hfresh
  constructor
  · have hsame : (parse supply options).program.statements =
        (parse supply' options).program.statements := by
      rwa [← List.forall₂_eq_eq_eq]
    exact congrArg Program.mk hsame
  · rw [hp, hq]
    exact hlast.diagnostics

/-! ## Sources and lists of tokens -/

/-- A supply without tokens is an empty program, and nothing is wrong with it. -/
theorem parse_of_end {supply : σ} (h : (next supply).1.kind = .endOfInput) (options : Options) :
    (parse supply options).program = ⟨[]⟩ ∧ (parse supply options).diagnostics = [] := by
  have hends : Region.program.endsAt (next supply).1.kind = true := by
    rw [h]
    rfl
  exact parse_of_statements (run_statements_of_ends hends 0)

/-- A place that may have moved from the end of input to the end of the last token. -/
def EndMoved (tokens : List Token) (eof : Token) (place place' : Position) : Prop :=
  place = place' ∨ place = eof.span.start ∧ ∃ last ∈ tokens.getLast?, place' = last.span.stop

section Lists

variable {tokens : List Token} {eof : Token}

/-- A list that ends with an end of input hands out its tokens and then that end of input. -/
theorem mirrors_nth_concat (hkind : eof.kind = .endOfInput) (hspan : eof.span.stop = eof.span.start)
    (count : Nat) :
    (tokens.getD count eof).Mirrors Eq (nth (TokenStream.ofList (tokens ++ [eof])) count) := by
  unfold TokenStream.ofList
  rw [nth_tokenStream]
  rcases Nat.lt_trichotomy count tokens.length with hless | rfl | hmore
  · rw [List.getD_append _ _ _ _ hless, List.getD_eq_getElem _ _ hless,
      List.getD_eq_getElem _ _ hless]
    exact .refl _ rfl
  · rw [List.getD_append_right _ _ _ _ (Nat.le_refl _), Nat.sub_self,
      List.getD_eq_default _ _ (Nat.le_refl _)]
    exact .refl _ rfl
  · rw [List.getD_eq_default _ _ (Nat.le_of_lt hmore),
      List.getD_eq_default _ _ (by rw [List.length_append]; exact hmore)]
    refine ⟨hkind, fun hmore => absurd hkind hmore, ?_⟩
    rw [List.getLast?_concat]
    exact hspan.symm

/-- Without it, the end of input that a list hands out is placed at the end of its last token. -/
theorem mirrors_nth_ofList (hkind : eof.kind = .endOfInput) (hne : tokens ≠ []) (count : Nat) :
    (tokens.getD count eof).Mirrors (EndMoved tokens eof)
      (nth (TokenStream.ofList tokens) count) := by
  unfold TokenStream.ofList
  rw [nth_tokenStream]
  rcases Nat.lt_or_ge count tokens.length with hless | hmore
  · rw [List.getD_eq_getElem _ _ hless, List.getD_eq_getElem _ _ hless]
    exact .refl _ (.inl rfl)
  · rw [List.getD_eq_default _ _ hmore, List.getD_eq_default _ _ hmore]
    refine ⟨hkind, fun hmore => absurd hkind hmore, .inr ⟨rfl, tokens.getLast hne, ?_, ?_⟩⟩
    · exact List.getLast?_eq_some_getLast hne
    · simp [TokenStream.endToken, Span.empty, List.getLast?_eq_some_getLast hne]

end Lists

/-- A source is parsed as the list of all its tokens is, the end of input among them. -/
theorem parse_tokenize (source : String) (file : Option String) (options : Options) :
    (parseSource source file options).program =
        (parseTokens (tokenize source file) options).program ∧
      (parseSource source file options).diagnostics =
        (parseTokens (tokenize source file) options).diagnostics := by
  obtain ⟨tokens, last, htokens, -, hnth⟩ := Scanner.exists_nth (Scanner.ofSource source file)
  have hwhole (count : Nat) : (nth (Scanner.ofSource source file) count).Mirrors Eq
      (nth (TokenStream.ofList (tokens ++ [last.endToken])) count) := by
    rw [hnth]
    exact mirrors_nth_concat rfl rfl count
  obtain ⟨hprogram, hdiagnostics⟩ := parse_mirrors options hwhole
  rw [show tokenize source file = _ from htokens]
  exact ⟨hprogram, eq_of_forall₂_mirrors hdiagnostics⟩

/-- A source is parsed as the list of its tokens is. If the end of input is left out of that list,
then what was found wrong there has moved to the end of the last token, and all else is the
same. -/
theorem parseSource_eq_parseTokens (source : String) (file : Option String) (options : Options) :
    (parseSource source file options).program =
        (parseTokens (tokenize source file) options).program ∧
      (parseSource source file options).diagnostics =
        (parseTokens (tokenize source file) options).diagnostics ∧
      ∃ tokens eof, tokenize source file = tokens ++ [eof] ∧ eof.kind = .endOfInput ∧
        NoEnd tokens ∧
        (parseSource source file options).program = (parseTokens tokens options).program ∧
        List.Forall₂ (Diagnostic.Mirrors (EndMoved tokens eof))
          (parseSource source file options).diagnostics
          (parseTokens tokens options).diagnostics := by
  obtain ⟨hprogram, hdiagnostics⟩ := parse_tokenize source file options
  obtain ⟨tokens, last, htokens, hnoEnd, hnth⟩ :=
    Scanner.exists_nth (Scanner.ofSource source file)
  refine ⟨hprogram, hdiagnostics, tokens, last.endToken, htokens, rfl, hnoEnd, ?_⟩
  by_cases hne : tokens = []
  · -- without tokens nothing is recorded, so there is no place to move
    subst hne
    have hsource : (next (Scanner.ofSource source file)).1.kind = .endOfInput :=
      congrArg Token.kind (hnth 0)
    have hempty : (next (TokenStream.ofList [])).1.kind = .endOfInput := rfl
    unfold parseSource parseTokens
    rw [(parse_of_end hsource options).1, (parse_of_end hsource options).2,
      (parse_of_end hempty options).1, (parse_of_end hempty options).2]
    exact ⟨rfl, .nil⟩
  · refine parse_mirrors options fun count => ?_
    rw [hnth]
    exact mirrors_nth_ofList rfl hne count

end Monkey
