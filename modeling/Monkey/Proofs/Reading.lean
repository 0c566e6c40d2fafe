import Monkey.Proofs.Input

/-!
# Readings without fault

An action reads a value if it comes out with it and adds no diagnostic (`ParserM.Reads`). Since
diagnostics are never taken back, the parts of such a reading add none either: a reading is taken
apart into the readings of its parts, in the order in which they were made.
-/

namespace Monkey

open ParserM

variable {σ α β : Type}

/-! ## Parsers of a grammar -/

/-- A parser that goes by a grammar. -/
structure Parser.Obeys (parser : Parser σ) (g : Grammar) : Prop where
  tables : g.Describes parser.tables
  strict : parser.options.strictSemicolons = g.strict

theorem Parser.Obeys.follows [TokenSource σ] {before after : Parser σ} {g : Grammar}
    (h : before.Obeys g) (hfollows : before.Follows after) : after.Obeys g :=
  ⟨hfollows.tables ▸ h.tables, hfollows.options ▸ h.strict⟩

theorem obeys_ofSupply [TokenSource σ] (supply : σ) (options : Options) :
    (Parser.ofSupply supply options).Obeys (.standard options) :=
  ⟨Grammar.describes_standard options, rfl⟩

/-! ## Taking readings apart -/

/-- An action comes out with a value and finds nothing wrong. -/
structure ParserM.Reads (action : ParserM σ α) (before : Parser σ) (value : α)
    (after : Parser σ) : Prop where
  run : action.run before = .ok value after
  clean : after.diagnostics.size ≤ before.diagnostics.size

namespace ParserM.Reads

variable {p s : Parser σ} {w : β}

theorem of_pure {value w : α} (h : (Pure.pure value : ParserM σ α).Reads p w s) :
    value = w ∧ p = s := by
  cases h.run
  exact ⟨rfl, rfl⟩

/-- What only makes a value of another one reads that. -/
theorem of_map {action : ParserM σ α} {f : α → β}
    (h : (action >>= fun value => Pure.pure (f value)).Reads p w s) :
    ∃ value, action.Reads p value s ∧ f value = w := by
  have hrun := h.run
  rw [run_bind] at hrun
  cases out : action.run p with
  | ok value q =>
    rw [out] at hrun
    cases hrun
    exact ⟨value, ⟨out, h.clean⟩, rfl⟩
  | absent q => rw [out] at hrun; cases hrun
  | stuck => rw [out] at hrun; cases hrun

theorem of_announce {event : Event} {next : Unit → ParserM σ β}
    (h : (announce event >>= next).Reads p w s) :
    (next ()).Reads (p.write (.event event)) w s :=
  ⟨h.run, h.clean⟩

theorem of_current {next : Token → ParserM σ β} (h : (current >>= next).Reads p w s) :
    (next p.current).Reads p w s :=
  ⟨h.run, h.clean⟩

theorem of_get {next : Parser σ → ParserM σ β} (h : (get >>= next).Reads p w s) :
    (next p).Reads p w s :=
  ⟨h.run, h.clean⟩

theorem of_peekIs {kind : TokenKind} {next : Bool → ParserM σ β}
    (h : (peekIs kind >>= next).Reads p w s) :
    (next (decide (p.peek.kind = kind))).Reads p w s :=
  ⟨h.run, h.clean⟩

/-- A reading one level of nesting further in. -/
theorem of_nested {action : ParserM σ α} {value : α} (h : (nested action).Reads p value s) :
    ∃ q, action.Reads { p with depth := p.depth + 1 } value q ∧ s = q.leaveNesting := by
  have hrun := h.run
  rw [run_nested] at hrun
  by_cases hdepth : p.depth < maxNesting
  · rw [if_pos hdepth] at hrun
    cases out : action.run { p with depth := p.depth + 1 } with
    | ok value' q =>
      rw [out] at hrun
      cases hrun
      exact ⟨q, ⟨out, h.clean⟩, rfl⟩
    | absent q => rw [out] at hrun; cases hrun
    | stuck => rw [out] at hrun; cases hrun
  · rw [if_neg hdepth] at hrun
    cases hrun

variable [TokenSource σ]

theorem follows {action : ParserM σ α} [hsteady : Steady action] {value : α}
    (h : action.Reads p value s) : p.Follows s := by
  have hrun := hsteady.keeps p
  rw [h.run] at hrun
  exact hrun

/-- A reading in two parts is a reading of the first and then one of the second. -/
theorem of_bind {action : ParserM σ α} {next : α → ParserM σ β} [haction : Steady action]
    [hnext : ∀ value, Steady (next value)] (h : (action >>= next).Reads p w s) :
    ∃ value q, action.Reads p value q ∧ (next value).Reads q w s := by
  have hrun := h.run
  have hkeeps := haction.keeps p
  rw [run_bind] at hrun
  cases out : action.run p with
  | ok value q =>
    rw [out] at hrun hkeeps
    simp only at hrun
    have hlast := (hnext value).keeps q
    rw [hrun] at hlast
    have hfirst : p.diagnostics.size ≤ q.diagnostics.size := Parser.Follows.size_le hkeeps
    have hsecond : q.diagnostics.size ≤ s.diagnostics.size := Parser.Follows.size_le hlast
    have hclean := h.clean
    exact ⟨value, q, ⟨out, by omega⟩, ⟨hrun, by omega⟩⟩
  | absent q => rw [out] at hrun; cases hrun
  | stuck => rw [out] at hrun; cases hrun

/-- What is attempted in a reading succeeds, since its failure would have been recorded. -/
theorem of_attempt {action : ParserM σ α} {next : Option α → ParserM σ β}
    [∀ value, Steady (next value)] (h : (attempt action >>= next).Reads p w s)
    (haction : action.Framed) :
    ∃ value q, action.Reads p value q ∧ (next (some value)).Reads q w s := by
  have : Steady action := ⟨haction.keeps⟩
  obtain ⟨value?, q, hfirst, hsecond⟩ := h.of_bind
  have hrun := hfirst.run
  have hframed := haction p
  rw [run_attempt] at hrun
  cases out : action.run p with
  | ok value q' =>
    rw [out] at hrun
    cases hrun
    exact ⟨value, q, ⟨out, hfirst.clean⟩, hsecond⟩
  | absent q' =>
    rw [out] at hrun hframed
    cases hrun
    exact absurd hframed.2 (Nat.not_lt.2 hfirst.clean)
  | stuck => rw [out] at hrun; cases hrun

theorem of_advance {next : Unit → ParserM σ β} (h : (advance >>= next).Reads p w s) :
    (next ()).Reads p.advance w s :=
  ⟨h.run, h.clean⟩

/-- A reading that expects a kind of token finds it. -/
theorem of_expect {kind : TokenKind} {next : Unit → ParserM σ β}
    (h : (expect kind >>= next).Reads p w s) :
    p.peek.kind = kind ∧ (next ()).Reads p.advance w s := by
  have hrun := h.run
  rw [run_bind, run_expect] at hrun
  by_cases hkind : p.peek.kind = kind
  · rw [if_pos hkind] at hrun
    exact ⟨hkind, hrun, h.clean⟩
  · rw [if_neg hkind] at hrun
    cases hrun

end ParserM.Reads

end Monkey
