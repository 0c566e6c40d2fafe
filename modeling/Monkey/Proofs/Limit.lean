import Monkey.Proofs.Reading
import Monkey.Proofs.Unbounded

/-!
# Reading up to the limit of nesting

Whether an expression can be read depends on how many levels of nesting it needs and on how many
are taken already. An outcome reaches a goal at a cost (`Outcome.Reaches`) if there are two cases:
with enough levels left, it is the goal at a parser that found nothing wrong; with fewer, the first
thing found wrong is that the nesting is too deep, whatever comes after. Actions in a row cost as
much as the costliest of them, and one level further in an action costs one more.
-/

namespace Monkey

open ParserM

variable {σ α β : Type} [TokenSource σ]

/-! ## Parsers without and with fault -/

/-- A parser as it may be left behind by reading something without fault. -/
structure Parser.Passes (before after : Parser σ) : Prop extends before.Follows after where
  clean : after.diagnostics = before.diagnostics

namespace Parser.Passes

theorem refl (parser : Parser σ) : parser.Passes parser :=
  ⟨.refl parser, rfl⟩

theorem trans {a b c : Parser σ} (hab : a.Passes b) (hbc : b.Passes c) : a.Passes c :=
  ⟨hab.toFollows.trans hbc.toFollows, hbc.clean.trans hab.clean⟩

theorem advance (parser : Parser σ) : parser.Passes parser.advance :=
  ⟨.advance parser, rfl⟩

theorem write (parser : Parser σ) (entry : LogEntry) : parser.Passes (parser.write entry) :=
  ⟨.write parser entry, rfl⟩

theorem leaveNesting {before after : Parser σ}
    (h : { before with depth := before.depth + 1 }.Passes after) :
    before.Passes after.leaveNesting :=
  ⟨h.toFollows.leaveNesting, h.clean⟩

end Parser.Passes

/-- The first thing found wrong between two states of a parser is that the nesting is too deep. -/
def Parser.Overflows (before after : Parser σ) : Prop :=
  ∃ position more, after.diagnostics.toList =
    before.diagnostics.toList ++ ⟨.nestingTooDeep maxNesting, position⟩ :: more

theorem Parser.Overflows.follows {before mid after : Parser σ} (h : before.Overflows mid)
    (hafter : mid.Follows after) : before.Overflows after := by
  obtain ⟨position, more, hmid⟩ := h
  obtain ⟨last, hlast⟩ := hafter.diagnostics
  exact ⟨position, more ++ last, by rw [← hlast, hmid, List.append_assoc, List.cons_append]⟩

theorem Parser.Passes.overflows {before mid after : Parser σ} (hmid : before.Passes mid)
    (h : mid.Overflows after) : before.Overflows after := by
  obtain ⟨position, more, hafter⟩ := h
  exact ⟨position, more, by rw [hafter, hmid.clean]⟩

/-- An outcome of which nested too deeply is the first thing found wrong. -/
def Outcome.Overflows (before : Parser σ) (outcome : Outcome σ α) : Prop :=
  ∀ after, outcome.parser? = some after → before.Overflows after

/-! ## Reaching a goal -/

/-- An outcome is a goal at a parser that found nothing wrong, or nested too deeply, as the levels
that are left allow. -/
structure Outcome.Reaches (outcome : Outcome σ α) (before : Parser σ) (cost : Nat)
    (goal : Parser σ → Outcome σ α) (post : Parser σ → Prop) : Prop where
  within : before.depth + cost ≤ maxNesting →
    ∃ after, before.Passes after ∧ post after ∧ outcome = goal after
  beyond : ¬before.depth + cost ≤ maxNesting → outcome.Overflows before

namespace Outcome.Reaches

variable {p q : Parser σ} {cost : Nat} {goal : Parser σ → Outcome σ β} {post : Parser σ → Prop}

/-- What is reached by a parser is reached by one before it that finds nothing wrong. -/
theorem of_passes {outcome : Outcome σ β} (hpasses : p.Passes q)
    (h : outcome.Reaches q cost goal post) : outcome.Reaches p cost goal post := by
  have hdepth := hpasses.depth
  constructor
  · intro hwithin
    obtain ⟨after, hafter, hpost, hrun⟩ := h.within (by omega)
    exact ⟨after, hpasses.trans hafter, hpost, hrun⟩
  · intro hbeyond after hafter
    exact hpasses.overflows (h.beyond (by omega) after hafter)

theorem self (hdepth : p.depth ≤ maxNesting) (hpost : post p) : (goal p).Reaches p 0 goal post := by
  constructor
  · intro _
    exact ⟨p, .refl p, hpost, rfl⟩
  · intro hbeyond
    exact absurd hdepth hbeyond

theorem congr_cost {outcome : Outcome σ β} {cost' : Nat} (h : outcome.Reaches p cost goal post)
    (hcost : cost = cost') : outcome.Reaches p cost' goal post :=
  hcost ▸ h

/-- One goal after another costs as much as the costlier one. -/
theorem trans {outcome : Outcome σ β} {cost₁ cost₂ : Nat} {goal₁ : Parser σ → Outcome σ β}
    {post₁ : Parser σ → Prop} (h : outcome.Reaches p cost₁ goal₁ post₁)
    (hnext : ∀ q, p.Passes q → post₁ q → (goal₁ q).Reaches q cost₂ goal post) :
    outcome.Reaches p (max cost₁ cost₂) goal post := by
  by_cases hfirst : p.depth + cost₁ ≤ maxNesting
  · obtain ⟨q, hq, hpost, hrun⟩ := h.within hfirst
    have hlast := of_passes hq (hnext q hq hpost)
    rw [hrun]
    exact ⟨fun hwithin => hlast.within (by omega), fun hbeyond => hlast.beyond (by omega)⟩
  · exact ⟨fun hwithin => by omega, fun _ => h.beyond hfirst⟩

/-- Behind an action that reaches its value comes what follows with that value. -/
theorem next {action : ParserM σ α} {next : α → ParserM σ β} {value : α}
    [hnext : ∀ value, Steady (next value)] (h : (action.run p).Reaches p cost (.ok value) post) :
    ((action >>= next).run p).Reaches p cost (next value).run post := by
  constructor
  · intro hwithin
    obtain ⟨q, hq, hpost, hrun⟩ := h.within hwithin
    exact ⟨q, hq, hpost, by rw [run_bind, hrun]⟩
  · -- whatever follows, the diagnostic of the action stays in front
    intro hbeyond after hafter
    have hover := h.beyond hbeyond
    rw [run_bind] at hafter
    cases hrun : action.run p with
    | ok value' q =>
      rw [hrun] at hover hafter
      have hlast := (hnext value').keeps q
      simp only at hafter
      cases hout : (next value').run q with
      | ok w last =>
        rw [hout] at hlast hafter
        cases hafter
        exact (hover q rfl).follows hlast
      | absent last =>
        rw [hout] at hlast hafter
        cases hafter
        exact (hover q rfl).follows hlast
      | stuck => rw [hout] at hafter; cases hafter
    | absent q => rw [hrun] at hover hafter; exact hover after hafter
    | stuck => rw [hrun] at hafter; cases hafter

/-- Two actions in a row cost as much as the costlier one. -/
theorem bind {action : ParserM σ α} {next : α → ParserM σ β} {value : α} {cost₁ cost₂ : Nat}
    {post₁ : Parser σ → Prop} [∀ value, Steady (next value)]
    (h : (action.run p).Reaches p cost₁ (.ok value) post₁)
    (hnext : ∀ q, p.Passes q → post₁ q → ((next value).run q).Reaches q cost₂ goal post) :
    ((action >>= next).run p).Reaches p (max cost₁ cost₂) goal post :=
  h.next.trans hnext

/-- What follows without a cost of its own costs nothing more. -/
theorem andThen {action : ParserM σ α} {next : α → ParserM σ β} {value : α}
    {post₁ : Parser σ → Prop} [∀ value, Steady (next value)]
    (h : (action.run p).Reaches p cost (.ok value) post₁)
    (hnext : ∀ q, p.Passes q → post₁ q → ((next value).run q).Reaches q 0 goal post) :
    ((action >>= next).run p).Reaches p cost goal post :=
  (h.bind hnext).congr_cost (Nat.max_zero cost)

theorem pure {value : β} (hdepth : p.depth ≤ maxNesting) (hpost : post p) :
    ((Pure.pure value : ParserM σ β).run p).Reaches p 0 (.ok value) post :=
  self hdepth hpost

/-- What only makes a value of another one costs nothing more. -/
theorem map {action : ParserM σ α} {f : α → β} {value : α} {post₁ : Parser σ → Prop}
    (h : (action.run p).Reaches p cost (.ok value) post₁) (hdepth : p.depth ≤ maxNesting)
    (hpost : ∀ q, post₁ q → post q) :
    ((action >>= fun value => Pure.pure (f value)).run p).Reaches p cost (.ok (f value)) post := by
  refine h.andThen fun q hq hq₁ => ?_
  have hlast : q.depth ≤ maxNesting := hq.depth ▸ hdepth
  exact .pure hlast (hpost q hq₁)

theorem current {next : Token → ParserM σ β}
    (h : ((next p.current).run p).Reaches p cost goal post) :
    ((ParserM.current >>= next).run p).Reaches p cost goal post :=
  h

theorem get {next : Parser σ → ParserM σ β} (h : ((next p).run p).Reaches p cost goal post) :
    ((ParserM.get >>= next).run p).Reaches p cost goal post :=
  h

theorem peekIs {kind : TokenKind} {next : Bool → ParserM σ β}
    (h : ((next (decide (p.peek.kind = kind))).run p).Reaches p cost goal post) :
    ((ParserM.peekIs kind >>= next).run p).Reaches p cost goal post :=
  h

theorem advance {next : Unit → ParserM σ β}
    (h : ((next ()).run p.advance).Reaches p.advance cost goal post) :
    ((ParserM.advance >>= next).run p).Reaches p cost goal post :=
  of_passes (.advance p) h

theorem announce {event : Event} {next : Unit → ParserM σ β}
    (h : ((next ()).run (p.write (.event event))).Reaches (p.write (.event event)) cost goal post) :
    ((ParserM.announce event >>= next).run p).Reaches p cost goal post :=
  of_passes (.write p _) h

/-- A token that is expected and there is taken. -/
theorem expect {kind : TokenKind} {next : Unit → ParserM σ β} (hkind : p.peek.kind = kind)
    (h : ((next ()).run p.advance).Reaches p.advance cost goal post) :
    ((ParserM.expect kind >>= next).run p).Reaches p cost goal post := by
  rw [run_bind, run_expect, if_pos hkind]
  exact of_passes (.advance p) h

theorem attempt {action : ParserM σ α} {value : α}
    (h : (action.run p).Reaches p cost (.ok value) post) :
    ((ParserM.attempt action).run p).Reaches p cost (.ok (some value)) post := by
  constructor
  · intro hwithin
    obtain ⟨q, hq, hpost, hrun⟩ := h.within hwithin
    exact ⟨q, hq, hpost, by rw [run_attempt, hrun]⟩
  · intro hbeyond after hafter
    have hover := h.beyond hbeyond
    rw [run_attempt] at hafter
    cases hrun : action.run p with
    | ok value' q => rw [hrun] at hover hafter; exact hover after hafter
    | absent q => rw [hrun] at hover hafter; exact hover after hafter
    | stuck => rw [hrun] at hafter; cases hafter

/-- One level further in costs one level more. -/
theorem nested {action : ParserM σ α} {value : α} (hpost : ∀ q, post q → post q.leaveNesting)
    (h : p.depth < maxNesting →
      (action.run { p with depth := p.depth + 1 }).Reaches { p with depth := p.depth + 1 } cost
        (.ok value) post) :
    ((ParserM.nested action).run p).Reaches p (cost + 1) (.ok value) post := by
  rw [run_nested]
  by_cases hdepth : p.depth < maxNesting
  · rw [if_pos hdepth]
    constructor
    · intro hwithin
      obtain ⟨q, hq, hqpost, hrun⟩ := (h hdepth).within (by simp only; omega)
      rw [hrun]
      exact ⟨q.leaveNesting, hq.leaveNesting, hpost q hqpost, rfl⟩
    · intro hbeyond after hafter
      have hover := (h hdepth).beyond (by simp only; omega)
      cases hrun : action.run { p with depth := p.depth + 1 } with
      | ok value' q =>
        rw [hrun] at hover hafter
        cases hafter
        exact hover q rfl
      | absent q =>
        rw [hrun] at hover hafter
        cases hafter
        exact hover q rfl
      | stuck => rw [hrun] at hafter; cases hafter
  · rw [if_neg hdepth]
    constructor
    · intro hwithin
      omega
    · intro _ after hafter
      cases hafter
      exact ⟨p.current.span.start, [], by simp [Parser.record]⟩

end Outcome.Reaches

/-! ## Parsers within the limit -/

theorem Grammar.Describes.keepsEnd {g : Grammar} {tables : Tables} (h : g.Describes tables) :
    tables.KeepsEnd where
  statement := by rw [h.statement]; rfl
  operand := by rw [h.operand]; rfl
  operator := by
    have hentry := h.operator .endOfInput
    rw [operator?, g.level?_endOfInput] at hentry
    simpa using hentry
  lookup kind := by
    rw [h.statement]
    exact (Tables.keepsEnd_standard {}).lookup kind

/-- A parser that goes by a grammar and is not nested too deeply yet. -/
structure Parser.Prepared (parser : Parser σ) (g : Grammar) : Prop extends parser.Obeys g where
  depth_le : parser.depth ≤ maxNesting

namespace Parser.Prepared

variable {p q : Parser σ} {g : Grammar}

theorem passes (h : p.Prepared g) (hpasses : p.Passes q) : q.Prepared g :=
  ⟨h.toObeys.follows hpasses.toFollows, hpasses.depth ▸ h.depth_le⟩

theorem advance (h : p.Prepared g) : p.advance.Prepared g :=
  h.passes (.advance p)

theorem write (h : p.Prepared g) (entry : LogEntry) : (p.write entry).Prepared g :=
  h.passes (.write p entry)

omit [TokenSource σ] in
theorem keepsEnd (h : p.Prepared g) : p.tables.KeepsEnd :=
  h.tables.keepsEnd

end Parser.Prepared

end Monkey
