import Monkey.Parser.Rounds
import Monkey.Proofs.Frame

/-!
# Each round moves on

Each round of a loop takes at least one token, also if it comes out without a value
(`Outcome.Moves`), so that no loop stays where it is.
-/

namespace Monkey

open ParserM

variable {σ α : Type} [TokenSource σ]

/-- An outcome that leaves a parser behind has taken at least one token. -/
def Outcome.Moves (before : Parser σ) : Outcome σ α → Prop
  | ok _ after => ∃ count, after.window = (before.skip (count + 1)).window
  | absent after => ∃ count, after.window = (before.skip (count + 1)).window
  | stuck => True

theorem Outcome.Moves.of_keeps {before : Parser σ} {outcome : Outcome σ α}
    (h : outcome.Keeps before.advance) : outcome.Moves before := by
  cases outcome with
  | ok value after => exact h.window
  | absent after => exact h.window
  | stuck => trivial

namespace Routines.Framed

variable {r : Routines σ} (h : r.Framed)
include h

theorem statementRound : r.statementRound.Framed := by
  refine h.statement.attempt.bind fun statement? => ?_
  refine ParserM.Framed.advance.bind fun _ => ?_
  exact .pure statement?

/-- A statement that fails is passed, so the token behind it is taken in any case. -/
theorem statementRound_moves (parser : Parser σ) :
    (r.statementRound.run parser).Moves parser := by
  have hrun := h.statement.attempt parser
  unfold Routines.statementRound
  rw [run_bind]
  cases out : (attempt r.statement).run parser with
  | ok statement after =>
    rw [out] at hrun
    obtain ⟨count, hcount⟩ := hrun.window
    refine ⟨count, ?_⟩
    rw [← Parser.skip_skip]
    exact Parser.window_advance hcount
  | absent after => rw [run_attempt] at out; split at out <;> cases out
  | stuck => trivial

theorem operatorRound_moves (left : Expression) (precedence : Precedence) (rule : OperatorRule)
    (parser : Parser σ) : ((r.operatorRound left precedence rule).run parser).Moves parser := by
  have hbehind := (h.operatorBy left precedence rule).keeps parser.advance
  exact .of_keeps hbehind

/-- An argument is behind its comma, so two tokens are taken. -/
theorem argumentRound_moves (parser : Parser σ) : (r.argumentRound.run parser).Moves parser := by
  have hargument : (ParserM.advance >>= fun _ => r.expression .lowest).Framed :=
    ParserM.Framed.advance.bind fun _ => h.expression .lowest
  exact .of_keeps (hargument.keeps parser.advance)

end Routines.Framed

theorem parameterRound_moves (parser : Parser σ) :
    (Routines.parameterRound.run parser).Moves parser := by
  have hname : (ParserM.current >>= fun name => Pure.pure name.text : ParserM σ String).Framed :=
    ParserM.Framed.current.bind fun name => .pure name.text
  have hbehind := (ParserM.Framed.expect .identifier).bind fun _ => hname
  exact .of_keeps (hbehind.keeps parser.advance)

end Monkey
