import PenScript.Proofs.Turn

/-!
# Failing statements are atomic

A statement that fails has done nothing: all its arguments are read and checked before the first
pixel is laid and before the pen, a variable or the place in the program changes. So the picture of
a failed run is the picture behind the last statement that was executed, whatever the failing one
was about to draw.

## Main results

* `Machine.unchanged_of_exec_failed`: a failing statement moves nothing but the dice;
* `Machine.unchanged_of_turn_failed`: so does the whole turn, apart from its poll;
* `Machine.failure_is_atomic`: what a failing statement and a failing run leave behind.
-/

namespace PenScript

namespace Machine

variable {dice : Nat → Nat}

/-- A failing statement moves nothing but the dice. -/
theorem unchanged_of_exec_failed {s : Stmt} {m m' : Machine} {f : Failure}
    (h : exec dice s m = .error (.failed f) m') : ∃ throws, m' = { m with throws } := by
  obtain ⟨g, throws, _, unchanged, _⟩ | ⟨outer, _⟩ | ⟨overflow, _⟩ := exec_eq_error h
  · exact ⟨throws, unchanged⟩
  · rcases outer with cancelled | asleep
    · cases cancelled
    · cases asleep
  · cases overflow

/-- A failing turn has polled, and counted a statement that it did not execute. Canvas, pen,
variables and updates are as they were. -/
theorem unchanged_of_turn_failed {p : Program} {m m' : Machine} {f : Failure}
    (h : turn dice p m = .error (.failed f) m') :
    ∃ throws flow, m' = { m.polled with throws, flow } := by
  obtain ⟨_, cancelled, _⟩ | ⟨s, _, ⟨_, rfl⟩ | failed | ⟨asleep, _⟩⟩ := turn_eq_error h
  · cases cancelled
  · exact ⟨m.throws, m.flow, rfl⟩
  · obtain ⟨throws, rfl⟩ := unchanged_of_exec_failed failed
    exact ⟨throws, m.fetched.flow, rfl⟩
  · cases asleep

/-- **Failing statements are atomic.** On every machine, a statement that fails leaves the canvas,
the pen, the variables, the place in the program and the reporter with its updates exactly as they
were. So a run that fails either never started, because its labels were refused, or it leaves the
canvas, the pen and the variables of the machine behind the statements that were executed before the
failing one, and reports one update more than they did. -/
theorem failure_is_atomic (dice : Nat → Nat) :
    (∀ (s : Stmt) (m m' : Machine) (f : Failure), exec dice s m = .error (.failed f) m' →
      m'.canvas = m.canvas ∧ m'.pen = m.pen ∧ m'.vars = m.vars ∧ m'.flow = m.flow ∧
        m'.reporter = m.reporter) ∧
    ∀ (p : Program) (limit : Nat) (m : Machine) (f : Failure),
      (run dice p limit m).1 = .failed f →
        (Flow.ofProgram p limit = .error f ∧ (run dice p limit m).2.canvas = m.canvas ∧
          (run dice p limit m).2.reporter.log =
            m.reporter.log.push (breakdown m.canvas f)) ∨
        ∃ history last stopped, Reaches dice p limit m history last ∧
          turn dice p last = .error (.failed f) stopped ∧
          (run dice p limit m).2.canvas = last.canvas ∧
          (run dice p limit m).2.pen = last.pen ∧
          (run dice p limit m).2.vars = last.vars ∧
          (run dice p limit m).2.reporter.log =
            last.reporter.log.push (breakdown last.canvas f) := by
  constructor
  · intro s m m' f h
    obtain ⟨throws, rfl⟩ := unchanged_of_exec_failed h
    exact ⟨rfl, rfl, rfl, rfl, rfl⟩
  · intro p limit m f h
    obtain ⟨refused, left⟩ | ⟨history, last, stopped, reaches, failed, left⟩ := run_eq_failed h
    · rw [left]
      exact Or.inl ⟨refused, rfl, rfl⟩
    · obtain ⟨throws, flow, same⟩ := unchanged_of_turn_failed failed
      refine Or.inr ⟨history, last, stopped, reaches, failed, ?_⟩
      rw [left, same]
      exact ⟨rfl, rfl, rfl, rfl⟩

/-- A program that draws two pixels and then divides by zero. -/
def lineThenDivision : Program where
  stmts := [
    ⟨⟨1, 1⟩, .spawn (.lit ⟨1, 7⟩ (.int .zero)) (.lit ⟨1, 10⟩ (.int .zero))⟩,
    ⟨⟨2, 1⟩, .drawLine (.lit ⟨2, 10⟩ (.int .one)) (.lit ⟨2, 13⟩ (.int .zero))
      (.lit ⟨2, 16⟩ (.int ⟨2, by decide, by decide⟩))⟩,
    ⟨⟨3, 1⟩, .assign "x"
      (.binary ⟨3, 6⟩ .div (.lit ⟨3, 6⟩ (.int .one)) (.lit ⟨3, 10⟩ (.int .zero)))⟩]

/-- A machine with a canvas of three pixels. -/
def threePixels : Machine where
  canvas := .blank 3 1
  reporter := { pace := {} }

/-- The division by zero leaves the line and nothing of its own. -/
theorem division_after_line_is_atomic :
    (run (fun _ => 0) lineThenDivision 10 threePixels).1 =
        .failed ⟨⟨3, 10⟩, .divisionByZero⟩ ∧
      ∃ history last stopped,
        Reaches (fun _ => 0) lineThenDivision 10 threePixels history last ∧
        turn (fun _ => 0) lineThenDivision last =
          .error (.failed ⟨⟨3, 10⟩, .divisionByZero⟩) stopped ∧
        (run (fun _ => 0) lineThenDivision 10 threePixels).2.canvas = last.canvas := by
  have failed : (run (fun _ => 0) lineThenDivision 10 threePixels).1 =
      .failed ⟨⟨3, 10⟩, .divisionByZero⟩ := by decide +kernel
  refine ⟨failed, ?_⟩
  obtain ⟨refused, -, -⟩ | ⟨history, last, stopped, reaches, stops, canvas, -⟩ :=
    (failure_is_atomic fun _ => 0).2 lineThenDivision 10 threePixels _ failed
  · cases refused
  · exact ⟨history, last, stopped, reaches, stops, canvas⟩

end Machine

end PenScript
