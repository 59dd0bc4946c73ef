import PenScript.Proofs.Cancellation
import PenScript.Proofs.Course
import PenScript.Proofs.Simulation

/-!
# The pace of a run

How often a run reports, how many pixels make an update, how long it pauses and who listens: none of
this changes what the program does. Two machines that differ in their reporters only are run side by
side. Between two pixels the one may report and pause while the other one goes on, so that their
reporters have nothing in common any more; but nothing else looks at a reporter, except for the
polls, which may cancel the run, and the pauses, which may never end.

## Main definitions

* `Outcome.Undisturbed`, `Machine.Unhindered` — a run and a step that were not cancelled and did not
  fall asleep;
* `Machine.Alike` — two machines that differ in their reporters only.

## Main results

* `Machine.run_of_passing`: a run that nobody cancels and whose pauses pass is undisturbed;
* `Machine.exec_alike`: the same statement on two such machines;
* `Machine.pace_does_not_matter`: two undisturbed runs differ in their updates only;
* `Machine.endless_line_is_asleep`: a run that sleeps for ever beside one that completes.
-/

namespace PenScript

/-- The run went its own way: it was not cancelled, and it did not fall asleep. -/
def Outcome.Undisturbed (o : Outcome) : Prop :=
  o ≠ .cancelled ∧ o ≠ .asleep

instance (o : Outcome) : Decidable o.Undisturbed :=
  inferInstanceAs (Decidable (_ ∧ _))

namespace Machine

variable {α : Type} {m n : Machine} {dice : Nat → Nat} {p : Program} {limit : Nat}

/-- Nobody stopped the step from outside: it was not cancelled, and it did not fall asleep. -/
def Unhindered (r : EStateM.Result Halt Machine α) : Prop :=
  ∀ halt m', r = .error halt m' → halt.outcome.Undisturbed

/-! ### Runs that nobody disturbs -/

/-- The reporter of `n` is free, and it keeps the pace of that of `m`. -/
def StaysFree (m n : Machine) : Prop :=
  n.reporter.Free ∧ n.reporter.pace = m.reporter.pace

/-- Painting keeps a reporter free. -/
theorem paint_staysFree {color : Color} {ps : List Point} (free : m.reporter.Free)
    (painted : paintPixels color ps m = .ok () n) : StaysFree m n := by
  induction ps generalizing m with
  | nil =>
      cases painted
      exact ⟨free, rfl⟩
  | cons p ps ih =>
      have free' : m.polled.reporter.Free := free
      obtain ⟨free₁, pace, -⟩ := free'.pixel (m.canvas.blend p color)
      rw [paintPixels_cons, free.not_raised, if_neg Bool.false_ne_true] at painted
      split at painted
      · have stays := ih (m := m.polled.laid p color) free₁ painted
        exact ⟨stays.1, stays.2.trans pace⟩
      · cases painted

/-- Executing a statement keeps a reporter free. -/
theorem exec_staysFree {s : Stmt} (free : m.reporter.Free) (done : exec dice s m = .ok () n) :
    StaysFree m n := by
  obtain ⟨throws, m₁, painted, pen, vars, pc, rfl, -⟩ := exec_eq_ok done
  have stays : StaysFree m m₁ := paint_staysFree (m := { m with throws }) free painted
  exact stays

/-- The report about a statement keeps a reporter free; and it returns if the pauses pass. -/
theorem stepReport_passes (free : m.reporter.Free) (s : Stmt) :
    m.reporter.Passes (m.stepReport s) := by
  rw [stepReport]
  split
  · exact free.step m.canvas _
  · exact ⟨free, rfl, fun _ => rfl⟩

/-- A turn keeps a reporter free. -/
theorem turn_staysFree {s : Stmt} (free : m.reporter.Free) (now : turn dice p m = .ok (some s) n) :
    StaysFree m n := by
  obtain ⟨-, -, -, m₁, done, rfl, -⟩ := turn_eq_some now
  obtain ⟨free₁, pace₁⟩ := exec_staysFree (m := m.fetched) free done
  obtain ⟨free₂, pace₂, -⟩ := stepReport_passes free₁ s
  exact ⟨free₂, pace₂.trans pace₁⟩

/-- All that a run reaches has a free reporter if its start has. -/
theorem Reaches.staysFree {history : List (Machine × Stmt)} (free : m.reporter.Free)
    (reaches : Reaches dice p limit m history n) : StaysFree m n := by
  obtain ⟨flow, -, turns⟩ := reaches
  refine turns.invariant ⟨free, rfl⟩ fun m₁ s m₂ _ now stays => ?_
  obtain ⟨free₂, pace⟩ := turn_staysFree stays.1 now
  exact ⟨free₂, pace.trans stays.2⟩

/-- A statement of a run that nobody cancels and whose pauses pass is neither cancelled nor does it
fall asleep. -/
theorem exec_of_passing (dice : Nat → Nat) (s : Stmt) (free : m.reporter.Free)
    (passing : m.reporter.pace.Passing) : Unhindered (exec dice s m) := by
  intro halt n stopped
  obtain ⟨f, -, rfl, -⟩ | ⟨-, throws, painted⟩ | ⟨rfl, -⟩ := exec_eq_error stopped
  · exact ⟨nofun, nofun⟩
  · obtain ⟨m', through⟩ :=
      paint_of_free (m := { m with throws }) m.pen.color (pixels dice s m) free passing
    rw [painted] at through
    cases through
  · exact ⟨nofun, nofun⟩

/-- **A run that nobody cancels and whose pauses pass** is neither cancelled nor does it fall
asleep. -/
theorem run_of_passing (dice : Nat → Nat) (p : Program) (limit : Nat) (free : m.reporter.Free)
    (passing : m.reporter.pace.Passing) : (run dice p limit m).1.Undisturbed := by
  cases labels : Flow.ofProgram p limit with
  | error f =>
      rw [run_of_refused labels]
      exact ⟨nofun, nofun⟩
  | ok flow =>
      obtain ⟨history, last, reaches, ends⟩ := run_course labels dice m
      obtain ⟨free', pace⟩ := reaches.staysFree free
      have passing' : last.reporter.pace.Passing := pace ▸ passing
      generalize run dice p limit m = v at ends
      cases ending_of_verdict ends with
      | raised raised =>
          rw [free'.not_raised] at raised
          cases raised
      | completed _ _ => exact ⟨nofun, nofun⟩
      | full _ _ _ => exact ⟨nofun, nofun⟩
      | stopped _ _ _ stopped =>
          exact exec_of_passing (m := last.fetched) dice _ free' passing' _ _ stopped
      | asleep _ _ _ done waits =>
          obtain ⟨free₁, pace₁⟩ := exec_staysFree (m := last.fetched) free' done
          have pace₁ := pace₁.trans pace
          obtain ⟨-, -, returns⟩ := stepReport_passes free₁ _
          rw [returns (pace₁ ▸ passing)] at waits
          cases waits

/-! ### Two machines -/

/-- The two machines differ in their reporters only. -/
def Alike (m n : Machine) : Prop :=
  ∃ reporter, n = { m with reporter }

/-- The run was disturbed: it was cancelled, or it fell asleep. -/
def Disturbed (halt : Halt) : Prop :=
  ¬halt.outcome.Undisturbed

/-- A cancellation disturbs a run, and so does a pause that never ends. -/
theorem disturbed_of_outer (halt : Halt) (outer : halt = .cancelled ∨ halt = .asleep) :
    Disturbed halt := by
  rintro ⟨uncancelled, awake⟩
  rcases outer with rfl | rfl
  · exact uncancelled rfl
  · exact awake rfl

/-- The loop does not tell such machines apart, but for what disturbs it. -/
theorem abreast_alike : Abreast Alike Disturbed Disturbed where
  reporter := by
    rintro m _ r r' ⟨reporter, rfl⟩
    exact ⟨r', rfl⟩
  flow := by
    rintro m _ ⟨reporter, rfl⟩
    rfl
  setFlow := by
    rintro m _ flow ⟨reporter, rfl⟩
    exact ⟨reporter, rfl⟩
  first := disturbed_of_outer
  second := disturbed_of_outer

/-- Each pixel is laid on both canvases, whatever is reported in between. -/
theorem paint_alike (color : Color) (ps : List Point) (alike : Alike m n) :
    Simulates Alike Disturbed Disturbed (paintPixels color ps m) (paintPixels color ps n) := by
  induction ps generalizing m n with
  | nil => exact .ok alike
  | cons p ps ih =>
      refine (checkpoint_simulates abreast_alike alike).bind ?_
      rintro _ m₁ n₁ - ⟨reporter, rfl⟩
      exact Simulates.bind (m := { m₁ with canvas := m₁.canvas.blend p color })
        (n := { m₁ with canvas := m₁.canvas.blend p color, reporter })
        (reported_simulates abreast_alike _ _ ⟨reporter, rfl⟩) fun _ m₂ n₂ _ alike => ih alike

/-- A statement comes to the same deed on both machines. -/
theorem exec_alike (dice : Nat → Nat) (s : Stmt) (alike : Alike m n) :
    Simulates Alike Disturbed Disturbed (exec dice s m) (exec dice s n) := by
  obtain ⟨reporter, rfl⟩ := alike
  have same : deed dice s { m with reporter } = deed dice s m := rfl
  rw [exec_eq_act, exec_eq_act, same]
  cases deed dice s m with
  | refuse throws f => exact .stopped ⟨reporter, rfl⟩
  | perform throws coat pen vars pc =>
      rw [act_perform, act_perform]
      refine (paint_alike m.pen.color coat.pixels ⟨reporter, rfl⟩).settled ?_ coat.whole
      rintro m' n' ⟨reporter', rfl⟩
      exact ⟨reporter', rfl⟩

/-- Two undisturbed runs on machines that are alike leave machines that are alike. -/
theorem run_alike (dice : Nat → Nat) (p : Program) (limit : Nat) (alike : Alike m n)
    (undisturbed : (run dice p limit m).1.Undisturbed)
    (undisturbed' : (run dice p limit n).1.Undisturbed) :
    (run dice p limit m).1 = (run dice p limit n).1 ∧
      Alike (run dice p limit m).2 (run dice p limit n).2 := by
  have start : Alike m.restart n.restart := by
    obtain ⟨reporter, rfl⟩ := alike
    exact ⟨reporter, rfl⟩
  refine run_simulates abreast_alike (fun s _ m n => exec_alike dice s) start ?_ ?_
  · exact fun halt ended disturbed => disturbed (ended ▸ undisturbed)
  · exact fun halt ended disturbed => disturbed (ended ▸ undisturbed')

/-- The same machine with another reporter. -/
def reportedBy (m : Machine) (reporter : Reporter) : Machine :=
  { m with reporter }

/-- **The pace of a run does not matter.** Let a program be run on machines that differ in their
reporters only: in the mode, in how many pixels make an update, in the pauses, in what was reported
before, and in when the signal is raised. The runs that are not cancelled and do not sleep for ever
have the same outcome and leave the same canvas, the same pen and the same variables. Runs that
nobody cancels and whose pauses pass are among them. -/
theorem pace_does_not_matter (dice : Nat → Nat) (p : Program) (limit : Nat) (m : Machine) :
    (∀ reporter : Reporter, reporter.Free → reporter.pace.Passing →
      (run dice p limit (m.reportedBy reporter)).1.Undisturbed) ∧
    ∀ first second : Reporter,
      (run dice p limit (m.reportedBy first)).1.Undisturbed →
      (run dice p limit (m.reportedBy second)).1.Undisturbed →
        (run dice p limit (m.reportedBy first)).1 = (run dice p limit (m.reportedBy second)).1 ∧
          (run dice p limit (m.reportedBy first)).2.canvas =
            (run dice p limit (m.reportedBy second)).2.canvas ∧
          (run dice p limit (m.reportedBy first)).2.pen =
            (run dice p limit (m.reportedBy second)).2.pen ∧
          (run dice p limit (m.reportedBy first)).2.vars =
            (run dice p limit (m.reportedBy second)).2.vars := by
  constructor
  · intro reporter free passing
    exact run_of_passing dice p limit free passing
  · intro first second undisturbed undisturbed'
    have alike : Alike (m.reportedBy first) (m.reportedBy second) := ⟨second, rfl⟩
    obtain ⟨outcome, reporter, left⟩ := run_alike dice p limit alike undisturbed undisturbed'
    rw [left]
    exact ⟨outcome, rfl, rfl, rfl⟩

/-- Reports the end only. -/
def hasty : Reporter where
  pace := {}

/-- Reports every other pixel, and pauses. -/
def patient : Reporter where
  pace := { mode := .pixel, delay := .ms 30, batch := 2 }

/-- Reports every statement, and pauses until the run is cancelled. -/
def sleepy : Reporter where
  pace := { mode := .step, delay := .endless }

/-- A line that is drawn at once and the same line drawn pixel by pixel. -/
theorem line_at_two_paces :
    (run (fun _ => 0) twoPixels 10 (watched.reportedBy hasty)).1 = .completed ∧
      (run (fun _ => 0) twoPixels 10 (watched.reportedBy patient)).1 = .completed ∧
      (run (fun _ => 0) twoPixels 10 (watched.reportedBy hasty)).2.canvas =
        (run (fun _ => 0) twoPixels 10 (watched.reportedBy patient)).2.canvas := by
  obtain ⟨free, same⟩ := pace_does_not_matter (fun _ => 0) twoPixels 10 watched
  have first := free hasty ⟨rfl, rfl⟩ (by decide)
  have second := free patient ⟨rfl, rfl⟩ (by decide)
  have ended : (run (fun _ => 0) twoPixels 10 (watched.reportedBy hasty)).1 = .completed := by
    decide +kernel
  obtain ⟨outcome, canvas, -, -⟩ := same hasty patient first second
  exact ⟨ended, outcome.symm.trans ended, canvas⟩

/-- An endless pause matters: nobody cancels either of the two runs, and one of them completes while
the other one never returns from the pause behind its first line. -/
theorem endless_line_is_asleep :
    hasty.Free ∧ sleepy.Free ∧
      (run (fun _ => 0) twoPixels 10 (watched.reportedBy hasty)).1 = .completed ∧
      (run (fun _ => 0) twoPixels 10 (watched.reportedBy sleepy)).1 = .asleep := by
  refine ⟨⟨rfl, rfl⟩, ⟨rfl, rfl⟩, ?_, ?_⟩ <;> decide +kernel

end Machine

end PenScript
