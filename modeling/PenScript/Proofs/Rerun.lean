import PenScript.Proofs.Intact
import PenScript.Proofs.Steering

/-!
# Running again

A run starts the pen and the variables anew, but not the reporter, and it leaves the reporter in the
middle of a batch if it is cancelled there. Nothing of this shows in a later run. No step of a run
looks at the updates of the past: they stay in front of the new ones, and that is all. And what is
left pending by a run that returned was left by a cancellation, which cancels every later run at its
first poll.

## Main definitions

* `Machine.behind` — the same machine with earlier updates in front of its own.

## Main results

* `Machine.run_behind`: a run takes no notice of earlier updates;
* `Machine.run_of_idle`: a run on a used machine is a run on a new one;
* `Machine.rerun_is_anew`: so is every run behind any number of runs that returned.
-/

namespace PenScript

/-! ### Earlier updates -/

/-- The same reporter, with earlier updates in front of its own. -/
def Reporter.behind (earlier : Array Update) (r : Reporter) : Reporter :=
  { r with log := earlier ++ r.log }

/-- The same report, with earlier updates in front. -/
def Reported.behind (earlier : Array Update) (r : Reported) : Reported :=
  ⟨r.reporter.behind earlier, r.returns⟩

namespace Reporter

variable (earlier : Array Update) (r : Reporter) (canvas : Canvas)

/-- An update comes behind the earlier ones. -/
theorem emit_behind (u : Update) : (r.behind earlier).emit u = (r.emit u).behind earlier := by
  simp only [emit, behind, Array.append_push]

/-- A pause takes no notice of earlier updates. -/
theorem pause_behind : (r.behind earlier).pause = r.pause.behind earlier := by
  have same : (r.behind earlier).signal.pause (r.behind earlier).pace.delay =
      r.signal.pause r.pace.delay := rfl
  rw [pause, pause, same]
  cases r.signal.pause r.pace.delay with
  | some signal => rfl
  | none => rfl

/-- Nor does a pause behind an update. -/
theorem emit_pause_behind (u : Update) :
    ((r.behind earlier).emit u).pause = (r.emit u).pause.behind earlier := by
  rw [emit_behind, pause_behind]

/-- Nor does a flush. -/
theorem flush_behind : (r.behind earlier).flush canvas = (r.flush canvas).behind earlier := by
  by_cases none : r.pending = 0
  · have none' : (r.behind earlier).pending = 0 := none
    rw [flush, flush, if_pos none, if_pos none']
    rfl
  · have none' : (r.behind earlier).pending ≠ 0 := none
    rw [flush, flush, if_neg none, if_neg none']
    exact emit_pause_behind earlier { r with pending := 0 } { kind := .pixel, canvas }

/-- Nor does the report about a pixel. -/
theorem pixel_behind : (r.behind earlier).pixel canvas = (r.pixel canvas).behind earlier := by
  by_cases mode : r.pace.mode = .pixel
  · have mode' : (r.behind earlier).pace.mode = .pixel := mode
    rw [pixel, pixel, if_pos mode, if_pos mode']
    dsimp only
    by_cases full : r.pace.batchSize ≤ r.pending + 1
    · have full' : (r.behind earlier).pace.batchSize ≤ (r.behind earlier).pending + 1 := full
      rw [if_pos full, if_pos full']
      exact flush_behind earlier { r with pending := r.pending + 1 } canvas
    · have full' : ¬(r.behind earlier).pace.batchSize ≤ (r.behind earlier).pending + 1 := full
      rw [if_neg full, if_neg full']
      rfl
  · rw [pixel_of_mode mode]
    exact pixel_of_mode (r := r.behind earlier) mode canvas

/-- Nor does the report about a statement. -/
theorem step_behind (message : String) :
    (r.behind earlier).step canvas message = (r.step canvas message).behind earlier := by
  have same : (r.behind earlier).pace = r.pace := rfl
  rw [step, step, same]
  cases r.pace.mode with
  | instant => rfl
  | step => exact emit_pause_behind earlier r { kind := .step, canvas, message }
  | pixel => exact flush_behind earlier r canvas

/-- The report about a pixel leaves the pace. -/
theorem pace_pixel : (r.pixel canvas).reporter.pace = r.pace := by
  rw [pixel]
  split
  · dsimp only
    split
    · exact pace_flush _ canvas
    · rfl
  · rfl

/-- The report about a statement leaves the pace. -/
theorem pace_step (message : String) : (r.step canvas message).reporter.pace = r.pace := by
  rw [step]
  split
  · rfl
  · exact pace_pause _
  · exact pace_flush _ canvas

end Reporter

namespace Machine

variable {dice : Nat → Nat} {p : Program} {limit : Nat} (earlier : Array Update)

/-- The same machine, with earlier updates in front of its own. -/
def behind (m : Machine) : Machine :=
  { m with reporter := m.reporter.behind earlier }

/-- The report about a pixel does not see the earlier updates. -/
theorem pixelReport_behind (m : Machine) (q : Point) (color : Color) :
    (m.behind earlier).pixelReport q color = (m.pixelReport q color).behind earlier :=
  m.reporter.pixel_behind earlier (m.canvas.blend q color)

/-- The report about a statement does not see the earlier updates. -/
theorem stepReport_behind (m : Machine) (s : Stmt) :
    (m.behind earlier).stepReport s = (m.stepReport s).behind earlier := by
  rw [stepReport, stepReport]
  split
  · exact m.reporter.step_behind earlier m.canvas ("Executed " ++ s.text)
  · rfl

/-- The machine behind the report about a statement. -/
theorem stepped_behind (m : Machine) (s : Stmt) :
    (m.behind earlier).stepped s = (m.stepped s).behind earlier :=
  congrArg (fun r : Reported => { m with reporter := r.reporter }) (stepReport_behind earlier m s)

/-- The end is reported behind the earlier updates. -/
theorem conclude_behind (m : Machine) (outcome : Outcome) :
    (m.behind earlier).conclude outcome = (m.conclude outcome).behind earlier := by
  cases outcome with
  | asleep | overflow => rfl
  | completed | cancelled | failed =>
      exact congrArg (fun reporter => { m with reporter }) (m.reporter.emit_behind earlier _)

/-- A statement does not see the earlier updates. -/
theorem unseen_behind : Unseen (behind earlier) where
  deed _ _ _ := rfl
  pen _ := rfl
  raised _ := rfl
  polled _ := rfl
  laid m q color :=
    congrArg
      (fun r : Reported => { m with canvas := m.canvas.blend q color, reporter := r.reporter })
      (pixelReport_behind earlier m q color)
  returns m q color := by rw [pixelReport_behind, Reported.behind]
  throws _ _ := rfl
  settles _ _ _ _ := rfl

/-- A turn does not see the earlier updates. -/
theorem turn_behind (dice : Nat → Nat) (p : Program) (m : Machine) :
    turn dice p (m.behind earlier) = onMachine (behind earlier) (turn dice p m) := by
  by_cases raised : m.reporter.signal.isRaised
  · rw [turn_of_raised raised, turn_of_raised (m := m.behind earlier) raised]
    rfl
  replace raised := Bool.eq_false_iff.2 raised
  cases fetches : p.stmts[m.flow.pc]? with
  | none =>
      rw [turn_of_end raised fetches, turn_of_end (m := m.behind earlier) raised fetches]
      rfl
  | some s =>
      by_cases full : m.flow.limit ≤ m.flow.executed
      · rw [turn_of_full raised fetches full,
          turn_of_full (m := m.behind earlier) raised fetches full]
        rfl
      · have room : m.flow.executed < m.flow.limit := Nat.lt_of_not_le full
        rw [turn_of_room raised fetches room,
          turn_of_room (m := m.behind earlier) raised fetches room,
          show (m.behind earlier).fetched = m.fetched.behind earlier from rfl,
          (unseen_behind earlier).exec]
        cases exec dice s m.fetched with
        | error halt m' => rfl
        | ok _ m' =>
            dsimp only [onMachine]
            rw [stepReport_behind, stepped_behind]
            change (if (m'.stepReport s).returns then _ else _) = _
            split <;> rfl

/-- The loop does not see the earlier updates. -/
theorem loop_behind (dice : Nat → Nat) (p : Program) (bound : Nat) (m : Machine) :
    loop dice p bound (m.behind earlier) = onMachine (behind earlier) (loop dice p bound m) := by
  induction bound generalizing m with
  | zero => rfl
  | succ bound ih =>
      have turned := turn_behind earlier dice p m
      rw [loop_succ]
      cases now : turn dice p m with
      | error halt m' =>
          rw [now] at turned
          rw [bind_of_error now, bind_of_error turned]
          rfl
      | ok executed m' =>
          rw [now] at turned
          rw [bind_of_ok now, bind_of_ok turned]
          cases executed with
          | none => rfl
          | some s => exact ih m'

/-- **A run takes no notice of earlier updates**: they stay in front of its own. -/
theorem run_behind (dice : Nat → Nat) (p : Program) (limit : Nat) (m : Machine) :
    run dice p limit (m.behind earlier) =
      ((run dice p limit m).1, (run dice p limit m).2.behind earlier) := by
  cases labels : Flow.ofProgram p limit with
  | error f =>
      rw [run_of_refused labels, run_of_refused labels]
      exact congrArg (Prod.mk _) (conclude_behind earlier m.restart (.failed f))
  | ok flow =>
      have executed : execute dice p limit (m.behind earlier).restart =
          onMachine (behind earlier) (execute dice p limit m.restart) := by
        rw [execute_of_labels labels, execute_of_labels labels]
        exact loop_behind earlier dice p (limit + 1) { m.restart with flow }
      rw [run, run, executed]
      cases execute dice p limit m.restart with
      | ok _ m' => exact congrArg (Prod.mk _) (conclude_behind earlier m' .completed)
      | error halt m' => exact congrArg (Prod.mk _) (conclude_behind earlier m' halt.outcome)

/-! ### Used machines -/

variable {earlier} {m : Machine}

/-- The new machine that takes the place of a used one: it has the canvas, the signal and the dice
as they are now, and nothing else of it. -/
def anew (m : Machine) : Machine :=
  fresh m.canvas m.reporter.pace m.reporter.signal m.throws

/-- What a run shows of itself: its outcome, the canvas, the pen, the variables, and the updates
behind those of earlier runs. -/
structure SameRun (earlier : Array Update) (again anew : Outcome × Machine) : Prop where
  outcome : again.1 = anew.1
  canvas : again.2.canvas = anew.2.canvas
  pen : again.2.pen = anew.2.pen
  vars : again.2.vars = anew.2.vars
  log : again.2.reporter.log = earlier ++ anew.2.reporter.log

/-- Two runs that end before a statement is executed. -/
theorem sameRun_conclude {n : Machine} (canvas : m.canvas = n.canvas) (pen : m.pen = n.pen)
    (vars : m.vars = n.vars) (none : n.reporter.log = #[]) (outcome : Outcome) :
    SameRun m.reporter.log (outcome, m.conclude outcome) (outcome, n.conclude outcome) where
  outcome := rfl
  canvas := by cases outcome <;> exact canvas
  pen := by cases outcome <;> exact pen
  vars := by cases outcome <;> exact vars
  log := by
    rw [← Array.toList_inj, Array.toList_append, log_conclude, log_conclude, none, canvas]
    rfl

/-- A run that is cancelled by its first poll. -/
theorem run_of_raised {flow : Flow} (labels : Flow.ofProgram p limit = .ok flow)
    (dice : Nat → Nat) (raised : m.reporter.signal.isRaised) :
    run dice p limit m =
      (.cancelled, ({ m.restart with flow } : Machine).polled.conclude .cancelled) := by
  have now : turn dice p { m.restart with flow } = .error .cancelled _ := turn_of_raised raised
  exact run_of_verdict ⟨flow, labels, .nil _⟩ (by rw [now]; rfl)

/-- With nothing pending, a used machine starts as the new one does, behind its updates. -/
theorem restart_of_pending (none : m.reporter.pending = 0) (flow : Flow) :
    ({ m.restart with flow } : Machine) = { (m.anew.behind m.reporter.log).restart with flow } := by
  obtain ⟨canvas, pen, vars, _, throws, ⟨pace, signal, pending, log⟩⟩ := m
  obtain rfl : pending = 0 := none
  simp only [restart, anew, behind, fresh, Reporter.behind, Array.append_empty]

/-- **A run on a used machine is a run on a new one.** The machine may be in the middle of a batch
if the signal is raised. -/
theorem run_of_idle (dice : Nat → Nat) (p : Program) (limit : Nat) (idle : m.reporter.Idle) :
    SameRun m.reporter.log (run dice p limit m) (run dice p limit m.anew) := by
  rcases labels : Flow.ofProgram p limit with f | flow
  · rw [run_of_refused labels, run_of_refused labels]
    exact sameRun_conclude (m := m.restart) (n := m.anew.restart) rfl rfl rfl rfl _
  by_cases raised : m.reporter.signal.isRaised
  · -- both runs are cancelled by their first poll, so nobody asks for what is pending
    rw [run_of_raised labels dice raised, run_of_raised (m := m.anew) labels dice raised]
    exact sameRun_conclude (m := { m.restart with flow }.polled)
      (n := { m.anew.restart with flow }.polled) rfl rfl rfl rfl _
  · have none : m.reporter.pending = 0 := idle.pending (Bool.eq_false_iff.2 raised)
    have same : run dice p limit m = run dice p limit (m.anew.behind m.reporter.log) := by
      rw [run, run, execute_of_labels labels, execute_of_labels labels, restart_of_pending none]
    rw [same, run_behind]
    exact ⟨rfl, rfl, rfl, rfl, rfl⟩

/-- How a machine reports never changes. -/
theorem pace_of_step {pace : Pace} (m m' : Machine) (step : Step m m')
    (same : m.reporter.pace = pace) : m'.reporter.pace = pace := by
  rw [← same]
  cases step with
  | start | poll | fetch | read | blend | settle => rfl
  | pixel => exact m.reporter.pace_pixel m.canvas
  | report message => exact m.reporter.pace_step m.canvas message
  | conclude outcome => cases outcome <;> rfl

/-- **Running again leaks nothing but the canvas.** Let a machine have run a program any number of
times, and let all of these runs have returned: completed, failed or cancelled anywhere. The next
run is the same as a run on a new machine with the same canvas, the same signal and the same dice:
it has the same outcome, canvas, pen and variables, and its updates are those of the run on the new
machine. -/
theorem rerun_is_anew (dice : Nat → Nat) (p : Program) (limit runs : Nat) (canvas : Canvas)
    (pace : Pace) (signal : Signal) (throws : Nat)
    (returned : ∀ k < runs, (run dice p limit
      (afterRuns dice p limit k (fresh canvas pace signal throws))).1.Returns) :
    let m := afterRuns dice p limit runs (fresh canvas pace signal throws)
    SameRun m.reporter.log (run dice p limit m)
      (run dice p limit (fresh m.canvas pace m.reporter.signal m.throws)) := by
  intro m
  have idle : m.reporter.Idle := by
    induction runs with
    | zero => exact Or.inl rfl
    | succ runs ih =>
        have before := ih fun k early => returned k (Nat.lt_succ_of_lt early)
        exact run_idle dice p limit before (returned runs (Nat.lt_succ_self runs))
  have same : m.reporter.pace = pace :=
    afterRuns_invariant (I := fun m => m.reporter.pace = pace)
      (fun _ => run_invariant pace_of_step dice p limit) runs rfl
  have anew : m.anew = fresh m.canvas pace m.reporter.signal m.throws := by rw [anew, same]
  rw [← anew]
  exact run_of_idle dice p limit idle

/-- A machine that was cancelled with one pixel of a batch pending runs again as a new one does. -/
theorem interrupted_runs_anew :
    (run (fun _ => 0) translucent 10 interrupted).1 = .cancelled ∧
      (afterRuns (fun _ => 0) translucent 10 1 interrupted).reporter.pending = 1 ∧
      SameRun (afterRuns (fun _ => 0) translucent 10 1 interrupted).reporter.log
        (run (fun _ => 0) translucent 10 (afterRuns (fun _ => 0) translucent 10 1 interrupted))
        (run (fun _ => 0) translucent 10
          (fresh (afterRuns (fun _ => 0) translucent 10 1 interrupted).canvas
            { mode := .pixel, batch := 3 }
            (afterRuns (fun _ => 0) translucent 10 1 interrupted).reporter.signal
            (afterRuns (fun _ => 0) translucent 10 1 interrupted).throws)) := by
  have cancelled : (run (fun _ => 0) translucent 10 interrupted).1 = .cancelled := by
    decide +kernel
  refine ⟨cancelled, by decide +kernel, ?_⟩
  rw [interrupted] at cancelled ⊢
  refine rerun_is_anew (fun _ => 0) translucent 10 1 (.blank 3 1) { mode := .pixel, batch := 3 }
    { fromPoll := some 4 } 0 fun k early => ?_
  obtain rfl : k = 0 := by omega
  rw [afterRuns, cancelled]
  decide

end Machine

end PenScript
