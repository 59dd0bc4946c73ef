import PenScript.Proofs.Course
import PenScript.Proofs.Journal

/-!
# The machines that a run passes

What holds at every time of a run holds in the middle of its statements as well: behind a poll,
behind the reading of the arguments, behind each pixel and behind each report. The *trail* of a turn
lists these machines in order. Each of them comes out of the one in front of it by an elementary
step, so what no elementary step destroys is true of all machines that a run passes.

## Main definitions

* `Machine.Step` — an elementary step of a run;
* `Machine.turnTrail` — the machines that a turn passes;
* `Machine.Passes` — the machines that a run passes, from its start to its end;
* `Machine.fresh`, `Machine.afterRuns` — a new machine, and a machine behind earlier runs.

## Main results

* `Machine.turn_leads`: a trail goes step by step from the machine in front of a turn to the machine
  behind it;
* `Machine.Passes.invariant`: what every step keeps is true of all machines that a run passes.
-/

namespace PenScript

namespace Machine

variable {dice : Nat → Nat} {p : Program} {limit : Nat} {m m₁ m' : Machine} {trail : List Machine}

/-! ### Steps -/

/-- An elementary step of a run: it starts with a new pen and new variables, asks the signal,
fetches a statement, reads its arguments, lays a color over a pixel, tells the reporter of the
pixel, settles the pen, the variables and the place in the program, tells the reporter of the
statement, or reports the end. -/
inductive Step : Machine → Machine → Prop
  | start (m : Machine) (flow : Flow) : Step m { m.restart with flow }
  | poll (m : Machine) : Step m m.polled
  | fetch (m : Machine) (flow : Flow) : Step m { m with flow }
  | read (m : Machine) (throws : Nat) : Step m { m with throws }
  | blend (m : Machine) (q : Point) (color : Color) :
      Step m { m with canvas := m.canvas.blend q color }
  | pixel (m : Machine) : Step m { m with reporter := (m.reporter.pixel m.canvas).reporter }
  | settle (m : Machine) {pen : Pen} (vars : Table Value) (flow : Flow) :
      KeepsBrush m.pen pen → Step m { m with pen, vars, flow }
  | report (m : Machine) (message : String) :
      Step m { m with reporter := (m.reporter.step m.canvas message).reporter }
  | conclude (m : Machine) (outcome : Outcome) : Step m (m.conclude outcome)

/-- Nothing happens. -/
theorem Step.rest (m : Machine) : Step m m := .fetch m m.flow

/-- One step after the other leads through the machines of a trail. -/
inductive Leads : Machine → List Machine → Machine → Prop
  | nil (m : Machine) : Leads m [] m
  | cons {m m₁ m' : Machine} {trail : List Machine} :
      Step m m₁ → Leads m₁ trail m' → Leads m (m₁ :: trail) m'

/-- A single step. -/
theorem Leads.single (step : Step m m') : Leads m [m'] m' :=
  .cons step (.nil m')

/-- One trail behind the other. -/
theorem Leads.append {trail' : List Machine} (first : Leads m trail m₁)
    (second : Leads m₁ trail' m') : Leads m (trail ++ trail') m' := by
  induction first with
  | nil => exact second
  | cons step _ ih => exact .cons step (ih second)

/-- What every step keeps is true of all machines of a trail, and at its end. -/
theorem Leads.invariant {I : Machine → Prop} (keeps : ∀ m m', Step m m' → I m → I m')
    (leads : Leads m trail m') (start : I m) : (∀ passed ∈ trail, I passed) ∧ I m' := by
  induction leads with
  | nil => exact ⟨by simp, start⟩
  | cons step _ ih =>
      have now := keeps _ _ step start
      obtain ⟨later, last⟩ := ih now
      exact ⟨List.forall_mem_cons.2 ⟨now, later⟩, last⟩

/-! ### Trails -/

/-- The machines that painting passes: behind each poll, each pixel and each report about it. -/
def paintTrail (color : Color) : List Point → Machine → List Machine
  | [], _ => []
  | q :: ps, m =>
    m.polled ::
      if m.reporter.signal.isRaised then []
      else { m.polled with canvas := m.canvas.blend q color } :: m.polled.laid q color ::
        if (m.polled.pixelReport q color).returns then paintTrail color ps (m.polled.laid q color)
        else []

/-- The machines that a statement passes: its arguments are read, its pixels are painted, and the
rest is settled. -/
def execTrail (dice : Nat → Nat) (s : Stmt) (m : Machine) : List Machine :=
  let read : Machine := { m with throws := (left (exec dice s m)).throws }
  read :: (paintTrail m.pen.color (pixels dice s m) read ++ [left (exec dice s m)])

/-- The machines that a turn passes. -/
def turnTrail (dice : Nat → Nat) (p : Program) (m : Machine) : List Machine :=
  m.polled ::
    if m.reporter.signal.isRaised then []
    else match p.stmts[m.flow.pc]? with
      | none => []
      | some s =>
        if m.flow.limit ≤ m.flow.executed then []
        else m.fetched :: (execTrail dice s m.fetched ++
          match exec dice s m.fetched with
          | .ok _ m' => [m'.stepped s]
          | .error _ _ => [])

/-- The trail of painting leads to the machine behind it. -/
theorem paint_leads (color : Color) (ps : List Point) (m : Machine) :
    Leads m (paintTrail color ps m) (left (paintPixels color ps m)) := by
  induction ps generalizing m with
  | nil => exact .nil m
  | cons q ps ih =>
      rw [paintTrail, paintPixels_cons]
      refine .cons (.poll m) ?_
      split
      · exact .nil _
      · refine .cons (.blend m.polled q color) (.cons (.pixel _) ?_)
        split
        · exact ih (m.polled.laid q color)
        · exact .nil _

/-- Painting uses no dice. -/
theorem throws_of_paint (color : Color) (ps : List Point) (m : Machine) :
    (left (paintPixels color ps m)).throws = m.throws := by
  obtain ⟨canvas, reporter, painted | ⟨_, -, stopped⟩⟩ := paintPixels_cases color ps m
  · rw [painted]
    rfl
  · rw [stopped]
    rfl

/-- A trail of painting leads through a statement, if the statement has read and painted so. -/
theorem exec_leads (dice : Nat → Nat) (s : Stmt) (m : Machine) :
    Leads m (execTrail dice s m) (left (exec dice s m)) := by
  have through (throws : Nat) (last : Machine) (count : last.throws = throws)
      (step : Step (left (paintPixels m.pen.color (pixels dice s m) { m with throws })) last) :
      Leads m ({ m with throws := last.throws } ::
        (paintTrail m.pen.color (pixels dice s m) { m with throws := last.throws } ++ [last]))
        last := by
    subst count
    exact .cons (.read m _) ((paint_leads _ _ _).append (.single step))
  rw [execTrail]
  cases done : exec dice s m with
  | ok u m' =>
      have brush := exec_brushes done
      obtain ⟨throws, m₁, painted, pen, vars, pc, rfl, -⟩ := exec_eq_ok done
      have count := throws_of_paint m.pen.color (pixels dice s m) { m with throws }
      have kept : m₁.pen = m.pen := by
        obtain ⟨canvas, reporter, rfl⟩ := paintPixels_left painted
        rfl
      rw [painted] at count
      refine through throws _ count ?_
      rw [painted]
      exact .settle m₁ vars _ (kept ▸ brush)
  | error halt m' =>
      -- whatever stopped the statement, it changed nothing behind the pixels that were painted
      have behind (throws : Nat)
          (same : left (paintPixels m.pen.color (pixels dice s m) { m with throws }) = m') :
          Leads m ({ m with throws := m'.throws } ::
            (paintTrail m.pen.color (pixels dice s m) { m with throws := m'.throws } ++ [m']))
            m' := by
        have count := throws_of_paint m.pen.color (pixels dice s m) { m with throws }
        rw [same] at count
        refine through throws m' count ?_
        rw [same]
        exact .rest m'
      obtain ⟨f, throws, -, rfl, still⟩ | ⟨-, throws, stopped⟩ | ⟨-, -, throws, painted⟩ :=
        exec_eq_error done
      · exact behind throws (by rw [still]; rfl)
      · exact behind throws (by rw [stopped]; rfl)
      · exact behind throws (by rw [painted]; rfl)

/-- The report about a statement is a step, or nothing happens. -/
theorem stepped_step (m : Machine) (s : Stmt) : Step m (m.stepped s) := by
  rw [stepped, stepReport]
  split
  · exact .report m _
  · exact .rest m

/-- **The trail of a turn** goes step by step to the machine behind the turn. -/
theorem turn_leads (dice : Nat → Nat) (p : Program) (m : Machine) :
    Leads m (turnTrail dice p m) (left (turn dice p m)) := by
  rw [turnTrail, turn_eq]
  refine .cons (.poll m) ?_
  split
  · exact .nil _
  cases p.stmts[m.flow.pc]? with
  | none => exact .nil _
  | some s =>
      dsimp only
      split
      · exact .nil _
      have reads : Step m.polled m.fetched := .fetch m.polled _
      have through := exec_leads dice s m.fetched
      refine .cons reads ?_
      cases done : exec dice s m.fetched with
      | ok u m' =>
          rw [done] at through
          have last : left (if (m'.stepReport s).returns then .ok (some s) (m'.stepped s)
              else .error .asleep (m'.stepped s)) = m'.stepped s := by
            split <;> rfl
          dsimp only
          rw [last]
          exact through.append (.single (stepped_step m' s))
      | error halt m' =>
          rw [done] at through
          exact through.append (.nil _)

/-! ### Whole runs -/

/-- The machines that a run on `m` passes: the one at the start, those that the loop comes to with
those that the turns on them pass, and the one behind the last report. -/
inductive Passes (dice : Nat → Nat) (p : Program) (limit : Nat) (m : Machine) : Machine → Prop
  | start : Passes dice p limit m m.restart
  | within {history : List (Machine × Stmt)} {here passed : Machine} :
      Reaches dice p limit m history here → passed ∈ here :: turnTrail dice p here →
      Passes dice p limit m passed
  | finish : Passes dice p limit m (run dice p limit m).2

/-- What every step keeps is true of all machines that the loop comes to. -/
theorem Reaches.invariant {I : Machine → Prop} {history : List (Machine × Stmt)}
    (keeps : ∀ m m', Step m m' → I m → I m') (reaches : Reaches dice p limit m history m')
    (start : I m) : I m' := by
  obtain ⟨flow, -, turns⟩ := reaches
  refine turns.invariant (keeps _ _ (.start m flow) start) ?_
  intro m s m' _ now inv
  have leads := turn_leads dice p m
  rw [now] at leads
  exact (leads.invariant keeps inv).2

/-- The last turn of a run leaves the machine that is concluded with. -/
theorem conclude_of_verdict {r : EStateM.Result Halt Machine (Option Stmt)} {v : Outcome × Machine}
    (ends : verdict? r = some v) : v.2 = (left r).conclude v.1 := by
  rcases r with ⟨_ | s, m⟩ | ⟨halt, m⟩
  · obtain rfl := Option.some.inj ends
    rfl
  · cases ends
  · obtain rfl := Option.some.inj ends
    rfl

/-- What every step keeps is true of the machine that a run leaves. -/
theorem run_invariant {I : Machine → Prop} (keeps : ∀ m m', Step m m' → I m → I m')
    (dice : Nat → Nat) (p : Program) (limit : Nat) (start : I m) : I (run dice p limit m).2 := by
  rcases labels : Flow.ofProgram p limit with f | flow
  · have begun : I m.restart := keeps _ _ (.start m m.flow) start
    rw [run_of_refused labels]
    exact keeps _ _ (.conclude m.restart (.failed f)) begun
  · obtain ⟨history, last, reaches, ends⟩ := run_course labels dice m
    have there := reaches.invariant keeps start
    have behind := ((turn_leads dice p last).invariant keeps there).2
    rw [conclude_of_verdict ends]
    exact keeps _ _ (.conclude _ _) behind

/-- **What every step keeps is true of all machines that a run passes.** -/
theorem Passes.invariant {I : Machine → Prop} (keeps : ∀ m m', Step m m' → I m → I m')
    (passes : Passes dice p limit m m') (start : I m) : I m' := by
  rcases passes with _ | ⟨reaches, member⟩ | _
  · exact keeps _ _ (.start m m.flow) start
  · have there := reaches.invariant keeps start
    have along := ((turn_leads dice p _).invariant keeps there).1
    exact List.forall_mem_cons.2 ⟨there, along⟩ _ member
  · exact run_invariant keeps dice p limit start

/-! ### Repeated runs -/

/-- A machine that no run has used yet. The signal may have been asked before, or raised. -/
def fresh (canvas : Canvas) (pace : Pace) (signal : Signal) (throws : Nat) : Machine where
  canvas
  throws
  reporter := { pace, signal }

/-- The machine behind some runs of a program, one after the other, whatever their ends. -/
def afterRuns (dice : Nat → Nat) (p : Program) (limit : Nat) : (runs : Nat) → Machine → Machine
  | 0, m => m
  | runs + 1, m => (run dice p limit (afterRuns dice p limit runs m)).2

/-- What every run keeps is true behind all of them. -/
theorem afterRuns_invariant {I : Machine → Prop} (keeps : ∀ m, I m → I (run dice p limit m).2)
    (runs : Nat) (start : I m) : I (afterRuns dice p limit runs m) := by
  induction runs with
  | zero => exact start
  | succ runs ih => exact keeps _ ih

end Machine

end PenScript
