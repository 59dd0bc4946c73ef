import PenScript.Act
import PenScript.Progress

/-!
# Running programs

The flow of a run is where it stands in its program, where the labels are, and how many statements
may still be executed. The limit makes every run stop. A machine has a canvas, a pen, variables, the
flow and a reporter. A run starts the pen and the variables anew but keeps the canvas, executes one
statement after the other, and ends behind the last one, at the first failure, or when it is
cancelled. Whatever the end, the machine stays as it was left.

There are two more ways to stop, and no run returns from them. A pause that nobody ends leaves the
run asleep. And the arithmetic of drawing is not guarded: where a number of a figure leaves the
range of integers, the run is broken off. Neither of them is reported.

## Main definitions

* `Flow.ofProgram` — the start of a program whose labels are declared once each;
* `Flow.next`, `Flow.jump` — fetches a statement, continues at a label;
* `Machine.paint` — draws pixels one after the other;
* `Machine.exec` — executes a statement: reads it and performs its act;
* `Machine.loop` — executes statements until the end;
* `Machine.run` — a whole run.
-/

namespace PenScript

/-! ### The flow of a run -/

/-- Where a run stands: the index of the statement of every label, the index of the next statement,
how many statements have been fetched, and how many may be fetched in all. -/
structure Flow where
  labels : Table Nat := .empty
  pc : Nat := 0
  executed : Nat := 0
  limit : Nat
deriving Repr

namespace Flow

/-- The indices of the labels of `stmts`, added to `table`; the first statement has index `i`. A
second declaration of a label is refused. -/
def labelsFrom (i : Nat) (table : Table Nat) : List Stmt → Except Failure (Table Nat)
  | [] => .ok table
  | s :: rest =>
    match s.kind with
    | .label name =>
      if (table.get? name).isSome then .error ⟨s.loc, .labelAgain name⟩
      else labelsFrom (i + 1) (table.insert name i) rest
    | _ => labelsFrom (i + 1) table rest

/-- The start of a program. -/
def ofProgram (p : Program) (limit : Nat) : Except Failure Flow :=
  (labelsFrom 0 .empty p.stmts).map fun labels => { labels, limit }

/-- The next statement and the flow behind it; `none` behind the last statement. It is refused to
fetch more statements than the limit. -/
def next (f : Flow) (p : Program) : Except Failure (Option (Stmt × Flow)) :=
  match p.stmts[f.pc]? with
  | none => .ok none
  | some s =>
    if f.limit ≤ f.executed then .error ⟨s.loc, .limitReached f.limit⟩
    else .ok (some (s, { f with pc := f.pc + 1, executed := f.executed + 1 }))

/-- Continues at a label; `loc` is the place of the jump. -/
def jump (f : Flow) (label : String) (loc : Location) : Except Failure Flow :=
  match f.labels.get? label with
  | some i => .ok { f with pc := i }
  | none => .error ⟨loc, .labelMissing label⟩

end Flow

/-! ### Machines -/

/-- What a program works on. `throws` counts the throws of the dice that were used. -/
structure Machine where
  canvas : Canvas
  pen : Pen := {}
  vars : Table Value := .empty
  flow : Flow := { limit := 0 }
  throws : Nat := 0
  reporter : Reporter

/-- Why a run stops before its end. -/
inductive Halt where
  | cancelled
  | failed (f : Failure)
  | asleep
  | overflow
deriving DecidableEq, Repr

/-- How a run ended, if it did: a run that is asleep goes on for ever, and one with an overflow was
broken off. -/
inductive Outcome where
  | completed
  | cancelled
  | failed (f : Failure)
  | asleep
  | overflow
deriving DecidableEq, Repr

/-- The outcome of a run that stopped before its end. -/
def Halt.outcome : Halt → Outcome
  | .cancelled => .cancelled
  | .failed f => .failed f
  | .asleep => .asleep
  | .overflow => .overflow

/-- A step of a run: it changes the machine and may stop the run. -/
abbrev Run := EStateM Halt Machine

namespace Machine

/-- Stops the run if it is to be cancelled. -/
def checkpoint : Run Unit := do
  let m ← get
  let (raised, reporter) := m.reporter.poll
  set { m with reporter }
  if raised then
    throw .cancelled

/-- Takes over what the reporter has done. If it pauses for ever, so does the run. -/
def reported (r : Reported) : Run Unit := do
  modify fun m => { m with reporter := r.reporter }
  unless r.returns do
    throw .asleep

/-- What statements see. -/
def scene (m : Machine) (dice : Nat → Nat) : Scene :=
  ⟨m.canvas, m.pen, m.vars, dice⟩

/-- Evaluates. A failed evaluation leaves the machine as it was. -/
def evaluating {α : Type} (e : Eval α) : Run α := fun m =>
  match e m.throws with
  | .ok (a, throws) => .ok a { m with throws }
  | .error f => .error (.failed f) m

/-! ### Statements -/

/-- Lays a color over pixels one after the other. Before every pixel the run may be cancelled, and
behind it the run may pause. -/
def paintPixels (color : Color) : List Point → Run Unit
  | [] => pure ()
  | p :: rest => do
    checkpoint
    modify fun m => { m with canvas := m.canvas.blend p color }
    let m ← get
    reported (m.reporter.pixel m.canvas)
    paintPixels color rest

/-- Paints with the color of the pen. If that is not all there is to paint, a number has left the
range, and the run is broken off. -/
def paint (coat : Coat) : Run Unit := do
  paintPixels (← get).pen.color coat.pixels
  unless coat.whole do
    throw .overflow

/-- Draws a figure, and leaves the pen at its place. -/
def draw (f : Figure) : Run Unit := do
  let m ← get
  let d := f.drawing m.canvas m.pen
  paint (d.coat m.canvas)
  modify fun m => { m with pen := d.pen }

/-- Continues at a label, for a statement at `loc`. -/
def jump (loc : Location) (label : String) : Run Unit := do
  match (← get).flow.jump label loc with
  | .ok flow => modify fun m => { m with flow }
  | .error f => throw (.failed f)

/-- Performs what a statement at `loc` asks for. -/
def perform (loc : Location) : Act → Run Unit
  | .settle pen => modify fun m => { m with pen }
  | .assign x v => modify fun m => { m with vars := m.vars.insert x v }
  | .draw f => draw f
  | .jump label => jump loc label
  | .rest => pure ()

/-- Executes a statement. -/
def exec (dice : Nat → Nat) (s : Stmt) : Run Unit := do
  let act ← evaluating (s.act ((← get).scene dice))
  perform s.loc act

/-! ### Runs -/

/-- Fetches the next statement. -/
def fetch (p : Program) : Run (Option Stmt) := do
  let m ← get
  match m.flow.next p with
  | .ok (some (s, flow)) =>
    set { m with flow }
    return some s
  | .ok none => return none
  | .error f => throw (.failed f)

/-- Reports that a statement was executed, if it draws. -/
def reportStep (s : Stmt) : Run Unit := do
  if s.isDrawing then
    let m ← get
    reported (m.reporter.step m.canvas ("Executed " ++ s.text))

/-- Executes statements until the run ends. The limit of the flow ends it before `bound` statements
have been fetched. -/
def loop (dice : Nat → Nat) (p : Program) : (bound : Nat) → Run Unit
  | 0 => pure ()
  | bound + 1 => do
    checkpoint
    match ← fetch p with
    | none => return ()
    | some s =>
      exec dice s
      reportStep s
      loop dice p bound

/-- Executes a program from its first statement on. -/
def execute (dice : Nat → Nat) (p : Program) (limit : Nat) : Run Unit := do
  match Flow.ofProgram p limit with
  | .error f => throw (.failed f)
  | .ok flow =>
    modify fun m => { m with flow }
    loop dice p (limit + 1)

/-- The machine at the start of a run: only the canvas and the reporter stay as they were. -/
def restart (m : Machine) : Machine :=
  { m with pen := {}, vars := .empty }

/-- Reports how a run ended, if it did. -/
def conclude (outcome : Outcome) (m : Machine) : Machine :=
  match outcome with
  | .completed => { m with reporter := m.reporter.complete m.canvas "Execution completed" }
  | .cancelled => { m with reporter := m.reporter.complete m.canvas "Execution cancelled" }
  | .failed f => { m with reporter := m.reporter.fail m.canvas [f.diagnostic] }
  | .asleep | .overflow => m

/-- A whole run: how it ended, and the machine it left. -/
def run (dice : Nat → Nat) (p : Program) (limit : Nat) (m : Machine) : Outcome × Machine :=
  let (outcome, m) := match execute dice p limit m.restart with
    | .ok _ m => (Outcome.completed, m)
    | .error halt m => (halt.outcome, m)
  (outcome, m.conclude outcome)

end Machine

end PenScript
