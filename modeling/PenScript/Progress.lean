import PenScript.Canvas
import PenScript.Diagnostic

/-!
# Progress and cancellation

A run reports updates, each with a picture of the canvas at its time. How often it reports depends
on the mode; how it ended is reported always. Behind every update in between the run pauses.

A run can be cancelled from outside. It looks at the signal again and again (it *polls*); once an
answer is yes, all later ones are. So a signal is a schedule: from which poll on, or from how many
updates on, the answer is yes.

A pause also polls. It ends when its time is over or at a yes. A pause that is too long for the
clock is endless: it goes on until the run is cancelled, and if nobody does that, it never ends.

## Main definitions

* `Signal.poll` — asks whether the run is to stop;
* `Signal.pause` — the signal behind a pause, if the pause ends;
* `Reporter.pixel`, `Reporter.step` — what is reported after a pixel and after a statement;
* `Reporter.complete`, `Reporter.fail` — how a run ended.

## Main results

* `Signal.isRaised_raiseFrom`, `Signal.isRaised_poll` — a cancellation is never withdrawn;
* `Signal.pause_eq_none_iff` — the pauses that never end.
-/

namespace PenScript

/-! ### Modes and updates -/

/-- How often a run reports: only at the end, after every statement that draws, or after every so
many pixels. -/
inductive Mode where
  | instant
  | step
  | pixel
deriving DecidableEq, Repr

namespace Mode

/-- The mode of a given name. -/
def ofName? : String → Option Mode
  | "instant" => some instant
  | "step" => some step
  | "pixel" => some pixel
  | _ => none

/-- What is said of a name that names no mode. -/
def refusal (name : String) : String :=
  "unknown execution mode '" ++ name ++ "', expected one of: instant, step, pixel"

end Mode

/-- What an update reports. The end of a run that was cancelled counts as complete. -/
inductive Update.Kind where
  | pixel
  | step
  | complete
  | error
deriving DecidableEq, Repr

/-- A report of a run: what it reports, the canvas at that time, a text for the user, and what went
wrong. -/
structure Update where
  kind : Update.Kind
  canvas : Canvas
  message : Option String := none
  errors : List Diagnostic := []

/-- How long a run pauses behind an update: some milliseconds, or until it is cancelled. -/
inductive Delay where
  | ms (n : Nat)
  | endless
deriving DecidableEq, Repr

/-- How a run reports: how often, with which pauses, and how many pixels make an update. -/
structure Pace where
  mode : Mode := .instant
  delay : Delay := .ms 0
  batch : Nat := 1
deriving DecidableEq, Repr

/-- At least one pixel makes an update. -/
def Pace.batchSize (pace : Pace) : Nat :=
  max pace.batch 1

/-! ### Cancellation -/

/-- A schedule of cancellation, and how much of it has passed. The answer is yes from poll
`fromPoll` on, counted from zero, and from `fromUpdate` updates on; `polls` and `updates` count what
the run has done so far. -/
structure Signal where
  fromPoll : Option Nat := none
  fromUpdate : Option Nat := none
  polls : Nat := 0
  updates : Nat := 0
deriving DecidableEq, Repr

namespace Signal

/-- The signal of a run that nobody cancels. -/
def never : Signal := {}

/-- Whether the run is to stop. -/
def isRaised (s : Signal) : Bool :=
  s.fromPoll.any (· ≤ s.polls) || s.fromUpdate.any (· ≤ s.updates)

/-- Asks whether the run is to stop. -/
def poll (s : Signal) : Bool × Signal :=
  (s.isRaised, { s with polls := s.polls + 1 })

/-- Counts one more update. -/
def countUpdate (s : Signal) : Signal :=
  { s with updates := s.updates + 1 }

/-- Cancels the run from poll `n` on. A cancellation that is due earlier stays. -/
def raiseFrom (s : Signal) (n : Nat) : Signal :=
  { s with fromPoll := some ((s.fromPoll.map (min n)).getD n) }

/-- Cancels the run at once. -/
def raise (s : Signal) : Signal :=
  s.raiseFrom 0

/-- Cancels the run at the poll behind the next one. -/
def raiseSoon (s : Signal) : Signal :=
  s.raiseFrom (s.polls + 1)

/-- Polls up to `n` times, but not behind a yes. -/
def pollUpTo : Nat → Signal → Signal
  | 0, s => s
  | n + 1, s =>
    let (raised, s') := s.poll
    if raised then s' else pollUpTo n s'

/-- The signal behind a pause. It polls at its start and every ten milliseconds, and ends early at a
yes. An endless pause ends with the first yes; `none` if there is none, since then it never ends. -/
def pause (delay : Delay) (s : Signal) : Option Signal :=
  match delay with
  | .ms n => some (pollUpTo (1 + (n + 9) / 10) s)
  | .endless =>
    if s.isRaised then some s.poll.2
    else s.fromPoll.map fun due => { s with polls := due + 1 }

/-- The answer is yes if one of the two dates has come. -/
theorem isRaised_iff {s : Signal} :
    s.isRaised ↔ (∃ n ∈ s.fromPoll, n ≤ s.polls) ∨ ∃ n ∈ s.fromUpdate, n ≤ s.updates := by
  simp [isRaised, Option.any_eq_true]

/-- A new date of cancellation adds to the answer and takes nothing away. -/
theorem isRaised_raiseFrom {s : Signal} {n : Nat} :
    (s.raiseFrom n).isRaised ↔ s.isRaised ∨ n ≤ s.polls := by
  rcases s with ⟨_ | m, fromUpdate, polls, updates⟩
  · simp [isRaised_iff, raiseFrom, or_comm]
  · have earlier : min n m ≤ polls ↔ m ≤ polls ∨ n ≤ polls := by omega
    simp [isRaised_iff, raiseFrom, earlier, or_right_comm]

/-- Behind a yes every answer is yes. -/
theorem isRaised_poll {s : Signal} (h : s.isRaised) : s.poll.2.isRaised := by
  rw [isRaised_iff] at h ⊢
  exact h.imp_left fun ⟨n, hn, due⟩ => ⟨n, hn, Nat.le_succ_of_le due⟩

/-- The pauses that never end are the endless ones of a run that is not cancelled and that no poll
is going to cancel. -/
theorem pause_eq_none_iff {s : Signal} {delay : Delay} :
    s.pause delay = none ↔ delay = .endless ∧ s.isRaised = false ∧ s.fromPoll = none := by
  cases delay with
  | ms n => simp [pause]
  | endless =>
      rw [pause]
      cases raised : s.isRaised with
      | true => simp
      | false => simp

end Signal

/-! ### Reporting -/

/-- Reports the progress of a run. It counts the pixels that were written since the last update
about pixels, and keeps the updates so far, the oldest first. -/
structure Reporter where
  pace : Pace
  signal : Signal := .never
  pending : Nat := 0
  log : Array Update := #[]

/-- A reporter behind a report, and whether the pause behind the report ends. -/
structure Reported where
  reporter : Reporter
  returns : Bool

namespace Reporter

/-- Asks whether the run is to stop. -/
def poll (r : Reporter) : Bool × Reporter :=
  let (raised, signal) := r.signal.poll
  (raised, { r with signal })

/-- Reports an update. -/
def emit (r : Reporter) (u : Update) : Reporter :=
  { r with log := r.log.push u, signal := r.signal.countUpdate }

/-- Goes on without a pause. -/
def goOn (r : Reporter) : Reported :=
  ⟨r, true⟩

/-- Pauses behind an update. -/
def pause (r : Reporter) : Reported :=
  match r.signal.pause r.pace.delay with
  | some signal => ⟨{ r with signal }, true⟩
  | none => ⟨r, false⟩

/-- Reports the pixels that were written since the last update, if there are any. -/
def flush (r : Reporter) (canvas : Canvas) : Reported :=
  if r.pending = 0 then r.goOn
  else ({ r with pending := 0 }.emit { kind := .pixel, canvas }).pause

/-- Called after every pixel that is written. -/
def pixel (r : Reporter) (canvas : Canvas) : Reported :=
  if r.pace.mode = .pixel then
    let r := { r with pending := r.pending + 1 }
    if r.pace.batchSize ≤ r.pending then r.flush canvas else r.goOn
  else r.goOn

/-- Called after every statement that draws. -/
def step (r : Reporter) (canvas : Canvas) (message : String) : Reported :=
  match r.pace.mode with
  | .instant => r.goOn
  | .step => (r.emit { kind := .step, canvas, message }).pause
  | .pixel => r.flush canvas

/-- Called when a run has ended without an error. -/
def complete (r : Reporter) (canvas : Canvas) (message : String) : Reporter :=
  r.emit { kind := .complete, canvas, message }

/-- Called when a run has failed. -/
def fail (r : Reporter) (canvas : Canvas) (errors : List Diagnostic) : Reporter :=
  r.emit { kind := .error, canvas, message := errors.head?.map Diagnostic.text, errors }

end Reporter

end PenScript
