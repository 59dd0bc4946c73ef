import PenScript.Proofs.Atomicity

/-!
# The course of a run

A run whose labels are not refused executes a history and ends in the turn behind it. This module
tells the same thing in the other direction: where a history leads to a turn that executes no
statement, the run has ended, and how it ended is read off that turn. The bound of the loop is not
seen any more. So two runs are compared by comparing their turns one by one.

## Main definitions

* `Machine.verdict?` — how a run ends, if this was its last turn;
* `Machine.Ending` — the ways in which a turn can be the last one.

## Main results

* `Machine.Turns.split`: a history can be cut anywhere;
* `Machine.run_course`: every run ends in the turn behind a history;
* `Machine.run_of_verdict`: a turn that executes no statement ends the run;
* `Machine.ending_of_verdict`: how that turn has ended it.
-/

namespace PenScript

namespace Machine

variable {dice : Nat → Nat} {p : Program} {limit : Nat} {m m' : Machine}
  {history : List (Machine × Stmt)}

/-! ### The kinds of turns -/

section Kinds

variable {s : Stmt}

/-- A turn whose poll is answered with yes is cancelled. -/
theorem turn_of_raised (raised : m.reporter.signal.isRaised) :
    turn dice p m = .error .cancelled m.polled := by
  rw [turn_eq, if_pos raised]

/-- At the end of the program a turn executes nothing. -/
theorem turn_of_end (unraised : m.reporter.signal.isRaised = false)
    (ended : p.stmts[m.flow.pc]? = none) : turn dice p m = .ok none m.polled := by
  rw [turn_eq, unraised, ended]
  rfl

/-- At the limit a turn fails in front of the statement. -/
theorem turn_of_full (unraised : m.reporter.signal.isRaised = false)
    (fetches : p.stmts[m.flow.pc]? = some s) (full : m.flow.limit ≤ m.flow.executed) :
    turn dice p m = .error (.failed ⟨s.loc, .limitReached m.flow.limit⟩) m.polled := by
  rw [turn_eq, unraised, fetches]
  exact if_pos full

/-- Below the limit a turn executes the statement and reports it. -/
theorem turn_of_room (unraised : m.reporter.signal.isRaised = false)
    (fetches : p.stmts[m.flow.pc]? = some s) (room : m.flow.executed < m.flow.limit) :
    turn dice p m =
      match exec dice s m.fetched with
      | .ok _ m' =>
        if (m'.stepReport s).returns then .ok (some s) (m'.stepped s)
        else .error .asleep (m'.stepped s)
      | .error halt m' => .error halt m' := by
  rw [turn_eq, unraised, fetches]
  exact if_neg (Nat.not_le_of_lt room)

end Kinds

/-! ### Histories -/

/-- A history counts its statements; labels and limit stay. -/
theorem Turns.flow_eq (turns : Turns dice p m history m') :
    m'.flow =
      { m.flow with pc := m'.flow.pc, executed := m.flow.executed + history.length } := by
  induction turns with
  | nil => rfl
  | cons now _ ih =>
      have first := flow_of_turn now
      rw [ih, first, List.length_cons]
      simp only [Flow.mk.injEq, true_and, and_true]
      omega

/-- No more statements are executed than the limit allows. -/
theorem Turns.within (turns : Turns dice p m history m')
    (start : m.flow.executed ≤ m.flow.limit) :
    m.flow.executed + history.length ≤ m.flow.limit := by
  induction turns with
  | nil => exact start
  | @cons m m₁ m' s history now _ ih =>
      obtain ⟨-, -, room, -⟩ := turn_eq_some now
      have counted := flow_of_turn now
      have limit : m₁.flow.limit = m.flow.limit := by rw [counted]
      have executed : m₁.flow.executed = m.flow.executed + 1 := by rw [counted]
      have rest := ih (by omega)
      rw [List.length_cons]
      omega

/-- A history can be cut anywhere. -/
theorem Turns.split {first second : List (Machine × Stmt)}
    (turns : Turns dice p m (first ++ second) m') :
    ∃ m₁, Turns dice p m first m₁ ∧ Turns dice p m₁ second m' := by
  induction first generalizing m with
  | nil => exact ⟨m, .nil m, turns⟩
  | cons entry first ih =>
      cases turns with
      | cons now rest =>
          obtain ⟨m₁, front, back⟩ := ih rest
          exact ⟨m₁, .cons now front, back⟩

/-- How many statements a run has executed, and that there was room for them. -/
theorem Reaches.executed_eq (reaches : Reaches dice p limit m history m') :
    m'.flow.executed = history.length ∧ m'.flow.limit = limit ∧ history.length ≤ limit := by
  obtain ⟨flow, labels, turns⟩ := reaches
  obtain ⟨-, none, limited⟩ := flow_of_ofProgram labels
  have counted := turns.flow_eq
  have within : flow.executed + history.length ≤ flow.limit :=
    turns.within (room_of_ofProgram labels).1
  have executed : m'.flow.executed = flow.executed + history.length := by rw [counted]
  have limit : m'.flow.limit = flow.limit := by rw [counted]
  omega

/-! ### The last turn -/

/-- How a run ends, if this was its last turn: the outcome, and the machine behind the last
update. -/
def verdict? : EStateM.Result Halt Machine (Option Stmt) → Option (Outcome × Machine)
  | .ok (some _) _ => none
  | .ok none m => some (.completed, m.conclude .completed)
  | .error halt m => some (halt.outcome, m.conclude halt.outcome)

/-- The ways in which a turn on `m` can be the last one of a run: the run is cancelled in front of
the statement; no statement is left; one is left but may not be executed any more; the statement
stops the run; or the pause behind it never ends. -/
inductive Ending (dice : Nat → Nat) (p : Program) (m : Machine) : Outcome × Machine → Prop
  | raised : m.reporter.signal.isRaised →
      Ending dice p m (.cancelled, m.polled.conclude .cancelled)
  | completed : m.reporter.signal.isRaised = false → p.stmts[m.flow.pc]? = none →
      Ending dice p m (.completed, m.polled.conclude .completed)
  | full {s : Stmt} : m.reporter.signal.isRaised = false → p.stmts[m.flow.pc]? = some s →
      m.flow.limit ≤ m.flow.executed →
      Ending dice p m (.failed ⟨s.loc, .limitReached m.flow.limit⟩,
        m.polled.conclude (.failed ⟨s.loc, .limitReached m.flow.limit⟩))
  | stopped {s : Stmt} {halt : Halt} {m' : Machine} : m.reporter.signal.isRaised = false →
      p.stmts[m.flow.pc]? = some s → m.flow.executed < m.flow.limit →
      exec dice s m.fetched = .error halt m' →
      Ending dice p m (halt.outcome, m'.conclude halt.outcome)
  | asleep {s : Stmt} {m' : Machine} : m.reporter.signal.isRaised = false →
      p.stmts[m.flow.pc]? = some s → m.flow.executed < m.flow.limit →
      exec dice s m.fetched = .ok () m' → (m'.stepReport s).returns = false →
      Ending dice p m (.asleep, m'.stepped s)

/-- A turn that ends a run is of one of these kinds. -/
theorem ending_of_verdict {v : Outcome × Machine} (ends : verdict? (turn dice p m) = some v) :
    Ending dice p m v := by
  cases raised : m.reporter.signal.isRaised with
  | true =>
      rw [turn_of_raised raised] at ends
      obtain rfl := Option.some.inj ends
      exact .raised raised
  | false =>
      cases fetches : p.stmts[m.flow.pc]? with
      | none =>
          rw [turn_of_end raised fetches] at ends
          obtain rfl := Option.some.inj ends
          exact .completed raised fetches
      | some s =>
          by_cases full : m.flow.limit ≤ m.flow.executed
          · rw [turn_of_full raised fetches full] at ends
            obtain rfl := Option.some.inj ends
            exact .full raised fetches full
          · have room : m.flow.executed < m.flow.limit := Nat.lt_of_not_le full
            rw [turn_of_room raised fetches room] at ends
            cases stopped : exec dice s m.fetched with
            | ok _ m' =>
                rw [stopped] at ends
                dsimp only at ends
                cases returns : (m'.stepReport s).returns with
                | true =>
                    rw [returns] at ends
                    cases ends
                | false =>
                    rw [returns] at ends
                    obtain rfl := Option.some.inj ends
                    exact .asleep raised fetches room stopped returns
            | error halt m' =>
                rw [stopped] at ends
                obtain rfl := Option.some.inj ends
                exact .stopped raised fetches room stopped

/-- The last turn of a run that is completed or fails changes neither canvas nor pen nor variables
and reports nothing. -/
theorem Ending.left_eq {v : Outcome × Machine} (ending : Ending dice p m v)
    (uncancelled : v.1 ≠ .cancelled) (awake : v.1 ≠ .asleep) (inRange : v.1 ≠ .overflow) :
    ∃ throws flow, v.2 = { m.polled with throws, flow }.conclude v.1 := by
  cases ending with
  | raised _ => exact absurd rfl uncancelled
  | completed _ _ => exact ⟨m.throws, m.flow, rfl⟩
  | full _ _ _ => exact ⟨m.throws, m.flow, rfl⟩
  | asleep _ _ _ _ _ => exact absurd rfl awake
  | @stopped s halt m' _ _ _ stopped =>
      cases halt with
      | cancelled => exact absurd rfl uncancelled
      | asleep => exact absurd rfl awake
      | overflow => exact absurd rfl inRange
      | failed f =>
          obtain ⟨throws, rfl⟩ := unchanged_of_exec_failed stopped
          exact ⟨throws, m.fetched.flow, rfl⟩

/-- A run that is not cancelled has not seen the signal raised. -/
theorem Turns.unraised {v : Outcome × Machine} (turns : Turns dice p m history m')
    (ends : verdict? (turn dice p m') = some v) (uncancelled : v.1 ≠ .cancelled) :
    m.reporter.signal.isRaised = false := by
  cases turns with
  | cons now _ => exact (turn_eq_some now).1
  | nil =>
      cases raised : m.reporter.signal.isRaised with
      | false => rfl
      | true =>
          rw [turn_of_raised raised] at ends
          obtain rfl := Option.some.inj ends
          exact absurd rfl uncancelled

/-! ### Whole runs -/

/-- A run whose labels are refused ends before its first turn. -/
theorem run_of_refused {f : Failure} (refused : Flow.ofProgram p limit = .error f)
    (dice : Nat → Nat) (m : Machine) :
    run dice p limit m = (.failed f, m.restart.conclude (.failed f)) := by
  have ends : execute dice p limit m.restart = .error (.failed f) m.restart := by
    rw [execute, refused]
    rfl
  rw [run, ends]
  rfl

/-- The loop goes through a history turn by turn. -/
theorem loop_of_turns (turns : Turns dice p m history m') (bound : Nat) :
    loop dice p (history.length + bound) m = loop dice p bound m' := by
  induction turns with
  | nil => rw [List.length_nil, Nat.zero_add]
  | cons now _ ih =>
      rw [List.length_cons, Nat.add_right_comm, loop_succ, bind_of_ok now]
      exact ih

/-- **A turn that executes no statement ends the run.** -/
theorem run_of_verdict {v : Outcome × Machine} (reaches : Reaches dice p limit m history m')
    (ends : verdict? (turn dice p m') = some v) : run dice p limit m = v := by
  obtain ⟨-, -, room⟩ := reaches.executed_eq
  obtain ⟨flow, labels, turns⟩ := reaches
  have bound : limit + 1 = history.length + (limit - history.length + 1) := by omega
  rw [run, execute_of_labels labels, bound, loop_of_turns turns, loop_succ]
  cases last : turn dice p m' with
  | error halt m₁ =>
      rw [last] at ends
      rw [bind_of_error last]
      cases halt <;> exact Option.some.inj ends
  | ok executed m₁ =>
      rw [last] at ends
      rw [bind_of_ok last]
      cases executed with
      | none => exact Option.some.inj ends
      | some s => cases ends

/-- **Every run ends in the turn behind a history**, unless its labels are refused. -/
theorem run_course {flow : Flow} (labels : Flow.ofProgram p limit = .ok flow) (dice : Nat → Nat)
    (m : Machine) :
    ∃ history last, Reaches dice p limit m history last ∧
      verdict? (turn dice p last) = some (run dice p limit m) := by
  obtain ⟨history, last, stopped, turns, ending⟩ := @execute_ends dice p limit flow labels m.restart
  have reaches : Reaches dice p limit m history last := ⟨flow, labels, turns⟩
  obtain ⟨v, verdict⟩ : ∃ v, verdict? (turn dice p last) = some v := by
    rcases ending with ⟨ends, -⟩ | ⟨halt, ends, -⟩
    · rw [ends]
      exact ⟨_, rfl⟩
    · rw [ends]
      exact ⟨_, rfl⟩
  exact ⟨history, last, reaches, by rw [verdict, run_of_verdict reaches verdict]⟩

end Machine

end PenScript
