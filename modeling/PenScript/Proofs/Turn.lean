import PenScript.Proofs.Deed

/-!
# Runs as sequences of turns

The loop of a run does the same thing again and again: it looks whether the run is cancelled,
fetches a statement, executes it and reports it. One such round is a *turn*. A run is a finite
sequence of turns that executed a statement each, and one last turn that did not: the program was at
its end, the run was cancelled, or something failed.

What the executed statements were, and on which machine each of them was executed, is the history of
the run so far. Facts about all reachable machines are proved once for a turn and then carried along
the history.

## Main definitions

* `Machine.turn` — one round of the loop;
* `Machine.Turns` — a history leads from one machine to another one;
* `Machine.Reaches` — what a run of a program has executed at some time;
* `Machine.finalUpdate?` — the last update of a run, if it ends.

## Main results

* `Machine.turn_eq`: what a turn does;
* `Machine.Turns.invariant`: what every turn keeps, a history keeps;
* `Machine.execute_ends`: every execution is a history and a last turn.
-/

namespace PenScript

namespace Machine

variable (dice : Nat → Nat) (p : Program)

/-! ### One turn -/

/-- One round of the loop: the statement that was executed, or `none` at the end of the program. -/
def turn : Run (Option Stmt) := do
  checkpoint
  match ← fetch p with
  | none => return none
  | some s =>
    exec dice s
    reportStep s
    return some s

/-- The loop goes on as long as a turn executes a statement. -/
theorem loop_succ (bound : Nat) :
    loop dice p (bound + 1) = turn dice p >>= fun
      | none => pure ()
      | some _ => loop dice p bound := by
  rw [loop, turn, bind_assoc]
  refine congrArg (checkpoint >>= ·) (funext fun _ => ?_)
  rw [bind_assoc]
  refine congrArg (fetch p >>= ·) (funext fun next => ?_)
  cases next with
  | none => rfl
  | some s => simp only [bind_assoc, pure_bind]

/-- The machine that a statement is executed on: the poll was answered and the statement is
counted. -/
def fetched (m : Machine) : Machine :=
  { m.polled with flow := { m.flow with pc := m.flow.pc + 1, executed := m.flow.executed + 1 } }

/-- What is reported behind a statement. -/
def stepReport (m : Machine) (s : Stmt) : Reported :=
  if s.isDrawing then m.reporter.step m.canvas ("Executed " ++ s.text) else m.reporter.goOn

/-- The machine behind the report about a statement. -/
def stepped (m : Machine) (s : Stmt) : Machine :=
  { m with reporter := (m.stepReport s).reporter }

/-- The report about a statement leaves all but the reporter. The run goes on exactly if the report
returns. -/
theorem reportStep_eq (s : Stmt) (m : Machine) :
    reportStep s m =
      if (m.stepReport s).returns then .ok () (m.stepped s)
      else .error .asleep (m.stepped s) := by
  rw [reportStep, stepped, stepReport]
  split
  · exact reported_eq (m.reporter.step m.canvas ("Executed " ++ s.text)) m
  · rfl

/-- What is fetched: nothing at the end, and no statement beyond the limit. -/
theorem fetch_eq (m : Machine) :
    fetch p m =
      match p.stmts[m.flow.pc]? with
      | none => .ok none m
      | some s =>
        if m.flow.limit ≤ m.flow.executed then
          .error (.failed ⟨s.loc, .limitReached m.flow.limit⟩) m
        else .ok (some s) { m with
          flow := { m.flow with pc := m.flow.pc + 1, executed := m.flow.executed + 1 } } := by
  rw [fetch, bind_of_ok (get_eq m), Flow.next]
  cases p.stmts[m.flow.pc]? with
  | none => rfl
  | some s =>
      dsimp only
      split <;> rfl

/-- What a turn does: it is cancelled, or it is at the end, or it has reached the limit, or it
executes the statement that is next and reports it. -/
theorem turn_eq (m : Machine) :
    turn dice p m =
      if m.reporter.signal.isRaised then .error .cancelled m.polled
      else match p.stmts[m.flow.pc]? with
        | none => .ok none m.polled
        | some s =>
          if m.flow.limit ≤ m.flow.executed then
            .error (.failed ⟨s.loc, .limitReached m.flow.limit⟩) m.polled
          else match exec dice s m.fetched with
            | .ok _ m' =>
              if (m'.stepReport s).returns then .ok (some s) (m'.stepped s)
              else .error .asleep (m'.stepped s)
            | .error halt m' => .error halt m' := by
  cases raised : m.reporter.signal.isRaised with
  | true => exact bind_of_error (by rw [checkpoint_eq, raised]; rfl)
  | false =>
      have polls : checkpoint m = .ok () m.polled := by rw [checkpoint_eq, raised]; rfl
      rw [turn, bind_of_ok polls]
      have next := fetch_eq p m.polled
      cases stmt : p.stmts[m.flow.pc]? with
      | none =>
          rw [show m.polled.flow = m.flow from rfl, stmt] at next
          exact bind_of_ok next
      | some s =>
          rw [show m.polled.flow = m.flow from rfl, stmt] at next
          dsimp only at next ⊢
          by_cases full : m.flow.limit ≤ m.flow.executed
          · rw [if_pos full] at next ⊢
            exact bind_of_error next
          · rw [if_neg full] at next ⊢
            rw [bind_of_ok next]
            cases done : exec dice s m.fetched with
            | error halt m' => exact bind_of_error done
            | ok _ m' =>
                refine (bind_of_ok done).trans ?_
                have reports := reportStep_eq s m'
                simp only [Bool.false_eq_true, if_false]
                split at reports
                · next returns =>
                  rw [if_pos returns]
                  exact bind_of_ok reports
                · next waits =>
                  rw [if_neg waits]
                  exact bind_of_error reports

section Inversion

variable {dice : Nat → Nat} {p : Program} {m m' : Machine}

/-- A turn that executed a statement fetched it within the limit and reported it. -/
theorem turn_eq_some {s : Stmt} (h : turn dice p m = .ok (some s) m') :
    m.reporter.signal.isRaised = false ∧ p.stmts[m.flow.pc]? = some s ∧
      m.flow.executed < m.flow.limit ∧
      ∃ m₁, exec dice s m.fetched = .ok () m₁ ∧ m' = m₁.stepped s ∧
        (m₁.stepReport s).returns = true := by
  rw [turn_eq] at h
  cases raised : m.reporter.signal.isRaised with
  | true => simp [raised] at h
  | false =>
      simp only [raised, Bool.false_eq_true, if_false] at h
      cases stmt : p.stmts[m.flow.pc]? with
      | none => simp [stmt] at h
      | some t =>
          simp only [stmt] at h
          by_cases full : m.flow.limit ≤ m.flow.executed
          · simp [full] at h
          · rw [if_neg full] at h
            cases done : exec dice t m.fetched with
            | error halt m₁ => simp [done] at h
            | ok _ m₁ =>
                rw [done] at h
                dsimp only at h
                cases returns : (m₁.stepReport t).returns with
                | false =>
                    rw [returns] at h
                    cases h
                | true =>
                    rw [returns] at h
                    cases h
                    exact ⟨rfl, rfl, Nat.lt_of_not_le full, m₁, done, rfl, returns⟩

/-- A turn that stopped the run was cancelled by its poll, or found the limit reached, or executed a
statement that stopped, or fell asleep behind it. -/
theorem turn_eq_error {halt : Halt} (h : turn dice p m = .error halt m') :
    (m.reporter.signal.isRaised = true ∧ halt = .cancelled ∧ m' = m.polled) ∨
      ∃ s, p.stmts[m.flow.pc]? = some s ∧
        ((halt = .failed ⟨s.loc, .limitReached m.flow.limit⟩ ∧ m' = m.polled) ∨
          exec dice s m.fetched = .error halt m' ∨
          halt = .asleep ∧ ∃ m₁, exec dice s m.fetched = .ok () m₁ ∧ m' = m₁.stepped s ∧
            (m₁.stepReport s).returns = false) := by
  rw [turn_eq] at h
  cases raised : m.reporter.signal.isRaised with
  | true =>
      simp only [raised, if_true] at h
      cases h
      exact Or.inl ⟨rfl, rfl, rfl⟩
  | false =>
      simp only [raised, Bool.false_eq_true, if_false] at h
      cases stmt : p.stmts[m.flow.pc]? with
      | none => simp [stmt] at h
      | some s =>
          refine Or.inr ⟨s, rfl, ?_⟩
          simp only [stmt] at h
          by_cases full : m.flow.limit ≤ m.flow.executed
          · rw [if_pos full] at h
            cases h
            exact Or.inl ⟨rfl, rfl⟩
          · rw [if_neg full] at h
            cases done : exec dice s m.fetched with
            | ok _ m₁ =>
                rw [done] at h
                dsimp only at h
                cases returns : (m₁.stepReport s).returns with
                | true =>
                    rw [returns] at h
                    cases h
                | false =>
                    rw [returns] at h
                    cases h
                    exact Or.inr (Or.inr ⟨rfl, m₁, rfl, rfl, returns⟩)
            | error halt m₁ =>
                rw [done] at h
                cases h
                exact Or.inr (Or.inl rfl)

/-- A turn counts one more statement and leaves labels and limit. -/
theorem flow_of_turn {s : Stmt} (h : turn dice p m = .ok (some s) m') :
    m'.flow = { m.flow with pc := m'.flow.pc, executed := m.flow.executed + 1 } := by
  obtain ⟨-, -, -, m₁, done, rfl, -⟩ := turn_eq_some h
  change m₁.flow = _
  rw [flow_of_exec done]
  rfl

end Inversion

/-! ### Histories -/

/-- The turns between two machines: the executed statements in order, each with the machine that it
was executed on. -/
inductive Turns : Machine → List (Machine × Stmt) → Machine → Prop
  | nil (m : Machine) : Turns m [] m
  | cons {m m₁ m' : Machine} {s : Stmt} {history : List (Machine × Stmt)} :
      turn dice p m = .ok (some s) m₁ → Turns m₁ history m' →
      Turns m ((m.fetched, s) :: history) m'

/-- A run of a program has executed a history and stands at a machine. -/
def Reaches (limit : Nat) (m : Machine) (history : List (Machine × Stmt)) (m' : Machine) : Prop :=
  ∃ flow, Flow.ofProgram p limit = .ok flow ∧ Turns dice p { m.restart with flow } history m'

variable {dice p}

/-- What every turn of a history keeps holds at its end. -/
theorem Turns.invariant {I : Machine → Prop} {m m' : Machine} {history : List (Machine × Stmt)}
    (turns : Turns dice p m history m') (start : I m)
    (step : ∀ m s m', (m.fetched, s) ∈ history → turn dice p m = .ok (some s) m' → I m → I m') :
    I m' := by
  induction turns with
  | nil => exact start
  | cons now _ ih =>
      refine ih (step _ _ _ List.mem_cons_self now start) fun m s m' mem => ?_
      exact step m s m' (List.mem_cons_of_mem _ mem)

/-! ### Whole runs -/

/-- The update about a run that has come to its end. -/
def completion (canvas : Canvas) : Update :=
  { kind := .complete, canvas, message := "Execution completed" }

/-- The update about a run that was cancelled. -/
def cancellation (canvas : Canvas) : Update :=
  { kind := .complete, canvas, message := "Execution cancelled" }

/-- The update about a run that has failed. -/
def breakdown (canvas : Canvas) (f : Failure) : Update :=
  { kind := .error, canvas, message := some f.diagnostic.text, errors := [f.diagnostic] }

/-- The update about the end of a run. Nothing is reported of a run that never returns, and of one
that is broken off. -/
def finalUpdate? (canvas : Canvas) : Outcome → Option Update
  | .completed => some (completion canvas)
  | .cancelled => some (cancellation canvas)
  | .failed f => some (breakdown canvas f)
  | .asleep | .overflow => none

/-- At the end of a run its end is reported, and nothing else. -/
theorem log_conclude (m : Machine) (outcome : Outcome) :
    (m.conclude outcome).reporter.log.toList =
      m.reporter.log.toList ++ (finalUpdate? m.canvas outcome).toList := by
  cases outcome with
  | completed | cancelled | failed => exact Array.toList_push
  | asleep | overflow => exact (List.append_nil _).symm

/-- The loop ends with a turn that executes no statement: the limit of the flow stops it before its
bound is used up. -/
theorem loop_ends {bound : Nat} {m : Machine} (within : m.flow.executed ≤ m.flow.limit)
    (enough : m.flow.limit < bound + m.flow.executed) :
    ∃ history m₁ m₂, Turns dice p m history m₁ ∧
      ((turn dice p m₁ = .ok none m₂ ∧ loop dice p bound m = .ok () m₂) ∨
        ∃ halt, turn dice p m₁ = .error halt m₂ ∧ loop dice p bound m = .error halt m₂) := by
  induction bound generalizing m with
  | zero => omega
  | succ bound ih =>
      rw [loop_succ]
      cases now : turn dice p m with
      | error halt m₂ =>
          exact ⟨[], m, m₂, .nil m, Or.inr ⟨halt, now, bind_of_error now⟩⟩
      | ok next m₁ =>
          cases next with
          | none => exact ⟨[], m, m₁, .nil m, Or.inl ⟨now, bind_of_ok now⟩⟩
          | some s =>
              have counted := flow_of_turn now
              obtain ⟨-, -, room, -⟩ := turn_eq_some now
              have limit : m₁.flow.limit = m.flow.limit := by rw [counted]
              have executed : m₁.flow.executed = m.flow.executed + 1 := by rw [counted]
              obtain ⟨history, m₂, m₃, turns, ending⟩ := ih (m := m₁) (by omega) (by omega)
              rw [bind_of_ok now]
              exact ⟨_, m₂, m₃, .cons now turns, ending⟩

/-- A program starts at its first statement with nothing executed. -/
theorem flow_of_ofProgram {limit : Nat} {flow : Flow} (h : Flow.ofProgram p limit = .ok flow) :
    flow.pc = 0 ∧ flow.executed = 0 ∧ flow.limit = limit := by
  rw [Flow.ofProgram] at h
  cases labels : Flow.labelsFrom 0 .empty p.stmts with
  | error f => simp [labels, Except.map] at h
  | ok table =>
      simp only [labels, Except.map, Except.ok.injEq] at h
      subst h
      exact ⟨rfl, rfl, rfl⟩

/-- At the start of a run nothing is executed, and the loop has room for all that may be. -/
theorem room_of_ofProgram {limit : Nat} {flow : Flow} (h : Flow.ofProgram p limit = .ok flow) :
    flow.executed ≤ flow.limit ∧ flow.limit < limit + 1 + flow.executed := by
  obtain ⟨-, executed, limited⟩ := flow_of_ofProgram h
  omega

/-- A program with clean labels is executed by the loop. -/
theorem execute_of_labels {limit : Nat} {flow : Flow} (h : Flow.ofProgram p limit = .ok flow)
    (dice : Nat → Nat) (m : Machine) :
    execute dice p limit m = loop dice p (limit + 1) { m with flow } := by
  rw [execute, h]
  rfl

/-- **Every execution is a history and a last turn**, unless the labels of the program are refused
before it starts. -/
theorem execute_ends {limit : Nat} {flow : Flow} (h : Flow.ofProgram p limit = .ok flow)
    (m : Machine) :
    ∃ history m₁ m₂, Turns dice p { m with flow } history m₁ ∧
      ((turn dice p m₁ = .ok none m₂ ∧ execute dice p limit m = .ok () m₂) ∨
        ∃ halt, turn dice p m₁ = .error halt m₂ ∧ execute dice p limit m = .error halt m₂) := by
  obtain ⟨within, enough⟩ := room_of_ofProgram h
  rw [execute_of_labels h]
  exact loop_ends within enough

/-- A run that fails has failed in its last turn, or its labels were refused. -/
theorem run_eq_failed {limit : Nat} {m : Machine} {f : Failure}
    (h : (run dice p limit m).1 = .failed f) :
    (Flow.ofProgram p limit = .error f ∧
        (run dice p limit m).2 = m.restart.conclude (.failed f)) ∨
      ∃ history m₁ m₂, Reaches dice p limit m history m₁ ∧
        turn dice p m₁ = .error (.failed f) m₂ ∧
        (run dice p limit m).2 = m₂.conclude (.failed f) := by
  cases labels : Flow.ofProgram p limit with
  | error g =>
      have refused : execute dice p limit m.restart = .error (.failed g) m.restart := by
        rw [execute, labels]
        rfl
      rw [run, refused] at h ⊢
      cases h
      exact Or.inl ⟨rfl, rfl⟩
  | ok flow =>
      obtain ⟨history, m₁, m₂, turns, ⟨last, ended⟩ | ⟨halt, last, ended⟩⟩ :=
        execute_ends labels m.restart
      · rw [run, ended] at h
        cases h
      · rw [run, ended] at h ⊢
        cases halt with
        | failed g =>
            cases h
            exact Or.inr ⟨history, m₁, m₂, ⟨flow, labels, turns⟩, last, rfl⟩
        | cancelled | asleep | overflow => cases h

end Machine

end PenScript
