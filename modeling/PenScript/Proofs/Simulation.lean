import PenScript.Proofs.Journal

/-!
# Two runs side by side

A program is run on two machines that are alike in some respect, and it is shown that they stay
alike. What the loop does is the same for every such respect and is proved here once: polls, reports
and pauses change the reporters only, and what is fetched depends on the flow only. Who compares two
runs says what is alike, and shows that one statement keeps it.

One of the two runs may stop for a reason that the other one does not have, such as a cancellation.
Nothing is said about the other run then: the reason is an *excuse*.

## Main definitions

* `Machine.Simulates` — the ends of the same step on two machines;
* `Machine.Abreast` — what the loop asks of a relation between machines, and of the excuses.

## Main results

* `Machine.Simulates.bind`: one step after the other;
* `Machine.turn_simulates`, `Machine.loop_simulates`: what statements keep, turns and loops keep;
* `Machine.run_simulates`: two runs without an excuse have the same outcome and stay alike.
-/

namespace PenScript

namespace Machine

variable {α β : Type} {R : Machine → Machine → Prop} {E E' : Halt → Prop} {m n : Machine}

/-- The ends of the same step on two machines: the same answer or the same stop, on machines that
are related by `R`; or one of the two has stopped for an excuse, of `E` on the first machine and of
`E'` on the second one. -/
inductive Simulates (R : Machine → Machine → Prop) (E E' : Halt → Prop) :
    EStateM.Result Halt Machine α → EStateM.Result Halt Machine α → Prop
  | ok {a : α} {m n : Machine} : R m n → Simulates R E E' (.ok a m) (.ok a n)
  | stopped {halt : Halt} {m n : Machine} :
      R m n → Simulates R E E' (.error halt m) (.error halt n)
  | first {halt : Halt} {m : Machine} {r : EStateM.Result Halt Machine α} :
      E halt → Simulates R E E' (.error halt m) r
  | second {halt : Halt} {n : Machine} {r : EStateM.Result Halt Machine α} :
      E' halt → Simulates R E E' r (.error halt n)

/-- A second step is made on both machines, or on none of them. -/
theorem Simulates.bind {x y : Run α} {f g : α → Run β} (now : Simulates R E E' (x m) (y n))
    (next : ∀ a m' n', x m = .ok a m' → R m' n' → Simulates R E E' (f a m') (g a n')) :
    Simulates R E E' ((x >>= f) m) ((y >>= g) n) := by
  generalize hx : x m = r, hy : y n = r' at now
  cases now with
  | ok related =>
      rw [bind_of_ok hx, bind_of_ok hy]
      exact next _ _ _ hx related
  | stopped related =>
      rw [bind_of_error hx, bind_of_error hy]
      exact .stopped related
  | first excused =>
      rw [bind_of_error hx]
      exact .first excused
  | second excused =>
      rw [bind_of_error hy]
      exact .second excused

/-- What is settled behind painting is related if the painting is. -/
theorem Simulates.settled {r r' : EStateM.Result Halt Machine Unit} {g g' : Machine → Machine}
    (painted : Simulates R E E' r r') (settles : ∀ m n, R m n → R (g m) (g' n)) (whole : Bool) :
    Simulates R E E' (settled whole g r) (settled whole g' r') := by
  cases painted with
  | stopped related => exact .stopped related
  | first excused => exact .first excused
  | second excused => exact .second excused
  | ok related =>
      cases whole with
      | true => exact .ok (settles _ _ related)
      | false => exact .stopped related

/-- What the loop asks of a relation between two machines: the reporters have no part in it, and the
flow is the same on both. A cancellation and an endless pause are excuses. -/
structure Abreast (R : Machine → Machine → Prop) (E E' : Halt → Prop) : Prop where
  reporter : ∀ {m n} r r', R m n → R { m with reporter := r } { n with reporter := r' }
  flow : ∀ {m n}, R m n → n.flow = m.flow
  setFlow : ∀ {m n} flow, R m n → R { m with flow } { n with flow }
  first : ∀ halt, halt = .cancelled ∨ halt = .asleep → E halt
  second : ∀ halt, halt = .cancelled ∨ halt = .asleep → E' halt

section Loop

variable (abreast : Abreast R E E')
include abreast

/-- Both machines poll; one of them may be cancelled. -/
theorem checkpoint_simulates (related : R m n) :
    Simulates R E E' (checkpoint m) (checkpoint n) := by
  rw [checkpoint_eq, checkpoint_eq]
  by_cases raised : m.reporter.signal.isRaised = true
  · rw [if_pos raised]
    exact .first (abreast.first _ (Or.inl rfl))
  by_cases raised' : n.reporter.signal.isRaised = true
  · rw [if_pos raised']
    exact .second (abreast.second _ (Or.inl rfl))
  rw [if_neg raised, if_neg raised']
  exact .ok (abreast.reporter _ _ related)

/-- Both machines report; one of them may fall asleep. -/
theorem reported_simulates (r r' : Reported) (related : R m n) :
    Simulates R E E' (reported r m) (reported r' n) := by
  rw [reported_eq, reported_eq]
  by_cases returns : r.returns = true
  · by_cases returns' : r'.returns = true
    · rw [if_pos returns, if_pos returns']
      exact .ok (abreast.reporter _ _ related)
    · rw [if_neg returns']
      exact .second (abreast.second _ (Or.inr rfl))
  · rw [if_neg returns]
    exact .first (abreast.first _ (Or.inr rfl))

/-- Both machines fetch the same statement of the program. -/
theorem fetch_simulates (p : Program) (related : R m n) :
    Simulates R E E' (fetch p m) (fetch p n) := by
  rw [fetch_eq, fetch_eq, abreast.flow related]
  cases p.stmts[m.flow.pc]? with
  | none => exact .ok related
  | some s =>
      dsimp only
      split
      · exact .stopped related
      · exact .ok (abreast.setFlow _ related)

/-- Both machines report the same statement, each in its own way. -/
theorem reportStep_simulates (s : Stmt) (related : R m n) :
    Simulates R E E' (reportStep s m) (reportStep s n) := by
  rw [reportStep]
  split
  · exact reported_simulates abreast _ _ related
  · exact .ok related

omit abreast in
/-- What is fetched is a statement of the program. -/
theorem mem_of_fetch {p : Program} {s : Stmt} {m' : Machine}
    (done : fetch p m = .ok (some s) m') : s ∈ p.stmts := by
  rw [fetch_eq] at done
  cases next : p.stmts[m.flow.pc]? with
  | none =>
      rw [next] at done
      cases done
  | some s' =>
      rw [next] at done
      dsimp only at done
      split at done
      · cases done
      · cases done
        exact List.mem_of_getElem? next

variable {dice dice' : Nat → Nat} {p : Program}
  (execs : ∀ s ∈ p.stmts, ∀ m n, R m n → Simulates R E E' (exec dice s m) (exec dice' s n))
include execs

/-- **The same turn on two machines.** Both execute the same statement, or end in the same way. -/
theorem turn_simulates (related : R m n) :
    Simulates R E E' (turn dice p m) (turn dice' p n) := by
  refine (checkpoint_simulates abreast related).bind fun _ m₁ n₁ _ related => ?_
  refine (fetch_simulates abreast p related).bind fun next m₂ n₂ fetched related => ?_
  cases next with
  | none => exact .ok related
  | some s =>
      refine (execs s (mem_of_fetch fetched) m₂ n₂ related).bind fun _ m₃ n₃ _ related => ?_
      refine (reportStep_simulates abreast s related).bind fun _ m₄ n₄ _ related => ?_
      exact .ok related

/-- Turn by turn the two machines do the same. -/
theorem loop_simulates (bound : Nat) (related : R m n) :
    Simulates R E E' (loop dice p bound m) (loop dice' p bound n) := by
  induction bound generalizing m n with
  | zero => exact .ok related
  | succ bound ih =>
      rw [loop_succ, loop_succ]
      refine (turn_simulates abreast execs related).bind fun executed m' n' _ related' => ?_
      cases executed with
      | none => exact .ok related'
      | some s => exact ih related'

/-- Both machines execute the program from its start. -/
theorem execute_simulates (limit : Nat) (related : R m n) :
    Simulates R E E' (execute dice p limit m) (execute dice' p limit n) := by
  rw [execute, execute]
  cases Flow.ofProgram p limit with
  | error f => exact .stopped related
  | ok flow => exact loop_simulates abreast execs (limit + 1) (abreast.setFlow flow related)

end Loop

/-! ### Whole runs -/

/-- How a run ends whose execution ends so. -/
def outcome : EStateM.Result Halt Machine Unit → Outcome
  | .ok _ _ => .completed
  | .error halt _ => halt.outcome

/-- The outcome of a run is that of its execution. -/
theorem run_fst (dice : Nat → Nat) (p : Program) (limit : Nat) (m : Machine) :
    (run dice p limit m).1 = outcome (execute dice p limit m.restart) := by
  rw [run]
  cases execute dice p limit m.restart with
  | ok _ m' => rfl
  | error halt m' => rfl

/-- The report about the end changes the reporter only. -/
theorem conclude_eq (m : Machine) (outcome : Outcome) :
    m.conclude outcome = { m with reporter := (m.conclude outcome).reporter } := by
  cases outcome <;> rfl

/-- **The same run on two machines.** If neither of them stops for an excuse then they have the same
outcome, and the machines that they leave are related. -/
theorem run_simulates (abreast : Abreast R E E') {dice dice' : Nat → Nat} {p : Program}
    (execs : ∀ s ∈ p.stmts, ∀ m n, R m n → Simulates R E E' (exec dice s m) (exec dice' s n))
    {limit : Nat} (start : R m.restart n.restart)
    (own : ∀ halt, (run dice p limit m).1 = halt.outcome → ¬E halt)
    (own' : ∀ halt, (run dice' p limit n).1 = halt.outcome → ¬E' halt) :
    (run dice p limit m).1 = (run dice' p limit n).1 ∧
      R (run dice p limit m).2 (run dice' p limit n).2 := by
  have ends := execute_simulates abreast execs limit start
  rw [run_fst] at own own'
  rw [run_snd, run_snd, run_fst, run_fst]
  generalize execute dice p limit m.restart = r, execute dice' p limit n.restart = r' at *
  have together {m' n' : Machine} (o : Outcome) (related : R m' n') :
      R (m'.conclude o) (n'.conclude o) := by
    rw [conclude_eq m', conclude_eq n']
    exact abreast.reporter _ _ related
  cases ends with
  | ok related => exact ⟨rfl, together .completed related⟩
  | @stopped halt _ _ related => exact ⟨rfl, together halt.outcome related⟩
  | first excused => exact absurd excused (own _ rfl)
  | second excused => exact absurd excused (own' _ rfl)

end Machine

end PenScript
