import PenScript.Proofs.JumpTable
import PenScript.Proofs.Pace

/-!
# The limit of a run

A run executes no more statements than its limit, and fails in front of the statement behind them.
In all other respects the limit is not seen: a statement does the same whatever the limit is, so a
run that ends within its limit is the same run under every larger one, and under a smaller one it
goes the same way up to there. So every run stops, unless it falls asleep: a pause that nobody ends
is not counted by any limit.

## Main definitions

* `Machine.limited` — the same machine in a run of another limit.

## Main results

* `Machine.unseen_limited`: a statement does not see the limit;
* `Machine.turn_limited`: nor does a turn that is within both limits;
* `Machine.Reaches.limited`: two runs go the same way as long as both limits allow;
* `Machine.limit_is_exact`: what the limit does to a run;
* `Machine.sleeper_and_twins_ignore_the_limit`: a run that never stops, and one that never starts.
-/

namespace PenScript

/-- Which labels are refused does not depend on the limit. -/
theorem Flow.ofProgram_limit {p : Program} {limit : Nat} {flow : Flow}
    (started : ofProgram p limit = .ok flow) (k : Nat) :
    ofProgram p k = .ok { flow with limit := k } := by
  obtain ⟨labels, collected, rfl⟩ := ofProgram_eq_ok started
  rw [ofProgram, collected]
  rfl

namespace Machine

variable {dice : Nat → Nat} {p : Program} {limit k : Nat} {m m' : Machine}
  {history : List (Machine × Stmt)}

/-! ### Another limit -/

/-- The same machine in a run of another limit. -/
def limited (k : Nat) (m : Machine) : Machine :=
  { m with flow := { m.flow with limit := k } }

/-- A statement does not see the limit. -/
theorem unseen_limited (k : Nat) : Unseen (limited k) where
  deed _ _ _ := rfl
  pen _ := rfl
  raised _ := rfl
  polled _ := rfl
  laid _ _ _ := rfl
  returns _ _ _ := rfl
  throws _ _ := rfl
  settles _ _ _ _ := rfl

/-- A turn does not see the limit, unless it has reached one of the two. -/
theorem turn_limited (within : ∀ s, m.reporter.signal.isRaised = false →
      p.stmts[m.flow.pc]? = some s → m.flow.executed < m.flow.limit ∧ m.flow.executed < k) :
    turn dice p (m.limited k) = onMachine (limited k) (turn dice p m) := by
  cases raised : m.reporter.signal.isRaised with
  | true =>
      rw [turn_of_raised raised, turn_of_raised (m := m.limited k) raised]
      rfl
  | false =>
      cases fetches : p.stmts[m.flow.pc]? with
      | none =>
          rw [turn_of_end raised fetches, turn_of_end (m := m.limited k) raised fetches]
          rfl
      | some s =>
          obtain ⟨room, room'⟩ := within s raised fetches
          rw [turn_of_room raised fetches room,
            turn_of_room (m := m.limited k) raised fetches room',
            show (m.limited k).fetched = m.fetched.limited k from rfl, (unseen_limited k).exec]
          cases exec dice s m.fetched with
          | error halt m₁ => rfl
          | ok _ m₁ =>
              change (if (m₁.stepReport s).returns then .ok (some s) ((m₁.stepped s).limited k)
                else .error .asleep ((m₁.stepped s).limited k)) = onMachine (limited k)
                  (if (m₁.stepReport s).returns then .ok (some s) (m₁.stepped s)
                    else .error .asleep (m₁.stepped s))
              split <;> rfl

/-! ### The same way -/

/-- The same history in a run of another limit. -/
def relimited (k : Nat) (history : List (Machine × Stmt)) : List (Machine × Stmt) :=
  history.map fun entry => (entry.1.limited k, entry.2)

/-- Turns that another limit allows as well are the same. -/
theorem Turns.limited (turns : Turns dice p m history m')
    (enough : m.flow.executed + history.length ≤ k) :
    Turns dice p (m.limited k) (relimited k history) (m'.limited k) := by
  induction turns with
  | nil => exact .nil _
  | @cons m m₁ m' s history now _ ih =>
      obtain ⟨-, -, room, -⟩ := turn_eq_some now
      have counted := flow_of_turn now
      have executed : m₁.flow.executed = m.flow.executed + 1 := by rw [counted]
      rw [List.length_cons] at enough
      have now' : turn dice p (m.limited k) = .ok (some s) (m₁.limited k) := by
        rw [turn_limited fun _ _ _ => ⟨room, by omega⟩, now]
        rfl
      exact .cons now' (ih (by omega))

/-- Two runs go the same way as long as both limits allow. -/
theorem Reaches.limited (reaches : Reaches dice p limit m history m')
    (enough : history.length ≤ k) :
    Reaches dice p k m (relimited k history) (m'.limited k) := by
  obtain ⟨flow, started, turns⟩ := reaches
  obtain ⟨-, none, -⟩ := flow_of_ofProgram started
  refine ⟨{ flow with limit := k }, Flow.ofProgram_limit started k, ?_⟩
  exact turns.limited (by rw [show _ = flow.executed from rfl, none]; omega)

/-- The end of a run does not see the limit. -/
theorem verdict?_limited (r : EStateM.Result Halt Machine (Option Stmt)) :
    verdict? (onMachine (limited k) r) =
      (verdict? r).map fun v => (v.1, v.2.limited k) := by
  cases r with
  | ok executed m =>
      cases executed with
      | some s => rfl
      | none => rfl
  | error halt m => cases halt <;> rfl

/-! ### The end of a run -/

/-- A run fails for its limit exactly if the limit is reached and a statement is left. -/
theorem Ending.limit_iff {v : Outcome × Machine} (ending : Ending dice p m v)
    (uncancelled : v.1 ≠ .cancelled) {loc : Location} {n : Nat} :
    v.1 = .failed ⟨loc, .limitReached n⟩ ↔
      n = m.flow.limit ∧ m.flow.limit ≤ m.flow.executed ∧
        ∃ s, p.stmts[m.flow.pc]? = some s ∧ s.loc = loc := by
  cases ending with
  | raised _ => exact absurd rfl uncancelled
  | completed _ ended =>
      constructor
      · intro failed
        cases failed
      · rintro ⟨-, -, s, fetches, -⟩
        rw [ended] at fetches
        cases fetches
  | @full s _ fetches full =>
      constructor
      · intro failed
        cases failed
        exact ⟨rfl, full, s, fetches, rfl⟩
      · rintro ⟨rfl, -, t, fetches', rfl⟩
        rw [fetches] at fetches'
        cases fetches'
        rfl
  | @stopped s halt m' _ fetches room stopped =>
      constructor
      · intro failed
        cases halt with
        | cancelled | asleep | overflow => cases failed
        | failed f =>
            -- the statement was fetched within the limit, so it fails for another reason
            cases failed
            obtain inner | ⟨label, e, -, missing, -⟩ := fault_of_exec stopped
            · cases inner
            · cases missing
      · rintro ⟨-, full, -⟩
        omega
  | asleep _ _ room _ _ =>
      constructor
      · intro failed
        cases failed
      · rintro ⟨-, full, -⟩
        omega

/-- A run that does not fail for its limit has ended within it. -/
theorem Ending.within {v : Outcome × Machine} (ending : Ending dice p m v)
    (unlimited : ∀ loc n, v.1 ≠ .failed ⟨loc, .limitReached n⟩) (s : Stmt)
    (unraised : m.reporter.signal.isRaised = false) (fetches : p.stmts[m.flow.pc]? = some s) :
    m.flow.executed < m.flow.limit := by
  cases ending with
  | raised raised =>
      rw [unraised] at raised
      cases raised
  | completed _ ended =>
      rw [ended] at fetches
      cases fetches
  | full _ _ _ => exact absurd rfl (unlimited _ _)
  | stopped _ _ room _ => exact room
  | asleep _ _ room _ _ => exact room

/-- A run that has ended within its limit is the same under every larger one. -/
theorem run_of_larger_limit (reaches : Reaches dice p limit m history m')
    (ends : verdict? (turn dice p m') = some (run dice p limit m))
    (unlimited : ∀ loc n, (run dice p limit m).1 ≠ .failed ⟨loc, .limitReached n⟩)
    (larger : limit ≤ k) :
    run dice p k m = ((run dice p limit m).1, (run dice p limit m).2.limited k) := by
  obtain ⟨-, limit_eq, below⟩ := reaches.executed_eq
  refine run_of_verdict (reaches.limited (by omega)) ?_
  have within (s : Stmt) (unraised : m'.reporter.signal.isRaised = false)
      (fetches : p.stmts[m'.flow.pc]? = some s) :
      m'.flow.executed < m'.flow.limit ∧ m'.flow.executed < k := by
    have room := (ending_of_verdict ends).within unlimited s unraised fetches
    omega
  rw [turn_limited within, verdict?_limited, ends]
  rfl

/-- A run under a smaller limit stops in front of the next statement. -/
theorem run_of_smaller_limit {here : Machine} {s : Stmt}
    (reaches : Reaches dice p limit m history here) (count : history.length = k)
    (unraised : here.reporter.signal.isRaised = false)
    (fetches : p.stmts[here.flow.pc]? = some s) :
    Reaches dice p k m (relimited k history) (here.limited k) ∧
      run dice p k m = (.failed ⟨s.loc, .limitReached k⟩,
        (here.limited k).polled.conclude (.failed ⟨s.loc, .limitReached k⟩)) := by
  have reaches' := reaches.limited (Nat.le_of_eq count)
  refine ⟨reaches', run_of_verdict reaches' ?_⟩
  have full : (here.limited k).flow.limit ≤ (here.limited k).flow.executed := by
    obtain ⟨executed, -, -⟩ := reaches.executed_eq
    rw [show (here.limited k).flow.executed = here.flow.executed from rfl, executed]
    exact Nat.le_of_eq count.symm
  rw [turn_of_full (m := here.limited k) unraised fetches full]
  rfl

/-- **The limit is exact, and otherwise it is not seen.** A run that nobody cancels and whose pauses
pass stops by itself. A run that is not cancelled either never starts, because its labels are
refused whatever the limit, or it executes a history and ends behind it. The history is not longer
than the limit. The run fails for its limit exactly if the history is as long as that and a
statement is left, and it names the place of that statement. If it ends in another way then every
run under a larger limit has the same outcome and leaves the same machine but for the limit. And
wherever in the history one cuts, the run under the limit that is reached there goes the same way up
to there and fails in front of the next statement, if there is one. -/
theorem limit_is_exact (dice : Nat → Nat) (p : Program) (limit : Nat) (m : Machine) :
    (m.reporter.Free → m.reporter.pace.Passing → (run dice p limit m).1.Undisturbed) ∧
    ((run dice p limit m).1 ≠ .cancelled →
      (∃ loc name, (run dice p limit m).1 = .failed ⟨loc, .labelAgain name⟩ ∧
        ∀ k, Flow.ofProgram p k = .error ⟨loc, .labelAgain name⟩ ∧
          run dice p k m = run dice p limit m) ∨
      ∃ history last, Reaches dice p limit m history last ∧
        verdict? (turn dice p last) = some (run dice p limit m) ∧
        history.length ≤ limit ∧
        (∀ loc n, (run dice p limit m).1 = .failed ⟨loc, .limitReached n⟩ ↔
          n = limit ∧ history.length = limit ∧
            ∃ s, p.stmts[last.flow.pc]? = some s ∧ s.loc = loc) ∧
        ((∀ loc n, (run dice p limit m).1 ≠ .failed ⟨loc, .limitReached n⟩) →
          ∀ k, limit ≤ k →
            run dice p k m = ((run dice p limit m).1, (run dice p limit m).2.limited k)) ∧
        ∀ k < limit, k ≤ history.length →
          ∃ here, Reaches dice p limit m (history.take k) here ∧
            ∀ s, p.stmts[here.flow.pc]? = some s →
              Reaches dice p k m (relimited k (history.take k)) (here.limited k) ∧
              run dice p k m = (.failed ⟨s.loc, .limitReached k⟩,
                (here.limited k).polled.conclude (.failed ⟨s.loc, .limitReached k⟩))) := by
  refine ⟨run_of_passing dice p limit, fun uncancelled => ?_⟩
  cases reported : (Label.collect p).2 with
  | cons first others =>
      obtain ⟨name, -, -, refused⟩ := Label.ofProgram_of_reported reported
      rw [run_of_refused (refused limit)]
      exact Or.inl ⟨first.loc, name, rfl, fun k => ⟨refused k, run_of_refused (refused k) dice m⟩⟩
  | nil =>
      obtain ⟨flow, started, -⟩ := Label.ofProgram_of_clean reported limit
      obtain ⟨history, last, reaches, ends⟩ := run_course started dice m
      obtain ⟨executed, limit_eq, below⟩ := reaches.executed_eq
      refine Or.inr ⟨history, last, reaches, ends, below, fun loc n => ?_, ?_, fun k _ inside => ?_⟩
      · rw [(ending_of_verdict ends).limit_iff uncancelled, executed, limit_eq]
        have equal : limit ≤ history.length ↔ history.length = limit := by omega
        rw [equal]
      · intro unlimited k larger
        exact run_of_larger_limit reaches ends unlimited larger
      · obtain ⟨flow, started, turns⟩ := reaches
        rw [← List.take_append_drop k history] at turns
        obtain ⟨here, front, back⟩ := turns.split
        have reaches' : Reaches dice p limit m (history.take k) here := ⟨flow, started, front⟩
        refine ⟨here, reaches', fun s fetches => ?_⟩
        exact run_of_smaller_limit reaches' (by rw [List.length_take]; omega)
          (back.unraised ends uncancelled) fetches

/-- The limit that a run just needs is as good as any larger one, and one less is not enough. -/
theorem three_statements_suffice :
    (run (fun _ => 0) downAndUp 3 threePixels).1 = .completed ∧
      (run (fun _ => 0) downAndUp 2 threePixels).1 = .failed ⟨⟨5, 1⟩, .limitReached 2⟩ ∧
      ∀ k, 3 ≤ k → run (fun _ => 0) downAndUp k threePixels =
        (.completed, (run (fun _ => 0) downAndUp 3 threePixels).2.limited k) := by
  have completed : (run (fun _ => 0) downAndUp 3 threePixels).1 = .completed := by decide +kernel
  refine ⟨completed, by decide +kernel, ?_⟩
  obtain ⟨loc, name, failed, -⟩ | ⟨history, last, -, -, -, -, larger, -⟩ :=
    (limit_is_exact (fun _ => 0) downAndUp 3 threePixels).2 (by rw [completed]; nofun)
  · rw [completed] at failed
    cases failed
  · rw [completed] at larger
    exact larger nofun

/-- A program that declares a label twice. -/
def twins : Program where
  stmts := [⟨⟨1, 1⟩, .label "a"⟩, ⟨⟨2, 1⟩, .label "a"⟩]

/-- **What the limit does not decide.** Nobody cancels this run, and it never stops: it is within
its limit and sleeps behind its first line. And this one is refused for its labels although its
limit is reached before the first statement. -/
theorem sleeper_and_twins_ignore_the_limit :
    sleepy.Free ∧
      (run (fun _ => 0) twoPixels 10 (watched.reportedBy sleepy)).1 = .asleep ∧
      hasty.Free ∧
      (run (fun _ => 0) twins 0 (watched.reportedBy hasty)).1 =
        .failed ⟨⟨2, 1⟩, .labelAgain "a"⟩ := by
  refine ⟨⟨rfl, rfl⟩, by decide +kernel, ⟨rfl, rfl⟩, by decide +kernel⟩

end Machine

end PenScript
