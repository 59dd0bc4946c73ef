import PenScript.Proofs.Accepted
import PenScript.Proofs.Course
import PenScript.Proofs.Steering

/-!
# The checker and a run agree about labels

The checker and a run both collect the labels of a program, and they treat a second declaration
differently: the checker keeps the first one, reports all others and goes on, a run refuses the
program at the first of them. So they agree on which programs are refused, and where, and on the
tables of all others.

Behind that, every jump of an accepted program leads to the declaration of its label, from every
place that a run can come to: the places behind any number of fetched statements and jumps.

## Main definitions

* `Flow.Points` — a table with the indices of the declarations;
* `Flow.Passes` — the flows behind any number of fetched statements and jumps;
* `Flow.Lands` — a jump that leads to the declaration of its label.

## Main results

* `Label.labelsFrom_refuses`: a run refuses the declaration that the checker reports first;
* `Flow.Passes.lands`: all jumps of an accepted program land;
* `Machine.Reaches.passes`: what a run comes to;
* `Machine.labels_agree`: the checker and a run agree about labels.
-/

namespace PenScript

/-! ### Collecting labels -/

/-- A run refuses the declaration that the checker reports first. -/
theorem Label.labelsFrom_refuses {i : Nat} {table : Table Decl} {labels : Table Nat}
    {ss : List Stmt} {first : Located SemanticError} {others : SemanticErrors}
    (same : Matches table labels) (reported : (collectFrom i table ss).2 = first :: others) :
    ∃ name earlier, first.what = .labelAgain name earlier ∧
      Flow.labelsFrom i labels ss = .error ⟨first.loc, .labelAgain name⟩ := by
  induction ss generalizing i table labels with
  | nil => cases reported
  | cons s ss ih =>
      obtain ⟨loc, kind⟩ := s
      cases kind with
      | label name =>
          simp only [collectFrom, Flow.labelsFrom] at reported ⊢
          rw [← same name]
          cases declared : table.get? name with
          | some decl =>
              simp only [declared, List.cons.injEq] at reported
              obtain ⟨rfl, -⟩ := reported
              exact ⟨name, decl.loc, rfl, rfl⟩
          | none =>
              simp only [declared] at reported
              refine ih (fun other => ?_) reported
              rw [Table.get?_insert, Table.get?_insert]
              split
              · rfl
              · exact same other
      | _ => exact ih same reported

namespace Label

variable {p : Program}

/-- Two empty tables match. -/
theorem matches_empty : Matches .empty .empty := fun _ => rfl

/-- Labels that the checker does not report are those of a run. -/
theorem ofProgram_of_clean (clean : (collect p).2 = []) (limit : Nat) :
    ∃ flow, Flow.ofProgram p limit = .ok flow ∧ Matches (collect p).1 flow.labels := by
  obtain ⟨labels, collected, same⟩ := labelsFrom_of_collectFrom matches_empty clean
  exact ⟨{ labels, limit }, by rw [Flow.ofProgram, collected]; rfl, same⟩

/-- A program that the checker reports a label of is refused there, whatever the limit. -/
theorem ofProgram_of_reported {first : Located SemanticError} {others : SemanticErrors}
    (reported : (collect p).2 = first :: others) :
    ∃ name earlier, first.what = .labelAgain name earlier ∧
      ∀ limit, Flow.ofProgram p limit = .error ⟨first.loc, .labelAgain name⟩ := by
  obtain ⟨name, earlier, what, refused⟩ := labelsFrom_refuses matches_empty reported
  exact ⟨name, earlier, what, fun limit => by rw [Flow.ofProgram, refused]; rfl⟩

/-- Labels are refused if and only if the checker reports one. -/
theorem ofProgram_refused_iff (p : Program) (limit : Nat) :
    (∃ f, Flow.ofProgram p limit = .error f) ↔ (collect p).2 ≠ [] := by
  constructor
  · rintro ⟨f, refused⟩ clean
    obtain ⟨flow, started, -⟩ := ofProgram_of_clean clean limit
    rw [started] at refused
    cases refused
  · intro reported
    obtain ⟨first, others, split⟩ := List.exists_cons_of_ne_nil reported
    obtain ⟨name, -, -, refused⟩ := ofProgram_of_reported split
    exact ⟨_, refused limit⟩

/-- A run that starts has the table of the checker. -/
theorem matches_of_ofProgram {limit : Nat} {flow : Flow}
    (started : Flow.ofProgram p limit = .ok flow) : Matches (collect p).1 flow.labels := by
  cases reported : (collect p).2 with
  | nil =>
      obtain ⟨flow', started', same⟩ := ofProgram_of_clean reported limit
      obtain rfl : flow = flow' := Except.ok.inj (started.symm.trans started')
      exact same
  | cons first others =>
      obtain ⟨name, -, -, refused⟩ := ofProgram_of_reported reported
      cases started.symm.trans (refused limit)

end Label

namespace Flow

variable {p : Program} {limit : Nat}

/-- Every label of the table is declared by the statement of its index. -/
def Points (p : Program) (labels : Table Nat) : Prop :=
  ∀ name i, labels.get? name = some i → ∃ loc, p.stmts[i]? = some ⟨loc, .label name⟩

/-- What is added to a table of labels are the indices of declarations. -/
theorem points_labelsFrom {i : Nat} {labels labels' : Table Nat} {ss : List Stmt}
    (rest : p.stmts.drop i = ss) (points : Points p labels)
    (collected : labelsFrom i labels ss = .ok labels') : Points p labels' := by
  -- the statements that are left are those from index `i` on
  induction ss generalizing i labels with
  | nil =>
      cases collected
      exact points
  | cons s ss ih =>
      have here : p.stmts[i]? = some s := by rw [← List.head?_drop, rest]; rfl
      have behind : p.stmts.drop (i + 1) = ss := by rw [← List.tail_drop, rest]; rfl
      obtain ⟨loc, kind⟩ := s
      cases kind with
      | label name =>
          rw [labelsFrom] at collected
          dsimp only at collected
          split at collected
          · cases collected
          · refine ih behind (fun other j found => ?_) collected
            rw [Table.get?_insert] at found
            split at found
            · next same =>
              cases same
              cases found
              exact ⟨loc, here⟩
            · exact points other j found
      | _ => exact ih behind points collected

/-- A program starts with the table of its labels, and at its first statement. -/
theorem ofProgram_eq_ok {flow : Flow} (started : ofProgram p limit = .ok flow) :
    ∃ labels, labelsFrom 0 .empty p.stmts = .ok labels ∧ flow = { labels, limit } := by
  rw [ofProgram] at started
  cases collected : labelsFrom 0 .empty p.stmts with
  | error f => simp [collected, Except.map] at started
  | ok labels =>
      simp only [collected, Except.map, Except.ok.injEq] at started
      exact ⟨labels, rfl, started.symm⟩

/-- The labels of a program that starts point to their declarations. -/
theorem points_of_ofProgram {flow : Flow} (started : ofProgram p limit = .ok flow) :
    Points p flow.labels := by
  obtain ⟨labels, collected, rfl⟩ := ofProgram_eq_ok started
  exact points_labelsFrom rfl (fun _ _ none => by cases none) collected

/-! ### Flows on their way -/

/-- A statement that is fetched is the one that is next, and it is counted. -/
theorem next_eq_some {f f' : Flow} {s : Stmt} (fetched : f.next p = .ok (some (s, f'))) :
    p.stmts[f.pc]? = some s ∧ f' = { f with pc := f.pc + 1, executed := f.executed + 1 } := by
  rw [next] at fetched
  split at fetched
  · cases fetched
  · next t stmt =>
    split at fetched
    · cases fetched
    · cases fetched
      exact ⟨stmt, rfl⟩

/-- A jump goes to the statement of its label and leaves all else. -/
theorem jump_eq_ok {f f' : Flow} {label : String} {loc : Location}
    (jumped : f.jump label loc = .ok f') :
    ∃ i, f.labels.get? label = some i ∧ f' = { f with pc := i } := by
  rw [jump] at jumped
  split at jumped
  · next i found =>
    cases jumped
    exact ⟨i, found, rfl⟩
  · cases jumped

/-- The flows behind any number of fetched statements and jumps, in any order. -/
inductive Passes (p : Program) (limit : Nat) : Flow → Prop
  | start {f : Flow} : ofProgram p limit = .ok f → Passes p limit f
  | next {f f' : Flow} {s : Stmt} : Passes p limit f → f.next p = .ok (some (s, f')) →
      Passes p limit f'
  | jump {f f' : Flow} {label : String} {loc : Location} : Passes p limit f →
      f.jump label loc = .ok f' → Passes p limit f'

/-- On its way a flow keeps its labels, and it does not leave the program. -/
theorem Passes.inside {f : Flow} (passes : Passes p limit f) :
    (∃ start, ofProgram p limit = .ok start ∧ f.labels = start.labels) ∧
      f.pc ≤ p.stmts.length := by
  induction passes with
  | start started =>
      obtain ⟨first, -, -⟩ := Machine.flow_of_ofProgram started
      exact ⟨⟨_, started, rfl⟩, by omega⟩
  | next _ fetched ih =>
      obtain ⟨stmt, rfl⟩ := next_eq_some fetched
      obtain ⟨inside, -⟩ := List.getElem?_eq_some_iff.1 stmt
      exact ⟨ih.1, inside⟩
  | jump _ jumped ih =>
      obtain ⟨i, found, rfl⟩ := jump_eq_ok jumped
      obtain ⟨⟨start, started, labels⟩, -⟩ := ih
      rw [labels] at found
      obtain ⟨loc, stmt⟩ := points_of_ofProgram started _ i found
      obtain ⟨inside, -⟩ := List.getElem?_eq_some_iff.1 stmt
      exact ⟨⟨start, started, labels⟩, Nat.le_of_lt inside⟩

/-- A jump from here leads to the declaration of its label: it succeeds, and the declaration is what
is fetched next, if the limit leaves room for it. -/
def Lands (p : Program) (f : Flow) (label : String) (loc : Location) : Prop :=
  ∃ (i : Nat) (place : Location), p.stmts[i]? = some ⟨place, .label label⟩ ∧
    f.jump label loc = .ok { f with pc := i } ∧
    { f with pc := i }.next p =
      if f.limit ≤ f.executed then .error ⟨place, .limitReached f.limit⟩
      else .ok (some (⟨place, .label label⟩, { f with pc := i + 1, executed := f.executed + 1 }))

/-- All jumps of an accepted program land, wherever a run is. -/
theorem Passes.lands {f : Flow} (passes : Passes p limit f) (accepted : p.check = []) {s : Stmt}
    {label : String} {e : Expr} (member : s ∈ p.stmts) (kind : s.kind = .goTo label e) :
    f.Lands p label s.loc := by
  obtain ⟨⟨start, started, labels⟩, -⟩ := passes.inside
  obtain ⟨start', started', known⟩ := p.flow_of_check accepted limit
  obtain rfl : start = start' := Except.ok.inj (started.symm.trans started')
  obtain ⟨i, found⟩ := Option.isSome_iff_exists.1 (known s member label e kind)
  obtain ⟨place, stmt⟩ := points_of_ofProgram started label i found
  refine ⟨i, place, stmt, ?_, ?_⟩
  · rw [Flow.jump, labels, found]
  · rw [Flow.next, stmt]

end Flow

/-! ### Runs -/

namespace Machine

variable {dice : Nat → Nat} {p : Program} {limit : Nat} {m m' : Machine}

/-- A fetched statement is a step of the flow. -/
theorem next_of_room {s : Stmt} (fetches : p.stmts[m.flow.pc]? = some s)
    (room : m.flow.executed < m.flow.limit) :
    m.flow.next p = .ok (some (s, m.fetched.flow)) := by
  rw [Flow.next, fetches]
  exact if_neg (Nat.not_le_of_lt room)

/-- A statement leaves the flow behind a fetched statement, or makes a jump. -/
theorem passes_of_exec {s : Stmt} (passes : Flow.Passes p limit m.flow)
    (done : exec dice s m = .ok () m') : Flow.Passes p limit m'.flow := by
  by_cases jumps : Jumps dice s m
  · obtain ⟨label, e, throws, kind, -⟩ := jumps
    obtain ⟨-, jumped⟩ | ⟨-, kept⟩ := flow_of_goTo kind done
    · exact passes.jump jumped
    · rw [kept]
      exact passes
  · rw [flow_of_straight jumps done]
    exact passes

/-- So does a turn. -/
theorem passes_of_turn {s : Stmt} (passes : Flow.Passes p limit m.flow)
    (now : turn dice p m = .ok (some s) m') : Flow.Passes p limit m'.flow := by
  obtain ⟨-, fetches, room, m₁, done, rfl, -⟩ := turn_eq_some now
  have behind := passes_of_exec (passes.next (next_of_room fetches room)) done
  exact behind

/-- What a run comes to is behind fetched statements and jumps. -/
theorem Reaches.passes {history : List (Machine × Stmt)}
    (reaches : Reaches dice p limit m history m') : Flow.Passes p limit m'.flow := by
  obtain ⟨flow, started, turns⟩ := reaches
  refine turns.invariant (I := fun m => Flow.Passes p limit m.flow) (.start started) ?_
  intro m s m' _ now passes
  exact passes_of_turn passes now

/-- A jump that is taken goes to its label. -/
theorem jump_of_turn {s : Stmt} {label : String} {e : Expr}
    (now : turn dice p m = .ok (some s) m') (kind : s.kind = .goTo label e)
    (taken : Jumps dice s m.fetched) : m.fetched.flow.jump label s.loc = .ok m'.flow := by
  obtain ⟨-, -, -, m₁, done, rfl, -⟩ := turn_eq_some now
  obtain ⟨-, jumped⟩ | ⟨straight, -⟩ := flow_of_goTo kind done
  · exact jumped
  · exact absurd taken straight

/-- A statement that stops the run leaves the flow. -/
theorem flow_of_exec_error {s : Stmt} {halt : Halt} (stopped : exec dice s m = .error halt m') :
    m'.flow = m.flow := by
  obtain ⟨f, throws, -, rfl, -⟩ | ⟨-, throws, painting⟩ | ⟨-, -, throws, painted⟩ :=
    exec_eq_error stopped
  · rfl
  · obtain ⟨_, _, painted | ⟨_, -, painted⟩⟩ :=
      paintPixels_cases m.pen.color (pixels dice s m) { m with throws }
    · rw [painted] at painting
      cases painting
    · rw [painted] at painting
      cases painting
      rfl
  · obtain ⟨_, _, rfl⟩ := paintPixels_left painted
    rfl

/-- The report about the end of a run leaves the flow. -/
theorem flow_conclude (m : Machine) (outcome : Outcome) : (m.conclude outcome).flow = m.flow := by
  cases outcome <;> rfl

/-- The last turn leaves the flow, or it has fetched a statement. -/
theorem Ending.passes {v : Outcome × Machine} (ending : Ending dice p m v)
    (passes : Flow.Passes p limit m.flow) : Flow.Passes p limit v.2.flow := by
  cases ending with
  | raised _ => exact passes
  | completed _ _ => exact passes
  | full _ _ _ => exact passes
  | stopped _ fetches room stopped =>
      have kept := flow_of_exec_error stopped
      have behind := passes.next (next_of_room fetches room)
      rw [flow_conclude, kept]
      exact behind
  | asleep _ fetches room done _ =>
      have behind := passes_of_exec (passes.next (next_of_room fetches room)) done
      exact behind

/-- No run of an accepted program fails for a label. -/
theorem no_label_fault (accepted : p.check = []) {f : Failure}
    (failed : (run dice p limit m).1 = .failed f) (name : String) :
    f.what ≠ .labelMissing name ∧ f.what ≠ .labelAgain name := by
  obtain ⟨refused, -⟩ | ⟨history, m₁, m₂, reaches, last, -⟩ := run_eq_failed failed
  · obtain ⟨flow, started, -⟩ := p.flow_of_check accepted limit
    rw [started] at refused
    cases refused
  · obtain ⟨-, cancelled, -⟩ | ⟨s, fetches, ⟨limited, -⟩ | stopped | ⟨asleep, -⟩⟩ :=
      turn_eq_error last
    · cases cancelled
    · obtain rfl := Halt.failed.inj limited
      exact ⟨nofun, nofun⟩
    · obtain inner | ⟨label, e, kind, -, unknown⟩ := fault_of_exec stopped
      · constructor
        · intro missing
          rw [missing] at inner
          cases inner
        · intro again
          rw [again] at inner
          cases inner
      · obtain ⟨i, place, -, jumped, -⟩ :=
          reaches.passes.lands accepted (List.mem_of_getElem? fetches) kind
        obtain ⟨j, found, -⟩ := Flow.jump_eq_ok jumped
        rw [show m₁.fetched.flow.labels = m₁.flow.labels from rfl, found] at unknown
        cases unknown
    · cases asleep

/-- **The checker and a run agree about labels.** A run refuses a program if and only if the checker
reports a declaration, and the first one that the checker reports is the one that the run names. All
other programs have the same labels at the same indices for both.

So let a program be accepted. Wherever fetched statements and jumps lead, the place is in the
program or right behind it, and from there every jump of the program leads to the declaration of its
label. The flows of every run are among these, a jump that is taken is a jump of the flow, and no
run fails for a label. -/
theorem labels_agree (p : Program) (limit : Nat) :
    ((∃ f, Flow.ofProgram p limit = .error f) ↔ (Label.collect p).2 ≠ []) ∧
    (∀ first others, (Label.collect p).2 = first :: others →
      ∃ name earlier, first.what = .labelAgain name earlier ∧
        Flow.ofProgram p limit = .error ⟨first.loc, .labelAgain name⟩) ∧
    (∀ flow, Flow.ofProgram p limit = .ok flow →
      ∀ name, ((Label.collect p).1.get? name).map Label.Decl.index = flow.labels.get? name) ∧
    (p.check = [] →
      (∃ flow, Flow.ofProgram p limit = .ok flow) ∧
      (∀ flow, Flow.Passes p limit flow → flow.pc ≤ p.stmts.length ∧
        ∀ s ∈ p.stmts, ∀ label e, s.kind = .goTo label e → flow.Lands p label s.loc) ∧
      ∀ (dice : Nat → Nat) (m : Machine),
        Flow.Passes p limit (run dice p limit m).2.flow ∧
        (∀ history m₁, Reaches dice p limit m history m₁ → Flow.Passes p limit m₁.flow ∧
          ∀ s m₂ label e, turn dice p m₁ = .ok (some s) m₂ → s.kind = .goTo label e →
            Jumps dice s m₁.fetched → m₁.fetched.flow.jump label s.loc = .ok m₂.flow) ∧
        ∀ f, (run dice p limit m).1 = .failed f →
          ∀ name, f.what ≠ .labelMissing name ∧ f.what ≠ .labelAgain name) := by
  refine ⟨Label.ofProgram_refused_iff p limit, ?_, ?_, fun accepted => ?_⟩
  · intro first others reported
    obtain ⟨name, earlier, what, refused⟩ := Label.ofProgram_of_reported reported
    exact ⟨name, earlier, what, refused limit⟩
  · intro flow started
    exact Label.matches_of_ofProgram started
  · obtain ⟨flow, started, -⟩ := p.flow_of_check accepted limit
    refine ⟨⟨flow, started⟩, fun flow passes => ⟨passes.inside.2, ?_⟩, fun dice m => ?_⟩
    · intro s member label e kind
      exact passes.lands accepted member kind
    · obtain ⟨history, last, reaches, ends⟩ := run_course started dice m
      refine ⟨(ending_of_verdict ends).passes reaches.passes, ?_, ?_⟩
      · intro history m₁ reaches
        exact ⟨reaches.passes, fun s m₂ label e now kind taken => jump_of_turn now kind taken⟩
      · intro f failed name
        exact no_label_fault accepted failed name

/-- A program with a jump to a label further down and one to a label further up. -/
def downAndUp : Program where
  stmts := [
    ⟨⟨1, 1⟩, .spawn (.lit ⟨1, 7⟩ (.int .zero)) (.lit ⟨1, 10⟩ (.int .zero))⟩,
    ⟨⟨2, 1⟩, .goTo "end" (.lit ⟨2, 11⟩ (.int .one))⟩,
    ⟨⟨3, 1⟩, .label "start"⟩,
    ⟨⟨4, 1⟩, .goTo "start" (.lit ⟨4, 13⟩ (.int .zero))⟩,
    ⟨⟨5, 1⟩, .label "end"⟩]

/-- Both jumps land, wherever the run is, and the run gets to its end. -/
theorem jumps_down_and_up_land :
    downAndUp.check = [] ∧
      (run (fun _ => 0) downAndUp 10 threePixels).1 = .completed ∧
      (run (fun _ => 0) downAndUp 10 threePixels).2.flow.pc = downAndUp.stmts.length ∧
      Flow.Passes downAndUp 10 (run (fun _ => 0) downAndUp 10 threePixels).2.flow ∧
      ∀ flow, Flow.Passes downAndUp 10 flow →
        flow.Lands downAndUp "end" ⟨2, 1⟩ ∧ flow.Lands downAndUp "start" ⟨4, 1⟩ := by
  have accepted : downAndUp.check = [] := by decide +kernel
  obtain ⟨-, -, -, agree⟩ := labels_agree downAndUp 10
  obtain ⟨-, lands, runs⟩ := agree accepted
  refine ⟨accepted, by decide +kernel, by decide +kernel, (runs (fun _ => 0) threePixels).1, ?_⟩
  intro flow passes
  obtain ⟨-, jumps⟩ := lands flow passes
  have down : downAndUp.stmts[1]? = some ⟨⟨2, 1⟩, .goTo "end" (.lit ⟨2, 11⟩ (.int .one))⟩ := rfl
  have up : downAndUp.stmts[3]? = some ⟨⟨4, 1⟩, .goTo "start" (.lit ⟨4, 13⟩ (.int .zero))⟩ := rfl
  exact ⟨jumps _ (List.mem_of_getElem? down) "end" _ rfl,
    jumps _ (List.mem_of_getElem? up) "start" _ rfl⟩

end Machine

end PenScript
