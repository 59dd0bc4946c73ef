import PenScript.Proofs.Accepted
import PenScript.Proofs.Turn

/-!
# Accepted programs run without static errors

The checker goes through a program once and in the order of the text. A run goes where the jumps
lead. As long as no jump is taken the two go side by side, and the variables have exactly the names
and types that the checker has noted: no static error is left. Once a jump is taken the table of the
checker may tell of assignments that were skipped, or of other ones than those that were made last.
If all assignments to a variable agree in type then only the first of the two matters, and what is
left is a variable without a value.

Both results come from the same step: a turn on a machine whose variables fit the table in front of
its statement. It finds values of the right types wherever it asks for one, so it never fails
because of a name or a type, except at a variable that has no value; and it changes the variables as
the checker says. The results differ in why the variables fit.

## Main definitions

* `Stmt.Settles` — what the checker says that a statement does to the variables;
* `Machine.Ends` — how a step may end;
* `Types.Agrees` — a table of types names exactly the variables that have values, and their types;
* `Program.Steady` — all assignments to a variable have the same type.

## Main results

* `Machine.exec_ends`: a statement does to the variables what the checker says, or it fails as types
  allow;
* `Machine.turn_ends`: so does a turn;
* `Machine.straight_runs_are_typed`: what the checker promises before the first jump;
* `Machine.steady_programs_are_typed`: what it promises behind any number of jumps.
-/

namespace PenScript

/-! ### Statements -/

namespace Stmt

variable {types : Types}

/-- Arguments that raise no error have the type that is asked for. -/
theorem typed_of_argErrors (known : types.Known) {c : Command} {expected : Ty}
    {i : Nat} {es : List Expr} (clean : argErrors types c expected i es = []) :
    ∀ e ∈ es, e.infer types = (some expected, []) := by
  induction es generalizing i with
  | nil => simp
  | cons e es ih =>
      rw [argErrors, List.append_eq_nil_iff, List.append_eq_nil_iff] at clean
      obtain ⟨⟨inner, own⟩, rest⟩ := clean
      obtain ⟨t, typed⟩ := Expr.infer_of_clean known inner
      rw [typed] at own
      obtain rfl := expectType_some_eq_nil.1 own
      exact List.forall_mem_cons.2 ⟨typed, ih rest⟩

/-- The arguments of a statement without errors have types, and the type that the statement takes.
-/
theorem typed_of_check (known : types.Known) {s : Stmt} (clean : (s.check types).2 = []) :
    ∀ e ∈ s.args, ∃ t, e.infer types = (some t, []) ∧ ∀ t', s.kind.takes = some t' → t = t' := by
  -- all but assignments, jumps and expressions have their arguments checked in a row
  have row {c : Command} {t : Ty} {es : List Expr} (typed : argErrors types c t 1 es = []) :
      ∀ e ∈ es, ∃ t', e.infer types = (some t', []) ∧ ∀ t'', some t = some t'' → t' = t'' :=
    fun e member => ⟨t, typed_of_argErrors known typed e member, fun _ => Option.some.inj⟩
  have drawn {c : Command} {dx dy : Expr} {others : List Expr}
      (clean : drawErrors types c dx dy others = []) :
      argErrors types c .intOrBool 1 (dx :: dy :: others) = [] := by
    rw [drawErrors, List.append_eq_nil_iff] at clean
    exact clean.2
  obtain ⟨loc, kind⟩ := s
  cases kind with
  | spawn _ _ | respawn _ _ | size _ | filling _ => exact row clean
  | color e => exact row (List.append_eq_nil_iff.1 clean).1
  | drawLine _ _ _ | drawCircle _ _ _ | drawRectangle _ _ _ _ _ => exact row (drawn clean)
  | fill | label _ => exact nofun
  | assign _ e | expr e =>
      intro e' member
      obtain rfl := List.mem_singleton.1 member
      obtain ⟨t, typed⟩ := Expr.infer_of_clean known clean
      exact ⟨t, typed, nofun⟩
  | goTo label e =>
      intro e' member
      obtain rfl := List.mem_singleton.1 member
      obtain ⟨inner, own⟩ := List.append_eq_nil_iff.1 clean
      obtain ⟨t, typed⟩ := Expr.infer_of_clean known inner
      rw [typed] at own
      obtain rfl := expectType_some_eq_nil.1 own
      exact ⟨_, typed, fun _ => Option.some.inj⟩

/-- What a statement does to the variables: an assignment binds its variable to a value of the
inferred type. -/
def Settles (types : Types) (s : Stmt) (vars vars' : Table Value) : Prop :=
  match s.kind with
  | .assign x e => ∃ v, (e.infer types).1 = some v.type ∧ vars' = vars.insert x v
  | _ => vars' = vars

/-- All statements but assignments leave the variables. -/
theorem settles_iff_of_not_assign {s : Stmt} {vars vars' : Table Value}
    (assigns : ∀ x e, s.kind ≠ .assign x e) : s.Settles types vars vars' ↔ vars' = vars := by
  obtain ⟨loc, kind⟩ := s
  cases kind with
  | assign x e => exact absurd rfl (assigns x e)
  | _ => exact Iff.rfl

/-- An assignment that is read has evaluated its expression. -/
theorem eval_of_act_assign {s : Stmt} {scene : Scene} {x : String} {v : Value}
    {throws throws' : Nat} (read : s.act scene throws = .ok (.assign x v, throws')) :
    ∃ e, s.kind = .assign x e ∧ e.eval scene throws = .ok (v, throws') := by
  obtain ⟨e, kind⟩ := (s.act_suits scene).of_eq_ok read
  refine ⟨e, kind, ?_⟩
  obtain ⟨loc, _⟩ := s
  cases kind
  have reads : Stmt.act ⟨loc, .assign x e⟩ scene =
      e.eval scene >>= fun v => pure (Act.assign x v) := rfl
  rw [reads] at read
  cases value : e.eval scene throws with
  | error f =>
      rw [Eval.bind_of_error value] at read
      cases read
  | ok r =>
      rw [Eval.bind_of_ok value] at read
      cases read
      rfl

/-- A statement without errors finds values of the right types: it is read with failures that types
allow. -/
theorem act_tolerates (scene : Scene) (known : types.Known) (fits : types.Fits scene.vars)
    {s : Stmt} (clean : (s.check types).2 = []) :
    Eval.Ensures (Act.Suits s scene.pen) (types.Tolerates scene.vars) (s.act scene) := by
  have typed := typed_of_check known clean
  refine act_ensures (fun loc e own => Expr.tolerates_of_dynamic _ _ ?_) (fun e member => ?_)
    fun t takes e member => ?_
  · cases e <;> first | rfl | cases own
  · obtain ⟨t, inferred, -⟩ := typed e member
    exact (Expr.eval_ensures known fits inferred).imp fun _ _ => trivial
  · obtain ⟨t', inferred, same⟩ := typed e member
    obtain rfl := same t takes
    exact (Expr.eval_ensures known fits inferred).imp fun _ => Or.inl

end Stmt

namespace Machine

variable {α : Type}

/-- A step has answered with `R`, failed with `Q`, or was stopped for another reason. -/
def Ends (Q : Failure → Prop) (R : α → Machine → Prop) : EStateM.Result Halt Machine α → Prop
  | .ok a m' => R a m'
  | .error (.failed f) _ => Q f
  | .error _ _ => True

/-- **Statements keep the types of variables.** A statement without errors, whose label is known if
it is a jump, does to the variables what the checker says, or fails as types allow. -/
theorem exec_ends {types : Types} {dice : Nat → Nat} {s : Stmt} {m : Machine} (known : types.Known)
    (fits : types.Fits m.vars) (clean : (s.check types).2 = [])
    (labelled : ∀ label e, s.kind = .goTo label e → (m.flow.labels.get? label).isSome) :
    Ends (types.Tolerates m.vars) (fun _ m' => s.Settles types m.vars m'.vars)
      (exec dice s m) := by
  have reads := Stmt.act_tolerates (m.scene dice) known fits clean
  rw [exec_eq_act, deed]
  cases read : s.act (m.scene dice) m.throws with
  | error f => exact reads.of_eq_error read
  | ok r =>
      obtain ⟨act, throws⟩ := r
      have suits := reads.of_eq_ok read
      dsimp only
      cases act with
      | settle pen => exact (Stmt.settles_iff_of_not_assign suits.2.1).2 rfl
      | rest => exact (Stmt.settles_iff_of_not_assign suits.2).2 rfl
      | assign x v =>
          obtain ⟨e, kind, value⟩ := Stmt.eval_of_act_assign read
          obtain ⟨loc, _⟩ := s
          cases kind
          obtain ⟨t, inferred, -⟩ := Stmt.typed_of_check known clean e List.mem_cons_self
          have type : v.type = t := (Expr.eval_ensures known fits inferred).of_eq_ok value
          refine ⟨v, ?_, rfl⟩
          rw [inferred, type]
      | jump label =>
          obtain ⟨e, kind⟩ := suits
          obtain ⟨i, target⟩ := Option.isSome_iff_exists.1 (labelled label e kind)
          rw [Deed.ofAct, target]
          have still : ∀ x e', s.kind ≠ .assign x e' := by
            intro x e' assigns
            cases kind.symm.trans assigns
          exact (Stmt.settles_iff_of_not_assign still).2 rfl
      | draw f =>
          have still : ∀ x e, s.kind ≠ .assign x e := by
            intro x e kind
            have draws := suits.1
            rw [Stmt.isDrawing, kind] at draws
            cases draws
          rw [Deed.ofAct, act_perform]
          obtain ⟨_, _, painted | ⟨_, outer | outer, stopped⟩⟩ := paintPixels_cases m.pen.color
            ((f.drawing m.canvas m.pen).coat m.canvas).pixels { m with throws }
          · rw [painted, settled]
            split
            · exact (Stmt.settles_iff_of_not_assign still).2 rfl
            · trivial
          · rw [stopped, outer]
            trivial
          · rw [stopped, outer]
            trivial

end Machine

/-! ### Tables of types and of values -/

namespace Types

variable {types : Types} {vars vars' : Table Value}

/-- The same names have types and values, and all values are of their types. -/
def Agrees (types : Types) (vars : Table Value) : Prop :=
  ∀ x, types.get? x = (vars.get? x).map fun v => some v.type

/-- Where both tables have a name, the value is of the type. -/
theorem Agrees.fits (agrees : types.Agrees vars) : types.Fits vars := by
  intro x t v typed bound
  have same := agrees x
  rw [typed, bound] at same
  exact Option.some.inj same

/-- A variable with a type has a value. -/
theorem Agrees.bound (agrees : types.Agrees vars) {x : String} (typed : (types.get? x).isSome) :
    vars.get? x ≠ none := by
  intro unbound
  rw [agrees x, unbound] at typed
  cases typed

/-- A statement that does what the checker says keeps the two tables in agreement. -/
theorem Agrees.settle {s : Stmt} (agrees : types.Agrees vars)
    (settles : s.Settles types vars vars') : (s.check types).1.Agrees vars' := by
  obtain ⟨loc, x, e, rfl⟩ | still := s.assign_or_not
  · obtain ⟨v, type, rfl⟩ := settles
    intro y
    rw [Stmt.check_assign, Table.get?_insert, Table.get?_insert, type]
    split
    · rfl
    · exact agrees y
  · rw [Stmt.check_fst_of_not_assign still, (Stmt.settles_iff_of_not_assign still).1 settles]
    exact agrees

end Types

namespace Machine

variable {dice : Nat → Nat} {p : Program} {limit : Nat} {m m' : Machine}
  {history : List (Machine × Stmt)}

/-! ### One turn -/

/-- The machine knows the labels of all jumps of the program. -/
def KnowsLabels (p : Program) (m : Machine) : Prop :=
  ∀ s ∈ p.stmts, ∀ label e, s.kind = .goTo label e → (m.flow.labels.get? label).isSome

/-- A turn on variables that fit the table in front of its statement does to them what the checker
says, or it fails as types allow. -/
theorem turn_ends (dice : Nat → Nat) (accepted : p.check = []) (labelled : KnowsLabels p m)
    (fits : (p.typesAt m.flow.pc).Fits m.vars) :
    Ends ((p.typesAt m.flow.pc).Tolerates m.vars)
      (fun executed m' =>
        ∀ s, executed = some s → s.Settles (p.typesAt m.flow.pc) m.vars m'.vars)
      (turn dice p m) := by
  rw [turn_eq]
  cases raised : m.reporter.signal.isRaised with
  | true => trivial
  | false =>
      simp only [Bool.false_eq_true, if_false]
      cases fetches : p.stmts[m.flow.pc]? with
      | none => exact fun s none => by cases none
      | some s =>
          dsimp only
          by_cases full : m.flow.limit ≤ m.flow.executed
          · rw [if_pos full]
            exact Or.inl rfl
          · have ends : Ends ((p.typesAt m.flow.pc).Tolerates m.vars)
                (fun _ m' => s.Settles (p.typesAt m.flow.pc) m.vars m'.vars)
                (exec dice s m.fetched) :=
              exec_ends (p.known_typesAt accepted _) fits (p.clean_of_check accepted fetches)
                (labelled s (List.mem_of_getElem? fetches))
            rw [if_neg full]
            cases done : exec dice s m.fetched with
            | error halt m' =>
                rw [done] at ends
                cases halt <;> exact ends
            | ok _ m' =>
                rw [done] at ends
                dsimp only
                split
                · rintro _ ⟨⟩
                  exact ends
                · trivial

section Turns

variable (accepted : p.check = []) (labelled : KnowsLabels p m)
  (fits : (p.typesAt m.flow.pc).Fits m.vars)
include accepted labelled fits

/-- A turn that executed a statement did to the variables what the checker says. -/
theorem settles_of_turn {s : Stmt} (h : turn dice p m = .ok (some s) m') :
    s.Settles (p.typesAt m.flow.pc) m.vars m'.vars := by
  have ends := turn_ends dice accepted labelled fits
  rw [h] at ends
  exact ends s rfl

/-- A turn that failed did so as types allow. -/
theorem tolerates_of_turn {f : Failure} (h : turn dice p m = .error (.failed f) m') :
    (p.typesAt m.flow.pc).Tolerates m.vars f := by
  have ends := turn_ends dice accepted labelled fits
  rwa [h] at ends

end Turns

/-- A turn counts and maybe jumps, but it leaves the labels. -/
theorem KnowsLabels.of_turn {s : Stmt} (labelled : KnowsLabels p m)
    (h : turn dice p m = .ok (some s) m') : KnowsLabels p m' := by
  rw [KnowsLabels, flow_of_turn h]
  exact labelled

/-- A turn without a jump goes on with the next statement. -/
theorem pc_of_turn {s : Stmt} (h : turn dice p m = .ok (some s) m')
    (straight : ¬Jumps dice s m.fetched) : m'.flow.pc = m.flow.pc + 1 := by
  obtain ⟨-, -, -, m₁, done, rfl, -⟩ := turn_eq_some h
  obtain ⟨throws, m₂, -, pen, vars, pc, rfl, stays, -⟩ := exec_eq_ok done
  exact stays straight

/-- Nothing has run yet: the machine stands in front of the first statement, without variables, and
knows the labels. -/
theorem start_of_reaches (accepted : p.check = []) (h : Reaches dice p limit m history m') :
    ∃ m₀, Turns dice p m₀ history m' ∧ KnowsLabels p m₀ ∧ m₀.flow.pc = 0 ∧ m₀.vars = .empty := by
  obtain ⟨flow, started, turns⟩ := h
  obtain ⟨flow', started', labelled⟩ := p.flow_of_check accepted limit
  rw [started] at started'
  cases started'
  exact ⟨_, turns, labelled, (flow_of_ofProgram started).1, rfl⟩

/-- A run of an accepted program that fails has failed in its last turn. -/
theorem last_turn_of_failed (accepted : p.check = []) {f : Failure}
    (failed : (run dice p limit m).1 = .failed f) :
    ∃ history m₁ m₂, Reaches dice p limit m history m₁ ∧
      turn dice p m₁ = .error (.failed f) m₂ := by
  obtain ⟨refused, -⟩ | ⟨history, m₁, m₂, reaches, last, -⟩ := run_eq_failed failed
  · obtain ⟨flow, started, -⟩ := p.flow_of_check accepted limit
    rw [started] at refused
    cases refused
  · exact ⟨history, m₁, m₂, reaches, last⟩

/-! ### Before the first jump -/

/-- No jump of a history was taken. -/
def Straight (dice : Nat → Nat) (history : List (Machine × Stmt)) : Prop :=
  ∀ entry ∈ history, ¬Jumps dice entry.2 entry.1

/-- A history without jumps follows the text of the program. -/
theorem Turns.follows (turns : Turns dice p m history m') (straight : Straight dice history) :
    m'.flow.pc = m.flow.pc + history.length ∧
      history.map Prod.snd = (p.stmts.drop m.flow.pc).take history.length := by
  induction turns with
  | nil => exact ⟨rfl, rfl⟩
  | @cons m m₁ m' s history now _ ih =>
      obtain ⟨here, straight⟩ := List.forall_mem_cons.1 straight
      obtain ⟨pc, follows⟩ := ih straight
      obtain ⟨-, fetches, -, -⟩ := turn_eq_some now
      rw [pc_of_turn now here] at pc follows
      refine ⟨by rw [pc, List.length_cons]; omega, ?_⟩
      obtain ⟨inside, rfl⟩ := List.getElem?_eq_some_iff.1 fetches
      rw [List.map_cons, follows, List.drop_eq_getElem_cons inside, List.length_cons,
        List.take_succ_cons]

/-- Before the first jump the variables are those that the checker has noted. -/
theorem agrees_of_reaches (accepted : p.check = []) (reaches : Reaches dice p limit m history m')
    (straight : Straight dice history) :
    KnowsLabels p m' ∧ (p.typesAt m'.flow.pc).Agrees m'.vars := by
  obtain ⟨m₀, turns, labelled, pc, vars⟩ := start_of_reaches accepted reaches
  refine turns.invariant (I := fun m => KnowsLabels p m ∧ (p.typesAt m.flow.pc).Agrees m.vars)
    ⟨labelled, ?_⟩ ?_
  · rw [pc, vars]
    exact fun _ => rfl
  · rintro m s m₁ mem now ⟨labelled, agrees⟩
    obtain ⟨-, fetches, -, -⟩ := turn_eq_some now
    refine ⟨labelled.of_turn now, ?_⟩
    rw [pc_of_turn now (straight _ mem), Program.typesAt_succ fetches]
    exact agrees.settle (settles_of_turn accepted labelled agrees.fits now)

/-- Before the first jump no static error is left. -/
theorem not_static_of_straight (accepted : p.check = [])
    (reaches : Reaches dice p limit m history m') (straight : Straight dice history)
    {m₁ : Machine} {f : Failure} (failed : turn dice p m' = .error (.failed f) m₁) :
    f.what.isStatic = false := by
  obtain ⟨labelled, agrees⟩ := agrees_of_reaches accepted reaches straight
  obtain dynamic | ⟨x, -, unbound, typed⟩ :=
    tolerates_of_turn accepted labelled agrees.fits failed
  · exact dynamic
  · exact absurd unbound (agrees.bound typed)

/-- **Runs are typed up to their first jump.** Let a program be accepted, and let a run of it have
executed some statements without taking a jump. These are the first statements of the program; the
variables are exactly those that the checker has noted behind the last of them, with values of the
noted types; and if the next turn fails then not with a static error. So a whole run that fails with
a static error has taken a jump before. -/
theorem straight_runs_are_typed (accepted : p.check = []) (dice : Nat → Nat) (limit : Nat)
    (m : Machine) :
    (∀ history m₁, Reaches dice p limit m history m₁ → Straight dice history →
      history.map Prod.snd = p.stmts.take history.length ∧
        (p.typesAt history.length).Agrees m₁.vars ∧
        ∀ f m₂, turn dice p m₁ = .error (.failed f) m₂ → f.what.isStatic = false) ∧
    ∀ f, (run dice p limit m).1 = .failed f → f.what.isStatic = true →
      ∃ history m₁ m₂, Reaches dice p limit m history m₁ ∧
        turn dice p m₁ = .error (.failed f) m₂ ∧ ¬Straight dice history := by
  constructor
  · intro history m₁ reaches straight
    obtain ⟨m₀, turns, -, pc, -⟩ := start_of_reaches accepted reaches
    obtain ⟨here, follows⟩ := turns.follows straight
    obtain ⟨-, agrees⟩ := agrees_of_reaches accepted reaches straight
    rw [pc, Nat.zero_add] at here
    rw [here] at agrees
    rw [pc, List.drop_zero] at follows
    exact ⟨follows, agrees, fun f m₂ => not_static_of_straight accepted reaches straight⟩
  · intro f failed static
    obtain ⟨history, m₁, m₂, reaches, last⟩ := last_turn_of_failed accepted failed
    refine ⟨history, m₁, m₂, reaches, last, fun straight => ?_⟩
    rw [not_static_of_straight accepted reaches straight last] at static
    cases static

/-- A program whose variable changes its type. -/
def retyping : Program where
  stmts := [
    ⟨⟨1, 1⟩, .spawn (.lit ⟨1, 7⟩ (.int .zero)) (.lit ⟨1, 10⟩ (.int .zero))⟩,
    ⟨⟨2, 1⟩, .assign "x" (.lit ⟨2, 6⟩ (.int .one))⟩,
    ⟨⟨3, 1⟩, .size (.var ⟨3, 6⟩ "x")⟩,
    ⟨⟨4, 1⟩, .assign "x" (.lit ⟨4, 6⟩ (.str "red"))⟩,
    ⟨⟨5, 1⟩, .color (.var ⟨5, 7⟩ "x")⟩]

/-- A machine with a canvas of one pixel. -/
def onePixel : Machine where
  canvas := .blank 1 1
  reporter := { pace := {} }

/-- The table of types in front of each statement is the right one, also where a type changes. -/
theorem retyping_is_typed :
    retyping.check = [] ∧ (run (fun _ => 0) retyping 10 onePixel).1 = .completed ∧
      ∀ history m₁, Reaches (fun _ => 0) retyping 10 onePixel history m₁ →
        Straight (fun _ => 0) history → (retyping.typesAt history.length).Agrees m₁.vars := by
  have accepted : retyping.check = [] := by decide +kernel
  refine ⟨accepted, by decide +kernel, fun history m₁ reaches straight => ?_⟩
  exact ((straight_runs_are_typed accepted (fun _ => 0) 10 onePixel).1 history m₁ reaches
    straight).2.1

/-! ### Behind any number of jumps -/

end Machine

namespace Program

variable {p : Program} {vars vars' : Table Value}

/-- All assignments to a variable have the same type. -/
def Steady (p : Program) : Prop :=
  ∀ x t t', p.Declares x t → p.Declares x t' → t = t'

/-- Every value of a variable is of the type of some assignment to it. -/
def Declared (p : Program) (vars : Table Value) : Prop :=
  ∀ x v, vars.get? x = some v → p.Declares x v.type

/-- Without variables there is nothing to declare. -/
theorem declared_empty (p : Program) : p.Declared .empty :=
  fun _ _ bound => by cases bound

/-- In a steady program such variables fit the table in front of every statement, wherever a jump
may lead. -/
theorem Declared.fits (accepted : p.check = []) (steady : p.Steady) (declared : p.Declared vars)
    (i : Nat) : (p.typesAt i).Fits vars := by
  intro x found v typed bound
  obtain ⟨t, rfl⟩ := Option.ne_none_iff_exists'.1 fun h => p.known_typesAt accepted i x (h ▸ typed)
  obtain ⟨j, loc, e, -, assigns, type⟩ := p.assigned_of_typesAt typed
  rw [steady x t v.type ⟨j, loc, e, assigns, type⟩ (declared x v bound)]

/-- A statement that does what the checker says keeps all values declared. -/
theorem Declared.settle {i : Nat} {s : Stmt} (declared : p.Declared vars)
    (at_i : p.stmts[i]? = some s) (settles : s.Settles (p.typesAt i) vars vars') :
    p.Declared vars' := by
  obtain ⟨loc, x, e, rfl⟩ | still := s.assign_or_not
  · obtain ⟨v, type, rfl⟩ := settles
    intro y w bound
    rw [Table.get?_insert] at bound
    split at bound
    · next same =>
      cases bound
      cases same
      exact ⟨i, loc, e, at_i, type⟩
    · exact declared y w bound
  · rw [(Stmt.settles_iff_of_not_assign still).1 settles]
    exact declared

end Program

namespace Machine

variable {dice : Nat → Nat} {p : Program} {limit : Nat} {m m' : Machine}
  {history : List (Machine × Stmt)}

/-- In a steady program all values are declared, and the labels known, behind any history. -/
theorem Turns.declared (accepted : p.check = []) (steady : p.Steady)
    (turns : Turns dice p m history m') (labelled : KnowsLabels p m)
    (declared : p.Declared m.vars) : KnowsLabels p m' ∧ p.Declared m'.vars := by
  refine turns.invariant (I := fun m => KnowsLabels p m ∧ p.Declared m.vars) ⟨labelled, declared⟩ ?_
  rintro m s m₁ - now ⟨labelled, declared⟩
  obtain ⟨-, fetches, -, -⟩ := turn_eq_some now
  have fits := declared.fits accepted steady m.flow.pc
  exact ⟨labelled.of_turn now, declared.settle fetches (settles_of_turn accepted labelled fits now)⟩

/-- A variable that has no value was not assigned, and had none before. -/
theorem Turns.unassigned (accepted : p.check = []) (steady : p.Steady)
    (turns : Turns dice p m history m') (labelled : KnowsLabels p m)
    (declared : p.Declared m.vars) {x : String} (unbound : m'.vars.get? x = none) :
    m.vars.get? x = none ∧ ∀ entry ∈ history, ∀ e, entry.2.kind ≠ .assign x e := by
  induction turns with
  | nil => exact ⟨unbound, by simp⟩
  | @cons m m₁ m' s history now turns ih =>
      have one : Turns dice p m [(m.fetched, s)] m₁ := .cons now (.nil m₁)
      obtain ⟨labelled₁, declared₁⟩ := one.declared accepted steady labelled declared
      obtain ⟨unbound₁, unassigned⟩ := ih labelled₁ declared₁ unbound
      have settles := settles_of_turn accepted labelled
        (declared.fits accepted steady m.flow.pc) now
      obtain ⟨loc, y, e, rfl⟩ | still := s.assign_or_not
      · obtain ⟨v, -, same⟩ := settles
        rw [same, Table.get?_insert] at unbound₁
        split at unbound₁
        · cases unbound₁
        · next other =>
          refine ⟨unbound₁, List.forall_mem_cons.2 ⟨?_, unassigned⟩⟩
          rintro e' ⟨⟩
          exact other rfl
      · rw [(Stmt.settles_iff_of_not_assign still).1 settles] at unbound₁
        exact ⟨unbound₁, List.forall_mem_cons.2 ⟨still x, unassigned⟩⟩

/-- A failure at a variable without a value: an assignment to it stands further up than the machine
`m`, but the history does not contain one, because of a jump. -/
def SkippedAssignment (dice : Nat → Nat) (p : Program) (history : List (Machine × Stmt))
    (m : Machine) (f : Failure) : Prop :=
  ∃ x, f.what = .undefinedVariable x ∧
    (∃ (i : Nat) (loc : Location) (e : Expr),
      i < m.flow.pc ∧ p.stmts[i]? = some ⟨loc, .assign x e⟩) ∧
    (∀ entry ∈ history, ∀ e, entry.2.kind ≠ .assign x e) ∧ ¬Straight dice history

/-- The only static error of a steady program is a skipped assignment. -/
theorem skippedAssignment_of_static (accepted : p.check = []) (steady : p.Steady)
    (reaches : Reaches dice p limit m history m') {m₁ : Machine} {f : Failure}
    (failed : turn dice p m' = .error (.failed f) m₁) (static : f.what.isStatic = true) :
    SkippedAssignment dice p history m' f := by
  obtain ⟨m₀, turns, labelled, -, vars⟩ := start_of_reaches accepted reaches
  have empty : p.Declared m₀.vars := vars ▸ p.declared_empty
  obtain ⟨labelled', declared⟩ := turns.declared accepted steady labelled empty
  have fits := declared.fits accepted steady m'.flow.pc
  obtain dynamic | ⟨x, what, unbound, typed⟩ := tolerates_of_turn accepted labelled' fits failed
  · rw [dynamic] at static
    cases static
  · obtain ⟨t, typed⟩ := Option.isSome_iff_exists.1 typed
    obtain ⟨i, loc, e, above, assigns, -⟩ := p.assigned_of_typesAt typed
    obtain ⟨-, unassigned⟩ := turns.unassigned accepted steady labelled empty unbound
    refine ⟨x, what, ⟨i, loc, e, above, assigns⟩, unassigned, fun straight => ?_⟩
    rw [not_static_of_straight accepted reaches straight failed] at static
    cases static

/-- **Steady programs are typed wherever they jump.** Let a program be accepted and let all
assignments to a variable have the same type. Behind any history of a run, with any number of jumps,
every variable has a value of the type of its assignments; and if the next turn fails with a static
error then a jump has skipped the assignment to a variable. The same holds of a whole run. -/
theorem steady_programs_are_typed (accepted : p.check = []) (steady : p.Steady) (dice : Nat → Nat)
    (limit : Nat) (m : Machine) :
    (∀ history m₁, Reaches dice p limit m history m₁ →
      (∀ x v, m₁.vars.get? x = some v → p.Declares x v.type) ∧
        ∀ f m₂, turn dice p m₁ = .error (.failed f) m₂ → f.what.isStatic = true →
          SkippedAssignment dice p history m₁ f) ∧
    ∀ f, (run dice p limit m).1 = .failed f → f.what.isStatic = true →
      ∃ history m₁ m₂, Reaches dice p limit m history m₁ ∧
        turn dice p m₁ = .error (.failed f) m₂ ∧ SkippedAssignment dice p history m₁ f := by
  constructor
  · intro history m₁ reaches
    obtain ⟨m₀, turns, labelled, -, vars⟩ := start_of_reaches accepted reaches
    have empty : p.Declared m₀.vars := vars ▸ p.declared_empty
    obtain ⟨-, declared⟩ := turns.declared accepted steady labelled empty
    exact ⟨declared, fun f m₂ => skippedAssignment_of_static accepted steady reaches⟩
  · intro f failed static
    obtain ⟨history, m₁, m₂, reaches, last⟩ := last_turn_of_failed accepted failed
    exact ⟨history, m₁, m₂, reaches, last,
      skippedAssignment_of_static accepted steady reaches last static⟩

/-- A program that jumps over the assignment to a variable. -/
def skipping : Program where
  stmts := [
    ⟨⟨1, 1⟩, .spawn (.lit ⟨1, 7⟩ (.int .zero)) (.lit ⟨1, 10⟩ (.int .zero))⟩,
    ⟨⟨2, 1⟩, .goTo "end" (.lit ⟨2, 12⟩ (.bool true))⟩,
    ⟨⟨3, 1⟩, .assign "x" (.lit ⟨3, 6⟩ (.int .one))⟩,
    ⟨⟨4, 1⟩, .label "end"⟩,
    ⟨⟨5, 1⟩, .assign "y" (.var ⟨5, 6⟩ "x")⟩]

/-- Its variables are integers. -/
theorem skipping_steady : skipping.Steady := by
  have integer {x : String} {t : Ty} : skipping.Declares x t → t = .intOrBool := by
    rintro ⟨i, loc, e, assigns, type⟩
    match i with
    | 0 | 1 | 3 => cases assigns
    | 2 | 4 =>
        cases assigns
        exact (Option.some.inj type).symm
    | i + 5 => cases assigns
  intro x t t' first second
  rw [integer first, integer second]

/-- The skipped assignment is noticed at run time. -/
theorem skipping_is_typed :
    skipping.check = [] ∧ skipping.Steady ∧
      (run (fun _ => 0) skipping 10 onePixel).1 = .failed ⟨⟨5, 6⟩, .undefinedVariable "x"⟩ ∧
      ∃ history m₁ m₂, Reaches (fun _ => 0) skipping 10 onePixel history m₁ ∧
        turn (fun _ => 0) skipping m₁ =
          .error (.failed ⟨⟨5, 6⟩, .undefinedVariable "x"⟩) m₂ ∧
        SkippedAssignment (fun _ => 0) skipping history m₁ ⟨⟨5, 6⟩, .undefinedVariable "x"⟩ := by
  have accepted : skipping.check = [] := by decide +kernel
  have failed : (run (fun _ => 0) skipping 10 onePixel).1 =
      .failed ⟨⟨5, 6⟩, .undefinedVariable "x"⟩ := by decide +kernel
  refine ⟨accepted, skipping_steady, failed, ?_⟩
  exact (steady_programs_are_typed accepted skipping_steady (fun _ => 0) 10 onePixel).2 _ failed rfl

end Machine

end PenScript
