import PenScript.Check
import PenScript.Machine
import PenScript.Proofs.Typing

/-!
# Accepted programs

What it means that checking a program reports no error, statement by statement. The checker walks
over a program in the order of the text and hands a table of types from statement to statement;
`Program.typesAt` is that table in front of a given statement. In an accepted program every
statement is free of errors at its own table, the tables know the types of all their variables,
every entry comes from an assignment further up, and the labels that a run collects are those of the
checker.

## Main definitions

* `Program.typesAt` — the table of types in front of a statement;
* `Program.Declares` — some assignment gives a variable a type.

## Main results

* `Program.clean_of_check`: every statement of an accepted program is free of errors;
* `Program.known_typesAt`: no variable of an accepted program has an unknown type;
* `Program.assigned_of_typesAt`: a variable with a type was assigned further up;
* `Program.flow_of_check`: a run of an accepted program starts, and no jump of it leads nowhere.
-/

namespace PenScript

namespace Stmt

/-- The types of the variables behind some statements. -/
def typesBehind (types : Types) (ss : List Stmt) : Types :=
  ss.foldl (fun types s => (s.check types).1) types

/-- A statement is an assignment, or it is none. -/
theorem assign_or_not (s : Stmt) :
    (∃ loc x e, s = ⟨loc, .assign x e⟩) ∨ ∀ x e, s.kind ≠ .assign x e := by
  obtain ⟨loc, kind⟩ := s
  cases kind with
  | assign x e => exact Or.inl ⟨loc, x, e, rfl⟩
  | _ => exact Or.inr fun x e => by simp

/-- Only an assignment changes the types of variables. -/
theorem check_fst_of_not_assign {types : Types} {s : Stmt} (h : ∀ x e, s.kind ≠ .assign x e) :
    (s.check types).1 = types := by
  obtain ⟨loc, kind⟩ := s
  cases kind with
  | assign x e => exact absurd rfl (h x e)
  | _ => rfl

/-- Checking an assignment gives the type of the expression to the variable. -/
theorem check_assign (types : Types) (loc : Location) (x : String) (e : Expr) :
    check types ⟨loc, .assign x e⟩ = (types.insert x (e.infer types).1, (e.infer types).2) := rfl

/-- Each of the statements behind the first one is checked with the types that the statements before
it leave. -/
theorem clean_of_checkBehindSpawn {types : Types} {ss : List Stmt}
    (h : checkBehindSpawn types ss = []) {i : Nat} {s : Stmt} (at_i : ss[i]? = some s) :
    (s.check (typesBehind types (ss.take i))).2 = [] := by
  induction ss generalizing types i with
  | nil => simp at at_i
  | cons first rest ih =>
      rw [checkBehindSpawn, List.append_eq_nil_iff, List.append_eq_nil_iff] at h
      obtain ⟨⟨-, clean⟩, h⟩ := h
      cases i with
      | zero =>
          cases at_i
          exact clean
      | succ i => exact ih h at_i

end Stmt

namespace Program

variable {p : Program}

/-- The types of the variables in front of statement `i`. -/
def typesAt (p : Program) (i : Nat) : Types :=
  Stmt.typesBehind .empty (p.stmts.take i)

/-- The types behind a statement are those that checking it leaves. -/
theorem typesAt_succ {i : Nat} {s : Stmt} (at_i : p.stmts[i]? = some s) :
    p.typesAt (i + 1) = (s.check (p.typesAt i)).1 := by
  rw [typesAt, List.take_add_one, at_i, Stmt.typesBehind, List.foldl_append]
  rfl

/-- Behind the last statement nothing changes any more. -/
theorem typesAt_succ_of_none {i : Nat} (past : p.stmts[i]? = none) :
    p.typesAt (i + 1) = p.typesAt i := by
  have past : p.stmts.length ≤ i := List.getElem?_eq_none_iff.1 past
  rw [typesAt, typesAt, List.take_of_length_le past, List.take_of_length_le (by omega)]

/-- An accepted program has clean labels and clean statements. -/
theorem check_eq_nil (h : p.check = []) :
    (Label.collect p).2 = [] ∧ Label.unresolved (Label.collect p).1 p = [] ∧ p.checkStmts = [] := by
  rw [check, List.append_eq_nil_iff, List.append_eq_nil_iff] at h
  exact ⟨h.1.1, h.1.2, h.2⟩

/-- Every statement of an accepted program is free of errors at its own table of types. -/
theorem clean_of_check (h : p.check = []) {i : Nat} {s : Stmt} (at_i : p.stmts[i]? = some s) :
    (s.check (p.typesAt i)).2 = [] := by
  obtain ⟨-, -, h⟩ := check_eq_nil h
  rw [checkStmts] at h
  cases stmts : p.stmts with
  | nil => simp [stmts] at at_i
  | cons first rest =>
      rw [stmts] at h at_i
      dsimp only at h
      split at h
      · rw [List.append_eq_nil_iff] at h
        rw [typesAt, stmts]
        cases i with
        | zero =>
            cases at_i
            exact h.1
        | succ i => exact Stmt.clean_of_checkBehindSpawn h.2 at_i
      · cases h

/-- No variable of an accepted program has an unknown type. -/
theorem known_typesAt (h : p.check = []) (i : Nat) : (p.typesAt i).Known := by
  induction i with
  | zero => exact fun x => by simp [typesAt, Stmt.typesBehind]
  | succ i ih =>
      cases at_i : p.stmts[i]? with
      | none =>
          rw [typesAt_succ_of_none at_i]
          exact ih
      | some s =>
          rw [typesAt_succ at_i]
          obtain ⟨loc, x, e, rfl⟩ | still := s.assign_or_not
          · have clean := clean_of_check h at_i
            rw [Stmt.check_assign] at clean ⊢
            obtain ⟨t, typed⟩ := Expr.infer_of_clean ih clean
            intro y
            rw [typed, Table.get?_insert]
            split
            · simp
            · exact ih y
          · rw [Stmt.check_fst_of_not_assign still]
            exact ih

/-- A statement of the program assigns to a variable, and what it assigns has a type. -/
def Declares (p : Program) (x : String) (t : Ty) : Prop :=
  ∃ (i : Nat) (loc : Location) (e : Expr),
    p.stmts[i]? = some ⟨loc, .assign x e⟩ ∧ (e.infer (p.typesAt i)).1 = some t

/-- A variable with a type was assigned further up, and has the type of that assignment. -/
theorem assigned_of_typesAt {i : Nat} {x : String} {t : Option Ty}
    (h : (p.typesAt i).get? x = some t) :
    ∃ j loc e, j < i ∧ p.stmts[j]? = some ⟨loc, .assign x e⟩ ∧ (e.infer (p.typesAt j)).1 = t := by
  induction i with
  | zero => simp [typesAt, Stmt.typesBehind] at h
  | succ i ih =>
      have earlier (h : (p.typesAt i).get? x = some t) :
          ∃ j loc e, j < i + 1 ∧ p.stmts[j]? = some ⟨loc, .assign x e⟩ ∧
            (e.infer (p.typesAt j)).1 = t := by
        obtain ⟨j, loc, e, lt, found⟩ := ih h
        exact ⟨j, loc, e, Nat.lt_succ_of_lt lt, found⟩
      cases at_i : p.stmts[i]? with
      | none =>
          rw [typesAt_succ_of_none at_i] at h
          exact earlier h
      | some s =>
          rw [typesAt_succ at_i] at h
          obtain ⟨loc, y, e, rfl⟩ | still := s.assign_or_not
          · rw [Stmt.check_assign, Table.get?_insert] at h
            split at h
            · next same =>
              cases same
              cases h
              exact ⟨i, loc, e, Nat.lt_succ_self i, at_i, rfl⟩
            · exact earlier h
          · rw [Stmt.check_fst_of_not_assign still] at h
            exact earlier h

end Program

/-! ### Labels -/

/-- The two tables of labels have the same indices. -/
def Label.Matches (table : Table Decl) (labels : Table Nat) : Prop :=
  ∀ name, (table.get? name).map Decl.index = labels.get? name

/-- If the checker refuses no declaration, a run refuses none, and finds the same indices. -/
theorem Label.labelsFrom_of_collectFrom {i : Nat} {table : Table Decl} {labels : Table Nat}
    {ss : List Stmt} (same : Matches table labels) (clean : (collectFrom i table ss).2 = []) :
    ∃ labels', Flow.labelsFrom i labels ss = .ok labels' ∧
      Matches (collectFrom i table ss).1 labels' := by
  induction ss generalizing i table labels with
  | nil => exact ⟨labels, rfl, same⟩
  | cons s ss ih =>
      obtain ⟨loc, kind⟩ := s
      cases kind with
      | label name =>
          simp only [collectFrom, Flow.labelsFrom] at clean ⊢
          cases first : table.get? name with
          | some decl => simp [first] at clean
          | none =>
              have fresh : labels.get? name = none := by rw [← same name, first]; rfl
              simp only [first] at clean ⊢
              simp only [fresh, Option.isSome_none, Bool.false_eq_true, if_false]
              refine ih (fun other => ?_) clean
              rw [Table.get?_insert, Table.get?_insert]
              split
              · rfl
              · exact same other
      | _ => exact ih same clean

namespace Program

/-- A run of an accepted program starts, and it knows the label of every jump. -/
theorem flow_of_check {p : Program} (h : p.check = []) (limit : Nat) :
    ∃ flow, Flow.ofProgram p limit = .ok flow ∧
      ∀ s ∈ p.stmts, ∀ label e, s.kind = .goTo label e → (flow.labels.get? label).isSome := by
  obtain ⟨declared, resolved, -⟩ := check_eq_nil h
  have start : Label.Matches .empty (.empty : Table Nat) := fun _ => rfl
  obtain ⟨labels, collected, same⟩ := Label.labelsFrom_of_collectFrom start declared
  refine ⟨{ labels, limit }, by rw [Flow.ofProgram, collected]; rfl, fun s mem label e kind => ?_⟩
  have found := List.filterMap_eq_nil_iff.1 resolved s mem
  rw [Label.unresolved?, kind] at found
  dsimp only at found
  rw [← same label, Option.isSome_map]
  split at found
  · assumption
  · cases found

end Program

end PenScript
