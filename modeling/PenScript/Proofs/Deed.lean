import PenScript.Machine
import PenScript.Proofs.Reading

/-!
# What a statement comes to

Executing a statement is reading it and performing its act. All acts are performed alike: some
pixels are laid on the canvas one after the other, which may be stopped from outside but cannot
fail; if a number of the drawing is out of range, the run is broken off behind them; and at last the
pen, the variables and the place in the program are settled. A `Deed` says what these are for a
statement, or that the statement is refused.

A deed is found without a look at the reporter, so machines that differ only in how they report come
to the same deeds.

## Main definitions

* `Machine.Deed` — what a statement comes to once it is read;
* `Machine.deed` — the deed of a statement on a machine;
* `Machine.coat`, `Machine.pixels` — what a statement is going to paint;
* `Machine.Jumps` — a jump whose condition holds.

## Main results

* `Machine.exec_eq_act`: executing a statement is acting on its deed;
* `Machine.exec_eq_ok`, `Machine.exec_eq_error`: how an execution succeeds and how it stops short;
* `Machine.exec_brushes`: a statement leaves the brush, or takes one for an integer.
-/

namespace PenScript

namespace Machine

variable {α β : Type}

/-! ### Steps one after the other -/

/-- Behind a step that succeeds comes the next one. -/
theorem bind_of_ok {x : Run α} {f : α → Run β} {m m₁ : Machine} {a : α} (h : x m = .ok a m₁) :
    (x >>= f) m = f a m₁ := by
  change EStateM.bind x f m = f a m₁
  rw [EStateM.bind, h]

/-- Behind a step that stops the run comes nothing. -/
theorem bind_of_error {x : Run α} {f : α → Run β} {m m₁ : Machine} {halt : Halt}
    (h : x m = .error halt m₁) : (x >>= f) m = .error halt m₁ := by
  change EStateM.bind x f m = .error halt m₁
  rw [EStateM.bind, h]

/-- Looking at the machine leaves it. -/
theorem get_eq (m : Machine) : (get : Run Machine) m = .ok m m := rfl

/-- Two steps succeed if each of them does. -/
theorem bind_eq_ok_iff {x : Run α} {f : α → Run β} {m m' : Machine} {b : β} :
    (x >>= f) m = .ok b m' ↔ ∃ a m₁, x m = .ok a m₁ ∧ f a m₁ = .ok b m' := by
  constructor
  · intro both
    cases h : x m with
    | ok a m₁ => exact ⟨a, m₁, rfl, by rwa [bind_of_ok h] at both⟩
    | error halt m₁ =>
        rw [bind_of_error h] at both
        cases both
  · rintro ⟨a, m₁, first, second⟩
    rw [bind_of_ok first, second]

/-! ### Painting -/

/-- The machine behind a poll. -/
def polled (m : Machine) : Machine :=
  { m with reporter := m.reporter.poll.2 }

/-- What is reported behind one more pixel. -/
def pixelReport (m : Machine) (p : Point) (color : Color) : Reported :=
  m.reporter.pixel (m.canvas.blend p color)

/-- The machine behind one more pixel. -/
def laid (m : Machine) (p : Point) (color : Color) : Machine :=
  { m with canvas := m.canvas.blend p color, reporter := (m.pixelReport p color).reporter }

/-- The run is cancelled exactly if the signal is raised. -/
theorem checkpoint_eq (m : Machine) :
    checkpoint m =
      if m.reporter.signal.isRaised then .error .cancelled m.polled else .ok () m.polled := by
  change (if m.reporter.signal.isRaised then throw Halt.cancelled else Pure.pure () : Run Unit)
    m.polled = _
  split <;> rfl

/-- The run goes on behind a report exactly if the report returns. -/
theorem reported_eq (r : Reported) (m : Machine) :
    reported r m =
      if r.returns then .ok () { m with reporter := r.reporter }
      else .error .asleep { m with reporter := r.reporter } := by
  change (if r.returns then Pure.pure () else throw Halt.asleep : Run Unit)
    { m with reporter := r.reporter } = _
  split <;> rfl

/-- A pixel is laid unless the poll in front of it cancels the run; and the next pixels come unless
the pause behind it never ends. -/
theorem paintPixels_cons (color : Color) (p : Point) (ps : List Point) (m : Machine) :
    paintPixels color (p :: ps) m =
      if m.reporter.signal.isRaised then .error .cancelled m.polled
      else if (m.polled.pixelReport p color).returns then
        paintPixels color ps (m.polled.laid p color)
      else .error .asleep (m.polled.laid p color) := by
  cases raised : m.reporter.signal.isRaised with
  | true => exact bind_of_error (by rw [checkpoint_eq, raised]; rfl)
  | false =>
      have polls : checkpoint m = .ok () m.polled := by rw [checkpoint_eq, raised]; rfl
      rw [paintPixels, bind_of_ok polls]
      change (reported (m.polled.pixelReport p color) >>= fun _ => paintPixels color ps)
        { m.polled with canvas := m.canvas.blend p color } = _
      cases returns : (m.polled.pixelReport p color).returns with
      | true => exact bind_of_ok (by rw [reported_eq, returns]; rfl)
      | false => exact bind_of_error (by rw [reported_eq, returns]; rfl)

/-- Painting touches the canvas and the reporter only. It never fails; it is cancelled or falls
asleep. -/
theorem paintPixels_cases (color : Color) (ps : List Point) (m : Machine) :
    ∃ canvas reporter,
      paintPixels color ps m = .ok () { m with canvas, reporter } ∨
        ∃ halt, (halt = .cancelled ∨ halt = .asleep) ∧
          paintPixels color ps m = .error halt { m with canvas, reporter } := by
  induction ps generalizing m with
  | nil => exact ⟨m.canvas, m.reporter, Or.inl rfl⟩
  | cons p ps ih =>
      rw [paintPixels_cons]
      split
      · exact ⟨m.canvas, m.reporter.poll.2, Or.inr ⟨_, Or.inl rfl, rfl⟩⟩
      · split
        · exact ih (m.polled.laid p color)
        · exact ⟨_, _, Or.inr ⟨_, Or.inr rfl, rfl⟩⟩

/-- What comes behind painting. If that was all, the machine is settled with `g`; if not, the run is
broken off. -/
def settled (whole : Bool) (g : Machine → Machine) :
    EStateM.Result Halt Machine Unit → EStateM.Result Halt Machine Unit
  | .ok _ m => if whole then .ok () (g m) else .error .overflow m
  | .error halt m => .error halt m

/-- What was settled was painted, and that was all. -/
theorem settled_eq_ok {whole : Bool} {g : Machine → Machine}
    {r : EStateM.Result Halt Machine Unit} {m' : Machine} (h : settled whole g r = .ok () m') :
    whole = true ∧ ∃ m₁, r = .ok () m₁ ∧ m' = g m₁ := by
  cases r with
  | error halt m₁ => cases h
  | ok _ m₁ =>
      rw [settled] at h
      cases whole with
      | false => cases h
      | true =>
          cases h
          exact ⟨rfl, m₁, rfl, rfl⟩

/-- Painting a coat is painting its pixels, and being broken off behind them if they are not all. -/
theorem paint_eq (coat : Coat) (m : Machine) :
    paint coat m = settled coat.whole id (paintPixels m.pen.color coat.pixels m) := by
  have split : paint coat m = (paintPixels m.pen.color coat.pixels >>= fun _ =>
      if coat.whole then pure () else throw .overflow) m := rfl
  rw [split]
  cases painted : paintPixels m.pen.color coat.pixels m with
  | error halt m₁ => rw [bind_of_error painted, settled]
  | ok _ m₁ =>
      rw [bind_of_ok painted, settled]
      cases coat.whole with
      | true => rfl
      | false => rfl

/-- What comes behind painting settles the machine. -/
theorem paint_modify (coat : Coat) (g : Machine → Machine) (m : Machine) :
    (paint coat >>= fun _ => modify g) m =
      settled coat.whole g (paintPixels m.pen.color coat.pixels m) := by
  have painting := paint_eq coat m
  cases painted : paintPixels m.pen.color coat.pixels m with
  | error halt m₁ =>
      rw [painted] at painting
      exact bind_of_error painting
  | ok _ m₁ =>
      rw [painted, settled] at painting
      rw [settled]
      cases whole : coat.whole with
      | true =>
          rw [whole] at painting
          exact bind_of_ok painting
      | false =>
          rw [whole] at painting
          exact bind_of_error painting

/-! ### Deeds -/

/-- What a statement comes to once its arguments are read: it is refused, or it paints a coat and
then settles the pen, the variables and the place in the program. -/
inductive Deed where
  | refuse (throws : Nat) (f : Failure)
  | perform (throws : Nat) (coat : Coat) (pen : Pen) (vars : Table Value) (pc : Nat)

namespace Deed

/-- What is going to be painted. -/
def coat : Deed → Coat
  | refuse .. => ⟨[], true⟩
  | perform _ coat .. => coat

/-- Acts on a deed. -/
def act : Deed → Run Unit
  | refuse throws f => do
    modify fun m => { m with throws }
    throw (.failed f)
  | perform throws coat pen vars pc => do
    modify fun m => { m with throws }
    paint coat
    modify fun m => { m with pen, vars, flow := { m.flow with pc } }

/-- What an act comes to on a machine, for a statement at `loc`. -/
def ofAct (loc : Location) (throws : Nat) (m : Machine) : Act → Deed
  | .settle pen => perform throws ⟨[], true⟩ pen m.vars m.flow.pc
  | .assign x v => perform throws ⟨[], true⟩ m.pen (m.vars.insert x v) m.flow.pc
  | .draw f =>
    let d := f.drawing m.canvas m.pen
    perform throws (d.coat m.canvas) d.pen m.vars m.flow.pc
  | .jump label =>
    match m.flow.labels.get? label with
    | some pc => perform throws ⟨[], true⟩ m.pen m.vars pc
    | none => refuse throws ⟨loc, .labelMissing label⟩
  | .rest => perform throws ⟨[], true⟩ m.pen m.vars m.flow.pc

end Deed

/-- Acting on a deed that is performed is painting pixels and settling the rest. -/
theorem act_perform (throws : Nat) (coat : Coat) (pen : Pen) (vars : Table Value) (pc : Nat)
    (m : Machine) :
    (Deed.perform throws coat pen vars pc).act m =
      settled coat.whole (fun m => { m with pen, vars, flow := { m.flow with pc } })
        (paintPixels m.pen.color coat.pixels { m with throws }) :=
  paint_modify coat _ { m with throws }

/-- Drawing a figure is painting its pixels and moving the pen. -/
theorem draw_eq (f : Figure) (m : Machine) :
    let d := f.drawing m.canvas m.pen
    draw f m =
      settled (d.coat m.canvas).whole (fun m => { m with pen := d.pen })
        (paintPixels m.pen.color (d.coat m.canvas).pixels m) :=
  paint_modify _ _ m

/-- Performing an act is acting on its deed. -/
theorem perform_eq_act (loc : Location) (act : Act) (throws : Nat) (m : Machine) :
    perform loc act { m with throws } = (Deed.ofAct loc throws m act).act m := by
  cases act with
  | settle pen => rfl
  | assign x v => rfl
  | rest => rfl
  | draw f =>
      -- drawing leaves the variables and the place in the program as they are
      rw [perform, Deed.ofAct, act_perform, draw_eq]
      obtain ⟨canvas, reporter, painted | ⟨halt, -, stopped⟩⟩ := paintPixels_cases m.pen.color
        ((f.drawing m.canvas m.pen).coat m.canvas).pixels { m with throws }
      · rw [painted]
        rfl
      · rw [stopped]
        rfl
  | jump label =>
      change jump loc label { m with throws } = _
      rw [jump, bind_of_ok (get_eq _), Deed.ofAct]
      cases target : m.flow.labels.get? label with
      | none =>
          simp only [Flow.jump, target]
          rfl
      | some i =>
          simp only [Flow.jump, target]
          rfl

variable (dice : Nat → Nat)

/-- What a statement comes to on a machine. -/
def deed (s : Stmt) (m : Machine) : Deed :=
  match s.act (m.scene dice) m.throws with
  | .ok (act, throws) => .ofAct s.loc throws m act
  | .error f => .refuse m.throws f

/-- What a statement is going to paint. -/
def coat (s : Stmt) (m : Machine) : Coat :=
  (deed dice s m).coat

/-- The pixels that a statement is going to paint. -/
def pixels (s : Stmt) (m : Machine) : List Point :=
  (coat dice s m).pixels

/-- **What a statement does.** Executing a statement is acting on its deed: painting its pixels,
then settling the pen, the variables and the place in the program. -/
theorem exec_eq_act (s : Stmt) (m : Machine) : exec dice s m = (deed dice s m).act m := by
  rw [exec, bind_of_ok (get_eq m), deed]
  cases read : s.act (m.scene dice) m.throws with
  | error f => exact bind_of_error (by rw [evaluating, read])
  | ok r =>
      have evaluated : evaluating (s.act (m.scene dice)) m = .ok r.1 { m with throws := r.2 } := by
        rw [evaluating, read]
      rw [bind_of_ok evaluated]
      exact perform_eq_act s.loc r.1 r.2 m

/-- The statement is a jump and its condition holds. -/
def Jumps (s : Stmt) (m : Machine) : Prop :=
  ∃ label e throws, s.kind = .goTo label e ∧
    (m.scene dice).truth (.condition label) e m.throws = .ok (true, throws)

variable {dice}

/-- Only a jump whose condition holds changes the place in the program. -/
theorem pc_of_deed {s : Stmt} {m : Machine} {throws pc : Nat} {coat : Coat} {pen : Pen}
    {vars : Table Value} (h : deed dice s m = .perform throws coat pen vars pc)
    (straight : ¬Jumps dice s m) : pc = m.flow.pc := by
  rw [deed] at h
  cases read : s.act (m.scene dice) m.throws with
  | error f =>
      rw [read] at h
      cases h
  | ok r =>
      obtain ⟨act, throws'⟩ := r
      rw [read] at h
      cases act with
      | settle pen => cases h; rfl
      | assign x v => cases h; rfl
      | draw f => cases h; rfl
      | rest => cases h; rfl
      | jump label =>
          obtain ⟨e, kind, holds⟩ := Stmt.act_eq_jump_iff.1 read
          exact absurd ⟨label, e, throws', kind, holds⟩ straight

/-- A statement that was executed has painted its pixels, which were all there was to paint, and
settled the rest. -/
theorem exec_eq_ok {s : Stmt} {m m' : Machine} (h : exec dice s m = .ok () m') :
    ∃ throws m₁, paintPixels m.pen.color (pixels dice s m) { m with throws } = .ok () m₁ ∧
      ∃ pen vars pc, m' = { m₁ with pen, vars, flow := { m₁.flow with pc } } ∧
        (¬Jumps dice s m → pc = m.flow.pc) ∧ (coat dice s m).whole = true := by
  rw [exec_eq_act] at h
  rw [pixels, coat]
  cases does : deed dice s m with
  | refuse throws f =>
      rw [does] at h
      cases h
  | perform throws coat pen vars pc =>
      rw [does, act_perform] at h
      obtain ⟨whole, m₁, painted, rfl⟩ := settled_eq_ok h
      exact ⟨throws, m₁, painted, pen, vars, pc, rfl, pc_of_deed does, whole⟩

/-- A statement that stops the run has failed while it was read, or was cancelled or fell asleep
while it painted, or was broken off behind the pixels that it painted. -/
theorem exec_eq_error {s : Stmt} {m m' : Machine} {halt : Halt}
    (h : exec dice s m = .error halt m') :
    (∃ f throws, halt = .failed f ∧ m' = { m with throws } ∧ pixels dice s m = []) ∨
      ((halt = .cancelled ∨ halt = .asleep) ∧ ∃ throws,
        paintPixels m.pen.color (pixels dice s m) { m with throws } = .error halt m') ∨
      (halt = .overflow ∧ (coat dice s m).whole = false ∧ ∃ throws,
        paintPixels m.pen.color (pixels dice s m) { m with throws } = .ok () m') := by
  rw [exec_eq_act] at h
  rw [pixels, coat]
  cases does : deed dice s m with
  | refuse throws f =>
      rw [does] at h
      cases h
      exact Or.inl ⟨f, throws, rfl, rfl, rfl⟩
  | perform throws coat pen vars pc =>
      rw [does, act_perform] at h
      obtain ⟨_, _, painted | ⟨_, outer, stopped⟩⟩ :=
        paintPixels_cases m.pen.color coat.pixels { m with throws }
      · rw [painted, settled] at h
        cases whole : coat.whole with
        | true =>
            rw [whole] at h
            cases h
        | false =>
            rw [whole] at h
            cases h
            exact Or.inr (Or.inr ⟨rfl, whole, throws, painted⟩)
      · rw [stopped] at h
        cases h
        exact Or.inr (Or.inl ⟨outer, throws, stopped⟩)

/-- Painting that went through leaves all but the canvas and the reporter. -/
theorem paintPixels_left {color : Color} {ps : List Point} {m m' : Machine}
    (painted : paintPixels color ps m = .ok () m') :
    ∃ canvas reporter, m' = { m with canvas, reporter } := by
  obtain ⟨canvas, reporter, kept | ⟨_, -, stopped⟩⟩ := paintPixels_cases color ps m
  · rw [painted] at kept
    cases kept
    exact ⟨canvas, reporter, rfl⟩
  · rw [painted] at stopped
    cases stopped

/-- Executing a statement leaves the labels, the count and the limit of the flow. -/
theorem flow_of_exec {s : Stmt} {m m' : Machine} (h : exec dice s m = .ok () m') :
    m'.flow = { m.flow with pc := m'.flow.pc } := by
  obtain ⟨throws, m₁, painted, pen, vars, pc, rfl, -⟩ := exec_eq_ok h
  obtain ⟨canvas, reporter, rfl⟩ := paintPixels_left painted
  rfl

/-! ### Acts -/

/-- A statement that is read performs its act. -/
theorem exec_of_act {s : Stmt} {m : Machine} {act : Act} {throws : Nat}
    (read : s.act (m.scene dice) m.throws = .ok (act, throws)) :
    exec dice s m = perform s.loc act { m with throws } := by
  rw [exec_eq_act, deed, read, perform_eq_act]

/-- A statement that was executed has performed the act that was read. -/
theorem act_of_exec {s : Stmt} {m m' : Machine} (h : exec dice s m = .ok () m') :
    ∃ act throws, s.act (m.scene dice) m.throws = .ok (act, throws) ∧
      perform s.loc act { m with throws } = .ok () m' := by
  cases read : s.act (m.scene dice) m.throws with
  | error f =>
      rw [exec_eq_act, deed, read] at h
      cases h
  | ok r => exact ⟨r.1, r.2, rfl, exec_of_act read ▸ h⟩

/-- A statement that is not read fails and leaves the machine. -/
theorem exec_of_refused {s : Stmt} {m : Machine} {f : Failure}
    (refused : s.act (m.scene dice) m.throws = .error f) :
    exec dice s m = .error (.failed f) m := by
  rw [exec_eq_act, deed, refused]
  rfl

/-- A statement that failed was not read, or it is a jump and there is no label. -/
theorem failure_of_exec {s : Stmt} {m m' : Machine} {f : Failure}
    (failed : exec dice s m = .error (.failed f) m') :
    s.act (m.scene dice) m.throws = .error f ∨ ∃ label e, s.kind = .goTo label e ∧
      f = ⟨s.loc, .labelMissing label⟩ ∧ m.flow.labels.get? label = none := by
  cases read : s.act (m.scene dice) m.throws with
  | error g =>
      rw [exec_of_refused read] at failed
      cases failed
      exact Or.inl rfl
  | ok r =>
      refine Or.inr ?_
      obtain ⟨act, throws⟩ := r
      rw [exec_of_act read, perform_eq_act] at failed
      cases act with
      | settle _ | assign _ _ | rest => cases failed
      | jump label =>
          obtain ⟨e, kind, -⟩ := Stmt.act_eq_jump_iff.1 read
          dsimp only [Deed.ofAct] at failed
          cases target : m.flow.labels.get? label with
          | none =>
              rw [target] at failed
              cases failed
              exact ⟨label, e, kind, rfl, target⟩
          | some i =>
              rw [target] at failed
              cases failed
      | draw d =>
          rw [Deed.ofAct, act_perform] at failed
          obtain ⟨_, _, painted | ⟨_, outer, stopped⟩⟩ := paintPixels_cases m.pen.color
            ((d.drawing m.canvas m.pen).coat m.canvas).pixels { m with throws }
          · rw [painted, settled] at failed
            split at failed <;> cases failed
          · rw [stopped] at failed
            cases failed
            rcases outer with outer | outer <;> cases outer

end Machine

/-- Drawing a figure leaves the brush. -/
theorem Figure.brush_drawing (f : Figure) (c : Canvas) (pen : Pen) :
    (f.drawing c pen).pen.brush = pen.brush := by
  cases f with
  | stroke h n x y => rfl
  | circle x y r =>
      rw [drawing]
      split <;> rfl
  | rectangle x y w t =>
      rw [drawing]
      split <;> rfl
  | region => rfl

namespace Machine

variable {dice : Nat → Nat}

/-- **The brush behind a statement** is the one of before, or was taken for an integer. -/
theorem exec_brushes {s : Stmt} {m m' : Machine} (done : exec dice s m = .ok () m') :
    KeepsBrush m.pen m'.pen := by
  obtain ⟨act, throws, read, performed⟩ := act_of_exec done
  have suits := (s.act_suits (m.scene dice)).of_eq_ok read
  cases act with
  | settle pen =>
      cases performed
      exact suits.2.2
  | assign x v =>
      cases performed
      exact Or.inl rfl
  | rest =>
      cases performed
      exact Or.inl rfl
  | draw f =>
      rw [perform, draw_eq] at performed
      obtain ⟨-, m₁, -, rfl⟩ := settled_eq_ok performed
      exact Or.inl (f.brush_drawing m.canvas m.pen)
  | jump label =>
      rw [perform_eq_act, Deed.ofAct] at performed
      cases target : m.flow.labels.get? label with
      | none =>
          rw [target] at performed
          cases performed
      | some pc =>
          rw [target] at performed
          cases performed
          exact Or.inl rfl

end Machine

end PenScript
