import PenScript.Proofs.Trail
import PenScript.Proofs.UpdateStream

/-!
# What is true at every time

A canvas that is opaque at the start stays opaque: a color that is laid over an opaque pixel gives
an opaque pixel, although its channels are cut to whole bytes. The sides of the canvas, the oddness
of the brush and the room in the batch of the reporter are kept by every step of a run as well. So
they hold at every time of every run, and in every picture that is reported.

## Main definitions

* `Canvas.Solid` — an opaque canvas with given sides;
* `Machine.Intact` — what is true of a machine at every time.

## Main results

* `Color.alpha_onto`: nothing shines through an opaque pixel;
* `Machine.Intact.step`: every step of a run keeps a machine intact;
* `Machine.always_intact`: all machines that a run passes are intact, also behind earlier runs.
-/

namespace PenScript

/-! ### Opaque canvases -/

/-- A color that is laid over an opaque one gives an opaque one. -/
theorem Color.alpha_onto (upper : Color) {lower : Color} (full : lower.a = 255) :
    (upper.onto lower).a = 255 := by
  rw [onto]
  split
  · assumption
  split
  · exact full
  · have below : upper.a.toNat < 256 := upper.a.toNat_lt
    have sum : upper.a.toNat + lower.a.toNat * (255 - upper.a.toNat) / 255 = 255 := by
      rw [full, show (255 : UInt8).toNat = 255 from rfl, Nat.mul_div_cancel_left _ (by decide)]
      omega
    dsimp only
    rw [sum]
    rfl

namespace Canvas

/-- An opaque canvas with given sides: there is one pixel for each column of each row, and nothing
shines through it. -/
structure Solid (w h : Nat) (c : Canvas) : Prop where
  width : c.width = w
  height : c.height = h
  size : c.pixels.toArray.size = w * h
  alpha : ∀ color ∈ c.pixels, color.a = 255

/-- A new canvas is opaque. -/
theorem solid_blank (w h : Nat) : (blank w h).Solid w h := by
  refine ⟨rfl, rfl, Vector.size_toArray _, fun color member => ?_⟩
  obtain ⟨-, rfl⟩ := Vector.mem_replicate.1 member
  rfl

/-- Laying a color over a pixel keeps a canvas opaque. -/
theorem Solid.blend {w h : Nat} {c : Canvas} (solid : c.Solid w h) (q : Point) (color : Color) :
    (c.blend q color).Solid w h := by
  refine ⟨by rw [width_blend, solid.width], by rw [height_blend, solid.height], ?_, ?_⟩
  · rw [Vector.size_toArray, width_blend, height_blend, solid.width, solid.height]
  · rw [Canvas.blend]
    split
    · next i _ =>
      intro mixed member
      have written : mixed ∈ c.pixels.set i (color.onto c.pixels[i]) := member
      rcases Vector.mem_or_eq_of_mem_set written with old | rfl
      · exact solid.alpha mixed old
      · exact color.alpha_onto (solid.alpha _ (Vector.getElem_mem _))
    · exact solid.alpha

end Canvas

/-! ### Brushes -/

namespace Brush

/-- The size of a brush is a positive odd integer of the language. -/
structure Sound (b : Brush) : Prop where
  pos : 0 < b.size
  odd : b.size % 2 = 1
  bounded : b.size ≤ 9223372036854775807

/-- The brush of a new pen is sound. -/
theorem sound_single : single.Sound :=
  ⟨by decide, by decide, by decide⟩

/-- Every brush that is taken for an integer is sound. -/
theorem sound_ofSize (n : Integer) : (ofSize n.val).Sound := by
  have hi := n.le_hi
  have size : (ofSize n.val).size = 2 * ((n.val - 1) / 2).toNat + 1 := rfl
  exact ⟨by omega, by omega, by omega⟩

end Brush

/-! ### Reporters -/

namespace Reporter

variable {w h : Nat} {pace : Pace} {r : Reporter} {canvas : Canvas}

/-- All pictures that were reported are opaque, the pace is the one of the start, and one more pixel
fits in the batch. -/
structure Intact (w h : Nat) (pace : Pace) (r : Reporter) : Prop where
  log : ∀ u ∈ r.log, u.canvas.Solid w h
  same : r.pace = pace
  pending : r.pending < pace.batchSize

namespace Intact

/-- The signal does not matter. -/
theorem setSignal (intact : r.Intact w h pace) (signal : Signal) :
    { r with signal }.Intact w h pace :=
  ⟨intact.log, intact.same, intact.pending⟩

/-- One more opaque picture is reported. -/
theorem emit (intact : r.Intact w h pace) {u : Update} (solid : u.canvas.Solid w h) :
    (r.emit u).Intact w h pace := by
  refine ⟨fun u' member => ?_, intact.same, intact.pending⟩
  rcases Array.mem_push.1 member with old | rfl
  · exact intact.log u' old
  · exact solid

/-- One more opaque picture is reported, and the run pauses. -/
theorem emit_pause (intact : r.Intact w h pace) {u : Update} (solid : u.canvas.Solid w h) :
    (r.emit u).pause.reporter.Intact w h pace := by
  obtain ⟨polls, same⟩ := (r.emit u).reporter_pause
  rw [same]
  exact (intact.emit solid).setSignal _

/-- Whatever is pending, nothing is behind a flush. -/
theorem flush (solid : canvas.Solid w h) (log : ∀ u ∈ r.log, u.canvas.Solid w h)
    (same : r.pace = pace) : (r.flush canvas).reporter.Intact w h pace := by
  rw [Reporter.flush]
  split
  · next none => exact ⟨log, same, none ▸ pace.batchSize_pos⟩
  · have cleared : { r with pending := 0 }.Intact w h pace := ⟨log, same, pace.batchSize_pos⟩
    exact cleared.emit_pause (u := { kind := .pixel, canvas }) solid

/-- A pixel is counted, and a full batch is reported at once. -/
theorem pixel (intact : r.Intact w h pace) (solid : canvas.Solid w h) :
    (r.pixel canvas).reporter.Intact w h pace := by
  rw [Reporter.pixel]
  split
  · dsimp only
    split
    · exact flush solid intact.log intact.same
    · next room =>
      rw [intact.same] at room
      exact ⟨intact.log, intact.same, Nat.lt_of_not_le room⟩
  · exact intact

/-- A statement is reported in any mode. -/
theorem step (intact : r.Intact w h pace) (solid : canvas.Solid w h) (message : String) :
    (r.step canvas message).reporter.Intact w h pace := by
  rw [Reporter.step]
  split
  · exact intact
  · exact intact.emit_pause (u := { kind := .step, canvas, message }) solid
  · exact flush solid intact.log intact.same

end Intact

end Reporter

/-! ### Machines -/

namespace Machine

variable {dice : Nat → Nat} {p : Program} {limit : Nat} {w h : Nat} {pace : Pace} {m m' : Machine}

/-- What is true of a machine at every time: the canvas has its sides and nothing shines through it,
so it is in all pictures of it, one more pixel fits in the batch, and the brush is sound. -/
structure Intact (w h : Nat) (pace : Pace) (m : Machine) : Prop where
  canvas : m.canvas.Solid w h
  reporter : m.reporter.Intact w h pace
  brush : m.pen.brush.Sound

/-- A machine that no run has used is intact. -/
theorem intact_fresh (w h : Nat) (pace : Pace) (signal : Signal) (throws : Nat) :
    (fresh (.blank w h) pace signal throws).Intact w h pace where
  canvas := Canvas.solid_blank w h
  reporter := ⟨fun _ member => absurd member (Array.not_mem_empty _), rfl, pace.batchSize_pos⟩
  brush := Brush.sound_single

/-- Every step of a run leaves a sound brush. -/
theorem brush_of_step (step : Step m m') (brush : m.pen.brush.Sound) : m'.pen.brush.Sound := by
  cases step with
  | start => exact Brush.sound_single
  | poll | fetch | read | blend | pixel | report => exact brush
  | settle _ _ keeps =>
      rcases keeps with same | ⟨n, taken⟩
      · exact same ▸ brush
      · exact taken ▸ Brush.sound_ofSize n
  | conclude outcome => cases outcome <;> exact brush

/-- **Every step of a run** keeps a machine intact. -/
theorem Intact.step (step : Step m m') (intact : m.Intact w h pace) : m'.Intact w h pace := by
  obtain ⟨canvas, reporter, brush⟩ := intact
  have brush' := brush_of_step step brush
  cases step with
  | start | fetch | read | settle => exact ⟨canvas, reporter, brush'⟩
  | poll => exact ⟨canvas, reporter.setSignal _, brush'⟩
  | blend q color => exact ⟨canvas.blend q color, reporter, brush'⟩
  | pixel => exact ⟨canvas, reporter.pixel canvas, brush'⟩
  | report message => exact ⟨canvas, reporter.step canvas message, brush'⟩
  | conclude outcome =>
      cases outcome with
      | completed | cancelled | failed => exact ⟨canvas, reporter.emit canvas, brush'⟩
      | asleep | overflow => exact ⟨canvas, reporter, brush'⟩

/-- **What is true at every time.** Let a machine with a new canvas have run a program any number of
times, whatever the ends of the runs. All machines that the next run passes, from its start to its
end, are intact. -/
theorem always_intact (dice : Nat → Nat) (p : Program) (limit runs w h : Nat) (pace : Pace)
    (signal : Signal) (throws : Nat)
    (passes : Passes dice p limit
      (afterRuns dice p limit runs (fresh (.blank w h) pace signal throws)) m') :
    m'.Intact w h pace := by
  have keeps : ∀ m m', Step m m' → m.Intact w h pace → m'.Intact w h pace :=
    fun _ _ step intact => intact.step step
  have start := intact_fresh w h pace signal throws
  refine passes.invariant keeps (afterRuns_invariant (fun m intact => ?_) runs start)
  exact run_invariant keeps dice p limit intact

/-- A program that draws two pixels with a color that shines through. -/
def translucent : Program where
  stmts := [
    ⟨⟨1, 1⟩, .spawn (.lit ⟨1, 7⟩ (.int .zero)) (.lit ⟨1, 10⟩ (.int .zero))⟩,
    ⟨⟨2, 1⟩, .color (.lit ⟨2, 7⟩ (.str "#80FF0000"))⟩,
    ⟨⟨3, 1⟩, .drawLine (.lit ⟨3, 10⟩ (.int .one)) (.lit ⟨3, 13⟩ (.int .zero))
      (.lit ⟨3, 16⟩ (.int (.saturate 2)))⟩]

/-- A machine that reports every three pixels, and is cancelled between two pixels. -/
def interrupted : Machine :=
  fresh (.blank 3 1) { mode := .pixel, batch := 3 } { fromPoll := some 4 } 0

/-- Cancelled behind its first pixel, the line leaves a pixel pending and the canvas opaque. -/
theorem intact_behind_first_pixel :
    (run (fun _ => 0) translucent 10 interrupted).1 = .cancelled ∧
      (run (fun _ => 0) translucent 10 interrupted).2.reporter.pending = 1 ∧
      (run (fun _ => 0) translucent 10 interrupted).2.canvas.get ⟨0, 0⟩ = .rgb 255 127 127 ∧
      (run (fun _ => 0) translucent 10 interrupted).2.Intact 3 1
        { mode := .pixel, batch := 3 } := by
  refine ⟨by decide +kernel, by decide +kernel, by decide +kernel, ?_⟩
  exact always_intact (fun _ => 0) translucent 10 0 3 1 _ _ _ .finish

end Machine

end PenScript
