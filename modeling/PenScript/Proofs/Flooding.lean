import PenScript.Proofs.Pace
import PenScript.Proofs.Plane

/-!
# What flooding comes to

The region of a point is said here without a search: it is what can be reached from the point by
steps to neighbouring pixels of its own color, and the search finds exactly that. Points may wait in
the stack several times and outside of the canvas, so the search is held together by an invariant:
what was found is connected to the start, and all that is connected to what was found was found as
well or still waits.

## Main definitions

* `Point.Adjacent`, `Flood.Connected` — neighbours, and the region of a point;
* `Flood.Searching` — what is true at every time of a search;
* `Machine.Flooded` — what a machine that fills leaves of another one.

## Main results

* `Flood.search_spec`: a search ends with the region;
* `Flood.mem_region_iff`, `Flood.nodup_region`: the region is listed, each pixel once;
* `Machine.filling_floods_the_region`: what executing a fill does, and that it is done once.
-/

namespace PenScript

/-- One step to the left, to the right, up or down leads from one point to the other. -/
def Point.Adjacent (p q : Point) : Prop :=
  (p.x - q.x).natAbs + (p.y - q.y).natAbs = 1

/-! ### The search -/

namespace Flood

/-- The region of a point: what can be reached from it on the canvas by steps to neighbours through
pixels that have the same color as the point. -/
inductive Connected (c : Canvas) (p : Point) : Point → Prop
  | seed (inside : c.Contains p) : Connected c p p
  | step {q r : Point} (path : Connected c p q) (adjacent : q.Adjacent r) (inside : c.Contains r)
      (same : c.get r = c.get p) : Connected c p r

/-- The neighbours of a point are listed. -/
theorem mem_neighbours {p q : Point} : q ∈ neighbours p ↔ p.Adjacent q := by
  rcases p with ⟨a, b⟩
  rcases q with ⟨x, y⟩
  simp only [neighbours, List.mem_cons, List.not_mem_nil, or_false, Point.mk.injEq, Point.Adjacent]
  omega

variable {c : Canvas} {p q r : Point} {fill : Color} {stack rest : List Point}
  {seen : Vector Bool (c.width * c.height)} {found : Array Point}

/-- A region is on the canvas. -/
theorem Connected.contains (path : Connected c p q) : c.Contains q := by
  cases path with
  | seed inside => exact inside
  | step _ _ inside _ => exact inside

/-- A region is around a pixel of the canvas. -/
theorem Connected.contains_seed (path : Connected c p q) : c.Contains p := by
  induction path with
  | seed inside => exact inside
  | step _ _ _ _ ih => exact ih

/-- All pixels of a region have the same color. -/
theorem Connected.get_eq (path : Connected c p q) : c.get q = c.get p := by
  cases path with
  | seed _ => rfl
  | step _ _ _ same => exact same

/-- What is true at every time of a search for the region of `p`. Exactly the points that were found
are marked, and none was found twice. All that was found is connected to the start, and so is all
that waits, if it belongs to the region at all. The start was found or still waits, and so it is
with what is next to a point that was found. -/
structure Searching (c : Canvas) (p : Point) (stack : List Point)
    (seen : Vector Bool (c.width * c.height)) (found : Array Point) : Prop where
  marks : ∀ q i, c.index? q = some i → (seen.get i = true ↔ q ∈ found)
  nodup : found.toList.Nodup
  sound : ∀ q ∈ found, Connected c p q
  ahead : ∀ q ∈ stack, c.Contains q → c.get q = c.get p → Connected c p q
  begun : p ∈ found ∨ p ∈ stack
  closed : ∀ q ∈ found, ∀ r, q.Adjacent r → c.Contains r → c.get r = c.get p →
    r ∈ found ∨ r ∈ stack

namespace Searching

/-- A search starts with the point itself. -/
theorem start (inside : c.Contains p) : Searching c p [p] (.replicate _ false) #[] where
  marks q i _ := by
    have unmarked : (Vector.replicate (c.width * c.height) false)[i] = false := by simp
    exact iff_of_false (by rw [show Vector.get _ i = _ from unmarked]; exact Bool.false_ne_true)
      (Array.not_mem_empty q)
  nodup := List.nodup_nil
  sound q member := absurd member (Array.not_mem_empty q)
  ahead q member _ _ := by
    obtain rfl := List.mem_singleton.1 member
    exact .seed inside
  begun := Or.inr List.mem_cons_self
  closed q member := absurd member (Array.not_mem_empty q)

/-- A point that is outside, has another color or was found before may be left out. -/
theorem skip (searching : Searching c p (q :: rest) seen found) (inside : c.Contains p)
    (old : c.Contains q → c.get q = c.get p → q ∈ found) : Searching c p rest seen found where
  marks := searching.marks
  nodup := searching.nodup
  sound := searching.sound
  ahead r waits := searching.ahead r (List.mem_cons_of_mem q waits)
  begun := by
    rcases searching.begun with here | waits
    · exact Or.inl here
    · rcases List.mem_cons.1 waits with rfl | later
      · exact Or.inl (old inside rfl)
      · exact Or.inr later
  closed s member r adjacent on same := by
    rcases searching.closed s member r adjacent on same with here | waits
    · exact Or.inl here
    · rcases List.mem_cons.1 waits with rfl | later
      · exact Or.inl (old on same)
      · exact Or.inr later

/-- A point of the region that is not marked is found, and its neighbours wait from now on. -/
theorem take (searching : Searching c p (q :: rest) seen found) {i : Fin (c.width * c.height)}
    (place : c.index? q = some i) (fresh : seen.get i = false) (same : c.get q = c.get p) :
    Searching c p (neighbours q ++ rest) (seen.set i true i.isLt) (found.push q) := by
  have inside : c.Contains q := (Canvas.index?_eq_some_iff.1 place).1
  have path : Connected c p q := searching.ahead q List.mem_cons_self inside same
  have new : q ∉ found := fun again => by
    rw [(searching.marks q i place).2 again] at fresh
    cases fresh
  refine ⟨fun s j at_j => ?_, ?_, ?_, ?_, ?_, ?_⟩
  · rw [Canvas.get_mark, Array.mem_push]
    by_cases here : j = i
    · subst here
      exact iff_of_true (if_pos rfl) (Or.inr (Canvas.index?_injective at_j place))
    · have apart : s ≠ q := by
        rintro rfl
        exact here (Option.some.inj (at_j.symm.trans place))
      rw [if_neg here, searching.marks s j at_j, or_iff_left apart]
  · rw [Array.toList_push, List.nodup_append]
    refine ⟨searching.nodup, List.nodup_cons.2 ⟨by simp, List.nodup_nil⟩, ?_⟩
    rintro s old t last rfl
    obtain rfl := List.mem_singleton.1 last
    exact new (Array.mem_toList_iff.1 old)
  · intro s member
    rcases Array.mem_push.1 member with old | rfl
    · exact searching.sound s old
    · exact path
  · intro s waits on color
    rcases List.mem_append.1 waits with next | later
    · exact .step path (mem_neighbours.1 next) on color
    · exact searching.ahead s (List.mem_cons_of_mem q later) on color
  · rcases searching.begun with here | waits
    · exact Or.inl (Array.mem_push.2 (Or.inl here))
    · rcases List.mem_cons.1 waits with rfl | later
      · exact Or.inl (Array.mem_push.2 (Or.inr rfl))
      · exact Or.inr (List.mem_append.2 (Or.inr later))
  · intro s member r adjacent on color
    rcases Array.mem_push.1 member with old | rfl
    · rcases searching.closed s old r adjacent on color with here | waits
      · exact Or.inl (Array.mem_push.2 (Or.inl here))
      · rcases List.mem_cons.1 waits with rfl | later
        · exact Or.inl (Array.mem_push.2 (Or.inr rfl))
        · exact Or.inr (List.mem_append.2 (Or.inr later))
    · exact Or.inr (List.mem_append.2 (Or.inl (mem_neighbours.2 adjacent)))

/-- A search with nothing left to visit has found the region. -/
theorem mem_iff (searching : Searching c p [] seen found) : q ∈ found ↔ Connected c p q := by
  refine ⟨searching.sound q, fun path => ?_⟩
  induction path with
  | seed _ => exact searching.begun.resolve_right List.not_mem_nil
  | step _ adjacent inside same ih =>
      exact (searching.closed _ ih _ adjacent inside same).resolve_right List.not_mem_nil

end Searching

/-- **A search ends with the region**, and each pixel of it was found once. -/
theorem search_spec (inside : c.Contains p) (searching : Searching c p stack seen found) :
    (search c (c.get p) stack seen found).toList.Nodup ∧
      ∀ q, q ∈ search c (c.get p) stack seen found ↔ Connected c p q := by
  induction stack, seen, found using search.induct c (c.get p) with
  | case1 seen found =>
      rw [search]
      exact ⟨searching.nodup, fun q => searching.mem_iff⟩
  | case2 seen found q rest outside ih =>
      rw [search]
      simp only [outside]
      exact ih (searching.skip inside fun on => absurd on (Canvas.index?_eq_none_iff.1 outside))
  | case3 seen found q rest i place fresh ih =>
      rw [search]
      simp only [place, dif_pos fresh]
      have same : c.get q = c.get p := by rw [← fresh.2, Canvas.get, place]
      exact ih (searching.take place fresh.1 same)
  | case4 seen found q rest i place old ih =>
      rw [search]
      simp only [place, dif_neg old]
      refine ih (searching.skip inside fun _ same => (searching.marks q i place).1 ?_)
      have color : c.pixels[i] = c.get p := by rw [← same, Canvas.get, place]
      exact Bool.of_not_eq_false fun unmarked => old ⟨unmarked, color⟩

/-- A search for the region starts in a point of the canvas that does not have the color yet. -/
theorem region_eq (inside : c.Contains p) (other : c.get p ≠ fill) :
    region c p fill = (search c (c.get p) [p] (.replicate _ false) #[]).toList := by
  obtain ⟨i, place⟩ := Option.ne_none_iff_exists'.1 fun none =>
    Canvas.index?_eq_none_iff.1 none inside
  have color : c.get p = c.pixels[i] := by rw [Canvas.get, place]
  rw [color] at other ⊢
  simp only [region, place, if_neg other]

/-- There is no region outside of the canvas. -/
theorem region_of_outside (outside : ¬c.Contains p) : region c p fill = [] := by
  rw [region, Canvas.index?_eq_none_iff.2 outside]

/-- What has the color already is not searched. -/
theorem region_of_get_eq (same : c.get p = fill) : region c p fill = [] := by
  rw [region]
  split
  · rfl
  · next i place =>
    rw [if_pos]
    rw [← same, Canvas.get, place]

/-- No pixel of a region is listed twice. -/
theorem nodup_region (c : Canvas) (p : Point) (fill : Color) : (region c p fill).Nodup := by
  by_cases inside : c.Contains p
  · by_cases same : c.get p = fill
    · rw [region_of_get_eq same]
      exact List.nodup_nil
    · rw [region_eq inside same]
      exact (search_spec inside (.start inside)).1
  · rw [region_of_outside inside]
    exact List.nodup_nil

/-- **The region is listed**, unless it has the color already. -/
theorem mem_region_iff : q ∈ region c p fill ↔ c.get p ≠ fill ∧ Connected c p q := by
  by_cases inside : c.Contains p
  · by_cases same : c.get p = fill
    · rw [region_of_get_eq same]
      exact iff_of_false List.not_mem_nil fun h => h.1 same
    · rw [region_eq inside same, Array.mem_toList_iff, (search_spec inside (.start inside)).2]
      exact (and_iff_right same).symm
  · rw [region_of_outside inside]
    exact iff_of_false List.not_mem_nil fun h => inside h.2.contains_seed

end Flood

/-! ### Executing a fill -/

/-- An opaque color covers what is below it. -/
theorem Color.onto_of_opaque {upper : Color} (full : upper.a = 255) (lower : Color) :
    upper.onto lower = upper := by
  rw [onto, if_pos full]

namespace Machine

variable {dice : Nat → Nat} {s : Stmt} {m m' : Machine} {q : Point}

/-- The region that is filled from `m`. -/
def filledRegion (m : Machine) : List Point :=
  Flood.region m.canvas m.pen.point m.pen.color

/-- What filling leaves of a machine: the canvas keeps its sides, the color of the pen lies over the
color of the region, and all other pixels are as they were. An opaque pixel under the pen has the
color of the pen over it afterwards, and so has all that is connected to it, also if it had the
color already. The pen and the variables are as they were, and so is everything else but the
reporter. -/
structure Flooded (m m' : Machine) : Prop where
  width : m'.canvas.width = m.canvas.width
  height : m'.canvas.height = m.canvas.height
  region : ∀ q ∈ m.filledRegion, m'.canvas.get q = m.pen.color.onto (m.canvas.get m.pen.point)
  rest : ∀ q, q ∉ m.filledRegion → m'.canvas.get q = m.canvas.get q
  solid : (m.canvas.get m.pen.point).a = 255 → ∀ q, Flood.Connected m.canvas m.pen.point q →
    m'.canvas.get q = m.pen.color.onto (m.canvas.get m.pen.point)
  pen : m'.pen = m.pen
  vars : m'.vars = m.vars
  others : m' = { m with canvas := m'.canvas, reporter := m'.reporter }

/-- Filling paints the region and leaves the pen. -/
theorem exec_fill (kind : s.kind = .fill) :
    exec dice s m = settled true (fun m' => { m' with pen := m.pen })
      (paintPixels m.pen.color (m.canvas.covered m.filledRegion 1) m) := by
  have read : s.act (m.scene dice) m.throws = .ok (.draw .region, m.throws) := by
    rw [Stmt.act, kind]
    rfl
  have coat : (Figure.region.drawing m.canvas m.pen).coat m.canvas =
      ⟨m.canvas.covered m.filledRegion 1, true⟩ :=
    m.canvas.coat_of_fits fun p _ => Brush.fits_one p
  rw [exec_of_act read, perform, draw_eq, coat]
  rfl

/-- Filling is stopped from outside, or the color of the pen is laid over the region. -/
theorem exec_fill_cases (dice : Nat → Nat) (m : Machine) (kind : s.kind = .fill) :
    (∃ halt m', (halt = .cancelled ∨ halt = .asleep) ∧ exec dice s m = .error halt m') ∨
      ∃ reporter, exec dice s m = .ok () { m with
        canvas := m.canvas.lay m.pen.color (m.canvas.covered m.filledRegion 1), reporter } := by
  rw [exec_fill kind]
  obtain ⟨canvas, reporter, through | ⟨halt, outer, stopped⟩⟩ :=
    paintPixels_cases m.pen.color (m.canvas.covered m.filledRegion 1) m
  · obtain ⟨reporter', left⟩ := paintPixels_eq_ok through
    rw [left] at through
    exact Or.inr ⟨reporter', by rw [through]; rfl⟩
  · exact Or.inl ⟨halt, _, outer, by rw [stopped]; rfl⟩

/-- There is nothing to fill where the region is empty, and nobody is asked. -/
theorem exec_fill_of_nil (kind : s.kind = .fill) (none : m.filledRegion = []) :
    exec dice s m = .ok () m := by
  rw [exec_fill kind, none]
  rfl

/-- The pixels of the region that is filled have the color of the pixel under the pen. -/
theorem get_of_mem_filledRegion (member : q ∈ m.filledRegion) :
    m.canvas.Contains q ∧ m.canvas.get q = m.canvas.get m.pen.point :=
  have path := (Flood.mem_region_iff.1 member).2
  ⟨path.contains, path.get_eq⟩

/-- Laying the color of the pen over the region floods it. -/
theorem flooded_lay (m : Machine) (reporter : Reporter) :
    Flooded m { m with
      canvas := m.canvas.lay m.pen.color (m.canvas.covered m.filledRegion 1), reporter } := by
  have nodup := m.canvas.nodup_covered m.filledRegion 1
  have inside (q : Point) (member : q ∈ m.filledRegion) :
      (m.canvas.lay m.pen.color (m.canvas.covered m.filledRegion 1)).get q =
        m.pen.color.onto (m.canvas.get m.pen.point) := by
    obtain ⟨on, same⟩ := get_of_mem_filledRegion member
    rw [Canvas.get_lay nodup on, if_pos (Figure.covered_one.2 ⟨on, member⟩), same]
  have outside (q : Point) (other : q ∉ m.filledRegion) :
      (m.canvas.lay m.pen.color (m.canvas.covered m.filledRegion 1)).get q = m.canvas.get q := by
    by_cases on : m.canvas.Contains q
    · rw [Canvas.get_lay nodup on, if_neg fun h => other (Figure.covered_one.1 h).2]
    · have off : ¬(m.canvas.lay m.pen.color (m.canvas.covered m.filledRegion 1)).Contains q := by
        rw [Canvas.Contains, Canvas.width_lay, Canvas.height_lay]
        exact on
      rw [Canvas.get_of_not_contains on, Canvas.get_of_not_contains off]
  refine ⟨Canvas.width_lay _ _ _, Canvas.height_lay _ _ _, inside, outside, fun full q path => ?_,
    rfl, rfl, rfl⟩
  by_cases same : m.canvas.get m.pen.point = m.pen.color
  · -- nothing is painted here, but an opaque color over itself is itself
    have none : q ∉ m.filledRegion := fun member => (Flood.mem_region_iff.1 member).1 same
    rw [outside q none, path.get_eq, same, Color.onto_of_opaque (same ▸ full)]
  · exact inside q (Flood.mem_region_iff.2 ⟨same, path⟩)

/-- Behind a fill with an opaque color there is nothing left to fill. -/
theorem Flooded.filledRegion_eq (flooded : Flooded m m') (full : m.pen.color.a = 255)
    (reporter : Reporter) : { m' with reporter }.filledRegion = [] := by
  have pen : { m' with reporter }.pen = m.pen := flooded.pen
  rw [filledRegion, pen]
  by_cases member : m.pen.point ∈ m.filledRegion
  · refine Flood.region_of_get_eq ?_
    rw [flooded.region _ member, Color.onto_of_opaque full]
  · by_cases inside : m.canvas.Contains m.pen.point
    · refine Flood.region_of_get_eq ?_
      rw [flooded.rest _ member]
      exact Classical.not_not.1 fun other => member (Flood.mem_region_iff.2 ⟨other, .seed inside⟩)
    · refine Flood.region_of_outside ?_
      rw [Canvas.Contains, flooded.width, flooded.height]
      exact inside

/-- **Filling floods the region of the pen.** The region of a point is listed without repetitions:
it is what can be reached from the point on the canvas by steps to neighbours through pixels of its
color, and nothing if the point is not on the canvas or has the color of the fill already. Executing
a fill is never refused, and not stopped from outside if nobody cancels it and the pauses pass. If
it is not stopped then it lays the color of the pen over the pixels of the region, and the other
pixels, the pen and the variables stay as they were; and with an opaque color, executing a fill
again right behind it, whatever was reported in between, leaves everything as it is. -/
theorem filling_floods_the_region :
    (∀ (c : Canvas) (p : Point) (fill : Color),
      (Flood.region c p fill).Nodup ∧
        (¬c.Contains p ∨ c.get p = fill → Flood.region c p fill = []) ∧
        (c.Contains p → c.get p ≠ fill →
          ∀ q, q ∈ Flood.region c p fill ↔ Flood.Connected c p q)) ∧
    ∀ (dice : Nat → Nat) (s : Stmt) (m : Machine), s.kind = .fill →
      (m.reporter.Free → m.reporter.pace.Passing → Unhindered (exec dice s m)) ∧
        (Unhindered (exec dice s m) →
          ∃ m', exec dice s m = .ok () m' ∧ Flooded m m' ∧
            (m.pen.color.a = 255 → ∀ (again : Stmt) (reporter : Reporter), again.kind = .fill →
              exec dice again { m' with reporter } = .ok () { m' with reporter })) := by
  refine ⟨fun c p fill => ⟨Flood.nodup_region c p fill, ?_, ?_⟩,
    fun dice s m kind => ⟨exec_of_passing dice s, fun unhindered => ?_⟩⟩
  · rintro (outside | same)
    · exact Flood.region_of_outside outside
    · exact Flood.region_of_get_eq same
  · intro _ other q
    rw [Flood.mem_region_iff, and_iff_right other]
  · obtain ⟨halt, m', outer, stopped⟩ | ⟨reporter, through⟩ := exec_fill_cases dice m kind
    · exact absurd (unhindered halt m' stopped) (disturbed_of_outer halt outer)
    · have flooded := flooded_lay m reporter
      refine ⟨_, through, flooded, fun full again reporter' kind' => ?_⟩
      exact exec_fill_of_nil kind' (flooded.filledRegion_eq full reporter')

/-- A canvas whose white pixels touch at their corners only. -/
def checkered : Canvas :=
  .ofFn 2 2 fun x y => if x = y then .white else .rgb 255 0 0

/-- A machine with a black pen in the top left corner of `checkered`. -/
def onCheckered : Machine where
  canvas := checkered
  reporter := { pace := {} }

/-- On a checkered canvas the fill does not get around the corner, and is done the first time. -/
theorem corner_is_not_crossed :
    ∃ m', exec (fun _ => 0) ⟨⟨1, 1⟩, .fill⟩ onCheckered = .ok () m' ∧
      m'.canvas.get ⟨0, 0⟩ = .black ∧ m'.canvas.get ⟨1, 1⟩ = .white ∧
      exec (fun _ => 0) ⟨⟨2, 1⟩, .fill⟩ m' = .ok () m' := by
  obtain ⟨regions, fills⟩ := filling_floods_the_region
  obtain ⟨free, floods⟩ := fills (fun _ => 0) ⟨⟨1, 1⟩, .fill⟩ onCheckered rfl
  obtain ⟨m', through, flooded, again⟩ := floods (free ⟨rfl, rfl⟩ (by decide))
  obtain ⟨-, -, listed⟩ := regions checkered ⟨0, 0⟩ .black
  have alone (q : Point) (path : Flood.Connected checkered ⟨0, 0⟩ q) : q = ⟨0, 0⟩ := by
    induction path with
    | seed => rfl
    | @step q r _ adjacent inside same ih =>
        subst ih
        rcases r with ⟨x, y⟩
        obtain ⟨⟨left, right⟩, top, bottom⟩ : (0 ≤ x ∧ x < 2) ∧ 0 ≤ y ∧ y < 2 := inside
        have next : (0 - x).natAbs + (0 - y).natAbs = 1 := adjacent
        obtain ⟨rfl, rfl⟩ | ⟨rfl, rfl⟩ : x = 0 ∧ y = 1 ∨ x = 1 ∧ y = 0 := by omega
        · exact absurd same (by decide)
        · exact absurd same (by decide)
  have seed : (⟨0, 0⟩ : Point) ∈ onCheckered.filledRegion :=
    (listed (by decide) (by decide) _).2 (.seed (by decide))
  have apart : (⟨1, 1⟩ : Point) ∉ onCheckered.filledRegion := fun member =>
    absurd (alone _ ((listed (by decide) (by decide) _).1 member)) (by decide)
  refine ⟨m', through, (flooded.region _ seed).trans (by decide), ?_, again rfl _ m'.reporter rfl⟩
  exact (flooded.rest _ apart).trans (by decide)

end Machine

end PenScript
