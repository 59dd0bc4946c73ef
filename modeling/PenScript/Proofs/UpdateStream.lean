import PenScript.Proofs.Pace
import PenScript.Proofs.Painting

/-!
# The updates of a run

What a run reports is known from what it executes. A statement that draws is reported by nothing, by
one update behind it, or by one update for every so many pixels, depending on the mode; at the end
of the statement the pixels that are left make one update more, so that between two statements
nothing is pending. The last update tells how the run ended; there is none about a run that never
returns from a pause.

## Main definitions

* `Reporter.Reports` — between two reporters these updates were reported;
* `Reporter.Idle` — no pixel is pending, unless the run is to be cancelled;
* `Machine.progress` — the updates about one statement;
* `Machine.Wrote` — the pixels that a statement has written.

## Main results

* `Machine.paint_batches`: which pixels are reported while they are painted;
* `Machine.turn_reports`: the updates of one turn;
* `Machine.updates_of_a_run`: the updates of a whole run;
* `Machine.sleeper_reports_no_end`: a run that nobody cancels and that never reports its end.
-/

namespace PenScript

/-! ### Reporting -/

namespace Reporter

variable {r r₁ r' : Reporter} {us us' : List Update}

/-- From the one reporter to the other these updates were reported. -/
structure Reports (r : Reporter) (us : List Update) (r' : Reporter) : Prop where
  pace : r'.pace = r.pace
  log : r'.log.toList = r.log.toList ++ us

/-- Doing nothing reports nothing. -/
theorem Reports.silent (r : Reporter) : Reports r [] r :=
  ⟨rfl, (List.append_nil _).symm⟩

/-- What was reported first comes first. -/
theorem Reports.trans (first : Reports r us r₁) (second : Reports r₁ us' r') :
    Reports r (us ++ us') r' :=
  ⟨second.pace.trans first.pace, by rw [second.log, first.log, List.append_assoc]⟩

/-- A poll reports nothing. -/
theorem Reports.of_poll (rest : Reports r.poll.2 us r') : Reports r us r' :=
  ⟨rest.pace, rest.log⟩

/-- The pause behind an update reports nothing. -/
theorem emit_reports (r : Reporter) (u : Update) :
    Reports r [u] (r.emit u).pause.reporter ∧ (r.emit u).pause.reporter.pending = r.pending := by
  obtain ⟨polls, same⟩ := (r.emit u).reporter_pause
  rw [same]
  exact ⟨⟨rfl, Array.toList_push⟩, rfl⟩

/-- A flush reports the pixels that are pending, if there are any, and leaves none. -/
theorem flush_reports (r : Reporter) (canvas : Canvas) :
    Reports r (if r.pending = 0 then [] else [{ kind := .pixel, canvas }])
        (r.flush canvas).reporter ∧
      (r.flush canvas).reporter.pending = 0 := by
  rw [flush]
  split
  · next none => exact ⟨.silent r, none⟩
  · obtain ⟨reports, pending⟩ :=
      { r with pending := 0 }.emit_reports { kind := .pixel, canvas }
    exact ⟨⟨reports.pace, reports.log⟩, pending⟩

/-- In the other modes pixels are not counted. -/
theorem pixel_of_mode (mode : r.pace.mode ≠ .pixel) (canvas : Canvas) :
    r.pixel canvas = r.goOn := by
  rw [pixel, if_neg mode]

/-- A pixel that does not fill the batch is counted. -/
theorem pixel_pending (mode : r.pace.mode = .pixel) (room : r.pending + 1 < r.pace.batchSize)
    (canvas : Canvas) : r.pixel canvas = { r with pending := r.pending + 1 }.goOn := by
  rw [pixel, if_pos mode]
  exact if_neg (Nat.not_le_of_lt room)

/-- A pixel that fills the batch is reported with all others of it. -/
theorem pixel_full (mode : r.pace.mode = .pixel) (full : r.pending + 1 = r.pace.batchSize)
    (canvas : Canvas) : Reports r [{ kind := .pixel, canvas }] (r.pixel canvas).reporter ∧
      (r.pixel canvas).reporter.pending = 0 := by
  have flushed : r.pixel canvas = { r with pending := r.pending + 1 }.flush canvas := by
    rw [pixel, if_pos mode]
    exact if_pos (Nat.le_of_eq full.symm)
  obtain ⟨reports, none⟩ := { r with pending := r.pending + 1 }.flush_reports canvas
  rw [if_neg (Nat.succ_ne_zero _)] at reports
  rw [flushed]
  exact ⟨⟨reports.pace, reports.log⟩, none⟩

/-- No pixel is pending, unless the signal is raised: what a cancelled run leaves pending is never
asked for, since every later run of the reporter is cancelled before it paints. -/
def Idle (r : Reporter) : Prop :=
  r.pending = 0 ∨ r.signal.isRaised

/-- What is not to be cancelled has nothing pending. -/
theorem Idle.pending {r : Reporter} (idle : r.Idle) (unraised : r.signal.isRaised = false) :
    r.pending = 0 :=
  idle.resolve_right (by rw [unraised]; exact Bool.false_ne_true)

end Reporter

/-- Counting an update withdraws no cancellation. -/
theorem Signal.isRaised_countUpdate {s : Signal} (h : s.isRaised) : s.countUpdate.isRaised := by
  rw [isRaised_iff] at h ⊢
  exact h.imp_right fun ⟨n, hn, due⟩ => ⟨n, hn, Nat.le_succ_of_le due⟩

/-- A batch is not empty. -/
theorem Pace.batchSize_pos (pace : Pace) : 0 < pace.batchSize :=
  Nat.le_max_right _ _

/-! ### Batches of pixels -/

/-- The updates about pixels that are laid one after the other, one for every `b` pixels, if `c` of
them were pending before. -/
def batches (canvas : Canvas) (color : Color) (b c : Nat) (ps : List Point) : List Update :=
  (List.range ((c + ps.length) / b)).map fun j =>
    { kind := .pixel, canvas := canvas.lay color (ps.take ((j + 1) * b - c)) }

section Batches

variable {b c : Nat} (canvas : Canvas) (color : Color) (p : Point) (ps : List Point)

/-- Without pixels nothing is reported. -/
theorem batches_nil (below : c < b) : batches canvas color b c [] = [] := by
  rw [batches, List.length_nil, Nat.add_zero, Nat.div_eq_of_lt below]
  rfl

/-- A pixel that does not fill the batch is pending for the rest. -/
theorem batches_cons_pending (room : c + 1 < b) :
    batches canvas color b c (p :: ps) = batches (canvas.blend p color) color b (c + 1) ps := by
  have count : c + (p :: ps).length = c + 1 + ps.length := by rw [List.length_cons]; omega
  rw [batches, batches, count]
  refine List.map_congr_left fun j _ => ?_
  have far : b ≤ (j + 1) * b := Nat.le_mul_of_pos_left b (Nat.succ_pos j)
  have next : (j + 1) * b - c = (j + 1) * b - (c + 1) + 1 := by omega
  rw [next, List.take_succ_cons, Canvas.lay_cons]

/-- A pixel that fills the batch makes an update, and the rest starts anew. -/
theorem batches_cons_full (full : c + 1 = b) :
    batches canvas color b c (p :: ps) =
      { kind := .pixel, canvas := canvas.blend p color } ::
        batches (canvas.blend p color) color b 0 ps := by
  have count : (c + (p :: ps).length) / b = ps.length / b + 1 := by
    rw [List.length_cons, show c + (ps.length + 1) = ps.length + b by omega,
      Nat.add_div_right _ (by omega)]
  rw [batches, batches, count, List.range_succ_eq_map, List.map_cons, List.map_map,
    Nat.zero_add ps.length]
  congr 1
  · rw [show (0 + 1) * b - c = 0 + 1 by omega, List.take_succ_cons, List.take_zero]
    rfl
  · refine List.map_congr_left fun j _ => ?_
    have more : (j + 1 + 1) * b = (j + 1) * b + b := Nat.succ_mul _ _
    have next : (j + 1 + 1) * b - c = (j + 1) * b + 1 := by omega
    rw [Function.comp_apply, Nat.succ_eq_add_one, next, List.take_succ_cons, Canvas.lay_cons,
      Nat.sub_zero]

/-- With the pixels that are left at the end of a statement there is one update for every `b`
pixels, rounded up. -/
theorem batches_flush (positive : 0 < b) :
    batches canvas color b 0 ps ++
        (if ps.length % b = 0 then []
          else [{ kind := .pixel, canvas := canvas.lay color ps }]) =
      (List.range ((ps.length + b - 1) / b)).map fun j =>
        { kind := .pixel, canvas := canvas.lay color (ps.take (min ((j + 1) * b) ps.length)) } := by
  have division := Nat.div_add_mod ps.length b
  have below := Nat.mod_lt ps.length positive
  have whole : batches canvas color b 0 ps = (List.range (ps.length / b)).map fun j =>
      { kind := .pixel, canvas := canvas.lay color (ps.take (min ((j + 1) * b) ps.length)) } := by
    rw [batches, Nat.zero_add]
    refine List.map_congr_left fun j member => ?_
    have inside : (j + 1) * b ≤ ps.length :=
      Nat.le_trans (Nat.mul_le_mul_right b (List.mem_range.1 member)) (Nat.div_mul_le_self _ _)
    rw [Nat.min_eq_left inside, Nat.sub_zero]
  rw [whole]
  -- the full batches are the same; what is left is the batch at the end, if there is one
  have rounded : (ps.length / b + 1) * b = b * (ps.length / b) + b := by
    rw [Nat.succ_mul, Nat.mul_comm]
  split
  · next even =>
    have count : (ps.length + b - 1) / b = ps.length / b :=
      Nat.div_eq_of_lt_le (by rw [Nat.mul_comm]; omega) (by rw [rounded]; omega)
    rw [count, List.append_nil]
  · next odd =>
    have count : (ps.length + b - 1) / b = ps.length / b + 1 := by
      refine Nat.div_eq_of_lt_le (by rw [rounded]; omega) ?_
      rw [Nat.succ_mul, rounded]
      omega
    have all : min ((ps.length / b + 1) * b) ps.length = ps.length := by
      rw [rounded]
      omega
    rw [count, List.range_succ, List.map_append, List.map_singleton, all, List.take_length]

end Batches

/-! ### Statements -/

namespace Machine

variable {dice : Nat → Nat} {p : Program} {limit : Nat} {m m' : Machine}

/-- Pixel by pixel, an update is made whenever the batch is full, and the rest stays pending. -/
theorem paint_batches {color : Color} {ps : List Point}
    (painted : paintPixels color ps m = .ok () m') (mode : m.reporter.pace.mode = .pixel)
    (below : m.reporter.pending < m.reporter.pace.batchSize) :
    m.reporter.Reports
        (batches m.canvas color m.reporter.pace.batchSize m.reporter.pending ps) m'.reporter ∧
      m'.reporter.pending =
        (m.reporter.pending + ps.length) % m.reporter.pace.batchSize := by
  induction ps generalizing m with
  | nil =>
      cases painted
      rw [batches_nil _ _ below, List.length_nil, Nat.add_zero, Nat.mod_eq_of_lt below]
      exact ⟨.silent _, rfl⟩
  | cons q ps ih =>
      rw [paintPixels_cons] at painted
      split at painted
      · cases painted
      split at painted
      case isFalse => cases painted
      have laid : (m.polled.laid q color).reporter =
          (m.polled.reporter.pixel (m.canvas.blend q color)).reporter := rfl
      by_cases full : m.reporter.pending + 1 = m.reporter.pace.batchSize
      -- the batch is full with this pixel, and the rest starts with none pending
      · obtain ⟨reports, none⟩ :=
          Reporter.pixel_full (r := m.polled.reporter) mode full (m.canvas.blend q color)
        rw [← laid] at reports none
        have pace : (m.polled.laid q color).reporter.pace = m.reporter.pace := reports.pace
        obtain ⟨rest, left⟩ := ih painted (by rw [pace]; exact mode)
          (by rw [pace, none]; exact m.reporter.pace.batchSize_pos)
        rw [pace, none, Nat.zero_add] at left
        rw [pace, none] at rest
        have count : m.reporter.pending + (q :: ps).length =
            ps.length + m.reporter.pace.batchSize := by
          rw [List.length_cons]
          omega
        rw [batches_cons_full _ _ _ _ full, count, Nat.add_mod_right]
        exact ⟨(reports.trans rest).of_poll, left⟩
      -- the rest starts with one more pending, and the batch is still not full
      · have room : m.reporter.pending + 1 < m.reporter.pace.batchSize := by omega
        rw [Reporter.pixel_pending (r := m.polled.reporter) mode room] at laid
        obtain ⟨rest, left⟩ := ih painted (by rw [laid]; exact mode) (by rw [laid]; exact room)
        rw [laid] at rest left
        have count : m.reporter.pending + (q :: ps).length =
            m.reporter.pending + 1 + ps.length := by
          rw [List.length_cons]
          omega
        rw [batches_cons_pending _ _ _ _ room, count]
        exact ⟨⟨rest.pace, rest.log⟩, left⟩

/-- In the other modes painting reports nothing. -/
theorem paint_silent {color : Color} {ps : List Point}
    (painted : paintPixels color ps m = .ok () m') (mode : m.reporter.pace.mode ≠ .pixel) :
    m.reporter.Reports [] m'.reporter ∧ m'.reporter.pending = m.reporter.pending := by
  induction ps generalizing m with
  | nil =>
      cases painted
      exact ⟨.silent _, rfl⟩
  | cons q ps ih =>
      rw [paintPixels_cons] at painted
      split at painted
      · cases painted
      split at painted
      case isFalse => cases painted
      have laid : (m.polled.laid q color).reporter = m.polled.reporter :=
        congrArg Reported.reporter (Reporter.pixel_of_mode (r := m.polled.reporter) mode _)
      obtain ⟨rest, left⟩ := ih painted (by rw [laid]; exact mode)
      rw [laid] at rest left
      exact ⟨⟨rest.pace, rest.log⟩, left⟩

/-- Executing a statement shows and reports what its painting does. -/
theorem painting_of_exec {s : Stmt} (done : exec dice s m = .ok () m') :
    ∃ throws m₁, paintPixels m.pen.color (pixels dice s m) { m with throws } = .ok () m₁ ∧
      m'.canvas = m₁.canvas ∧ m'.reporter = m₁.reporter := by
  obtain ⟨throws, m₁, painted, pen, vars, pc, rfl, -⟩ := exec_eq_ok done
  exact ⟨throws, m₁, painted, rfl, rfl⟩

/-- The updates about a statement that is executed on `m` in a run of some pace: none, or one with
the canvas behind the statement, or one for every so many of its pixels, rounded up, each of them
with the canvas behind the pixels up to there. -/
def progress (dice : Nat → Nat) (pace : Pace) (m : Machine) (s : Stmt) : List Update :=
  if s.isDrawing then
    match pace.mode with
    | .instant => []
    | .step =>
      [{ kind := .step, canvas := (left (exec dice s m)).canvas, message := "Executed " ++ s.text }]
    | .pixel =>
      let ps := pixels dice s m
      (List.range ((ps.length + pace.batchSize - 1) / pace.batchSize)).map fun j =>
        { kind := .pixel,
          canvas := m.canvas.lay m.pen.color (ps.take (min ((j + 1) * pace.batchSize) ps.length)) }
  else []

/-- The updates about a statement are reported while it is executed and at its end. Nothing is left
pending behind it, if nothing was in front of it. -/
theorem stmt_reports {s : Stmt} (done : exec dice s m = .ok () m')
    (none : m.reporter.pending = 0) :
    m.reporter.Reports (progress dice m.reporter.pace m s) (m'.stepped s).reporter ∧
      (m'.stepped s).reporter.pending = 0 := by
  obtain ⟨throws, m₁, painted, -, reporter⟩ := painting_of_exec done
  rw [stepped, stepReport, progress]
  cases draws : s.isDrawing with
  | false =>
      rw [pixels_of_not_isDrawing dice m draws] at painted
      cases painted
      rw [if_neg Bool.false_ne_true, if_neg Bool.false_ne_true, reporter]
      exact ⟨.silent _, none⟩
  | true =>
      rw [if_pos rfl, if_pos rfl]
      dsimp only
      have silent (other : m.reporter.pace.mode ≠ .pixel) :
          m.reporter.Reports [] m'.reporter ∧ m'.reporter.pending = 0 := by
        obtain ⟨reports, kept⟩ := paint_silent painted other
        rw [← reporter] at reports kept
        exact ⟨reports, kept.trans none⟩
      cases mode : m.reporter.pace.mode with
      | instant =>
          obtain ⟨reports, clear⟩ := silent (by rw [mode]; decide)
          rw [Reporter.step, reports.pace, mode]
          exact ⟨reports, clear⟩
      | step =>
          obtain ⟨reports, clear⟩ := silent (by rw [mode]; decide)
          rw [Reporter.step, reports.pace, mode, done]
          obtain ⟨last, kept⟩ := m'.reporter.emit_reports
            { kind := .step, canvas := m'.canvas, message := "Executed " ++ s.text }
          exact ⟨reports.trans last, kept.trans clear⟩
      | pixel =>
          have positive := m.reporter.pace.batchSize_pos
          obtain ⟨reports, pending⟩ := paint_batches painted mode (by rw [none]; exact positive)
          rw [← reporter, none] at reports pending
          obtain ⟨last, clear⟩ := m'.reporter.flush_reports m'.canvas
          rw [pending, Nat.zero_add] at last
          rw [Reporter.step, reports.pace, mode, ← batches_flush _ _ _ positive,
            ← canvas_of_exec done]
          exact ⟨reports.trans last, clear⟩

/-- The updates of one turn are those about its statement, and nothing is left pending. -/
theorem turn_reports {s : Stmt} (now : turn dice p m = .ok (some s) m')
    (none : m.reporter.pending = 0) :
    m.reporter.Reports (progress dice m.reporter.pace m.fetched s) m'.reporter ∧
      m'.reporter.pending = 0 := by
  obtain ⟨-, -, -, m₁, done, rfl, -⟩ := turn_eq_some now
  obtain ⟨reports, left⟩ := stmt_reports done none
  exact ⟨reports.of_poll, left⟩

/-- The updates of a history are those about its statements. -/
theorem Turns.reports {history : List (Machine × Stmt)} (turns : Turns dice p m history m')
    (none : m.reporter.pending = 0) :
    m.reporter.Reports
        (history.flatMap fun entry => progress dice m.reporter.pace entry.1 entry.2) m'.reporter ∧
      m'.reporter.pending = 0 := by
  induction turns with
  | nil => exact ⟨.silent _, none⟩
  | cons now _ ih =>
      obtain ⟨first, left⟩ := turn_reports now none
      obtain ⟨rest, left'⟩ := ih left
      rw [first.pace] at rest
      exact ⟨first.trans rest, left'⟩

/-! ### Runs -/

end Machine

/-- The run has come to an end: it does not sleep for ever and was not broken off. -/
def Outcome.Returns (o : Outcome) : Prop :=
  o ≠ .asleep ∧ o ≠ .overflow

instance (o : Outcome) : Decidable o.Returns :=
  inferInstanceAs (Decidable (_ ∧ _))

namespace Machine

variable {dice : Nat → Nat} {p : Program} {limit : Nat} {m m' : Machine}

/-- There is an update about the end of every run that returns. -/
theorem finalUpdate?_of_returns {o : Outcome} (returns : o.Returns) (canvas : Canvas) :
    ∃ final, finalUpdate? canvas o = some final := by
  cases o with
  | completed | cancelled | failed => exact ⟨_, rfl⟩
  | asleep => exact absurd rfl returns.1
  | overflow => exact absurd rfl returns.2

/-- Painting that is cancelled leaves the signal raised. -/
theorem raised_of_paint_cancelled {color : Color} {ps : List Point}
    (h : paintPixels color ps m = .error .cancelled m') : m'.reporter.signal.isRaised := by
  induction ps generalizing m with
  | nil => cases h
  | cons q ps ih =>
      rw [paintPixels_cons] at h
      split at h
      · next raised =>
        cases h
        exact Signal.isRaised_poll raised
      · split at h
        · exact ih h
        · cases h

/-- A cancelled run leaves the signal raised. -/
theorem Ending.isRaised {v : Outcome × Machine} (ending : Ending dice p m v)
    (cancelled : v.1 = .cancelled) : v.2.reporter.signal.isRaised := by
  cases ending with
  | raised raised => exact Signal.isRaised_countUpdate (Signal.isRaised_poll raised)
  | completed _ _ => cases cancelled
  | full _ _ _ => cases cancelled
  | asleep _ _ _ _ _ => cases cancelled
  | @stopped s halt m' _ _ _ stopped =>
      cases halt with
      | failed f | asleep | overflow => cases cancelled
      | cancelled =>
          obtain ⟨f, _, failed, -⟩ | ⟨-, throws, painting⟩ | ⟨broken, -⟩ := exec_eq_error stopped
          · cases failed
          · exact Signal.isRaised_countUpdate (raised_of_paint_cancelled painting)
          · cases broken

/-- The report about the end leaves an idle reporter idle. -/
theorem idle_conclude (idle : m.reporter.Idle) (outcome : Outcome) :
    (m.conclude outcome).reporter.Idle := by
  have counted : m.reporter.signal.countUpdate.isRaised ∨ m.reporter.pending = 0 :=
    idle.symm.imp_left Signal.isRaised_countUpdate
  cases outcome with
  | completed | cancelled | failed => exact counted.symm
  | asleep | overflow => exact idle

/-- A history leaves the reporter idle. -/
theorem Turns.idle {history : List (Machine × Stmt)} (turns : Turns dice p m history m')
    (idle : m.reporter.Idle) : m'.reporter.Idle := by
  refine turns.invariant (I := fun m => m.reporter.Idle) idle ?_
  intro m s m' _ now idle
  have none := idle.pending (turn_eq_some now).1
  exact Or.inl (turn_reports now none).2

/-- Whatever the end of a run that returns, it leaves the reporter idle. -/
theorem run_idle (dice : Nat → Nat) (p : Program) (limit : Nat) (idle : m.reporter.Idle)
    (returns : (run dice p limit m).1.Returns) : (run dice p limit m).2.reporter.Idle := by
  cases labels : Flow.ofProgram p limit with
  | error f =>
      rw [run_of_refused labels]
      exact idle_conclude (m := m.restart) idle (.failed f)
  | ok flow =>
      obtain ⟨history, last, ⟨_, _, turns⟩, ends⟩ := run_course labels dice m
      have idle' : last.reporter.Idle := turns.idle idle
      by_cases cancelled : (run dice p limit m).1 = .cancelled
      · exact Or.inr ((ending_of_verdict ends).isRaised cancelled)
      · obtain ⟨throws, flow, left⟩ := 
          (ending_of_verdict ends).left_eq cancelled returns.1 returns.2
        rw [left]
        exact idle_conclude (m := { last.polled with throws, flow })
          (idle'.imp_right Signal.isRaised_poll) _

/-- The updates in front of the last one tell of pixels or of a statement. -/
theorem kind_of_progress {pace : Pace} {s : Stmt} {u : Update}
    (reported : u ∈ progress dice pace m s) : u.kind = .pixel ∨ u.kind = .step := by
  rw [progress] at reported
  split at reported
  · split at reported
    · cases reported
    · obtain rfl := List.mem_singleton.1 reported
      exact Or.inr rfl
    · obtain ⟨j, -, rfl⟩ := List.mem_map.1 reported
      exact Or.inl rfl
  · cases reported

/-- A statement was executed on `m`: it painted some pixels in this order, laying the color of the
pen over each of them, and they are different pixels of the canvas. -/
structure Wrote (dice : Nat → Nat) (m : Machine) (s : Stmt) (ps : List Point) : Prop where
  executed : ∃ behind throws painted, exec dice s m = .ok () behind ∧
    paintPixels m.pen.color ps { m with throws } = .ok () painted ∧
    behind.canvas = painted.canvas ∧ painted.canvas = m.canvas.lay m.pen.color ps
  nodup : ps.Nodup
  inside : ∀ q ∈ ps, m.canvas.Contains q

/-- A statement that was executed has written its pixels. -/
theorem wrote_of_exec {s : Stmt} (done : exec dice s m = .ok () m') :
    Wrote dice m s (pixels dice s m) := by
  obtain ⟨throws, painted, paints, canvas, -⟩ := painting_of_exec done
  exact ⟨⟨m', throws, painted, done, paints, canvas, canvas ▸ canvas_of_exec done⟩,
    nodup_pixels dice s m, fun q => contains_of_mem_pixels⟩

/-- Every statement of a history has written its pixels. -/
theorem Turns.wrote {history : List (Machine × Stmt)} (turns : Turns dice p m history m') :
    ∀ entry ∈ history, Wrote dice entry.1 entry.2 (pixels dice entry.2 entry.1) := by
  induction turns with
  | nil => simp
  | cons now _ ih =>
      obtain ⟨-, -, -, behind, done, -⟩ := turn_eq_some now
      exact List.forall_mem_cons.2 ⟨wrote_of_exec done, ih⟩

/-- **The updates of a run.** A run that is not cancelled, does not sleep for ever and is not broken
off reports, in the order of its history, the updates about the statements that it executed, and at
last one update about its end with the final canvas. A run that nobody cancels and whose pauses pass
is neither cancelled nor asleep. The reporter was idle in front of the run, as it is at first and
behind every run that returns.

The updates about a statement are those of `progress`, and the pixels that they count are those that
the statement wrote. -/
theorem updates_of_a_run (dice : Nat → Nat) (p : Program) (limit : Nat) (m : Machine)
    (idle : m.reporter.Idle) :
    ((run dice p limit m).1.Returns → (run dice p limit m).2.reporter.Idle) ∧
    (m.reporter.Free → m.reporter.pace.Passing → (run dice p limit m).1.Undisturbed) ∧
    ((run dice p limit m).1.Undisturbed → (run dice p limit m).1 ≠ .overflow → ∃ history final,
      ((history = [] ∧ ∃ f, Flow.ofProgram p limit = .error f) ∨
        ∃ last, Reaches dice p limit m history last ∧
          verdict? (turn dice p last) = some (run dice p limit m)) ∧
      finalUpdate? (run dice p limit m).2.canvas (run dice p limit m).1 = some final ∧
      (run dice p limit m).2.reporter.log.toList =
        m.reporter.log.toList ++
          (history.flatMap fun entry => progress dice m.reporter.pace entry.1 entry.2) ++
          [final] ∧
      (∀ entry ∈ history, ∀ u ∈ progress dice m.reporter.pace entry.1 entry.2,
        u.kind = .pixel ∨ u.kind = .step) ∧
      ∀ entry ∈ history, Wrote dice entry.1 entry.2 (pixels dice entry.2 entry.1)) := by
  refine ⟨run_idle dice p limit idle, run_of_passing dice p limit, ?_⟩
  rintro ⟨uncancelled, awake⟩ inRange
  obtain ⟨final, told⟩ := finalUpdate?_of_returns ⟨awake, inRange⟩ (run dice p limit m).2.canvas
  cases labels : Flow.ofProgram p limit with
  | error f =>
      refine ⟨[], final, Or.inl ⟨rfl, f, rfl⟩, told, ?_, by simp, by simp⟩
      rw [run_of_refused labels, canvas_conclude] at told
      rw [run_of_refused labels, log_conclude, told, List.flatMap_nil, List.append_nil]
      rfl
  | ok flow =>
      obtain ⟨history, last, reaches, ends⟩ := run_course labels dice m
      have ⟨_, _, turns⟩ := reaches
      have unraised : m.reporter.signal.isRaised = false := turns.unraised ends uncancelled
      obtain ⟨reports, -⟩ := turns.reports (idle.pending unraised)
      obtain ⟨throws, flow, left⟩ := (ending_of_verdict ends).left_eq uncancelled awake inRange
      refine ⟨history, final, Or.inr ⟨last, reaches, ends⟩, told, ?_, fun _ _ _ => kind_of_progress,
        turns.wrote⟩
      rw [left, canvas_conclude] at told
      rw [left, log_conclude, told]
      exact congrArg (· ++ [final]) reports.log

/-- A machine that reports every three pixels. -/
def inThrees : Machine where
  canvas := .blank 3 1
  reporter := { pace := { mode := .pixel, batch := 3 } }

/-- The two pixels of the line are reported at its end, and then the division by zero. -/
theorem line_is_reported_in_front_of_division :
    inThrees.reporter.Idle ∧
      (run (fun _ => 0) lineThenDivision 10 inThrees).1 = .failed ⟨⟨3, 10⟩, .divisionByZero⟩ ∧
      (run (fun _ => 0) lineThenDivision 10 inThrees).2.reporter.log.toList.map Update.kind =
        [.pixel, .error] ∧
      ∃ history last, Reaches (fun _ => 0) lineThenDivision 10 inThrees history last ∧
        (run (fun _ => 0) lineThenDivision 10 inThrees).2.reporter.log.toList =
          (history.flatMap fun entry =>
              progress (fun _ => 0) inThrees.reporter.pace entry.1 entry.2) ++
            [breakdown (run (fun _ => 0) lineThenDivision 10 inThrees).2.canvas
              ⟨⟨3, 10⟩, .divisionByZero⟩] := by
  have idle : inThrees.reporter.Idle := Or.inl rfl
  have failed : (run (fun _ => 0) lineThenDivision 10 inThrees).1 =
      .failed ⟨⟨3, 10⟩, .divisionByZero⟩ := by decide +kernel
  obtain ⟨-, undisturbed, updates⟩ :=
    updates_of_a_run (fun _ => 0) lineThenDivision 10 inThrees idle
  obtain ⟨history, final, ⟨-, f, refused⟩ | ⟨last, reaches, -⟩, told, log, -⟩ :=
    updates (undisturbed ⟨rfl, rfl⟩ (by decide)) (by rw [failed]; nofun)
  · cases refused
  · rw [failed] at told
    cases told
    exact ⟨idle, failed, by decide +kernel, history, last, reaches, log⟩

/-- A run that nobody cancels need not report its end: it falls asleep behind its first line, and
its only update is the one about that line. -/
theorem sleeper_reports_no_end :
    (watched.reportedBy sleepy).reporter.Free ∧
      (run (fun _ => 0) twoPixels 10 (watched.reportedBy sleepy)).1 = .asleep ∧
      (run (fun _ => 0) twoPixels 10
        (watched.reportedBy sleepy)).2.reporter.log.toList.map Update.kind = [.step] := by
  refine ⟨⟨rfl, rfl⟩, ?_, ?_⟩ <;> decide +kernel

end Machine

end PenScript
