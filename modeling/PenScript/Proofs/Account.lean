import PenScript.Proofs.Pattern
import PenScript.Proofs.Places
import PenScript.Lexer

/-!
# Every character is accounted for

Reading a text gives lexemes and faults, and each of them knows where it was found. Put side by side
they account for the whole text: what is in no lexeme is a blank, part of a comment, part of a
fault, or inside of a string literal that never ends.

The segments of a text are the link. Each of them is placed at the byte and at the place where the
segments before it end, so that a lexeme or a fault is known by its segment and the segments around
it (`Lexed.exists_of_mem_lexemes`, `Lexed.unread_of_cut`).

## Main definitions

* `Lexed.Unread` — the parts of a text that are in no lexeme;
* `Lexed.AccountsFor` — how a text is accounted for by what was read from it.

## Main results

* `Lexed.lexing_accounts_for_the_text`: what is read from a text accounts for it.
-/

namespace PenScript

open Segment (Longest Reads Fits cut)

/-! ### Segments of a text -/

namespace Segment

variable {segs before behind : List Segment} {seg : Segment}

/-- Every segment fits what is behind it. -/
def Sound (segs : List Segment) : Prop :=
  ∀ before seg behind, segs = before ++ seg :: behind → Fits (behind.flatMap text) seg

/-- What a text is cut into is sound. -/
theorem sound_cut (cs : List Char) : Sound (cut cs) :=
  fun _ _ _ split => fits_of_cut split

/-- No segment is empty. -/
theorem Fits.text_ne_nil {rest : List Char} (fits : Fits rest seg) : seg.text ≠ [] := by
  cases fits with
  | found longest =>
      obtain ⟨c, part, rfl⟩ := longest.reads.exists_cons
      exact List.cons_ne_nil c part
  | unclosed _ _ => exact List.cons_ne_nil _ _
  | stray _ _ => exact List.cons_ne_nil _ _

/-- A segment that is a token is the longest match where it stands. -/
theorem Fits.longest {rest : List Char} {t : Token} (fits : Fits rest seg)
    (kind : seg.kind = .token t) : Longest (seg.text ++ rest) seg.text (.token t) := by
  cases fits with
  | found longest => exact kind ▸ longest
  | unclosed _ _ => cases kind
  | stray _ _ => cases kind

/-- The end of the text fits no pattern. -/
theorem Reads.ne_eof {w : List Char} {k : Kind} (read : Reads w k) : k ≠ .token .eof := by
  cases read with
  | number _ _ =>
      unfold ofDigits
      split <;> simp
  | fixed spelled =>
      intro same
      cases same
      cases spelled
  | string _ | name _ _ _ | blanks _ _ | comment _ => simp

/-- No segment of a sound list is empty. -/
theorem Sound.text_ne_nil (sound : Sound segs) (member : seg ∈ segs) : seg.text ≠ [] := by
  obtain ⟨before, behind, split⟩ := List.append_of_mem member
  exact (sound before seg behind split).text_ne_nil

/-- No segment is behind a string literal that never ends. -/
theorem Sound.last {w : List Char} (sound : Sound segs)
    (split : segs = before ++ ⟨.fault .openString, w⟩ :: behind) : behind = [] := by
  have fits := sound _ _ _ split
  generalize whole : (⟨.fault .openString, w⟩ : Segment) = seg at fits
  cases fits with
  | found longest =>
      obtain ⟨rfl, rfl⟩ := Segment.mk.inj whole
      generalize fault : Kind.fault .openString = k at longest
      cases longest.reads with
      | number _ _ => exact absurd fault (by unfold ofDigits; split <;> simp)
      | string _ | fixed _ | name _ _ _ | blanks _ _ | comment _ => cases fault
  | stray _ _ => cases whole
  | unclosed _ last =>
      cases behind with
      | nil => rfl
      | cons next rest =>
          have member : next ∈ segs := by simp [split]
          rw [List.flatMap_cons] at last
          exact absurd (List.append_eq_nil_iff.1 last).1 (sound.text_ne_nil member)

/-- A character of the text is in one of the segments. -/
theorem exists_segment {c : Char} {front rear : List Char}
    (split : segs.flatMap text = front ++ c :: rear) :
    ∃ before seg behind inFront inRear, segs = before ++ seg :: behind ∧
      seg.text = inFront ++ c :: inRear ∧ front = before.flatMap text ++ inFront ∧
      rear = inRear ++ behind.flatMap text := by
  induction segs generalizing front with
  | nil => simp at split
  | cons seg segs ih =>
      rw [List.flatMap_cons, List.append_eq_append_iff] at split
      obtain ⟨more, rfl, others⟩ | ⟨inside, within, others⟩ := split
      · obtain ⟨before, seg', behind, inFront, inRear, rfl, part, rfl, rfl⟩ := ih others
        exact ⟨seg :: before, seg', behind, inFront, inRear, rfl, part, by simp, rfl⟩
      · cases inside with
        | nil =>
            have later : segs.flatMap text = [] ++ c :: rear := others.symm
            obtain ⟨before, seg', behind, inFront, inRear, rfl, part, front', rfl⟩ := ih later
            refine ⟨seg :: before, seg', behind, inFront, inRear, rfl, part, ?_, rfl⟩
            rw [List.flatMap_cons, within, List.append_nil, List.append_assoc, ← front',
              List.append_nil]
        | cons d inRear =>
            obtain ⟨rfl, rfl⟩ := List.cons.inj others
            exact ⟨[], seg, segs, front, inRear, rfl, within, rfl, rfl⟩

end Segment

/-! ### Placing segments -/

namespace Cursor

variable (here : Cursor) (cs ds : List Char)

/-- Going on over a text is going on over its parts. -/
theorem advance_append : here.advance (cs ++ ds) = (here.advance cs).advance ds := by
  simp only [advance, byteSize_append, Location.advanceAll_append, Nat.add_assoc]

/-- From the start on, the cursor counts the bytes, and it is where the text ends. -/
theorem advance_start : ({} : Cursor).advance cs = ⟨byteSize cs, Location.after cs⟩ := by
  rw [advance, Nat.zero_add]
  rfl

end Cursor

/-- The lexeme of a segment that was placed, if it is a token. -/
def Segment.lexeme? (placed : Cursor × Segment) : Option Lexeme :=
  match placed.2.kind with
  | .token t =>
    some ⟨t, String.ofList placed.2.text, placed.1.offset,
      (placed.1.advance placed.2.text).offset, placed.1.loc⟩
  | _ => none

/-- The fault that a kind of segment is, if it is one. -/
def Segment.Kind.fault? : Kind → Option LexError
  | fault e => some e
  | _ => none

/-- The fault of a segment that was placed, if it is one. -/
def Segment.fault? (placed : Cursor × Segment) : Option (Located LexError) :=
  placed.2.kind.fault?.map (⟨placed.1.loc, ·⟩)

namespace Segment

variable {here : Cursor} {segs : List Segment} {p : Cursor × Segment}

/-- Segments one after the other, each with the cursor in front of it. -/
def placed (here : Cursor) : List Segment → List (Cursor × Segment)
  | [] => []
  | seg :: segs => (here, seg) :: placed (here.advance seg.text) segs

/-- A segment is placed at the cursor behind all segments before it. -/
theorem exists_of_mem_placed (member : p ∈ placed here segs) :
    ∃ before behind, segs = before ++ p.2 :: behind ∧ p.1 = here.advance (before.flatMap text) := by
  induction segs generalizing here with
  | nil => cases member
  | cons seg segs ih =>
      rcases List.mem_cons.1 member with rfl | later
      · exact ⟨[], segs, rfl, rfl⟩
      · obtain ⟨before, behind, rfl, cursor⟩ := ih later
        refine ⟨seg :: before, behind, rfl, ?_⟩
        rw [cursor, List.flatMap_cons, Cursor.advance_append]

/-- A segment is placed behind what is in front of it. -/
theorem mem_placed {before behind : List Segment} {seg : Segment}
    (split : segs = before ++ seg :: behind) :
    (here.advance (before.flatMap text), seg) ∈ placed here segs := by
  induction before generalizing here segs with
  | nil =>
      subst split
      exact List.mem_cons_self
  | cons first before ih =>
      subst split
      rw [List.flatMap_cons, Cursor.advance_append]
      exact List.mem_cons_of_mem _ (ih rfl)

/-- The segment of `a` is in front of the segment of `b`. -/
def Precedes (segs : List Segment) (a b : Cursor × Segment) : Prop :=
  ∃ before between behind, segs = before ++ a.2 :: (between ++ b.2 :: behind) ∧
    b.1 = (a.1.advance a.2.text).advance (between.flatMap text)

/-- Segments are placed in their order. -/
theorem pairwise_placed (here : Cursor) (segs : List Segment) :
    (placed here segs).Pairwise (Precedes segs) := by
  induction segs generalizing here with
  | nil => exact .nil
  | cons seg segs ih =>
      refine List.pairwise_cons.2 ⟨fun b later => ?_, (ih _).imp fun {a b} precedes => ?_⟩
      · obtain ⟨between, behind, rfl, cursor⟩ := exists_of_mem_placed later
        exact ⟨[], between, behind, rfl, cursor⟩
      · obtain ⟨before, between, behind, rfl, cursor⟩ := precedes
        exact ⟨seg :: before, between, behind, rfl, cursor⟩

/-- Of two segments that were placed, one is in front of the other, unless they are the same. -/
theorem precedes_or_eq {a b : Cursor × Segment} (first : a ∈ placed here segs)
    (second : b ∈ placed here segs) : a = b ∨ Precedes segs a b ∨ Precedes segs b a := by
  have ordered := pairwise_placed here segs
  obtain ⟨front, rear, split⟩ := List.append_of_mem first
  rw [split] at second ordered
  obtain ⟨-, later, earlier⟩ := List.pairwise_append.1 ordered
  rcases List.mem_append.1 second with inFront | inRear
  · exact .inr (.inr (earlier b inFront a List.mem_cons_self))
  · rcases List.mem_cons.1 inRear with rfl | behind
    · exact .inl rfl
    · exact .inr (.inl ((List.pairwise_cons.1 later).1 b behind))

end Segment

namespace Lexed

open Segment

variable {here : Cursor} {segs : List Segment} {f : Located LexError} {l : Lexeme}

/-- The lexemes are those of the placed segments. -/
theorem lexemes_eq (here : Cursor) (segs : List Segment) :
    (ofSegments here segs).lexemes = (placed here segs).filterMap lexeme? := by
  induction segs generalizing here with
  | nil => rfl
  | cons seg segs ih =>
      obtain ⟨kind, w⟩ := seg
      rw [placed, List.filterMap_cons, ← ih]
      cases kind <;> rfl

/-- The faults are those of the placed segments. -/
theorem faults_eq (here : Cursor) (segs : List Segment) :
    (ofSegments here segs).faults = (placed here segs).filterMap fault? := by
  induction segs generalizing here with
  | nil => rfl
  | cons seg segs ih =>
      obtain ⟨kind, w⟩ := seg
      rw [placed, List.filterMap_cons, ← ih]
      cases kind <;> rfl

/-- The end is behind all segments. -/
theorem eof_eq (here : Cursor) (segs : List Segment) :
    (ofSegments here segs).eof = ⟨.eof, "", (here.advance (segs.flatMap text)).offset,
      (here.advance (segs.flatMap text)).offset, (here.advance (segs.flatMap text)).loc⟩ := by
  induction segs generalizing here with
  | nil => rfl
  | cons seg segs ih =>
      obtain ⟨kind, w⟩ := seg
      rw [List.flatMap_cons, Cursor.advance_append, ← ih]
      cases kind <;> rfl

end Lexed

/-- A number is a token, unless it is above the largest integer. -/
theorem Segment.ofDigits_cases (digits : List Char) :
    (∃ n : Integer, ofDigits digits = .token (.int n) ∧ n.val = decimal digits) ∨
      ofDigits digits = .fault (.hugeInteger (String.ofList digits)) ∧
        9223372036854775807 < decimal digits := by
  unfold ofDigits Integer.ofInt?
  by_cases range : Integer.InRange (decimal digits)
  · rw [dif_pos range]
    exact .inl ⟨_, rfl, rfl⟩
  · rw [dif_neg range]
    rw [Integer.InRange] at range
    exact .inr ⟨rfl, by omega⟩

/-! ### Order -/

namespace Segment

variable {segs : List Segment} {a b : Cursor × Segment}

/-- A segment that precedes another one ends before it starts. -/
theorem Precedes.offset_le (h : Precedes segs a b) :
    (a.1.advance a.2.text).offset ≤ b.1.offset := by
  obtain ⟨before, between, behind, -, cursor⟩ := h
  rw [cursor]
  exact Nat.le_add_right _ _

/-- A segment that precedes another one is at an earlier location. -/
theorem Precedes.loc_lt (sound : Sound segs) (h : Precedes segs a b) : a.1.loc < b.1.loc := by
  obtain ⟨before, between, behind, split, cursor⟩ := h
  have full := (sound _ _ _ split).text_ne_nil
  rw [cursor, ← Cursor.advance_append]
  exact Location.lt_advanceAll _ (by simp [full])

/-- A string literal that never ends precedes nothing. -/
theorem Precedes.kind_ne (sound : Sound segs) (h : Precedes segs a b) :
    a.2.kind ≠ .fault .openString := by
  obtain ⟨before, between, behind, split, -⟩ := h
  intro kind
  have segment : a.2 = ⟨.fault .openString, a.2.text⟩ := by rw [← kind]
  rw [segment] at split
  have none_behind := sound.last split
  simp at none_behind

end Segment

/-! ### The account -/

namespace Lexed

open Segment

/-- A part of a text that is in no lexeme, between what is before and what is behind it, and what is
reported for it. It is made of blanks, or it is a comment up to the end of its line; nothing is
reported for these. Or it is a character where no pattern fits, or a number above the largest
integer, and one fault is reported where it starts. Or it is a string literal that never ends: there
is one at most, and no lexeme is behind its quote. -/
inductive Unread (text : String) (lexed : Lexed) (before : List Char) :
    List Char → List Char → Option LexError → Prop
  | blanks {run behind : List Char}
      (all : ∀ b ∈ run, b = ' ' ∨ b = '\t' ∨ b = '\r' ∨ b = '\x0c') :
      Unread text lexed before run behind none
  | comment {body behind : List Char} (line : '\n' ∉ body)
      (ends : behind = [] ∨ ∃ rest, behind = '\n' :: rest) :
      Unread text lexed before ('#' :: body) behind none
  | stray {c : Char} {behind : List Char} (nothing : ∀ w k, w <+: c :: behind → ¬Reads w k)
      (once : lexed.faults.filter (·.loc = Location.ofOffset text (byteSize before)) =
        [⟨Location.ofOffset text (byteSize before), .strayChar c⟩]) :
      Unread text lexed before [c] behind (some (.strayChar c))
  | huge {digits behind : List Char} (nonempty : digits ≠ [])
      (all : ∀ d ∈ digits, d.isDigit = true) (ends : ∀ d ∈ behind.head?, d.isDigit = false)
      (large : 9223372036854775807 < Segment.decimal digits)
      (once : lexed.faults.filter (·.loc = Location.ofOffset text (byteSize before)) =
        [⟨Location.ofOffset text (byteSize before), .hugeInteger (String.ofList digits)⟩]) :
      Unread text lexed before digits behind (some (.hugeInteger (String.ofList digits)))
  | openString {inside : List Char} (open_ : '"' ∉ inside)
      (single : lexed.faults.filter (·.what = .openString) =
        [⟨Location.ofOffset text (byteSize before), .openString⟩])
      (last : ∀ l ∈ lexed.lexemes, l.stop ≤ byteSize before) :
      Unread text lexed before ('"' :: inside) [] (some .openString)

/-- How a text is accounted for by what was read from it. Every lexeme is the longest match where it
stands, it says where that is, and it is not empty; lexemes are in order and do not overlap. The end
of the text comes last, and there is no other end. Every character is in a lexeme, or in a part that
no lexeme reaches into, and every fault is reported for such a part. -/
structure AccountsFor (lexed : Lexed) (text : String) : Prop where
  lexemes : ∀ l ∈ lexed.lexemes, ∃ before part behind, text.toList = before ++ (part ++ behind) ∧
    Longest (part ++ behind) part (.token l.token) ∧ l.text = String.ofList part ∧
    l.start = byteSize before ∧ l.stop = byteSize (before ++ part) ∧
    l.loc = Location.ofOffset text l.start
  nonempty : ∀ l ∈ lexed.lexemes, l.start < l.stop
  ordered : lexed.lexemes.Pairwise (·.stop ≤ ·.start)
  ends : lexed.all = lexed.lexemes ++
    [⟨.eof, "", text.utf8ByteSize, text.utf8ByteSize, Location.ofOffset text text.utf8ByteSize⟩]
  proper : ∀ l ∈ lexed.lexemes, l.token ≠ .eof
  covered : ∀ front c rear, text.toList = front ++ c :: rear →
    (∃ l ∈ lexed.lexemes, l.start ≤ byteSize front ∧ byteSize front < l.stop) ∨
      ∃ before part behind report, text.toList = before ++ (part ++ behind) ∧
        Unread text lexed before part behind report ∧
        (∃ inFront inRear, part = inFront ++ c :: inRear ∧ front = before ++ inFront) ∧
        ∀ l ∈ lexed.lexemes, l.stop ≤ byteSize before ∨ byteSize (before ++ part) ≤ l.start
  faults : ∀ f ∈ lexed.faults, ∃ before part behind, text.toList = before ++ (part ++ behind) ∧
    Unread text lexed before part behind (some f.what) ∧
    f.loc = Location.ofOffset text (byteSize before)

variable {text : String} {before behind : List Segment} {seg : Segment} {p : Cursor × Segment}
  {l : Lexeme} {e : LexError} {f : Located LexError}

/-- A segment is found between the text before it and the text behind it. -/
theorem toList_eq (split : cut text.toList = before ++ seg :: behind) :
    text.toList = before.flatMap Segment.text ++ (seg.text ++ behind.flatMap Segment.text) := by
  rw [← flatMap_text_cut text.toList, split, List.flatMap_append, List.flatMap_cons]

/-- A segment is placed where the text before it ends. -/
theorem advance_eq (split : cut text.toList = before ++ seg :: behind) :
    ({} : Cursor).advance (before.flatMap Segment.text) =
      ⟨byteSize (before.flatMap Segment.text),
        Location.ofOffset text (byteSize (before.flatMap Segment.text))⟩ := by
  rw [Cursor.advance_start, Location.ofOffset_byteSize (toList_eq split)]

/-- A lexeme of a text is the lexeme of one of its segments. -/
theorem mem_lexemes_iff : l ∈ (lex text).lexemes ↔
    ∃ p ∈ placed {} (cut text.toList), lexeme? p = some l := by
  rw [lex, lexemes_eq, List.mem_filterMap]

/-- What a lexeme tells of its segment. -/
theorem lexeme?_eq_some_iff : lexeme? p = some l ↔ p.2.kind = .token l.token ∧
    l.text = String.ofList p.2.text ∧ l.start = p.1.offset ∧
    l.stop = (p.1.advance p.2.text).offset ∧ l.loc = p.1.loc := by
  obtain ⟨here, kind, w⟩ := p
  obtain ⟨t, w', start, stop, loc⟩ := l
  cases kind <;> simp [lexeme?, eq_comm]

/-- What a fault tells of its segment. -/
theorem fault?_eq_some_iff : fault? p = some f ↔ p.2.kind = .fault f.what ∧ f.loc = p.1.loc := by
  obtain ⟨here, kind, w⟩ := p
  obtain ⟨loc, e⟩ := f
  cases kind <;> simp [fault?, Kind.fault?, eq_comm, and_comm]

/-- Lexemes are in order and do not overlap. -/
theorem pairwise_lexemes (text : String) : (lex text).lexemes.Pairwise (·.stop ≤ ·.start) := by
  rw [lex, lexemes_eq]
  refine (pairwise_placed {} (cut text.toList)).filterMap lexeme? fun a b precedes x hx y hy => ?_
  rw [(lexeme?_eq_some_iff.1 hx).2.2.2.1, (lexeme?_eq_some_iff.1 hy).2.2.1]
  exact precedes.offset_le

/-- Faults are in order, and an open string is the last of them. -/
theorem pairwise_faults (text : String) :
    (lex text).faults.Pairwise fun a b => a.loc < b.loc ∧ a.what ≠ .openString := by
  rw [lex, faults_eq]
  refine (pairwise_placed {} (cut text.toList)).filterMap fault? fun a b precedes x hx y hy => ?_
  obtain ⟨kind, loc⟩ := fault?_eq_some_iff.1 hx
  obtain ⟨-, loc'⟩ := fault?_eq_some_iff.1 hy
  refine ⟨?_, fun what => ?_⟩
  · rw [loc, loc']
    exact precedes.loc_lt (sound_cut _)
  · exact precedes.kind_ne (sound_cut _) (what ▸ kind)

/-- A member that excludes all others is what is left of a list. -/
theorem filter_eq_singleton {α : Type} {R : α → α → Prop} {p : α → Bool} {xs : List α} {x : α}
    (pairwise : xs.Pairwise R) (member : x ∈ xs) (holds : p x = true)
    (front : ∀ y, R y x → p y = false) (rear : ∀ y, R x y → p y = false) : xs.filter p = [x] := by
  obtain ⟨before, behind, rfl⟩ := List.append_of_mem member
  obtain ⟨-, later, earlier⟩ := List.pairwise_append.1 pairwise
  have none_before : before.filter p = [] := List.filter_eq_nil_iff.2 fun y hy => by
    simp [front y (earlier y hy x List.mem_cons_self)]
  have none_behind : behind.filter p = [] := List.filter_eq_nil_iff.2 fun y hy => by
    simp [rear y ((List.pairwise_cons.1 later).1 y hy)]
  rw [List.filter_append, List.filter_cons_of_pos holds, none_before, none_behind]
  rfl

/-- A segment that is at fault is reported. -/
theorem mem_faults (member : p ∈ placed {} (cut text.toList)) (kind : p.2.kind = .fault e) :
    ⟨p.1.loc, e⟩ ∈ (lex text).faults := by
  rw [lex, faults_eq]
  exact List.mem_filterMap.2 ⟨p, member, fault?_eq_some_iff.2 ⟨kind, rfl⟩⟩

/-- **One fault is reported** where a segment is one. -/
theorem filter_loc_faults (member : p ∈ placed {} (cut text.toList))
    (kind : p.2.kind = .fault e) :
    (lex text).faults.filter (·.loc = p.1.loc) = [⟨p.1.loc, e⟩] := by
  refine filter_eq_singleton (pairwise_faults text) (mem_faults member kind) (by simp) ?_ ?_
  · exact fun f before => decide_eq_false fun same => Location.lt_irrefl _ (same ▸ before.1)
  · exact fun f behind => decide_eq_false fun same => Location.lt_irrefl _ (same ▸ behind.1)

/-- **An open string is reported once.** -/
theorem filter_openString_faults (member : p ∈ placed {} (cut text.toList))
    (kind : p.2.kind = .fault .openString) :
    (lex text).faults.filter (·.what = .openString) = [⟨p.1.loc, .openString⟩] := by
  refine filter_eq_singleton (pairwise_faults text) (mem_faults member kind) (by simp) ?_ ?_
  · exact fun f before => decide_eq_false before.2
  · exact fun f behind => absurd rfl behind.2

/-- A lexeme is beside every segment that is no token, and never behind an open string. -/
theorem beside (member : p ∈ placed {} (cut text.toList)) (other : ∀ t, p.2.kind ≠ .token t)
    (found : l ∈ (lex text).lexemes) :
    l.stop ≤ p.1.offset ∨
      (p.1.advance p.2.text).offset ≤ l.start ∧ p.2.kind ≠ .fault .openString := by
  obtain ⟨q, member', read⟩ := mem_lexemes_iff.1 found
  obtain ⟨kind, -, start, stop, -⟩ := lexeme?_eq_some_iff.1 read
  rw [start, stop]
  obtain rfl | before | behind := precedes_or_eq member' member
  · exact absurd kind (other l.token)
  · exact .inl before.offset_le
  · exact .inr ⟨behind.offset_le, behind.kind_ne (sound_cut _)⟩

/-- **A segment that is no token is an unread part** of the text. -/
theorem unread_of_cut (split : cut text.toList = before ++ seg :: behind)
    (other : ∀ t, seg.kind ≠ .token t) :
    Unread text (lex text) (before.flatMap Segment.text) seg.text (behind.flatMap Segment.text)
      seg.kind.fault? := by
  have fits := fits_of_cut split
  have member : (_, seg) ∈ placed {} (cut text.toList) := mem_placed split
  rw [advance_eq split] at member
  generalize before.flatMap Segment.text = front at member ⊢
  generalize behind.flatMap Segment.text = rear at fits ⊢
  cases fits with
  | @found w k longest =>
    cases longest.reads with
    | string _ | fixed _ | name _ _ _ => exact absurd rfl (other _)
    | blanks _ all =>
        exact .blanks fun b inRun => isGap_iff.1 (all b inRun)
    | comment line =>
        refine .comment line ?_
        cases rear with
        | nil => exact .inl rfl
        | cons d rest =>
            by_cases same : d = '\n'
            · exact .inr ⟨rest, by rw [same]⟩
            · refine absurd (.comment ?_) (longest.not_reads_snoc .gap)
              simpa [eq_comm, same] using line
    | number nonempty all =>
        rcases ofDigits_cases w with ⟨n, token, -⟩ | ⟨fault, large⟩
        · exact absurd token (other _)
        · rw [fault]
          refine .huge nonempty all (fun d next => ?_) large (filter_loc_faults member fault)
          cases rear with
          | nil => cases next
          | cons d' rest =>
              obtain rfl := Option.some.inj next
              refine Bool.eq_false_iff.2 fun digit => longest.not_reads_snoc _ (.number ?_ ?_)
              · simp
              · simpa [or_imp, forall_and, digit] using all
  | unclosed open_ last =>
      subst last
      refine .openString open_ (filter_openString_faults member rfl) fun l found => ?_
      rcases beside member other found with stops | ⟨-, kind⟩
      · exact stops
      · exact absurd rfl kind
  | stray _ nothing => exact .stray nothing (filter_loc_faults member rfl)

/-- A lexeme is a segment with its places. -/
theorem exists_of_mem_lexemes (found : l ∈ (lex text).lexemes) :
    ∃ before w behind, cut text.toList = before ++ ⟨.token l.token, w⟩ :: behind ∧
      l.text = String.ofList w ∧ l.start = byteSize (before.flatMap Segment.text) ∧
      l.stop = byteSize (before.flatMap Segment.text ++ w) ∧
      l.loc = Location.ofOffset text l.start := by
  obtain ⟨⟨here, kind, w⟩, member, read⟩ := mem_lexemes_iff.1 found
  obtain ⟨before, behind, split, cursor⟩ := exists_of_mem_placed member
  obtain ⟨rfl, written, start, stop, loc⟩ := lexeme?_eq_some_iff.1 read
  rw [advance_eq split] at cursor
  subst cursor
  exact ⟨before, w, behind, split, written, start, stop.trans (byteSize_append _ _).symm,
    start ▸ loc⟩

/-- A character of a segment that is a token is in its lexeme. -/
theorem exists_lexeme_around {t : Token} {c : Char} {inFront inRear : List Char}
    (member : p ∈ placed {} (cut text.toList)) (kind : p.2.kind = .token t)
    (inside : p.2.text = inFront ++ c :: inRear) :
    ∃ l ∈ (lex text).lexemes, l.start ≤ p.1.offset + byteSize inFront ∧
      p.1.offset + byteSize inFront < l.stop := by
  let l : Lexeme :=
    ⟨t, String.ofList p.2.text, p.1.offset, (p.1.advance p.2.text).offset, p.1.loc⟩
  have read : lexeme? p = some l := lexeme?_eq_some_iff.2 ⟨kind, rfl, rfl, rfl, rfl⟩
  have shorter : byteSize inFront < byteSize p.2.text := by
    rw [inside, byteSize_append]
    exact Nat.lt_add_of_pos_right (byteSize_pos (List.cons_ne_nil c inRear))
  exact ⟨l, mem_lexemes_iff.2 ⟨p, member, read⟩, Nat.le_add_right _ _,
    Nat.add_lt_add_left shorter _⟩

/-- A fault is a segment with its place. -/
theorem exists_of_mem_faults (reported : f ∈ (lex text).faults) :
    ∃ before w behind, cut text.toList = before ++ ⟨.fault f.what, w⟩ :: behind ∧
      f.loc = Location.ofOffset text (byteSize (before.flatMap Segment.text)) := by
  rw [lex, faults_eq] at reported
  obtain ⟨⟨here, kind, w⟩, member, fault⟩ := List.mem_filterMap.1 reported
  obtain ⟨before, behind, split, cursor⟩ := exists_of_mem_placed member
  obtain ⟨rfl, loc⟩ := fault?_eq_some_iff.1 fault
  rw [advance_eq split] at cursor
  subst cursor
  exact ⟨before, w, behind, split, loc⟩

/-- **What is read from a text accounts for it.** Lexemes stand in order where the text has them,
each of them the longest match; the rest of the text is blank, a comment, or a part for which one
fault is reported where it starts, and a string literal that never ends takes all that is left. -/
theorem lexing_accounts_for_the_text (text : String) : (lex text).AccountsFor text where
  lexemes l found := by
    obtain ⟨before, w, behind, split, written, start, stop, loc⟩ := exists_of_mem_lexemes found
    exact ⟨_, w, _, toList_eq split, (fits_of_cut split).longest rfl, written, start, stop, loc⟩
  nonempty l found := by
    obtain ⟨before, w, behind, split, -, start, stop, -⟩ := exists_of_mem_lexemes found
    have full : 0 < byteSize w := byteSize_pos (fits_of_cut split).text_ne_nil
    rw [start, stop, byteSize_append]
    exact Nat.lt_add_of_pos_right full
  ordered := pairwise_lexemes text
  ends := by
    rw [all, lex, eof_eq, flatMap_text_cut, Cursor.advance_start, ← byteSize_toList,
      Location.ofOffset_byteSize (List.append_nil _).symm]
  proper l found := by
    obtain ⟨before, w, behind, split, -⟩ := exists_of_mem_lexemes found
    intro eof
    rw [eof] at split
    exact ((fits_of_cut split).longest rfl).reads.ne_eof rfl
  covered front c rear whole := by
    rw [← flatMap_text_cut text.toList] at whole
    obtain ⟨before, seg, behind, inFront, inRear, split, inside, rfl, -⟩ := exists_segment whole
    have member : (_, seg) ∈ placed {} (cut text.toList) := mem_placed split
    rw [advance_eq split] at member
    by_cases token : ∃ t, seg.kind = .token t
    · obtain ⟨t, kind⟩ := token
      rw [byteSize_append]
      exact .inl (exists_lexeme_around member kind inside)
    · have other : ∀ t, seg.kind ≠ .token t := fun t kind => token ⟨t, kind⟩
      right
      refine ⟨_, seg.text, _, _, toList_eq split, unread_of_cut split other, ?_, ?_⟩
      · exact ⟨inFront, inRear, inside, rfl⟩
      · intro l found
        rw [byteSize_append]
        exact (beside member other found).imp_right And.left
  faults f reported := by
    obtain ⟨before, w, behind, split, loc⟩ := exists_of_mem_faults reported
    have unread := unread_of_cut split fun t same => by cases same
    exact ⟨_, w, _, toList_eq split, unread, loc⟩

end Lexed

end PenScript
