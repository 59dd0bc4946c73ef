import Mathlib.Data.List.DropRight
import PenScript.Proofs.Account

/-!
# Finding places by a table

The place of a byte offset can be found without reading the whole text before it: a table holds the
offsets where lines start, the line of an offset is searched for by halving the table, and only the
characters of that line are counted. The search either meets the offset in the table or says where
it would have to be put in, and looking at the text between two offsets fails unless both are
between characters. None of this is ever seen: at every offset between characters the table leads
to the line and the column that are reached by reading, and places are in the order of offsets.

## Main definitions

* `LineTable.starts` — the table of a text;
* `LineTable.search` — searches an array by halving;
* `LineTable.location?` — the place of an offset, found by the table.

## Main results

* `Location.after_eq`: lines are counted by line breaks, and columns by characters behind them;
* `LineTable.search_of_parted`: what the search ends with;
* `LineTable.location?_byteSize`: the table leads to the place that is reached by reading;
* `Location.places_are_exact`: places are exact and in order, and so are those of lexemes.
-/

namespace PenScript

variable {text : String} {cs before behind : List Char}

/-! ### Lines and columns -/

namespace Location

/-- One more character goes one place on. -/
theorem after_concat (cs : List Char) (c : Char) : after (cs ++ [c]) = (after cs).advance c := by
  rw [after, advanceAll_append]
  rfl

/-- **Lines and columns.** The line is counted by the line breaks, and the column by the characters
behind the last of them. -/
theorem after_eq (cs : List Char) :
    after cs = ⟨1 + cs.count '\n', 1 + (cs.rtakeWhile (· ≠ '\n')).length⟩ := by
  induction cs using List.reverseRecOn with
  | nil => rfl
  | append_singleton cs c ih =>
      rw [after_concat, ih, advance, List.count_append, List.rtakeWhile_concat]
      by_cases newline : c = '\n'
      · subst newline
        rfl
      · simp [newline, Nat.add_assoc]

/-- All of a text fits into as many bytes as it has. -/
theorem fitting_of_le {n : Nat} (whole : byteSize cs ≤ n) : fitting n cs = cs := by
  induction cs generalizing n with
  | nil => rfl
  | cons c cs ih =>
      rw [byteSize_cons] at whole
      rw [fitting, if_pos (by omega), ih (by omega)]

/-- An offset past the end means the end. -/
theorem ofOffset_of_le {offset : Nat} (past : text.utf8ByteSize ≤ offset) :
    ofOffset text offset = ofOffset text text.utf8ByteSize := by
  rw [← byteSize_toList] at past ⊢
  rw [ofOffset, ofOffset, fitting_of_le past, fitting_of_le (Nat.le_refl _)]

end Location

/-! ### Offsets between characters -/

/-- The byte offset is between two characters of the text, or at one of its ends. -/
def IsBoundary (text : String) (offset : Nat) : Prop :=
  ∃ before behind, text.toList = before ++ behind ∧ byteSize before = offset

/-- Of two parts from the start of a text, the one with fewer bytes is the start of the other. -/
theorem exists_between {before' behind' : List Char}
    (split : before ++ behind = before' ++ behind') (less : byteSize before < byteSize before') :
    ∃ between, between ≠ [] ∧ before' = before ++ between := by
  rcases List.append_eq_append_iff.1 split with ⟨between, rfl, -⟩ | ⟨between, rfl, -⟩
  · refine ⟨between, ?_, rfl⟩
    rintro rfl
    rw [List.append_nil] at less
    exact Nat.lt_irrefl _ less
  · rw [byteSize_append] at less
    omega

/-- **Places are in the order of offsets.** -/
theorem Location.ofOffset_lt_ofOffset {offset offset' : Nat} (here : IsBoundary text offset)
    (there : IsBoundary text offset') (less : offset < offset') :
    ofOffset text offset < ofOffset text offset' := by
  obtain ⟨before, behind, split, rfl⟩ := here
  obtain ⟨before', behind', split', rfl⟩ := there
  rw [ofOffset_byteSize split, ofOffset_byteSize split']
  obtain ⟨between, some, rfl⟩ := exists_between (split.symm.trans split') less
  rw [after, after, advanceAll_append]
  exact lt_advanceAll _ some

/-! ### The table -/

namespace LineTable

/-- The offsets behind the line breaks of characters that start at byte `n`. -/
def breaksFrom (n : Nat) : List Char → List Nat
  | [] => []
  | c :: cs =>
    let rest := breaksFrom (n + c.utf8Size) cs
    if c = '\n' then (n + 1) :: rest else rest

/-- The offsets where lines start: the start of the text, and the offsets behind line breaks. -/
def starts (text : String) : Array Nat :=
  (0 :: breaksFrom 0 text.toList).toArray

/-- The line breaks of a text are those of its parts. -/
theorem breaksFrom_append (n : Nat) (cs ds : List Char) :
    breaksFrom n (cs ++ ds) = breaksFrom n cs ++ breaksFrom (n + byteSize cs) ds := by
  induction cs generalizing n with
  | nil => rfl
  | cons c cs ih =>
      rw [List.cons_append, breaksFrom, breaksFrom, ih, byteSize_cons, Nat.add_assoc]
      split <;> rfl

/-- There are as many starts of lines as line breaks. -/
theorem length_breaksFrom (n : Nat) (cs : List Char) :
    (breaksFrom n cs).length = cs.count '\n' := by
  induction cs generalizing n with
  | nil => rfl
  | cons c cs ih =>
      rw [breaksFrom]
      by_cases newline : c = '\n'
      · subst newline
        rw [if_pos rfl, List.length_cons, ih, List.count_cons_self]
      · rw [if_neg newline, ih, List.count_cons_of_ne newline]

/-- Lines start behind the first character, and not behind the last one. -/
theorem mem_breaksFrom {n start : Nat} (member : start ∈ breaksFrom n cs) :
    n < start ∧ start ≤ n + byteSize cs := by
  induction cs generalizing n with
  | nil => cases member
  | cons c cs ih =>
      have positive := c.utf8Size_pos
      rw [byteSize_cons]
      rw [breaksFrom] at member
      split at member
      · rcases List.mem_cons.1 member with rfl | later
        · omega
        · have := ih later
          omega
      · have := ih member
        omega

/-- The start of the line that is open behind some characters is the offset where its characters
start. -/
theorem getElem?_breaksFrom (n : Nat) (cs : List Char) :
    (n :: breaksFrom n cs)[cs.count '\n']? =
      some (n + byteSize (cs.rdropWhile (· ≠ '\n'))) := by
  induction cs using List.reverseRecOn with
  | nil => rfl
  | append_singleton cs c ih =>
      rw [breaksFrom_append, List.count_append, List.rdropWhile_concat]
      by_cases newline : c = '\n'
      · -- the last line starts behind this very character
        subst newline
        have last : (n :: breaksFrom n cs).length = cs.count '\n' + 1 := by
          rw [List.length_cons, length_breaksFrom]
        rw [← List.cons_append, List.getElem?_append_right (by rw [last]; rfl), last]
        have one : '\n'.utf8Size = 1 := rfl
        simp [breaksFrom, one, Nat.add_assoc]
      · simpa [breaksFrom, newline] using ih

/-- The starts of lines are those of the parts of the text. -/
theorem starts_eq (split : text.toList = before ++ behind) :
    starts text = ((0 :: breaksFrom 0 before) ++ breaksFrom (byteSize before) behind).toArray := by
  rw [starts, split, breaksFrom_append, Nat.zero_add, List.cons_append]

/-- As many lines as there are line breaks before an offset start before the line that it is on. -/
theorem getElem?_starts (split : text.toList = before ++ behind) :
    (starts text)[before.count '\n']? = some (byteSize (before.rdropWhile (· ≠ '\n'))) := by
  have first : before.count '\n' < (0 :: breaksFrom 0 before).length := by
    rw [List.length_cons, length_breaksFrom]
    exact Nat.lt_succ_self _
  rw [starts_eq split, List.getElem?_toArray, List.getElem?_append_left first, getElem?_breaksFrom,
    Nat.zero_add]

/-! ### Searching -/

/-- How a search for a number ends: the number is in place `i`, or it is missing and would have to
be put in at place `i`. -/
inductive Found where
  | here (i : Nat)
  | missing (i : Nat)
deriving DecidableEq, Repr

/-- Halves `size` places from `base` on, until one is left. -/
def narrow (xs : Array Nat) (n base size : Nat) : Nat :=
  if size ≤ 1 then base
  else
    let half := size / 2
    if n < xs.getD (base + half) 0 then narrow xs n base (size - half)
    else narrow xs n (base + half) (size - half)
termination_by size

/-- Searches an array, whose numbers increase, for a number. -/
def search (xs : Array Nat) (n : Nat) : Found :=
  if xs.size = 0 then .missing 0
  else
    let i := narrow xs n 0 xs.size
    if xs.getD i 0 = n then .here i
    else .missing (if xs.getD i 0 < n then i + 1 else i)

/-- There are `k` numbers that are not above `n`, and they are the first ones. -/
structure Parted (xs : Array Nat) (n k : Nat) : Prop where
  le_size : k ≤ xs.size
  le_iff : ∀ i < xs.size, xs.getD i 0 ≤ n ↔ i < k

/-- Halving keeps the last of the first `k` places between its ends, so that it ends there. -/
theorem narrow_of_parted {xs : Array Nat} {n k base size : Nat} (parted : Parted xs n k)
    (first : base < k) (last : k ≤ base + size) (inside : base + size ≤ xs.size) :
    narrow xs n base size = k - 1 := by
  fun_induction narrow xs n base size with
  | case1 base size single => omega
  | case2 base size many half above ih =>
      -- places from the middle on are above, and more than these are never given up
      have place := parted.le_iff (base + half) (by omega)
      exact ih first (by omega) (by omega)
  | case3 base size many half below ih =>
      have place := parted.le_iff (base + half) (by omega)
      exact ih (by omega) (by omega) (by omega)

/-- **What the search ends with**, if there are numbers that are not above the one that is searched
for: it is the last of them, or its place is behind the last of them. -/
theorem search_of_parted {xs : Array Nat} {n k : Nat} (parted : Parted xs n k) (some : 0 < k) :
    search xs n = .here (k - 1) ∨ search xs n = .missing k := by
  have inside := parted.le_size
  have last := parted.le_iff (k - 1) (by omega)
  rw [search, if_neg (by omega), narrow_of_parted parted some (by omega) (by omega)]
  by_cases same : xs.getD (k - 1) 0 = n
  · exact .inl (if_pos same)
  · right
    rw [if_neg same, if_pos (by omega), Nat.sub_add_cancel some]

/-- Small numbers in front of large ones are parted. -/
theorem parted_append {n : Nat} {low high : List Nat} (below : ∀ i ∈ low, i ≤ n)
    (above : ∀ i ∈ high, n < i) : Parted (low ++ high).toArray n low.length := by
  refine ⟨by simp, fun i inside => ?_⟩
  rw [List.size_toArray] at inside
  rw [Array.getD_eq_getD_getElem?, List.getElem?_toArray, List.getElem?_eq_getElem inside,
    Option.getD_some]
  by_cases first : i < low.length
  · rw [List.getElem_append_left first]
    exact iff_of_true (below _ (List.getElem_mem first)) first
  · have member : (low ++ high)[i] ∈ high := by
      rw [List.getElem_append_right (Nat.le_of_not_lt first)]
      exact List.getElem_mem _
    exact iff_of_false (Nat.not_le_of_lt (above _ member)) first

/-- The table of a text is parted by every offset between characters: the lines that start no later
are those of the characters before it. -/
theorem parted_starts (split : text.toList = before ++ behind) :
    Parted (starts text) (byteSize before) (before.count '\n' + 1) := by
  rw [starts_eq split, ← length_breaksFrom 0 before, ← List.length_cons]
  refine parted_append (fun start member => ?_) fun start member => (mem_breaksFrom member).1
  rcases List.mem_cons.1 member with rfl | later
  · exact Nat.zero_le _
  · have := mem_breaksFrom later
    omega

/-! ### The place of an offset -/

/-- Cuts characters in two at byte `n`, if that is between characters. -/
def cutAt? (n : Nat) (cs : List Char) : Option (List Char × List Char) :=
  let front := Location.fitting n cs
  if byteSize front = n then some (front, cs.drop front.length) else none

/-- The characters from byte `a` to byte `b`, if both are between characters and in order. -/
def slice? (cs : List Char) (a b : Nat) : Option (List Char) :=
  if a ≤ b then do
    let (_, rest) ← cutAt? a cs
    let (part, _) ← cutAt? (b - a) rest
    return part
  else none

/-- The line where a search for an offset ends, counted from zero: the line that starts there, or
the one before the next start. -/
def Found.line : Found → Nat
  | here i => i
  | missing i => i - 1

/-- The place at a byte offset, found by the table. An offset past the end means the end; other
offsets have to be between characters. -/
def location? (text : String) (offset : Nat) : Option Location := do
  let offset := min offset text.utf8ByteSize
  let line := (search (starts text) offset).line
  let start ← (starts text)[line]?
  let part ← slice? text.toList start offset
  return ⟨line + 1, part.length + 1⟩

/-- A text is cut behind a part by the size of that part. -/
theorem cutAt?_byteSize (cs ds : List Char) : cutAt? (byteSize cs) (cs ++ ds) = some (cs, ds) := by
  rw [cutAt?, Location.fitting_byteSize]
  simp

/-- A slice is what stands between two parts. -/
theorem slice?_byteSize (front part rear : List Char) :
    slice? (front ++ part ++ rear) (byteSize front) (byteSize (front ++ part)) = some part := by
  have rest : byteSize (front ++ part) - byteSize front = byteSize part := by
    rw [byteSize_append, Nat.add_sub_cancel_left]
  rw [slice?, if_pos (by rw [byteSize_append]; omega), rest, List.append_assoc, cutAt?_byteSize]
  simp [cutAt?_byteSize]

/-- The search finds the line by the line breaks in front. -/
theorem line_search (split : text.toList = before ++ behind) :
    (search (starts text) (byteSize before)).line = before.count '\n' := by
  rcases search_of_parted (parted_starts split) (Nat.succ_pos _) with found | missing
  · rw [found]
    rfl
  · rw [missing]
    rfl

/-- **The table leads to the place that is reached by reading.** -/
theorem location?_byteSize (split : text.toList = before ++ behind) :
    location? text (byteSize before) = some (Location.after before) := by
  have inside : min (byteSize before) text.utf8ByteSize = byteSize before := by
    rw [← byteSize_toList, split, byteSize_append]
    omega
  have part : slice? text.toList (byteSize (before.rdropWhile (· ≠ '\n'))) (byteSize before) =
      some (before.rtakeWhile (· ≠ '\n')) := by
    have whole := slice?_byteSize (before.rdropWhile (· ≠ '\n'))
      (before.rtakeWhile (· ≠ '\n')) behind
    rwa [List.rdropWhile_append_rtakeWhile, ← split] at whole
  rw [location?, inside, line_search split, getElem?_starts split]
  simp only [Option.bind_eq_bind, Option.bind_some, part, Location.after_eq, Nat.add_comm 1]
  rfl

/-- Past the end of a text everything is at its end. -/
theorem location?_of_le {offset : Nat} (past : text.utf8ByteSize ≤ offset) :
    location? text offset = location? text text.utf8ByteSize := by
  rw [location?, location?, Nat.min_eq_right past, Nat.min_self]

end LineTable

/-! ### The places of lexemes -/

namespace Lexed

variable {l : Lexeme}

/-- The last lexeme of a text is at its end. -/
theorem eof_lex (text : String) : (lex text).eof = ⟨.eof, "", text.utf8ByteSize,
    text.utf8ByteSize, Location.ofOffset text text.utf8ByteSize⟩ := by
  rw [lex, eof_eq, Segment.flatMap_text_cut, Cursor.advance_start, ← byteSize_toList,
    Location.ofOffset_byteSize (List.append_nil _).symm]

/-- A lexeme is between two offsets of the text, and it is not empty. -/
theorem exists_split_of_mem (found : l ∈ (lex text).lexemes) :
    ∃ before part behind, text.toList = before ++ (part ++ behind) ∧ part ≠ [] ∧
      l.start = byteSize before ∧ l.stop = byteSize (before ++ part) ∧
      l.loc = Location.ofOffset text l.start := by
  obtain ⟨before, w, behind, split, -, start, stop, loc⟩ := exists_of_mem_lexemes found
  exact ⟨_, w, _, toList_eq split, (Segment.fits_of_cut split).text_ne_nil, start, stop, loc⟩

/-- Every lexeme, the end of the text included, says at which place its offset is, and that is
between characters. -/
theorem isBoundary_start (found : l ∈ (lex text).all) :
    IsBoundary text l.start ∧ l.loc = Location.ofOffset text l.start := by
  rw [all, List.mem_append, List.mem_singleton] at found
  rcases found with found | rfl
  · obtain ⟨before, part, behind, split, -, start, -, loc⟩ := exists_split_of_mem found
    exact ⟨⟨before, part ++ behind, split, start.symm⟩, loc⟩
  · rw [eof_lex]
    exact ⟨⟨text.toList, [], (List.append_nil _).symm, byteSize_toList text⟩, rfl⟩

/-- Lexemes start one behind the other, and the end of the text is behind all of them. -/
theorem pairwise_start (text : String) : (lex text).all.Pairwise (·.start < ·.start) := by
  have full {l : Lexeme} (found : l ∈ (lex text).lexemes) :
      l.start < l.stop ∧ l.stop ≤ text.utf8ByteSize := by
    obtain ⟨before, part, behind, split, some, start, stop, -⟩ := exists_split_of_mem found
    have := byteSize_pos some
    rw [start, stop, ← byteSize_toList, split]
    simp only [byteSize_append]
    omega
  refine List.pairwise_append.2 ⟨?_, List.pairwise_singleton _ _, fun a first b last => ?_⟩
  · refine (pairwise_lexemes text).imp_of_mem fun first _ apart => ?_
    have := full first
    omega
  · rw [List.mem_singleton.1 last, eof_lex]
    have := full first
    show a.start < text.utf8ByteSize
    omega

/-- **Places of lexemes increase.** -/
theorem pairwise_loc (text : String) : (lex text).all.Pairwise (·.loc < ·.loc) := by
  refine (pairwise_start text).imp_of_mem fun first second less => ?_
  obtain ⟨here, loc⟩ := isBoundary_start first
  obtain ⟨there, loc'⟩ := isBoundary_start second
  rw [loc, loc']
  exact Location.ofOffset_lt_ofOffset here there less

end Lexed

/-- **Places are exact and in order.** At every offset between characters, the line is counted by
the line breaks before it and the column by the characters behind the last of them, and the table of
line starts leads there; offsets past the end mean the end. Of two offsets between characters the
smaller one has the smaller place, and so the places of lexemes, each of them that of the offset
where it starts, increase up to the end of the text. -/
theorem Location.places_are_exact (text : String) :
    (∀ before behind : List Char, text.toList = before ++ behind →
      ofOffset text (byteSize before) =
        ⟨1 + before.count '\n', 1 + (before.rtakeWhile (· ≠ '\n')).length⟩ ∧
      LineTable.location? text (byteSize before) = some (ofOffset text (byteSize before))) ∧
    (∀ offset : Nat, text.utf8ByteSize ≤ offset →
      ofOffset text offset = ofOffset text text.utf8ByteSize ∧
      LineTable.location? text offset = some (ofOffset text offset)) ∧
    (∀ offset offset' : Nat, IsBoundary text offset → IsBoundary text offset' → offset < offset' →
      ofOffset text offset < ofOffset text offset') ∧
    (∀ l ∈ (lex text).all, l.loc = ofOffset text l.start) ∧
    (lex text).all.Pairwise (·.loc < ·.loc) := by
  refine ⟨fun before behind split => ?_, fun offset past => ⟨ofOffset_of_le past, ?_⟩, ?_, ?_, ?_⟩
  · rw [LineTable.location?_byteSize split, ofOffset_byteSize split]
    exact ⟨after_eq before, rfl⟩
  · have whole : text.toList = text.toList ++ [] := (List.append_nil _).symm
    rw [LineTable.location?_of_le past, ofOffset_of_le past, ← byteSize_toList,
      LineTable.location?_byteSize whole, ofOffset_byteSize whole]
  · exact fun offset offset' => ofOffset_lt_ofOffset
  · exact fun l found => (Lexed.isBoundary_start found).2
  · exact Lexed.pairwise_loc text

/-- Four lines, one of them empty, and a last character of two bytes. The end of the text is in the
second column of the last line, also if it is asked for far behind it, and a line break has a
smaller place than what is behind it. -/
theorem Location.short_lines_have_places :
    (ofOffset "ab\ncd\n\né" 9 = ⟨4, 2⟩ ∧
      LineTable.location? "ab\ncd\n\né" 9 = some ⟨4, 2⟩) ∧
    LineTable.location? "ab\ncd\n\né" 100 = some ⟨4, 2⟩ ∧
    ofOffset "ab\ncd\n\né" 2 < ofOffset "ab\ncd\n\né" 3 := by
  obtain ⟨exact, past, ordered, -, -⟩ := places_are_exact "ab\ncd\n\né"
  have last := exact ['a', 'b', '\n', 'c', 'd', '\n', '\n', 'é'] [] (by decide)
  have far := past 100 (by decide)
  refine ⟨⟨last.1, last.2.trans (congrArg some last.1)⟩, ?_, ?_⟩
  · rw [far.2, far.1]
    exact congrArg some last.1
  · refine ordered 2 3 ⟨['a', 'b'], ['\n', 'c', 'd', '\n', '\n', 'é'], by decide, by decide⟩
      ⟨['a', 'b', '\n'], ['c', 'd', '\n', '\n', 'é'], by decide, by decide⟩ (by decide)

end PenScript
