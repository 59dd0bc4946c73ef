import PenScript.Lexer

/-!
# The patterns of segments

What a segment may look like, said without a scanner: a number is a run of digits, a name is a
letter and what may follow it, and so on; the spelling of a reserved word is the word and no name.
At every place of a text the longest start that fits a pattern is cut off. `Segment.reach` decides
from a single character which pattern there can be, and measures it; here it is shown that this is
the same.

## Main definitions

* `Token.spelling?` — the spelling of a token that has only one;
* `Segment.Reads` — the patterns;
* `Segment.Longest` — the longest start of a text that fits a pattern;
* `Segment.Start`, `Segment.Continues` — what a character starts, and what may follow it then.

## Main results

* `Segment.reads_cons_iff`: the first character decides which pattern there can be;
* `Segment.reach_front`: what is cut off is the longest match, or there is none at all;
* `Segment.cut_of_longest`, `Segment.fits_of_cut`: so it is for all segments of a text.
-/

namespace PenScript

/-- The spelling of a token that has only one: a sign, a reserved word or the line break. -/
def Token.spelling? : Token → Option String
  | int _ | str _ | ident _ | eof => none
  | endl => some "\n"
  | t => some t.text

namespace Segment

/-! ### Patterns -/

/-- The characters in front fit the pattern of a kind of segment: a run of digits, a text in quotes,
a sign or a reserved word, a name that is not reserved, a run of blanks, or a comment as far as the
line goes. -/
inductive Reads : List Char → Kind → Prop
  | number {digits : List Char} (nonempty : digits ≠ []) (all : ∀ d ∈ digits, d.isDigit = true) :
      Reads digits (ofDigits digits)
  | string {inside : List Char} (closed : '"' ∉ inside) :
      Reads ('"' :: (inside ++ ['"'])) (.token (.str (String.ofList inside)))
  | fixed {t : Token} {w : String} (spelled : t.spelling? = some w) : Reads w.toList (.token t)
  | name {c : Char} {rest : List Char} (start : isNameStart c = true)
      (more : ∀ d ∈ rest, isNameRest d = true)
      (free : ∀ t : Token, t.spelling? ≠ some (String.ofList (c :: rest))) :
      Reads (c :: rest) (.token (.ident (String.ofList (c :: rest))))
  | blanks {run : List Char} (nonempty : run ≠ []) (all : ∀ b ∈ run, isGap b = true) :
      Reads run .gap
  | comment {body : List Char} (line : '\n' ∉ body) : Reads ('#' :: body) .gap

/-- The longest start of `cs` that fits a pattern is `w`, and it is a segment of kind `k`: no other
start that fits a pattern is longer. -/
structure Longest (cs w : List Char) (k : Kind) : Prop where
  reads : Reads w k
  starts : w <+: cs
  longest : ∀ w' k', Reads w' k' → w' <+: cs → w'.length ≤ w.length

/-! ### Words and signs -/

variable {c : Char} {cs part : List Char} {k : Kind} {t : Token} {n : Nat}

/-- No name starts with a digit. -/
theorem isNameStart_eq_false_of_isDigit (h : c.isDigit = true) : isNameStart c = false := by
  have below : c.val ≤ '9'.val := of_decide_eq_true (Bool.and_eq_true_iff.1 h).2
  have upper : c.isUpper = false :=
    decide_eq_false fun within => absurd (UInt32.le_trans within.1 below) (by decide)
  have lower : c.isLower = false :=
    Bool.and_eq_false_imp.2 fun within =>
      absurd (UInt32.le_trans (of_decide_eq_true within) below) (by decide)
  exact Bool.or_eq_false_iff.2 ⟨upper, lower⟩

/-- The sign of one character. -/
def single? : Char → Option Token
  | '*' => some (.op .mul)
  | '<' => some (.op .lt)
  | '>' => some (.op .gt)
  | '!' => some .bang
  | '+' => some (.op .add)
  | '-' => some (.op .sub)
  | '/' => some (.op .div)
  | '%' => some (.op .mod)
  | '(' => some .openParen
  | ')' => some .closeParen
  | '[' => some .openBracket
  | ']' => some .closeBracket
  | ',' => some .comma
  | '\n' => some .endl
  | _ => none

/-- The sign of two characters. -/
def double? : Char → Char → Option Token
  | '*', '*' => some (.op .pow)
  | '<', '-' => some .assign
  | '<', '=' => some (.op .le)
  | '>', '=' => some (.op .ge)
  | '=', '=' => some (.op .eq)
  | '!', '=' => some (.op .ne)
  | _, _ => none

/-- At the end of a text a sign is one character. -/
theorem sign?_nil (c : Char) : sign? c [] = (single? c).map (·, 0) := by
  unfold sign? single?
  split <;> simp_all

/-- A sign of two characters goes before a sign of one. -/
theorem sign?_cons (c d : Char) (cs : List Char) :
    sign? c (d :: cs) = ((double? c d).map (·, 1)).or ((single? c).map (·, 0)) := by
  unfold sign? double?
  split <;> simp_all [single?]

/-- A sign of two characters is read if there is one, and otherwise a sign of one character. -/
theorem sign?_eq_some_iff : sign? c cs = some (t, n) ↔
    (∃ d rest, cs = d :: rest ∧ double? c d = some t ∧ n = 1) ∨
      (∀ d ∈ cs.head?, double? c d = none) ∧ single? c = some t ∧ n = 0 := by
  cases cs with
  | nil =>
      rw [sign?_nil]
      cases single? c <;> simp [eq_comm]
  | cons d rest =>
      rw [sign?_cons]
      cases double : double? c d with
      | some t' => simp [double, eq_comm]
      | none => cases single? c <;> simp [double, eq_comm]

/-- A sign of one character is spelled by it. -/
theorem spelling?_of_single? (h : single? c = some t) :
    t.spelling? = some (String.ofList [c]) := by
  unfold single? at h
  split at h <;> cases h <;> rfl

/-- A sign of two characters is spelled by them. -/
theorem spelling?_of_double? {d : Char} (h : double? c d = some t) :
    t.spelling? = some (String.ofList [c, d]) := by
  unfold double? at h
  split at h <;> cases h <;> rfl

/-- A character that a sign starts with starts nothing else. -/
theorem other_of_sign? (h : sign? c cs = some (t, n)) :
    isNameStart c = false ∧ c.isDigit = false ∧ c ≠ '"' ∧ isGap c = false ∧ c ≠ '#' := by
  obtain ⟨d, rest, -, double, -⟩ | ⟨-, single, -⟩ := sign?_eq_some_iff.1 h
  · unfold double? at double
    split at double <;> cases double <;> decide
  · unfold single? at single
    split at single <;> cases single <;> decide

/-- A sign is spelled as it is read. -/
theorem spelling?_of_sign? (h : sign? c part = some (t, part.length)) :
    t.spelling? = some (String.ofList (c :: part)) := by
  obtain ⟨d, rest, rfl, double, length⟩ | ⟨-, single, length⟩ := sign?_eq_some_iff.1 h
  · obtain rfl : rest = [] := List.length_eq_zero_iff.1 (Nat.succ.inj length)
    exact spelling?_of_double? double
  · obtain rfl := List.length_eq_zero_iff.1 length
    exact spelling?_of_single? single

/-- A sign is read from the start of what it is read from. -/
theorem sign?_start (h : sign? c cs = some (t, n)) :
    ∃ part rest, cs = part ++ rest ∧ n = part.length ∧ sign? c part = some (t, part.length) := by
  obtain ⟨d, rest, rfl, double, rfl⟩ | ⟨-, single, rfl⟩ := sign?_eq_some_iff.1 h
  · exact ⟨[d], rest, rfl, rfl, sign?_eq_some_iff.2 (.inl ⟨d, [], rfl, double, rfl⟩)⟩
  · exact ⟨[], cs, rfl, rfl, sign?_eq_some_iff.2 (.inr ⟨by simp, single, rfl⟩)⟩

/-- A sign that is read from a start is read from the whole as well, or a longer one is. -/
theorem sign?_append (rest : List Char) (h : sign? c part = some (t, part.length)) :
    ∃ t' n, sign? c (part ++ rest) = some (t', n) ∧ part.length ≤ n := by
  obtain ⟨d, more, rfl, double, length⟩ | ⟨-, single, length⟩ := sign?_eq_some_iff.1 h
  · refine ⟨t, 1, sign?_eq_some_iff.2 (.inl ⟨d, more ++ rest, rfl, double, rfl⟩), ?_⟩
    exact Nat.le_of_eq length
  · obtain rfl := List.length_eq_zero_iff.1 length
    cases rest with
    | nil => exact ⟨t, 0, h, Nat.le_refl 0⟩
    | cons d rest =>
        rw [List.nil_append, sign?_cons, single]
        cases double? c d <;> simp

/-- A token with one spelling is a reserved word or a sign. -/
theorem spelling?_cases {w : String} (h : t.spelling? = some w) :
    ∃ c part, w.toList = c :: part ∧
      ((isNameStart c = true ∧ (∀ d ∈ part, isNameRest d = true) ∧ reserved.lookup w = some t) ∨
        sign? c part = some (t, part.length)) := by
  have word {c : Char} {part : List Char} (start : isNameStart c = true)
      (more : part.all isNameRest = true) (listed : reserved.lookup w = some t) :
      isNameStart c = true ∧ (∀ d ∈ part, isNameRest d = true) ∧ reserved.lookup w = some t :=
    ⟨start, List.all_eq_true.1 more, listed⟩
  cases t with
  | int n | str s | ident x | eof => cases h
  | bool b => cases b <;> cases h <;> exact ⟨_, _, rfl, .inl (word rfl rfl rfl)⟩
  | command c => cases c <;> cases h <;> exact ⟨_, _, rfl, .inl (word rfl rfl rfl)⟩
  | op o =>
      cases o with
      | and | or => cases h; exact ⟨_, _, rfl, .inl (word rfl rfl rfl)⟩
      | _ => cases h; exact ⟨_, _, rfl, .inr rfl⟩
  | _ => cases h; exact ⟨_, _, rfl, .inr rfl⟩

/-- A reserved word is spelled as it is listed. -/
theorem spelling?_of_mem_reserved : ∀ entry ∈ reserved, entry.2.spelling? = some entry.1 := by
  decide

/-- A reserved word spells its token. -/
theorem spelling?_of_reserved {w : String} (h : reserved.lookup w = some t) :
    t.spelling? = some w := by
  obtain ⟨before, behind, split, -⟩ := List.lookup_eq_some_iff.1 h
  exact spelling?_of_mem_reserved (w, t) (split ▸ List.mem_append_right before List.mem_cons_self)

/-! ### What the first character decides -/

/-- A name is a reserved word if it is spelled like one. -/
theorem reads_name (start : isNameStart c = true) (more : ∀ d ∈ part, isNameRest d = true) :
    Reads (c :: part) (.token (ofName (String.ofList (c :: part)))) := by
  rw [ofName]
  cases listed : reserved.lookup (String.ofList (c :: part)) with
  | some t =>
      have read : Reads (String.ofList (c :: part)).toList (.token t) :=
        .fixed (spelling?_of_reserved listed)
      rwa [String.toList_ofList] at read
  | none =>
      refine .name start more fun t spelled => ?_
      obtain ⟨d, rest, same, ⟨-, -, found⟩ | sign⟩ := spelling?_cases spelled
      · rw [listed] at found
        cases found
      · rw [String.toList_ofList] at same
        obtain ⟨rfl, rfl⟩ := List.cons.inj same
        rw [(other_of_sign? sign).1] at start
        cases start

/-- A sign fits its pattern. -/
theorem reads_sign (sign : sign? c part = some (t, part.length)) :
    Reads (c :: part) (.token t) := by
  have read : Reads (String.ofList (c :: part)).toList (.token t) :=
    .fixed (spelling?_of_sign? sign)
  rwa [String.toList_ofList] at read

/-- The blanks between tokens. -/
theorem isGap_iff : isGap c = true ↔ c = ' ' ∨ c = '\t' ∨ c = '\r' ∨ c = '\x0c' := by
  simp only [isGap, Bool.or_eq_true, beq_iff_eq, or_assoc]

/-- What a segment can start with: the letter of a name or a reserved word, the digit of a number,
the quote of a string literal, a blank, the sign of a comment, or anything else. -/
inductive Start where
  | name
  | number
  | string
  | blanks
  | comment
  | sign
deriving DecidableEq

namespace Start

variable {s s' : Start}

/-- The segment can start with the character. -/
def Admits : Start → Char → Prop
  | name, c => isNameStart c = true
  | number, c => c.isDigit = true
  | string, c => c = '"'
  | blanks, c => isGap c = true
  | comment, c => c = '#'
  | sign, c => isNameStart c = false ∧ c.isDigit = false ∧ c ≠ '"' ∧ isGap c = false ∧ c ≠ '#'

/-- What a character starts. -/
def of (c : Char) : Start :=
  if isNameStart c then name
  else if c.isDigit then number
  else if c = '"' then string
  else if isGap c then blanks
  else if c = '#' then comment
  else sign

/-- A character has one start. -/
theorem of_eq (h : s.Admits c) : of c = s := by
  cases s with
  | name => exact if_pos h
  | number =>
      rw [of, isNameStart_eq_false_of_isDigit h, if_neg Bool.false_ne_true]
      exact if_pos h
  | string =>
      obtain rfl : c = '"' := h
      decide
  | blanks => obtain rfl | rfl | rfl | rfl := isGap_iff.1 h <;> decide
  | comment =>
      obtain rfl : c = '#' := h
      decide
  | sign =>
      obtain ⟨name, digit, quote, gap, hash⟩ := h
      simp [of, name, digit, quote, gap, hash]

/-- Different segments start with different characters. -/
theorem Admits.unique (h : s.Admits c) (h' : s'.Admits c) : s = s' :=
  (of_eq h).symm.trans (of_eq h')

/-- Every character has a start. -/
theorem admits_of (c : Char) : (of c).Admits c := by
  unfold of
  repeat' split
  all_goals simp_all [Admits]

end Start

/-- What may follow a character in a segment, and what the segment is then. -/
def Continues (s : Start) (c : Char) (part : List Char) (k : Kind) : Prop :=
  match s with
  | .name => (∀ d ∈ part, isNameRest d = true) ∧ k = .token (ofName (String.ofList (c :: part)))
  | .number => (∀ d ∈ part, d.isDigit = true) ∧ k = ofDigits (c :: part)
  | .string =>
    ∃ inside, '"' ∉ inside ∧ part = inside ++ ['"'] ∧ k = .token (.str (String.ofList inside))
  | .blanks => (∀ d ∈ part, isGap d = true) ∧ k = .gap
  | .comment => '\n' ∉ part ∧ k = .gap
  | .sign => ∃ t, sign? c part = some (t, part.length) ∧ k = .token t

/-- What fits a pattern continues its start. -/
theorem Reads.exists_continues (read : Reads (c :: part) k) :
    ∃ s : Start, s.Admits c ∧ Continues s c part k := by
  generalize whole : c :: part = w at read
  cases read with
  | number _ all =>
      subst whole
      obtain ⟨digit, more⟩ := List.forall_mem_cons.1 all
      exact ⟨.number, digit, more, rfl⟩
  | string closed =>
      obtain ⟨rfl, rfl⟩ := List.cons.inj whole
      exact ⟨.string, rfl, _, closed, rfl, rfl⟩
  | fixed spelled =>
      obtain ⟨d, rest, same, ⟨start, more, listed⟩ | sign⟩ := spelling?_cases spelled
      · obtain ⟨rfl, rfl⟩ := List.cons.inj (whole.trans same)
        refine ⟨.name, start, more, ?_⟩
        rw [whole, String.ofList_toList, ofName, listed]
        rfl
      · obtain ⟨rfl, rfl⟩ := List.cons.inj (whole.trans same)
        exact ⟨.sign, other_of_sign? sign, _, sign, rfl⟩
  | name start more free =>
      obtain ⟨rfl, rfl⟩ := List.cons.inj whole
      refine ⟨.name, start, more, ?_⟩
      rw [ofName]
      cases listed : reserved.lookup (String.ofList (c :: part)) with
      | some t => exact absurd (spelling?_of_reserved listed) (free t)
      | none => rfl
  | blanks _ all =>
      subst whole
      obtain ⟨gap, more⟩ := List.forall_mem_cons.1 all
      exact ⟨.blanks, gap, more, rfl⟩
  | comment line =>
      obtain ⟨rfl, rfl⟩ := List.cons.inj whole
      exact ⟨.comment, rfl, line, rfl⟩

/-- **The first character decides** which pattern the others have to fit. -/
theorem reads_cons_iff {s : Start} (start : s.Admits c) :
    Reads (c :: part) k ↔ Continues s c part k := by
  constructor
  · intro read
    obtain ⟨s', start', continues⟩ := read.exists_continues
    exact start.unique start' ▸ continues
  · intro continues
    cases s with
    | name =>
        obtain ⟨more, rfl⟩ := continues
        exact reads_name start more
    | number =>
        obtain ⟨more, rfl⟩ := continues
        exact .number (List.cons_ne_nil c part) (List.forall_mem_cons.2 ⟨start, more⟩)
    | string =>
        obtain ⟨inside, closed, rfl, rfl⟩ := continues
        exact (show c = '"' from start) ▸ .string closed
    | blanks =>
        obtain ⟨more, rfl⟩ := continues
        exact .blanks (List.cons_ne_nil c part) (List.forall_mem_cons.2 ⟨start, more⟩)
    | comment =>
        obtain ⟨line, rfl⟩ := continues
        exact (show c = '#' from start) ▸ .comment line
    | sign =>
        obtain ⟨t, sign, rfl⟩ := continues
        exact reads_sign sign

/-- Nothing empty fits a pattern. -/
theorem Reads.exists_cons {w : List Char} (h : Reads w k) : ∃ c part, w = c :: part := by
  cases h with
  | number nonempty _ => exact List.exists_cons_of_ne_nil nonempty
  | string _ => exact ⟨_, _, rfl⟩
  | fixed spelled =>
      obtain ⟨c, part, same, -⟩ := spelling?_cases spelled
      exact ⟨c, part, same⟩
  | name _ _ _ => exact ⟨_, _, rfl⟩
  | blanks nonempty _ => exact List.exists_cons_of_ne_nil nonempty
  | comment _ => exact ⟨_, _, rfl⟩

/-! ### The longest match -/

/-- The longest match does not go on. -/
theorem Longest.not_reads_snoc {w rest : List Char} {d : Char} (h : Longest (w ++ d :: rest) w k)
    (k' : Kind) : ¬Reads (w ++ [d]) k' := by
  intro reads
  have most := h.longest _ _ reads ⟨rest, by simp⟩
  rw [List.length_append] at most
  exact Nat.not_succ_le_self _ most

/-- A match is the longest one if it does not go on, however far that is. -/
theorem Reads.longest {w rest : List Char} (reads : Reads w k)
    (stops : ∀ d more k', d :: more <+: rest → ¬Reads (w ++ d :: more) k') :
    Longest (w ++ rest) w k := by
  refine ⟨reads, List.prefix_append w rest, fun w' k' reads' starts => ?_⟩
  rcases List.prefix_or_prefix_of_prefix starts (List.prefix_append w rest) with
    within | ⟨more, rfl⟩
  · exact within.length_le
  · cases more with
    | nil => exact Nat.le_of_eq (by rw [List.append_nil])
    | cons d more =>
        exact absurd reads' (stops d more k' ((List.prefix_append_right_inj w).1 starts))

/-- What is cut off in front of a text, said of the first character, of the others, and of how many
of them are cut off with it: the longest match, a string literal that never ends, or a character
where nothing matches. -/
inductive Front (c : Char) (cs : List Char) : Kind × Nat → Prop
  | found {part rest : List Char} {k : Kind} (split : cs = part ++ rest)
      (longest : Longest (c :: cs) (c :: part) k) : Front c cs (k, part.length)
  | unclosed (quote : c = '"') (open_ : '"' ∉ cs) : Front c cs (.fault .openString, cs.length)
  | stray (other : c ≠ '"') (nothing : ∀ part k, part <+: cs → ¬Reads (c :: part) k) :
      Front c cs (.fault (.strayChar c), 0)

/-- The longest match among those that start with a given character. -/
theorem longest_cons {s : Start} (start : s.Admits c) (here : Continues s c part k)
    (starts : part <+: cs)
    (most : ∀ part' k', part' <+: cs → Continues s c part' k' → part'.length ≤ part.length) :
    Longest (c :: cs) (c :: part) k := by
  refine ⟨(reads_cons_iff start).2 here, List.cons_prefix_cons.2 ⟨rfl, starts⟩, ?_⟩
  intro w' k' reads' begins
  obtain ⟨d, part', rfl⟩ := reads'.exists_cons
  obtain ⟨rfl, starts'⟩ := List.cons_prefix_cons.1 begins
  exact Nat.succ_le_succ (most part' k' starts' ((reads_cons_iff start).1 reads'))

/-- A run is no longer than the longest one. -/
theorem length_le_takeWhile {p : Char → Bool} (starts : part <+: cs)
    (all : ∀ d ∈ part, p d = true) : part.length ≤ (cs.takeWhile p).length := by
  obtain ⟨rest, rfl⟩ := starts
  rw [List.takeWhile_append_of_pos all, List.length_append]
  exact Nat.le_add_right _ _

/-- Where a segment goes on as long as characters belong to a class, the run of them is taken. -/
theorem front_run {s : Start} (start : s.Admits c) (p : Char → Bool)
    (here : Continues s c (cs.takeWhile p) k)
    (only : ∀ part' k', Continues s c part' k' → ∀ d ∈ part', p d = true) :
    Front c cs (k, (cs.takeWhile p).length) := by
  refine .found List.takeWhile_append_dropWhile.symm ?_
  refine longest_cons start here (List.takeWhile_prefix p) fun part' k' starts continues => ?_
  exact length_le_takeWhile starts (only part' k' continues)

/-- All characters of a run are alike. -/
theorem of_mem_takeWhile {p : Char → Bool} {d : Char} (h : d ∈ cs.takeWhile p) : p d = true :=
  List.all_eq_true.1 List.all_takeWhile d h

/-- What is cut off at a quote. -/
theorem front_quote (cs : List Char) : Front '"' cs (reach '"' cs) := by
  have inner (d : Char) (h : d ∈ cs.takeWhile (· ≠ '"')) : d ≠ '"' :=
    of_decide_eq_true (of_mem_takeWhile h)
  have closed : '"' ∉ cs.takeWhile (· ≠ '"') := fun h => inner _ h rfl
  have whole := cs.takeWhile_append_dropWhile (p := (· ≠ '"'))
  change Front '"' cs (if (cs.takeWhile (· ≠ '"')).length < cs.length then _ else _)
  cases behind : cs.dropWhile (· ≠ '"') with
  | nil =>
      have all : cs.takeWhile (· ≠ '"') = cs := by
        rw [behind, List.append_nil] at whole
        exact whole
      rw [all, if_neg (Nat.lt_irrefl _)]
      exact .unclosed rfl (all ▸ closed)
  | cons d rest =>
      have quote : d = '"' := by
        have stops := List.head?_dropWhile_not (· ≠ '"') cs
        rw [behind] at stops
        simpa using stops
      subst quote
      rw [behind] at whole
      have shorter : (cs.takeWhile (· ≠ '"')).length < cs.length := by
        rw [← whole, List.length_append, whole]
        exact Nat.lt_add_of_pos_right (by simp)
      rw [if_pos shorter]
      have split : cs = (cs.takeWhile (· ≠ '"') ++ ['"']) ++ rest := by
        rw [List.append_assoc]
        exact whole.symm
      rw [show (cs.takeWhile (· ≠ '"')).length + 1 = (cs.takeWhile (· ≠ '"') ++ ['"']).length by
        simp]
      have here : Continues .string '"' (cs.takeWhile (· ≠ '"') ++ ['"']) _ := ⟨_, closed, rfl, rfl⟩
      refine .found split (longest_cons (s := .string) rfl here ⟨rest, split.symm⟩ ?_)
      rintro part' k' starts ⟨inside, open_, rfl, -⟩
      rw [List.length_append, List.length_append]
      refine Nat.add_le_add_right (length_le_takeWhile ?_ fun d h => ?_) 1
      · exact (List.prefix_append inside _).trans starts
      · exact decide_eq_true fun (same : d = '"') => open_ (same ▸ h)

/-- What is cut off at a sign. -/
theorem front_sign (cs : List Char) (start : Start.sign.Admits c) : Front c cs (reach c cs) := by
  have ⟨name, digit, quote, gap, hash⟩ := start
  simp only [reach, name, digit, quote, gap, hash, Bool.false_eq_true, if_false]
  cases read : sign? c cs with
  | some found =>
      obtain ⟨t, n⟩ := found
      obtain ⟨part, rest, rfl, rfl, sign⟩ := sign?_start read
      have here : Continues .sign c part (.token t) := ⟨t, sign, rfl⟩
      refine .found rfl (longest_cons start here ⟨rest, rfl⟩ ?_)
      rintro part' k' ⟨rest', split⟩ ⟨t', sign', -⟩
      obtain ⟨t'', n, read', most⟩ := sign?_append rest' sign'
      rw [split, read] at read'
      cases read'
      exact most
  | none =>
      refine .stray quote ?_
      rintro part k ⟨rest, split⟩ reads
      obtain ⟨t, sign, -⟩ := (reads_cons_iff start).1 reads
      obtain ⟨t', n, read', -⟩ := sign?_append rest sign
      rw [split, read] at read'
      cases read'

/-- **What is cut off** is the longest match, if there is one; otherwise it is an open string up to
the end of the text, or a stray character. -/
theorem reach_front (c : Char) (cs : List Char) : Front c cs (reach c cs) := by
  by_cases name : isNameStart c = true
  · rw [reach, if_pos name]
    exact front_run (s := .name) name isNameRest ⟨fun d => of_mem_takeWhile, rfl⟩
      fun _ _ => And.left
  by_cases digit : c.isDigit = true
  · rw [reach, if_neg name, if_pos digit]
    exact front_run (s := .number) digit Char.isDigit ⟨fun d => of_mem_takeWhile, rfl⟩
      fun _ _ => And.left
  by_cases quote : c = '"'
  · subst quote
    exact front_quote cs
  by_cases gap : isGap c = true
  · rw [reach, if_neg name, if_neg digit, if_neg quote, if_pos gap]
    exact front_run (s := .blanks) gap isGap ⟨fun d => of_mem_takeWhile, rfl⟩ fun _ _ => And.left
  by_cases hash : c = '#'
  · subst hash
    change Front '#' cs (.gap, (cs.takeWhile (· ≠ '\n')).length)
    refine front_run (s := .comment) rfl (· ≠ '\n') ⟨fun h => ?_, rfl⟩
      fun part k continues d h => ?_
    · exact of_decide_eq_true (of_mem_takeWhile h) rfl
    · exact decide_eq_true fun (same : d = '\n') => continues.1 (same ▸ h)
  · exact front_sign cs ⟨Bool.eq_false_iff.2 name, Bool.eq_false_iff.2 digit, quote,
      Bool.eq_false_iff.2 gap, hash⟩

/-! ### Cutting -/

/-- Nothing matches where a string literal never ends. -/
theorem not_reads_of_open (open_ : '"' ∉ cs) (starts : part <+: cs) : ¬Reads ('"' :: part) k := by
  intro reads
  obtain ⟨inside, -, rfl, -⟩ := (reads_cons_iff (s := .string) rfl).1 reads
  exact open_ (starts.subset (List.mem_append_right inside List.mem_cons_self))

/-- What fits a pattern is of one kind only. -/
theorem Reads.unique {w : List Char} {k' : Kind} (first : Reads w k) (second : Reads w k') :
    k = k' := by
  obtain ⟨c, part, rfl⟩ := first.exists_cons
  have here := (reads_cons_iff (Start.admits_of c)).1 first
  have there := (reads_cons_iff (Start.admits_of c)).1 second
  generalize Start.of c = s at here there
  cases s with
  | name | number | blanks | comment => exact here.2.trans there.2.symm
  | string =>
      obtain ⟨inside, -, same, rfl⟩ := here
      obtain ⟨inside', -, same', rfl⟩ := there
      rw [List.append_cancel_right (same.symm.trans same')]
  | sign =>
      obtain ⟨t, sign, rfl⟩ := here
      obtain ⟨t', sign', rfl⟩ := there
      rw [sign] at sign'
      cases sign'
      rfl

/-- **The longest match is cut off.** -/
theorem cut_of_longest {w rest : List Char} (h : Longest (w ++ rest) w k) :
    cut (w ++ rest) = ⟨k, w⟩ :: cut rest := by
  obtain ⟨c, part, rfl⟩ := h.reads.exists_cons
  have here : part <+: part ++ rest := List.prefix_append part rest
  rw [List.cons_append, cut]
  have front := reach_front c (part ++ rest)
  generalize reach c (part ++ rest) = cutOff at front ⊢
  cases front with
  | @found part' rest' k' split longest =>
      have same : part'.length = part.length := by
        have most := h.longest _ _ longest.reads longest.starts
        have most' := longest.longest _ _ h.reads h.starts
        simp only [List.length_cons] at most most'
        omega
      obtain ⟨rfl, rfl⟩ := List.append_inj split same.symm
      obtain rfl := h.reads.unique longest.reads
      simp
  | unclosed quote open_ =>
      subst quote
      exact absurd h.reads (not_reads_of_open open_ here)
  | stray other nothing => exact absurd h.reads (nothing part k here)

/-- What a segment is in front of what is behind it: the longest match, a string literal that never
ends, or a character where nothing matches. -/
inductive Fits (behind : List Char) : Segment → Prop
  | found {w : List Char} {k : Kind} (longest : Longest (w ++ behind) w k) : Fits behind ⟨k, w⟩
  | unclosed {inside : List Char} (open_ : '"' ∉ inside) (last : behind = []) :
      Fits behind ⟨.fault .openString, '"' :: inside⟩
  | stray {c : Char} (other : c ≠ '"') (nothing : ∀ w k, w <+: c :: behind → ¬Reads w k) :
      Fits behind ⟨.fault (.strayChar c), [c]⟩

/-- **Every segment fits what is behind it.** -/
theorem fits_of_cut {before behind : List Segment} {seg : Segment}
    (h : cut cs = before ++ seg :: behind) : Fits (behind.flatMap text) seg := by
  fun_induction cut cs generalizing before with
  | case1 => simp at h
  | case2 c cs kind n reaches ih =>
      cases before with
      | cons first before =>
          obtain ⟨-, others⟩ := List.cons.inj h
          exact ih others
      | nil =>
          obtain ⟨rfl, rfl⟩ := List.cons.inj h
          rw [flatMap_text_cut]
          have front := reach_front c cs
          rw [reaches] at front
          generalize cutOff : (kind, n) = r at front
          cases front with
          | @found part rest k split longest =>
              cases cutOff
              subst split
              rw [List.take_left, List.drop_left]
              exact .found longest
          | unclosed quote open_ =>
              cases cutOff
              subst quote
              rw [List.take_length, List.drop_length]
              exact .unclosed open_ rfl
          | stray other nothing =>
              cases cutOff
              refine .stray other fun w k begins reads => ?_
              obtain ⟨d, part, rfl⟩ := reads.exists_cons
              obtain ⟨rfl, starts⟩ := List.cons_prefix_cons.1 begins
              exact nothing part k starts reads

end Segment

end PenScript
