import Mathlib.Data.List.Forall2
import Mathlib.Data.List.TakeWhile
import PenScript.Canvas

/-!
# Color strings

A color can be named, or written with hexadecimal digits in four forms. Reading a color string drops
the blanks around it, forgets the case of its letters, and looks at the digits one by one. Here the
same is said as a grammar: which texts are color strings, and which color each of them spells. A
short form is the long one with every digit twice, and a form without alpha is opaque.

Writing a color gives one of the long forms, in upper case, and reading it gives the color back. So
the written form is a normal form of all strings that spell a color.

## Main definitions

* `Trimmed` — a text without the blanks around it;
* `Hex.Byte` — the two digits of a byte;
* `Color.Spells` — the color that a string in lower case spells;
* `Color.Written` — the written form of a color.

## Main results

* `trimBlanks_eq_iff`: what is left of a text without the blanks around it;
* `Color.parse?_eq_some_iff`: reading follows the grammar;
* `Color.exists_spells_iff`: which strings spell a color at all;
* `Color.color_strings_round_trip`: reading, writing, and reading again.
-/

namespace PenScript

/-! ### Blanks around a text -/

/-- The text `core` is all of `cs` but the blanks around it: what was dropped is blank, and no blank
is left in front or at the end. -/
structure Trimmed (cs core : List Char) : Prop where
  around : ∃ before after, cs = before ++ core ++ after ∧ (∀ c ∈ before, isBlank c) ∧
    ∀ c ∈ after, isBlank c
  front : ∀ c ∈ core.head?, isBlank c = false
  back : ∀ c ∈ core.getLast?, isBlank c = false

/-- A text that does not start with a blank is all that is left of it behind some blanks. -/
theorem dropWhile_blanks {before core : List Char} (blank : ∀ c ∈ before, isBlank c)
    (front : ∀ c ∈ core.head?, isBlank c = false) :
    (before ++ core).dropWhile isBlank = core := by
  rw [List.dropWhile_append_of_pos blank]
  cases core with
  | nil => rfl
  | cons c core => rw [List.dropWhile_cons_of_neg (by simp [front c rfl])]

/-- Behind the blanks in front there is no blank. -/
theorem head?_dropWhile_blanks (cs : List Char) :
    ∀ c ∈ (cs.dropWhile isBlank).head?, isBlank c = false := by
  intro c first
  have stops := List.head?_dropWhile_not isBlank cs
  rw [Option.mem_def.1 first] at stops
  exact stops

/-- What is left behind the blanks in front is what is left in the end, and blanks. -/
theorem dropWhile_eq_append (cs : List Char) : cs.dropWhile isBlank =
    trimBlanks cs ++ ((cs.dropWhile isBlank).reverse.takeWhile isBlank).reverse := by
  rw [trimBlanks, ← List.reverse_append, List.takeWhile_append_dropWhile, List.reverse_reverse]

/-- Trimming drops the blanks around a text, and nothing else. -/
theorem trimmed_trimBlanks (cs : List Char) : Trimmed cs (trimBlanks cs) where
  around := by
    refine ⟨cs.takeWhile isBlank, ((cs.dropWhile isBlank).reverse.takeWhile isBlank).reverse,
      ?_, fun c => List.mem_takeWhile_imp, fun c member => ?_⟩
    · rw [List.append_assoc, ← dropWhile_eq_append, List.takeWhile_append_dropWhile]
    · exact List.mem_takeWhile_imp (List.mem_reverse.1 member)
  front := by
    intro c first
    refine head?_dropWhile_blanks cs c ?_
    rw [dropWhile_eq_append, List.head?_append, Option.mem_def.1 first]
    rfl
  back := by
    intro c last
    rw [trimBlanks, List.getLast?_reverse] at last
    exact head?_dropWhile_blanks _ c last

/-- **What is left of a text** without the blanks around it. -/
theorem trimBlanks_eq_iff {cs core : List Char} : trimBlanks cs = core ↔ Trimmed cs core := by
  constructor
  · rintro rfl
    exact trimmed_trimBlanks cs
  · rintro ⟨⟨before, after, rfl, blankBefore, blankAfter⟩, front, back⟩
    have ends : ∀ c ∈ core.reverse.head?, isBlank c = false := by
      rwa [List.head?_reverse]
    cases core with
    | nil =>
        -- nothing but blanks: all of them are dropped in front
        have blank : ∀ c ∈ before ++ [] ++ after, isBlank c := by
          simp only [List.append_nil, List.mem_append]
          rintro c (early | late)
          · exact blankBefore c early
          · exact blankAfter c late
        rw [trimBlanks, List.dropWhile_eq_nil_iff.2 blank]
        rfl
    | cons c core =>
        have dropped : (before ++ (c :: core ++ after)).dropWhile isBlank = c :: core ++ after :=
          dropWhile_blanks blankBefore (by simpa using front)
        have blank : ∀ c ∈ after.reverse, isBlank c :=
          fun c member => blankAfter c (List.mem_reverse.1 member)
        rw [trimBlanks, List.append_assoc, dropped, List.reverse_append,
          dropWhile_blanks blank ends, List.reverse_reverse]

/-! ### Hexadecimal digits -/

namespace Hex

/-- The digits in lower case, each at the place of its value. -/
def lower : List Char :=
  ['0', '1', '2', '3', '4', '5', '6', '7', '8', '9', 'a', 'b', 'c', 'd', 'e', 'f']

/-- The digits in upper case, each at the place of its value. -/
def upper : List Char :=
  ['0', '1', '2', '3', '4', '5', '6', '7', '8', '9', 'A', 'B', 'C', 'D', 'E', 'F']

/-- The byte whose two digits are `x` and `y`, the high half first. -/
def Byte (digits : List Char) (x y : Char) (b : UInt8) : Prop :=
  ∃ hi lo, digits[hi]? = some x ∧ digits[lo]? = some y ∧ b.toNat = 16 * hi + lo

variable {x y : Char} {n hi lo : Nat} {b : UInt8}

/-- A digit has its place among sixteen. -/
theorem lt_of_digit {digits : List Char} (size : digits.length = 16) (at_n : digits[n]? = some x) :
    n < 16 :=
  size ▸ (List.getElem?_eq_some_iff.1 at_n).1

/-- A digit in lower case has the value of its place. -/
theorem value?_of_lower (at_n : lower[n]? = some x) : value? x = some n := by
  have reads : ∀ k < 16, lower[k]?.bind value? = some k := by decide
  have here := reads n (lt_of_digit rfl at_n)
  rwa [at_n] at here

/-- A digit that is not in upper case stands for its place among the digits in lower case. -/
theorem value?_eq_some_iff (case : x.isUpper = false) :
    value? x = some n ↔ lower[n]? = some x := by
  have decimal : ∀ k < 10, lower[k]? = some (Char.ofNat (48 + k)) := by decide
  have beyond : ∀ k < 6, lower[10 + k]? = some (Char.ofNat (97 + k)) := by decide
  refine ⟨fun value => ?_, value?_of_lower⟩
  · rw [value?] at value
    split at value
    · next range =>
      have low : 48 ≤ x.toNat := range.1
      have high : x.toNat ≤ 57 := range.2
      cases value
      rw [decimal _ (by omega), Nat.add_sub_cancel' low, Char.ofNat_toNat]
    · split at value
      · next range =>
        have low : 97 ≤ x.toNat := range.1
        have high : x.toNat ≤ 102 := range.2
        have place : x.toNat - 87 = 10 + (x.toNat - 97) := by omega
        cases value
        rw [place, beyond _ (by omega), Nat.add_sub_cancel' low, Char.ofNat_toNat]
      · split at value
        · next range =>
          -- the digits in upper case do not occur
          have inside : x.isUpper = true := by
            have high : x.val ≤ 'Z'.val := UInt32.le_trans range.2 (by decide)
            exact decide_eq_true ⟨range.1, high⟩
          rw [case] at inside
          cases inside
        · cases value

/-- Characters without capitals are read as the places of the digits. -/
theorem mapM_value?_eq_some_iff {ds : List Char} {ns : List Nat}
    (case : ∀ d ∈ ds, d.isUpper = false) :
    ds.mapM value? = some ns ↔ List.Forall₂ (fun d n => lower[n]? = some d) ds ns := by
  induction ds generalizing ns with
  | nil =>
      rw [List.mapM_nil, List.forall₂_nil_left_iff]
      exact ⟨fun same => (Option.some.inj same).symm, fun none => congrArg some none.symm⟩
  | cons d ds ih =>
      obtain ⟨here, later⟩ := List.forall_mem_cons.1 case
      rw [List.mapM_cons, List.forall₂_cons_left_iff]
      simp only [Option.bind_eq_bind, Option.bind_eq_some_iff, value?_eq_some_iff here, ih later,
        Option.pure_def, Option.some.injEq]
      constructor
      · rintro ⟨n, digit, ns, digits, rfl⟩
        exact ⟨n, ns, digit, digits, rfl⟩
      · rintro ⟨n, ns, digit, digits, rfl⟩
        exact ⟨n, digit, ns, digits, rfl⟩

/-- Two digits make a byte. -/
theorem toNat_joined {digits : List Char} (size : digits.length = 16) (high : digits[hi]? = some x)
    (low : digits[lo]? = some y) : (Color.joined hi lo).toNat = 16 * hi + lo := by
  have := lt_of_digit size high
  have := lt_of_digit size low
  rw [Color.joined, UInt8.toNat_ofNat_of_lt' (by rw [UInt8.size]; omega)]

/-- Two digits spell the byte that is joined from their values. -/
theorem byte_joined (high : lower[hi]? = some x) (low : lower[lo]? = some y) :
    Byte lower x y (Color.joined hi lo) :=
  ⟨hi, lo, high, low, toNat_joined rfl high low⟩

/-- The digits of a byte have values. -/
theorem Byte.values (byte : Byte lower x y b) :
    ∃ hi lo, value? x = some hi ∧ value? y = some lo ∧ b = Color.joined hi lo := by
  obtain ⟨hi, lo, high, low, value⟩ := byte
  refine ⟨hi, lo, value?_of_lower high, value?_of_lower low, UInt8.toNat_inj.1 ?_⟩
  rw [value, toNat_joined rfl high low]

/-- A digit that is doubled spells the byte with twice that digit. -/
theorem Byte.value (byte : Byte lower x x b) :
    ∃ n, value? x = some n ∧ b = Color.joined n n := by
  obtain ⟨hi, lo, high, low, rfl⟩ := byte.values
  obtain rfl : hi = lo := Option.some.inj (high.symm.trans low)
  exact ⟨hi, high, rfl⟩

/-- A byte is spelled with digits. -/
theorem Byte.mem {digits : List Char} (byte : Byte digits x y b) : x ∈ digits ∧ y ∈ digits := by
  obtain ⟨hi, lo, high, low, -⟩ := byte
  exact ⟨List.mem_of_getElem? high, List.mem_of_getElem? low⟩

/-- Digits have values. -/
theorem exists_values {ds : List Char} (all : ∀ d ∈ ds, d ∈ lower) :
    ∃ ns : List Nat, List.Forall₂ (fun d n => lower[n]? = some d) ds ns := by
  induction ds with
  | nil => exact ⟨[], .nil⟩
  | cons d ds ih =>
      obtain ⟨here, later⟩ := List.forall_mem_cons.1 all
      obtain ⟨n, at_n⟩ := List.getElem?_of_mem here
      obtain ⟨ns, others⟩ := ih later
      exact ⟨n :: ns, .cons at_n others⟩

end Hex

/-! ### The grammar of color strings -/

namespace Color

open Hex

/-- A string in lower case spells a color: it is one of the names, or `#` and three, four, six or
eight digits. In the short forms every digit stands for two, and the forms without alpha are opaque.
-/
inductive Spells : List Char → Color → Prop where
  | name {name : String} {c : Color} (member : (name, c) ∈ names) : Spells name.toList c
  | rgb {x y z : Char} {r g b : UInt8} (red : Byte lower x x r) (green : Byte lower y y g)
      (blue : Byte lower z z b) : Spells ['#', x, y, z] ⟨r, g, b, 255⟩
  | argb {w x y z : Char} {a r g b : UInt8} (alpha : Byte lower w w a) (red : Byte lower x x r)
      (green : Byte lower y y g) (blue : Byte lower z z b) : Spells ['#', w, x, y, z] ⟨r, g, b, a⟩
  | rrggbb {x x' y y' z z' : Char} {r g b : UInt8} (red : Byte lower x x' r)
      (green : Byte lower y y' g) (blue : Byte lower z z' b) :
      Spells ['#', x, x', y, y', z, z'] ⟨r, g, b, 255⟩
  | aarrggbb {w w' x x' y y' z z' : Char} {a r g b : UInt8} (alpha : Byte lower w w' a)
      (red : Byte lower x x' r) (green : Byte lower y y' g) (blue : Byte lower z z' b) :
      Spells ['#', w, w', x, x', y, y', z, z'] ⟨r, g, b, a⟩

/-- The strings in lower case that spell some color. -/
def IsSpelling (cs : List Char) : Prop :=
  (∃ p ∈ names, cs = p.1.toList) ∨
    ∃ ds, cs = '#' :: ds ∧ ds.length ∈ [3, 4, 6, 8] ∧ ∀ d ∈ ds, d ∈ lower

variable {cs : List Char} {c : Color}

/-- A string that spells a color is read as that color. -/
theorem ofNormal?_of_spells (spells : Spells cs c) : ofNormal? cs = some c := by
  cases spells with
  | @name name _ member =>
      have found : ∀ p ∈ names, ofNormal? p.1.toList = some p.2 := by decide
      exact found (name, c) member
  | rgb red green blue =>
      obtain ⟨r, hr, rfl⟩ := red.value
      obtain ⟨g, hg, rfl⟩ := green.value
      obtain ⟨b, hb, rfl⟩ := blue.value
      simp only [ofNormal?, List.mapM_cons, hr, hg, hb]
      rfl
  | argb alpha red green blue =>
      obtain ⟨a, ha, rfl⟩ := alpha.value
      obtain ⟨r, hr, rfl⟩ := red.value
      obtain ⟨g, hg, rfl⟩ := green.value
      obtain ⟨b, hb, rfl⟩ := blue.value
      simp only [ofNormal?, List.mapM_cons, ha, hr, hg, hb]
      rfl
  | rrggbb red green blue =>
      obtain ⟨r, r', hr, hr', rfl⟩ := red.values
      obtain ⟨g, g', hg, hg', rfl⟩ := green.values
      obtain ⟨b, b', hb, hb', rfl⟩ := blue.values
      simp only [ofNormal?, List.mapM_cons, hr, hr', hg, hg', hb, hb']
      rfl
  | aarrggbb alpha red green blue =>
      obtain ⟨a, a', ha, ha', rfl⟩ := alpha.values
      obtain ⟨r, r', hr, hr', rfl⟩ := red.values
      obtain ⟨g, g', hg, hg', rfl⟩ := green.values
      obtain ⟨b, b', hb, hb', rfl⟩ := blue.values
      simp only [ofNormal?, List.mapM_cons, ha, ha', hr, hr', hg, hg', hb, hb']
      rfl

/-- Digits that are read as a color spell it. -/
theorem spells_of_digits {ds : List Char} {ns : List Nat}
    (digits : List.Forall₂ (fun d n => lower[n]? = some d) ds ns) (read : ofDigits? ns = some c) :
    Spells ('#' :: ds) c := by
  unfold ofDigits? at read
  split at read
  · cases read
    simp only [List.forall₂_cons_right_iff, List.forall₂_nil_right_iff] at digits
    obtain ⟨x, _, hx, ⟨y, _, hy, ⟨z, _, hz, rfl, rfl⟩, rfl⟩, rfl⟩ := digits
    exact .rgb (byte_joined hx hx) (byte_joined hy hy) (byte_joined hz hz)
  · cases read
    simp only [List.forall₂_cons_right_iff, List.forall₂_nil_right_iff] at digits
    obtain ⟨w, _, hw, ⟨x, _, hx, ⟨y, _, hy, ⟨z, _, hz, rfl, rfl⟩, rfl⟩, rfl⟩, rfl⟩ := digits
    exact .argb (byte_joined hw hw) (byte_joined hx hx) (byte_joined hy hy) (byte_joined hz hz)
  · cases read
    simp only [List.forall₂_cons_right_iff, List.forall₂_nil_right_iff] at digits
    obtain ⟨x, _, hx, ⟨x', _, hx', ⟨y, _, hy, ⟨y', _, hy', ⟨z, _, hz, ⟨z', _, hz', rfl, rfl⟩, rfl⟩,
      rfl⟩, rfl⟩, rfl⟩, rfl⟩ := digits
    exact .rrggbb (byte_joined hx hx') (byte_joined hy hy') (byte_joined hz hz')
  · cases read
    simp only [List.forall₂_cons_right_iff, List.forall₂_nil_right_iff] at digits
    obtain ⟨w, _, hw, ⟨w', _, hw', ⟨x, _, hx, ⟨x', _, hx', ⟨y, _, hy, ⟨y', _, hy', ⟨z, _, hz,
      ⟨z', _, hz', rfl, rfl⟩, rfl⟩, rfl⟩, rfl⟩, rfl⟩, rfl⟩, rfl⟩, rfl⟩ := digits
    exact .aarrggbb (byte_joined hw hw') (byte_joined hx hx') (byte_joined hy hy')
      (byte_joined hz hz')
  · cases read

/-- A string in lower case is read as the color that it spells. -/
theorem ofNormal?_eq_some_iff (case : ∀ x ∈ cs, x.isUpper = false) :
    ofNormal? cs = some c ↔ Spells cs c := by
  refine ⟨fun read => ?_, ofNormal?_of_spells⟩
  rw [ofNormal?.eq_def] at read
  split at read
  · next ds =>
    obtain ⟨ns, digits, read⟩ := Option.bind_eq_some_iff.1 read
    rw [mapM_value?_eq_some_iff (List.forall_mem_cons.1 case).2] at digits
    exact spells_of_digits digits read
  · obtain ⟨before, after, found, -⟩ := List.lookup_eq_some_iff.1 read
    have member : (String.ofList cs, c) ∈ names := by simp [found]
    simpa using Spells.name member

/-- A color has three, four, six or eight digits. -/
theorem isSome_ofDigits? {ns : List Nat} :
    (ofDigits? ns).isSome ↔ ns.length ∈ [3, 4, 6, 8] := by
  -- every length up to eight on its own, and all that are longer
  rcases ns with
    _ | ⟨_, _ | ⟨_, _ | ⟨_, _ | ⟨_, _ | ⟨_, _ | ⟨_, _ | ⟨_, _ | ⟨_, _ | ⟨_, _⟩⟩⟩⟩⟩⟩⟩⟩⟩ <;>
    simp [ofDigits?]

/-- **The strings that spell a color**: the names, and `#` with 3, 4, 6 or 8 digits. -/
theorem exists_spells_iff : (∃ c, Spells cs c) ↔ IsSpelling cs := by
  constructor
  · rintro ⟨c, spells⟩
    cases spells with
    | name member => exact Or.inl ⟨_, member, rfl⟩
    | rgb red green blue =>
        exact Or.inr ⟨_, rfl, by simp, by simp [red.mem, green.mem, blue.mem]⟩
    | argb alpha red green blue =>
        exact Or.inr ⟨_, rfl, by simp, by simp [alpha.mem, red.mem, green.mem, blue.mem]⟩
    | rrggbb red green blue =>
        exact Or.inr ⟨_, rfl, by simp, by simp [red.mem, green.mem, blue.mem]⟩
    | aarrggbb alpha red green blue =>
        exact Or.inr ⟨_, rfl, by simp, by simp [alpha.mem, red.mem, green.mem, blue.mem]⟩
  · rintro (⟨p, member, rfl⟩ | ⟨ds, rfl, size, all⟩)
    · exact ⟨p.2, .name member⟩
    · obtain ⟨ns, digits⟩ := exists_values all
      rw [digits.length_eq, ← isSome_ofDigits?, Option.isSome_iff_exists] at size
      obtain ⟨c, read⟩ := size
      exact ⟨c, spells_of_digits digits read⟩

/-- **Reading follows the grammar.** -/
theorem parse?_eq_some_iff {s : String} :
    parse? s = some c ↔ ∃ core, Trimmed s.toList core ∧ Spells (core.map Char.toLower) c := by
  have case (core : List Char) : ∀ x ∈ core.map Char.toLower, x.isUpper = false := by
    intro x member
    obtain ⟨y, -, rfl⟩ := List.mem_map.1 member
    delta Char.toLower Char.isUpper
    grind
  rw [parse?, ofNormal?_eq_some_iff (case _)]
  constructor
  · exact fun spells => ⟨_, trimmed_trimBlanks _, spells⟩
  · rintro ⟨core, trimmed, spells⟩
    rwa [trimBlanks_eq_iff.2 trimmed]

/-! ### The written form -/

/-- The written form of a color: six digits in upper case if it is opaque, and eight otherwise. -/
inductive Written : Color → List Char → Prop where
  | solid {x x' y y' z z' : Char} {r g b : UInt8} (red : Byte upper x x' r)
      (green : Byte upper y y' g) (blue : Byte upper z z' b) :
      Written ⟨r, g, b, 255⟩ ['#', x, x', y, y', z, z']
  | translucent {w w' x x' y y' z z' : Char} {a r g b : UInt8} (partly : a ≠ 255)
      (alpha : Byte upper w w' a) (red : Byte upper x x' r) (green : Byte upper y y' g)
      (blue : Byte upper z z' b) : Written ⟨r, g, b, a⟩ ['#', w, w', x, x', y, y', z, z']

/-- Every byte is written with two digits in upper case. -/
theorem exists_byte (b : UInt8) : ∃ x y, Hex.byte b = [x, y] ∧ Byte upper x y b := by
  have written : ∀ k < 16, upper[k]? = some (Hex.digit k) := by decide
  have small := b.toNat_lt
  exact ⟨_, _, rfl, _, _, written _ (by omega), written _ (by omega), by omega⟩

/-- The text of a color is its written form. -/
theorem written_text (c : Color) : Written c c.text.toList := by
  obtain ⟨r, g, b, a⟩ := c
  obtain ⟨x, x', redText, red⟩ := exists_byte r
  obtain ⟨y, y', greenText, green⟩ := exists_byte g
  obtain ⟨z, z', blueText, blue⟩ := exists_byte b
  obtain ⟨w, w', alphaText, alpha⟩ := exists_byte a
  rw [text, String.toList_ofList, redText, greenText, blueText, alphaText]
  split
  · next full =>
    obtain rfl : a = 255 := full
    exact .solid red green blue
  · next partly => exact .translucent partly alpha red green blue

/-- The digits of a byte may be in lower case. -/
theorem byte_toLower {x y : Char} {b : UInt8} (byte : Byte upper x y b) :
    Byte lower x.toLower y.toLower b := by
  have same : ∀ k < 16, lower[k]? = upper[k]?.map Char.toLower := by decide
  obtain ⟨hi, lo, high, low, value⟩ := byte
  refine ⟨hi, lo, ?_, ?_, value⟩
  · rw [same hi (lt_of_digit rfl high), high]
    rfl
  · rw [same lo (lt_of_digit rfl low), low]
    rfl

/-- The written form of a color spells it, once it is in lower case. -/
theorem Written.spells (written : Written c cs) : Spells (cs.map Char.toLower) c := by
  cases written with
  | solid red green blue =>
      exact .rrggbb (byte_toLower red) (byte_toLower green) (byte_toLower blue)
  | translucent _ alpha red green blue =>
      exact .aarrggbb (byte_toLower alpha) (byte_toLower red) (byte_toLower green)
        (byte_toLower blue)

/-- There are no blanks around the written form. -/
theorem Written.trimmed (written : Written c cs) : Trimmed cs cs := by
  have visible : upper.all fun x => !isBlank x := by decide
  refine ⟨⟨[], [], by simp⟩, ?_, ?_⟩
  · have first : cs.head? = some '#' := by cases written <;> rfl
    rw [first]
    rintro _ ⟨⟩
    decide
  · have last : ∃ z ∈ upper, cs.getLast? = some z := by
      cases written with
      | solid red green blue => exact ⟨_, blue.mem.2, rfl⟩
      | translucent _ alpha red green blue => exact ⟨_, blue.mem.2, rfl⟩
    obtain ⟨z, digit, last⟩ := last
    rw [last]
    rintro _ ⟨⟩
    simpa using List.all_eq_true.1 visible z digit

/-- **Reading undoes writing.** -/
theorem parse?_text (c : Color) : parse? c.text = some c :=
  parse?_eq_some_iff.2 ⟨_, c.written_text.trimmed, c.written_text.spells⟩

/-- **Color strings follow their grammar and round-trip.** A string is read as a color if and only
if, without the blanks around it and with its letters in lower case, it is one of the names or `#`
with 3, 4, 6 or 8 hexadecimal digits; and then the color is the one that is named or that the digits
spell. The text of every color is its written form, and is read as that color. So reading a string
and writing the color gives a normal form: it is read as the same color, and it is its own normal
form. -/
theorem color_strings_round_trip :
    (∀ s : String, (parse? s).isSome ↔
      ∃ core, Trimmed s.toList core ∧ IsSpelling (core.map Char.toLower)) ∧
    (∀ (s : String) (c : Color), parse? s = some c ↔
      ∃ core, Trimmed s.toList core ∧ Spells (core.map Char.toLower) c) ∧
    (∀ c : Color, Written c c.text.toList ∧ parse? c.text = some c) ∧
    ∀ (s t : String), (parse? s).map text = some t →
      parse? t = parse? s ∧ (parse? t).map text = some t := by
  refine ⟨fun s => ?_, fun s c => parse?_eq_some_iff, fun c => ⟨c.written_text, c.parse?_text⟩, ?_⟩
  · simp only [Option.isSome_iff_exists, parse?_eq_some_iff, ← exists_spells_iff]
    constructor
    · rintro ⟨c, core, trimmed, spells⟩
      exact ⟨core, trimmed, c, spells⟩
    · rintro ⟨core, trimmed, c, spells⟩
      exact ⟨c, core, trimmed, spells⟩
  · intro s t shown
    obtain ⟨c, read, rfl⟩ := Option.map_eq_some_iff.1 shown
    exact ⟨c.parse?_text.trans read.symm, by rw [parse?_text]; rfl⟩

/-- A no-break space in front, a line break behind, and mixed case: what is written instead is read
as the same color. A sign is no digit. -/
theorem orange_has_a_normal_form :
    parse? "#FFA500" = parse? "\u00a0 OrAnGe\n" ∧
      (parse? "\u00a0 OrAnGe\n").map text = some "#FFA500" ∧ parse? "#+fffffff" = none := by
  obtain ⟨-, -, -, normal⟩ := color_strings_round_trip
  have shown : (parse? "\u00a0 OrAnGe\n").map text = some "#FFA500" := by decide
  exact ⟨(normal _ _ shown).1, shown, by decide⟩

end Color

end PenScript
