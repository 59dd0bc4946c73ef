import PenScript.Proofs.Account

/-!
# Reading what was written

Tokens are written one after the other with blanks between them, and a comment may stand wherever a
line ends. Reading such a text gives the tokens back: a blank ends every token, whatever it shares
its first characters with, and nothing inside of a string literal or a comment is read.

## Main definitions

* `Token.written` — the characters of a token;
* `Token.Writable` — the tokens that can be read back;
* `Margin` — what may stand in front of a token;
* `Piece` — a token with its margin.

## Main results

* `Segment.Reads.not_past`: a token ends before a blank or a comment, if not earlier;
* `Lexed.lexing_inverts_writing`: reading gives back what was written.
-/

namespace PenScript

open Segment

/-! ### Tokens and margins -/

/-- The fourteen words that are no names. -/
def reservedWords : List String :=
  ["true", "false", "and", "or", "Spawn", "Respawn", "Color", "Size", "DrawLine", "DrawCircle",
    "DrawRectangle", "Fill", "Filling", "GoTo"]

/-- The reserved words are those of the table. -/
theorem map_fst_reserved : reserved.map Prod.fst = reservedWords := by
  decide

/-- A name is a letter, then letters, digits and underscores, and it is not reserved. -/
structure IsName (name : String) : Prop where
  form : ∃ c rest, name.toList = c :: rest ∧ isNameStart c = true ∧
    ∀ d ∈ rest, isNameRest d = true
  free : name ∉ reservedWords

/-- A name is told by looking at its characters. -/
theorem isName_iff (name : String) : IsName name ↔ (name.toList.head?.any isNameStart &&
    name.toList.tail.all isNameRest && !reservedWords.contains name) = true := by
  simp only [Bool.and_eq_true, List.all_eq_true, Bool.not_eq_true', List.contains_eq_mem,
    decide_eq_false_iff_not]
  constructor
  · rintro ⟨⟨c, rest, spelled, start, more⟩, free⟩
    rw [spelled]
    exact ⟨⟨start, more⟩, free⟩
  · rintro ⟨⟨start, more⟩, free⟩
    cases spelled : name.toList with
    | nil => simp [spelled] at start
    | cons c rest =>
        rw [spelled] at start more
        exact ⟨⟨c, rest, spelled, start, more⟩, free⟩

instance (name : String) : Decidable (IsName name) :=
  decidable_of_iff _ (isName_iff name).symm

namespace Token

/-- The characters of a token. -/
def written : Token → List Char
  | endl => ['\n']
  | t => t.text.toList

/-- The tokens that can be read back: there are no negative numbers, there is no way to write a
quote inside of a string literal, and the end of the text is not written at all. -/
def Writable : Token → Prop
  | int n => 0 ≤ n.val
  | str s => '"' ∉ s.toList
  | ident name => IsName name
  | eof => False
  | _ => True

/-- A name can be written if it is one. -/
@[simp] theorem writable_ident {name : String} : (ident name).Writable ↔ IsName name := Iff.rfl

/-- A token that has one spelling is written so. -/
theorem written_of_spelling? {t : Token} {w : String} (h : t.spelling? = some w) :
    t.written = w.toList := by
  cases t <;> cases h <;> rfl

end Token

/-- What may stand in front of the token `next`, or at the end of a text: blanks, and behind them a
comment where the line ends. -/
inductive Margin (next : Option Token) : List Char → Prop
  | blanks {run : List Char} (all : ∀ b ∈ run, b = ' ' ∨ b = '\t' ∨ b = '\r' ∨ b = '\x0c') :
      Margin next run
  | comment {run body : List Char}
      (all : ∀ b ∈ run, b = ' ' ∨ b = '\t' ∨ b = '\r' ∨ b = '\x0c') (line : '\n' ∉ body)
      (ends : next = none ∨ next = some .endl) : Margin next (run ++ '#' :: body)

/-- A token that can be read back, behind a margin that may stand there. -/
structure Piece where
  margin : List Char
  token : Token
  writable : token.Writable
  fits : Margin (some token) margin

/-- The characters of the pieces one after the other, and of a margin at the end. -/
def Piece.writeAll (pieces : List Piece) (last : List Char) : List Char :=
  pieces.flatMap (fun p => p.margin ++ p.token.written) ++ last

/-! ### Tokens are read as they are written -/

namespace Segment

variable {w rest part : List Char} {c d : Char} {k : Kind} {t : Token} {ts : List Token}

/-- A number is what its digits say. -/
theorem decimal_toDigits (n : Nat) : decimal (Nat.toDigits 10 n) = n := by
  have value : Nat.ofDigitChars 10 (Nat.toDigits 10 n) 0 = n := Nat.ofDigitChars_ten_toDigits
  rw [Nat.ofDigitChars_eq_foldl] at value
  exact value

/-- A number that is not negative is read from its digits. -/
theorem reads_int {n : Integer} (h : 0 ≤ n.val) : Reads n.text.toList (.token (.int n)) := by
  obtain ⟨m, value⟩ := Int.eq_ofNat_of_zero_le h
  have digits : n.text.toList = Nat.toDigits 10 m := by
    rw [Integer.text, value]
    exact Nat.toList_repr
  have kind : ofDigits (Nat.toDigits 10 m) = .token (.int n) := by
    rw [ofDigits, decimal_toDigits, Integer.ofInt?_eq_some_iff.2 value]
  rw [digits, ← kind]
  refine .number Nat.toDigits_ne_nil fun d member => ?_
  exact Nat.isDigit_of_mem_toDigits (by decide) (by decide) member

/-- A string without quotes fits its pattern. -/
theorem reads_str {s : String} (h : '"' ∉ s.toList) :
    Reads (Token.str s).text.toList (.token (.str s)) := by
  have read : Reads _ (.token (.str (String.ofList s.toList))) := .string h
  rw [String.ofList_toList] at read
  simpa [Token.text] using read

/-- A name fits its pattern. -/
theorem reads_ident {name : String} (h : IsName name) :
    Reads name.toList (.token (.ident name)) := by
  obtain ⟨c, part, spelled, start, more⟩ := h.form
  have unlisted : reserved.lookup name = none := by
    rw [List.lookup_eq_none_iff]
    intro entry member
    have listed : entry.1 ∈ reservedWords := map_fst_reserved ▸ List.mem_map_of_mem member
    exact bne_iff_ne.2 fun same : name = entry.1 => h.free (same ▸ listed)
  have read := reads_name start more
  rw [← spelled, String.ofList_toList, ofName, unlisted] at read
  exact read

/-- **A token is read as it is written.** -/
theorem reads_written (h : t.Writable) : Reads t.written (.token t) := by
  cases t with
  | int n => exact reads_int h
  | str s => exact reads_str h
  | ident name => exact reads_ident h
  | eof => exact h.elim
  | _ =>
      rw [Token.written_of_spelling? rfl]
      exact .fixed rfl

/-! ### Where a token ends -/

/-- The characters that end every token: a blank, the start of a comment, a line break, or a closing
parenthesis. -/
def Stops (d : Char) : Prop :=
  isGap d = true ∨ d = '#' ∨ d = '\n' ∨ d = ')'

/-- What stops a token continues no name, no number and no sign. -/
theorem other_of_stops (h : Stops d) :
    isNameRest d = false ∧ d.isDigit = false ∧ ∀ c, double? c d = none := by
  rw [Stops, isGap_iff] at h
  obtain (rfl | rfl | rfl | rfl) | rfl | rfl | rfl := h
  all_goals
    refine ⟨by decide, by decide, fun c => ?_⟩
    unfold double?
    split <;> simp_all

/-- **A token does not go on** over a character that ends it. -/
theorem Reads.not_past (read : Reads w (.token t)) (stops : Stops d) (more : List Char) :
    ¬Reads (w ++ d :: more) k := by
  obtain ⟨c, part, rfl⟩ := read.exists_cons
  obtain ⟨name, digit, double⟩ := other_of_stops stops
  have inside : d ∈ part ++ d :: more := List.mem_append_right part List.mem_cons_self
  rw [List.cons_append]
  intro longer
  have here := (reads_cons_iff (Start.admits_of c)).1 read
  have there := (reads_cons_iff (Start.admits_of c)).1 longer
  generalize Start.of c = s at here there
  cases s with
  | name => exact absurd (there.1 d inside) (by simp [name])
  | number => exact absurd (there.1 d inside) (by simp [digit])
  | string =>
      -- the quote that ends the literal would be inside of the longer one
      obtain ⟨body, -, rfl, -⟩ := here
      obtain ⟨body', open_, split, -⟩ := there
      have within := congrArg List.dropLast split
      rw [List.dropLast_append_of_ne_nil (List.cons_ne_nil d more), List.dropLast_concat] at within
      exact open_ (within ▸ by simp)
  | blanks | comment => cases here.2
  | sign =>
      obtain ⟨t', sign, -⟩ := there
      obtain ⟨e, behind, whole, two, length⟩ | ⟨-, -, length⟩ := sign?_eq_some_iff.1 sign
      · obtain rfl : part = [] := by
          rw [List.length_append, List.length_cons] at length
          exact List.length_eq_zero_iff.1 (by omega)
        obtain ⟨rfl, -⟩ := List.cons.inj whole
        rw [double c] at two
        cases two
      · simp at length

/-! ### Texts of tokens -/

/-- The text is cut into gaps and the tokens `ts`. -/
def CutsTo (cs : List Char) (ts : List Token) : Prop :=
  ∀ here, (Lexed.ofSegments here (cut cs)).faults = [] ∧
    (Lexed.ofSegments here (cut cs)).lexemes.map (·.token) = ts

/-- Nothing is cut into nothing. -/
theorem CutsTo.nil : CutsTo [] [] := by
  intro here
  rw [cut]
  exact ⟨rfl, rfl⟩

/-- A longest gap is left out. -/
theorem CutsTo.gap (h : CutsTo rest ts) (longest : Longest (w ++ rest) w .gap) :
    CutsTo (w ++ rest) ts := by
  intro here
  rw [cut_of_longest longest]
  exact h (here.advance w)

/-- A longest token is cut off. -/
theorem CutsTo.token (h : CutsTo rest ts) (longest : Longest (w ++ rest) w (.token t)) :
    CutsTo (w ++ rest) (t :: ts) := by
  intro here
  rw [cut_of_longest longest]
  obtain ⟨faults, tokens⟩ := h (here.advance w)
  exact ⟨faults, congrArg (t :: ·) tokens⟩

/-- Blanks in front of something else are left out. -/
theorem CutsTo.blanks (h : CutsTo rest ts) (all : ∀ b ∈ w, isGap b = true)
    (clear : ∀ d ∈ rest.head?, isGap d = false) : CutsTo (w ++ rest) ts := by
  cases w with
  | nil => exact h
  | cons b w =>
      have read : Reads (b :: w) .gap := .blanks (List.cons_ne_nil b w) all
      refine h.gap (read.longest ?_)
      rintro d more k' ⟨behind, rfl⟩ longer
      obtain ⟨gap, -⟩ := List.forall_mem_cons.1 all
      have continues := (reads_cons_iff (s := .blanks) gap).1 longer
      have blank := continues.1 d (List.mem_append_right w List.mem_cons_self)
      rw [clear d rfl] at blank
      cases blank

/-- A comment is left out. -/
theorem CutsTo.comment (h : CutsTo rest ts) (line : '\n' ∉ w)
    (ends : ∀ d ∈ rest.head?, d = '\n') : CutsTo ('#' :: w ++ rest) ts := by
  have read : Reads ('#' :: w) .gap := .comment line
  refine h.gap (read.longest ?_)
  rintro d more k' ⟨behind, rfl⟩ longer
  have continues := (reads_cons_iff (s := .comment) rfl).1 longer
  rw [ends d rfl] at continues
  exact continues.1 (List.mem_append_right w List.mem_cons_self)

/-- A margin is cut into gaps, if what comes next is what it stands in front of. -/
theorem CutsTo.margin {next : Option Token} (h : CutsTo rest ts) (fits : Margin next w)
    (clear : ∀ d ∈ rest.head?, isGap d = false)
    (line : next = none ∨ next = some .endl → ∀ d ∈ rest.head?, d = '\n') :
    CutsTo (w ++ rest) ts := by
  cases fits with
  | blanks all => exact h.blanks (fun b inRun => isGap_iff.2 (all b inRun)) clear
  | comment all body ends =>
      rw [List.append_assoc]
      exact (h.comment body (line ends)).blanks (fun b inRun => isGap_iff.2 (all b inRun))
        (by simp [isGap])

/-- A written token starts with no blank. -/
theorem isGap_head_written (h : t.Writable) (d : Char)
    (first : d ∈ (t.written ++ rest).head?) : isGap d = false := by
  have read := reads_written h
  obtain ⟨c, part, whole⟩ := read.exists_cons
  rw [whole] at read first
  obtain rfl : c = d := Option.some.inj first
  refine Bool.eq_false_iff.2 fun gap => ?_
  cases ((reads_cons_iff (s := .blanks) gap).1 read).2

/-- **A written token is cut off** in front of a character that ends it. -/
theorem CutsTo.written (writable : t.Writable) (h : CutsTo rest ts)
    (stops : ∀ d ∈ rest.head?, Stops d) : CutsTo (t.written ++ rest) (t :: ts) := by
  have read := reads_written writable
  refine h.token (read.longest ?_)
  rintro d more k' ⟨behind, rfl⟩
  exact read.not_past (stops d rfl) more

/-- A piece is cut into its margin and its token. -/
theorem CutsTo.piece (p : Piece) (h : CutsTo rest ts) (stops : ∀ d ∈ rest.head?, Stops d) :
    CutsTo (p.margin ++ p.token.written ++ rest) (p.token :: ts) := by
  have cuts := h.written p.writable stops
  rw [List.append_assoc]
  refine cuts.margin p.fits (isGap_head_written p.writable) fun ends d first => ?_
  have lineEnd : p.token = .endl := Option.some.inj (ends.resolve_left nofun)
  rw [lineEnd] at first
  exact (Option.some.inj first).symm

end Segment

/-- A margin starts with a character that ends every token. -/
theorem Margin.stops {next : Option Token} {w : List Char} {d : Char} (fits : Margin next w)
    (first : d ∈ w.head?) : Stops d := by
  cases fits with
  | blanks all => exact .inl (isGap_iff.2 (all d (List.mem_of_head? first)))
  | @comment run body all line ends =>
      cases run with
      | nil => exact .inr (.inl (Option.some.inj first).symm)
      | cons b run => exact .inl (isGap_iff.2 (all d (List.mem_of_head? first)))

namespace Piece

variable {p : Piece} {pieces : List Piece} {last : List Char}

/-- The first piece is written in front of the others. -/
theorem writeAll_cons : writeAll (p :: pieces) last =
    p.margin ++ p.token.written ++ writeAll pieces last := by
  simp only [writeAll, List.flatMap_cons, List.append_assoc]

/-- A token ends in front of pieces that have margins. -/
theorem stops_writeAll (separated : ∀ p ∈ pieces, p.margin ≠ []) (fits : Margin none last) :
    ∀ d ∈ (writeAll pieces last).head?, Stops d := by
  cases pieces with
  | nil => exact fun d first => fits.stops first
  | cons p pieces =>
      intro d first
      obtain ⟨b, run, margin⟩ := List.exists_cons_of_ne_nil (separated p List.mem_cons_self)
      rw [writeAll_cons, margin] at first
      exact p.fits.stops (margin ▸ first)

/-- Pieces with a margin each are cut into their tokens. -/
theorem cutsTo_writeAll (separated : ∀ p ∈ pieces, p.margin ≠ []) (fits : Margin none last) :
    CutsTo (writeAll pieces last) (pieces.map (·.token)) := by
  induction pieces with
  | nil =>
      have cuts := CutsTo.nil.margin fits nofun fun _ => nofun
      rwa [List.append_nil] at cuts
  | cons p pieces ih =>
      obtain ⟨-, others⟩ := List.forall_mem_cons.1 separated
      rw [writeAll_cons]
      exact (ih others).piece p (stops_writeAll others fits)

end Piece

/-- **Reading gives back what was written**: tokens with blanks between them, and comments where
lines end. Only the first token needs no margin. -/
theorem Lexed.lexing_inverts_writing (pieces : List Piece) (last : List Char)
    (separated : ∀ p ∈ pieces.tail, p.margin ≠ []) (fits : Margin none last) :
    (lex (String.ofList (Piece.writeAll pieces last))).faults = [] ∧
      (lex (String.ofList (Piece.writeAll pieces last))).all.map (·.token) =
        pieces.map (·.token) ++ [.eof] := by
  have cuts : CutsTo (Piece.writeAll pieces last) (pieces.map (·.token)) := by
    cases pieces with
    | nil => exact Piece.cutsTo_writeAll separated fits
    | cons p pieces =>
        rw [Piece.writeAll_cons]
        exact (Piece.cutsTo_writeAll separated fits).piece p (Piece.stops_writeAll separated fits)
  rw [lex, String.toList_ofList]
  obtain ⟨faults, tokens⟩ := cuts {}
  refine ⟨faults, ?_⟩
  rw [all, List.map_append, tokens, List.map_singleton, eof_eq]

/-- Words that start alike, signs that start alike, a string literal that holds the start of a
comment and a line break, the largest number, and a comment that holds a quote. -/
theorem Lexed.neighbours_are_told_apart :
    (lex "Filler Fill ** *\t\"#\n\" 9223372036854775807 # the \" rest\n or").faults = [] ∧
      (lex "Filler Fill ** *\t\"#\n\" 9223372036854775807 # the \" rest\n or").all.map
          (·.token) =
        [.ident "Filler", .command .fill, .op .pow, .op .mul, .str "#\n",
          .int ⟨9223372036854775807, by decide, by decide⟩, .endl, .op .or, .eof] := by
  let pieces : List Piece :=
    [⟨[], .ident "Filler", (by decide : IsName "Filler"), .blanks nofun⟩,
      ⟨[' '], .command .fill, trivial, .blanks (by simp)⟩,
      ⟨[' '], .op .pow, trivial, .blanks (by simp)⟩,
      ⟨[' '], .op .mul, trivial, .blanks (by simp)⟩,
      ⟨['\t'], .str "#\n", by simp [Token.Writable], .blanks (by simp)⟩,
      ⟨[' '], .int ⟨9223372036854775807, by decide, by decide⟩, by simp [Token.Writable],
        .blanks (by simp)⟩,
      ⟨[' '] ++ '#' :: " the \" rest".toList, .endl, trivial,
        .comment (by simp) (by simp) (.inr rfl)⟩,
      ⟨[' '], .op .or, trivial, .blanks (by simp)⟩]
  have text : String.ofList (Piece.writeAll pieces []) =
      "Filler Fill ** *\t\"#\n\" 9223372036854775807 # the \" rest\n or" := by
    decide +kernel
  rw [← text]
  exact lexing_inverts_writing pieces [] (by simp [pieces]) (.blanks nofun)

end PenScript
