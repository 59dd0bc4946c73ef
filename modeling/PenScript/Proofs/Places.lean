import PenScript.Text

/-!
# Bytes and places

A text is read along two counters at once: bytes from its start, and lines and columns. Both grow
with every character, so that a part of the text is known by either of them.

## Main results

* `byteSize_append`, `byteSize_toList`: bytes are counted part by part, and for the whole text;
* `Location.ofOffset_byteSize`: the place at the byte offset where a part starts;
* `Location.lt_advanceAll`: places further on in a text are greater.
-/

namespace PenScript

/-! ### Bytes -/

variable {cs ds : List Char}

/-- The sizes of characters are summed up. -/
theorem foldl_utf8Size (n : Nat) (cs : List Char) :
    cs.foldl (fun n c => n + c.utf8Size) n = n + byteSize cs := by
  induction cs generalizing n with
  | nil => rfl
  | cons c cs ih =>
      rw [byteSize, List.foldl_cons, List.foldl_cons, ih, ih (0 + c.utf8Size)]
      omega

/-- Nothing has no size. -/
@[simp] theorem byteSize_nil : byteSize [] = 0 := rfl

/-- A text is as large as its first character and the others. -/
@[simp] theorem byteSize_cons (c : Char) (cs : List Char) :
    byteSize (c :: cs) = c.utf8Size + byteSize cs := by
  rw [byteSize, List.foldl_cons, foldl_utf8Size, Nat.zero_add]

/-- A text is as large as its parts. -/
@[simp] theorem byteSize_append (cs ds : List Char) :
    byteSize (cs ++ ds) = byteSize cs + byteSize ds := by
  rw [byteSize, List.foldl_append, foldl_utf8Size]
  rfl

/-- Every text that is not empty has a size. -/
theorem byteSize_pos (h : cs ≠ []) : 0 < byteSize cs := by
  obtain ⟨c, cs, rfl⟩ := List.exists_cons_of_ne_nil h
  rw [byteSize_cons]
  exact Nat.add_pos_left c.utf8Size_pos _

/-- The bytes of the characters of a text are the bytes of the text. -/
theorem byteSize_toList (text : String) : byteSize text.toList = text.utf8ByteSize := by
  have ofList (cs : List Char) : byteSize cs = (String.ofList cs).utf8ByteSize := by
    induction cs with
    | nil => rfl
    | cons c cs ih =>
        rw [byteSize_cons, String.ofList_cons, String.utf8ByteSize_append,
          String.utf8ByteSize_singleton, ih]
  rw [ofList, String.ofList_toList]

/-! ### Places -/

namespace Location

variable {a b : Location}

/-- The part of a text that has some size fits into it. -/
theorem fitting_byteSize (cs ds : List Char) : fitting (byteSize cs) (cs ++ ds) = cs := by
  induction cs with
  | nil =>
      cases ds with
      | nil => rfl
      | cons d ds =>
          have := d.utf8Size_pos
          rw [List.nil_append, fitting, byteSize_nil, if_neg (by omega)]
  | cons c cs ih =>
      rw [List.cons_append, fitting, byteSize_cons, if_pos (Nat.le_add_right _ _),
        Nat.add_sub_cancel_left, ih]

/-- **The place at a byte offset** is the one that is reached by reading all before it. -/
theorem ofOffset_byteSize {text : String} (split : text.toList = cs ++ ds) :
    ofOffset text (byteSize cs) = after cs := by
  rw [ofOffset, split, fitting_byteSize]

/-- Places come in order. -/
theorem lt_trans {c : Location} (h : a < b) (h' : b < c) : a < c := by
  have first : a.line < b.line ∨ a.line = b.line ∧ a.column < b.column := h
  have second : b.line < c.line ∨ b.line = c.line ∧ b.column < c.column := h'
  show a.line < c.line ∨ a.line = c.line ∧ a.column < c.column
  omega

/-- No place comes before itself. -/
theorem lt_irrefl (a : Location) : ¬a < a := by
  intro h
  have strict : a.line < a.line ∨ a.line = a.line ∧ a.column < a.column := h
  omega

/-- Behind a character is a later place. -/
theorem lt_advance (a : Location) (c : Char) : a < a.advance c := by
  rw [advance]
  split
  · exact Or.inl (Nat.lt_succ_self a.line)
  · exact Or.inr ⟨rfl, Nat.lt_succ_self a.column⟩

/-- **Places further on are greater.** -/
theorem lt_advanceAll (a : Location) (h : cs ≠ []) : a < a.advanceAll cs := by
  induction cs generalizing a with
  | nil => exact absurd rfl h
  | cons c cs ih =>
      rw [advanceAll_cons]
      by_cases last : cs = []
      · subst last
        exact a.lt_advance c
      · exact lt_trans (a.lt_advance c) (ih (a.advance c) last)

end Location

end PenScript
