import PenScript.Proofs.Recovery

/-!
# Reading goes on behind errors

A text is read in rounds: a round takes a statement with its line, or it ends at a lexeme that fits
nothing, which is reported and skipped with what follows it up to the next line or the next command.
It is not obvious that this comes to an end. A statement may give up at the lexeme it starts with,
and skipping may stop in the middle of a line. So the rounds are a relation here, and that it has
something to say about every text is a theorem.

Findings remember their place, which is the number of lexemes in front of them. Places only grow,
hence no error is reported twice, and the findings of a line are those at its lexemes or at the one
that ends it. A line with several errors has a command behind each of them but the last one.

## Main definitions

* `Finding` — a statement or a syntax error with its place;
* `Stream.Finds` — the rounds in which a text is read;
* `Line.Maximal` — a line of a text, between what stands before and behind it.

## Main results

* `Stream.exists_finds`: reading comes to an end;
* `Stream.Finds.increasing`: the places of the findings grow;
* `Stream.Finds.split_line`: what is found in a line;
* `Program.recovery_makes_progress`: every text is read to its end, and errors do not pile up.
-/

namespace PenScript

open PenScript.Parser

/-! ### Findings and their places -/

/-- What a round of reading comes to: a statement or a syntax error. Its place is the number of
lexemes in front of the one it is about: the first one of a statement, the offending one of an
error. -/
structure Finding where
  place : Nat
  what : Except SyntaxError Stmt

namespace Finding

/-- The statement that was found. -/
def stmt? (f : Finding) : Option Stmt :=
  f.what.toOption

/-- The syntax error that was found. -/
def fault? (f : Finding) : Option SyntaxError :=
  match f.what with
  | .ok _ => none
  | .error e => some e

/-- The finding is about this lexeme. -/
def IsAt (f : Finding) (l : Lexeme) : Prop :=
  match f.what with
  | .ok s => s.loc = l.loc
  | .error e => e.found = l

/-- What was read, without the places. -/
def parsed (found : List Finding) : Parsed :=
  ⟨found.filterMap stmt?, found.filterMap fault?⟩

/-- The findings of a line with some lexemes before it: those at its lexemes, or at the one that
ends it. -/
def onLine (before line : List Lexeme) (found : List Finding) : List Finding :=
  found.filter fun f => before.length ≤ f.place ∧ f.place ≤ before.length + line.length

end Finding

namespace Stream

/-- Reading in one go, round by round, when these lexemes are left of `total` ones. A line break
between statements is passed over; a statement is read, or it gives up and lexemes are skipped; and
at last the text is over. -/
inductive Finds (eof : Lexeme) (total : Nat) : List Lexeme → List Finding → Prop where
  | done : Finds eof total [] []
  | blank {l : Lexeme} {rest : List Lexeme} {found : List Finding} (ends : l.token = .endl)
      (next : Finds eof total rest found) : Finds eof total (l :: rest) found
  | stmt {l : Lexeme} {rest left : List Lexeme} {s : Stmt} {found : List Finding}
      (inside : l.token ≠ .endl) (read : stmt l.loc (l :: rest) = .ok s left)
      (next : Finds eof total left found) :
      Finds eof total (l :: rest) (⟨total - (l :: rest).length, .ok s⟩ :: found)
  | fault {l : Lexeme} {rest left : List Lexeme} {cause : SyntaxError.Cause} {found : List Finding}
      (inside : l.token ≠ .endl) (read : stmt l.loc (l :: rest) = .error cause left)
      (next : Finds eof total (synchronize left) found) :
      Finds eof total (l :: rest)
        (⟨total - left.length, .error ⟨left.headD eof, cause⟩⟩ :: found)

/-! ### What a round leaves -/

variable {eof l : Lexeme} {total : Nat} {ls line rest left tail : List Lexeme} {loc : Location}
  {found found' : List Finding} {s : Stmt} {cause : SyntaxError.Cause}

/-- A statement takes its line and the line break behind it, or it gives up in the line or at its
end. -/
theorem stmt_append (loc : Location) (unbroken : Line.Unbroken line)
    (ended : Line.ended tail = true) :
    (∃ s, stmt loc (line ++ tail) = .ok s tail.tail) ∨
      ∃ cause left, left <:+ line ∧ stmt loc (line ++ tail) = .error cause (left ++ tail) := by
  cases read : Stmt.parse loc line with
  | ok s left => exact Or.inl ⟨s, Stmt.stream_of_ok unbroken ended read⟩
  | error cause left =>
      refine Or.inr ⟨cause, left, Stmt.suffix_of_error read, ?_⟩
      exact Stmt.stream_of_error unbroken ended read

/-- A statement that is read leaves what stands behind the end of its line. -/
theorem left_of_ok (unbroken : Line.Unbroken line) (ended : Line.ended tail = true)
    (read : stmt loc (line ++ tail) = .ok s left) : left = tail.tail := by
  obtain ⟨s', takes⟩ | ⟨cause, left', -, gives_up⟩ := stmt_append loc unbroken ended
  · cases read.symm.trans takes
    rfl
  · cases read.symm.trans gives_up

/-- A statement that gives up does so within its line. -/
theorem left_of_error (unbroken : Line.Unbroken line) (ended : Line.ended tail = true)
    (read : stmt loc (line ++ tail) = .error cause left) :
    ∃ left', left' <:+ line ∧ left = left' ++ tail := by
  obtain ⟨s', takes⟩ | ⟨cause, left', suffix, gives_up⟩ := stmt_append loc unbroken ended
  · cases read.symm.trans takes
  · cases read.symm.trans gives_up
    exact ⟨left', suffix, rfl⟩

/-- A text that does not start with a line break starts with a line. -/
theorem exists_line (inside : l.token ≠ .endl) (rest : List Lexeme) :
    ∃ line tail, rest = line ++ tail ∧ Line.Unbroken (l :: line) ∧ Line.ended tail = true := by
  obtain ⟨line, tail, rfl, unbroken, ended⟩ := Line.exists_append_ended rest
  refine ⟨line, tail, rfl, ?_, ended⟩
  simp only [Line.Unbroken, List.forall_mem_cons]
  exact ⟨inside, unbroken⟩

/-- A statement takes a lexeme. -/
theorem suffix_of_ok (inside : l.token ≠ .endl) (read : stmt loc (l :: rest) = .ok s left) :
    left <:+ rest := by
  obtain ⟨line, tail, rfl, unbroken, ended⟩ := exists_line inside rest
  rw [left_of_ok unbroken ended read]
  exact (List.tail_suffix tail).trans (List.suffix_append line tail)

/-- A statement gives up at one of the lexemes that are left, or at the end. -/
theorem suffix_of_error (inside : l.token ≠ .endl)
    (read : stmt loc (l :: rest) = .error cause left) : left <:+ l :: rest := by
  obtain ⟨line, tail, rfl, unbroken, ended⟩ := exists_line inside rest
  obtain ⟨left', suffix, rfl⟩ := left_of_error unbroken ended read
  obtain ⟨taken, same⟩ := suffix
  exact ⟨taken, by rw [← List.append_assoc, same, List.cons_append]⟩

/-- A statement is where it starts. -/
theorem loc_of_ok (read : stmt loc ls = .ok s left) : s.loc = loc := by
  obtain ⟨kind, _, -, read⟩ := bind_eq_ok_iff.1 read
  obtain ⟨_, _, -, read⟩ := bind_eq_ok_iff.1 read
  obtain ⟨rfl, -⟩ := pure_eq_ok_iff.1 read
  rfl

/-- Less of what is left behind a lexeme is left. -/
theorem tail_suffix_of_suffix_cons (suffix : left <:+ l :: rest) : left.tail <:+ rest := by
  obtain rfl | later := List.suffix_cons_iff.1 suffix
  · exact List.suffix_refl rest
  · exact (List.tail_suffix left).trans later

/-- Behind an error there are fewer lexemes than where the statement started. -/
theorem skipped_suffix (inside : l.token ≠ .endl)
    (read : stmt loc (l :: rest) = .error cause left) : synchronize left <:+ rest :=
  (synchronize_suffix left).trans (tail_suffix_of_suffix_cons (suffix_of_error inside read))

/-! ### Reading comes to an end -/

/-- **Every text is read to its end**, because every round leaves fewer lexemes. -/
theorem exists_finds (eof : Lexeme) (total : Nat) (ls : List Lexeme) :
    ∃ found, Finds eof total ls found := by
  induction h : ls.length using Nat.strongRecOn generalizing ls with
  | ind n ih =>
      cases ls with
      | nil => exact ⟨[], .done⟩
      | cons l rest =>
          have fewer {next : List Lexeme} (suffix : next <:+ rest) :
              ∃ found, Finds eof total next found := by
            have := suffix.length_le
            exact ih next.length (by rw [List.length_cons] at h; omega) next rfl
          by_cases ends : l.token = .endl
          · obtain ⟨found, next⟩ := fewer (List.suffix_refl rest)
            exact ⟨found, .blank ends next⟩
          · cases read : stmt l.loc (l :: rest) with
            | ok s left =>
                obtain ⟨found, next⟩ := fewer (suffix_of_ok ends read)
                exact ⟨_, .stmt ends read next⟩
            | error cause left =>
                obtain ⟨found, next⟩ := fewer (skipped_suffix ends read)
                exact ⟨_, .fault ends read next⟩

namespace Finds

/-- There is one way to read a text. -/
theorem unique (finds : Finds eof total ls found) (others : Finds eof total ls found') :
    found' = found := by
  induction finds generalizing found' with
  | done =>
      cases others
      rfl
  | blank ends next ih =>
      cases others with
      | blank _ next' => exact ih next'
      | stmt inside _ _ => exact absurd ends inside
      | fault inside _ _ => exact absurd ends inside
  | stmt inside read next ih =>
      cases others with
      | blank ends _ => exact absurd ends inside
      | stmt _ read' next' =>
          cases read.symm.trans read'
          rw [ih next']
      | fault _ read' _ => cases read.symm.trans read'
  | fault inside read next ih =>
      cases others with
      | blank ends _ => exact absurd ends inside
      | stmt _ read' _ => cases read.symm.trans read'
      | fault _ read' next' =>
          cases read.symm.trans read'
          rw [ih next']

/-- The rounds read what is read line by line. -/
theorem parsed_eq (finds : Finds eof total ls found) :
    Finding.parsed found = Program.parse eof ls := by
  induction finds with
  | done => rfl
  | @blank l rest found ends next ih =>
      have empty : Line.Unbroken [] := by simp [Line.Unbroken]
      rw [ih]
      exact (Program.parse_cons empty ends).symm
  | @stmt l rest left s found inside read next ih =>
      have fewer := (suffix_of_ok inside read).length_le
      rw [← statements_eq (Nat.le_refl _), List.length_cons, statements, if_neg inside]
      simp only [read, statements_eq fewer, ← ih]
      rfl
  | @fault l rest left cause found inside read next ih =>
      have fewer := (skipped_suffix inside read).length_le
      rw [← statements_eq (Nat.le_refl _), List.length_cons, statements, if_neg inside]
      simp only [read, statements_eq fewer, ← ih]
      rfl

/-- There is at most one round for each lexeme. -/
theorem length_le (finds : Finds eof total ls found) : found.length ≤ ls.length := by
  induction finds with
  | done => exact Nat.le_refl 0
  | blank ends next ih => exact Nat.le_succ_of_le ih
  | stmt inside read next ih =>
      exact Nat.succ_le_succ (Nat.le_trans ih (suffix_of_ok inside read).length_le)
  | fault inside read next ih =>
      exact Nat.succ_le_succ (Nat.le_trans ih (skipped_suffix inside read).length_le)

/-! ### The places of the findings -/

/-- Every finding is about a lexeme that was left when it was found, or about the end. -/
theorem exists_suffix (finds : Finds eof total ls found) :
    ∀ f ∈ found, ∃ rest, rest <:+ ls ∧ f.place = total - rest.length ∧ f.IsAt (rest.headD eof) := by
  induction finds with
  | done => simp
  | blank ends next ih =>
      intro f member
      obtain ⟨rest, suffix, at_rest⟩ := ih f member
      exact ⟨rest, suffix.trans (List.suffix_cons _ _), at_rest⟩
  | stmt inside read next ih =>
      refine List.forall_mem_cons.2 ⟨⟨_, List.suffix_refl _, rfl, loc_of_ok read⟩, ?_⟩
      intro f member
      obtain ⟨rest, suffix, at_rest⟩ := ih f member
      have fewer := suffix.trans (suffix_of_ok inside read)
      exact ⟨rest, fewer.trans (List.suffix_cons _ _), at_rest⟩
  | fault inside read next ih =>
      refine List.forall_mem_cons.2 ⟨⟨_, suffix_of_error inside read, rfl, rfl⟩, ?_⟩
      intro f member
      obtain ⟨rest, suffix, at_rest⟩ := ih f member
      have fewer := suffix.trans (skipped_suffix inside read)
      exact ⟨rest, fewer.trans (List.suffix_cons _ _), at_rest⟩

/-- Nothing is found at lexemes that were taken before. -/
theorem le_place (finds : Finds eof total ls found) : ∀ f ∈ found, total - ls.length ≤ f.place := by
  intro f member
  obtain ⟨rest, suffix, place, -⟩ := finds.exists_suffix f member
  have := suffix.length_le
  omega

/-- **Places grow** from round to round. -/
theorem increasing (finds : Finds eof total ls found) (enough : ls.length ≤ total) :
    found.Pairwise fun f g => f.place < g.place := by
  induction finds with
  | done => exact .nil
  | blank ends next ih => exact ih (by rw [List.length_cons] at enough; omega)
  | @stmt l rest left s found inside read next ih =>
      have fewer := (suffix_of_ok inside read).length_le
      rw [List.length_cons] at enough
      refine .cons (fun g member => ?_) (ih (by omega))
      have later := next.le_place g member
      simp only [List.length_cons]
      omega
  | @fault l rest left cause found inside read next ih =>
      have fewer := (suffix_of_error inside read).length_le
      have skipped := (synchronize_suffix left).length_le
      rw [List.length_cons] at enough fewer
      rw [List.length_tail] at skipped
      refine .cons (fun g member => ?_) (ih (by omega))
      have later := next.le_place g member
      -- at the end of the text nothing is left, and so nothing is found behind the error
      have some := List.length_pos_of_mem member
      have few := next.length_le
      simp only
      omega

end Finds

end Stream

/-! ### What is found in a line -/

/-- The number of commands in a line behind its first lexeme. -/
def Line.laterCommands (line : List Lexeme) : Nat :=
  line.tail.countP fun l => l.token.isCommand

/-- Reading goes on in a line at a command. -/
theorem Line.command_of_resume {c : Lexeme} {left more : List Lexeme}
    (goesOn : resume left = c :: more) : c.token.isCommand = true := by
  have stops := List.head?_dropWhile_not (fun l : Lexeme => !l.token.isCommand) left.tail
  rw [← resume, goesOn] at stops
  simpa using stops

/-- Every error with something behind it uses up a command. -/
theorem Line.laterCommands_resume {l : Lexeme} {line left : List Lexeme}
    (suffix : left <:+ l :: line) (goesOn : resume left ≠ []) :
    laterCommands (resume left) + 1 ≤ laterCommands (l :: line) := by
  have behind := (resume_suffix left).trans (Stream.tail_suffix_of_suffix_cons suffix)
  cases ahead : resume left with
  | nil => exact absurd ahead goesOn
  | cons c more =>
      rw [ahead] at behind
      calc laterCommands (c :: more) + 1
          = (c :: more).countP fun l => l.token.isCommand :=
            (List.countP_cons_of_pos (p := fun l : Lexeme => l.token.isCommand)
              (command_of_resume ahead)).symm
        _ ≤ laterCommands (l :: line) := behind.countP_le

namespace Finding

/-- What can be said of the findings of a line in front of some lexemes. They are at the lexemes of
the line, or at the one that ends it. There is at most one statement; something is found if there is
something; and every error but one has a command behind it. -/
structure FromLine (total : Nat) (line tail : List Lexeme) (part : List Finding) : Prop where
  places : ∀ f ∈ part, f.place ≤ total - tail.length
  stmts : (parsed part).stmts.length ≤ 1
  nonempty : line ≠ [] → part ≠ []
  faults : (parsed part).faults.length ≤ 1 + Line.laterCommands line

namespace FromLine

variable {l : Lexeme} {total : Nat} {line left tail : List Lexeme} {part : List Finding}

/-- An empty line has no findings. -/
theorem nil : FromLine total [] tail [] where
  places := by simp
  stmts := Nat.zero_le 1
  nonempty := fun some => absurd rfl some
  faults := Nat.zero_le _

/-- A line may have one finding. -/
theorem single {f : Finding} (place : f.place ≤ total - tail.length) :
    FromLine total line tail [f] where
  places := by simpa using place
  stmts := List.length_filterMap_le _ _
  nonempty := by simp
  faults := Nat.le_trans (List.length_filterMap_le _ _) (Nat.le_add_right 1 _)

/-- An error, and what is found from the next command on. -/
theorem cons {place : Nat} {e : SyntaxError} (suffix : left <:+ l :: line)
    (goesOn : Line.resume left ≠ []) (inLine : place ≤ total - tail.length)
    (others : FromLine total (Line.resume left) tail part) :
    FromLine total (l :: line) tail (⟨place, .error e⟩ :: part) where
  places := List.forall_mem_cons.2 ⟨inLine, others.places⟩
  stmts := others.stmts
  nonempty := by simp
  faults := by
    have commands := Line.laterCommands_resume suffix goesOn
    have few := others.faults
    simp only [parsed, List.filterMap_cons, fault?, List.length_cons] at few ⊢
    omega

end FromLine

end Finding

namespace Stream.Finds

variable {eof l : Lexeme} {total : Nat} {line tail : List Lexeme} {found : List Finding}

/-- **The findings of a line** come first, and then what is found behind it. -/
theorem split_line (finds : Finds eof total (line ++ tail) found) (unbroken : Line.Unbroken line)
    (ended : Line.ended tail = true) :
    ∃ part later, found = part ++ later ∧ Finds eof total tail.tail later ∧
      Finding.FromLine total line tail part := by
  generalize whole : line ++ tail = ls at finds
  induction finds generalizing line with
  | done =>
      obtain ⟨rfl, rfl⟩ := List.append_eq_nil_iff.1 whole
      exact ⟨[], [], rfl, .done, .nil⟩
  | @blank l rest found ends next ih =>
      cases line with
      | nil =>
          cases whole
          exact ⟨[], found, rfl, next, .nil⟩
      | cons first line =>
          cases whole
          exact absurd ends (unbroken l List.mem_cons_self)
  | @stmt l rest left s found inside read next ih =>
      cases line with
      | nil =>
          cases whole
          exact absurd (Line.ended_iff.1 ended l rfl) inside
      | cons first line =>
          rw [List.cons_append] at whole
          cases whole
          rw [left_of_ok unbroken ended read] at next
          refine ⟨[_], found, rfl, next, .single ?_⟩
          simp only [List.length_cons, List.length_append]
          omega
  | @fault l rest left cause found inside read next ih =>
      cases line with
      | nil =>
          cases whole
          exact absurd (Line.ended_iff.1 ended l rfl) inside
      | cons first line =>
          cases whole
          obtain ⟨left', suffix, rfl⟩ := left_of_error unbroken ended read
          have atMost : total - (left' ++ tail).length ≤ total - tail.length := by
            rw [List.length_append]
            omega
          have goesOn := synchronize_append (unbroken.of_suffix suffix) ended
          split at goesOn
          · rw [goesOn] at next
            exact ⟨[_], found, rfl, next, .single atMost⟩
          · next more =>
            have inLine := (Line.resume_suffix left').trans (List.tail_suffix left')
            obtain ⟨part, later, rfl, behind, fromLine⟩ :=
              ih (unbroken.of_suffix (inLine.trans suffix)) goesOn.symm
            exact ⟨_ :: part, later, rfl, behind, .cons suffix more atMost fromLine⟩

/-- What is found in some lines comes before what is found behind them. -/
theorem split_lines {before rest : List Lexeme} (finds : Finds eof total (before ++ rest) found)
    (enough : (before ++ rest).length ≤ total)
    (ends : ∀ l ∈ before.getLast?, l.token = .endl) :
    ∃ early later, found = early ++ later ∧ Finds eof total rest later ∧
      ∀ f ∈ early, f.place < total - rest.length := by
  induction h : before.length using Nat.strongRecOn generalizing before found with
  | ind n ih =>
      obtain ⟨line, tail, rfl, unbroken, ended⟩ := Line.exists_append_ended before
      cases tail with
      | nil =>
          cases last : line.getLast? with
          | none =>
              obtain rfl := List.getLast?_eq_none_iff.1 last
              exact ⟨[], found, rfl, finds, by simp⟩
          | some l =>
              rw [List.append_nil] at ends
              exact absurd (ends l last) (unbroken l (List.mem_of_getLast? last))
      | cons stop tail =>
          rw [List.append_assoc, List.cons_append] at finds enough
          have stops : Line.ended (stop :: (tail ++ rest)) = true := ended
          obtain ⟨part, others, rfl, next, fromLine⟩ := finds.split_line unbroken stops
          rw [List.length_append, List.length_cons] at enough h
          have last : ∀ l ∈ tail.getLast?, l.token = .endl := by
            intro l member
            refine ends l ?_
            rw [List.getLast?_append, List.getLast?_cons, member]
            rfl
          obtain ⟨early, later, rfl, behind, places⟩ :=
            ih tail.length (by omega) next (by omega) last rfl
          refine ⟨part ++ early, later, (List.append_assoc ..).symm, behind, ?_⟩
          intro f member
          obtain first | second := List.mem_append.1 member
          · have place := fromLine.places f first
            simp only [List.length_cons, List.length_append] at place enough
            omega
          · exact places f second

end Stream.Finds

/-- A line of a text, between what stands before and behind it: there is no line break in it, and it
goes on up to one, or up to an end of the text, on both sides. -/
structure Line.Maximal (before line tail : List Lexeme) : Prop where
  unbroken : Unbroken line
  starts : ∀ l ∈ before.getLast?, l.token = .endl
  ends : ended tail = true

namespace Stream.Finds

variable {eof : Lexeme} {before line tail : List Lexeme} {found : List Finding}

/-- The findings at the lexemes of a line, and at the one that ends it, are what is found in it. -/
theorem onLine_fromLine
    (finds : Finds eof (before ++ line ++ tail).length (before ++ line ++ tail) found)
    (maximal : Line.Maximal before line tail) :
    Finding.FromLine (before ++ line ++ tail).length line tail
      (Finding.onLine before line found) := by
  have total : (before ++ line ++ tail).length = before.length + line.length + tail.length := by
    rw [List.length_append, List.length_append]
  generalize (before ++ line ++ tail).length = n at finds total ⊢
  rw [List.append_assoc] at finds
  have enough : (before ++ (line ++ tail)).length ≤ n := by
    rw [List.length_append, List.length_append]
    omega
  obtain ⟨early, found, rfl, finds, before_line⟩ := finds.split_lines enough maximal.starts
  obtain ⟨part, later, rfl, behind, fromLine⟩ := finds.split_line maximal.unbroken maximal.ends
  have none_early : Finding.onLine before line early = [] := by
    refine List.filter_eq_nil_iff.2 fun f member => ?_
    have := before_line f member
    rw [List.length_append] at this
    simp only [decide_eq_true_eq]
    omega
  have all_part : Finding.onLine before line part = part := by
    refine List.filter_eq_self.2 fun f member => ?_
    have low := finds.le_place f (List.mem_append_left later member)
    have high := fromLine.places f member
    rw [List.length_append] at low
    simp only [decide_eq_true_eq]
    omega
  have none_later : Finding.onLine before line later = [] := by
    refine List.filter_eq_nil_iff.2 fun f member => ?_
    have low := behind.le_place f member
    have few := behind.length_le
    have some := List.length_pos_of_mem member
    rw [List.length_tail] at low few
    simp only [decide_eq_true_eq]
    omega
  rw [Finding.onLine] at none_early all_part none_later ⊢
  rwa [List.filter_append, List.filter_append, none_early, all_part, none_later, List.nil_append,
    List.append_nil]

end Stream.Finds

namespace Program

/-- **Reading goes on behind errors and comes to an end.** The rounds in which a text is read have
one outcome, which is what is read from the text; there are at most as many of them as lexemes, and
each finding is about the lexeme at its place, or about the end of the text. From round to round the
places grow, so syntax errors are at ever later lexemes. In a line that is not empty something is
found; there is at most one statement in it, and there are no more syntax errors than one and the
commands behind its first lexeme. -/
theorem recovery_makes_progress (eof : Lexeme) (lexemes : List Lexeme) :
    ∃ found : List Finding,
      (∀ found', Stream.Finds eof lexemes.length lexemes found' ↔ found' = found) ∧
      Finding.parsed found = Program.parse eof lexemes ∧
      found.length ≤ lexemes.length ∧
      (∀ f ∈ found, ∃ l, (lexemes ++ [eof])[f.place]? = some l ∧ f.IsAt l) ∧
      (found.Pairwise fun f g => f.place < g.place) ∧
      ∀ before line tail, lexemes = before ++ line ++ tail → Line.Maximal before line tail →
        line ≠ [] →
          (Finding.parsed (Finding.onLine before line found)).stmts.length ≤ 1 ∧
          Finding.onLine before line found ≠ [] ∧
          (Finding.parsed (Finding.onLine before line found)).faults.length ≤
            1 + Line.laterCommands line := by
  obtain ⟨found, finds⟩ := Stream.exists_finds eof lexemes.length lexemes
  refine ⟨found, ?_, finds.parsed_eq, finds.length_le, ?_, finds.increasing (Nat.le_refl _), ?_⟩
  · intro found'
    constructor
    · exact finds.unique
    · rintro rfl
      exact finds
  · intro f member
    obtain ⟨rest, ⟨taken, rfl⟩, place, isAt⟩ := finds.exists_suffix f member
    refine ⟨rest.headD eof, ?_, isAt⟩
    rw [place, List.length_append, Nat.add_sub_cancel, List.append_assoc,
      List.getElem?_append_right (Nat.le_refl _), Nat.sub_self]
    cases rest <;> rfl
  · rintro before line tail rfl maximal some
    have fromLine := finds.onLine_fromLine maximal
    exact ⟨fromLine.stmts, fromLine.nonempty some, fromLine.faults⟩

/-- The lexemes of `1 1 Fill 1 Size`: behind each error there is a command with an error. -/
def stumbling : List Lexeme :=
  [⟨.int .one, "1", 6, 7, ⟨2, 1⟩⟩, ⟨.int .one, "1", 8, 9, ⟨2, 3⟩⟩,
    ⟨.command .fill, "Fill", 10, 14, ⟨2, 5⟩⟩, ⟨.int .one, "1", 15, 16, ⟨2, 10⟩⟩,
    ⟨.command .size, "Size", 17, 21, ⟨2, 12⟩⟩]

/-- A line with as many errors as there can be, below another one with an error at its line
break. -/
theorem stumbling_reaches_the_bound :
    ∃ found, (∀ found', Stream.Finds textEnd 8 (unclosedSize ++ [lineFeed] ++ stumbling) found' ↔
        found' = found) ∧
      found.map Finding.place = [2, 4, 6, 8] ∧
      (Finding.parsed (Finding.onLine (unclosedSize ++ [lineFeed]) stumbling found)).faults.length ≤
        1 + Line.laterCommands stumbling ∧
      (Finding.parsed (Finding.onLine (unclosedSize ++ [lineFeed]) stumbling found)).faults.length =
        3 ∧
      Line.laterCommands stumbling = 2 := by
  obtain ⟨found, finds, -, -, -, -, lines⟩ :=
    recovery_makes_progress textEnd (unclosedSize ++ [lineFeed] ++ stumbling)
  have maximal : Line.Maximal (unclosedSize ++ [lineFeed]) stumbling [] :=
    ⟨by unfold Line.Unbroken stumbling; decide, by simp [lineFeed], rfl⟩
  obtain ⟨-, -, few⟩ := lines _ _ [] (List.append_nil _).symm maximal (by simp [stumbling])
  have rounds : Stream.Finds textEnd 8 (unclosedSize ++ [lineFeed] ++ stumbling) _ :=
    .fault (by decide) rfl (.fault (by decide) rfl
      (.fault (by decide) rfl (.fault (by decide) rfl .done)))
  obtain rfl := (finds _).1 rounds
  exact ⟨_, finds, rfl, few, rfl, rfl⟩

end Program

end PenScript
