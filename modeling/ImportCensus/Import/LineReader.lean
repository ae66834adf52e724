import ImportCensus.Failure
import ImportCensus.Import.SourceLine
import ImportCensus.Tree.Resolve

/-!
Reading a file one line at a time. A reader takes up a line of the file only when it is asked for the
next one, and then it reads as far as the next line feed and no further. Where the reading fails in
the middle of a line, what was read of that line is lost. A reader that has come to the end or has
failed is finished.
-/

namespace ImportCensus

namespace Lines

variable {α : Type} [DecidableEq α]

def takeThrough (feed : α) (whole : List α) : List α × List α :=
  match whole.dropWhile fun x => decide (x ≠ feed) with
  | [] => (whole, [])
  | x :: behind => (whole.takeWhile (fun x => decide (x ≠ feed)) ++ [x], behind)

def withoutEnding (feed ret : α) (line : List α) : List α :=
  if line.getLast? = some feed then dropOne ret line.dropLast else line

section Feed

variable (feed ret : α)

theorem ne_feed_of_notMem (whole : List α) (h : feed ∉ whole) :
    ∀ x ∈ whole, decide (x ≠ feed) = true := by
  intro x hx
  rw [decide_eq_true_iff]
  rintro rfl
  exact h hx

theorem takeThrough_of_notMem (whole : List α) (h : feed ∉ whole) :
    takeThrough feed whole = (whole, []) := by
  have hnone : whole.dropWhile (fun x => decide (x ≠ feed)) = [] := by
    have hall := @List.dropWhile_append_of_pos _ _ whole [] (ne_feed_of_notMem feed whole h)
    rwa [List.append_nil] at hall
  unfold takeThrough
  rw [hnone]

theorem takeThrough_of_line (front back : List α) (h : feed ∉ front) :
    takeThrough feed (front ++ feed :: back) = (front ++ [feed], back) := by
  have hfront := ne_feed_of_notMem feed front h
  unfold takeThrough
  rw [List.takeWhile_append_of_pos hfront, List.dropWhile_append_of_pos hfront]
  simp

theorem takeThrough_append (whole : List α) :
    (takeThrough feed whole).1 ++ (takeThrough feed whole).2 = whole := by
  by_cases h : feed ∈ whole
  · obtain ⟨front, back, rfl, hfront⟩ := List.eq_append_cons_of_mem h
    rw [takeThrough_of_line feed front back hfront]
    simp
  · rw [takeThrough_of_notMem feed whole h]
    simp

theorem withoutEnding_of_notMem (line : List α) (h : feed ∉ line) :
    withoutEnding feed ret line = line := by
  unfold withoutEnding
  rw [if_neg]
  intro hlast
  exact h (List.mem_of_getLast? hlast)

theorem withoutEnding_of_line (front : List α) :
    withoutEnding feed ret (front ++ [feed]) = dropOne ret front := by
  simp [withoutEnding]

end Feed

end Lines

/-- A file that is being read by lines: its path, the octets that are still to come, what makes the
reading fail behind them if anything does, the number of lines given so far, and whether the reading
is finished. -/
structure LineReader where
  path : Path
  ahead : Bytes
  fault : Option Cause
  number : Nat
  finished : Bool
deriving DecidableEq

namespace LineReader

def start (path : Path) : Tree.Opened → LineReader
  | .content data => ⟨path, data, none, 0, false⟩
  | .directory => ⟨path, [], some .isDirectory, 0, false⟩

@[simp]
theorem path_start (path : Path) (opened : Tree.Opened) : (start path opened).path = path := by
  cases opened <;> rfl

/-- Reads as far as the next line feed: the octets that were read, and those still to come. It fails
if there is no line feed in front of a fault. -/
def readThrough (r : LineReader) : Except Cause (Bytes × Bytes) :=
  match r.fault with
  | some cause => if 0x0A ∈ r.ahead then .ok (Lines.takeThrough 0x0A r.ahead) else .error cause
  | none => .ok (Lines.takeThrough 0x0A r.ahead)

def next (r : LineReader) : Option (Except Failure SourceLine) × LineReader :=
  if r.finished then (none, r)
  else
    match r.readThrough with
    | .error cause => (some (.error (.read r.path cause)), { r with finished := true })
    | .ok ([], _) => (none, { r with finished := true })
    | .ok (data, ahead) =>
      let line := SourceLine.ofBytes (r.number + 1) (Lines.withoutEnding 0x0A 0x0D data)
      (some (.ok line), { r with ahead := ahead, number := r.number + 1 })

def after (r : LineReader) : Nat → LineReader
  | 0 => r
  | calls + 1 => r.next.2.after calls

def answer (r : LineReader) (calls : Nat) : Option (Except Failure SourceLine) :=
  (r.after calls).next.1

theorem takeThrough_of_readThrough {r : LineReader} {read : Bytes × Bytes}
    (h : r.readThrough = .ok read) : Lines.takeThrough 0x0A r.ahead = read := by
  unfold readThrough at h
  split at h
  · split at h
    · exact Except.ok.inj h
    · simp at h
  · exact Except.ok.inj h

def left (r : LineReader) : Nat := if r.finished then 0 else r.ahead.length + 1

theorem left_lt_of_next {r r' : LineReader} {read : Except Failure SourceLine}
    (h : r.next = (some read, r')) : r'.left < r.left := by
  unfold next at h
  split at h
  · simp at h
  · rename_i hgoing
    have hleft : r.left = r.ahead.length + 1 := by simp [left, hgoing]
    split at h
    · obtain ⟨-, rfl⟩ := Prod.mk.inj h
      rw [hleft]
      exact Nat.succ_pos _
    · simp at h
    · rename_i data ahead hne hread
      obtain ⟨-, rfl⟩ := Prod.mk.inj h
      have hlength := congrArg List.length (Lines.takeThrough_append 0x0A r.ahead)
      rw [takeThrough_of_readThrough hread, List.length_append] at hlength
      have hdata : 0 < data.length := List.length_pos_iff.2 hne
      have hleft' : left { r with ahead := ahead, number := r.number + 1 } = ahead.length + 1 := by
        simp [left, hgoing]
      rw [hleft, hleft']
      dsimp only at hlength
      omega

def reads (r : LineReader) : List (Except Failure SourceLine) :=
  match _h : r.next with
  | (none, _) => []
  | (some read, r') => read :: reads r'
termination_by r.left
decreasing_by exact left_lt_of_next _h

variable (path : Path) (fault : Option Cause) (number : Nat)

theorem next_of_line (front back : Bytes) (h : 0x0A ∉ front) :
    next ⟨path, front ++ 0x0A :: back, fault, number, false⟩ =
      (some (.ok (SourceLine.ofBytes (number + 1) (Lines.dropOne 0x0D front))),
        ⟨path, back, fault, number + 1, false⟩) := by
  have hread : readThrough ⟨path, front ++ 0x0A :: back, fault, number, false⟩ =
      .ok (front ++ [0x0A], back) := by
    unfold readThrough
    dsimp only
    rw [Lines.takeThrough_of_line 0x0A front back h]
    cases fault <;> simp
  have hline := Lines.withoutEnding_of_line 0x0A 0x0D front
  unfold next
  rw [hread]
  cases front with
  | nil =>
    rw [← hline]
    rfl
  | cons b front =>
    rw [← hline]
    rfl

theorem next_of_last (rest : Bytes) (hne : rest ≠ []) (h : 0x0A ∉ rest) :
    next ⟨path, rest, none, number, false⟩ =
      (some (.ok (SourceLine.ofBytes (number + 1) rest)), ⟨path, [], none, number + 1, false⟩) := by
  have hread : readThrough ⟨path, rest, none, number, false⟩ = .ok (rest, []) := by
    unfold readThrough
    dsimp only
    rw [Lines.takeThrough_of_notMem 0x0A rest h]
  have hline := Lines.withoutEnding_of_notMem 0x0A 0x0D rest h
  unfold next
  rw [hread]
  obtain ⟨b, rest, rfl⟩ := List.exists_cons_of_ne_nil hne
  dsimp only
  rw [hline]
  rfl

theorem next_of_end :
    next ⟨path, [], none, number, false⟩ = (none, ⟨path, [], none, number, true⟩) := rfl

theorem next_of_fault (cause : Cause) (rest : Bytes) (h : 0x0A ∉ rest) :
    next ⟨path, rest, some cause, number, false⟩ =
      (some (.error (.read path cause)), ⟨path, rest, some cause, number, true⟩) := by
  have hread : readThrough ⟨path, rest, some cause, number, false⟩ = .error cause := by
    simp [readThrough, h]
  unfold next
  rw [hread]
  rfl

theorem reads_of_line (front back : Bytes) (h : 0x0A ∉ front) :
    reads ⟨path, front ++ 0x0A :: back, fault, number, false⟩ =
      .ok (SourceLine.ofBytes (number + 1) (Lines.dropOne 0x0D front)) ::
        reads ⟨path, back, fault, number + 1, false⟩ := by
  rw [reads, next_of_line path fault number front back h]

theorem reads_of_end : reads ⟨path, [], none, number, false⟩ = [] := by
  rw [reads, next_of_end]

theorem reads_of_last (rest : Bytes) (hne : rest ≠ []) (h : 0x0A ∉ rest) :
    reads ⟨path, rest, none, number, false⟩ = [.ok (SourceLine.ofBytes (number + 1) rest)] := by
  rw [reads, next_of_last path number rest hne h]
  dsimp only
  rw [reads_of_end]

theorem reads_of_finished (r : LineReader) (h : r.finished = true) : r.reads = [] := by
  have hnext : r.next = (none, r) := by
    unfold next
    rw [if_pos h]
  rw [reads, hnext]

/-- A file that can be read to its end gives its lines. -/
theorem reads_of_sound (data : Bytes) :
    reads ⟨path, data, none, number, false⟩ =
      (SourceLine.numbered (number + 1) (Lines.split 0x0A 0x0D data)).map .ok := by
  induction data using Lines.induction_by_lines (0x0A : UInt8) generalizing number with
  | line front back h ih =>
    rw [reads_of_line path none number front back h, ih, Lines.split_of_line _ _ _ _ h]
    rfl
  | last whole h =>
    by_cases hne : whole = []
    · rw [hne, reads_of_end, Lines.split_nil]
      rfl
    · rw [reads_of_last path number whole hne h, Lines.split_of_notMem _ _ _ hne h]
      rfl

/-- A file that cannot be read to its end gives the lines in front of the fault, but for the one that
the fault is in, and then the fault. -/
theorem reads_of_fault (cause : Cause) (front rest : Bytes)
    (hfront : front = [] ∨ front.getLast? = some 0x0A) (h : 0x0A ∉ rest) :
    reads ⟨path, front ++ rest, some cause, number, false⟩ =
      (SourceLine.numbered (number + 1) (Lines.split 0x0A 0x0D front)).map .ok ++
        [.error (.read path cause)] := by
  induction front using Lines.induction_by_lines (0x0A : UInt8) generalizing number with
  | line line back hline ih =>
    have hback : back = [] ∨ back.getLast? = some 0x0A := by
      by_cases hnil : back = []
      · exact Or.inl hnil
      · right
        rcases hfront with hempty | hlast
        · simp at hempty
        · obtain ⟨b, behind, rfl⟩ := List.exists_cons_of_ne_nil hnil
          rwa [List.append_cons, List.getLast?_append, List.getLast?_cons, Option.some_or,
            ← List.getLast?_cons] at hlast
    rw [List.append_assoc, List.cons_append, reads_of_line path _ number line _ hline, ih _ hback,
      Lines.split_of_line _ _ _ _ hline]
    rfl
  | last whole hfree =>
    have hnil : whole = [] := by
      rcases hfront with hnil | hlast
      · exact hnil
      · exact absurd (List.mem_of_getLast? hlast) hfree
    rw [hnil, List.nil_append, Lines.split_nil, reads, next_of_fault path number cause rest h]
    dsimp only
    rw [reads_of_finished _ rfl]
    rfl

end LineReader

end ImportCensus
