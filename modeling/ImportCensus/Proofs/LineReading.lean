import ImportCensus.Proofs.Outcome
import ImportCensus.Proofs.TextLines

namespace ImportCensus

namespace Lines

section Feed

variable {α : Type} [DecidableEq α] (feed ret : α)

theorem feed_notMem_of_mem_split (whole line : List α) (h : line ∈ split feed ret whole) :
    feed ∉ line := by
  induction whole using induction_by_lines feed with
  | last whole hfree =>
    by_cases hne : whole = []
    · rw [hne, split_nil] at h
      simp at h
    · rw [split_of_notMem feed ret whole hne hfree] at h
      rwa [List.mem_singleton.1 h]
  | line front back hfront ih =>
    rw [split_of_line feed ret front back hfront] at h
    rcases List.mem_cons.1 h with rfl | h
    · -- what is left of a line without its return is a part of it
      intro hmem
      apply hfront
      unfold dropOne at hmem
      split at hmem
      · exact List.mem_of_mem_dropLast hmem
      · exact hmem
    · exact ih h

end Feed

end Lines

namespace LineReader

variable (r : LineReader)

theorem answer_succ (calls : Nat) : r.answer (calls + 1) = r.next.2.answer calls := rfl

theorem after_add (calls more : Nat) : r.after (calls + more) = (r.after calls).after more := by
  induction calls generalizing r with
  | zero => rw [Nat.zero_add]; rfl
  | succ calls ih =>
    rw [Nat.succ_add]
    exact ih r.next.2

theorem answer_of_finished (h : r.finished = true) (calls : Nat) : r.answer calls = none := by
  have hnext : r.next = (none, r) := by
    unfold next
    rw [if_pos h]
  induction calls with
  | zero => exact congrArg Prod.fst hnext
  | succ calls ih => rw [answer_succ, hnext, ih]

theorem finished_of_next (h : ∀ line, r.next.1 ≠ some (.ok line)) : r.next.2.finished = true := by
  unfold next at h ⊢
  split at h
  · rename_i hfinished
    rw [if_pos hfinished]
    exact hfinished
  · rename_i hgoing
    rw [if_neg hgoing]
    split at h
    · rfl
    · rfl
    · exact absurd rfl (h _)

theorem answer_later (calls later : Nat) (h : ∀ line, r.answer calls ≠ some (.ok line))
    (hlater : calls < later) : r.answer later = none := by
  obtain ⟨more, rfl⟩ : ∃ more, later = calls + (more + 1) := ⟨later - calls - 1, by omega⟩
  have hsame : r.answer (calls + (more + 1)) = (r.after calls).next.2.answer more := by
    unfold answer
    rw [after_add]
    rfl
  rw [hsame]
  exact answer_of_finished _ (finished_of_next _ h) more

/-- Asked again and again, a reader gives its answers one by one, and then nothing. -/
theorem answer_eq_reads (calls : Nat) : r.answer calls = r.reads[calls]? := by
  induction calls generalizing r with
  | zero =>
    show r.next.1 = _
    rw [reads]
    obtain ⟨answer, later⟩ := r.next
    cases answer <;> rfl
  | succ calls ih =>
    rw [answer_succ, reads]
    cases hnext : r.next with
    | mk answer later =>
      cases answer with
      | some read => exact ih later
      | none =>
        have hfinished := finished_of_next r (by simp [hnext])
        rw [hnext] at hfinished
        exact answer_of_finished later hfinished calls

end LineReader

theorem newline_notMem_text (content : Bytes) (line : SourceLine) (h : line ∈ sourceLines content) :
    '\n' ∉ line.text := by
  apply Lines.feed_notMem_of_mem_split '\n' '\r' (Utf8.decode content)
  rw [← texts_sourceLines]
  exact List.mem_map_of_mem h

/-- The lines of a text told by its pieces between line feeds: all but the last were ended by a line
feed, and they lose a return at their end. The last one keeps all that it holds, and it is no line if
it holds nothing. -/
theorem split_eq_pieces (t : Text) :
    ∃ pieces last, t.splitOn '\n' = pieces ++ [last] ∧
      Lines.split '\n' '\r' t =
        pieces.map (Lines.dropOne '\r') ++ if last = [] then [] else [last] := by
  obtain ⟨pieces, last, hpieces⟩ : ∃ pieces last, t.splitOn '\n' = pieces ++ [last] := by
    have hne : t.splitOn '\n' ≠ [] := List.splitOn_ne_nil _ _
    exact ⟨_, _, (List.dropLast_append_getLast hne).symm⟩
  refine ⟨pieces, last, hpieces, ?_⟩
  calc
    Lines.split '\n' '\r' t
    _ = Lines.ofPieces '\r' (t.splitOn '\n') := rfl
    _ = pieces.map (Lines.dropOne '\r') ++ Lines.ofPieces '\r' [last] := by
      rw [hpieces, Lines.ofPieces_append _ _ (List.cons_ne_nil _ _)]
    _ = pieces.map (Lines.dropOne '\r') ++ if last = [] then [] else [last] := by
      simp [Lines.ofPieces]

/-- A fault in a file ends a census of it behind the lines that were given before. -/
theorem Census.takeReader_of_fault (c : Census) (config : Config) (path : Path) (number : Nat)
    (cause : Cause) (front rest : Bytes) (hfront : front = [] ∨ front.getLast? = some 0x0A)
    (hrest : 0x0A ∉ rest) :
    c.takeReader config ⟨path, front ++ rest, some cause, number, false⟩ =
      ((SourceLine.numbered (number + 1) (Lines.split 0x0A 0x0D front)).foldl
        (takeLine config path) c).unlessFailed fun c => c.fail (.read path cause) := by
  unfold takeReader
  rw [LineReader.reads_of_fault path number cause front rest hfront hrest, List.foldl_append,
    List.foldl_map]
  rfl

/-- What a reader gives. Asked again and again, it answers with what the reading of its file by lines
gives, item by item, and then with nothing. The lines of a file with contents have the numbers from
one on, without a gap. Their texts are the pieces of its whole text between line feeds, without a
return in front of a line feed, and without the last piece if that is empty; so none of them holds a
line feed. Each line is marked as an import exactly if a statement stands in it. And whatever a file
may do while it is read: behind a failure, and behind an answer with nothing, a reader answers with
nothing for ever. -/
theorem answers_of_reader (path : Path) :
    (∀ opened calls, (LineReader.start path opened).answer calls = (opened.lines path)[calls]?) ∧
      (∀ content : Bytes,
        Tree.Opened.lines path (.content content) = (sourceLines content).map .ok ∧
        (sourceLines content).map SourceLine.number =
          List.range' 1 (sourceLines content).length ∧
        (∃ pieces last, (Utf8.decode content).splitOn '\n' = pieces ++ [last] ∧
          (sourceLines content).map SourceLine.text =
            pieces.map (Lines.dropOne '\r') ++ if last = [] then [] else [last]) ∧
        ∀ line ∈ sourceLines content,
          '\n' ∉ line.text ∧ line.isImport = containsStatement line.text) ∧
      ∀ (r : LineReader) (calls later : Nat), (∀ line, r.answer calls ≠ some (.ok line)) →
        calls < later → r.answer later = none := by
  refine ⟨fun opened => (LineReader.start path opened).answer_eq_reads, ?_,
    LineReader.answer_later⟩
  intro content
  refine ⟨Tree.Opened.lines_content path content, SourceLine.numbers_numbered 1 _, ?_, ?_⟩
  · rw [texts_sourceLines]
    exact split_eq_pieces (Utf8.decode content)
  · intro line hline
    exact ⟨newline_notMem_text content line hline, isImport_of_mem_sourceLines content line hline⟩

def damagedLines : Bytes := [0xE2, 0x0D, 0x0A, 0x0A, 0x61, 0x0D]

theorem answers_of_reader_damagedLines :
    let reader := LineReader.start [] (.content damagedLines)
    (sourceLines damagedLines).map SourceLine.text = ["\uFFFD".toList, [], "a\r".toList] ∧
      (sourceLines damagedLines).map SourceLine.number = [1, 2, 3] ∧
      (∀ line, reader.answer 3 ≠ some (.ok line)) ∧
      (∀ later, 3 < later → reader.answer later = none) ∧
      ∀ line ∈ sourceLines damagedLines, '\n' ∉ line.text := by
  intro reader
  obtain ⟨hanswer, hlines, hlater⟩ := answers_of_reader []
  obtain ⟨-, hnumbers, -, hmarked⟩ := hlines damagedLines
  have hnone : reader.answer 3 = none := by
    rw [hanswer, Tree.Opened.lines_content]
    decide
  have hover : ∀ line, reader.answer 3 ≠ some (.ok line) := by
    intro line
    rw [hnone]
    simp
  refine ⟨by decide, hnumbers, hover, ?_, fun line hline => (hmarked line hline).1⟩
  intro later hlt
  exact hlater reader 3 later hover hlt

end ImportCensus
