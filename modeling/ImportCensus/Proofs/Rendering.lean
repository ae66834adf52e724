import ImportCensus.Output

namespace ImportCensus

/-- Data that comes in two parts is written like the first part and, unless that fails, the second
part behind it. -/
theorem write_append (w : Writer) (front back : Bytes) :
    w.write (front ++ back) =
      match w.write front with
      | (w, none) => w.write back
      | (w, some cause) => (w, some cause) := by
  cases hroom : w.room with
  | none => simp [Writer.write, hroom]
  | some room =>
    by_cases hfits : room < front.length
    · have hall : room < (front ++ back).length := by
        rw [List.length_append]
        omega
      have htake : (front ++ back).take room = front.take room :=
        List.take_append_of_le_length (Nat.le_of_lt hfits)
      have hleft : room - (front ++ back).length = room - front.length := by
        rw [List.length_append]
        omega
      simp only [Writer.write, hroom, hfits, hall, if_pos, htake, hleft]
    · have hle : front.length ≤ room := Nat.le_of_not_lt hfits
      have hiff : room < front.length + back.length ↔ room - front.length < back.length := by omega
      simp only [Writer.write, hroom, hfits, if_neg, not_false_eq_true, List.length_append, hiff,
        List.take_append, List.take_of_length_le hle, List.append_assoc, Nat.sub_sub]

/-- Pieces that are written one after the other leave the same behind as their data written at
once. -/
theorem writeAll_eq_write (w : Writer) (pieces : List Bytes) :
    w.writeAll pieces = w.write pieces.flatten := by
  induction pieces generalizing w with
  | nil =>
    obtain ⟨stored, room, full, flushFault⟩ := w
    cases room <;> simp [Writer.writeAll, Writer.write]
  | cons piece pieces ih =>
    rw [Writer.writeAll, List.flatten_cons, write_append]
    obtain ⟨after, _ | cause⟩ := w.write piece
    · exact ih after
    · rfl

theorem flatten_pieces (tokens : List Text) :
    (tokens.flatMap fun token => [Utf8.encode token, Utf8.encode ['\n']]).flatten =
      Utf8.encode (tokens.flatMap fun token => token ++ ['\n']) := by
  induction tokens with
  | nil => rfl
  | cons token tokens ih =>
    rw [List.flatMap_cons, List.flatMap_cons, List.flatten_append, ih, Utf8.encode_append,
      Utf8.encode_append]
    simp

/-- References are written like their rendered text, and then the writer passes on what it holds. -/
theorem writeTo_eq (r : References) (w : Writer) :
    r.writeTo w =
      match w.write (Utf8.encode r.rendered) with
      | (w, none) => (w, w.flushFault)
      | (w, some cause) => (w, some cause) := by
  rw [References.writeTo, writeAll_eq_write, flatten_pieces]
  rfl

theorem stored_writeTo (r : References) (w : Writer) (h : w.room = none) :
    (r.writeTo w).1.stored = w.stored ++ Utf8.encode r.rendered := by
  rw [writeTo_eq, Writer.write, h]

/-- Lines that were ended by a line feed each are found again between the line feeds, with nothing
behind the last one. -/
theorem splitOn_lines (lines : List Text) (h : ∀ line ∈ lines, '\n' ∉ line) :
    (lines.flatMap fun line => line ++ ['\n']).splitOn '\n' = lines ++ [[]] := by
  induction lines with
  | nil => rfl
  | cons line lines ih =>
    obtain ⟨hline, hrest⟩ := List.forall_mem_cons.1 h
    have hfree : ∀ c ∈ line, (c == '\n') = false := by
      intro c hc
      rw [beq_eq_false_iff_ne]
      rintro rfl
      exact hline hc
    rw [List.flatMap_cons, List.append_assoc, List.singleton_append, List.splitOn_eq_splitOnP,
      List.splitOnP_append_cons_of_forall_mem hfree '\n' rfl, ← List.splitOn_eq_splitOnP, ih hrest]
    rfl

theorem splitOn_rendered (r : References) (h : ∀ token ∈ r.tokens, '\n' ∉ token) :
    r.rendered.splitOn '\n' = r.tokens ++ [[]] :=
  splitOn_lines r.tokens h

end ImportCensus
