import ImportCensus.Proofs.Rendering
import ImportCensus.Request

namespace ImportCensus

namespace Writer

variable (w : Writer) (data : Bytes)

def overflows : Bool := w.room.any fun room => room < data.length

def capacity : Nat := (w.room.map fun room => min room data.length).getD data.length

def taking : Writer :=
  { w with
    stored := w.stored ++ data.take (w.capacity data)
    room := w.room.map fun room => room - data.length }

theorem write_eq_taking :
    w.write data = (w.taking data, if w.overflows data then some w.full else none) := by
  obtain ⟨stored, room, full, flushFault⟩ := w
  cases room with
  | none => simp [write, taking, overflows, capacity]
  | some room =>
    have htake : data.take (min room data.length) = data.take room := List.take_eq_take_min.symm
    simp [write, taking, overflows, capacity, htake]

theorem capacity_of_fits (h : w.overflows data = false) : w.capacity data = data.length := by
  unfold overflows at h
  unfold capacity
  cases hroom : w.room with
  | none => rfl
  | some room =>
    rw [hroom] at h
    have hle : data.length ≤ room := by simpa using h
    exact Nat.min_eq_right hle

end Writer

/-- References are written like their lines at once. If they do not fit, that is the failure, and
otherwise it is that of the flush. -/
theorem writeTo_eq_taking (r : References) (w : Writer) :
    r.writeTo w =
      (w.taking (Utf8.encode r.rendered),
        if w.overflows (Utf8.encode r.rendered) then some w.full else w.flushFault) := by
  rw [writeTo_eq, Writer.write_eq_taking]
  cases w.overflows (Utf8.encode r.rendered) <;> rfl

/-- References that are written to a writer with any room and any flush. What the writer holds then is
the first part of their lines, as long as the room that it had, or all of them if it had room for all.
Writing fails as a write does exactly if the lines are longer than the room; otherwise it fails as the
flush does exactly if that fails; otherwise it succeeds. The references stay as they are, so that a
writer with enough room gets all of their lines from them afterwards. -/
theorem writeTo_of_room (r : References) (w : Writer) :
    let lines := Utf8.encode (r.tokens.flatMap fun token => token ++ ['\n'])
    let written := r.writeTo w
    written.1.stored = w.stored ++ lines.take (w.capacity lines) ∧
      written.2 = (if w.overflows lines then some w.full else w.flushFault) ∧
      r.serve (.write w) = (r, .written written.1 written.2) ∧
      ∀ again : Writer, again.overflows lines = false →
        ((r.serve (.write w)).1.writeTo again).1.stored = again.stored ++ lines ∧
          ((r.serve (.write w)).1.writeTo again).2 = again.flushFault := by
  intro lines written
  have heq (w : Writer) :
      r.writeTo w = (w.taking lines, if w.overflows lines then some w.full else w.flushFault) :=
    writeTo_eq_taking r w
  refine ⟨?_, ?_, rfl, ?_⟩
  · show (r.writeTo w).1.stored = _
    rw [heq]
    rfl
  · show (r.writeTo w).2 = _
    rw [heq]
  · intro again hfits
    show (r.writeTo again).1.stored = _ ∧ (r.writeTo again).2 = _
    rw [heq, hfits, Writer.taking, Writer.capacity_of_fits again lines hfits, List.take_length]
    exact ⟨rfl, rfl⟩

def shortReferences : References := (References.empty.insert []).insert ['\u00E9']

theorem writeTo_of_room_shortReferences :
    let narrow : Writer := ⟨[], some 2, .noRoom, some .flushFailed⟩
    let wide : Writer := ⟨[], some 4, .noRoom, some .flushFailed⟩
    let after := (shortReferences.serve (.write narrow)).1
    (shortReferences.writeTo narrow).1.stored = [0x0A, 0xC3] ∧
      (shortReferences.writeTo narrow).2 = some .noRoom ∧
      wide.overflows [0x0A, 0xC3, 0xA9, 0x0A] = false ∧
      (after.writeTo wide).1.stored = [0x0A, 0xC3, 0xA9, 0x0A] ∧
      (after.writeTo wide).2 = some .flushFailed := by
  intro narrow wide after
  obtain ⟨hstored, hfault, -, hagain⟩ := writeTo_of_room shortReferences narrow
  have hfits : wide.overflows [0x0A, 0xC3, 0xA9, 0x0A] = false := rfl
  obtain ⟨hall, hflush⟩ := hagain wide hfits
  exact ⟨hstored, hfault, hfits, hall, hflush⟩

end ImportCensus
