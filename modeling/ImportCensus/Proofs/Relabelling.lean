import Mathlib.Data.List.Basic
import ImportCensus.Proofs.Effects

namespace ImportCensus

namespace Effect

/-- A change of effects keeps what each of them does to a tally, and whether it fails. The failures
change in a given way. -/
structure Relabels (f : Effect → Effect) (g : Failure → Failure) : Prop where
  onTally_eq : ∀ e tally, (f e).onTally tally = e.onTally tally
  failure_eq : ∀ e, (f e).failure? = e.failure?.map g

namespace Relabels

variable {f f' : Effect → Effect} {g g' : Failure → Failure} (h : Relabels f g)

include h

theorem comp (h' : Relabels f' g') : Relabels (f' ∘ f) (g' ∘ g) where
  onTally_eq e tally := (h'.onTally_eq (f e) tally).trans (h.onTally_eq e tally)
  failure_eq e := by
    rw [Function.comp_apply, h'.failure_eq, h.failure_eq, Option.map_map]

theorem done_map (row : List Effect) : done (row.map f) = (done row).map f := by
  have hgoing : (fun e : Effect => e.failure?.isNone) ∘ f = fun e => e.failure?.isNone := by
    funext e
    rw [Function.comp_apply, h.failure_eq, Option.isNone_map]
  unfold done
  rw [List.takeWhile_map, hgoing]

theorem after_map (row : List Effect) (tally : Tally) :
    tally.after (row.map f) = tally.after row := by
  unfold Tally.after
  rw [List.foldl_map]
  simp only [h.onTally_eq]

theorem after_done_map (row : List Effect) (tally : Tally) :
    tally.after (done (row.map f)) = tally.after (done row) := by
  rw [h.done_map, h.after_map]

theorem findSome?_map (row : List Effect) :
    (row.map f).findSome? failure? = (row.findSome? failure?).map g := by
  rw [List.findSome?_map, List.map_findSome?]
  congr 1
  funext e
  exact h.failure_eq e

end Relabels

/-- The effects of a line change as those of its candidates do. -/
theorem ofLine_map (f : Effect → Effect) (config : Config) (path path' : Path)
    (line line' : SourceLine) (htext : line'.text = line.text)
    (himport : line'.isImport = line.isImport) (hcount : f countLine = countLine)
    (hcandidate : ∀ c, ofCandidate config path' line' c = f (ofCandidate config path line c)) :
    ofLine config path' line' = (ofLine config path line).map f := by
  unfold ofLine
  rw [htext, himport]
  split
  · rw [List.map_cons, hcount, List.map_map]
    congr 1
    apply List.map_congr_left
    intro c _
    exact hcandidate c
  · rfl

end Effect

section Path

variable (f : Path → Path)

def Failure.mapPath : Failure → Failure
  | walk path cause => walk (f path) cause
  | rootNotDirectory path => rootNotDirectory (f path)
  | read path cause => read (f path) cause
  | malformedImport path line text => malformedImport (f path) line text
  | output cause => output cause

namespace Effect

def mapPath : Effect → Effect
  | beginFile path => beginFile (f path)
  | countLine => countLine
  | keep token => keep token
  | countExcluded => countExcluded
  | passOver path number text => passOver (f path) number text
  | fail failure => fail (failure.mapPath f)

theorem relabels_mapPath : Relabels (mapPath f) (Failure.mapPath f) where
  onTally_eq e tally := by cases e <;> rfl
  failure_eq e := by cases e <;> rfl

theorem ofCandidate_mapPath (config : Config) (path : Path) (line : SourceLine) (c : Candidate) :
    ofCandidate config (f path) line c = (ofCandidate config path line c).mapPath f := by
  cases c with
  | malformed =>
    unfold ofCandidate
    cases config.malformed <;> rfl
  | _ => rfl

theorem ofLine_mapPath (config : Config) (path : Path) (line : SourceLine) :
    ofLine config (f path) line = (ofLine config path line).map (mapPath f) :=
  ofLine_map (mapPath f) config path (f path) line line rfl rfl rfl
    (ofCandidate_mapPath f config path line)

/-- Two paths by which the same contents are read make rows of effects that differ in the path
alone. -/
theorem ofFile_mapPath (t : Tree) (config : Config) (path : Path) (data : Bytes)
    (h : t.openFile path = .ok (.content data)) (h' : t.openFile (f path) = .ok (.content data)) :
    ofFile t config (f path) = (ofFile t config path).map (mapPath f) := by
  rw [ofFile_of_content t config _ data h, ofFile_of_content t config _ data h', List.map_cons,
    List.map_flatMap]
  congr 1
  apply List.flatMap_congr
  intro line _
  exact ofLine_mapPath f config path line

end Effect

end Path

def SourceLine.lowered (lines : Nat) (line : SourceLine) : SourceLine :=
  { line with number := line.number + lines }

section Number

variable (lines : Nat)

def Failure.lowered : Failure → Failure
  | malformedImport path number text => malformedImport path (number + lines) text
  | failure => failure

namespace Effect

def lowered : Effect → Effect
  | passOver path number text => passOver path (number + lines) text
  | fail failure => fail (failure.lowered lines)
  | e => e

theorem relabels_lowered : Relabels (lowered lines) (Failure.lowered lines) where
  onTally_eq e tally := by cases e <;> rfl
  failure_eq e := by cases e <;> rfl

theorem ofCandidate_lowered (config : Config) (path : Path) (line : SourceLine) (c : Candidate) :
    ofCandidate config path (line.lowered lines) c =
      (ofCandidate config path line c).lowered lines := by
  cases c with
  | malformed =>
    unfold ofCandidate
    cases config.malformed <;> rfl
  | _ => rfl

theorem ofLine_lowered (config : Config) (path : Path) (line : SourceLine) :
    ofLine config path (line.lowered lines) =
      (ofLine config path line).map (lowered lines) :=
  ofLine_map (lowered lines) config path path line (line.lowered lines) rfl rfl rfl
    (ofCandidate_lowered lines config path line)

end Effect

end Number

end ImportCensus
