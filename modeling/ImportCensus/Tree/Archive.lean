import ImportCensus.Tree.Edit

/-!
Trees from tape archives. An archive is a row of blocks of one size. Each entry has a header
block, with fields at fixed places that end at the first zero octet, and its contents in as many
blocks as they need. A header without a name ends the archive. Entries of kinds that a tree cannot
hold are left out.
-/

namespace ImportCensus.Archive

def blockSize : Nat := 512

def field (header : Bytes) (start width : Nat) : Bytes :=
  ((header.drop start).take width).takeWhile fun b => decide (b ≠ 0)

def octal (digits : Bytes) : Nat :=
  digits.foldl
    (fun n b => if 0x30 ≤ b.toNat ∧ b.toNat ≤ 0x37 then n * 8 + (b.toNat - 0x30) else n) 0

def path (header : Bytes) : Path :=
  let front := field header 345 155
  let name := field header 0 100
  if front.isEmpty then name else front ++ [slash] ++ name

def size (header : Bytes) : Nat := octal (field header 124 12)

def edit? (header contents : Bytes) : Option Edit :=
  match field header 156 1 with
  | [] | [0x30] => some (.put (path header) (.file contents))
  | [0x32] => some (.put (path header) (.link (field header 157 100)))
  | [0x35] => some (.put (path header) .directory)
  | _ => none

def edits (archive : Bytes) : List Edit :=
  if _h : archive.length < blockSize ∨ (path archive).isEmpty then []
  else
    let behind := archive.drop blockSize
    let blocks := (size archive + (blockSize - 1)) / blockSize
    let rest := edits (behind.drop (blocks * blockSize))
    match edit? archive (behind.take (size archive)) with
    | some e => e :: rest
    | none => rest
termination_by archive.length
decreasing_by
  simp only [List.length_drop]
  have : 0 < blockSize := by decide
  omega

def tree (archive : Bytes) : Tree := Tree.ofEdits (edits archive)

end ImportCensus.Archive
