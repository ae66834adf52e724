import ImportCensus.Text.Basic

namespace ImportCensus

structure References where
  tokens : List Text
  nodup : tokens.Nodup

namespace References

def empty : References := ⟨[], List.nodup_nil⟩

def contains (r : References) (token : Text) : Bool := r.tokens.contains token

def size (r : References) : Nat := r.tokens.length

def isEmpty (r : References) : Bool := r.tokens.isEmpty

theorem nodup_concat {tokens : List Text} {token : Text} (nodup : tokens.Nodup)
    (h : tokens.contains token = false) : (tokens ++ [token]).Nodup := by
  rw [List.nodup_append]
  refine ⟨nodup, by simp, ?_⟩
  intro a ha b hb hab
  simp only [List.mem_singleton] at hb
  subst hb hab
  have absent : ¬a ∈ tokens := by simpa using h
  exact absent ha

def insert (r : References) (token : Text) : References :=
  if h : r.tokens.contains token = false then ⟨r.tokens ++ [token], nodup_concat r.nodup h⟩ else r

theorem eq_of_tokens {r r' : References} (h : r.tokens = r'.tokens) : r = r' := by
  cases r
  cases r'
  rw [mk.injEq]
  exact h

@[simp] theorem tokens_empty : empty.tokens = [] := rfl

theorem tokens_insert (r : References) (token : Text) :
    (r.insert token).tokens = if token ∈ r.tokens then r.tokens else r.tokens ++ [token] := by
  unfold insert
  split
  · rename_i h
    rw [if_neg (by simpa using h)]
  · rename_i h
    rw [if_pos (by simpa using h)]

end References

end ImportCensus
