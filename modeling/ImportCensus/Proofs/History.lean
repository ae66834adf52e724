import ImportCensus.Proofs.LimitedRoom
import ImportCensus.Proofs.TallyAfter

namespace ImportCensus

namespace Request

def token? : Request → Option Text
  | insert token => some token
  | _ => none

def inserted (requests : List Request) : List Text := requests.filterMap token?

theorem inserted_cons (request : Request) (requests : List Request) :
    inserted (request :: requests) = request.token?.toList ++ inserted requests := by
  unfold inserted
  rw [List.filterMap_cons]
  cases request.token? <;> rfl

def due (tokens : List Text) : Request → Answer
  | insert token => .truth (decide (token ∉ tokens))
  | size => .number tokens.eraseDups.length
  | isEmpty => .truth (decide (tokens = []))
  | list => .tokens tokens.eraseDups
  | write w =>
    let lines := Utf8.encode (tokens.eraseDups.flatMap fun token => token ++ ['\n'])
    .written (w.taking lines) (if w.overflows lines then some w.full else w.flushFault)

def isNew : Request × Answer → Bool
  | (insert _, .truth b) => b
  | _ => false

end Request

theorem Request.inserted_insertions (tokens : List Text) :
    inserted (tokens.map insert) = tokens := by
  unfold inserted
  rw [List.filterMap_map]
  exact List.filterMap_some

theorem eraseDups_eq_nil_iff (tokens : List Text) : tokens.eraseDups = [] ↔ tokens = [] := by
  constructor
  · intro h
    rw [List.eq_nil_iff_forall_not_mem]
    intro token htoken
    have hmem := List.mem_eraseDups.2 htoken
    rw [h] at hmem
    simp at hmem
  · rintro rfl
    exact List.eraseDups_nil

namespace References

section Step

variable {r : References} {tokens : List Text} (h : r.tokens = tokens.eraseDups)

include h

theorem answer_serve (request : Request) : (r.serve request).2 = request.due tokens := by
  cases request with
  | insert token =>
    have hcontains : r.contains token = decide (token ∈ tokens) := by
      rw [contains, h, List.contains_eq_mem]
      simp only [List.mem_eraseDups]
    simp only [serve, Request.due, hcontains, decide_not]
  | size => simp only [serve, Request.due, size, h]
  | isEmpty =>
    have hempty : r.isEmpty = decide (tokens = []) := by
      rw [Bool.eq_iff_iff, isEmpty, h, List.isEmpty_iff, eraseDups_eq_nil_iff, decide_eq_true_iff]
    simp only [serve, Request.due, hempty]
  | list => simp only [serve, Request.due, h]
  | write w => simp only [serve, Request.due, writeTo_eq_taking, rendered, h]

theorem tokens_serve (request : Request) :
    (r.serve request).1.tokens = (tokens ++ request.token?.toList).eraseDups := by
  cases request with
  | insert token =>
    show (r.insert token).tokens = (tokens ++ [token]).eraseDups
    rw [tokens_insert, eraseDups_concat, h]
    simp only [List.mem_eraseDups]
  | _ =>
    show r.tokens = (tokens ++ []).eraseDups
    rw [List.append_nil, h]

end Step

section Run

variable {r : References} {tokens : List Text} (requests : List Request)

theorem tokens_afterAll (h : r.tokens = tokens.eraseDups) :
    (r.afterAll requests).tokens = (tokens ++ Request.inserted requests).eraseDups := by
  induction requests generalizing r tokens with
  | nil =>
    show r.tokens = (tokens ++ []).eraseDups
    rw [List.append_nil, h]
  | cons request requests ih =>
    rw [Request.inserted_cons, ← List.append_assoc]
    exact ih (tokens_serve h request)

/-- Any requests are answered as is due, each of them after the tokens of those in front. -/
theorem answers_eq (h : r.tokens = tokens.eraseDups) (i : Nat) :
    (r.answers requests)[i]? =
      requests[i]?.map (Request.due (tokens ++ Request.inserted (requests.take i))) := by
  induction requests generalizing r tokens i with
  | nil => rfl
  | cons request requests ih =>
    cases i with
    | zero =>
      show some (r.serve request).2 = some (request.due (tokens ++ []))
      rw [List.append_nil, answer_serve h]
    | succ i =>
      rw [List.take_succ_cons, Request.inserted_cons, ← List.append_assoc]
      exact ih (tokens_serve h request) i

/-- What is asked later has no effect on the answers in front. -/
theorem answers_take (r : References) (i : Nat) :
    r.answers (requests.take i) = (r.answers requests).take i := by
  induction requests generalizing r i with
  | nil => rw [List.take_nil, answers, List.take_nil]
  | cons request requests ih =>
    cases i with
    | zero => rfl
    | succ i =>
      show (r.serve request).2 :: (r.serve request).1.answers (requests.take i) = _
      rw [ih]
      rfl

/-- References grow by one for each request that has inserted a token that was new. -/
theorem size_afterAll (r : References) :
    (r.afterAll requests).size =
      r.size + (requests.zip (r.answers requests)).countP Request.isNew := by
  induction requests generalizing r with
  | nil => rfl
  | cons request requests ih =>
    have hstep : (r.serve request).1.size =
        r.size + if Request.isNew (request, (r.serve request).2) then 1 else 0 := by
      cases request with
      | insert token =>
        show (r.insert token).tokens.length =
          r.tokens.length + if (!r.tokens.contains token) = true then 1 else 0
        rw [tokens_insert]
        by_cases hmem : token ∈ r.tokens
        · simp [hmem]
        · simp [hmem]
      | _ => rfl
    show ((r.serve request).1.afterAll requests).size =
      r.size + ((request, (r.serve request).2) ::
        requests.zip ((r.serve request).1.answers requests)).countP Request.isNew
    rw [ih, hstep, List.countP_cons]
    omega

end Run

end References

/-- References are the tokens that were inserted so far, each at its first appearance. Take any
requests to references of which there were none, and any point among them. The tokens there are those
inserted in front of this point, without repetition and in the order of their first appearance, and
there are as many as insertions that were answered with "new". All other requests might as well have
been left out. Every answer is the one that is due: an insertion is told to be new exactly if the
same token was not inserted before, and whoever asks for the number, the tokens or their lines is
told those of the tokens so far. -/
theorem answers_by_history (requests : List Request) (i : Nat) :
    let front := requests.take i
    let r := References.empty.afterAll front
    let answers := References.empty.answers requests
    r.tokens = (Request.inserted front).eraseDups ∧
      r.size = ((requests.zip answers).take i).countP Request.isNew ∧
      r = References.empty.afterAll ((Request.inserted front).map .insert) ∧
      answers[i]? = requests[i]?.map (Request.due (Request.inserted front)) := by
  intro front r answers
  have hempty : References.empty.tokens = ([] : List Text).eraseDups := rfl
  have htokens : r.tokens = ([] ++ Request.inserted front).eraseDups :=
    References.tokens_afterAll front hempty
  have hinserted : (References.empty.afterAll ((Request.inserted front).map .insert)).tokens =
      ([] ++ Request.inserted front).eraseDups := by
    rw [References.tokens_afterAll _ hempty, Request.inserted_insertions]
  refine ⟨htokens, ?_, References.eq_of_tokens (htokens.trans hinserted.symm), ?_⟩
  · have hsize := References.size_afterAll front References.empty
    rw [References.answers_take] at hsize
    rw [List.zip, List.take_zipWith]
    exact hsize.trans (Nat.zero_add _)
  · exact References.answers_eq requests hempty i

/-- A token that was inserted before is no longer new, a token in other letters is, and a write that
fails in between changes nothing. -/
example :
    References.empty.answers
        [.insert ['a'], .insert [], .write ⟨[], some 1, .noRoom, none⟩, .insert ['A'],
          .insert ['a'], .size, .list] =
      [.truth true, .truth true, .written ⟨[0x61], some 0, .noRoom, none⟩ (some .noRoom),
        .truth true, .truth false, .number 3, .tokens [['a'], [], ['A']]] := by
  decide

end ImportCensus
