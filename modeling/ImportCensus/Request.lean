import ImportCensus.Output

namespace ImportCensus

inductive Request where
  | insert (token : Text)
  | size
  | isEmpty
  | list
  | write (w : Writer)

inductive Answer where
  | truth (b : Bool)
  | number (n : Nat)
  | tokens (l : List Text)
  | written (w : Writer) (fault : Option Cause)
deriving DecidableEq

namespace References

def serve (r : References) : Request → References × Answer
  | .insert token => (r.insert token, .truth (!r.contains token))
  | .size => (r, .number r.size)
  | .isEmpty => (r, .truth r.isEmpty)
  | .list => (r, .tokens r.tokens)
  | .write w => (r, .written (r.writeTo w).1 (r.writeTo w).2)

def afterAll (r : References) (requests : List Request) : References :=
  requests.foldl (fun r request => (r.serve request).1) r

def answers (r : References) : List Request → List Answer
  | [] => []
  | request :: rest => (r.serve request).2 :: (r.serve request).1.answers rest

end References

end ImportCensus
