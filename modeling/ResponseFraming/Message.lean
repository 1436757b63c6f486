import ResponseFraming.Field

/-!
# Heads and trailers

The two blocks of metadata around a response body.
-/

namespace ResponseFraming

structure Head where
  status : UInt16
  fields : Fields
deriving DecidableEq, Repr

def Head.isSuccess (h : Head) : Bool := 200 ≤ h.status && h.status < 300

structure Trailers where
  fields : Fields
deriving DecidableEq, Repr

namespace Trailers

def empty : Trailers := ⟨Fields.empty⟩

def get? (t : Trailers) (name : String) : Option String := t.fields.get? name

end Trailers

end ResponseFraming
