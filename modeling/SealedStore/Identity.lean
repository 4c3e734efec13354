/-!
# Object identities

An object is addressed by its bucket and its key. The temporary sibling of an
object has the same bucket and a key with a suffix.

What is proved:
  1. `withSuffix_ne` — a suffix that is not empty names another object.
-/

namespace SealedStore

/-- The address of an object. -/
structure Identity where
  bucket : String
  key : String
  deriving DecidableEq, Repr, Inhabited

def Identity.label (i : Identity) : String := i.bucket ++ "/" ++ i.key

/-- The sibling whose key carries a suffix. -/
def Identity.withSuffix (i : Identity) (suffix : String) : Identity := { i with key := i.key ++ suffix }

theorem Identity.withSuffix_ne (i : Identity) {suffix : String} (h : suffix ≠ "") :
    i.withSuffix suffix ≠ i := by
  intro he
  have hk : i.key ++ suffix = i.key := congrArg Identity.key he
  have hl := congrArg String.toList hk
  rw [String.toList_append] at hl
  have : suffix.toList = [] := by
    have := congrArg List.length hl
    simp only [List.length_append] at this
    exact List.eq_nil_of_length_eq_zero (by omega)
  exact h (String.toList_inj.mp (by simpa using this))

end SealedStore
