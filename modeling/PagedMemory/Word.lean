/-!
# Checked arithmetic on words

Addresses are computed in words of 32 bits, and counts may be wider.  An operation on
words has a result only if the exact value fits a word.
-/

namespace PagedMemory.Word

/-- The word with a given value, if there is one. -/
def narrow? (value : Nat) : Option UInt32 :=
  if value < UInt32.size then some (UInt32.ofNat value) else none

def mul? (left right : UInt32) : Option UInt32 :=
  narrow? (left.toNat * right.toNat)

def add? (left right : UInt32) : Option UInt32 :=
  narrow? (left.toNat + right.toNat)

theorem narrow?_eq_some_iff {value : Nat} {word : UInt32} :
    narrow? value = some word ↔ word.toNat = value := by
  have bounded := word.toNat_lt
  unfold narrow?
  split
  next fits =>
    rw [Option.some.injEq, ← UInt32.toNat_inj, UInt32.toNat_ofNat_of_lt' fits, eq_comm]
  next wide =>
    simp only [reduceCtorEq, false_iff]
    rintro rfl
    exact wide bounded

theorem mul?_eq_some_iff {left right product : UInt32} :
    mul? left right = some product ↔ product.toNat = left.toNat * right.toNat :=
  narrow?_eq_some_iff

theorem add?_eq_some_iff {left right sum : UInt32} :
    add? left right = some sum ↔ sum.toNat = left.toNat + right.toNat :=
  narrow?_eq_some_iff

end PagedMemory.Word
