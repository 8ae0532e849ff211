/-!
# Access rights

The rights of a region are one byte, in the layout of executable images:

| Bit | Right   |
|-----|---------|
| 0   | execute |
| 1   | write   |
| 2   | read    |

The five upper bits have no meaning, but whoever declares a region gets them
back as given.
-/

namespace PagedMemory

/-- One way of accessing memory. -/
inductive Right where
  | execute
  | write
  | read
  deriving DecidableEq

/-- The bit that grants a right. -/
def Right.index : Right → Nat
  | .execute => 0
  | .write => 1
  | .read => 2

theorem Right.index_lt (right : Right) : right.index < 8 := by
  cases right <;> decide

theorem Right.index_inj {left right : Right} : left.index = right.index ↔ left = right := by
  cases left <;> cases right <;> decide

/-- A byte with only the bit of one right. -/
def Right.mask (right : Right) : UInt8 :=
  UInt8.ofBitVec (BitVec.twoPow 8 right.index)

/-- The rights of a region. -/
structure Rights where
  bits : UInt8
  deriving DecidableEq

namespace Rights

/-- No right at all. -/
def none : Rights := ⟨0⟩

/-- A right is granted if its bit is set. -/
def allows (rights : Rights) (right : Right) : Bool :=
  rights.bits.toBitVec.getLsbD right.index

/-- Grant or withdraw one right and keep every other bit. -/
def set (rights : Rights) (right : Right) (granted : Bool) : Rights :=
  ⟨if granted then rights.bits ||| right.mask else rights.bits &&& ~~~right.mask⟩

@[simp]
theorem allows_set (rights : Rights) (right other : Right) (granted : Bool) :
    (rights.set right granted).allows other =
      if other = right then granted else rights.allows other := by
  have reads : right.mask.toBitVec.getLsbD other.index = decide (other = right) := by
    simp [Right.mask, BitVec.getLsbD_twoPow, right.index_lt, Right.index_inj, eq_comm]
  have narrow := other.index_lt
  cases granted <;>
    simp only [set, allows, Bool.false_eq_true, if_true, if_false, UInt8.toBitVec_or,
      UInt8.toBitVec_and, UInt8.toBitVec_not, BitVec.getLsbD_or, BitVec.getLsbD_and,
      BitVec.getLsbD_not, narrow, reads] <;>
    by_cases same : other = right <;> simp [same]

/-- The rights that grant exactly the chosen ones. -/
def ofFlags (read write execute : Bool) : Rights :=
  ((none.set .read read).set .write write).set .execute execute

/-- The rights of the user stack. -/
def readWrite : Rights :=
  (none.set .read true).set .write true

/-- The three rights as they stand in a listing: `r-x`. -/
def text (rights : Rights) : String :=
  String.ofList
    [if rights.allows .read then 'r' else '-',
     if rights.allows .write then 'w' else '-',
     if rights.allows .execute then 'x' else '-']

/-- The rights as they stand in diagnostic text. -/
def inspect (rights : Rights) : String :=
  let executable := rights.allows .execute
  let writable := rights.allows .write
  let readable := rights.allows .read
  s!"Permissions \x7b executable: {executable}, writable: {writable}, readable: {readable} \x7d"

end Rights

end PagedMemory
