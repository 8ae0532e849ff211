/-!
# Hexadecimal text

Addresses are written with eight upper-case digits and sizes with as many
lower-case digits as they need.  Both start with `0x`.
-/

namespace PagedMemory.Hexadecimal

/-- The digits of a number, most significant first, in lower case. -/
def digits (value : Nat) : List Char :=
  Nat.toDigits 16 value

/-- A number with no leading zeros: `0xfff`. -/
def compact (value : Nat) : String :=
  String.ofList ('0' :: 'x' :: digits value)

/-- A word padded to eight upper-case digits: `0x00000FFF`. -/
def word (value : UInt32) : String :=
  String.ofList
    ('0' :: 'x' :: ((digits value.toNat).map Char.toUpper).leftpad 8 '0')

end PagedMemory.Hexadecimal
