import Bclib.Data.BigEndian

namespace Bclib.Bn

open Data

/-! The signed byte form of `bn.Number`: a sign byte and the magnitude.  A
number is optional because the wrapped `*big.Int` may be nil. -/

def bytes (number : Option Int) : List Byte :=
  match number with
  | none => []
  | some value => (if value < 0 then 0xFF#8 else 0#8) :: bigEndian value.natAbs

/-- `SetBytes` on a number that held `old`; an empty buffer keeps it. -/
def setBytes (old : Option Int) (buf : List Byte) : Int :=
  match buf with
  | [] => old.getD 0
  | sign :: magnitude =>
      if sign = 0xFF#8 then -(ofBigEndian magnitude : Int)
      else (ofBigEndian buf : Int)

/-- `NSBytes`: into a new number. -/
def nsBytes (buf : List Byte) : Int := setBytes (some 0) buf

theorem setBytes_bytes (old : Option Int) (value : Int) :
    setBytes old (bytes (some value)) = value := by
  unfold bytes setBytes
  by_cases negative : value < 0
  · simp only [if_pos negative, if_true, ofBigEndian_bigEndian]
    omega
  · simp only [if_neg negative]
    rw [if_neg (by decide), ofBigEndian_zero_cons, ofBigEndian_bigEndian]
    omega

end Bclib.Bn
