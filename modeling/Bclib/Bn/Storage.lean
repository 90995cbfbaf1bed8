import Bclib.Bn.Number
import Bclib.Go.BigInt

namespace Bclib.Bn

open Data
open Go

/-! `bn.Number` in memory: a pointer to a `big.Int`, nil until it is first set. -/

/-- `SetBytes` through the pointer: `x.V` is set in place once it exists. -/
def setBytesAt (heap : Heap) (cell : Option Nat) (buf : List Byte) :
    Heap × Option Nat :=
  let (heap, address) :=
    match cell with
    | none => (heap.allocCell .bigInt (zeroCell .bigInt), heap.size .bigInt)
    | some address => (heap, address)
  match buf with
  | [] => (heap, some address)
  | sign :: magnitude =>
      let target := heap.target .bigInt address
      let (heap, changed) :=
        if sign = 0xFF#8 then
          let (heap, positive) := heap.setBigInt target magnitude
          (heap, positive.negate)
        else heap.setBigInt target buf
      (heap.setTarget .bigInt address changed, some address)

theorem setBytesAt_none (heap : Heap) (buf : List Byte) :
    setBytesAt heap none buf = setBytesAt (heap.allocCell .bigInt (zeroCell .bigInt))
      (some (heap.size .bigInt)) buf := by
  cases buf <;> rfl

theorem setBytesAt_address (heap : Heap) (address : Nat) (buf : List Byte) :
    (setBytesAt heap (some address) buf).2 = some address := by
  cases buf <;> rfl

end Bclib.Bn
