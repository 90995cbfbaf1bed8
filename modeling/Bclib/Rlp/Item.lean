import Bclib.Rlp.Pieces

namespace Bclib.Rlp

open Data
open Go

/-! What travels for a value.  An item has the shape of the value's type, with
the number as its signed bytes, magnitudes for big integers, and the entries of
a map in the order they are written. -/

mutual
def Item : GoType → Type
  | .uint kind => BitVec kind.bits
  | .int kind => BitVec kind.bits
  | .bool => Bool
  | .string => List Byte
  | .bigInt => Nat
  | .number => List Byte
  | .rawValue => List Byte
  | .slice elem => List (Item elem)
  | .array length elem => { items : List (Item elem) // items.length = length }
  | .struct fields => FieldItems fields
  | .ptr elem => Option (Item elem)
  | .map key elem => List (Item key × Item elem)

def FieldItems : Fields → Type
  | .nil => Unit
  | .cons _ _ type rest => Item type × FieldItems rest
end

mutual
/-- The item of a value; the sign of a big integer does not travel. -/
def itemOf : (type : GoType) → Value type → Item type
  | .uint _, value => value
  | .int _, value => value
  | .bool, value => value
  | .string, value => value
  | .bigInt, (value : Int) => value.natAbs
  | .number, value => Bn.bytes value
  | .rawValue, value => value
  | .slice elem, (value : List (Value elem)) => value.map (itemOf elem)
  | .array _ elem, value => ⟨value.1.map (itemOf elem), by simp [value.2]⟩
  | .struct fields, value => fieldItemsOf fields value
  | .ptr elem, (value : Option (Value elem)) => value.map (itemOf elem)
  | .map key elem, value =>
      (sortEntries key value).map fun entry =>
        (itemOf key entry.1, itemOf elem entry.2)

def fieldItemsOf : (fields : Fields) → FieldValues fields → FieldItems fields
  | .nil, _ => ()
  | .cons _ _ type rest, value => (itemOf type value.1, fieldItemsOf rest value.2)
end

/-- What stands for a nil pointer to the type; `zero` are the pieces of its zero
value. -/
def nilPieces (elem : GoType) (zero : List Piece) : List Piece :=
  match elem with
  | .bigInt => [.data [0x80]]
  | .number => [.data [0x00]]
  | .array _ inner => if inner.isByte then [.data [0x80]] else listPieces []
  | .struct _ => listPieces []
  | _ => zero

/-- One entry of a map: the string of a list of two strings. -/
def entryBytes (keyBytes elemBytes : List Byte) : List Byte :=
  wireString (wireList (wireString keyBytes ++ wireString elemBytes))

def slicePieces (tail : Bool) :
    (elem : GoType) → (Item elem → List Piece) → List (Item elem) → List Piece
  | .uint .uint8, _, content => [.data (wireString content)]
  | _, inner, items =>
      if tail then items.flatMap inner else listPieces (items.flatMap inner)

mutual
def pieces : (type : GoType) → Tags → Item type → List Piece
  | .uint _, _, (item : BitVec _) => [.data (wireUint item.toNat)]
  | .int _, _, (item : BitVec _) => [.data (wireUint item.toNat)]
  | .bool, _, (item : Bool) => [.data (wireUint item.toNat)]
  | .string, _, item => [.data (wireString item)]
  | .bigInt, _, item => [.data (wireUint item)]
  | .number, _, item => [.data (wireString item)]
  | .rawValue, _, (item : List Byte) => [.data item]
  | .slice elem, tags, items => slicePieces tags.tail elem (pieces elem {}) items
  | .array _ elem, _, items => slicePieces false elem (pieces elem {}) items.1
  | .struct fields, _, items => listPieces (fieldPieces fields items)
  | .ptr elem, _, (item : Option (Item elem)) =>
      match item with
      | none => nilPieces elem (pieces elem {} (itemOf elem (zeroValue elem)))
      | some item => pieces elem {} item
  | .map key elem, _, (entries : List (Item key × Item elem)) =>
      [.data (wireString (wireList (entries.flatMap fun entry =>
        entryBytes (render (pieces key {} entry.1)) (render (pieces elem {} entry.2)))))]

def fieldPieces : (fields : Fields) → FieldItems fields → List Piece
  | .nil, _ => []
  | .cons _ tags type rest, items =>
      pieces type tags items.1 ++ fieldPieces rest items.2
end

theorem fieldPieces_fieldItemsOf (name : String) (tags : Tags) (type : GoType)
    (rest : Fields) (value : FieldValues (.cons name tags type rest)) :
    fieldPieces (.cons name tags type rest)
        (fieldItemsOf (.cons name tags type rest) value) =
      pieces type tags (itemOf type value.1) ++
        fieldPieces rest (fieldItemsOf rest value.2) := rfl

def itemBytes (type : GoType) (item : Item type) : List Byte :=
  render (pieces type {} item)

def encodedLength (type : GoType) (value : Value type) : Nat :=
  (itemBytes type (itemOf type value)).length

mutual
def NonNegative : (type : GoType) → Value type → Prop
  | .uint _, _ => True
  | .int _, _ => True
  | .bool, _ => True
  | .string, _ => True
  | .number, _ => True
  | .rawValue, _ => True
  | .bigInt, (value : Int) => 0 ≤ value
  | .slice elem, (value : List (Value elem)) => ∀ inner ∈ value, NonNegative elem inner
  | .array _ elem, value => ∀ inner ∈ value.1, NonNegative elem inner
  | .struct fields, value => FieldsNonNegative fields value
  | .ptr elem, (value : Option (Value elem)) => ∀ inner ∈ value, NonNegative elem inner
  | .map key elem, (value : List (Value key × Value elem)) =>
      ∀ entry ∈ value, NonNegative key entry.1 ∧ NonNegative elem entry.2

def FieldsNonNegative : (fields : Fields) → FieldValues fields → Prop
  | .nil, _ => True
  | .cons _ _ type rest, value =>
      NonNegative type value.1 ∧ FieldsNonNegative rest value.2
end

end Bclib.Rlp
