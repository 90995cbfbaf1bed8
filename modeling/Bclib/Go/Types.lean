import Bclib.Data.BigEndian
import Mathlib.Data.List.Forall2
import Mathlib.Data.List.Perm.Basic

namespace Bclib.Go

open Data

/-! The reflected types the codec dispatches on, and their values.  A value is
what a reader of the variable sees: pointers are followed, a slice is the list
of its elements, a map is the list of its entries in one enumeration order.
Nil and empty slices and maps are one value. -/

inductive UintKind where
  | uint8 | uint16 | uint32 | uint64 | uint | uintptr
  deriving DecidableEq, Repr

inductive IntKind where
  | int8 | int16 | int32 | int64 | int
  deriving DecidableEq, Repr

def UintKind.bits : UintKind → Nat
  | .uint8 => 8
  | .uint16 => 16
  | .uint32 => 32
  | .uint64 => 64
  | .uint => 64
  | .uintptr => 64

def IntKind.bits : IntKind → Nat
  | .int8 => 8
  | .int16 => 16
  | .int32 => 32
  | .int64 => 64
  | .int => 64

/-- Struct tags that change how a field is coded. -/
structure Tags where
  nilOK : Bool := false
  tail : Bool := false
  deriving DecidableEq, Repr

mutual
inductive GoType where
  | uint (kind : UintKind)
  | int (kind : IntKind)
  | bool
  | string
  | bigInt
  | number
  | rawValue
  | slice (elem : GoType)
  | array (length : Nat) (elem : GoType)
  | struct (fields : Fields)
  | ptr (elem : GoType)
  | map (key elem : GoType)
  deriving DecidableEq, Repr

/-- The fields `structFields` selects, in declaration order. -/
inductive Fields where
  | nil
  | cons (name : String) (tags : Tags) (type : GoType) (rest : Fields)
  deriving DecidableEq, Repr
end

namespace GoType

def byte : GoType := .uint .uint8

def isByte : GoType → Bool
  | .uint .uint8 => true
  | _ => false

def isMap : GoType → Bool
  | .map _ _ => true
  | _ => false

theorem eq_byte_of_isByte {type : GoType} (check : type.isByte = true) :
    type = byte := by
  cases type with
  | uint kind => cases kind <;> first | rfl | simp [isByte] at check
  | _ => simp [isByte] at check

end GoType

mutual
def Value : GoType → Type
  | .uint kind => BitVec kind.bits
  | .int kind => BitVec kind.bits
  | .bool => Bool
  | .string => List Byte
  | .bigInt => Int
  | .number => Option Int
  | .rawValue => List Byte
  | .slice elem => List (Value elem)
  | .array length elem => { elems : List (Value elem) // elems.length = length }
  | .struct fields => FieldValues fields
  | .ptr elem => Option (Value elem)
  | .map key elem => List (Value key × Value elem)

def FieldValues : Fields → Type
  | .nil => Unit
  | .cons _ _ type rest => Value type × FieldValues rest
end

mutual
def zeroValue : (type : GoType) → Value type
  | .uint kind => (0 : BitVec kind.bits)
  | .int kind => (0 : BitVec kind.bits)
  | .bool => false
  | .string => ([] : List Byte)
  | .bigInt => (0 : Int)
  | .number => (none : Option Int)
  | .rawValue => ([] : List Byte)
  | .slice elem => ([] : List (Value elem))
  | .array length elem => ⟨List.replicate length (zeroValue elem), by simp⟩
  | .struct fields => zeroFieldValues fields
  | .ptr elem => (none : Option (Value elem))
  | .map key elem => ([] : List (Value key × Value elem))

def zeroFieldValues : (fields : Fields) → FieldValues fields
  | .nil => ()
  | .cons _ _ type rest => (zeroValue type, zeroFieldValues rest)
end

mutual
def valueDecidableEq : (type : GoType) → DecidableEq (Value type)
  | .uint kind => inferInstanceAs (DecidableEq (BitVec kind.bits))
  | .int kind => inferInstanceAs (DecidableEq (BitVec kind.bits))
  | .bool => inferInstanceAs (DecidableEq Bool)
  | .string => inferInstanceAs (DecidableEq (List Byte))
  | .bigInt => inferInstanceAs (DecidableEq Int)
  | .number => inferInstanceAs (DecidableEq (Option Int))
  | .rawValue => inferInstanceAs (DecidableEq (List Byte))
  | .slice elem =>
      have := valueDecidableEq elem
      inferInstanceAs (DecidableEq (List (Value elem)))
  | .array length elem =>
      have := valueDecidableEq elem
      inferInstanceAs
        (DecidableEq { elems : List (Value elem) // elems.length = length })
  | .struct fields => fieldValuesDecidableEq fields
  | .ptr elem =>
      have := valueDecidableEq elem
      inferInstanceAs (DecidableEq (Option (Value elem)))
  | .map key elem =>
      have := valueDecidableEq key
      have := valueDecidableEq elem
      inferInstanceAs (DecidableEq (List (Value key × Value elem)))

def fieldValuesDecidableEq : (fields : Fields) → DecidableEq (FieldValues fields)
  | .nil => inferInstanceAs (DecidableEq Unit)
  | .cons _ _ type rest =>
      have := valueDecidableEq type
      have := fieldValuesDecidableEq rest
      inferInstanceAs (DecidableEq (Value type × FieldValues rest))
end

instance : DecidableEq (Value type) := valueDecidableEq type

instance : DecidableEq (FieldValues fields) := fieldValuesDecidableEq fields

mutual
/-- Deep equality: the same value up to the order in which the maps inside
it happen to be enumerated. -/
def SameValue : (type : GoType) → Value type → Value type → Prop
  | .uint _, left, right => left = right
  | .int _, left, right => left = right
  | .bool, left, right => left = right
  | .string, left, right => left = right
  | .bigInt, left, right => left = right
  | .number, left, right => left = right
  | .rawValue, left, right => left = right
  | .slice elem, left, right => List.Forall₂ (SameValue elem) left right
  | .array _ elem, left, right => List.Forall₂ (SameValue elem) left.1 right.1
  | .struct fields, left, right => SameFields fields left right
  | .ptr elem, left, right => Option.Rel (SameValue elem) left right
  | .map key elem, left, right =>
      ∃ reordered : List (Value key × Value elem),
        List.Perm left reordered ∧
          List.Forall₂
            (fun first second =>
              SameValue key first.1 second.1 ∧ SameValue elem first.2 second.2)
            reordered right

def SameFields : (fields : Fields) → FieldValues fields → FieldValues fields → Prop
  | .nil, _, _ => True
  | .cons _ _ type rest, left, right =>
      SameValue type left.1 right.1 ∧ SameFields rest left.2 right.2
end

mutual
theorem SameValue.refl : (type : GoType) → (value : Value type) → SameValue type value value
  | .uint _, _ => rfl
  | .int _, _ => rfl
  | .bool, _ => rfl
  | .string, _ => rfl
  | .bigInt, _ => rfl
  | .number, _ => rfl
  | .rawValue, _ => rfl
  | .slice elem, _ => List.forall₂_same.2 fun inner _ => SameValue.refl elem inner
  | .array _ elem, _ => List.forall₂_same.2 fun inner _ => SameValue.refl elem inner
  | .struct fields, value => SameFields.refl fields value
  | .ptr _, none => .none
  | .ptr elem, some inner => .some (SameValue.refl elem inner)
  | .map key elem, value => ⟨value, .refl value, List.forall₂_same.2 fun entry _ =>
      ⟨SameValue.refl key entry.1, SameValue.refl elem entry.2⟩⟩

theorem SameFields.refl : (fields : Fields) → (value : FieldValues fields) →
    SameFields fields value value
  | .nil, _ => trivial
  | .cons _ _ type rest, value =>
      ⟨SameValue.refl type value.1, SameFields.refl rest value.2⟩
end

end Bclib.Go
