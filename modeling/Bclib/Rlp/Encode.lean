import Bclib.Bn.Number
import Bclib.Data.KeySort
import Bclib.Rlp.Stream

namespace Bclib.Rlp

open Data
open Go

/-! The encoder.  String data goes to one flat buffer; list headers are kept
aside with their offsets and spliced in at the end. -/

structure ListHead where
  offset : Nat
  size : Nat
  deriving DecidableEq, Repr

def ListHead.encode (head : ListHead) : List Byte :=
  puthead 0xC0 0xF7 head.size

structure Encbuf where
  str : List Byte
  lheads : List ListHead
  lhsize : Nat
  deriving DecidableEq, Repr

namespace Encbuf

def reset : Encbuf := ⟨[], [], 0⟩

def write (w : Encbuf) (bytes : List Byte) : Encbuf :=
  { w with str := w.str ++ bytes }

def encodeStringHeader (w : Encbuf) (size : Nat) : Encbuf :=
  if size < 56 then
    w.write [0x80 + toByte size]
  else
    w.write ((0xB7 + toByte (putint size).length) :: putint size)

def encodeString (w : Encbuf) (b : List Byte) : Encbuf :=
  if b.length = 1 ∧ (b.headD 0).toNat ≤ 0x7F then
    w.write [b.headD 0]
  else
    (w.encodeStringHeader b.length).write b

/-- Opens a list.  The position of the new header stands for the pointer to it;
until `listEnd` its size field holds the header bytes written before it. -/
def list (w : Encbuf) : Nat × Encbuf :=
  (w.lheads.length, { w with lheads := w.lheads ++ [⟨w.str.length, w.lhsize⟩] })

def size (w : Encbuf) : Nat := w.str.length + w.lhsize

def listEnd (w : Encbuf) (position : Nat) : Encbuf :=
  match w.lheads[position]? with
  | none => w
  | some head =>
      let size := w.size - head.offset - head.size
      { w with
        lheads := w.lheads.set position { head with size := size }
        lhsize := if size < 56 then w.lhsize + 1 else w.lhsize + 1 + intsize size }

/-- The loop of `toBytes` from string position `strpos` on. -/
def splice (str : List Byte) : Nat → List ListHead → List Byte
  | strpos, [] => str.drop strpos
  | strpos, head :: heads =>
      (str.take head.offset).drop strpos ++ head.encode ++
        splice str head.offset heads

def toBytes (w : Encbuf) : List Byte := splice w.str 0 w.lheads

end Encbuf

abbrev Writer (α : Type) := α → Encbuf → Except Err Encbuf

/-- `EncodeToBytes` around a writer; allocating the result panics when its length
is no `int`. -/
def encodeWith (writer : Encbuf → Except Err Encbuf) : Except Err (List Byte) :=
  match writer .reset with
  | .error err => .error err
  | .ok w => if maxLen ≤ w.size then .error .panic else .ok w.toBytes

/-- The tail of `writeUint` and `writeInt`: `v` decides the form, `i` is what the
single-byte branch writes. -/
def writeIntBytes (v : Nat) (i : Byte) (w : Encbuf) : Encbuf :=
  if v = 0 then
    w.write [0x80]
  else if v < 128 then
    w.write [i]
  else
    w.write ((0x80 + toByte (putint v).length) :: putint v)

def writeUint (kind : UintKind) : Writer (Value (.uint kind)) :=
  fun (value : BitVec kind.bits) w =>
    .ok (writeIntBytes value.toNat (toByte value.toNat) w)

/-- Negative values are folded to the unsigned type of the same width. -/
def writeInt (kind : IntKind) : Writer (Value (.int kind)) :=
  fun (value : BitVec kind.bits) w =>
    let i := value.toInt
    let v := if i < 0 then (i % 2 ^ kind.bits).toNat else i.toNat
    .ok (writeIntBytes v (BitVec.ofInt 8 i) w)

def writeBool : Writer (Value .bool) :=
  fun (value : Bool) w => .ok (w.write [if value then 0x01 else 0x80])

def writeString : Writer (Value .string) :=
  fun (value : List Byte) w =>
    if value.length = 1 ∧ (value.headD 0).toNat ≤ 0x7F then
      .ok (w.write [value.headD 0])
    else
      .ok ((w.encodeStringHeader value.length).write value)

def writeBigInt : Writer (Value .bigInt) :=
  fun (value : Int) w =>
    if value < 0 then
      .error .negativeBigInt
    else if value = 0 then
      .ok (w.write [0x80])
    else
      .ok (w.encodeString (bigEndian value.natAbs))

def writeNumber : Writer (Value .number) :=
  fun (value : Option Int) w => .ok (w.encodeString (Bn.bytes value))

def writeBytes : Writer (List Byte) := fun value w => .ok (w.encodeString value)

def writeRawValue : Writer (List Byte) := fun value w => .ok (w.write value)

def writeElems (writer : Writer α) : List α → Encbuf → Except Err Encbuf
  | [], w => .ok w
  | value :: rest, w =>
      match writer value w with
      | .error err => .error err
      | .ok w => writeElems writer rest w

def inList (body : Encbuf → Except Err Encbuf) (w : Encbuf) : Except Err Encbuf :=
  match body w.list.2 with
  | .error err => .error err
  | .ok last => .ok (last.listEnd w.list.1)

def makeSliceWriter (tail : Bool) (writer : Writer α) : Writer (List α) :=
  fun values w =>
    if tail then writeElems writer values w else inList (writeElems writer values) w

/-- The order `writeMap` sorts keys by.  Keys of any other kind are never less
than each other, so the stable sort leaves them as enumerated. -/
def keyLess : (type : GoType) → Value type → Value type → Bool
  | .string, (left : List Byte), (right : List Byte) => decide (left < right)
  | .uint .uintptr, _, _ => false
  | .uint _, (left : BitVec _), (right : BitVec _) => decide (left.toNat < right.toNat)
  | .int _, (left : BitVec _), (right : BitVec _) => decide (left.toInt < right.toInt)
  | _, _, _ => false

/-- `sort.SliceStable` on the enumerated entries. -/
def sortEntries (key : GoType) (entries : List (Value key × α)) :
    List (Value key × α) :=
  sortByKey (keyLess key) entries

def encodeByteSlices (values : List (List Byte)) : Except Err (List Byte) :=
  encodeWith (makeSliceWriter false writeBytes values)

def encodeEntry (keyWriter : Writer α) (elemWriter : Writer β) (entry : α × β) :
    Except Err (List Byte) :=
  match encodeWith (keyWriter entry.1) with
  | .error err => .error err
  | .ok kb =>
      match encodeWith (elemWriter entry.2) with
      | .error err => .error err
      | .ok vb => encodeByteSlices [kb, vb]

def encodeEntries (keyWriter : Writer α) (elemWriter : Writer β) :
    List (α × β) → Except Err (List (List Byte))
  | [] => .ok []
  | entry :: rest =>
      match encodeEntry keyWriter elemWriter entry with
      | .error err => .error err
      | .ok bts =>
          match encodeEntries keyWriter elemWriter rest with
          | .error err => .error err
          | .ok enKVs => .ok (bts :: enKVs)

def writeMap (key : GoType) (keyWriter : Writer (Value key)) (elemWriter : Writer β) :
    Writer (List (Value key × β)) :=
  fun entries w =>
    match encodeEntries keyWriter elemWriter (sortEntries key entries) with
    | .error err => .error err
    | .ok enKVs =>
        match encodeByteSlices enKVs with
        | .error err => .error err
        | .ok kvs => .ok (w.encodeString kvs)

/-- What a nil pointer to the type is written as; `zero` writes the zero value. -/
def writeNil (elem : GoType) (zero : Encbuf → Except Err Encbuf) (w : Encbuf) :
    Except Err Encbuf :=
  match elem with
  | .array _ inner =>
      if inner.isByte then .ok (w.write [0x80]) else inList .ok w
  | .struct _ => inList .ok w
  | _ => zero w

/-- Byte slices are written as strings. -/
def sliceWriter (tail : Bool) :
    (elem : GoType) → Writer (Value elem) → Writer (List (Value elem))
  | .uint .uint8, _ => writeBytes
  | _, writer => makeSliceWriter tail writer

def arrayWriter (length : Nat) :
    (elem : GoType) → Writer (Value elem) → Writer (Value (.array length elem))
  | .uint .uint8, _ => fun value => writeBytes value.1
  | _, writer => fun value => makeSliceWriter false writer value.1

def writeBigIntPtr : Writer (Option Int) := fun value w =>
  match value with
  | none => .ok (w.write [0x80])
  | some value => writeBigInt value w

def writeNumberPtr : Writer (Option (Option Int)) := fun value w =>
  match value with
  | none => .ok (w.write [0x00])
  | some value => .ok (w.encodeString (Bn.bytes value))

def makePtrWriter (elem : GoType) (writer : Writer (Value elem)) :
    Writer (Option (Value elem)) := fun value w =>
  match value with
  | none => writeNil elem (writer (zeroValue elem)) w
  | some value => writer value w

def ptrWriter :
    (elem : GoType) → Writer (Value elem) → Writer (Option (Value elem))
  | .bigInt, _ => writeBigIntPtr
  | .number, _ => writeNumberPtr
  | elem, writer => makePtrWriter elem writer

mutual
/-- The writer `makeWriter` chooses for a type and its tags. -/
def makeWriter : (type : GoType) → Tags → Writer (Value type)
  | .uint kind, _ => writeUint kind
  | .int kind, _ => writeInt kind
  | .bool, _ => writeBool
  | .string, _ => writeString
  | .bigInt, _ => writeBigInt
  | .number, _ => writeNumber
  | .rawValue, _ => writeRawValue
  | .slice elem, tags => sliceWriter tags.tail elem (makeWriter elem {})
  | .array length elem, _ => arrayWriter length elem (makeWriter elem {})
  | .struct fields, _ => fun value => inList (writeFields fields value)
  | .ptr elem, _ => ptrWriter elem (makeWriter elem {})
  | .map key elem, _ => writeMap key (makeWriter key {}) (makeWriter elem {})

def writeFields : (fields : Fields) → Writer (FieldValues fields)
  | .nil => fun _ w => .ok w
  | .cons _ tags type rest => fun value w =>
      match makeWriter type tags value.1 w with
      | .error err => .error err
      | .ok w => writeFields rest value.2 w
end

def encodeToBytes (type : GoType) (value : Value type) : Except Err (List Byte) :=
  encodeWith (makeWriter type {} value)

end Bclib.Rlp
