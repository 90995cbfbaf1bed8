import Bclib.Bn.Storage
import Bclib.Data.Assoc
import Bclib.Rlp.Parse

namespace Bclib.Rlp

open Data
open Go

/-! The decoder.  A decoder reads from the stream into a variable; what the
variable already refers to is reused where the code reuses it. -/

structure Decoded (α : Type) where
  err : Option Err
  stream : Stream
  heap : Heap
  cell : α

abbrev Decoder (α : Type) := Stream → Heap → α → Decoded α

/-- Reads with a method of the stream, adjusts its error, and stores what was
read. -/
def decodeWith (read : Parser β) (wrap : Err → Err) (set : β → Heap → α → Heap × α) :
    Decoder α := fun stream heap cell =>
  match read stream with
  | (.error err, next) => ⟨some (wrap err), next, heap, cell⟩
  | (.ok content, next) =>
      let (heap, cell) := set content heap cell
      ⟨none, next, heap, cell⟩

def decodeFor (type : GoType) (read : Parser β) (set : β → Heap → α → Heap × α) :
    Decoder α :=
  decodeWith read (fun err => wrapStreamError err type) set

def assign (make : β → α) (content : β) (heap : Heap) (_ : α) : Heap × α :=
  (heap, make content)

def setBytes (content : List Byte) (heap : Heap) (_ : SliceHeader) :
    Heap × SliceHeader :=
  heap.allocSlice .byte content

def decodeRawValue : Decoder SliceHeader := decodeWith Stream.raw id setBytes

def decodeUint (kind : UintKind) : Decoder (BitVec kind.bits) :=
  decodeFor (.uint kind) (fun stream => stream.uint kind.bits)
    (assign (BitVec.ofNat kind.bits))

def decodeInt (kind : IntKind) : Decoder (BitVec kind.bits) :=
  decodeFor (.int kind) (fun stream => stream.uint kind.bits)
    (assign (BitVec.ofNat kind.bits))

def decodeBool : Decoder Bool := decodeFor .bool Stream.bool (assign id)

def decodeString : Decoder (List Byte) := decodeFor .string Stream.bytes (assign id)

def decodeByteSlice : Decoder SliceHeader :=
  decodeFor (.slice .byte) Stream.bytes setBytes

def decodeNumber : Decoder (Option Nat) :=
  decodeFor (.ptr .number) Stream.bytes
    (fun content heap cell => Bn.setBytesAt heap cell content)

def decodeNumberPtr : Decoder (Option Nat) :=
  decodeFor (.ptr .number) Stream.bytes fun content heap cell =>
    let (heap, address) :=
      match cell with
      | none => (heap.allocCell .number (zeroCell .number), heap.size .number)
      | some address => (heap, address)
    let (heap, number) := Bn.setBytesAt heap (heap.target .number address) content
    (heap.setTarget .number address number, some address)

def decodeBigIntNoPtr : Decoder BigIntCell := fun stream heap cell =>
  match stream.bytes with
  | (.error err, next) => ⟨some (wrapStreamError err (.ptr .bigInt)), next, heap, cell⟩
  | (.ok b, next) =>
      if b.head? = some 0#8 then
        ⟨some (wrapStreamError .canonInt (.ptr .bigInt)), next, heap, cell⟩
      else
        let (heap, cell) := heap.setBigInt cell b
        ⟨none, next, heap, cell⟩

/-- The pointer is set before the bytes are checked. -/
def decodeBigInt : Decoder (Option Nat) := fun stream heap cell =>
  match stream.bytes with
  | (.error err, next) => ⟨some (wrapStreamError err (.ptr .bigInt)), next, heap, cell⟩
  | (.ok b, next) =>
      let (heap, address) :=
        match cell with
        | none => (heap.allocCell .bigInt (zeroCell .bigInt), heap.size .bigInt)
        | some address => (heap, address)
      if b.head? = some 0#8 then
        ⟨some (wrapStreamError .canonInt (.ptr .bigInt)), next, heap, some address⟩
      else
        let (heap, changed) := heap.setBigInt (heap.target .bigInt address) b
        ⟨none, next, heap.setTarget .bigInt address changed, some address⟩

/-! Slices.  Elements are decoded in place, behind a header that grows. -/

/-- Makes room for index `i`; the old elements move to the new block. -/
def growSlice (heap : Heap) (elem : GoType) (header : SliceHeader) (i : Nat) :
    Heap × SliceHeader :=
  let cap := heap.cap elem header
  if cap ≤ i then
    let newcap := if cap + cap / 2 < 4 then 4 else cap + cap / 2
    let moved := heap.elems elem header
    (heap.alloc elem
      (moved ++ List.replicate (newcap - moved.length) (zeroCell elem)),
      ⟨some (heap.size elem), header.len⟩)
  else (heap, header)

def openIndex (heap : Heap) (elem : GoType) (header : SliceHeader) (i : Nat) :
    Heap × SliceHeader :=
  let (heap, header) := growSlice heap elem header i
  (heap, if header.len ≤ i then { header with len := i + 1 } else header)

def elemAt (heap : Heap) (elem : GoType) (header : SliceHeader) (i : Nat) : Cell elem :=
  ((heap.backing elem header)[i]?).getD (zeroCell elem)

def setElem (heap : Heap) (elem : GoType) (header : SliceHeader) (i : Nat)
    (cell : Cell elem) : Heap :=
  match header.base with
  | none => heap
  | some address => heap.write elem address ((heap.block elem address).set i cell)

def decodeSliceElems (elem : GoType) (elemdec : Decoder (Cell elem)) :
    Nat → Nat → Decoder SliceHeader
  | 0, _, stream, heap, header => ⟨some .outOfFuel, stream, heap, header⟩
  | fuel + 1, i, stream, heap, header =>
      let (heap, header) := openIndex heap elem header i
      let inner := elemdec stream heap (elemAt heap elem header i)
      let heap := setElem inner.heap elem header i inner.cell
      match inner.err with
      | some .eol =>
          ⟨none, inner.stream, heap, if i < header.len then { header with len := i } else header⟩
      | some err => ⟨some (addErrorContext err (.index i)), inner.stream, heap, header⟩
      | none => decodeSliceElems elem elemdec fuel (i + 1) inner.stream heap header

def decodeListSlice (fuel : Nat) (elem : GoType) (elemdec : Decoder (Cell elem)) :
    Decoder SliceHeader := fun stream heap header =>
  match stream.list with
  | (.error err, next) => ⟨some (wrapStreamError err (.slice elem)), next, heap, header⟩
  | (.ok size, next) =>
      if size = 0 then
        match next.listEnd with
        | (.error err, last) => ⟨some err, last, heap, .empty⟩
        | (.ok (), last) => ⟨none, last, heap, .empty⟩
      else
        let body := decodeSliceElems elem elemdec fuel 0 next heap header
        match body.err with
        | some err => { body with err := some err }
        | none =>
            match body.stream.listEnd with
            | (.error err, last) => { body with err := some err, stream := last }
            | (.ok (), last) => { body with stream := last }

def sliceDecoder (fuel : Nat) (tail : Bool) :
    (elem : GoType) → Decoder (Cell elem) → Decoder SliceHeader
  | .uint .uint8, _ => decodeByteSlice
  | elem, elemdec =>
      if tail then decodeSliceElems elem elemdec fuel 0
      else decodeListSlice fuel elem elemdec

theorem sliceDecoder_of_not_byte (fuel : Nat) (tail : Bool) {elem : GoType}
    (other : elem.isByte = false) (elemdec : Decoder (Cell elem)) :
    sliceDecoder fuel tail elem elemdec =
      if tail then decodeSliceElems elem elemdec fuel 0
      else decodeListSlice fuel elem elemdec := by
  cases elem with
  | uint kind => cases kind <;> first | rfl | simp [GoType.isByte] at other
  | _ => rfl

theorem eq_length_of_one {length : Nat} (one : length = 1) : 1 = length := one.symm

def decodeArrayElems (type : GoType) (elemdec : Decoder α) :
    Nat → (cells : List α) → Stream → Heap →
      Decoded { filled : List α // filled.length = cells.length }
  | _, [], stream, heap => ⟨none, stream, heap, ⟨[], List.length_nil⟩⟩
  | i, cell :: rest, stream, heap =>
      let inner := elemdec stream heap cell
      let stopped (err : Err) :
          Decoded { filled : List α // filled.length = (cell :: rest).length } :=
        ⟨some err, inner.stream, inner.heap, ⟨inner.cell :: rest, rfl⟩⟩
      match inner.err with
      | some .eol => stopped (.decode "input list has too few elements" type [])
      | some err => stopped (addErrorContext err (.index i))
      | none =>
          let body := decodeArrayElems type elemdec (i + 1) rest inner.stream inner.heap
          ⟨body.err, body.stream, body.heap,
            ⟨inner.cell :: body.cell.1, by simp [body.cell.2]⟩⟩

/-- `List`, the body, and `ListEnd` with their errors reported for the type. -/
def decodeInList (type : GoType) (body : Decoder α) : Decoder α :=
  fun stream heap cell =>
    match stream.list with
    | (.error err, next) => ⟨some (wrapStreamError err type), next, heap, cell⟩
    | (.ok _, next) =>
        let inner := body next heap cell
        match inner.err with
        | some err => { inner with err := some err }
        | none =>
            match inner.stream.listEnd with
            | (.error err, last) =>
                { inner with err := some (wrapStreamError err type), stream := last }
            | (.ok (), last) => { inner with stream := last }

def decodeListArray (length : Nat) (elem : GoType) (elemdec : Decoder (Cell elem)) :
    Decoder (Cell (.array length elem)) :=
  decodeInList (.array length elem) fun stream heap cell =>
    let body := decodeArrayElems (.array length elem) elemdec 0 cell.1 stream heap
    ⟨body.err, body.stream, body.heap, ⟨body.cell.1, body.cell.2.trans cell.2⟩⟩

/-- The bytes are checked after they have been read into the array. -/
def decodeByteArray (length : Nat) :
    Decoder { content : List Byte // content.length = length } :=
  fun stream heap cell =>
    let type : GoType := .array length .byte
    match stream.kind with
    | (.error err, next) => ⟨some err, next, heap, cell⟩
    | (.ok (.byte, _), next) =>
        if one : length = 1 then
          match next.uint 64 with
          | (.error _, last) => ⟨none, last, heap, ⟨[0], eq_length_of_one one⟩⟩
          | (.ok number, last) =>
              ⟨none, last, heap, ⟨[BitVec.ofNat 8 number], eq_length_of_one one⟩⟩
        else if length = 0 then ⟨some (tooLong type), next, heap, cell⟩
        else ⟨some (tooShort type), next, heap, cell⟩
    | (.ok (.string, size), next) =>
        if length < size then ⟨some (tooLong type), next, heap, cell⟩
        else if size < length then ⟨some (tooShort type), next, heap, cell⟩
        else
          match next.readFull length with
          | (.error err, last) => ⟨some err, last, heap, cell⟩
          | (.ok content, last) =>
              if filled : content.length = length then
                if size = 1 ∧ (content.headD 0).toNat < 128 then
                  ⟨some (wrapStreamError .canonSize type), last, heap,
                    ⟨content, filled⟩⟩
                else ⟨none, last, heap, ⟨content, filled⟩⟩
              else ⟨some .panic, last, heap, cell⟩
    | (.ok (.list, _), next) =>
        ⟨some (wrapStreamError .expectedString type), next, heap, cell⟩

def arrayDecoder (length : Nat) :
    (elem : GoType) → Decoder (Cell elem) → Decoder (Cell (.array length elem))
  | .uint .uint8, _ => decodeByteArray length
  | elem, elemdec => decodeListArray length elem elemdec

theorem arrayDecoder_of_not_byte (length : Nat) {elem : GoType}
    (other : elem.isByte = false) (elemdec : Decoder (Cell elem)) :
    arrayDecoder length elem elemdec = decodeListArray length elem elemdec := by
  cases elem with
  | uint kind => cases kind <;> first | rfl | simp [GoType.isByte] at other
  | _ => rfl

/-- A map field is decoded into a map of its own, set back on success. -/
def fieldDecoder (type : GoType) (dec : Decoder (Cell type)) : Decoder (Cell type) :=
  if type.isMap then fun stream heap cell =>
    let mapval := dec stream heap (zeroCell type)
    match mapval.err with
    | some _ => { mapval with cell := cell }
    | none => mapval
  else dec

/-- A nil pointer is decoded through a new variable, which it is set to on
success. -/
def makePtrDecoder (elem : GoType) (elemdec : Decoder (Cell elem)) :
    Decoder (Option Nat) := fun stream heap cell =>
  match cell with
  | none =>
      let newval := elemdec stream heap (zeroCell elem)
      match newval.err with
      | some err => ⟨some err, newval.stream, newval.heap, none⟩
      | none =>
          ⟨none, newval.stream, newval.heap.allocCell elem newval.cell,
            some (newval.heap.size elem)⟩
  | some address =>
      let inner := elemdec stream heap (heap.target elem address)
      ⟨inner.err, inner.stream, inner.heap.setTarget elem address inner.cell,
        some address⟩

/-- Under the tag `nil`, an empty value sets the pointer to nil; the header is
dropped without having been read past. -/
def makeOptionalPtrDecoder (elem : GoType) (elemdec : Decoder (Cell elem)) :
    Decoder (Option Nat) := fun stream heap cell =>
  match stream.kind with
  | (.error err, next) => ⟨some err, next.rearm, heap, none⟩
  | (.ok (kind, size), next) =>
      if size = 0 ∧ kind ≠ .byte then ⟨none, next.rearm, heap, none⟩
      else makePtrDecoder elem elemdec next heap cell

def ptrDecoder (nilOK : Bool) :
    (elem : GoType) → Decoder (Cell elem) → Decoder (Option Nat)
  | .bigInt, _ => decodeBigInt
  | .number, _ => decodeNumberPtr
  | elem, elemdec =>
      if nilOK then makeOptionalPtrDecoder elem elemdec else makePtrDecoder elem elemdec

/-- `DecodeBytes` into an existing variable. -/
def decodeBytesInto (type : GoType) (dec : Decoder α) (b : List Byte) (heap : Heap)
    (cell : α) : Decoded α :=
  let inner := dec (newStream b b.length) heap cell
  match inner.err with
  | some err => { inner with err := some (addTarget err type) }
  | none =>
      if inner.stream.input.length > 0 then
        { inner with err := some .moreThanOneValue }
      else inner

/-- The loop of `decodeMap`: all entries are decoded through one key variable and
one value variable.  An entry that is not a pair ends it without an error. -/
def decodeEntries (fuel : Nat) (key elem : GoType) (keydec : Decoder (Cell key))
    (elemdec : Decoder (Cell elem)) :
    List (List Byte) → Heap → Cell key → Cell elem → List (Cell key × Cell elem) →
      Option Err × Heap × List (Cell key × Cell elem)
  | [], heap, _, _, entries => (none, heap, entries)
  | v :: rest, heap, keyCell, value, entries =>
      let type : GoType := .map key elem
      match parseByteSlices fuel v with
      | .error err => (some (wrapStreamError err type), heap, entries)
      | .ok [kb, vb] =>
          let keyed := decodeBytesInto key keydec kb heap keyCell
          match keyed.err with
          | some err => (some (wrapStreamError err type), keyed.heap, entries)
          | none =>
              let value := if elem.isMap then zeroCell elem else value
              let valued := decodeBytesInto elem elemdec vb keyed.heap value
              match valued.err with
              | some err => (some (wrapStreamError err type), valued.heap, entries)
              | none =>
                  decodeEntries fuel key elem keydec elemdec rest valued.heap keyed.cell
                    valued.cell (assocSet entries keyed.cell valued.cell)
      | .ok _ => (none, heap, entries)

def decodeMap (fuel : Nat) (key elem : GoType) (keydec : Decoder (Cell key))
    (elemdec : Decoder (Cell elem)) : Decoder (List (Cell key × Cell elem)) :=
  fun stream heap cell =>
    let type : GoType := .map key elem
    match stream.bytes with
    | (.error err, next) => ⟨some (wrapStreamError err type), next, heap, cell⟩
    | (.ok b, next) =>
        match parseByteSlices fuel b with
        | .error err => ⟨some (wrapStreamError err type), next, heap, []⟩
        | .ok bbt =>
            let (err, heap, entries) :=
              decodeEntries fuel key elem keydec elemdec bbt heap (zeroCell key)
                (zeroCell elem) []
            ⟨err, next, heap, entries⟩

mutual
/-- The decoder `makeDecoder` chooses for a type and its tags. -/
def makeDecoder (fuel : Nat) : (type : GoType) → Tags → Decoder (Cell type)
  | .uint kind, _ => decodeUint kind
  | .int kind, _ => decodeInt kind
  | .bool, _ => decodeBool
  | .string, _ => decodeString
  | .bigInt, _ => decodeBigIntNoPtr
  | .number, _ => decodeNumber
  | .rawValue, _ => decodeRawValue
  | .slice elem, tags => sliceDecoder fuel tags.tail elem (makeDecoder fuel elem {})
  | .array length elem, _ => arrayDecoder length elem (makeDecoder fuel elem {})
  | .struct fields, _ =>
      decodeInList (.struct fields) (decodeFields fuel (.struct fields) fields)
  | .ptr elem, tags => ptrDecoder tags.nilOK elem (makeDecoder fuel elem {})
  | .map key elem, _ =>
      decodeMap fuel key elem (makeDecoder fuel key {}) (makeDecoder fuel elem {})

def decodeFields (fuel : Nat) (type : GoType) :
    (fields : Fields) → Decoder (FieldCells fields)
  | .nil, stream, heap, cells => ⟨none, stream, heap, cells⟩
  | .cons name tags field rest, stream, heap, cells =>
      let inner := fieldDecoder field (makeDecoder fuel field tags) stream heap cells.1
      match inner.err with
      | some .eol =>
          ⟨some (.decode "too few elements" type []), inner.stream, inner.heap,
            (inner.cell, cells.2)⟩
      | some err =>
          ⟨some (addErrorContext err (.field name)), inner.stream, inner.heap,
            (inner.cell, cells.2)⟩
      | none =>
          let body := decodeFields fuel type rest inner.stream inner.heap cells.2
          ⟨body.err, body.stream, body.heap, (inner.cell, body.cell)⟩
end

/-- `DecodeBytes` into a fresh variable, and the value it then holds. -/
def decodeBytes (fuel : Nat) (type : GoType) (b : List Byte) :
    Except Err (Value type) :=
  let decoded := decodeBytesInto type (makeDecoder fuel type {}) b .empty (zeroCell type)
  match decoded.err with
  | some err => .error err
  | none => .ok (load decoded.heap type decoded.cell)

end Bclib.Rlp
