import Bclib.Rlp.Item

namespace Bclib.Rlp

open Data
open Go

/-! The decoders without the memory they decode into: what each reads from the
stream, as an item.  Loops carry fuel, because some of them need not end. -/

abbrev Parser (α : Type) := Stream → Except Err α × Stream

/-- Reads with a method of the stream and adjusts its error. -/
def parseWith (read : Parser α) (wrap : Err → Err) (make : α → β) : Parser β :=
  fun stream =>
    match read stream with
    | (.error err, next) => (.error (wrap err), next)
    | (.ok content, next) => (.ok (make content), next)

/-- A read that reports its errors for a target type. -/
def parseFor (type : GoType) (read : Parser α) (make : α → β) : Parser β :=
  parseWith read (fun err => wrapStreamError err type) make

def parseBigInt : Parser Nat := fun stream =>
  match stream.bytes with
  | (.error err, next) => (.error (wrapStreamError err (.ptr .bigInt)), next)
  | (.ok content, next) =>
      if content.head? = some 0#8 then
        (.error (wrapStreamError .canonInt (.ptr .bigInt)), next)
      else
        (.ok (ofBigEndian content), next)

def parseElems (inner : Parser α) : Nat → Nat → Parser (List α)
  | 0, _, stream => (.error .outOfFuel, stream)
  | fuel + 1, i, stream =>
      match inner stream with
      | (.error .eol, next) => (.ok [], next)
      | (.error err, next) => (.error (addErrorContext err (.index i)), next)
      | (.ok item, next) =>
          match parseElems inner fuel (i + 1) next with
          | (.error err, last) => (.error err, last)
          | (.ok items, last) => (.ok (item :: items), last)

def parseListSlice (fuel : Nat) (type : GoType) (inner : Parser α) : Parser (List α) :=
  fun stream =>
    match stream.list with
    | (.error err, next) => (.error (wrapStreamError err type), next)
    | (.ok size, next) =>
        if size = 0 then
          match next.listEnd with
          | (.error err, last) => (.error err, last)
          | (.ok (), last) => (.ok [], last)
        else
          match parseElems inner fuel 0 next with
          | (.error err, next) => (.error err, next)
          | (.ok items, next) =>
              match next.listEnd with
              | (.error err, last) => (.error err, last)
              | (.ok (), last) => (.ok items, last)

def parseTuple (type : GoType) (inner : Parser α) :
    (count : Nat) → Nat → Parser { items : List α // items.length = count }
  | 0, _, stream => (.ok ⟨[], rfl⟩, stream)
  | count + 1, i, stream =>
      match inner stream with
      | (.error .eol, next) =>
          (.error (.decode "input list has too few elements" type []), next)
      | (.error err, next) => (.error (addErrorContext err (.index i)), next)
      | (.ok item, next) =>
          match parseTuple type inner count (i + 1) next with
          | (.error err, last) => (.error err, last)
          | (.ok items, last) => (.ok ⟨item :: items.1, by simp [items.2]⟩, last)

def parseInList (type : GoType) (body : Parser α) : Parser α := fun stream =>
  match stream.list with
  | (.error err, next) => (.error (wrapStreamError err type), next)
  | (.ok _, next) =>
      match body next with
      | (.error err, next) => (.error err, next)
      | (.ok items, next) =>
          match next.listEnd with
          | (.error err, last) => (.error (wrapStreamError err type), last)
          | (.ok (), last) => (.ok items, last)

def tooLong (type : GoType) : Err := .decode "input string too long" type []

def tooShort (type : GoType) : Err := .decode "input string too short" type []

/-- `decodeByteArray`.  A single byte is fetched with `Uint`, whose error is
dropped. -/
def parseByteArray (length : Nat) :
    Parser { content : List Byte // content.length = length } := fun stream =>
  let type : GoType := .array length .byte
  match stream.kind with
  | (.error err, next) => (.error err, next)
  | (.ok (.byte, _), next) =>
      if one : length = 1 then
        match next.uint 64 with
        | (.error _, last) => (.ok ⟨[0], one.symm⟩, last)
        | (.ok number, last) => (.ok ⟨[BitVec.ofNat 8 number], one.symm⟩, last)
      else if length = 0 then (.error (tooLong type), next)
      else (.error (tooShort type), next)
  | (.ok (.string, size), next) =>
      if length < size then (.error (tooLong type), next)
      else if size < length then (.error (tooShort type), next)
      else
        match next.readFull length with
        | (.error err, last) => (.error err, last)
        | (.ok content, last) =>
            if size = 1 ∧ (content.headD 0).toNat < 128 then
              (.error (wrapStreamError .canonSize type), last)
            else if filled : content.length = length then (.ok ⟨content, filled⟩, last)
            else (.error .panic, last)
  | (.ok (.list, _), next) => (.error (wrapStreamError .expectedString type), next)

def sliceParser (fuel : Nat) (tail : Bool) :
    (elem : GoType) → Parser (Item elem) → Parser (List (Item elem))
  | .uint .uint8, _ => parseFor (.slice .byte) Stream.bytes id
  | elem, inner =>
      if tail then parseElems inner fuel 0
      else parseListSlice fuel (.slice elem) inner

def arrayParser (length : Nat) :
    (elem : GoType) → Parser (Item elem) → Parser (Item (.array length elem))
  | .uint .uint8, _ => parseByteArray length
  | elem, inner =>
      parseInList (.array length elem)
        (parseTuple (.array length elem) inner length 0)

/-- `makePtrDecoder`, and `makeOptionalPtrDecoder` under the tag `nil`, which
big integers and numbers ignore. -/
def ptrParser (nilOK : Bool) :
    (elem : GoType) → Parser (Item elem) → Parser (Option (Item elem))
  | .bigInt, inner => parseWith inner id some
  | .number, inner => parseWith inner id some
  | _, inner =>
      if nilOK then fun stream =>
        match stream.kind with
        | (.error err, next) => (.error err, next.rearm)
        | (.ok (kind, size), next) =>
            if size = 0 ∧ kind ≠ .byte then (.ok none, next.rearm)
            else parseWith inner id some next
      else parseWith inner id some

/-- `Stream.Decode` adds the target to errors that have a path. -/
def addTarget (err : Err) (type : GoType) : Err :=
  match err with
  | .decode message target context =>
      if context.isEmpty then err
      else .decode message target (context ++ [.target type])
  | other => other

/-- `DecodeBytes` around a parser: exactly one value and no trailing data. -/
def parseBytes (type : GoType) (parser : Parser α) (b : List Byte) : Except Err α :=
  match parser (newStream b b.length) with
  | (.error err, _) => .error (addTarget err type)
  | (.ok item, next) =>
      if next.input.length > 0 then .error .moreThanOneValue else .ok item

/-- `DecodeBytes` into a fresh `[][]byte`. -/
def parseByteSlices (fuel : Nat) (b : List Byte) : Except Err (List (List Byte)) :=
  parseBytes (.slice (.slice .byte))
    (parseListSlice fuel (.slice (.slice .byte))
      (parseFor (.slice .byte) Stream.bytes id)) b

/-- One entry of a map, or nothing if it is not a pair. -/
def parseEntry (fuel : Nat) (type key elem : GoType) (keyParser : Parser α)
    (elemParser : Parser β) (v : List Byte) : Except Err (Option (α × β)) :=
  match parseByteSlices fuel v with
  | .error err => .error (wrapStreamError err type)
  | .ok [kb, vb] =>
      match parseBytes key keyParser kb with
      | .error err => .error (wrapStreamError err type)
      | .ok keyItem =>
          match parseBytes elem elemParser vb with
          | .error err => .error (wrapStreamError err type)
          | .ok elemItem => .ok (some (keyItem, elemItem))
  | .ok _ => .ok none

section ParseEntry

variable {fuel : Nat} {type key elem : GoType} {keyParser : Parser α} {elemParser : Parser β}
variable {v : List Byte}

theorem parseEntry_failed {err : Err} (slices : parseByteSlices fuel v = .error err) :
    parseEntry fuel type key elem keyParser elemParser v = .error (wrapStreamError err type) := by
  rw [parseEntry, slices]

theorem parseEntry_pair {kb vb : List Byte} (slices : parseByteSlices fuel v = .ok [kb, vb]) :
    parseEntry fuel type key elem keyParser elemParser v =
      match parseBytes key keyParser kb with
      | .error err => .error (wrapStreamError err type)
      | .ok keyItem =>
          match parseBytes elem elemParser vb with
          | .error err => .error (wrapStreamError err type)
          | .ok elemItem => .ok (some (keyItem, elemItem)) := by
  rw [parseEntry, slices]

theorem parseEntry_other {found : List (List Byte)} (slices : parseByteSlices fuel v = .ok found)
    (other : found.length ≠ 2) :
    parseEntry fuel type key elem keyParser elemParser v = .ok none := by
  rw [parseEntry, slices]
  rcases found with _ | ⟨_, _ | ⟨_, _ | ⟨_, _⟩⟩⟩
  · rfl
  · rfl
  · exact absurd rfl other
  · rfl

end ParseEntry

/-- The loop of `decodeMap`.  An entry that is not a pair ends it: the error
returned there is nil. -/
def parseEntries (fuel : Nat) (type key elem : GoType) (keyParser : Parser α)
    (elemParser : Parser β) : List (List Byte) → Except Err (List (α × β))
  | [] => .ok []
  | v :: rest =>
      match parseEntry fuel type key elem keyParser elemParser v with
      | .error err => .error err
      | .ok none => .ok []
      | .ok (some entry) =>
          match parseEntries fuel type key elem keyParser elemParser rest with
          | .error err => .error err
          | .ok entries => .ok (entry :: entries)

theorem parseEntries_cons (fuel : Nat) (type key elem : GoType) (keyParser : Parser α)
    (elemParser : Parser β) (v : List Byte) (rest : List (List Byte)) :
    parseEntries fuel type key elem keyParser elemParser (v :: rest) =
      match parseEntry fuel type key elem keyParser elemParser v with
      | .error err => .error err
      | .ok none => .ok []
      | .ok (some entry) =>
          match parseEntries fuel type key elem keyParser elemParser rest with
          | .error err => .error err
          | .ok entries => .ok (entry :: entries) := rfl

def parseMap (fuel : Nat) (key elem : GoType) (keyParser : Parser α)
    (elemParser : Parser β) : Parser (List (α × β)) := fun stream =>
  let type : GoType := .map key elem
  match stream.bytes with
  | (.error err, next) => (.error (wrapStreamError err type), next)
  | (.ok b, next) =>
      match parseByteSlices fuel b with
      | .error err => (.error (wrapStreamError err type), next)
      | .ok bbt => (parseEntries fuel type key elem keyParser elemParser bbt, next)

mutual
def parse (fuel : Nat) : (type : GoType) → Tags → Parser (Item type)
  | .uint kind, _ =>
      parseFor (.uint kind) (fun stream => stream.uint kind.bits) (BitVec.ofNat kind.bits)
  | .int kind, _ =>
      parseFor (.int kind) (fun stream => stream.uint kind.bits) (BitVec.ofNat kind.bits)
  | .bool, _ => parseFor .bool Stream.bool id
  | .string, _ => parseFor .string Stream.bytes id
  | .bigInt, _ => parseBigInt
  | .number, _ => parseFor (.ptr .number) Stream.bytes id
  | .rawValue, _ => parseWith Stream.raw id id
  | .slice elem, tags => sliceParser fuel tags.tail elem (parse fuel elem {})
  | .array length elem, _ => arrayParser length elem (parse fuel elem {})
  | .struct fields, _ =>
      parseInList (.struct fields) (parseFields fuel (.struct fields) fields)
  | .ptr elem, tags => ptrParser tags.nilOK elem (parse fuel elem {})
  | .map key elem, _ => parseMap fuel key elem (parse fuel key {}) (parse fuel elem {})

def parseFields (fuel : Nat) (type : GoType) :
    (fields : Fields) → Parser (FieldItems fields)
  | .nil, stream => (.ok (), stream)
  | .cons name tags field rest, stream =>
      match parse fuel field tags stream with
      | (.error .eol, next) => (.error (.decode "too few elements" type []), next)
      | (.error err, next) => (.error (addErrorContext err (.field name)), next)
      | (.ok item, next) =>
          match parseFields fuel type rest next with
          | (.error err, last) => (.error err, last)
          | (.ok items, last) => (.ok (item, items), last)
end

theorem sliceParser_of_not_byte (fuel : Nat) (tail : Bool) {elem : GoType}
    (other : elem.isByte = false) (inner : Parser (Item elem)) :
    sliceParser fuel tail elem inner =
      if tail then parseElems inner fuel 0
      else parseListSlice fuel (.slice elem) inner := by
  cases elem with
  | uint kind => cases kind <;> first | rfl | simp [GoType.isByte] at other
  | _ => rfl

theorem arrayParser_of_not_byte (length : Nat) {elem : GoType}
    (other : elem.isByte = false) (inner : Parser (Item elem)) :
    arrayParser length elem inner =
      parseInList (.array length elem)
        (parseTuple (.array length elem) inner length 0) := by
  cases elem with
  | uint kind => cases kind <;> first | rfl | simp [GoType.isByte] at other
  | _ => rfl

end Bclib.Rlp
