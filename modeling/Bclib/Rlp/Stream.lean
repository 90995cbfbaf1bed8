import Bclib.Go.Types
import Bclib.Rlp.Head

namespace Bclib.Rlp

open Data
open Go

/-- What lies ahead in the input. -/
inductive Kind where
  | byte
  | string
  | list
  deriving DecidableEq, Repr

/-- One step of the path a decoding error reports. -/
inductive Context where
  | index (position : Nat)
  | field (name : String)
  | target (type : GoType)
  deriving DecidableEq, Repr

/-- The errors of the codec.  `panic` is a run-time panic and `outOfFuel` a loop
that was cut off; the code under translation has neither as an error value. -/
inductive Err where
  | eol
  | expectedString
  | expectedList
  | canonInt
  | canonSize
  | elemTooLarge
  | valueTooLarge
  | moreThanOneValue
  | notInList
  | notAtEOL
  | uintOverflow
  | eof
  | unexpectedEOF
  | invalidBool (number : Nat)
  | negativeBigInt
  | decode (message : String) (type : GoType) (context : List Context)
  | panic
  | outOfFuel
  deriving DecidableEq, Repr

def wrapStreamError (err : Err) (type : GoType) : Err :=
  match err with
  | .canonInt => .decode "non-canonical integer (leading zero bytes)" type []
  | .canonSize => .decode "non-canonical size information" type []
  | .expectedList => .decode "expected input list" type []
  | .expectedString => .decode "expected input string or byte" type []
  | .uintOverflow => .decode "input string too long" type []
  | .notAtEOL => .decode "input list has too many elements" type []
  | other => other

def addErrorContext (err : Err) (context : Context) : Err :=
  match err with
  | .decode message type path => .decode message type (path ++ [context])
  | other => other

/-! Arithmetic on `uint64`. -/

def addUint64 (left right : Nat) : Nat := (left + right) % 2 ^ 64

def subUint64 (left right : Nat) : Nat := (left + (2 ^ 64 - right)) % 2 ^ 64

/-- Byte slices are indexed by `int`: `make` panics from this length on. -/
def maxLen : Nat := 2 ^ 63

structure ListPos where
  pos : Nat
  size : Nat
  deriving DecidableEq, Repr

/-- A decoding stream over a `bytes.Reader`.  `input` holds the unread bytes and
`stack` the open lists, innermost first.  `kindAhead` is empty when the next
call has to read a header, the state the code writes as `kind = -1`. -/
structure Stream where
  input : List Byte
  remaining : Nat
  limited : Bool
  kindAhead : Option Kind
  sizeAhead : Nat
  byteval : Byte
  kinderr : Option Err
  stack : List ListPos
  deriving DecidableEq, Repr

/-- `NewStream` on a `bytes.Reader`: without an explicit limit, the limit is the
length of the input. -/
def newStream (input : List Byte) (inputLimit : Nat) : Stream where
  input := input
  remaining := if 0 < inputLimit then inputLimit else input.length
  limited := true
  kindAhead := none
  sizeAhead := 0
  byteval := 0
  kinderr := none
  stack := []

namespace Stream

def takeRemaining (stream : Stream) (count : Nat) : Except Err Unit × Stream :=
  if stream.limited then
    if stream.remaining < count then
      (.error .valueTooLarge, stream)
    else
      (.ok (), { stream with remaining := subUint64 stream.remaining count })
  else
    (.ok (), stream)

def willRead (stream : Stream) (count : Nat) : Except Err Unit × Stream :=
  let rearmed := { stream with kindAhead := none }
  match rearmed.stack with
  | [] => rearmed.takeRemaining count
  | top :: rest =>
      if subUint64 top.size top.pos < count then
        (.error .elemTooLarge, rearmed)
      else
        takeRemaining
          { rearmed with stack := { top with pos := addUint64 top.pos count } :: rest }
          count

def readByte (stream : Stream) : Except Err Byte × Stream :=
  match stream.willRead 1 with
  | (.error err, next) => (.error err, next)
  | (.ok (), next) =>
      match next.input with
      | [] => (.error .unexpectedEOF, next)
      | byte :: rest => (.ok byte, { next with input := rest })

def readFull (stream : Stream) (count : Nat) : Except Err (List Byte) × Stream :=
  match stream.willRead count with
  | (.error err, next) => (.error err, next)
  | (.ok (), next) =>
      if next.input.length < count then
        (.error .unexpectedEOF, { next with input := [] })
      else
        (.ok (next.input.take count), { next with input := next.input.drop count })

/-- The eight-byte scratch buffer holds the bytes read behind leading zeros. -/
def readUint (stream : Stream) (size : Nat) : Except Err Nat × Stream :=
  if size = 0 then
    (.ok 0, { stream with kindAhead := none })
  else if size = 1 then
    match stream.readByte with
    | (.error err, next) => (.error err, next)
    | (.ok byte, next) => (.ok byte.toNat, next)
  else if 8 < size then
    (.error .panic, stream)
  else
    match stream.readFull size with
    | (.error err, next) => (.error err, next)
    | (.ok bytes, next) =>
        if bytes.head? = some 0#8 then
          (.error .canonSize, next)
        else
          (.ok (ofBigEndian bytes), next)

/-- A header whose size follows the tag byte in `width` bytes. -/
def readLongSize (stream : Stream) (kind : Kind) (width : Nat) :
    (Kind × Nat × Option Err) × Stream :=
  match stream.readUint width with
  | (.error err, next) => ((kind, 0, some err), next)
  | (.ok size, next) =>
      ((kind, size, if size < 56 then some .canonSize else none), next)

def setByteval (stream : Stream) (byte : Byte) : Stream :=
  { stream with byteval := byte }

def readKind (stream : Stream) : (Kind × Nat × Option Err) × Stream :=
  match stream.readByte with
  | (.error err, next) =>
      let adjusted :=
        if next.stack.isEmpty then
          match err with
          | .unexpectedEOF => .eof
          | .valueTooLarge => .eof
          | other => other
        else err
      ((.byte, 0, some adjusted), next)
  | (.ok byte, next) =>
      let cleared := next.setByteval 0
      if byte.toNat < 0x80 then
        ((.byte, 0, none), cleared.setByteval byte)
      else if byte.toNat < 0xB8 then
        ((.string, byte.toNat - 0x80, none), cleared)
      else if byte.toNat < 0xC0 then
        cleared.readLongSize .string (byte.toNat - 0xB7)
      else if byte.toNat < 0xF8 then
        ((.list, byte.toNat - 0xC0, none), cleared)
      else
        cleared.readLongSize .list (byte.toNat - 0xF7)

def atListEnd (stream : Stream) : Bool :=
  match stream.stack with
  | [] => false
  | top :: _ => top.pos = top.size

/-- The check of a fresh header against the innermost list or the input. -/
def sizeError (stream : Stream) (size : Nat) : Option Err :=
  match stream.stack with
  | [] => if stream.limited ∧ stream.remaining < size then some .valueTooLarge else none
  | top :: _ => if subUint64 top.size top.pos < size then some .elemTooLarge else none

def clearKinderr (stream : Stream) : Stream := { stream with kinderr := none }

def cacheKind (stream : Stream) (kind : Kind) (size : Nat) (err : Option Err) :
    Except Err (Kind × Nat) × Stream :=
  let cached :=
    { stream with kindAhead := some kind, sizeAhead := size, kinderr := err }
  match err with
  | some err => (.error err, cached)
  | none => (.ok (kind, size), cached)

/-- The method `Kind`; a cached header is returned with its sticky error. -/
def kind (stream : Stream) : Except Err (Kind × Nat) × Stream :=
  match stream.kindAhead with
  | some kind =>
      match stream.kinderr with
      | some err => (.error err, stream)
      | none => (.ok (kind, stream.sizeAhead), stream)
  | none =>
      let cleared := stream.clearKinderr
      if cleared.atListEnd then
        (.error .eol, cleared)
      else
        match cleared.readKind with
        | ((kind, size, some err), next) => next.cacheKind kind size (some err)
        | ((kind, size, none), next) =>
            next.cacheKind kind size (next.sizeError size)

def rearm (stream : Stream) : Stream := { stream with kindAhead := none }

def bytes (stream : Stream) : Except Err (List Byte) × Stream :=
  match stream.kind with
  | (.error err, next) => (.error err, next)
  | (.ok (.byte, _), next) => (.ok [next.byteval], next.rearm)
  | (.ok (.string, size), next) =>
      if maxLen ≤ size then
        (.error .panic, next)
      else
        match next.readFull size with
        | (.error err, last) => (.error err, last)
        | (.ok content, last) =>
            if size = 1 ∧ (content.headD 0).toNat < 128 then
              (.error .canonSize, last)
            else
              (.ok content, last)
  | (.ok (.list, _), next) => (.error .expectedString, next)

def raw (stream : Stream) : Except Err (List Byte) × Stream :=
  match stream.kind with
  | (.error err, next) => (.error err, next)
  | (.ok (.byte, _), next) => (.ok [next.byteval], next.rearm)
  | (.ok (kind, size), next) =>
      if maxLen ≤ addUint64 (headsize size) size then
        (.error .panic, next)
      else
        match next.readFull size with
        | (.error err, last) => (.error err, last)
        | (.ok content, last) =>
            if kind = .string then
              (.ok (puthead 0x80 0xB7 size ++ content), last)
            else
              (.ok (puthead 0xC0 0xF7 size ++ content), last)

/-- The method `uint`; `Uint` is its case of 64 bits. -/
def uint (stream : Stream) (maxbits : Nat) : Except Err Nat × Stream :=
  match stream.kind with
  | (.error err, next) => (.error err, next)
  | (.ok (.byte, _), next) =>
      if next.byteval = 0 then
        -- the header stays cached here, unlike on every other path
        (.error .canonInt, next)
      else
        (.ok next.byteval.toNat, next.rearm)
  | (.ok (.string, size), next) =>
      if maxbits / 8 < size then
        (.error .uintOverflow, next)
      else
        match next.readUint size with
        | (.error .canonSize, last) => (.error .canonInt, last)
        | (.error err, last) => (.error err, last)
        | (.ok number, last) =>
            if 0 < size ∧ number < 128 then
              (.error .canonSize, last)
            else
              (.ok number, last)
  | (.ok (.list, _), next) => (.error .expectedString, next)

def bool (stream : Stream) : Except Err Bool × Stream :=
  match stream.uint 8 with
  | (.error err, next) => (.error err, next)
  | (.ok 0, next) => (.ok false, next)
  | (.ok 1, next) => (.ok true, next)
  | (.ok number, next) => (.error (.invalidBool number), next)

def list (stream : Stream) : Except Err Nat × Stream :=
  match stream.kind with
  | (.error err, next) => (.error err, next)
  | (.ok (.list, size), next) =>
      (.ok size,
        { next with
          stack := ⟨0, size⟩ :: next.stack
          kindAhead := none
          sizeAhead := 0 })
  | (.ok (_, _), next) => (.error .expectedList, next)

def listEnd (stream : Stream) : Except Err Unit × Stream :=
  match stream.stack with
  | [] => (.error .notInList, stream)
  | top :: rest =>
      if top.pos ≠ top.size then
        (.error .notAtEOL, stream)
      else
        let popped := match rest with
          | [] => []
          | parent :: outer =>
              { parent with pos := addUint64 parent.pos top.size } :: outer
        (.ok (), { stream with stack := popped, kindAhead := none, sizeAhead := 0 })

end Stream

end Bclib.Rlp
