import Bclib.Data.Varint

namespace Bclib.Socket

open Data

/-! Requests and responses.  The type of the arguments and of the results is left open. -/

structure Request (α : Type) where
  method : String
  data : α
  index : BitVec 64
  deriving DecidableEq, Repr

/-- The data is nil unless the request succeeded. -/
structure Response (δ : Type) where
  code : Nat
  log : String
  method : String
  data : Option δ
  index : BitVec 64
  deriving DecidableEq, Repr

def codeOK : Nat := 200

def errInvalidParam : Nat := 3004

/-- The response `handleRequest` makes from what the callback returned. -/
def respond {α δ : Type} (req : Request α) : Except String δ → Response δ
  | .ok res => ⟨codeOK, "ok", req.method, some res, req.index⟩
  | .error message => ⟨errInvalidParam, message, req.method, none, req.index⟩

def Response.callResult {δ : Type} (resp : Response δ) : Except String (Option δ) :=
  if resp.code = codeOK then .ok resp.data else .error resp.log

theorem callResult_respond {α δ : Type} (req : Request α) (result : Except String δ) :
    (respond req result).callResult = result.map some := by
  cases result with
  | ok res => rfl
  | error message => rfl

theorem index_respond {α δ : Type} (req : Request α) (result : Except String δ) :
    (respond req result).index = req.index := by
  cases result with
  | ok res => rfl
  | error message => rfl

theorem method_respond {α δ : Type} (req : Request α) (result : Except String δ) :
    (respond req result).method = req.method := by
  cases result with
  | ok res => rfl
  | error message => rfl

/-! Framing: the length of a message as a varint, then the message. -/

def maxMsgSize : Nat := 104857600

def encodeByteSlice (bz : List Byte) : List Byte := Varint.putVarint bz.length ++ bz

inductive ReadError where
  | eof
  | overflow
  | shortBuffer
  deriving DecidableEq, Repr

/-- One call of `readProtoMsg`, with what it leaves unread; `eof` if the data ends before the
message does. -/
def readProtoMsg (maxSize : Int) (input : List Byte) :
    Except ReadError (List Byte × List Byte) :=
  match Varint.readVarint input with
  | .error .eof => .error .eof
  | .error .overflow => .error .overflow
  | .ok (length, rest) =>
      if length < 0 ∨ length > maxSize then .error .shortBuffer
      else if rest.length < length.toNat then .error .eof
      else .ok (rest.take length.toNat, rest.drop length.toNat)

def readMessage (input : List Byte) : Except ReadError (List Byte × List Byte) :=
  readProtoMsg maxMsgSize input

theorem readMessage_encodeByteSlice {bz : List Byte} (fits : bz.length ≤ maxMsgSize)
    (rest : List Byte) : readMessage (encodeByteSlice bz ++ rest) = .ok (bz, rest) := by
  have small : bz.length < 2 ^ 63 := Nat.lt_of_le_of_lt fits (by decide)
  have length := @Varint.readVarint_putVarint bz.length (by omega) (by omega) (bz ++ rest)
  simp only [readMessage, readProtoMsg, encodeByteSlice, List.append_assoc, length,
    Int.toNat_natCast]
  rw [if_neg (by omega), if_neg (by simp)]
  simp

end Bclib.Socket
