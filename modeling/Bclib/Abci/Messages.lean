import Bclib.Abci.Admission
import Bclib.Data.Framing
import Bclib.Socket.Framing

namespace Bclib.Abci

open Data
open Go

/-! The messages of the ABCI, how the server answers them, and how they are framed. -/

/-- The methods of the application that the server only passes on. -/
inductive Method where
  | setOption
  | deliverTx
  | checkTx
  | commit
  | query
  | queryEx
  | initChain
  | beginBlock
  | endBlock
  | cleanData
  | getGenesis
  | rollback
  deriving DecidableEq, Repr

structure RequestInfo where
  version : GoString
  host : GoString
  port : GoString
  deriving DecidableEq, Repr

/-- The records that only the application reads and makes. -/
structure Api where
  Args : Method → Type
  Result : Method → Type
  ResponseInfo : Type

/-- A request; `nil` if its value is not set. -/
inductive Request (api : Api) where
  | nil
  | echo (message : GoString)
  | flush
  | info (info : RequestInfo)
  | call (method : Method) (args : api.Args method)

inductive Response (api : Api) where
  | nil
  | exception (error : GoString)
  | echo (message : GoString)
  | flush
  | info (info : api.ResponseInfo)
  | call (method : Method) (result : api.Result method)

structure Application (api : Api) (σ : Type) where
  info : RequestInfo → σ → api.ResponseInfo × σ
  call : (method : Method) → api.Args method → σ → api.Result method × σ

namespace Request

variable {api : Api}

def isNil : Request api → Bool
  | .nil => true
  | _ => false

def isFlush : Request api → Bool
  | .flush => true
  | _ => false

end Request

namespace Response

variable {api : Api}

def isFlush : Response api → Bool
  | .flush => true
  | _ => false

end Response

section HandleRequest

variable {api : Api} {σ : Type}

/-- The text "Unknown request". -/
def unknownRequest : GoString :=
  [85, 110, 107, 110, 111, 119, 110, 32, 114, 101, 113, 117, 101, 115, 116]

def handleRequest (app : Application api σ) (remote : TCPAddr) (req : Request api) (state : σ) :
    Response api × σ :=
  match req with
  | .nil => (.exception unknownRequest, state)
  | .echo message => (.echo message, state)
  | .flush => (.flush, state)
  | .info info =>
      let done := app.info { info with host := currentRemoteIp remote } state
      (.info done.1, done.2)
  | .call method args =>
      let done := app.call method args state
      (.call method done.1, done.2)

def resMatchesReq (req : Request api) (res : Response api) : Bool :=
  match req, res with
  | .echo _, .echo _ => true
  | .flush, .flush => true
  | .info _, .info _ => true
  | .call asked _, .call answered _ => asked = answered
  | _, _ => false

variable {app : Application api σ} {remote : TCPAddr} {req : Request api} {state : σ}

theorem resMatchesReq_handleRequest (known : req.isNil = false) :
    resMatchesReq req (handleRequest app remote req state).1 = true := by
  cases req with
  | nil => cases known
  | echo message => rfl
  | flush => rfl
  | info info => rfl
  | call method args => exact decide_eq_true rfl

theorem isFlush_handleRequest :
    (handleRequest app remote req state).1.isFlush = req.isFlush := by
  cases req with
  | nil => rfl
  | echo message => rfl
  | flush => rfl
  | info info => rfl
  | call method args => rfl

@[simp] theorem resMatchesReq_exception (req : Request api) (error : GoString) :
    resMatchesReq req (.exception error) = false := by
  cases req with
  | nil => rfl
  | echo message => rfl
  | flush => rfl
  | info info => rfl
  | call method args => rfl

end HandleRequest

/-- `proto.Marshal` and `proto.Unmarshal` for one type of messages. -/
structure Codec (μ : Type) where
  /-- Nothing if it fails. -/
  marshal : μ → Option (List Byte)
  unmarshal : List Byte → Except String μ
  unmarshal_marshal : ∀ {msg bz}, marshal msg = some bz → unmarshal bz = .ok msg
  short : ∀ {msg bz}, marshal msg = some bz → bz.length < 2 ^ 63

namespace Codec

variable {μ : Type} (codec : Codec μ) {msg found : μ} {bz input rest more later : List Byte}

/-- What `ReadMessage` finds in the bytes that have arrived. -/
def parse (input : List Byte) : Parsed μ Byte :=
  match Socket.abciReadProtoMsg codec.unmarshal Socket.maxMsgSize input with
  | .ok (msg, rest) => .message msg rest
  | .error (.inl .eof) => .waits
  | .error _ => .broken

/-- What is written for a message.  One that cannot be marshalled is never written, and counts
as one that is too long. -/
def frame (msg : μ) : List Byte :=
  match codec.marshal msg with
  | some bz => Socket.encodeByteSlice bz
  | none => Varint.putVarint (Socket.maxMsgSize + 1)

/-- It can be marshalled, to no more than `maxMsgSize` bytes. -/
def Fits (msg : μ) : Prop := ∃ bz, codec.marshal msg = some bz ∧ bz.length ≤ Socket.maxMsgSize

variable {codec}

theorem frame_eq (done : codec.marshal msg = some bz) :
    codec.frame msg = Varint.putVarint bz.length ++ bz := by
  rw [frame, done]
  rfl

theorem parse_eq_message_iff : codec.parse input = .message msg rest ↔
    ∃ payload, Socket.readProtoMsg Socket.maxMsgSize input = .ok (payload, rest) ∧
      codec.unmarshal payload = .ok msg := by
  rw [← Socket.abciReadProtoMsg_eq_ok_iff, parse]
  split
  · rename_i found read
    rw [read]
    simp [Prod.ext_iff]
  · rename_i read
    simp [read]
  · rename_i read
    simp [read]

theorem parse_eq_waits (short : Socket.readProtoMsg Socket.maxMsgSize input = .error .eof) :
    codec.parse input = .waits := by
  rw [parse, Socket.abciReadProtoMsg, short]

theorem readVarint_frame (done : codec.marshal msg = some bz) (rest : List Byte) :
    Varint.readVarint (codec.frame msg ++ rest) = .ok ((bz.length : Int), bz ++ rest) := by
  have short := codec.short done
  rw [frame_eq done, List.append_assoc, Varint.readVarint_putVarint (by omega) (by omega)]

theorem parse_frame (fits : codec.Fits msg) (rest : List Byte) :
    codec.parse (codec.frame msg ++ rest) = .message msg rest := by
  obtain ⟨bz, done, small⟩ := fits
  rw [frame, done]
  exact parse_eq_message_iff.2
    ⟨bz, Socket.readMessage_encodeByteSlice small rest, codec.unmarshal_marshal done⟩

theorem parse_part {part missing : List Byte} (fits : codec.Fits msg)
    (split : codec.frame msg = part ++ missing) (some : missing ≠ []) :
    codec.parse part = .waits := by
  obtain ⟨bz, done, small⟩ := fits
  refine parse_eq_waits ?_
  have whole := readVarint_frame done []
  rw [List.append_nil, split, List.append_nil] at whole
  rw [Socket.readProtoMsg]
  rcases Varint.readVarint_part whole with short | ⟨rest, read, surplus⟩
  · rw [short]
  · have length := congrArg List.length surplus
    have positive := List.length_pos_iff.2 some
    rw [List.length_append] at length
    rw [read]
    simp only
    rw [if_neg (by omega), if_pos (by omega)]

theorem readVarint_misfit (misfit : ¬codec.Fits msg) (rest : List Byte) :
    ∃ length later, Varint.readVarint (codec.frame msg ++ rest) = .ok (length, later) ∧
      (Socket.maxMsgSize : Int) < length := by
  cases done : codec.marshal msg with
  | none =>
      refine ⟨_, rest, ?_, Int.lt_succ _⟩
      rw [frame, done, Varint.readVarint_putVarint (by decide) (by decide)]
  | some bz =>
      refine ⟨_, _, readVarint_frame done rest, ?_⟩
      by_contra small
      exact misfit ⟨bz, done, by omega⟩

theorem parse_misfit (misfit : ¬codec.Fits msg)
    (stream : codec.frame msg ++ rest = input ++ more) :
    codec.parse input ≠ .message found later := by
  intro read
  obtain ⟨payload, inside, -⟩ := parse_eq_message_iff.1 read
  obtain ⟨⟨front, split, again⟩, fits⟩ := Socket.framed_of_readProtoMsg inside
  obtain ⟨length, _, whole, large⟩ := readVarint_misfit misfit rest
  rw [stream, split, List.append_assoc, List.append_assoc, again] at whole
  have same := (Prod.mk.inj (Except.ok.inj whole)).1
  omega

variable (codec) in
def framing : Framing μ Byte where
  frame := codec.frame
  parse := codec.parse
  Fits := codec.Fits
  parse_nil := rfl
  parse_frame := parse_frame
  parse_part := parse_part
  parse_misfit := parse_misfit

end Codec

end Bclib.Abci
