import Bclib.Abci.Wire
import Bclib.Data.Runs

namespace Bclib.Abci.Link

open Data
open Go

/-! The ABCI socket client and the server at the other end of its connection: the callers of
the client, its flush timer, `sendRequestsRoutine` and `recvResponseRoutine`, `Stop`, and
`handleRequests` and `handleResponses` of the server.  The goroutines take turns in any order. -/

variable {api : Api} {σ : Type}

structure Setup (api : Api) (σ : Type) where
  app : Application api σ
  remote : TCPAddr
  requests : Codec (Request api)
  responses : Codec (Response api)

def reqQueueSize : Nat := 256

/-- The capacity of the channel between the two goroutines of the server. -/
def responsesSize : Nat := 1000

structure ReqRes (api : Api) where
  request : Request api
  response : Option (Response api)
  /-- How often `Done` was called on the wait group, which starts with one. -/
  dones : Nat
  done : Bool
  cb : Option Nat

def newReqRes (req : Request api) : ReqRes api := ⟨req, none, 0, false, none⟩

def updateReq (reqs : Nat → ReqRes api) (id : Nat) (change : ReqRes api → ReqRes api) :
    Nat → ReqRes api :=
  fun other => if other = id then change (reqs other) else reqs other

section UpdateReq

variable {reqs : Nat → ReqRes api} {id other : Nat} {change : ReqRes api → ReqRes api}

@[simp] theorem updateReq_self : updateReq reqs id change id = change (reqs id) := if_pos rfl

theorem updateReq_of_ne (ne : other ≠ id) : updateReq reqs id change other = reqs other :=
  if_neg ne

theorem updateReq_keeps {γ : Type} {field : ReqRes api → γ}
    (keeps : field (change (reqs id)) = field (reqs id)) :
    field (updateReq reqs id change other) = field (reqs other) := by
  rw [updateReq]
  split_ifs with same
  · rw [same, keeps]
  · rfl

end UpdateReq

def ReqRes.finish (reqres : ReqRes api) : ReqRes api :=
  { reqres with dones := reqres.dones + 1 }

def ReqRes.answer (res : Response api) (reqres : ReqRes api) : ReqRes api :=
  { reqres.finish with response := some res }

def ReqRes.setCb (cb : Nat) (reqres : ReqRes api) : ReqRes api := { reqres with cb := some cb }

inductive ClientError where
  | writing
  | flushing
  | reading
  | exception (error : GoString)
  | nothingExpected
  | unexpected
  deriving DecidableEq, Repr

/-- Where `StopForError` is: before it asks whether the client runs, before it sets the error,
before it calls `Stop`. -/
inductive Failing where
  | failed (err : ClientError)
  | checked (err : ClientError)
  | stored
  deriving DecidableEq, Repr

/-- Where `sendRequestsRoutine` is: in its `select`, after the timer has fired, with a request
taken from the queue, or with one that is listed as sent. -/
inductive Sender (api : Api) where
  | idle
  | ticked
  | taken (id : Nat)
  | writes (writing : Writing (Request api))
  | stops (failing : Failing)
  | returned

/-- Where `recvResponseRoutine` is.  Until the listeners are told it holds the mutex. -/
inductive Receiver (api : Api) where
  | reading
  | got (res : Response api)
  | notifying (id : Nat) (res : Response api)
  | stops (failing : Failing)
  | returned

/-- How far `Stop` of the client has come: the flag, the mutex, its release, the channel. -/
inductive Stopping where
  | none
  | flagged
  | locked
  | unlocked
  | finished
  deriving DecidableEq, Repr

/-- Where `handleRequests` is. -/
inductive Reader (api : Api) where
  | reading
  | read (req : Request api)
  | answered (res : Response api)
  | returned

/-- Where `handleResponses` is. -/
inductive Writer (api : Api) where
  | waiting
  | writes (writing : Writing (Response api))
  | returned

structure Served (api : Api) (σ : Type) where
  request : Request api
  before : σ

/-- The client, the connection and the server, and what they did so far.  A `ReqRes` is named
by the number of those that were queued before it. -/
structure State (api : Api) (σ : Type) where
  made : Nat
  reqs : Nat → ReqRes api
  reqQueue : List Nat
  /-- The callers that have queued a request and not touched the timer yet, and whether the
  request is a flush. -/
  callers : List Bool
  isSet : Bool
  /-- The timer of `flushTimer` runs. -/
  armed : Bool
  /-- How often it has run out without `fireRoutine` having done its work. -/
  firing : Nat
  sender : Sender api
  reqSent : List Nat
  receiver : Receiver api
  err : Option ClientError
  stopping : Stopping
  /-- The connection of the client is closed, or fails. -/
  clientDown : Bool
  toServer : Pipe
  reader : Reader api
  app : σ
  responses : List (Response api)
  writer : Writer api
  toClient : Pipe
  serverDown : Bool
  /-- The requests that `willSendReq` was called with. -/
  sent : List Nat
  /-- The requests that `flushQueue` took. -/
  drained : List Nat
  served : List (Served api σ)
  delivered : List (Nat × Response api)
  /-- The callbacks that were called: for which request, which one, and with what. -/
  called : List (Nat × Nat × Option (Response api))

/-- After `OnStart`, with a server that has just accepted the connection. -/
def start (app : σ) : State api σ where
  made := 0
  reqs := fun _ => newReqRes .nil
  reqQueue := []
  callers := []
  isSet := false
  armed := false
  firing := 0
  sender := .idle
  reqSent := []
  receiver := .reading
  err := none
  stopping := .none
  clientDown := false
  toServer := ⟨[], []⟩
  reader := .reading
  app := app
  responses := []
  writer := .waiting
  toClient := ⟨[], []⟩
  serverDown := false
  sent := []
  drained := []
  served := []
  delivered := []
  called := []

/-- Who makes a step: a caller that queues a request, the client that queues the flush of its
timer, the goroutines with what they have to do, or another connection to the server. -/
inductive Event where
  | queue
  | tick
  | work
  | elsewhere
  | other
  deriving DecidableEq, Repr

namespace State

variable (s : State api σ)

def request (id : Nat) : Request api := (s.reqs id).request

def Unlocked : Prop := s.stopping ≠ .locked ∧ ∀ id res, s.receiver ≠ .notifying id res

def enqueue (req : Request api) : State api σ :=
  { s with
    made := s.made + 1
    reqs := updateReq s.reqs s.made (Function.const _ (newReqRes req))
    reqQueue := s.reqQueue ++ [s.made] }

theorem request_enqueue_made (req : Request api) : (s.enqueue req).request s.made = req :=
  congrArg ReqRes.request (@updateReq_self api s.reqs s.made (Function.const _ (newReqRes req)))

theorem request_enqueue_of_ne {id : Nat} (ne : id ≠ s.made) (req : Request api) :
    (s.enqueue req).request id = s.request id :=
  congrArg ReqRes.request (@updateReq_of_ne api s.reqs s.made id _ ne)

/-- `Done` of the `ReqRes` with its response set. -/
def answer (id : Nat) (res : Response api) : State api σ :=
  { s with
    reqs := updateReq s.reqs id (.answer res)
    delivered := s.delivered ++ [(id, res)] }

def send (setup : Setup api σ) (writing : Writing (Request api)) : Phase (Request api) × Pipe :=
  writing.next setup.requests Request.isFlush s.clientDown s.toServer

def reply (setup : Setup api σ) (writing : Writing (Response api)) :
    Phase (Response api) × Pipe :=
  writing.next setup.responses Response.isFlush s.serverDown s.toClient

end State

def sendError : Writing μ → ClientError
  | .flush => .flushing
  | _ => .writing

def Sender.after (writing : Writing (Request api)) : Phase (Request api) → Sender api
  | .nothing => .idle
  | .busy next => .writes next
  | .givenUp => .stops (.failed (sendError writing))

def Writer.after : Phase (Response api) → Writer api
  | .nothing => .waiting
  | .busy next => .writes next
  | .givenUp => .returned

def Sender.ofFailing : Option Failing → Sender api
  | none => .returned
  | some failing => .stops failing

def Receiver.ofFailing : Option Failing → Receiver api
  | none => .returned
  | some failing => .stops failing

/-- One part of `StopForError`: the error and the flag after it, and what is left of it. -/
inductive Fails (s : State api σ) : Failing → Option ClientError → Stopping → Option Failing → Prop
  | running (err : ClientError) (runs : s.stopping = .none) :
      Fails s (.failed err) s.err s.stopping (some (.checked err))
  | stopped (err : ClientError) (ends : s.stopping ≠ .none) :
      Fails s (.failed err) s.err s.stopping none
  | store (err : ClientError) (unlocked : s.Unlocked) :
      Fails s (.checked err) (s.err.or (some err)) s.stopping (some .stored)
  | stop (runs : s.stopping = .none) : Fails s .stored s.err .flagged none
  | late (ends : s.stopping ≠ .none) : Fails s .stored s.err s.stopping none

inductive Step (setup : Setup api σ) (s : State api σ) : Event → State api σ → Prop where
  /-- `queueRequest` up to the timer; every method of the client sets the value of its request. -/
  | queue (req : Request api) (known : req.isNil = false)
      (room : s.reqQueue.length < reqQueueSize) :
      Step setup s .queue { s.enqueue req with callers := s.callers ++ [req.isFlush] }
  | unset (caller : Nat) (here : s.callers[caller]? = some true) :
      Step setup s .other
        { s with isSet := false, armed := false, callers := s.callers.eraseIdx caller }
  | set (caller : Nat) (here : s.callers[caller]? = some false) :
      Step setup s .other
        { s with
          isSet := true
          armed := !s.isSet || s.armed
          callers := s.callers.eraseIdx caller }
  | setCallback (id cb : Nat) (old : id < s.made) (waits : (s.reqs id).done = false) :
      Step setup s .other { s with reqs := updateReq s.reqs id (.setCb cb) }
  | callAtOnce (id cb : Nat) (old : id < s.made) (done : (s.reqs id).done = true) :
      Step setup s .other { s with called := s.called ++ [(id, cb, (s.reqs id).response)] }
  | expire (armed : s.armed = true) :
      Step setup s .other { s with armed := false, firing := s.firing + 1 }
  /-- `fireRoutine` with `sendRequestsRoutine` waiting in its `select`. -/
  | fire (firing : 0 < s.firing) (idle : s.sender = .idle) (empty : s.reqQueue = [])
      (quiet : s.stopping ≠ .finished) :
      Step setup s .other { s with sender := .ticked, isSet := false, firing := s.firing - 1 }
  | rearm (firing : 0 < s.firing) :
      Step setup s .other { s with armed := true, firing := s.firing - 1 }
  | tick (ticked : s.sender = .ticked) (room : s.reqQueue.length < reqQueueSize) :
      Step setup s .tick { s.enqueue .flush with sender := .idle }
  | tickFull (ticked : s.sender = .ticked) (full : reqQueueSize ≤ s.reqQueue.length) :
      Step setup s .tick { s with sender := .idle }
  | take (id : Nat) (rest : List Nat) (idle : s.sender = .idle) (queue : s.reqQueue = id :: rest) :
      Step setup s .work { s with sender := .taken id, reqQueue := rest }
  | quit (idle : s.sender = .idle) (closed : s.stopping = .finished) :
      Step setup s .work { s with sender := .returned }
  /-- `willSendReq`. -/
  | push (id : Nat) (taken : s.sender = .taken id) (unlocked : s.Unlocked) :
      Step setup s .work
        { s with
          sender := .writes (.whole (s.request id))
          reqSent := s.reqSent ++ [id]
          sent := s.sent ++ [id] }
  | send (writing : Writing (Request api)) (writes : s.sender = .writes writing) :
      Step setup s .work
        { s with
          toServer := (s.send setup writing).2
          sender := .after writing (s.send setup writing).1 }
  | senderStops (failing : Failing) {err : Option ClientError} {stopping : Stopping}
      {left : Option Failing} (stops : s.sender = .stops failing)
      (fails : Fails s failing err stopping left) :
      Step setup s .work
        { s with err := err, stopping := stopping, sender := .ofFailing left }
  | receive (res : Response api) (rest : List Byte) (reading : s.receiver = .reading)
      (parsed : setup.responses.parse s.toClient.wire = .message res rest)
      (normal : ∀ error, res ≠ .exception error) :
      Step setup s .work
        { s with toClient := ⟨rest, s.toClient.held⟩, receiver := .got res }
  | receiveException (error : GoString) (rest : List Byte) (reading : s.receiver = .reading)
      (parsed : setup.responses.parse s.toClient.wire = .message (.exception error) rest) :
      Step setup s .work
        { s with
          toClient := ⟨rest, s.toClient.held⟩
          receiver := .stops (.failed (.exception error)) }
  | receiveFails (reading : s.receiver = .reading)
      (reason : s.clientDown = true ∨ setup.responses.parse s.toClient.wire = .broken) :
      Step setup s .work { s with receiver := .stops (.failed .reading) }
  /-- `didRecvResponse` up to the listeners. -/
  | deliver (res : Response api) (id : Nat) (rest : List Nat) (got : s.receiver = .got res)
      (unlocked : s.Unlocked) (front : s.reqSent = id :: rest)
      (matching : resMatchesReq (s.request id) res = true) :
      Step setup s .work
        { s.answer id res with reqSent := rest, receiver := .notifying id res }
  | nothingExpected (res : Response api) (got : s.receiver = .got res) (unlocked : s.Unlocked)
      (empty : s.reqSent = []) :
      Step setup s .work { s with receiver := .stops (.failed .nothingExpected) }
  | unexpected (res : Response api) (id : Nat) (rest : List Nat) (got : s.receiver = .got res)
      (unlocked : s.Unlocked) (front : s.reqSent = id :: rest)
      (different : resMatchesReq (s.request id) res = false) :
      Step setup s .work { s with receiver := .stops (.failed .unexpected) }
  | notify (id : Nat) (res : Response api) (notifying : s.receiver = .notifying id res) :
      Step setup s .work
        { s with
          called := s.called ++ (s.reqs id).cb.toList.map fun cb => (id, cb, some res)
          receiver := .reading }
  | receiverStops (failing : Failing) {err : Option ClientError} {stopping : Stopping}
      {left : Option Failing} (stops : s.receiver = .stops failing)
      (fails : Fails s failing err stopping left) :
      Step setup s .work
        { s with err := err, stopping := stopping, receiver := .ofFailing left }
  | clientFails : Step setup s .other { s with clientDown := true }
  | stop (running : s.stopping = .none) : Step setup s .other { s with stopping := .flagged }
  /-- `OnStop` with the mutex, which closes the connection. -/
  | lock (flagged : s.stopping = .flagged) (unlocked : s.Unlocked) :
      Step setup s .other { s with stopping := .locked, clientDown := true }
  /-- `flushQueue` with one `ReqRes`. -/
  | drain (id : Nat) (rest : List Nat) (locked : s.stopping = .locked)
      (queue : s.reqQueue = id :: rest) :
      Step setup s .other
        { s with
          reqQueue := rest
          reqs := updateReq s.reqs id ReqRes.finish
          drained := s.drained ++ [id] }
  | unlock (locked : s.stopping = .locked) (empty : s.reqQueue = []) :
      Step setup s .other { s with stopping := .unlocked }
  | close (unlocked : s.stopping = .unlocked) :
      Step setup s .other { s with stopping := .finished }
  | read (req : Request api) (rest : List Byte) (reading : s.reader = .reading)
      (parsed : setup.requests.parse s.toServer.wire = .message req rest) :
      Step setup s .work { s with toServer := ⟨rest, s.toServer.held⟩, reader := .read req }
  | readFails (reading : s.reader = .reading)
      (reason : s.serverDown = true ∨ setup.requests.parse s.toServer.wire = .broken) :
      Step setup s .work { s with reader := .returned }
  | handle (req : Request api) (read : s.reader = .read req) :
      Step setup s .work
        { s with
          app := (handleRequest setup.app setup.remote req s.app).2
          reader := .answered (handleRequest setup.app setup.remote req s.app).1
          served := s.served ++ [⟨req, s.app⟩] }
  | respond (res : Response api) (answered : s.reader = .answered res)
      (room : s.responses.length < responsesSize) :
      Step setup s .work { s with responses := s.responses ++ [res], reader := .reading }
  | pull (res : Response api) (rest : List (Response api)) (waiting : s.writer = .waiting)
      (queue : s.responses = res :: rest) :
      Step setup s .work { s with writer := .writes (.whole res), responses := rest }
  | reply (writing : Writing (Response api)) (writes : s.writer = .writes writing) :
      Step setup s .work
        { s with
          toClient := (s.reply setup writing).2
          writer := .after (s.reply setup writing).1 }
  | serverFails : Step setup s .other { s with serverDown := true }
  /-- A request on another connection changes the state of the application. -/
  | elsewhere (app : σ) : Step setup s .elsewhere { s with app := app }

def Reached (setup : Setup api σ) (app : σ) (events : List Event) (s : State api σ) : Prop :=
  Trace (Step setup) (start app) events s

end Bclib.Abci.Link
