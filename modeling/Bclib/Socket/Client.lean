import Bclib.Data.Runs
import Bclib.Go.Channel
import Mathlib.Logic.Function.Basic

namespace Bclib.Socket

open Data
open Go

/-! The client of the socket package: concurrent calls, the routine that receives the
responses, and one goroutine for each response.  Lookups in the list, operations on a
channel and removals are steps of their own. -/

/-- Calls are told apart by the order in which they began. -/
abbrev CallId := Nat

/-- Errors of the connection; only the end of the data has a panic text of its own. -/
inductive ConnError where
  | eof
  | other
  deriving DecidableEq, Repr

/-- How a call leaves its body; all but the first two are panics. -/
inductive Outcome (ρ : Type) where
  | response (resp : ρ)
  | timedOut
  | writeFailed
  | connectionClosed (err : ConnError)
  deriving DecidableEq, Repr

/-- Where a call is.  After its body comes the deferred `removeReq`: it looks the entry
up, closes both channels and takes the entry out of the list. -/
inductive CallPhase (ρ : Type) where
  | notBegun
  | queueing
  | sending
  | waiting
  | returning (outcome : Outcome ρ)
  | closingCloseChan (outcome : Outcome ρ) (entry : CallId)
  | closingRespChan (outcome : Outcome ρ) (entry : CallId)
  | removing (outcome : Outcome ρ) (entry : CallId)
  | returned (outcome : Outcome ρ)
  deriving DecidableEq, Repr

def CallPhase.outcome? {ρ : Type} : CallPhase ρ → Option (Outcome ρ)
  | .notBegun | .queueing | .sending | .waiting => none
  | .returning outcome | .closingCloseChan outcome _ | .closingRespChan outcome _
  | .removing outcome _ | .returned outcome => some outcome

structure Call (ρ : Type) where
  index : BitVec 64
  phase : CallPhase ρ
  respChan : Chan ρ 1
  closeChan : Chan ConnError 1
  deriving DecidableEq, Repr

inductive DeliveryPhase where
  | looking
  | holding (entry : CallId)
  | finished
  deriving DecidableEq, Repr

structure Delivery (ρ : Type) where
  resp : ρ
  phase : DeliveryPhase
  deriving DecidableEq, Repr

/-- Where `recvResponseRoutine` is: reading, or in `sendCloseChan` after an error. -/
inductive Receiver where
  | reading
  | failed (err : ConnError)
  | holding (err : ConnError) (entry : CallId)
  | sent (err : ConnError) (entry : CallId)
  | finished
  deriving DecidableEq, Repr

inductive Crash where
  | sendOnClosed
  | closeOfClosed
  | nilResponse
  deriving DecidableEq, Repr

structure Client (ρ : Type) where
  counter : BitVec 64
  begun : Nat
  calls : CallId → Call ρ
  reqSent : List CallId
  received : Nat
  deliveries : Nat → Option (Delivery ρ)
  receiver : Receiver
  recvCount : Int
  isRunning : Bool
  crashed : Option Crash

inductive ClientEvent (ρ : Type) where
  | call
  | sentReq (id : CallId)
  | write (id : CallId) (written : Bool)
  | timeout (id : CallId)
  | takeResp (id : CallId)
  | takeClose (id : CallId)
  | findReq (id : CallId)
  | closeCloseChan (id : CallId)
  | closeRespChan (id : CallId)
  | removeReq (id : CallId)
  | recvResponse (resp : ρ)
  | recvError (err : ConnError)
  | findResp (delivery : Nat)
  | sendResp (delivery : Nat)
  | closeFront
  | closeSend
  | closeNext
  deriving DecidableEq, Repr

def ClientEvent.call? {ρ : Type} : ClientEvent ρ → Option CallId
  | .sentReq id | .write id _ | .timeout id | .takeResp id | .takeClose id | .findReq id
  | .closeCloseChan id | .closeRespChan id | .removeReq id => some id
  | _ => none

/-- The index of the call that counts up to `counter`. -/
def indexOfCounter (counter : BitVec 64) : BitVec 64 := counter % 0xFFFFFFFFFFFFFFFF#64

namespace Client

variable {ρ : Type} (indexOf : ρ → BitVec 64)

/-- `NewClient`, once connected. -/
def newClient (disableKeepAlive : Bool) : Client ρ where
  counter := 0
  begun := 0
  calls _ := ⟨0, .notBegun, .make ρ 1, .make ConnError 1⟩
  reqSent := []
  received := 0
  deliveries _ := none
  receiver := .reading
  recvCount := if disableKeepAlive then 1 else -1
  isRunning := true
  crashed := none

def setCall (client : Client ρ) (id : CallId) (call : Call ρ) : Client ρ :=
  { client with calls := Function.update client.calls id call }

def setPhase (client : Client ρ) (id : CallId) (phase : CallPhase ρ) : Client ρ :=
  client.setCall id { client.calls id with phase := phase }

def setRespChan (client : Client ρ) (id : CallId) (chan : Chan ρ 1) : Client ρ :=
  client.setCall id { client.calls id with respChan := chan }

def setCloseChan (client : Client ρ) (id : CallId) (chan : Chan ConnError 1) : Client ρ :=
  client.setCall id { client.calls id with closeChan := chan }

section Set

variable (client : Client ρ) (entry id : CallId)

private theorem setCall_keeps {β : Type} (read : Call ρ → β) {call : Call ρ}
    (same : read call = read (client.calls entry)) :
    read ((client.setCall entry call).calls id) = read (client.calls id) := by
  simp only [setCall, Function.update_apply]
  split_ifs with here
  · rw [here, same]
  · rfl

@[simp] theorem index_setPhase (phase : CallPhase ρ) :
    ((client.setPhase entry phase).calls id).index = (client.calls id).index :=
  setCall_keeps client entry id Call.index rfl

@[simp] theorem index_setRespChan (chan : Chan ρ 1) :
    ((client.setRespChan entry chan).calls id).index = (client.calls id).index :=
  setCall_keeps client entry id Call.index rfl

@[simp] theorem index_setCloseChan (chan : Chan ConnError 1) :
    ((client.setCloseChan entry chan).calls id).index = (client.calls id).index :=
  setCall_keeps client entry id Call.index rfl

@[simp] theorem phase_setRespChan (chan : Chan ρ 1) :
    ((client.setRespChan entry chan).calls id).phase = (client.calls id).phase :=
  setCall_keeps client entry id Call.phase rfl

@[simp] theorem phase_setCloseChan (chan : Chan ConnError 1) :
    ((client.setCloseChan entry chan).calls id).phase = (client.calls id).phase :=
  setCall_keeps client entry id Call.phase rfl

end Set

def setDelivery (client : Client ρ) (id : Nat) (delivery : Delivery ρ) : Client ρ :=
  { client with deliveries := Function.update client.deliveries id (some delivery) }

def crash (client : Client ρ) (reason : Crash) : Client ρ :=
  { client with crashed := some reason }

/-- The search loops of `didRecvResponse` and `removeReq`. -/
def lookup (client : Client ρ) (index : BitVec 64) : Option CallId :=
  client.reqSent.find? fun entry => (client.calls entry).index = index

/-- `Next` of an entry; nothing follows one that was removed. -/
def follower (client : Client ρ) (entry : CallId) : Option CallId :=
  match client.reqSent.dropWhile fun other => other ≠ entry with
  | _ :: next :: _ => some next
  | _ => none

/-- `Call` up to its index. -/
def begin (client : Client ρ) : Client ρ :=
  let counter := client.counter + 1
  { client with
    counter := counter
    begun := client.begun + 1
    calls := Function.update client.calls client.begun
      ⟨indexOfCounter counter, .queueing, .make ρ 1, .make ConnError 1⟩ }

def callNext (client : Client ρ) (id : CallId) : ClientEvent ρ → CallPhase ρ → Option (Client ρ)
  | .sentReq _, .queueing =>
      some { client.setPhase id .sending with reqSent := client.reqSent ++ [id] }
  | .write _ written, .sending =>
      some (client.setPhase id (if written then .waiting else .returning .writeFailed))
  | .timeout _, .waiting => some (client.setPhase id (.returning .timedOut))
  | .takeResp _, .waiting =>
      match (client.calls id).respChan.receive with
      | .value resp chan =>
          some ((client.setRespChan id chan).setPhase id (.returning (.response resp)))
      | .zero => some (client.crash .nilResponse)
      | .blocks => none
  | .takeClose _, .waiting =>
      match (client.calls id).closeChan.receive with
      | .value err chan =>
          some ((client.setCloseChan id chan).setPhase id (.returning (.connectionClosed err)))
      | .zero => some (client.setPhase id (.returning (.connectionClosed .other)))
      | .blocks => none
  | .findReq _, .returning outcome =>
      match client.lookup (client.calls id).index with
      | some entry => some (client.setPhase id (.closingCloseChan outcome entry))
      | none => some (client.setPhase id (.returned outcome))
  | .closeCloseChan _, .closingCloseChan outcome entry =>
      match (client.calls entry).closeChan.close with
      | some chan =>
          some ((client.setCloseChan entry chan).setPhase id (.closingRespChan outcome entry))
      | none => some (client.crash .closeOfClosed)
  | .closeRespChan _, .closingRespChan outcome entry =>
      match (client.calls entry).respChan.close with
      | some chan => some ((client.setRespChan entry chan).setPhase id (.removing outcome entry))
      | none => some (client.crash .closeOfClosed)
  | .removeReq _, .removing outcome entry =>
      some { client.setPhase id (.returned outcome) with
        reqSent := client.reqSent.erase entry }
  | _, _ => none

def deliveryNext (client : Client ρ) (id : Nat) :
    ClientEvent ρ → Option (Delivery ρ) → Option (Client ρ)
  | .findResp _, some ⟨resp, .looking⟩ =>
      match client.lookup (indexOf resp) with
      | some entry => some (client.setDelivery id ⟨resp, .holding entry⟩)
      | none => some (client.setDelivery id ⟨resp, .finished⟩)
  | .sendResp _, some ⟨resp, .holding entry⟩ =>
      match (client.calls entry).respChan.send resp with
      | .done chan => some ((client.setRespChan entry chan).setDelivery id ⟨resp, .finished⟩)
      | .blocks => none
      | .panics => some (client.crash .sendOnClosed)
  | _, _ => none

def receiverNext (client : Client ρ) : ClientEvent ρ → Receiver → Option (Client ρ)
  | .recvResponse resp, .reading =>
      if client.recvCount = 0 then none
      else some { client.setDelivery client.received ⟨resp, .looking⟩ with
        received := client.received + 1
        recvCount := if 0 < client.recvCount then client.recvCount - 1 else client.recvCount }
  | .recvError err, .reading =>
      if client.recvCount = 0 then none
      else some { client with receiver := .failed err, isRunning := false }
  | .closeFront, .failed err =>
      match client.reqSent.head? with
      | some entry => some { client with receiver := .holding err entry }
      | none => some { client with receiver := .finished }
  | .closeSend, .holding err entry =>
      match (client.calls entry).closeChan.send err with
      | .done chan => some { client.setCloseChan entry chan with receiver := .sent err entry }
      | .blocks => none
      | .panics => some (client.crash .sendOnClosed)
  | .closeNext, .sent err entry =>
      match client.follower entry with
      | some next => some { client with receiver := .holding err next }
      | none => some { client with receiver := .finished }
  | _, _ => none

/-- One step, if it can be made.  A panic ends the process, and on a stopped client a new
call panics before it does anything. -/
def next (client : Client ρ) (event : ClientEvent ρ) : Option (Client ρ) :=
  if client.crashed.isSome then none
  else
    match event with
    | .call => if client.isRunning then some client.begin else none
    | .sentReq id | .write id _ | .timeout id | .takeResp id | .takeClose id | .findReq id
    | .closeCloseChan id | .closeRespChan id | .removeReq id =>
        client.callNext id event (client.calls id).phase
    | .findResp id | .sendResp id => client.deliveryNext indexOf id event (client.deliveries id)
    | .recvResponse _ | .recvError _ | .closeFront | .closeSend | .closeNext =>
        client.receiverNext event client.receiver

inductive Step (client : Client ρ) : ClientEvent ρ → Client ρ → Prop
  | call : Step client .call client.begin
  | sentReq {id : CallId} (phase : (client.calls id).phase = .queueing) :
      Step client (.sentReq id)
        { client.setPhase id .sending with reqSent := client.reqSent ++ [id] }
  | write {id : CallId} (phase : (client.calls id).phase = .sending) (written : Bool) :
      Step client (.write id written)
        (client.setPhase id (if written then .waiting else .returning .writeFailed))
  | timeout {id : CallId} (phase : (client.calls id).phase = .waiting) :
      Step client (.timeout id) (client.setPhase id (.returning .timedOut))
  | takeResp {id : CallId} {resp : ρ} {chan : Chan ρ 1}
      (phase : (client.calls id).phase = .waiting)
      (taken : (client.calls id).respChan.receive = .value resp chan) :
      Step client (.takeResp id)
        ((client.setRespChan id chan).setPhase id (.returning (.response resp)))
  | takeNil {id : CallId} : Step client (.takeResp id) (client.crash .nilResponse)
  | takeClose {id : CallId} {err : ConnError} {chan : Chan ConnError 1}
      (phase : (client.calls id).phase = .waiting)
      (taken : (client.calls id).closeChan.receive = .value err chan) :
      Step client (.takeClose id)
        ((client.setCloseChan id chan).setPhase id (.returning (.connectionClosed err)))
  | takeZero {id : CallId} (phase : (client.calls id).phase = .waiting) :
      Step client (.takeClose id)
        (client.setPhase id (.returning (.connectionClosed .other)))
  | findReq {id entry : CallId} {outcome : Outcome ρ}
      (phase : (client.calls id).phase = .returning outcome)
      (found : client.lookup (client.calls id).index = some entry) :
      Step client (.findReq id) (client.setPhase id (.closingCloseChan outcome entry))
  | missReq {id : CallId} {outcome : Outcome ρ}
      (phase : (client.calls id).phase = .returning outcome) :
      Step client (.findReq id) (client.setPhase id (.returned outcome))
  | closeCloseChan {id entry : CallId} {outcome : Outcome ρ} {chan : Chan ConnError 1}
      (phase : (client.calls id).phase = .closingCloseChan outcome entry)
      (ended : (client.calls entry).closeChan.close = some chan) :
      Step client (.closeCloseChan id)
        ((client.setCloseChan entry chan).setPhase id (.closingRespChan outcome entry))
  | closeRespChan {id entry : CallId} {outcome : Outcome ρ} {chan : Chan ρ 1}
      (phase : (client.calls id).phase = .closingRespChan outcome entry)
      (ended : (client.calls entry).respChan.close = some chan) :
      Step client (.closeRespChan id)
        ((client.setRespChan entry chan).setPhase id (.removing outcome entry))
  | closeCloseTwice {id : CallId} :
      Step client (.closeCloseChan id) (client.crash .closeOfClosed)
  | closeRespTwice {id : CallId} :
      Step client (.closeRespChan id) (client.crash .closeOfClosed)
  | removeReq {id entry : CallId} {outcome : Outcome ρ}
      (phase : (client.calls id).phase = .removing outcome entry) :
      Step client (.removeReq id)
        { client.setPhase id (.returned outcome) with reqSent := client.reqSent.erase entry }
  | recvResponse (resp : ρ) (count : Int) :
      Step client (.recvResponse resp)
        { client.setDelivery client.received ⟨resp, .looking⟩ with
          received := client.received + 1, recvCount := count }
  | recvError (err : ConnError) :
      Step client (.recvError err) { client with receiver := .failed err, isRunning := false }
  | findResp {id : Nat} {resp : ρ} {entry : CallId}
      (phase : client.deliveries id = some ⟨resp, .looking⟩)
      (found : client.lookup (indexOf resp) = some entry) :
      Step client (.findResp id) (client.setDelivery id ⟨resp, .holding entry⟩)
  | missResp {id : Nat} {resp : ρ} (phase : client.deliveries id = some ⟨resp, .looking⟩) :
      Step client (.findResp id) (client.setDelivery id ⟨resp, .finished⟩)
  | sendResp {id : Nat} {resp : ρ} {entry : CallId} {chan : Chan ρ 1}
      (phase : client.deliveries id = some ⟨resp, .holding entry⟩)
      (sent : (client.calls entry).respChan.send resp = .done chan) :
      Step client (.sendResp id)
        ((client.setRespChan entry chan).setDelivery id ⟨resp, .finished⟩)
  | sendRespPanics {id : Nat} {resp : ρ} {entry : CallId}
      (phase : client.deliveries id = some ⟨resp, .holding entry⟩)
      (panics : (client.calls entry).respChan.send resp = .panics) :
      Step client (.sendResp id) (client.crash .sendOnClosed)
  | closeFront {err : ConnError} {entry : CallId} (phase : client.receiver = .failed err)
      (found : client.reqSent.head? = some entry) :
      Step client .closeFront { client with receiver := .holding err entry }
  | closeEmpty : Step client .closeFront { client with receiver := .finished }
  | closeSend {err : ConnError} {entry : CallId} {chan : Chan ConnError 1}
      (phase : client.receiver = .holding err entry)
      (sent : (client.calls entry).closeChan.send err = .done chan) :
      Step client .closeSend { client.setCloseChan entry chan with receiver := .sent err entry }
  | closeSendPanics {err : ConnError} {entry : CallId}
      (phase : client.receiver = .holding err entry)
      (panics : (client.calls entry).closeChan.send err = .panics) :
      Step client .closeSend (client.crash .sendOnClosed)
  | closeNext {err : ConnError} {entry next : CallId}
      (phase : client.receiver = .sent err entry)
      (found : client.follower entry = some next) :
      Step client .closeNext { client with receiver := .holding err next }
  | closeEnd : Step client .closeNext { client with receiver := .finished }

variable {indexOf}

section Steps

variable {client after : Client ρ} {event : ClientEvent ρ}

private theorem callNext_step {id : CallId} (ofCall : event.call? = some id)
    (ran : client.callNext id event (client.calls id).phase = some after) :
    Step indexOf client event after := by
  generalize phase : (client.calls id).phase = current at ran
  unfold callNext at ran
  split at ran <;> try cases ofCall
  · cases ran
    exact .sentReq phase
  · cases ran
    exact .write phase _
  · cases ran
    exact .timeout phase
  · split at ran <;> cases ran
    · exact .takeResp phase (by assumption)
    · exact .takeNil
  · split at ran <;> cases ran
    · exact .takeClose phase (by assumption)
    · exact .takeZero phase
  · split at ran <;> cases ran
    · exact .findReq phase (by assumption)
    · exact .missReq phase
  · split at ran <;> cases ran
    · exact .closeCloseChan phase (by assumption)
    · exact .closeCloseTwice
  · split at ran <;> cases ran
    · exact .closeRespChan phase (by assumption)
    · exact .closeRespTwice
  · cases ran
    exact .removeReq phase
  · cases ran

private theorem deliveryNext_step {id : Nat}
    (ofDelivery : event = .findResp id ∨ event = .sendResp id)
    (ran : client.deliveryNext indexOf id event (client.deliveries id) = some after) :
    Step indexOf client event after := by
  generalize phase : client.deliveries id = current at ran
  unfold deliveryNext at ran
  split at ran
  · obtain rfl : _ = id := by simpa using ofDelivery
    split at ran <;> cases ran
    · exact .findResp phase (by assumption)
    · exact .missResp phase
  · obtain rfl : _ = id := by simpa using ofDelivery
    split at ran <;> cases ran
    · exact .sendResp phase (by assumption)
    · exact .sendRespPanics phase (by assumption)
  · cases ran

private theorem receiverNext_step
    (ran : client.receiverNext event client.receiver = some after) :
    Step indexOf client event after := by
  generalize phase : client.receiver = current at ran
  unfold receiverNext at ran
  split at ran
  · split at ran <;> cases ran
    exact .recvResponse _ _
  · split at ran <;> cases ran
    exact .recvError _
  · split at ran <;> cases ran
    · exact .closeFront phase (by assumption)
    · exact .closeEmpty
  · split at ran <;> cases ran
    · exact .closeSend phase (by assumption)
    · exact .closeSendPanics phase (by assumption)
  · split at ran <;> cases ran
    · exact .closeNext phase (by assumption)
    · exact .closeEnd
  · cases ran

theorem next_step (ran : client.next indexOf event = some after) :
    Step indexOf client event after := by
  unfold next at ran
  split at ran
  · cases ran
  · split at ran
    · split at ran <;> cases ran
      exact .call
    all_goals first
      | exact callNext_step rfl ran
      | exact deliveryNext_step (.inl rfl) ran
      | exact deliveryNext_step (.inr rfl) ran
      | exact receiverNext_step ran

end Steps

end Client

end Bclib.Socket
