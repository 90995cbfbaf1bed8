import Bclib.Socket.Client

namespace Bclib.Socket

open Data
open Go

/-! Sends and closes.  `removeReq` closes the channels of an entry while others may hold
it, and leaves it in the list for a while. -/

namespace Client

variable {ρ : Type} {indexOf : ρ → BitVec 64}

def Delivers (client : Client ρ) (entry : CallId) : Prop :=
  ∃ id resp, client.deliveries id = some ⟨resp, .holding entry⟩

def Closes (client : Client ρ) (entry : CallId) : Prop :=
  ∃ err, client.receiver = .holding err entry

/-- Closing and sending exclude each other: a channel is closed while nobody is about to
send on it, and no search ends at an entry whose channel is closed. -/
def Exclusive (indexOf : ρ → BitVec 64) (client : Client ρ) : ClientEvent ρ → Prop
  | .closeCloseChan id => ∀ outcome entry,
      (client.calls id).phase = .closingCloseChan outcome entry → ¬client.Closes entry
  | .closeRespChan id => ∀ outcome entry,
      (client.calls id).phase = .closingRespChan outcome entry → ¬client.Delivers entry
  | .findResp id => ∀ delivery entry, client.deliveries id = some delivery →
      client.lookup (indexOf delivery.resp) = some entry →
      (client.calls entry).respChan.closed = false
  | .closeFront => ∀ entry, client.reqSent.head? = some entry →
      (client.calls entry).closeChan.closed = false
  | .closeNext => ∀ err entry next, client.receiver = .sent err entry →
      client.follower entry = some next → (client.calls next).closeChan.closed = false
  | _ => True

/-- Who is about to send finds the channel open. -/
structure HeldOpen (client : Client ρ) : Prop where
  resp : ∀ entry, (client.calls entry).respChan.closed = true → ¬client.Delivers entry
  close : ∀ entry, (client.calls entry).closeChan.closed = true → ¬client.Closes entry
  fine : client.crashed ≠ some .sendOnClosed

namespace HeldOpen

variable {client : Client ρ}

theorem setCall (held : client.HeldOpen) {id : CallId} {call : Call ρ}
    (resp : call.respChan.closed = true → ¬client.Delivers id)
    (close : call.closeChan.closed = true → ¬client.Closes id) :
    HeldOpen (client.setCall id call) := by
  refine ⟨fun entry closed => ?_, fun entry closed => ?_, held.fine⟩
  · simp only [Client.setCall, Function.update_apply] at closed
    split_ifs at closed with same
    · exact same ▸ resp closed
    · exact held.resp entry closed
  · simp only [Client.setCall, Function.update_apply] at closed
    split_ifs at closed with same
    · exact same ▸ close closed
    · exact held.close entry closed

theorem setPhase (held : client.HeldOpen) (id : CallId) (phase : CallPhase ρ) :
    HeldOpen (client.setPhase id phase) :=
  held.setCall (held.resp id) (held.close id)

theorem setRespChan (held : client.HeldOpen) {id : CallId} {chan : Chan ρ 1}
    (resp : chan.closed = true → ¬client.Delivers id) : HeldOpen (client.setRespChan id chan) :=
  held.setCall resp (held.close id)

theorem setCloseChan (held : client.HeldOpen) {id : CallId} {chan : Chan ConnError 1}
    (close : chan.closed = true → ¬client.Closes id) : HeldOpen (client.setCloseChan id chan) :=
  held.setCall (held.resp id) close

theorem setDelivery (held : client.HeldOpen) {id : Nat} {delivery : Delivery ρ}
    (opened : ∀ entry, delivery.phase = .holding entry →
      (client.calls entry).respChan.closed = false) :
    HeldOpen (client.setDelivery id delivery) := by
  refine ⟨fun entry closed => ?_, held.close, held.fine⟩
  rintro ⟨other, resp, found⟩
  simp only [Client.setDelivery, Function.update_apply] at found
  split_ifs at found with same
  · have isOpen := opened entry (by rw [Option.some.inj found])
    exact Bool.false_ne_true (isOpen.symm.trans closed)
  · exact held.resp entry closed ⟨other, resp, found⟩

theorem setReceiver (held : client.HeldOpen) {receiver : Receiver}
    (opened : ∀ err entry, receiver = .holding err entry →
      (client.calls entry).closeChan.closed = false) (running : Bool) :
    HeldOpen { client with receiver := receiver, isRunning := running } := by
  refine ⟨held.resp, fun entry closed => ?_, held.fine⟩
  rintro ⟨err, holds⟩
  exact Bool.false_ne_true ((opened err entry holds).symm.trans closed)

theorem crash (held : client.HeldOpen) {reason : Crash} (other : reason ≠ .sendOnClosed) :
    HeldOpen (client.crash reason) :=
  ⟨held.resp, held.close, fun same => other (Option.some.inj same)⟩

theorem begin (held : client.HeldOpen) : HeldOpen client.begin := by
  have fresh := @setCall _ _ held client.begun
    ⟨indexOfCounter (client.counter + 1), .queueing, .make ρ 1, .make ConnError 1⟩
    (fun closed => nomatch closed) (fun closed => nomatch closed)
  exact ⟨fresh.resp, fresh.close, fresh.fine⟩

private theorem open_of_receive {α : Type} {chan after : Chan α 1} {value : α} {held : Prop}
    (kept : chan.closed = true → ¬held) (received : chan.receive = .value value after) :
    after.closed = true → ¬held :=
  fun closed => kept ((Chan.receive_value received).2.symm.trans closed)

theorem step (held : client.HeldOpen) {event : ClientEvent ρ} {after : Client ρ}
    (exclusive : client.Exclusive indexOf event) (stepped : Step indexOf client event after) :
    after.HeldOpen := by
  cases stepped with
  | call => exact held.begin
  | @sentReq id phase =>
      have moved := held.setPhase id .sending
      exact ⟨moved.resp, moved.close, moved.fine⟩
  | write phase written => exact held.setPhase _ _
  | timeout phase => exact held.setPhase _ _
  | takeResp phase taken =>
      exact (held.setRespChan (open_of_receive (held.resp _) taken)).setPhase _ _
  | takeNil => exact held.crash (by decide)
  | takeClose phase taken =>
      exact (held.setCloseChan (open_of_receive (held.close _) taken)).setPhase _ _
  | takeZero phase => exact held.setPhase _ _
  | findReq phase found => exact held.setPhase _ _
  | missReq phase => exact held.setPhase _ _
  | closeCloseChan phase ended =>
      exact (held.setCloseChan fun _ => exclusive _ _ phase).setPhase _ _
  | closeRespChan phase ended =>
      exact (held.setRespChan fun _ => exclusive _ _ phase).setPhase _ _
  | closeCloseTwice => exact held.crash (by decide)
  | closeRespTwice => exact held.crash (by decide)
  | @removeReq id entry outcome phase =>
      have moved := held.setPhase id (.returned outcome)
      exact ⟨moved.resp, moved.close, moved.fine⟩
  | recvResponse resp count =>
      have spawned := @setDelivery _ _ held client.received ⟨resp, .looking⟩
        (by simp)
      exact ⟨spawned.resp, spawned.close, spawned.fine⟩
  | recvError err => exact held.setReceiver (by simp) false
  | findResp phase found =>
      refine held.setDelivery fun entry holding => ?_
      cases holding
      exact exclusive _ _ phase found
  | missResp phase => exact held.setDelivery (by simp)
  | sendResp phase sent =>
      have opened := (Chan.send_done sent).2.2
      refine (held.setRespChan fun closed => ?_).setDelivery (by simp)
      exact absurd (opened.symm.trans closed) Bool.false_ne_true
  | sendRespPanics phase panics =>
      exact absurd ⟨_, _, phase⟩ (held.resp _ (Chan.send_panics_iff.1 panics))
  | closeFront phase found =>
      refine held.setReceiver (fun err entry holding => ?_) client.isRunning
      cases holding
      exact exclusive _ found
  | closeEmpty => exact held.setReceiver (by simp) client.isRunning
  | @closeSend err entry chan phase sent =>
      have opened := (Chan.send_done sent).2.2
      have moved : HeldOpen (client.setCloseChan entry chan) := held.setCloseChan fun closed =>
        absurd (opened.symm.trans closed) Bool.false_ne_true
      exact moved.setReceiver (by simp) client.isRunning
  | closeSendPanics phase panics =>
      exact absurd ⟨_, phase⟩ (held.close _ (Chan.send_panics_iff.1 panics))
  | closeNext phase found =>
      refine held.setReceiver (fun err entry holding => ?_) client.isRunning
      cases holding
      exact exclusive _ _ _ phase found
  | closeEnd => exact held.setReceiver (by simp) client.isRunning

theorem newClient (disableKeepAlive : Bool) :
    HeldOpen (Client.newClient disableKeepAlive : Client ρ) where
  resp _ closed := nomatch closed
  close _ closed := nomatch closed
  fine := nofun

end HeldOpen

/-- As long as closing and sending exclude each other, nothing is sent on a channel that
`removeReq` has closed. -/
theorem no_send_on_closed (indexOf : ρ → BitVec 64) (disableKeepAlive : Bool)
    (events : List (ClientEvent ρ))
    (enabled : AllSteps (stepOf (next indexOf)) (Enabled (next indexOf))
      (newClient disableKeepAlive) events)
    (exclusive : AllSteps (stepOf (next indexOf)) (Exclusive indexOf)
      (newClient disableKeepAlive) events) :
    (run (stepOf (next indexOf)) (newClient disableKeepAlive) events).crashed ≠
      some .sendOnClosed :=
  (enabled_run_keeps HeldOpen
    (fun _ _ _ held exclusive ran => held.step exclusive (next_step ran))
    (HeldOpen.newClient disableKeepAlive) enabled exclusive).fine

def answeredCall : List (ClientEvent (BitVec 64)) :=
  [.call, .sentReq 0, .write 0 true, .recvResponse 1, .findResp 0, .sendResp 0, .takeResp 0,
    .findReq 0, .closeCloseChan 0, .closeRespChan 0, .removeReq 0]

theorem no_send_on_closed_answered :
    AllSteps (stepOf (next id)) (Enabled (next id)) (newClient false) answeredCall ∧
      (run (stepOf (next id)) (newClient false) answeredCall).crashed ≠ some .sendOnClosed := by
  have enabled : AllSteps (stepOf (next id)) (Enabled (next id)) (newClient false)
      answeredCall := by decide
  refine ⟨enabled, no_send_on_closed id false answeredCall enabled ?_⟩
  refine ⟨trivial, trivial, trivial, trivial, ?_, trivial, trivial, trivial, ?_, ?_, trivial,
    trivial⟩
  · intro delivery entry found looked
    cases found
    cases looked
    rfl
  · rintro outcome entry - ⟨err, holding⟩
    cases holding
  · rintro outcome entry - ⟨other, resp, holding⟩
    cases other with
    | zero => cases holding
    | succ other => cases holding

/-- A response is found just before its call gives up, and the connection fails while
another call is removing its entry. -/
theorem late_response_crashes :
    (AllSteps (stepOf (next id)) (Enabled (next id)) (newClient false)
        [.call, .sentReq 0, .write 0 true, .recvResponse (1 : BitVec 64), .findResp 0,
          .timeout 0, .findReq 0, .closeCloseChan 0, .closeRespChan 0, .sendResp 0] ∧
      (run (stepOf (next id)) (newClient false)
        [.call, .sentReq 0, .write 0 true, .recvResponse (1 : BitVec 64), .findResp 0,
          .timeout 0, .findReq 0, .closeCloseChan 0, .closeRespChan 0, .sendResp 0]).crashed =
        some .sendOnClosed) ∧
    AllSteps (stepOf (next id)) (Enabled (next id)) (newClient false : Client (BitVec 64))
        [.call, .sentReq 0, .write 0 true, .timeout 0, .findReq 0, .closeCloseChan 0,
          .recvError .eof, .closeFront, .closeSend] ∧
      (run (stepOf (next id)) (newClient false : Client (BitVec 64))
        [.call, .sentReq 0, .write 0 true, .timeout 0, .findReq 0, .closeCloseChan 0,
          .recvError .eof, .closeFront, .closeSend]).crashed = some .sendOnClosed := by
  decide

end Client

end Bclib.Socket
