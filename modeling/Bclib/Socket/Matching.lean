import Bclib.Socket.Client
import Bclib.Socket.Message

namespace Bclib.Socket

open Data
open Go

/-! Calls over one connection, with the server at its other end: which response a call
gets. -/

namespace Client

variable {ρ : Type} {indexOf : ρ → BitVec 64} {good : ρ → Prop}

def Answers (indexOf : ρ → BitVec 64) (good : ρ → Prop) (index : BitVec 64) (resp : ρ) : Prop :=
  good resp ∧ indexOf resp = index

/-- Responses reach the entry with their index only. -/
structure Matched (indexOf : ρ → BitVec 64) (good : ρ → Prop) (client : Client ρ) : Prop where
  buffered : ∀ id, ∀ resp ∈ (client.calls id).respChan.buffer,
    Answers indexOf good (client.calls id).index resp
  outcome : ∀ id resp, (client.calls id).phase.outcome? = some (.response resp) →
    Answers indexOf good (client.calls id).index resp
  delivered : ∀ id delivery, client.deliveries id = some delivery → good delivery.resp ∧
    ∀ entry, delivery.phase = .holding entry →
      entry < client.begun ∧ indexOf delivery.resp = (client.calls entry).index
  queued : ∀ entry ∈ client.reqSent, entry < client.begun
  begunOnly : ∀ id, (client.calls id).phase ≠ .notBegun → id < client.begun

namespace Matched

variable {client : Client ρ}

theorem frame (matched : client.Matched indexOf good) {other : Client ρ}
    (calls : other.calls = client.calls) (deliveries : other.deliveries = client.deliveries)
    (begun : other.begun = client.begun)
    (queued : ∀ entry ∈ other.reqSent, entry < client.begun) : other.Matched indexOf good := by
  refine ⟨?_, ?_, ?_, begun ▸ queued, ?_⟩
  · rw [calls]
    exact matched.buffered
  · rw [calls]
    exact matched.outcome
  · rw [calls, deliveries, begun]
    exact matched.delivered
  · rw [calls, begun]
    exact matched.begunOnly

theorem setCall (matched : client.Matched indexOf good) {id : CallId} {call : Call ρ}
    (index : call.index = (client.calls id).index)
    (buffered : ∀ resp ∈ call.respChan.buffer, Answers indexOf good call.index resp)
    (outcome : ∀ resp, call.phase.outcome? = some (.response resp) →
      Answers indexOf good call.index resp)
    (begun : call.phase ≠ .notBegun → id < client.begun) :
    Matched indexOf good (client.setCall id call) := by
  refine ⟨fun other resp => ?_, fun other resp => ?_, fun other delivery found => ?_,
    matched.queued, fun other => ?_⟩
  · simp only [Client.setCall, Function.update_apply]
    split_ifs
    · exact buffered resp
    · exact matched.buffered other resp
  · simp only [Client.setCall, Function.update_apply]
    split_ifs
    · exact outcome resp
    · exact matched.outcome other resp
  · obtain ⟨isGood, held⟩ := matched.delivered other delivery found
    refine ⟨isGood, fun entry holding => ?_⟩
    obtain ⟨known, same⟩ := held entry holding
    refine ⟨known, ?_⟩
    simp only [Client.setCall, Function.update_apply]
    split_ifs with changed
    · rw [index, ← changed]
      exact same
    · exact same
  · simp only [Client.setCall, Function.update_apply]
    split_ifs with changed
    · exact changed ▸ begun
    · exact matched.begunOnly other

theorem setPhase (matched : client.Matched indexOf good) {id : CallId} {phase : CallPhase ρ}
    (known : id < client.begun)
    (outcome : ∀ resp, phase.outcome? = some (.response resp) →
      Answers indexOf good (client.calls id).index resp) :
    Matched indexOf good (client.setPhase id phase) :=
  matched.setCall rfl (matched.buffered id) outcome fun _ => known

theorem advance (matched : client.Matched indexOf good) {id : CallId} {phase : CallPhase ρ}
    (same : phase.outcome? = (client.calls id).phase.outcome?) (known : id < client.begun) :
    Matched indexOf good (client.setPhase id phase) :=
  matched.setPhase known fun resp has => matched.outcome id resp (same ▸ has)

theorem setRespChan (matched : client.Matched indexOf good) {id : CallId} {chan : Chan ρ 1}
    (buffered : ∀ resp ∈ chan.buffer, Answers indexOf good (client.calls id).index resp) :
    Matched indexOf good (client.setRespChan id chan) :=
  matched.setCall rfl buffered (matched.outcome id) (matched.begunOnly id)

theorem setCloseChan (matched : client.Matched indexOf good) (id : CallId)
    (chan : Chan ConnError 1) : Matched indexOf good (client.setCloseChan id chan) :=
  matched.setCall rfl (matched.buffered id) (matched.outcome id) (matched.begunOnly id)

theorem setDelivery (matched : client.Matched indexOf good) {id : Nat} {delivery : Delivery ρ}
    (isGood : good delivery.resp)
    (held : ∀ entry, delivery.phase = .holding entry →
      entry < client.begun ∧ indexOf delivery.resp = (client.calls entry).index) :
    Matched indexOf good (client.setDelivery id delivery) := by
  refine ⟨matched.buffered, matched.outcome, fun other found has => ?_, matched.queued,
    matched.begunOnly⟩
  simp only [Client.setDelivery, Function.update_apply] at has
  split_ifs at has with same
  · obtain rfl := Option.some.inj has
    exact ⟨isGood, held⟩
  · exact matched.delivered other found has

theorem begin (matched : client.Matched indexOf good) :
    Matched indexOf good client.begin := by
  have later : ∀ {id}, id < client.begun → id < client.begun + 1 := Nat.lt_succ_of_lt
  refine ⟨fun id resp => ?_, fun id resp => ?_, fun id delivery found => ?_,
    fun entry member => later (matched.queued entry member), fun id => ?_⟩
  · simp only [Client.begin, Function.update_apply]
    split_ifs
    · exact fun absent => nomatch absent
    · exact matched.buffered id resp
  · simp only [Client.begin, Function.update_apply]
    split_ifs
    · exact fun absent => nomatch absent
    · exact matched.outcome id resp
  · obtain ⟨isGood, held⟩ := matched.delivered id delivery found
    refine ⟨isGood, fun entry holding => ?_⟩
    obtain ⟨known, same⟩ := held entry holding
    refine ⟨later known, ?_⟩
    simp only [Client.begin, Function.update_apply, if_neg (Nat.ne_of_lt known)]
    exact same
  · simp only [Client.begin, Function.update_apply]
    split_ifs with new
    · exact fun _ => new ▸ Nat.lt_succ_self _
    · exact fun phase => later (matched.begunOnly id phase)

theorem lookup_spec {index : BitVec 64} {entry : CallId}
    (found : client.lookup index = some entry) :
    entry ∈ client.reqSent ∧ (client.calls entry).index = index :=
  ⟨List.mem_of_find?_eq_some found, by simpa using List.find?_some found⟩

theorem step (matched : client.Matched indexOf good) {event : ClientEvent ρ} {after : Client ρ}
    (received : ∀ resp, event = .recvResponse resp → good resp)
    (stepped : Step indexOf client event after) : after.Matched indexOf good := by
  have known : ∀ {id phase}, (client.calls id).phase = phase → phase ≠ .notBegun →
      id < client.begun := fun same other => matched.begunOnly _ (same ▸ other)
  cases stepped with
  | call => exact matched.begin
  | @sentReq id phase =>
      have mine := known phase (by simp)
      have moved := @advance _ _ _ _ matched id .sending (by rw [phase]; rfl) mine
      refine moved.frame rfl rfl rfl fun entry member => ?_
      rcases List.mem_append.1 member with before | last
      · exact matched.queued entry before
      · exact List.mem_singleton.1 last ▸ mine
  | write phase written =>
      exact matched.setPhase (known phase (by simp)) (by cases written <;> simp [CallPhase.outcome?])
  | timeout phase => exact matched.setPhase (known phase (by simp)) (by simp [CallPhase.outcome?])
  | @takeResp id resp chan phase taken =>
      have content := (Chan.receive_value taken).1
      have all := matched.buffered id
      rw [content, List.forall_mem_cons] at all
      refine (matched.setRespChan all.2).setPhase (known phase (by simp)) fun other same => ?_
      cases same
      rw [index_setRespChan]
      exact all.1
  | takeNil => exact matched.frame rfl rfl rfl matched.queued
  | takeClose phase taken =>
      exact (matched.setCloseChan _ _).setPhase (known phase (by simp)) (by simp [CallPhase.outcome?])
  | takeZero phase => exact matched.setPhase (known phase (by simp)) (by simp [CallPhase.outcome?])
  | findReq phase found => exact matched.advance (by rw [phase]; rfl) (known phase (by simp))
  | missReq phase => exact matched.advance (by rw [phase]; rfl) (known phase (by simp))
  | closeCloseChan phase ended =>
      refine (matched.setCloseChan _ _).advance ?_ (known phase (by simp))
      rw [phase_setCloseChan, phase]
      rfl
  | @closeRespChan id entry outcome chan phase ended =>
      have kept : Matched indexOf good (client.setRespChan entry chan) :=
        matched.setRespChan fun resp member =>
          matched.buffered entry resp ((Chan.close_some ended).2.1 ▸ member)
      refine kept.advance ?_ (known phase (by simp))
      rw [phase_setRespChan, phase]
      rfl
  | closeCloseTwice => exact matched.frame rfl rfl rfl matched.queued
  | closeRespTwice => exact matched.frame rfl rfl rfl matched.queued
  | @removeReq id entry outcome phase =>
      have moved := @advance _ _ _ _ matched id (.returned outcome) (by rw [phase]; rfl)
        (known phase (by simp))
      exact moved.frame rfl rfl rfl fun other member =>
        matched.queued other (List.mem_of_mem_erase member)
  | recvResponse resp count =>
      have spawned := @setDelivery _ _ _ _ matched client.received ⟨resp, .looking⟩
        (received resp rfl) (by simp)
      exact spawned.frame rfl rfl rfl spawned.queued
  | recvError err => exact matched.frame rfl rfl rfl matched.queued
  | findResp phase found =>
      obtain ⟨queued, same⟩ := lookup_spec found
      refine matched.setDelivery (matched.delivered _ _ phase).1 fun entry holding => ?_
      cases holding
      exact ⟨matched.queued _ queued, same.symm⟩
  | missResp phase => exact matched.setDelivery (matched.delivered _ _ phase).1 (by simp)
  | @sendResp id resp entry chan phase sent =>
      obtain ⟨isGood, held⟩ := matched.delivered _ _ phase
      refine (matched.setRespChan fun other member => ?_).setDelivery isGood (by simp)
      rw [(Chan.send_done sent).1] at member
      rcases List.mem_append.1 member with before | last
      · exact matched.buffered entry other before
      · exact List.mem_singleton.1 last ▸ ⟨isGood, (held entry rfl).2⟩
  | sendRespPanics phase panics => exact matched.frame rfl rfl rfl matched.queued
  | closeFront phase found => exact matched.frame rfl rfl rfl matched.queued
  | closeEmpty => exact matched.frame rfl rfl rfl matched.queued
  | @closeSend err entry chan phase sent =>
      have moved := matched.setCloseChan entry chan
      exact moved.frame rfl rfl rfl moved.queued
  | closeSendPanics phase panics => exact matched.frame rfl rfl rfl matched.queued
  | closeNext phase found => exact matched.frame rfl rfl rfl matched.queued
  | closeEnd => exact matched.frame rfl rfl rfl matched.queued

theorem mono (matched : client.Matched indexOf good) {better : ρ → Prop}
    (more : ∀ resp, good resp → better resp) : client.Matched indexOf better where
  buffered id resp member := (matched.buffered id resp member).imp_left (more resp)
  outcome id resp has := (matched.outcome id resp has).imp_left (more resp)
  delivered id delivery found := (matched.delivered id delivery found).imp_left (more _)
  queued := matched.queued
  begunOnly := matched.begunOnly

theorem newClient (disableKeepAlive : Bool) :
    Matched indexOf good (Client.newClient disableKeepAlive) where
  buffered _ _ member := nomatch member
  outcome _ _ has := nomatch has
  delivered _ _ found := nomatch found
  queued _ member := nomatch member
  begunOnly _ other := absurd rfl other

end Matched

structure Indexed (client : Client ρ) : Prop where
  counter : client.counter = BitVec.ofNat 64 client.begun
  index : ∀ id, id < client.begun →
    (client.calls id).index = indexOfCounter (BitVec.ofNat 64 (id + 1))

theorem Step.same_index {client after : Client ρ} {event : ClientEvent ρ}
    (stepped : Step indexOf client event after) (other : event ≠ .call) :
    after.counter = client.counter ∧ after.begun = client.begun ∧
      ∀ id, (after.calls id).index = (client.calls id).index := by
  cases stepped with
  | call => exact absurd rfl other
  | _ => exact ⟨rfl, rfl, fun id => by simp [setDelivery, crash]⟩

namespace Indexed

variable {client after : Client ρ}

theorem begin (indexed : client.Indexed) : client.begin.Indexed := by
  have counted : client.counter + 1 = BitVec.ofNat 64 (client.begun + 1) := by
    rw [indexed.counter, BitVec.ofNat_add]
    rfl
  refine ⟨counted, fun id below => ?_⟩
  simp only [Client.begin, Function.update_apply, counted]
  split_ifs with new
  · rw [new]
  · exact indexed.index id (Nat.lt_of_le_of_ne (Nat.le_of_lt_succ below) new)

theorem step (indexed : client.Indexed) {event : ClientEvent ρ}
    (stepped : Step indexOf client event after) : after.Indexed := by
  by_cases call : event = .call
  · subst call
    cases stepped
    exact indexed.begin
  · obtain ⟨counter, begun, index⟩ := stepped.same_index call
    refine ⟨by rw [counter, begun, indexed.counter], fun id below => ?_⟩
    rw [index, indexed.index id (begun ▸ below)]

private theorem toNat_indexOfCounter {number : Nat} (small : number < 2 ^ 64 - 1) :
    (indexOfCounter (BitVec.ofNat 64 number)).toNat = number := by
  have modulus : (0xFFFFFFFFFFFFFFFF#64).toNat = 2 ^ 64 - 1 := rfl
  have kept : number % 2 ^ 64 = number := Nat.mod_eq_of_lt (by omega)
  rw [indexOfCounter, BitVec.toNat_umod, modulus, BitVec.toNat_ofNat, kept]
  exact Nat.mod_eq_of_lt small

theorem unique (indexed : client.Indexed) (few : client.begun < 2 ^ 64 - 1) {id other : CallId}
    (known : id < client.begun) (otherKnown : other < client.begun)
    (same : (client.calls id).index = (client.calls other).index) : id = other := by
  rw [indexed.index id known, indexed.index other otherKnown] at same
  have numbers := congrArg BitVec.toNat same
  rw [toNat_indexOfCounter (Nat.lt_of_le_of_lt known few),
    toNat_indexOfCounter (Nat.lt_of_le_of_lt otherKnown few)] at numbers
  exact Nat.succ.inj numbers

theorem newClient (disableKeepAlive : Bool) :
    Indexed (Client.newClient disableKeepAlive : Client ρ) :=
  ⟨rfl, fun id below => absurd below (Nat.not_lt_zero id)⟩

end Indexed

end Client

/-- The client, what it asked for, the requests on the way and in the hands of the server,
what the callbacks returned, and the responses on the way back. -/
structure Network (α δ : Type) where
  client : Client (Response δ)
  requests : CallId → Option (Request α)
  toServer : List (Request α)
  handling : List (Request α)
  answered : List (Request α × Except String δ)
  toClient : List (Response δ)

inductive NetworkEvent (α δ : Type) where
  | call (method : String) (data : α)
  | write (id : CallId)
  | client (event : ClientEvent (Response δ))
  | readRequest
  | handleRequest (position : Nat) (result : Except String δ)
  | recvResponse

def ClientEvent.internal {ρ : Type} : ClientEvent ρ → Bool
  | .call | .write _ true | .recvResponse _ => false
  | _ => true

namespace Network

variable {α δ : Type}

def start (disableKeepAlive : Bool) : Network α δ :=
  ⟨.newClient disableKeepAlive, fun _ => none, [], [], [], []⟩

/-- One step, if it can be made.  Requests and responses keep their order on the wire; the
handlers of the server finish in any order. -/
def next (network : Network α δ) : NetworkEvent α δ → Option (Network α δ)
  | .call method data =>
      (network.client.next Response.index .call).map fun client =>
        { network with
          client := client
          requests := Function.update network.requests network.client.begun
            (some ⟨method, data, (client.calls network.client.begun).index⟩) }
  | .write id =>
      match network.requests id with
      | none => none
      | some req =>
          (network.client.next Response.index (.write id true)).map fun client =>
            { network with client := client, toServer := network.toServer ++ [req] }
  | .client event =>
      if event.internal then
        (network.client.next Response.index event).map fun client =>
          { network with client := client }
      else none
  | .readRequest =>
      match network.toServer with
      | [] => none
      | req :: rest =>
          some { network with toServer := rest, handling := network.handling ++ [req] }
  | .handleRequest position result =>
      match network.handling[position]? with
      | none => none
      | some req =>
          some { network with
            handling := network.handling.eraseIdx position
            answered := network.answered ++ [(req, result)]
            toClient := network.toClient ++ [respond req result] }
  | .recvResponse =>
      match network.toClient with
      | [] => none
      | resp :: rest =>
          (network.client.next Response.index (.recvResponse resp)).map fun client =>
            { network with client := client, toClient := rest }

def Made (network : Network α δ) (resp : Response δ) : Prop :=
  ∃ req result, (req, result) ∈ network.answered ∧ resp = respond req result

structure Inv (network : Network α δ) : Prop where
  matched : network.client.Matched Response.index network.Made
  indexed : network.client.Indexed
  asked : ∀ id req, network.requests id = some req →
    id < network.client.begun ∧ req.index = (network.client.calls id).index
  sent : ∀ req ∈ network.toServer, ∃ id, network.requests id = some req
  handled : ∀ req ∈ network.handling, ∃ id, network.requests id = some req
  answered : ∀ pair ∈ network.answered, ∃ id, network.requests id = some pair.1
  coming : ∀ resp ∈ network.toClient, network.Made resp

namespace Inv

variable {network : Network α δ}

theorem client (inv : network.Inv) {event : ClientEvent (Response δ)}
    {client : Client (Response δ)}
    (ran : network.client.next Response.index event = some client) (other : event ≠ .call)
    (received : ∀ resp, event = .recvResponse resp → network.Made resp) :
    Inv { network with client := client } := by
  have stepped := Client.next_step ran
  obtain ⟨-, begun, index⟩ := stepped.same_index other
  refine ⟨inv.matched.step received stepped, inv.indexed.step stepped, fun id req has => ?_,
    inv.sent, inv.handled, inv.answered, inv.coming⟩
  obtain ⟨known, same⟩ := inv.asked id req has
  exact ⟨begun ▸ known, same.trans (index id).symm⟩

theorem call (inv : network.Inv) (method : String) (data : α) :
    Inv { network with
      client := network.client.begin
      requests := Function.update network.requests network.client.begun
        (some ⟨method, data, (network.client.begin.calls network.client.begun).index⟩) } := by
  -- Requests made before belong to other calls.
  have kept : ∀ {id req}, network.requests id = some req →
      Function.update network.requests network.client.begun
        (some ⟨method, data, (network.client.begin.calls network.client.begun).index⟩) id =
        some req := by
    intro id req has
    rw [Function.update_of_ne (Nat.ne_of_lt (inv.asked id req has).1), has]
  refine ⟨inv.matched.begin, inv.indexed.begin, fun id req has => ?_,
    fun req member => (inv.sent req member).imp fun _ => kept,
    fun req member => (inv.handled req member).imp fun _ => kept,
    fun pair member => (inv.answered pair member).imp fun _ => kept, inv.coming⟩
  by_cases new : id = network.client.begun
  · subst new
    dsimp only at has
    rw [Function.update_self] at has
    obtain rfl := Option.some.inj has
    exact ⟨Nat.lt_succ_self _, rfl⟩
  · dsimp only at has
    rw [Function.update_of_ne new] at has
    obtain ⟨known, same⟩ := inv.asked id req has
    refine ⟨Nat.lt_succ_of_lt known, same.trans ?_⟩
    simp only [Client.begin, Function.update_of_ne new]

theorem handleRequest (inv : network.Inv) {position : Nat} {req : Request α}
    (found : network.handling[position]? = some req) (result : Except String δ) :
    Inv { network with
      handling := network.handling.eraseIdx position
      answered := network.answered ++ [(req, result)]
      toClient := network.toClient ++ [respond req result] } := by
  have more : ∀ {resp}, network.Made resp → ∃ other outcome,
      (other, outcome) ∈ network.answered ++ [(req, result)] ∧ resp = respond other outcome :=
    fun ⟨other, outcome, before, same⟩ =>
      ⟨other, outcome, List.mem_append_left _ before, same⟩
  refine ⟨inv.matched.mono fun _ => more, inv.indexed, inv.asked, inv.sent,
    fun other member => inv.handled other (List.mem_of_mem_eraseIdx member),
    fun pair member => ?_, fun resp member => ?_⟩
  · rcases List.mem_append.1 member with before | last
    · exact inv.answered pair before
    · rw [List.mem_singleton.1 last]
      exact inv.handled req (List.mem_of_getElem? found)
  · rcases List.mem_append.1 member with before | last
    · exact more (inv.coming resp before)
    · exact ⟨req, result, List.mem_append_right _ List.mem_cons_self, List.mem_singleton.1 last⟩

theorem step (inv : network.Inv) {event : NetworkEvent α δ} {after : Network α δ}
    (ran : network.next event = some after) : after.Inv := by
  cases event with
  | call method data =>
      obtain ⟨client, stepped, rfl⟩ := Option.map_eq_some_iff.1 ran
      cases Client.next_step stepped
      exact inv.call method data
  | write id =>
      cases has : network.requests id with
      | none => simp [next, has] at ran
      | some req =>
          simp only [next, has, Option.map_eq_some_iff] at ran
          obtain ⟨client, stepped, rfl⟩ := ran
          have moved := inv.client stepped nofun nofun
          refine { moved with sent := fun other member => ?_ }
          rcases List.mem_append.1 member with before | last
          · exact inv.sent other before
          · exact ⟨id, List.mem_singleton.1 last ▸ has⟩
  | client event =>
      simp only [next] at ran
      split_ifs at ran with inside
      obtain ⟨client, stepped, rfl⟩ := Option.map_eq_some_iff.1 ran
      refine inv.client stepped ?_ ?_
      · rintro rfl
        cases inside
      · rintro resp rfl
        cases inside
  | readRequest =>
      cases waiting : network.toServer with
      | nil => simp [next, waiting] at ran
      | cons req rest =>
          simp only [next, waiting, Option.some.injEq] at ran
          subst ran
          have sent := inv.sent
          rw [waiting, List.forall_mem_cons] at sent
          refine { inv with sent := sent.2, handled := fun other member => ?_ }
          rcases List.mem_append.1 member with before | last
          · exact inv.handled other before
          · exact List.mem_singleton.1 last ▸ sent.1
  | handleRequest position result =>
      cases found : network.handling[position]? with
      | none => simp [next, found] at ran
      | some req =>
          simp only [next, found, Option.some.injEq] at ran
          subst ran
          exact inv.handleRequest found result
  | recvResponse =>
      cases waiting : network.toClient with
      | nil => simp [next, waiting] at ran
      | cons resp rest =>
          simp only [next, waiting, Option.map_eq_some_iff] at ran
          obtain ⟨client, stepped, rfl⟩ := ran
          have coming := inv.coming
          rw [waiting, List.forall_mem_cons] at coming
          have moved := inv.client stepped nofun fun other same => by
            cases same
            exact coming.1
          exact { moved with coming := coming.2 }

theorem start (disableKeepAlive : Bool) : Inv (Network.start disableKeepAlive : Network α δ) where
  matched := .newClient disableKeepAlive
  indexed := .newClient disableKeepAlive
  asked _ _ has := nomatch has
  sent _ member := nomatch member
  handled _ member := nomatch member
  answered _ member := nomatch member
  coming _ member := nomatch member

theorem known (inv : network.Inv) {id : CallId} {resp : Response δ}
    (got : (network.client.calls id).phase.outcome? = some (.response resp)) :
    id < network.client.begun := by
  refine inv.matched.begunOnly id fun absent => ?_
  rw [absent] at got
  cases got

theorem own (inv : network.Inv) (few : network.client.begun < 2 ^ 64 - 1) {id : CallId}
    {resp : Response δ}
    (got : (network.client.calls id).phase.outcome? = some (.response resp)) :
    ∃ req result, network.requests id = some req ∧ (req, result) ∈ network.answered ∧
      resp = respond req result := by
  obtain ⟨⟨req, result, made, same⟩, index⟩ := inv.matched.outcome id resp got
  obtain ⟨other, has⟩ := inv.answered _ made
  obtain ⟨known, asked⟩ := inv.asked other req has
  rw [same, index_respond] at index
  obtain rfl := inv.indexed.unique few known (inv.known got) (asked.symm.trans index)
  exact ⟨req, result, has, made, same⟩

end Inv

/-- Whatever the interleaving of calls, timeouts, handlers and deliveries: a call returns
what the callback returned for its own request, and no two calls get one response. -/
theorem calls_get_their_responses (disableKeepAlive : Bool)
    (events : List (NetworkEvent α δ))
    (enabled : AllSteps (stepOf next) (Enabled next) (start disableKeepAlive) events)
    {network : Network α δ}
    (reached : run (stepOf next) (start disableKeepAlive) events = network)
    (few : network.client.begun < 2 ^ 64 - 1) :
    (∀ id resp, (network.client.calls id).phase.outcome? = some (.response resp) →
      ∃ req result, network.requests id = some req ∧ (req, result) ∈ network.answered ∧
        resp = respond req result ∧ resp.callResult = result.map some) ∧
    ∀ id other resp, (network.client.calls id).phase.outcome? = some (.response resp) →
      (network.client.calls other).phase.outcome? = some (.response resp) → id = other := by
  have inv : network.Inv := reached ▸ enabled_run_keeps Inv
    (fun _ _ _ inv _ ran => inv.step ran) (.start disableKeepAlive) enabled enabled
  refine ⟨fun id resp got => ?_, fun id other resp got also => ?_⟩
  · obtain ⟨req, result, has, made, rfl⟩ := inv.own few got
    exact ⟨req, result, has, made, rfl, callResult_respond req result⟩
  · have mine := (inv.matched.outcome id resp got).2
    have theirs := (inv.matched.outcome other resp also).2
    exact inv.indexed.unique few (inv.known got) (inv.known also) (mine.symm.trans theirs)

/-- Two calls whose requests are answered in the other order, the second after the first
call gave up. -/
def crossedCalls : List (NetworkEvent Unit Nat) :=
  [.call "a" (), .call "b" (), .client (.sentReq 0), .client (.sentReq 1), .write 0, .write 1,
    .readRequest, .readRequest, .handleRequest 1 (.ok 20), .handleRequest 0 (.ok 10),
    .recvResponse, .client (.timeout 0), .recvResponse, .client (.findResp 0),
    .client (.sendResp 0), .client (.takeResp 1), .client (.findResp 1),
    .client (.sendResp 1)]

theorem calls_get_their_responses_crossed :
    ((run (stepOf next) (start false) crossedCalls).client.calls 1).phase.outcome? =
        some (.response ⟨200, "ok", "b", some 20, 2⟩) ∧
      ∃ req result,
        (run (stepOf next) (start false) crossedCalls).requests 1 = some req ∧
        (req, result) ∈ (run (stepOf next) (start false) crossedCalls).answered ∧
        ⟨200, "ok", "b", some 20, 2⟩ = respond req result ∧
        Response.callResult ⟨200, "ok", "b", some 20, 2⟩ = result.map some :=
  ⟨rfl, (calls_get_their_responses false crossedCalls (by decide) rfl (by decide)).1 1 _ rfl⟩

end Network

end Bclib.Socket
