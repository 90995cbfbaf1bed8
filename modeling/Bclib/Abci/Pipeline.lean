import Bclib.Abci.Link
import Mathlib.Data.List.Nodup

namespace Bclib.Abci.Link

open Data
open Go

/-! What holds of a client and its server however their goroutines take turns: each `ReqRes`
is in one place, and what is under way between the two sides is what has been sent and not been
answered, in the order of the calls. -/

variable {api : Api} {σ : Type}

def Sender.holding : Sender api → List Nat
  | .taken id => [id]
  | _ => []

def Sender.phase : Sender api → Phase (Request api)
  | .writes writing => .busy writing
  | .stops _ => .givenUp
  | .returned => .givenUp
  | _ => .nothing

def Writer.phase : Writer api → Phase (Response api)
  | .waiting => .nothing
  | .writes writing => .busy writing
  | .returned => .givenUp

def Reader.holding : Reader api → List (Request api)
  | .read req => [req]
  | _ => []

def Reader.answering : Reader api → List (Response api)
  | .answered res => [res]
  | _ => []

def Receiver.holding : Receiver api → List (Response api)
  | .got res => [res]
  | _ => []

def Served.response (setup : Setup api σ) (served : Served api σ) : Response api :=
  (handleRequest setup.app setup.remote served.request served.before).1

structure Placed (made : Nat) (reqs : Nat → ReqRes api)
    (sent holding reqQueue drained reqSent : List Nat) (delivered : List (Nat × Response api)) :
    Prop where
  known : ∀ id < made, (reqs id).request.isNil = false
  order : (sent ++ holding ++ reqQueue).Pairwise (· < ·)
  places : (sent ++ holding ++ reqQueue ++ drained).Perm (List.range made)
  waiting : reqSent = sent.drop delivered.length
  matched : delivered.map Prod.fst = sent.take delivered.length
  reply : ∀ id, (reqs id).response = delivered.lookup id
  dones : ∀ id, (reqs id).dones = (delivered.map Prod.fst ++ drained).count id

def ClientError.Network : ClientError → Prop
  | .writing => True
  | .flushing => True
  | .reading => True
  | _ => False

def Failing.Network : Failing → Prop
  | .failed err => err.Network
  | .checked err => err.Network
  | .stored => True

def Sender.Honest : Sender api → Prop
  | .stops failing => failing.Network
  | _ => True

def Receiver.Honest : Receiver api → Prop
  | .stops failing => failing.Network
  | _ => True

structure Blameless (err : Option ClientError) (sender : Sender api) (receiver : Receiver api) :
    Prop where
  err : ∀ reason ∈ err, reason.Network
  sender : sender.Honest
  receiver : receiver.Honest

def Receiver.Tells (delivered : List (Nat × Response api))
    (called : List (Nat × Nat × Option (Response api))) : Receiver api → Prop
  | .notifying id res => (id, res) ∈ delivered ∧ id ∉ called.map Prod.fst
  | _ => True

structure CalledBack (reqs : Nat → ReqRes api) (delivered : List (Nat × Response api))
    (receiver : Receiver api) (called : List (Nat × Nat × Option (Response api))) : Prop where
  pending : ∀ id, (reqs id).done = false
  calls : ∀ call ∈ called, ∃ res, call.2.2 = some res ∧ (call.1, res) ∈ delivered
  once : (called.map Prod.fst).Nodup
  tells : receiver.Tells delivered called

def Replied (codec : Codec (Response api)) (answers responses answering done : List (Response api))
    (toClient : Pipe) (phase : Phase (Response api)) : Prop :=
  ∃ pulled, answers = pulled ++ responses ++ answering ∧
    Flow codec Response.isFlush pulled done toClient phase

structure Inv (setup : Setup api σ) (s : State api σ) : Prop where
  placed : Placed s.made s.reqs s.sent s.sender.holding s.reqQueue s.drained s.reqSent s.delivered
  asked : Flow setup.requests Request.isFlush (s.sent.map s.request)
    (s.served.map Served.request ++ s.reader.holding) s.toServer s.sender.phase
  replied : Replied setup.responses (s.served.map (Served.response setup)) s.responses
    s.reader.answering (s.delivered.map Prod.snd ++ s.receiver.holding) s.toClient s.writer.phase
  blameless : Blameless s.err s.sender s.receiver
  calledBack : CalledBack s.reqs s.delivered s.receiver s.called

theorem inv_start (setup : Setup api σ) (app : σ) : Inv setup (start app) where
  placed := ⟨fun id old => absurd old (Nat.not_lt_zero _), List.Pairwise.nil, List.Perm.refl _, rfl,
    rfl, fun _ => rfl, fun _ => rfl⟩
  asked := flow_start
  replied := ⟨[], rfl, flow_start⟩
  blameless := ⟨fun reason member => (by cases member), trivial, trivial⟩
  calledBack := ⟨fun _ => rfl, fun call member => (by cases member), List.nodup_nil, trivial⟩

section Placed

variable {made : Nat} {reqs : Nat → ReqRes api} {sent holding reqQueue drained reqSent : List Nat}
  {delivered : List (Nat × Response api)}
  (placed : Placed made reqs sent holding reqQueue drained reqSent delivered)

include placed

theorem Placed.nodup : (sent ++ holding ++ reqQueue ++ drained).Nodup :=
  placed.places.nodup_iff.2 List.nodup_range

theorem Placed.lt_made {id : Nat} (member : id ∈ sent ++ holding ++ reqQueue ++ drained) :
    id < made :=
  List.mem_range.1 (placed.places.mem_iff.1 member)

theorem Placed.sent_lt {id : Nat} (member : id ∈ sent) : id < made :=
  placed.lt_made (by simp [member])

theorem Placed.fresh : made ∉ delivered.map Prod.fst ++ drained := by
  intro member
  rcases List.mem_append.1 member with inside | inside
  · rw [placed.matched] at inside
    exact Nat.lt_irrefl _ (placed.sent_lt (List.mem_of_mem_take inside))
  · exact Nat.lt_irrefl _ (placed.lt_made (List.mem_append_right _ inside))

theorem Placed.enqueue {req : Request api} (isKnown : req.isNil = false) :
    Placed (made + 1) (updateReq reqs made (Function.const _ (newReqRes req))) sent holding
      (reqQueue ++ [made]) drained reqSent delivered where
  known := by
    intro id old
    rw [updateReq]
    split_ifs with isNew
    · exact isKnown
    · exact placed.known id (Nat.lt_of_le_of_ne (Nat.le_of_lt_succ old) isNew)
  order := by
    rw [← List.append_assoc, List.pairwise_append]
    refine ⟨placed.order, List.pairwise_singleton _ _, fun id member last isLast => ?_⟩
    rw [List.mem_singleton.1 isLast]
    exact placed.lt_made (List.mem_append_left _ member)
  places := by
    rw [List.range_succ]
    refine List.Perm.trans ?_ (placed.places.append_right [made])
    simp only [List.append_assoc]
    refine List.Perm.append_left _ (List.Perm.append_left _ (List.Perm.append_left _ ?_))
    exact List.perm_append_comm
  waiting := placed.waiting
  matched := placed.matched
  reply := by
    intro id
    rw [updateReq]
    split_ifs with isNew
    · rw [isNew]
      refine (List.lookup_eq_none_iff.2 fun entry member => ?_).symm
      rw [bne_iff_ne]
      intro same
      exact placed.fresh (List.mem_append_left _ (List.mem_map.2 ⟨entry, member, same.symm⟩))
    · exact placed.reply id
  dones := by
    intro id
    rw [updateReq]
    split_ifs with isNew
    · rw [isNew, List.count_eq_zero_of_not_mem placed.fresh]
      rfl
    · exact placed.dones id

theorem Placed.known_update {id : Nat} {change : ReqRes api → ReqRes api}
    (keeps : (change (reqs id)).request = (reqs id).request) :
    ∀ other < made, (updateReq reqs id change other).request.isNil = false := by
  intro other old
  rw [updateReq_keeps keeps]
  exact placed.known other old

theorem Placed.setCb (id cb : Nat) :
    Placed made (updateReq reqs id (.setCb cb)) sent holding reqQueue drained reqSent
      delivered :=
  ⟨placed.known_update rfl, placed.order, placed.places, placed.waiting, placed.matched,
    fun other => (updateReq_keeps rfl).trans (placed.reply other),
    fun other => (updateReq_keeps rfl).trans (placed.dones other)⟩

theorem Placed.delivered_le : delivered.length ≤ sent.length := by
  have lengths := congrArg List.length placed.matched
  rw [List.length_map, List.length_take] at lengths
  omega

theorem Placed.notMem_delivered {id : Nat} {rest : List Nat} (front : reqSent = id :: rest) :
    id ∉ delivered.map Prod.fst := by
  have distinct : sent.Nodup := by
    have nodup := placed.nodup
    simp only [List.append_assoc] at nodup
    exact (List.nodup_append.1 nodup).1
  rw [placed.matched]
  have split := List.take_append_drop delivered.length sent
  rw [← placed.waiting, front] at split
  rw [← split, List.nodup_append] at distinct
  exact fun member => distinct.2.2 id member id List.mem_cons_self rfl

end Placed

section PlacedMoves

variable {made : Nat} {reqs : Nat → ReqRes api} {sent reqQueue drained reqSent rest : List Nat}
  {delivered : List (Nat × Response api)} {id : Nat}

theorem Placed.take
    (placed : Placed made reqs sent [] (id :: rest) drained reqSent delivered) :
    Placed made reqs sent [id] rest drained reqSent delivered := by
  have same : sent ++ [] ++ id :: rest = sent ++ [id] ++ rest := by simp
  refine ⟨placed.known, ?_, ?_, placed.waiting, placed.matched, placed.reply, placed.dones⟩
  · rw [← same]
    exact placed.order
  · rw [← same]
    exact placed.places

theorem Placed.push
    (placed : Placed made reqs sent [id] reqQueue drained reqSent delivered) :
    Placed made reqs (sent ++ [id]) [] reqQueue drained (reqSent ++ [id]) delivered := by
  have short := placed.delivered_le
  refine ⟨placed.known, ?_, ?_, ?_, ?_, placed.reply, placed.dones⟩
  · rw [List.append_nil]
    exact placed.order
  · rw [List.append_nil]
    exact placed.places
  · rw [List.drop_append_of_le_length short, placed.waiting]
  · rw [List.take_append_of_le_length short, placed.matched]

theorem Placed.answer {holding : List Nat}
    (placed : Placed made reqs sent holding reqQueue drained (id :: rest) delivered)
    (res : Response api) :
    Placed made (updateReq reqs id (.answer res))
      sent holding reqQueue drained rest (delivered ++ [(id, res)]) where
  known := placed.known_update rfl
  order := placed.order
  places := placed.places
  waiting := by
    rw [List.length_append, List.length_singleton, ← List.drop_drop, ← placed.waiting,
      List.drop_one, List.tail_cons]
  matched := by
    rw [List.map_append, placed.matched, List.length_append, List.length_singleton,
      List.take_add_one, ← List.head?_drop, ← placed.waiting]
    rfl
  reply := by
    intro other
    rw [updateReq, List.lookup_append]
    split_ifs with same
    · have absent : delivered.lookup id = none := by
        refine List.lookup_eq_none_iff.2 fun entry member => ?_
        rw [bne_iff_ne]
        intro equal
        exact placed.notMem_delivered rfl (List.mem_map.2 ⟨entry, member, equal.symm⟩)
      rw [same, absent]
      simp [ReqRes.answer]
    · rw [placed.reply]
      simp [List.lookup_cons, beq_false_of_ne same]
  dones := by
    intro other
    rw [updateReq, List.map_append, List.count_append, List.count_append]
    have before := placed.dones other
    rw [List.count_append] at before
    split_ifs with same
    · rw [same] at before ⊢
      simp only [ReqRes.answer, ReqRes.finish, List.map_cons, List.map_nil,
        List.count_singleton_self, before]
      omega
    · rw [before]
      simp [Ne.symm same]

theorem Placed.drain {holding : List Nat}
    (placed : Placed made reqs sent holding (id :: rest) drained reqSent delivered) :
    Placed made (updateReq reqs id ReqRes.finish) sent holding rest (drained ++ [id]) reqSent
      delivered where
  known := placed.known_update rfl
  order := by
    refine placed.order.sublist ?_
    exact (List.sublist_cons_self id rest).append_left _
  places := by
    refine List.Perm.trans ?_ placed.places
    simp only [List.append_assoc]
    refine List.Perm.append_left _ (List.Perm.append_left _ ?_)
    rw [← List.append_assoc]
    exact List.perm_append_singleton id (rest ++ drained)
  waiting := placed.waiting
  matched := placed.matched
  reply := by
    intro other
    rw [@updateReq_keeps api reqs id other ReqRes.finish _ ReqRes.response rfl]
    exact placed.reply other
  dones := by
    intro other
    rw [updateReq, ← List.append_assoc, List.count_append, ← placed.dones other]
    split_ifs with same
    · rw [same, List.count_singleton_self]
      rfl
    · simp [Ne.symm same]

end PlacedMoves

section Others

variable {err : Option ClientError} {sender : Sender api} {receiver : Receiver api}
  {reqs : Nat → ReqRes api} {delivered : List (Nat × Response api)}
  {called : List (Nat × Nat × Option (Response api))} {codec : Codec (Response api)}
  {answers responses answering done : List (Response api)} {toClient : Pipe}
  {phase : Phase (Response api)} {s : State api σ} {failing : Failing} {stopping : Stopping}
  {left : Option Failing}

theorem Replied.receive {res : Response api} {rest : List Byte}
    (replied : Replied codec answers responses answering done toClient phase)
    (parsed : codec.parse toClient.wire = .message res rest) :
    Replied codec answers responses answering (done ++ [res]) ⟨rest, toClient.held⟩ phase := by
  obtain ⟨pulled, split, flow⟩ := replied
  exact ⟨pulled, split, flow.read parsed⟩

theorem Replied.isPrefix (replied : Replied codec answers responses answering done toClient phase) :
    done <+: answers := by
  obtain ⟨pulled, rfl, flow⟩ := replied
  rw [List.append_assoc]
  exact flow.isPrefix.trans (List.prefix_append _ _)

theorem CalledBack.goOn (calledBack : CalledBack reqs delivered receiver called)
    {then_ : Receiver api} (tells : then_.Tells delivered called) :
    CalledBack reqs delivered then_ called :=
  ⟨calledBack.pending, calledBack.calls, calledBack.once, tells⟩

theorem CalledBack.update (calledBack : CalledBack reqs delivered receiver called) {id : Nat}
    {change : ReqRes api → ReqRes api} (keeps : (change (reqs id)).done = (reqs id).done) :
    CalledBack (updateReq reqs id change) delivered receiver called := by
  refine ⟨fun other => ?_, calledBack.calls, calledBack.once, calledBack.tells⟩
  rw [updateReq_keeps keeps]
  exact calledBack.pending other

theorem CalledBack.answer (calledBack : CalledBack reqs delivered receiver called) {id : Nat}
    (absent : id ∉ delivered.map Prod.fst) (res : Response api) :
    CalledBack reqs (delivered ++ [(id, res)]) (.notifying id res) called := by
  refine ⟨calledBack.pending, fun call member => ?_, calledBack.once,
    List.mem_append_right _ List.mem_cons_self, fun member => ?_⟩
  · obtain ⟨given, shape, inside⟩ := calledBack.calls call member
    exact ⟨given, shape, List.mem_append_left _ inside⟩
  · obtain ⟨call, inside, rfl⟩ := List.mem_map.1 member
    obtain ⟨given, -, there⟩ := calledBack.calls call inside
    exact absent (List.mem_map.2 ⟨_, there, rfl⟩)

theorem CalledBack.notify {id : Nat} {res : Response api} {cb : Option Nat}
    (calledBack : CalledBack reqs delivered (.notifying id res) called) :
    CalledBack reqs delivered .reading
      (called ++ cb.toList.map fun listener => (id, listener, some res)) := by
  cases cb with
  | none =>
      rw [Option.toList_none, List.map_nil, List.append_nil]
      exact calledBack.goOn trivial
  | some listener =>
      obtain ⟨inside, absent⟩ := calledBack.tells
      refine ⟨calledBack.pending, fun call member => ?_, ?_, trivial⟩
      · rcases List.mem_append.1 member with old | new
        · exact calledBack.calls call old
        · rw [List.mem_singleton.1 new]
          exact ⟨res, rfl, inside⟩
      · rw [List.map_append]
        refine List.nodup_append.2 ⟨calledBack.once, List.nodup_singleton _, ?_⟩
        intro first old last new same
        rw [same, List.mem_singleton.1 new] at old
        exact absent old

theorem Fails.network (fails : Fails s failing err stopping left) (network : failing.Network)
    (before : ∀ reason ∈ s.err, reason.Network) :
    (∀ reason ∈ err, reason.Network) ∧ ∀ then_ ∈ left, then_.Network := by
  cases fails with
  | running reason runs =>
      refine ⟨before, fun then_ member => ?_⟩
      cases member
      exact network
  | store reason unlocked =>
      refine ⟨fun other member => ?_, fun then_ member => ?_⟩
      · rcases Option.or_eq_some_iff.1 member with old | ⟨-, new⟩
        · exact before other old
        · cases new
          exact network
      · cases member
        trivial
  | _ => exact ⟨before, fun then_ member => (by cases member)⟩

theorem Sender.ofFailing_spec (network : ∀ failing ∈ left, failing.Network) :
    (ofFailing left : Sender api).holding = [] ∧ (ofFailing left : Sender api).phase = .givenUp ∧
      (ofFailing left : Sender api).Honest := by
  cases left with
  | none => exact ⟨rfl, rfl, trivial⟩
  | some failing => exact ⟨rfl, rfl, network failing rfl⟩

theorem Receiver.ofFailing_spec (network : ∀ failing ∈ left, failing.Network) :
    (ofFailing left : Receiver api).holding = [] ∧ (ofFailing left : Receiver api).Honest ∧
      (ofFailing left : Receiver api).Tells delivered called := by
  cases left with
  | none => exact ⟨rfl, trivial, trivial⟩
  | some failing => exact ⟨rfl, network failing rfl, trivial⟩

theorem Sender.after_spec (writing : Writing (Request api)) (phase : Phase (Request api)) :
    (after writing phase).holding = [] ∧ (after writing phase).phase = phase ∧
      (after writing phase).Honest := by
  cases phase with
  | nothing => exact ⟨rfl, rfl, trivial⟩
  | busy next => exact ⟨rfl, rfl, trivial⟩
  | givenUp =>
      refine ⟨rfl, rfl, ?_⟩
      cases writing with
      | whole msg => trivial
      | body msg => trivial
      | flush => trivial

theorem Writer.phase_after (phase : Phase (Response api)) : (after phase).phase = phase := by
  cases phase with
  | nothing => rfl
  | busy next => rfl
  | givenUp => rfl

end Others

section Step

variable {setup : Setup api σ} {s after : State api σ} {event : Event}

theorem Inv.front (inv : Inv setup s) {res : Response api}
    (arrived : s.delivered.map Prod.snd ++ [res] <+: s.served.map (Served.response setup)) :
    ∃ id rest, s.reqSent = id :: rest ∧ resMatchesReq (s.request id) res = true := by
  obtain ⟨later, arrived⟩ := arrived
  have place : (s.served.map (Served.response setup))[s.delivered.length]? = some res := by
    rw [← arrived, List.append_assoc, List.getElem?_append_right (by rw [List.length_map]),
      List.length_map, Nat.sub_self]
    rfl
  rw [List.getElem?_map, Option.map_eq_some_iff] at place
  obtain ⟨call, inside, rfl⟩ := place
  obtain ⟨unread, split, -⟩ := inv.asked.under
  have asked : (s.sent.map s.request)[s.delivered.length]? = some call.request := by
    have short : s.delivered.length < (s.served.map Served.request).length := by
      rw [List.length_map]
      exact (List.getElem?_eq_some_iff.1 inside).1
    rw [split, List.append_assoc, List.getElem?_append_left short, List.getElem?_map, inside]
    rfl
  rw [List.getElem?_map, Option.map_eq_some_iff] at asked
  obtain ⟨id, sent, same⟩ := asked
  have known : (s.request id).isNil = false :=
    inv.placed.known id (inv.placed.sent_lt (List.mem_of_getElem? sent))
  rw [← List.head?_drop, ← inv.placed.waiting] at sent
  obtain ⟨rest, waiting⟩ := List.head?_eq_some_iff.1 sent
  refine ⟨id, rest, waiting, ?_⟩
  rw [same] at known ⊢
  exact resMatchesReq_handleRequest known

theorem Inv.front_of_got (inv : Inv setup s) {res : Response api} (got : s.receiver = .got res) :
    ∃ id rest, s.reqSent = id :: rest ∧ resMatchesReq (s.request id) res = true := by
  have arrived := inv.replied.isPrefix
  rw [got] at arrived
  exact inv.front arrived

theorem Inv.not_exception (inv : Inv setup s) (reading : s.receiver = .reading)
    {error : GoString} {rest : List Byte} :
    setup.responses.parse s.toClient.wire ≠ .message (.exception error) rest := by
  intro parsed
  have arrived := (inv.replied.receive parsed).isPrefix
  simp only [reading, Receiver.holding, List.append_nil] at arrived
  obtain ⟨id, later, -, matching⟩ := inv.front arrived
  rw [resMatchesReq_exception] at matching
  cases matching

theorem asked_update {codec : Codec (Request api)} {reqs : Nat → ReqRes api} {ids : List Nat}
    {done : List (Request api)} {pipe : Pipe} {phase : Phase (Request api)} {id : Nat}
    {change : ReqRes api → ReqRes api}
    (asked : Flow codec Request.isFlush (ids.map fun other => (reqs other).request) done pipe phase)
    (keeps : (change (reqs id)).request = (reqs id).request) :
    Flow codec Request.isFlush (ids.map fun other => (updateReq reqs id change other).request) done
      pipe phase := by
  have same : ids.map (fun other => (updateReq reqs id change other).request) =
      ids.map fun other => (reqs other).request :=
    List.map_congr_left fun _ _ => updateReq_keeps keeps
  rw [same]
  exact asked

theorem Inv.enqueue (inv : Inv setup s) {req : Request api} (known : req.isNil = false) :
    Inv setup (s.enqueue req) where
  placed := inv.placed.enqueue known
  asked := by
    have same : s.sent.map (s.enqueue req).request = s.sent.map s.request :=
      List.map_congr_left fun id member =>
        s.request_enqueue_of_ne (Nat.ne_of_lt (inv.placed.sent_lt member)) req
    have asked := inv.asked
    rw [← same] at asked
    exact asked
  replied := inv.replied
  blameless := inv.blameless
  calledBack := inv.calledBack.update (inv.calledBack.pending s.made).symm

theorem Inv.rests (inv : Inv setup s) {then_ : Sender api}
    (holding : then_.holding = s.sender.holding) (phase : then_.phase = s.sender.phase)
    (honest : then_.Honest) : Inv setup { s with sender := then_ } := by
  obtain ⟨placed, asked, replied, blameless, calledBack⟩ := inv
  rw [← holding] at placed
  rw [← phase] at asked
  exact ⟨placed, asked, replied, ⟨blameless.err, honest, blameless.receiver⟩, calledBack⟩

theorem Inv.step (inv : Inv setup s) (step : Step setup s event after) : Inv setup after := by
  have front := @inv.front_of_got
  have noException := @inv.not_exception
  have enqueued := @inv.enqueue
  have rests := @inv.rests
  obtain ⟨placed, asked, replied, blameless, calledBack⟩ := inv
  cases step with
  | queue req known room =>
      have grown := enqueued known
      exact ⟨grown.placed, grown.asked, grown.replied, grown.blameless, grown.calledBack⟩
  | setCallback id cb old waits =>
      exact ⟨placed.setCb id cb, asked_update asked rfl, replied, blameless,
        calledBack.update rfl⟩
  | callAtOnce id cb old done =>
      rw [calledBack.pending id] at done
      cases done
  | fire firing idle empty quiet =>
      have ticks := @rests .ticked (by rw [idle]; rfl) (by rw [idle]; rfl) trivial
      exact ⟨ticks.placed, ticks.asked, ticks.replied, ticks.blameless, ticks.calledBack⟩
  | tick ticked room =>
      have grown : Inv setup (s.enqueue .flush) := enqueued rfl
      have ticked' : (s.enqueue .flush).sender = .ticked := ticked
      exact grown.rests (by rw [ticked']; rfl) (by rw [ticked']; rfl) trivial
  | tickFull ticked full =>
      exact rests (by rw [ticked]; rfl) (by rw [ticked]; rfl) trivial
  | take id rest idle queue =>
      rw [idle, queue] at placed
      rw [idle] at asked
      exact ⟨placed.take, asked, replied, ⟨blameless.err, trivial, blameless.receiver⟩, calledBack⟩
  | quit idle closed =>
      rw [idle] at placed
      exact ⟨placed, asked.giveUp, replied, ⟨blameless.err, trivial, blameless.receiver⟩,
        calledBack⟩
  | push id taken unlocked =>
      rw [taken] at placed asked
      refine ⟨placed.push, ?_, replied, ⟨blameless.err, trivial, blameless.receiver⟩, calledBack⟩
      rw [List.map_append]
      exact asked.push
  | send writing writes =>
      rw [writes] at placed asked
      obtain ⟨holding, phase, honest⟩ := Sender.after_spec writing (s.send setup writing).1
      refine ⟨?_, ?_, replied, ⟨blameless.err, honest, blameless.receiver⟩, calledBack⟩
      · rw [holding]
        exact placed
      · rw [phase]
        exact asked.write s.clientDown
  | senderStops failing stops fails =>
      have network := blameless.sender
      rw [stops] at placed network
      obtain ⟨errors, left⟩ := fails.network network blameless.err
      obtain ⟨holding, phase, honest⟩ := @Sender.ofFailing_spec api _ left
      refine ⟨?_, ?_, replied, ⟨errors, honest, blameless.receiver⟩, calledBack⟩
      · rw [holding]
        exact placed
      · rw [phase]
        exact asked.giveUp
  | receive res rest reading parsed normal =>
      simp only [reading, Receiver.holding, List.append_nil] at replied
      exact ⟨placed, asked, replied.receive parsed, ⟨blameless.err, blameless.sender, trivial⟩,
        calledBack.goOn trivial⟩
  | receiveException error rest reading parsed => exact absurd parsed (noException reading)
  | receiveFails reading reason =>
      rw [reading] at replied
      exact ⟨placed, asked, replied, ⟨blameless.err, blameless.sender, trivial⟩,
        calledBack.goOn trivial⟩
  | deliver res id rest got unlocked waiting matching =>
      rw [waiting] at placed
      rw [got] at replied
      refine ⟨placed.answer res, asked_update asked rfl, ?_,
        ⟨blameless.err, blameless.sender, trivial⟩,
        (calledBack.answer (placed.notMem_delivered rfl) res).update rfl⟩
      simpa [State.answer, Receiver.holding] using replied
  | nothingExpected res got unlocked empty =>
      obtain ⟨id, rest, waiting, -⟩ := front got
      rw [empty] at waiting
      cases waiting
  | unexpected res id rest got unlocked waiting different =>
      obtain ⟨first, others, here, matching⟩ := front got
      rw [waiting] at here
      cases here
      rw [different] at matching
      cases matching
  | notify id res notifying =>
      rw [notifying] at replied calledBack
      exact ⟨placed, asked, replied, ⟨blameless.err, blameless.sender, trivial⟩, calledBack.notify⟩
  | receiverStops failing stops fails =>
      have network := blameless.receiver
      rw [stops] at replied network
      obtain ⟨errors, left⟩ := fails.network network blameless.err
      obtain ⟨holding, honest, tells⟩ := @Receiver.ofFailing_spec api s.delivered s.called _ left
      refine ⟨placed, asked, ?_, ⟨errors, blameless.sender, honest⟩, calledBack.goOn tells⟩
      rw [holding]
      exact replied
  | drain id rest locked queue =>
      rw [queue] at placed
      exact ⟨placed.drain, asked_update asked rfl, replied, blameless, calledBack.update rfl⟩
  | read req rest reading parsed =>
      rw [reading] at replied
      simp only [reading, Reader.holding, List.append_nil] at asked
      exact ⟨placed, asked.read parsed, replied, blameless, calledBack⟩
  | readFails reading reason =>
      rw [reading] at asked replied
      exact ⟨placed, asked, replied, blameless, calledBack⟩
  | handle req read =>
      rw [read] at asked replied
      refine ⟨placed, ?_, ?_, blameless, calledBack⟩
      · have handled : (s.served ++ [Served.mk req s.app]).map Served.request ++ [] =
            s.served.map Served.request ++ [req] := by simp
        rw [Reader.holding, ← handled] at asked
        exact asked
      · obtain ⟨pulled, split, flow⟩ := replied
        refine ⟨pulled, ?_, flow⟩
        rw [List.map_append, split]
        simp [Reader.answering, Served.response]
  | respond res answered room =>
      rw [answered] at asked replied
      refine ⟨placed, asked, ?_, blameless, calledBack⟩
      obtain ⟨pulled, split, flow⟩ := replied
      refine ⟨pulled, ?_, flow⟩
      rw [split]
      simp [Reader.answering]
  | pull res rest waiting queue =>
      rw [waiting] at replied
      refine ⟨placed, asked, ?_, blameless, calledBack⟩
      obtain ⟨pulled, split, flow⟩ := replied
      refine ⟨pulled ++ [res], ?_, flow.push⟩
      rw [split, queue]
      simp
  | reply writing writes =>
      rw [writes] at replied
      refine ⟨placed, asked, ?_, blameless, calledBack⟩
      obtain ⟨pulled, split, flow⟩ := replied
      refine ⟨pulled, split, ?_⟩
      rw [Writer.phase_after]
      exact flow.write s.serverDown
  | _ => exact ⟨placed, asked, replied, blameless, calledBack⟩

theorem inv_reached {app : σ} {events : List Event} (reached : Reached setup app events s) :
    Inv setup s :=
  reached.keeps_all Inv.step (inv_start setup app)

end Step

end Bclib.Abci.Link
