import Bclib.Abci.Pipeline

namespace Bclib.Abci.Link

open Data
open Go

/-! Which response a caller of the ABCI client gets, and how often it is told. -/

variable {api : Api} {σ : Type} {setup : Setup api σ} {s after : State api σ} {event : Event}

theorem Inv.delivered_isPrefix (inv : Inv setup s) :
    s.delivered <+: s.sent.zip (s.served.map (Served.response setup)) := by
  have answers : s.delivered.map Prod.snd =
      (s.served.map (Served.response setup)).take s.delivered.length := by
    obtain ⟨later, split⟩ := inv.replied.isPrefix
    rw [← split, List.append_assoc, List.take_append_of_le_length (by rw [List.length_map]),
      List.take_of_length_le (by rw [List.length_map])]
  have whole := List.zip_of_prod inv.placed.matched answers
  rw [List.zip, ← List.take_zipWith] at whole
  rw [whole]
  exact List.take_prefix _ _

theorem Inv.served_isPrefix (inv : Inv setup s) :
    s.served.map Served.request <+: s.sent.map s.request :=
  (List.prefix_append _ _).trans inv.asked.isPrefix

/-! Without another connection the application is run by the requests alone. -/

variable (setup) in
/-- The requests one after another, each with the state the application is in then. -/
def serveAll (app : σ) : List (Request api) → List (Served api σ)
  | [] => []
  | req :: rest => ⟨req, app⟩ :: serveAll (handleRequest setup.app setup.remote req app).2 rest

variable (setup) in
def stateAfter (app : σ) (requests : List (Request api)) : σ :=
  requests.foldl (fun state req => (handleRequest setup.app setup.remote req state).2) app

theorem serveAll_concat (app : σ) (requests : List (Request api)) (req : Request api) :
    serveAll setup app (requests ++ [req]) =
      serveAll setup app requests ++ [⟨req, stateAfter setup app requests⟩] := by
  induction requests generalizing app with
  | nil => rfl
  | cons first rest ih => exact congrArg (_ :: ·) (ih _)

structure Sequential (setup : Setup api σ) (app : σ) (s : State api σ) : Prop where
  served : s.served = serveAll setup app (s.served.map Served.request)
  state : s.app = stateAfter setup app (s.served.map Served.request)

theorem Sequential.step {app : σ} (sequential : Sequential setup app s)
    (alone : event ≠ .elsewhere) (step : Step setup s event after) :
    Sequential setup app after := by
  obtain ⟨served, state⟩ := sequential
  cases step with
  | handle req read =>
      refine ⟨?_, ?_⟩
      · rw [List.map_append, List.map_singleton, serveAll_concat, ← served, ← state]
      · rw [List.map_append, List.map_singleton, stateAfter, List.foldl_append, state]
        rfl
  | elsewhere app => exact absurd rfl alone
  | _ => exact ⟨served, state⟩

/-- The responses and the requests, as a caller wants them. -/
structure InOrder (setup : Setup api σ) (app : σ) (events : List Event) (s : State api σ) :
    Prop where
  /-- Requests are sent in the order in which they were queued, -/
  sent : s.sent.Pairwise (· < ·)
  /-- the application is called with those that were sent, in that order and once each, -/
  served : s.served.map Served.request <+: s.sent.map s.request
  /-- and the responses are delivered in that order, each to its own request. -/
  delivered : s.delivered <+: s.sent.zip (s.served.map (Served.response setup))
  /-- No request has any other response. -/
  response : ∀ id, (s.reqs id).response = s.delivered.lookup id
  /-- The client has no error but one of the connection. -/
  err : ∀ reason ∈ s.err, reason.Network
  sequential : .elsewhere ∉ events →
    s.served = serveAll setup app (s.served.map Served.request)

/-- However the goroutines take turns, responses come in the order of the requests. -/
theorem responses_in_order {app : σ} {events : List Event} (reached : Reached setup app events s) :
    InOrder setup app events s := by
  have inv := inv_reached reached
  refine ⟨?_, inv.served_isPrefix, inv.delivered_isPrefix, inv.placed.reply, inv.blameless.err,
    fun alone => ?_⟩
  · have order := inv.placed.order
    rw [List.append_assoc, List.pairwise_append] at order
    exact order.1
  · have sequential : Sequential setup app s :=
      reached.keeps Sequential.step ⟨rfl, rfl⟩ fun event member same => alone (same ▸ member)
    exact sequential.served

/-! A connection on which an echo and a flush are sent, to an application that has no state. -/

def sampleApi : Api := ⟨fun _ => Unit, fun _ => Unit, Unit⟩

/-- The text "hi". -/
def hi : GoString := [104, 105]

/-- The echo of "hi", in field 2 of a request and of a response. -/
def echoBytes : List Byte := [0x12, 0x04, 0x0a, 0x02, 0x68, 0x69]

/-- The flush, in field 3. -/
def flushBytes : List Byte := [0x1a, 0x00]

/-- Protobuf on these two messages; nothing else is asked for. -/
def sampleCodec (echo flush : μ) (isEcho isFlush : μ → Bool)
    (eq_echo : ∀ {msg}, isEcho msg → echo = msg) (eq_flush : ∀ {msg}, isFlush msg → flush = msg) :
    Codec μ where
  marshal msg :=
    if isEcho msg then some echoBytes else if isFlush msg then some flushBytes else none
  unmarshal bz :=
    if bz = echoBytes then .ok echo else if bz = flushBytes then .ok flush else .error "proto"
  unmarshal_marshal := by
    intro msg bz done
    split_ifs at done with isEcho isFlush
    · cases done
      rw [if_pos rfl, eq_echo isEcho]
    · cases done
      rw [if_neg (by decide), if_pos rfl, eq_flush isFlush]
  short := by
    intro msg bz done
    split_ifs at done
    · cases done
      decide
    · cases done
      decide

def asksHi : Request sampleApi → Bool
  | .echo message => message = hi
  | _ => false

def answersHi : Response sampleApi → Bool
  | .echo message => message = hi
  | _ => false

theorem eq_of_asksHi {req : Request sampleApi} (same : asksHi req) : .echo hi = req := by
  cases req with
  | echo message => rw [of_decide_eq_true same]
  | _ => cases same

theorem eq_of_answersHi {res : Response sampleApi} (same : answersHi res) : .echo hi = res := by
  cases res with
  | echo message => rw [of_decide_eq_true same]
  | _ => cases same

def sampleSetup : Setup sampleApi Unit where
  app := ⟨fun _ _ => ((), ()), fun _ _ _ => ((), ())⟩
  remote := ⟨.v4 ⟨[127, 0, 0, 1], rfl⟩, 46658, []⟩
  requests := sampleCodec (.echo hi) .flush asksHi Request.isFlush eq_of_asksHi
    fun {msg} isIt => by cases msg <;> first | rfl | cases isIt
  responses := sampleCodec (.echo hi) .flush answersHi Response.isFlush eq_of_answersHi
    fun {msg} isIt => by cases msg <;> first | rfl | cases isIt

/-- An echo with a callback and a flush behind it have been queued. -/
def sampleQueued : State sampleApi Unit :=
  let echo : State sampleApi Unit := { (start ()).enqueue (.echo hi) with callers := [false] }
  let both := { echo.enqueue .flush with callers := [false, true] }
  { both with reqs := updateReq both.reqs 0 (.setCb 5) }

theorem reached_sampleQueued : Reached sampleSetup () [.queue, .queue, .other] sampleQueued := by
  have echo := Trace.nil.snoc (@Step.queue _ _ sampleSetup (start ()) (.echo hi) rfl (by decide))
  have both := echo.snoc (.queue .flush rfl (by decide))
  exact both.snoc (.setCallback 0 5 (by decide) rfl)

theorem unlocked_of_running (running : s.stopping = .none)
    (free : ∀ id res, s.receiver ≠ .notifying id res) : s.Unlocked :=
  ⟨by rw [running]; exact Stopping.noConfusion, free⟩

theorem sample_exchange :
    ∃ events final, Trace (Step sampleSetup) sampleQueued events final ∧ events.length = 28 ∧
      (∀ event ∈ events, event = .work) ∧ final.delivered = [(0, .echo hi), (1, .flush)] ∧
      final.called = [(0, 5, some (.echo hi))] ∧ final.receiver = .reading := by
  have taken := Trace.nil.snoc (@Step.take _ _ sampleSetup sampleQueued 0 [1] rfl rfl)
  have pushed := taken.snoc (.push 0 rfl (unlocked_of_running rfl fun _ _ same => by cases same))
  have echo := (pushed.snoc (.send _ rfl)).snoc (.send _ rfl)
  have pushed := (echo.snoc (.take 1 [] rfl rfl)).snoc
    (.push 1 rfl (unlocked_of_running rfl fun _ _ same => by cases same))
  have sent := ((pushed.snoc (.send _ rfl)).snoc (.send _ rfl)).snoc (.send _ rfl)
  have handled := (sent.snoc (.read (.echo hi) _ rfl rfl)).snoc (.handle (.echo hi) rfl)
  have handled := ((handled.snoc (.respond (.echo hi) rfl (by decide))).snoc
    (.read .flush [] rfl rfl)).snoc (.handle .flush rfl)
  have pulled := (handled.snoc (.respond .flush rfl (by decide))).snoc (.pull (.echo hi) _ rfl rfl)
  have pulled := ((pulled.snoc (.reply _ rfl)).snoc (.reply _ rfl)).snoc (.pull .flush [] rfl rfl)
  have replied := ((pulled.snoc (.reply _ rfl)).snoc (.reply _ rfl)).snoc (.reply _ rfl)
  have received := replied.snoc (.receive (.echo hi) _ rfl rfl fun _ => by simp)
  have told := (received.snoc (.deliver (.echo hi) 0 [1] rfl
    (unlocked_of_running rfl fun _ _ same => by cases same) rfl rfl)).snoc
      (.notify 0 (.echo hi) rfl)
  have received := told.snoc (.receive .flush [] rfl rfl fun _ => by simp)
  have told := (received.snoc (.deliver .flush 1 [] rfl
    (unlocked_of_running rfl fun _ _ same => by cases same) rfl rfl)).snoc (.notify 1 .flush rfl)
  exact ⟨_, _, told, rfl, by decide, rfl, rfl, rfl⟩

theorem responses_in_order_sample :
    ∃ events s, Reached sampleSetup () events s ∧
      s.delivered = [(0, .echo hi), (1, .flush)] ∧ InOrder sampleSetup () events s := by
  obtain ⟨events, s, further, -, -, delivered, -, -⟩ := sample_exchange
  have reached := reached_sampleQueued.append further
  exact ⟨_, s, reached, delivered, responses_in_order reached⟩

def DrainedByStop (s : State api σ) : Prop :=
  s.drained ≠ [] → s.stopping ≠ .none ∧ s.stopping ≠ .flagged

theorem Fails.drainedByStop {failing : Failing} {err : Option ClientError} {stopping : Stopping}
    {left : Option Failing} (fails : Fails s failing err stopping left)
    (before : DrainedByStop s) : s.drained ≠ [] → stopping ≠ .none ∧ stopping ≠ .flagged := by
  cases fails with
  | stop runs => exact fun some => absurd runs (before some).1
  | _ => exact before

theorem DrainedByStop.step (before : DrainedByStop s) (step : Step setup s event after) :
    DrainedByStop after := by
  cases step with
  | senderStops failing stops fails => exact fails.drainedByStop before
  | receiverStops failing stops fails => exact fails.drainedByStop before
  | stop running => exact fun some => absurd running (before some).1
  | lock flagged unlocked => exact fun _ => ⟨by simp, by simp⟩
  | drain id rest locked queue => exact fun _ => ⟨by simp [locked], by simp [locked]⟩
  | unlock locked empty => exact fun _ => ⟨by simp, by simp⟩
  | close unlocked => exact fun _ => ⟨by simp, by simp⟩
  | _ => exact before

theorem drained_of_running {app : σ} {events : List Event} (reached : Reached setup app events s)
    (running : s.stopping = .none) : s.drained = [] := by
  have drained : DrainedByStop s := reached.keeps_all DrainedByStop.step fun some => absurd rfl some
  by_contra some
  exact (drained some).1 running

section Placed

variable {made : Nat} {reqs : Nat → ReqRes api} {sent holding reqQueue drained reqSent : List Nat}
  {delivered : List (Nat × Response api)}
  (placed : Placed made reqs sent holding reqQueue drained reqSent delivered)

include placed

theorem Placed.apart : (delivered.map Prod.fst ++ drained).Nodup := by
  refine placed.nodup.sublist (List.Sublist.append ?_ (List.Sublist.refl _))
  rw [placed.matched, List.append_assoc]
  exact (List.take_sublist _ _).trans (List.sublist_append_left _ _)

theorem Placed.response_of_mem {id : Nat} {res : Response api} (member : (id, res) ∈ delivered) :
    (reqs id).response = some res := by
  rw [placed.reply]
  exact (lookup_eq_some_iff_mem (List.nodup_append.1 placed.apart).1).2 member

end Placed

/-- What a caller is told of its requests. -/
structure ReleasedOnce (s : State api σ) : Prop where
  /-- The wait group of a request is released at most once, -/
  dones : ∀ id, (s.reqs id).dones ≤ 1
  /-- and while the client runs only with its response. -/
  response : s.stopping = .none → ∀ id, (s.reqs id).dones = 1 →
    (s.reqs id).response.isSome = true
  /-- Its callback is called at most once, -/
  once : (s.called.map Prod.fst).Nodup
  /-- and with its response. -/
  called : ∀ call ∈ s.called, call.2.2.isSome = true ∧ (s.reqs call.1).response = call.2.2

/-- However the goroutines take turns, callers are told once. -/
theorem released_once {app : σ} {events : List Event} (reached : Reached setup app events s) :
    ReleasedOnce s := by
  have inv := inv_reached reached
  refine ⟨fun id => ?_, fun running id done => ?_, inv.calledBack.once, fun call member => ?_⟩
  · rw [inv.placed.dones]
    exact List.nodup_iff_count_le_one.1 inv.placed.apart id
  · have count := inv.placed.dones id
    rw [drained_of_running reached running, List.append_nil, done] at count
    have inside := List.count_pos_iff.1 (Nat.lt_of_lt_of_eq Nat.zero_lt_one count)
    obtain ⟨⟨_, res⟩, member, rfl⟩ := List.mem_map.1 inside
    rw [inv.placed.response_of_mem member]
    rfl
  · obtain ⟨res, given, inside⟩ := inv.calledBack.calls call member
    rw [given, inv.placed.response_of_mem inside]
    exact ⟨rfl, rfl⟩

theorem released_once_sample :
    ∃ events s, Reached sampleSetup () events s ∧
      s.delivered = [(0, .echo hi), (1, .flush)] ∧ s.called = [(0, 5, some (.echo hi))] ∧
      ReleasedOnce s := by
  obtain ⟨events, s, further, -, -, delivered, called, -⟩ := sample_exchange
  have reached := reached_sampleQueued.append further
  exact ⟨_, s, reached, delivered, called, released_once reached⟩

structure Told (id : Nat) (calls : List (Nat × Nat × Option (Response api))) (s : State api σ) :
    Prop where
  answered : id ∈ s.delivered.map Prod.fst
  told : ∀ res, s.receiver ≠ .notifying id res
  calls : s.called.filter (·.1 = id) = calls

theorem Told.step {id : Nat} {calls : List (Nat × Nat × Option (Response api))}
    (told : Told id calls s) (inv : Inv setup s) (step : Step setup s event after) :
    Told id calls after := by
  obtain ⟨answered, told, calls⟩ := told
  cases step with
  | callAtOnce other cb old done =>
      rw [inv.calledBack.pending other] at done
      cases done
  | receive res rest reading parsed normal => exact ⟨answered, fun _ => by simp, calls⟩
  | receiveException error rest reading parsed => exact ⟨answered, fun _ => by simp, calls⟩
  | receiveFails reading reason => exact ⟨answered, fun _ => by simp, calls⟩
  | deliver res first rest got unlocked waiting matching =>
      have absent := inv.placed.notMem_delivered waiting
      refine ⟨?_, fun other notifying => ?_, calls⟩
      · simp only [State.answer, List.map_append]
        exact List.mem_append_left _ answered
      · cases notifying
        exact absent answered
  | nothingExpected res got unlocked empty => exact ⟨answered, fun _ => by simp, calls⟩
  | unexpected res first rest got unlocked waiting different =>
      exact ⟨answered, fun _ => by simp, calls⟩
  | notify other res notifying =>
      have ne : other ≠ id := fun same => told res (same ▸ notifying)
      refine ⟨answered, fun _ => by simp, ?_⟩
      rw [List.filter_append, calls, List.filter_eq_nil_iff.2, List.append_nil]
      intro call member
      obtain ⟨cb, -, rfl⟩ := List.mem_map.1 member
      simp [ne]
  | receiverStops failing stops fails =>
      refine ⟨answered, fun res notifying => ?_, calls⟩
      rename_i left
      cases left with
      | none => cases notifying
      | some failing => cases notifying
  | _ => exact ⟨answered, told, calls⟩

/-- Since `done` is never set, a callback that is set after the listeners have been told of
the response is not called, then or later. -/
theorem late_callback {app : σ} {events later : List Event} {final : State api σ}
    (reached : Reached setup app events s) (further : Trace (Step setup) s later final) {id : Nat}
    (answered : (s.reqs id).response.isSome = true)
    (told : ∀ res, s.receiver ≠ .notifying id res) :
    final.called.filter (·.1 = id) = s.called.filter (·.1 = id) := by
  have inv := inv_reached reached
  have inside : id ∈ s.delivered.map Prod.fst := by
    obtain ⟨res, found⟩ := Option.isSome_iff_exists.1 answered
    rw [inv.placed.reply] at found
    exact List.mem_map.2 ⟨_, mem_of_lookup found, rfl⟩
  have both : Inv setup final ∧ Told id (s.called.filter (·.1 = id)) final :=
    @Trace.keeps_all _ _ _ _ _ _ (fun s' => Inv setup s' ∧ Told id (s.called.filter (·.1 = id)) s')
      further (fun both step => ⟨both.1.step step, both.2.step both.1 step⟩)
      ⟨inv, inside, told, rfl⟩
  exact both.2.calls

theorem late_callback_sample :
    ∃ events s final, Reached sampleSetup () events s ∧ (s.reqs 1).response = some .flush ∧
      Trace (Step sampleSetup) s [.other] final ∧ (final.reqs 1).cb = some 7 ∧
      final.called.filter (·.1 = 1) = s.called.filter (·.1 = 1) := by
  obtain ⟨events, s, further, -, -, delivered, -, reading⟩ := sample_exchange
  have reached := reached_sampleQueued.append further
  have inv := inv_reached reached
  have answered : (s.reqs 1).response = some .flush := by
    rw [inv.placed.reply, delivered]
    rfl
  have old : 1 < s.made := by
    refine inv.placed.sent_lt (List.mem_of_mem_take (i := s.delivered.length) ?_)
    rw [← inv.placed.matched, delivered]
    simp
  have pending := inv.calledBack.pending 1
  have set := Trace.nil.snoc (@Step.setCallback _ _ sampleSetup s 1 7 old pending)
  refine ⟨_, s, _, reached, answered, set, ?_, late_callback reached set ?_ fun res => ?_⟩
  · simp [ReqRes.setCb]
  · rw [answered]
    rfl
  · rw [reading]
    simp

end Bclib.Abci.Link
