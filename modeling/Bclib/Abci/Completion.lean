import Bclib.Abci.Delivery
import Mathlib.Data.List.Sort

namespace Bclib.Abci.Link

open Data
open Go

/-! What a flush brings about: left to themselves the goroutines come to rest, and then every
request up to the last flush has been answered. -/

variable {api : Api} {σ : Type} {setup : Setup api σ} {s after : State api σ} {event : Event}

def Event.own : Event → Bool
  | .tick => true
  | .work => true
  | _ => false

def Receiver.Works : Receiver api → Prop
  | .stops _ => False
  | .returned => False
  | _ => True

def Reader.Works : Reader api → Prop
  | .returned => False
  | _ => True

structure Undisturbed (s : State api σ) : Prop where
  running : s.stopping = .none
  clientUp : s.clientDown = false
  serverUp : s.serverDown = false
  sender : s.sender.phase.Works
  receiver : s.receiver.Works
  reader : s.reader.Works
  writer : s.writer.phase.Works

/-- The messages that the two sides make by themselves are short enough, if the requests are. -/
structure Fitting (setup : Setup api σ) : Prop where
  flush : setup.requests.Fits .flush
  answers : ∀ req app, setup.requests.Fits req →
    setup.responses.Fits (handleRequest setup.app setup.remote req app).1

def Small (setup : Setup api σ) (s : State api σ) : Prop :=
  ∀ id < s.made, setup.requests.Fits (s.request id)

def weightOf : Phase μ → Nat
  | .busy (.whole _) => 3
  | .busy (.body _) => 2
  | .busy .flush => 1
  | _ => 0

theorem weightOf_lt {phase : Phase μ} {writing : Writing μ} (follows : phase.Follows writing) :
    weightOf phase < weightOf (.busy writing) := by
  cases phase with
  | nothing => cases writing <;> exact Nat.succ_pos _
  | busy next =>
      cases next with
      | whole _ => cases writing <;> exact follows.elim
      | body _ =>
          cases writing with
          | whole _ => exact Nat.lt_succ_self 2
          | body _ => exact follows.elim
          | flush => exact follows.elim
      | flush =>
          cases writing with
          | whole _ => exact follows.elim
          | body _ => exact Nat.lt_succ_self 1
          | flush => exact follows.elim
  | givenUp => cases writing <;> exact Nat.succ_pos _

def Sender.weight : Sender api → Nat
  | .ticked => 17
  | .taken _ => 15
  | sender => weightOf sender.phase

def Receiver.weight : Receiver api → Nat
  | .reading => 1
  | .notifying _ _ => 2
  | _ => 0

def Reader.weight : Reader api → Nat
  | .reading => 1
  | .answered _ => 7
  | _ => 0

/-- A bound on the steps that the goroutines can make by themselves. -/
def State.weight (s : State api σ) : Nat :=
  16 * s.reqQueue.length + s.sender.weight + 11 * (s.sent.length - s.served.length) +
    s.reader.weight + 3 * (s.served.length - s.delivered.length) + 5 * s.responses.length +
    weightOf s.writer.phase + s.receiver.weight

theorem Sender.weight_after (writing : Writing (Request api)) (phase : Phase (Request api)) :
    (Sender.after writing phase).weight = weightOf phase := by
  cases phase with
  | nothing => rfl
  | busy next => rfl
  | givenUp => rfl

theorem Inv.lengths (inv : Inv setup s) :
    s.served.length + s.reader.holding.length ≤ s.sent.length ∧
      s.delivered.length + s.receiver.holding.length ≤ s.served.length := by
  have sent := inv.asked.isPrefix.length_le
  have served := inv.replied.isPrefix.length_le
  simp only [List.length_map, List.length_append] at sent served
  exact ⟨sent, served⟩

theorem Inv.fits_sent (inv : Inv setup s) (small : Small setup s) :
    ∀ req ∈ s.sent.map s.request, setup.requests.Fits req := by
  intro req member
  obtain ⟨id, inside, rfl⟩ := List.mem_map.1 member
  exact small id (inv.placed.sent_lt inside)

theorem Inv.fits_served (inv : Inv setup s) (small : Small setup s) (fitting : Fitting setup) :
    ∀ res ∈ s.served.map (Served.response setup), setup.responses.Fits res := by
  intro res member
  obtain ⟨call, inside, rfl⟩ := List.mem_map.1 member
  refine fitting.answers _ _ (inv.fits_sent small _ ?_)
  exact inv.served_isPrefix.subset (List.mem_map_of_mem inside)

theorem Inv.replies (inv : Inv setup s) (small : Small setup s) (fitting : Fitting setup) :
    ∃ pulled, s.served.map (Served.response setup) = pulled ++ s.responses ++ s.reader.answering ∧
      Flow setup.responses Response.isFlush pulled (s.delivered.map Prod.snd ++ s.receiver.holding)
        s.toClient s.writer.phase ∧ ∀ res ∈ pulled, setup.responses.Fits res := by
  obtain ⟨pulled, split, flow⟩ := inv.replied
  refine ⟨pulled, split, flow, fun res member => inv.fits_served small fitting res ?_⟩
  rw [split, List.append_assoc]
  exact List.mem_append_left _ member

theorem Small.enqueue (small : Small setup s) {req : Request api}
    (fits : setup.requests.Fits req) : Small setup (s.enqueue req) := by
  intro id old
  by_cases isNew : id = s.made
  · rw [isNew, State.request_enqueue_made]
    exact fits
  · rw [s.request_enqueue_of_ne isNew]
    exact small id (Nat.lt_of_le_of_ne (Nat.le_of_lt_succ old) isNew)

theorem own_step (inv : Inv setup s) (undisturbed : Undisturbed s) (small : Small setup s)
    (fitting : Fitting setup) (own : event.own = true) (step : Step setup s event after) :
    Undisturbed after ∧ Small setup after ∧ after.weight < s.weight := by
  obtain ⟨running, clientUp, serverUp, sender, receiver, reader, writer⟩ := undisturbed
  obtain ⟨asked, replied⟩ := inv.lengths
  cases step with
  | tick ticked room =>
      refine ⟨⟨running, clientUp, serverUp, trivial, receiver, reader, writer⟩,
        small.enqueue fitting.flush, ?_⟩
      simp only [State.weight, State.enqueue, ticked, Sender.weight, Sender.phase, weightOf,
        List.length_append, List.length_singleton]
      omega
  | tickFull ticked full =>
      refine ⟨⟨running, clientUp, serverUp, trivial, receiver, reader, writer⟩, small, ?_⟩
      simp only [State.weight, ticked, Sender.weight, Sender.phase, weightOf]
      omega
  | take id rest idle queue =>
      refine ⟨⟨running, clientUp, serverUp, trivial, receiver, reader, writer⟩, small, ?_⟩
      simp only [State.weight, idle, queue, Sender.weight, Sender.phase, weightOf,
        List.length_cons]
      omega
  | quit idle closed =>
      rw [running] at closed
      cases closed
  | push id taken unlocked =>
      refine ⟨⟨running, clientUp, serverUp, trivial, receiver, reader, writer⟩, small, ?_⟩
      simp only [State.weight, taken, Sender.weight, Sender.phase, weightOf, List.length_append,
        List.length_singleton]
      omega
  | send writing writes =>
      have flow := inv.asked
      rw [writes] at flow
      have less := weightOf_lt (follows_next setup.requests Request.isFlush s.clientDown s.toServer
        writing)
      refine ⟨⟨running, clientUp, serverUp, ?_, receiver, reader, writer⟩, small, ?_⟩
      · rw [(Sender.after_spec writing _).2.1, State.send, clientUp]
        exact flow.next_works (inv.fits_sent small)
      · simp only [State.weight, Sender.weight_after, State.send]
        simp only [writes, Sender.weight, Sender.phase]
        omega
  | senderStops failing stops fails =>
      rw [stops] at sender
      exact sender.elim
  | receive res rest reading parsed normal =>
      refine ⟨⟨running, clientUp, serverUp, sender, trivial, reader, writer⟩, small, ?_⟩
      simp only [State.weight, reading, Receiver.weight]
      omega
  | receiveException error rest reading parsed => exact absurd parsed (inv.not_exception reading)
  | receiveFails reading reason =>
      obtain ⟨pulled, -, flow, fits⟩ := inv.replies small fitting
      rcases reason with down | broken
      · rw [clientUp] at down
        cases down
      · exact absurd broken (flow.parse_ne_broken fits)
  | deliver res id rest got unlocked waiting matching =>
      rw [got, Receiver.holding, List.length_singleton] at replied
      refine ⟨⟨running, clientUp, serverUp, sender, trivial, reader, writer⟩,
        fun other old => ?_, ?_⟩
      · have same : (s.answer id res).request other = s.request other :=
          @updateReq_keeps api s.reqs id other (.answer res) _ ReqRes.request rfl
        have fits := small other old
        rw [← same] at fits
        exact fits
      · simp only [State.weight, State.answer, got, Receiver.weight, List.length_append,
          List.length_singleton]
        omega
  | nothingExpected res got unlocked empty =>
      obtain ⟨id, rest, waiting, -⟩ := inv.front_of_got got
      rw [empty] at waiting
      cases waiting
  | unexpected res id rest got unlocked waiting different =>
      obtain ⟨first, others, here, matching⟩ := inv.front_of_got got
      rw [waiting] at here
      cases here
      rw [different] at matching
      cases matching
  | notify id res notifying =>
      refine ⟨⟨running, clientUp, serverUp, sender, trivial, reader, writer⟩, small, ?_⟩
      simp only [State.weight, notifying, Receiver.weight]
      omega
  | receiverStops failing stops fails =>
      rw [stops] at receiver
      exact receiver.elim
  | read req rest reading parsed =>
      refine ⟨⟨running, clientUp, serverUp, sender, receiver, trivial, writer⟩, small, ?_⟩
      simp only [State.weight, reading, Reader.weight]
      omega
  | readFails reading reason =>
      rcases reason with down | broken
      · rw [serverUp] at down
        cases down
      · exact absurd broken (inv.asked.parse_ne_broken (inv.fits_sent small))
  | handle req read =>
      rw [read, Reader.holding, List.length_singleton] at asked
      refine ⟨⟨running, clientUp, serverUp, sender, receiver, trivial, writer⟩, small, ?_⟩
      simp only [State.weight, read, Reader.weight, List.length_append, List.length_singleton]
      omega
  | respond res answered room =>
      refine ⟨⟨running, clientUp, serverUp, sender, receiver, trivial, writer⟩, small, ?_⟩
      simp only [State.weight, answered, Reader.weight, List.length_append, List.length_singleton]
      omega
  | pull res rest waiting queue =>
      refine ⟨⟨running, clientUp, serverUp, sender, receiver, reader, trivial⟩, small, ?_⟩
      simp only [State.weight, waiting, queue, Writer.phase, weightOf, List.length_cons]
      omega
  | reply writing writes =>
      obtain ⟨pulled, -, flow, fits⟩ := inv.replies small fitting
      rw [writes] at flow
      have less := weightOf_lt (follows_next setup.responses Response.isFlush s.serverDown
        s.toClient writing)
      refine ⟨⟨running, clientUp, serverUp, sender, receiver, reader, ?_⟩, small, ?_⟩
      · rw [Writer.phase_after, State.reply, serverUp]
        exact flow.next_works fits
      · simp only [State.weight, Writer.phase_after, State.reply]
        simp only [writes, Writer.phase]
        omega
  | _ => cases own

structure AtRest (setup : Setup api σ) (s : State api σ) : Prop where
  sender : s.sender = .idle
  reqQueue : s.reqQueue = []
  receiver : s.receiver = .reading
  nothingBack : setup.responses.parse s.toClient.wire = .waits
  reader : s.reader = .reading
  nothingAsked : setup.requests.parse s.toServer.wire = .waits
  writer : s.writer = .waiting
  responses : s.responses = []

theorem atRest (undisturbed : Undisturbed s) (inv : Inv setup s)
    (stuck : ∀ event after, event.own = true → ¬Step setup s event after) : AtRest setup s := by
  have idles : ∀ after, ¬Step setup s .work after := fun after => stuck .work after rfl
  have free : ∀ id res, s.receiver ≠ .notifying id res := fun id res notifying =>
    idles _ (.notify id res notifying)
  have unlocked := unlocked_of_running undisturbed.running free
  have receiver : s.receiver = .reading := by
    have works := undisturbed.receiver
    cases phase : s.receiver with
    | reading => rfl
    | got res =>
        obtain ⟨id, rest, waiting, matching⟩ := inv.front_of_got phase
        exact (idles _ (.deliver res id rest phase unlocked waiting matching)).elim
    | notifying id res => exact absurd phase (free id res)
    | stops failing =>
        rw [phase] at works
        exact works.elim
    | returned =>
        rw [phase] at works
        exact works.elim
  have sender : s.sender = .idle := by
    have works := undisturbed.sender
    cases phase : s.sender with
    | idle => rfl
    | ticked =>
        by_cases room : s.reqQueue.length < reqQueueSize
        · exact (stuck .tick _ rfl (.tick phase room)).elim
        · exact (stuck .tick _ rfl (.tickFull phase (Nat.not_lt.1 room))).elim
    | taken id => exact (idles _ (.push id phase unlocked)).elim
    | writes writing => exact (idles _ (.send writing phase)).elim
    | stops failing =>
        rw [phase] at works
        exact works.elim
    | returned =>
        rw [phase] at works
        exact works.elim
  have writer : s.writer = .waiting := by
    have works := undisturbed.writer
    cases phase : s.writer with
    | waiting => rfl
    | writes writing => exact (idles _ (.reply writing phase)).elim
    | returned =>
        rw [phase] at works
        exact works.elim
  have responses : s.responses = [] := by
    cases queue : s.responses with
    | nil => rfl
    | cons res rest => exact (idles _ (.pull res rest writer queue)).elim
  have reader : s.reader = .reading := by
    cases phase : s.reader with
    | reading => rfl
    | read req => exact (idles _ (.handle req phase)).elim
    | answered res =>
        exact (idles _ (.respond res phase (by rw [responses]; exact Nat.succ_pos _))).elim
    | returned =>
        have works := undisturbed.reader
        rw [phase] at works
        exact works.elim
  refine ⟨sender, ?_, receiver, ?_, reader, ?_, writer, responses⟩
  · cases queue : s.reqQueue with
    | nil => rfl
    | cons id rest => exact (idles _ (.take id rest sender queue)).elim
  · cases parsed : setup.responses.parse s.toClient.wire with
    | message res rest =>
        refine (idles _ (.receive res rest receiver parsed fun error same => ?_)).elim
        exact inv.not_exception receiver (same ▸ parsed)
    | waits => rfl
    | broken => exact (idles _ (.receiveFails receiver (.inr parsed))).elim
  · cases parsed : setup.requests.parse s.toServer.wire with
    | message req rest => exact (idles _ (.read req rest reader parsed)).elim
    | waits => rfl
    | broken => exact (idles _ (.readFails reader (.inr parsed))).elim

theorem AtRest.answered (rest : AtRest setup s) (inv : Inv setup s) (small : Small setup s)
    (fitting : Fitting setup) (drained : s.drained = []) {flush : Nat} (old : flush < s.made)
    (isFlush : (s.request flush).isFlush = true) {id : Nat} (before : id ≤ flush) :
    (s.reqs id).response.isSome = true := by
  have sent : s.sent = List.range s.made := by
    have order := inv.placed.order
    have places := inv.placed.places
    rw [rest.sender, rest.reqQueue, drained] at places
    rw [rest.sender, rest.reqQueue] at order
    simp only [Sender.holding, List.append_nil] at order places
    exact places.eq_of_pairwise (fun a b _ _ ab ba => absurd ab (Nat.lt_asymm ba)) order
      List.pairwise_lt_range
  have here : (s.sent.map s.request)[flush]? = some (s.request flush) := by
    rw [sent, List.getElem?_map, List.getElem?_range old]
    rfl
  have asked := inv.asked
  rw [rest.sender] at asked
  have served := asked.stuck (inv.fits_sent small) rest.nothingAsked here isFlush
  simp only [rest.reader, Reader.holding, List.append_nil, List.length_map] at served
  have request : s.served[flush].request = s.request flush := by
    obtain ⟨unread, split, -⟩ := asked.under
    rw [split, List.append_assoc, List.getElem?_append_left (by rw [List.length_map]; exact served),
      List.getElem?_map, List.getElem?_eq_getElem served] at here
    exact Option.some.inj here
  obtain ⟨pulled, split, flow, fits⟩ := inv.replies small fitting
  simp only [rest.responses, rest.reader, Reader.answering, List.append_nil] at split
  rw [rest.writer] at flow
  have call : pulled[flush]? = some (Served.response setup s.served[flush]) := by
    rw [← split, List.getElem?_map, List.getElem?_eq_getElem served]
    rfl
  have urgent : (Served.response setup s.served[flush]).isFlush = true := by
    rw [Served.response, isFlush_handleRequest, request]
    exact isFlush
  have delivered := flow.stuck fits rest.nothingBack call urgent
  simp only [rest.receiver, Receiver.holding, List.append_nil, List.length_map] at delivered
  have inside : id ∈ s.delivered.map Prod.fst := by
    rw [inv.placed.matched, sent, List.take_range, List.mem_range]
    omega
  obtain ⟨⟨_, res⟩, member, rfl⟩ := List.mem_map.1 inside
  rw [inv.placed.response_of_mem member]
  rfl

/-- What the goroutines bring about by themselves. -/
structure Completes (setup : Setup api σ) (s final : State api σ) (steps : List Event) :
    Prop where
  /-- They come to rest after a bounded number of steps, -/
  bounded : steps.length ≤ s.weight
  /-- and then every request that was queued before a flush has its response. -/
  answered : (∀ event after, event.own = true → ¬Step setup final event after) →
    ∀ flush < final.made, (final.request flush).isFlush = true →
      ∀ id ≤ flush, (final.reqs id).response.isSome = true

/-- While nothing fails and the client is not stopped, the goroutines left to themselves complete
what was asked for, in whatever order they make their steps. -/
theorem flush_completes (fitting : Fitting setup) {app : σ} {events : List Event}
    (reached : Reached setup app events s) (undisturbed : Undisturbed s) (small : Small setup s)
    {steps : List Event} {final : State api σ} (further : Trace (Step setup) s steps final)
    (own : ∀ event ∈ steps, event.own = true) : Completes setup s final steps := by
  have kept : Inv setup final ∧ Undisturbed final ∧ Small setup final ∧
      final.weight + steps.length ≤ s.weight := by
    induction further with
    | nil => exact ⟨inv_reached reached, undisturbed, small, Nat.le_refl _⟩
    | snoc past last ih =>
        obtain ⟨inv, undisturbed, small, bound⟩ :=
          ih fun event member => own event (List.mem_append_left _ member)
        obtain ⟨undisturbed, small, less⟩ := own_step inv undisturbed small fitting
          (own _ (List.mem_append_right _ List.mem_cons_self)) last
        refine ⟨inv.step last, undisturbed, small, ?_⟩
        rw [List.length_append, List.length_singleton]
        omega
  obtain ⟨inv, undisturbed, small, bound⟩ := kept
  refine ⟨by omega, fun stuck flush old isFlush id before => ?_⟩
  exact (atRest undisturbed inv stuck).answered inv small fitting
    (drained_of_running (reached.append further) undisturbed.running) old isFlush before

theorem fitting_sampleSetup : Fitting sampleSetup := by
  refine ⟨⟨flushBytes, rfl, by decide⟩, fun req app fits => ?_⟩
  obtain ⟨bz, done, small⟩ := fits
  cases req with
  | echo message => exact ⟨bz, done, small⟩
  | flush => exact ⟨bz, done, small⟩
  | _ => cases done

theorem flush_completes_sample :
    ∃ steps final, Trace (Step sampleSetup) sampleQueued steps final ∧ steps.length = 28 ∧
      final.delivered = [(0, .echo hi), (1, .flush)] ∧
      Completes sampleSetup sampleQueued final steps := by
  obtain ⟨steps, final, further, length, work, delivered, -, -⟩ := sample_exchange
  have undisturbed : Undisturbed sampleQueued :=
    ⟨rfl, rfl, rfl, trivial, trivial, trivial, trivial⟩
  have small : Small sampleSetup sampleQueued := by
    intro id old
    rcases Nat.lt_or_ge id 1 with first | second
    · obtain rfl := Nat.lt_one_iff.1 first
      exact ⟨echoBytes, rfl, by decide⟩
    · obtain rfl := Nat.le_antisymm (Nat.le_of_lt_succ old) second
      exact ⟨flushBytes, rfl, by decide⟩
  refine ⟨steps, final, further, length, delivered, ?_⟩
  exact flush_completes fitting_sampleSetup reached_sampleQueued undisturbed small further
    fun event member => by rw [work event member]; rfl

end Bclib.Abci.Link
