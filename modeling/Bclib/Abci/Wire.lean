import Bclib.Abci.Messages
import Bclib.Go.Bufio

namespace Bclib.Abci

open Data
open Go

/-! One direction of a connection: a goroutine writes messages through a buffer, another one
reads them at the other end. -/

/-- What is left to do for a message: to write all of it, or its bytes after their length, or to
flush the buffer since it is a flush. -/
inductive Writing (μ : Type) where
  | whole (msg : μ)
  | body (msg : μ)
  | flush

/-- Where a goroutine that writes is. -/
inductive Phase (μ : Type) where
  | nothing
  | busy (writing : Writing μ)
  | givenUp

section Writing

variable {μ : Type} (codec : Codec μ) (isFlush : μ → Bool) (down : Bool) (pipe : Pipe)

/-- A write fails if it has to use a connection that is down. -/
def put (bytes : List Byte) (then_ : Phase μ) : Phase μ × Pipe :=
  if down = true ∧ pipe.Spills bytes then (.givenUp, pipe) else (then_, pipe.write bytes)

/-- The parts of `WriteMessage`, and `Flush` after a flush. -/
def Writing.next : Writing μ → Phase μ × Pipe
  | .whole msg =>
      match codec.marshal msg with
      | some bz => put down pipe (Varint.putVarint bz.length) (.busy (.body msg))
      | none => (.givenUp, pipe)
  | .body msg =>
      match codec.marshal msg with
      | some bz => put down pipe bz (if isFlush msg then .busy .flush else .nothing)
      | none => (.givenUp, pipe)
  | .flush => if down = true ∧ pipe.held ≠ [] then (.givenUp, pipe) else (.nothing, pipe.flush)

end Writing

namespace Phase

variable {μ : Type}

def Misses (codec : Codec μ) : Phase μ → List Byte → Prop
  | .busy (.whole msg), missing => missing = codec.frame msg
  | .busy (.body msg), missing => codec.marshal msg = some missing
  | .givenUp, _ => True
  | _, missing => missing = []

def Delays : Phase μ → μ → Prop
  | .nothing, _ => False
  | .busy (.whole msg), other => other = msg
  | .busy (.body msg), other => other = msg
  | _, _ => True

def InHand : Phase μ → μ → Prop
  | .busy (.whole msg), other => other = msg
  | .busy (.body msg), other => other = msg
  | _, _ => False

def Follows : Phase μ → Writing μ → Prop
  | .busy (.body msg), .whole other => msg = other
  | .busy .flush, .body _ => True
  | .busy _, _ => False
  | _, _ => True

def Works : Phase μ → Prop
  | .givenUp => False
  | _ => True

end Phase

/-- The messages are under way, in this order and but for the bytes that are still to be
written, and flushes do not wait in the buffer. -/
structure Carries (codec : Codec μ) (isFlush : μ → Bool) (values : List μ) (pipe : Pipe)
    (phase : Phase μ) : Prop where
  stream : ∃ missing, codec.framing.frames values = pipe.all ++ missing ∧
    phase.Misses codec missing
  prompt : ∃ early late, values = early ++ late ∧ codec.framing.frames early <+: pipe.wire ∧
    ∀ msg ∈ late, isFlush msg = true → phase.Delays msg

section Carries

variable {μ : Type} {codec : Codec μ} {isFlush : μ → Bool} {values : List μ} {pipe : Pipe}
  {phase : Phase μ} {msg : μ}

theorem carries_start : Carries codec isFlush [] ⟨[], []⟩ .nothing :=
  ⟨⟨[], rfl, rfl⟩, [], [], rfl, List.nil_prefix, fun _ member => by cases member⟩

theorem Carries.push (carries : Carries codec isFlush values pipe .nothing) :
    Carries codec isFlush (values ++ [msg]) pipe (.busy (.whole msg)) := by
  obtain ⟨⟨missing, stream, rfl⟩, early, late, split, whole, prompt⟩ := carries
  refine ⟨⟨codec.frame msg, ?_, rfl⟩, early, late ++ [msg], ?_, whole, fun other member flush => ?_⟩
  · rw [Framing.frames_append, stream, List.append_nil, Framing.frames_cons, Framing.frames_nil,
      List.append_nil]
    rfl
  · rw [split, List.append_assoc]
  · rcases List.mem_append.1 member with old | new
    · exact (prompt other old flush).elim
    · exact List.mem_singleton.1 new

theorem Carries.giveUp (carries : Carries codec isFlush values pipe phase) :
    Carries codec isFlush values pipe .givenUp := by
  obtain ⟨⟨missing, stream, -⟩, early, late, split, whole, -⟩ := carries
  exact ⟨⟨missing, stream, trivial⟩, early, late, split, whole, fun _ _ _ => trivial⟩

theorem Carries.put {bytes : List Byte} (carries : Carries codec isFlush values pipe phase)
    (then_ : Phase μ) (rest : List Byte)
    (missing : ∀ {all}, phase.Misses codec all → all = bytes ++ rest)
    (misses : then_.Misses codec rest)
    (delays : ∀ msg, isFlush msg = true → phase.Delays msg → then_.Delays msg) (down : Bool) :
    Carries codec isFlush values (Abci.put down pipe bytes then_).2
      (Abci.put down pipe bytes then_).1 := by
  rw [Abci.put]
  split_ifs
  · exact carries.giveUp
  · obtain ⟨⟨all, stream, misses'⟩, early, late, split, whole, prompt⟩ := carries
    refine ⟨⟨rest, ?_, misses⟩, early, late, split, whole.trans (List.prefix_append _ _),
      fun msg member flush => delays msg flush (prompt msg member flush)⟩
    rw [stream, missing misses', Pipe.all_write, List.append_assoc]

theorem Carries.write {writing : Writing μ}
    (carries : Carries codec isFlush values pipe (.busy writing)) (down : Bool) :
    Carries codec isFlush values (writing.next codec isFlush down pipe).2
      (writing.next codec isFlush down pipe).1 := by
  cases writing with
  | whole msg =>
      rw [Writing.next]
      split
      · rename_i bz done
        refine carries.put (.busy (.body msg)) bz (fun misses => ?_) done
          (fun other _ same => same) down
        rw [Phase.Misses, Codec.frame_eq done] at misses
        exact misses
      · exact carries.giveUp
  | body msg =>
      rw [Writing.next]
      split
      · rename_i bz done
        refine carries.put _ [] (fun misses => ?_) ?_ (fun other flush same => ?_) down
        · rw [List.append_nil]
          exact Option.some.inj (misses.symm.trans done)
        · split_ifs
          · rfl
          · rfl
        · rw [same] at flush
          rw [if_pos flush]
          trivial
      · exact carries.giveUp
  | flush =>
      rw [Writing.next]
      split_ifs
      · exact carries.giveUp
      · obtain ⟨⟨missing, stream, rfl⟩, -⟩ := carries
        rw [List.append_nil] at stream
        refine ⟨⟨[], by rw [Pipe.all_flush, List.append_nil, stream], rfl⟩, values, [],
          (List.append_nil _).symm, ?_, fun _ member => by cases member⟩
        rw [stream]
        exact List.prefix_refl _

theorem Carries.read {rest : List Byte} (carries : Carries codec isFlush values pipe phase)
    (parsed : codec.parse pipe.wire = .message msg rest) :
    ∃ others, values = msg :: others ∧
      Carries codec isFlush others ⟨rest, pipe.held⟩ phase := by
  obtain ⟨⟨missing, stream, misses⟩, early, late, split, whole, prompt⟩ := carries
  rw [Pipe.all, List.append_assoc] at stream
  obtain ⟨others, rfl, -, front, left⟩ := Framing.frames_of_parse stream parsed
  refine ⟨others, rfl, ⟨missing, by rw [left, Pipe.all, List.append_assoc], misses⟩, ?_⟩
  cases early with
  | nil =>
      rw [List.nil_append] at split
      refine ⟨[], others, rfl, List.nil_prefix, fun other member => prompt other ?_⟩
      rw [← split]
      exact List.mem_cons_of_mem _ member
  | cons first early =>
      obtain ⟨rfl, rfl⟩ := List.cons.inj split
      rw [front, Framing.frames_cons, List.prefix_append_right_inj] at whole
      exact ⟨early, late, rfl, whole, prompt⟩

theorem Carries.parse_ne_broken (carries : Carries codec isFlush values pipe phase)
    (fits : ∀ msg ∈ values, codec.Fits msg) : codec.parse pipe.wire ≠ .broken := by
  obtain ⟨missing, stream, -⟩ := carries.stream
  rw [Pipe.all, List.append_assoc] at stream
  exact Framing.parse_ne_broken fits stream

theorem Carries.stuck (carries : Carries codec isFlush values pipe .nothing)
    (fits : ∀ msg ∈ values, codec.Fits msg) (waits : codec.parse pipe.wire = .waits) :
    ∀ msg ∈ values, isFlush msg = false := by
  obtain ⟨-, early, late, rfl, ⟨more, wire⟩, prompt⟩ := carries
  cases early with
  | nil =>
      intro msg member
      exact Bool.eq_false_iff.2 fun flush => prompt msg member flush
  | cons first early =>
      have found := codec.framing.parse_frame (fits first (by simp))
        (codec.framing.frames early ++ more)
      rw [← List.append_assoc, ← Framing.frames_cons, wire] at found
      exact absurd (found.symm.trans waits) (by simp)

end Carries

/-- Of all messages that a goroutine has to write some were read at the other end, and the others
are under way. -/
structure Flow (codec : Codec μ) (isFlush : μ → Bool) (all done : List μ) (pipe : Pipe)
    (phase : Phase μ) : Prop where
  under : ∃ values, all = done ++ values ∧ Carries codec isFlush values pipe phase
  inHand : ∀ {msg}, phase.InHand msg → msg ∈ all

section Flow

variable {μ : Type} {codec : Codec μ} {isFlush : μ → Bool} {all done : List μ} {pipe : Pipe}
  {phase : Phase μ} {msg : μ} {writing : Writing μ}

theorem flow_start : Flow codec isFlush [] [] ⟨[], []⟩ .nothing :=
  ⟨⟨[], rfl, carries_start⟩, fun inHand => inHand.elim⟩

theorem Flow.push (flow : Flow codec isFlush all done pipe .nothing) :
    Flow codec isFlush (all ++ [msg]) done pipe (.busy (.whole msg)) := by
  obtain ⟨⟨values, rfl, carries⟩, -⟩ := flow
  refine ⟨⟨values ++ [msg], List.append_assoc _ _ _, carries.push⟩, fun inHand => ?_⟩
  exact List.mem_append_right _ (List.mem_singleton.2 inHand)

theorem Flow.giveUp (flow : Flow codec isFlush all done pipe phase) :
    Flow codec isFlush all done pipe .givenUp := by
  obtain ⟨⟨values, split, carries⟩, -⟩ := flow
  exact ⟨⟨values, split, carries.giveUp⟩, fun inHand => inHand.elim⟩

theorem follows_next (codec : Codec μ) (isFlush : μ → Bool) (down : Bool) (pipe : Pipe)
    (writing : Writing μ) : (writing.next codec isFlush down pipe).1.Follows writing := by
  have follows_put : ∀ bytes then_, then_.Follows writing →
      (put down pipe bytes then_).1.Follows writing := by
    intro bytes then_ follows
    rw [put]
    split_ifs
    · trivial
    · exact follows
  cases writing with
  | whole msg =>
      rw [Writing.next]
      split
      · exact follows_put _ _ rfl
      · trivial
  | body msg =>
      rw [Writing.next]
      split
      · refine follows_put _ _ ?_
        split_ifs
        · trivial
        · trivial
      · trivial
  | flush =>
      rw [Writing.next]
      split_ifs
      · trivial
      · trivial

theorem Phase.Follows.inHand {phase : Phase μ} (follows : phase.Follows writing)
    (inHand : phase.InHand msg) : (Phase.busy writing).InHand msg := by
  cases phase with
  | nothing => exact inHand.elim
  | busy next =>
      cases next with
      | whole _ => cases writing <;> exact follows.elim
      | body _ =>
          cases writing with
          | whole _ => exact inHand.trans follows
          | body _ => exact follows.elim
          | flush => exact follows.elim
      | flush => exact inHand.elim
  | givenUp => exact inHand.elim

theorem Flow.write (flow : Flow codec isFlush all done pipe (.busy writing)) (down : Bool) :
    Flow codec isFlush all done (writing.next codec isFlush down pipe).2
      (writing.next codec isFlush down pipe).1 := by
  obtain ⟨⟨values, split, carries⟩, inHand⟩ := flow
  exact ⟨⟨values, split, carries.write down⟩,
    fun held => inHand ((follows_next codec isFlush down pipe writing).inHand held)⟩

theorem Flow.read {rest : List Byte} (flow : Flow codec isFlush all done pipe phase)
    (parsed : codec.parse pipe.wire = .message msg rest) :
    Flow codec isFlush all (done ++ [msg]) ⟨rest, pipe.held⟩ phase := by
  obtain ⟨⟨values, split, carries⟩, inHand⟩ := flow
  obtain ⟨others, rfl, left⟩ := carries.read parsed
  refine ⟨⟨others, ?_, left⟩, inHand⟩
  rw [split, List.append_assoc, List.singleton_append]

theorem Flow.isPrefix (flow : Flow codec isFlush all done pipe phase) : done <+: all := by
  obtain ⟨values, rfl, -⟩ := flow.under
  exact List.prefix_append _ _

theorem Flow.parse_ne_broken (flow : Flow codec isFlush all done pipe phase)
    (fits : ∀ msg ∈ all, codec.Fits msg) : codec.parse pipe.wire ≠ .broken := by
  obtain ⟨values, rfl, carries⟩ := flow.under
  exact carries.parse_ne_broken fun msg member => fits msg (List.mem_append_right _ member)

theorem Flow.next_works (flow : Flow codec isFlush all done pipe (.busy writing))
    (fits : ∀ msg ∈ all, codec.Fits msg) :
    (writing.next codec isFlush false pipe).1.Works := by
  have put_works : ∀ bytes (then_ : Phase μ), then_.Works →
      (put false pipe bytes then_).1.Works := by
    intro bytes then_ works
    rw [put, if_neg (fun both => Bool.false_ne_true both.1)]
    exact works
  cases writing with
  | whole msg =>
      obtain ⟨bz, marshalled, -⟩ := fits msg (flow.inHand rfl)
      rw [Writing.next, marshalled]
      exact put_works _ _ trivial
  | body msg =>
      obtain ⟨bz, marshalled, -⟩ := fits msg (flow.inHand rfl)
      rw [Writing.next, marshalled]
      refine put_works _ _ ?_
      split_ifs
      · trivial
      · trivial
  | flush =>
      rw [Writing.next, if_neg (fun both => Bool.false_ne_true both.1)]
      trivial

theorem Flow.stuck (flow : Flow codec isFlush all done pipe .nothing)
    (fits : ∀ msg ∈ all, codec.Fits msg) (waits : codec.parse pipe.wire = .waits) {place : Nat}
    (here : all[place]? = some msg) (flush : isFlush msg = true) : place < done.length := by
  obtain ⟨values, rfl, carries⟩ := flow.under
  by_contra late
  rw [List.getElem?_append_right (Nat.not_lt.1 late)] at here
  have calm := carries.stuck (fun other member => fits other (List.mem_append_right _ member)) waits
  rw [calm msg (List.mem_of_getElem? here)] at flush
  cases flush

end Flow

end Bclib.Abci
