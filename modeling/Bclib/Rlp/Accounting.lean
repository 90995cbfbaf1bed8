import Bclib.Data.Runs
import Bclib.Rlp.StreamSpec

namespace Bclib.Rlp

open Data

namespace Stream

/-! The accounting of a stream under calls in any order.  The reads a call is made
of are listed as calls of their own, so that the states inside a call are states
of a run too. -/

inductive Call where
  | kind | bytes | raw | uint | bool | list | listEnd
  | readByte
  | readFull (count : Nat)
  | readUint (width : Nat)
  deriving DecidableEq, Repr

def call (stream : Stream) : Call → Stream
  | .kind => stream.kind.2
  | .bytes => stream.bytes.2
  | .raw => stream.raw.2
  | .uint => (stream.uint 64).2
  | .bool => stream.bool.2
  | .list => stream.list.2
  | .listEnd => stream.listEnd.2
  | .readByte => stream.readByte.2
  | .readFull count => (stream.readFull count).2
  | .readUint width => (stream.readUint width).2

def bytesAlloc (stream : Stream) : Nat :=
  match stream.kind.1 with
  | .ok (.byte, _) => 1
  | .ok (.string, size) => size
  | _ => 0

def rawAlloc (stream : Stream) : Nat :=
  match stream.kind.1 with
  | .ok (.byte, _) => 1
  | .ok (_, size) => addUint64 (headsize size) size
  | _ => 0

/-- The next bytes of the innermost list have been read, `count` of them. -/
structure Moved (count : Nat) (stream next : Stream) : Prop where
  inside : count ≤ stream.avail
  input : next.input = stream.input.drop count
  remaining : next.remaining = stream.remaining - count
  limited : next.limited = stream.limited
  stack : next.stack = advanceTop count stream.stack

namespace Moved

variable {stream middle next : Stream} {count more : Nat}

theorem still (input : next.input = stream.input)
    (remaining : next.remaining = stream.remaining)
    (limited : next.limited = stream.limited) (stack : next.stack = stream.stack) :
    Moved 0 stream next :=
  ⟨Nat.zero_le _, input, remaining, limited, stack.trans (advanceTop_zero _).symm⟩

theorem avail (moved : Moved count stream next) : next.avail = stream.avail - count := by
  rw [← avail_advance, Stream.avail, Stream.avail, moved.stack, moved.remaining]
  rfl

theorem trans (first : Moved count stream middle) (second : Moved more middle next) :
    Moved (count + more) stream next := by
  have inside := second.inside
  have before := first.inside
  rw [first.avail] at inside
  refine ⟨by omega, ?_, ?_, second.limited.trans first.limited, ?_⟩
  · rw [second.input, first.input, List.drop_drop]
  · rw [second.remaining, first.remaining, Nat.sub_sub]
  · rw [second.stack, first.stack, advanceTop_advanceTop]

end Moved

/-- The invariant between calls: the frames add up, and a header that is cached
without error announces no more than is left. -/
structure Accounted (stream : Stream) : Prop where
  sound : stream.Sound
  cached : stream.kindAhead.isSome → stream.kinderr = none →
    stream.sizeAhead ≤ stream.avail

theorem Sound.accounted {stream : Stream} (sound : stream.Sound)
    (armed : stream.kindAhead = none) : stream.Accounted :=
  ⟨sound, fun cached => by simp [armed] at cached⟩

/-- What a call does that opens and closes no list. -/
structure Progresses (stream next : Stream) : Prop where
  accounted : next.Accounted
  moved : ∃ count, Moved count stream next

namespace Progresses

variable {stream middle next : Stream}

theorem refl (accounted : stream.Accounted) : Progresses stream stream :=
  ⟨accounted, 0, .still rfl rfl rfl rfl⟩

theorem trans (first : Progresses stream middle) (second : Progresses middle next) :
    Progresses stream next := by
  obtain ⟨count, moved⟩ := first.moved
  obtain ⟨more, further⟩ := second.moved
  exact ⟨second.accounted, count + more, moved.trans further⟩

theorem rearm (accounted : stream.Accounted) : Progresses stream stream.rearm :=
  have sound : stream.rearm.Sound := accounted.sound.congr rfl rfl rfl rfl
  ⟨sound.accounted rfl, 0, .still rfl rfl rfl rfl⟩

theorem advance (sound : stream.Sound) {count : Nat} (inside : count ≤ stream.avail) :
    Progresses stream (stream.advance count) :=
  ⟨(sound.advance count inside).accounted rfl, count, inside, rfl, rfl, rfl, rfl⟩

end Progresses

theorem readFull_progresses {stream : Stream} (accounted : stream.Accounted) (count : Nat) :
    Progresses stream (stream.readFull count).2 := by
  rw [readFull_eq accounted.sound]
  split_ifs with inside
  · exact .advance accounted.sound inside
  · exact .rearm accounted

theorem readByte_progresses {stream : Stream} (accounted : stream.Accounted) :
    Progresses stream stream.readByte.2 := by
  have length := accounted.sound.window_length
  rw [readByte_eq accounted.sound]
  cases content : stream.window with
  | nil => exact .rearm accounted
  | cons byte rest =>
      rw [content, List.length_cons] at length
      exact .advance accounted.sound (by omega)

theorem readUint_progresses {stream : Stream} (accounted : stream.Accounted) (width : Nat) :
    Progresses stream (stream.readUint width).2 := by
  by_cases empty : width = 0
  · rw [readUint, if_pos empty]
    exact .rearm accounted
  · by_cases large : 8 < width
    · rw [readUint, if_neg empty, if_neg (by omega), if_pos large]
      exact .refl accounted
    · rw [readUint_eq accounted.sound (by omega) (by omega)]
      split_ifs with inside
      · exact .advance accounted.sound inside
      · exact .advance accounted.sound inside
      · exact .rearm accounted

theorem readLongSize_snd (stream : Stream) (kind : Kind) (width : Nat) :
    (stream.readLongSize kind width).2 = (stream.readUint width).2 := by
  rw [readLongSize]
  rcases stream.readUint width with ⟨outcome, next⟩
  cases outcome <;> rfl

private theorem setByteval_progresses {stream : Stream} (accounted : stream.Accounted)
    (byte : Byte) : Progresses stream (stream.setByteval byte) :=
  ⟨⟨accounted.sound.setByteval byte, accounted.cached⟩, 0, .still rfl rfl rfl rfl⟩

theorem readKind_progresses {stream : Stream} (accounted : stream.Accounted) :
    Progresses stream stream.readKind.2 := by
  have read := readByte_progresses accounted
  rw [readKind]
  cases outcome : stream.readByte with
  | mk result next =>
      rw [outcome] at read
      cases result with
      | error err => exact read
      | ok byte =>
          have cleared := read.trans (setByteval_progresses read.accounted 0)
          have long := fun kind width => readLongSize_snd (next.setByteval 0) kind width ▸
            cleared.trans (readUint_progresses cleared.accounted width)
          simp only
          split_ifs
          · exact read.trans (setByteval_progresses read.accounted byte)
          · exact cleared
          · exact long _ _
          · exact cleared
          · exact long _ _

theorem kind_progresses {stream : Stream} (accounted : stream.Accounted) :
    Progresses stream stream.kind.2 := by
  rw [kind]
  cases ahead : stream.kindAhead with
  | some kind =>
      cases stream.kinderr <;> exact .refl accounted
  | none =>
      have cleared : Progresses stream stream.clearKinderr :=
        ⟨accounted.sound.clearKinderr.accounted ahead, 0, .still rfl rfl rfl rfl⟩
      simp only
      split_ifs
      · exact cleared
      · have read := cleared.trans (readKind_progresses cleared.accounted)
        rcases outcome : stream.clearKinderr.readKind with ⟨⟨kind, size, err⟩, next⟩
        rw [outcome] at read
        obtain ⟨count, moved⟩ := read.moved
        have caching : ∀ err, (err = none → size ≤ next.avail) →
            Progresses stream (next.cacheKind kind size err).2 := by
          intro err room
          have same : (next.cacheKind kind size err).2 =
              { next with kindAhead := some kind, sizeAhead := size, kinderr := err } := by
            cases err <;> rfl
          rw [same]
          exact ⟨⟨read.accounted.sound.congr rfl rfl rfl rfl, fun _ fine => room fine⟩, count,
            moved.inside, moved.input, moved.remaining, moved.limited, moved.stack⟩
        cases err with
        | some err =>
            refine caching (some err) fun absent => ?_
            cases absent
        | none =>
            exact caching _ (fun fine =>
              (sizeError_eq_none_iff read.accounted.sound size).mp fine)

theorem kind_room {stream next : Stream} (accounted : stream.Accounted) {kind : Kind}
    {size : Nat} (ran : stream.kind = (.ok (kind, size), next)) : size ≤ next.avail := by
  have progresses := kind_progresses accounted
  rw [ran] at progresses
  have held : next.kindAhead = some kind ∧ next.kinderr = none ∧ next.sizeAhead = size := by
    rw [Stream.kind] at ran
    cases ahead : stream.kindAhead with
    | some cached =>
        cases sticky : stream.kinderr with
        | some err => simp [ahead, sticky] at ran
        | none =>
            simp only [ahead, sticky, Prod.mk.injEq, Except.ok.injEq] at ran
            obtain ⟨⟨rfl, rfl⟩, rfl⟩ := ran
            exact ⟨ahead, sticky, rfl⟩
    | none =>
        simp only [ahead] at ran
        split_ifs at ran
        · simp at ran
        · rcases outcome : stream.clearKinderr.readKind with ⟨⟨read, count, err⟩, after⟩
          rw [outcome] at ran
          cases err with
          | some err => simp [cacheKind] at ran
          | none =>
              cases tooLarge : after.sizeError count with
              | some err => simp [tooLarge, cacheKind] at ran
              | none =>
                  simp only [tooLarge, cacheKind, Prod.mk.injEq, Except.ok.injEq] at ran
                  obtain ⟨⟨rfl, rfl⟩, rfl⟩ := ran
                  exact ⟨rfl, rfl, rfl⟩
  have room := progresses.accounted.cached (by simp [held.1]) held.2.1
  rwa [held.2.2] at room

theorem bytes_progresses {stream : Stream} (accounted : stream.Accounted) :
    Progresses stream stream.bytes.2 := by
  have head := kind_progresses accounted
  rw [bytes]
  rcases outcome : stream.kind with ⟨result, next⟩
  rw [outcome] at head
  rcases result with err | ⟨kind, size⟩
  · exact head
  · cases kind with
    | byte => exact head.trans (.rearm head.accounted)
    | list => exact head
    | string =>
        have content := readFull_progresses head.accounted size
        simp only
        split_ifs
        · exact head
        · rcases ran : next.readFull size with ⟨filled, last⟩
          rw [ran] at content
          cases filled with
          | error err => exact head.trans content
          | ok bytes =>
              simp only
              split_ifs <;> exact head.trans content

theorem raw_progresses {stream : Stream} (accounted : stream.Accounted) :
    Progresses stream stream.raw.2 := by
  have head := kind_progresses accounted
  rw [raw]
  rcases outcome : stream.kind with ⟨result, next⟩
  rw [outcome] at head
  rcases result with err | ⟨kind, size⟩
  · exact head
  · have content := head.trans (readFull_progresses head.accounted size)
    rcases ran : next.readFull size with ⟨filled, last⟩
    rw [ran] at content
    cases kind with
    | byte => exact head.trans (.rearm head.accounted)
    | list | string =>
        simp only [ran]
        split_ifs
        · exact head
        all_goals cases filled <;> exact content

theorem uint_progresses {stream : Stream} (accounted : stream.Accounted) (maxbits : Nat) :
    Progresses stream (stream.uint maxbits).2 := by
  have head := kind_progresses accounted
  rw [uint]
  rcases outcome : stream.kind with ⟨result, next⟩
  rw [outcome] at head
  rcases result with err | ⟨kind, size⟩
  · exact head
  · cases kind with
    | byte =>
        simp only
        split_ifs
        · exact head
        · exact head.trans (.rearm head.accounted)
    | list => exact head
    | string =>
        have number := head.trans (readUint_progresses head.accounted size)
        simp only
        split_ifs
        · exact head
        · rcases ran : next.readUint size with ⟨read, last⟩
          rw [ran] at number
          rcases read with err | value
          · cases err <;> exact number
          · simp only
            split_ifs <;> exact number

theorem bool_progresses {stream : Stream} (accounted : stream.Accounted) :
    Progresses stream stream.bool.2 := by
  have number := uint_progresses accounted 8
  rw [bool]
  rcases ran : stream.uint 8 with ⟨read, last⟩
  rw [ran] at number
  rcases read with err | value
  · exact number
  · match value with
    | 0 | 1 | _ + 2 => exact number

theorem list_accounted {stream : Stream} (accounted : stream.Accounted) :
    stream.list.2.Accounted ∧ ∃ count ≤ stream.avail,
      stream.list.2.input = stream.input.drop count := by
  have head := kind_progresses accounted
  rw [list]
  rcases outcome : stream.kind with ⟨result, next⟩
  have room := fun kind size (same : result = .ok (kind, size)) =>
    kind_room accounted (outcome.trans (by rw [same]))
  rw [outcome] at head
  obtain ⟨count, moved⟩ := head.moved
  have same : next.Accounted ∧ ∃ count ≤ stream.avail,
      next.input = stream.input.drop count :=
    ⟨head.accounted, count, moved.inside, moved.input⟩
  rcases result with err | ⟨kind, size⟩
  · exact same
  · cases kind with
    | byte => exact same
    | string => exact same
    | list =>
        have inner : size ≤ next.avail := room .list size rfl
        have sound : next.Sound := head.accounted.sound
        have available := sound.avail_le
        have bounded := sound.bounded
        refine ⟨Sound.accounted ⟨sound.limited, sound.remaining, bounded, ?_, ?_⟩ rfl,
          count, moved.inside, moved.input⟩
        · -- the new list lies in front of the end of the one around it
          refine ⟨Nat.zero_le size, Nat.lt_of_le_of_lt inner (by omega), ?_⟩
          have fit := sound.fit
          cases frames : next.stack with
          | nil => trivial
          | cons top rest =>
              rw [frames] at fit
              simp only [avail, frames] at inner
              simp only [FramesFit] at fit ⊢
              exact ⟨by omega, fit.2⟩
        · have owed := sound.owed
          simp only [owedBelow]
          cases frames : next.stack with
          | nil =>
              simp only [avail, frames] at inner
              simp only [owedBelow]
              omega
          | cons top rest =>
              rw [frames] at owed
              simp only [avail, frames] at inner
              simp only [owedBelow] at owed ⊢
              omega

theorem listEnd_accounted {stream : Stream} (accounted : stream.Accounted) :
    stream.listEnd.2.Accounted ∧ stream.listEnd.2.input = stream.input := by
  have sound := accounted.sound
  rw [listEnd]
  cases frames : stream.stack with
  | nil => exact ⟨accounted, rfl⟩
  | cons top rest =>
      simp only
      split_ifs with open_
      · exact ⟨accounted, rfl⟩
      · have fit := sound.fit
        have owed := sound.owed
        have full : top.pos = top.size := not_not.mp open_
        rw [frames] at fit owed
        refine ⟨Sound.accounted ⟨sound.limited, sound.remaining, sound.bounded, ?_, ?_⟩ rfl,
          rfl⟩
        · cases rest with
          | nil => trivial
          | cons parent outer =>
              simp only [FramesFit, maxLen] at fit ⊢
              rw [addUint64_of_lt (by omega)]
              exact ⟨by omega, by omega, fit.2.2.2.2⟩
        · cases rest with
          | nil => exact Nat.zero_le _
          | cons parent outer =>
              simp only [FramesFit, maxLen] at fit
              simp only [owedBelow] at owed ⊢
              rw [addUint64_of_lt (by omega)]
              omega

theorem call_accounted {stream : Stream} (accounted : stream.Accounted) (next : Call) :
    (stream.call next).Accounted ∧
      ∃ count ≤ stream.avail, (stream.call next).input = stream.input.drop count := by
  have flat : ∀ {last : Stream}, Progresses stream last →
      last.Accounted ∧ ∃ count ≤ stream.avail, last.input = stream.input.drop count := by
    intro last progresses
    obtain ⟨count, moved⟩ := progresses.moved
    exact ⟨progresses.accounted, count, moved.inside, moved.input⟩
  cases next with
  | kind => exact flat (kind_progresses accounted)
  | bytes => exact flat (bytes_progresses accounted)
  | raw => exact flat (raw_progresses accounted)
  | uint => exact flat (uint_progresses accounted 64)
  | bool => exact flat (bool_progresses accounted)
  | list => exact list_accounted accounted
  | listEnd =>
      obtain ⟨closed, same⟩ := listEnd_accounted accounted
      exact ⟨closed, 0, Nat.zero_le _, same⟩
  | readByte => exact flat (readByte_progresses accounted)
  | readFull count => exact flat (readFull_progresses accounted count)
  | readUint width => exact flat (readUint_progresses accounted width)

theorem newStream_accounted {input : List Byte} (short : input.length < maxLen) :
    (newStream input 0).Accounted :=
  Sound.accounted ⟨rfl, rfl, short, trivial, Nat.zero_le _⟩ rfl

theorem run_accounted {input : List Byte} (short : input.length < maxLen)
    (calls : List Call) :
    (run call (newStream input 0) calls).Accounted ∧
      (run call (newStream input 0) calls).input.length ≤ input.length :=
  run_keeps (fun stream : Stream => stream.Accounted ∧ stream.input.length ≤ input.length)
    (fun stream next holds _ => by
      obtain ⟨accounted, count, -, read⟩ := call_accounted holds.1 next
      refine ⟨accounted, ?_⟩
      rw [read, List.length_drop]
      exact Nat.le_trans (Nat.sub_le _ _) holds.2)
    ⟨newStream_accounted short, Nat.le_refl _⟩
    (allSteps_of_forall (fun _ _ => trivial) _)

private theorem framesFit_frames {inner : Nat} {stack : List ListPos}
    (fit : FramesFit inner stack) :
    (∀ frame ∈ stack, frame.pos ≤ frame.size) ∧
      stack.IsChain fun child parent => parent.pos + child.size ≤ parent.size := by
  induction stack generalizing inner with
  | nil => exact ⟨by simp, .nil⟩
  | cons top rest ih =>
      obtain ⟨room, -, below⟩ := fit
      obtain ⟨each, nested⟩ := ih below
      refine ⟨List.forall_mem_cons.mpr ⟨by omega, each⟩, ?_⟩
      cases rest with
      | nil => exact .singleton top
      | cons parent outer => exact .cons_cons below.1 nested

theorem bytesAlloc_le {stream : Stream} (accounted : stream.Accounted) :
    stream.bytesAlloc ≤ stream.input.length + 9 := by
  have progresses := kind_progresses accounted
  rw [bytesAlloc]
  rcases outcome : stream.kind with ⟨result, next⟩
  rw [outcome] at progresses
  rcases result with err | ⟨kind, size⟩
  · exact Nat.zero_le _
  · have room := kind_room accounted outcome
    obtain ⟨count, moved⟩ := progresses.moved
    have available := accounted.sound.avail_le
    rw [moved.avail] at room
    cases kind <;> dsimp only <;> omega

theorem rawAlloc_le {stream : Stream} (accounted : stream.Accounted) :
    stream.rawAlloc ≤ stream.input.length + 9 := by
  have progresses := kind_progresses accounted
  rw [rawAlloc]
  rcases outcome : stream.kind with ⟨result, next⟩
  rw [outcome] at progresses
  rcases result with err | ⟨kind, size⟩
  · exact Nat.zero_le _
  · have room := kind_room accounted outcome
    obtain ⟨count, moved⟩ := progresses.moved
    have available := accounted.sound.avail_le
    have bounded := accounted.sound.bounded
    rw [moved.avail] at room
    unfold maxLen at bounded
    have header : headsize size ≤ 9 := headsize_le (by omega)
    have sum : addUint64 (headsize size) size = headsize size + size :=
      addUint64_of_lt (by omega)
    cases kind <;> dsimp only <;> omega

/-- For every input and every sequence of calls the frames of the stream add up: each
position lies in its list, each list in the one around it, what is owed to the open
lists is still unread, and the counter is the number of unread bytes.  So the
subtractions are exact, no call leaves the innermost list, and allocations are
bounded by the input. -/
theorem accounting (input : List Byte) (short : input.length < maxLen)
    (calls : List Call) (stream : Stream)
    (reached : run call (newStream input 0) calls = stream) :
    (∀ frame ∈ stream.stack, frame.pos ≤ frame.size) ∧
    (stream.stack.IsChain fun child parent => parent.pos + child.size ≤ parent.size) ∧
    owedBelow 0 stream.stack ≤ stream.remaining ∧
    stream.remaining = stream.input.length ∧
    (∀ top ∈ stream.stack.head?, subUint64 top.size top.pos = top.size - top.pos) ∧
    (∀ next, ∃ count ≤ stream.avail,
      (stream.call next).input = stream.input.drop count) ∧
    stream.bytesAlloc ≤ input.length + 9 ∧ stream.rawAlloc ≤ input.length + 9 := by
  obtain ⟨accounted, shorter⟩ := run_accounted short calls
  rw [reached] at accounted shorter
  have sound := accounted.sound
  obtain ⟨each, nested⟩ := framesFit_frames sound.fit
  refine ⟨each, nested, sound.owed, sound.remaining, ?_,
    fun next => (call_accounted accounted next).2, ?_, ?_⟩
  · have fit := sound.fit
    cases frames : stream.stack with
    | nil => simp
    | cons top rest =>
        rw [frames] at fit
        simp only [FramesFit, maxLen] at fit
        simp only [List.head?_cons, Option.mem_def, Option.some.injEq, forall_eq']
        exact subUint64_of_le (by omega) (by omega)
  · exact Nat.le_trans (bytesAlloc_le accounted) (by omega)
  · exact Nat.le_trans (rawAlloc_le accounted) (by omega)

/-- After the header of the inner list and a failed `Uint`. -/
theorem accounting_nested :
    (run call (newStream [0xC3, 0xC1, 0x00, 0x05] 0) [.list, .list, .uint]).stack =
        [⟨1, 1⟩, ⟨1, 3⟩] ∧
      owedBelow 0 [⟨1, 1⟩, ⟨1, 3⟩] ≤ 1 ∧
      ∀ frame ∈ ([⟨1, 1⟩, ⟨1, 3⟩] : List ListPos), frame.pos ≤ frame.size :=
  ⟨by decide +kernel, by decide,
    (accounting [0xC3, 0xC1, 0x00, 0x05] (by decide) [.list, .list, .uint] _ rfl).1⟩

end Stream

end Bclib.Rlp
