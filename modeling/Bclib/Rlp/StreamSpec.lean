import Bclib.Rlp.Stream
import Bclib.Rlp.Wire

namespace Bclib.Rlp

open Data

theorem subUint64_of_le {left right : Nat} (bounded : left < 2 ^ 64)
    (ordered : right ≤ left) : subUint64 left right = left - right := by
  unfold subUint64
  omega

theorem addUint64_of_lt {left right : Nat} (bounded : left + right < 2 ^ 64) :
    addUint64 left right = left + right := by
  unfold addUint64
  omega

/-- Neither the end of a list, nor a panic, nor a loop that was cut off. -/
def Err.Ordinary (err : Err) : Prop :=
  err ≠ .eol ∧ err ≠ .panic ∧ err ≠ .outOfFuel

instance : DecidablePred Err.Ordinary :=
  fun err => inferInstanceAs (Decidable (err ≠ .eol ∧ err ≠ .panic ∧ err ≠ .outOfFuel))

namespace Stream

/-! The accounting invariant.  An open list owes the bytes between its position
and its end; a list opened inside it has its bytes counted once. -/

def FramesFit : Nat → List ListPos → Prop
  | _, [] => True
  | inner, top :: rest =>
      top.pos + inner ≤ top.size ∧ top.size < maxLen ∧ FramesFit top.size rest

def owedBelow : Nat → List ListPos → Nat
  | _, [] => 0
  | inner, top :: rest =>
      (top.size - top.pos - inner) + owedBelow top.size rest

structure Sound (stream : Stream) : Prop where
  limited : stream.limited = true
  remaining : stream.remaining = stream.input.length
  bounded : stream.input.length < maxLen
  fit : FramesFit 0 stream.stack
  owed : owedBelow 0 stream.stack ≤ stream.remaining

def avail (stream : Stream) : Nat :=
  match stream.stack with
  | [] => stream.remaining
  | top :: _ => top.size - top.pos

def window (stream : Stream) : List Byte := stream.input.take stream.avail

def advanceTop (count : Nat) : List ListPos → List ListPos
  | [] => []
  | top :: rest => { top with pos := top.pos + count } :: rest

def advance (stream : Stream) (count : Nat) : Stream :=
  { stream with
    input := stream.input.drop count
    remaining := stream.remaining - count
    stack := advanceTop count stream.stack
    kindAhead := none }

theorem Sound.avail_le {stream : Stream} (sound : stream.Sound) :
    stream.avail ≤ stream.input.length := by
  have owed := sound.owed
  rw [← sound.remaining]
  unfold avail
  cases frames : stream.stack with
  | nil => exact Nat.le_refl _
  | cons top rest =>
      rw [frames, owedBelow] at owed
      dsimp only
      omega

theorem Sound.window_length {stream : Stream} (sound : stream.Sound) :
    stream.window.length = stream.avail := by
  rw [window, List.length_take]
  exact Nat.min_eq_left sound.avail_le

theorem Sound.advance {stream : Stream} (sound : stream.Sound) (count : Nat)
    (inside : count ≤ stream.avail) : (stream.advance count).Sound := by
  have available := sound.avail_le
  have remaining := sound.remaining
  have bounded := sound.bounded
  have fit := sound.fit
  have owed := sound.owed
  refine ⟨sound.limited, ?_, ?_, ?_, ?_⟩
  · simp [Stream.advance, remaining]
  · simp only [Stream.advance, List.length_drop]
    omega
  · cases frames : stream.stack with
    | nil => simp [Stream.advance, frames, advanceTop, FramesFit]
    | cons top rest =>
        simp only [avail, frames] at inside
        rw [frames] at fit
        simp only [FramesFit] at fit
        simp only [Stream.advance, frames, advanceTop, FramesFit]
        exact ⟨by omega, fit.2⟩
  · cases frames : stream.stack with
    | nil => simp [Stream.advance, frames, advanceTop, owedBelow]
    | cons top rest =>
        simp only [avail, frames] at inside
        rw [frames] at owed
        simp only [owedBelow] at owed
        simp only [Stream.advance, frames, advanceTop, owedBelow]
        omega

theorem Sound.congr {stream other : Stream} (sound : stream.Sound)
    (input : other.input = stream.input)
    (remaining : other.remaining = stream.remaining)
    (limited : other.limited = stream.limited)
    (stack : other.stack = stream.stack) : other.Sound :=
  ⟨limited ▸ sound.limited, by rw [remaining, input]; exact sound.remaining,
    input ▸ sound.bounded, stack ▸ sound.fit,
    by rw [stack, remaining]; exact sound.owed⟩

@[simp] theorem avail_advance (stream : Stream) (count : Nat) :
    (stream.advance count).avail = stream.avail - count := by
  unfold avail Stream.advance
  cases stream.stack with
  | nil => rfl
  | cons top rest =>
      simp only [advanceTop]
      omega

@[simp] theorem window_advance (stream : Stream) (count : Nat) :
    (stream.advance count).window = stream.window.drop count := by
  rw [window, avail_advance, window, List.drop_take]
  rfl

@[simp] theorem advanceTop_zero (stack : List ListPos) :
    advanceTop 0 stack = stack := by
  cases stack <;> rfl

@[simp] theorem advanceTop_advanceTop (first second : Nat) (stack : List ListPos) :
    advanceTop second (advanceTop first stack) = advanceTop (first + second) stack := by
  cases stack with
  | nil => rfl
  | cons top rest => simp [advanceTop, Nat.add_assoc]

@[simp] theorem advance_advance (stream : Stream) (first second : Nat) :
    (stream.advance first).advance second = stream.advance (first + second) := by
  simp [Stream.advance, List.drop_drop, Nat.sub_sub]

theorem Sound.clearKinderr {stream : Stream} (sound : stream.Sound) :
    stream.clearKinderr.Sound :=
  sound.congr rfl rfl rfl rfl

theorem Sound.setByteval {stream : Stream} (sound : stream.Sound) (byte : Byte) :
    (stream.setByteval byte).Sound :=
  sound.congr rfl rfl rfl rfl

@[simp] theorem window_setByteval (stream : Stream) (byte : Byte) :
    (stream.setByteval byte).window = stream.window := rfl

@[simp] theorem setByteval_advance (stream : Stream) (byte : Byte) (count : Nat) :
    (stream.setByteval byte).advance count = (stream.advance count).setByteval byte :=
  rfl

@[simp] theorem setByteval_setByteval (stream : Stream) (first second : Byte) :
    (stream.setByteval first).setByteval second = stream.setByteval second := rfl

/-- What a read past the window reports. -/
def overrun (stream : Stream) : Err :=
  if stream.stack.isEmpty then .valueTooLarge else .elemTooLarge

theorem overrun_ordinary (stream : Stream) : stream.overrun.Ordinary := by
  unfold overrun
  split_ifs <;> decide

private theorem takeRemaining_eq {stream : Stream} {count : Nat}
    (limited : stream.limited = true) (bounded : stream.remaining < maxLen)
    (enough : count ≤ stream.remaining) :
    stream.takeRemaining count =
      (.ok (), { stream with remaining := stream.remaining - count }) := by
  unfold maxLen at bounded
  rw [takeRemaining, if_pos limited, if_neg (by omega),
    subUint64_of_le (by omega) enough]

theorem willRead_eq {stream : Stream} (sound : stream.Sound) (count : Nat) :
    stream.willRead count =
      if count ≤ stream.avail then
        (.ok (),
          { stream with
            remaining := stream.remaining - count
            stack := advanceTop count stream.stack
            kindAhead := none })
      else (.error stream.overrun, stream.rearm) := by
  have available := sound.avail_le
  have bounded := sound.remaining ▸ sound.bounded
  rw [← sound.remaining] at available
  have fit := sound.fit
  cases frames : stream.stack with
  | nil =>
      have all : stream.avail = stream.remaining := by simp [avail, frames]
      rw [willRead]
      simp only [frames, all]
      split_ifs with inside
      · exact takeRemaining_eq sound.limited bounded inside
      · rw [takeRemaining, if_pos sound.limited, if_pos (by simpa using inside)]
        simp [overrun, frames, rearm]
  | cons top rest =>
      rw [frames] at fit
      simp only [FramesFit, maxLen] at fit
      have left : stream.avail = top.size - top.pos := by simp [avail, frames]
      rw [willRead]
      simp only [frames, subUint64_of_le (by omega : top.size < 2 ^ 64)
        (by omega : top.pos ≤ top.size), ← left]
      split_ifs with outside inside inside
      · omega
      · simp [overrun, frames, rearm]
      · rw [addUint64_of_lt (by omega)]
        exact takeRemaining_eq sound.limited bounded (by
          change count ≤ stream.remaining
          omega)
      · omega

theorem readFull_eq {stream : Stream} (sound : stream.Sound) (count : Nat) :
    stream.readFull count =
      if count ≤ stream.avail then
        (.ok (stream.window.take count), stream.advance count)
      else (.error stream.overrun, stream.rearm) := by
  have available := sound.avail_le
  rw [readFull, willRead_eq sound]
  split_ifs with inside
  · have enough : ¬ stream.input.length < count := by omega
    simp only [enough, if_false, window, List.take_take, Nat.min_eq_left inside]
    rfl
  · rfl

theorem readByte_eq {stream : Stream} (sound : stream.Sound) :
    stream.readByte =
      match stream.window with
      | [] => (.error stream.overrun, stream.rearm)
      | byte :: _ => (.ok byte, stream.advance 1) := by
  have available := sound.avail_le
  have length := sound.window_length
  rw [readByte, willRead_eq sound]
  cases content : stream.window with
  | nil =>
      rw [content, List.length_nil] at length
      rw [if_neg (by omega)]
  | cons byte rest =>
      rw [content, List.length_cons] at length
      rw [if_pos (by omega)]
      cases unread : stream.input with
      | nil =>
          rw [unread, List.length_nil] at available
          omega
      | cons first tail =>
          have same : first = byte := by
            have heads := congrArg List.head? content
            rw [window, unread, ← length, List.take_succ_cons] at heads
            simpa using heads
          simp [same, Stream.advance, unread]

theorem readUint_eq {stream : Stream} (sound : stream.Sound) {width : Nat}
    (positive : 0 < width) (small : width ≤ 8) :
    stream.readUint width =
      if width ≤ stream.avail then
        if width ≠ 1 ∧ (stream.window.take width).head? = some 0#8 then
          (.error .canonSize, stream.advance width)
        else
          (.ok (ofBigEndian (stream.window.take width)), stream.advance width)
      else (.error stream.overrun, stream.rearm) := by
  have length := sound.window_length
  rw [readUint, if_neg (by omega)]
  by_cases one : width = 1
  · subst one
    rw [if_pos rfl, readByte_eq sound]
    cases content : stream.window with
    | nil =>
        rw [content, List.length_nil] at length
        rw [if_neg (by omega)]
    | cons byte rest =>
        rw [content, List.length_cons] at length
        rw [if_pos (by omega)]
        simp
  · rw [if_neg one, if_neg (by omega), readFull_eq sound]
    by_cases inside : width ≤ stream.avail
    · simp only [if_pos inside, ne_eq, one, not_false_eq_true, true_and]
    · simp only [if_neg inside]

/-- The header bytes of an item; a single byte is its own header. -/
def headOf (kind : Kind) (size : Nat) (byte : Byte) : List Byte :=
  match kind with
  | .byte => [byte]
  | .string => puthead 0x80 0xB7 size
  | .list => puthead 0xC0 0xF7 size

def HeadValid (kind : Kind) (size : Nat) (byte : Byte) : Prop :=
  match kind with
  | .byte => byte.toNat < 128 ∧ size = 0
  | _ => byte = 0

private theorem readLongSize_of_putint {stream : Stream} (sound : stream.Sound)
    {size : Nat} (rest : List Byte) (large : ¬ size < 56) (fits : size < maxLen)
    (content : stream.window = putint size ++ rest) (kind : Kind) :
    stream.readLongSize kind (putint size).length =
      ((kind, size, none), stream.advance (putint size).length) := by
  have length := sound.window_length
  rw [content, List.length_append] at length
  have minimal : putint size = bigEndian size :=
    putint_eq_bigEndian (by omega) (by unfold maxLen at fits; omega)
  rw [readLongSize, readUint_eq sound (putint_length_pos size) (putint_length_le size),
    if_pos (by omega), content, List.take_left, minimal,
    if_neg (fun leading => bigEndian_noLeadingZero size leading.2),
    ofBigEndian_bigEndian]
  simp only [if_neg large]

private theorem readLongSize_afterTag {stream : Stream} (sound : stream.Sound)
    {tag : Byte} {size : Nat} {rest : List Byte}
    (large : ¬ size < 56) (fits : size < maxLen)
    (content : stream.window = tag :: putint size ++ rest) (kind : Kind) :
    ((stream.advance 1).setByteval 0).readLongSize kind (putint size).length =
      ((kind, size, none),
        (stream.advance (tag :: putint size).length).setByteval 0) := by
  have length := sound.window_length
  rw [content, List.cons_append, List.length_cons] at length
  rw [readLongSize_of_putint
    ((sound.advance 1 (by omega)).setByteval 0) rest large fits
    (by simp [content])]
  simp [Nat.add_comm]

private theorem readKind_of_head {stream : Stream} (sound : stream.Sound)
    {kind : Kind} {size : Nat} {byte : Byte} {rest : List Byte}
    (valid : HeadValid kind size byte) (fits : size < maxLen)
    (content : stream.window = headOf kind size byte ++ rest) :
    stream.readKind =
      ((kind, size, none),
        (stream.advance (headOf kind size byte).length).setByteval byte) := by
  have afterTag : ∀ tag tail, stream.window = tag :: tail →
      stream.readByte = (.ok tag, stream.advance 1) := by
    intro tag tail first
    rw [readByte_eq sound, first]
  have positive := putint_length_pos size
  have short := putint_length_le size
  cases kind with
  | byte =>
      rw [readKind, afterTag byte rest content]
      simp [valid.1, valid.2, headOf]
  | string =>
      subst valid
      by_cases small : size < 56
      · have tag := toNat_tag_small 0x80 small (by decide)
        have head : headOf .string size 0 = [0x80 + toByte size] := if_pos small
        rw [head] at content ⊢
        rw [readKind, afterTag _ rest content]
        simp only [tag, show (0x80 : Byte).toNat = 128 from rfl]
        rw [if_neg (by omega), if_pos (by omega), Nat.add_sub_cancel_left]
        rfl
      · have tag := toNat_tag_large 0xB7 size (by decide)
        have head : headOf .string size 0 =
            (0xB7 + toByte (putint size).length) :: putint size := if_neg small
        rw [head] at content ⊢
        rw [readKind, afterTag _ (putint size ++ rest) content]
        simp only [tag, show (0xB7 : Byte).toNat = 183 from rfl]
        rw [if_neg (by omega), if_neg (by omega), if_pos (by omega),
          Nat.add_sub_cancel_left]
        exact readLongSize_afterTag sound small fits content .string
  | list =>
      subst valid
      by_cases small : size < 56
      · have tag := toNat_tag_small 0xC0 small (by decide)
        have head : headOf .list size 0 = [0xC0 + toByte size] := if_pos small
        rw [head] at content ⊢
        rw [readKind, afterTag _ rest content]
        simp only [tag, show (0xC0 : Byte).toNat = 192 from rfl]
        rw [if_neg (by omega), if_neg (by omega), if_neg (by omega),
          if_pos (by omega), Nat.add_sub_cancel_left]
        rfl
      · have tag := toNat_tag_large 0xF7 size (by decide)
        have head : headOf .list size 0 =
            (0xF7 + toByte (putint size).length) :: putint size := if_neg small
        rw [head] at content ⊢
        rw [readKind, afterTag _ (putint size ++ rest) content]
        simp only [tag, show (0xF7 : Byte).toNat = 247 from rfl]
        rw [if_neg (by omega), if_neg (by omega), if_neg (by omega),
          if_neg (by omega), Nat.add_sub_cancel_left]
        exact readLongSize_afterTag sound small fits content .list

private theorem readLongSize_sound {stream next : Stream} (sound : stream.Sound)
    {kind read : Kind} {width size : Nat} (positive : 0 < width) (short : width ≤ 8)
    (ran : stream.readLongSize kind width = ((read, size, none), next)) :
    read = kind ∧ ¬ size < 56 ∧ (putint size).length = width ∧
      next = stream.advance width ∧
      ∃ rest, stream.window = putint size ++ rest := by
  have length := sound.window_length
  rw [readLongSize, readUint_eq sound positive short] at ran
  split_ifs at ran with inside leading
  · simp at ran
  · simp only [Prod.mk.injEq, ite_eq_right_iff, reduceCtorEq, imp_false] at ran
    obtain ⟨⟨sameKind, denoted, large⟩, moved⟩ := ran
    have taken : (stream.window.take width).length = width := by
      rw [List.length_take]
      omega
    have minimal : NoLeadingZero (stream.window.take width) := by
      intro zero
      by_cases one : width = 1
      · subst one
        obtain ⟨byte, single⟩ := List.length_eq_one_iff.mp taken
        rw [single] at zero large
        simp only [List.head?_cons, Option.some.injEq] at zero
        subst zero
        simp at large
      · exact leading ⟨one, zero⟩
    have written : putint size = stream.window.take width := by
      rw [← denoted]
      exact putint_ofBigEndian (by omega) (by omega) minimal
    refine ⟨sameKind.symm, by omega, by rw [written, taken], moved.symm,
      stream.window.drop width, ?_⟩
    rw [written, List.take_append_drop]
  · simp at ran

private theorem readKind_sound {stream next : Stream} (sound : stream.Sound)
    {kind : Kind} {size : Nat}
    (ran : stream.readKind = ((kind, size, none), next)) :
    ∃ byte rest,
      stream.window = headOf kind size byte ++ rest ∧
      HeadValid kind size byte ∧
      next = (stream.advance (headOf kind size byte).length).setByteval byte := by
  have length := sound.window_length
  rw [readKind, readByte_eq sound] at ran
  cases content : stream.window with
  | nil => simp [content] at ran
  | cons tag rest =>
      rw [content, List.length_cons] at length
      have bound := tag.isLt
      have tagRead := (sound.advance 1 (by omega)).setByteval 0
      have tail : ((stream.advance 1).setByteval 0).window = rest := by
        simp [content]
      simp only [content] at ran
      split_ifs at ran with single short long list
      · simp only [Prod.mk.injEq, and_true] at ran
        obtain ⟨⟨rfl, rfl⟩, rfl⟩ := ran
        exact ⟨tag, rest, rfl, ⟨single, rfl⟩, rfl⟩
      · simp only [Prod.mk.injEq, and_true] at ran
        obtain ⟨⟨rfl, rfl⟩, rfl⟩ := ran
        have head : headOf .string (tag.toNat - 0x80) 0 = [tag] :=
          puthead_eq_of_small (by omega) (by
            rw [show (0x80 : Byte).toNat = 128 from rfl]
            omega)
        exact ⟨0, rest, by rw [head]; rfl, rfl, by rw [head]; rfl⟩
      · obtain ⟨rfl, large, width, rfl, payload, written⟩ :=
          readLongSize_sound tagRead (by omega) (by omega) ran
        have head : headOf .string size 0 = tag :: putint size :=
          puthead_eq_of_large large (by
            rw [show (0xB7 : Byte).toNat = 183 from rfl]
            omega)
        refine ⟨0, payload, by rw [head, ← tail, written]; rfl, rfl, ?_⟩
        rw [head, ← width]
        simp [Nat.add_comm]
      · simp only [Prod.mk.injEq, and_true] at ran
        obtain ⟨⟨rfl, rfl⟩, rfl⟩ := ran
        have head : headOf .list (tag.toNat - 0xC0) 0 = [tag] :=
          puthead_eq_of_small (by omega) (by
            rw [show (0xC0 : Byte).toNat = 192 from rfl]
            omega)
        exact ⟨0, rest, by rw [head]; rfl, rfl, by rw [head]; rfl⟩
      · obtain ⟨rfl, large, width, rfl, payload, written⟩ :=
          readLongSize_sound tagRead (by omega) (by omega) ran
        have head : headOf .list size 0 = tag :: putint size :=
          puthead_eq_of_large large (by
            rw [show (0xF7 : Byte).toNat = 247 from rfl]
            omega)
        refine ⟨0, payload, by rw [head, ← tail, written]; rfl, rfl, ?_⟩
        rw [head, ← width]
        simp [Nat.add_comm]

def headed (stream : Stream) (kind : Kind) (size : Nat) (byte : Byte) : Stream :=
  { stream.advance (headOf kind size byte).length with
    kindAhead := some kind
    sizeAhead := size
    byteval := byte
    kinderr := none }

theorem sizeError_eq_none_iff {stream : Stream} (sound : stream.Sound)
    (size : Nat) : stream.sizeError size = none ↔ size ≤ stream.avail := by
  have fit := sound.fit
  unfold sizeError avail
  cases frames : stream.stack with
  | nil => simp [sound.limited]
  | cons top rest =>
      rw [frames] at fit
      simp only [FramesFit, maxLen] at fit
      simp [subUint64_of_le (by omega : top.size < 2 ^ 64)
        (by omega : top.pos ≤ top.size)]

theorem atListEnd_iff {stream : Stream} (sound : stream.Sound) :
    stream.atListEnd = true ↔ stream.stack ≠ [] ∧ stream.avail = 0 := by
  have fit := sound.fit
  unfold atListEnd avail
  cases frames : stream.stack with
  | nil => simp
  | cons top rest =>
      rw [frames] at fit
      simp only [FramesFit] at fit
      simp
      omega

private theorem headOf_length_pos (kind : Kind) (size : Nat) (byte : Byte) :
    0 < (headOf kind size byte).length := by
  cases kind with
  | byte => exact Nat.one_pos
  | string => exact List.length_pos_iff.mpr (puthead_ne_nil _ _ _)
  | list => exact List.length_pos_iff.mpr (puthead_ne_nil _ _ _)

private theorem sizeError_behind_head {stream : Stream} (sound : stream.Sound)
    {kind : Kind} {size : Nat} {byte : Byte} {rest : List Byte}
    (content : stream.window = headOf kind size byte ++ rest) :
    ((stream.advance (headOf kind size byte).length).setByteval byte).sizeError size =
      none ↔ size ≤ rest.length := by
  have length := sound.window_length
  rw [content, List.length_append] at length
  have behind := sound.advance (headOf kind size byte).length (by omega)
  rw [sizeError_eq_none_iff (behind.setByteval byte)]
  have left : ((stream.advance (headOf kind size byte).length).setByteval byte).avail =
      stream.avail - (headOf kind size byte).length := avail_advance stream _
  rw [left]
  omega

/-- The header of the next item is read exactly when the window starts with its
minimal form and holds the whole item. -/
theorem kind_eq_ok_iff {stream next : Stream} (sound : stream.Sound)
    (armed : stream.kindAhead = none) (kind : Kind) (size : Nat) :
    stream.kind = (.ok (kind, size), next) ↔
      ∃ byte rest,
        stream.window = headOf kind size byte ++ rest ∧ size ≤ rest.length ∧
        HeadValid kind size byte ∧ next = stream.headed kind size byte := by
  have cleared := sound.clearKinderr
  have length := cleared.window_length
  have available := cleared.avail_le
  have bounded := cleared.bounded
  simp only [Stream.kind, armed]
  constructor
  · intro ran
    split_ifs at ran with atEnd
    · simp at ran
    · rcases outcome : stream.clearKinderr.readKind with
        ⟨⟨read, count, readErr⟩, after⟩
      rw [outcome] at ran
      cases readErr with
      | some err => simp [cacheKind] at ran
      | none =>
          obtain ⟨byte, rest, content, valid, rfl⟩ :=
            readKind_sound cleared outcome
          have room := sizeError_behind_head cleared content
          cases tooLarge :
              ((stream.clearKinderr.advance (headOf read count byte).length).setByteval
                byte).sizeError count with
          | some err => simp [tooLarge, cacheKind] at ran
          | none =>
              simp only [tooLarge, cacheKind, Prod.mk.injEq, Except.ok.injEq] at ran
              obtain ⟨⟨rfl, rfl⟩, rfl⟩ := ran
              exact ⟨byte, rest, content, room.mp tooLarge, valid, rfl⟩
  · rintro ⟨byte, rest, content, room, valid, rfl⟩
    have window : stream.clearKinderr.window = headOf kind size byte ++ rest := content
    have positive := headOf_length_pos kind size byte
    rw [window, List.length_append] at length
    rw [if_neg (by
      rw [atListEnd_iff cleared]
      rintro ⟨-, empty⟩
      omega)]
    rw [readKind_of_head cleared valid (by omega) window]
    simp only [(sizeError_behind_head cleared window).mpr room, cacheKind]
    rfl

private theorem readLongSize_ordinary {stream next : Stream} (sound : stream.Sound)
    {kind read : Kind} {width size : Nat} {err : Err}
    (positive : 0 < width) (short : width ≤ 8)
    (ran : stream.readLongSize kind width = ((read, size, some err), next)) :
    err.Ordinary := by
  rw [readLongSize, readUint_eq sound positive short] at ran
  split_ifs at ran
  · simp only [Prod.mk.injEq, Option.some.injEq] at ran
    exact ran.1.2.2 ▸ by decide
  · simp only [Prod.mk.injEq, Option.ite_none_right_eq_some, Option.some.injEq] at ran
    exact ran.1.2.2.2 ▸ by decide
  · simp only [Prod.mk.injEq, Option.some.injEq] at ran
    exact ran.1.2.2 ▸ overrun_ordinary stream

private theorem readKind_ordinary {stream next : Stream} (sound : stream.Sound)
    {kind : Kind} {size : Nat} {err : Err}
    (ran : stream.readKind = ((kind, size, some err), next)) : err.Ordinary := by
  have length := sound.window_length
  rw [readKind, readByte_eq sound] at ran
  cases content : stream.window with
  | nil =>
      simp only [content, overrun, Prod.mk.injEq, Option.some.injEq] at ran
      rw [← ran.1.2.2]
      split_ifs <;> decide
  | cons tag rest =>
      rw [content, List.length_cons] at length
      have bound := tag.isLt
      have tagRead := (sound.advance 1 (by omega)).setByteval 0
      simp only [content] at ran
      split_ifs at ran with single short long list
      · simp at ran
      · simp at ran
      · exact readLongSize_ordinary tagRead (by omega) (by omega) ran
      · simp at ran
      · exact readLongSize_ordinary tagRead (by omega) (by omega) ran

private theorem sizeError_ordinary {stream : Stream} {size : Nat} {err : Err}
    (failed : stream.sizeError size = some err) : err.Ordinary := by
  unfold sizeError at failed
  split at failed <;> split_ifs at failed <;>
    exact Option.some.inj failed ▸ by decide

/-- A header that is not delivered is either the end of the list, reported
exactly at the end of an open list, or an ordinary error. -/
theorem kind_error {stream next : Stream} (sound : stream.Sound)
    (armed : stream.kindAhead = none) {err : Err}
    (ran : stream.kind = (.error err, next)) :
    (err = .eol ∧ stream.stack ≠ [] ∧ stream.avail = 0 ∧ next = stream.clearKinderr) ∨
      err.Ordinary := by
  have cleared := sound.clearKinderr
  simp only [Stream.kind, armed] at ran
  split_ifs at ran with atEnd
  · obtain ⟨opened, empty⟩ := (atListEnd_iff cleared).mp atEnd
    simp only [Prod.mk.injEq, Except.error.injEq] at ran
    exact .inl ⟨ran.1.symm, opened, empty, ran.2.symm⟩
  · right
    rcases outcome : stream.clearKinderr.readKind with ⟨⟨read, count, readErr⟩, after⟩
    rw [outcome] at ran
    cases readErr with
    | some readErr =>
        simp only [cacheKind, Prod.mk.injEq, Except.error.injEq] at ran
        exact ran.1 ▸ readKind_ordinary cleared outcome
    | none =>
        cases tooLarge : after.sizeError count with
        | none => simp [tooLarge, cacheKind] at ran
        | some sizeErr =>
            simp only [tooLarge, cacheKind, Prod.mk.injEq, Except.error.injEq] at ran
            exact ran.1 ▸ sizeError_ordinary tooLarge

theorem kind_of_listEnd {stream : Stream} (sound : stream.Sound)
    (armed : stream.kindAhead = none) (opened : stream.stack ≠ [])
    (empty : stream.avail = 0) :
    stream.kind = (.error .eol, stream.clearKinderr) := by
  simp only [Stream.kind, armed]
  rw [if_pos ((atListEnd_iff sound.clearKinderr).mpr ⟨opened, empty⟩)]

end Stream

theorem newStream_sound {b : List Byte} (fits : b.length < maxLen) :
    (newStream b b.length).Sound := by
  refine ⟨rfl, ?_, fits, trivial, Nat.zero_le _⟩
  simp only [newStream]
  split_ifs <;> rfl

theorem newStream_avail (b : List Byte) : (newStream b b.length).avail = b.length := by
  simp only [newStream, Stream.avail]
  split_ifs <;> rfl

theorem newStream_window (b : List Byte) : (newStream b b.length).window = b := by
  rw [Stream.window, newStream_avail]
  exact List.take_length

theorem newStream_limit (b : List Byte) : newStream b b.length = newStream b 0 := by
  simp [newStream]

theorem newStream_ready {b : List Byte} (short : b.length < maxLen) :
    (newStream b 0).Sound ∧ (newStream b 0).avail < b.length + 1 ∧
      (newStream b 0).window = b := by
  have room := newStream_avail b
  have window := newStream_window b
  have sound := newStream_sound short
  rw [newStream_limit] at room window sound
  exact ⟨sound, by omega, window⟩

end Bclib.Rlp
