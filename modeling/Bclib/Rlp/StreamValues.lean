import Bclib.Rlp.StreamSpec

namespace Bclib.Rlp.Stream

open Data

/-! Whole items on a stream that keeps the invariant and has no header cached.
Each operation is described by the bytes of the window it accepts, and by the
errors it gives on any other window. -/

structure Advanced (stream : Stream) (count : Nat) (next : Stream) : Prop where
  inside : count ≤ stream.avail
  input : next.input = stream.input.drop count
  remaining : next.remaining = stream.remaining - count
  limited : next.limited = stream.limited
  stack : next.stack = advanceTop count stream.stack
  armed : next.kindAhead = none

namespace Advanced

theorem refl {stream : Stream} (armed : stream.kindAhead = none) :
    stream.Advanced 0 stream :=
  ⟨Nat.zero_le _, rfl, rfl, rfl, (advanceTop_zero _).symm, armed⟩

theorem sound {stream next : Stream} {count : Nat}
    (moved : stream.Advanced count next) (sound : stream.Sound) : next.Sound :=
  (sound.advance _ moved.inside).congr moved.input moved.remaining moved.limited
    moved.stack

theorem avail {stream next : Stream} {count : Nat}
    (moved : stream.Advanced count next) :
    next.avail = stream.avail - count := by
  rw [← avail_advance stream count, Stream.avail, Stream.avail, moved.stack,
    moved.remaining]
  rfl

theorem window {stream next : Stream} {count : Nat}
    (moved : stream.Advanced count next) :
    next.window = stream.window.drop count := by
  rw [← window_advance stream count, Stream.window, Stream.window, moved.avail,
    moved.input, avail_advance]
  rfl

theorem trans {first second third : Stream} {left right : Nat}
    (before : first.Advanced left second) (after : second.Advanced right third) :
    first.Advanced (left + right) third := by
  have inside := after.inside
  rw [before.avail] at inside
  have start := before.inside
  refine ⟨by omega, ?_, ?_, ?_, ?_, after.armed⟩
  · rw [after.input, before.input, List.drop_drop]
  · rw [after.remaining, before.remaining, Nat.sub_sub]
  · rw [after.limited, before.limited]
  · rw [after.stack, before.stack, advanceTop_advanceTop]

theorem stack_ne_nil {stream next : Stream} {count : Nat}
    (moved : stream.Advanced count next) (opened : stream.stack ≠ []) :
    next.stack ≠ [] := by
  rw [moved.stack]
  cases frames : stream.stack with
  | nil => exact absurd frames opened
  | cons top rest => simp [advanceTop]

end Advanced

def AtEnd (stream : Stream) : Prop := stream.stack ≠ [] ∧ stream.avail = 0

/-- The errors of an operation: the end of the list, with the stream left where
it was, or an ordinary error. -/
def Refused (stream : Stream) (err : Err) (next : Stream) : Prop :=
  (err = .eol ∧ stream.AtEnd ∧ stream.Advanced 0 next) ∨ err.Ordinary

theorem refused_of_kind {stream next : Stream} (sound : stream.Sound)
    (armed : stream.kindAhead = none) {err : Err}
    (ran : stream.kind = (.error err, next)) : stream.Refused err next := by
  rcases kind_error sound armed ran with ⟨rfl, opened, empty, rfl⟩ | ordinary
  · exact .inl ⟨rfl, ⟨opened, empty⟩, (Advanced.refl armed).inside, rfl, rfl, rfl,
      (advanceTop_zero _).symm, armed⟩
  · exact .inr ordinary

theorem kind_ends {stream : Stream} (sound : stream.Sound)
    (armed : stream.kindAhead = none) (atEnd : stream.AtEnd) :
    ∃ next, stream.kind = (.error .eol, next) ∧ stream.Advanced 0 next :=
  ⟨_, kind_of_listEnd sound armed atEnd.1 atEnd.2, Nat.zero_le _, rfl, rfl, rfl,
    (advanceTop_zero _).symm, armed⟩

theorem headed_sound {stream : Stream} (sound : stream.Sound) (kind : Kind)
    {size : Nat} (byte : Byte) {rest : List Byte}
    (content : stream.window = headOf kind size byte ++ rest) :
    (stream.headed kind size byte).Sound := by
  have length := sound.window_length
  rw [content, List.length_append] at length
  exact (sound.advance (headOf kind size byte).length
    (by omega)).congr rfl rfl rfl rfl

theorem window_headed {stream : Stream} (kind : Kind)
    {size : Nat} (byte : Byte) {rest : List Byte}
    (content : stream.window = headOf kind size byte ++ rest) :
    (stream.headed kind size byte).window = rest := by
  have moved := window_advance stream (headOf kind size byte).length
  rw [content, List.drop_left] at moved
  exact moved

theorem readFull_headed {stream : Stream} (sound : stream.Sound) {kind : Kind} {size : Nat}
    {byte : Byte} {rest : List Byte}
    (content : stream.window = headOf kind size byte ++ rest) {count : Nat}
    (inside : count ≤ rest.length) :
    (stream.headed kind size byte).readFull count =
      (.ok (rest.take count), (stream.headed kind size byte).advance count) := by
  have behind := headed_sound sound kind byte content
  have payload := window_headed kind byte content
  have left := behind.window_length
  rw [payload] at left
  rw [readFull_eq behind, if_pos (by omega), payload]

theorem readUint_headed {stream : Stream} (sound : stream.Sound) {kind : Kind} {size : Nat}
    {byte : Byte} {rest : List Byte}
    (content : stream.window = headOf kind size byte ++ rest) {width : Nat}
    (positive : 0 < width) (small : width ≤ 8) (inside : width ≤ rest.length) :
    (stream.headed kind size byte).readUint width =
      if width ≠ 1 ∧ (rest.take width).head? = some 0#8 then
        (.error .canonSize, (stream.headed kind size byte).advance width)
      else
        (.ok (ofBigEndian (rest.take width)),
          (stream.headed kind size byte).advance width) := by
  have behind := headed_sound sound kind byte content
  have payload := window_headed kind byte content
  have left := behind.window_length
  rw [payload] at left
  rw [readUint_eq behind positive small, if_pos (by omega), payload]

theorem advanced_of_headed {stream next : Stream} (sound : stream.Sound)
    (kind : Kind) (size count : Nat) {byte : Byte} {rest : List Byte}
    (content : stream.window = headOf kind size byte ++ rest)
    (inside : count ≤ rest.length)
    (input : next.input = (stream.headed kind size byte).input.drop count)
    (remaining : next.remaining = (stream.headed kind size byte).remaining - count)
    (limited : next.limited = stream.limited)
    (stack : next.stack = advanceTop count (stream.headed kind size byte).stack)
    (armed : next.kindAhead = none) :
    stream.Advanced ((headOf kind size byte).length + count) next := by
  have length := sound.window_length
  rw [content, List.length_append] at length
  refine ⟨by omega, ?_, ?_, limited, ?_, armed⟩
  · rw [input, headed, Stream.advance, List.drop_drop]
  · rw [remaining, headed, Stream.advance, Nat.sub_sub]
  · rw [stack, headed, Stream.advance, advanceTop_advanceTop]

theorem bytes_complete {stream : Stream} (sound : stream.Sound)
    (armed : stream.kindAhead = none) {bytes rest : List Byte}
    (content : stream.window = wireString bytes ++ rest) :
    ∃ next, stream.bytes = (.ok bytes, next) ∧
      stream.Advanced (wireString bytes).length next := by
  have length := sound.window_length
  have available := sound.avail_le
  have bounded := sound.bounded
  by_cases single : IsSingle bytes
  · obtain ⟨byte, rfl, small⟩ := isSingle_iff.mp single
    rw [wireString_of_single small] at content ⊢
    have ahead := (kind_eq_ok_iff sound armed .byte 0).mpr
      ⟨byte, rest, content, Nat.zero_le _, ⟨small, rfl⟩, rfl⟩
    refine ⟨(stream.headed .byte 0 byte).rearm, ?_, ?_⟩
    · rw [Stream.bytes, ahead]
      rfl
    · exact advanced_of_headed sound .byte 0 0 content
        (Nat.zero_le _) rfl rfl rfl (advanceTop_zero _).symm rfl
  · rw [wireString_of_not_single single] at content ⊢
    rw [content] at length
    simp only [List.length_append] at length
    rw [List.append_assoc] at content
    have ahead := (kind_eq_ok_iff sound armed .string bytes.length).mpr
      ⟨0, bytes ++ rest, content, by simp, rfl, rfl⟩
    refine ⟨(stream.headed .string bytes.length 0).advance bytes.length, ?_, ?_⟩
    · rw [Stream.bytes, ahead]
      simp only [if_neg (by omega : ¬ maxLen ≤ bytes.length)]
      rw [readFull_headed sound content (by simp), List.take_left]
      simp only [if_neg (show ¬ (bytes.length = 1 ∧ _) from single)]
    · rw [List.length_append]
      exact advanced_of_headed sound .string _ _ content (by simp)
        rfl rfl rfl rfl rfl

theorem bytes_sound {stream next : Stream} (sound : stream.Sound)
    (armed : stream.kindAhead = none) {bytes : List Byte}
    (ran : stream.bytes = (.ok bytes, next)) :
    (∃ rest, stream.window = wireString bytes ++ rest) ∧
      stream.Advanced (wireString bytes).length next := by
  rw [Stream.bytes] at ran
  rcases outcome : stream.kind with ⟨result, after⟩
  rw [outcome] at ran
  cases result with
  | error err => simp at ran
  | ok found =>
      obtain ⟨kind, size⟩ := found
      obtain ⟨byte, rest, content, room, valid, rfl⟩ :=
        (kind_eq_ok_iff sound armed _ _).mp outcome
      cases kind with
      | byte =>
          simp only [Prod.mk.injEq, Except.ok.injEq] at ran
          obtain ⟨rfl, rfl⟩ := ran
          have same : (stream.headed .byte size byte).byteval = byte := rfl
          rw [same, wireString_of_single valid.1]
          exact ⟨⟨rest, content⟩, advanced_of_headed sound .byte _ 0
            content (Nat.zero_le _) rfl rfl rfl (advanceTop_zero _).symm rfl⟩
      | string =>
          subst valid
          simp only at ran
          split_ifs at ran with huge
          · simp at ran
          · rw [readFull_headed sound content room] at ran
            simp only at ran
            split_ifs at ran with short
            · simp at ran
            · simp only [Prod.mk.injEq, Except.ok.injEq] at ran
              obtain ⟨rfl, rfl⟩ := ran
              have taken : (rest.take size).length = size := by
                rw [List.length_take]
                omega
              have headed : ¬ IsSingle (rest.take size) := by
                rw [IsSingle, taken]
                exact short
              rw [wireString_of_not_single headed, taken, List.length_append, taken]
              refine ⟨⟨rest.drop size, ?_⟩, advanced_of_headed sound .string
                _ _ content room rfl rfl rfl rfl rfl⟩
              rw [List.append_assoc, List.take_append_drop]
              exact content
      | list => simp at ran

theorem bytes_error {stream next : Stream} (sound : stream.Sound)
    (armed : stream.kindAhead = none) {err : Err}
    (ran : stream.bytes = (.error err, next)) : stream.Refused err next := by
  have bounded := sound.bounded
  have available := sound.avail_le
  have length := sound.window_length
  rw [Stream.bytes] at ran
  rcases outcome : stream.kind with ⟨result, after⟩
  rw [outcome] at ran
  cases result with
  | error kindErr =>
      simp only [Prod.mk.injEq, Except.error.injEq] at ran
      obtain ⟨rfl, rfl⟩ := ran
      exact refused_of_kind sound armed outcome
  | ok found =>
      right
      obtain ⟨kind, size⟩ := found
      obtain ⟨byte, rest, content, room, valid, rfl⟩ :=
        (kind_eq_ok_iff sound armed _ _).mp outcome
      rw [content, List.length_append] at length
      cases kind with
      | byte => simp at ran
      | string =>
          subst valid
          simp only [if_neg (by omega : ¬ maxLen ≤ size)] at ran
          rw [readFull_headed sound content room] at ran
          simp only at ran
          split_ifs at ran
          · simp only [Prod.mk.injEq, Except.error.injEq] at ran
            exact ran.1 ▸ by decide
          · simp at ran
      | list =>
          simp only [Prod.mk.injEq, Except.error.injEq] at ran
          exact ran.1 ▸ by decide

/-! Unsigned integers: the strings without a leading zero byte. -/

private theorem one_le_of_noLeadingZero {byte : Byte}
    (minimal : NoLeadingZero [byte]) : byte ≠ 0 := by
  intro zero
  exact minimal (by rw [zero]; rfl)

private theorem not_small_of_not_single {number : Nat}
    (headed : ¬ IsSingle (bigEndian number)) :
    ¬ (0 < (bigEndian number).length ∧ number < 128) := by
  rintro ⟨nonempty, small⟩
  have positive : 0 < number := by
    rcases Nat.eq_zero_or_pos number with rfl | positive
    · simp at nonempty
    · exact positive
  apply headed
  rw [bigEndian_of_lt positive (by omega)]
  exact isSingle_iff.mpr ⟨_, rfl, by simp; omega⟩

theorem uint_complete {stream : Stream} (sound : stream.Sound)
    (armed : stream.kindAhead = none) (maxbits : Nat) {number : Nat} {rest : List Byte}
    (narrow : (bigEndian number).length ≤ maxbits / 8) (short : maxbits / 8 ≤ 8)
    (content : stream.window = wireUint number ++ rest) :
    ∃ next, stream.uint maxbits = (.ok number, next) ∧
      stream.Advanced (wireUint number).length next := by
  rw [wireUint] at content ⊢
  by_cases single : IsSingle (bigEndian number)
  · obtain ⟨byte, minimal, small⟩ := isSingle_iff.mp single
    have denoted : byte.toNat = number := by
      rw [← ofBigEndian_bigEndian number, minimal, ofBigEndian_singleton]
    have nonzero : byte ≠ 0 := one_le_of_noLeadingZero
      (minimal ▸ bigEndian_noLeadingZero number)
    rw [minimal, wireString_of_single small] at content ⊢
    have ahead := (kind_eq_ok_iff sound armed .byte 0).mpr
      ⟨byte, rest, content, Nat.zero_le _, ⟨small, rfl⟩, rfl⟩
    have same : (stream.headed .byte 0 byte).byteval = byte := rfl
    refine ⟨(stream.headed .byte 0 byte).rearm, ?_, ?_⟩
    · rw [Stream.uint, ahead]
      simp only [same, if_neg nonzero, denoted]
    · exact advanced_of_headed sound .byte 0 0 content
        (Nat.zero_le _) rfl rfl rfl (advanceTop_zero _).symm rfl
  · rw [wireString_of_not_single single] at content ⊢
    rw [List.append_assoc] at content
    have large := not_small_of_not_single single
    have ahead := (kind_eq_ok_iff sound armed .string (bigEndian number).length).mpr
      ⟨0, bigEndian number ++ rest, content, by simp, rfl, rfl⟩
    rcases Nat.eq_zero_or_pos number with rfl | positive
    · refine ⟨(stream.headed .string 0 0).rearm, ?_, ?_⟩
      · rw [Stream.uint, ahead]
        simp [readUint, rearm]
      · exact advanced_of_headed sound .string 0 0 content
          (Nat.zero_le _) rfl rfl rfl (advanceTop_zero _).symm rfl
    · have nonempty := bigEndian_length_pos positive
      refine ⟨(stream.headed .string (bigEndian number).length 0).advance
        (bigEndian number).length, ?_, ?_⟩
      · rw [Stream.uint, ahead]
        simp only [if_neg (by omega : ¬ maxbits / 8 < (bigEndian number).length)]
        rw [readUint_headed sound content nonempty (by omega) (by simp), List.take_left,
          if_neg (fun leading => bigEndian_noLeadingZero number leading.2),
          ofBigEndian_bigEndian]
        simp only [if_neg large]
      · rw [List.length_append]
        exact advanced_of_headed sound .string _ _ content (by simp)
          rfl rfl rfl rfl rfl

private theorem wireUint_of_bytes {bytes : List Byte} {number : Nat}
    (denoted : ofBigEndian bytes = number) (large : 128 ≤ number)
    (leading : ¬(bytes.length ≠ 1 ∧ bytes.head? = some 0#8)) :
    wireUint number = headOf .string bytes.length 0 ++ bytes := by
  have minimal : NoLeadingZero bytes := by
    intro zero
    by_cases one : bytes.length = 1
    · obtain ⟨first, rfl⟩ := List.length_eq_one_iff.mp one
      simp only [List.head?_cons, Option.some.injEq] at zero
      subst zero
      simp at denoted
      omega
    · exact leading ⟨one, zero⟩
  have headed : ¬ IsSingle bytes := by
    intro single
    obtain ⟨first, only, tiny⟩ := isSingle_iff.mp single
    rw [only, ofBigEndian_singleton] at denoted
    omega
  have written : bigEndian number = bytes := by
    rw [← denoted]
    exact bigEndian_ofBigEndian minimal
  rw [wireUint, written, wireString_of_not_single headed]
  rfl

theorem uint_sound {stream next : Stream} (sound : stream.Sound)
    (armed : stream.kindAhead = none) {number maxbits : Nat}
    (wide : 0 < maxbits / 8) (short : maxbits / 8 ≤ 8)
    (ran : stream.uint maxbits = (.ok number, next)) :
    (∃ rest, stream.window = wireUint number ++ rest) ∧
      stream.Advanced (wireUint number).length next ∧
      number < 256 ^ (maxbits / 8) := by
  rw [Stream.uint] at ran
  rcases outcome : stream.kind with ⟨result, after⟩
  rw [outcome] at ran
  cases result with
  | error err => simp at ran
  | ok found =>
      obtain ⟨kind, size⟩ := found
      obtain ⟨byte, rest, content, room, valid, rfl⟩ :=
        (kind_eq_ok_iff sound armed _ _).mp outcome
      cases kind with
      | byte =>
          have same : (stream.headed .byte size byte).byteval = byte := rfl
          simp only [same] at ran
          split_ifs at ran with zero
          · simp at ran
          · simp only [Prod.mk.injEq, Except.ok.injEq] at ran
            obtain ⟨rfl, rfl⟩ := ran
            have minimal : bigEndian byte.toNat = [byte] := by
              rw [← ofBigEndian_singleton byte]
              exact bigEndian_ofBigEndian (fun leading => zero (by simpa using leading))
            rw [wireUint, minimal, wireString_of_single valid.1]
            refine ⟨⟨rest, content⟩, advanced_of_headed sound .byte _ 0
              content (Nat.zero_le _) rfl rfl rfl (advanceTop_zero _).symm rfl, ?_⟩
            calc
              byte.toNat < 256 ^ 1 := byte.isLt
              _ ≤ 256 ^ (maxbits / 8) := Nat.pow_le_pow_right (by decide) wide
      | string =>
          subst valid
          simp only at ran
          split_ifs at ran with overflow
          · simp at ran
          · rcases Nat.eq_zero_or_pos size with rfl | positive
            · simp [readUint] at ran
              obtain ⟨rfl, rfl⟩ := ran
              exact ⟨⟨rest, content⟩, advanced_of_headed sound .string 0 0
                content (Nat.zero_le _) rfl rfl rfl
                (advanceTop_zero _).symm rfl, Nat.pos_of_ne_zero (by simp)⟩
            · rw [readUint_headed sound content positive (by omega) room] at ran
              have taken : (rest.take size).length = size := by
                rw [List.length_take]
                omega
              split_ifs at ran with leading
              · simp at ran
              · simp only at ran
                split_ifs at ran with small
                · simp at ran
                · simp only [Prod.mk.injEq, Except.ok.injEq] at ran
                  obtain ⟨denoted, rfl⟩ := ran
                  rw [wireUint_of_bytes denoted (by omega) (by rwa [taken]), taken,
                    List.length_append, taken]
                  refine ⟨⟨rest.drop size, ?_⟩, advanced_of_headed sound .string
                    _ _ content room rfl rfl rfl rfl rfl, ?_⟩
                  · rw [List.append_assoc, List.take_append_drop]
                    exact content
                  · have bound := ofBigEndian_lt (rest.take size)
                    rw [denoted, taken] at bound
                    exact Nat.lt_of_lt_of_le bound
                      (Nat.pow_le_pow_right (by decide) (by omega))
      | list => simp at ran

theorem uint_error {stream next : Stream} (sound : stream.Sound)
    (armed : stream.kindAhead = none) {maxbits : Nat} {err : Err}
    (short : maxbits / 8 ≤ 8)
    (ran : stream.uint maxbits = (.error err, next)) : stream.Refused err next := by
  rw [Stream.uint] at ran
  rcases outcome : stream.kind with ⟨result, after⟩
  rw [outcome] at ran
  cases result with
  | error kindErr =>
      simp only [Prod.mk.injEq, Except.error.injEq] at ran
      obtain ⟨rfl, rfl⟩ := ran
      exact refused_of_kind sound armed outcome
  | ok found =>
      right
      obtain ⟨kind, size⟩ := found
      obtain ⟨byte, rest, content, room, valid, rfl⟩ :=
        (kind_eq_ok_iff sound armed _ _).mp outcome
      cases kind with
      | byte =>
          simp only at ran
          split_ifs at ran
          · simp only [Prod.mk.injEq, Except.error.injEq] at ran
            exact ran.1 ▸ by decide
          · simp at ran
      | string =>
          simp only at ran
          split_ifs at ran with overflow
          · simp only [Prod.mk.injEq, Except.error.injEq] at ran
            exact ran.1 ▸ by decide
          · rcases Nat.eq_zero_or_pos size with rfl | positive
            · simp [readUint] at ran
            · rw [readUint_headed sound content positive (by omega) room] at ran
              split_ifs at ran
              · simp only [Prod.mk.injEq, Except.error.injEq] at ran
                exact ran.1 ▸ by decide
              · simp only at ran
                split_ifs at ran
                · simp only [Prod.mk.injEq, Except.error.injEq] at ran
                  exact ran.1 ▸ by decide
                · simp at ran
      | list =>
          simp only [Prod.mk.injEq, Except.error.injEq] at ran
          exact ran.1 ▸ by decide

theorem bool_complete {stream : Stream} (sound : stream.Sound)
    (armed : stream.kindAhead = none) {flag : Bool} {rest : List Byte}
    (content : stream.window = wireUint flag.toNat ++ rest) :
    ∃ next, stream.bool = (.ok flag, next) ∧
      stream.Advanced (wireUint flag.toNat).length next := by
  obtain ⟨next, ran, moved⟩ := uint_complete sound armed 8
    (by cases flag <;> decide) (by decide) content
  refine ⟨next, ?_, moved⟩
  rw [Stream.bool, ran]
  cases flag <;> rfl

theorem bool_sound {stream next : Stream} (sound : stream.Sound)
    (armed : stream.kindAhead = none) {flag : Bool}
    (ran : stream.bool = (.ok flag, next)) :
    (∃ rest, stream.window = wireUint flag.toNat ++ rest) ∧
      stream.Advanced (wireUint flag.toNat).length next := by
  rw [Stream.bool] at ran
  rcases outcome : stream.uint 8 with ⟨result, after⟩
  rw [outcome] at ran
  cases result with
  | error err => simp at ran
  | ok number =>
      obtain ⟨content, moved, -⟩ := uint_sound sound armed (by decide) (by decide) outcome
      match number, ran with
      | 0, ran | 1, ran =>
          simp only [Prod.mk.injEq, Except.ok.injEq] at ran
          obtain ⟨rfl, rfl⟩ := ran
          exact ⟨content, moved⟩
      | number + 2, ran => simp at ran

theorem bool_error {stream next : Stream} (sound : stream.Sound)
    (armed : stream.kindAhead = none) {err : Err}
    (ran : stream.bool = (.error err, next)) : stream.Refused err next := by
  rw [Stream.bool] at ran
  rcases outcome : stream.uint 8 with ⟨result, after⟩
  rw [outcome] at ran
  cases result with
  | error uintErr =>
      simp only [Prod.mk.injEq, Except.error.injEq] at ran
      obtain ⟨rfl, rfl⟩ := ran
      exact uint_error sound armed (by decide) outcome
  | ok number =>
      match number, ran with
      | 0, ran | 1, ran => simp at ran
      | number + 2, ran =>
          simp only [Prod.mk.injEq, Except.error.injEq] at ran
          exact .inr (ran.1 ▸ ⟨by simp, by simp, by simp⟩)

/-- The stream inside a list of `size` bytes, just after its header. -/
def opened (stream : Stream) (size : Nat) : Stream :=
  { stream.headed .list size 0 with
    stack := ⟨0, size⟩ :: advanceTop (puthead 0xC0 0xF7 size).length stream.stack
    kindAhead := none
    sizeAhead := 0 }

theorem list_eq_ok_iff {stream next : Stream} (sound : stream.Sound)
    (armed : stream.kindAhead = none) {size : Nat} :
    stream.list = (.ok size, next) ↔
      (∃ rest, stream.window = puthead 0xC0 0xF7 size ++ rest ∧ size ≤ rest.length) ∧
        next = stream.opened size := by
  rw [Stream.list]
  constructor
  · intro ran
    rcases outcome : stream.kind with ⟨result, after⟩
    rw [outcome] at ran
    cases result with
    | error err => simp at ran
    | ok found =>
        obtain ⟨kind, count⟩ := found
        obtain ⟨byte, rest, content, room, valid, rfl⟩ :=
          (kind_eq_ok_iff sound armed _ _).mp outcome
        cases kind with
        | byte => simp at ran
        | string => simp at ran
        | list =>
            subst valid
            simp only [Prod.mk.injEq, Except.ok.injEq] at ran
            obtain ⟨rfl, rfl⟩ := ran
            exact ⟨⟨rest, content, room⟩, rfl⟩
  · rintro ⟨⟨rest, content, room⟩, rfl⟩
    have ahead := (kind_eq_ok_iff sound armed .list size).mpr
      ⟨0, rest, content, room, rfl, rfl⟩
    rw [ahead]
    rfl

theorem list_error {stream next : Stream} (sound : stream.Sound)
    (armed : stream.kindAhead = none) {err : Err}
    (ran : stream.list = (.error err, next)) : stream.Refused err next := by
  rw [Stream.list] at ran
  rcases outcome : stream.kind with ⟨result, after⟩
  rw [outcome] at ran
  cases result with
  | error kindErr =>
      simp only [Prod.mk.injEq, Except.error.injEq] at ran
      obtain ⟨rfl, rfl⟩ := ran
      exact refused_of_kind sound armed outcome
  | ok found =>
      obtain ⟨kind, size⟩ := found
      cases kind with
      | list => simp at ran
      | byte | string =>
          simp only [Prod.mk.injEq, Except.error.injEq] at ran
          exact .inr (ran.1 ▸ by decide)

theorem opened_sound {stream : Stream} (sound : stream.Sound) {size : Nat}
    {rest : List Byte} (content : stream.window = puthead 0xC0 0xF7 size ++ rest)
    (room : size ≤ rest.length) : (stream.opened size).Sound := by
  have behind := headed_sound sound .list 0 content
  have payload := window_headed .list 0 content
  have left := behind.window_length
  have available := behind.avail_le
  have fit := behind.fit
  have owed := behind.owed
  have bounded := behind.bounded
  rw [payload] at left
  have stackKept : (stream.headed .list size 0).stack =
      advanceTop (puthead 0xC0 0xF7 size).length stream.stack := rfl
  refine ⟨behind.limited, behind.remaining, behind.bounded, ?_, ?_⟩
  · refine ⟨by simp, by dsimp only; omega, ?_⟩
    rw [stackKept] at fit
    rw [avail, stackKept] at left
    cases frames : advanceTop (puthead 0xC0 0xF7 size).length stream.stack with
    | nil => trivial
    | cons top outer =>
        rw [frames] at fit left
        simp only [FramesFit] at fit
        exact ⟨by dsimp only at left ⊢; omega, fit.2⟩
  · change owedBelow 0 (⟨0, size⟩ ::
      advanceTop (puthead 0xC0 0xF7 size).length stream.stack) ≤ _
    rw [stackKept] at owed fit
    rw [avail, stackKept] at left available
    have limit : (stream.opened size).remaining =
        (stream.headed .list size 0).remaining := rfl
    have total := behind.remaining
    rw [limit]
    cases frames : advanceTop (puthead 0xC0 0xF7 size).length stream.stack with
    | nil =>
        rw [frames] at left
        simp only [owedBelow]
        dsimp only at left
        omega
    | cons top outer =>
        rw [frames] at owed left fit
        simp only [owedBelow, FramesFit] at owed fit ⊢
        dsimp only at left
        omega

theorem window_opened {stream : Stream} (sound : stream.Sound) {size : Nat}
    {rest : List Byte} (content : stream.window = puthead 0xC0 0xF7 size ++ rest)
    (room : size ≤ rest.length) : (stream.opened size).window = rest.take size := by
  have payload := window_headed .list 0 content
  have left := (headed_sound sound .list 0 content).window_length
  rw [payload] at left
  have inner : (stream.opened size).avail = size := by simp [avail, opened]
  have input : (stream.opened size).input = (stream.headed .list size 0).input := rfl
  rw [window, inner, input, ← payload, window, List.take_take, ← left,
    Nat.min_eq_left room]

/-- Closing a list succeeds exactly when all of it has been read, and then the
enclosing list has moved on by the whole item. -/
theorem listEnd_opened {stream last : Stream} (sound : stream.Sound)
    {size count : Nat} {rest : List Byte}
    (content : stream.window = puthead 0xC0 0xF7 size ++ rest)
    (room : size ≤ rest.length) (inner : (stream.opened size).Advanced count last) :
    (count = size ∧ ∃ next, last.listEnd = (.ok (), next) ∧
      stream.Advanced ((puthead 0xC0 0xF7 size).length + size) next) ∨
    (count ≠ size ∧ last.listEnd = (.error .notAtEOL, last)) := by
  have frames : last.stack = ⟨count, size⟩ ::
      advanceTop (puthead 0xC0 0xF7 size).length stream.stack := by
    rw [inner.stack]
    simp [opened, advanceTop]
  by_cases complete : count = size
  · refine .inl ⟨complete, ?_⟩
    subst complete
    have length := sound.window_length
    rw [content, List.length_append] at length
    have fit := (headed_sound sound .list 0 content).fit
    have payload := window_headed .list 0 content
    have left := (headed_sound sound .list 0 content).window_length
    rw [payload] at left
    simp only [listEnd, frames, ne_eq, not_true_eq_false, if_false]
    refine ⟨_, rfl, by omega, ?_, ?_, inner.limited, ?_, rfl⟩
    · simp [inner.input, opened, headed, Stream.advance, List.drop_drop, headOf]
    · simp [inner.remaining, opened, headed, Stream.advance, headOf, Nat.sub_sub]
    · cases outer : stream.stack with
      | nil => rfl
      | cons top below =>
          have placed : (stream.headed .list count 0).stack =
              ⟨top.pos + (puthead 0xC0 0xF7 count).length, top.size⟩ :: below := by
            simp [headed, Stream.advance, outer, advanceTop, headOf]
          rw [placed] at fit
          rw [avail, placed] at left
          simp only [FramesFit, maxLen] at fit
          dsimp only at left
          simp only [advanceTop]
          rw [addUint64_of_lt (by omega), Nat.add_assoc]
  · refine .inr ⟨complete, ?_⟩
    rw [listEnd, frames]
    simp [complete]

/-- `inner` is the stream inside the list of `size` bytes that stands next, with
`rest` behind its header. -/
structure Opens (stream : Stream) (size : Nat) (rest : List Byte) (inner : Stream) :
    Prop where
  content : stream.window = puthead 0xC0 0xF7 size ++ rest
  room : size ≤ rest.length
  sound : inner.Sound
  armed : inner.kindAhead = none
  nested : inner.stack ≠ []
  window : inner.window = rest.take size
  avail : inner.avail = size
  within : size < stream.avail
  closes : ∀ {count last}, inner.Advanced count last →
    (count = size ∧ ∃ next, last.listEnd = (.ok (), next) ∧
      stream.Advanced ((puthead 0xC0 0xF7 size).length + size) next) ∨
    (count ≠ size ∧ last.listEnd = (.error .notAtEOL, last))

theorem bytes_ends {stream : Stream} (sound : stream.Sound)
    (armed : stream.kindAhead = none) (atEnd : stream.AtEnd) :
    ∃ next, stream.bytes = (.error .eol, next) ∧ stream.Advanced 0 next := by
  obtain ⟨next, ran, stayed⟩ := kind_ends sound armed atEnd
  exact ⟨next, by rw [Stream.bytes, ran], stayed⟩

theorem uint_ends (maxbits : Nat) {stream : Stream} (sound : stream.Sound)
    (armed : stream.kindAhead = none) (atEnd : stream.AtEnd) :
    ∃ next, stream.uint maxbits = (.error .eol, next) ∧ stream.Advanced 0 next := by
  obtain ⟨next, ran, stayed⟩ := kind_ends sound armed atEnd
  exact ⟨next, by rw [Stream.uint, ran], stayed⟩

theorem bool_ends {stream : Stream} (sound : stream.Sound)
    (armed : stream.kindAhead = none) (atEnd : stream.AtEnd) :
    ∃ next, stream.bool = (.error .eol, next) ∧ stream.Advanced 0 next := by
  obtain ⟨next, ran, stayed⟩ := uint_ends 8 sound armed atEnd
  exact ⟨next, by rw [Stream.bool, ran], stayed⟩

theorem list_ends {stream : Stream} (sound : stream.Sound)
    (armed : stream.kindAhead = none) (atEnd : stream.AtEnd) :
    ∃ next, stream.list = (.error .eol, next) ∧ stream.Advanced 0 next := by
  obtain ⟨next, ran, stayed⟩ := kind_ends sound armed atEnd
  exact ⟨next, by rw [Stream.list, ran], stayed⟩

private theorem opens_opened {stream : Stream} (sound : stream.Sound) {size : Nat}
    {rest : List Byte} (content : stream.window = puthead 0xC0 0xF7 size ++ rest)
    (room : size ≤ rest.length) : stream.Opens size rest (stream.opened size) where
  content := content
  room := room
  sound := opened_sound sound content room
  armed := rfl
  nested := by simp [opened]
  window := window_opened sound content room
  avail := by simp [avail, opened]
  within := by
    have length := sound.window_length
    have nonempty := List.length_pos_iff.mpr (puthead_ne_nil 0xC0 0xF7 size)
    rw [content, List.length_append] at length
    omega
  closes moved := listEnd_opened sound content room moved

theorem list_opens {stream inner : Stream} (sound : stream.Sound)
    (armed : stream.kindAhead = none) {size : Nat}
    (ran : stream.list = (.ok size, inner)) : ∃ rest, stream.Opens size rest inner := by
  obtain ⟨⟨rest, content, room⟩, rfl⟩ := (list_eq_ok_iff sound armed).mp ran
  exact ⟨rest, opens_opened sound content room⟩

theorem list_complete {stream : Stream} (sound : stream.Sound)
    (armed : stream.kindAhead = none) {size : Nat} {rest : List Byte}
    (content : stream.window = puthead 0xC0 0xF7 size ++ rest)
    (room : size ≤ rest.length) :
    ∃ inner, stream.list = (.ok size, inner) ∧ stream.Opens size rest inner :=
  ⟨_, (list_eq_ok_iff sound armed).mpr ⟨⟨rest, content, room⟩, rfl⟩,
    opens_opened sound content room⟩

end Bclib.Rlp.Stream
