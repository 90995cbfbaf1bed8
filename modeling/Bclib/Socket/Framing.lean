import Bclib.Socket.Message

namespace Bclib.Socket

open Data

/-! Messages one after another on a connection.  The reader is given by the bytes it has not
handed out yet. -/

/-- The copy in package `types` of the ABCI, where the payload is unmarshalled. -/
def abciReadProtoMsg (unmarshal : List Byte → Except String μ) (maxSize : Int)
    (input : List Byte) : Except (ReadError ⊕ String) (μ × List Byte) :=
  match readProtoMsg maxSize input with
  | .error err => .error (.inl err)
  | .ok (buf, rest) =>
      match unmarshal buf with
      | .error err => .error (.inr err)
      | .ok msg => .ok (msg, rest)

theorem abciReadProtoMsg_eq_ok_iff {unmarshal : List Byte → Except String μ} {maxSize : Int}
    {input rest : List Byte} {msg : μ} :
    abciReadProtoMsg unmarshal maxSize input = .ok (msg, rest) ↔
      ∃ payload, readProtoMsg maxSize input = .ok (payload, rest) ∧
        unmarshal payload = .ok msg := by
  rw [abciReadProtoMsg]
  cases read : readProtoMsg maxSize input with
  | error err => simp
  | ok result =>
      cases done : unmarshal result.1 with
      | error err => simp +contextual [done, Prod.ext_iff]
      | ok value => simp [done, Prod.ext_iff, and_comm]

def readProtoMsgs (maxSize : Int) : Nat → List Byte →
    Except ReadError (List (List Byte) × List Byte)
  | 0, input => .ok ([], input)
  | count + 1, input =>
      match readProtoMsg maxSize input with
      | .error err => .error err
      | .ok (payload, rest) =>
          match readProtoMsgs maxSize count rest with
          | .error err => .error err
          | .ok (payloads, rest) => .ok (payload :: payloads, rest)

theorem readProtoMsgs_flatMap {payloads : List (List Byte)}
    (fit : ∀ payload ∈ payloads, payload.length ≤ maxMsgSize) (rest : List Byte) :
    readProtoMsgs maxMsgSize payloads.length (payloads.flatMap encodeByteSlice ++ rest) =
      .ok (payloads, rest) := by
  induction payloads with
  | nil => rfl
  | cons payload others ih =>
      rw [List.forall_mem_cons] at fit
      have first := readMessage_encodeByteSlice fit.1 (others.flatMap encodeByteSlice ++ rest)
      rw [readMessage] at first
      rw [List.flatMap_cons, List.append_assoc, List.length_cons, readProtoMsgs, first]
      simp only [ih fit.2]

/-- A payload of a permitted length stands behind its length, and the reader just after it. -/
structure Framed (maxSize : Int) (input payload rest : List Byte) : Prop where
  atLength : ∃ front, input = front ++ payload ++ rest ∧
    ∀ other, Varint.readVarint (front ++ other) = .ok ((payload.length : Int), other)
  fits : (payload.length : Int) ≤ maxSize

theorem framed_of_readProtoMsg {maxSize : Int} {input payload rest : List Byte}
    (read : readProtoMsg maxSize input = .ok (payload, rest)) :
    Framed maxSize input payload rest := by
  rw [readProtoMsg] at read
  split at read
  · cases read
  · cases read
  · rename_i length later found
    split_ifs at read with range short
    cases read
    obtain ⟨front, rfl, again⟩ := Varint.readVarint_front found
    have total : ((later.take length.toNat).length : Int) = length := by
      rw [List.length_take]
      omega
    refine ⟨⟨front, ?_, ?_⟩, ?_⟩
    · rw [List.append_assoc, List.take_append_drop]
    · rw [total]
      exact again
    · omega

/-- What was framed is read back in order, and then the end of the input; and a call on any
bytes returns an error or a framed payload. -/
theorem readProtoMsg_frames {payloads : List (List Byte)}
    (fit : ∀ payload ∈ payloads, payload.length ≤ maxMsgSize) :
    readProtoMsgs maxMsgSize payloads.length (payloads.flatMap encodeByteSlice) =
        .ok (payloads, []) ∧
      readProtoMsg maxMsgSize [] = .error .eof ∧
      ∀ input, (∃ err, readProtoMsg maxMsgSize input = .error err) ∨
        ∃ payload rest, readProtoMsg maxMsgSize input = .ok (payload, rest) ∧
          Framed maxMsgSize input payload rest := by
  refine ⟨?_, rfl, fun input => ?_⟩
  · have whole := readProtoMsgs_flatMap fit []
    rwa [List.append_nil] at whole
  · cases read : readProtoMsg maxMsgSize input with
    | error err => exact .inl ⟨err, rfl⟩
    | ok result => exact .inr ⟨result.1, result.2, rfl, framed_of_readProtoMsg read⟩

theorem readProtoMsg_frames_empty :
    (∀ payload ∈ [[], [1, 2], []], payload.length ≤ maxMsgSize) ∧
      readProtoMsgs maxMsgSize 3 ([[], [1, 2], []].flatMap encodeByteSlice) =
        .ok ([[], [1, 2], []], []) :=
  ⟨by decide, (@readProtoMsg_frames [[], [1, 2], []] (by decide)).1⟩

end Bclib.Socket
