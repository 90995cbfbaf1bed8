import Bclib.Rlp.Writers

namespace Bclib.Rlp

open Data
open Go

/-! The other ways out of the buffer: `Encode` hands it to a writer piece by
piece, `EncodeToReader` lets it be read with buffers of any size. -/

/-- An `io.Writer`.  `taken` are the bytes it has accepted so far; a call that
accepts fewer bytes than it was given returns an error. -/
structure Sink (σ ε : Type) where
  write : σ → List Byte → σ × Nat × Option ε
  taken : σ → List Byte
  count_le : ∀ state bytes, (write state bytes).2.1 ≤ bytes.length
  count_eq : ∀ state bytes, (write state bytes).2.2 = none →
    (write state bytes).2.1 = bytes.length
  taken_write : ∀ state bytes, taken (write state bytes).1 =
    taken state ++ bytes.take (write state bytes).2.1

/-- A `bytes.Buffer`, which takes everything. -/
def bytesBuffer : Sink (List Byte) Empty where
  write := fun state bytes => (state ++ bytes, bytes.length, none)
  taken := id
  count_le := fun _ _ => Nat.le_refl _
  count_eq := fun _ _ _ => rfl
  taken_write := fun state bytes => by rw [List.take_length]; rfl

namespace Encbuf

/-- The loop of `toWriter` from string position `strpos` on. -/
def toWriterFrom (out : Sink σ ε) (str : List Byte) :
    Nat → List ListHead → σ → σ × Option ε
  | strpos, [], state =>
      if strpos < str.length then
        let (state, _, err) := out.write state (str.drop strpos)
        (state, err)
      else
        (state, none)
  | strpos, head :: heads, state =>
      let (state, n, err) :=
        if strpos < head.offset then
          out.write state ((str.take head.offset).drop strpos)
        else
          (state, 0, none)
      match err with
      | some err => (state, some err)
      | none =>
          let (state, _, err) := out.write state head.encode
          match err with
          | some err => (state, some err)
          | none => toWriterFrom out str (strpos + n) heads state

def toWriter (out : Sink σ ε) (w : Encbuf) (state : σ) : σ × Option ε :=
  toWriterFrom out w.str 0 w.lheads state

end Encbuf

/-- `Encode`: the error is the encoder's own or the one of the writer. -/
def encode (out : Sink σ ε) (type : GoType) (value : Value type) (state : σ) :
    σ × Option (Err ⊕ ε) :=
  match makeWriter type {} value .reset with
  | .error err => (state, some (.inl err))
  | .ok w =>
      let (state, err) := w.toWriter out state
      (state, err.map .inr)

/-- The reader of `EncodeToReader`; `buf` is given up at the end of the data. -/
structure EncReader where
  buf : Option Encbuf
  lhpos : Nat
  strpos : Nat
  piece : Option (List Byte)
  deriving DecidableEq, Repr

namespace EncReader

def next (r : EncReader) : Option (List Byte) × EncReader :=
  match r.buf, r.piece with
  | none, _ => (none, r)
  | some _, some piece => (some piece, r)
  | some buf, none =>
      match buf.lheads[r.lhpos]? with
      | some head =>
          if r.strpos < head.offset then
            (some ((buf.str.take head.offset).drop r.strpos),
              { r with strpos := head.offset })
          else
            (some head.encode, { r with lhpos := r.lhpos + 1 })
      | none =>
          if r.strpos < buf.str.length then
            (some (buf.str.drop r.strpos), { r with strpos := buf.str.length })
          else
            (none, r)

/-- The loop of `Read` when `room` bytes of the caller's buffer are free: the
bytes it copies and whether it reports the end of the data. -/
def readLoop : Nat → EncReader → Nat → Option (EncReader × List Byte × Bool)
  | 0, _, _ => none
  | fuel + 1, r, room =>
      match r.next with
      | (none, r) => some ({ r with buf := none, piece := none }, [], true)
      | (some piece, r) =>
          if room < piece.length then
            some ({ r with piece := some (piece.drop room) }, piece.take room, false)
          else
            match readLoop fuel { r with piece := none } (room - piece.length) with
            | none => none
            | some (r, copied, eof) => some (r, piece ++ copied, eof)

/-- How often the loop can go round: a pending piece, two pieces for a list
header, the string data behind the last one and the end. -/
def rounds (r : EncReader) : Nat :=
  match r.buf with
  | none => 1
  | some buf => 2 * buf.lheads.length + 3

def read (r : EncReader) (size : Nat) : Option (EncReader × List Byte × Bool) :=
  readLoop r.rounds r size

def reads : EncReader → List Nat → Option (List (List Byte × Bool))
  | _, [] => some []
  | r, size :: sizes =>
      match r.read size with
      | none => none
      | some (r, result) =>
          match reads r sizes with
          | none => none
          | some results => some (result :: results)

end EncReader

/-- `EncodeToReader`: the size of the data and the reader. -/
def encodeToReader (type : GoType) (value : Value type) : Except Err (Nat × EncReader) :=
  match makeWriter type {} value .reset with
  | .error err => .error err
  | .ok w => .ok (w.size, ⟨some w, 0, 0, none⟩)

end Bclib.Rlp
