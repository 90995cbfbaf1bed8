import Bclib.Data.BigEndian

namespace Bclib.Go

open Data

/-! A `bufio.Writer` on a connection. -/

/-- What was written to the connection and is not read yet, and what the writer holds back. -/
structure Pipe where
  wire : List Byte
  held : List Byte
  deriving DecidableEq, Repr

namespace Pipe

def defaultBufSize : Nat := 4096

/-- `Write`: what is handed to the connection, and what is held back then. -/
def spill (held bytes : List Byte) : List Byte × List Byte :=
  let available := defaultBufSize - held.length
  if bytes.length ≤ available then ([], held ++ bytes)
  else if held = [] then (bytes, [])
  -- the buffer is filled up and flushed, and the loop goes on with an empty one
  else if (bytes.drop available).length ≤ defaultBufSize then
    (held ++ bytes.take available, bytes.drop available)
  else (held ++ bytes.take available ++ bytes.drop available, [])

theorem spill_append (held bytes : List Byte) :
    (spill held bytes).1 ++ (spill held bytes).2 = held ++ bytes := by
  rw [spill]
  split_ifs with room empty
  · rfl
  · rw [empty, List.append_nil, List.nil_append]
  · rw [List.append_assoc, List.take_append_drop]
  · rw [List.append_nil, List.append_assoc, List.take_append_drop]

def write (pipe : Pipe) (bytes : List Byte) : Pipe :=
  ⟨pipe.wire ++ (spill pipe.held bytes).1, (spill pipe.held bytes).2⟩

def Spills (pipe : Pipe) (bytes : List Byte) : Prop := (spill pipe.held bytes).1 ≠ []

instance (pipe : Pipe) (bytes : List Byte) : Decidable (pipe.Spills bytes) :=
  inferInstanceAs (Decidable (_ ≠ _))

def flush (pipe : Pipe) : Pipe := ⟨pipe.wire ++ pipe.held, []⟩

def all (pipe : Pipe) : List Byte := pipe.wire ++ pipe.held

@[simp] theorem all_write (pipe : Pipe) (bytes : List Byte) :
    (pipe.write bytes).all = pipe.all ++ bytes := by
  rw [all, write, all, List.append_assoc, spill_append, List.append_assoc]

@[simp] theorem all_flush (pipe : Pipe) : pipe.flush.all = pipe.all := List.append_nil _

end Pipe

end Bclib.Go
