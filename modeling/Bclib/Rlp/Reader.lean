import Bclib.Rlp.RoundTrip

namespace Bclib.Rlp

open Data
open Go

/-! `Decode` from a reader: one value from the front of the data. -/

/-- `Decode` from a `bytes.Reader` into a fresh variable: its error, and what the
variable holds afterwards.  Data behind the value stays in the reader.  A panic
inside the decoder is not an error the caller sees. -/
def decode (type : GoType) (b : List Byte) : Except Err (Option Err × Value type) :=
  let decoded := makeDecoder (b.length + 1) type {} (newStream b 0) .empty (zeroCell type)
  match decoded.err with
  | some .panic => .error .panic
  | some .outOfFuel => .error .outOfFuel
  | err => .ok (err.map fun err => addTarget err type, load decoded.heap type decoded.cell)

section Reader

variable {type : GoType} {b : List Byte}

theorem decode_of_parse (plain : codable type = true) (noMaps : mapFree type = true)
    (short : b.length < maxLen) {item : Item type} {next : Stream}
    (ran : parse (b.length + 1) type {} (newStream b 0) = (.ok item, next)) :
    decode type b = .ok (none, denote type item) := by
  obtain ⟨sound, room, -⟩ := newStream_ready short
  have present := ((parse_reads _ type plain).accepts sound rfl room ran).1
  have stored := store_stores type (scalarKeys_of_mapFree type noMaps) item present
    (unshared_of_mapFree type noMaps item) .empty (zeroCell type) Heap.tidy_empty
    (clean_zeroCell _ type)
  simp only [decode, (makeDecoder_simulates _ type plain).accepts .empty (zeroCell type)
    sound rfl room ran, stored.loads, Option.map_none]

private theorem decode_of_parse_error (plain : codable type = true)
    (short : b.length < maxLen) {err : Err} {next : Stream}
    (ran : parse (b.length + 1) type {} (newStream b 0) = (.error err, next)) :
    ∃ value, decode type b = .ok (some (addTarget err type), value) := by
  obtain ⟨sound, room, -⟩ := newStream_ready short
  have reported := ((makeDecoder_simulates _ type plain).refuses .empty (zeroCell type)
    sound rfl room ran).1
  have ordinary : err.Ordinary := by
    rcases (parse_reads _ type plain).refuses sound rfl room ran with ⟨-, atEnd, -⟩ | ordinary
    · exact absurd rfl atEnd.1
    · exact ordinary
  simp only [decode, reported]
  obtain ⟨-, noPanic, noFuel⟩ := ordinary
  cases err <;> first | exact ⟨_, rfl⟩ | contradiction

theorem decode_total (plain : codable type = true) (noMaps : mapFree type = true)
    (short : b.length < maxLen) : ∃ err value, decode type b = .ok (err, value) := by
  rcases ran : parse (b.length + 1) type {} (newStream b 0) with ⟨err | item, next⟩
  · obtain ⟨value, failed⟩ := decode_of_parse_error plain short ran
    exact ⟨_, value, failed⟩
  · exact ⟨none, _, decode_of_parse plain noMaps short ran⟩

theorem decode_append (plain : codable type = true) (noMaps : mapFree type = true)
    {value : Value type} (solid : Solid type value) (rest : List Byte)
    (short : (itemBytes type (itemOf type value) ++ rest).length < maxLen) :
    decode type (itemBytes type (itemOf type value) ++ rest) = .ok (none, value) := by
  obtain ⟨sound, room, window⟩ := newStream_ready short
  obtain ⟨next, ran, -⟩ := (parse_reads _ type plain).complete sound rfl room
    (Solid.present type value solid) window
  rw [decode_of_parse plain noMaps short ran,
    SameValue.eq type noMaps (Solid.sameValue type (scalarKeys_of_mapFree type noMaps)
      value solid)]

theorem decode_front (plain : codable type = true) (noMaps : mapFree type = true)
    (noNumbers : numberFree type = true) (short : b.length < maxLen) {value : Value type}
    (fine : decode type b = .ok (none, value)) :
    Solid type value ∧ ∃ rest, b = itemBytes type (itemOf type value) ++ rest := by
  obtain ⟨sound, room, window⟩ := newStream_ready short
  rcases ran : parse (b.length + 1) type {} (newStream b 0) with ⟨err | item, next⟩
  · obtain ⟨other, failed⟩ := decode_of_parse_error plain short ran
    rw [failed] at fine
    cases fine
  · rw [decode_of_parse plain noMaps short ran] at fine
    obtain rfl : denote type item = value := by
      injection fine with same
      exact (Prod.mk.inj same).2
    obtain ⟨present, _, -, -, strictly⟩ :=
      (parse_reads _ type plain).accepts sound rfl room ran
    obtain ⟨-, rest, content⟩ := strictly noMaps
    rw [itemOf_denote type noMaps noNumbers item]
    exact ⟨denote_solid type item present, rest, window.symm.trans content⟩

end Reader

end Bclib.Rlp
