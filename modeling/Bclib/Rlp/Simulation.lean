import Bclib.Rlp.Execute
import Bclib.Rlp.ParseSpec

namespace Bclib.Rlp

open Data
open Go

/-! The decoder is the parser followed by the store. -/

/-- What a failed decoding leaves in memory matters only at the end of a list,
where it is nothing. -/
structure Simulates (fuel : Nat) (dec : Decoder α) (parser : Parser ι)
    (set : Store ι α) : Prop where
  accepts : ∀ {stream next : Stream} {item : ι} (heap : Heap) (cell : α),
    stream.Sound → stream.kindAhead = none → stream.avail < fuel →
    parser stream = (.ok item, next) →
    dec stream heap cell = ⟨none, next, (set item heap cell).1, (set item heap cell).2⟩
  refuses : ∀ {stream next : Stream} {err : Err} (heap : Heap) (cell : α),
    stream.Sound → stream.kindAhead = none → stream.avail < fuel →
    parser stream = (.error err, next) →
    (dec stream heap cell).err = some err ∧ (dec stream heap cell).stream = next
  ends : ∀ {stream next : Stream} (heap : Heap) (cell : α),
    stream.Sound → stream.kindAhead = none → stream.AtEnd →
    parser stream = (.error .eol, next) →
    dec stream heap cell = ⟨some .eol, next, heap, cell⟩

theorem Executes.simulates {fuel : Nat} {dec : Decoder α} {parser : Parser ι} {set : Store ι α}
    (executes : Executes dec parser set) (quiet : Quiet dec) (heads : Heads parser) :
    Simulates fuel dec parser set where
  accepts heap cell _ _ _ ran := executes.accepts ran heap cell
  refuses heap cell _ _ _ ran := executes.refuses ran heap cell
  ends heap cell _ _ _ ran := executes.ends quiet heads ran heap cell

mutual
theorem place_eq_store : (type : GoType) → codable type = true → place type {} = store type
  | .uint _, _ => rfl
  | .int _, _ => rfl
  | .bool, _ => rfl
  | .string, _ => rfl
  | .bigInt, _ => rfl
  | .number, _ => rfl
  | .slice elem, plain => by
      rw [place, store, place_eq_store elem plain]
      cases bytes : elem.isByte with
      | true =>
          obtain rfl := GoType.eq_byte_of_isByte bytes
          rfl
      | false => rw [taggedSliceStore_of_not_byte false bytes, sliceStore_of_not_byte bytes]; rfl
  | .array length elem, plain => by
      rw [codable, Bool.and_eq_true] at plain
      rw [place, store, place_eq_store elem plain.1]
  | .struct fields, plain => by rw [place, store, placeFields_eq_storeFields fields plain]
  | .ptr elem, plain => by rw [place, store, place_eq_store elem plain]
  | .map key elem, plain => by
      rw [codable, Bool.and_eq_true] at plain
      rw [place, store, place_eq_store key plain.1, place_eq_store elem plain.2]

theorem placeFields_eq_storeFields : (fields : Fields) → codableFields fields = true →
    placeFields fields = storeFields fields
  | .nil, _ => rfl
  | .cons _ tags type rest, plain => by
      simp only [codableFields, Bool.and_eq_true, decide_eq_true_eq] at plain
      obtain ⟨⟨rfl, typePlain⟩, restPlain⟩ := plain
      rw [placeFields, storeFields, place_eq_store type typePlain,
        placeFields_eq_storeFields rest restPlain]
end

theorem makeDecoder_simulates (fuel : Nat) (type : GoType) (plain : codable type = true) :
    Simulates fuel (makeDecoder fuel type {}) (parse fuel type {}) (store type) := by
  have executes := makeDecoder_executes fuel type {}
  rw [place_eq_store type plain] at executes
  exact executes.simulates (makeDecoder_quiet fuel type) (parse_heads fuel type {})

theorem decodeBytesInto_accepts {fuel : Nat} {dec : Decoder α} {parser : Parser ι}
    {set : Store ι α} (simulates : Simulates fuel dec parser set) {type : GoType}
    {b : List Byte} {item : ι} (short : b.length < maxLen) (enough : b.length < fuel)
    (heap : Heap) (cell : α) (ran : parseBytes type parser b = .ok item) :
    (decodeBytesInto type dec b heap cell).err = none ∧
      (decodeBytesInto type dec b heap cell).heap = (set item heap cell).1 ∧
      (decodeBytesInto type dec b heap cell).cell = (set item heap cell).2 := by
  rcases outcome : parser (newStream b b.length) with ⟨err | found, next⟩
  · simp [parseBytes, outcome] at ran
  · have decoded := simulates.accepts heap cell (newStream_sound short) rfl
      (by rw [newStream_avail]; exact enough) outcome
    simp only [parseBytes, outcome] at ran
    split_ifs at ran with trailing
    cases ran
    simp only [decodeBytesInto, decoded, if_neg trailing, and_self]

theorem decodeBytesInto_refuses {fuel : Nat} {dec : Decoder α} {parser : Parser ι}
    {set : Store ι α} (simulates : Simulates fuel dec parser set) {type : GoType}
    {b : List Byte} {err : Err} (short : b.length < maxLen) (enough : b.length < fuel)
    (heap : Heap) (cell : α) (ran : parseBytes type parser b = .error err) :
    (decodeBytesInto type dec b heap cell).err = some err := by
  rcases outcome : parser (newStream b b.length) with ⟨inner | found, next⟩
  · obtain ⟨failed, _⟩ := simulates.refuses heap cell (newStream_sound short) rfl
      (by rw [newStream_avail]; exact enough) outcome
    simp only [parseBytes, outcome, Except.error.injEq] at ran
    simp only [decodeBytesInto, failed, ran]
  · have decoded := simulates.accepts heap cell (newStream_sound short) rfl
      (by rw [newStream_avail]; exact enough) outcome
    simp only [parseBytes, outcome] at ran
    split_ifs at ran with trailing
    cases ran
    simp only [decodeBytesInto, decoded, if_pos trailing]

end Bclib.Rlp
