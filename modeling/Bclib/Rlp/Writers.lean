import Bclib.Rlp.Item

namespace Bclib.Rlp

open Data
open Go

/-! Every writer adds the pieces of its value's item, or refuses the value for a
negative big integer inside it. -/

/-- `body` adds `added` to any buffer if `accepted`, and reports a negative
integer otherwise. -/
structure Writes (body : Encbuf → Except Err Encbuf) (added : List Piece)
    (accepted : Prop) : Prop where
  short : ∀ piece ∈ added, piece.Short
  adds : accepted → ∀ w, body w = .ok (w.addAll added)
  refuses : ¬ accepted → ∀ w, body w = .error .negativeBigInt

namespace Writes

theorem data {body : Encbuf → Except Err Encbuf} {bytes : List Byte}
    (wrote : ∀ w, body w = .ok (w.write bytes)) :
    Writes body [.data bytes] True := by
  refine ⟨?_, fun _ => wrote, fun refused => absurd trivial refused⟩
  intro piece member
  rw [List.mem_singleton.mp member]
  trivial

theorem nothing : Writes .ok [] True :=
  ⟨by simp, fun _ _ => rfl, fun refused => absurd trivial refused⟩

theorem congr {body : Encbuf → Except Err Encbuf} {added : List Piece}
    {accepted other : Prop} (writes : Writes body added accepted)
    (same : other ↔ accepted) : Writes body added other :=
  ⟨writes.short, fun holds => writes.adds (same.mp holds),
    fun fails => writes.refuses (fun holds => fails (same.mpr holds))⟩

theorem of_eq {body other : Encbuf → Except Err Encbuf} {added : List Piece}
    {accepted : Prop} (writes : Writes body added accepted)
    (same : ∀ w, other w = body w) : Writes other added accepted :=
  (funext same : other = body) ▸ writes

theorem seq {first second : Encbuf → Except Err Encbuf} {before after : List Piece}
    {left right : Prop} (head : Writes first before left)
    (tail : Writes second after right) :
    Writes
      (fun w => match first w with
        | .error err => .error err
        | .ok w => second w)
      (before ++ after) (left ∧ right) := by
  refine ⟨?_, ?_, ?_⟩
  · intro piece member
    rcases List.mem_append.mp member with early | late
    · exact head.short piece early
    · exact tail.short piece late
  · rintro ⟨leftHolds, rightHolds⟩ w
    simp only [head.adds leftHolds, tail.adds rightHolds, Encbuf.addAll_append]
  · intro refused w
    by_cases leftHolds : left
    · have rightFails : ¬ right := fun rightHolds => refused ⟨leftHolds, rightHolds⟩
      simp only [head.adds leftHolds, tail.refuses rightFails]
    · simp only [head.refuses leftHolds]

theorem elems {writer : Writer α} {added : α → List Piece} {accepted : α → Prop}
    {values : List α}
    (each : ∀ value ∈ values, Writes (writer value) (added value) (accepted value)) :
    Writes (writeElems writer values) (values.flatMap added)
      (∀ value ∈ values, accepted value) := by
  induction values with
  | nil => exact nothing.congr (by simp)
  | cons value rest ih =>
      have tail := ih (fun other member => each other (by simp [member]))
      exact ((each value (by simp)).seq tail).congr (by simp)

theorem list {body : Encbuf → Except Err Encbuf} {added : List Piece}
    {accepted : Prop} (writes : Writes body added accepted)
    (fits : (render added).length < maxLen) :
    Writes (inList body) (listPieces added) accepted := by
  refine ⟨?_, ?_, ?_⟩
  · intro piece member
    rcases List.mem_cons.mp member with rfl | inside
    · unfold maxLen at fits
      simp only [Piece.Short]
      omega
    · exact writes.short piece inside
  · intro holds w
    simp only [inList, writes.adds holds, Encbuf.listEnd_list_addAll w writes.short]
  · intro fails w
    simp only [inList, writes.refuses fails]

theorem bytes {body : Encbuf → Except Err Encbuf} {added : List Piece}
    {accepted : Prop} (writes : Writes body added accepted) (holds : accepted)
    (fits : (render added).length < maxLen) : encodeWith body = .ok (render added) := by
  have size : (Encbuf.reset.addAll added).size = (render added).length := by
    rw [Encbuf.size_addAll _ writes.short]
    simp [Encbuf.reset, Encbuf.size]
  simp only [encodeWith, writes.adds holds, size, Encbuf.toBytes_reset_addAll]
  exact if_neg (Nat.not_le.mpr fits)

theorem noBytes {body : Encbuf → Except Err Encbuf} {added : List Piece}
    {accepted : Prop} (writes : Writes body added accepted) (fails : ¬ accepted) :
    encodeWith body = .error .negativeBigInt := by
  simp only [encodeWith, writes.refuses fails]

end Writes

theorem Encbuf.encodeStringHeader_eq (w : Encbuf) (size : Nat) :
    w.encodeStringHeader size = w.write (puthead 0x80 0xB7 size) := by
  unfold encodeStringHeader puthead
  split_ifs <;> rfl

theorem Encbuf.encodeString_eq (w : Encbuf) (bytes : List Byte) :
    w.encodeString bytes = w.write (wireString bytes) := by
  unfold encodeString wireString
  by_cases single : IsSingle bytes
  · obtain ⟨byte, rfl, small⟩ := isSingle_iff.mp single
    rw [if_pos single, if_pos ⟨rfl, Nat.le_of_lt_succ small⟩]
    rfl
  · have headed : ¬ (bytes.length = 1 ∧ (bytes.headD 0).toNat ≤ 0x7F) :=
      fun both => single ⟨both.1, Nat.lt_succ_of_le both.2⟩
    rw [if_neg single, if_neg headed, encodeStringHeader_eq]
    simp [write]

theorem writeIntBytes_eq {number : Nat} {i : Byte} (fits : number < 2 ^ 64)
    (low : number < 128 → i.toNat = number) (w : Encbuf) :
    writeIntBytes number i w = w.write (wireUint number) := by
  rw [writeIntBytes, wireUint]
  split_ifs with zero small
  · subst zero
    rfl
  · have digits : bigEndian number = [i] := by
      rw [bigEndian_of_lt (Nat.pos_of_ne_zero zero) (by omega), ← low small]
      simp
    rw [digits, wireString_of_single (by rw [low small]; exact small)]
  · have minimal := putint_eq_bigEndian (Nat.pos_of_ne_zero zero) fits
    have short := putint_length_le number
    have headed : ¬ IsSingle (bigEndian number) := by
      rintro ⟨one, below⟩
      obtain ⟨byte, digits⟩ := List.length_eq_one_iff.mp one
      rw [digits] at below
      have denoted := ofBigEndian_bigEndian number
      rw [digits, ofBigEndian_singleton] at denoted
      exact small (denoted ▸ below)
    rw [wireString_of_not_single headed, puthead, ← minimal, if_pos (by omega)]
    rfl

theorem render_length_le_of_mem (added : α → List Piece) {values : List α} {value : α}
    (member : value ∈ values) :
    (render (added value)).length ≤ (render (values.flatMap added)).length := by
  obtain ⟨before, after, rfl⟩ := List.append_of_mem member
  simp only [List.flatMap_append, List.flatMap_cons, render_append, List.length_append]
  omega

theorem encodeByteSlices_eq {values : List (List Byte)}
    (fits : (wireList (values.flatMap wireString)).length < maxLen) :
    encodeByteSlices values = .ok (wireList (values.flatMap wireString)) := by
  have content : render (values.flatMap fun value => [.data (wireString value)]) =
      values.flatMap wireString := by
    simp [render_flatMap, Piece.bytes]
  have payload := length_lt_wireList (values.flatMap wireString)
  have each : ∀ value ∈ values,
      Writes (writeBytes value) [.data (wireString value)] True := by
    intro value _
    apply Writes.data
    intro w
    rw [writeBytes, Encbuf.encodeString_eq]
  have whole := ((Writes.elems each).list (by rw [content]; omega)).bytes
    (fun _ _ => trivial) (by rw [render_listPieces, content]; exact fits)
  rw [render_listPieces, content] at whole
  exact whole

def entryList (keyBytes elemBytes : List Byte) : List Byte :=
  wireList (wireString keyBytes ++ wireString elemBytes)

theorem entryBytes_eq (keyBytes elemBytes : List Byte) :
    entryBytes keyBytes elemBytes = wireString (entryList keyBytes elemBytes) := rfl

section Maps

variable {keyWriter : Writer α} {elemWriter : Writer β}
variable {keyAdded : α → List Piece} {elemAdded : β → List Piece}
variable {keyAccepted : α → Prop} {elemAccepted : β → Prop}

private theorem entry_parts_fit {keyBytes elemBytes : List Byte}
    (fits : (entryBytes keyBytes elemBytes).length < maxLen) :
    keyBytes.length < maxLen ∧ elemBytes.length < maxLen ∧
      (entryList keyBytes elemBytes).length < maxLen := by
  rw [entryBytes_eq] at fits
  have outer := length_le_wireString (entryList keyBytes elemBytes)
  have inner := length_lt_wireList (wireString keyBytes ++ wireString elemBytes)
  have keyShort := length_le_wireString keyBytes
  have elemShort := length_le_wireString elemBytes
  rw [List.length_append] at inner
  rw [← entryList] at inner
  omega

private theorem encodeEntry_eq {entry : α × β}
    (keyWrites : Writes (keyWriter entry.1) (keyAdded entry.1) (keyAccepted entry.1))
    (elemWrites : Writes (elemWriter entry.2) (elemAdded entry.2)
      (elemAccepted entry.2))
    (fits : (entryBytes (render (keyAdded entry.1))
      (render (elemAdded entry.2))).length < maxLen) :
    (keyAccepted entry.1 ∧ elemAccepted entry.2 →
      encodeEntry keyWriter elemWriter entry =
        .ok (entryList (render (keyAdded entry.1)) (render (elemAdded entry.2)))) ∧
    (¬ (keyAccepted entry.1 ∧ elemAccepted entry.2) →
      encodeEntry keyWriter elemWriter entry = .error .negativeBigInt) := by
  obtain ⟨keyFits, elemFits, listFits⟩ := entry_parts_fit fits
  by_cases keyHolds : keyAccepted entry.1
  · have keyDone := keyWrites.bytes keyHolds keyFits
    by_cases elemHolds : elemAccepted entry.2
    · have elemDone := elemWrites.bytes elemHolds elemFits
      have pair := @encodeByteSlices_eq
        [render (keyAdded entry.1), render (elemAdded entry.2)]
        (by simpa [entryList] using listFits)
      refine ⟨fun _ => ?_, fun fails => absurd ⟨keyHolds, elemHolds⟩ fails⟩
      simpa [encodeEntry, keyDone, elemDone, entryList] using pair
    · have elemFailed := elemWrites.noBytes elemHolds
      refine ⟨fun both => absurd both.2 elemHolds, fun _ => ?_⟩
      simp only [encodeEntry, keyDone, elemFailed]
  · have keyFailed := keyWrites.noBytes keyHolds
    refine ⟨fun both => absurd both.1 keyHolds, fun _ => ?_⟩
    simp only [encodeEntry, keyFailed]

private theorem encodeEntries_eq (entries : List (α × β))
    (keyWrites : ∀ entry ∈ entries,
      Writes (keyWriter entry.1) (keyAdded entry.1) (keyAccepted entry.1))
    (elemWrites : ∀ entry ∈ entries,
      Writes (elemWriter entry.2) (elemAdded entry.2) (elemAccepted entry.2))
    (fits : ∀ entry ∈ entries,
      (entryBytes (render (keyAdded entry.1))
        (render (elemAdded entry.2))).length < maxLen) :
    ((∀ entry ∈ entries, keyAccepted entry.1 ∧ elemAccepted entry.2) →
      encodeEntries keyWriter elemWriter entries =
        .ok (entries.map fun entry =>
          entryList (render (keyAdded entry.1)) (render (elemAdded entry.2)))) ∧
    ((¬ ∀ entry ∈ entries, keyAccepted entry.1 ∧ elemAccepted entry.2) →
      encodeEntries keyWriter elemWriter entries = .error .negativeBigInt) := by
  induction entries with
  | nil => exact ⟨fun _ => rfl, fun fails => absurd (by simp) fails⟩
  | cons entry rest ih =>
      obtain ⟨goes, stops⟩ := encodeEntry_eq (keyWrites entry (by simp))
        (elemWrites entry (by simp)) (fits entry (by simp))
      obtain ⟨restGoes, restStops⟩ := ih
        (fun other member => keyWrites other (by simp [member]))
        (fun other member => elemWrites other (by simp [member]))
        (fun other member => fits other (by simp [member]))
      by_cases first : keyAccepted entry.1 ∧ elemAccepted entry.2
      · constructor
        · intro all
          have others := restGoes (fun other member => all other (by simp [member]))
          simp only [encodeEntries, goes first, others, List.map_cons]
        · intro fails
          have others := restStops (fun all => fails (by
            intro other member
            rcases List.mem_cons.mp member with rfl | later
            · exact first
            · exact all other later))
          simp only [encodeEntries, goes first, others]
      · constructor
        · intro all
          exact absurd (all entry (by simp)) first
        · intro _
          simp only [encodeEntries, stops first]

theorem writeMap_writes {key : GoType} {keyWriter : Writer (Value key)}
    (keyAdded : Value key → List Piece) (elemAdded : β → List Piece)
    (keyAccepted : Value key → Prop) (elemAccepted : β → Prop)
    {entries : List (Value key × β)}
    (keyWrites : ∀ value, (render (keyAdded value)).length < maxLen →
      Writes (keyWriter value) (keyAdded value) (keyAccepted value))
    (elemWrites : ∀ value, (render (elemAdded value)).length < maxLen →
      Writes (elemWriter value) (elemAdded value) (elemAccepted value))
    (fits : (wireList ((sortEntries key entries).flatMap fun entry =>
      entryBytes (render (keyAdded entry.1))
        (render (elemAdded entry.2)))).length < maxLen) :
    Writes (writeMap key keyWriter elemWriter entries)
      [.data (wireString (wireList ((sortEntries key entries).flatMap fun entry =>
        entryBytes (render (keyAdded entry.1)) (render (elemAdded entry.2)))))]
      (∀ entry ∈ entries, keyAccepted entry.1 ∧ elemAccepted entry.2) := by
  have reordered : ∀ {entry}, entry ∈ sortEntries key entries ↔ entry ∈ entries :=
    mem_sortByKey
  have payload := length_lt_wireList ((sortEntries key entries).flatMap fun entry =>
    entryBytes (render (keyAdded entry.1)) (render (elemAdded entry.2)))
  have entryFits : ∀ entry ∈ sortEntries key entries,
      (entryBytes (render (keyAdded entry.1))
        (render (elemAdded entry.2))).length < maxLen := by
    intro entry member
    obtain ⟨before, after, split⟩ := List.append_of_mem member
    rw [split] at payload fits
    simp only [List.flatMap_append, List.flatMap_cons, List.length_append]
      at payload fits
    omega
  obtain ⟨goes, stops⟩ := encodeEntries_eq (sortEntries key entries)
    (fun entry member =>
      keyWrites entry.1 (entry_parts_fit (entryFits entry member)).1)
    (fun entry member =>
      elemWrites entry.2 (entry_parts_fit (entryFits entry member)).2.1)
    entryFits
  have lists : ((sortEntries key entries).map fun entry =>
        entryList (render (keyAdded entry.1)) (render (elemAdded entry.2))).flatMap
          wireString =
      (sortEntries key entries).flatMap fun entry =>
        entryBytes (render (keyAdded entry.1)) (render (elemAdded entry.2)) := by
    rw [List.flatMap_map]
    rfl
  refine ⟨by simp [Piece.Short], ?_, ?_⟩
  · intro holds w
    have packed := goes (fun entry member => holds entry (reordered.mp member))
    have joined := @encodeByteSlices_eq
      ((sortEntries key entries).map fun entry =>
        entryList (render (keyAdded entry.1)) (render (elemAdded entry.2)))
      (by rw [lists]; exact fits)
    simp only [writeMap, packed, joined, lists, Encbuf.encodeString_eq,
      Encbuf.addAll_data]
  · intro fails w
    have failed := stops (fun all => fails
      (fun entry member => all entry (reordered.mpr member)))
    simp only [writeMap, failed]

end Maps

/-! The choice of a writer, for the types the patterns leave to the general case. -/

theorem sliceWriter_of_not_byte (tail : Bool) {elem : GoType}
    (other : elem.isByte = false) (writer : Writer (Value elem)) :
    sliceWriter tail elem writer = makeSliceWriter tail writer := by
  cases elem with
  | uint kind => cases kind <;> first | rfl | simp [GoType.isByte] at other
  | _ => rfl

theorem arrayWriter_of_not_byte (length : Nat) {elem : GoType}
    (other : elem.isByte = false) (writer : Writer (Value elem)) :
    arrayWriter length elem writer =
      fun value => makeSliceWriter false writer value.1 := by
  cases elem with
  | uint kind => cases kind <;> first | rfl | simp [GoType.isByte] at other
  | _ => rfl

theorem slicePieces_of_not_byte (tail : Bool) {elem : GoType}
    (other : elem.isByte = false) (inner : Item elem → List Piece)
    (items : List (Item elem)) :
    slicePieces tail elem inner items =
      if tail then items.flatMap inner else listPieces (items.flatMap inner) := by
  cases elem with
  | uint kind => cases kind <;> first | rfl | simp [GoType.isByte] at other
  | _ => rfl

mutual
theorem nonNegative_zeroValue : (type : GoType) → NonNegative type (zeroValue type)
  | .uint _ | .int _ | .bool | .string | .number | .rawValue => trivial
  | .bigInt => Int.le_refl 0
  | .slice _ => by simp [NonNegative, zeroValue]
  | .array length elem => by
      intro inner member
      rw [List.eq_of_mem_replicate member]
      exact nonNegative_zeroValue elem
  | .struct fields => fieldsNonNegative_zeroValue fields
  | .ptr _ => by simp [NonNegative, zeroValue]
  | .map _ _ => by simp [NonNegative, zeroValue]

theorem fieldsNonNegative_zeroValue :
    (fields : Fields) → FieldsNonNegative fields (zeroFieldValues fields)
  | .nil => trivial
  | .cons _ _ type rest =>
      ⟨nonNegative_zeroValue type, fieldsNonNegative_zeroValue rest⟩
end

private theorem writeInt_eq (kind : IntKind) (value : BitVec kind.bits) (w : Encbuf) :
    writeInt kind value w = .ok (w.write (wireUint value.toNat)) := by
  have width : 8 ≤ kind.bits ∧ kind.bits ≤ 64 := by cases kind <;> decide
  have bound : value.toNat < 2 ^ 64 :=
    Nat.lt_of_lt_of_le value.isLt (Nat.pow_le_pow_right (by decide) width.2)
  have wide : (2 : Nat) ^ 8 ≤ 2 ^ kind.bits := Nat.pow_le_pow_right (by decide) width.1
  have folded : (if value.toInt < 0 then (value.toInt % 2 ^ kind.bits).toNat
      else value.toInt.toNat) = value.toNat := by
    have below := value.isLt
    rw [BitVec.toInt_eq_toNat_cond]
    split_ifs with positive negative negative
    · omega
    · exact Int.toNat_natCast _
    · push_cast
      rw [Int.sub_emod_right, Int.emod_eq_of_lt (by omega) (by exact_mod_cast below),
        Int.toNat_natCast]
    · omega
  have low : value.toNat < 128 → (BitVec.ofInt 8 value.toInt).toNat = value.toNat := by
    intro small
    have positive : value.toInt = value.toNat := by
      rw [BitVec.toInt_eq_toNat_cond, if_pos (by omega)]
    rw [positive, BitVec.ofInt_natCast, BitVec.toNat_ofNat]
    omega
  simp only [writeInt, folded, writeIntBytes_eq bound low]

private theorem writeUint_eq (kind : UintKind) (value : BitVec kind.bits) (w : Encbuf) :
    writeUint kind value w = .ok (w.write (wireUint value.toNat)) := by
  have width : kind.bits ≤ 64 := by cases kind <;> decide
  have bound : value.toNat < 2 ^ 64 :=
    Nat.lt_of_lt_of_le value.isLt (Nat.pow_le_pow_right (by decide) width)
  have low : value.toNat < 128 → (toByte value.toNat).toNat = value.toNat := by
    intro small
    rw [toNat_toByte]
    omega
  simp only [writeUint, writeIntBytes_eq bound low]

private theorem writeBigInt_writes (value : Int) :
    Writes (writeBigInt value) [.data (wireUint value.natAbs)] (0 ≤ value) := by
  refine ⟨by simp [Piece.Short], ?_, ?_⟩
  · intro nonneg w
    rw [writeBigInt, if_neg (by omega), Encbuf.addAll_data]
    split_ifs with zero
    · subst zero
      rfl
    · rw [Encbuf.encodeString_eq, wireUint]
  · intro negative w
    rw [writeBigInt, if_pos (by omega)]

private theorem writeString_eq (value : List Byte) (w : Encbuf) :
    writeString value w = .ok (w.write (wireString value)) := by
  rw [← Encbuf.encodeString_eq, writeString, Encbuf.encodeString]
  split_ifs <;> rfl

private theorem ptrWriter_some (elem : GoType) (value : Value elem) :
    ptrWriter elem (makeWriter elem {}) (some value) = makeWriter elem {} value := by
  cases elem <;> rfl

private theorem ptrWriter_array_none (length : Nat) (inner : GoType)
    (writer : Writer (Value (.array length inner))) (w : Encbuf) :
    ptrWriter (.array length inner) writer none w =
      if inner.isByte then .ok (w.write [0x80]) else inList .ok w := rfl

private theorem nilPieces_array (length : Nat) (inner : GoType) (zero : List Piece) :
    nilPieces (.array length inner) zero =
      if inner.isByte then [.data [0x80]] else listPieces [] := rfl

private theorem ptrWriter_none (elem : GoType)
    (zero : (render (pieces elem {} (itemOf elem (zeroValue elem)))).length < maxLen →
      Writes (makeWriter elem {} (zeroValue elem))
        (pieces elem {} (itemOf elem (zeroValue elem))) True)
    (fits : (render (nilPieces elem
      (pieces elem {} (itemOf elem (zeroValue elem))))).length < maxLen) :
    Writes (ptrWriter elem (makeWriter elem {}) none)
      (nilPieces elem (pieces elem {} (itemOf elem (zeroValue elem)))) True := by
  have emptyList : Writes (inList .ok) (listPieces []) True :=
    Writes.nothing.list (by simp [maxLen])
  cases elem with
  | bigInt => exact Writes.data (fun _ => rfl)
  | number => exact Writes.data (fun _ => rfl)
  | struct fields => exact emptyList
  | array length inner =>
      cases bytes : inner.isByte with
      | true =>
          rw [nilPieces_array, if_pos bytes]
          apply Writes.data
          intro w
          rw [ptrWriter_array_none, if_pos bytes]
      | false =>
          rw [nilPieces_array, if_neg (by simp [bytes])]
          apply emptyList.of_eq
          intro w
          rw [ptrWriter_array_none, if_neg (by simp [bytes])]
  | _ => exact zero fits

private theorem makeSliceWriter_writes {writer : Writer (Value elem)}
    {inner : Item elem → List Piece} {accepted : Value elem → Prop}
    {values : List (Value elem)} (tail : Bool) (other : elem.isByte = false)
    (each : ∀ value ∈ values,
      (render (inner (itemOf elem value))).length < maxLen →
        Writes (writer value) (inner (itemOf elem value)) (accepted value))
    (fits : (render (slicePieces tail elem inner
      (values.map (itemOf elem)))).length < maxLen) :
    Writes (makeSliceWriter tail writer values)
      (slicePieces tail elem inner (values.map (itemOf elem)))
      (∀ value ∈ values, accepted value) := by
  rw [slicePieces_of_not_byte tail other, List.flatMap_map] at fits ⊢
  have bodyFits :
      (render (values.flatMap fun value => inner (itemOf elem value))).length < maxLen := by
    cases tail with
    | true => exact fits
    | false =>
        have payload := length_lt_wireList
          (render (values.flatMap fun value => inner (itemOf elem value)))
        rw [← render_listPieces] at payload
        exact Nat.lt_trans payload fits
  have body : Writes (writeElems writer values)
      (values.flatMap fun value => inner (itemOf elem value))
      (∀ value ∈ values, accepted value) := by
    apply Writes.elems
    intro value member
    exact each value member
      (Nat.lt_of_le_of_lt (render_length_le_of_mem
        (fun value => inner (itemOf elem value)) member) bodyFits)
  cases tail with
  | true => exact body
  | false => exact body.list bodyFits

mutual
theorem makeWriter_writes : (type : GoType) → (tags : Tags) → (value : Value type) →
    (render (pieces type tags (itemOf type value))).length < maxLen →
    Writes (makeWriter type tags value) (pieces type tags (itemOf type value))
      (NonNegative type value)
  | .uint kind, _, value, _ => Writes.data (writeUint_eq kind value)
  | .int kind, _, value, _ => Writes.data (writeInt_eq kind value)
  | .bool, _, value, _ => Writes.data (fun w => by cases value <;> rfl)
  | .string, _, value, _ => Writes.data (writeString_eq value)
  | .bigInt, _, value, _ => writeBigInt_writes value
  | .number, _, value, _ =>
      Writes.data (fun w => congrArg Except.ok (w.encodeString_eq (Bn.bytes value)))
  | .rawValue, _, value, _ => Writes.data (fun w => rfl)
  | .slice elem, tags, value, fits => by
      cases bytes : elem.isByte with
      | true =>
          obtain rfl := GoType.eq_byte_of_isByte bytes
          have identity : value.map (itemOf GoType.byte) = value := List.map_id value
          simp only [pieces, itemOf, identity]
          exact (Writes.data (fun w => congrArg Except.ok
            (w.encodeString_eq value))).congr (by simp [NonNegative, GoType.byte])
      | false =>
          rw [makeWriter, sliceWriter_of_not_byte tags.tail bytes]
          exact makeSliceWriter_writes tags.tail bytes
            (fun inner _ => makeWriter_writes elem {} inner) fits
  | .array length elem, tags, value, fits => by
      cases bytes : elem.isByte with
      | true =>
          obtain rfl := GoType.eq_byte_of_isByte bytes
          have identity : value.1.map (itemOf GoType.byte) = value.1 :=
            List.map_id value.1
          simp only [pieces, itemOf, identity]
          exact (Writes.data (fun w => congrArg Except.ok
            (w.encodeString_eq value.1))).congr (by simp [NonNegative, GoType.byte])
      | false =>
          rw [makeWriter, arrayWriter_of_not_byte length bytes]
          exact makeSliceWriter_writes false bytes
            (fun inner _ => makeWriter_writes elem {} inner) fits
  | .struct fields, _, value, fits => by
      have payload := length_lt_wireList
        (render (fieldPieces fields (fieldItemsOf fields value)))
      have bodyFits := Nat.lt_trans payload fits
      exact (writeFields_writes fields value bodyFits).list bodyFits
  | .ptr elem, tags, (value : Option (Value elem)), fits => by
      cases value with
      | none =>
          have chosen : pieces (.ptr elem) tags (itemOf (.ptr elem) none) =
              nilPieces elem (pieces elem {} (itemOf elem (zeroValue elem))) := rfl
          rw [chosen, makeWriter]
          refine (ptrWriter_none elem ?_ fits).congr (by simp [NonNegative])
          intro zeroFits
          exact (makeWriter_writes elem {} (zeroValue elem) zeroFits).congr
            (by simp [nonNegative_zeroValue])
      | some value =>
          rw [makeWriter, ptrWriter_some]
          exact (makeWriter_writes elem {} value fits).congr (by simp [NonNegative])
  | .map key elem, tags, (value : List (Value key × Value elem)), fits => by
      have items : ((sortEntries key value).map fun entry =>
            (itemOf key entry.1, itemOf elem entry.2)).flatMap (fun entry =>
              entryBytes (render (pieces key {} entry.1))
                (render (pieces elem {} entry.2))) =
          (sortEntries key value).flatMap fun entry =>
            entryBytes (render (pieces key {} (itemOf key entry.1)))
              (render (pieces elem {} (itemOf elem entry.2))) := List.flatMap_map ..
      have chosen : pieces (.map key elem) tags (itemOf (.map key elem) value) =
          [.data (wireString (wireList ((sortEntries key value).flatMap fun entry =>
            entryBytes (render (pieces key {} (itemOf key entry.1)))
              (render (pieces elem {} (itemOf elem entry.2))))))] := by
        rw [← items]
        rfl
      rw [chosen, makeWriter]
      rw [chosen] at fits
      have outer := length_le_wireString (wireList
        ((sortEntries key value).flatMap fun entry =>
          entryBytes (render (pieces key {} (itemOf key entry.1)))
            (render (pieces elem {} (itemOf elem entry.2)))))
      have listFits := Nat.lt_of_le_of_lt outer (by simpa [Piece.bytes] using fits)
      exact writeMap_writes
        (fun value => pieces key {} (itemOf key value))
        (fun value => pieces elem {} (itemOf elem value))
        (NonNegative key) (NonNegative elem)
        (makeWriter_writes key {}) (makeWriter_writes elem {}) listFits

theorem writeFields_writes : (fields : Fields) → (value : FieldValues fields) →
    (render (fieldPieces fields (fieldItemsOf fields value))).length < maxLen →
    Writes (writeFields fields value) (fieldPieces fields (fieldItemsOf fields value))
      (FieldsNonNegative fields value)
  | .nil, _, _ => Writes.nothing
  | .cons _ tags type rest, value, fits => by
      rw [fieldPieces_fieldItemsOf, render_append, List.length_append] at fits
      exact (makeWriter_writes type tags value.1 (by omega)).seq
        (writeFields_writes rest value.2 (by omega))
end

theorem encodeToBytes_eq {type : GoType} {value : Value type}
    (nonnegative : NonNegative type value)
    (fits : (itemBytes type (itemOf type value)).length < maxLen) :
    encodeToBytes type value = .ok (itemBytes type (itemOf type value)) :=
  (makeWriter_writes type {} value fits).bytes nonnegative fits

theorem encodeToBytes_negative {type : GoType} {value : Value type}
    (negative : ¬ NonNegative type value)
    (fits : (itemBytes type (itemOf type value)).length < maxLen) :
    encodeToBytes type value = .error .negativeBigInt :=
  (makeWriter_writes type {} value fits).noBytes negative

end Bclib.Rlp
