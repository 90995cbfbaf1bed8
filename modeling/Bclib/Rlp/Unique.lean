import Bclib.Rlp.ParseSpec

namespace Bclib.Rlp

open Data
open Go

/-! Encodings determine what they were made of: they are read back in one way. -/

theorem wireString_injective {left right : List Byte}
    (fits : (wireString left).length < maxLen) (same : wireString left = wireString right) :
    left = right := by
  have first := parseBytes_complete (byteSlice_reads _) (.slice .byte) trivial fits
    (Nat.lt_succ_self _)
  rw [same] at first fits
  have second := parseBytes_complete (byteSlice_reads _) (.slice .byte) trivial fits
    (Nat.lt_succ_self _)
  exact Except.ok.inj (first.symm.trans second)

theorem wireList_injective {left right : List Byte}
    (fits : (wireList left).length < maxLen) (same : wireList left = wireList right) :
    left = right := by
  have content := newStream_window (wireList left)
  obtain ⟨inner, ran, _, window⟩ := Stream.list_of_wireList (newStream_sound fits) rfl
    (content.trans (List.append_nil _).symm)
  obtain ⟨other, otherRan, _, otherWindow⟩ := Stream.list_of_wireList (newStream_sound fits) rfl
    ((content.trans same).trans (List.append_nil _).symm)
  rw [ran] at otherRan
  obtain ⟨_, rfl⟩ := Prod.mk.inj otherRan
  exact window.symm.trans otherWindow

theorem wireStrings_injective {left right : List (List Byte)}
    (fits : (wireList (left.flatMap wireString)).length < maxLen)
    (same : wireList (left.flatMap wireString) = wireList (right.flatMap wireString)) :
    left = right := by
  have enough := Nat.lt_succ_self (wireList (left.flatMap wireString)).length
  have first := (parseByteSlices_eq_ok_iff fits enough).2 rfl
  have second := (parseByteSlices_eq_ok_iff fits enough).2 same
  exact Except.ok.inj (first.symm.trans second)

theorem entryList_injective {left right : List Byte × List Byte}
    (fits : (entryList left.1 left.2).length < maxLen)
    (same : entryList left.1 left.2 = entryList right.1 right.2) : left = right := by
  rw [entryList_eq, entryList_eq] at same
  rw [entryList_eq] at fits
  have parts := wireStrings_injective fits same
  simp only [List.cons.injEq, and_true] at parts
  exact Prod.ext parts.1 parts.2

def mapBytes (pairs : List (List Byte × List Byte)) : List Byte :=
  wireString (wireList (pairs.flatMap fun pair => entryBytes pair.1 pair.2))

theorem mapBytes_eq (pairs : List (List Byte × List Byte)) :
    mapBytes pairs = wireString (wireList
      ((pairs.map fun pair => entryList pair.1 pair.2).flatMap wireString)) := by
  rw [List.flatMap_map]
  rfl

theorem entryList_length_lt {pairs : List (List Byte × List Byte)}
    {pair : List Byte × List Byte} (member : pair ∈ pairs) :
    (entryList pair.1 pair.2).length < (mapBytes pairs).length := by
  have inside : entryList pair.1 pair.2 ∈ pairs.map fun pair => entryList pair.1 pair.2 :=
    List.mem_map.2 ⟨pair, member, rfl⟩
  rw [mapBytes_eq]
  exact Nat.lt_of_lt_of_le (length_lt_of_mem_byteSlices inside) (length_le_wireString _)

theorem mapBytes_injective {left right : List (List Byte × List Byte)}
    (fits : (mapBytes left).length < maxLen) (same : mapBytes left = mapBytes right) :
    left = right := by
  have short : ∀ pair ∈ left, (entryList pair.1 pair.2).length < maxLen :=
    fun pair member => Nat.lt_trans (entryList_length_lt member) fits
  rw [mapBytes_eq] at fits
  rw [mapBytes_eq, mapBytes_eq] at same
  have lists := wireStrings_injective (Nat.lt_of_le_of_lt (length_le_wireString _) fits)
    (wireString_injective fits same)
  clear fits same
  induction left generalizing right with
  | nil => exact (List.map_eq_nil_iff.1 lists.symm).symm
  | cons first rest ih =>
      cases right with
      | nil => simp at lists
      | cons other others =>
          rw [List.forall_mem_cons] at short
          obtain ⟨head, tail⟩ := List.cons.inj lists
          rw [entryList_injective short.1 head, ih short.2 tail]

end Bclib.Rlp
