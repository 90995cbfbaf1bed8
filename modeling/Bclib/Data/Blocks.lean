import Mathlib.Logic.Equiv.Basic

namespace Bclib.Data

/-! Lists in blocks of one size, and maps that work block by block. -/

abbrev Block (α : Type) (size : Nat) := { entries : List α // entries.length = size }

def Block.fill (size : Nat) (entry : α) : Block α size :=
  ⟨List.replicate size entry, List.length_replicate⟩

def mapBlocks (map : Block α size → Block α size) : Nat → List α → List α
  | 0, entries => entries
  | count + 1, entries =>
      if whole : size ≤ entries.length then
        (map ⟨entries.take size, List.length_take_of_le whole⟩).1 ++
          mapBlocks map count (entries.drop size)
      else entries

def onBlocks (map : Block α size → Block α size) (entries : List α) : List α :=
  mapBlocks map (entries.length / size) entries

theorem mapBlocks_length (map : Block α size → Block α size) (count : Nat) (entries : List α) :
    (mapBlocks map count entries).length = entries.length := by
  induction count generalizing entries with
  | zero => rfl
  | succ count ih =>
      rw [mapBlocks]
      split_ifs with whole
      · rw [List.length_append, ih, List.length_drop, (map _).2]
        omega
      · rfl

theorem onBlocks_length (map : Block α size → Block α size) (entries : List α) :
    (onBlocks map entries).length = entries.length :=
  mapBlocks_length map _ entries

theorem mapBlocks_append (map : Block α size → Block α size) (count : Nat) (first : Block α size)
    (rest : List α) :
    mapBlocks map (count + 1) (first.1 ++ rest) = (map first).1 ++ mapBlocks map count rest := by
  have whole : size ≤ (first.1 ++ rest).length := by simp [first.2]
  rw [mapBlocks, dif_pos whole]
  simp only [List.take_left' first.2, List.drop_left' first.2]

theorem mapBlocks_short (map : Block α size → Block α size) (count : Nat) {entries : List α}
    (short : entries.length < size) : mapBlocks map count entries = entries := by
  cases count with
  | zero => rfl
  | succ count => exact dif_neg (Nat.not_le.2 short)

theorem mapBlocks_leftInverse {map back : Block α size → Block α size}
    (undoes : ∀ block, back (map block) = block) (count : Nat) (entries : List α) :
    mapBlocks back count (mapBlocks map count entries) = entries := by
  induction count generalizing entries with
  | zero => rfl
  | succ count ih =>
      by_cases whole : size ≤ entries.length
      · obtain ⟨first, rest, rfl⟩ : ∃ (first : Block α size) (rest : List α),
            entries = first.1 ++ rest :=
          ⟨⟨entries.take size, List.length_take_of_le whole⟩, entries.drop size,
            (List.take_append_drop size entries).symm⟩
        rw [mapBlocks_append, mapBlocks_append, undoes, ih]
      · rw [mapBlocks_short map _ (by omega), mapBlocks_short back _ (by omega)]

theorem onBlocks_leftInverse {map back : Block α size → Block α size}
    (undoes : ∀ block, back (map block) = block) (entries : List α) :
    onBlocks back (onBlocks map entries) = entries := by
  rw [onBlocks, onBlocks_length]
  exact mapBlocks_leftInverse undoes _ entries

theorem onBlocks_symm_eq_iff (perm : Equiv.Perm (Block α size)) (left right : List α) :
    onBlocks perm.symm left = right ↔ onBlocks perm right = left := by
  constructor
  · rintro rfl
    exact onBlocks_leftInverse perm.apply_symm_apply left
  · rintro rfl
    exact onBlocks_leftInverse perm.symm_apply_apply right

end Bclib.Data
