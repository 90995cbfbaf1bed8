import Mathlib.Algebra.Ring.Nat
import Mathlib.Data.List.Basic
import Mathlib.Data.List.Nodup

namespace Bclib.Data

/-! Association lists with one entry for each key. -/

variable {α β γ δ : Type} [DecidableEq α]

/-- Replaces the entry of the key, or adds one at the end. -/
def assocSet : List (α × β) → α → β → List (α × β)
  | [], key, value => [(key, value)]
  | entry :: rest, key, value =>
      if entry.1 = key then (key, value) :: rest
      else entry :: assocSet rest key value

def assocOf (entries : List (α × β)) : List (α × β) :=
  entries.foldl (fun set entry => assocSet set entry.1 entry.2) []

theorem mem_assocSet {entries : List (α × β)} {key : α} {value : β} {entry : α × β}
    (member : entry ∈ assocSet entries key value) : entry = (key, value) ∨ entry ∈ entries := by
  induction entries with
  | nil => exact .inl (List.mem_singleton.1 member)
  | cons first rest ih =>
      rw [assocSet] at member
      split_ifs at member with same
      · exact (List.mem_cons.1 member).imp id (List.mem_cons_of_mem _)
      · rcases List.mem_cons.1 member with rfl | later
        · exact .inr (List.mem_cons_self ..)
        · exact (ih later).imp id (List.mem_cons_of_mem _)

theorem mem_assocOf {entries : List (α × β)} {entry : α × β}
    (member : entry ∈ assocOf entries) : entry ∈ entries := by
  suffices general : ∀ (set : List (α × β)), entry ∈
      entries.foldl (fun set entry => assocSet set entry.1 entry.2) set →
      entry ∈ set ∨ entry ∈ entries from (general [] member).resolve_left List.not_mem_nil
  clear member
  induction entries with
  | nil => exact fun set member => .inl member
  | cons first rest ih =>
      intro set member
      rcases ih _ member with old | later
      · rcases mem_assocSet old with rfl | before
        · exact .inr (List.mem_cons_self ..)
        · exact .inl before
      · exact .inr (List.mem_cons_of_mem _ later)

theorem sum_assocSet_le (weight : α × β → Nat) (entries : List (α × β)) (key : α) (value : β) :
    ((assocSet entries key value).map weight).sum ≤
      (entries.map weight).sum + weight (key, value) := by
  induction entries with
  | nil => simp [assocSet]
  | cons first rest ih =>
      rw [assocSet]
      split_ifs
      · simp only [List.map_cons, List.sum_cons]
        omega
      · simp only [List.map_cons, List.sum_cons]
        omega

theorem sum_assocOf_le (weight : α × β → Nat) (entries : List (α × β)) :
    ((assocOf entries).map weight).sum ≤ (entries.map weight).sum := by
  suffices general : ∀ set : List (α × β),
      ((entries.foldl (fun set entry => assocSet set entry.1 entry.2) set).map weight).sum ≤
        (set.map weight).sum + (entries.map weight).sum by
    simpa [assocOf] using general []
  induction entries with
  | nil => exact fun set => Nat.le_refl _
  | cons first rest ih =>
      intro set
      have added : _ ≤ (set.map weight).sum + weight first :=
        sum_assocSet_le weight set first.1 first.2
      have others := ih (assocSet set first.1 first.2)
      simp only [List.foldl_cons, List.map_cons, List.sum_cons]
      omega

private theorem keys_assocSet (entries : List (α × β)) (key : α) (value : β) :
    (assocSet entries key value).map Prod.fst =
      if key ∈ entries.map Prod.fst then entries.map Prod.fst
      else entries.map Prod.fst ++ [key] := by
  induction entries with
  | nil => rfl
  | cons first rest ih =>
      by_cases same : first.1 = key
      · simp [assocSet, same]
      · rw [assocSet, if_neg same, List.map_cons, ih, List.map_cons]
        by_cases present : key ∈ rest.map Prod.fst
        · rw [if_pos present, if_pos (List.mem_cons_of_mem _ present)]
        · rw [if_neg present, if_neg (by simp [Ne.symm same, present]), List.cons_append]

theorem length_assocSet_le (entries : List (α × β)) (key : α) (value : β) :
    (assocSet entries key value).length ≤ entries.length + 1 := by
  have keys := congrArg List.length (keys_assocSet entries key value)
  rw [List.length_map] at keys
  rw [keys]
  split_ifs
  · rw [List.length_map]
    exact Nat.le_succ _
  · rw [List.length_append, List.length_map]
    exact Nat.le_refl _

theorem nodup_assocSet {entries : List (α × β)} (distinct : (entries.map Prod.fst).Nodup)
    (key : α) (value : β) : ((assocSet entries key value).map Prod.fst).Nodup := by
  rw [keys_assocSet]
  split_ifs with present
  · exact distinct
  · exact List.nodup_append.2 ⟨distinct, List.nodup_singleton key, fun old member new last => by
      rintro rfl
      obtain rfl := List.mem_singleton.1 last
      exact present member⟩

theorem nodup_assocOf (entries : List (α × β)) :
    ((assocOf entries).map Prod.fst).Nodup := by
  suffices general : ∀ (set : List (α × β)), (set.map Prod.fst).Nodup →
      ((entries.foldl (fun set entry => assocSet set entry.1 entry.2) set).map
        Prod.fst).Nodup from general [] List.nodup_nil
  induction entries with
  | nil => exact fun set distinct => distinct
  | cons first rest ih => exact fun set distinct => ih _ (nodup_assocSet distinct _ _)

theorem map_assocSet [DecidableEq γ] {onKey : α → γ} (onValue : β → δ)
    (injective : Function.Injective onKey) (entries : List (α × β)) (key : α) (value : β) :
    (assocSet entries key value).map (fun entry => (onKey entry.1, onValue entry.2)) =
      assocSet (entries.map fun entry => (onKey entry.1, onValue entry.2)) (onKey key)
        (onValue value) := by
  induction entries with
  | nil => rfl
  | cons first rest ih =>
      by_cases same : first.1 = key
      · simp [assocSet, same]
      · simp [assocSet, same, injective.ne same, ih]

theorem assocSet_of_notMem {entries : List (α × β)} {key : α} (value : β)
    (absent : key ∉ entries.map Prod.fst) :
    assocSet entries key value = entries ++ [(key, value)] := by
  induction entries with
  | nil => rfl
  | cons first rest ih =>
      rw [List.map_cons, List.mem_cons, not_or] at absent
      rw [assocSet, if_neg (Ne.symm absent.1), ih absent.2, List.cons_append]

private theorem foldl_assocSet_of_nodup (entries set : List (α × β))
    (distinct : ((set ++ entries).map Prod.fst).Nodup) :
    entries.foldl (fun set entry => assocSet set entry.1 entry.2) set = set ++ entries := by
  induction entries generalizing set with
  | nil => simp
  | cons entry rest ih =>
      have absent : entry.1 ∉ set.map Prod.fst := by
        rw [List.map_append, List.map_cons] at distinct
        intro member
        exact (List.nodup_append.1 distinct).2.2 _ member _ (List.mem_cons_self ..) rfl
      rw [List.foldl_cons, assocSet_of_notMem _ absent, ih]
      · simp
      · simpa using distinct

theorem assocOf_of_nodup {entries : List (α × β)}
    (distinct : (entries.map Prod.fst).Nodup) : assocOf entries = entries := by
  simpa [assocOf] using foldl_assocSet_of_nodup entries [] (by simpa using distinct)

def assocErase (entries : List (α × β)) (key : α) : List (α × β) :=
  entries.filter fun entry => entry.1 ≠ key

private theorem lookup_cons_ite (entry : α × β) (rest : List (α × β)) (key : α) :
    (entry :: rest).lookup key = if key = entry.1 then some entry.2 else rest.lookup key := by
  by_cases found : key = entry.1
  · rw [if_pos found, List.lookup_cons, beq_iff_eq.2 found]
  · rw [if_neg found, List.lookup_cons, beq_eq_false_iff_ne.2 found]

theorem lookup_assocSet (entries : List (α × β)) (key : α) (value : β) (other : α) :
    (assocSet entries key value).lookup other =
      if other = key then some value else entries.lookup other := by
  induction entries with
  | nil => exact lookup_cons_ite (key, value) [] other
  | cons entry rest ih =>
      rw [assocSet]
      split_ifs with same found found
      · rw [lookup_cons_ite, if_pos found]
      · rw [lookup_cons_ite, if_neg found, lookup_cons_ite, if_neg (same ▸ found)]
      · rw [lookup_cons_ite, if_neg (found ▸ Ne.symm same), ih, if_pos found]
      · rw [lookup_cons_ite, lookup_cons_ite, ih, if_neg found]

theorem lookup_assocErase (entries : List (α × β)) (key other : α) :
    (assocErase entries key).lookup other =
      if other = key then none else entries.lookup other := by
  induction entries with
  | nil => simp [assocErase]
  | cons entry rest ih =>
      rw [assocErase] at ih ⊢
      by_cases same : entry.1 = key
      · rw [List.filter_cons_of_neg (by simp [same]), ih]
        split_ifs with found
        · rfl
        · rw [lookup_cons_ite, if_neg (same ▸ found)]
      · rw [List.filter_cons_of_pos (by simp [same]), lookup_cons_ite, ih, lookup_cons_ite]
        split_ifs with here found
        · exact absurd (here.symm.trans found) same
        · rfl
        · rfl
        · rfl

theorem lookup_map_values (onValue : β → γ) (entries : List (α × β)) (key : α) :
    (entries.map fun entry => (entry.1, onValue entry.2)).lookup key =
      (entries.lookup key).map onValue := by
  induction entries with
  | nil => rfl
  | cons entry rest ih =>
      rw [List.map_cons, lookup_cons_ite, lookup_cons_ite, ih]
      split_ifs
      · rfl
      · rfl

theorem mem_of_lookup {entries : List (α × β)} {key : α} {value : β}
    (found : entries.lookup key = some value) : (key, value) ∈ entries := by
  induction entries with
  | nil => simp at found
  | cons entry rest ih =>
      rw [lookup_cons_ite] at found
      split_ifs at found with here
      · rw [here, ← Option.some.inj found]
        exact List.mem_cons_self ..
      · exact List.mem_cons_of_mem _ (ih found)

theorem lookup_eq_some_iff_mem {entries : List (α × β)}
    (distinct : (entries.map Prod.fst).Nodup) {key : α} {value : β} :
    entries.lookup key = some value ↔ (key, value) ∈ entries := by
  refine ⟨mem_of_lookup, fun member => ?_⟩
  induction entries with
  | nil => exact absurd member List.not_mem_nil
  | cons entry rest ih =>
      rw [List.map_cons, List.nodup_cons] at distinct
      rw [lookup_cons_ite]
      rcases List.mem_cons.1 member with rfl | later
      · exact if_pos rfl
      · have other : key ≠ entry.1 := fun same =>
          distinct.1 (same ▸ List.mem_map_of_mem (f := Prod.fst) later)
        rw [if_neg other]
        exact ih distinct.2 later

theorem lookup_eq_of_perm {left right : List (α × β)}
    (distinct : (left.map Prod.fst).Nodup) (perm : left.Perm right) (key : α) :
    left.lookup key = right.lookup key := by
  have others := (perm.map Prod.fst).nodup_iff.1 distinct
  refine Option.ext fun value => ?_
  rw [lookup_eq_some_iff_mem distinct, lookup_eq_some_iff_mem others, perm.mem_iff]

theorem lookup_foldl_assocSet {entries : List (α × β)}
    (distinct : (entries.map Prod.fst).Nodup) (set : List (α × β)) (key : α) :
    (entries.foldl (fun set entry => assocSet set entry.1 entry.2) set).lookup key =
      (entries.lookup key).or (set.lookup key) := by
  induction entries generalizing set with
  | nil => rfl
  | cons entry rest ih =>
      rw [List.map_cons, List.nodup_cons] at distinct
      rw [List.foldl_cons, ih distinct.2, lookup_assocSet, lookup_cons_ite]
      split_ifs with found
      · have absent : rest.lookup key = none := by
          cases later : rest.lookup key with
          | none => rfl
          | some value =>
              exact absurd (List.mem_map_of_mem (f := Prod.fst) (mem_of_lookup later))
                (found ▸ distinct.1)
        rw [absent]
        rfl
      · rfl

end Bclib.Data
