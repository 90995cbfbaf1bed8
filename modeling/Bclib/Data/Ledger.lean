import Mathlib.Algebra.BigOperators.Group.Finset.Basic
import Mathlib.Algebra.BigOperators.Group.Finset.Piecewise
import Mathlib.Algebra.Order.BigOperators.Group.Finset
import Mathlib.Algebra.Ring.Nat

namespace Bclib.Data

/-! Texts that are shared out to places, each to one of them. -/

section Ledger

variable {ν α : Type} [DecidableEq ν]

def share (entries : List (ν × List α)) (place : ν) : List α :=
  entries.flatMap fun entry => if entry.1 = place then entry.2 else []

theorem share_concat_self (entries : List (ν × List α)) (place : ν) (text : List α) :
    share (entries ++ [(place, text)]) place = share entries place ++ text := by
  rw [share, List.flatMap_append, List.flatMap_singleton, if_pos rfl]
  rfl

theorem share_concat_of_ne (entries : List (ν × List α)) {place other : ν} (ne : place ≠ other)
    (text : List α) : share (entries ++ [(place, text)]) other = share entries other := by
  rw [share, List.flatMap_append, List.flatMap_singleton, if_neg ne, List.append_nil]
  rfl

theorem sum_share_length (entries : List (ν × List α)) {places : Finset ν}
    (inside : ∀ entry ∈ entries, entry.1 ∈ places) :
    ∑ place ∈ places, (share entries place).length =
      (entries.map fun entry => entry.2.length).sum := by
  induction entries with
  | nil => exact Finset.sum_eq_zero fun _ _ => rfl
  | cons entry rest ih =>
      rw [List.forall_mem_cons] at inside
      have parts : ∀ place, (share (entry :: rest) place).length =
          (if entry.1 = place then entry.2.length else 0) + (share rest place).length := by
        intro place
        rw [share, List.flatMap_cons, List.length_append]
        congr 1
        split_ifs <;> rfl
      rw [Finset.sum_congr rfl fun place _ => parts place, Finset.sum_add_distrib,
        Finset.sum_ite_eq, if_pos inside.1, ih inside.2, List.map_cons, List.sum_cons]

theorem not_share_of_overlap {before after : ν → List α} {place : ν} {text : List α}
    {entries : List (ν × List α)} (shared : ∀ other, before other = share entries other)
    (kept : ∀ other, other ≠ place → after other = before other)
    (overlap : (after place).length < (before place).length + text.length)
    (later : List (ν × List α))
    (texts : later.map Prod.snd = entries.map Prod.snd ++ [text]) :
    ¬∀ other, after other = share later other := by
  intro sharedLater
  let places : Finset ν := (place :: (entries.map Prod.fst ++ later.map Prod.fst)).toFinset
  have here : place ∈ places := by simp [places]
  have sizeBefore : ∑ other ∈ places, (before other).length =
      (entries.map fun entry => entry.2.length).sum := by
    refine Eq.trans (Finset.sum_congr rfl fun other _ => by rw [shared])
      (sum_share_length entries ?_)
    intro entry member
    simp only [places, List.mem_toFinset, List.mem_cons, List.mem_append, List.mem_map]
    exact .inr (.inl ⟨entry, member, rfl⟩)
  have sizeAfter : ∑ other ∈ places, (after other).length =
      (entries.map fun entry => entry.2.length).sum + text.length := by
    have lengths := congrArg (fun all => (all.map List.length).sum) texts
    simp only [List.map_map, List.map_append, List.sum_append, List.map_singleton,
      List.sum_singleton] at lengths
    refine Eq.trans ?_ lengths
    refine Eq.trans (Finset.sum_congr rfl fun other _ => by rw [sharedLater])
      (sum_share_length later ?_)
    intro entry member
    simp only [places, List.mem_toFinset, List.mem_cons, List.mem_append, List.mem_map]
    exact .inr (.inr ⟨entry, member, rfl⟩)
  have grows : ∑ other ∈ places, (after other).length <
      ∑ other ∈ places, ((before other).length + if other = place then text.length else 0) := by
    refine Finset.sum_lt_sum (fun other _ => ?_) ⟨place, here, ?_⟩
    · by_cases same : other = place
      · rw [same, if_pos rfl]
        exact Nat.le_of_lt overlap
      · rw [kept other same, if_neg same]
        exact Nat.le_refl _
    · rw [if_pos rfl]
      exact overlap
  rw [Finset.sum_add_distrib, Finset.sum_ite_eq', if_pos here, sizeBefore, sizeAfter] at grows
  exact Nat.lt_irrefl _ grows

end Ledger

end Bclib.Data
