import Mathlib.Data.List.Forall2
import Mathlib.Data.List.Sort

namespace Bclib.Data

/-! Stable sorting of entries by their keys. -/

variable {κ α β : Type} {less : κ → κ → Bool}

def sortByKey (less : κ → κ → Bool) (entries : List (κ × α)) : List (κ × α) :=
  entries.insertionSort (fun left right => ¬less right.1 left.1)

structure StrictOrder (less : κ → κ → Bool) : Prop where
  irrefl : ∀ key, less key key = false
  trans : ∀ {first second third}, less first second = true → less second third = true →
    less first third = true
  total : ∀ {first second}, first ≠ second → less first second = true ∨ less second first = true

theorem StrictOrder.asymm (order : StrictOrder less) {first second : κ}
    (below : less first second = true) : less second first = false := by
  cases above : less second first with
  | false => rfl
  | true => exact (order.trans below above).symm.trans (order.irrefl first)

theorem sortByKey_perm (less : κ → κ → Bool) (entries : List (κ × α)) :
    (sortByKey less entries).Perm entries :=
  List.perm_insertionSort _ entries

theorem mem_sortByKey {entries : List (κ × α)} {entry : κ × α} :
    entry ∈ sortByKey less entries ↔ entry ∈ entries :=
  List.mem_insertionSort _

theorem sortByKey_of_never (never : ∀ left right, less left right = false)
    (entries : List (κ × α)) : sortByKey less entries = entries :=
  List.Pairwise.insertionSort_eq (List.pairwise_of_forall fun left right => by
    simp [never])

theorem sortByKey_of_ascending (order : StrictOrder less) {entries : List (κ × α)}
    (ascending : entries.Pairwise fun left right => less left.1 right.1 = true) :
    sortByKey less entries = entries :=
  List.Pairwise.insertionSort_eq (ascending.imp fun below => by
    simp [order.asymm below])

private theorem sortByKey_pairwise (order : StrictOrder less) (entries : List (κ × α)) :
    (sortByKey less entries).Pairwise fun left right => ¬less right.1 left.1 = true := by
  have total : Std.Total fun left right : κ × α => ¬less right.1 left.1 = true :=
    ⟨fun left right => by
      cases below : less right.1 left.1 with
      | false => exact .inl (by simp)
      | true => exact .inr (by simp [order.asymm below])⟩
  have transitive : IsTrans (κ × α) fun left right => ¬less right.1 left.1 = true :=
    ⟨fun first second third lower upper below => by
      by_cases same : second.1 = first.1
      · exact upper (same ▸ below)
      · rcases order.total same with down | up
        · exact lower down
        · exact upper (order.trans below up)⟩
  exact List.pairwise_insertionSort _ entries

theorem sortByKey_ascending (order : StrictOrder less) {entries : List (κ × α)}
    (distinct : (entries.map Prod.fst).Nodup) :
    (sortByKey less entries).Pairwise fun left right => less left.1 right.1 = true := by
  have apart : (sortByKey less entries).Pairwise fun left right => left.1 ≠ right.1 := by
    have keys := ((sortByKey_perm less entries).map Prod.fst).nodup_iff.2 distinct
    exact List.pairwise_map.1 keys
  exact ((sortByKey_pairwise order entries).and apart).imp fun ⟨notAbove, different⟩ =>
    (order.total different).resolve_right notAbove

theorem sortByKey_eq_of_perm (order : StrictOrder less) {left right : List (κ × α)}
    (distinct : (left.map Prod.fst).Nodup) (perm : left.Perm right) :
    sortByKey less left = sortByKey less right := by
  have others := (perm.map Prod.fst).nodup_iff.1 distinct
  have sorted : (sortByKey less left).Perm (sortByKey less right) :=
    (sortByKey_perm less left).trans (perm.trans (sortByKey_perm less right).symm)
  refine sorted.eq_of_pairwise ?_ (sortByKey_ascending order distinct)
    (sortByKey_ascending order others)
  intro first second _ _ below above
  exact absurd above (by simp [order.asymm below])

theorem forall₂_sortByKey (less : κ → κ → Bool) {related : κ × α → κ × β → Prop}
    (keys : ∀ left right, related left right → left.1 = right.1)
    {left : List (κ × α)} {right : List (κ × β)} (all : List.Forall₂ related left right) :
    List.Forall₂ related (sortByKey less left) (sortByKey less right) := by
  have insert : ∀ {first : κ × α} {second : κ × β}, related first second →
      ∀ {rest : List (κ × α)} {others : List (κ × β)}, List.Forall₂ related rest others →
      List.Forall₂ related
        (rest.orderedInsert (fun left right => ¬less right.1 left.1) first)
        (others.orderedInsert (fun left right => ¬less right.1 left.1) second) := by
    intro first second head rest others tail
    induction tail with
    | nil => exact .cons head .nil
    | cons next later ih =>
        simp only [List.orderedInsert_cons, ← keys _ _ head, ← keys _ _ next]
        split_ifs
        · exact .cons next ih
        · exact .cons head (.cons next later)
  induction all with
  | nil => exact .nil
  | cons head _ ih => exact insert head ih

end Bclib.Data
