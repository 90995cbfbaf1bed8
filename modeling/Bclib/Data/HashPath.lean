import Mathlib.Data.List.Basic

namespace Bclib.Data

/-! The way from a leaf of a hash tree up to its root.  Each step knows the side it comes
from and the digest on the other side; the step nearest to the root is the first. -/

inductive Side where
  | left
  | right
  deriving DecidableEq, Repr

/-- How two digests are written into one input, and the digest of an input. -/
structure HashScheme (δ ι : Type) where
  digest : ι → δ
  input : δ → δ → ι
  Plain : δ → Prop
  plain_digest : ∀ text, Plain (digest text)
  input_injective : ∀ {left right left' right'}, Plain left → Plain right → Plain left' →
    Plain right' → input left right = input left' right' → left = left' ∧ right = right'

namespace HashScheme

variable {δ ι : Type} (scheme : HashScheme δ ι)

def inputAt : Side → (below aunt : δ) → ι
  | .left, below, aunt => scheme.input below aunt
  | .right, below, aunt => scheme.input aunt below

def climb (leaf : δ) : List (Side × δ) → δ
  | [] => leaf
  | (side, aunt) :: path => scheme.digest (scheme.inputAt side (climb leaf path) aunt)

def hashed (leaf : δ) : List (Side × δ) → List ι
  | [] => []
  | (side, aunt) :: path =>
      scheme.inputAt side (scheme.climb leaf path) aunt :: hashed leaf path

def Collide (inputs others : List ι) : Prop :=
  ∃ text ∈ inputs, ∃ other ∈ others, text ≠ other ∧ scheme.digest text = scheme.digest other

variable {scheme}

theorem Collide.mono {inputs others more further : List ι} (clash : scheme.Collide inputs others)
    (grown : inputs ⊆ more) (wider : others ⊆ further) : scheme.Collide more further := by
  obtain ⟨text, member, other, present, different, same⟩ := clash
  exact ⟨text, grown member, other, wider present, different, same⟩

theorem plain_climb {leaf : δ} (plain : scheme.Plain leaf) (path : List (Side × δ)) :
    scheme.Plain (scheme.climb leaf path) := by
  cases path with
  | nil => exact plain
  | cons step path => exact scheme.plain_digest _

theorem inputAt_injective {side : Side} {below aunt below' aunt' : δ}
    (plain : scheme.Plain below) (plainAunt : scheme.Plain aunt) (plain' : scheme.Plain below')
    (plainAunt' : scheme.Plain aunt')
    (same : scheme.inputAt side below aunt = scheme.inputAt side below' aunt') :
    below = below' ∧ aunt = aunt' := by
  cases side with
  | left => exact scheme.input_injective plain plainAunt plain' plainAunt' same
  | right => exact (scheme.input_injective plainAunt plain plainAunt' plain' same).symm

/-- Two ways with the same sides that meet at the top come from the same leaf past the same
aunts, or some input of the one collides with one of the other. -/
theorem climb_binding [DecidableEq ι] {leaf leaf' : δ} (plain : scheme.Plain leaf)
    (plain' : scheme.Plain leaf') {path path' : List (Side × δ)}
    (plains : ∀ step ∈ path, scheme.Plain step.2) (plains' : ∀ step ∈ path', scheme.Plain step.2)
    (sides : path.map Prod.fst = path'.map Prod.fst)
    (top : scheme.climb leaf path = scheme.climb leaf' path') :
    (leaf = leaf' ∧ path = path') ∨
      scheme.Collide (scheme.hashed leaf path) (scheme.hashed leaf' path') := by
  induction path generalizing path' with
  | nil =>
      obtain rfl : path' = [] := List.map_eq_nil_iff.1 sides.symm
      exact .inl ⟨top, rfl⟩
  | cons step path ih =>
      obtain ⟨side, aunt⟩ := step
      obtain ⟨step', rest', rfl⟩ : ∃ step' rest', path' = step' :: rest' := by
        cases path' with
        | nil => cases sides
        | cons step' rest' => exact ⟨step', rest', rfl⟩
      obtain ⟨side', aunt'⟩ := step'
      simp only [List.map_cons, List.cons.injEq] at sides
      obtain ⟨rfl, sides⟩ := sides
      rw [List.forall_mem_cons] at plains plains'
      by_cases same : scheme.inputAt side (scheme.climb leaf path) aunt =
          scheme.inputAt side (scheme.climb leaf' rest') aunt'
      · obtain ⟨below, rfl⟩ := inputAt_injective (plain_climb plain path) plains.1
          (plain_climb plain' rest') plains'.1 same
        rcases ih plains.2 plains'.2 sides below with ⟨rfl, rfl⟩ | clash
        · exact .inl ⟨rfl, rfl⟩
        · exact .inr (clash.mono (List.subset_cons_self _ _) (List.subset_cons_self _ _))
      · exact .inr ⟨_, List.mem_cons_self, _, List.mem_cons_self, same, top⟩

end HashScheme

end Bclib.Data
