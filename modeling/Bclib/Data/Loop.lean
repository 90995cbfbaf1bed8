import Mathlib.Logic.Basic

namespace Bclib.Data

/-! Loops whose body decides in each turn whether to go on. -/

inductive Turn (σ ρ : Type) where
  | again (state : σ)
  | done (result : ρ)

def loop (body : σ → Turn σ ρ) : Nat → σ → Option ρ
  | 0, _ => none
  | fuel + 1, state =>
      match body state with
      | .again next => loop body fuel next
      | .done result => some result

def Turn.Keeps (invariant : σ → Prop) (measure : σ → Nat) (wanted : ρ → Prop) (bound : Nat) :
    Turn σ ρ → Prop
  | .again next => invariant next ∧ measure next < bound
  | .done result => wanted result

theorem loop_ends {body : σ → Turn σ ρ} {invariant : σ → Prop} {measure : σ → Nat}
    {wanted : ρ → Prop}
    (turns : ∀ state, invariant state →
      (body state).Keeps invariant measure wanted (measure state))
    {state : σ} (start : invariant state) :
    ∃ result, wanted result ∧ ∀ fuel, measure state < fuel →
      loop body fuel state = some result := by
  induction bound : measure state using Nat.strongRecOn generalizing state with
  | ind bound ih =>
      have turn := turns state start
      cases ends : body state with
      | done result =>
          rw [ends] at turn
          refine ⟨result, turn, fun fuel enough => ?_⟩
          obtain ⟨fuel, rfl⟩ := Nat.exists_eq_add_of_lt enough
          simp only [loop, ends]
      | again next =>
          rw [ends] at turn
          obtain ⟨result, good, reached⟩ := ih _ (bound ▸ turn.2) turn.1 rfl
          refine ⟨result, good, fun fuel enough => ?_⟩
          cases fuel with
          | zero => exact absurd enough (Nat.not_lt_zero _)
          | succ fuel =>
              have less := turn.2
              simp only [loop, ends]
              exact reached fuel (by omega)

end Bclib.Data
