import Bclib.Mc.View

namespace Bclib.Mc

open Data

/-! Transactions do not see each other before they commit. -/

/-- A call that is not one of the transaction, and does not forget the key. -/
def Op.Foreign (transID : Int64) (key : String) : Op → Prop
  | .newMc other _ => other ≠ transID
  | .get _ => True
  | .set mc _ _ => mc.transID ≠ transID
  | .dirtyTx mc _ => mc.transID ≠ transID
  | .commitTrans other _ => other ≠ transID
  | .dirtyTrans other => other ≠ transID
  | .dirtyTransTx other _ _ => other ≠ transID
  | .dirty name _ => name ≠ key
  | .clear => False

instance (transID : Int64) (key : String) : DecidablePred (Op.Foreign transID key)
  | .newMc other _ => inferInstanceAs (Decidable (other ≠ transID))
  | .get _ => inferInstanceAs (Decidable True)
  | .set mc _ _ => inferInstanceAs (Decidable (mc.transID ≠ transID))
  | .dirtyTx mc _ => inferInstanceAs (Decidable (mc.transID ≠ transID))
  | .commitTrans other _ => inferInstanceAs (Decidable (other ≠ transID))
  | .dirtyTrans other => inferInstanceAs (Decidable (other ≠ transID))
  | .dirtyTransTx other _ _ => inferInstanceAs (Decidable (other ≠ transID))
  | .dirty name _ => inferInstanceAs (Decidable (name ≠ key))
  | .clear => inferInstanceAs (Decidable False)

/-- The calls that write to `llCache`. -/
def Op.commits : Op → Bool
  | .commitTrans _ _ => true
  | .dirty _ _ => true
  | .clear => true
  | _ => false

namespace View

variable {view : View} {transID : Int64} {key : String} {mc : MemCache}

theorem update_tx_of_ne {other : MemCache} (different : mc ≠ other) (change : Stack → Stack) :
    (view.update other change).tx mc = view.tx mc :=
  Function.update_of_ne different _ _

theorem step_foreign (owned : view.Owned) {op : Op} (foreign : op.Foreign transID key)
    (found : view.opened transID key = some mc) :
    (view.step op).opened transID key = some mc ∧ (view.step op).tx mc = view.tx mc := by
  have mine : mc.transID = transID := (owned found).1
  cases op with
  | newMc other name =>
      rw [step, newMc]
      cases view.opened other name with
      | some _ => exact ⟨found, rfl⟩
      | none =>
          refine ⟨?_, Function.update_of_ne ?_ _ _⟩
          · exact (if_neg fun same => foreign same.1.symm).trans found
          · rintro rfl
            exact foreign mine
  | get mc => exact ⟨found, rfl⟩
  | set other txID data =>
      refine ⟨found, update_tx_of_ne ?_ _⟩
      rintro rfl
      exact foreign mine
  | dirtyTx other txID =>
      refine ⟨found, update_tx_of_ne ?_ _⟩
      rintro rfl
      exact foreign mine
  | commitTrans other order => exact ⟨(if_neg (Ne.symm foreign)).trans found, rfl⟩
  | dirtyTrans other => exact ⟨(if_neg (Ne.symm foreign)).trans found, rfl⟩
  | dirtyTransTx other txID order =>
      refine ⟨found, if_neg fun open_ => ?_⟩
      exact foreign ((owned open_).1.symm.trans mine)
  | dirty name order => exact ⟨(if_neg (Ne.symm foreign)).trans found, rfl⟩
  | clear => exact foreign.elim

end View

namespace Instance

variable {mi : Instance} {transID : Int64} {key : String}

theorem step_foreign (formed : mi.WellFormed) {mc : MemCache} {op : Op}
    (foreign : op.Foreign transID key) (found : mi.opened transID key = some mc) :
    (mi.step op).opened transID key = some mc ∧ (mi.step op).tx mc = mi.tx mc := by
  have seen := View.step_foreign formed.owned_view foreign found
  rw [← view_step formed] at seen
  exact seen

theorem after_foreign (formed : mi.WellFormed) {mc : MemCache} {ops : List Op}
    (foreign : ∀ op ∈ ops, op.Foreign transID key)
    (found : mi.opened transID key = some mc) :
    (mi.after ops).opened transID key = some mc ∧ (mi.after ops).tx mc = mi.tx mc := by
  have kept := run_keeps
    (fun next => next.WellFormed ∧ next.opened transID key = some mc ∧ next.tx mc = mi.tx mc)
    (fun next op holds meets => by
      obtain ⟨formed, found, same⟩ := holds
      have stepped := step_foreign formed meets found
      exact ⟨wellFormed_step formed op, stepped.1, stepped.2.trans same⟩)
    ⟨formed, found, rfl⟩ (allSteps_of_forall foreign mi)
  exact kept.2

theorem llCache_step (formed : mi.WellFormed) {op : Op} (quiet : op.commits = false) :
    (mi.step op).llCache = mi.llCache := by
  cases op with
  | newMc transID key =>
      cases found : mi.opened transID key with
      | some mc => rw [step, newMc_of_opened found]
      | none => exact (newMc_of_closed found).llCache
  | get mc => rfl
  | set mc txID data => rfl
  | dirtyTx mc txID => rfl
  | commitTrans transID order => simp [Op.commits] at quiet
  | dirtyTrans transID => rfl
  | dirtyTransTx transID txID order => rw [step, dirtyTransTx_eq formed]
  | dirty key order => simp [Op.commits] at quiet
  | clear => simp [Op.commits] at quiet

/-- In every reachable state, the value a transaction reads from a cache it has
open is not changed by any calls of other transactions, and only the calls that
commit or forget keys write to `llCache`. -/
theorem transactions_isolated (past : List Op) :
    (∀ transID key, ((newMcInstance.after past).opened transID key).isSome = true →
      ∀ ops : List Op, (∀ op ∈ ops, op.Foreign transID key) →
        ((newMcInstance.after past).after ops).value transID key =
          (newMcInstance.after past).value transID key) ∧
    ∀ op : Op, op.commits = false →
      ((newMcInstance.after past).step op).llCache = (newMcInstance.after past).llCache := by
  have formed := wellFormed_after wellFormed_newMcInstance past
  refine ⟨fun transID key isOpen ops foreign => ?_, fun op quiet => llCache_step formed quiet⟩
  obtain ⟨mc, found⟩ := Option.isSome_iff_exists.1 isOpen
  obtain ⟨still, same⟩ := after_foreign formed foreign found
  rw [value_eq, value_eq, still, found]
  exact congrArg Stack.top same

theorem transactions_isolated_commit :
    ((newMcInstance.after [.newMc 1 "k", .newMc 2 "k"]).opened 1 "k").isSome = true ∧
      ((newMcInstance.after [.newMc 1 "k", .newMc 2 "k"]).after
          [.set ⟨2, "k", 1⟩ 5 (some [7]), .commitTrans 2 .stored]).value 1 "k" =
        (newMcInstance.after [.newMc 1 "k", .newMc 2 "k"]).value 1 "k" := by
  have isOpen : ((newMcInstance.after [.newMc 1 "k", .newMc 2 "k"]).opened 1 "k").isSome =
      true := by decide +kernel
  exact ⟨isOpen, (transactions_isolated _).1 1 "k" isOpen _ (by decide)⟩

end Instance

end Bclib.Mc
