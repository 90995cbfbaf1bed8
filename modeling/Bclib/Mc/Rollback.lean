import Bclib.Mc.LostUpdate

namespace Bclib.Mc

open Data

/-! Two runs, one of which lacks the sets of one tx.  `Dirty` pops the last entry of a
stack and no other, so that the tx is erased only where its entries are on top. -/

namespace Stack

def without (txID : Int64) (stack : Stack) : Stack :=
  stack.filter fun entry => entry.id ≠ txID

def Covers (txID other : Int64) (stack : Stack) : Prop :=
  (∃ entry ∈ stack.head?, entry.id = txID) ∧
    ∃ entry ∈ (stack.without txID).head?, entry.id = other

instance (txID other : Int64) : DecidablePred (Covers txID other) := fun stack =>
  inferInstanceAs (Decidable ((∃ entry ∈ stack.head?, entry.id = txID) ∧
    ∃ entry ∈ (stack.without txID).head?, entry.id = other))

variable {txID other : Int64} {data : Bytes}

theorem without_cons_self {entry : TxCache} (same : entry.id = txID) (rest : Stack) :
    without txID (entry :: rest) = without txID rest :=
  List.filter_cons_of_neg (by simp [same])

theorem without_cons_of_ne {entry : TxCache} (different : entry.id ≠ txID) (rest : Stack) :
    without txID (entry :: rest) = entry :: without txID rest :=
  List.filter_cons_of_pos (by simp [different])

theorem without_of_forall {stack : Stack} (absent : ∀ entry ∈ stack, entry.id ≠ txID) :
    stack.without txID = stack :=
  List.filter_eq_self.2 fun entry member => decide_eq_true (absent entry member)

theorem ne_of_mem_without {stack : Stack} {entry : TxCache}
    (member : entry ∈ stack.without txID) : entry.id ≠ txID :=
  of_decide_eq_true (List.mem_filter.1 member).2

theorem push_eq_cons {stack : Stack} (absent : ∀ entry ∈ stack.head?, entry.id ≠ txID) :
    stack.push txID data = ⟨txID, data⟩ :: stack := by
  cases stack with
  | nil => rfl
  | cons entry rest => exact if_neg (absent entry rfl)

theorem dirty_eq_self {stack : Stack} (absent : ∀ entry ∈ stack.head?, entry.id ≠ txID) :
    stack.dirty txID = stack := by
  cases stack with
  | nil => rfl
  | cons entry rest => exact if_neg (absent entry rfl)

theorem without_push_self (stack : Stack) :
    (stack.push txID data).without txID = stack.without txID := by
  cases stack with
  | nil => exact without_cons_self rfl []
  | cons entry rest =>
      rw [push]
      split_ifs with same
      · exact (without_cons_self rfl rest).trans (without_cons_self same rest).symm
      · exact without_cons_self rfl _

theorem without_push (different : other ≠ txID) {stack : Stack}
    (apart : ¬stack.Covers txID other) :
    (stack.push other data).without txID = (stack.without txID).push other data := by
  cases stack with
  | nil => exact without_cons_of_ne different []
  | cons entry rest =>
      by_cases top : entry.id = txID
      · have shown : ∀ below ∈ (without txID (entry :: rest)).head?, below.id ≠ other :=
          fun below found same => apart ⟨⟨entry, rfl, top⟩, below, found, same⟩
        rw [push_eq_cons shown, push_eq_cons (fun below found => ?_),
          without_cons_of_ne different]
        rw [← Option.some.inj found, top]
        exact different.symm
      · rw [without_cons_of_ne top, push, push]
        split_ifs
        · rw [without_cons_of_ne different]
        · rw [without_cons_of_ne different, without_cons_of_ne top]

theorem without_dirty_self (stack : Stack) :
    (stack.dirty txID).without txID = stack.without txID := by
  cases stack with
  | nil => rfl
  | cons entry rest =>
      rw [dirty]
      split_ifs with same
      · rw [without_cons_self same]
      · rfl

theorem dirty_without_self (stack : Stack) :
    (stack.without txID).dirty txID = stack.without txID :=
  dirty_eq_self fun _ found => ne_of_mem_without (List.mem_of_mem_head? found)

theorem without_dirty (different : other ≠ txID) {stack : Stack}
    (apart : ¬stack.Covers txID other) :
    (stack.dirty other).without txID = (stack.without txID).dirty other := by
  cases stack with
  | nil => rfl
  | cons entry rest =>
      by_cases top : entry.id = txID
      · have shown : ∀ below ∈ (without txID (entry :: rest)).head?, below.id ≠ other :=
          fun below found same => apart ⟨⟨entry, rfl, top⟩, below, found, same⟩
        rw [dirty_eq_self shown, dirty_eq_self fun below found => ?_]
        rw [← Option.some.inj found, top]
        exact different.symm
      · rw [without_cons_of_ne top, dirty, dirty]
        split_ifs
        · rfl
        · rw [without_cons_of_ne top]

theorem OnlyTop.dirty_eq {stack : Stack} (only : stack.OnlyTop txID) :
    stack.dirty txID = stack.without txID := by
  rw [← without_dirty_self]
  exact (without_of_forall fun _ member => only.ne_of_mem_dirty member).symm

end Stack

/-- Two views that differ in the stacks of open caches only, as `hide` says for the
caches of each transaction. -/
structure Hidden (hide : Int64 → Stack → Stack) (left right : View) : Prop where
  committed : right.committed = left.committed
  opened : right.opened = left.opened
  next : right.next = left.next
  tx : ∀ {transID key mc}, left.opened transID key = some mc →
    right.tx mc = hide transID (left.tx mc)

/-- The call does the same to a stack and to what is left of it. -/
def Commutes (hide : Int64 → Stack → Stack) (view : View) : Op → Prop
  | .newMc transID key => hide transID (view.snapshot key) = view.snapshot key
  | .set mc txID data =>
      ∀ transID key, view.opened transID key = some mc →
        hide transID ((view.tx mc).push txID data) = (hide transID (view.tx mc)).push txID data
  | .dirtyTx mc txID =>
      ∀ transID key, view.opened transID key = some mc →
        hide transID ((view.tx mc).dirty txID) = (hide transID (view.tx mc)).dirty txID
  | .dirtyTransTx transID txID _ =>
      ∀ key mc, view.opened transID key = some mc →
        hide transID ((view.tx mc).dirty txID) = (hide transID (view.tx mc)).dirty txID
  | .commitTrans transID _ =>
      ∀ key mc, view.opened transID key = some mc →
        (hide transID (view.tx mc)).top = (view.tx mc).top
  | _ => True

namespace Hidden

variable {hide : Int64 → Stack → Stack} {left right : View}

theorem newMc (hidden : Hidden hide left right) (owned : left.Owned) (transID : Int64)
    (key : String) (commutes : hide transID (left.snapshot key) = left.snapshot key) :
    Hidden hide (left.newMc transID key) (right.newMc transID key) := by
  have snapshot : right.snapshot key = left.snapshot key := by
    rw [View.snapshot, hidden.committed, View.snapshot]
  rw [View.newMc, View.newMc, hidden.opened]
  cases isOpen : left.opened transID key with
  | some _ => exact hidden
  | none =>
      refine ⟨hidden.committed, ?_, congrArg (· + 1) hidden.next, fun {other name mc} found => ?_⟩
      · simp only [hidden.next]
      · simp only [hidden.next, snapshot]
        simp only at found
        split_ifs at found with same
        · rw [← Option.some.inj found, Function.update_self, Function.update_self, same.1,
            commutes]
        · -- an open cache is not the new one, which is for a key that was not open
          have old : mc ≠ ⟨transID, key, left.next⟩ := by
            rintro rfl
            obtain ⟨mine, named⟩ := owned found
            exact same ⟨mine.symm, named.symm⟩
          rw [Function.update_of_ne old, Function.update_of_ne old]
          exact hidden.tx found

theorem update (hidden : Hidden hide left right) {mc : MemCache} {change : Stack → Stack}
    (commutes : ∀ transID key, left.opened transID key = some mc →
      hide transID (change (left.tx mc)) = change (hide transID (left.tx mc))) :
    Hidden hide (left.update mc change) (right.update mc change) := by
  refine ⟨hidden.committed, hidden.opened, hidden.next, fun {transID key other} found => ?_⟩
  by_cases same : other = mc
  · subst same
    simp only [View.update, Function.update_self]
    rw [hidden.tx found]
    exact (commutes transID key found).symm
  · simp only [View.update, Function.update_of_ne same]
    exact hidden.tx found

theorem update_left (hidden : Hidden hide left right) {mc : MemCache} {change : Stack → Stack}
    (unseen : ∀ transID key, left.opened transID key = some mc →
      hide transID (change (left.tx mc)) = hide transID (left.tx mc)) :
    Hidden hide (left.update mc change) right := by
  refine ⟨hidden.committed, hidden.opened, hidden.next, fun {transID key other} found => ?_⟩
  by_cases same : other = mc
  · subst same
    simp only [View.update, Function.update_self]
    exact (hidden.tx found).trans (unseen transID key found).symm
  · simp only [View.update, Function.update_of_ne same]
    exact hidden.tx found

theorem dirtyAll (hidden : Hidden hide left right) (owned : left.Owned) {transID txID : Int64}
    (commutes : ∀ key mc, left.opened transID key = some mc →
      hide transID ((left.tx mc).dirty txID) = (hide transID (left.tx mc)).dirty txID) :
    Hidden hide (left.dirtyAll transID txID) (right.dirtyAll transID txID) := by
  refine ⟨hidden.committed, hidden.opened, hidden.next, fun {other key mc} found => ?_⟩
  simp only [View.dirtyAll, hidden.opened]
  split_ifs with here
  · obtain rfl : other = transID := (owned found).1.symm.trans (owned here).1
    rw [hidden.tx found]
    exact (commutes key mc found).symm
  · exact hidden.tx found

theorem close (hidden : Hidden hide left right) (transID : Int64) :
    Hidden hide (left.close transID) (right.close transID) := by
  refine ⟨hidden.committed, ?_, hidden.next, fun {other key mc} found => ?_⟩
  · simp only [View.close, hidden.opened]
  · exact hidden.tx (Option.ite_none_left_eq_some.1 found).2

theorem commit (hidden : Hidden hide left right) (transID : Int64)
    (commutes : ∀ key mc, left.opened transID key = some mc →
      (hide transID (left.tx mc)).top = (left.tx mc).top) :
    Hidden hide (left.commit transID) (right.commit transID) := by
  refine ⟨?_, hidden.opened, hidden.next, hidden.tx⟩
  funext key
  simp only [View.commit, hidden.opened, hidden.committed]
  cases found : left.opened transID key with
  | none => rfl
  | some mc => exact congrArg some ((congrArg Stack.top (hidden.tx found)).trans (commutes key mc found))

theorem step (hidden : Hidden hide left right) (owned : left.Owned) {op : Op}
    (commutes : Commutes hide left op) : Hidden hide (left.step op) (right.step op) := by
  cases op with
  | newMc transID key => exact hidden.newMc owned transID key commutes
  | get mc => exact hidden
  | set mc txID data => exact hidden.update commutes
  | dirtyTx mc txID => exact hidden.update commutes
  | commitTrans transID order => exact (hidden.commit transID commutes).close transID
  | dirtyTrans transID => exact hidden.close transID
  | dirtyTransTx transID txID order => exact hidden.dirtyAll owned commutes
  | dirty key order =>
      refine ⟨?_, ?_, hidden.next, fun {transID name mc} found => ?_⟩
      · simp only [View.step, hidden.committed]
      · simp only [View.step, hidden.opened]
      · exact hidden.tx (Option.ite_none_left_eq_some.1 found).2
  | clear => exact ⟨rfl, rfl, hidden.next, fun found => absurd found.symm (Option.some_ne_none _)⟩

end Hidden

def Op.ends (transID : Int64) : Op → Bool
  | .commitTrans other _ => other = transID
  | _ => false

def Op.sets (transID txID : Int64) : Op → Bool
  | .set mc other _ => mc.transID = transID ∧ other = txID
  | _ => false

def erase (transID txID other : Int64) (stack : Stack) : Stack :=
  if other = transID then stack.without txID else stack

/-- What a call of the transaction has to find.  A tx is not set or taken back where
its last entry lies right under the rolled back tx. -/
def Instance.Untangled (transID txID : Int64) (mi : Instance) : Op → Prop
  | .set mc other _ =>
      other ≠ txID → mi.opened transID mc.key = some mc → ¬(mi.tx mc).Covers txID other
  | .dirtyTx mc other =>
      other ≠ txID → mi.opened transID mc.key = some mc → ¬(mi.tx mc).Covers txID other
  | .dirtyTransTx id other _ =>
      other ≠ txID → id = transID → ∀ key mc, mi.opened transID key = some mc →
        ¬(mi.tx mc).Covers txID other
  | _ => True

namespace Instance

variable {mi : Instance} {transID txID : Int64}

theorem erase_of_ne {other : Int64} (different : other ≠ transID) (stack : Stack) :
    erase transID txID other stack = stack := if_neg different

theorem erase_self (stack : Stack) :
    erase transID txID transID stack = stack.without txID := if_pos rfl

theorem erase_snapshot (nonzero : txID ≠ 0) (view : View) (other : Int64) (key : String) :
    erase transID txID other (view.snapshot key) = view.snapshot key := by
  by_cases same : other = transID
  · subst same
    rw [erase_self]
    refine Stack.without_of_forall fun entry member => ?_
    rw [View.snapshot] at member
    split at member
    · rw [List.mem_singleton.1 member]
      exact nonzero.symm
    · exact absurd member List.not_mem_nil
  · exact erase_of_ne same _

theorem erase_dirty {stack : Stack} {other id : Int64}
    (apart : other = transID → id ≠ txID → ¬stack.Covers txID id) :
    erase transID txID other (stack.dirty id) = (erase transID txID other stack).dirty id := by
  by_cases same : other = transID
  · subst same
    rw [erase_self, erase_self]
    by_cases mine : id = txID
    · subst mine
      rw [Stack.without_dirty_self, Stack.dirty_without_self]
    · exact Stack.without_dirty mine (apart rfl mine)
  · rw [erase_of_ne same, erase_of_ne same]

theorem commutes_of_untangled (nonzero : txID ≠ 0) (formed : mi.WellFormed) {op : Op}
    (untangled : mi.Untangled transID txID op) (ongoing : op.ends transID = false)
    (unset : op.sets transID txID = false) :
    Commutes (erase transID txID) mi.view op := by
  have owned := formed.owned_view
  cases op with
  | newMc other key => exact erase_snapshot nonzero mi.view other key
  | get mc => trivial
  | set mc id data =>
      intro other key found
      obtain ⟨mine, named⟩ := owned found
      by_cases same : other = transID
      · subst same
        have different : id ≠ txID := fun equal => by simp [Op.sets, mine, equal] at unset
        rw [erase_self, erase_self]
        exact Stack.without_push different (untangled different (named ▸ found))
      · rw [erase_of_ne same, erase_of_ne same]
  | dirtyTx mc id =>
      intro other key found
      refine erase_dirty fun same different => untangled different ?_
      rw [← same, (owned found).2]
      exact found
  | commitTrans other order =>
      intro key mc found
      rw [erase_of_ne (of_decide_eq_false ongoing)]
  | dirtyTrans other => trivial
  | dirtyTransTx other id order =>
      intro key mc found
      exact erase_dirty fun same different => untangled different same key mc (same ▸ found)
  | dirty key order => trivial
  | clear => trivial

def Matches (hide : Int64 → Stack → Stack) (left right : Instance) : Prop :=
  left.WellFormed ∧ right.WellFormed ∧ Hidden hide left.view right.view

theorem Matches.step {hide : Int64 → Stack → Stack} {left right : Instance}
    (both : Matches hide left right) {op : Op} (commutes : Commutes hide left.view op) :
    Matches hide (left.step op) (right.step op) := by
  obtain ⟨leftFormed, rightFormed, hidden⟩ := both
  refine ⟨wellFormed_step leftFormed op, wellFormed_step rightFormed op, ?_⟩
  rw [view_step leftFormed, view_step rightFormed]
  exact hidden.step leftFormed.owned_view commutes

theorem Matches.set_left {left right : Instance}
    (both : Matches (erase transID txID) left right) {op : Op}
    (set : op.sets transID txID = true) :
    Matches (erase transID txID) (left.step op) right := by
  obtain ⟨leftFormed, rightFormed, hidden⟩ := both
  refine ⟨wellFormed_step leftFormed op, rightFormed, ?_⟩
  rw [view_step leftFormed]
  cases op with
  | set mc id data =>
      obtain ⟨mine, rfl⟩ := of_decide_eq_true set
      refine hidden.update_left fun other key found => ?_
      obtain rfl : other = transID := (leftFormed.owned_view found).1.symm.trans mine
      rw [erase_self, erase_self, Stack.without_push_self]
  | _ => simp [Op.sets] at set

theorem matches_without (nonzero : txID ≠ 0) {ops : List Op}
    (ongoing : ∀ op ∈ ops, op.ends transID = false)
    (untangled : AllSteps step (Untangled transID txID) mi ops)
    (start : Matches (erase transID txID) mi mi) :
    Matches (erase transID txID) (mi.after ops)
      (mi.after (ops.filter fun op => !op.sets transID txID)) := by
  refine run_related (Matches (erase transID txID)) _ ?_ ?_ start
    (untangled.and (allSteps_of_forall ongoing mi))
  · intro left right op both meets stays
    exact both.step (commutes_of_untangled nonzero both.1 meets.1 meets.2
      (Bool.not_eq_true' _ ▸ stays))
  · intro left right op both _ dropped
    exact both.set_left (Bool.not_eq_false' _ ▸ dropped)

theorem Matches.rolledBack {left right : Instance}
    (both : Matches (erase transID txID) left right) (order : Order)
    (only : ∀ key mc, left.opened transID key = some mc → (left.tx mc).OnlyTop txID) :
    Matches (fun _ stack => stack) (left.step (.dirtyTransTx transID txID order))
      (right.step (.dirtyTransTx transID txID order)) := by
  obtain ⟨leftFormed, rightFormed, hidden⟩ := both
  have owned := leftFormed.owned_view
  refine ⟨wellFormed_step leftFormed _, wellFormed_step rightFormed _, ?_⟩
  rw [view_step leftFormed, view_step rightFormed]
  refine ⟨hidden.committed, hidden.opened, hidden.next, fun {other key mc} found => ?_⟩
  simp only [View.step, View.dirtyAll, hidden.opened]
  split_ifs with here
  · obtain rfl : other = transID := (owned found).1.symm.trans (owned here).1
    rw [hidden.tx found, erase_self, Stack.dirty_without_self]
    exact ((only mc.key mc here).dirty_eq).symm
  · have different : other ≠ transID := by
      rintro rfl
      exact here ((owned found).2 ▸ found)
    rw [hidden.tx found, erase_of_ne different]

theorem commutes_same (view : View) (op : Op) : Commutes (fun _ stack => stack) view op := by
  cases op with
  | newMc transID key => rfl
  | get mc => trivial
  | set mc txID data => exact fun _ _ _ => rfl
  | dirtyTx mc txID => exact fun _ _ _ => rfl
  | commitTrans transID order => exact fun _ _ _ => rfl
  | dirtyTrans transID => trivial
  | dirtyTransTx transID txID order => exact fun _ _ _ => rfl
  | dirty key order => trivial
  | clear => trivial

theorem Matches.after {left right : Instance}
    (both : Matches (fun _ stack => stack) left right) (ops : List Op) :
    Matches (fun _ stack => stack) (left.after ops) (right.after ops) := by
  induction ops generalizing left right with
  | nil => exact both
  | cons op rest ih => exact ih (both.step (commutes_same left.view op))

theorem Matches.committed_eq {left right : Instance}
    (both : Matches (fun _ stack => stack) left right) (key : String) :
    left.committed key = right.committed key :=
  congrArg Option.join (congrFun both.2.2.committed key).symm

theorem Matches.value_eq {left right : Instance}
    (both : Matches (fun _ stack => stack) left right) (transID : Int64) (key : String) :
    left.value transID key = right.value transID key := by
  have opened : right.opened transID key = left.opened transID key :=
    congrFun (congrFun both.2.2.opened transID) key
  rw [Instance.value_eq, Instance.value_eq, opened]
  cases found : left.opened transID key with
  | none => exact both.committed_eq key
  | some mc => exact congrArg Stack.top (both.2.2.tx found).symm

/-- After the roll back of a tx nothing shows that the transaction ever set anything
under it, if the calls were untangled and the roll back finds it on top. -/
theorem rollback_erases (past : List Op) {transID txID : Int64} (positive : 1 ≤ txID)
    (fresh : ∀ key mc, (newMcInstance.after past).opened transID key = some mc →
      ∀ entry ∈ (newMcInstance.after past).tx mc, entry.id ≠ txID)
    (ops : List Op) (ongoing : ∀ op ∈ ops, op.ends transID = false) (order : Order)
    (untangled : AllSteps step (Untangled transID txID) (newMcInstance.after past) ops)
    (only : ∀ key mc, ((newMcInstance.after past).after ops).opened transID key = some mc →
      (((newMcInstance.after past).after ops).tx mc).OnlyTop txID) (later : List Op) :
    (∀ other key,
      ((newMcInstance.after past).after
          (ops ++ .dirtyTransTx transID txID order :: later)).value other key =
        ((newMcInstance.after past).after (ops.filter (fun op => !op.sets transID txID) ++
          .dirtyTransTx transID txID order :: later)).value other key) ∧
    ∀ key,
      ((newMcInstance.after past).after
          (ops ++ .dirtyTransTx transID txID order :: later)).committed key =
        ((newMcInstance.after past).after (ops.filter (fun op => !op.sets transID txID) ++
          .dirtyTransTx transID txID order :: later)).committed key := by
  have nonzero : txID ≠ 0 := by
    rintro rfl
    exact absurd positive (by decide)
  have formed := wellFormed_after wellFormed_newMcInstance past
  have start : Matches (erase transID txID) (newMcInstance.after past)
      (newMcInstance.after past) := by
    refine ⟨formed, formed, rfl, rfl, rfl, fun {other key mc} found => ?_⟩
    by_cases same : other = transID
    · subst same
      rw [erase_self]
      exact (Stack.without_of_forall (fresh key mc found)).symm
    · rw [erase_of_ne same]
  have apart := matches_without nonzero ongoing untangled start
  have rolledBack := (apart.rolledBack order only).after later
  rw [after_append, after_append]
  exact ⟨rolledBack.value_eq, rolledBack.committed_eq⟩

theorem rollback_erases_last :
    (1 : Int64) ≤ 2 ∧
      (newMcInstance.after [.newMc 1 "k", .set ⟨1, "k", 0⟩ 1 (some [1]),
          .set ⟨1, "k", 0⟩ 2 (some [2]), .dirtyTransTx 1 2 .stored]).value 1 "k" =
        (newMcInstance.after [.newMc 1 "k", .set ⟨1, "k", 0⟩ 1 (some [1]),
          .dirtyTransTx 1 2 .stored]).value 1 "k" := by
  have untangled : AllSteps step (Untangled 1 2) newMcInstance
      [.newMc 1 "k", .set ⟨1, "k", 0⟩ 1 (some [1]), .set ⟨1, "k", 0⟩ 2 (some [2])] := by
    refine ⟨trivial, fun _ _ => ?_, fun different => absurd rfl different, trivial⟩
    decide +kernel
  refine ⟨by decide, (rollback_erases [] (by decide)
    (fun _ mc found => absurd found.symm (Option.some_ne_none mc))
    [.newMc 1 "k", .set ⟨1, "k", 0⟩ 1 (some [1]), .set ⟨1, "k", 0⟩ 2 (some [2])]
    (by decide) .stored untangled (fun key mc found => ?_) []).1 1 "k"⟩
  obtain ⟨_, rfl⟩ := Prod.mk.inj (List.mem_singleton.1 (mem_of_lookup found))
  decide +kernel

/-- The first of two txs is taken back while the second one covers it. -/
def covered : List Op :=
  [.newMc 1 "k", .set ⟨1, "k", 0⟩ 1 (some [1]), .set ⟨1, "k", 0⟩ 2 (some [2])]

/-- Its value shows when the second one is taken back as well. -/
theorem covered_survives :
    (newMcInstance.after (covered ++ [.dirtyTransTx 1 1 .stored, .dirtyTransTx 1 2 .stored])).value
        1 "k" = some [1] ∧
      (newMcInstance.after (covered.filter (fun op => !op.sets 1 1) ++
        [.dirtyTransTx 1 1 .stored, .dirtyTransTx 1 2 .stored])).value 1 "k" = none := by
  decide +kernel

end Instance

end Bclib.Mc
