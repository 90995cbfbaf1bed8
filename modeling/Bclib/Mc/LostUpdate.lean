import Bclib.Mc.View

namespace Bclib.Mc

open Data

/-! What a commit may change.  `CommitTrans` writes the last value of every cache the
transaction has open, the keys it only read included. -/

/-- The call takes back what the cache was set to under the tx. -/
def Op.Dirties (mc : MemCache) (txID : Int64) : Op → Prop
  | .dirtyTx other id => other = mc ∧ id = txID
  | .dirtyTransTx transID id _ => transID = mc.transID ∧ id = txID
  | .dirtyTrans transID => transID = mc.transID
  | _ => False

/-- The cache was set under the tx, and that was not taken back later. -/
def SetUnder (past : List Op) (mc : MemCache) (txID : Int64) : Prop :=
  ∃ data early late, past = early ++ .set mc txID data :: late ∧
    ∀ op ∈ late, ¬op.Dirties mc txID

namespace SetUnder

variable {past : List Op} {mc : MemCache} {txID : Int64}

theorem last (past : List Op) (mc : MemCache) (txID : Int64) (data : Bytes) :
    SetUnder (past ++ [.set mc txID data]) mc txID :=
  ⟨data, past, [], rfl, fun _ member => absurd member List.not_mem_nil⟩

theorem concat (set : SetUnder past mc txID) {op : Op} (keeps : ¬op.Dirties mc txID) :
    SetUnder (past ++ [op]) mc txID := by
  obtain ⟨data, early, late, rfl, kept⟩ := set
  refine ⟨data, early, late ++ [op], by simp, fun other member => ?_⟩
  rcases List.mem_append.1 member with before | now
  · exact kept other before
  · exact List.mem_singleton.1 now ▸ keeps

end SetUnder

namespace Stack

/-- The tx has no entry below the top. -/
def OnlyTop (txID : Int64) (stack : Stack) : Prop :=
  ∀ entry ∈ stack.tail, entry.id ≠ txID

instance (txID : Int64) : DecidablePred (OnlyTop txID) := fun stack =>
  inferInstanceAs (Decidable (∀ entry ∈ stack.tail, entry.id ≠ txID))

/-- The stack has these entries, and at most one below them. -/
def Tops (set stack : Stack) : Prop := ∃ below, stack = set ++ below ∧ below.length ≤ 1

theorem Tops.push {set stack : Stack} (tops : set.Tops stack) (txID : Int64) (data : Bytes) :
    (set.push txID data).Tops (stack.push txID data) := by
  obtain ⟨below, rfl, small⟩ := tops
  cases set with
  | cons first rest =>
      refine ⟨below, ?_, small⟩
      rw [List.cons_append, Stack.push, Stack.push]
      split_ifs
      · rfl
      · rfl
  | nil =>
      cases below with
      | nil => exact ⟨[], rfl, Nat.zero_le 1⟩
      | cons first rest =>
          obtain rfl := List.length_eq_zero_iff.1 (Nat.le_zero.1 (Nat.le_of_succ_le_succ small))
          rw [List.nil_append, Stack.push, Stack.push]
          split_ifs
          · exact ⟨[], rfl, Nat.zero_le 1⟩
          · exact ⟨[first], rfl, Nat.le_refl 1⟩

theorem Tops.dirty {set stack : Stack} (tops : set.Tops stack) (txID : Int64) :
    (set.dirty txID).Tops (stack.dirty txID) := by
  obtain ⟨below, rfl, small⟩ := tops
  cases set with
  | cons first rest =>
      refine ⟨below, ?_, small⟩
      rw [List.cons_append, Stack.dirty, Stack.dirty]
      split_ifs
      · rfl
      · rfl
  | nil =>
      cases below with
      | nil => exact ⟨[], rfl, Nat.zero_le 1⟩
      | cons first rest =>
          rw [List.nil_append, Stack.dirty, Stack.dirty]
          split_ifs
          · exact ⟨rest, rfl, Nat.le_of_succ_le small⟩
          · exact ⟨first :: rest, rfl, small⟩

theorem mem_push {txID : Int64} {data : Bytes} {stack : Stack} {entry : TxCache}
    (member : entry ∈ stack.push txID data) : entry.id = txID ∨ entry ∈ stack := by
  cases stack with
  | nil =>
      rw [List.mem_singleton.1 member]
      exact .inl rfl
  | cons first rest =>
      rw [push] at member
      split_ifs at member with same
      · rcases List.mem_cons.1 member with rfl | later
        · exact .inl rfl
        · exact .inr (List.mem_cons_of_mem _ later)
      · rcases List.mem_cons.1 member with rfl | later
        · exact .inl rfl
        · exact .inr later

theorem mem_dirty {txID : Int64} {stack : Stack} {entry : TxCache}
    (member : entry ∈ stack.dirty txID) : entry ∈ stack := by
  cases stack with
  | nil => exact member
  | cons first rest =>
      rw [dirty] at member
      split_ifs at member with same
      · exact List.mem_cons_of_mem _ member
      · exact member

theorem OnlyTop.ne_of_mem_dirty {txID : Int64} {stack : Stack} (only : stack.OnlyTop txID)
    {entry : TxCache} (member : entry ∈ stack.dirty txID) : entry.id ≠ txID := by
  cases stack with
  | nil => exact absurd member List.not_mem_nil
  | cons first rest =>
      rw [dirty] at member
      split_ifs at member with same
      · exact only entry member
      · rcases List.mem_cons.1 member with rfl | later
        · exact same
        · exact only entry later

end Stack

/-- Two views of one instance that differ in what was committed and in what caches started with. -/
structure View.Above (bare view : View) : Prop where
  opened : bare.opened = view.opened
  next : bare.next = view.next
  nothing : ∀ key, bare.committed key = none
  tops : ∀ mc, (bare.tx mc).Tops (view.tx mc)

theorem View.Above.step {bare view : View} (above : bare.Above view) (op : Op) (mc : MemCache) :
    ((bare.step op).tx mc).Tops ((view.step op).tx mc) := by
  obtain ⟨opened, next, nothing, tops⟩ := above
  have updated : ∀ {other : MemCache} {set stack : Stack}, set.Tops stack →
      (Function.update bare.tx other set mc).Tops (Function.update view.tx other stack mc) := by
    intro other set stack changed
    by_cases same : mc = other
    · rw [same, Function.update_self, Function.update_self]
      exact changed
    · rw [Function.update_of_ne same, Function.update_of_ne same]
      exact tops mc
  cases op with
  | newMc transID key =>
      rw [View.step, View.step, View.newMc, View.newMc, opened, next]
      cases view.opened transID key with
      | some _ => exact tops mc
      | none =>
          refine updated ⟨view.snapshot key, ?_, ?_⟩
          · rw [View.snapshot, View.snapshot, nothing, List.nil_append]
          · rw [View.snapshot]
            split
            · exact Nat.le_refl 1
            · exact Nat.zero_le 1
  | set other txID data => exact updated ((tops other).push txID data)
  | dirtyTx other txID => exact updated ((tops other).dirty txID)
  | dirtyTransTx transID txID order =>
      simp only [View.step, View.dirtyAll, opened]
      split_ifs
      · exact (tops mc).dirty txID
      · exact tops mc
  | _ => exact tops mc

/-- An instance, and the entries of its caches that were set.  Below them a cache has at most
the entry that `newmc` makes of the committed value. -/
structure Tracked where
  mi : Instance
  sets : MemCache → Stack
  formed : mi.WellFormed
  tops : ∀ mc, (sets mc).Tops (mi.tx mc)

namespace Tracked

/-- The instance as it would be if new caches were empty. -/
def bare (s : Tracked) : View := { s.mi.view with committed := fun _ => none, tx := s.sets }

theorem above_bare (s : Tracked) : s.bare.Above s.mi.view := ⟨rfl, rfl, fun _ => rfl, s.tops⟩

def start : Tracked where
  mi := newMcInstance
  sets := fun _ => []
  formed := Instance.wellFormed_newMcInstance
  tops := fun _ => ⟨[], rfl, Nat.zero_le 1⟩

def step (s : Tracked) (op : Op) : Tracked where
  mi := s.mi.step op
  sets := (s.bare.step op).tx
  formed := Instance.wellFormed_step s.formed op
  tops := by
    have seen : (s.mi.step op).tx = (s.mi.view.step op).tx :=
      congrArg View.tx (Instance.view_step s.formed op)
    rw [seen]
    exact s.above_bare.step op

theorem mi_run (ops : List Op) : (run step start ops).mi = newMcInstance.after ops :=
  @run_commutes _ _ step _ Instance.step mi (fun _ => True) (fun _ _ _ => trivial)
    (fun _ _ _ => rfl) start trivial ops

/-- What a call has to find.  A tx that is taken back is the last one that set each
cache, and a commit finds the caches that are not set as up to date as they were
opened. -/
def Orderly (s : Tracked) : Op → Prop
  | .dirtyTx mc txID => (s.sets mc).OnlyTop txID
  | .dirtyTransTx transID txID _ =>
      ∀ key mc, s.mi.opened transID key = some mc → (s.sets mc).OnlyTop txID
  | .commitTrans transID _ =>
      ∀ key mc, s.mi.opened transID key = some mc → s.sets mc = [] →
        (s.mi.tx mc).top = s.mi.committed key
  | _ => True

end Tracked

/-- Every entry of an open cache was set and not taken back. -/
def Recorded (past : List Op) (view : View) : Prop :=
  ∀ transID key mc, view.opened transID key = some mc →
    ∀ entry ∈ view.tx mc, SetUnder past mc entry.id

namespace Recorded

variable {view : View} {past : List Op} (recorded : Recorded past view)

include recorded

theorem frame {op : Op} {next : View} (tx : next.tx = view.tx)
    (opened : ∀ transID key mc, next.opened transID key = some mc →
      view.opened transID key = some mc)
    (quiet : ∀ transID key mc, next.opened transID key = some mc →
      ∀ txID, ¬op.Dirties mc txID) :
    Recorded (past ++ [op]) next := by
  intro transID key mc found entry member
  rw [tx] at member
  exact (recorded transID key mc (opened transID key mc found) entry member).concat
    (quiet transID key mc found entry.id)

theorem newMc (transID : Int64) (key : String) (nothing : view.committed key = none) :
    Recorded (past ++ [.newMc transID key]) (view.newMc transID key) := by
  have quiet : ∀ mc txID, ¬(Op.newMc transID key).Dirties mc txID := fun _ _ dirties => dirties
  cases isOpen : view.opened transID key with
  | some _ =>
      rw [View.newMc, isOpen]
      exact recorded.frame rfl (fun _ _ _ found => found) fun _ _ mc _ => quiet mc
  | none =>
      rw [View.newMc, isOpen]
      intro other name mc found entry member
      by_cases new : mc = ⟨transID, key, view.next⟩
      · subst new
        simp only [Function.update_self, View.snapshot, nothing] at member
        exact absurd member List.not_mem_nil
      · simp only [Function.update_of_ne new] at member
        simp only at found
        split_ifs at found with same
        · exact absurd (Option.some.inj found).symm new
        · exact (recorded other name mc found entry member).concat (quiet mc entry.id)

theorem set (mc : MemCache) (txID : Int64) (data : Bytes) :
    Recorded (past ++ [.set mc txID data]) (view.update mc (Stack.push txID data)) := by
  have quiet : ∀ other id, ¬(Op.set mc txID data).Dirties other id := fun _ _ dirties => dirties
  intro transID key other found entry member
  by_cases same : other = mc
  · subst same
    simp only [View.update, Function.update_self] at member
    rcases Stack.mem_push member with new | old
    · exact new ▸ .last past other txID data
    · exact (recorded transID key other found entry old).concat (quiet other entry.id)
  · simp only [View.update, Function.update_of_ne same] at member
    exact (recorded transID key other found entry member).concat (quiet other entry.id)

theorem dirtyTx {mc : MemCache} {txID : Int64} (only : (view.tx mc).OnlyTop txID) :
    Recorded (past ++ [.dirtyTx mc txID]) (view.update mc (Stack.dirty txID)) := by
  intro transID key other found entry member
  by_cases same : other = mc
  · subst same
    simp only [View.update, Function.update_self] at member
    refine (recorded transID key other found entry (Stack.mem_dirty member)).concat ?_
    exact fun dirties => only.ne_of_mem_dirty member dirties.2.symm
  · simp only [View.update, Function.update_of_ne same] at member
    refine (recorded transID key other found entry member).concat ?_
    exact fun dirties => same dirties.1.symm

theorem dirtyAll (owned : view.Owned) {transID txID : Int64} (order : Order)
    (only : ∀ key mc, view.opened transID key = some mc → (view.tx mc).OnlyTop txID) :
    Recorded (past ++ [.dirtyTransTx transID txID order]) (view.dirtyAll transID txID) := by
  intro other key mc found entry member
  obtain ⟨mine, named⟩ := owned found
  by_cases here : view.opened transID mc.key = some mc
  · simp only [View.dirtyAll, if_pos here] at member
    refine (recorded other key mc found entry (Stack.mem_dirty member)).concat ?_
    exact fun dirties => (only mc.key mc here).ne_of_mem_dirty member dirties.2.symm
  · simp only [View.dirtyAll, if_neg here] at member
    refine (recorded other key mc found entry member).concat fun dirties => here ?_
    rw [dirties.1, mine, named]
    exact found

end Recorded

namespace Tracked

theorem recorded_step {s : Tracked} {past : List Op} (recorded : Recorded past s.bare) {op : Op}
    (orderly : s.Orderly op) : Recorded (past ++ [op]) (s.bare.step op) := by
  have owned : s.bare.Owned := s.formed.owned_view
  cases op with
  | newMc transID key => exact recorded.newMc transID key rfl
  | get mc => exact recorded.frame rfl (fun _ _ _ found => found) fun _ _ _ _ _ dirties => dirties
  | set mc txID data => exact recorded.set mc txID data
  | dirtyTx mc txID => exact recorded.dirtyTx orderly
  | commitTrans transID order =>
      refine recorded.frame rfl (fun other key mc found => ?_) fun _ _ _ _ _ dirties => dirties
      exact (Option.ite_none_left_eq_some.1 found).2
  | dirtyTrans transID =>
      refine recorded.frame rfl (fun _ _ _ found => ?_) fun _ _ _ found _ dirties => ?_
      · exact (Option.ite_none_left_eq_some.1 found).2
      · obtain ⟨different, before⟩ := Option.ite_none_left_eq_some.1 found
        exact different ((owned before).1.symm.trans dirties.symm)
  | dirtyTransTx transID txID order => exact recorded.dirtyAll owned order orderly
  | dirty key order =>
      refine recorded.frame rfl (fun other name mc found => ?_) fun _ _ _ _ _ dirties => dirties
      exact (Option.ite_none_left_eq_some.1 found).2
  | clear =>
      refine recorded.frame rfl (fun other name mc found => ?_) fun _ _ _ _ _ dirties => dirties
      exact nomatch found

theorem opened_bare_step (s : Tracked) (op : Op) :
    (s.step op).bare.opened = (s.bare.step op).opened := by
  refine (congrArg View.opened (Instance.view_step s.formed op)).trans ?_
  cases op with
  | newMc transID key =>
      have same : s.bare.opened = s.mi.view.opened := rfl
      rw [View.step, View.step, View.newMc, View.newMc, same]
      cases s.mi.view.opened transID key with
      | some mc => rfl
      | none => rfl
  | _ => rfl

theorem recorded_run {ops : List Op} (orderly : AllSteps step Orderly start ops) :
    Recorded ops (run step start ops).bare := by
  have begun : Recorded [] start.bare := fun _ _ mc found =>
    absurd found.symm (Option.some_ne_none mc)
  refine run_keeps_history (fun past s => Recorded past s.bare) ?_ begun orderly
  intro past s op recorded meets transID key mc found
  rw [opened_bare_step] at found
  exact recorded_step recorded meets transID key mc found

end Tracked

namespace Instance

/-- Transaction 1 sets a key, and transaction 2, which is open before and after the commit of
transaction 1, reads it. -/
def setAndRead : List Op :=
  [.newMc 1 "k", .newMc 2 "j", .set ⟨1, "k", 0⟩ 0 (some [7]), .commitTrans 1 .stored,
    .newMc 2 "k", .get ⟨2, "k", 2⟩, .commitTrans 2 .stored]

/-- Transaction 1 opens a key that transaction 2 sets and commits. -/
def staleReader : List Op :=
  [.newMc 1 "k", .newMc 2 "k", .set ⟨2, "k", 1⟩ 1 (some [7]), .commitTrans 2 .stored]

end Instance

end Bclib.Mc
