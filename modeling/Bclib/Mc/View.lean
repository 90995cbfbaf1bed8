import Bclib.Mc.Cache

namespace Bclib.Mc

open Data

/-! What can be seen of an instance.  Its maps are functions here, and a loop over
a map is what it does for each key, whatever the order. -/

@[ext] structure View where
  committed : String → Option Bytes
  opened : Int64 → String → Option MemCache
  tx : MemCache → Stack
  next : Nat

namespace View

/-- What a new cache of the key starts with. -/
def snapshot (view : View) (key : String) : Stack :=
  match view.committed key with
  | some v => [⟨0, v⟩]
  | none => []

def newMc (view : View) (transID : Int64) (key : String) : View :=
  match view.opened transID key with
  | some _ => view
  | none =>
      { view with
        opened := fun other name =>
          if other = transID ∧ name = key then some ⟨transID, key, view.next⟩
          else view.opened other name
        tx := Function.update view.tx ⟨transID, key, view.next⟩ (view.snapshot key)
        next := view.next + 1 }

def update (view : View) (mc : MemCache) (change : Stack → Stack) : View :=
  { view with tx := Function.update view.tx mc (change (view.tx mc)) }

def close (view : View) (transID : Int64) : View :=
  { view with
    opened := fun other key => if other = transID then none else view.opened other key }

def commit (view : View) (transID : Int64) : View :=
  { view with
    committed := fun key =>
      match view.opened transID key with
      | some mc => some (view.tx mc).top
      | none => view.committed key }

def dirtyAll (view : View) (transID txID : Int64) : View :=
  { view with
    tx := fun mc =>
      if view.opened transID mc.key = some mc then (view.tx mc).dirty txID
      else view.tx mc }

def step (view : View) : Op → View
  | .newMc transID key => view.newMc transID key
  | .get _ => view
  | .set mc txID data => view.update mc (Stack.push txID data)
  | .dirtyTx mc txID => view.update mc (Stack.dirty txID)
  | .commitTrans transID _ => (view.commit transID).close transID
  | .dirtyTrans transID => view.close transID
  | .dirtyTransTx transID txID _ => view.dirtyAll transID txID
  | .dirty key _ =>
      { view with
        committed := fun name => if name = key then none else view.committed name
        opened := fun transID name => if name = key then none else view.opened transID name }
  | .clear => { view with committed := fun _ => none, opened := fun _ _ => none }

/-- A cache is open for the transaction and the key it was made for. -/
def Owned (view : View) : Prop :=
  ∀ ⦃transID key mc⦄, view.opened transID key = some mc → mc.transID = transID ∧ mc.key = key

end View

namespace Instance

def caches (mi : Instance) (transID : Int64) : List (String × MemCache) :=
  (mi.mcCache.lookup transID).getD []

def view (mi : Instance) : View where
  committed := fun key => mi.llCache.lookup key
  opened := mi.opened
  tx := mi.tx
  next := mi.next

/-- Every cache is stored once, under the transaction and the key it was made for. -/
structure WellFormed (mi : Instance) : Prop where
  distinct : ∀ transID, ((mi.caches transID).map Prod.fst).Nodup
  owned : ∀ transID, ∀ entry ∈ mi.caches transID,
    entry.2.transID = transID ∧ entry.2.key = entry.1

theorem wellFormed_newMcInstance : newMcInstance.WellFormed :=
  ⟨fun _ => List.nodup_nil, fun _ _ member => absurd member List.not_mem_nil⟩

theorem WellFormed.mem_iff {mi : Instance} (formed : mi.WellFormed) {transID : Int64}
    {mc : MemCache} : mc ∈ (mi.caches transID).map Prod.snd ↔
      mi.opened transID mc.key = some mc := by
  rw [opened, ← caches, lookup_eq_some_iff_mem (formed.distinct transID)]
  constructor
  · intro member
    obtain ⟨entry, found, rfl⟩ := List.mem_map.1 member
    rw [(formed.owned transID entry found).2]
    exact found
  · intro found
    exact List.mem_map.2 ⟨_, found, rfl⟩

theorem WellFormed.owned_view {mi : Instance} (formed : mi.WellFormed) : mi.view.Owned := by
  intro transID key mc found
  exact formed.owned transID (key, mc) (mem_of_lookup found)

section NewMc

variable {mi : Instance} {transID : Int64} {key : String}

theorem newMc_of_opened {mc : MemCache} (found : mi.opened transID key = some mc) :
    mi.newMc transID key = (mc, mi) := by
  rw [opened] at found
  cases known : mi.mcCache.lookup transID with
  | none => simp [known] at found
  | some mcs =>
      rw [known] at found
      simp only [newMc, known]
      rw [found]

private theorem newmc_eq (mi : Instance) (transid : Int64) (key : String) :
    mi.newmc transid key = (⟨transid, key, mi.next⟩,
      { mi with
        tx := Function.update mi.tx ⟨transid, key, mi.next⟩ (mi.view.snapshot key)
        next := mi.next + 1 }) := rfl

structure Made (mi : Instance) (transID : Int64) (key : String)
    (result : MemCache × Instance) : Prop where
  cache : result.1 = ⟨transID, key, mi.next⟩
  llCache : result.2.llCache = mi.llCache
  tx : result.2.tx = Function.update mi.tx ⟨transID, key, mi.next⟩ (mi.view.snapshot key)
  next : result.2.next = mi.next + 1
  caches : ∀ other, result.2.caches other =
    if other = transID then assocSet (mi.caches transID) key ⟨transID, key, mi.next⟩
    else mi.caches other

theorem newMc_of_closed (absent : mi.opened transID key = none) :
    Made mi transID key (mi.newMc transID key) := by
  rw [opened] at absent
  cases known : mi.mcCache.lookup transID with
  | none =>
      have here : (assocSet mi.mcCache transID []).lookup transID = some [] := by
        rw [lookup_assocSet, if_pos rfl]
      simp only [newMc, known, here, Option.getD_some, List.lookup_nil, newmc_eq]
      refine ⟨rfl, rfl, rfl, rfl, fun other => ?_⟩
      simp only [caches, lookup_assocSet, known]
      split_ifs
      · rfl
      · rfl
  | some mcs =>
      rw [known, Option.getD_some] at absent
      simp only [newMc, known, Option.getD_some, absent, newmc_eq]
      refine ⟨rfl, rfl, rfl, rfl, fun other => ?_⟩
      simp only [caches, lookup_assocSet, known]
      split_ifs
      · rfl
      · rfl

end NewMc

theorem foldl_dirtyTx {entries : List (String × MemCache)}
    (distinct : (entries.map Prod.snd).Nodup) (txID : Int64) (mi : Instance) :
    entries.foldl (fun mi entry => mi.dirtyTx entry.2 txID) mi =
      { mi with
        tx := fun mc =>
          if mc ∈ entries.map Prod.snd then (mi.tx mc).dirty txID else mi.tx mc } := by
  induction entries generalizing mi with
  | nil => simp
  | cons entry rest ih =>
      rw [List.map_cons, List.nodup_cons] at distinct
      rw [List.foldl_cons, ih distinct.2]
      simp only [dirtyTx, List.map_cons, List.mem_cons]
      congr 1
      funext mc
      by_cases same : mc = entry.2
      · subst same
        rw [if_neg distinct.1, if_pos (.inl rfl), Function.update_self]
      · rw [Function.update_of_ne same]
        simp only [same, false_or]

theorem dirtyLoop_eq {mcs : List (String × MemCache)} (key : String) (order : Order)
    (owned : ∀ entry ∈ mcs, entry.2.key = entry.1) :
    dirtyLoop key order mcs = assocErase mcs key := by
  have loop : ∀ (entries left : List (String × MemCache)),
      entries.foldl (fun left entry =>
          if entry.2.key = key then assocErase left key else left) left =
        if entries.any (fun entry => entry.2.key = key) then assocErase left key else left := by
    intro entries
    induction entries with
    | nil => exact fun _ => rfl
    | cons entry rest ih =>
        intro left
        have again : assocErase (assocErase left key) key = assocErase left key := by
          simp [assocErase]
        rw [List.foldl_cons, ih, List.any_cons]
        by_cases here : entry.2.key = key
        · rw [if_pos here, decide_eq_true here, Bool.true_or, if_pos rfl, again, ite_self]
        · rw [if_neg here, decide_eq_false here, Bool.false_or]
  rw [dirtyLoop, loop]
  split_ifs with present
  · rfl
  · refine (List.filter_eq_self.2 fun entry member => ?_).symm
    refine decide_eq_true fun same => present (List.any_eq_true.2 ⟨entry, ?_, ?_⟩)
    · exact (order.perm mcs).mem_iff.2 member
    · exact decide_eq_true ((owned entry member).trans same)

section Loops

variable {mi : Instance} (formed : mi.WellFormed)

include formed

theorem WellFormed.nodup_caches (transID : Int64) :
    ((mi.caches transID).map Prod.snd).Nodup := by
  refine List.Nodup.of_map MemCache.key ?_
  rw [List.map_map, List.map_congr_left fun entry member =>
    show (MemCache.key ∘ Prod.snd) entry = Prod.fst entry from
      (formed.owned transID entry member).2]
  exact formed.distinct transID

theorem dirtyTransTx_eq (transID txID : Int64) (order : Order) :
    mi.dirtyTransTx transID txID order =
      { mi with tx := (mi.view.dirtyAll transID txID).tx } := by
  have perm := (order.perm (mi.caches transID)).map Prod.snd
  have loop := foldl_dirtyTx (perm.nodup_iff.2 (formed.nodup_caches transID)) txID mi
  refine loop.trans ?_
  congr 1
  funext mc
  simp only [perm.mem_iff, formed.mem_iff]
  rfl

theorem lookup_commitTrans (transID : Int64) (order : Order) (key : String) :
    (mi.commitTrans transID order).llCache.lookup key =
      (mi.view.commit transID).committed key := by
  have read : mi.view.opened transID key = (mi.caches transID).lookup key := rfl
  simp only [View.commit, read]
  cases known : mi.mcCache.lookup transID with
  | none =>
      simp only [commitTrans, known, caches, Option.getD_none, List.lookup_nil]
      rfl
  | some mcs =>
      have here : mi.caches transID = mcs := by rw [caches, known, Option.getD_some]
      have distinct := formed.distinct transID
      have owned := formed.owned transID
      rw [here] at distinct owned ⊢
      have named : (mcs.map fun entry => (entry.2.key, (mi.tx entry.2).top)) =
          mcs.map fun entry => (entry.1, (mi.tx entry.2).top) :=
        List.map_congr_left fun entry member => by rw [(owned entry member).2]
      have keys : ((mcs.map fun entry => (entry.1, (mi.tx entry.2).top)).map Prod.fst).Nodup := by
        rw [List.map_map]
        exact distinct
      have perm := (order.perm mcs).map fun entry => (entry.2.key, (mi.tx entry.2).top)
      rw [named] at perm
      have enumerated := (perm.map Prod.fst).nodup_iff.2 keys
      have loop := lookup_foldl_assocSet enumerated mi.llCache key
      rw [List.foldl_map, lookup_eq_of_perm enumerated perm,
        lookup_map_values fun mc => (mi.tx mc).top] at loop
      simp only [commitTrans, known]
      rw [loop]
      cases mcs.lookup key with
      | none => rfl
      | some mc => rfl

end Loops

theorem opened_eq (mi : Instance) (transID : Int64) (key : String) :
    mi.opened transID key = (mi.caches transID).lookup key := rfl

theorem caches_erase (mi : Instance) (transID other : Int64) :
    ((assocErase mi.mcCache transID).lookup other).getD [] =
      if other = transID then [] else mi.caches other := by
  rw [lookup_assocErase, caches]
  split_ifs
  · rfl
  · rfl

theorem caches_dirty {mi : Instance} (formed : mi.WellFormed) (key : String) (order : Order)
    (transID : Int64) :
    (mi.dirty key order).caches transID = assocErase (mi.caches transID) key := by
  rw [caches, dirty, lookup_map_values]
  cases known : mi.mcCache.lookup transID with
  | none => simp [caches, known, assocErase]
  | some mcs =>
      have here : mi.caches transID = mcs := by rw [caches, known, Option.getD_some]
      have owned := formed.owned transID
      rw [here] at owned ⊢
      exact dirtyLoop_eq key order fun entry member => (owned entry member).2

theorem caches_commitTrans (mi : Instance) (transID : Int64) (order : Order) (other : Int64) :
    (mi.commitTrans transID order).caches other =
      if other = transID then [] else mi.caches other := by
  cases known : mi.mcCache.lookup transID with
  | none =>
      simp only [commitTrans, known]
      split_ifs with same
      · rw [same, caches, known, Option.getD_none]
      · rfl
  | some mcs =>
      simp only [commitTrans, known]
      exact caches_erase mi transID other

private theorem lookup_closed (mi : Instance) (transID other : Int64) (key : String) :
    (if other = transID then [] else mi.caches other).lookup key =
      (mi.view.close transID).opened other key := by
  rw [View.close]
  split_ifs with same
  · exact (if_pos same).symm
  · exact (if_neg same).symm

theorem view_newMc (mi : Instance) (transID : Int64) (key : String) :
    (mi.newMc transID key).2.view = mi.view.newMc transID key := by
  have read : mi.view.opened transID key = mi.opened transID key := rfl
  rw [View.newMc, read]
  cases found : mi.opened transID key with
  | some mc => rw [newMc_of_opened found]
  | none =>
      have made := newMc_of_closed found
      refine View.ext ?_ ?_ made.tx made.next
      · funext name
        exact congrArg (List.lookup name) made.llCache
      · funext other name
        change (mi.newMc transID key).2.opened other name =
          if other = transID ∧ name = key then some ⟨transID, key, mi.next⟩
          else mi.opened other name
        rw [opened_eq, made.caches, opened_eq]
        by_cases same : other = transID
        · subst same
          rw [if_pos rfl, lookup_assocSet]
          simp only [true_and]
        · rw [if_neg same, if_neg fun both => same both.1]

theorem view_step {mi : Instance} (formed : mi.WellFormed) (op : Op) :
    (mi.step op).view = mi.view.step op := by
  cases op with
  | newMc transID key => exact view_newMc mi transID key
  | get mc => rfl
  | set mc txID data => rfl
  | dirtyTx mc txID => rfl
  | commitTrans transID order =>
      have rest : (mi.commitTrans transID order).tx = mi.tx ∧
          (mi.commitTrans transID order).next = mi.next := by
        rw [commitTrans]
        split
        · exact ⟨rfl, rfl⟩
        · exact ⟨rfl, rfl⟩
      refine View.ext ?_ ?_ rest.1 rest.2
      · funext key
        exact lookup_commitTrans formed transID order key
      · funext other key
        change (mi.commitTrans transID order).opened other key = _
        rw [opened_eq, caches_commitTrans]
        exact lookup_closed mi transID other key
  | dirtyTrans transID =>
      refine View.ext rfl ?_ rfl rfl
      funext other key
      change (mi.dirtyTrans transID).opened other key = _
      rw [opened, dirtyTrans, caches_erase]
      exact lookup_closed mi transID other key
  | dirtyTransTx transID txID order =>
      rw [step, dirtyTransTx_eq formed]
      rfl
  | dirty key order =>
      refine View.ext ?_ ?_ rfl rfl
      · funext name
        exact lookup_assocErase mi.llCache key name
      · funext transID name
        change (mi.dirty key order).opened transID name = _
        rw [opened_eq, caches_dirty formed, lookup_assocErase]
        rfl
  | clear => rfl

theorem wellFormed_of_sublist {mi next : Instance} (formed : mi.WellFormed)
    (fewer : ∀ transID, (next.caches transID).Sublist (mi.caches transID)) :
    next.WellFormed where
  distinct transID := ((fewer transID).map Prod.fst).nodup (formed.distinct transID)
  owned transID entry member := formed.owned transID entry ((fewer transID).subset member)

private theorem ite_sublist (transID other : Int64) (mi : Instance) :
    (if other = transID then [] else mi.caches other).Sublist (mi.caches other) := by
  split_ifs
  · exact List.nil_sublist _
  · exact .refl _

theorem wellFormed_newMc {mi : Instance} (formed : mi.WellFormed) (transID : Int64)
    (key : String) : (mi.newMc transID key).2.WellFormed := by
  cases found : mi.opened transID key with
  | some mc =>
      rw [newMc_of_opened found]
      exact formed
  | none =>
      have made := newMc_of_closed found
      refine ⟨fun other => ?_, fun other entry member => ?_⟩
      · rw [made.caches]
        split_ifs
        · exact nodup_assocSet (formed.distinct transID) key _
        · exact formed.distinct other
      · rw [made.caches] at member
        split_ifs at member with same
        · rcases mem_assocSet member with rfl | old
          · exact ⟨same.symm, rfl⟩
          · exact same ▸ formed.owned transID entry old
        · exact formed.owned other entry member

theorem wellFormed_step {mi : Instance} (formed : mi.WellFormed) (op : Op) :
    (mi.step op).WellFormed := by
  cases op with
  | newMc transID key => exact wellFormed_newMc formed transID key
  | get mc => exact formed
  | set mc txID data => exact wellFormed_of_sublist formed fun _ => .refl _
  | dirtyTx mc txID => exact wellFormed_of_sublist formed fun _ => .refl _
  | commitTrans transID order =>
      refine wellFormed_of_sublist formed fun other => ?_
      rw [step, caches_commitTrans]
      exact ite_sublist transID other mi
  | dirtyTrans transID =>
      refine wellFormed_of_sublist formed fun other => ?_
      rw [step, dirtyTrans, caches, caches_erase]
      exact ite_sublist transID other mi
  | dirtyTransTx transID txID order =>
      rw [step, dirtyTransTx_eq formed]
      exact wellFormed_of_sublist formed fun _ => .refl _
  | dirty key order =>
      refine wellFormed_of_sublist formed fun other => ?_
      rw [step, caches_dirty formed]
      exact List.filter_sublist
  | clear => exact wellFormed_of_sublist formed fun _ => List.nil_sublist _

theorem wellFormed_after {mi : Instance} (formed : mi.WellFormed) (ops : List Op) :
    (mi.after ops).WellFormed :=
  run_keeps WellFormed (fun _ op holds _ => wellFormed_step holds op) formed
    (allSteps_of_forall (fun _ _ => trivial) mi)

theorem view_after {mi : Instance} (formed : mi.WellFormed) (ops : List Op) :
    (mi.after ops).view = run View.step mi.view ops :=
  run_commutes (fun _ op holds => wellFormed_step holds op)
    (fun _ op holds => view_step holds op) formed ops

theorem value_eq (mi : Instance) (transID : Int64) (key : String) :
    mi.value transID key = match mi.opened transID key with
      | some mc => (mi.tx mc).top
      | none => mi.committed key := by
  cases found : mi.opened transID key with
  | some mc => rw [value, newMc_of_opened found, get]
  | none =>
      have made := newMc_of_closed found
      rw [value, get, made.tx, made.cache, Function.update_self, committed, View.snapshot]
      change Stack.top (match mi.llCache.lookup key with
        | some v => [⟨0, v⟩]
        | none => []) = (mi.llCache.lookup key).join
      cases mi.llCache.lookup key with
      | none => rfl
      | some v => rfl

end Instance

def Op.unordered : Op → Op
  | .commitTrans transID _ => .commitTrans transID .stored
  | .dirtyTransTx transID txID _ => .dirtyTransTx transID txID .stored
  | .dirty key _ => .dirty key .stored
  | op => op

theorem View.run_unordered (view : View) (ops : List Op) :
    run View.step view (ops.map Op.unordered) = run View.step view ops := by
  induction ops generalizing view with
  | nil => rfl
  | cons op rest ih =>
      have same : view.step op.unordered = view.step op := by cases op <;> rfl
      rw [List.map_cons, run_cons, run_cons, same, ih]

namespace Instance

/-- Calls that differ only in the order in which they go through the maps leave the same values. -/
theorem order_unseen {ops ops' : List Op} (same : ops.map Op.unordered = ops'.map Op.unordered)
    (transID : Int64) (key : String) :
    (newMcInstance.after ops).value transID key = (newMcInstance.after ops').value transID key ∧
      (newMcInstance.after ops).committed key = (newMcInstance.after ops').committed key := by
  have views : (newMcInstance.after ops).view = (newMcInstance.after ops').view := by
    rw [view_after wellFormed_newMcInstance, view_after wellFormed_newMcInstance,
      ← View.run_unordered, same, View.run_unordered]
  have opened : (newMcInstance.after ops).opened = (newMcInstance.after ops').opened :=
    congrArg View.opened views
  have tx : (newMcInstance.after ops).tx = (newMcInstance.after ops').tx := congrArg View.tx views
  have committed : (newMcInstance.after ops).committed key =
      (newMcInstance.after ops').committed key :=
    congrArg Option.join (congrFun (congrArg View.committed views) key)
  refine ⟨?_, committed⟩
  rw [value_eq, value_eq, opened, tx, committed]

/-- Two keys are set and committed in some order. -/
def twoKeys (order : Order) : List Op :=
  [.newMc 1 "a", .newMc 1 "b", .set ⟨1, "a", 0⟩ 1 (some [1]), .set ⟨1, "b", 1⟩ 1 (some [2]),
    .commitTrans 1 order]

theorem order_unseen_reversed :
    (newMcInstance.after (twoKeys .stored)).committed "a" = some [1] ∧
      (newMcInstance.after (twoKeys .stored)).committed "b" = some [2] ∧
      (newMcInstance.after (twoKeys .stored)).value 2 "a" =
        (newMcInstance.after (twoKeys ⟨List.reverse, List.reverse_perm⟩)).value 2 "a" ∧
      (newMcInstance.after (twoKeys .stored)).committed "b" =
        (newMcInstance.after (twoKeys ⟨List.reverse, List.reverse_perm⟩)).committed "b" :=
  ⟨by decide +kernel, by decide +kernel, (order_unseen rfl 2 "a").1, (order_unseen rfl 2 "b").2⟩

end Instance

end Bclib.Mc
