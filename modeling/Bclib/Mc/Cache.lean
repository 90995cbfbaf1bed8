import Mathlib.Logic.Function.Basic
import Bclib.Data.Assoc
import Bclib.Data.BigEndian
import Bclib.Data.Runs

namespace Bclib.Mc

open Data

/-- A byte slice; nil is `none`. -/
abbrev Bytes := Option (List Byte)

structure TxCache where
  id : Int64
  value : Bytes
  deriving DecidableEq, Repr

/-- The slice `tx` of a cache object, its last element first. -/
abbrev Stack := List TxCache

namespace Stack

def top : Stack → Bytes
  | [] => none
  | entry :: _ => entry.value

def push (txid : Int64) (data : Bytes) : Stack → Stack
  | [] => [⟨txid, data⟩]
  | entry :: rest =>
      if entry.id = txid then ⟨txid, data⟩ :: rest
      else ⟨txid, data⟩ :: entry :: rest

/-- `MemCache.Dirty`: only the last element is looked at. -/
def dirty (txID : Int64) : Stack → Stack
  | [] => []
  | entry :: rest => if entry.id = txID then rest else entry :: rest

end Stack

/-- A pointer to a `MemCache`, with the two fields that are never assigned again. -/
structure MemCache where
  transID : Int64
  key : String
  serial : Nat
  deriving DecidableEq, Repr

/-- An order in which `range` goes through a map. -/
structure Order where
  enumerate : List (String × MemCache) → List (String × MemCache)
  perm : ∀ entries, (enumerate entries).Perm entries

def Order.stored : Order := ⟨id, fun _ => .refl _⟩

/-- The `Instance`, with the memory its cache objects live in: the field `tx` of
each and the number of objects made so far. -/
structure Instance where
  llCache : List (String × Bytes)
  mcCache : List (Int64 × List (String × MemCache))
  tx : MemCache → Stack
  next : Nat

def newMcInstance : Instance where
  llCache := []
  mcCache := []
  tx := fun _ => []
  next := 0

namespace Instance

/-- The entry of the committed value gets the id 0. -/
def newmc (mi : Instance) (transid : Int64) (key : String) : MemCache × Instance :=
  let mc : MemCache := ⟨transid, key, mi.next⟩
  let tx : Stack := match mi.llCache.lookup key with
    | some v => [⟨0, v⟩]
    | none => []
  (mc, { mi with tx := Function.update mi.tx mc tx, next := mi.next + 1 })

def newMc (mi : Instance) (transID : Int64) (key : String) : MemCache × Instance :=
  let opened := match mi.mcCache.lookup transID with
    | some _ => mi
    | none => { mi with mcCache := assocSet mi.mcCache transID [] }
  let mcs := (opened.mcCache.lookup transID).getD []
  match mcs.lookup key with
  | some mc => (mc, opened)
  | none =>
      let (mc, made) := opened.newmc transID key
      (mc, { made with mcCache := assocSet made.mcCache transID (assocSet mcs key mc) })

/-- The loop of `Dirty` over the caches of one transaction. -/
def dirtyLoop (key : String) (order : Order) (mcs : List (String × MemCache)) :
    List (String × MemCache) :=
  (order.enumerate mcs).foldl
    (fun left entry => if entry.2.key = key then assocErase left key else left) mcs

/-- `Instance.Dirty`.  Each round of its outer loop changes the map of one
transaction. -/
def dirty (mi : Instance) (key : String) (order : Order) : Instance :=
  { mi with
    mcCache := mi.mcCache.map fun entry => (entry.1, dirtyLoop key order entry.2)
    llCache := assocErase mi.llCache key }

def clear (mi : Instance) : Instance := { mi with llCache := [], mcCache := [] }

def commitTrans (mi : Instance) (transID : Int64) (order : Order) : Instance :=
  match mi.mcCache.lookup transID with
  | none => mi
  | some mcs =>
      { mi with
        llCache := (order.enumerate mcs).foldl
          (fun llCache entry => assocSet llCache entry.2.key (mi.tx entry.2).top) mi.llCache
        mcCache := assocErase mi.mcCache transID }

def dirtyTrans (mi : Instance) (transID : Int64) : Instance :=
  { mi with mcCache := assocErase mi.mcCache transID }

/-- `MemCache.Dirty`. -/
def dirtyTx (mi : Instance) (mc : MemCache) (txID : Int64) : Instance :=
  { mi with tx := Function.update mi.tx mc ((mi.tx mc).dirty txID) }

def dirtyTransTx (mi : Instance) (transID txID : Int64) (order : Order) : Instance :=
  (order.enumerate ((mi.mcCache.lookup transID).getD [])).foldl
    (fun mi entry => mi.dirtyTx entry.2 txID) mi

def get (mi : Instance) (mc : MemCache) : Bytes := (mi.tx mc).top

def set (mi : Instance) (mc : MemCache) (txID : Int64) (data : Bytes) : Instance :=
  { mi with tx := Function.update mi.tx mc ((mi.tx mc).push txID data) }

end Instance

/-- The calls on an instance and its caches.  Those that go through a map do so in
some order. -/
inductive Op where
  | newMc (transID : Int64) (key : String)
  | get (mc : MemCache)
  | set (mc : MemCache) (txID : Int64) (data : Bytes)
  | dirtyTx (mc : MemCache) (txID : Int64)
  | commitTrans (transID : Int64) (order : Order)
  | dirtyTrans (transID : Int64)
  | dirtyTransTx (transID txID : Int64) (order : Order)
  | dirty (key : String) (order : Order)
  | clear

namespace Instance

def step (mi : Instance) : Op → Instance
  | .newMc transID key => (mi.newMc transID key).2
  | .get _ => mi
  | .set mc txID data => mi.set mc txID data
  | .dirtyTx mc txID => mi.dirtyTx mc txID
  | .commitTrans transID order => mi.commitTrans transID order
  | .dirtyTrans transID => mi.dirtyTrans transID
  | .dirtyTransTx transID txID order => mi.dirtyTransTx transID txID order
  | .dirty key order => mi.dirty key order
  | .clear => mi.clear

abbrev after (mi : Instance) (ops : List Op) : Instance := run step mi ops

theorem after_append (mi : Instance) (first second : List Op) :
    mi.after (first ++ second) = (mi.after first).after second :=
  run_append step mi first second

theorem after_concat (mi : Instance) (past : List Op) (op : Op) :
    mi.after (past ++ [op]) = (mi.after past).step op := after_append mi past [op]

/-- The read `llCache[key]`; a missing entry reads as nil. -/
def committed (mi : Instance) (key : String) : Bytes := (mi.llCache.lookup key).join

/-- The cache that the transaction has open for the key. -/
def opened (mi : Instance) (transID : Int64) (key : String) : Option MemCache :=
  ((mi.mcCache.lookup transID).getD []).lookup key

/-- `NewMc(transID, key).Get()`. -/
def value (mi : Instance) (transID : Int64) (key : String) : Bytes :=
  (mi.newMc transID key).2.get (mi.newMc transID key).1

end Instance

end Bclib.Mc
