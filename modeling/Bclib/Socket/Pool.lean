import Bclib.Data.Runs
import Mathlib.Data.List.Nodup

namespace Bclib.Socket

open Data

/-! The connection pool: clients are idle or busy, and closed ones are taken out. -/

abbrev ClientId := Nat

structure ConnectionPool where
  busyConnS : List ClientId
  idleConnS : List ClientId
  maxCap : Int
  curCap : Int
  made : Nat
  deriving DecidableEq, Repr

/-- Why no client is handed out; `nilElement` stands for the panic on an empty list. -/
inductive PoolError where
  | noMoreConnection (curCap maxCap : Int)
  | newClient
  | nilElement
  deriving DecidableEq, Repr

namespace ConnectionPool

/-- `addClient`; `dials` tells whether the connection to the server comes about. -/
def addClient (dials : Bool) (pool : ConnectionPool) : Except PoolError ConnectionPool :=
  if dials then
    .ok { pool with
      idleConnS := pool.idleConnS ++ [pool.made]
      curCap := pool.curCap + 1
      made := pool.made + 1 }
  else .error .newClient

def incrCapacity (dials : Bool) (pool : ConnectionPool) : Except PoolError ConnectionPool :=
  if pool.maxCap ≤ pool.curCap then .error (.noMoreConnection pool.curCap pool.maxCap)
  else pool.addClient dials

def takeFront (pool : ConnectionPool) : Option (ClientId × ConnectionPool) :=
  match pool.idleConnS with
  | [] => none
  | cli :: rest =>
      some (cli, { pool with idleConnS := rest, busyConnS := pool.busyConnS.insert cli })

/-- `GetClient` makes a client if none is idle. -/
def stocked (dials : Bool) (pool : ConnectionPool) : Except PoolError ConnectionPool :=
  if pool.idleConnS.length ≤ 0 then pool.incrCapacity dials else .ok pool

def getClient (dials : Bool) (pool : ConnectionPool) :
    Except PoolError ClientId × ConnectionPool :=
  match pool.stocked dials with
  | .error err => (.error err, pool)
  | .ok pool =>
      match pool.takeFront with
      | some (cli, pool) => (.ok cli, pool)
      | none => (.error .nilElement, pool)

def releaseClient (cli : ClientId) (pool : ConnectionPool) : ConnectionPool :=
  { pool with
    idleConnS := pool.idleConnS ++ [cli]
    busyConnS := pool.busyConnS.erase cli }

/-- The capacity goes down whether or not the client was found. -/
def closeCB (cli : ClientId) (pool : ConnectionPool) : ConnectionPool :=
  { pool with
    busyConnS := pool.busyConnS.erase cli
    idleConnS := pool.idleConnS.erase cli
    curCap := pool.curCap - 1 }

def grow (dials : ClientId → Bool) (curCap : Int) :
    Nat → ConnectionPool → ConnectionPool × Option PoolError
  | 0, pool => (pool, none)
  | rounds + 1, pool =>
      if (pool.idleConnS.length : Int) < curCap then
        match pool.incrCapacity (dials pool.made) with
        | .error err => (pool, some err)
        | .ok grown => grow dials curCap rounds grown
      else (pool, none)

def newConnectionPool (dials : ClientId → Bool) (curCap : Int) :
    ConnectionPool × Option PoolError :=
  let curCap := if curCap < 0 then 0 else curCap
  let curCap := if curCap > 10 then 10 else curCap
  grow dials curCap curCap.toNat ⟨[], [], 10, 0, 0⟩

end ConnectionPool

/-- Besides the pool, the clients callers hold and those whose `closeCB` has run. -/
structure PoolSystem where
  pool : ConnectionPool
  held : List ClientId
  closed : List ClientId
  deriving DecidableEq, Repr

inductive PoolEvent where
  | getClient (dials : Bool)
  | releaseClient (cli : ClientId)
  | closeCB (cli : ClientId)
  deriving DecidableEq, Repr

namespace PoolSystem

def step (system : PoolSystem) : PoolEvent → PoolSystem
  | .getClient dials =>
      match system.pool.getClient dials with
      | (.ok cli, pool) => { system with pool := pool, held := cli :: system.held }
      | (.error _, pool) => { system with pool := pool }
  | .releaseClient cli =>
      { system with
        pool := system.pool.releaseClient cli
        held := system.held.erase cli }
  | .closeCB cli =>
      { system with
        pool := system.pool.closeCB cli
        closed := cli :: system.closed }

def start (dials : ClientId → Bool) (curCap : Int) : PoolSystem :=
  ⟨(ConnectionPool.newConnectionPool dials curCap).1, [], []⟩

/-- Callers release what they hold, and a connection closes once. -/
def Allowed (system : PoolSystem) : PoolEvent → Prop
  | .getClient _ => True
  | .releaseClient cli => cli ∈ system.held
  | .closeCB cli => cli < system.pool.made ∧ cli ∉ system.closed

/-- The client given back is not one whose connection was closed meanwhile. -/
def ReleasesOpen (system : PoolSystem) : PoolEvent → Prop
  | .releaseClient cli => cli ∉ system.closed
  | _ => True

instance (system : PoolSystem) : DecidablePred system.Allowed
  | .getClient _ => inferInstanceAs (Decidable True)
  | .releaseClient cli => inferInstanceAs (Decidable (cli ∈ system.held))
  | .closeCB cli => inferInstanceAs (Decidable (cli < system.pool.made ∧ cli ∉ system.closed))

structure Consistent (system : PoolSystem) : Prop where
  count : system.pool.curCap =
    system.pool.idleConnS.length + system.pool.busyConnS.length
  low : 0 ≤ system.pool.curCap
  high : system.pool.curCap ≤ system.pool.maxCap
  once : system.pool.idleConnS.Nodup
  apart : ∀ cli ∈ system.pool.idleConnS, cli ∉ system.pool.busyConnS
  handsOutOpen : ∀ dials cli, (system.pool.getClient dials).1 = .ok cli → cli ∉ system.closed

/-- Every client made is idle, held or closed; the busy ones are those held and open. -/
structure Inv (system : PoolSystem) : Prop where
  count : system.pool.curCap =
    system.pool.idleConnS.length + system.pool.busyConnS.length
  high : system.pool.curCap ≤ system.pool.maxCap
  idleOnce : system.pool.idleConnS.Nodup
  busyOnce : system.pool.busyConnS.Nodup
  heldOnce : system.held.Nodup
  idleFree : ∀ cli ∈ system.pool.idleConnS, cli ∉ system.held ∧ cli ∉ system.closed
  busy : ∀ cli, cli ∈ system.pool.busyConnS ↔ cli ∈ system.held ∧ cli ∉ system.closed
  known : ∀ cli, cli < system.pool.made ↔
    cli ∈ system.pool.idleConnS ∨ cli ∈ system.held ∨ cli ∈ system.closed

namespace Inv

variable {system : PoolSystem}

theorem addClient (inv : system.Inv) (room : system.pool.curCap < system.pool.maxCap) :
    Inv { system with pool := { system.pool with
      idleConnS := system.pool.idleConnS ++ [system.pool.made]
      curCap := system.pool.curCap + 1
      made := system.pool.made + 1 } } := by
  have unknown := (not_congr (inv.known system.pool.made)).1 (Nat.lt_irrefl _)
  simp only [not_or] at unknown
  obtain ⟨notIdle, notHeld, notClosed⟩ := unknown
  refine ⟨?_, ?_, ?_, inv.busyOnce, inv.heldOnce, ?_, inv.busy, ?_⟩
  · have count := inv.count
    simp only [List.length_append, List.length_singleton]
    omega
  · dsimp only
    omega
  · exact List.nodup_append.2 ⟨inv.idleOnce, List.nodup_singleton _, fun cli here other there =>
      (List.mem_singleton.1 there) ▸ fun same => notIdle (same ▸ here)⟩
  · intro cli member
    rcases List.mem_append.1 member with old | new
    · exact inv.idleFree cli old
    · obtain rfl := List.mem_singleton.1 new
      exact ⟨notHeld, notClosed⟩
  · intro cli
    have known := inv.known cli
    simp only [List.mem_append, List.mem_singleton, Nat.lt_succ_iff_lt_or_eq] at known ⊢
    rw [known]
    exact or_right_comm

theorem takeFront (inv : system.Inv) {cli : ClientId} {pool : ConnectionPool}
    (taken : system.pool.takeFront = some (cli, pool)) :
    Inv { system with pool := pool, held := cli :: system.held } ∧ cli ∉ system.closed := by
  unfold ConnectionPool.takeFront at taken
  cases idle : system.pool.idleConnS with
  | nil => simp [idle] at taken
  | cons first rest =>
      simp only [idle, Option.some.injEq, Prod.mk.injEq] at taken
      obtain ⟨rfl, rfl⟩ := taken
      have count := inv.count
      have once := inv.idleOnce
      have free := inv.idleFree
      have known := inv.known
      rw [idle] at count once free known
      obtain ⟨notHeld, notClosed⟩ := free first List.mem_cons_self
      have notBusy : first ∉ system.pool.busyConnS := fun busy =>
        notHeld ((inv.busy first).1 busy).1
      refine ⟨⟨?_, inv.high, (List.nodup_cons.1 once).2, ?_, ?_, ?_, ?_, ?_⟩, notClosed⟩
      · simp only [List.length_cons, List.insert_of_not_mem notBusy] at count ⊢
        omega
      · exact inv.busyOnce.insert
      · exact List.nodup_cons.2 ⟨notHeld, inv.heldOnce⟩
      · intro cli member
        obtain ⟨other, opened⟩ := free cli (List.mem_cons_of_mem _ member)
        refine ⟨fun held => ?_, opened⟩
        rcases List.mem_cons.1 held with rfl | held
        · exact (List.nodup_cons.1 once).1 member
        · exact other held
      · intro cli
        simp only [List.mem_insert_iff, List.mem_cons, inv.busy cli]
        constructor
        · rintro (rfl | ⟨held, opened⟩)
          · exact ⟨.inl rfl, notClosed⟩
          · exact ⟨.inr held, opened⟩
        · rintro ⟨rfl | held, opened⟩
          · exact .inl rfl
          · exact .inr ⟨held, opened⟩
      · intro cli
        simp only [List.mem_cons] at known ⊢
        rw [known cli, or_assoc, or_assoc, or_left_comm]

theorem releaseClient (inv : system.Inv) {cli : ClientId} (held : cli ∈ system.held)
    (opened : cli ∉ system.closed) : Inv (system.step (.releaseClient cli)) := by
  have busy : cli ∈ system.pool.busyConnS := (inv.busy cli).2 ⟨held, opened⟩
  have notIdle : cli ∉ system.pool.idleConnS := fun idle => (inv.idleFree cli idle).1 held
  refine ⟨?_, inv.high, ?_, inv.busyOnce.erase cli, inv.heldOnce.erase cli, ?_, ?_, ?_⟩
  · have count := inv.count
    have positive := List.length_pos_of_mem busy
    simp only [step, ConnectionPool.releaseClient, List.length_append, List.length_singleton,
      List.length_erase_of_mem busy]
    omega
  · exact List.nodup_append.2 ⟨inv.idleOnce, List.nodup_singleton _, fun other here again there =>
      (List.mem_singleton.1 there) ▸ fun same => notIdle (same ▸ here)⟩
  · intro other member
    simp only [step, ConnectionPool.releaseClient, inv.heldOnce.mem_erase_iff] at member ⊢
    rcases List.mem_append.1 member with idle | released
    · exact ⟨fun held => (inv.idleFree other idle).1 held.2, (inv.idleFree other idle).2⟩
    · obtain rfl := List.mem_singleton.1 released
      exact ⟨fun held => held.1 rfl, opened⟩
  · intro other
    simp only [step, ConnectionPool.releaseClient, inv.busyOnce.mem_erase_iff,
      inv.heldOnce.mem_erase_iff, inv.busy other, and_assoc]
  · intro other
    simp only [step, ConnectionPool.releaseClient, inv.heldOnce.mem_erase_iff,
      List.mem_append, List.mem_singleton, inv.known other]
    by_cases same : other = cli
    · subst same
      simp [held]
    · simp [same]

theorem closeCB (inv : system.Inv) {cli : ClientId} (known : cli < system.pool.made)
    (opened : cli ∉ system.closed) : Inv (system.step (.closeCB cli)) := by
  have count := inv.count
  have lengths : ((system.pool.idleConnS.erase cli).length : Int) +
      (system.pool.busyConnS.erase cli).length = system.pool.curCap - 1 := by
    rcases (inv.known cli).1 known with idle | held | closed
    · have notBusy : cli ∉ system.pool.busyConnS := fun busy =>
        (inv.idleFree cli idle).1 ((inv.busy cli).1 busy).1
      have positive := List.length_pos_of_mem idle
      rw [List.length_erase_of_mem idle, List.erase_of_not_mem notBusy]
      omega
    · have busy := (inv.busy cli).2 ⟨held, opened⟩
      have notIdle : cli ∉ system.pool.idleConnS := fun idle => (inv.idleFree cli idle).1 held
      have positive := List.length_pos_of_mem busy
      rw [List.length_erase_of_mem busy, List.erase_of_not_mem notIdle]
      omega
    · exact absurd closed opened
  refine ⟨lengths.symm, ?_, inv.idleOnce.erase cli, inv.busyOnce.erase cli, inv.heldOnce,
    ?_, ?_, ?_⟩
  · have high := inv.high
    simp only [step, ConnectionPool.closeCB]
    omega
  · intro other member
    simp only [step, ConnectionPool.closeCB, inv.idleOnce.mem_erase_iff] at member ⊢
    refine ⟨(inv.idleFree other member.2).1, fun closed => ?_⟩
    rcases List.mem_cons.1 closed with same | before
    · exact member.1 same
    · exact (inv.idleFree other member.2).2 before
  · intro other
    simp only [step, ConnectionPool.closeCB, inv.busyOnce.mem_erase_iff, inv.busy other,
      List.mem_cons, not_or]
    exact and_left_comm
  · intro other
    simp only [step, ConnectionPool.closeCB, inv.idleOnce.mem_erase_iff, inv.known other,
      List.mem_cons]
    by_cases same : other = cli
    · subst same
      simpa using (inv.known other).1 known
    · simp [same]

theorem incrCapacity (inv : system.Inv) {dials : Bool} {grown : ConnectionPool}
    (ran : system.pool.incrCapacity dials = .ok grown) :
    Inv { system with pool := grown } := by
  unfold ConnectionPool.incrCapacity at ran
  split_ifs at ran with full
  cases dials with
  | false => cases ran
  | true =>
      obtain rfl := Except.ok.inj ran
      exact inv.addClient (Int.not_le.1 full)

theorem stocked (inv : system.Inv) {dials : Bool} {grown : ConnectionPool}
    (ran : system.pool.stocked dials = .ok grown) : Inv { system with pool := grown } := by
  unfold ConnectionPool.stocked at ran
  split_ifs at ran with empty
  · exact inv.incrCapacity ran
  · obtain rfl := Except.ok.inj ran
    exact inv

theorem getClient (inv : system.Inv) (dials : Bool) :
    Inv (system.step (.getClient dials)) ∧
      ∀ cli, (system.pool.getClient dials).1 = .ok cli → cli ∉ system.closed := by
  cases ran : system.pool.stocked dials with
  | error err =>
      simp only [step, ConnectionPool.getClient, ran]
      exact ⟨inv, (fun cli none => nomatch none)⟩
  | ok grown =>
      have stocked := inv.stocked ran
      cases taken : grown.takeFront with
      | none =>
          simp only [step, ConnectionPool.getClient, ran, taken]
          exact ⟨stocked, (fun cli none => nomatch none)⟩
      | some result =>
          obtain ⟨kept, opened⟩ := stocked.takeFront taken
          simp only [step, ConnectionPool.getClient, ran, taken]
          refine ⟨kept, fun other same => ?_⟩
          exact Except.ok.inj same ▸ opened

theorem consistent (inv : system.Inv) : system.Consistent where
  count := inv.count
  low := by
    have count := inv.count
    omega
  high := inv.high
  once := inv.idleOnce
  apart cli idle busy := (inv.idleFree cli idle).1 ((inv.busy cli).1 busy).1
  handsOutOpen dials := (inv.getClient dials).2

theorem step_kept (inv : system.Inv) (event : PoolEvent) (allowed : system.Allowed event)
    (opened : system.ReleasesOpen event) : Inv (system.step event) := by
  cases event with
  | getClient dials => exact (inv.getClient dials).1
  | releaseClient cli => exact inv.releaseClient allowed opened
  | closeCB cli => exact inv.closeCB allowed.1 allowed.2

theorem not_consistent_of_release (inv : system.Inv) {cli : ClientId}
    (closed : cli ∈ system.closed) : ¬Consistent (system.step (.releaseClient cli)) := by
  intro consistent
  have before := inv.count
  have after := consistent.count
  have notBusy : cli ∉ system.pool.busyConnS := fun busy => ((inv.busy cli).1 busy).2 closed
  simp only [step, ConnectionPool.releaseClient, List.length_append, List.length_singleton,
    List.erase_of_not_mem notBusy] at after
  omega

end Inv

theorem grow_inv (dials : ClientId → Bool) (curCap : Int) (rounds : Nat)
    {pool : ConnectionPool} (inv : Inv ⟨pool, [], []⟩) :
    Inv ⟨(pool.grow dials curCap rounds).1, [], []⟩ := by
  induction rounds generalizing pool with
  | zero => exact inv
  | succ rounds ih =>
      rw [ConnectionPool.grow]
      split_ifs
      · cases ran : pool.incrCapacity (dials pool.made) with
        | error err => exact inv
        | ok grown => exact ih (inv.incrCapacity ran)
      · exact inv

theorem start_inv (dials : ClientId → Bool) (curCap : Int) : Inv (start dials curCap) := by
  apply grow_inv
  exact ⟨rfl, by decide, List.nodup_nil, List.nodup_nil, List.nodup_nil, by simp, by simp,
    by simp⟩

/-- In a run in which callers release what they hold and connections close once, the pool
stays consistent exactly as long as no client is released after its connection closed. -/
theorem pool_consistent_iff (dials : ClientId → Bool) (curCap : Int) (events : List PoolEvent)
    (allowed : AllSteps step Allowed (start dials curCap) events) :
    (∀ past later, events = past ++ later →
        Consistent (run step (start dials curCap) past)) ↔
      AllSteps step ReleasesOpen (start dials curCap) events := by
  refine run_good_iff Inv (fun _ inv => inv.consistent)
    (fun _ event inv allowed opened => inv.step_kept event allowed opened) ?_
    (start_inv dials curCap) allowed
  intro system event inv _ broken
  cases event with
  | getClient dials => exact absurd trivial broken
  | closeCB cli => exact absurd trivial broken
  | releaseClient cli => exact inv.not_consistent_of_release (not_not.1 broken)

theorem pool_consistent_reuse :
    AllSteps step Allowed (start (fun _ => true) 2)
        [.getClient true, .closeCB 0, .getClient true, .releaseClient 1] ∧
      ∀ past later,
        [.getClient true, .closeCB 0, .getClient true, .releaseClient 1] = past ++ later →
        Consistent (run step (start (fun _ => true) 2) past) :=
  ⟨by decide, (pool_consistent_iff (fun _ => true) 2 _ (by decide)).2
    ⟨trivial, trivial, trivial, (by decide : 1 ∉ [0]), trivial⟩⟩

/-- A connection that closes while it is checked out comes back idle. -/
theorem closed_client_handed_out :
    AllSteps step Allowed (start (fun _ => true) 1)
        [.getClient true, .closeCB 0, .releaseClient 0] ∧
      ¬Consistent (run step (start (fun _ => true) 1)
        [.getClient true, .closeCB 0, .releaseClient 0]) ∧
      0 ∈ (run step (start (fun _ => true) 1)
        [.getClient true, .closeCB 0, .releaseClient 0]).closed ∧
      ((run step (start (fun _ => true) 1)
        [.getClient true, .closeCB 0, .releaseClient 0]).pool.getClient true).1 = .ok 0 := by
  refine ⟨by decide, fun consistent => ?_, by decide, by decide⟩
  exact absurd consistent.count (by decide)

end PoolSystem

end Bclib.Socket
