import Bclib.Data.Assoc
import Bclib.Data.Runs
import Bclib.Go.NetAddr

namespace Bclib.Abci

open Data
open Go

/-! The connections of the ABCI socket server: `acceptConnectionsRoutine`, the goroutines that
wait until a connection is closed, and `Stop`. -/

/-- `strings.Split(addr, ":")[0]`, what is compared of a remote address. -/
def currentRemoteIp (remote : TCPAddr) : GoString := (remote.text.splitOn colon).headD []

section CurrentRemoteIp

variable {remote other : TCPAddr}

theorem currentRemoteIp_plain (plain : colon ∉ remote.host) :
    currentRemoteIp remote = remote.host := by
  rw [currentRemoteIp, TCPAddr.text, joinHostPort_plain plain, splitOn_cons_of_notMem plain]
  rfl

theorem currentRemoteIp_bracket {lead rest : GoString} (split : remote.host = lead ++ colon :: rest)
    (whole : colon ∉ lead) : currentRemoteIp remote = 91 :: lead := by
  have inside : colon ∈ remote.host := by
    rw [split]
    exact List.mem_append_right _ List.mem_cons_self
  have outside : colon ∉ (91 : Byte) :: lead := by
    rw [List.mem_cons, not_or]
    exact ⟨by decide, whole⟩
  rw [currentRemoteIp, TCPAddr.text, joinHostPort_bracket inside, split]
  have text : 91 :: (lead ++ colon :: rest) ++ [93, colon] ++ itoa remote.port =
      91 :: lead ++ colon :: (rest ++ [93, colon] ++ itoa remote.port) := by simp
  rw [text, splitOn_cons_of_notMem outside]
  rfl

theorem host_eq (remote : TCPAddr) : ∃ rest, remote.host = remote.ip.text ++ rest := by
  rw [TCPAddr.host]
  split_ifs
  · exact ⟨_, rfl⟩
  · exact ⟨[], (List.append_nil _).symm⟩

theorem currentRemoteIp_groups (groups : remote.ip.to4 = none) :
    ∃ group rest lead, IP.groupsOf remote.ip.to16 = group :: rest ∧
      currentRemoteIp remote = 91 :: lead ∧ (group ≠ 0 → lead = IP.appendHex group) := by
  obtain ⟨group, rest, lead, more, split, text, whole, leads⟩ := IP.text_of_groups groups
  obtain ⟨behind, host⟩ := host_eq remote
  have cut : remote.host = lead ++ colon :: (more ++ behind) := by
    rw [host, text, List.append_assoc]
    rfl
  exact ⟨group, rest, lead, split, currentRemoteIp_bracket cut whole, leads⟩

theorem currentRemoteIp_eq_of_group {group : Nat} {rest others : List Nat}
    (groups : remote.ip.to4 = none) (otherGroups : other.ip.to4 = none)
    (begins : IP.groupsOf remote.ip.to16 = group :: rest)
    (otherBegins : IP.groupsOf other.ip.to16 = group :: others) (nonzero : group ≠ 0) :
    currentRemoteIp remote = currentRemoteIp other := by
  obtain ⟨first, _, lead, split, text, leads⟩ := currentRemoteIp_groups groups
  obtain ⟨otherFirst, _, otherLead, otherSplit, otherText, otherLeads⟩ :=
    currentRemoteIp_groups otherGroups
  obtain ⟨rfl, -⟩ := List.cons.inj (begins.symm.trans split)
  obtain ⟨rfl, -⟩ := List.cons.inj (otherBegins.symm.trans otherSplit)
  rw [text, otherText, leads nonzero, otherLeads nonzero]

theorem currentRemoteIp_ne_nil (remote : TCPAddr) : currentRemoteIp remote ≠ [] := by
  by_cases inside : colon ∈ remote.host
  · obtain ⟨lead, rest, split, whole⟩ := List.eq_append_cons_of_mem inside
    rw [currentRemoteIp_bracket split whole]
    exact List.cons_ne_nil _ _
  · obtain ⟨rest, host⟩ := host_eq remote
    rw [currentRemoteIp_plain inside, host]
    exact List.append_ne_nil_of_left_ne_nil remote.ip.text_ne_nil _

theorem currentRemoteIp_dotted (dotted : remote.Dotted) :
    ∃ bytes, remote.ip.to4 = some bytes ∧ currentRemoteIp remote = IP.dottedText bytes := by
  obtain ⟨bytes, four⟩ := Option.ne_none_iff_exists'.1 dotted.1
  have host : remote.host = IP.dottedText bytes := by
    rw [TCPAddr.host, if_neg (not_not.2 dotted.2), IP.text_of_to4 four]
  refine ⟨bytes, four, ?_⟩
  rw [currentRemoteIp_plain, host]
  rw [host]
  intro inside
  rcases IP.mem_dottedText inside with dot | digit
  · exact absurd dot (by decide)
  · exact absurd digit (by decide)

theorem sameIP_of_dotted (dotted : remote.Dotted)
    (same : currentRemoteIp other = currentRemoteIp remote) : other.SameIP remote := by
  obtain ⟨bytes, four, field⟩ := currentRemoteIp_dotted dotted
  have outside : ∀ char : Byte, char ≠ 46 → isDecimal char = false →
      char ∉ currentRemoteIp other := by
    intro char notDot notDigit inside
    rw [same, field] at inside
    rcases IP.mem_dottedText inside with dot | digit
    · exact notDot dot
    · rw [notDigit] at digit
      cases digit
  have plain : colon ∉ other.host := by
    intro inside
    obtain ⟨lead, rest, split, whole⟩ := List.eq_append_cons_of_mem inside
    refine outside 91 (by decide) (by decide) ?_
    rw [currentRemoteIp_bracket split whole]
    exact List.mem_cons_self
  rw [currentRemoteIp_plain plain] at same outside
  have zoneless : other.zone = [] := by
    by_contra zone
    refine outside 37 (by decide) (by decide) ?_
    rw [TCPAddr.host, if_pos zone]
    exact List.mem_append_right _ List.mem_cons_self
  rw [TCPAddr.host, if_neg (not_not.2 zoneless)] at same plain
  cases otherFour : other.ip.to4 with
  | none =>
      obtain ⟨_, _, lead, more, -, text, -⟩ := IP.text_of_groups otherFour
      rw [text] at plain
      exact absurd (List.mem_append_right _ List.mem_cons_self) plain
  | some others =>
      rw [IP.text_of_to4 otherFour, field] at same
      have bytesSame := IP.dottedText_injective (IP.to4_ne_nil otherFour) (IP.to4_ne_nil four) same
      rw [TCPAddr.SameIP, IP.to16_of_to4 four, IP.to16_of_to4 otherFour, bytesSame]

end CurrentRemoteIp

structure Conn where
  number : Nat
  remote : TCPAddr
  deriving DecidableEq, Repr

/-- Where `acceptConnectionsRoutine` is: in `Accept`, before it counts the connections, before
it adds one, or at its end. -/
inductive Routine where
  | waiting
  | admitted (conn : Conn)
  | counted (conn : Conn)
  | returned
  deriving DecidableEq, Repr

/-- How far `Stop` has come: the flag, the listener, the connections. -/
inductive Stopping where
  | none
  | flagged
  | unlistened
  | finished
  deriving DecidableEq, Repr

/-- The fields of the server, the variables of the routine, and what was done with each
connection. -/
structure SocketServer where
  conns : List (BitVec 64 × Conn)
  nextConnID : BitVec 64
  remoteIp : GoString
  routine : Routine
  stopping : Stopping
  /-- The connections that a `waitForClose` waits for. -/
  waits : List (BitVec 64)
  /-- How many `checkReqTimeOutInfo` were started. -/
  timers : Nat
  /-- `killBcchain` was called.  The other goroutines go on until the signal arrives. -/
  killed : Bool
  accepted : List Conn
  closed : List Conn
  registered : List Conn
  deriving DecidableEq, Repr

inductive Event where
  | accept (remote : TCPAddr)
  | acceptFails
  | goOn
  /-- A connection fails, and its `waitForClose` is told. -/
  | hangUp (connID : BitVec 64)
  | timeOut
  | stop
  deriving DecidableEq, Repr

namespace SocketServer

/-- The server after `OnStart`. -/
def start : SocketServer :=
  ⟨[], 0, [], .waiting, .none, [], 0, false, [], [], []⟩

def IsRunning (s : SocketServer) : Prop := s.stopping = .none

instance : DecidablePred IsRunning := fun _ => inferInstanceAs (Decidable (_ = _))

def addConn (s : SocketServer) (conn : Conn) : SocketServer × BitVec 64 :=
  ({ s with
    nextConnID := s.nextConnID + 1
    conns := assocSet s.conns s.nextConnID conn
    registered := s.registered ++ [conn] }, s.nextConnID)

def rmConn (s : SocketServer) (connID : BitVec 64) : SocketServer :=
  match s.conns.lookup connID with
  | none => s
  | some conn =>
      { s with conns := assocErase s.conns connID, closed := s.closed ++ [conn] }

def killBcchain (s : SocketServer) : SocketServer := { s with killed := true }

def closeConns (s : SocketServer) : SocketServer :=
  { s with conns := [], closed := s.closed ++ s.conns.map Prod.snd, stopping := .finished }

def newConn (s : SocketServer) (remote : TCPAddr) : Conn := ⟨s.accepted.length, remote⟩

/-- `acceptConnectionsRoutine` from `Accept` to the comparison of the addresses. -/
def acceptConn (s : SocketServer) (remote : TCPAddr) : SocketServer :=
  let conn := s.newConn remote
  let accepted := s.accepted ++ [conn]
  if s.remoteIp = [] then
    { s with
      accepted := accepted
      timers := s.timers + 1
      remoteIp := currentRemoteIp remote
      routine := .admitted conn }
  else if currentRemoteIp remote ≠ s.remoteIp then
    { s with accepted := accepted, closed := s.closed ++ [conn] }
  else { s with accepted := accepted, routine := .admitted conn }

/-- `connAmount := len(s.conns)` -/
def countConns (s : SocketServer) (conn : Conn) : SocketServer :=
  if s.conns.length = 3 then { s.killBcchain with routine := .returned }
  else { s with routine := .counted conn }

def register (s : SocketServer) (conn : Conn) : SocketServer :=
  { (s.addConn conn).1 with
    waits := s.waits ++ [(s.addConn conn).2]
    routine := .waiting }

def waitForClose (s : SocketServer) (connID : BitVec 64) : SocketServer :=
  { (s.rmConn connID).killBcchain with waits := s.waits.erase connID }

def Accepts (s : SocketServer) : Prop :=
  s.routine = .waiting ∧ (s.stopping = .none ∨ s.stopping = .flagged)

instance : DecidablePred Accepts := fun _ => inferInstanceAs (Decidable (_ ∧ (_ ∨ _)))

/-- One step; what cannot happen changes nothing. -/
def step (s : SocketServer) : Event → SocketServer
  | .accept remote => if s.Accepts then s.acceptConn remote else s
  | .acceptFails =>
      if s.routine = .waiting ∧ ¬s.IsRunning then { s with routine := .returned } else s
  | .goOn =>
      match s.routine with
      | .admitted conn => s.countConns conn
      | .counted conn => s.register conn
      | _ => s
  | .hangUp connID => if connID ∈ s.waits then s.waitForClose connID else s
  | .timeOut => if 0 < s.timers then s.killBcchain else s
  | .stop =>
      match s.stopping with
      | .none => { s with stopping := .flagged }
      | .flagged => { s with stopping := .unlistened }
      | .unlistened => s.closeConns
      | .finished => s

end SocketServer

open SocketServer

section Steps

variable {s : SocketServer}

structure Closes (s after : SocketServer) : Prop where
  routine : after.routine = s.routine
  remoteIp : after.remoteIp = s.remoteIp
  accepted : after.accepted = s.accepted
  registered : after.registered = s.registered
  fewer : after.conns.length ≤ s.conns.length
  conns : ∀ entry ∈ after.conns, entry ∈ s.conns
  kept : ∀ conn ∈ s.closed, conn ∈ after.closed
  closed : ∀ conn ∈ after.closed, conn ∈ s.closed ∨ ∃ connID, (connID, conn) ∈ s.conns

theorem closes_waitForClose (s : SocketServer) (connID : BitVec 64) :
    Closes s (s.waitForClose connID) := by
  rw [waitForClose, rmConn]
  cases found : s.conns.lookup connID with
  | none =>
      exact ⟨rfl, rfl, rfl, rfl, Nat.le_refl _, fun _ => id, fun _ => id, fun _ => .inl⟩
  | some removed =>
      refine ⟨rfl, rfl, rfl, rfl, List.length_filter_le _ _,
        fun entry member => List.mem_of_mem_filter member,
        fun conn member => List.mem_append_left _ member, fun conn member => ?_⟩
      rcases List.mem_append.1 member with old | new
      · exact .inl old
      · rw [List.mem_singleton.1 new]
        exact .inr ⟨connID, mem_of_lookup found⟩

theorem closes_closeConns (s : SocketServer) : Closes s s.closeConns := by
  refine ⟨rfl, rfl, rfl, rfl, Nat.zero_le _, fun entry member => absurd member List.not_mem_nil,
    fun conn member => List.mem_append_left _ member, fun conn member => ?_⟩
  rcases List.mem_append.1 member with old | new
  · exact .inl old
  · obtain ⟨⟨connID, _⟩, inside, rfl⟩ := List.mem_map.1 new
    exact .inr ⟨connID, inside⟩

theorem step_cases {motive : SocketServer → Prop} (event : Event) (idle : motive s)
    (accept : ∀ remote, event = .accept remote → s.Accepts → motive (s.acceptConn remote))
    (returns : motive { s with routine := .returned })
    (count : ∀ conn, s.routine = .admitted conn → motive (s.countConns conn))
    (register : ∀ conn, s.routine = .counted conn → motive (s.register conn))
    (closes : ∀ after, Closes s after → motive after) : motive (s.step event) := by
  have stops : ∀ stopping, Closes s { s with stopping := stopping } := fun _ =>
    ⟨rfl, rfl, rfl, rfl, Nat.le_refl _, fun _ => id, fun _ => id, fun _ => .inl⟩
  have kills : Closes s s.killBcchain :=
    ⟨rfl, rfl, rfl, rfl, Nat.le_refl _, fun _ => id, fun _ => id, fun _ => .inl⟩
  cases event with
  | accept remote =>
      rw [step]
      split_ifs with accepts
      · exact accept remote rfl accepts
      · exact idle
  | acceptFails =>
      rw [step]
      split_ifs
      · exact returns
      · exact idle
  | goOn =>
      rw [step]
      cases routine : s.routine with
      | waiting => exact idle
      | admitted conn => exact count conn routine
      | counted conn => exact register conn routine
      | returned => exact idle
  | hangUp connID =>
      rw [step]
      split_ifs
      · exact closes _ (closes_waitForClose s connID)
      · exact idle
  | timeOut =>
      rw [step]
      split_ifs
      · exact closes _ kills
      · exact idle
  | stop =>
      rw [step]
      cases s.stopping with
      | none => exact closes _ (stops .flagged)
      | flagged => exact closes _ (stops .unlistened)
      | unlistened => exact closes _ (closes_closeConns s)
      | finished => exact idle

structure Roomy (s : SocketServer) : Prop where
  few : s.conns.length ≤ 3
  room : ∀ conn, s.routine = .counted conn → s.conns.length ≤ 2

theorem Roomy.step (roomy : Roomy s) (event : Event) : Roomy (s.step event) := by
  apply step_cases event
  case idle => exact roomy
  case accept =>
      intro remote _ _
      rw [acceptConn]
      split_ifs
      · exact ⟨roomy.few, by rintro conn ⟨⟩⟩
      · exact ⟨roomy.few, roomy.room⟩
      · exact ⟨roomy.few, by rintro conn ⟨⟩⟩
  case returns => exact ⟨roomy.few, by rintro conn ⟨⟩⟩
  case count =>
      intro conn _
      rw [countConns]
      split_ifs with full
      · exact ⟨roomy.few, by rintro conn ⟨⟩⟩
      · refine ⟨roomy.few, fun _ _ => ?_⟩
        exact Nat.le_of_lt_succ (Nat.lt_of_le_of_ne roomy.few full)
  case register =>
      intro conn counted
      have more := length_assocSet_le s.conns s.nextConnID conn
      exact ⟨Nat.le_trans more (Nat.succ_le_succ (roomy.room conn counted)),
        by rintro conn ⟨⟩⟩
  case closes =>
      intro after closes
      refine ⟨Nat.le_trans closes.fewer roomy.few, fun conn counted => ?_⟩
      exact Nat.le_trans closes.fewer (roomy.room conn (closes.routine ▸ counted))

def Known (s : SocketServer) (conn : Conn) : Prop :=
  conn ∈ s.accepted ∧ currentRemoteIp conn.remote = s.remoteIp

structure Kept (s : SocketServer) : Prop where
  remembers : s.remoteIp =
    (s.accepted.head?.map fun first => currentRemoteIp first.remote).getD []
  inHand : ∀ conn, s.routine = .admitted conn ∨ s.routine = .counted conn → Known s conn
  registered : ∀ conn ∈ s.registered, Known s conn
  conns : ∀ entry ∈ s.conns, entry.2 ∈ s.registered
  refused : ∀ conn ∈ s.accepted, currentRemoteIp conn.remote ≠ s.remoteIp → conn ∈ s.closed
  closed : ∀ conn ∈ s.closed, conn ∈ s.accepted
  numbers : ∀ conn ∈ s.accepted, conn.number < s.accepted.length

theorem Kept.remoteIp_eq_nil_iff (kept : Kept s) : s.remoteIp = [] ↔ s.accepted = [] := by
  rw [kept.remembers]
  cases s.accepted with
  | nil => exact ⟨fun _ => rfl, fun _ => rfl⟩
  | cons first rest =>
      exact ⟨fun none => absurd none (currentRemoteIp_ne_nil _), fun none => absurd none (by simp)⟩

section Accept

variable (kept : Kept s) (remote : TCPAddr)

include kept

theorem Kept.numbers_newConn : ∀ conn ∈ s.accepted ++ [s.newConn remote],
    conn.number < (s.accepted ++ [s.newConn remote]).length := by
  intro conn member
  rw [List.length_append]
  rcases List.mem_append.1 member with old | new
  · exact Nat.lt_succ_of_lt (kept.numbers conn old)
  · rw [List.mem_singleton.1 new]
    exact Nat.lt_succ_self _

theorem Kept.remembers_newConn (some : s.remoteIp ≠ []) :
    s.remoteIp = ((s.accepted ++ [s.newConn remote]).head?.map
      fun first => currentRemoteIp first.remote).getD [] := by
  rw [List.head?_append_of_ne_nil _ (mt kept.remoteIp_eq_nil_iff.2 some)]
  exact kept.remembers

theorem Kept.registered_newConn : ∀ conn ∈ s.registered,
    conn ∈ s.accepted ++ [s.newConn remote] ∧ currentRemoteIp conn.remote = s.remoteIp :=
  fun conn member =>
    ⟨List.mem_append_left _ (kept.registered conn member).1, (kept.registered conn member).2⟩

theorem Kept.closed_newConn : ∀ conn ∈ s.closed, conn ∈ s.accepted ++ [s.newConn remote] :=
  fun conn member => List.mem_append_left _ (kept.closed conn member)

theorem Kept.acceptConn (waiting : s.routine = .waiting) : Kept (s.acceptConn remote) := by
  have last : s.newConn remote ∈ s.accepted ++ [s.newConn remote] :=
    List.mem_append_right _ List.mem_cons_self
  rw [SocketServer.acceptConn]
  split_ifs with first alien
  · -- the first connection ever
    have none := kept.remoteIp_eq_nil_iff.1 first
    refine ⟨?_, ?_, fun conn member => ?_, kept.conns, fun conn member other => ?_,
      kept.closed_newConn remote, kept.numbers_newConn remote⟩
    · rw [none]
      rfl
    · rintro conn (⟨⟨⟩⟩ | ⟨⟨⟩⟩)
      exact ⟨last, rfl⟩
    · exact absurd (kept.registered conn member).1 (none ▸ List.not_mem_nil)
    · rcases List.mem_append.1 member with old | new
      · exact absurd old (none ▸ List.not_mem_nil)
      · rw [List.mem_singleton.1 new] at other
        exact absurd rfl other
  · refine ⟨kept.remembers_newConn remote first, fun conn held => ?_,
      kept.registered_newConn remote, kept.conns, fun conn member other => ?_,
      fun conn member => ?_, kept.numbers_newConn remote⟩
    · rw [waiting] at held
      rcases held with ⟨⟨⟩⟩ | ⟨⟨⟩⟩
    · rcases List.mem_append.1 member with old | new
      · exact List.mem_append_left _ (kept.refused conn old other)
      · exact List.mem_append_right _ new
    · rcases List.mem_append.1 member with old | new
      · exact kept.closed_newConn remote conn old
      · exact List.mem_append_right _ new
  · refine ⟨kept.remembers_newConn remote first, ?_, kept.registered_newConn remote, kept.conns,
      fun conn member other => ?_, kept.closed_newConn remote, kept.numbers_newConn remote⟩
    · rintro conn (⟨⟨⟩⟩ | ⟨⟨⟩⟩)
      exact ⟨last, not_not.1 alien⟩
    · rcases List.mem_append.1 member with old | new
      · exact kept.refused conn old other
      · rw [List.mem_singleton.1 new] at other
        exact absurd (not_not.1 alien) other

end Accept

theorem Kept.closes {after : SocketServer} (kept : Kept s) (closes : Closes s after) :
    Kept after := by
  refine ⟨?_, ?_, ?_, ?_, ?_, ?_, ?_⟩
  · rw [closes.remoteIp, closes.accepted]
    exact kept.remembers
  · rw [closes.routine]
    intro conn held
    rw [Known, closes.accepted, closes.remoteIp]
    exact kept.inHand conn held
  · rw [closes.registered]
    intro conn member
    rw [Known, closes.accepted, closes.remoteIp]
    exact kept.registered conn member
  · rw [closes.registered]
    exact fun entry member => kept.conns entry (closes.conns entry member)
  · rw [closes.accepted, closes.remoteIp]
    exact fun conn member other => closes.kept conn (kept.refused conn member other)
  · rw [closes.accepted]
    intro conn member
    rcases closes.closed conn member with old | ⟨connID, inside⟩
    · exact kept.closed conn old
    · exact (kept.registered conn (kept.conns _ inside)).1
  · rw [closes.accepted]
    exact kept.numbers

theorem Kept.step (kept : Kept s) (event : Event) : Kept (s.step event) := by
  apply step_cases event
  case idle => exact kept
  case accept => exact fun remote _ accepts => kept.acceptConn remote accepts.1
  case returns =>
      exact ⟨kept.remembers, by rintro conn (⟨⟨⟩⟩ | ⟨⟨⟩⟩), kept.registered, kept.conns,
        kept.refused, kept.closed, kept.numbers⟩
  case count =>
      intro conn admitted
      have known := kept.inHand conn (.inl admitted)
      rw [countConns]
      split_ifs
      · exact ⟨kept.remembers, by rintro conn (⟨⟨⟩⟩ | ⟨⟨⟩⟩), kept.registered, kept.conns,
          kept.refused, kept.closed, kept.numbers⟩
      · exact ⟨kept.remembers, by rintro conn (⟨⟨⟩⟩ | ⟨⟨⟩⟩); exact known, kept.registered,
          kept.conns, kept.refused, kept.closed, kept.numbers⟩
  case register =>
      intro conn counted
      have known := kept.inHand conn (.inr counted)
      refine ⟨kept.remembers, by rintro conn (⟨⟨⟩⟩ | ⟨⟨⟩⟩), fun other member => ?_,
        fun entry member => ?_, kept.refused, kept.closed, kept.numbers⟩
      · rcases List.mem_append.1 member with old | new
        · exact kept.registered other old
        · rw [List.mem_singleton.1 new]
          exact known
      · rcases mem_assocSet member with rfl | old
        · exact List.mem_append_right _ List.mem_cons_self
        · exact List.mem_append_left _ (kept.conns entry old)
  case closes => exact fun after closes => kept.closes closes

end Steps

theorem roomy_start : Roomy start := ⟨Nat.zero_le _, by rintro conn ⟨⟩⟩

theorem conns_length_le (events : List Event) : (run step start events).conns.length ≤ 3 := by
  have all : AllSteps step (fun _ _ => True) start events :=
    allSteps_of_forall (fun _ _ => trivial) _
  exact (run_keeps Roomy (fun _ event roomy _ => roomy.step event) roomy_start all).few

/-! One address only. -/

structure Admits (s : SocketServer) : Prop where
  few : s.conns.length ≤ 3
  alike : ∀ entry ∈ s.conns, ∃ first, s.accepted.head? = some first ∧
    entry.2.remote.SameIP first.remote
  refused : ∀ first, s.accepted.head? = some first → ∀ conn ∈ s.accepted,
    ¬conn.remote.SameIP first.remote → conn ∈ s.closed ∧ conn ∉ s.registered

/-- A connection that is accepted has the address of the first one, or is told from it by what
is in front of the first colon. -/
def Told (s : SocketServer) : Event → Prop
  | .accept remote =>
      s.Accepts → ∀ first, s.accepted.head? = some first →
        currentRemoteIp remote = currentRemoteIp first.remote → remote.SameIP first.remote
  | _ => True

def AllTold (s : SocketServer) : Prop :=
  ∀ first, s.accepted.head? = some first → ∀ conn ∈ s.accepted,
    currentRemoteIp conn.remote = currentRemoteIp first.remote → conn.remote.SameIP first.remote

section Admits

variable {s : SocketServer}

theorem accepted_acceptConn (s : SocketServer) (remote : TCPAddr) :
    (s.acceptConn remote).accepted = s.accepted ++ [s.newConn remote] := by
  rw [acceptConn]
  split_ifs <;> rfl

theorem accepted_step (s : SocketServer) (event : Event) :
    (s.step event).accepted = s.accepted ∨
      ∃ remote, event = .accept remote ∧ s.Accepts ∧
        (s.step event).accepted = s.accepted ++ [s.newConn remote] := by
  apply step_cases (motive := fun after => after.accepted = s.accepted ∨
    ∃ remote, event = .accept remote ∧ s.Accepts ∧
      after.accepted = s.accepted ++ [s.newConn remote]) event
  case idle => exact .inl rfl
  case accept =>
      intro remote isAccept accepts
      exact .inr ⟨remote, isAccept, accepts, accepted_acceptConn s remote⟩
  case returns => exact .inl rfl
  case count =>
      intro conn _
      rw [countConns]
      split_ifs
      · exact .inl rfl
      · exact .inl rfl
  case register => exact fun _ _ => .inl rfl
  case closes => exact fun after closes => .inl closes.accepted

theorem head?_newConn {first : Conn} {remote : TCPAddr}
    (head : (s.accepted ++ [s.newConn remote]).head? = some first) :
    s.accepted = [] ∧ first = s.newConn remote ∨ s.accepted.head? = some first := by
  by_cases none : s.accepted = []
  · rw [none] at head
    exact .inl ⟨none, (Option.some.inj head).symm⟩
  · rw [List.head?_append_of_ne_nil _ none] at head
    exact .inr head

theorem AllTold.step (allTold : AllTold s) {event : Event} (told : Told s event) :
    AllTold (s.step event) := by
  rcases accepted_step s event with same | ⟨remote, rfl, accepts, more⟩
  · rw [AllTold, same]
    exact allTold
  rw [AllTold, more]
  intro first head conn member same
  rcases head?_newConn head with ⟨none, rfl⟩ | head
  · rw [none] at member
    rw [List.mem_singleton.1 member]
    exact rfl
  · rcases List.mem_append.1 member with old | new
    · exact allTold first head conn old same
    · rw [List.mem_singleton.1 new] at same ⊢
      exact told accepts first head same

theorem Kept.remoteIp_of_head (kept : Kept s) {first : Conn}
    (head : s.accepted.head? = some first) : s.remoteIp = currentRemoteIp first.remote := by
  rw [kept.remembers, head]
  rfl

theorem admits_of_kept (roomy : Roomy s) (kept : Kept s) (allTold : AllTold s) : Admits s := by
  refine ⟨roomy.few, fun entry member => ?_, fun first head conn member alien => ?_⟩
  · obtain ⟨accepted, compared⟩ := kept.registered entry.2 (kept.conns entry member)
    obtain ⟨first, head⟩ : ∃ first, s.accepted.head? = some first :=
      Option.isSome_iff_exists.1 (List.isSome_head?.2 (List.ne_nil_of_mem accepted))
    rw [kept.remoteIp_of_head head] at compared
    exact ⟨first, head, allTold first head entry.2 accepted compared⟩
  · have other : currentRemoteIp conn.remote ≠ s.remoteIp := by
      rw [kept.remoteIp_of_head head]
      exact fun same => alien (allTold first head conn member same)
    refine ⟨kept.refused conn member other, fun registered => ?_⟩
    exact other (kept.registered conn registered).2

theorem not_admits_of_not_told (kept : Kept s) {event : Event} (missed : ¬Told s event) :
    ¬Admits (s.step event) := by
  cases event with
  | accept remote =>
      simp only [Told, not_forall] at missed
      obtain ⟨accepts, first, head, same, alien⟩ := missed
      have known := kept.remoteIp_of_head head
      have some : s.remoteIp ≠ [] := known ▸ currentRemoteIp_ne_nil _
      have stepped : s.step (.accept remote) =
          { s with
            accepted := s.accepted ++ [s.newConn remote]
            routine := .admitted (s.newConn remote) } := by
        rw [SocketServer.step, if_pos accepts, acceptConn, if_neg some,
          if_neg (not_not.2 (same.trans known.symm))]
      rw [stepped]
      intro admits
      have front : (s.accepted ++ [s.newConn remote]).head? = Option.some first := by
        rw [List.head?_append_of_ne_nil _ (mt kept.remoteIp_eq_nil_iff.2 some)]
        exact head
      have closed := (admits.refused first front (s.newConn remote)
        (List.mem_append_right _ List.mem_cons_self) alien).1
      exact Nat.lt_irrefl _ (kept.numbers _ (kept.closed _ closed))
  | acceptFails => exact absurd trivial missed
  | goOn => exact absurd trivial missed
  | hangUp connID => exact absurd trivial missed
  | timeOut => exact absurd trivial missed
  | stop => exact absurd trivial missed

end Admits

theorem kept_start : Kept start :=
  ⟨rfl, by rintro conn (⟨⟨⟩⟩ | ⟨⟨⟩⟩), by rintro conn ⟨⟩, by rintro entry ⟨⟩, by rintro conn ⟨⟩,
    by rintro conn ⟨⟩, by rintro conn ⟨⟩⟩

theorem allTold_start : AllTold start := by rintro first ⟨⟩

/-- In every run there are at most three connections, and they are the first one's as long as
each other address that connects is told from it. -/
theorem run_admits_iff (events : List Event) :
    (∀ past later, events = past ++ later → Admits (run step start past)) ↔
      AllSteps step Told start events := by
  have all : AllSteps step (fun _ _ => True) start events :=
    allSteps_of_forall (fun _ _ => trivial) _
  refine run_good_iff (fun s => Roomy s ∧ Kept s ∧ AllTold s) ?_ ?_ ?_
    ⟨roomy_start, kept_start, allTold_start⟩ all
  · exact fun s held => admits_of_kept held.1 held.2.1 held.2.2
  · exact fun s event held _ told =>
      ⟨held.1.step event, held.2.1.step event, held.2.2.step told⟩
  · exact fun s event held _ missed => not_admits_of_not_told held.2.1 missed

def linkLocal (host : Byte) : TCPAddr :=
  ⟨.v6 ⟨[0xfe, 0x80, 0, 0, 0, 0, 0, 0, 0, 0, 0, 0, 0, 0, 0, host], rfl⟩, 1000, []⟩

def twoHosts : List Event :=
  [.accept (linkLocal 1), .goOn, .goOn, .accept (linkLocal 2), .goOn, .goOn]

/-- Two addresses that begin with the same group are both registered. -/
theorem run_admits_two_hosts :
    (linkLocal 1).text = str "[fe80::1]:1000" ∧ (linkLocal 2).text = str "[fe80::2]:1000" ∧
      ¬(linkLocal 2).SameIP (linkLocal 1) ∧
      (run step start twoHosts).conns = [(0, ⟨0, linkLocal 1⟩), (1, ⟨1, linkLocal 2⟩)] ∧
      (run step start twoHosts).closed = [] ∧ ¬Admits (run step start twoHosts) := by
  have accepted : (run step start twoHosts).accepted.head? = some ⟨0, linkLocal 1⟩ := by
    decide +kernel
  have conns : (run step start twoHosts).conns =
      [(0, ⟨0, linkLocal 1⟩), (1, ⟨1, linkLocal 2⟩)] := by decide +kernel
  refine ⟨by decide +kernel, by decide +kernel, by decide, conns, by decide +kernel, ?_⟩
  intro admits
  obtain ⟨first, head, same⟩ := admits.alike (1, ⟨1, linkLocal 2⟩) (by rw [conns]; simp)
  rw [accepted] at head
  obtain rfl := Option.some.inj head
  exact absurd same (by decide)

def FirstDotted (s : SocketServer) : Prop :=
  ∀ first, s.accepted.head? = some first → first.remote.Dotted

theorem FirstDotted.step {s : SocketServer} (firstDotted : FirstDotted s) {event : Event}
    (dotted : ∀ remote, event = .accept remote → s.accepted = [] → remote.Dotted) :
    FirstDotted (s.step event) := by
  rcases accepted_step s event with same | ⟨remote, rfl, -, more⟩
  · rw [FirstDotted, same]
    exact firstDotted
  rw [FirstDotted, more]
  intro first head
  rcases head?_newConn head with ⟨none, rfl⟩ | head
  · exact dotted remote rfl none
  · exact firstDotted first head

theorem told_of_firstDotted {s : SocketServer} (firstDotted : FirstDotted s) (event : Event) :
    Told s event := by
  cases event with
  | accept remote =>
      exact fun _ first head same => sameIP_of_dotted (firstDotted first head) same
  | acceptFails => trivial
  | goOn => trivial
  | hangUp connID => trivial
  | timeOut => trivial
  | stop => trivial

theorem admits_of_first_dotted {events : List Event}
    (dotted : AllSteps step (fun s event => ∀ remote, event = .accept remote →
      s.accepted = [] → remote.Dotted) start events) : Admits (run step start events) := by
  have held := run_keeps (fun s => (Roomy s ∧ Kept s) ∧ AllTold s ∧ FirstDotted s)
    (fun s event held dotted => ⟨⟨held.1.1.step event, held.1.2.step event⟩,
      held.2.1.step (told_of_firstDotted held.2.2 event), held.2.2.step dotted⟩)
    ⟨⟨roomy_start, kept_start⟩, allTold_start, by rintro first ⟨⟩⟩ dotted
  exact admits_of_kept held.1.1 held.1.2 held.2.1

end Bclib.Abci
