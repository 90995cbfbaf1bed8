import Bclib.Data.Runs
import Bclib.Go.Strings
import Bclib.Socket.Message
import Mathlib.Data.List.Forall2
import Mathlib.Data.List.Perm.Basic

namespace Bclib.Socket

open Data
open Go (str)

/-! One connection of the server: a routine that reads requests, and one goroutine for
each request, which writes its response. -/

/-- The registered callbacks and the JSON codec.  What a callback returns may depend on
the state `ω` of the program at the time it runs. -/
structure Service (α δ ω : Type) where
  methods : String → Option (α → ω → Except String δ)
  unmarshal : List Byte → Option (Request α)
  marshal : Response δ → Option (List Byte)

/-- What is yet to be read, the requests being handled, and what was written.  `written`
records which response each part of the output is. -/
structure Connection (α δ : Type) where
  input : List Byte
  opened : Bool
  handlers : List (Request α)
  output : List Byte
  written : List (Request α × Response δ)
  panicked : Bool
  deriving DecidableEq, Repr

inductive ServerEvent (ω : Type) where
  | read
  | eof
  | handle (position : Nat) (world : ω)
  deriving DecidableEq, Repr

namespace Connection

variable {α δ ω : Type} (service : Service α δ ω)

/-- One round of `readRequest`, which waits for a whole message.  Any error closes the
connection. -/
def readRequest (conn : Connection α δ) : Option (Connection α δ) :=
  match readMessage conn.input with
  | .error .eof => none
  | .error _ => some { conn with opened := false }
  | .ok (value, rest) =>
      match service.unmarshal value with
      | none => some { conn with input := rest, opened := false }
      | some req => some { conn with input := rest, handlers := conn.handlers ++ [req] }

/-- `handleRequest`; writing to a closed connection fails, and that is a panic like the
unknown method. -/
def handleRequest (conn : Connection α δ) (position : Nat) (req : Request α) (world : ω) :
    Connection α δ :=
  match service.methods req.method with
  | none => { conn with panicked := true }
  | some method =>
      let resp := respond req (method req.data world)
      match service.marshal resp with
      | none => { conn with panicked := true }
      | some bytes =>
          if conn.opened then
            { conn with
              handlers := conn.handlers.eraseIdx position
              output := conn.output ++ encodeByteSlice bytes
              written := conn.written ++ [(req, resp)] }
          else { conn with panicked := true }

/-- One step, if it can be made; a panic ends the process. -/
def next (conn : Connection α δ) (event : ServerEvent ω) : Option (Connection α δ) :=
  if conn.panicked then none
  else
    match event with
    | .read => if conn.opened then conn.readRequest service else none
    | .eof =>
        if conn.opened ∧ readMessage conn.input = .error .eof then
          some { conn with opened := false }
        else none
    | .handle position world =>
        match conn.handlers[position]? with
        | none => none
        | some req => some (conn.handleRequest service position req world)

def start (messages : List (List Byte)) : Connection α δ :=
  ⟨messages.flatMap encodeByteSlice, true, [], [], [], false⟩

/-- The message is the JSON of the request and short enough to be read. -/
def Carries (message : List Byte) (req : Request α) : Prop :=
  message.length ≤ maxMsgSize ∧ service.unmarshal message = some req

/-- The peer does not hang up while requests are being handled. -/
def KeepsOpen (conn : Connection α δ) : ServerEvent ω → Prop
  | .eof => conn.handlers = []
  | _ => True

def Proper (pair : Request α × Response δ) : Prop :=
  pair.2.index = pair.1.index ∧ pair.2.method = pair.1.method ∧
    ∃ method world, service.methods pair.1.method = some method ∧
      pair.2 = respond pair.1 (method pair.1.data world)

def frame (resp : Response δ) : List Byte :=
  encodeByteSlice ((service.marshal resp).getD [])

/-- No panic; the output is whole frames; every request is answered, being handled or
unread, and what arrived can be read and what is handled can be answered. -/
structure Answers (requests : List (Request α)) (conn : Connection α δ) : Prop where
  alive : conn.panicked = false
  framed : conn.output = conn.written.flatMap fun pair => frame service pair.2
  encoded : ∀ pair ∈ conn.written, (service.marshal pair.2).isSome = true
  proper : ∀ pair ∈ conn.written, Proper service pair
  once : ∃ unread, (conn.written.map Prod.fst ++ conn.handlers ++ unread).Perm requests ∧
    (conn.input = [] → unread = [])
  reads : conn.opened = true → conn.input ≠ [] → Enabled (next service) conn .read
  finishes : ∀ position < conn.handlers.length, ∀ world,
    Enabled (next service) conn (.handle position world)

/-- What is unread are the messages of requests, and the connection is closed only when
nothing is being handled. -/
structure Inv (requests : List (Request α)) (conn : Connection α δ) : Prop where
  alive : conn.panicked = false
  framed : conn.output = conn.written.flatMap fun pair => frame service pair.2
  encoded : ∀ pair ∈ conn.written, (service.marshal pair.2).isSome = true
  proper : ∀ pair ∈ conn.written, Proper service pair
  unread : ∃ messages unread, conn.input = messages.flatMap encodeByteSlice ∧
    List.Forall₂ (Carries service) messages unread ∧
    (conn.written.map Prod.fst ++ conn.handlers ++ unread).Perm requests
  closed : conn.opened = false → conn.handlers = []

variable {service}

section Reading

variable {conn : Connection α δ} {message rest : List Byte} {req : Request α}

theorem readRequest_carried (carries : Carries service message req)
    (arrived : conn.input = encodeByteSlice message ++ rest) :
    conn.readRequest service =
      some { conn with input := rest, handlers := conn.handlers ++ [req] } := by
  simp only [readRequest, arrived, readMessage_encodeByteSlice carries.1, carries.2]

theorem readMessage_nil : readMessage [] = .error .eof := rfl

theorem encodeByteSlice_ne_nil (message : List Byte) : encodeByteSlice message ≠ [] := by
  have nonempty : ∀ room number, Varint.putUvarint room number ≠ [] := by
    intro room number
    cases room with
    | zero => exact List.cons_ne_nil _ _
    | succ room =>
        rw [Varint.putUvarint]
        split_ifs <;> exact List.cons_ne_nil _ _
  exact List.append_ne_nil_of_left_ne_nil (nonempty _ _) _

end Reading

namespace Inv

variable {conn : Connection α δ} {requests : List (Request α)}

theorem reads (inv : Inv service requests conn) (opened : conn.opened = true)
    (arrived : conn.input ≠ []) : Enabled (next service) conn .read := by
  obtain ⟨messages, unread, input, carried, -⟩ := inv.unread
  cases carried with
  | nil => exact absurd input arrived
  | cons carries later =>
      rw [Enabled, next, if_neg (by simp [inv.alive]), if_pos opened,
        readRequest_carried carries input]
      rfl

theorem finishes (inv : Inv service requests conn) {position : Nat}
    (inside : position < conn.handlers.length) (world : ω) :
    Enabled (next service) conn (.handle position world) := by
  rw [Enabled, next, if_neg (by simp [inv.alive]), List.getElem?_eq_getElem inside]
  rfl

theorem answers (inv : Inv service requests conn) : Answers service requests conn := by
  obtain ⟨messages, unread, input, carried, once⟩ := inv.unread
  refine ⟨inv.alive, inv.framed, inv.encoded, inv.proper, ⟨unread, once, fun done => ?_⟩,
    inv.reads, fun _ => inv.finishes⟩
  cases carried with
  | nil => rfl
  | cons first rest =>
      rw [done, List.flatMap_cons] at input
      exact absurd (List.append_eq_nil_iff.1 input.symm).1 (encodeByteSlice_ne_nil _)

theorem read (inv : Inv service requests conn) {after : Connection α δ}
    (ran : conn.readRequest service = some after) (opened : conn.opened = true) :
    Inv service requests after := by
  obtain ⟨messages, unread, input, carried, once⟩ := inv.unread
  cases carried with
  | nil =>
      have waiting : conn.input = [] := input
      simp [readRequest, waiting, readMessage_nil] at ran
  | @cons message req messages unread carries later =>
      rw [readRequest_carried carries input] at ran
      obtain rfl := Option.some.inj ran
      refine ⟨inv.alive, inv.framed, inv.encoded, inv.proper,
        ⟨messages, unread, rfl, later, ?_⟩, fun closed => ?_⟩
      · simpa using once
      · exact absurd (closed.symm.trans opened) Bool.false_ne_true

theorem handle (inv : Inv service requests conn)
    (encodable : ∀ req method world, service.methods req.method = some method →
      (service.marshal (respond req (method req.data world))).isSome = true)
    {position : Nat} {req : Request α} (found : conn.handlers[position]? = some req)
    (registered : (service.methods req.method).isSome = true) (world : ω) :
    Inv service requests (conn.handleRequest service position req world) := by
  obtain ⟨method, known⟩ := Option.isSome_iff_exists.1 registered
  obtain ⟨bytes, marshalled⟩ :=
    Option.isSome_iff_exists.1 (encodable req method world known)
  have opened : conn.opened = true := by
    cases state : conn.opened with
    | true => rfl
    | false => simp [inv.closed state] at found
  have moved : (conn.handlers.eraseIdx position ++ [req]).Perm conn.handlers := by
    obtain ⟨inside, here⟩ := List.getElem?_eq_some_iff.1 found
    have split := List.getElem_cons_eraseIdx_perm inside
    rw [here] at split
    exact List.perm_append_singleton req _ |>.trans split
  simp only [handleRequest, known, marshalled, opened, if_true]
  obtain ⟨messages, unread, input, carried, once⟩ := inv.unread
  refine ⟨inv.alive, ?_, ?_, ?_, ⟨messages, unread, input, carried, ?_⟩,
    fun closed => nomatch closed⟩
  · have last : frame service (respond req (method req.data world)) = encodeByteSlice bytes := by
      rw [frame, marshalled, Option.getD_some]
    rw [List.flatMap_append, List.flatMap_singleton, ← inv.framed, last]
  · exact List.forall_mem_append.2 ⟨inv.encoded, List.forall_mem_singleton.2
      (Option.isSome_iff_exists.2 ⟨bytes, marshalled⟩)⟩
  · exact List.forall_mem_append.2 ⟨inv.proper, List.forall_mem_singleton.2
      ⟨index_respond req _, method_respond req _, method, world, known, rfl⟩⟩
  · refine List.Perm.trans (List.Perm.append_right unread ?_) once
    rw [List.map_append, List.append_assoc]
    exact List.Perm.append_left _ (List.perm_append_comm.trans moved)

theorem step (inv : Inv service requests conn)
    (encodable : ∀ req method world, service.methods req.method = some method →
      (service.marshal (respond req (method req.data world))).isSome = true)
    (registered : ∀ req ∈ requests, (service.methods req.method).isSome = true)
    {event : ServerEvent ω} {after : Connection α δ} (keepsOpen : conn.KeepsOpen event)
    (ran : conn.next service event = some after) : Inv service requests after := by
  unfold next at ran
  rw [if_neg (by simp [inv.alive])] at ran
  cases event with
  | read =>
      dsimp only at ran
      split_ifs at ran with opened
      exact inv.read ran opened
  | eof =>
      dsimp only at ran
      split_ifs at ran with ended
      obtain rfl := Option.some.inj ran
      exact { inv with closed := fun _ => keepsOpen }
  | handle position world =>
      cases found : conn.handlers[position]? with
      | none => simp [found] at ran
      | some req =>
          simp only [found, Option.some.injEq] at ran
          subst ran
          obtain ⟨messages, unread, -, -, once⟩ := inv.unread
          have asked : req ∈ requests := once.subset
            (List.mem_append_left _ (List.mem_append_right _ (List.mem_of_getElem? found)))
          exact inv.handle encodable found (registered req asked) world

theorem start {messages : List (List Byte)}
    (carried : List.Forall₂ (Carries service) messages requests) :
    Inv service requests (Connection.start messages : Connection α δ) where
  alive := rfl
  framed := rfl
  encoded _ member := nomatch member
  proper _ member := nomatch member
  unread := ⟨messages, requests, rfl, carried, List.Perm.refl _⟩
  closed closed := nomatch closed

end Inv

theorem read_all {messages : List (List Byte)} {requests : List (Request α)}
    (carried : List.Forall₂ (Carries service) messages requests) {conn : Connection α δ}
    (opened : conn.opened = true) (alive : conn.panicked = false) {rest : List Byte}
    (arrived : conn.input = messages.flatMap encodeByteSlice ++ rest) :
    AllSteps (stepOf (next service)) (Enabled (next service)) conn
        (List.replicate messages.length .read) ∧
      run (stepOf (next service)) conn (List.replicate messages.length .read) =
        { conn with input := rest, handlers := conn.handlers ++ requests } := by
  induction carried generalizing conn with
  | nil =>
      refine ⟨trivial, ?_⟩
      simp only [List.length_nil, List.replicate_zero, run_nil, List.append_nil]
      rw [← show conn.input = rest from arrived]
  | @cons message req messages requests carries later ih =>
      rw [List.flatMap_cons, List.append_assoc] at arrived
      have stepped : conn.next service .read = some { conn with
          input := messages.flatMap encodeByteSlice ++ rest
          handlers := conn.handlers ++ [req] } := by
        rw [next, if_neg (by simp [alive]), if_pos opened, readRequest_carried carries arrived]
      have moved : stepOf (next service) conn .read = { conn with
          input := messages.flatMap encodeByteSlice ++ rest
          handlers := conn.handlers ++ [req] } := by
        rw [stepOf, stepped, Option.getD_some]
      obtain ⟨enabled, reached⟩ := @ih { conn with
          input := messages.flatMap encodeByteSlice ++ rest
          handlers := conn.handlers ++ [req] } opened alive rfl
      rw [List.length_cons, List.replicate_succ, run_cons, moved, reached]
      refine ⟨⟨Option.isSome_iff_exists.2 ⟨_, stepped⟩, moved ▸ enabled⟩, ?_⟩
      simp

theorem keepsOpen_read (count : Nat) (conn : Connection α δ) :
    AllSteps (stepOf (next service)) KeepsOpen conn (List.replicate count .read) := by
  induction count generalizing conn with
  | zero => trivial
  | succ count ih => exact ⟨trivial, ih _⟩

/-- For every sequence of requests: whatever the order of the handlers, the server answers
each request once in whole frames and does not panic, exactly when all methods are
registered. -/
theorem answers_iff_registered [Nonempty ω] (service : Service α δ ω)
    (encodable : ∀ req method world, service.methods req.method = some method →
      (service.marshal (respond req (method req.data world))).isSome = true)
    (messages : List (List Byte)) (requests : List (Request α))
    (carried : List.Forall₂ (Carries service) messages requests) :
    (∀ events : List (ServerEvent ω),
        AllSteps (stepOf (next service)) (Enabled (next service)) (start messages) events →
        AllSteps (stepOf (next service)) KeepsOpen (start messages) events →
        Answers service requests (run (stepOf (next service)) (start messages) events)) ↔
      ∀ req ∈ requests, (service.methods req.method).isSome = true := by
  constructor
  · intro answers req asked
    -- Read everything and let the handler of the request run.
    obtain ⟨enabled, reached⟩ := @read_all _ _ _ service _ _ carried
      (start messages : Connection α δ) rfl rfl [] (List.append_nil _).symm
    obtain ⟨position, found⟩ := List.getElem?_of_mem asked
    obtain ⟨world⟩ := ‹Nonempty ω›
    by_contra unknown
    rw [Option.not_isSome_iff_eq_none] at unknown
    have last : next service (run (stepOf (next service)) (start messages : Connection α δ)
        (List.replicate messages.length .read)) (.handle position world) =
        some { (start messages : Connection α δ) with
          input := [], handlers := requests, panicked := true } := by
      rw [reached]
      simp [next, start, found, handleRequest, unknown]
    have keepsOpen : AllSteps (stepOf (next service)) KeepsOpen (start messages : Connection α δ)
        (List.replicate messages.length .read ++ [.handle position world]) :=
      allSteps_append.2 ⟨keepsOpen_read _ _, by exact ⟨trivial, trivial⟩⟩
    have allEnabled : AllSteps (stepOf (next service)) (Enabled (next service))
        (start messages : Connection α δ)
        (List.replicate messages.length .read ++ [.handle position world]) :=
      allSteps_append.2 ⟨enabled, Option.isSome_iff_exists.2 ⟨_, last⟩, trivial⟩
    have broken := (answers _ allEnabled keepsOpen).alive
    rw [run_append, run_cons, run_nil, stepOf, last] at broken
    cases broken
  · intro registered events enabled keepsOpen
    exact (enabled_run_keeps (Inv service requests)
      (fun _ _ _ inv keepsOpen ran => inv.step encodable registered keepsOpen ran)
      (.start carried) enabled keepsOpen).answers

/-- The JSON of a request without data. -/
def requestText (method index : String) : List Byte :=
  str "\x7b\"method\":\"" ++ str method ++ str "\",\"data\":null,\"index\":" ++ str index ++
    str "\x7d"

/-- A server with one method, and the JSON of three requests and of two responses. -/
def echoService : Service Unit Unit Unit where
  methods name := if name = "echo" then some fun _ _ => .ok () else none
  unmarshal bytes :=
    if bytes = requestText "echo" "7" then some ⟨"echo", (), 7⟩
    else if bytes = requestText "echo" "8" then some ⟨"echo", (), 8⟩
    else if bytes = requestText "none" "7" then some ⟨"none", (), 7⟩
    else none
  marshal resp := some (str "\x7b\"code\":200,\"log\":\"ok\",\"result\":" ++
    requestText "echo" (if resp.index = 7 then "7" else "8") ++ str "\x7d")

theorem answers_iff_registered_echo :
    let messages := [requestText "echo" "7", requestText "echo" "8"]
    let events : List (ServerEvent Unit) := [.read, .read, .handle 1 (), .handle 0 ()]
    AllSteps (stepOf (next echoService)) (Enabled (next echoService)) (start messages) events ∧
      ((run (stepOf (next echoService)) (start messages) events).written.map
        fun pair => pair.1.index) = [8, 7] ∧
      Answers echoService [⟨"echo", (), 7⟩, ⟨"echo", (), 8⟩]
        (run (stepOf (next echoService)) (start messages) events) := by
  intro messages events
  have enabled : AllSteps (stepOf (next echoService)) (Enabled (next echoService))
      (start messages) events := by decide +kernel
  refine ⟨enabled, by decide +kernel, (answers_iff_registered echoService (fun _ _ _ _ => rfl)
    messages _ (.cons ⟨by decide +kernel, by decide +kernel⟩
      (.cons ⟨by decide +kernel, by decide +kernel⟩ .nil))).2 ?_ _ enabled
        ⟨trivial, trivial, trivial, trivial, trivial⟩⟩
  exact List.forall_mem_cons.2 ⟨rfl, List.forall_mem_singleton.2 rfl⟩

/-- A request for a method that is not registered ends the process, and so does a peer that
hangs up before its request is answered. -/
theorem unknown_method_panics :
    let messages := [requestText "none" "7"]
    List.Forall₂ (Carries echoService) messages [⟨"none", (), 7⟩] ∧
      AllSteps (stepOf (next echoService)) (Enabled (next echoService)) (start messages)
        [.read, .handle 0 ()] ∧
      AllSteps (stepOf (next echoService)) KeepsOpen (start messages) [.read, .handle 0 ()] ∧
      (run (stepOf (next echoService)) (start messages) [.read, .handle 0 ()]).panicked = true ∧
      ¬Answers echoService [⟨"none", (), 7⟩]
        (run (stepOf (next echoService)) (start messages) [.read, .handle 0 ()]) ∧
      (run (stepOf (next echoService)) (start [requestText "echo" "7"])
        [.read, .eof, .handle 0 ()]).panicked = true := by
  intro messages
  have panics : (run (stepOf (next echoService)) (start messages)
      [.read, .handle 0 ()]).panicked = true := by decide +kernel
  refine ⟨.cons ⟨by decide +kernel, by decide +kernel⟩ .nil, by decide +kernel,
    ⟨trivial, trivial, trivial⟩, panics, fun answers => ?_, by decide +kernel⟩
  exact Bool.false_ne_true (answers.alive.symm.trans panics)

end Connection

end Bclib.Socket
