import Bclib.Data.Runs
import Bclib.Go.Channel

namespace Bclib.Log

open Bclib.Data Bclib.Go

/-! The asynchronous output of `giLogger`: the goroutine that calls the logger, and the
workers it has started. Only the caller reads or writes `isOutputAsync`. -/

/-- The call that makes a line of the log; the time and the thread it names are those of
the goroutine that makes it. -/
inductive LogText (ν : Type) where
  | genLogText (level msg : String) (keyvals : List ν)
  | genLogTextEx (level fmtStr : String) (vals : List ν)
  deriving DecidableEq, Repr

structure LogInfo (ν : Type) where
  level : String
  msg : String
  keyvals : List ν
  fmt : Bool
  fmtStr : String
  vals : List ν
  deriving DecidableEq, Repr

def LogInfo.text (li : LogInfo ν) : LogText ν :=
  if li.fmt = false then .genLogText li.level li.msg li.keyvals
  else .genLogTextEx li.level li.fmtStr li.vals

inductive Call (ν : Type) where
  | setOutputAsync (isAsync : Bool)
  | log (level msg : String) (keyvals : List ν)
  | logEx (level fmtStr : String) (vals : List ν)
  | flush
  deriving DecidableEq, Repr

/-- What the caller does next. -/
inductive Phase (ν : Type) where
  | idle
  /-- `log.cf <- li` -/
  | queueing (li : LogInfo ν)
  /-- `log.flushMutex` of one line -/
  | writing (text : LogText ν)
  /-- `log.caStop <- true`, for `Flush` or for a call of its own -/
  | stopping (flushes : Bool)
  /-- `<-log.caStopped` -/
  | awaiting (flushes : Bool)
  /-- the test of `Flush` before its loop -/
  | emptying
  /-- the test in the loop of `Flush` -/
  | collecting (logBuf : List (LogText ν))
  /-- `li := <-log.cf` in the loop of `Flush` -/
  | taking (logBuf : List (LogText ν))
  deriving DecidableEq, Repr

/-- What a goroutine in `asyncRun` does next. -/
inductive Worker (ν : Type) where
  /-- `len(log.cf) > 0` -/
  | looking
  /-- `li := <-log.cf` -/
  | taking
  /-- `log.flush(logBuf)` -/
  | writing (text : LogText ν)
  /-- `len(log.caStop) > 0` -/
  | checking
  /-- `log.caStopped <- true` -/
  | leaving
  deriving DecidableEq, Repr

structure Logger (ν : Type) where
  isOutputAsync : Bool
  caStop : Chan Bool 1
  caStopped : Chan Bool 1
  cf : Chan (LogInfo ν) 10000
  workers : List (Worker ν)
  phase : Phase ν
  /-- The buffers that `flush` was called with, each as the lines in it. -/
  flushed : List (List (LogText ν))
  /-- The lines of the `Log` and `LogEx` calls that have returned. -/
  logged : List (LogText ν)
  deriving DecidableEq, Repr

inductive Event (ν : Type) where
  | call (call : Call ν)
  | caller
  | worker (index : Nat)
  deriving DecidableEq, Repr

namespace Logger

def newGiLogger : Logger ν where
  isOutputAsync := false
  caStop := .make Bool 1
  caStopped := .make Bool 1
  cf := .make (LogInfo ν) 10000
  workers := []
  phase := .idle
  flushed := []
  logged := []

def flush (logBuf : List (LogText ν)) (log : Logger ν) : Logger ν :=
  { log with flushed := log.flushed ++ [logBuf] }

def setOutputAsync (isAsync flushes : Bool) (log : Logger ν) : Logger ν :=
  if log.isOutputAsync = isAsync then log
  else if log.isOutputAsync then
    { log with isOutputAsync := false, phase := .stopping flushes }
  else
    { log with isOutputAsync := true, workers := log.workers ++ [.looking] }

/-- A call up to its first wait. -/
def makeCall (log : Logger ν) : Call ν → Logger ν
  | .setOutputAsync isAsync => log.setOutputAsync isAsync false
  | .log level msg keyvals =>
      if log.isOutputAsync then
        { log with phase := .queueing ⟨level, msg, keyvals, false, "", []⟩ }
      else { log with phase := .writing (.genLogText level msg keyvals) }
  | .logEx level fmtStr vals =>
      if log.isOutputAsync then
        { log with phase := .queueing ⟨level, "", [], true, fmtStr, vals⟩ }
      else { log with phase := .writing (.genLogTextEx level fmtStr vals) }
  | .flush =>
      if log.isOutputAsync then log.setOutputAsync false true
      else { log with phase := .emptying }

/-- The rest of a call, step by step. -/
def proceed (log : Logger ν) : Option (Logger ν) :=
  match log.phase with
  | .idle => none
  | .queueing li =>
      match log.cf.send li with
      | .done cf => some { log with cf, phase := .idle, logged := log.logged ++ [li.text] }
      | _ => none
  | .writing text =>
      some { log.flush [text] with phase := .idle, logged := log.logged ++ [text] }
  | .stopping flushes =>
      match log.caStop.send true with
      | .done caStop => some { log with caStop, phase := .awaiting flushes }
      | _ => none
  | .awaiting flushes =>
      match log.caStopped.receive with
      | .value _ caStopped =>
          some { log with caStopped, phase := if flushes then .emptying else .idle }
      | _ => none
  | .emptying =>
      some { log with phase := if 0 < log.cf.len then .collecting [] else .idle }
  | .collecting logBuf =>
      if 0 < log.cf.len then some { log with phase := .taking logBuf }
      else some { log.flush logBuf with phase := .idle }
  | .taking logBuf =>
      match log.cf.receive with
      | .value li cf => some { log with cf, phase := .collecting (logBuf ++ [li.text]) }
      | _ => none

def asyncRun (log : Logger ν) (index : Nat) : Worker ν → Option (Logger ν)
  | .looking =>
      some { log with
        workers := log.workers.set index (if 0 < log.cf.len then .taking else .checking) }
  | .taking =>
      match log.cf.receive with
      | .value li cf =>
          some { log with cf, workers := log.workers.set index (.writing li.text) }
      | _ => none
  | .writing text => some { log.flush [text] with workers := log.workers.set index .looking }
  | .checking =>
      some { log with
        workers := log.workers.set index (if 0 < log.caStop.len then .leaving else .looking) }
  | .leaving =>
      match log.caStopped.send true with
      | .done caStopped => some { log with caStopped, workers := log.workers.eraseIdx index }
      | _ => none

def next (log : Logger ν) : Event ν → Option (Logger ν)
  | .call call =>
      match log.phase with
      | .idle => some (log.makeCall call)
      | _ => none
  | .caller => log.proceed
  | .worker index => log.workers[index]?.bind (log.asyncRun index)

/-- What is promised of the logger between two calls. -/
structure Consistent (log : Logger ν) : Prop where
  on : log.isOutputAsync = true →
    log.workers.length = 1 ∧ log.caStop.len = 0 ∧ log.caStopped.len = 0
  off : log.isOutputAsync = false →
    log.workers = [] ∧ log.caStop.len = 0 ∧ log.flushed.flatten = log.logged

end Logger

/-- The call switches asynchronous output off, if it is on. -/
def Call.stops : Call ν → Bool
  | .setOutputAsync isAsync => !isAsync
  | .flush => true
  | _ => false

/-- Whether output is asynchronous after the call, given whether it was before. -/
def Call.mode (isAsync : Bool) : Call ν → Bool
  | .setOutputAsync wanted => wanted
  | .flush => false
  | _ => isAsync

/-- Asynchronous output, once on, is never switched off. -/
def NeverStops (calls : List (Call ν)) : Prop :=
  AllSteps Call.mode (fun isAsync call => (isAsync && call.stops) = false) false calls

instance (calls : List (Call ν)) : Decidable (NeverStops calls) :=
  inferInstanceAs (Decidable (AllSteps _ _ _ _))

def Event.call? : Event ν → Option (Call ν)
  | .call made => some made
  | _ => none

/-- The steps of a goroutine that makes the calls, or some of the first of them, one after
the other, and of its workers. -/
def RunOf (calls : List (Call ν)) (events : List (Event ν)) : Prop :=
  AllSteps (stepOf Logger.next) (Enabled Logger.next) Logger.newGiLogger events ∧
    events.filterMap Event.call? <+: calls

instance [DecidableEq ν] (calls : List (Call ν)) (events : List (Event ν)) :
    Decidable (RunOf calls events) :=
  inferInstanceAs (Decidable (_ ∧ _))

end Bclib.Log
