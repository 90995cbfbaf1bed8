import Bclib.Log.Async

namespace Bclib.Log

open Bclib.Data Bclib.Go

/-! The life cycle of the asynchronous output. What stops a worker is a token in `caStop`
that nobody takes out again, so the promises hold up to the first stop and not beyond. -/

def Worker.held : Worker ν → List (LogText ν)
  | .writing text => [text]
  | _ => []

namespace Logger

structure Working (log : Logger ν) (worker : Worker ν) : Prop where
  workers : log.workers = [worker]
  stays : worker ≠ .leaving
  phase : log.phase = .idle ∨ ∃ li, log.phase = .queueing li
  lines : log.flushed.flatten ++ (worker.held ++ log.cf.buffer.map LogInfo.text) = log.logged

structure Resting (log : Logger ν) : Prop where
  workers : log.workers = []
  phase : log.phase = .idle ∨ log.phase = .emptying ∨ ∃ text, log.phase = .writing text
  empty : log.cf.buffer = []
  lines : log.flushed.flatten = log.logged

structure Inv (log : Logger ν) : Prop where
  caStop : log.caStop.buffer = []
  caStopped : log.caStopped.buffer = []
  mode : (log.isOutputAsync = true ∧ ∃ worker, log.Working worker) ∨
    (log.isOutputAsync = false ∧ log.Resting)

theorem inv_newGiLogger : (newGiLogger : Logger ν).Inv :=
  ⟨rfl, rfl, .inr ⟨rfl, rfl, .inl rfl, rfl, rfl⟩⟩

theorem Inv.consistent {log : Logger ν} (inv : log.Inv) : log.Consistent := by
  have noStop : log.caStop.len = 0 := congrArg List.length inv.caStop
  have noStopped : log.caStopped.len = 0 := congrArg List.length inv.caStopped
  rcases inv.mode with ⟨isOn, worker, working⟩ | ⟨isOff, resting⟩
  · refine ⟨fun _ => ⟨by rw [working.workers]; rfl, noStop, noStopped⟩, fun isOff => ?_⟩
    rw [isOn] at isOff
    cases isOff
  · refine ⟨fun isOn => ?_, fun _ => ⟨resting.workers, noStop, resting.lines⟩⟩
    rw [isOff] at isOn
    cases isOn

theorem Working.makeCall {log : Logger ν} {worker : Worker ν} (working : log.Working worker)
    (isOn : log.isOutputAsync = true) {call : Call ν} (goesOn : call.stops = false) :
    (log.makeCall call).isOutputAsync = true ∧ (log.makeCall call).caStop = log.caStop ∧
      (log.makeCall call).caStopped = log.caStopped ∧ (log.makeCall call).Working worker := by
  cases call with
  | setOutputAsync isAsync =>
      cases isAsync with
      | false => cases goesOn
      | true =>
          have same : log.makeCall (.setOutputAsync true) = log := if_pos isOn
          rw [same]
          exact ⟨isOn, rfl, rfl, working⟩
  | log | logEx =>
      simp only [Logger.makeCall, isOn, if_true, true_and]
      exact ⟨working.workers, working.stays, .inr ⟨_, rfl⟩, working.lines⟩
  | flush => cases goesOn

theorem Inv.makeCall {log : Logger ν} (inv : log.Inv) (idle : log.phase = .idle)
    {call : Call ν} (fits : (log.isOutputAsync && call.stops) = false) :
    (log.makeCall call).Inv := by
  rcases inv.mode with ⟨isOn, worker, working⟩ | ⟨isOff, resting⟩
  · rw [isOn, Bool.true_and] at fits
    obtain ⟨stillOn, sameStop, sameStopped, works⟩ := working.makeCall isOn fits
    exact ⟨sameStop ▸ inv.caStop, sameStopped ▸ inv.caStopped, .inl ⟨stillOn, worker, works⟩⟩
  · cases call with
    | setOutputAsync isAsync =>
        cases isAsync with
        | false =>
            have same : log.makeCall (.setOutputAsync false) = log := if_pos isOff
            rw [same]
            exact inv
        | true =>
            simp only [Logger.makeCall, setOutputAsync, isOff, Bool.false_eq_true, if_false]
            refine ⟨inv.caStop, inv.caStopped, .inl ⟨rfl, .looking, ?_, nofun, .inl idle, ?_⟩⟩
            · simp only [resting.workers, List.nil_append]
            · simp only [Worker.held, resting.empty, resting.lines, List.map_nil,
                List.append_nil]
    | log | logEx =>
        simp only [Logger.makeCall, isOff, Bool.false_eq_true, if_false]
        exact ⟨inv.caStop, inv.caStopped,
          .inr ⟨rfl, resting.workers, .inr (.inr ⟨_, rfl⟩), resting.empty, resting.lines⟩⟩
    | flush =>
        simp only [Logger.makeCall, isOff, Bool.false_eq_true, if_false]
        exact ⟨inv.caStop, inv.caStopped,
          .inr ⟨rfl, resting.workers, .inr (.inl rfl), resting.empty, resting.lines⟩⟩

theorem Inv.proceed {log after : Logger ν} (inv : log.Inv) (step : log.proceed = some after) :
    after.Inv := by
  unfold Logger.proceed at step
  rcases inv.mode with ⟨isOn, worker, working⟩ | ⟨isOff, resting⟩
  · rcases working.phase with idle | ⟨li, queueing⟩
    · rw [idle] at step
      cases step
    · simp only [queueing] at step
      split at step
      · rename_i cf sent
        obtain ⟨appended, -, -⟩ := Chan.send_done sent
        cases step
        refine ⟨inv.caStop, inv.caStopped,
          .inl ⟨isOn, worker, working.workers, working.stays, .inl rfl, ?_⟩⟩
        simp only [appended, List.map_append, List.map_cons, List.map_nil]
        rw [← working.lines, List.append_assoc, List.append_assoc]
      · cases step
  · rcases resting.phase with idle | emptying | ⟨text, writing⟩
    · rw [idle] at step
      cases step
    · have empty : log.cf.len = 0 := congrArg List.length resting.empty
      simp only [emptying, empty, Nat.lt_irrefl, if_false] at step
      cases step
      exact ⟨inv.caStop, inv.caStopped,
        .inr ⟨isOff, resting.workers, .inl rfl, resting.empty, resting.lines⟩⟩
    · simp only [writing] at step
      cases step
      refine ⟨inv.caStop, inv.caStopped,
        .inr ⟨isOff, resting.workers, .inl rfl, resting.empty, ?_⟩⟩
      simp only [flush, List.flatten_append, List.flatten_cons, List.flatten_nil,
        List.append_nil, resting.lines]

theorem Working.asyncRun {log after : Logger ν} {worker : Worker ν}
    (working : log.Working worker) (noStop : log.caStop.len = 0)
    (step : log.asyncRun 0 worker = some after) :
    after.isOutputAsync = log.isOutputAsync ∧ after.caStop = log.caStop ∧
      after.caStopped = log.caStopped ∧ ∃ later, after.Working later := by
  cases worker with
  | looking =>
      cases step
      refine ⟨rfl, rfl, rfl, if 0 < log.cf.len then .taking else .checking, ?_, ?_,
        working.phase, ?_⟩
      · simp only [working.workers, List.set_cons_zero]
      · split <;> nofun
      · rw [← working.lines]
        split <;> rfl
  | taking =>
      simp only [Logger.asyncRun] at step
      split at step
      · rename_i li cf received
        obtain ⟨front, -⟩ := Chan.receive_value received
        cases step
        refine ⟨rfl, rfl, rfl, .writing li.text, ?_, nofun, working.phase, ?_⟩
        · simp only [working.workers, List.set_cons_zero]
        · rw [← working.lines, front]
          rfl
      · cases step
  | writing text =>
      cases step
      refine ⟨rfl, rfl, rfl, .looking, ?_, nofun, working.phase, ?_⟩
      · simp only [working.workers, List.set_cons_zero]
      · have lines := working.lines
        simp only [Worker.held, List.nil_append, flush, List.flatten_append,
          List.flatten_cons, List.flatten_nil, List.append_nil, List.append_assoc] at lines ⊢
        exact lines
  | checking =>
      simp only [Logger.asyncRun, noStop, Nat.lt_irrefl, if_false] at step
      cases step
      refine ⟨rfl, rfl, rfl, .looking, ?_, nofun, working.phase, working.lines⟩
      simp only [working.workers, List.set_cons_zero]
  | leaving => exact absurd rfl working.stays

theorem Inv.worker {log after : Logger ν} {index : Nat} (inv : log.Inv)
    (step : log.next (.worker index) = some after) : after.Inv := by
  rcases inv.mode with ⟨isOn, worker, working⟩ | ⟨isOff, resting⟩
  · rw [next, working.workers] at step
    cases index with
    | zero =>
        obtain ⟨sameMode, sameStop, sameStopped, later, works⟩ :=
          working.asyncRun (congrArg List.length inv.caStop) step
        exact ⟨sameStop ▸ inv.caStop, sameStopped ▸ inv.caStopped,
          .inl ⟨sameMode.trans isOn, later, works⟩⟩
    | succ _ => cases step
  · rw [next, resting.workers] at step
    cases step

/-- A step keeps the invariant unless it is a call that stops a worker. -/
theorem Inv.next {log after : Logger ν} {event : Event ν} (inv : log.Inv)
    (fits : ∀ call, event = .call call → (log.isOutputAsync && call.stops) = false)
    (step : log.next event = some after) : after.Inv := by
  cases event with
  | call made =>
      simp only [Logger.next] at step
      split at step
      · rename_i idle
        cases step
        exact inv.makeCall idle (fits made rfl)
      · cases step
  | caller => exact inv.proceed step
  | worker index => exact inv.worker step

theorem isOutputAsync_makeCall (log : Logger ν) (call : Call ν) :
    (log.makeCall call).isOutputAsync = call.mode log.isOutputAsync := by
  cases call <;> cases isOn : log.isOutputAsync <;>
    simp [makeCall, setOutputAsync, Call.mode, isOn]
  all_goals rename_i isAsync
  all_goals cases isAsync <;> simp [isOn]

theorem isOutputAsync_proceed {log after : Logger ν} (step : log.proceed = some after) :
    after.isOutputAsync = log.isOutputAsync := by
  unfold proceed at step
  repeat' split at step
  all_goals cases step <;> rfl

theorem isOutputAsync_asyncRun {log after : Logger ν} {index : Nat} {worker : Worker ν}
    (step : log.asyncRun index worker = some after) :
    after.isOutputAsync = log.isOutputAsync := by
  unfold asyncRun at step
  repeat' split at step
  all_goals cases step <;> rfl

theorem isOutputAsync_next {log after : Logger ν} {event : Event ν}
    (step : log.next event = some after) :
    after.isOutputAsync = (event.call?.map (Call.mode log.isOutputAsync)).getD
      log.isOutputAsync := by
  cases event with
  | call made =>
      simp only [next] at step
      split at step
      · cases step
        exact log.isOutputAsync_makeCall made
      · cases step
  | caller => exact isOutputAsync_proceed step
  | worker index =>
      obtain ⟨worker, -, step⟩ := Option.bind_eq_some_iff.1 step
      exact isOutputAsync_asyncRun step

theorem fits_of_neverStops {events : List (Event ν)} {calls : List (Call ν)}
    {log : Logger ν} (enabled : AllSteps (stepOf next) (Enabled next) log events)
    (made : events.filterMap Event.call? <+: calls)
    (never : AllSteps Call.mode (fun isAsync call => (isAsync && call.stops) = false)
      log.isOutputAsync calls) :
    AllSteps (stepOf next) (fun log event => ∀ call, event = .call call →
      (log.isOutputAsync && call.stops) = false) log events := by
  induction events generalizing log calls with
  | nil => trivial
  | cons event rest ih =>
      obtain ⟨after, reached⟩ := Option.isSome_iff_exists.1 enabled.1
      have state : stepOf next log event = after := by rw [stepOf, reached]; rfl
      have mode := isOutputAsync_next reached
      obtain ⟨later, rfl⟩ := made
      cases asked : event.call? with
      | none =>
          rw [List.filterMap_cons_none asked] at never
          refine ⟨fun call same => ?_, ih enabled.2 ⟨later, rfl⟩ ?_⟩
          · rw [same] at asked
            cases asked
          · rw [state, mode, asked]
            exact never
      | some first =>
          rw [List.filterMap_cons_some asked] at never
          refine ⟨fun call same => ?_, ih enabled.2 ⟨later, rfl⟩ ?_⟩
          · rw [same] at asked
            cases asked
            exact never.1
          · rw [state, mode, asked]
            exact never.2

theorem consistent_of_neverStops {calls : List (Call ν)} {events : List (Event ν)}
    (never : NeverStops calls) (made : RunOf calls events) :
    (run (stepOf next) newGiLogger events).Consistent :=
  (enabled_run_keeps Inv (fun _ _ _ inv fits step => inv.next fits step) inv_newGiLogger
    made.1 (fits_of_neverStops made.1 made.2 never)).consistent

def settled (isOutputAsync : Bool) (flushed : List (List (LogText ν)))
    (logged : List (LogText ν)) : Logger ν :=
  { newGiLogger with
    isOutputAsync, flushed, logged, workers := if isOutputAsync then [.looking] else [] }

def prompt (isAsync : Bool) (call : Call ν) : List (Event ν) :=
  match call with
  | .setOutputAsync _ => [.call call]
  | .flush => [.call call, .caller]
  | _ => .call call :: .caller :: if isAsync then [.worker 0, .worker 0, .worker 0] else []

theorem prompt_settled {isAsync : Bool} {call : Call ν}
    (fits : (isAsync && call.stops) = false) (flushed : List (List (LogText ν)))
    (logged : List (LogText ν)) :
    ∃ flushed' logged', Reaches next (settled isAsync flushed logged) (prompt isAsync call)
      (settled (call.mode isAsync) flushed' logged') := by
  cases isAsync with
  | true =>
      cases call with
      | setOutputAsync isAsync =>
          cases isAsync with
          | true => exact ⟨_, _, .cons rfl (.refl _)⟩
          | false => cases fits
      | log | logEx =>
          exact ⟨_, _, .cons rfl (.cons rfl (.cons rfl (.cons rfl (.cons rfl (.refl _)))))⟩
      | flush => cases fits
  | false =>
      cases call with
      | setOutputAsync isAsync => cases isAsync <;> exact ⟨_, _, .cons rfl (.refl _)⟩
      | log | logEx | flush => exact ⟨_, _, .cons rfl (.cons rfl (.refl _))⟩

theorem calls_prompt (isAsync : Bool) (call : Call ν) :
    (prompt isAsync call).filterMap Event.call? = [call] := by
  cases call <;> cases isAsync <;> rfl

theorem exists_run_settled {calls : List (Call ν)} {isAsync : Bool}
    (never : AllSteps Call.mode (fun isAsync call => (isAsync && call.stops) = false)
      isAsync calls) (flushed : List (List (LogText ν))) (logged : List (LogText ν)) :
    ∃ events flushed' logged', events.filterMap Event.call? = calls ∧
      Reaches next (settled isAsync flushed logged) events
        (settled (run Call.mode isAsync calls) flushed' logged') := by
  induction calls generalizing isAsync flushed logged with
  | nil => exact ⟨[], flushed, logged, rfl, .refl _⟩
  | cons call rest ih =>
      obtain ⟨flushed₁, logged₁, first⟩ := prompt_settled never.1 flushed logged
      obtain ⟨events, flushed₂, logged₂, calls, later⟩ := ih never.2 flushed₁ logged₁
      refine ⟨prompt isAsync call ++ events, flushed₂, logged₂, ?_, first.append later⟩
      rw [List.filterMap_append, calls_prompt, calls]
      rfl

def stage (flushed : List (List (LogText ν))) (logged : List (LogText ν))
    (caStop caStopped : Chan Bool 1) (workers : List (Worker ν)) (phase : Phase ν) :
    Logger ν :=
  { newGiLogger with caStop, caStopped, workers, phase, flushed, logged }

def token : Chan Bool 1 := ⟨[true], false, Nat.le_refl 1⟩

theorem reaches_stopped (flushed : List (List (LogText ν))) (logged : List (LogText ν))
    (flushes : Bool) :
    Reaches next (stage flushed logged (.make _ _) (.make _ _) [.looking] (.stopping flushes))
      [.caller, .worker 0, .worker 0, .worker 0, .caller]
      (stage flushed logged token (.make _ _) [] (if flushes then .emptying else .idle)) := by
  have put : next (stage flushed logged (.make _ _) (.make _ _) [.looking]
      (.stopping flushes)) .caller = some (stage flushed logged token (.make _ _) [.looking]
        (.awaiting flushes)) := rfl
  have looked : next (stage flushed logged token (.make _ _) [.looking] (.awaiting flushes))
      (.worker 0) = some (stage flushed logged token (.make _ _) [.checking]
        (.awaiting flushes)) := rfl
  have found : next (stage flushed logged token (.make _ _) [.checking] (.awaiting flushes))
      (.worker 0) = some (stage flushed logged token (.make _ _) [.leaving]
        (.awaiting flushes)) := rfl
  have left : next (stage flushed logged token (.make _ _) [.leaving] (.awaiting flushes))
      (.worker 0) = some (stage flushed logged token token [] (.awaiting flushes)) := rfl
  exact .cons put (.cons looked (.cons found (.cons left (.cons rfl (.refl _)))))

theorem exists_run_stopped {call : Call ν} (stops : call.stops = true)
    (flushed : List (List (LogText ν))) (logged : List (LogText ν)) :
    ∃ events : List (Event ν), events.filterMap Event.call? = [call] ∧
      Reaches next (settled true flushed logged) events
        (stage flushed logged token (.make _ _) [] .idle) := by
  cases call with
  | setOutputAsync isAsync =>
      cases isAsync with
      | true => cases stops
      | false =>
          exact ⟨.call (.setOutputAsync false) :: _, rfl,
            .cons rfl (reaches_stopped flushed logged false)⟩
  | flush =>
      exact ⟨.call .flush :: (_ ++ [.caller]), rfl,
        .cons rfl ((reaches_stopped flushed logged true).append (.cons rfl (.refl _)))⟩
  | log | logEx => cases stops

theorem Consistent.caStop {log : Logger ν} (consistent : log.Consistent) :
    log.caStop.len = 0 := by
  cases mode : log.isOutputAsync with
  | true => exact (consistent.on mode).2.1
  | false => exact (consistent.off mode).2.1

/-- The logger keeps its promises between the calls of a sequence, however the workers are
scheduled, exactly if no call of the sequence stops a worker. -/
theorem consistent_iff_neverStops (calls : List (Call ν)) :
    (∀ events, RunOf calls events →
      (run (stepOf next) newGiLogger events).phase = .idle →
      (run (stepOf next) newGiLogger events).Consistent) ↔ NeverStops calls := by
  constructor
  · intro consistent
    by_contra stopped
    obtain ⟨past, call, later, rfl, never, misfit⟩ := exists_misfit_of_not_allSteps stopped
    rw [Bool.not_eq_false, Bool.and_eq_true] at misfit
    obtain ⟨first, flushed, logged, firstCalls, before⟩ := exists_run_settled never [] []
    rw [misfit.1] at before
    obtain ⟨second, secondCalls, stop⟩ := exists_run_stopped misfit.2 flushed logged
    obtain ⟨enabled, ends⟩ := before.append stop
    have made : RunOf (past ++ call :: later) (first ++ second) := by
      refine ⟨enabled, later, ?_⟩
      rw [List.filterMap_append, firstCalls, secondCalls, List.append_assoc]
      rfl
    have promised := consistent _ made
    rw [show newGiLogger = (settled false [] [] : Logger ν) from rfl, ends] at promised
    cases (promised rfl).caStop
  · intro never events made _
    exact consistent_of_neverStops never made

/-- One cycle in which a message is queued after the worker has looked for one. -/
def onceAround : List (Event Unit) :=
  [.call (.setOutputAsync true), .worker 0, .call (.log "Info" "late" []), .caller,
    .call (.setOutputAsync false), .caller, .worker 0, .worker 0, .caller]

/-- After the first stop the token is still there, and a message may be left in the queue. -/
theorem stop_leaves_token :
    RunOf [.setOutputAsync true, .log "Info" "late" [], .setOutputAsync false] onceAround ∧
      (run (stepOf next) newGiLogger onceAround).phase = .idle ∧
      (run (stepOf next) newGiLogger onceAround).caStop.len = 1 ∧
      (run (stepOf next) newGiLogger onceAround).flushed = [] ∧
      (run (stepOf next) newGiLogger onceAround).logged = [.genLogText "Info" "late" []] ∧
      ¬(run (stepOf next) newGiLogger onceAround).Consistent := by
  have token : (run (stepOf next) newGiLogger onceAround).caStop.len = 1 := by decide +kernel
  refine ⟨by decide +kernel, by decide +kernel, token, by decide +kernel, by decide +kernel,
    fun consistent => ?_⟩
  rw [consistent.caStop] at token
  cases token

/-- In the second cycle the worker ends at once, and the second stop never returns: there is
no step left, not even for the caller. -/
theorem second_stop_blocks (flushed : List (List (LogText ν))) (logged : List (LogText ν)) :
    Reaches next (stage flushed logged token (.make _ _) [] .idle)
        [.call (.setOutputAsync true), .worker 0, .worker 0, .worker 0,
          .call (.setOutputAsync false)]
        (stage flushed logged token token [] (.stopping false)) ∧
      ∀ event, next (stage flushed logged token token [] (.stopping false)) event = none := by
  refine ⟨.cons rfl (.cons rfl (.cons rfl (.cons rfl (.cons rfl (.refl _))))), ?_⟩
  intro event
  cases event <;> rfl

end Logger

end Bclib.Log
