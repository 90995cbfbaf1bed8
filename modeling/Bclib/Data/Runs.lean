import Mathlib.Data.List.Basic

namespace Bclib.Data

/-! Runs of a deterministic system, one operation after the other. -/

section Runs

variable {σ ω : Type} (step : σ → ω → σ)

def run (state : σ) (ops : List ω) : σ := ops.foldl step state

@[simp] theorem run_nil (state : σ) : run step state [] = state := rfl

@[simp] theorem run_cons (state : σ) (op : ω) (rest : List ω) :
    run step state (op :: rest) = run step (step state op) rest := rfl

@[simp] theorem run_append (state : σ) (first second : List ω) :
    run step state (first ++ second) = run step (run step state first) second :=
  List.foldl_append

/-- Every operation fits the state it is made in. -/
def AllSteps (meets : σ → ω → Prop) : σ → List ω → Prop
  | _, [] => True
  | state, op :: rest => meets state op ∧ AllSteps meets (step state op) rest

instance allStepsDecidable (meets : σ → ω → Prop) [∀ state op, Decidable (meets state op)] :
    (state : σ) → (ops : List ω) → Decidable (AllSteps step meets state ops)
  | _, [] => inferInstanceAs (Decidable True)
  | state, op :: rest =>
      have := allStepsDecidable meets (step state op) rest
      inferInstanceAs (Decidable (meets state op ∧ AllSteps step meets (step state op) rest))

variable {step}

theorem allSteps_append {meets : σ → ω → Prop} {state : σ} {first second : List ω} :
    AllSteps step meets state (first ++ second) ↔
      AllSteps step meets state first ∧ AllSteps step meets (run step state first) second := by
  induction first generalizing state with
  | nil => simp [AllSteps]
  | cons op rest ih => simp [AllSteps, ih, and_assoc]

theorem allSteps_of_forall {meets : ω → Prop} {ops : List ω} (all : ∀ op ∈ ops, meets op)
    (state : σ) : AllSteps step (fun _ op => meets op) state ops := by
  induction ops generalizing state with
  | nil => trivial
  | cons op rest ih =>
      rw [List.forall_mem_cons] at all
      exact ⟨all.1, ih all.2 _⟩

theorem AllSteps.and {meets also : σ → ω → Prop} {ops : List ω} {state : σ}
    (first : AllSteps step meets state ops) (second : AllSteps step also state ops) :
    AllSteps step (fun state op => meets state op ∧ also state op) state ops := by
  induction ops generalizing state with
  | nil => trivial
  | cons op rest ih => exact ⟨⟨first.1, second.1⟩, ih first.2 second.2⟩

theorem exists_misfit_of_not_allSteps {meets : σ → ω → Prop} {ops : List ω} {state : σ}
    (broken : ¬AllSteps step meets state ops) :
    ∃ past op later, ops = past ++ op :: later ∧ AllSteps step meets state past ∧
      ¬meets (run step state past) op := by
  induction ops generalizing state with
  | nil => exact absurd trivial broken
  | cons op rest ih =>
      by_cases fits : meets state op
      · obtain ⟨past, misfit, later, rfl, all, fails⟩ := ih fun all => broken ⟨fits, all⟩
        exact ⟨op :: past, misfit, later, rfl, ⟨fits, all⟩, fails⟩
      · exact ⟨[], op, rest, rfl, trivial, fits⟩

theorem run_keeps {meets : σ → ω → Prop} (holds : σ → Prop)
    (kept : ∀ state op, holds state → meets state op → holds (step state op))
    {ops : List ω} {state : σ} (start : holds state)
    (all : AllSteps step meets state ops) : holds (run step state ops) := by
  induction ops generalizing state with
  | nil => exact start
  | cons op rest ih => exact ih (kept state op start all.1) all.2

theorem allSteps_of_keeps {meets condition : σ → ω → Prop} (holds : σ → Prop)
    (fits : ∀ state op, holds state → meets state op → condition state op)
    (kept : ∀ state op, holds state → meets state op → holds (step state op))
    {ops : List ω} {state : σ} (start : holds state) (all : AllSteps step meets state ops) :
    AllSteps step condition state ops := by
  induction ops generalizing state with
  | nil => trivial
  | cons op rest ih => exact ⟨fits state op start all.1, ih (kept state op start all.1) all.2⟩

/-- The states of a run are good exactly as long as the operations meet a condition, if
those that meet it keep an invariant and the first that does not leaves a bad state. -/
theorem run_good_iff {meets condition : σ → ω → Prop} {good : σ → Prop} (holds : σ → Prop)
    (isGood : ∀ state, holds state → good state)
    (kept : ∀ state op, holds state → meets state op → condition state op →
      holds (step state op))
    (spoils : ∀ state op, holds state → meets state op → ¬condition state op →
      ¬good (step state op))
    {ops : List ω} {state : σ} (start : holds state) (all : AllSteps step meets state ops) :
    (∀ past later, ops = past ++ later → good (run step state past)) ↔
      AllSteps step condition state ops := by
  constructor
  · intro goods
    induction ops generalizing state with
    | nil => trivial
    | cons op rest ih =>
        have fits : condition state op := by
          by_contra broken
          exact spoils state op start all.1 broken (goods [op] rest rfl)
        refine ⟨fits, ih (kept state op start all.1 fits) all.2 fun past later split => ?_⟩
        exact goods (op :: past) later (congrArg (op :: ·) split)
  · rintro fits past later rfl
    refine isGood _ (run_keeps holds (fun state op now both => ?_) start
      (AllSteps.and (allSteps_append.1 all).1 (allSteps_append.1 fits).1))
    exact kept state op now both.1 both.2

theorem run_keeps_history {meets : σ → ω → Prop} (holds : List ω → σ → Prop)
    (kept : ∀ past state op, holds past state → meets state op →
      holds (past ++ [op]) (step state op))
    {ops past : List ω} {state : σ} (start : holds past state)
    (all : AllSteps step meets state ops) : holds (past ++ ops) (run step state ops) := by
  induction ops generalizing past state with
  | nil =>
      rw [List.append_nil]
      exact start
  | cons op rest ih =>
      have later := ih (kept past state op start all.1) all.2
      rwa [List.append_assoc] at later

theorem run_commutes {τ : Type} {other : τ → ω → τ} {view : σ → τ} {holds : σ → Prop}
    (kept : ∀ state op, holds state → holds (step state op))
    (commutes : ∀ state op, holds state → view (step state op) = other (view state) op)
    {state : σ} (start : holds state) (ops : List ω) :
    view (run step state ops) = run other (view state) ops := by
  induction ops generalizing state with
  | nil => rfl
  | cons op rest ih =>
      rw [run_cons, run_cons, ih (kept state op start), commutes state op start]

theorem run_related (related : σ → σ → Prop) {meets : σ → ω → Prop} (stays : ω → Bool)
    (both : ∀ left right op, related left right → meets left op → stays op = true →
      related (step left op) (step right op))
    (alone : ∀ left right op, related left right → meets left op → stays op = false →
      related (step left op) right)
    {ops : List ω} {left right : σ} (start : related left right)
    (all : AllSteps step meets left ops) :
    related (run step left ops) (run step right (ops.filter stays)) := by
  induction ops generalizing left right with
  | nil => exact start
  | cons op rest ih =>
      cases kept : stays op with
      | true =>
          rw [List.filter_cons_of_pos kept]
          exact ih (both left right op start all.1 kept) all.2
      | false =>
          rw [List.filter_cons_of_neg (by simp [kept])]
          exact ih (alone left right op start all.1 kept) all.2

end Runs

/-! Systems in which an operation may have to wait. -/

section Partial

variable {σ ω : Type} (next : σ → ω → Option σ)

/-- The step of a system, in which an operation that is not enabled does nothing. -/
def stepOf (state : σ) (op : ω) : σ := (next state op).getD state

def Enabled (state : σ) (op : ω) : Prop := (next state op).isSome = true

instance (state : σ) (op : ω) : Decidable (Enabled next state op) :=
  inferInstanceAs (Decidable (_ = true))

variable {next}

theorem enabled_run_keeps {meets : σ → ω → Prop} (holds : σ → Prop)
    (kept : ∀ state op after, holds state → meets state op → next state op = some after →
      holds after)
    {ops : List ω} {state : σ} (start : holds state)
    (enabled : AllSteps (stepOf next) (Enabled next) state ops)
    (all : AllSteps (stepOf next) meets state ops) : holds (run (stepOf next) state ops) := by
  refine run_keeps holds (fun state op now both => ?_) start (enabled.and all)
  obtain ⟨after, reached⟩ := Option.isSome_iff_exists.1 both.1
  rw [stepOf, reached]
  exact kept state op after now both.2 reached

variable (next) in
/-- The operations can all be made, and lead from one state to the other. -/
def Reaches (state : σ) (ops : List ω) (final : σ) : Prop :=
  AllSteps (stepOf next) (Enabled next) state ops ∧ run (stepOf next) state ops = final

theorem Reaches.refl (state : σ) : Reaches next state [] state := ⟨trivial, rfl⟩

theorem Reaches.cons {state middle final : σ} {op : ω} {rest : List ω}
    (first : next state op = some middle) (later : Reaches next middle rest final) :
    Reaches next state (op :: rest) final := by
  have stepped : stepOf next state op = middle := by rw [stepOf, first]; rfl
  rw [Reaches, AllSteps, run_cons, Enabled, first, stepped]
  exact ⟨⟨rfl, later.1⟩, later.2⟩

theorem Reaches.append {state middle final : σ} {first second : List ω}
    (before : Reaches next state first middle) (later : Reaches next middle second final) :
    Reaches next state (first ++ second) final := by
  rw [Reaches, allSteps_append, run_append, before.2]
  exact ⟨⟨before.1, later.1⟩, later.2⟩

end Partial

/-! Systems in which a state has several steps. -/

section Traces

variable {σ ω : Type}

inductive Trace (step : σ → ω → σ → Prop) (start : σ) : List ω → σ → Prop
  | nil : Trace step start [] start
  | snoc {ops : List ω} {state final : σ} {op : ω} (past : Trace step start ops state)
      (last : step state op final) : Trace step start (ops ++ [op]) final

variable {step : σ → ω → σ → Prop} {start final : σ} {ops : List ω}

theorem Trace.keeps {holds : σ → Prop} {meets : ω → Prop} (trace : Trace step start ops final)
    (kept : ∀ {state op after}, holds state → meets op → step state op after → holds after)
    (begun : holds start) (all : ∀ op ∈ ops, meets op) : holds final := by
  induction trace with
  | nil => exact begun
  | snoc past last ih =>
      exact kept (ih fun op member => all op (List.mem_append_left _ member))
        (all _ (List.mem_append_right _ List.mem_cons_self)) last

theorem Trace.keeps_all {holds : σ → Prop} (trace : Trace step start ops final)
    (kept : ∀ {state op after}, holds state → step state op after → holds after)
    (begun : holds start) : holds final :=
  trace.keeps (fun now _ last => kept now last) begun fun _ _ => (trivial : True)

theorem Trace.append {more : List ω} {last : σ} (trace : Trace step start ops final)
    (further : Trace step final more last) : Trace step start (ops ++ more) last := by
  induction further with
  | nil =>
      rw [List.append_nil]
      exact trace
  | snoc past next ih =>
      rw [← List.append_assoc]
      exact ih.snoc next

end Traces

end Bclib.Data
