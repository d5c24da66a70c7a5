import Mathlib.Logic.Basic

/-!
# Labelled transition systems

Reachability is parameterized by a guard on the state before a step and its
label, so that "every run whose steps all meet a condition" and "every run"
are the same notion at two guards.
-/

namespace MyCode.Lib

universe u v

/-- A labelled transition system.  Steps need be neither total nor functional. -/
structure System (State : Type u) (Label : Type v) where
  start : State → Prop
  step : State → Label → State → Prop

namespace System

variable {State : Type u} {Label : Type v} (system : System State Label)

/-- The states of runs all of whose steps meet `guard`. -/
inductive ReachableWhen (guard : State → Label → Prop) : State → Prop where
  | start {state} : system.start state → ReachableWhen guard state
  | step {state label next} :
      ReachableWhen guard state →
      guard state label →
      system.step state label next →
      ReachableWhen guard next

def Reachable : State → Prop :=
  system.ReachableWhen fun _ _ => True

variable {system} {guard : State → Label → Prop}

theorem ReachableWhen.invariant {Holds : State → Prop}
    (initially : ∀ state, system.start state → Holds state)
    (preserved : ∀ state label next, Holds state → guard state label →
      system.step state label next → Holds next)
    {state : State} (reached : system.ReachableWhen guard state) : Holds state := by
  induction reached with
  | start started => exact initially _ started
  | step _ met stepped ih => exact preserved _ _ _ ih met stepped

theorem Reachable.invariant {Holds : State → Prop}
    (initially : ∀ state, system.start state → Holds state)
    (preserved : ∀ state label next, Holds state → system.step state label next → Holds next)
    {state : State} (reached : system.Reachable state) : Holds state :=
  ReachableWhen.invariant initially
    (fun state label next holds _ stepped => preserved state label next holds stepped)
    reached

theorem ReachableWhen.mono {weaker : State → Label → Prop}
    (implied : ∀ state label, guard state label → weaker state label) {state : State}
    (reached : system.ReachableWhen guard state) : system.ReachableWhen weaker state := by
  induction reached with
  | start started => exact .start started
  | step _ met stepped ih => exact .step ih (implied _ _ met) stepped

theorem ReachableWhen.reachable {state : State}
    (reached : system.ReachableWhen guard state) : system.Reachable state :=
  reached.mono fun _ _ _ => trivial

theorem Reachable.next {state next : State} {label : Label} (reached : system.Reachable state)
    (stepped : system.step state label next) : system.Reachable next :=
  .step reached trivial stepped

def startingAt (system : System State Label) (state : State) : System State Label :=
  { system with start := fun first => first = state }

/-- Every label is admitted where its turn comes. -/
def Admitted (admits : State → Label → Prop) (next : State → Label → State) :
    State → List Label → Prop
  | _, [] => True
  | state, label :: rest => admits state label ∧ Admitted admits next (next state label) rest

instance Admitted.decidable {admits : State → Label → Prop} {next : State → Label → State}
    [∀ state label, Decidable (admits state label)] :
    ∀ (state : State) (labels : List Label), Decidable (Admitted admits next state labels)
  | _, [] => isTrue trivial
  | state, label :: rest => @instDecidableAnd _ _ _ (Admitted.decidable (next state label) rest)

theorem ReachableWhen.foldl {admits : State → Label → Prop} {next : State → Label → State}
    (steps : ∀ state label, admits state label →
      guard state label ∧ system.step state label (next state label))
    {state : State} {labels : List Label} (reached : system.ReachableWhen guard state)
    (admitted : Admitted admits next state labels) :
    system.ReachableWhen guard (labels.foldl next state) := by
  induction labels generalizing state with
  | nil => exact reached
  | cons label _ ih =>
    obtain ⟨met, stepped⟩ := steps state label admitted.1
    exact ih (.step reached met stepped) admitted.2

theorem Reachable.runs {next : State → Label → State}
    (steps : ∀ state label, system.step state label (next state label))
    {state : State} (labels : List Label) (reached : system.Reachable state) :
    system.Reachable (labels.foldl next state) := by
  induction labels generalizing state with
  | nil => exact reached
  | cons label _ ih => exact ih (reached.next (steps state label))

end System

variable {State : Type u} {Label : Type v} {good sound : State → Prop}
  {admits : State → Label → Prop} {step : State → Label → Option State} {state : State}
  {labels : List Label}

/-- No step fails, and every state of the run is good. -/
def Keeps (good : State → Prop) (step : State → Label → Option State) :
    State → List Label → Prop
  | state, [] => good state
  | state, label :: rest =>
    good state ∧ ∃ next, step state label = some next ∧ Keeps good step next rest

/-- Every label is admitted where its turn comes, as long as no step fails. -/
def AdmitsAll (admits : State → Label → Prop) (step : State → Label → Option State) :
    State → List Label → Prop
  | _, [] => True
  | state, label :: rest =>
    admits state label ∧ ∀ next, step state label = some next → AdmitsAll admits step next rest

theorem Keeps.initially (keeps : Keeps good step state labels) : good state := by
  cases labels with
  | nil => exact keeps
  | cons => exact keeps.1

/-- A guard that is enough for each step, and that no step to a good state goes without,
is met by exactly the good runs. -/
theorem keeps_iff_admitsAll (goodOfSound : ∀ state, sound state → good state)
    (advances : ∀ state label, sound state → admits state label →
      ∃ next, step state label = some next ∧ sound next)
    (needs : ∀ state label next, sound state → step state label = some next → good next →
      admits state label)
    (initially : sound state) : Keeps good step state labels ↔ AdmitsAll admits step state labels := by
  induction labels generalizing state with
  | nil => exact iff_of_true (goodOfSound state initially) trivial
  | cons label _ ih =>
    constructor
    · rintro ⟨_, next, stepped, keeps⟩
      have admitted := needs state label next initially stepped keeps.initially
      refine ⟨admitted, ?_⟩
      intro other again
      obtain ⟨after, advanced, soundAfter⟩ := advances state label initially admitted
      have same := Option.some.inj (again.symm.trans advanced)
      have reached := Option.some.inj (stepped.symm.trans advanced)
      rw [same]
      rw [reached] at keeps
      exact (ih soundAfter).mp keeps
    · rintro ⟨admitted, later⟩
      obtain ⟨after, advanced, soundAfter⟩ := advances state label initially admitted
      exact ⟨goodOfSound state initially, after, advanced,
        (ih soundAfter).mpr (later after advanced)⟩

end MyCode.Lib

/-!
## Machines that answer calls

A machine answers every call or fails.  A machine that follows a reference, call by
call, gives the answers of the reference in every run.
-/

namespace MyCode.Lib

universe u v w x

variable {State : Type u} {Call : Type v} {Answer : Type w} {Reference : Type x}

/-- The answers of a machine to a list of calls; `none` when one of them fails. -/
def runs (step : State → Call → Option (State × Answer)) :
    State → List Call → Option (State × List Answer)
  | state, [] => some (state, [])
  | state, call :: calls => do
      let (next, answer) ← step state call
      let (last, answers) ← runs step next calls
      some (last, answer :: answers)

def replies (step : State → Call → State × Answer) :
    State → List Call → State × List Answer
  | state, [] => (state, [])
  | state, call :: calls =>
    let (next, answer) := step state call
    let (last, answers) := replies step next calls
    (last, answer :: answers)

/-- The machine answers a call as the reference does, and stays related to it. -/
def Follows (related : State → Reference → Prop)
    (step : State → Call → Option (State × Answer))
    (reference : Reference → Call → Reference × Answer) (state : State) (shadow : Reference)
    (call : Call) : Prop :=
  ∃ next, step state call = some (next, (reference shadow call).2) ∧
    related next (reference shadow call).1

/-- Every call of the list meets the guard in the state of the reference it comes in. -/
def Guarded (guard : Reference → Call → Prop) (reference : Reference → Call → Reference × Answer)
    (shadow : Reference) (calls : List Call) : Prop :=
  System.Admitted guard (fun shadow call => (reference shadow call).1) shadow calls

variable {related : State → Reference → Prop} {guard : Reference → Call → Prop}
  {step : State → Call → Option (State × Answer)}
  {reference : Reference → Call → Reference × Answer} {state : State} {shadow : Reference}

theorem runs_follow_when
    (follows : ∀ state shadow call, related state shadow → guard shadow call →
      Follows related step reference state shadow call)
    (calls : List Call) (initially : related state shadow)
    (guarded : Guarded guard reference shadow calls) :
    ∃ last, runs step state calls = some (last, (replies reference shadow calls).2) ∧
      related last (replies reference shadow calls).1 := by
  induction calls generalizing state shadow with
  | nil => exact ⟨state, rfl, initially⟩
  | cons call _ ih =>
    obtain ⟨_, stepped, holds⟩ := follows state shadow call initially guarded.1
    obtain ⟨last, ran, ended⟩ := ih holds guarded.2
    refine ⟨last, ?_, ended⟩
    simp [runs, replies, stepped, ran]

theorem guarded_of_forall (always : ∀ shadow call, guard shadow call) (calls : List Call) :
    Guarded guard reference shadow calls := by
  induction calls generalizing shadow with
  | nil => exact trivial
  | cons call _ ih => exact ⟨always shadow call, ih⟩

theorem runs_follow
    (follows : ∀ state shadow call, related state shadow →
      Follows related step reference state shadow call)
    (calls : List Call) (initially : related state shadow) :
    ∃ last, runs step state calls = some (last, (replies reference shadow calls).2) ∧
      related last (replies reference shadow calls).1 := by
  apply runs_follow_when (fun state shadow call holds _ => follows state shadow call holds) calls
    initially
  exact guarded_of_forall (fun _ _ => trivial) calls

end MyCode.Lib
