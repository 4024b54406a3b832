import Mathlib.Tactic

/-! Runs of a labelled transition system, and invariants over them. -/

namespace Transition

variable {State Event : Type} {step : State → Event → State → Prop}

inductive Run (step : State → Event → State → Prop) : State → List Event → State → Prop
  | refl (s : State) : Run step s [] s
  | tail {s t u : State} {events : List Event} {event : Event} :
      Run step s events t → step t event u → Run step s (events ++ [event]) u

/-- What holds at the start and is kept by every step holds at the end of every run. -/
theorem Run.invariant {holds : State → Prop} {s t : State} {events : List Event}
    (run : Run step s events t) (start : holds s)
    (keeps : ∀ s event t, holds s → step s event t → holds t) : holds t := by
  induction run with
  | refl => exact start
  | tail _ last ih => exact keeps _ _ _ ih last

theorem Run.single {s t : State} {event : Event} (one : step s event t) : Run step s [event] t :=
  Run.tail (Run.refl s) one

theorem Run.trans {s t u : State} {first second : List Event} (one : Run step s first t)
    (two : Run step t second u) : Run step s (first ++ second) u := by
  induction two with
  | refl => simpa using one
  | tail _ last ih =>
      rw [← List.append_assoc]
      exact Run.tail ih last

theorem Run.of_foldlM {next : State → Event → Option State} {s t : State} {events : List Event}
    (result : events.foldlM next s = some t) : Run (fun s event t => next s event = some t) s events t := by
  induction events generalizing s with
  | nil =>
      obtain rfl := Option.some.inj result
      exact Run.refl s
  | cons event rest ih =>
      rw [List.foldlM_cons] at result
      obtain ⟨mid, first, later⟩ := Option.bind_eq_some_iff.mp result
      exact (Run.single first).trans (ih later)

/-- The steps of a system that meet a condition on the state before them. -/
def Guarded (step : State → Event → State → Prop) (guard : State → Event → Prop)
    (s : State) (event : Event) (t : State) : Prop := guard s event ∧ step s event t

theorem Run.mono {wider : State → Event → State → Prop} {s t : State} {events : List Event}
    (run : Run step s events t) (kept : ∀ s event t, step s event t → wider s event t) :
    Run wider s events t := by
  induction run with
  | refl => exact Run.refl _
  | tail _ last ih => exact Run.tail ih (kept _ _ _ last)

theorem Run.guarded_of_foldlM {next : State → Event → Option State} {guard : State → Event → Prop}
    [∀ s event, Decidable (guard s event)] {s t : State} {events : List Event}
    (result : events.foldlM (fun s event => if guard s event then next s event else none) s = some t) :
    Run (Guarded (fun s event t => next s event = some t) guard) s events t := by
  apply (Run.of_foldlM result).mono
  intro s event t step
  by_cases met : guard s event
  · exact ⟨met, by simpa [met] using step⟩
  · simp [met] at step

/-- Steps that keep an invariant and are steps of a view of the state make a run of the view. -/
theorem Run.viewed {View : Type} {view : State → View} {viewStep : View → Event → Option View}
    {holds : State → Prop} {s t : State} {events : List Event} (run : Run step s events t) (start : holds s)
    (keeps : ∀ s event t, holds s → step s event t → holds t ∧ viewStep (view s) event = some (view t)) :
    holds t ∧ events.foldlM viewStep (view s) = some (view t) := by
  induction run with
  | refl => exact ⟨start, rfl⟩
  | tail _ last ih =>
      obtain ⟨before, result⟩ := ih
      obtain ⟨after, taken⟩ := keeps _ _ _ before last
      refine ⟨after, ?_⟩
      rw [List.foldlM_append, result]
      simp only [Option.bind_eq_bind, Option.bind_some, List.foldlM_cons, List.foldlM_nil, taken]
      rfl

/-- Steps that keep an invariant and are steps of another system under other labels make a run of it. -/
theorem Run.relabelled {Other : Type} {other : State → Other → State → Prop} {label : Event → Other}
    {holds : State → Prop} {s t : State} {events : List Event} (run : Run step s events t) (start : holds s)
    (keeps : ∀ s event t, holds s → step s event t → holds t ∧ other s (label event) t) :
    holds t ∧ Run other s (events.map label) t := by
  induction run with
  | refl => exact ⟨start, Run.refl _⟩
  | tail _ last ih =>
      obtain ⟨before, sofar⟩ := ih
      obtain ⟨after, taken⟩ := keeps _ _ _ before last
      refine ⟨after, ?_⟩
      rw [List.map_append, List.map_cons, List.map_nil]
      exact Run.tail sofar taken

theorem foldl_pair {Other : Type} (first : State → Event → State) (second : Other → Event → Other) (s : State)
    (t : Other) (events : List Event) :
    events.foldl (fun pair event => (first pair.1 event, second pair.2 event)) (s, t) =
      (events.foldl first s, events.foldl second t) := by
  induction events generalizing s t with
  | nil => rfl
  | cons event rest ih => rw [List.foldl_cons, List.foldl_cons, List.foldl_cons, ih]

section Exact

variable {next : State → Event → State} {always holds : State → Prop} {fits : State → Event → Prop}

/-- Beside an invariant `always`: where a step keeps a property exactly if it fits, a run has the
property all along exactly if all its steps fit. -/
theorem foldl_keeps_iff (kept : ∀ s event, always s → always (next s event))
    (one : ∀ s event, always s → holds s → (holds (next s event) ↔ fits s event)) {s : State} (fixed : always s)
    (start : holds s) (events : List Event) :
    (∀ before, before <+: events → holds (before.foldl next s)) ↔
      ∀ before event, before ++ [event] <+: events → fits (before.foldl next s) event := by
  have last : ∀ before event, (before ++ [event]).foldl next s = next (before.foldl next s) event := by
    intro before event
    rw [List.foldl_append, List.foldl_cons, List.foldl_nil]
  have stays : ∀ before : List Event, always (before.foldl next s) := by
    intro before
    induction before using List.reverseRecOn with
    | nil => exact fixed
    | append_singleton before event ih =>
        rw [last]
        exact kept _ event ih
  constructor
  · intro along before event front
    have here := along before ((List.prefix_append before [event]).trans front)
    have there := along _ front
    rw [last] at there
    exact (one _ event (stays before) here).mp there
  · intro steps before front
    induction before using List.reverseRecOn with
    | nil => exact start
    | append_singleton before event ih =>
        rw [last]
        have here := ih ((List.prefix_append before [event]).trans front)
        exact (one _ event (stays before) here).mpr (steps before event front)

end Exact

end Transition
