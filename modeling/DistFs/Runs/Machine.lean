import Mathlib.Data.Option.Basic

/-!
# Runs of a machine

A machine is a partial step function `S → E → Option S` on states and events: an event that cannot
happen in a state has no next state there.
-/

namespace DistFs.Machine

variable {S E : Type*}

/-- The state after a list of events. -/
def run (step : S → E → Option S) (s : S) : List E → Option S
  | [] => some s
  | e :: rest => (step s e).bind fun t => run step t rest

/-- Every event of a run meets `ok` in the state it happens in. -/
def Along (step : S → E → Option S) (ok : S → E → Prop) (s : S) : List E → Prop
  | [] => True
  | e :: rest => ok s e ∧ ∀ t ∈ step s e, Along step ok t rest

variable {step : S → E → Option S} {ok : S → E → Prop} {I : S → Prop} {s t : S}

instance Along.decidable [∀ s e, Decidable (ok s e)] :
    (s : S) → (events : List E) → Decidable (Along step ok s events)
  | _, [] => inferInstanceAs (Decidable True)
  | s, e :: rest =>
      have (t : S) := Along.decidable t rest
      inferInstanceAs (Decidable (ok s e ∧ ∀ t ∈ step s e, Along step ok t rest))

theorem run_cons {e : E} {rest : List E} :
    run step s (e :: rest) = some t ↔ ∃ u, step s e = some u ∧ run step u rest = some t := by
  rw [run, Option.bind_eq_some_iff]

/-- What every event keeps holds after a run. -/
theorem run_invariant (keeps : ∀ s e t, I s → step s e = some t → I t) {events : List E} (init : I s)
    (h : run step s events = some t) : I t := by
  induction events generalizing s with
  | nil =>
    obtain rfl := Option.some.inj h
    exact init
  | cons e rest ih =>
    obtain ⟨u, next, h⟩ := run_cons.1 h
    exact ih (keeps s e u init next) h

theorem Along.cons {e : E} {rest : List E} (meets : ok s e) (next : step s e = some t)
    (later : Along step ok t rest) : Along step ok s (e :: rest) := by
  refine ⟨meets, fun u mem => ?_⟩
  obtain rfl := Option.some.inj (next.symm.trans mem)
  exact later

/-- What every event that meets `ok` keeps holds after a run of such events. -/
theorem Along.invariant (keeps : ∀ s e t, ok s e → I s → step s e = some t → I t) {events : List E}
    (meets : Along step ok s events) (init : I s) (h : run step s events = some t) : I t := by
  induction events generalizing s with
  | nil =>
    obtain rfl := Option.some.inj h
    exact init
  | cons e rest ih =>
    obtain ⟨u, next, h⟩ := run_cons.1 h
    exact ih (meets.2 u next) (keeps s e u meets.1 init next) h

end DistFs.Machine
