import Mathlib.Data.Option.Basic

/-!
# Simulation between machines with outputs

A machine takes inputs one after another and answers each with an output, or stops.  One machine
simulates another under a relation between their states if every step of the second is answered by
the first in the same way; then so is every run.
-/

namespace DistFs.Machine

variable {S A I O : Type*}

/-- The outputs of a run and the state behind it, unless the machine stops. -/
def trace (step : S → I → Option (O × S)) (s : S) : List I → Option (List O × S)
  | [] => some ([], s)
  | i :: rest =>
      (step s i).bind fun first =>
        (trace step first.2 rest).map fun later => (first.1 :: later.1, later.2)

/-- Every step of `step` is one of `spec` with the same output. -/
def Simulates (spec : A → I → Option (O × A)) (step : S → I → Option (O × S))
    (R : S → A → Prop) : Prop :=
  ∀ s a i o s', R s a → step s i = some (o, s') → ∃ a', spec a i = some (o, a') ∧ R s' a'

variable {spec : A → I → Option (O × A)} {step : S → I → Option (O × S)} {R : S → A → Prop}
  {s s' : S} {a : A} {i : I} {rest : List I} {os : List O}

theorem trace_cons : trace step s (i :: rest) = some (os, s') ↔
    ∃ o u later, step s i = some (o, u) ∧ trace step u rest = some (later, s') ∧
      os = o :: later := by
  rw [trace, Option.bind_eq_some_iff]
  constructor
  · rintro ⟨⟨o, u⟩, first, last⟩
    obtain ⟨⟨later, v⟩, run, same⟩ := Option.map_eq_some_iff.1 last
    cases same
    exact ⟨o, u, later, first, run, rfl⟩
  · rintro ⟨o, u, later, first, run, rfl⟩
    exact ⟨(o, u), first, Option.map_eq_some_iff.2 ⟨(later, s'), run, rfl⟩⟩

/-- The steps of a run one behind the other. -/
theorem Simulates.trace {inputs : List I} (simulates : Simulates spec step R) (related : R s a)
    (run : trace step s inputs = some (os, s')) :
    ∃ a', Machine.trace spec a inputs = some (os, a') ∧ R s' a' := by
  induction inputs generalizing s a os with
  | nil =>
    cases run
    exact ⟨a, rfl, related⟩
  | cons i rest ih =>
    obtain ⟨o, u, later, first, last, rfl⟩ := trace_cons.1 run
    obtain ⟨b, same, related⟩ := simulates s a i o u related first
    obtain ⟨a', traced, related⟩ := ih related last
    exact ⟨a', trace_cons.2 ⟨o, b, later, same, traced, rfl⟩, related⟩

end DistFs.Machine
