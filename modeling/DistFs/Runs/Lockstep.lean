import Mathlib.Data.Option.Basic

/-!
# Two programs in lockstep

A program answers calls one after another from a state that it carries along, and fails at some call
or never.  Two programs are in lockstep if they return the same to every call as long as both run,
and fail at the same call.  A relation between their states that one call keeps is enough for that.
Where only one of them has a say at every call, the other follows it.
-/

namespace DistFs.Machine

variable {A B A' B' S T C O E F : Type}

/-- A sequence of calls from a state on: what they return, and the state behind them. -/
def session (call : S → C → Except E (O × S)) (s : S) : List C → Except E (List O × S)
  | [] => .ok ([], s)
  | c :: rest => do
      let (o, s) ← call s c
      let (os, s) ← session call s rest
      return (o :: os, s)

/-- Both return, with results related by `R`, or both fail, with errors related by `Q`. -/
inductive Corresponds (R : A → B → Prop) (Q : E → F → Prop) : Except E A → Except F B → Prop
  | returns {a : A} {b : B} (related : R a b) : Corresponds R Q (.ok a) (.ok b)
  | fails {e : E} {f : F} (related : Q e f) : Corresponds R Q (.error e) (.error f)

/-- The same outputs, and states related by `R`. -/
abbrev Lockstep (R : S → T → Prop) (Q : E → F → Prop) :
    Except E (O × S) → Except F (O × T) → Prop :=
  Corresponds (fun p q => p.1 = q.1 ∧ R p.2 q.2) Q

variable {Q : E → F → Prop}

/-- What follows two calls that correspond. -/
theorem Corresponds.bind {R : A → B → Prop} {R' : A' → B' → Prop} {m : Except E A} {n : Except F B}
    {f : A → Except E A'} {g : B → Except F B'} (first : Corresponds R Q m n)
    (later : ∀ a b, R a b → Corresponds R' Q (f a) (g b)) :
    Corresponds R' Q (m >>= f) (n >>= g) := by
  cases first with
  | returns related => exact later _ _ related
  | fails related => exact .fails related

/-- One call that satisfies `P` after another. -/
theorem Lockstep.session {R : S → T → Prop} {P : C → Prop} {call : S → C → Except E (O × S)}
    {call' : T → C → Except F (O × T)}
    (step : ∀ s t c, R s t → P c → Lockstep R Q (call s c) (call' t c)) {s : S} {t : T}
    (related : R s t) {calls : List C} (all : ∀ c ∈ calls, P c) :
    Lockstep R Q (Machine.session call s calls) (Machine.session call' t calls) := by
  induction calls generalizing s t with
  | nil => exact .returns ⟨rfl, related⟩
  | cons c rest ih =>
    rw [List.forall_mem_cons] at all
    rw [Machine.session, Machine.session]
    apply (step s t c related all.1).bind
    rintro ⟨o, s'⟩ ⟨o', t'⟩ ⟨rfl, related'⟩
    apply (ih related' all.2).bind
    rintro ⟨os, s''⟩ ⟨os', t''⟩ ⟨rfl, related''⟩
    exact .returns ⟨rfl, related''⟩

/-- What a program returns to calls that satisfy `P`, another one returns as well. -/
theorem session_follows {R : S → T → Prop} {P : C → Prop} {call : S → C → Except E (O × S)}
    {call' : T → C → Except F (O × T)}
    (step : ∀ s t c o t', R s t → P c → call' t c = .ok (o, t') →
      ∃ s', call s c = .ok (o, s') ∧ R s' t')
    {s : S} {t t' : T} {calls : List C} {os : List O} (related : R s t) (all : ∀ c ∈ calls, P c)
    (returned : Machine.session call' t calls = .ok (os, t')) :
    ∃ s', Machine.session call s calls = .ok (os, s') ∧ R s' t' := by
  induction calls generalizing s t os with
  | nil =>
    cases returned
    exact ⟨s, rfl, related⟩
  | cons c rest ih =>
    rw [List.forall_mem_cons] at all
    rw [Machine.session] at returned
    cases first : call' t c with
    | error e =>
      rw [first] at returned
      cases returned
    | ok p =>
      obtain ⟨o, t₁⟩ := p
      obtain ⟨s₁, called, related₁⟩ := step s t c o t₁ related all.1 first
      cases later : Machine.session call' t₁ rest with
      | error e =>
        simp only [first, later, bind, Except.bind] at returned
        cases returned
      | ok q =>
        obtain ⟨os', t₂⟩ := q
        simp only [first, later, bind, Except.bind, pure, Except.pure, Except.ok.injEq,
          Prod.mk.injEq] at returned
        obtain ⟨rfl, rfl⟩ := returned
        obtain ⟨s₂, ran, related₂⟩ := ih related₁ all.2 later
        refine ⟨s₂, ?_, related₂⟩
        simp only [Machine.session, called, ran, bind, Except.bind, pure, Except.pure]

end DistFs.Machine
