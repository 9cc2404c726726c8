import Mathlib.Data.List.Basic
import Mathlib.Data.List.Perm.Basic

/-!
# Packets in flight

A network that delivers in any order: any packet may be the next to leave it.
-/

namespace DistFs.Flight

variable {P : Type*}

/-- Take the packet at a position out of the network. -/
def take (flight : List P) (i : ℕ) : Option (P × List P) :=
  flight[i]?.map fun p => (p, flight.eraseIdx i)

variable {flight rest : List P} {i : ℕ} {p : P}

/-- Nothing else leaves with it. -/
theorem take_perm (h : take flight i = some (p, rest)) : flight.Perm (p :: rest) := by
  obtain ⟨q, found, same⟩ := Option.map_eq_some_iff.1 h
  obtain ⟨lt, rfl⟩ := List.getElem?_eq_some_iff.1 found
  cases same
  exact (List.getElem_cons_eraseIdx_perm lt).symm

theorem take_mem (h : take flight i = some (p, rest)) : p ∈ flight :=
  (take_perm h).symm.subset List.mem_cons_self

theorem take_subset (h : take flight i = some (p, rest)) : rest ⊆ flight :=
  fun _ mem => (take_perm h).symm.subset (List.mem_cons_of_mem p mem)

/-- A count of packets loses what is taken out. -/
theorem take_countP (f : P → Bool) (h : take flight i = some (p, rest)) :
    flight.countP f = rest.countP f + if f p then 1 else 0 := by
  rw [(take_perm h).countP_eq, List.countP_cons]

end DistFs.Flight
