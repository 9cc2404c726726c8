import Mathlib

/-!
# Doubly linked chains in a memory

A memory maps addresses to cells.  `Stored addr mk mem p l q` says that the items of `l` lie in `mem`
as a chain: the cell at the address of an item is `mk` of the address before it, the item, and the
address behind it.  `p` and `q` are the neighbours of the whole chain.
-/

namespace DistFs.Links

variable {A X C : Type*} (addr : X → A) (mk : Option A → X → Option A → C)

/-- The address at which a chain followed by `q` begins. -/
def first (l : List X) (q : Option A) : Option A := (l.head?.map addr).or q

/-- The address at which a chain that follows `p` ends. -/
def last (l : List X) (p : Option A) : Option A := (l.getLast?.map addr).or p

@[simp] theorem first_nil (q : Option A) : first addr [] q = q := rfl
@[simp] theorem first_cons (x : X) (l : List X) (q : Option A) :
    first addr (x :: l) q = some (addr x) := rfl
@[simp] theorem last_nil (p : Option A) : last addr [] p = p := rfl

@[simp] theorem last_append_singleton (l : List X) (x : X) (p : Option A) :
    last addr (l ++ [x]) p = some (addr x) := by
  simp [last]

theorem first_append (l m : List X) (q : Option A) :
    first addr (l ++ m) q = first addr l (first addr m q) := by
  cases l <;> rfl

theorem last_cons (x : X) (l : List X) (p : Option A) :
    last addr (x :: l) p = last addr l (some (addr x)) := by
  cases h : l.getLast? <;> simp [last, List.getLast?_cons, h]

/-- The chain of the items of `l` between `p` and `q`. -/
def Stored (mem : A → Option C) : Option A → List X → Option A → Prop
  | _, [], _ => True
  | p, x :: l, q =>
      mem (addr x) = some (mk p x (first addr l q)) ∧ Stored mem (some (addr x)) l q

variable {addr mk} {mem mem' : A → Option C} {p q : Option A} {l m : List X} {x : X}

@[simp] theorem stored_nil : Stored addr mk mem p [] q := trivial

@[simp] theorem stored_cons : Stored addr mk mem p (x :: l) q ↔
    mem (addr x) = some (mk p x (first addr l q)) ∧ Stored addr mk mem (some (addr x)) l q := Iff.rfl

theorem stored_append : Stored addr mk mem p (l ++ m) q ↔
    Stored addr mk mem p l (first addr m q) ∧ Stored addr mk mem (last addr l p) m q := by
  induction l generalizing p with
  | nil => simp
  | cons x l ih => simp [ih, first_append, last_cons, and_assoc]

/-- Memory outside the chain does not matter. -/
theorem Stored.frame (h : Stored addr mk mem p l q) (same : ∀ x ∈ l, mem' (addr x) = mem (addr x)) :
    Stored addr mk mem' p l q := by
  induction l generalizing p with
  | nil => trivial
  | cons x l ih =>
    refine ⟨?_, ih h.2 fun y hy => same y (by simp [hy])⟩
    rw [same x (by simp)]
    exact h.1

/-- The cell of an item. -/
theorem Stored.cell (h : Stored addr mk mem p (l ++ x :: m) q) :
    mem (addr x) = some (mk (last addr l p) x (first addr m q)) :=
  (stored_append.1 h).2.1

theorem Stored.cell_of_mem (h : Stored addr mk mem p l q) (hx : x ∈ l) :
    ∃ p' q', mem (addr x) = some (mk p' x q') := by
  obtain ⟨a, t, rfl⟩ := List.append_of_mem hx
  exact ⟨_, _, h.cell⟩

/-- From one address on, a memory holds one chain only. -/
theorem Stored.unique {p' : Option A}
    (inj : ∀ {p p' q q' x y}, addr x = addr y → mk p x q = mk p' y q' → x = y ∧ q = q')
    (h : Stored addr mk mem p l none) (h' : Stored addr mk mem p' m none)
    (same : first addr l none = first addr m none) : l = m := by
  induction l generalizing m p p' with
  | nil =>
    cases m with
    | nil => rfl
    | cons y m => cases same
  | cons x l ih =>
    cases m with
    | nil => cases same
    | cons y m =>
      have addresses : addr x = addr y := Option.some.inj same
      have cells := h.1.symm.trans ((congrArg mem addresses).trans h'.1)
      obtain ⟨rfl, rest⟩ := inj addresses (Option.some.inj cells)
      rw [ih h.2 h'.2 rest]

/-- The items around `x` lie elsewhere. -/
theorem addr_ne_of_nodup (nodup : ((l ++ x :: m).map addr).Nodup) {y : X} (hy : y ∈ l ++ m) :
    addr y ≠ addr x := by
  rw [List.map_append, List.map_cons, List.nodup_middle, List.nodup_cons, ← List.map_append] at nodup
  intro same
  apply nodup.1
  rw [← same]
  exact List.mem_map_of_mem hy

section Allocated

variable {addr : X → ℕ} {mk : Option ℕ → X → Option ℕ → C} {mem : ℕ → Option C} {p q : Option ℕ}
  {brk : ℕ}

/-- A chain lies in the memory in use. -/
theorem Stored.addr_lt (h : Stored addr mk mem p l q) (fresh : ∀ a, brk ≤ a → mem a = none)
    (hx : x ∈ l) : addr x < brk := by
  by_contra beyond
  obtain ⟨p', q', cell⟩ := h.cell_of_mem hx
  rw [fresh (addr x) (not_lt.1 beyond)] at cell
  cases cell

theorem Stored.length_le (h : Stored addr mk mem p l q) (nodup : (l.map addr).Nodup)
    (fresh : ∀ a, brk ≤ a → mem a = none) : l.length ≤ brk := by
  have below : l.map addr ⊆ List.range brk := by
    intro a ha
    obtain ⟨x, hx, rfl⟩ := List.mem_map.1 ha
    exact List.mem_range.2 (h.addr_lt fresh hx)
  have := (nodup.subperm below).length_le
  rwa [List.length_map, List.length_range] at this

end Allocated

/-- Everything behind `u` is replaced by the single item `x`. -/
theorem Stored.attach {u : X} (h : Stored addr mk mem p (l ++ u :: m) q)
    (same : ∀ y ∈ l, mem' (addr y) = mem (addr y))
    (here : mem' (addr u) = some (mk (last addr l p) u (some (addr x))))
    (new : mem' (addr x) = some (mk (some (addr u)) x q)) :
    Stored addr mk mem' p (l ++ [u, x]) q :=
  stored_append.2 ⟨(stored_append.1 h).1.frame same, here, new, trivial⟩

/-- The item `x` between `u` and `v` is taken out. -/
theorem Stored.unlink {u v : X} (h : Stored addr mk mem p (l ++ u :: x :: v :: m) q)
    (before : ∀ y ∈ l, mem' (addr y) = mem (addr y)) (behind : ∀ y ∈ m, mem' (addr y) = mem (addr y))
    (left : mem' (addr u) = some (mk (last addr l p) u (some (addr v))))
    (right : mem' (addr v) = some (mk (some (addr u)) v (first addr m q))) :
    Stored addr mk mem' p (l ++ u :: v :: m) q := by
  obtain ⟨hl, -, -, -, hm⟩ := stored_append.1 h
  exact stored_append.2 ⟨hl.frame before, left, right, hm.frame behind⟩

end DistFs.Links
