import DistFs.NameSpace.Heap

/-!
# Searching a chain of items

In every reachable state a folder has only a `fold` link and a file only a `next` link, so the tree
is one chain: what follows a file is its next sibling, what follows a folder its first child.  This
file states what `search` does on such a chain, for items of any type with a name and a folder
mark.  A search walks to the node named by each path component in turn (`enter`) and then looks the
last component up among the children it has reached (`lookupLast`).
-/

namespace DistFs.NameSpace

open CText

/-! ## Components of a path -/

/-- The names that the successive slashes of a path make `searchloc` look for. -/
def steps (p : CString) : List CString :=
  if slash ∈ p.bytes then parserpath p :: steps (removepath p) else []
termination_by p.bytes.length
decreasing_by exact removepath_length ‹_›

/-- What is left of a path behind its last slash. -/
def lastName (p : CString) : CString := if slash ∈ p.bytes then lastName (removepath p) else p
termination_by p.bytes.length
decreasing_by exact removepath_length ‹_›

theorem steps_of_mem {p : CString} (h : slash ∈ p.bytes) :
    steps p = parserpath p :: steps (removepath p) := by
  rw [steps, if_pos h]

theorem steps_of_not_mem {p : CString} (h : slash ∉ p.bytes) : steps p = [] := by
  rw [steps, if_neg h]

theorem steps_eq_nil_iff {p : CString} : steps p = [] ↔ slash ∉ p.bytes := by
  constructor
  · intro nothing h
    rw [steps_of_mem h] at nothing
    cases nothing
  · exact steps_of_not_mem

theorem steps_child_ne_nil (p n : CString) : steps (child p n) ≠ [] := by
  rw [ne_eq, steps_eq_nil_iff, not_not]
  exact slash_mem_child p n

theorem lastName_of_mem {p : CString} (h : slash ∈ p.bytes) :
    lastName p = lastName (removepath p) := by
  rw [lastName, if_pos h]

theorem lastName_of_not_mem {p : CString} (h : slash ∉ p.bytes) : lastName p = p := by
  rw [lastName, if_neg h]

/-- A plain component in front of a path is one more name to look for. -/
theorem steps_child {c : CString} (hc : slash ∉ c.bytes) (one : c.bytes.length ≠ 1) (n : CString) :
    steps (child c n) = c :: steps n ∧ lastName (child c n) = lastName n := by
  rw [steps_of_mem (slash_mem_child c n), lastName_of_mem (slash_mem_child c n), parserpath_child hc,
    removepath_child hc, if_neg one]
  exact ⟨rfl, rfl⟩

/-- Below a folder there is one name more to look for. -/
theorem steps_child_length {n : CString} (hn : slash ∉ n.bytes) (p : CString) :
    (steps (child p n)).length = (steps p).length + 1 ∧ lastName (child p n) = n := by
  fun_induction steps p with
  | case1 p h ih =>
    obtain ⟨c, r, rfl, hc⟩ := eq_child h
    rw [removepath_child hc] at ih
    rw [child_assoc, steps_of_mem (slash_mem_child _ _), lastName_of_mem (slash_mem_child _ _),
      removepath_child hc, removepath_child hc]
    simp [ih]
  | case2 p h =>
    rw [steps_of_mem (slash_mem_child _ _), lastName_of_mem (slash_mem_child _ _),
      removepath_child h, steps_of_not_mem hn, lastName_of_not_mem hn]
    exact ⟨rfl, rfl⟩

/-! ## Walking -/

section Walk

variable {α : Type*} (name : α → CString) (folder : α → Bool)

/-- The first of a run of siblings that is called `v`, and what follows it in the chain. -/
def walk (v : CString) : List α → Option (α × List α)
  | [] => none
  | x :: l => if name x = v then some (x, l) else if folder x then none else walk v l

/-- The `fold` chain of a node: what follows a folder. -/
def childrenOf (x : α) (l : List α) : List α := if folder x then l else []

/-- The children of the first node of the chain. -/
def topLevel : List α → List α
  | [] => []
  | x :: l => childrenOf folder x l

/-- The first node of the chain and what follows it. -/
def root : List α → Option (α × List α)
  | [] => none
  | x :: l => some (x, l)

/-- The children of the node that a list of names leads to from the siblings `t`. -/
def enter : List CString → List α → Option (List α)
  | [], t => some t
  | v :: vs, t => (walk name folder v t).bind fun p => enter vs (childrenOf folder p.1 p.2)

/-- Looking up the last component `v` among the siblings `t` of the chain `l`.  `home` always names
the root, and siblings that begin with a node called `home` are replaced by those of the top
level. -/
def lookupLast (l : List α) (v : CString) (t : List α) : Except Fault (Option (α × List α)) :=
  if v = home then .ok (root l)
  else match t with
    | [] => .error .null
    | x :: _ => .ok (walk name folder v (if name x = home then topLevel folder l else t))

/-- `searchloc` from the siblings `t` on. -/
def lookup (l t : List α) (p : CString) : Except Fault (Option (α × List α)) :=
  match enter name folder (steps p) t with
  | none => .ok none
  | some t => lookupLast name folder l (lastName p) t

/-- `search`: the node found and what follows it in the chain. -/
def find (l : List α) (p : CString) : Except Fault (Option (α × List α)) :=
  if p = home then .ok (root l) else lookup name folder l l p

/-- The end of a run of siblings, and what follows it. -/
def lastSibling : α → List α → α × List α
  | x, [] => (x, [])
  | x, y :: l => if folder x then (x, y :: l) else lastSibling y l

/-- `searchlast` behind its search: the node to which a new child of `x` is linked, and what
follows that node in the chain. -/
def attachPoint (x : α) (l : List α) : α × List α :=
  match childrenOf folder x l with
  | [] => (x, l)
  | y :: l => lastSibling folder y l

/-- `addnode`: the chain up to the point of attachment, and the new node behind it. -/
def insert (l : List α) (p : CString) (new : α) : Except Fault (List α) := do
  match ← find name folder l p with
  | none => .error .null
  | some (x, t) => return l.take (l.length - (attachPoint folder x t).2.length) ++ [new]

end Walk

section WalkLemmas

variable {α β : Type*} {name : α → CString} {folder : α → Bool}

theorem walk_split {v : CString} {t : List α} {x : α} {l : List α}
    (h : walk name folder v t = some (x, l)) :
    name x = v ∧ ∃ a, t = a ++ x :: l ∧ ∀ y ∈ a, folder y = false ∧ name y ≠ v := by
  induction t with
  | nil => simp [walk] at h
  | cons y t ih =>
    rw [walk] at h
    split_ifs at h with named isFolder
    · simp only [Option.some.injEq, Prod.mk.injEq] at h
      obtain ⟨rfl, rfl⟩ := h
      exact ⟨named, [], rfl, by simp⟩
    · obtain ⟨hx, a, rfl, ha⟩ := ih h
      refine ⟨hx, y :: a, rfl, ?_⟩
      rintro z (_ | ⟨_, hz⟩)
      · exact ⟨by simpa using isFolder, named⟩
      · exact ha z hz

/-- What stands in front of the node found does not matter further on. -/
theorem walk_append_left {v : CString} {a : List α} (ha : ∀ y ∈ a, folder y = false ∧ name y ≠ v)
    (t : List α) : walk name folder v (a ++ t) = walk name folder v t := by
  induction a with
  | nil => rfl
  | cons y a ih =>
    have := ha y (by simp)
    simp [walk, this, ih fun z hz => ha z (by simp [hz])]

/-- A node that is found is found in any longer chain. -/
theorem walk_append {v : CString} {t : List α} {x : α} {l : List α}
    (h : walk name folder v t = some (x, l)) (m : List α) :
    walk name folder v (t ++ m) = some (x, l ++ m) := by
  obtain ⟨hx, a, rfl, ha⟩ := walk_split h
  rw [List.append_assoc, walk_append_left ha]
  simp [walk, hx]

theorem childrenOf_suffix (folder : α → Bool) (x : α) (l : List α) : childrenOf folder x l <:+ l := by
  unfold childrenOf
  split_ifs
  · exact List.suffix_refl l
  · exact List.nil_suffix

theorem walk_suffix {v : CString} {t : List α} {x : α} {l : List α}
    (h : walk name folder v t = some (x, l)) : x :: l <:+ t := by
  obtain ⟨-, a, rfl, -⟩ := walk_split h
  exact List.suffix_append _ _

theorem enter_nil_left (t : List α) : enter name folder [] t = some t := rfl

theorem enter_cons (v : CString) (vs : List CString) (t : List α) :
    enter name folder (v :: vs) t =
      (walk name folder v t).bind fun p => enter name folder vs (childrenOf folder p.1 p.2) := rfl

theorem enter_cons_nil (v : CString) (vs : List CString) :
    enter name folder (v :: vs) [] = none := rfl

theorem enter_suffix {vs : List CString} {t t' : List α} (h : enter name folder vs t = some t') :
    t' <:+ t := by
  induction vs generalizing t with
  | nil =>
    obtain rfl := Option.some.inj h
    exact List.suffix_refl t
  | cons v vs ih =>
    rw [enter_cons, Option.bind_eq_some_iff] at h
    obtain ⟨⟨x, l⟩, hx, h⟩ := h
    exact (ih h).trans ((childrenOf_suffix _ x l).trans ((List.suffix_cons x l).trans (walk_suffix hx)))

/-- Names lead on in a longer chain to where they led before; to the same children, unless these
were none. -/
theorem enter_append {vs : List CString} {t t' : List α} (h : enter name folder vs t = some t')
    (m : List α) :
    ∃ t'', enter name folder vs (t ++ m) = some t'' ∧ (t' ≠ [] → t'' = t' ++ m) := by
  induction vs generalizing t with
  | nil =>
    obtain rfl := Option.some.inj h
    exact ⟨t ++ m, rfl, fun _ => rfl⟩
  | cons v vs ih =>
    rw [enter_cons, Option.bind_eq_some_iff] at h
    obtain ⟨⟨x, l⟩, hx, h⟩ := h
    simp only [enter_cons, walk_append hx, Option.bind_some, childrenOf] at h ⊢
    split_ifs at h ⊢
    · exact ih h
    · -- A file has no children, so no name is left.
      cases vs with
      | nil =>
        obtain rfl := Option.some.inj h
        exact ⟨[], rfl, fun h => absurd rfl h⟩
      | cons w vs => simp [enter_cons_nil] at h

theorem root_append {l : List α} {x : α} {t : List α} (h : root l = some (x, t)) (m : List α) :
    root (l ++ m) = some (x, t ++ m) := by
  cases l with
  | nil => simp [root] at h
  | cons y l =>
    simp only [root, Option.some.injEq, Prod.mk.injEq] at h
    obtain ⟨rfl, rfl⟩ := h
    rfl

theorem root_suffix {l : List α} {x : α} {t : List α} (h : root l = some (x, t)) : l = x :: t := by
  cases l with
  | nil => simp [root] at h
  | cons y l =>
    simp only [root, Option.some.injEq, Prod.mk.injEq] at h
    rw [h.1, h.2]

theorem topLevel_suffix (l : List α) : topLevel folder l <:+ l := by
  cases l with
  | nil => exact List.suffix_refl _
  | cons x l => exact (childrenOf_suffix _ x l).trans (List.suffix_cons x l)

theorem topLevel_append {l : List α} (h : topLevel folder l ≠ []) (m : List α) :
    topLevel folder (l ++ m) = topLevel folder l ++ m := by
  cases l with
  | nil => exact absurd rfl h
  | cons x l =>
    simp only [topLevel, childrenOf, List.cons_append] at h ⊢
    split_ifs at h ⊢
    · rfl
    · exact absurd rfl h

theorem walk_ne_nil {v : CString} {t : List α} {p : α × List α}
    (h : walk name folder v t = some p) : t ≠ [] := by
  rintro rfl
  simp [walk] at h

theorem lookupLast_append {l t : List α} {v : CString} {p : α × List α}
    (h : lookupLast name folder l v t = .ok (some p)) {t' m : List α} (ht : t ≠ [] → t' = t ++ m) :
    lookupLast name folder (l ++ m) v t' = .ok (some (p.1, p.2 ++ m)) := by
  unfold lookupLast at h ⊢
  split_ifs at h ⊢ with isHome
  · rw [root_append (Except.ok.inj h) m]
  · cases t with
    | nil => simp at h
    | cons x t =>
      rw [ht (by simp)]
      have found := Except.ok.inj h
      simp only [List.cons_append]
      split_ifs at found ⊢
      · rw [topLevel_append (walk_ne_nil found) m, walk_append found m]
      · rw [← List.cons_append, walk_append found m]

/-- A path that is found names the same node in any longer chain. -/
theorem find_append {l : List α} {p : CString} {x : α} {t : List α}
    (h : find name folder l p = .ok (some (x, t))) (m : List α) :
    find name folder (l ++ m) p = .ok (some (x, t ++ m)) := by
  unfold find at h ⊢
  split_ifs at h ⊢
  · rw [root_append (Except.ok.inj h) m]
  · unfold lookup at h ⊢
    cases he : enter name folder (steps p) l with
    | none => simp [he] at h
    | some t' =>
      obtain ⟨t'', he', ht⟩ := enter_append he m
      simp only [he, he'] at h ⊢
      exact lookupLast_append h ht

theorem lookupLast_suffix {l t : List α} {v : CString} {x : α} {r : List α} (ht : t <:+ l)
    (h : lookupLast name folder l v t = .ok (some (x, r))) : x :: r <:+ l := by
  unfold lookupLast at h
  split_ifs at h
  · rw [root_suffix (Except.ok.inj h)]
  · cases t with
    | nil => simp at h
    | cons y t =>
      have found := Except.ok.inj h
      split_ifs at found
      · exact (walk_suffix found).trans (topLevel_suffix l)
      · exact (walk_suffix found).trans ht

/-- The node found stands in the chain, followed by what `find` says. -/
theorem find_suffix {l : List α} {p : CString} {x : α} {t : List α}
    (h : find name folder l p = .ok (some (x, t))) : x :: t <:+ l := by
  unfold find at h
  split_ifs at h
  · rw [root_suffix (Except.ok.inj h)]
  · unfold lookup at h
    cases he : enter name folder (steps p) l with
    | none => simp [he] at h
    | some t' =>
      rw [he] at h
      exact lookupLast_suffix (enter_suffix he) h

theorem lookupLast_error {l t : List α} {v : CString} {e : Fault}
    (h : lookupLast name folder l v t = .error e) : e = .null := by
  unfold lookupLast at h
  split_ifs at h
  cases t with
  | nil => exact (Except.error.inj h).symm
  | cons x t => simp at h

/-- The only way in which a search fails to return is a null pointer. -/
theorem find_error {l : List α} {p : CString} {e : Fault} (h : find name folder l p = .error e) :
    e = .null := by
  unfold find lookup at h
  split_ifs at h
  cases he : enter name folder (steps p) l with
  | none => simp [he] at h
  | some t =>
    rw [he] at h
    exact lookupLast_error h

theorem lookup_of_mem {p : CString} (h : slash ∈ p.bytes) (l t : List α) :
    lookup name folder l t p =
      match walk name folder (parserpath p) t with
      | none => .ok none
      | some q => lookup name folder l (childrenOf folder q.1 q.2) (removepath p) := by
  rw [lookup, steps_of_mem h, lastName_of_mem h, enter_cons]
  cases walk name folder (parserpath p) t <;> rfl

theorem lookup_of_not_mem {p : CString} (h : slash ∉ p.bytes) (l t : List α) :
    lookup name folder l t p = lookupLast name folder l p t := by
  rw [lookup, steps_of_not_mem h, lastName_of_not_mem h]
  rfl

theorem lookup_home (l t : List α) : lookup name folder l t home = .ok (root l) := by
  rw [lookup_of_not_mem (by decide)]
  unfold lookupLast
  rw [if_pos rfl]

/-- Without children only `home` is found. -/
theorem lookup_childless {l : List α} {p : CString} {q : α × List α}
    (h : lookup name folder l [] p = .ok (some q)) : p = home := by
  by_contra proper
  by_cases hp : slash ∈ p.bytes
  · simp [lookup_of_mem hp, walk] at h
  · simp [lookup_of_not_mem hp, lookupLast, proper] at h

/-! ## The point of attachment -/

theorem lastSibling_suffix (folder : α → Bool) (x : α) (l : List α) :
    (lastSibling folder x l).1 :: (lastSibling folder x l).2 <:+ x :: l := by
  induction l generalizing x with
  | nil => exact List.suffix_refl _
  | cons y l ih =>
    rw [lastSibling]
    split_ifs
    · exact List.suffix_refl _
    · exact (ih y).trans (List.suffix_cons x _)

theorem attachPoint_suffix (folder : α → Bool) (x : α) (l : List α) :
    (attachPoint folder x l).1 :: (attachPoint folder x l).2 <:+ x :: l := by
  unfold attachPoint
  split
  · exact List.suffix_refl _
  · rename_i y l' h
    have : y :: l' <:+ l := h ▸ childrenOf_suffix folder x l
    exact (lastSibling_suffix _ y l').trans (this.trans (List.suffix_cons x l))

end WalkLemmas

end DistFs.NameSpace
