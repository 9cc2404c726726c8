import DistFs.NameSpace.Invariant

/-!
# Searching a tree of any shape

The search in a finite tree that the heap represents through `fold` and `next`, whatever calls have
built it.  Every node is found under its path, unless a folder on the way to it has a name of one
character: `parserpath` then returns the rest of the path instead of that name.
-/

namespace DistFs.NameSpace

open CText

/-- A node with its address, its name and its children. -/
inductive Tree where
  | node (addr : Addr) (name : CString) (children : List Tree)

namespace Tree

/-- The address of the topmost node. -/
def addr : Tree → Addr
  | node a _ _ => a

/-- The name of the topmost node. -/
def name : Tree → CString
  | node _ v _ => v

/-- The trees below the topmost node. -/
def children : Tree → List Tree
  | node _ _ cs => cs

/-- The names lead from the tree down to the node. -/
inductive At : Tree → List CString → Tree → Prop
  | here {t : Tree} : At t [] t
  | inside {t c x : Tree} {vs : List CString} : c ∈ t.children → At c vs x → At t (c.name :: vs) x

/-- The names below a node: siblings have different ones, none is `home`, empty or has a slash. -/
inductive Named : Tree → Prop
  | node {a : Addr} {v : CString} {cs : List Tree} : (cs.map name).Nodup →
      (∀ c ∈ cs, c.name ≠ home ∧ c.name.bytes ≠ [] ∧ slash ∉ c.name.bytes) → (∀ c ∈ cs, Named c) →
      Named (node a v cs)

end Tree

/-- The siblings from `p` on, with all below them, are the trees of a list. -/
inductive Forest (s : State) : List Tree → Option Addr → Prop
  | nil : Forest s [] none
  | cons {a : Addr} {n : Node} {cs ts : List Tree} : s.heap a = some n → Forest s cs n.fold →
      Forest s ts n.next → Forest s (.node a n.data.fname cs :: ts) (some a)

/-- The tree of `s` is `t`, well formed and rooted at `head`. -/
structure Rooted (s : State) (t : Tree) : Prop where
  stored : Forest s [t] s.head
  allocated : ∀ a, s.brk ≤ a → s.heap a = none
  root : t.name = home
  named : t.Named

/-- A path from its names, joined by slashes. -/
def joined : CString → List CString → CString
  | v, [] => v
  | v, w :: ws => child v (joined w ws)

variable {s : State} {p : Option Addr} {ts : List Tree} {t c x : Tree} {v : CString}
  {vs : List CString}

/-! ## Siblings -/

/-- The siblings are as many as the links say. -/
theorem Forest.length_unique (h : Forest s ts p) {us : List Tree} (h' : Forest s us p) :
    ts.length = us.length := by
  induction h generalizing us with
  | nil => cases h'; rfl
  | cons cell _ _ _ ih =>
    cases h' with
    | cons cell' _ rest =>
      obtain rfl := Option.some.inj (cell.symm.trans cell')
      rw [List.length_cons, List.length_cons, ih rest]

theorem Forest.behind {us : List Tree} (h : Forest s (us ++ ts) p) : ∃ q, Forest s ts q := by
  induction us generalizing p with
  | nil => exact ⟨p, h⟩
  | cons u us ih =>
    cases h with
    | cons _ _ rest => exact ih rest

/-- The cell of a sibling, and the trees below it. -/
theorem Forest.cell (h : Forest s ts p) (hc : c ∈ ts) :
    ∃ n, s.heap c.addr = some n ∧ n.data.fname = c.name ∧ Forest s c.children n.fold := by
  induction h with
  | nil => cases hc
  | cons cell below _ _ ih =>
    rcases List.mem_cons.1 hc with rfl | hc
    · exact ⟨_, cell, rfl, below⟩
    · exact ih hc

/-- Siblings have different addresses, as their list is finite. -/
theorem Forest.nodup (h : Forest s ts p) : (ts.map Tree.addr).Nodup := by
  induction h with
  | nil => exact List.nodup_nil
  | @cons a n cs ts cell below rest _ ih =>
    rw [List.map_cons, List.nodup_cons]
    refine ⟨fun again => ?_, ih⟩
    obtain ⟨u, hu, same⟩ := List.mem_map.1 again
    obtain ⟨us, ws, rfl⟩ := List.append_of_mem hu
    obtain ⟨q, behind⟩ := rest.behind
    have here : q = some a := by
      cases behind
      exact congrArg some same
    rw [here] at behind
    have := (Forest.cons cell below rest).length_unique behind
    simp only [List.length_cons, List.length_append] at this
    omega

/-- The fuel of the sibling loops suffices. -/
theorem Forest.length_le (h : Forest s ts p) (allocated : ∀ a, s.brk ≤ a → s.heap a = none) :
    ts.length ≤ s.brk := by
  have sub : ts.map Tree.addr ⊆ List.range s.brk := by
    intro a ha
    obtain ⟨c, hc, rfl⟩ := List.mem_map.1 ha
    obtain ⟨n, cell, -⟩ := h.cell hc
    rw [List.mem_range]
    by_contra outside
    rw [allocated c.addr (not_lt.1 outside)] at cell
    cases cell
  simpa using (h.nodup.subperm sub).length_le

/-- The sibling loop finds the first sibling of that name. -/
theorem Forest.searchsiblings_eq (h : Forest s ts p) {fuel : ℕ} (enough : ts.length < fuel) :
    searchsiblings s v fuel p = .ok ((ts.find? fun t => t.name = v).map Tree.addr) := by
  induction h generalizing fuel with
  | nil =>
    obtain ⟨k, rfl⟩ := Nat.exists_eq_succ_of_ne_zero (by omega : fuel ≠ 0)
    rfl
  | @cons a n cs ts cell _ _ _ ih =>
    obtain ⟨k, rfl⟩ := Nat.exists_eq_succ_of_ne_zero (by omega : fuel ≠ 0)
    rw [List.length_cons] at enough
    simp only [searchsiblings, State.deref, cell, bind, Except.bind, List.find?_cons, Tree.name]
    by_cases named : n.data.fname = v
    · simp [named, Tree.addr, pure, Except.pure]
    · simp only [named, if_false, decide_false]
      exact ih (by omega)

/-- Among siblings with different names, a sibling is found by its own. -/
theorem find_sibling (distinct : (ts.map Tree.name).Nodup) (hc : c ∈ ts) :
    (ts.find? fun t => t.name = c.name) = some c := by
  induction ts with
  | nil => cases hc
  | cons t ts ih =>
    rw [List.map_cons, List.nodup_cons] at distinct
    rcases List.mem_cons.1 hc with rfl | hc
    · simp
    · have other : t.name ≠ c.name := fun same => distinct.1 (same ▸ List.mem_map_of_mem hc)
      rw [List.find?_cons_of_neg (by simpa using other)]
      exact ih distinct.2 hc

/-! ## Paths -/

theorem Tree.at_nil (h : t.At [] x) : x = t := by
  cases h
  rfl

theorem Tree.at_cons (h : t.At (v :: vs) x) : ∃ c ∈ t.children, c.name = v ∧ c.At vs x := by
  cases h with
  | inside hc below => exact ⟨_, hc, rfl, below⟩

theorem Tree.Named.children (named : t.Named) : (t.children.map Tree.name).Nodup ∧
    (∀ c ∈ t.children, c.name ≠ home ∧ c.name.bytes ≠ [] ∧ slash ∉ c.name.bytes) ∧
      ∀ c ∈ t.children, c.Named := by
  cases named with
  | node distinct plain below => exact ⟨distinct, plain, below⟩

/-- One step of the search: the name of a sibling leads to its children, unless it has one
character; then the whole rest of the path is looked for, and no name has a slash. -/
theorem searchloc_step (allocated : ∀ a, s.brk ≤ a → s.heap a = none) (h : Forest s ts p)
    (distinct : (ts.map Tree.name).Nodup) (plain : ∀ c ∈ ts, slash ∉ c.name.bytes) (hc : c ∈ ts)
    (r : CString) (fuel : ℕ) : ∃ n : Node, Forest s c.children n.fold ∧
      searchloc s (fuel + 1) p (child c.name r) =
        if c.name.bytes.length = 1 then .ok none else searchloc s fuel n.fold r := by
  obtain ⟨n, cell, -, below⟩ := h.cell hc
  refine ⟨n, below, ?_⟩
  have siblings (v : CString) :=
    h.searchsiblings_eq (v := v) (Nat.lt_succ_of_le (h.length_le allocated))
  rw [searchloc, if_pos ((findfch_ne_neg_one (CString.noNul _)).2 (slash_mem_child _ _)), siblings,
    parserpath_child (plain c hc), removepath_child (plain c hc)]
  by_cases one : c.name.bytes.length = 1
  · have nowhere : (ts.find? fun t => t.name = child c.name r) = none := by
      rw [List.find?_eq_none]
      intro t ht same
      apply plain t ht
      rw [of_decide_eq_true same]
      exact slash_mem_child _ _
    rw [if_pos one, if_pos one, nowhere]
    rfl
  · rw [if_neg one, if_neg one, find_sibling distinct hc]
    simp only [Option.map_some, State.deref, cell, bind, Except.bind]

/-- What the search finds below a list of siblings: the node, unless a folder on the way has a name
of one character. -/
theorem searchloc_joined (allocated : ∀ a, s.brk ≤ a → s.heap a = none) (h : Forest s ts p)
    (distinct : (ts.map Tree.name).Nodup)
    (plain : ∀ c ∈ ts, c.name ≠ home ∧ c.name.bytes ≠ [] ∧ slash ∉ c.name.bytes)
    (named : ∀ c ∈ ts, c.Named) (hc : c ∈ ts) (at_ : c.At vs x) {fuel : ℕ}
    (enough : (joined c.name vs).bytes.length < fuel) :
    searchloc s fuel p (joined c.name vs) =
      .ok (if ∀ v ∈ (c.name :: vs).dropLast, v.bytes.length ≠ 1 then some x.addr else none) := by
  have noSlash (c : Tree) (hc : c ∈ ts) : slash ∉ c.name.bytes := (plain c hc).2.2
  obtain ⟨k, rfl⟩ := Nat.exists_eq_succ_of_ne_zero (by omega : fuel ≠ 0)
  induction vs generalizing ts p c k with
  | nil =>
    obtain rfl := Tree.at_nil at_
    have last : ¬ findfch x.name.bytes slash ≠ -1 := by
      rw [findfch_ne_neg_one x.name.noNul]
      exact noSlash x hc
    have siblings := h.searchsiblings_eq (v := x.name) (Nat.lt_succ_of_le (h.length_le allocated))
    rw [find_sibling distinct hc] at siblings
    rw [joined, searchloc, if_neg last, if_neg (plain x hc).1]
    cases h with
    | nil => cases hc
    | @cons a n cs ts cell below rest =>
      have first : n.data.fname ≠ home := (plain _ List.mem_cons_self).1
      simp only [State.deref, cell, bind, Except.bind, if_neg first, siblings]
      simp
  | cons w vs ih =>
    obtain ⟨d, hd, rfl, below⟩ := Tree.at_cons at_
    obtain ⟨distinct', plain', named'⟩ := (named c hc).children
    obtain ⟨n, forest, step⟩ := searchloc_step allocated h distinct noSlash hc (joined d.name vs) k
    rw [joined, bytes_child, List.length_append, List.length_cons] at enough
    rw [joined, step, List.dropLast_cons_cons]
    by_cases one : c.name.bytes.length = 1
    · rw [if_pos one, if_neg fun short => short c.name List.mem_cons_self one]
    · obtain ⟨j, rfl⟩ := Nat.exists_eq_succ_of_ne_zero (by omega : k ≠ 0)
      rw [if_neg one, ih forest distinct' plain' named' hd below (fun d hd => (plain' d hd).2.2) j
        (by omega)]
      simp only [List.forall_mem_cons, ne_eq, one, not_false_eq_true, true_and]

/-- A search of the path of a node returns the node if and only if no folder between the root and
the node has a name of one character. -/
theorem search_path_iff (rooted : Rooted s t) (at_ : t.At vs x) :
    search s (joined home vs) = .ok (some x.addr) ↔ ∀ v ∈ vs.dropLast, v.bytes.length ≠ 1 := by
  have head : s.head = some t.addr := by
    have stored := rooted.stored
    generalize s.head = p at stored
    cases stored
    rfl
  cases vs with
  | nil =>
    obtain rfl := Tree.at_nil at_
    have found : search s (joined home []) = .ok (some x.addr) := by
      rw [joined, search, if_pos rfl, head]
    exact ⟨fun _ => by simp, fun _ => found⟩
  | cons w vs =>
    obtain ⟨d, hd, rfl, below⟩ := Tree.at_cons at_
    obtain ⟨distinct, plain, named⟩ := rooted.named.children
    have path : joined home (d.name :: vs) = child t.name (joined d.name vs) := by
      rw [rooted.root, joined]
    have root : ∀ c ∈ [t], slash ∉ c.name.bytes := by
      rw [List.forall_mem_singleton, rooted.root]
      decide
    obtain ⟨n, forest, step⟩ := searchloc_step rooted.allocated rooted.stored (List.nodup_singleton _)
      root List.mem_cons_self (joined d.name vs) (child t.name (joined d.name vs)).bytes.length
    have proper : child t.name (joined d.name vs) ≠ home := child_ne_home _ _
    have four : t.name.bytes.length ≠ 1 := by
      rw [rooted.root]
      decide
    have enough : (joined d.name vs).bytes.length < (child t.name (joined d.name vs)).bytes.length := by
      rw [bytes_child, List.length_append, List.length_cons]
      omega
    rw [path, search, if_neg proper, step, if_neg four,
      searchloc_joined rooted.allocated forest distinct plain named hd below enough]
    simp

/-! ## A file in a folder -/

/-- The tree after the folder `v` and a file in it. -/
def oneInside (v : CString) : State :=
  stateAfter [.addfolder v (.lit "d") home, .addfile (.lit "b") (.lit "d") (child home v)]

/-- The tree that this state stores. -/
def oneInsideTree (v : CString) : Tree :=
  .node 0 home [.node 1 v [.node 2 (.lit "b") []]]

/-- The links and the name of a cell. -/
def links (s : State) (a : Addr) : Option (CString × Option Addr × Option Addr) :=
  (s.heap a).map fun n => (n.data.fname, n.fold, n.next)

theorem Forest.of_links {a : Addr} {cs : List Tree} {f q : Option Addr}
    (cell : links s a = some (v, f, q)) (below : Forest s cs f) (rest : Forest s ts q) :
    Forest s (.node a v cs :: ts) (some a) := by
  obtain ⟨n, stored, same⟩ := Option.map_eq_some_iff.1 cell
  cases same
  exact .cons stored below rest

theorem oneInside_rooted
    (returned : (runOps [.addfolder v (.lit "d") home, .addfile (.lit "b") (.lit "d") (child home v)]
      (initialTree fun _ => 0)).toBool = true)
    (head : (oneInside v).head = some 0) (root : links (oneInside v) 0 = some (home, some 1, none))
    (folder : links (oneInside v) 1 = some (v, some 2, none))
    (file : links (oneInside v) 2 = some (.lit "b", none, none))
    (plain : v ≠ home ∧ v.bytes ≠ [] ∧ slash ∉ v.bytes) :
    Rooted (oneInside v) (oneInsideTree v) where
  stored := by
    rw [head]
    exact .of_links root (.of_links folder (.of_links file .nil .nil) .nil) .nil
  allocated := by
    obtain ⟨l, sound, -⟩ := (ninitialize_sound _).runOps (runOps_stateAfter returned)
    exact sound.fresh
  root := rfl
  named := by
    have leaf : (Tree.node 2 (.lit "b") []).Named := .node (by simp) (by simp) (by simp)
    have inner : (Tree.node 1 v [.node 2 (.lit "b") []]).Named := by
      apply Tree.Named.node
      · simp
      · rw [List.forall_mem_singleton]
        decide
      · rw [List.forall_mem_singleton]
        exact leaf
    apply Tree.Named.node
    · simp
    · rw [List.forall_mem_singleton]
      exact plain
    · rw [List.forall_mem_singleton]
      exact inner

theorem oneInsideTree_at (v : CString) :
    (oneInsideTree v).At [v, .lit "b"] (.node 2 (.lit "b") []) :=
  .inside (c := .node 1 v [.node 2 (.lit "b") []]) List.mem_cons_self
    (.inside (c := .node 2 (.lit "b") []) List.mem_cons_self .here)

theorem search_path_iff_fold1 :
    search (oneInside (.lit "fold1")) (joined home [.lit "fold1", .lit "b"]) = .ok (some 2) ↔
      ∀ v ∈ [CString.lit "fold1", .lit "b"].dropLast, v.bytes.length ≠ 1 :=
  search_path_iff (oneInside_rooted (by decide) (by decide) (by decide) (by decide) (by decide)
    (by decide)) (oneInsideTree_at (.lit "fold1"))

/-- The file `home/a/b` exists and is not found. -/
theorem shortFolder_hides : Rooted (oneInside (.lit "a")) (oneInsideTree (.lit "a")) ∧
    (oneInsideTree (.lit "a")).At [.lit "a", .lit "b"] (.node 2 (.lit "b") []) ∧
      search (oneInside (.lit "a")) (joined home [.lit "a", .lit "b"]) = .ok none :=
  ⟨oneInside_rooted (by decide) (by decide) (by decide) (by decide) (by decide) (by decide),
    oneInsideTree_at _, by decide⟩

end DistFs.NameSpace
