import DistFs.NameSpace.Insertion

/-!
# Removing one file

`removefile` unlinks the node that a path names and frees it.  It writes the `prev` link of the next
sibling without asking whether there is one, and uses the result of `search` without asking whether
there is any: only a file with a sibling behind it is removed, and then nothing else changes.
-/

namespace DistFs.NameSpace

open CText Links

/-- The siblings from `p` on. -/
inductive Siblings (s : State) : Option Addr → List Addr → Prop
  | nil : Siblings s none []
  | cons {a : Addr} {n : Node} {l : List Addr} : s.heap a = some n → Siblings s n.next l →
      Siblings s (some a) (a :: l)

/-- The children of the node at `f` are these, in this order. -/
def Children (s : State) (f : Addr) (l : List Addr) : Prop :=
  ∃ n, s.heap f = some n ∧ Siblings s n.fold l

/-- The node at `t` is gone and every other one is where it was: in its folder, in the order of its
siblings, with its data, in a tree whose links are consistent. -/
structure RemovedOnly (s s' : State) (t : Addr) : Prop where
  reached : ∀ a, Reached s' a ↔ Reached s a ∧ a ≠ t
  data : ∀ a n, Reached s' a → s.heap a = some n → ∃ n', s'.heap a = some n' ∧ n'.data = n.data
  head : s'.head = s.head
  order : ∀ f l, Reached s' f → Children s f l → Children s' f (l.filter (· ≠ t))
  consistent : WellShaped s'

/-- A file that the path names is removed, and nothing else; a path that names no node changes
nothing. -/
structure RemovesOne (s : State) (p : CString) : Prop where
  file : ∀ t n, Arrays.search s p = .ok (some t) → s.heap t = some n → n.data.dflag ≠ 1 →
    ∃ s', Arrays.removefile p s = .ok s' ∧ RemovedOnly s s' t
  absent : (∀ t, Arrays.search s p ≠ .ok (some t)) → Arrays.removefile p s = .ok s

theorem Siblings.unique {s : State} {p : Option Addr} {l m : List Addr} (h : Siblings s p l)
    (h' : Siblings s p m) : l = m := by
  induction h generalizing m with
  | nil => cases h'; rfl
  | cons cell _ ih =>
    cases h' with
    | cons cell' rest =>
      obtain rfl := Option.some.inj (cell.symm.trans cell')
      rw [ih rest]

/-- Taking a file out of the chain takes it out of the siblings at its beginning. -/
theorem siblings_remove {α : Type*} {folder : α → Bool} {m w : List α} {x : α} {q : α → Bool}
    (isFile : folder x = false) (hx : q x = false) (hm : ∀ y ∈ m, q y = true)
    (hw : ∀ y ∈ w, q y = true) :
    (siblings folder (m ++ x :: w)).filter q = siblings folder (m ++ w) := by
  induction m with
  | nil =>
    have rest : (siblings folder w).filter q = siblings folder w := by
      apply List.filter_eq_self.2
      intro y hy
      obtain ⟨b, r, rfl, -⟩ := mem_siblings_iff.1 hy
      exact hw y (by simp)
    rw [List.nil_append, List.nil_append, siblings, if_neg (by simp [isFile]),
      List.filter_cons_of_neg (by simp [hx]), rest]
  | cons z m ih =>
    have kept : q z = true := hm z List.mem_cons_self
    rw [List.cons_append, List.cons_append, siblings, siblings]
    split_ifs
    · simp [kept]
    · rw [List.filter_cons_of_pos kept, ih fun y hy => hm y (List.mem_cons_of_mem _ hy)]

namespace Chain

variable {s s' : State} {l a r t w pre : List Item} {u v x : Item} {p : CString}

theorem siblings_start (c : Chain s l) (hl : l = a ++ t) :
    Siblings s (start t) ((siblings Item.folder t).map Item.addr) := by
  induction t generalizing a with
  | nil => exact .nil
  | cons x t ih =>
    have rest := ih (a := a ++ [x]) (by simp [hl])
    have cell := c.cell_eq hl
    rw [siblings]
    by_cases isFolder : x.folder = true
    · rw [if_pos isFolder]
      exact .cons cell (by simpa [Item.cell, isFolder] using .nil)
    · rw [if_neg isFolder]
      exact .cons cell (by simpa [Item.cell, isFolder] using rest)

theorem children_iff (c : Chain s l) (hl : l = a ++ x :: t) {k : List Addr} :
    Children s x.addr k ↔
      k = (siblings Item.folder (childrenOf Item.folder x t)).map Item.addr := by
  have cell := c.cell_eq hl
  have below : Siblings s (x.cell (last Item.addr a none) (start t)).fold
      ((siblings Item.folder (childrenOf Item.folder x t)).map Item.addr) := by
    by_cases isFolder : x.folder = true
    · have := c.siblings_start (a := a ++ [x]) (t := t) (by simp [hl])
      simpa [Item.cell, childrenOf, isFolder] using this
    · simpa [Item.cell, childrenOf, isFolder, siblings] using .nil
  constructor
  · rintro ⟨n, hn, h⟩
    obtain rfl := Option.some.inj (hn.symm.trans cell)
    exact h.unique below
  · rintro rfl
    exact ⟨_, cell, below⟩

/-- The addresses of a chain differ. -/
theorem other_addr (c : Chain s (pre ++ x :: w)) {y : Item} (hy : y ∈ pre ++ w) :
    y.addr ≠ x.addr :=
  addr_ne_of_nodup c.nodup hy

/-- A node keeps its children, without the file if it is one of them. -/
theorem children_remove (c : Chain s (pre ++ x :: w)) (c' : Chain s' (pre ++ w))
    (isFile : x.folder = false) {y : Item} (hy : y ∈ pre ++ w) {k : List Addr}
    (children : Children s y.addr k) : Children s' y.addr (k.filter (· ≠ x.addr)) := by
  have mark (z : Item) (hz : z ∈ pre ++ w) : decide (z.addr ≠ x.addr) = true :=
    decide_eq_true (c.other_addr hz)
  rcases List.mem_append.1 hy with before | behind
  · -- the file can be a child of a node in front of it
    obtain ⟨b, m, rfl⟩ := List.append_of_mem before
    have split : b ++ y :: m ++ x :: w = b ++ y :: (m ++ x :: w) := by simp
    have split' : b ++ y :: m ++ w = b ++ y :: (m ++ w) := by simp
    rw [c.children_iff split] at children
    rw [c'.children_iff split', children, List.filter_map]
    refine congrArg _ ?_
    unfold childrenOf
    split_ifs
    · exact siblings_remove isFile (by simp) (fun z hz => mark z (by simp [hz]))
        fun z hz => mark z (by simp [hz])
    · rfl
  · obtain ⟨b, m, rfl⟩ := List.append_of_mem behind
    have split : pre ++ x :: (b ++ y :: m) = (pre ++ x :: b) ++ y :: m := by simp
    have split' : pre ++ (b ++ y :: m) = (pre ++ b) ++ y :: m := by simp
    rw [c.children_iff split] at children
    rw [c'.children_iff split', children, List.filter_eq_self]
    intro d hd
    obtain ⟨z, hz, rfl⟩ := List.mem_map.1 hd
    obtain ⟨e, r, below, -⟩ := mem_siblings_iff.1 hz
    refine mark z (List.mem_append_right _ ?_)
    have := (childrenOf_suffix Item.folder y m).subset (by rw [below]; simp : z ∈ _)
    simp [this]

/-- The chain without a file that is neither its first nor its last item. -/
theorem removedOnly (c : Chain s (pre ++ x :: w)) (c' : Chain s' (pre ++ w)) (some_ : pre ≠ [])
    (isFile : x.folder = false) (consistent : WellShaped s') : RemovedOnly s s' x.addr := by
  have still (y : Item) (hy : y ∈ pre ++ w) : y ∈ pre ++ x :: w := by
    rw [List.mem_append] at hy ⊢
    exact hy.imp_right (List.mem_cons_of_mem _)
  refine ⟨fun a => ?_, fun a n reached cell => ?_, ?_, fun f k reached children => ?_, consistent⟩
  · rw [c'.reached_iff, c.reached_iff]
    constructor
    · rintro ⟨y, hy, rfl⟩
      exact ⟨⟨y, still y hy, rfl⟩, c.other_addr hy⟩
    · rintro ⟨⟨y, hy, rfl⟩, distinct⟩
      refine ⟨y, ?_, rfl⟩
      rcases List.mem_append.1 hy with hy | hy
      · exact List.mem_append_left _ hy
      · rcases List.mem_cons.1 hy with rfl | hy
        · exact absurd rfl distinct
        · exact List.mem_append_right _ hy
  · obtain ⟨y, hy, rfl⟩ := c'.mem_of_reached reached
    obtain ⟨b, t, split⟩ := List.append_of_mem hy
    obtain ⟨b', t', split'⟩ := List.append_of_mem (still y hy)
    obtain rfl := Option.some.inj (cell.symm.trans (c.cell_eq split'))
    exact ⟨_, c'.cell_eq split, rfl⟩
  · obtain ⟨y, pre, rfl⟩ := List.exists_cons_of_ne_nil some_
    rw [c.head, c'.head]
    rfl
  · obtain ⟨y, hy, rfl⟩ := c'.mem_of_reached reached
    exact c.children_remove c' isFile hy children

/-- A removal that returns has found a node that is followed by another one. -/
theorem followed_of_removefile (c : Chain s l) (h : Arrays.removefile p s = .ok s') :
    ∃ t n, Arrays.search s p = .ok (some t) ∧ s.heap t = some n ∧ n.next ≠ none := by
  obtain ⟨⟨t, s₁⟩, unlinked, -⟩ := bind_eq_ok.1 h
  obtain ⟨r, searched, -⟩ := bind_eq_ok.1 unlinked
  obtain failed | ⟨s₂, a, u, x, v, k, unlinked', hl, isFile, -⟩ := c.unlink_cases p
  · rw [(Arrays.unlink_within p s).ok unlinked] at failed
    cases failed
  · have hx : l = (a ++ [u]) ++ x :: v :: k := by simp [hl]
    have named := (Arrays.search_within s p).ok searched
    rw [search_of_unlink unlinked'] at named
    obtain rfl := Except.ok.inj named
    refine ⟨x.addr, _, searched, c.cell_eq hx, ?_⟩
    simp [Item.cell, isFile]

end Chain

/-- A file with a sibling behind it is removed. -/
theorem removes_followed {s : State} {l : List Item} {p : CString} {t : Addr} {n : Node}
    (sound : Sound s l) (named : search s p = .ok (some t)) (cell : s.heap t = some n)
    (isFile : n.data.dflag ≠ 1) (followed : n.next ≠ none) :
    ∃ s', removefile p s = .ok s' ∧ RemovedOnly s s' t := by
  have c := sound.toChain
  obtain ⟨x, y, found, rfl⟩ := c.search_ok_iff.1 named
  obtain ⟨b, hl⟩ := find_suffix found
  obtain rfl := Option.some.inj (cell.symm.trans (c.cell_eq hl.symm))
  have x_file : x.folder = false := decide_eq_false isFile
  obtain ⟨root, k, hr, -, rootFolder⟩ := c.rooted
  obtain rfl | ⟨a, u, rfl⟩ := b.eq_nil_or_concat'
  · rw [hr] at hl
    rw [(List.cons.inj hl).1, rootFolder] at x_file
    cases x_file
  cases y with
  | nil => simp [Item.cell] at followed
  | cons v r =>
    have split : l = a ++ u :: x :: v :: r := by simp [← hl]
    obtain ⟨s', removed, -, -, -, c'⟩ := c.removefile_between split named x_file
    obtain ⟨l', sound', -⟩ := sound.removefile removed
    rw [← hl] at c
    rw [List.append_cons] at c'
    exact ⟨s', removed, c.removedOnly c' (by simp) x_file sound'.wellShaped⟩

/-- `removefile` removes the file that the path names, and nothing else, if and only if it has a
sibling behind it; when the path names no node, it does not return. -/
theorem removesOne_iff {s : State} (junk : Fin REP → ℤ) (ops : List Op)
    (returned : Arrays.runOps ops (initialTree junk) = .ok s) (p : CString) :
    RemovesOne s p ↔ ∃ t n, Arrays.search s p = .ok (some t) ∧ s.heap t = some n ∧
      (n.data.dflag = 1 ∨ n.next ≠ none) := by
  obtain ⟨l, sound, -⟩ := (ninitialize_sound junk).runOps (Arrays.runOps_returned returned)
  have c := sound.toChain
  constructor
  · intro removes
    by_cases some_ : ∃ t, Arrays.search s p = .ok (some t)
    · obtain ⟨t, named⟩ := some_
      obtain ⟨-, x, y, found, rfl⟩ := c.arrays_search_iff.1 named
      obtain ⟨b, hl⟩ := find_suffix found
      have cell := c.cell_eq hl.symm
      refine ⟨x.addr, _, named, cell, ?_⟩
      by_cases isFolder : x.data.dflag = 1
      · exact .inl isFolder
      · right
        obtain ⟨s', removed, -⟩ := removes.file _ _ named cell isFolder
        obtain ⟨t, n, named', cell', followed⟩ := c.followed_of_removefile removed
        obtain rfl : x.addr = t := Option.some.inj (Except.ok.inj (named.symm.trans named'))
        obtain rfl := Option.some.inj (cell.symm.trans cell')
        exact followed
    · have removed := removes.absent (not_exists.1 some_)
      obtain ⟨t, -, named, -⟩ := c.followed_of_removefile removed
      exact absurd ⟨t, named⟩ some_
  · rintro ⟨t, n, named, cell, condition⟩
    refine ⟨fun t' n' named' cell' isFile => ?_, fun absent => absurd named (absent t)⟩
    obtain rfl := Option.some.inj (Except.ok.inj (named.symm.trans named'))
    obtain rfl := Option.some.inj (cell.symm.trans cell')
    obtain ⟨found, fits⟩ := Arrays.search_some_iff.1 named
    rw [Arrays.removefile_fits fits found]
    exact removes_followed sound found cell isFile (condition.resolve_left isFile)

/-- The first of two files. -/
theorem removesOne_iff_first : RemovesOne (stateAfter [.addfile (.lit "file1") (.lit "d") home,
    .addfile (.lit "file2") (.lit "d") home]) (.lit "home/file1") := by
  refine (removesOne_iff _ _ (Arrays.runOps_stateAfter (by decide)) _).2 ?_
  have next : ((stateAfter [.addfile (.lit "file1") (.lit "d") home,
      .addfile (.lit "file2") (.lit "d") home]).heap 1).map Node.next = some (some 2) := by decide
  obtain ⟨n, cell, link⟩ := Option.map_eq_some_iff.1 next
  refine ⟨1, n, by decide, cell, .inr ?_⟩
  rw [link]
  simp

/-- The only file of the tree is not removed, nor is any last file. -/
theorem onlyFile_crashes :
    ¬ RemovesOne (stateAfter [.addfile (.lit "file1") (.lit "d") home]) (.lit "home/file1") := by
  intro removes
  have file : ((stateAfter [.addfile (.lit "file1") (.lit "d") home]).heap 1).map
      (fun n => n.data.dflag) = some 0 := by decide
  obtain ⟨n, cell, flag⟩ := Option.map_eq_some_iff.1 file
  obtain ⟨s', removed, -⟩ := removes.file 1 n (by decide) cell (by rw [flag]; decide)
  have crash : (Arrays.removefile (.lit "home/file1")
      (stateAfter [.addfile (.lit "file1") (.lit "d") home])).toBool = false := by decide
  rw [removed] at crash
  cases crash

end DistFs.NameSpace
