import DistFs.NameSpace.Insertion
import DistFs.Registry.Config

/-!
# Paths that name nothing

What `search` and `getdatanode` do with the path of no node.  A search that runs out of nodes in
front of the last slash ends well; but the last name is looked up from a pointer that is null when
the names before it lead to a node without children, and `searchloc` reads `fname` through it.
-/

namespace DistFs.NameSpace

open CText Links Registry

/-! ## Choosing a data node -/

/-- The last part of `getdatanode`, for a new file: the client itself if it is a data node, else one
that answers. -/
def newfile (answers : List Byte → Bool) (host : CString) (r : NodeList) :
    Except CText.Fault (Option (List Byte) × NodeList) :=
  match datanode_search r host.bytes with
  | some dn => .ok (some dn.node, r)
  | none => (fetch_datanode answers r).map fun (dn, r) => (dn.map Datanode.node, r)

/-- A loop of `getdatanode` over the slots of a node, and its `fh`.  The `if` ends in a semicolon, so
`test` guards nothing, and the block behind it, `fh=i; break;`, runs in the first round. -/
def scan (test : Fin REP → Bool) : Option (Fin REP) := Id.run do
  let mut fh := none
  for i in List.finRange REP do
    if test i then pure ()
    fh := some i
    break
  return fh

/-- The four loops of `getdatanode`, each behind the one that has left `fh` at -1. -/
def slot (d : Datadef) (host : CString) : Option (Fin REP) :=
  (scan fun i => d.dname i = host ∧ d.dsync i = 1).or <|
    (scan fun i => d.dsync i = 1).or <|
    (scan fun i => d.dsync i = 2 ∧ d.dname i = host).or <|
    scan fun i => d.dsync i = 2

/-- The name that `getdatanode` falls back to. -/
def fallback : CString := .lit "lisp.rutgers.edu"

/-- `getdatanode`. -/
def getdatanode (answers : List Byte → Bool) (path host : CString) (s : State) (r : NodeList) :
    Except (Fault ⊕ CText.Fault) (Option (List Byte) × NodeList) := do
  match ← (Arrays.search s path).mapError .inl with
  | some t =>
      let n ← (s.deref (some t)).mapError .inl
      match slot n.data host with
      | some fh => return (some (n.data.dname fh).bytes, r)
      | none => return (some fallback.bytes, r)
  | none => (newfile answers host r).mapError .inr

/-! ## Paths of nodes -/

/-- The full path of a node: `home`, or the path of the node above it, a slash and its name. -/
inductive PathOf (s : State) : CString → Addr → Prop
  | root {a : Addr} : s.head = some a → PathOf s home a
  | child {p : CString} {a b : Addr} {n : Node} : PathOf s p a → Child s a b → s.heap b = some n →
      PathOf s (child p n.data.fname) b

/-- The path is not that of a node. -/
def Absent (s : State) (p : CString) : Prop := ∀ a, ¬ PathOf s p a

/-- The search finds nothing and returns, and `getdatanode` treats the path as a new file. -/
def FailsSafely (s : State) (p : CString) : Prop :=
  Arrays.search s p = .ok none ∧
    ∀ answers host r, getdatanode answers p host s r = (newfile answers host r).mapError .inr

/-- No child of the root has this name. -/
def NotOnTop (s : State) (v : CString) : Prop :=
  ∀ r b n, s.head = some r → Child s r b → s.heap b = some n → n.data.fname ≠ v

/-- A single name is not that of a child of the root.  The names in front of a last slash lead
nowhere, or to a node with children while the last name is not `home`; and should the first of the
children be called `home`, no child of the root has the last name. -/
structure Guarded (s : State) (p : CString) : Prop where
  single : slash ∉ p.bytes → NotOnTop s p
  inside : ∀ f nf, descend s (steps p) s.head = .ok (some f) → s.heap f = some nf →
    lastName p ≠ home ∧ ∃ a na, nf.fold = some a ∧ s.heap a = some na ∧
      (na.data.fname = home → NotOnTop s (lastName p))

theorem failsSafely_iff {s : State} {p : CString} (fits : p.bytes.length < MAX_PATH) :
    FailsSafely s p ↔ search s p = .ok none := by
  have same := Arrays.search_short (s := s) fits
  refine ⟨fun safe => same ▸ safe.1, fun nothing => ?_⟩
  rw [← same] at nothing
  refine ⟨nothing, fun answers host r => ?_⟩
  rw [getdatanode, nothing]
  rfl

/-- There is one node that the names lead to. -/
theorem guarded_at {s : State} {p : CString} {f : Addr} {nf : Node} (slashed : slash ∈ p.bytes)
    (leads : descend s (steps p) s.head = .ok (some f)) (cell : s.heap f = some nf) :
    Guarded s p ↔ lastName p ≠ home ∧ ∃ a na, nf.fold = some a ∧ s.heap a = some na ∧
      (na.data.fname = home → NotOnTop s (lastName p)) := by
  constructor
  · intro guarded
    exact guarded.inside f nf leads cell
  · intro first
    refine ⟨fun flat => absurd slashed flat, fun f' nf' leads' cell' => ?_⟩
    obtain rfl := Option.some.inj (Except.ok.inj (leads.symm.trans leads'))
    obtain rfl := Option.some.inj (cell.symm.trans cell')
    exact first

section Walk

variable {α : Type*} {name : α → CString} {folder : α → Bool}

/-- A name is not found among siblings if and only if none of them has it. -/
theorem walk_eq_none_iff {v : CString} {t : List α} :
    walk name folder v t = none ↔ ∀ y ∈ siblings folder t, name y ≠ v := by
  induction t with
  | nil => simp [walk, siblings]
  | cons x t ih =>
    rw [walk, siblings]
    by_cases named : name x = v
    · rw [if_pos named]
      split_ifs <;> simp [named]
    · rw [if_neg named]
      split_ifs with isFolder
      · simp [named]
      · rw [ih, List.forall_mem_cons, and_iff_right named]

/-- The first name leads to a sibling, and the others on from its children. -/
theorem walk_of_descent {v : CString} {vs : List CString} {t : List α} {q : α × List α}
    (h : descent name folder (v :: vs) t = some q) : ∃ x y, walk name folder v t = some (x, y) ∧
      (vs = [] → q = (x, y)) ∧
      (vs ≠ [] → folder x = true ∧ descent name folder vs y = some q) := by
  by_cases more : vs = []
  · subst more
    exact ⟨q.1, q.2, h, fun _ => rfl, fun h => absurd rfl h⟩
  · rw [descent_cons more, Option.bind_eq_some_iff] at h
    obtain ⟨⟨x, y⟩, hx, h⟩ := h
    refine ⟨x, y, hx, fun h => absurd h more, fun _ => ?_⟩
    simp only [childrenOf] at h
    split_ifs at h with isFolder
    · exact ⟨isFolder, h⟩
    · simpa using (descent_suffix h).length_le

theorem steps_ne_nil {p : CString} (hp : slash ∈ p.bytes) : steps p ≠ [] := by
  rw [ne_eq, steps_eq_nil_iff, not_not]
  exact hp

/-- A search of a path with a slash: the last name is looked up among the children of the node that
the names before it lead to. -/
theorem find_of_slash {l : List α} {p : CString} (hp : slash ∈ p.bytes) :
    find name folder l p =
      match descent name folder (steps p) l with
      | none => .ok none
      | some (f, t) => lookupLast name folder l (lastName p) (childrenOf folder f t) := by
  have notHome : p ≠ home := by
    rintro rfl
    revert hp
    decide
  rw [find, if_neg notHome, lookup, enter_eq_descent (steps_ne_nil hp)]
  cases descent name folder (steps p) l <;> rfl

end Walk

namespace Chain

variable {s : State} {l a k t r : List Item} {root f g x : Item} {p w v : CString}

/-- A child of a folder, by its name. -/
theorem pathOf_walk (c : Chain s l) (hl : l = a ++ g :: t) (isFolder : g.folder = true)
    (path : PathOf s w g.addr) (found : walk Item.name Item.folder v t = some (x, r)) :
    PathOf s (child w v) x.addr := by
  obtain ⟨rfl, b, rfl, files⟩ := walk_split found
  have below : Child s g.addr x.addr :=
    (c.child_iff hl isFolder).2
      ⟨x, mem_siblings_iff.2 ⟨b, r, rfl, fun z hz => (files z hz).1⟩, rfl⟩
  have hx : l = (a ++ g :: b) ++ x :: r := by simp [hl]
  exact .child path below (c.cell_eq hx)

/-- The names in front of the last slash lead to the node of the path there, unless the whole path
is that of a node. -/
theorem pathOf_descent (c : Chain s l) (hl : l = a ++ g :: t) (isFolder : g.folder = true)
    (path : PathOf s w g.addr) (hp : slash ∈ p.bytes)
    (found : descent Item.name Item.folder (steps p) t = some (f, r)) :
    (∃ b, PathOf s (child w p) b) ∨
      ∃ q, child w p = child q (lastName p) ∧ PathOf s q f.addr := by
  induction hn : p.bytes.length using Nat.strong_induction_on generalizing p a g t w with
  | _ n ih =>
    obtain ⟨v, rest, rfl, plain⟩ := eq_child hp
    have shorter := removepath_length hp
    rw [steps_of_mem hp] at found
    rw [lastName_of_mem hp]
    rw [parserpath_child plain] at found
    rw [removepath_child plain] at found shorter ⊢
    obtain ⟨x, y, hx, last, further⟩ := walk_of_descent found
    have here := c.pathOf_walk hl isFolder path hx
    by_cases one : v.bytes.length = 1
    · rw [if_pos one] at here
      exact .inl ⟨_, here⟩
    rw [if_neg one] at hx here
    by_cases more : slash ∈ rest.bytes
    · obtain ⟨x_folder, below⟩ := further (steps_ne_nil more)
      obtain ⟨-, b, rfl, -⟩ := walk_split hx
      have hl' : l = (a ++ g :: b) ++ x :: y := by simp [hl]
      rw [← child_assoc]
      exact ih _ (hn ▸ shorter) hl' x_folder here more below rfl
    · cases last (steps_of_not_mem more)
      rw [lastName_of_not_mem more]
      exact .inr ⟨child w v, (child_assoc w v rest).symm, here⟩

/-- From the root on. -/
theorem pathOf_search (c : Chain s l) (hp : slash ∈ p.bytes)
    (found : descent Item.name Item.folder (steps p) l = some (f, r)) :
    (∃ b, PathOf s p b) ∨ ∃ q, p = child q (lastName p) ∧ PathOf s q f.addr := by
  obtain ⟨root, k, rfl, rootName, rootFolder⟩ := c.rooted
  have top : PathOf s home root.addr := .root (by rw [c.head]; rfl)
  rw [steps_of_mem hp] at found
  obtain ⟨named, further⟩ := descent_root rootFolder found
  obtain ⟨v, rest, rfl, plain⟩ := eq_child hp
  obtain ⟨rfl, -⟩ := parserpath_child_plain plain (named.trans rootName) (by decide)
  rw [named, removepath_child plain] at found
  rw [removepath_child plain] at further
  rw [lastName_of_mem hp, removepath_child plain]
  by_cases more : slash ∈ rest.bytes
  · exact c.pathOf_descent (a := []) rfl rootFolder top more (further (steps_ne_nil more))
  · rw [steps_of_not_mem more] at found
    obtain ⟨rfl, rfl⟩ : root = f ∧ k = r := by simpa [descent, walk] using found
    rw [lastName_of_not_mem more]
    exact .inr ⟨home, rfl, top⟩

/-- Among the children of the node that the names lead to there is none of the last name. -/
theorem absent_below (c : Chain s l) (absent : Absent s p) (hp : slash ∈ p.bytes)
    (hl : l = a ++ f :: t) (isFolder : f.folder = true)
    (found : descent Item.name Item.folder (steps p) l = some (f, t)) :
    walk Item.name Item.folder (lastName p) t = none := by
  obtain ⟨b, path⟩ | ⟨q, path, here⟩ := c.pathOf_search hp found
  · exact absurd path (absent b)
  by_contra some_
  obtain ⟨⟨x, y⟩, hx⟩ := Option.ne_none_iff_exists'.1 some_
  have := c.pathOf_walk hl isFolder here hx
  rw [← path] at this
  exact absent _ this

/-- The children of the root have other names than `v` if and only if `v` is not found there. -/
theorem root_children_iff (c : Chain s l) (hl : l = root :: k) (isFolder : root.folder = true) :
    walk Item.name Item.folder v k = none ↔ NotOnTop s v := by
  have head : s.head = some root.addr := by rw [c.head, hl]; rfl
  rw [walk_eq_none_iff]
  constructor
  · intro other r b n hr below cell
    obtain rfl := Option.some.inj (head.symm.trans hr)
    obtain ⟨y, hy, rfl⟩ := (c.child_iff (a := []) hl isFolder).1 below
    obtain ⟨m, r, rfl, -⟩ := mem_siblings_iff.1 hy
    have at_y : l = (root :: m) ++ y :: r := by simp [hl]
    obtain rfl := Option.some.inj (cell.symm.trans (c.cell_eq at_y))
    exact other y hy
  · intro other y hy
    obtain ⟨m, r, rfl, -⟩ := mem_siblings_iff.1 hy
    have at_y : l = (root :: m) ++ y :: r := by simp [hl]
    exact other root.addr y.addr _ head ((c.child_iff (a := []) hl isFolder).2 ⟨y, hy, rfl⟩)
      (c.cell_eq at_y)

theorem search_none_iff (c : Chain s l) :
    search s p = .ok none ↔ find Item.name Item.folder l p = .ok none := by
  rw [c.search_eq, map_eq_ok]
  constructor
  · rintro ⟨q, h, hq⟩
    rw [h, Option.map_eq_none_iff.1 hq]
  · intro h
    exact ⟨none, h, rfl⟩

/-- A single name is looked up among the children of the root. -/
theorem single_iff (c : Chain s l) (absent : Absent s p) (hp : slash ∉ p.bytes) :
    find Item.name Item.folder l p = .ok none ↔ NotOnTop s p := by
  obtain ⟨root, k, rfl, rootName, rootFolder⟩ := c.rooted
  have notHome : p ≠ home := by
    rintro rfl
    exact absent root.addr (.root (by rw [c.head]; rfl))
  rw [find, if_neg notHome, lookup_of_not_mem hp, lookupLast, if_neg notHome,
    ← c.root_children_iff rfl rootFolder]
  simp only [rootName, if_true, topLevel, childrenOf, rootFolder, Except.ok.injEq]

/-- A folder with children guards its paths unless the path ends in `home` or the first child is
called so. -/
theorem guarded_first {y : Item} (c : Chain s l) (hr : l = root :: k) (rootFolder : root.folder = true)
    (hp : slash ∈ p.bytes) (hl : l = a ++ f :: y :: t) (isFolder : f.folder = true)
    (leads : descend s (steps p) s.head = .ok (some f.addr)) :
    Guarded s p ↔ lastName p ≠ home ∧
      (y.name = home → walk Item.name Item.folder (lastName p) k = none) := by
  have first : (f.cell (last Item.addr a none) (start (y :: t))).fold = some y.addr := by
    simp [Item.cell, isFolder]
  have at_y : l = (a ++ [f]) ++ y :: t := by simp [hl]
  rw [guarded_at hp leads (c.cell_eq hl), c.root_children_iff hr rootFolder]
  apply and_congr_right
  intro _
  constructor
  · rintro ⟨b, nb, below, cell, rule⟩
    obtain rfl := Option.some.inj (first.symm.trans below)
    obtain rfl := Option.some.inj ((c.cell_eq at_y).symm.trans cell)
    exact rule
  · intro rule
    exact ⟨y.addr, _, first, c.cell_eq at_y, rule⟩

theorem guarded_iff (c : Chain s l) (absent : Absent s p) :
    find Item.name Item.folder l p = .ok none ↔ Guarded s p := by
  obtain ⟨root, k, hr, rootName, rootFolder⟩ := c.rooted
  have leads := c.descend_eq (a := []) rfl (steps p)
  rw [← c.head] at leads
  by_cases hp : slash ∈ p.bytes
  · rw [find_of_slash hp]
    cases found : descent Item.name Item.folder (steps p) l with
    | none =>
      rw [found] at leads
      refine ⟨fun _ => ⟨fun flat => absurd hp flat, fun f nf reached => ?_⟩, fun _ => rfl⟩
      rw [leads] at reached
      cases reached
    | some q =>
      obtain ⟨f, t⟩ := q
      rw [found] at leads
      obtain ⟨a, split⟩ := descent_suffix found
      have childless : (f.cell (last Item.addr a none) (start t)).fold = none → ¬ Guarded s p := by
        intro none_ guarded
        obtain ⟨-, b, nb, first, -⟩ := (guarded_at hp leads (c.cell_eq split.symm)).1 guarded
        rw [none_] at first
        cases first
      -- without children the search ends at the root or at a null pointer
      have never : lookupLast Item.name Item.folder l (lastName p) [] ≠ .ok none := by
        rw [lookupLast, hr]
        split_ifs <;> simp [NameSpace.root]
      by_cases isFolder : f.folder = true
      · have nothing := c.absent_below absent hp split.symm isFolder found
        have top : topLevel Item.folder l = k := by
          rw [hr]
          simp [topLevel, childrenOf, rootFolder]
        simp only [childrenOf, isFolder, if_true]
        cases t with
        | nil => exact iff_of_false never (childless (by simp [Item.cell]))
        | cons y t =>
          rw [c.guarded_first hr rootFolder hp split.symm isFolder leads, lookupLast, top]
          by_cases closing : lastName p = home
          · simp [closing, hr, NameSpace.root]
          · rw [if_neg closing, and_iff_right closing]
            simp only [Except.ok.injEq]
            constructor
            · intro h restart
              rwa [if_pos restart] at h
            · intro rule
              split_ifs with restart
              · exact rule restart
              · exact nothing
      · -- a file has no children, whatever the last name is
        have empty : childrenOf Item.folder f t = [] := by simp [childrenOf, isFolder]
        simp only [empty]
        exact iff_of_false never (childless (by simp [Item.cell, isFolder]))
  · rw [c.single_iff absent hp]
    refine ⟨fun single => ⟨fun _ => single, fun f nf reached => ?_⟩, fun guarded => guarded.single hp⟩
    rw [leads, steps_of_not_mem hp] at reached
    cases reached

end Chain

/-- The path of no node is handled safely if and only if it is `Guarded`: the search neither takes it
for a short form of another path nor reads the last name through a null pointer. -/
theorem search_absent_iff {s : State} {p : CString} (junk : Fin REP → ℤ) (ops : List Op)
    (returned : Arrays.runOps ops (initialTree junk) = .ok s) (fits : p.bytes.length < MAX_PATH)
    (absent : Absent s p) : FailsSafely s p ↔ Guarded s p := by
  obtain ⟨l, sound, -⟩ := (ninitialize_sound junk).runOps (Arrays.runOps_returned returned)
  rw [failsSafely_iff fits, sound.search_none_iff]
  exact sound.guarded_iff absent

/-- The tree that has just been initialised. -/
abbrev onlyRoot : State := initialTree fun _ => 0

theorem onlyRoot_pathOf {p : CString} {a : Addr} (h : PathOf onlyRoot p a) : p = home := by
  have childless (a b : Addr) : ¬ Child onlyRoot a b := by
    intro below
    induction below with
    | @fold b n cell fold =>
      by_cases here : a = 0
      · subst here
        cases cell
        cases fold
      · have nowhere : onlyRoot.heap a = none := Function.update_of_ne here _ _
        rw [nowhere] at cell
        cases cell
    | next _ _ _ ih => exact ih
  cases h with
  | root => rfl
  | child _ below => exact absurd below (childless _ _)

theorem onlyRoot_absent {p : CString} (proper : p ≠ home) : Absent onlyRoot p :=
  fun _ h => proper (onlyRoot_pathOf h)

theorem search_absent_iff_nowhere : FailsSafely onlyRoot (.lit "nowhere/x") := by
  refine (search_absent_iff (fun _ => 0) [] rfl (by decide) (onlyRoot_absent (by decide))).2
    ⟨fun flat => absurd flat (by decide), fun f nf reached => ?_⟩
  have lost : descend onlyRoot (steps (.lit "nowhere/x")) onlyRoot.head = .ok none := by decide +kernel
  cases lost.symm.trans reached

/-- In the initialised tree the search for `home/x` reads through a null pointer. -/
theorem freshTree_crashes : Absent onlyRoot (.lit "home/x") ∧
    Arrays.search onlyRoot (.lit "home/x") = .error .null ∧
      ¬ FailsSafely onlyRoot (.lit "home/x") := by
  have crash : Arrays.search onlyRoot (.lit "home/x") = .error .null := by decide
  refine ⟨onlyRoot_absent (by decide), crash, fun safe => ?_⟩
  rw [safe.1] at crash
  cases crash

end DistFs.NameSpace
