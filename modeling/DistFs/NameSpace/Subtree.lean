import DistFs.NameSpace.Tree

/-!
# Removing a folder

`removefold` in a tree of any shape.  It unlinks the folder and then removes each child by the `loc`
of that child, which is the path of the unlinked folder and not of the child.  Nothing below the
folder can be found any more, unless a folder stands in front of it among its siblings; then the
unlinking writes the wrong link and the folder stays where it is.
-/

namespace DistFs.NameSpace

open CText

mutual

/-- The addresses of a tree. -/
def Tree.addrs : Tree → List Addr
  | .node a _ cs => a :: addrsAll cs

/-- The addresses of some trees. -/
def addrsAll : List Tree → List Addr
  | [] => []
  | t :: ts => t.addrs ++ addrsAll ts

end

mutual

/-- The tree without what stands below and at the address `x`. -/
def Tree.without (x : Addr) : Tree → Tree
  | .node a v cs => .node a v (withoutAll x cs)

/-- The trees of which none stands at the address `x`, each without it. -/
def withoutAll (x : Addr) : List Tree → List Tree
  | [] => []
  | t :: ts => if t.addr = x then withoutAll x ts else t.without x :: withoutAll x ts

end

/-- A finite tree with consistent links, in which every node has the path of its folder as `loc`. -/
structure WellFormed (s : State) (t : Tree) : Prop where
  stored : Forest s [t] s.head
  allocated : ∀ a, s.brk ≤ a → s.heap a = none
  once : t.addrs.Nodup
  back : ∀ a ∈ t.addrs, ∀ n, s.heap a = some n → ∀ b, n.fold = some b ∨ n.next = some b →
    ∃ m, s.heap b = some m ∧ m.prev = some a
  top : ∀ n, s.heap t.addr = some n → n.prev = none ∧ n.next = none ∧ n.data.dflag = 1
  folders : ∀ a ∈ t.addrs, ∀ n, s.heap a = some n → n.fold ≠ none → n.data.dflag = 1
  root : t.name = home
  located : ∀ vs f, t.At vs f → ∀ c ∈ f.children, ∀ n, s.heap c.addr = some n →
    n.data.loc = joined home vs

/-- The path resolves to the folder `x` below the root. -/
structure FolderAt (s : State) (t : Tree) (p : CString) (x : Tree) : Prop where
  inside : ∃ vs, t.At vs x
  named : search s p = .ok (some x.addr)
  folder : ∃ n, s.heap x.addr = some n ∧ n.data.dflag = 1
  below : s.head ≠ some x.addr

/-- The subtree `x` of `t` is freed and out of reach, and what is left is `t` without it, with the
data it had. -/
structure RemovedSubtree (s s' : State) (t x : Tree) : Prop where
  freed : ∀ a ∈ x.addrs, s'.heap a = none
  unreachable : ∀ a ∈ x.addrs, ¬ Reached s' a
  rest : Forest s' [t.without x.addr] s'.head
  data : ∀ a ∈ (t.without x.addr).addrs, ∃ n n', s.heap a = some n ∧ s'.heap a = some n' ∧
    n'.data = n.data

/-- `removefold` returns and has removed the subtree `x`. -/
def RemovesSubtree (s : State) (t x : Tree) (p : CString) : Prop :=
  ∃ fuel s', removefold fuel p s = .ok s' ∧ RemovedSubtree s s' t x

variable {s s' : State} {t x : Tree} {ts : List Tree} {p : CString} {a b f : Addr}

/-! ## What a removal changes -/

/-- The links of the cells after `unlink`: one link of the node in front of the found one now leads
to the node behind it. -/
structure Unlinked (s s' : State) (t g e : Addr) (n m : Node) : Prop where
  found : s.heap t = some n
  prev : n.prev = some g
  front : s.heap g = some m
  next : n.next = some e
  head : s'.head = s.head
  same : ∀ a, s'.heap a = none ↔ s.heap a = none
  cell : ∀ a k', s'.heap a = some k' → ∃ k, s.heap a = some k ∧ k'.data = k.data ∧
    k'.fold = (if a = g ∧ m.data.dflag = 1 then some e else k.fold) ∧
    k'.next = if a = g ∧ m.data.dflag ≠ 1 then some e else k.next

theorem unlink_ok (h : unlink p s = .ok (b, s')) :
    search s p = .ok (some b) ∧ ∃ g e n m, Unlinked s s' b g e n m := by
  obtain ⟨tnode, named, h⟩ := bind_eq_ok.1 h
  obtain ⟨n, found, h⟩ := bind_eq_ok.1 h
  obtain ⟨m, front, h⟩ := bind_eq_ok.1 h
  obtain ⟨t, rfl, stored⟩ := deref_eq_ok found
  obtain ⟨g, prev, front⟩ := deref_eq_ok front
  simp only [prev] at h
  obtain ⟨k, behind, h⟩ := bind_eq_ok.1 h
  obtain ⟨e, next, -⟩ := deref_eq_ok behind
  simp only [next] at h
  cases h
  refine ⟨named, g, e, n, m, stored, prev, front, next, ?_, fun a => ?_, fun a k' cell => ?_⟩
  · split_ifs <;> rfl
  · split_ifs <;> simp [heap_write]
  · by_cases folder : m.data.dflag = 1
    all_goals
      simp only [folder, if_true, if_false, heap_write, Option.map_map, Option.map_eq_some_iff,
        Function.comp] at cell
      obtain ⟨k, stored, rfl⟩ := cell
      refine ⟨k, stored, ?_⟩
      clear * - folder
      rcases eq_or_ne a g with rfl | front
      · by_cases after : a = e <;> simp [after, folder]
      · rcases eq_or_ne a e with rfl | after <;> simp [*]

theorem removefile_ok (h : removefile p s = .ok s') :
    ∃ t s₁, unlink p s = .ok (t, s₁) ∧ s' = s₁.free t := by
  obtain ⟨⟨t, s₁⟩, unlinked, h⟩ := bind_eq_ok.1 h
  cases h
  exact ⟨t, s₁, unlinked, rfl⟩

/-- What `unlink` and `removefile` keep, `removefold` keeps. -/
theorem removefold_keeps {I : State → Prop}
    (unlinks : ∀ s p t s', I s → unlink p s = .ok (t, s') → I s')
    (removes : ∀ s p s', I s → removefile p s = .ok s' → I s') (fuel : ℕ) :
    (∀ s p s', I s → removefold fuel p s = .ok s' → I s') ∧
      ∀ s r s', I s → removechildren fuel r s = .ok s' → I s' := by
  induction fuel with
  | zero =>
    refine ⟨fun s p s' _ h => ?_, fun s r s' _ h => ?_⟩
    · rw [removefold] at h
      cases h
    · rw [removechildren] at h
      cases h
  | succ fuel ih =>
    obtain ⟨folds, children⟩ := ih
    constructor
    · intro s p s' i h
      rw [removefold] at h
      obtain ⟨⟨t, s₁⟩, unlinked, h⟩ := bind_eq_ok.1 h
      obtain ⟨n, -, h⟩ := bind_eq_ok.1 h
      exact children _ _ _ (unlinks _ _ _ _ i unlinked) h
    · intro s r s' i h
      rw [removechildren] at h
      obtain ⟨n, -, h⟩ := bind_eq_ok.1 h
      by_cases more : n.next ≠ none
      · rw [if_pos more] at h
        by_cases folder : n.data.dflag = 1
        · rw [if_pos folder] at h
          obtain ⟨s₁, first, h⟩ := bind_eq_ok.1 h
          exact children _ _ _ (folds _ _ _ i first) h
        · rw [if_neg folder] at h
          obtain ⟨s₁, first, h⟩ := bind_eq_ok.1 h
          exact children _ _ _ (removes _ _ _ i first) h
      · rw [if_neg more] at h
        by_cases folder : n.data.dflag = 1
        · rw [if_pos folder] at h
          exact folds _ _ _ i h
        · rw [if_neg folder] at h
          exact removes _ _ _ i h

/-! ## What stays out of reach, and what stays in the way -/

/-- Unlinking a node brings nothing into reach. -/
theorem Reached.of_unlink (h : unlink p s = .ok (b, s')) (reached : Reached s' a) : Reached s a := by
  obtain ⟨named, g, e, n, m, u⟩ := unlink_ok h
  have behind : Reached s e := .next (search_reached named) u.found u.next
  induction reached with
  | head head => exact .head (u.head ▸ head)
  | fold _ cell fold ih =>
    obtain ⟨k, stored, -, fold', -⟩ := u.cell _ _ cell
    rw [fold'] at fold
    split_ifs at fold
    · exact Option.some.inj fold ▸ behind
    · exact .fold ih stored fold
  | next _ cell next ih =>
    obtain ⟨k, stored, -, -, next'⟩ := u.cell _ _ cell
    rw [next'] at next
    split_ifs at next
    · exact Option.some.inj next ▸ behind
    · exact .next ih stored next

theorem Reached.of_free (reached : Reached (s.free b) a) : Reached s a := by
  have stored {a : Addr} {n : Node} (cell : (s.free b).heap a = some n) : s.heap a = some n := by
    rw [heap_free] at cell
    split_ifs at cell
    exact cell
  induction reached with
  | head head => exact .head head
  | fold _ cell fold ih => exact .fold ih (stored cell) fold
  | next _ cell next ih => exact .next ih (stored cell) next

/-- The cell at `f` is stored but out of reach. -/
def Lost (f : Addr) (s : State) : Prop := ¬ Reached s f ∧ s.heap f ≠ none

theorem Lost.unlink (lost : Lost f s) (h : unlink p s = .ok (b, s')) : Lost f s' := by
  obtain ⟨-, g, e, n, m, u⟩ := unlink_ok h
  exact ⟨fun reached => lost.1 (reached.of_unlink h), fun gone => lost.2 ((u.same f).1 gone)⟩

/-- Only what the search has found is freed. -/
theorem Lost.removefile (lost : Lost f s) (h : removefile p s = .ok s') : Lost f s' := by
  obtain ⟨t, s₁, unlinked, rfl⟩ := removefile_ok h
  have lost₁ := lost.unlink unlinked
  refine ⟨fun reached => lost₁.1 reached.of_free, ?_⟩
  have other : f ≠ t := by
    rintro rfl
    exact lost.1 (search_reached (unlink_ok unlinked).1)
  rw [heap_free, if_neg other]
  exact lost₁.2

/-- The cell at `g`, unless it is freed, is a folder with a sibling at `f`. -/
def Blocked (g f : Addr) (s : State) : Prop :=
  ∀ n, s.heap g = some n → n.data.dflag = 1 ∧ n.next = some f

/-- The `next` link of a folder is never written. -/
theorem Blocked.unlink {g : Addr} (blocked : Blocked g f s) (h : unlink p s = .ok (b, s')) :
    Blocked g f s' := by
  obtain ⟨-, g', e, n, m, u⟩ := unlink_ok h
  intro k' cell
  obtain ⟨k, stored, data, -, next⟩ := u.cell g k' cell
  obtain ⟨folder, sibling⟩ := blocked k stored
  refine ⟨data ▸ folder, ?_⟩
  rw [next, if_neg, sibling]
  rintro ⟨rfl, isFile⟩
  obtain rfl := Option.some.inj (u.front.symm.trans stored)
  exact isFile folder

theorem Blocked.removefile {g : Addr} (blocked : Blocked g f s) (h : removefile p s = .ok s') :
    Blocked g f s' := by
  obtain ⟨t, s₁, unlinked, rfl⟩ := removefile_ok h
  intro n cell
  rw [heap_free] at cell
  split_ifs at cell
  exact blocked.unlink unlinked n cell

/-! ## The place of a node in the tree -/

theorem Tree.addr_mem (t : Tree) : t.addr ∈ t.addrs := by
  cases t with
  | node a v cs =>
    rw [Tree.addrs]
    exact List.mem_cons_self

theorem addrsAll_singleton (t : Tree) : addrsAll [t] = t.addrs := by
  rw [addrsAll, addrsAll, List.append_nil]

theorem mem_addrsAll_cons {v : CString} {cs : List Tree} :
    b ∈ addrsAll (.node a v cs :: ts) ↔ b = a ∨ b ∈ addrsAll cs ∨ b ∈ addrsAll ts := by
  rw [addrsAll, Tree.addrs, List.cons_append, List.mem_cons, List.mem_append]

theorem Forest.start_mem {r : Option Addr} (h : Forest s ts r) (start : r = some b) :
    b ∈ addrsAll ts := by
  cases h with
  | nil => cases start
  | cons =>
    cases start
    exact mem_addrsAll_cons.2 (.inl rfl)

/-- The links of a node stay among the siblings and what stands below them. -/
theorem Forest.closed {r : Option Addr} (h : Forest s ts r) (ha : a ∈ addrsAll ts) :
    ∃ n, s.heap a = some n ∧ ∀ b, n.fold = some b ∨ n.next = some b → b ∈ addrsAll ts := by
  induction h with
  | nil => simp [addrsAll] at ha
  | @cons c n cs ts cell below rest ihBelow ihRest =>
    rcases mem_addrsAll_cons.1 ha with rfl | ha | ha
    · refine ⟨n, cell, fun b link => mem_addrsAll_cons.2 (.inr ?_)⟩
      exact link.imp below.start_mem rest.start_mem
    · obtain ⟨m, stored, links⟩ := ihBelow ha
      exact ⟨m, stored, fun b link => mem_addrsAll_cons.2 (.inr (.inl (links b link)))⟩
    · obtain ⟨m, stored, links⟩ := ihRest ha
      exact ⟨m, stored, fun b link => mem_addrsAll_cons.2 (.inr (.inr (links b link)))⟩

theorem Forest.mem_of_reached (h : Forest s [t] s.head) (reached : Reached s a) : a ∈ t.addrs := by
  rw [← addrsAll_singleton]
  induction reached with
  | head head => exact h.start_mem head
  | fold _ cell fold ih =>
    obtain ⟨n, stored, links⟩ := h.closed ih
    obtain rfl := Option.some.inj (cell.symm.trans stored)
    exact links _ (.inl fold)
  | next _ cell next ih =>
    obtain ⟨n, stored, links⟩ := h.closed ih
    obtain rfl := Option.some.inj (cell.symm.trans stored)
    exact links _ (.inr next)

/-- No node is its own sibling. -/
theorem Forest.next_ne {r : Option Addr} (h : Forest s ts r) (once : (addrsAll ts).Nodup) {n : Node}
    (ha : a ∈ addrsAll ts) (cell : s.heap a = some n) : n.next ≠ some a := by
  induction h with
  | nil => simp [addrsAll] at ha
  | @cons c m cs ts stored below rest ihBelow ihRest =>
    rw [addrsAll, Tree.addrs, List.cons_append, List.nodup_cons, List.nodup_append] at once
    obtain ⟨new, onceBelow, onceRest, -⟩ := once
    rcases mem_addrsAll_cons.1 ha with rfl | ha | ha
    · obtain rfl := Option.some.inj (cell.symm.trans stored)
      exact fun again => new (List.mem_append_right _ (rest.start_mem again))
    · exact ihBelow onceBelow ha
    · exact ihRest onceRest ha

/-- The node in front of a sibling is not below it. -/
theorem Forest.mem_without {r : Option Addr} (h : Forest s ts r) (once : (addrsAll ts).Nodup)
    {n : Node} (ha : a ∈ addrsAll ts) (cell : s.heap a = some n) (next : n.next = some f) :
    a ∈ addrsAll (withoutAll f ts) := by
  have proper := h.next_ne once ha cell
  induction h with
  | nil => simp [addrsAll] at ha
  | @cons c m cs ts stored below rest ihBelow ihRest =>
    rw [addrsAll, Tree.addrs, List.cons_append, List.nodup_cons, List.nodup_append] at once
    obtain ⟨new, onceBelow, onceRest, -⟩ := once
    rw [withoutAll, Tree.addr]
    by_cases here : c = f
    · rw [if_pos here]
      rcases mem_addrsAll_cons.1 ha with rfl | ha | ha
      · exact absurd (here ▸ next) proper
      · obtain ⟨k, stored', links⟩ := below.closed ha
        obtain rfl := Option.some.inj (cell.symm.trans stored')
        have again : f ∈ addrsAll cs := links f (.inr next)
        exact absurd (List.mem_append_left _ (here ▸ again)) new
      · exact ihRest onceRest ha
    · rw [if_neg here, Tree.without, mem_addrsAll_cons]
      rcases mem_addrsAll_cons.1 ha with rfl | ha | ha
      · exact .inl rfl
      · exact .inr (.inl (ihBelow onceBelow ha))
      · exact .inr (.inr (ihRest onceRest ha))

/-! ## The removal of a folder -/

/-- The node in front of a node below the root. -/
theorem WellFormed.front (wf : WellFormed s t) (reached : Reached s f) (below : s.head ≠ some f)
    {n : Node} {g : Addr} (cell : s.heap f = some n) (prev : n.prev = some g) : Reached s g := by
  have front {a b : Addr} {m : Node} (ha : Reached s a) (stored : s.heap a = some m)
      (link : m.fold = some b ∨ m.next = some b) (same : b = f) : Reached s g := by
    obtain ⟨k, found, back⟩ := wf.back a (wf.stored.mem_of_reached ha) m stored b link
    subst same
    obtain rfl := Option.some.inj (cell.symm.trans found)
    exact Option.some.inj (prev.symm.trans back) ▸ ha
  cases reached with
  | head head => exact absurd head below
  | fold ha stored fold => exact front ha stored (.inl fold) rfl
  | next ha stored next => exact front ha stored (.inr next) rfl

/-- It stays when the folder is taken out of the tree. -/
theorem WellFormed.front_left (wf : WellFormed s t) (below : s.head ≠ some f)
    (reached : Reached s f) {g e : Addr} {n m : Node} (u : Unlinked s s' f g e n m)
    (second : m.next = some f) : g ∈ addrsAll [t.without f] := by
  have head : t.addr ≠ f := by
    have stored := wf.stored
    generalize s.head = r at stored below
    cases stored
    exact fun same => below (congrArg some same)
  have once : (addrsAll [t]).Nodup := by
    rw [addrsAll_singleton]
    exact wf.once
  have member : g ∈ addrsAll [t] := by
    rw [addrsAll_singleton]
    exact wf.stored.mem_of_reached (wf.front reached below u.found u.prev)
  have left := wf.stored.mem_without once member u.front second
  rwa [withoutAll, if_neg head, withoutAll] at left

/-- Unless the folder follows another one among its siblings, unlinking it puts it out of reach. -/
theorem WellFormed.lost (wf : WellFormed s t) (below : s.head ≠ some f)
    (h : unlink p s = .ok (f, s')) {g e : Addr} {n m : Node} (u : Unlinked s s' f g e n m)
    (first : m.data.dflag = 1 → m.next ≠ some f) : Lost f s' := by
  have here : Reached s f := search_reached (unlink_ok h).1
  have proper : n.next ≠ some f := wf.stored.next_ne (by rw [addrsAll_singleton]; exact wf.once)
    (by rw [addrsAll_singleton]; exact wf.stored.mem_of_reached here) u.found
  have onward : e ≠ f := fun same => proper (same ▸ u.next)
  -- a node other than `g` has no link to the folder
  have only {a : Addr} {k : Node} (ha : Reached s a) (stored : s.heap a = some k)
      (link : k.fold = some f ∨ k.next = some f) : a = g := by
    obtain ⟨k', found, back⟩ := wf.back a (wf.stored.mem_of_reached ha) k stored f link
    obtain rfl := Option.some.inj (u.found.symm.trans found)
    exact Option.some.inj (back.symm.trans u.prev)
  refine ⟨fun reached => ?_, fun gone => ?_⟩
  · cases reached with
    | head head => exact below (u.head ▸ head)
    | @fold a _ k' ha cell fold =>
      obtain ⟨k, stored, -, fold', -⟩ := u.cell a k' cell
      rw [fold] at fold'
      split_ifs at fold' with written
      · exact onward (Option.some.inj fold').symm
      · have isFront := only (ha.of_unlink h) stored (.inl fold'.symm)
        subst isFront
        obtain rfl := Option.some.inj (u.front.symm.trans stored)
        refine written ⟨rfl, wf.folders a (wf.stored.mem_of_reached (ha.of_unlink h)) m stored ?_⟩
        rw [← fold']
        simp
    | @next a _ k' ha cell next =>
      obtain ⟨k, stored, -, -, next'⟩ := u.cell a k' cell
      rw [next] at next'
      split_ifs at next' with written
      · exact onward (Option.some.inj next').symm
      · have isFront := only (ha.of_unlink h) stored (.inr next'.symm)
        subst isFront
        obtain rfl := Option.some.inj (u.front.symm.trans stored)
        by_cases folder : m.data.dflag = 1
        · exact first folder next'.symm
        · exact written ⟨rfl, folder⟩
  · rw [u.same, u.found] at gone
    cases gone

/-- In no well-formed tree does `removefold` remove a folder below the root with all that stands
below it. -/
theorem removesSubtree_never (wf : WellFormed s t) (at_ : FolderAt s t p x) :
    ¬ RemovesSubtree s t x p := by
  rintro ⟨fuel, s', returned, removed⟩
  have named := at_.named
  have gone : s'.heap x.addr = none := removed.freed _ x.addr_mem
  cases fuel with
  | zero =>
    rw [removefold] at returned
    cases returned
  | succ fuel =>
    rw [removefold] at returned
    obtain ⟨⟨f, s₁⟩, unlinked, inside⟩ := bind_eq_ok.1 returned
    obtain ⟨named', g, e, n, m, u⟩ := unlink_ok unlinked
    obtain rfl : x.addr = f := Option.some.inj (Except.ok.inj (named.symm.trans named'))
    obtain ⟨n', -, children⟩ := bind_eq_ok.1 inside
    by_cases second : m.data.dflag = 1 ∧ m.next = some x.addr
    · -- the folder in front keeps its link to the freed cell
      have blocked : Blocked g x.addr s₁ := by
        refine Blocked.unlink (fun k stored => ?_) unlinked
        obtain rfl := Option.some.inj (u.front.symm.trans stored)
        exact second
      have blocked' : Blocked g x.addr s' :=
        (removefold_keeps (fun _ _ _ _ b => b.unlink) (fun _ _ _ b => b.removefile) fuel).2
          _ _ _ blocked children
      have left := wf.front_left at_.below (search_reached named) u second.2
      obtain ⟨k, stored, links⟩ := removed.rest.closed left
      obtain ⟨-, next⟩ := blocked' k stored
      obtain ⟨k', again, -⟩ := removed.rest.closed (links _ (.inr next))
      rw [gone] at again
      cases again
    · have lost : Lost x.addr s₁ :=
        wf.lost at_.below unlinked u fun isFolder next => second ⟨isFolder, next⟩
      have lost' : Lost x.addr s' :=
        (removefold_keeps (fun _ _ _ _ l => l.unlink) (fun _ _ _ l => l.removefile) fuel).2
          _ _ _ lost children
      exact lost'.2 gone

/-! ## A folder with one file -/

/-- The cells of that tree. -/
theorem oneInside_cells {n : Node} (ha : a ∈ (oneInsideTree (.lit "fold1")).addrs)
    (cell : (oneInside (.lit "fold1")).heap a = some n) :
    (n.fold = if a = 2 then none else some (a + 1)) ∧ n.next = none ∧
      (n.prev = if a = 0 then none else some (a - 1)) ∧ (n.data.dflag = if a = 2 then 0 else 1) ∧
      n.data.loc = if a = 0 then root_ else if a = 1 then home else .lit "home/fold1" := by
  have cells : ∀ a ∈ (oneInsideTree (.lit "fold1")).addrs,
      ((oneInside (.lit "fold1")).heap a).map
        (fun n => (n.fold, n.next, n.prev, n.data.dflag, n.data.loc)) =
      some (if a = 2 then none else some (a + 1), none, if a = 0 then none else some (a - 1),
        if a = 2 then 0 else 1,
        if a = 0 then root_ else if a = 1 then home else .lit "home/fold1") := by
    decide
  have same := cells a ha
  rw [cell] at same
  simpa only [Option.map_some, Option.some.injEq, Prod.mk.injEq] using same

theorem oneInside_wellFormed :
    WellFormed (oneInside (.lit "fold1")) (oneInsideTree (.lit "fold1")) := by
  have rooted : Rooted (oneInside (.lit "fold1")) (oneInsideTree (.lit "fold1")) :=
    oneInside_rooted (by decide) (by decide) (by decide) (by decide) (by decide) (by decide)
  have stored (a : Addr) (ha : a ∈ (oneInsideTree (.lit "fold1")).addrs) :
      ∃ n, (oneInside (.lit "fold1")).heap a = some n := by
    rw [← addrsAll_singleton] at ha
    obtain ⟨n, cell, -⟩ := rooted.stored.closed ha
    exact ⟨n, cell⟩
  refine ⟨rooted.stored, rooted.allocated, by decide, fun a ha n cell b link => ?_,
    fun n cell => ?_, fun a ha n cell fold => ?_, rfl, fun vs f at_ c hc n cell => ?_⟩
  · obtain ⟨fold, next, -⟩ := oneInside_cells ha cell
    rw [fold, next] at link
    split_ifs at link with last
    · simp at link
    · obtain rfl : a + 1 = b := by simpa using link
      have inside : ∀ a ∈ (oneInsideTree (.lit "fold1")).addrs, a ≠ 2 →
          a + 1 ∈ (oneInsideTree (.lit "fold1")).addrs := by decide
      have hb := inside a ha last
      obtain ⟨m, found⟩ := stored _ hb
      refine ⟨m, found, ?_⟩
      simpa using (oneInside_cells hb found).2.2.1
  · obtain ⟨-, next, prev, flag, -⟩ := oneInside_cells (Tree.addr_mem _) cell
    exact ⟨prev, next, flag⟩
  · obtain ⟨links, -, -, flag, -⟩ := oneInside_cells ha cell
    rw [links] at fold
    rw [flag, if_neg]
    rintro rfl
    exact fold rfl
  · -- the root has the folder as child, the folder the file, and the file nothing
    cases at_ with
    | here =>
      obtain rfl := List.mem_singleton.1 hc
      exact (oneInside_cells (by decide) cell).2.2.2.2
    | inside hd below =>
      obtain rfl := List.mem_singleton.1 hd
      cases below with
      | here =>
        obtain rfl := List.mem_singleton.1 hc
        exact (oneInside_cells (by decide) cell).2.2.2.2.trans (by decide)
      | inside he lower =>
        obtain rfl := List.mem_singleton.1 he
        cases lower with
        | here => cases hc
        | inside hf _ => cases hf

theorem oneInside_folderAt : FolderAt (oneInside (.lit "fold1")) (oneInsideTree (.lit "fold1"))
    (.lit "home/fold1") (.node 1 (.lit "fold1") [.node 2 (.lit "b") []]) where
  inside := ⟨_, .inside List.mem_cons_self .here⟩
  named := by decide
  folder := by
    obtain ⟨n, cell, -⟩ := oneInside_wellFormed.stored.closed (a := 1) (by decide)
    exact ⟨n, cell, (oneInside_cells (by decide) cell).2.2.2.1⟩
  below := by decide

theorem removesSubtree_never_fold1 : ¬ RemovesSubtree (oneInside (.lit "fold1"))
    (oneInsideTree (.lit "fold1")) (.node 1 (.lit "fold1") [.node 2 (.lit "b") []])
    (.lit "home/fold1") :=
  removesSubtree_never oneInside_wellFormed oneInside_folderAt

/-- A folder whose only neighbour is its parent: the removal reads through a null pointer. -/
theorem onlyFolder_crashes : WellFormed (oneInside (.lit "fold1")) (oneInsideTree (.lit "fold1")) ∧
    FolderAt (oneInside (.lit "fold1")) (oneInsideTree (.lit "fold1")) (.lit "home/fold1")
      (.node 1 (.lit "fold1") [.node 2 (.lit "b") []]) ∧
    (∀ fuel, removefold (fuel + 1) (.lit "home/fold1") (oneInside (.lit "fold1")) = .error .null) ∧
    ¬ RemovesSubtree (oneInside (.lit "fold1")) (oneInsideTree (.lit "fold1"))
      (.node 1 (.lit "fold1") [.node 2 (.lit "b") []]) (.lit "home/fold1") := by
  have crash (fuel : ℕ) :
      removefold (fuel + 1) (.lit "home/fold1") (oneInside (.lit "fold1")) = .error .null := by
    have unlinked : unlink (.lit "home/fold1") (oneInside (.lit "fold1")) = .error .null := rfl
    rw [removefold, unlinked]
    rfl
  refine ⟨oneInside_wellFormed, oneInside_folderAt, crash, ?_⟩
  rintro ⟨fuel, s', returned, -⟩
  cases fuel with
  | zero =>
    rw [removefold] at returned
    cases returned
  | succ fuel =>
    rw [crash] at returned
    cases returned

end DistFs.NameSpace
