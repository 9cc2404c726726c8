import DistFs.NameSpace.Update

/-!
# The structural invariant of the name-space tree

`Sound s l` strengthens `Chain s l` by what the node numbers satisfy.  Every call that returns
preserves it, and it implies the shape of the tree as one sees it by following the links.
-/

namespace DistFs.NameSpace

open CText Links

variable {s s' : State} {l : List Item}

/-- The tree of `s` is the chain of the items of `l`, and these are numbered properly. -/
structure Sound (s : State) (l : List Item) : Prop extends Chain s l where
  numbered : (l.map fun x => x.data.nno).Nodup
  bounded : ∀ x ∈ l, x.data.nno ≤ s.nodeno
  counted : (l.length : ℤ) ≤ s.nodeno
  small : s.nodeno ≤ INT_MAX

/-! ## Preservation -/

/-- The item that `ninitialize` creates. -/
def rootItem (junk : Fin REP → ℤ) : Item :=
  ⟨0, { nno := 1, pno := 0, fname := home, dname := fun i => if i = 0 then root_ else none_,
        loc := root_, dflag := 1, dsync := fun i => toInt (junk i) }⟩

theorem ninitialize_sound (junk : Fin REP → ℤ) :
    Sound (initialTree junk) [rootItem junk] where
  stored := by
    simp [initialTree, ninitialize, State.malloc, State.fresh, rootItem, Item.cell_none]
  head := rfl
  nodup := by simp
  fresh a ha := by
    have above : 0 < a := ha
    exact Function.update_of_ne above.ne' _ _
  rooted := ⟨_, _, rfl, rfl, rfl⟩
  numbered := by simp
  bounded x hx := by
    obtain rfl := List.mem_singleton.1 hx
    exact le_refl 1
  counted := by simp [initialTree, ninitialize]
  small := show 1 ≤ INT_MAX by decide

namespace Sound

/-- An insertion behind `u` preserves the invariant. -/
protected theorem hang (i : Sound s l) {b r : List Item} {u : Item} (hl : l = b ++ u :: r)
    (room : s.nodeno < INT_MAX) (d : Datadef) :
    Sound (hang s d u) (b ++ [u, newItem s d u]) where
  toChain := i.toChain.hang hl d
  numbered := by
    have sub : (b ++ [u]).Sublist l := by simp [hl]
    have new : s.nodeno + 1 ∉ (b ++ [u]).map fun x => x.data.nno := by
      intro h
      obtain ⟨y, hy, hn⟩ := List.mem_map.1 h
      have := i.bounded y (sub.subset hy)
      omega
    have := List.Nodup.append ((sub.map _).nodup i.numbered) (List.nodup_singleton _)
      (List.disjoint_singleton.2 new)
    simpa [newItem] using this
  bounded y hy := by
    have sub : (b ++ [u]).Sublist l := by simp [hl]
    have : y ∈ b ++ [u] ∨ y = newItem s d u := by simpa [or_assoc] using hy
    rcases this with hy | rfl
    · exact (i.bounded y (sub.subset hy)).trans (Int.le_add_one le_rfl)
    · exact le_rfl
  counted := by
    have counted := i.counted
    simp only [hl, List.length_append, List.length_cons, List.length_nil, NameSpace.hang] at counted ⊢
    omega
  small := room

theorem addnode (i : Sound s l) {p : CString} {d : Datadef} {n : Addr}
    (h : addnode p d s = .ok (n, s')) : ∃ l', Sound s' l' ∧ l'.head? = l.head? := by
  obtain ⟨x, t, b, u, r, -, -, hl, room, -, rfl, -⟩ := i.addnode_cases h
  refine ⟨_, i.hang hl room d, ?_⟩
  rw [hl]
  cases b <;> rfl

theorem removefile (i : Sound s l) {p : CString} (h : removefile p s = .ok s') :
    ∃ l', Sound s' l' ∧ l'.head? = l.head? := by
  obtain h' | ⟨s'', a, u, x, v, r, h', rfl, -, -, nodeno, -, c'⟩ := i.removefile_cases p
  · simp [h'] at h
  obtain rfl := Except.ok.inj (h.symm.trans h')
  have sub : (a ++ u :: v :: r).Sublist (a ++ u :: x :: v :: r) := by simp
  refine ⟨_, { c' with numbered := ?_, bounded := ?_, counted := ?_, small := ?_ }, ?_⟩
  · exact (sub.map _).nodup i.numbered
  · rw [nodeno]
    exact fun y hy => i.bounded y (sub.subset hy)
  · have := i.counted
    have := sub.length_le
    omega
  · exact nodeno.trans_le i.small
  · cases a <;> rfl

/-- Every call that returns preserves the invariant and the root. -/
theorem run (i : Sound s l) {op : Op} (h : op.run s = .ok s') :
    ∃ l', Sound s' l' ∧ l'.head? = l.head? := by
  cases op with
  | addfile f d p =>
    obtain ⟨⟨n, s'⟩, added, rfl⟩ := map_eq_ok.1 h
    exact i.addnode added
  | addfolder f d p =>
    obtain ⟨⟨n, s'⟩, added, rfl⟩ := map_eq_ok.1 h
    exact i.addnode added
  | removefile p => exact i.removefile h
  | removefold p =>
    rw [Op.run, i.removefold_null] at h
    cases h

theorem runOps (i : Sound s l) {ops : List Op} (h : runOps ops s = .ok s') :
    ∃ l', Sound s' l' ∧ l'.head? = l.head? := by
  induction ops generalizing s l with
  | nil =>
    obtain rfl := Except.ok.inj h
    exact ⟨l, i, rfl⟩
  | cons op ops ih =>
    obtain ⟨s₁, h₁, h⟩ := bind_eq_ok.1 h
    obtain ⟨l₁, i₁, first₁⟩ := i.run h₁
    obtain ⟨l', i', first'⟩ := ih i₁ h
    exact ⟨l', i', first'.trans first₁⟩

end Sound

/-! ## The shape of the tree -/

/-- The addresses that `fold` and `next` lead to from `head`. -/
inductive Reached (s : State) : Addr → Prop
  | head {a : Addr} : s.head = some a → Reached s a
  | fold {a b : Addr} {n : Node} : Reached s a → s.heap a = some n → n.fold = some b → Reached s b
  | next {a b : Addr} {n : Node} : Reached s a → s.heap a = some n → n.next = some b → Reached s b

theorem searchsiblings_reached {v : CString} {fuel : ℕ} {r : Option Addr} {b : Addr}
    (start : ∀ a, r = some a → Reached s a) (h : searchsiblings s v fuel r = .ok (some b)) :
    Reached s b := by
  induction fuel generalizing r with
  | zero => cases h
  | succ fuel ih =>
    cases r with
    | none => cases h
    | some a =>
      have here : Reached s a := start a rfl
      obtain ⟨n, cell, h⟩ := bind_eq_ok.1 h
      obtain ⟨a', same, stored⟩ := deref_eq_ok cell
      obtain rfl := Option.some.inj same
      by_cases named : n.data.fname = v
      · rw [if_pos named] at h
        cases h
        exact here
      · rw [if_neg named] at h
        exact ih (fun b next => .next here stored next) h

theorem searchloc_reached {p : CString} {fuel : ℕ} {r : Option Addr} {b : Addr}
    (start : ∀ a, r = some a → Reached s a)
    (h : searchloc s fuel r p = .ok (some b)) : Reached s b := by
  induction fuel generalizing r p with
  | zero => cases h
  | succ fuel ih =>
    rw [searchloc] at h
    split_ifs at h with further atRoot
    · obtain ⟨found, siblings, h⟩ := bind_eq_ok.1 h
      cases found with
      | none => cases h
      | some a =>
        have here : Reached s a := searchsiblings_reached start siblings
        obtain ⟨n, cell, h⟩ := bind_eq_ok.1 h
        obtain ⟨a', same, stored⟩ := deref_eq_ok cell
        obtain rfl := Option.some.inj same
        exact ih (fun b fold => .fold here stored fold) h
    · exact .head (Except.ok.inj h)
    · obtain ⟨n, -, h⟩ := bind_eq_ok.1 h
      by_cases top : n.data.fname = home
      · rw [if_pos top] at h
        obtain ⟨m, cell, h⟩ := bind_eq_ok.1 h
        obtain ⟨a, head, stored⟩ := deref_eq_ok cell
        exact searchsiblings_reached (fun b fold => .fold (.head head) stored fold) h
      · rw [if_neg top] at h
        exact searchsiblings_reached start h

/-- The search finds nodes of the tree only. -/
theorem search_reached {p : CString} {b : Addr} (h : search s p = .ok (some b)) : Reached s b := by
  unfold search at h
  split_ifs at h
  · exact .head (Except.ok.inj h)
  · exact searchloc_reached (fun a head => .head head) h

/-- `Visits s p l`: following `fold` and then `next` from `p` comes to an end and meets the
addresses of `l` in this order. -/
inductive Visits (s : State) : Option Addr → List Addr → Prop
  | nil : Visits s none []
  | node {a : Addr} {n : Node} {l m : List Addr} : s.heap a = some n → Visits s n.fold l →
      Visits s n.next m → Visits s (some a) (a :: (l ++ m))

/-- `b` is a neighbour through which `a` is reached. -/
def LinksTo (s : State) (b a : Addr) : Prop :=
  ∃ m, s.heap b = some m ∧ (m.fold = some a ∨ m.next = some a)

/-- The shape of a well-formed tree. -/
structure WellShaped (s : State) : Prop where
  finite : ∃ order, Visits s s.head order ∧ order.Nodup ∧ ∀ a, a ∈ order ↔ Reached s a
  live : ∀ a, Reached s a → ∃ n, s.heap a = some n
  prev : ∀ a n, Reached s a → s.heap a = some n → s.head ≠ some a →
    ∃ b m, Reached s b ∧ s.heap b = some m ∧ n.prev = some b ∧
      (∀ b', Reached s b' → (LinksTo s b' a ↔ b' = b)) ∧ (m.fold = some a ↔ m.data.dflag = 1)
  folders : ∀ a n, Reached s a → s.heap a = some n → n.data.dflag = 1 → n.next = none
  files : ∀ a n, Reached s a → s.heap a = some n → n.data.dflag = 0 → n.fold = none
  distinct : ∀ a b n m, Reached s a → Reached s b → s.heap a = some n → s.heap b = some m →
    n.data.nno = m.data.nno → a = b
  numbers : ∀ a n, Reached s a → s.heap a = some n → n.data.nno ≤ s.nodeno

namespace Chain

theorem visits (c : Chain s l) {a t : List Item} (hl : l = a ++ t) :
    Visits s (start t) (t.map Item.addr) := by
  induction t generalizing a with
  | nil => exact .nil
  | cons x t ih =>
    have rest := ih (a := a ++ [x]) (by simp [hl])
    change Visits s (some x.addr) (x.addr :: t.map Item.addr)
    by_cases isFolder : x.folder = true
    · have := Visits.node (l := t.map Item.addr) (m := []) (c.cell_eq hl)
        (by simpa [Item.cell, isFolder] using rest) (by simpa [Item.cell, isFolder] using .nil)
      simpa using this
    · exact Visits.node (l := []) (m := t.map Item.addr) (c.cell_eq hl)
        (by simpa [Item.cell, isFolder] using .nil) (by simpa [Item.cell, isFolder] using rest)

/-- What a link of the node at `x` leads to is the next item of the chain. -/
theorem link_eq (c : Chain s l) {a t : List Item} {x : Item} (hl : l = a ++ x :: t) {b : Addr} :
    LinksTo s x.addr b ↔ start t = some b := by
  simp only [LinksTo, c.cell_eq hl, Option.some.injEq, exists_eq_left', Item.cell]
  split_ifs <;> simp

theorem mem_of_reached (c : Chain s l) {a : Addr} (h : Reached s a) : ∃ x ∈ l, x.addr = a := by
  have step {a b : Addr} (ha : ∃ x ∈ l, x.addr = a) (hb : LinksTo s a b) : ∃ x ∈ l, x.addr = b := by
    obtain ⟨x, hx, rfl⟩ := ha
    obtain ⟨u, t, hl⟩ := List.append_of_mem hx
    rw [c.link_eq hl] at hb
    cases t with
    | nil => simp at hb
    | cons y t => exact ⟨y, by simp [hl], Option.some.inj hb⟩
  induction h with
  | head h =>
    obtain ⟨r, t, hl, -⟩ := c.rooted
    rw [c.head, hl] at h
    exact ⟨r, by simp [hl], Option.some.inj h⟩
  | fold _ hn hb ih => exact step ih ⟨_, hn, .inl hb⟩
  | next _ hn hb ih => exact step ih ⟨_, hn, .inr hb⟩

theorem reached_of_mem (c : Chain s l) {x : Item} (hx : x ∈ l) : Reached s x.addr := by
  obtain ⟨a, t, hl⟩ := List.append_of_mem hx
  clear hx
  induction a using List.reverseRecOn generalizing x t with
  | nil => exact .head (by rw [c.head, hl]; rfl)
  | append_singleton a y ih =>
    have hy : l = a ++ y :: x :: t := by simp [hl]
    obtain ⟨n, hn, h | h⟩ := (c.link_eq hy (b := x.addr)).2 rfl
    · exact .fold (ih _ hy) hn h
    · exact .next (ih _ hy) hn h

theorem reached_iff (c : Chain s l) {a : Addr} : Reached s a ↔ ∃ x ∈ l, x.addr = a := by
  refine ⟨c.mem_of_reached, ?_⟩
  rintro ⟨x, hx, rfl⟩
  exact c.reached_of_mem hx

theorem node_of_reached (c : Chain s l) {a : Addr} {n : Node} (ha : Reached s a)
    (hn : s.heap a = some n) :
    ∃ u x t, l = u ++ x :: t ∧ a = x.addr ∧ n = x.cell (last Item.addr u none) (start t) := by
  obtain ⟨x, hx, rfl⟩ := c.mem_of_reached ha
  obtain ⟨u, t, hl⟩ := List.append_of_mem hx
  exact ⟨u, x, t, hl, rfl, Option.some.inj (hn.symm.trans (c.cell_eq hl))⟩

/-- Only the item before `x` has a link to it. -/
theorem linksTo_iff (c : Chain s l) {u t : List Item} {x y : Item} (hl : l = u ++ y :: x :: t)
    {b : Addr} (hb : Reached s b) : LinksTo s b x.addr ↔ b = y.addr := by
  constructor
  · intro h
    obtain ⟨z, hz, rfl⟩ := c.mem_of_reached hb
    obtain ⟨v, r, hl'⟩ := List.append_of_mem hz
    rw [c.link_eq hl'] at h
    cases r with
    | nil => simp at h
    | cons w r =>
      obtain rfl := c.item_eq (by simp [hl']) (by simp [hl]) (Option.some.inj h)
      have hw : l = (v ++ [z]) ++ w :: r := by simp [hl']
      have hw' : l = (u ++ [y]) ++ w :: t := by simp [hl]
      rw [(List.append_singleton_inj.1 (c.split_unique hw hw').1).2]
  · rintro rfl
    exact (c.link_eq hl).2 rfl

end Chain

/-- The invariant says that the tree is well shaped. -/
theorem Sound.wellShaped (i : Sound s l) : WellShaped s where
  finite := by
    refine ⟨l.map Item.addr, ?_, i.nodup, fun a => ?_⟩
    · rw [i.head]
      exact i.visits (a := []) rfl
    · rw [i.reached_iff, List.mem_map]
  live a ha := by
    obtain ⟨x, hx, rfl⟩ := i.mem_of_reached ha
    obtain ⟨u, t, hl⟩ := List.append_of_mem hx
    exact ⟨_, i.cell_eq hl⟩
  prev a n ha hn notHead := by
    obtain ⟨u, x, t, hl, rfl, rfl⟩ := i.node_of_reached ha hn
    obtain rfl | ⟨u, y, rfl⟩ := u.eq_nil_or_concat'
    · exact absurd (by rw [i.head, hl]; rfl) notHead
    have hy : l = u ++ y :: x :: t := by simp [hl]
    refine ⟨y.addr, _, i.reached_of_mem (by simp [hy]), i.cell_eq hy, by simp [Item.cell],
      fun b hb => i.linksTo_iff hy hb, ?_⟩
    by_cases isFolder : y.data.dflag = 1 <;> simp [Item.cell, Item.folder, isFolder]
  folders a n ha hn isFolder := by
    obtain ⟨u, x, t, hl, rfl, rfl⟩ := i.node_of_reached ha hn
    have : x.folder = true := decide_eq_true isFolder
    simp [Item.cell, this]
  files a n ha hn isFile := by
    obtain ⟨u, x, t, hl, rfl, rfl⟩ := i.node_of_reached ha hn
    have file : x.data.dflag = 0 := isFile
    have : x.folder = false := by simp [Item.folder, file]
    simp [Item.cell, this]
  distinct a b n m ha hb hn hm same := by
    obtain ⟨u, x, t, hl, rfl, rfl⟩ := i.node_of_reached ha hn
    obtain ⟨v, y, r, hl', rfl, rfl⟩ := i.node_of_reached hb hm
    rw [List.inj_on_of_nodup_map i.numbered (by simp [hl]) (by simp [hl']) same]
  numbers a n ha hn := by
    obtain ⟨u, x, t, hl, rfl, rfl⟩ := i.node_of_reached ha hn
    exact i.bounded x (by simp [hl])

/-- Whatever calls have returned, the tree is well shaped. -/
theorem runOps_wellShaped (junk : Fin REP → ℤ) (ops : List Op)
    (returned : runOps ops (initialTree junk) = .ok s) : WellShaped s :=
  let ⟨_, i, _⟩ := (ninitialize_sound junk).runOps returned
  i.wellShaped

/-- A folder, a file in it, two more files behind that one, and the removal of the second. -/
theorem removal_wellShaped : WellShaped (stateAfter
    [.addfolder (.lit "fold1") (.lit "d") home,
      .addfile (.lit "file1") (.lit "d") (.lit "home/fold1"),
      .addfile (.lit "file2") (.lit "d") (.lit "home/fold1"),
      .addfile (.lit "file3") (.lit "d") (.lit "home/fold1"),
      .removefile (.lit "home/fold1/file2")]) :=
  runOps_wellShaped _ _ (runOps_stateAfter (by decide))

end DistFs.NameSpace
