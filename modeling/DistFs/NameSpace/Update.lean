import DistFs.NameSpace.Chain

/-!
# Insertion and removal on a chain

`addnode` cuts the chain behind the node it links to and puts the new node there.  A removal that
returns has removed a file from between its two neighbours; `removefold` never returns.
-/

namespace DistFs.NameSpace

open CText Links

variable {s s' : State} {l : List Item}

namespace Chain

/-! ## The point of attachment -/

theorem lastsibling_eq (c : Chain s l) {a t : List Item} {x : Item} (hl : l = a ++ x :: t) {fuel : ℕ}
    (enough : t.length < fuel) :
    lastsibling s fuel (some x.addr) = .ok (some (lastSibling Item.folder x t).1.addr) := by
  induction t generalizing a x fuel with
  | nil =>
    obtain ⟨n, rfl⟩ := Nat.exists_eq_succ_of_ne_zero (by omega : fuel ≠ 0)
    simp [lastsibling, c.deref_eq hl, Item.cell, lastSibling, bind, Except.bind, pure, Except.pure]
  | cons y t ih =>
    obtain ⟨n, rfl⟩ := Nat.exists_eq_succ_of_ne_zero (by omega : fuel ≠ 0)
    rw [List.length_cons] at enough
    simp only [lastsibling, c.deref_eq hl, bind, Except.bind, Item.cell, first_cons, lastSibling]
    by_cases isFolder : x.folder = true
    · simp [isFolder, pure, Except.pure]
    · simp only [isFolder, Bool.false_eq_true, if_false, ne_eq, reduceCtorEq, not_false_iff, if_true]
      exact ih (a := a ++ [x]) (by simp [hl]) (by omega)

theorem searchlast_eq (c : Chain s l) {p : CString} {x : Item} {t : List Item}
    (hfind : find Item.name Item.folder l p = .ok (some (x, t))) :
    searchlast s p = .ok (some (attachPoint Item.folder x t).1.addr) := by
  obtain ⟨a, hl⟩ := find_suffix hfind
  have hs : search s p = .ok (some x.addr) := by
    rw [c.search_eq, hfind]
    rfl
  simp only [searchlast, hs, c.deref_eq hl.symm, bind, Except.bind, Item.cell, attachPoint, childrenOf]
  by_cases isFolder : x.folder = true
  · cases t with
    | nil => simp [isFolder, pure, Except.pure]
    | cons y t =>
      have hy : l = (a ++ [x]) ++ y :: t := by simp [← hl]
      have hs : y :: t <:+ l := hy ▸ List.suffix_append _ _
      have := c.enough hs
      simp only [isFolder, if_true, first_cons, reduceCtorEq, if_false]
      exact c.lastsibling_eq hy (Nat.lt_of_succ_lt this)
  · simp [isFolder, pure, Except.pure]

theorem searchlast_error (c : Chain s l) {p : CString}
    (lost : ∀ q, find Item.name Item.folder l p ≠ .ok (some q)) :
    ∃ e, searchlast s p = .error e := by
  simp only [searchlast, c.search_eq, bind, Except.bind]
  cases h : find Item.name Item.folder l p with
  | error e => exact ⟨e, rfl⟩
  | ok r =>
    cases r with
    | none => exact ⟨.null, rfl⟩
    | some q => exact absurd h (lost q)

/-! ## Insertion -/

/-- An unused cell does not belong to the tree. -/
theorem create_node (c : Chain s l) (d : Datadef) : Chain (create_node d s) l where
  stored := by
    refine c.stored.frame fun x hx => ?_
    exact Function.update_of_ne (c.addr_lt hx).ne _ _
  head := c.head
  nodup := c.nodup
  fresh a ha := by
    have above : s.brk < a := ha
    exact (Function.update_of_ne above.ne' _ _).trans (c.fresh a above.le)
  rooted := c.rooted

end Chain

/-- The item that `addnode` makes of the record `d` behind the node `u`. -/
def newItem (s : State) (d : Datadef) (u : Item) : Item :=
  ⟨s.brk, { d with pno := u.data.nno, nno := s.nodeno + 1 }⟩

/-- The state after the writes of `addnode` behind `u`. -/
def hang (s : State) (d : Datadef) (u : Item) : State :=
  { s with
    heap := Function.update
      (Function.update s.heap u.addr ((s.heap u.addr).map fun n =>
        if n.data.dflag = 1 then { n with fold := some s.brk } else { n with next := some s.brk }))
      s.brk (some ⟨(newItem s d u).data, none, some u.addr, none⟩)
    brk := s.brk + 1
    nodeno := s.nodeno + 1 }

namespace Chain

/-- `addnode` on a path that is found links the new node behind the point of attachment. -/
theorem addnode_eq (c : Chain s l) {p : CString} {x u : Item} {t r : List Item}
    (hfind : find Item.name Item.folder l p = .ok (some (x, t)))
    (hattach : attachPoint Item.folder x t = (u, r)) (room : s.nodeno < INT_MAX) (d : Datadef) :
    addnode p d s = .ok (s.brk, hang s d u) := by
  obtain ⟨a, hl⟩ := (attachPoint_suffix _ x t).trans (find_suffix hfind)
  rw [hattach] at hl
  have old : u.addr ≠ s.brk := (c.addr_lt (x := u) (by simp [← hl])).ne
  have hu := (c.create_node d).deref_eq hl.symm
  have cell := c.cell_eq hl.symm
  have hlast := (c.create_node d).searchlast_eq hfind
  rw [hattach] at hlast
  have small : ¬ INT_MAX ≤ s.nodeno := not_le.2 room
  simp only [addnode, hlast, hu, bind, Except.bind, Item.cell]
  by_cases isFolder : u.data.dflag = 1
  all_goals
    simp only [isFolder, if_true, if_false, State.write, State.deref, NameSpace.create_node,
      State.malloc, Function.update_self, Function.update_of_ne old, Function.update_of_ne old.symm,
      Option.map_some, cell, small, Item.cell, pure, Except.pure, hang, Function.update_idem,
      Function.update_comm old, newItem]

/-- `addnode` on a path that is not found does not return. -/
theorem addnode_error (c : Chain s l) {p : CString}
    (lost : ∀ q, find Item.name Item.folder l p ≠ .ok (some q)) (d : Datadef) :
    ∃ e, addnode p d s = .error e := by
  obtain ⟨e, he⟩ := (c.create_node d).searchlast_error lost
  exact ⟨e, by simp [addnode, he, bind, Except.bind]⟩

theorem addnode_overflow (c : Chain s l) {p : CString} {x : Item} {t : List Item}
    (hfind : find Item.name Item.folder l p = .ok (some (x, t))) (full : INT_MAX ≤ s.nodeno)
    (d : Datadef) : addnode p d s = .error .overflow := by
  obtain ⟨a, hl⟩ := (attachPoint_suffix Item.folder x t).trans (find_suffix hfind)
  simp only [addnode, (c.create_node d).searchlast_eq hfind, (c.create_node d).deref_eq hl.symm, bind,
    Except.bind]
  split_ifs with isFolder enough enough
  · rfl
  · exact absurd full enough
  · rfl
  · exact absurd full enough

/-- The chain after an insertion behind `u`. -/
protected theorem hang (c : Chain s l) {a r : List Item} {u : Item} (hl : l = a ++ u :: r) (d : Datadef) :
    Chain (hang s d u) (a ++ [u, newItem s d u]) where
  stored := by
    have stored := c.stored
    have nodup := c.nodup
    have old {y : Item} (hy : y ∈ l) : y.addr ≠ s.brk := (c.addr_lt hy).ne
    have hu := old (y := u) (by simp [hl])
    rw [hl] at stored nodup
    refine stored.attach (fun y hy => ?_) ?_ ?_
    · have apart : y.addr ≠ u.addr := by
        simp only [List.map_append, List.map_cons, List.nodup_append, List.mem_map, List.mem_cons] at nodup
        exact nodup.2.2 _ ⟨y, hy, rfl⟩ _ (.inl rfl)
      simp [NameSpace.hang, apart, old (y := y) (by simp [hl, hy])]
    · simp only [NameSpace.hang, Function.update_of_ne hu, Function.update_self, c.cell_eq hl,
        Option.map_some, Item.cell, Item.folder]
      split_ifs <;> simp_all [newItem]
    · rw [Item.cell_none]
      simp [NameSpace.hang, newItem]
  head := by
    rw [NameSpace.hang, c.head, hl]
    cases a <;> rfl
  nodup := by
    have nodup := c.nodup
    have old : ∀ y ∈ l, y.addr ≠ s.brk := fun y hy => (c.addr_lt hy).ne
    rw [hl] at nodup old
    have sub : (a ++ [u]).Sublist (a ++ u :: r) := by simp
    have fresh : s.brk ∉ (a ++ [u]).map Item.addr := by
      simp only [List.mem_map, not_exists, not_and]
      exact fun y hy => old y (sub.subset hy)
    have := List.Nodup.append ((sub.map Item.addr).nodup nodup) (List.nodup_singleton s.brk)
      (List.disjoint_singleton.2 fresh)
    simpa [newItem] using this
  fresh b hb := by
    have above : s.brk < b := hb
    have hu := c.addr_lt (x := u) (by simp [hl])
    simp only [NameSpace.hang, Function.update_of_ne above.ne', Function.update_of_ne (hu.trans above).ne']
    exact c.fresh b above.le
  rooted := by
    obtain ⟨r', t', hr, name, folder⟩ := c.rooted
    rw [hl] at hr
    cases a with
    | nil =>
      obtain rfl := (List.cons.inj hr).1
      exact ⟨u, _, rfl, name, folder⟩
    | cons y a =>
      obtain rfl := (List.cons.inj hr).1
      exact ⟨y, _, rfl, name, folder⟩

/-- What an `addnode` that returned has done. -/
theorem addnode_cases (c : Chain s l) {p : CString} {d : Datadef} {n : Addr}
    (h : addnode p d s = .ok (n, s')) :
    ∃ x t b u r, find Item.name Item.folder l p = .ok (some (x, t)) ∧
      attachPoint Item.folder x t = (u, r) ∧ l = b ++ u :: r ∧ s.nodeno < INT_MAX ∧ n = s.brk ∧
      s' = NameSpace.hang s d u ∧ Chain s' (b ++ [u, newItem s d u]) := by
  by_cases lost : ∀ q, find Item.name Item.folder l p ≠ .ok (some q)
  · obtain ⟨e, he⟩ := c.addnode_error lost d
    simp [he] at h
  simp only [not_forall, not_not] at lost
  obtain ⟨⟨x, t⟩, hfind⟩ := lost
  by_cases room : s.nodeno < INT_MAX
  · rw [c.addnode_eq hfind rfl room] at h
    obtain ⟨rfl, rfl⟩ := Prod.mk.inj (Except.ok.inj h)
    obtain ⟨b, hl⟩ := (attachPoint_suffix _ x t).trans (find_suffix hfind)
    exact ⟨x, t, b, _, _, hfind, rfl, hl.symm, room, rfl, rfl, c.hang hl.symm d⟩
  · simp [c.addnode_overflow hfind (not_lt.1 room)] at h

/-! ## Removal -/

/-- The chain without the item `x` between `u` and `v`, in any state that differs only in the links
of these three. -/
theorem remove (c : Chain s l) {a r : List Item} {u x v : Item} (hl : l = a ++ u :: x :: v :: r)
    (same : ∀ b, b ≠ u.addr → b ≠ x.addr → b ≠ v.addr → s'.heap b = s.heap b)
    (left : s'.heap u.addr = some (u.cell (last Item.addr a none) (some v.addr)))
    (right : s'.heap v.addr = some (v.cell (some u.addr) (start r)))
    (brk : s'.brk = s.brk) (head : s'.head = s.head) : Chain s' (a ++ u :: v :: r) where
  stored := by
    have stored := c.stored
    have nodup := c.nodup
    rw [hl] at stored nodup
    simp only [List.map_append, List.map_cons, List.nodup_append, List.mem_map, List.mem_cons,
      List.nodup_cons] at nodup
    obtain ⟨-, ⟨u_out, x_out, v_out, -⟩, apart⟩ := nodup
    refine stored.unlink (fun y hy => ?_) (fun y hy => ?_) left right
    · refine same _ (apart _ ⟨y, hy, rfl⟩ _ ?_) (apart _ ⟨y, hy, rfl⟩ _ ?_) (apart _ ⟨y, hy, rfl⟩ _ ?_)
      all_goals simp
    · refine same _ (fun h => u_out ?_) (fun h => x_out ?_) fun h => v_out ?_
      all_goals simp only [← h]
      · exact .inr (.inr ⟨y, hy, rfl⟩)
      · exact .inr ⟨y, hy, rfl⟩
      · exact ⟨y, hy, rfl⟩
  head := by
    rw [head, c.head, hl]
    cases a <;> rfl
  nodup := by
    have nodup := c.nodup
    rw [hl] at nodup
    have sub : (a ++ u :: v :: r).Sublist (a ++ u :: x :: v :: r) := by simp
    exact (sub.map Item.addr).nodup nodup
  fresh b hb := by
    rw [brk] at hb
    have old {y : Item} (hy : y ∈ l) : b ≠ y.addr := ((c.addr_lt hy).trans_le hb).ne'
    rw [same b (old (by simp [hl])) (old (by simp [hl])) (old (by simp [hl]))]
    exact c.fresh b hb
  rooted := by
    obtain ⟨r', t', hr, name, folder⟩ := c.rooted
    rw [hl] at hr
    cases a with
    | nil =>
      obtain rfl := (List.cons.inj hr).1
      exact ⟨u, _, rfl, name, folder⟩
    | cons y a =>
      obtain rfl := (List.cons.inj hr).1
      exact ⟨y, _, rfl, name, folder⟩

/-- A file between two neighbours is unlinked. -/
theorem unlink_between (c : Chain s l) {p : CString} {a r : List Item} {u x v : Item}
    (hl : l = a ++ u :: x :: v :: r) (named : search s p = .ok (some x.addr))
    (isFile : x.folder = false) :
    ∃ s', unlink p s = .ok (x.addr, s') ∧ s'.heap x.addr = s.heap x.addr ∧
      s'.nodeno = s.nodeno ∧ s'.brk = s.brk ∧ Chain s' (a ++ u :: v :: r) := by
  have hx : l = (a ++ [u]) ++ x :: v :: r := by simp [hl]
  have hv : l = (a ++ [u, x]) ++ v :: r := by simp [hl]
  have nodup := c.nodup
  rw [hl] at nodup
  simp only [List.map_append, List.map_cons, List.nodup_append, List.nodup_cons, List.mem_cons,
    not_or] at nodup
  obtain ⟨-, ⟨⟨ux, uv, -⟩, ⟨xv, -⟩, -⟩, -⟩ := nodup
  simp only [unlink, named, bind, Except.bind, c.deref_eq hx, Item.cell, last_append_singleton,
    c.deref_eq hl, isFile, Bool.false_eq_true, if_false, first_cons]
  by_cases folder : u.data.dflag = 1
  all_goals
    simp only [folder, if_true, if_false, State.deref, State.write,
      Function.update_of_ne (Ne.symm uv), c.cell_eq hv, pure, Except.pure]
    refine ⟨_, rfl, ?_, rfl, rfl, c.remove hl (fun b bu bx bv => ?_) ?_ ?_ rfl rfl⟩
    · simp [Function.update_of_ne xv, Function.update_of_ne (Ne.symm ux)]
    · simp [Function.update_of_ne bu, Function.update_of_ne bv]
    · simp [Function.update_of_ne uv, c.cell_eq hl, Item.cell, Item.folder, folder]
    · simp [Item.cell]

/-- A removal gets past its null pointers only for a file between two neighbours. -/
theorem unlink_cases (c : Chain s l) (p : CString) :
    unlink p s = .error .null ∨
      ∃ s' a u x v r, unlink p s = .ok (x.addr, s') ∧ l = a ++ u :: x :: v :: r ∧
        x.folder = false ∧ s'.heap x.addr = s.heap x.addr ∧ s'.nodeno = s.nodeno ∧
        s'.brk = s.brk ∧ Chain s' (a ++ u :: v :: r) := by
  have named := c.search_eq p
  cases hfind : find Item.name Item.folder l p with
  | error e =>
    left
    simp only [unlink, named, hfind, bind, Except.bind]
    rw [find_error hfind]
    rfl
  | ok q =>
    rw [hfind] at named
    obtain _ | ⟨x, k⟩ := q
    · left
      simp only [unlink, named, bind, Except.bind]
      rfl
    obtain ⟨b, hl⟩ := find_suffix hfind
    have names : search s p = .ok (some x.addr) := named
    obtain rfl | ⟨a, u, rfl⟩ := b.eq_nil_or_concat'
    · left
      simp only [unlink, names, bind, Except.bind, c.deref_eq hl.symm, Item.cell]
      rfl
    have hu : l = a ++ u :: x :: k := by simp [← hl]
    cases isFolder : x.folder with
    | true =>
      left
      simp only [unlink, names, bind, Except.bind, c.deref_eq hl.symm, Item.cell,
        last_append_singleton, c.deref_eq hu, isFolder, if_true]
      rfl
    | false =>
      cases k with
      | nil =>
        left
        simp only [unlink, names, bind, Except.bind, c.deref_eq hl.symm, Item.cell,
          last_append_singleton, c.deref_eq hu, isFolder]
        rfl
      | cons v r =>
        right
        obtain ⟨s', unlinked, same, nodeno, brk, c'⟩ := c.unlink_between hu names isFolder
        exact ⟨s', a, u, x, v, r, unlinked, hu, isFolder, same, nodeno, brk, c'⟩

/-- Freeing a cell outside the chain leaves the chain. -/
theorem free (c : Chain s l) {b : Addr} (outside : ∀ x ∈ l, x.addr ≠ b) : Chain (s.free b) l where
  stored := c.stored.frame fun x hx => Function.update_of_ne (outside x hx) _ _
  head := c.head
  nodup := c.nodup
  fresh a ha := by
    by_cases h : a = b
    · simp [State.free, h]
    · exact (Function.update_of_ne h _ _).trans (c.fresh a ha)
  rooted := c.rooted

/-- The neighbours of a removed file follow each other. -/
theorem removefile_between (c : Chain s l) {p : CString} {a r : List Item} {u x v : Item}
    (hl : l = a ++ u :: x :: v :: r) (named : search s p = .ok (some x.addr))
    (isFile : x.folder = false) :
    ∃ s', removefile p s = .ok s' ∧ s'.heap x.addr = none ∧ s'.nodeno = s.nodeno ∧
      s'.brk = s.brk ∧ Chain s' (a ++ u :: v :: r) := by
  obtain ⟨s', unlinked, -, nodeno, brk, c'⟩ := c.unlink_between hl named isFile
  refine ⟨s'.free x.addr, ?_, by simp [State.free], nodeno, brk, c'.free fun y hy => ?_⟩
  · simp [removefile, unlinked, bind, Except.bind, pure, Except.pure]
  · have nodup := c.nodup
    rw [hl] at nodup
    simp only [List.map_append, List.map_cons, List.nodup_append, List.nodup_cons, List.mem_cons,
      List.mem_map, not_or, not_exists, not_and] at nodup
    obtain ⟨-, ⟨⟨ux, -⟩, ⟨xv, x_out⟩, -⟩, apart⟩ := nodup
    simp only [List.mem_append, List.mem_cons] at hy
    rcases hy with hy | rfl | rfl | hy
    · exact apart _ ⟨y, hy, rfl⟩ _ (.inr (.inl rfl))
    · exact ux
    · exact Ne.symm xv
    · exact x_out y hy

/-- What `unlink` returns is the node that the path names. -/
theorem search_of_unlink {p : CString} {t : Addr} (h : unlink p s = .ok (t, s')) :
    search s p = .ok (some t) := by
  obtain ⟨tnode, named, h⟩ := bind_eq_ok.1 h
  obtain ⟨n, -, h⟩ := bind_eq_ok.1 h
  obtain ⟨m, -, h⟩ := bind_eq_ok.1 h
  rw [named]
  cases tnode with
  | none => cases h
  | some a =>
    cases prev : n.prev with
    | none => simp [prev] at h
    | some b =>
      simp only [prev] at h
      obtain ⟨k, -, h⟩ := bind_eq_ok.1 h
      cases next : n.next with
      | none => simp [next] at h
      | some d =>
        simp only [next] at h
        cases h
        rfl

/-- `removefile` returns only for a file between two neighbours; these then follow each other. -/
theorem removefile_cases (c : Chain s l) (p : CString) :
    removefile p s = .error .null ∨
      ∃ s' a u x v r, removefile p s = .ok s' ∧ l = a ++ u :: x :: v :: r ∧ x.folder = false ∧
        s'.heap x.addr = none ∧ s'.nodeno = s.nodeno ∧ s'.brk = s.brk ∧
        Chain s' (a ++ u :: v :: r) := by
  obtain h | ⟨s', a, u, x, v, r, h, hl, isFile, -⟩ := c.unlink_cases p
  · left
    simp [removefile, h, bind, Except.bind]
  · right
    obtain ⟨s', removed, freed, nodeno, brk, c'⟩ := c.removefile_between hl (search_of_unlink h) isFile
    exact ⟨s', a, u, x, v, r, removed, hl, isFile, freed, nodeno, brk, c'⟩

/-- `removefold` never returns: a folder is not followed by a sibling, and a file has no children. -/
theorem removefold_null (c : Chain s l) (fuel : ℕ) (p : CString) :
    removefold (fuel + 2) p s = .error .null := by
  obtain h | ⟨s', a, u, x, v, r, h, hl, isFile, same, -⟩ := c.unlink_cases p
  · simp [removefold, h, bind, Except.bind]
  · have hx : l = (a ++ [u]) ++ x :: v :: r := by simp [hl]
    simp [removefold, h, bind, Except.bind, State.deref, same, c.cell_eq hx, Item.cell, isFile,
      removechildren]

end Chain

end DistFs.NameSpace
