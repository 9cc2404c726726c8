import DistFs.Links.Chain
import DistFs.NameSpace.Lookup

/-!
# The heap as a chain

`Chain s l` says that the tree of `s` is the chain of the items of `l`: each item has its address and
data, and its cell holds exactly the links that its neighbours and its folder mark determine.  Under
it the functions of `dd.c` compute what `find`, `attachPoint` and `insert` compute on `l`.
-/

namespace DistFs.NameSpace

open CText Links

/-- A node of the tree: its address and its data. -/
structure Item where
  addr : Addr
  data : Datadef
deriving DecidableEq

namespace Item

/-- The `fname` of an item. -/
def name (x : Item) : CString := x.data.fname

/-- A folder is what the code recognises as one. -/
def folder (x : Item) : Bool := x.data.dflag = 1

/-- The cell of an item with the given neighbours. -/
def cell (p : Option Addr) (x : Item) (q : Option Addr) : Node :=
  ⟨x.data, if x.folder then none else q, p, if x.folder then q else none⟩

theorem cell_none (p : Option Addr) (x : Item) : x.cell p none = ⟨x.data, none, p, none⟩ := by
  simp [cell]

end Item

/-- The address behind which a list of siblings begins. -/
abbrev start (l : List Item) : Option Addr := first Item.addr l none

/-- The tree of `s` is the chain of the items of `l`. -/
structure Chain (s : State) (l : List Item) : Prop where
  stored : Stored Item.addr Item.cell s.heap none l none
  head : s.head = start l
  nodup : (l.map Item.addr).Nodup
  fresh : ∀ a, s.brk ≤ a → s.heap a = none
  rooted : ∃ r t, l = r :: t ∧ r.name = home ∧ r.folder = true

/-- The address of the node found. -/
def found (p : Item × List Item) : Addr := p.1.addr

variable {s : State} {l : List Item}

namespace Chain

/-- The cell of an item of the chain. -/
theorem cell_eq (c : Chain s l) {a t : List Item} {x : Item} (hl : l = a ++ x :: t) :
    s.heap x.addr = some (x.cell (last Item.addr a none) (start t)) := by
  have := c.stored
  rw [hl] at this
  exact this.cell

theorem deref_eq (c : Chain s l) {a t : List Item} {x : Item} (hl : l = a ++ x :: t) :
    s.deref (some x.addr) = .ok (x.cell (last Item.addr a none) (start t)) := by
  simp [State.deref, c.cell_eq hl]

theorem addr_lt (c : Chain s l) {x : Item} (hx : x ∈ l) : x.addr < s.brk :=
  c.stored.addr_lt c.fresh hx

theorem length_le (c : Chain s l) : l.length ≤ s.brk := c.stored.length_le c.nodup c.fresh

/-- The fuel that the loops of the model have suffices for any part of the chain. -/
theorem enough (c : Chain s l) {t : List Item} (h : t <:+ l) : t.length < s.brk + 1 :=
  Nat.lt_succ_of_le (h.length_le.trans c.length_le)

/-- Items are determined by their addresses. -/
theorem item_eq (c : Chain s l) {x y : Item} (hx : x ∈ l) (hy : y ∈ l) (h : x.addr = y.addr) :
    x = y :=
  List.inj_on_of_nodup_map c.nodup hx hy h

/-- An item stands in one place of the chain only. -/
theorem split_unique (c : Chain s l) {a b t u : List Item} {x : Item} (hl : l = a ++ x :: t)
    (hl' : l = b ++ x :: u) : a = b ∧ t = u := by
  have nodup := List.Nodup.of_map _ c.nodup
  rw [hl, List.nodup_middle, List.nodup_cons, List.mem_append, not_or] at nodup
  have := (List.append_cons_inj_of_notMem nodup.1.1 nodup.1.2).1 (hl.symm.trans hl')
  exact ⟨this.1, this.2.2⟩

/-! ## Search -/

theorem searchsiblings_eq (c : Chain s l) (v : CString) {a t : List Item} (hl : l = a ++ t)
    {fuel : ℕ} (enough : t.length < fuel) :
    searchsiblings s v fuel (start t) = .ok ((walk Item.name Item.folder v t).map found) := by
  induction t generalizing a fuel with
  | nil =>
    obtain ⟨n, rfl⟩ := Nat.exists_eq_succ_of_ne_zero (by omega : fuel ≠ 0)
    rfl
  | cons x t ih =>
    obtain ⟨n, rfl⟩ := Nat.exists_eq_succ_of_ne_zero (by omega : fuel ≠ 0)
    rw [List.length_cons] at enough
    simp only [first_cons, searchsiblings, c.deref_eq hl, bind, Except.bind, Item.cell, walk,
      Item.name]
    by_cases named : x.data.fname = v
    · simp [named, found, pure, Except.pure]
    · by_cases isFolder : x.folder = true
      · obtain ⟨k, rfl⟩ := Nat.exists_eq_succ_of_ne_zero (by omega : n ≠ 0)
        simp [named, isFolder, searchsiblings]
      · simp only [named, if_false, isFolder, Bool.false_eq_true]
        exact ih (a := a ++ [x]) (by simp [hl]) (by omega)

theorem start_childrenOf (x : Item) (t : List Item) :
    start (childrenOf Item.folder x t) = if x.folder then start t else none := by
  unfold childrenOf
  split_ifs <;> rfl

theorem searchloc_eq (c : Chain s l) {a t : List Item} (hl : l = a ++ t) {fuel : ℕ} {p : CString}
    (enough : p.bytes.length < fuel) :
    searchloc s fuel (start t) p =
      (lookup Item.name Item.folder l t p).map (Option.map found) := by
  induction fuel generalizing a t p with
  | zero => omega
  | succ fuel ih =>
    rw [searchloc]
    by_cases hp : slash ∈ p.bytes
    · rw [if_pos ((findfch_ne_neg_one p.noNul).2 hp),
        c.searchsiblings_eq _ hl (c.enough (hl ▸ List.suffix_append a t))]
      simp only [bind, Except.bind, lookup, steps_of_mem hp, enter_cons, lastName_of_mem hp]
      cases hw : walk Item.name Item.folder (parserpath p) t with
      | none => rfl
      | some q =>
        obtain ⟨x, u⟩ := q
        obtain ⟨-, b, rfl, -⟩ := walk_split hw
        have hx : l = (a ++ b) ++ x :: u := by simp [hl]
        have shorter := removepath_length hp
        simp only [Option.map_some, found, c.deref_eq hx, Item.cell, Option.bind_some]
        rw [← start_childrenOf x u]
        obtain ⟨d, hd⟩ := childrenOf_suffix Item.folder x u
        refine (ih (a := a ++ b ++ x :: d) ?_ (by omega)).trans rfl
        simp [hl, hd]
    · rw [if_neg (by rw [findfch_ne_neg_one p.noNul]; exact hp)]
      simp only [lookup, steps_of_not_mem hp, enter_nil_left, lastName_of_not_mem hp, lookupLast]
      obtain ⟨r, k, hr, rootName, rootFolder⟩ := c.rooted
      split_ifs with isHome
      · simp [c.head, hr, root, found, Except.map, pure, Except.pure]
      · cases t with
        | nil => simp [State.deref, bind, Except.bind, Except.map]
        | cons x t =>
          have top : topLevel Item.folder (r :: k) = k := by
            simp [topLevel, childrenOf, rootFolder]
          simp only [first_cons, c.deref_eq hl, bind, Except.bind, Item.cell]
          by_cases restart : x.data.fname = home
          · have hk : l = [r] ++ k := hr
            have := c.searchsiblings_eq p hk (c.enough (hk ▸ List.suffix_append _ _))
            simp only [restart, if_true, Item.name, top, c.head, hr, first_cons,
              c.deref_eq (a := []) hr, Item.cell, rootFolder]
            exact this
          · have := c.searchsiblings_eq p hl (c.enough (hl ▸ List.suffix_append _ _))
            simp only [restart, if_false, Item.name]
            exact this

theorem search_eq (c : Chain s l) (p : CString) :
    search s p = (find Item.name Item.folder l p).map (Option.map found) := by
  unfold search find
  split_ifs
  · obtain ⟨r, t, hr, -⟩ := c.rooted
    simp [c.head, hr, root, found, Except.map]
  · rw [c.head]
    exact c.searchloc_eq (a := []) rfl (by omega)

end Chain

end DistFs.NameSpace
