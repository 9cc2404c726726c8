import DistFs.Links.Chain
import DistFs.Registry.Config

/-!
# The data nodes in memory

The list of `list.c` as it lies in memory: cells that point at one another, strings in blocks as
long as they were when `datanode_insert` allocated them, and the global cursor `dlist`, which every
walk moves.  `Sound s l` says that the cells from `firstdlist` on hold the entries of `l` and that
the cursor is null or at one of them; under it `datanode_insert` does what it does to the list of
`NodeList`.  The file table, in which it records a replica in between, lies in other blocks.
-/

namespace DistFs.Registry

open CText Links

/-- Why a function on the list does not return: it dereferences a null pointer or a freed one,
writes past the end of a block, or walks for ever. -/
inductive NodeFault where
  | null
  | dangling
  | overflow
  | endless
deriving DecidableEq, Repr

/-- `struct _datanode`: its strings, the sizes of their blocks, and its link. -/
structure NodeCell extends Datanode where
  nodeSize : ℕ
  ipSize : ℕ
  next : Option ℕ
deriving DecidableEq

/-- The globals `firstdlist` and `dlist`, the cells, and the configuration file.  A freed cell is
`none`, and so is one that was never allocated. -/
structure NodeHeap where
  cells : ℕ → Option NodeCell
  brk : ℕ
  firstdlist : Option ℕ
  dlist : Option ℕ
  config : List Byte

namespace NodeHeap

/-- The globals of a process that has just started. -/
def empty : NodeHeap := ⟨fun _ => none, 0, none, none, []⟩

/-- `*p`. -/
def deref (s : NodeHeap) : Option ℕ → Except NodeFault NodeCell
  | none => .error .null
  | some a =>
      match s.cells a with
      | none => .error .dangling
      | some c => .ok c

/-- `malloc`: the next address, filled with a cell. -/
def malloc (c : NodeCell) (s : NodeHeap) : NodeHeap :=
  { s with cells := Function.update s.cells s.brk (some c), brk := s.brk + 1 }

/-- A write to some fields of the cell at `a`. -/
def write (a : ℕ) (f : NodeCell → NodeCell) (s : NodeHeap) : NodeHeap :=
  { s with cells := Function.update s.cells a ((s.cells a).map f) }

/-- `free`: the cell at `a` may not be read any more. -/
def free (a : ℕ) (s : NodeHeap) : NodeHeap := { s with cells := Function.update s.cells a none }

/-- The loop of `datanode_search`: the cell at which the cursor stops. -/
def searchloop (s : NodeHeap) (name : List Byte) : ℕ → Option ℕ → Except NodeFault (Option ℕ)
  | 0, _ => .error .endless
  | _ + 1, none => .ok none
  | fuel + 1, some a => do
      let c ← s.deref (some a)
      if c.node = name then return some a
      searchloop s name fuel c.next

/-- `datanode_search`: the node found is where the cursor stays. -/
def datanode_search (name : List Byte) (s : NodeHeap) : Except NodeFault (Option ℕ × NodeHeap) := do
  let found ← s.searchloop name (s.brk + 1) s.firstdlist
  return (found, { s with dlist := found })

/-- The loop of `datanode_insert`: the last cell. -/
def lastloop (s : NodeHeap) : ℕ → Option ℕ → Except NodeFault ℕ
  | 0, _ => .error .endless
  | _ + 1, none => .error .null
  | fuel + 1, some a => do
      let c ← s.deref (some a)
      if c.next ≠ none then lastloop s fuel c.next else return a

/-- The loop of `datanode_filewrite`: what it reads on its way to the end. -/
def writeloop (s : NodeHeap) : ℕ → Option ℕ → Except NodeFault (List Datanode)
  | 0, _ => .error .endless
  | _ + 1, none => .ok []
  | fuel + 1, some a => do
      let c ← s.deref (some a)
      let rest ← writeloop s fuel c.next
      return c.toDatanode :: rest

/-- `datanode_filewrite`.  The cursor is null afterwards. -/
def datanode_filewrite (s : NodeHeap) : Except NodeFault NodeHeap := do
  let dlist ← s.writeloop (s.brk + 1) s.firstdlist
  if (text dlist).length < 10000 then return { s with dlist := none, config := text dlist }
  else .error .overflow

/-- The part of `datanode_insert` that allocates a node and links it. -/
def linknode (name ip : List Byte) (alive : ℤ) (s : NodeHeap) : Except NodeFault NodeHeap :=
  let p := s.brk
  let s := s.malloc ⟨⟨name, ip, alive⟩, name.length + 1, ip.length + 1, none⟩
  match s.firstdlist with
  | none => .ok { s with firstdlist := some p }
  | some first => do
      let last ← s.lastloop (s.brk + 1) (some first)
      return s.write last fun c => { c with next := some p }

/-- The first half of `datanode_insert`: a node is linked, or its flag is set. -/
def enter (name ip : List Byte) (alive : ℤ) (s : NodeHeap) : Except NodeFault NodeHeap := do
  let (p, s) ← s.datanode_search name
  match p with
  | some p => return s.write p fun c => { c with alive := 1 }
  | none => s.linknode name ip alive

/-- What `datanode_insert` does in the blocks of the list: its call of `filenode_insert` is left
out. -/
def datanode_insert (name ip : List Byte) (alive : ℤ) (s : NodeHeap) :
    Except NodeFault NodeHeap := do
  let s ← s.enter name ip alive
  s.datanode_filewrite

end NodeHeap

/-! ## The list in memory -/

/-- An entry of the list: its address, its strings with the sizes of their blocks, and its flag. -/
structure Entry extends Datanode where
  addr : ℕ
  nodeSize : ℕ
  ipSize : ℕ
deriving DecidableEq

/-- The cell of an entry.  There is no link to the entry in front of it. -/
def Entry.cell (_ : Option ℕ) (x : Entry) (q : Option ℕ) : NodeCell :=
  ⟨x.toDatanode, x.nodeSize, x.ipSize, q⟩

theorem Entry.cell_inj {p p' q q' : Option ℕ} {x y : Entry} (address : x.addr = y.addr)
    (same : x.cell p q = y.cell p' q') : x = y ∧ q = q' := by
  cases x
  cases y
  cases address
  cases same
  exact ⟨rfl, rfl⟩

/-- The blocks of an entry are just large enough. -/
structure Entry.Tight (x : Entry) : Prop where
  node : x.nodeSize = x.node.length + 1
  ip : x.ipSize = x.ip.length + 1

theorem Entry.Tight.fits {x : Entry} (tight : x.Tight) :
    x.node.length < x.nodeSize ∧ x.ip.length < x.ipSize := by
  rw [tight.node, tight.ip]
  omega

/-- The entry that `datanode_insert` allocates. -/
def newEntry (name ip : List Byte) (alive : ℤ) (p : ℕ) : Entry :=
  ⟨⟨name, ip, alive⟩, p, name.length + 1, ip.length + 1⟩

theorem newEntry_tight (name ip : List Byte) (alive : ℤ) (p : ℕ) :
    (newEntry name ip alive p).Tight := ⟨rfl, rfl⟩

/-- What the data node is, without where it lies. -/
abbrev Entry.value (x : Entry) : Datanode := x.toDatanode

namespace NodeHeap

/-- The address at which the entries begin. -/
abbrev front (l : List Entry) : Option ℕ := first Entry.addr l none

/-- The cells from `firstdlist` on hold the entries of `l`, and every string fits its block. -/
structure Holds (s : NodeHeap) (l : List Entry) : Prop where
  stored : Stored Entry.addr Entry.cell s.cells none l none
  first : s.firstdlist = front l
  nodup : (l.map Entry.addr).Nodup
  fresh : ∀ a, s.brk ≤ a → s.cells a = none
  fits : ∀ x ∈ l, x.node.length < x.nodeSize ∧ x.ip.length < x.ipSize

/-- The cursor is null or at an entry. -/
structure Sound (s : NodeHeap) (l : List Entry) : Prop extends Holds s l where
  cursor : s.dlist = none ∨ ∃ x ∈ l, s.dlist = some x.addr

variable {s : NodeHeap} {l a t : List Entry} {x : Entry} {fuel : ℕ}

@[simp] theorem front_cons : front (x :: l) = some x.addr := rfl

theorem empty_sound : empty.Sound [] where
  stored := trivial
  first := rfl
  nodup := List.nodup_nil
  fresh _ _ := rfl
  fits _ h := absurd h List.not_mem_nil
  cursor := Or.inl rfl

/-- The entry in front of a list does not matter to it. -/
theorem stored_behind {mem : ℕ → Option NodeCell} {p p' q : Option ℕ} :
    Stored Entry.addr Entry.cell mem p l q ↔ Stored Entry.addr Entry.cell mem p' l q := by
  cases l <;> rfl

namespace Holds

theorem cell_eq (h : Holds s l) (hl : l = a ++ x :: t) :
    s.cells x.addr = some (x.cell none (front t)) := by
  have stored := h.stored
  rw [hl] at stored
  exact stored.cell

theorem deref_eq (h : Holds s l) (hl : l = a ++ x :: t) :
    s.deref (some x.addr) = .ok (x.cell none (front t)) := by
  unfold deref
  dsimp only
  rw [h.cell_eq hl]

/-- The loops have enough fuel for any part of the list. -/
theorem enough (h : Holds s l) (hl : l = a ++ t) : t.length < s.brk + 1 := by
  have := h.stored.length_le h.nodup h.fresh
  rw [hl, List.length_append] at this
  omega

theorem addr_lt (h : Holds s l) (hx : x ∈ l) : x.addr < s.brk := h.stored.addr_lt h.fresh hx

/-- Different entries lie at different addresses. -/
theorem addr_ne (h : Holds s l) (hl : l = a ++ x :: t) {y : Entry} (hy : y ∈ a ++ t) :
    y.addr ≠ x.addr :=
  addr_ne_of_nodup (hl ▸ h.nodup) hy

/-! The loops. -/

theorem searchloop_eq (h : Holds s l) (name : List Byte) (hl : l = a ++ t)
    (enough : t.length < fuel) :
    s.searchloop name fuel (front t) = .ok ((t.find? fun x => x.node == name).map Entry.addr) := by
  induction t generalizing a fuel with
  | nil =>
    obtain ⟨fuel, rfl⟩ := Nat.exists_eq_succ_of_ne_zero (by omega : fuel ≠ 0)
    rfl
  | cons x t ih =>
    obtain ⟨fuel, rfl⟩ := Nat.exists_eq_succ_of_ne_zero (by omega : fuel ≠ 0)
    rw [List.length_cons] at enough
    have later := @ih (a ++ [x]) fuel (by simp [hl]) (by omega)
    rw [front_cons, searchloop, h.deref_eq hl, List.find?_cons]
    simp only [bind, Except.bind]
    by_cases named : x.node = name
    · rw [beq_iff_eq.2 named]
      exact if_pos named
    · rw [beq_eq_false_iff_ne.2 named]
      exact (if_neg named).trans later

theorem lastloop_eq (h : Holds s l) (hl : l = a ++ (t ++ [x])) (enough : t.length + 1 < fuel) :
    s.lastloop fuel (front (t ++ [x])) = .ok x.addr := by
  induction t generalizing a fuel with
  | nil =>
    obtain ⟨fuel, rfl⟩ := Nat.exists_eq_succ_of_ne_zero (by omega : fuel ≠ 0)
    rw [List.nil_append] at hl ⊢
    rw [front_cons, lastloop, h.deref_eq hl]
    rfl
  | cons y t ih =>
    obtain ⟨fuel, rfl⟩ := Nat.exists_eq_succ_of_ne_zero (by omega : fuel ≠ 0)
    rw [List.length_cons] at enough
    have later := @ih (a ++ [y]) fuel (by simp [hl]) (by omega)
    rw [List.cons_append, front_cons, lastloop, h.deref_eq hl, ← later]
    simp only [bind, Except.bind]
    apply if_pos
    cases t <;> exact Option.some_ne_none _

theorem writeloop_eq (h : Holds s l) (hl : l = a ++ t) (enough : t.length < fuel) :
    s.writeloop fuel (front t) = .ok (t.map Entry.value) := by
  induction t generalizing a fuel with
  | nil =>
    obtain ⟨fuel, rfl⟩ := Nat.exists_eq_succ_of_ne_zero (by omega : fuel ≠ 0)
    rfl
  | cons x t ih =>
    obtain ⟨fuel, rfl⟩ := Nat.exists_eq_succ_of_ne_zero (by omega : fuel ≠ 0)
    rw [List.length_cons] at enough
    have later := @ih (a ++ [x]) fuel (by simp [hl]) (by omega)
    rw [front_cons, writeloop, h.deref_eq hl]
    simp only [bind, Except.bind, Entry.cell, later]
    rfl

theorem datanode_filewrite_eq (h : Holds s l) :
    s.datanode_filewrite =
      if (text (l.map Entry.value)).length < 10000 then
        .ok { s with dlist := none, config := text (l.map Entry.value) }
      else .error .overflow := by
  rw [NodeHeap.datanode_filewrite, h.first, h.writeloop_eq (a := []) rfl (h.enough (a := []) rfl)]
  rfl

theorem datanode_search_eq (h : Holds s l) (name : List Byte) :
    s.datanode_search name =
      .ok ((l.find? fun x => x.node == name).map Entry.addr,
        { s with dlist := (l.find? fun x => x.node == name).map Entry.addr }) := by
  have enough := h.enough (a := []) rfl
  rw [NodeHeap.datanode_search, h.first, h.searchloop_eq name (a := []) rfl enough]
  rfl

/-! What changes the list. -/

/-- The entry `x` and those of `u` behind it give way to `y`, which lies where `x` lay. -/
theorem replace {s' : NodeHeap} {u : List Entry} {y : Entry} (h : Holds s (a ++ x :: (u ++ t)))
    (address : y.addr = x.addr) (fits : y.node.length < y.nodeSize ∧ y.ip.length < y.ipSize)
    (here : s'.cells y.addr = some (y.cell none (front t)))
    (same : ∀ z ∈ a ++ t, s'.cells z.addr = s.cells z.addr) (first : s'.firstdlist = s.firstdlist)
    (fresh : ∀ b, s'.brk ≤ b → s'.cells b = none) : Holds s' (a ++ y :: t) where
  stored := by
    obtain ⟨before, -, rest⟩ := stored_append.1 h.stored
    obtain ⟨-, behind⟩ := stored_append.1 rest
    rw [first_cons, ← address] at before
    apply stored_append.2
    refine ⟨before.frame fun z hz => same z (List.mem_append_left t hz), here, ?_⟩
    apply stored_behind.1
    exact behind.frame fun z hz => same z (List.mem_append_right a hz)
  first := by
    rw [first, h.first]
    cases a with
    | nil =>
      rw [List.nil_append, List.nil_append, front_cons, front_cons, address]
    | cons z a => rfl
  nodup := by
    have nodup := h.nodup
    simp only [List.map_append, List.map_cons, address] at nodup ⊢
    exact nodup.sublist (List.Sublist.append_left
      (List.Sublist.cons_cons x.addr (List.sublist_append_right _ _)) _)
  fresh := fresh
  fits z hz := by
    rcases List.mem_append.1 hz with hz | hz
    · exact h.fits z (by simp [hz])
    · rcases List.mem_cons.1 hz with rfl | hz
      · exact fits
      · exact h.fits z (by simp [hz])

/-- A write to the fields of an entry. -/
theorem modify {f : NodeCell → NodeCell} {y : Entry} (h : Holds s (a ++ x :: t))
    (address : y.addr = x.addr) (fits : y.node.length < y.nodeSize ∧ y.ip.length < y.ipSize)
    (image : ∀ q, f (x.cell none q) = y.cell none q) : Holds (s.write x.addr f) (a ++ y :: t) := by
  apply replace (u := []) h address fits
  · rw [address, write]
    dsimp only
    rw [Function.update_self, h.cell_eq rfl, Option.map_some, image]
  · intro z hz
    exact Function.update_of_ne (h.addr_ne rfl hz) _ _
  · rfl
  · intro b beyond
    have : b ≠ x.addr := by
      have := h.addr_lt (x := x) (by simp)
      have : s.brk ≤ b := beyond
      omega
    exact (Function.update_of_ne this _ _).trans (h.fresh b beyond)

theorem withCursor (h : Holds s l) (r : Option ℕ) : Holds { s with dlist := r } l :=
  ⟨h.stored, h.first, h.nodup, h.fresh, h.fits⟩

/-- A new cell is no part of the list yet. -/
theorem malloc (h : Holds s l) (c : NodeCell) : Holds (s.malloc c) l where
  stored := h.stored.frame fun x hx =>
    Function.update_of_ne (Nat.ne_of_lt (h.addr_lt hx)) _ _
  first := h.first
  nodup := h.nodup
  fresh b beyond := by
    have : s.brk + 1 ≤ b := beyond
    exact (Function.update_of_ne (by omega) _ _).trans (h.fresh b (by omega))
  fits := h.fits

/-- The first entry. -/
theorem insert_first (h : Holds s []) {y : Entry} (tight : y.Tight) (new : y.addr = s.brk) :
    Holds { s.malloc (y.cell none none) with firstdlist := some s.brk } [y] where
  stored := by
    refine ⟨?_, trivial⟩
    rw [new]
    exact Function.update_self s.brk _ _
  first := congrArg some new.symm
  nodup := List.nodup_singleton _
  fresh := (h.malloc _).fresh
  fits x hx := by
    rw [List.mem_singleton.1 hx]
    exact tight.fits

/-- A further entry goes behind the last one. -/
theorem insert_last {u y : Entry} (h : Holds s (a ++ [u])) (tight : y.Tight)
    (new : y.addr = s.brk) :
    Holds ((s.malloc (y.cell none none)).write u.addr fun c => { c with next := some s.brk })
      (a ++ [u, y]) where
  stored := by
    have grown := h.malloc (y.cell none none)
    have other : y.addr ≠ u.addr := by
      have := h.addr_lt (x := u) (by simp)
      omega
    apply grown.stored.attach
    · intro z hz
      exact Function.update_of_ne (h.addr_ne rfl (by simpa using hz)) _ _
    · refine (Function.update_self u.addr _ _).trans ?_
      rw [grown.cell_eq rfl, new]
      rfl
    · refine (Function.update_of_ne other _ _).trans ?_
      rw [new]
      exact Function.update_self s.brk _ _
  first := by
    have first : s.firstdlist = front (a ++ [u, y]) := by
      rw [h.first]
      cases a <;> rfl
    exact first
  nodup := by
    rw [List.append_cons, List.map_append, List.nodup_append]
    refine ⟨h.nodup, List.nodup_singleton _, ?_⟩
    intro b hb c hc
    obtain ⟨z, hz, rfl⟩ := List.mem_map.1 hb
    rw [List.map_singleton, List.mem_singleton, new] at hc
    have := h.addr_lt hz
    omega
  fresh b beyond := by
    have : s.brk + 1 ≤ b := beyond
    have := h.addr_lt (x := u) (by simp)
    exact (Function.update_of_ne (by omega) _ _).trans ((h.malloc _).fresh b beyond)
  fits z hz := by
    rw [List.append_cons, List.mem_append, List.mem_singleton] at hz
    rcases hz with hz | rfl
    · exact h.fits z hz
    · exact tight.fits

end Holds

/-! ## Insertion -/

namespace Holds

theorem linknode_eq (h : Holds s l) (name ip : List Byte) (alive : ℤ) :
    ∃ s₁, s.linknode name ip alive = .ok s₁ ∧
      Holds s₁ (l ++ [newEntry name ip alive s.brk]) := by
  have tight := newEntry_tight name ip alive s.brk
  have grown := h.malloc ((newEntry name ip alive s.brk).cell none none)
  unfold linknode
  dsimp only
  rcases List.eq_nil_or_concat l with rfl | ⟨a, u, rfl⟩
  · rw [show (s.malloc _).firstdlist = none from h.first]
    exact ⟨_, rfl, h.insert_first tight rfl⟩
  · rw [List.concat_eq_append] at h grown ⊢
    obtain ⟨b, first⟩ : ∃ b, front (a ++ [u]) = some b := by
      cases a <;> exact ⟨_, rfl⟩
    have enough := grown.enough (a := []) (t := a ++ [u]) rfl
    rw [List.length_append, List.length_singleton] at enough
    have last := grown.lastloop_eq (a := []) (t := a) (x := u) rfl enough
    rw [first] at last
    rw [show (s.malloc _).firstdlist = some b from h.first.trans first]
    refine ⟨_, congrArg (fun r => r >>= _) last, ?_⟩
    rw [List.append_assoc]
    exact h.insert_last tight rfl

/-- A cell is added or an alive flag is set. -/
theorem enter_eq (h : Holds s l) (name ip : List Byte) (alive : ℤ) :
    ∃ s₁ l', s.enter name ip alive = .ok s₁ ∧ Holds s₁ l' ∧
      l'.map Entry.value = entered name ip alive (l.map Entry.value) ∧
      ((∀ x ∈ l, x.Tight) → ∀ x ∈ l', x.Tight) := by
  rw [NodeHeap.enter, h.datanode_search_eq]
  simp only [bind, Except.bind]
  cases found : l.find? fun x => x.node == name with
  | some x =>
    obtain ⟨named, a, t, rfl, others⟩ := List.find?_eq_some_iff_append.1 found
    obtain rfl := beq_iff_eq.1 named
    have moved := h.withCursor (some x.addr)
    refine ⟨_, a ++ { x with alive := 1 } :: t, rfl, ?_, ?_, ?_⟩
    · exact moved.modify rfl (h.fits x (by simp)) fun q => rfl
    · rw [List.map_append, List.map_append, List.map_cons, List.map_cons]
      refine (entered_first ?_).symm
      intro c hc
      obtain ⟨y, hy, rfl⟩ := List.mem_map.1 hc
      simpa using others y hy
    · intro tight y hy
      simp only [List.mem_append, List.mem_cons] at hy tight
      rcases hy with hy | rfl | hy
      · exact tight y (Or.inl hy)
      · have := tight x (Or.inr (Or.inl rfl))
        exact ⟨this.node, this.ip⟩
      · exact tight y (Or.inr (Or.inr hy))
  | none =>
    obtain ⟨s₁, linked, holds⟩ := (h.withCursor none).linknode_eq name ip alive
    refine ⟨s₁, l ++ [newEntry name ip alive s.brk], ?_, holds, ?_, ?_⟩
    · simp only [Option.map_none, linked]
    · have fresh : name ∉ (l.map Entry.value).map Datanode.node := by
        rw [List.map_map, List.mem_map]
        rintro ⟨x, hx, rfl⟩
        simpa using List.find?_eq_none.1 found x hx
      rw [entered_new fresh, List.map_append]
      rfl
    · intro tight x hx
      rw [List.mem_append, List.mem_singleton] at hx
      rcases hx with hx | rfl
      · exact tight x hx
      · exact newEntry_tight name ip alive s.brk

/-- `datanode_insert` in memory does what it does to the list, and so does a full text buffer.  The
cursor is null when it returns. -/
theorem datanode_insert_refines (h : Holds s l) (name ip : List Byte) (alive : ℤ) :
    (∃ s' l', s.datanode_insert name ip alive = .ok s' ∧ Sound s' l' ∧ s'.dlist = none ∧
        Registry.datanode_insert name ip alive ⟨l.map Entry.value, s.config⟩ =
          .ok ⟨l'.map Entry.value, s'.config⟩ ∧
        ((∀ x ∈ l, x.Tight) → ∀ x ∈ l', x.Tight)) ∨
      s.datanode_insert name ip alive = .error .overflow ∧
        Registry.datanode_insert name ip alive ⟨l.map Entry.value, s.config⟩ =
          .error .overflow := by
  obtain ⟨s₁, l', enters, holds, values, tight⟩ := h.enter_eq name ip alive
  rw [NodeHeap.datanode_insert, enters]
  simp only [bind, Except.bind]
  rw [holds.datanode_filewrite_eq, Registry.datanode_insert, Registry.datanode_filewrite, ← values]
  split_ifs with fits
  · left
    have written : Holds { s₁ with dlist := none, config := text (l'.map Entry.value) } l' :=
      ⟨holds.stored, holds.first, holds.nodup, holds.fresh, holds.fits⟩
    exact ⟨_, l', rfl, ⟨written, Or.inl rfl⟩, rfl, rfl, tight⟩
  · exact Or.inr ⟨rfl, rfl⟩

/-- The cursor stays where the name is found. -/
theorem datanode_search_sound (h : Holds s l) {name : List Byte} {r : Option ℕ} {s' : NodeHeap}
    (returned : s.datanode_search name = .ok (r, s')) : Sound s' l ∧ s'.dlist = r := by
  rw [h.datanode_search_eq] at returned
  cases returned
  refine ⟨⟨h.withCursor _, ?_⟩, rfl⟩
  dsimp only
  cases found : l.find? fun x => x.node == name with
  | none => exact Or.inl rfl
  | some x => exact Or.inr ⟨x, List.mem_of_find?_eq_some found, rfl⟩

end Holds

/-! ## Runs -/

/-- A call that works on the list: a data node reports, or one is looked up. -/
inductive Call where
  | insert (name ip : List Byte) (alive : ℤ)
  | search (name : List Byte)

/-- The memory after a call that returns. -/
def Call.run : Call → NodeHeap → Except NodeFault NodeHeap
  | .insert name ip alive, s => s.datanode_insert name ip alive
  | .search name, s => Prod.snd <$> s.datanode_search name

/-- A sequence of calls that all return. -/
def runCalls (calls : List Call) (s : NodeHeap) : Except NodeFault NodeHeap :=
  calls.foldlM (fun s call => call.run s) s

/-- One call keeps the list in shape, and the blocks as small as their strings. -/
theorem Sound.call {s' : NodeHeap} (sound : Sound s l) (tight : ∀ x ∈ l, x.Tight) {call : Call}
    (returned : call.run s = .ok s') : ∃ l', Sound s' l' ∧ ∀ x ∈ l', x.Tight := by
  cases call with
  | insert name ip alive =>
    rw [Call.run] at returned
    rcases sound.datanode_insert_refines name ip alive with
      ⟨s₁, l', enters, sound', -, -, tight'⟩ | ⟨overflows, -⟩
    · rw [enters] at returned
      cases returned
      exact ⟨l', sound', tight' tight⟩
    · rw [overflows] at returned
      cases returned
  | search name =>
    obtain ⟨⟨r, s₁⟩, found, rfl⟩ := map_eq_ok.1 returned
    exact ⟨l, (sound.datanode_search_sound found).1, tight⟩

theorem runCalls_sound {s' : NodeHeap} {calls : List Call} (sound : Sound s l)
    (tight : ∀ x ∈ l, x.Tight) (returned : runCalls calls s = .ok s') :
    ∃ l', Sound s' l' ∧ ∀ x ∈ l', x.Tight := by
  induction calls generalizing s l with
  | nil =>
    cases returned
    exact ⟨l, sound, tight⟩
  | cons call calls ih =>
    obtain ⟨s₁, first, rest⟩ := bind_eq_ok.1 returned
    obtain ⟨l₁, sound₁, tight₁⟩ := sound.call tight first
    exact ih sound₁ tight₁ rest

end NodeHeap

end DistFs.Registry
