import DistFs.Registry.Heap

/-!
# Removing a data node

`remove_datanode` copies the next entry over the one to be removed and frees the cell of the next
one.  For the last entry it frees the entry itself and leaves the pointer to it.  The alive flag
comes from `dlist->next`, where the global cursor happens to be, and not from the next entry.
-/

namespace DistFs.Registry.NodeHeap

open CText Links

/-- `strcpy` into a block of `size` bytes. -/
def strcpy (size : ℕ) (src : List Byte) : Except NodeFault (List Byte) :=
  if src.length < size then .ok src else .error .overflow

/-- `p->next->alive`. -/
def nextAlive (s : NodeHeap) (p : Option ℕ) : Except NodeFault ℤ := do
  let c ← s.deref p
  let d ← s.deref c.next
  return d.alive

/-- `remove_datanode`. -/
def remove_datanode (dlist1 : ℕ) (s : NodeHeap) : Except NodeFault NodeHeap := do
  let n ← s.deref (some dlist1)
  match n.next with
  | none => return s.free dlist1
  | some tmp => do
      let next ← s.deref (some tmp)
      let node ← strcpy n.nodeSize next.node
      let s := s.write dlist1 fun n => { n with node := node }
      let ip ← strcpy n.ipSize next.ip
      let s := s.write dlist1 fun n => { n with ip := ip }
      let alive ← s.nextAlive s.dlist
      let s := s.write dlist1 fun n => { n with alive := alive }
      let s := s.write dlist1 fun n => { n with next := next.next }
      return s.free tmp

/-- The addresses that the program can get to from its two pointers. -/
inductive Reachable (s : NodeHeap) : ℕ → Prop
  | first {a : ℕ} (h : s.firstdlist = some a) : Reachable s a
  | cursor {a : ℕ} (h : s.dlist = some a) : Reachable s a
  | next {a b : ℕ} {c : NodeCell} (h : Reachable s a) (cell : s.cells a = some c)
      (link : c.next = some b) : Reachable s b

/-- The list from `firstdlist` on consists of `values`, and nothing that can be reached is freed. -/
structure Leaves (s : NodeHeap) (values : List Datanode) : Prop where
  list : ∃ l, Stored Entry.addr Entry.cell s.cells none l none ∧ s.firstdlist = front l ∧
    l.map Entry.value = values
  live : ∀ a, Reachable s a → s.cells a ≠ none

/-- The entry `e` of `l` can make room for the next one, `x`: the strings of `x` fit its blocks, and
the cursor is at an entry whose next one has the alive flag of `x`, but not at `x`, which will be
freed. -/
structure Replaceable (s : NodeHeap) (l : List Entry) (e x : Entry) : Prop where
  node : x.node.length < e.nodeSize
  ip : x.ip.length < e.ipSize
  flag : ∃ a c d b, l = a ++ c :: d :: b ∧ s.dlist = some c.addr ∧ d.alive = x.alive
  apart : s.dlist ≠ some x.addr

variable {s s' : NodeHeap} {l a b t : List Entry} {c d e x : Entry} {f g : NodeCell → NodeCell}
  {i : ℕ} {r : Option ℕ} {alive : ℤ}

/-! ## The alive flag -/

theorem write_write (s : NodeHeap) (i : ℕ) (f g : NodeCell → NodeCell) :
    (s.write i f).write i g = s.write i fun c => g (f c) := by
  unfold write
  dsimp only
  rw [Function.update_self, Function.update_idem, Option.map_map]
  rfl

theorem deref_write (s : NodeHeap) (i : ℕ) (f : NodeCell → NodeCell) (r : Option ℕ) :
    (s.write i f).deref r = (s.deref r).map fun c => if r = some i then f c else c := by
  cases r with
  | none => rfl
  | some j =>
    unfold deref write
    dsimp only
    by_cases here : j = i
    · subst here
      rw [Function.update_self]
      cases s.cells j with
      | none => rfl
      | some c => simp [Except.map]
    · rw [Function.update_of_ne here]
      cases s.cells j with
      | none => rfl
      | some c => simp [Except.map, here]

/-- The strings are copied before the flag is read, which they do not change. -/
theorem nextAlive_write (keeps : ∀ c, (f c).next = c.next ∧ (f c).alive = c.alive) :
    (s.write i f).nextAlive r = s.nextAlive r := by
  have same : ∀ (r : Option ℕ) (c : NodeCell),
      (if r = some i then f c else c).next = c.next ∧
        (if r = some i then f c else c).alive = c.alive := by
    intro r c
    split_ifs
    · exact keeps c
    · exact ⟨rfl, rfl⟩
  unfold nextAlive
  rw [deref_write]
  cases s.deref r with
  | error fault => rfl
  | ok c =>
    simp only [bind, Except.bind, Except.map, (same r c).1]
    rw [deref_write]
    cases s.deref c.next with
    | error fault => rfl
    | ok d => exact congrArg Except.ok (same c.next d).2

/-- The flag that is read belongs to the entry behind the cursor, if there is one. -/
theorem Sound.nextAlive_iff (sound : Sound s l) : s.nextAlive s.dlist = .ok alive ↔
    ∃ a c d b, l = a ++ c :: d :: b ∧ s.dlist = some c.addr ∧ d.alive = alive := by
  constructor
  · intro read
    rcases sound.cursor with null | ⟨c, hc, cursor⟩
    · rw [null] at read
      cases read
    · obtain ⟨a, t, hl⟩ := List.append_of_mem hc
      rw [cursor, nextAlive, sound.deref_eq hl] at read
      cases t with
      | nil => cases read
      | cons d b =>
        have next := sound.deref_eq (a := a ++ [c]) (x := d) (t := b) (by simp [hl])
        simp only [bind, Except.bind, Entry.cell, front_cons, next] at read
        exact ⟨a, c, d, b, hl, cursor, Except.ok.inj read⟩
  · rintro ⟨a, c, d, b, hl, cursor, rfl⟩
    have next := sound.deref_eq (a := a ++ [c]) (x := d) (t := b) (by simp [hl])
    rw [cursor, nextAlive, sound.deref_eq hl]
    simp only [bind, Except.bind, Entry.cell, front_cons, next]
    rfl

/-! ## What the call does -/

/-- `remove_datanode` for an entry that is not the last one. -/
theorem Holds.remove_eq (h : Holds s (a ++ e :: x :: t)) :
    s.remove_datanode e.addr =
      (strcpy e.nodeSize x.node).bind fun node => (strcpy e.ipSize x.ip).bind fun ip =>
        (s.nextAlive s.dlist).map fun alive =>
          (s.write e.addr fun c =>
            { c with node := node, ip := ip, alive := alive, next := front t }).free x.addr := by
  have next := h.deref_eq (a := a ++ [e]) (x := x) (t := t) (by simp)
  unfold remove_datanode
  rw [h.deref_eq rfl]
  simp only [bind, Except.bind, Entry.cell, front_cons, next, write_write]
  cases strcpy e.nodeSize x.node with
  | error fault => rfl
  | ok node =>
    dsimp only
    cases strcpy e.ipSize x.ip with
    | error fault => rfl
    | ok ip =>
      have read : (s.write e.addr fun c => { c with node := node, ip := ip }).nextAlive
          (s.write e.addr fun c => { c with node := node, ip := ip }).dlist = s.nextAlive s.dlist :=
        nextAlive_write fun c => ⟨rfl, rfl⟩
      dsimp only
      rw [read]
      cases s.nextAlive s.dlist <;> rfl

theorem strcpy_eq_ok {size : ℕ} {src copy : List Byte} :
    strcpy size src = .ok copy ↔ src.length < size ∧ src = copy := by
  unfold strcpy
  split_ifs with fits
  · simp [fits]
  · simp [fits]

/-- The call returns when both strings fit and the cursor can be followed. -/
theorem Holds.remove_ok_iff (h : Holds s (a ++ e :: x :: t)) :
    s.remove_datanode e.addr = .ok s' ↔ x.node.length < e.nodeSize ∧ x.ip.length < e.ipSize ∧
      ∃ alive, s.nextAlive s.dlist = .ok alive ∧
        (s.write e.addr fun c =>
          { c with node := x.node, ip := x.ip, alive := alive, next := front t }).free x.addr =
            s' := by
  rw [h.remove_eq]
  simp only [bind_eq_ok, map_eq_ok, strcpy_eq_ok]
  constructor
  · rintro ⟨_, ⟨node, rfl⟩, _, ⟨ip, rfl⟩, removed⟩
    exact ⟨node, ip, removed⟩
  · rintro ⟨node, ip, removed⟩
    exact ⟨_, ⟨node, rfl⟩, _, ⟨ip, rfl⟩, removed⟩

/-- Then the memory holds the list with the entry behind moved up, under the flag that was read. -/
theorem Holds.removed (h : Holds s (a ++ e :: x :: t)) (node : x.node.length < e.nodeSize)
    (ip : x.ip.length < e.ipSize) (alive : ℤ) :
    Holds ((s.write e.addr fun c =>
        { c with node := x.node, ip := x.ip, alive := alive, next := front t }).free x.addr)
      (a ++ { e with node := x.node, ip := x.ip, alive := alive } :: t) := by
  have other : e.addr ≠ x.addr := h.addr_ne (a := a ++ [e]) (t := t) (by simp) (by simp)
  apply Holds.replace (u := [x]) (t := t)
    (y := { e with node := x.node, ip := x.ip, alive := alive }) h rfl ⟨node, ip⟩
  · refine (Function.update_of_ne other _ _).trans ?_
    refine (Function.update_self e.addr _ _).trans ?_
    rw [h.cell_eq rfl]
    rfl
  · intro z hz
    have hz' : z ∈ a ++ x :: t := by
      simp only [List.mem_append, List.mem_cons] at hz ⊢
      tauto
    have hz'' : z ∈ (a ++ [e]) ++ t := by
      simp only [List.mem_append, List.mem_singleton] at hz ⊢
      tauto
    refine (Function.update_of_ne (h.addr_ne (a := a ++ [e]) (t := t) (by simp) hz'') _ _).trans ?_
    exact Function.update_of_ne (h.addr_ne rfl hz') _ _
  · rfl
  · intro b beyond
    have used := h.addr_lt (x := e) (by simp)
    have used' := h.addr_lt (x := x) (by simp)
    have : s.brk ≤ b := beyond
    refine (Function.update_of_ne (by omega) _ _).trans ?_
    exact (Function.update_of_ne (by omega) _ _).trans (h.fresh b beyond)

/-! ## What can be reached -/

/-- Only entries can be reached. -/
theorem Sound.mem_of_reachable (sound : Sound s l) (h : Reachable s i) : ∃ x ∈ l, x.addr = i := by
  induction h with
  | first h =>
    rw [sound.first] at h
    cases l with
    | nil => cases h
    | cons x t => exact ⟨x, List.mem_cons_self, Option.some.inj h⟩
  | cursor h =>
    rcases sound.cursor with null | ⟨x, hx, cursor⟩
    · rw [null] at h
      cases h
    · rw [cursor] at h
      exact ⟨x, hx, Option.some.inj h⟩
  | next _ cell link ih =>
    obtain ⟨x, hx, rfl⟩ := ih
    obtain ⟨a, t, hl⟩ := List.append_of_mem hx
    rw [sound.cell_eq hl] at cell
    cases cell
    cases t with
    | nil => cases link
    | cons y t => exact ⟨y, by simp [hl], Option.some.inj link⟩

theorem Sound.leaves (sound : Sound s l) : Leaves s (l.map Entry.value) where
  list := ⟨l, sound.stored, sound.first, rfl⟩
  live i reached := by
    obtain ⟨x, hx, rfl⟩ := sound.mem_of_reachable reached
    obtain ⟨a, t, hl⟩ := List.append_of_mem hx
    rw [sound.cell_eq hl]
    exact Option.some_ne_none _

/-- A pointer at the end of a chain can be reached when the beginning of the chain can be. -/
theorem reachable_behind {p q : Option ℕ} (stored : Stored Entry.addr Entry.cell s.cells p l q)
    (front : ∀ i, first Entry.addr l q = some i → Reachable s i) :
    ∀ i, q = some i → Reachable s i := by
  induction l generalizing p with
  | nil => exact front
  | cons x l ih =>
    apply ih stored.2
    intro i hi
    exact (front x.addr rfl).next stored.1 hi

/-- The last entry is freed while the pointer to it stays. -/
theorem Holds.remove_last (h : Holds s (a ++ [e])) : ∃ s', s.remove_datanode e.addr = .ok s' ∧
    Reachable s' e.addr ∧ s'.cells e.addr = none := by
  have freed : s.remove_datanode e.addr = .ok (s.free e.addr) := by
    unfold remove_datanode
    rw [h.deref_eq rfl]
    rfl
  refine ⟨_, freed, ?_, Function.update_self e.addr _ _⟩
  have before : Stored Entry.addr Entry.cell (s.free e.addr).cells none a (some e.addr) := by
    apply (stored_append.1 h.stored).1.frame
    intro z hz
    exact Function.update_of_ne (h.addr_ne rfl (by simpa using hz)) _ _
  apply reachable_behind before _ e.addr rfl
  intro i hi
  apply Reachable.first
  rw [← hi, ← front_cons (x := e) (l := []), ← first_append]
  exact h.first

/-- The memory determines the list. -/
theorem Holds.eq_of_leaves {values : List Datanode} (h : Holds s l) (leaves : Leaves s values) :
    l.map Entry.value = values := by
  obtain ⟨m, stored, first, rfl⟩ := leaves.list
  rw [Stored.unique Entry.cell_inj h.stored stored (h.first.symm.trans first)]

/-! ## When the removal is right -/

/-- The list after a removal is the old one with the next entry in the place of the one removed. -/
theorem Sound.removed (sound : Sound s (a ++ e :: x :: t))
    (ok : Replaceable s (a ++ e :: x :: t) e x) :
    ∃ s', s.remove_datanode e.addr = .ok s' ∧
      Sound s' (a ++ { e with node := x.node, ip := x.ip, alive := x.alive } :: t) := by
  refine ⟨_, sound.remove_ok_iff.2 ⟨ok.node, ok.ip, x.alive, sound.nextAlive_iff.2 ok.flag, rfl⟩,
    sound.toHolds.removed ok.node ok.ip x.alive, ?_⟩
  rcases sound.cursor with null | ⟨c, hc, cursor⟩
  · exact Or.inl null
  · right
    simp only [List.mem_append, List.mem_cons] at hc
    rcases hc with hc | rfl | rfl | hc
    · exact ⟨c, by simp [hc], cursor⟩
    · exact ⟨_, List.mem_append_right a List.mem_cons_self, cursor⟩
    · exact absurd cursor ok.apart
    · exact ⟨c, by simp [hc], cursor⟩

theorem Sound.removes_of_replaceable (sound : Sound s (a ++ e :: x :: t))
    (ok : Replaceable s (a ++ e :: x :: t) e x) :
    ∃ s', s.remove_datanode e.addr = .ok s' ∧ Leaves s' ((a ++ x :: t).map Entry.value) := by
  obtain ⟨s', removed, sound'⟩ := sound.removed ok
  refine ⟨s', removed, ?_⟩
  have leaves := sound'.leaves
  rw [List.map_append, List.map_cons] at leaves ⊢
  exact leaves

/-- What a call that removed the entry found: the flag must have come from the right place, and the
cursor may not be left at the freed cell. -/
theorem Sound.replaceable_of_removes (sound : Sound s (a ++ e :: t))
    (removed : s.remove_datanode e.addr = .ok s') (leaves : Leaves s' ((a ++ t).map Entry.value)) :
    ∃ x u, t = x :: u ∧ Replaceable s (a ++ e :: t) e x := by
  cases t with
  | nil =>
    obtain ⟨s₁, removed₁, reached, freed⟩ := sound.remove_last
    rw [removed] at removed₁
    cases removed₁
    exact absurd freed (leaves.live e.addr reached)
  | cons x u =>
    obtain ⟨node, ip, alive, read, rfl⟩ := sound.remove_ok_iff.1 removed
    have values := (sound.toHolds.removed node ip alive).eq_of_leaves leaves
    have flag : alive = x.alive := by
      simp only [List.map_append, List.map_cons, List.append_cancel_left_eq, List.cons.injEq,
        and_true] at values
      exact congrArg Datanode.alive values
    refine ⟨x, u, rfl, node, ip, sound.nextAlive_iff.1 (flag ▸ read), fun cursor => ?_⟩
    exact leaves.live x.addr (.cursor cursor) (Function.update_self x.addr _ _)

/-- `remove_datanode` removes exactly the entry it is given if and only if that entry is not the
last one, the strings of the entry behind it fit its blocks, and the cursor is at an entry before the
last whose next one has the flag of the entry behind it, but not at that entry itself. -/
theorem remove_datanode_iff (sound : Sound s (a ++ e :: t)) :
    (∃ s', s.remove_datanode e.addr = .ok s' ∧ Leaves s' ((a ++ t).map Entry.value)) ↔
      ∃ x u, t = x :: u ∧ Replaceable s (a ++ e :: t) e x := by
  constructor
  · rintro ⟨s', removed, leaves⟩
    exact sound.replaceable_of_removes removed leaves
  · rintro ⟨x, u, rfl, ok⟩
    exact sound.removes_of_replaceable ok

/-- The data node that reports first. -/
def firstNode : Entry := newEntry (str "d1") (str "10.0.0.1") 1 0

/-- The data node that reports next. -/
def secondNode : Entry := newEntry (str "d2") (str "10.0.0.2") 0 1

/-- The memory after both have reported and the first has been looked up. -/
def twoNodes : NodeHeap where
  cells
    | 0 => some (firstNode.cell none (some 1))
    | 1 => some (secondNode.cell none none)
    | _ => none
  brk := 2
  firstdlist := some 0
  dlist := some 0
  config := text [firstNode.value, secondNode.value]

theorem twoNodes_sound : twoNodes.Sound [firstNode, secondNode] where
  stored := ⟨rfl, rfl, trivial⟩
  first := rfl
  nodup := by decide
  fresh i beyond := by
    match i, beyond with
    | i + 2, _ => rfl
  fits x hx := by
    simp only [List.mem_cons, List.not_mem_nil, or_false] at hx
    rcases hx with rfl | rfl <;> exact (newEntry_tight _ _ _ _).fits
  cursor := Or.inr ⟨firstNode, List.mem_cons_self, rfl⟩

theorem remove_datanode_first : ∃ s', twoNodes.remove_datanode 0 = .ok s' ∧
    Leaves s' [secondNode.value] :=
  (remove_datanode_iff (a := []) (e := firstNode) twoNodes_sound).2
    ⟨secondNode, [], rfl, by decide, by decide,
      ⟨[], firstNode, secondNode, [], rfl, rfl, rfl⟩, by decide⟩

/-- The last node of a list is not removed from it. -/
theorem remove_datanode_last : ¬ ∀ (s : NodeHeap) (a t : List Entry) (e : Entry),
    Sound s (a ++ e :: t) →
      ∃ s', s.remove_datanode e.addr = .ok s' ∧ Leaves s' ((a ++ t).map Entry.value) := by
  intro removes
  have sound : twoNodes.Sound ([firstNode] ++ [secondNode]) := twoNodes_sound
  obtain ⟨s', removed, leaves⟩ := removes twoNodes [firstNode] [] secondNode sound
  obtain ⟨x, u, rest, -⟩ := sound.replaceable_of_removes removed leaves
  cases rest

/-! ## Where the cursor is when the program calls -/

/-- Every insertion leaves a null cursor, and then the flag cannot be read. -/
theorem Holds.not_removes_after_insert (h : Holds s l) {name ip : List Byte} {alive : ℤ}
    (returned : s.datanode_insert name ip alive = .ok s') (sound : Sound s' (a ++ e :: t)) :
    ¬ ∃ s'', s'.remove_datanode e.addr = .ok s'' ∧ Leaves s'' ((a ++ t).map Entry.value) := by
  rintro ⟨s'', removed, leaves⟩
  obtain ⟨x, u, rfl, ok⟩ := sound.replaceable_of_removes removed leaves
  rcases h.datanode_insert_refines name ip alive with ⟨s₁, -, enters, -, null, -⟩ | ⟨overflows, -⟩
  · rw [enters] at returned
    cases returned
    obtain ⟨_, c, _, _, _, cursor, _⟩ := ok.flag
    rw [null] at cursor
    cases cursor
  · rw [overflows] at returned
    cases returned

/-- A node that has just been looked up is removed if and only if another one follows it whose name
and address are no longer than its own. -/
theorem Sound.removes_found_iff (sound : Sound s (a ++ e :: t)) (tight : e.Tight)
    (found : s.dlist = some e.addr) :
    (∃ s', s.remove_datanode e.addr = .ok s' ∧ Leaves s' ((a ++ t).map Entry.value)) ↔
      ∃ x u, t = x :: u ∧ x.node.length ≤ e.node.length ∧ x.ip.length ≤ e.ip.length := by
  constructor
  · rintro ⟨s', removed, leaves⟩
    obtain ⟨x, u, rfl, node, ip, -, -⟩ := sound.replaceable_of_removes removed leaves
    rw [tight.node] at node
    rw [tight.ip] at ip
    exact ⟨x, u, rfl, Nat.le_of_lt_succ node, Nat.le_of_lt_succ ip⟩
  · rintro ⟨x, u, rfl, node, ip⟩
    have other : e.addr ≠ x.addr :=
      sound.addr_ne (a := a ++ [e]) (t := u) (by simp) (by simp)
    apply sound.removes_of_replaceable
    refine ⟨?_, ?_, ⟨a, e, x, u, rfl, found, rfl⟩, ?_⟩
    · rw [tight.node]
      omega
    · rw [tight.ip]
      omega
    · rw [found]
      intro same
      exact other (Option.some.inj same)

/-- So it is after any calls from an empty list. -/
theorem run_removes_found_iff {calls : List Call} (returned : runCalls calls empty = .ok s)
    {name : List Byte} {p : ℕ} (found : s.datanode_search name = .ok (some p, s')) :
    ∃ a e t, Sound s' (a ++ e :: t) ∧ e.addr = p ∧
      ((∃ s'', s'.remove_datanode p = .ok s'' ∧ Leaves s'' ((a ++ t).map Entry.value)) ↔
        ∃ x u, t = x :: u ∧ x.node.length ≤ e.node.length ∧ x.ip.length ≤ e.ip.length) := by
  have none_ : ∀ x ∈ ([] : List Entry), x.Tight := fun x hx => absurd hx List.not_mem_nil
  obtain ⟨l, sound, tight⟩ := runCalls_sound empty_sound none_ returned
  obtain ⟨sound', cursor⟩ := sound.datanode_search_sound found
  rcases sound'.cursor with null | ⟨e, he, here⟩
  · rw [cursor] at null
    cases null
  · obtain ⟨a, t, rfl⟩ := List.append_of_mem he
    have address : e.addr = p := Option.some.inj (here.symm.trans cursor)
    refine ⟨a, e, t, sound', address, ?_⟩
    rw [← address]
    exact sound'.removes_found_iff (tight e he) here

end DistFs.Registry.NodeHeap
