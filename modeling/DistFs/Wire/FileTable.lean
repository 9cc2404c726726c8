import DistFs.Wire.Spellings

/-!
# The file table in memory

`filenode_insert` allocates a cell for a new entry and never sets its `next`.  The loops over the
table read the field of the last cell all the same: `filelist_display` at the end of the very call
that made the cell, and then every other loop.  Here memory fresh from `malloc` is arbitrary, and
every loop leaves a record of the cells that it comes to.
-/

namespace DistFs.Wire

open CText

/-- `struct _filelist`.  An address is the number of cells that were allocated before. -/
structure Cell extends Filelist where
  next : Option ℕ

/-- The cells that `malloc` has returned and `firstsfile`, with a record of the cells whose `next`
the program has set. -/
structure FileTable where
  cells : List Cell
  firstsfile : Option ℕ
  assigned : List ℕ

/-- How a loop comes to an end: at a null pointer, at the cell that it looks for, at an address that
is no cell, or not at all. -/
inductive Halt where
  | null
  | found (a : ℕ)
  | wild
  | endless
deriving DecidableEq

/-- The addresses that a loop comes to, up to a cell at which it stops.  A loop that comes to more
cells than there are goes round for ever. -/
def loop (cells : List Cell) (stop : Cell → Bool) : ℕ → Option ℕ → List ℕ × Halt
  | _, none => ([], .null)
  | 0, some _ => ([], .endless)
  | fuel + 1, some a =>
      match cells[a]? with
      | none => ([a], .wild)
      | some c =>
          if stop c then ([a], .found a)
          else
            let rest := loop cells stop fuel c.next
            (a :: rest.1, rest.2)

/-- A walk of a table with so many entries. -/
structure Walk where
  table : FileTable
  entries : ℕ
  visited : List ℕ
  halt : Halt

/-- The walk follows pointers that the program has set, comes to the entries in the order in which
they were made, and ends: behind the last one if not before. -/
structure Walk.Proper (w : Walk) : Prop where
  set : w.visited.IsChain fun a _ => a ∈ w.table.assigned
  order : w.visited <+: List.range w.entries
  ends : w.halt = .null ∨ ∃ a, w.halt = .found a
  whole : w.halt = .null → w.visited = List.range w.entries

namespace FileTable

/-- A walk over the table of the entries made so far, up to one that `stop` holds of. -/
def walk (m : FileTable) (entries : ℕ) (stop : Cell → Bool) : Walk :=
  let found := loop m.cells stop (m.cells.length + 1) m.firstsfile
  ⟨m, entries, found.1, found.2⟩

/-- `filelist_search`: the walk to an entry with the name. -/
def filelist_search (name : List Byte) (m : FileTable) : Walk :=
  m.walk m.cells.length fun c => c.named name

/-- `filelist_display`: the walk over the whole table. -/
def filelist_display (m : FileTable) : Walk := m.walk m.cells.length fun _ => false

/-- The end of a call: `filelist_display`. -/
def shown (walks : List Walk) : Option FileTable → List Walk × Option FileTable
  | none => (walks, none)
  | some m =>
      let w := m.filelist_display
      (walks ++ [w], if w.halt = .null then some m else none)

/-- `malloc`: one more cell. -/
def malloc (c : Cell) (m : FileTable) : FileTable := { m with cells := m.cells ++ [c] }

/-- The `next` of the cell at `a` is set. -/
def setNext (a b : ℕ) (m : FileTable) : FileTable :=
  { m with
    cells := m.cells.modify a fun c => { c with next := some b }
    assigned := a :: m.assigned }

/-- The cell at `p` becomes the first, or it is put behind the last one that the loop comes to. -/
def append (p : ℕ) (m : FileTable) : List Walk × Option FileTable :=
  match m.firstsfile with
  | none => ([], some { m with firstsfile := some p })
  | some _ =>
      let w := m.walk p fun _ => false
      match w.halt, w.visited.getLast? with
      | .null, some last => ([w], some (m.setNext last p))
      | _, _ => ([w], none)

/-- A block with `name`, `rep`, and the first slot filled in; the rest is as `malloc` returned it. -/
def newCell (block : Cell) (name dn : List Byte) : Cell :=
  ⟨Filelist.present ⟨name, fun _ => 0, block.replica⟩ 0 dn, block.next⟩

/-- A slot of the cell at `a` is filled in. -/
def present (a : ℕ) (i : Fin 50) (dn : List Byte) (m : FileTable) : FileTable :=
  { m with cells := m.cells.modify a fun c => ⟨c.toFilelist.present i dn, c.next⟩ }

/-- `filenode_insert`: its walks, and the table when it returns.  `fresh` is what `malloc` returns
for each address. -/
def filenode_insert (fresh : ℕ → Cell) (name dn : List Byte) (m : FileTable) :
    List Walk × Option FileTable :=
  let search := m.filelist_search name
  match search.halt with
  | .null =>
      if 100 ≤ name.length ∨ 100 ≤ dn.length then ([search], none)
      else
        let p := m.cells.length
        let linked := (m.malloc (newCell (fresh p) name dn)).append p
        shown (search :: linked.1) linked.2
  | .found a =>
      match m.cells[a]?.bind fun c => getRepcreatenum c.toFilelist with
      | none => ([search], none)
      | some i =>
          if 100 ≤ dn.length then ([search], none)
          else shown [search] (some (m.present a i dn))
  | _ => ([search], none)

end FileTable

/-- A call of `filenode_insert` or `filelist_search`. -/
inductive TableCall where
  | insert (name dn : List Byte)
  | search (name : List Byte)

namespace TableCall

/-- The walks of a call, and the table when it returns. -/
def run (fresh : ℕ → Cell) (m : FileTable) : TableCall → List Walk × Option FileTable
  | insert name dn => m.filenode_insert fresh name dn
  | search name =>
      let w := m.filelist_search name
      ([w], if w.halt = .wild ∨ w.halt = .endless then none else some m)

/-- The call makes an entry. -/
def Creates (m : FileTable) : TableCall → Prop
  | insert name dn => (∀ c ∈ m.cells, c.named name = false) ∧ name.length < 100 ∧ dn.length < 100
  | search _ => False

end TableCall

/-- The walks of a sequence of calls. -/
def walksFrom (fresh : ℕ → Cell) : FileTable → List TableCall → List Walk
  | _, [] => []
  | m, call :: rest =>
      let ran := call.run fresh m
      ran.1 ++
        match ran.2 with
        | none => []
        | some m => walksFrom fresh m rest

/-- Whenever a call makes an entry, `next` is null in the memory that it gets. -/
def NullFrom (fresh : ℕ → Cell) : FileTable → List TableCall → Prop
  | _, [] => True
  | m, call :: rest =>
      (call.Creates m → (fresh m.cells.length).next = none) ∧
        ∀ m', (call.run fresh m).2 = some m' → NullFrom fresh m' rest

/-- The table of a name node that has just started. -/
def FileTable.empty : FileTable := ⟨[], none, []⟩

/-! ## Linked cells -/

/-- The entry `i` of `n`, or null behind the last. -/
def cursor (n i : ℕ) : Option ℕ := if i < n then some i else none

/-- The first `n` cells are the table, by pointers that the program has set. -/
structure Linked (m : FileTable) (n : ℕ) : Prop where
  first : m.firstsfile = cursor n 0
  next : ∀ i < n, ∃ c, m.cells[i]? = some c ∧ c.next = cursor n (i + 1)
  assigned : ∀ i, i + 1 < n → i ∈ m.assigned

/-- All cells are linked but for the `next` of the last, which is as `malloc` left it. -/
structure Attached (m : FileTable) (p : ℕ) (c : Cell) : Prop where
  length : m.cells.length = p + 1
  first : m.firstsfile = some 0
  next : ∀ i < p, ∃ d, m.cells[i]? = some d ∧ d.next = some (i + 1)
  last : m.cells[p]? = some c
  assigned : ∀ i < p, i ∈ m.assigned

/-- What a loop over the entries from `i` comes to. -/
inductive Scans (cells : List Cell) (stop : Cell → Bool) (i n : ℕ) : List ℕ × Halt → Prop where
  | all (other : ∀ j c, i ≤ j → j < n → cells[j]? = some c → stop c = false) :
      Scans cells stop i n (List.range' i (n - i), .null)
  | found {a : ℕ} {c : Cell} (from_ : i ≤ a) (before : a < n) (cell : cells[a]? = some c)
      (here : stop c = true)
      (other : ∀ j d, i ≤ j → j < a → cells[j]? = some d → stop d = false) :
      Scans cells stop i n (List.range' i (a + 1 - i), .found a)

section Loops

variable {m m' : FileTable} {cells : List Cell} {stop : Cell → Bool} {n i p a fuel : ℕ} {c : Cell}

theorem setNext_cell {b : ℕ} (cell : m.cells[a]? = some c) :
    (m.setNext a b).cells[a]? = some { c with next := some b } := by
  simp [FileTable.setNext, cell]

theorem setNext_other {b : ℕ} (other : a ≠ i) : (m.setNext a b).cells[i]? = m.cells[i]? := by
  simp [FileTable.setNext, other]

theorem setNext_files (m : FileTable) (a b : ℕ) :
    (m.setNext a b).cells.map Cell.toFilelist = m.cells.map Cell.toFilelist := by
  apply List.ext_getElem?
  intro i
  simp only [FileTable.setNext, List.getElem?_map, List.getElem?_modify]
  cases m.cells[i]? with
  | none => rfl
  | some d =>
    simp only [Option.map_some]
    split_ifs <;> rfl

theorem loop_zero (cells : List Cell) (stop : Cell → Bool) (r : Option ℕ) :
    (loop cells stop 0 r).1 = [] := by
  cases r <;> rfl

theorem cursor_of_lt (lt : i < n) : cursor n i = some i := if_pos lt

theorem cursor_of_le (le : n ≤ i) : cursor n i = none := if_neg (not_lt.2 le)

/-- A loop over linked cells. -/
theorem loop_scans (next : ∀ i < n, ∃ c, cells[i]? = some c ∧ c.next = cursor n (i + 1))
    (le : i ≤ n) (enough : n - i ≤ fuel) :
    Scans cells stop i n (loop cells stop fuel (cursor n i)) := by
  induction fuel generalizing i with
  | zero =>
    obtain rfl : i = n := by omega
    rw [cursor_of_le le_rfl, loop]
    simpa using @Scans.all cells stop i i fun j c from_ before => by omega
  | succ fuel ih =>
    rcases le.lt_or_eq with lt | rfl
    · obtain ⟨c, cell, following⟩ := next i lt
      simp only [cursor_of_lt lt, loop, cell, following]
      split_ifs with here
      · have one : i + 1 - i = 1 := by omega
        simpa [one] using @Scans.found cells stop i n i c le_rfl lt cell here
          fun j d from_ before => by omega
      · have unstopped := Bool.eq_false_iff.2 here
        have rest := ih lt (by omega)
        -- the cell at `i` is not the one looked for
        have skip : ∀ {b}, (∀ j d, i + 1 ≤ j → j < b → cells[j]? = some d → stop d = false) →
            ∀ j d, i ≤ j → j < b → cells[j]? = some d → stop d = false := by
          intro b other j d from_ before found
          rcases from_.lt_or_eq with later | rfl
          · exact other j d later before found
          · rw [cell] at found
            obtain rfl := Option.some.inj found
            exact unstopped
        generalize loop cells stop fuel (cursor n (i + 1)) = result at rest
        cases rest with
        | all other =>
          have head : i :: List.range' (i + 1) (n - (i + 1)) = List.range' i (n - i) := by
            rw [show n - i = n - (i + 1) + 1 by omega, List.range'_succ]
          simp only [head]
          exact .all (skip other)
        | @found a d from_ before cell' here' other =>
          have head : i :: List.range' (i + 1) (a + 1 - (i + 1)) = List.range' i (a + 1 - i) := by
            rw [show a + 1 - i = a + 1 - (i + 1) + 1 by omega, List.range'_succ]
          simp only [head]
          exact .found (by omega) before cell' here' (skip other)
    · rw [cursor_of_le le_rfl, loop]
      simpa using @Scans.all cells stop i i fun j c from_ before => by omega

/-- A walk of linked cells comes to all entries, or to those up to the one at which it stops. -/
theorem walk_cases (linked : Linked m n) (le : n ≤ m.cells.length) (stop : Cell → Bool) :
    ((∀ j c, j < n → m.cells[j]? = some c → stop c = false) ∧
      m.walk n stop = ⟨m, n, List.range n, .null⟩) ∨
    ∃ a c, a < n ∧ m.cells[a]? = some c ∧ stop c = true ∧
      (∀ j d, j < a → m.cells[j]? = some d → stop d = false) ∧
      m.walk n stop = ⟨m, n, List.range (a + 1), .found a⟩ := by
  have scans : Scans m.cells stop 0 n (loop m.cells stop (m.cells.length + 1) (cursor n 0)) :=
    loop_scans linked.next (Nat.zero_le n) (by omega)
  rw [FileTable.walk, linked.first]
  generalize loop m.cells stop (m.cells.length + 1) (cursor n 0) = result at scans
  cases scans with
  | all other =>
    refine .inl ⟨fun j c lt cell => other j c (Nat.zero_le j) lt cell, ?_⟩
    rw [List.range_eq_range', Nat.sub_zero]
  | @found a c _ before cell here other =>
    refine .inr ⟨a, c, before, cell, here, fun j d lt => other j d (Nat.zero_le j) lt, ?_⟩
    rw [List.range_eq_range', Nat.sub_zero]

theorem isChain_range {k : ℕ} (assigned : ∀ i, i + 1 < n → i ∈ m.assigned) (le : k ≤ n) :
    (List.range k).IsChain fun a _ => a ∈ m.assigned := by
  rw [List.isChain_iff_getElem]
  intro i lt
  rw [List.getElem_range]
  rw [List.length_range] at lt
  exact assigned i (by omega)

theorem range_prefix {k : ℕ} (le : k ≤ n) : List.range k <+: List.range n := by
  have front := List.take_prefix k (List.range n)
  rwa [List.take_range, min_eq_left le] at front

/-- Every walk of linked cells is proper. -/
theorem walk_proper (linked : Linked m n) (le : n ≤ m.cells.length) (stop : Cell → Bool) :
    (m.walk n stop).Proper := by
  rcases walk_cases linked le stop with ⟨-, same⟩ | ⟨a, c, before, -, -, -, same⟩
  · rw [same]
    exact ⟨isChain_range linked.assigned le_rfl, List.prefix_rfl, .inl rfl, fun _ => rfl⟩
  · rw [same]
    refine ⟨isChain_range linked.assigned before, range_prefix before, .inr ⟨a, rfl⟩, ?_⟩
    intro null
    cases null

/-- The loop that stops nowhere comes to all entries. -/
theorem walk_all (linked : Linked m n) (le : n ≤ m.cells.length) :
    m.walk n (fun _ => false) = ⟨m, n, List.range n, .null⟩ := by
  rcases walk_cases linked le fun _ => false with ⟨-, same⟩ | ⟨a, c, -, -, here, -⟩
  · exact same
  · cases here

/-! ## A new cell -/

theorem getLast?_range (pos : 0 < p) : (List.range p).getLast? = some (p - 1) := by
  obtain ⟨k, rfl⟩ := Nat.exists_eq_succ_of_ne_zero pos.ne'
  rw [List.range_succ, List.getLast?_concat]
  rfl

/-- The loop in front of the assignment finds the last entry, and the cell at `p` comes behind it. -/
theorem append_attached (linked : Linked m p) (length : m.cells.length = p + 1)
    (last : m.cells[p]? = some c) :
    ∃ walks m', m.append p = (walks, some m') ∧ (∀ w ∈ walks, w.Proper) ∧ Attached m' p c ∧
      m'.cells.map Cell.toFilelist = m.cells.map Cell.toFilelist := by
  rcases Nat.eq_zero_or_pos p with rfl | pos
  · have empty : m.firstsfile = none := linked.first
    refine ⟨[], { m with firstsfile := some 0 }, ?_, by simp, ?_, rfl⟩
    · rw [FileTable.append, empty]
    · exact ⟨length, rfl, fun i lt => absurd lt (Nat.not_lt_zero i), last,
        fun i lt => absurd lt (Nat.not_lt_zero i)⟩
  · have nonempty : m.firstsfile = some 0 := linked.first.trans (cursor_of_lt pos)
    have le : p ≤ m.cells.length := by omega
    have proper := walk_proper linked le fun _ => false
    refine ⟨[m.walk p fun _ => false], m.setNext (p - 1) p, ?_, by simpa using proper, ?_, ?_⟩
    · simp only [FileTable.append, nonempty, walk_all linked le, getLast?_range pos]
    · constructor
      · simpa [FileTable.setNext] using length
      · exact nonempty
      · intro i lt
        obtain ⟨d, cell, next⟩ := linked.next i lt
        by_cases here : p - 1 = i
        · subst here
          exact ⟨{ d with next := some p }, setNext_cell cell, congrArg some (by omega)⟩
        · refine ⟨d, ?_, next.trans (cursor_of_lt (by omega))⟩
          rw [setNext_other here, cell]
      · have other : p - 1 ≠ p := by omega
        rw [setNext_other other, last]
      · intro i lt
        by_cases here : i + 1 < p
        · exact List.mem_cons_of_mem _ (linked.assigned i here)
        · obtain rfl : i = p - 1 := by omega
          exact List.mem_cons_self
    · exact setNext_files m (p - 1) p

/-- With null in its `next` the new cell ends the table. -/
theorem Attached.linked (attached : Attached m p c) (null : c.next = none) : Linked m (p + 1) := by
  constructor
  · rw [attached.first, cursor_of_lt p.succ_pos]
  · intro i lt
    rcases Nat.lt_succ_iff_lt_or_eq.1 lt with before | rfl
    · obtain ⟨d, cell, next⟩ := attached.next i before
      exact ⟨d, cell, next.trans (cursor_of_lt (by omega)).symm⟩
    · exact ⟨c, attached.last, null.trans (cursor_of_le le_rfl).symm⟩
  · intro i lt
    exact attached.assigned i (by omega)

theorem loop_through (next : ∀ i < p, ∃ d, cells[i]? = some d ∧ d.next = some (i + 1))
    (le : i ≤ p) :
    (loop cells (fun _ => false) (p - i + fuel) (some i)).1.length =
      p - i + (loop cells (fun _ => false) fuel (some p)).1.length := by
  obtain ⟨k, rfl⟩ := Nat.exists_eq_add_of_le le
  rw [Nat.add_sub_cancel_left]
  induction k generalizing i with
  | zero => simp
  | succ k ih =>
    obtain ⟨d, cell, following⟩ := next i (by omega)
    have rest := @ih (i + 1) (by rwa [show i + 1 + k = i + (k + 1) by omega]) (by omega)
    rw [show i + 1 + k = i + (k + 1) by omega] at rest
    rw [show k + 1 + fuel = k + fuel + 1 by omega, loop]
    simp only [cell, following, Bool.false_eq_true, if_false, List.length_cons, rest]
    omega

/-- With anything else in it `filelist_display` goes on behind the last entry. -/
theorem Attached.improper {b : ℕ} (attached : Attached m p c) (junk : c.next = some b) :
    ¬ m.filelist_display.Proper := by
  intro proper
  have short := proper.order.length_le
  have through := @loop_through m.cells 0 p 2 attached.next (Nat.zero_le p)
  have beyond : (loop m.cells (fun _ => false) 2 (some p)).1.length = 2 := by
    simp only [loop, attached.last, junk, Bool.false_eq_true, if_false, List.length_cons]
    cases m.cells[b]? with
    | none => rfl
    | some d => simp only [loop_zero, List.length_cons, List.length_nil]
  have visited : m.filelist_display.visited.length = p + 2 := by
    rw [FileTable.filelist_display, FileTable.walk, attached.first, attached.length]
    rw [beyond, Nat.sub_zero] at through
    exact through
  rw [visited, List.length_range] at short
  have entries : m.filelist_display.entries = p + 1 := attached.length
  omega

end Loops

/-! ## One call -/

/-- The table holds all cells. -/
def Chained (m : FileTable) : Prop := Linked m m.cells.length

/-- Where `filelist_search` finds a name. -/
structure FoundAt (m : FileTable) (name : List Byte) (a : ℕ) (c : Cell) : Prop where
  cell : m.cells[a]? = some c
  named : c.named name = true
  first : ∀ j d, j < a → m.cells[j]? = some d → d.named name = false

/-- What `filenode_insert` does: it faults, takes a slot in an entry, or makes an entry. -/
inductive Inserts (m : FileTable) (name dn : List Byte) (block : Cell) :
    List Walk × Option FileTable → Prop where
  | long (absent : ∀ c ∈ m.cells, c.named name = false)
      (wide : 100 ≤ name.length ∨ 100 ≤ dn.length) :
      Inserts m name dn block ([m.filelist_search name], none)
  | full {a : ℕ} {c : Cell} (found : FoundAt m name a c)
      (stuck : getRepcreatenum c.toFilelist = none ∨ 100 ≤ dn.length) :
      Inserts m name dn block ([m.filelist_search name], none)
  | more {a : ℕ} {c : Cell} {i : Fin 50} (found : FoundAt m name a c)
      (free : getRepcreatenum c.toFilelist = some i) (short : dn.length < 100) :
      Inserts m name dn block
        ([m.filelist_search name, (m.present a i dn).filelist_display], some (m.present a i dn))
  | new {walks : List Walk} {m' : FileTable} (creates : (TableCall.insert name dn).Creates m)
      (proper : ∀ w ∈ walks, w.Proper)
      (attached : Attached m' m.cells.length (FileTable.newCell block name dn))
      (files : m'.cells.map Cell.toFilelist =
        m.cells.map Cell.toFilelist ++ [(FileTable.newCell block name dn).toFilelist]) :
      Inserts m name dn block (m.filelist_search name :: walks ++ [m'.filelist_display],
        if m'.filelist_display.halt = .null then some m' else none)

section Calls

variable {m m' : FileTable} {name dn : List Byte} {c block : Cell} {fresh : ℕ → Cell} {a n : ℕ}
  {i : Fin 50} {call : TableCall} {nodes : Registry.NodeList}

theorem FoundAt.not_creates (found : FoundAt m name a c) :
    ¬ (TableCall.insert name dn).Creates m := by
  rintro ⟨absent, -⟩
  have other := absent c (List.mem_of_getElem? found.cell)
  rw [found.named] at other
  cases other

theorem Linked.present (linked : Linked m n) (a : ℕ) (i : Fin 50) (dn : List Byte) :
    Linked (m.present a i dn) n := by
  refine ⟨linked.first, fun j lt => ?_, linked.assigned⟩
  obtain ⟨d, cell, next⟩ := linked.next j lt
  by_cases here : a = j
  · subst here
    exact ⟨⟨d.toFilelist.present i dn, d.next⟩, by simp [FileTable.present, cell], next⟩
  · exact ⟨d, by simp [FileTable.present, here, cell], next⟩

theorem Chained.present (chained : Chained m) (a : ℕ) (i : Fin 50) (dn : List Byte) :
    Chained (m.present a i dn) := by
  have length : (m.present a i dn).cells.length = m.cells.length := by simp [FileTable.present]
  rw [Chained, length]
  exact Linked.present chained a i dn

/-- A cell from `malloc` is behind the table. -/
theorem Chained.malloc (chained : Chained m) (c : Cell) : Linked (m.malloc c) m.cells.length := by
  refine ⟨chained.first, fun i lt => ?_, chained.assigned⟩
  obtain ⟨d, cell, next⟩ := chained.next i lt
  refine ⟨d, ?_, next⟩
  rw [FileTable.malloc, List.getElem?_append_left lt, cell]

theorem display_chained (chained : Chained m) : m.filelist_display.Proper ∧
    m.filelist_display.halt = .null := by
  refine ⟨walk_proper chained le_rfl _, ?_⟩
  rw [FileTable.filelist_display, walk_all chained le_rfl]

theorem filenode_insert_inserts (chained : Chained m) (fresh : ℕ → Cell) (name dn : List Byte) :
    Inserts m name dn (fresh m.cells.length) (m.filenode_insert fresh name dn) := by
  rw [FileTable.filenode_insert]
  rcases walk_cases chained le_rfl fun c => c.named name with
    ⟨absent, searched⟩ | ⟨a, c, lt, cell, named, first, searched⟩
  · have halt : (m.filelist_search name).halt = .null := by
      rw [FileTable.filelist_search, searched]
    have missing : ∀ c ∈ m.cells, c.named name = false := by
      intro c mem
      obtain ⟨j, lt, rfl⟩ := List.getElem_of_mem mem
      exact absent j _ lt (List.getElem?_eq_getElem lt)
    simp only [halt]
    split_ifs with wide
    · exact .long missing wide
    · rw [not_or, not_le, not_le] at wide
      set c := FileTable.newCell (fresh m.cells.length) name dn with made
      have length : (m.malloc c).cells.length = m.cells.length + 1 := by simp [FileTable.malloc]
      have last : (m.malloc c).cells[m.cells.length]? = some c := by simp [FileTable.malloc]
      obtain ⟨walks, m', appended, proper, attached, files⟩ :=
        append_attached (chained.malloc c) length last
      simp only [appended, FileTable.shown]
      apply Inserts.new ⟨missing, wide⟩ proper attached
      rw [files, FileTable.malloc, List.map_append]
      rfl
  · have halt : (m.filelist_search name).halt = .found a := by
      rw [FileTable.filelist_search, searched]
    have found : FoundAt m name a c := ⟨cell, named, first⟩
    simp only [halt, cell, Option.bind_some]
    cases free : getRepcreatenum c.toFilelist with
    | none => exact .full found (.inl free)
    | some i =>
      simp only
      split_ifs with long
      · exact .full found (.inr long)
      · simp only [FileTable.shown, (display_chained (chained.present a i dn)).2, if_true]
        exact .more found free (not_le.1 long)

theorem Attached.chained (attached : Attached m n c) (null : c.next = none) : Chained m := by
  rw [Chained, attached.length]
  exact attached.linked null

/-- The walks of a call are proper exactly if a new entry gets memory with null in its `next`. -/
theorem insert_proper (chained : Chained m) (fresh : ℕ → Cell) (name dn : List Byte) :
    (∀ w ∈ (m.filenode_insert fresh name dn).1, w.Proper) ↔
      ((TableCall.insert name dn).Creates m → (fresh m.cells.length).next = none) := by
  have search : (m.filelist_search name).Proper := walk_proper chained le_rfl _
  have inserts := filenode_insert_inserts chained fresh name dn
  generalize m.filenode_insert fresh name dn = result at inserts
  cases inserts with
  | long absent wide =>
    refine ⟨fun _ creates => absurd creates.2 ?_, fun _ => by simpa using search⟩
    omega
  | full found =>
    exact ⟨fun _ creates => absurd creates found.not_creates, fun _ => by simpa using search⟩
  | @more a c i found =>
    have display := (display_chained (chained.present a i dn)).1
    exact ⟨fun _ creates => absurd creates found.not_creates, fun _ => by simp [search, display]⟩
  | @new walks m' creates proper attached =>
    constructor
    · intro all _
      by_contra junk
      obtain ⟨b, same⟩ := Option.ne_none_iff_exists'.1 junk
      exact attached.improper same (all _ (by simp))
    · intro null w mem
      rw [List.mem_append, List.mem_cons, List.mem_singleton] at mem
      rcases mem with (rfl | mem) | rfl
      · exact search
      · exact proper w mem
      · exact (display_chained (attached.chained (null creates))).1

theorem insert_chained (chained : Chained m)
    (null : (TableCall.insert name dn).Creates m → (fresh m.cells.length).next = none)
    (returned : (m.filenode_insert fresh name dn).2 = some m') : Chained m' := by
  have inserts := filenode_insert_inserts chained fresh name dn
  generalize m.filenode_insert fresh name dn = result at inserts returned
  cases inserts with
  | long => cases returned
  | full => cases returned
  | @more a c i =>
    cases returned
    exact chained.present a i dn
  | @new walks m₁ creates proper attached =>
    have chained₁ := attached.chained (null creates)
    rw [(display_chained chained₁).2, if_pos rfl] at returned
    cases returned
    exact chained₁

/-! ## The list that the table stands for -/

/-- An entry without what `malloc` left in its free slots. -/
def Filelist.taken (f : Filelist) : Filelist :=
  { f with replica := fun i => if f.rep i = 0 then [] else f.replica i }

/-- The entries that the table stands for. -/
def FileTable.files (m : FileTable) : List Filelist :=
  (m.cells.map Cell.toFilelist).map Filelist.taken

theorem taken_present (f : Filelist) (i : Fin 50) (dn : List Byte) :
    (f.present i dn).taken = f.taken.present i dn := by
  rw [Filelist.taken, Filelist.taken, Filelist.present, Filelist.present, Filelist.mk.injEq]
  refine ⟨rfl, rfl, funext fun j => ?_⟩
  by_cases here : j = i
  · subst here
    simp
  · simp [here]

theorem taken_newCell (block : Cell) (name dn : List Byte) :
    (FileTable.newCell block name dn).taken =
      Filelist.present ⟨name, fun _ => 0, fun _ => []⟩ 0 dn :=
  taken_present ⟨name, fun _ => 0, block.replica⟩ 0 dn

theorem FoundAt.file (found : FoundAt m name a c) : m.files[a]? = some c.taken := by
  simp [FileTable.files, found.cell]

theorem FoundAt.before (found : FoundAt m name a c) :
    ∀ j (h : j < m.files.length), j < a → m.files[j].named name = false := by
  intro j h lt
  simp only [FileTable.files, List.getElem_map]
  exact found.first j _ lt (List.getElem?_eq_getElem _)

theorem FoundAt.search (found : FoundAt m name a c) :
    filelist_search ⟨nodes, m.files⟩ name = some c.taken := by
  obtain ⟨lt, cell⟩ := List.getElem?_eq_some_iff.1 found.file
  rw [filelist_search, List.find?_eq_some_iff_getElem]
  refine ⟨found.named, a, lt, cell, fun j before => ?_⟩
  rw [found.before j (before.trans lt) before]
  rfl

theorem FoundAt.findIdx (found : FoundAt m name a c) :
    m.files.findIdx (Filelist.named name) = a := by
  obtain ⟨lt, cell⟩ := List.getElem?_eq_some_iff.1 found.file
  rw [List.findIdx_eq lt, cell]
  exact ⟨found.named, fun j before => found.before j (before.trans lt) before⟩

theorem present_files (m : FileTable) (a : ℕ) (i : Fin 50) (dn : List Byte) :
    (m.present a i dn).files = m.files.modify a fun f => f.present i dn := by
  apply List.ext_getElem?
  intro j
  simp only [FileTable.files, FileTable.present, List.getElem?_map, List.getElem?_modify]
  cases m.cells[j]? with
  | none => rfl
  | some d =>
    simp only [Option.map_some]
    split_ifs
    · exact congrArg some (taken_present d.toFilelist i dn)
    · rfl

/-- With null in fresh memory the table does what the list does, and returns when the list does. -/
theorem filenode_insert_refines (chained : Chained m)
    (null : (TableCall.insert name dn).Creates m → (fresh m.cells.length).next = none) :
    match (m.filenode_insert fresh name dn).2 with
    | some m' => filenode_insert name dn ⟨nodes, m.files⟩ = .ok ⟨nodes, m'.files⟩
    | none => ∃ e, filenode_insert name dn ⟨nodes, m.files⟩ = .error e := by
  have inserts := filenode_insert_inserts chained fresh name dn
  generalize m.filenode_insert fresh name dn = result at inserts
  have missing : (∀ c ∈ m.cells, c.named name = false) →
      filelist_search ⟨nodes, m.files⟩ name = none := by
    intro absent
    rw [filelist_search, List.find?_eq_none]
    intro f mem
    rw [FileTable.files, List.map_map] at mem
    obtain ⟨c, hc, rfl⟩ := List.mem_map.1 mem
    exact Bool.eq_false_iff.1 (absent c hc)
  cases inserts with
  | long absent wide =>
    refine ⟨.overflow, ?_⟩
    rw [filenode_insert]
    simp only [missing absent]
    split_ifs <;> first | rfl | omega
  | @full a c found stuck =>
    refine ⟨.overflow, ?_⟩
    rw [filenode_insert]
    simp only [found.search]
    split_ifs with long
    · rfl
    · have full : getRepcreatenum c.taken = none := stuck.resolve_right long
      simp only [full]
  | @more a c i found free short =>
    have free : getRepcreatenum c.taken = some i := free
    show filenode_insert name dn ⟨nodes, m.files⟩ = .ok ⟨nodes, (m.present a i dn).files⟩
    rw [filenode_insert, if_neg (not_le.2 short)]
    simp only [found.search, found.findIdx, free, present_files]
  | @new walks m₁ creates proper attached files =>
    have chained₁ := attached.chained (null creates)
    obtain ⟨absent, narrow, short⟩ := creates
    simp only [(display_chained chained₁).2, if_true]
    rw [filenode_insert, if_neg (not_le.2 short)]
    simp only [missing absent, if_neg (not_le.2 narrow)]
    rw [FileTable.files, FileTable.files, files, List.map_append, List.map_singleton, taken_newCell]

/-! ## Runs -/

theorem run_proper (chained : Chained m) (fresh : ℕ → Cell) (call : TableCall) :
    (∀ w ∈ (call.run fresh m).1, w.Proper) ↔
      (call.Creates m → (fresh m.cells.length).next = none) := by
  cases call with
  | insert name dn => exact insert_proper chained fresh name dn
  | search name =>
    have proper : (m.filelist_search name).Proper := walk_proper chained le_rfl _
    exact ⟨fun _ creates => creates.elim, fun _ => by simpa [TableCall.run] using proper⟩

theorem run_chained (chained : Chained m)
    (null : call.Creates m → (fresh m.cells.length).next = none)
    (returned : (call.run fresh m).2 = some m') : Chained m' := by
  cases call with
  | insert name dn => exact insert_chained chained null returned
  | search name =>
    simp only [TableCall.run] at returned
    split_ifs at returned
    cases returned
    exact chained

theorem walks_proper (chained : Chained m) (fresh : ℕ → Cell) (calls : List TableCall) :
    (∀ w ∈ walksFrom fresh m calls, w.Proper) ↔ NullFrom fresh m calls := by
  induction calls generalizing m with
  | nil => simp [walksFrom, NullFrom]
  | cons call rest ih =>
    rw [walksFrom, NullFrom, List.forall_mem_append, run_proper chained]
    refine and_congr_right fun null => ?_
    cases ran : (call.run fresh m).2 with
    | none => simp
    | some m' => simp [ih (run_chained chained null ran)]

theorem chained_empty : Chained .empty :=
  ⟨rfl, fun i lt => absurd lt (Nat.not_lt_zero i), fun _ lt => absurd lt (Nat.not_lt_zero _)⟩

/-- The table behind a sequence of insertions that all return. -/
def tableAfter (fresh : ℕ → Cell) : List (List Byte × List Byte) → FileTable → Option FileTable
  | [], m => some m
  | (name, dn) :: rest, m => (m.filenode_insert fresh name dn).2.bind (tableAfter fresh rest)

/-- In memory that is null the table is the list, over every sequence of insertions. -/
theorem insertAll_refines (null : ∀ a, (fresh a).next = none) (chained : Chained m)
    (calls : List (List Byte × List Byte)) :
    match tableAfter fresh calls m with
    | some m' => insertAll calls ⟨nodes, m.files⟩ = .ok ⟨nodes, m'.files⟩
    | none => ∃ e, insertAll calls ⟨nodes, m.files⟩ = .error e := by
  induction calls generalizing m with
  | nil => rfl
  | cons call rest ih =>
    obtain ⟨name, dn⟩ := call
    have one := @filenode_insert_refines m name dn fresh nodes chained fun _ => null _
    rw [tableAfter, insertAll]
    cases returned : (m.filenode_insert fresh name dn).2 with
    | none =>
      rw [returned] at one
      obtain ⟨e, failed⟩ := one
      exact ⟨e, by rw [failed]; rfl⟩
    | some m₁ =>
      rw [returned] at one
      have more := ih (insert_chained chained (fun _ => null _) returned)
      rw [show filenode_insert name dn ⟨nodes, m.files⟩ = .ok ⟨nodes, m₁.files⟩ from one]
      exact more

end Calls

/-- Every walk of the table is proper, in every sequence of calls and for any contents of fresh
memory, exactly if each new entry gets memory with null in its `next`. -/
theorem tableWalks_iff (fresh : ℕ → Cell) (calls : List TableCall) :
    (∀ w ∈ walksFrom fresh .empty calls, w.Proper) ↔ NullFrom fresh .empty calls :=
  walks_proper chained_empty fresh calls

/-- Fresh memory in which `next` is the address of the block itself. -/
def selfLinked (a : ℕ) : Cell := ⟨⟨[], fun _ => 0, fun _ => []⟩, some a⟩

/-- The first insertion goes round its own entry. -/
theorem selfLinked_endless :
    ¬ ∀ w ∈ walksFrom selfLinked .empty [.insert (str "/f") (str "d")], w.Proper := by
  intro proper
  have null := ((walks_proper chained_empty selfLinked _).1 proper).1
  have creates : (TableCall.insert (str "/f") (str "d")).Creates .empty :=
    ⟨by simp [FileTable.empty], by decide, by decide⟩
  cases null creates

end DistFs.Wire
