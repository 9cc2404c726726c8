import DistFs.Registry.Heap
import DistFs.Runs.Lockstep
import DistFs.Wire.FileTable
import DistFs.Wire.Receivers

/-!
# The lists in memory over a run

All functions that walk the list of data nodes, as they move the global cursor and write into the
cells: `datanode_insert`, which records a replica in the file table as well, `datanode_search`,
`fetch_datanode` and `datanode_sendlist`.  Whatever sequence of them a name node runs, in memory they
return what they return on the lists of `Tables`, and they fail only where those fail: no walk
follows a null pointer, a freed one or one that was never set, and every walk ends.  The file table
has one entry, whose block has to come with null in its `next`.
-/

namespace DistFs.Registry

open CText Links DistFs.Machine

namespace NodeHeap

/-- The loop of `fetch_datanode`: the cell at which the cursor stops when a data node answers. -/
def probeloop (answers : List Byte → Bool) :
    ℕ → NodeHeap → Option ℕ → Except NodeFault (Option ℕ × NodeHeap)
  | 0, _, _ => .error .endless
  | _ + 1, s, none => .ok (none, s)
  | fuel + 1, s, some a => do
      let c ← s.deref (some a)
      if c.alive ≠ 0 then
        if answers c.node = true then return (some a, s)
        else probeloop answers fuel (s.write a fun c => { c with alive := 0 }) c.next
      else probeloop answers fuel s c.next

/-- `fetch_datanode` returns the cursor when a data node has answered, but only after
`datanode_filewrite` has moved it. -/
def fetch_datanode (answers : List Byte → Bool) (s : NodeHeap) :
    Except NodeFault (Option ℕ × NodeHeap) :=
  match s.firstdlist with
  | none => .ok (none, { s with dlist := none })
  | some first => do
      let (found, s) ← probeloop answers (s.brk + 1) s (some first)
      let s ← s.datanode_filewrite
      return (if found.isSome then s.dlist else none, s)

/-- `datanode_sendlist`, into the 10000 bytes of `dnbuf`. -/
def datanode_sendlist (s : NodeHeap) : Except NodeFault (List Byte × NodeHeap) := do
  let dlist ← s.writeloop (s.brk + 1) s.firstdlist
  if (dlist.flatMap Wire.sendlistLine).length < 10000 then
    return (dlist.flatMap Wire.sendlistLine, { s with dlist := none })
  else .error .overflow

/-- The data node that a pointer leads to. -/
def node (s : NodeHeap) (p : Option ℕ) : Option Datanode :=
  p.bind fun a => (s.cells a).map NodeCell.toDatanode

end NodeHeap

/-- The functions that walk the list of data nodes and nothing else. -/
inductive Look where
  | search (name : List Byte)
  | fetch (answers : List Byte → Bool)
  | sendlist

/-- All functions that walk it. -/
inductive Walk where
  | insert (name ip : List Byte) (alive : ℤ)
  | look (k : Look)

/-- What they return: nothing, the data node that a pointer leads to, or a text. -/
inductive Returned where
  | nothing
  | node (d : Option Datanode)
  | text (m : List Byte)
deriving DecidableEq

/-- In memory. -/
def NodeHeap.look (s : NodeHeap) : Look → Except NodeFault (Returned × NodeHeap)
  | .search name => do
      let (p, s) ← s.datanode_search name
      return (.node (s.node p), s)
  | .fetch answers => do
      let (p, s) ← s.fetch_datanode answers
      return (.node (s.node p), s)
  | .sendlist => do
      let (m, s) ← s.datanode_sendlist
      return (.text m, s)

/-- On the list. -/
def NodeList.look (r : NodeList) : Look → Except Fault (Returned × NodeList)
  | .search name => .ok (.node (datanode_search r name), r)
  | .fetch answers => do
      let (d, r) ← fetch_datanode answers r
      return (.node d, r)
  | .sendlist => do
      let m ← Wire.datanode_sendlist r.dlist
      return (.text m, r)

/-- The blocks of the two lists of a name node. -/
structure Blocks where
  nodes : NodeHeap
  table : Wire.FileTable

namespace Blocks

/-- Where a call of `filenode_insert` does not return: a loop has come to an address that is no cell,
or goes round for ever, or else a string or a slot lies outside its array. -/
def stopped (walks : List Wire.Walk) : NodeFault :=
  if walks.any fun w => w.halt = .wild then .dangling
  else if walks.any fun w => w.halt = .endless then .endless
  else .overflow

/-- `filenode_insert`, in blocks that `fresh` describes as `malloc` returns them. -/
def filenode_insert (fresh : ℕ → Wire.Cell) (name dn : List Byte) (m : Wire.FileTable) :
    Except NodeFault Wire.FileTable :=
  match m.filenode_insert fresh name dn with
  | (_, some m) => .ok m
  | (walks, none) => .error (stopped walks)

/-- `datanode_insert`. -/
def datanode_insert (fresh : ℕ → Wire.Cell) (name ip : List Byte) (alive : ℤ) (s : Blocks) :
    Except NodeFault Blocks := do
  let nodes ← s.nodes.enter name ip alive
  let table ← filenode_insert fresh Wire.DATANODE_DIR name s.table
  let nodes ← nodes.datanode_filewrite
  return ⟨nodes, table⟩

/-- In memory. -/
def walk (fresh : ℕ → Wire.Cell) (s : Blocks) : Walk → Except NodeFault (Returned × Blocks)
  | .insert name ip alive => do
      let s ← s.datanode_insert fresh name ip alive
      return (.nothing, s)
  | .look k => do
      let (o, nodes) ← s.nodes.look k
      return (o, { s with nodes := nodes })

/-- The blocks of a process that has just started. -/
def empty (config : List Byte) : Blocks := ⟨{ NodeHeap.empty with config := config }, .empty⟩

end Blocks

/-- On the lists. -/
def walkTables (t : Wire.Tables) : Walk → Except Fault (Returned × Wire.Tables)
  | .insert name ip alive => do
      let t ← Wire.datanode_insert name ip alive t
      return (.nothing, t)
  | .look k => do
      let (o, r) ← t.toNodeList.look k
      return (o, { t with toNodeList := r })

/-- The memory holds the list, and the cursor is null or at an entry. -/
def Represents (s : NodeHeap) (r : NodeList) : Prop :=
  ∃ l, NodeHeap.Sound s l ∧ l.map Entry.value = r.dlist ∧ s.config = r.config

/-- An array is too small for both. -/
def Full (e : NodeFault) (f : Fault) : Prop := e = .overflow ∧ f = .overflow

/-- Both return the same and leave the same list, or the text does not fit its buffer in either. -/
abbrev Agree {O : Type} : Except NodeFault (O × NodeHeap) → Except Fault (O × NodeList) → Prop :=
  Lockstep Represents Full

/-- The blocks hold both lists, and no path but `DATANODE_DIR` is in the second. -/
structure Blocks.Hold (s : Blocks) (t : Wire.Tables) : Prop where
  nodes : Represents s.nodes t.toNodeList
  chained : Wire.Chained s.table
  files : s.table.files = t.sfile
  root : ∀ f ∈ t.sfile, f.name = Wire.DATANODE_DIR

namespace NodeHeap

variable {s : NodeHeap} {l a t : List Entry} {r : NodeList} {fuel : ℕ}

/-- One turn of the loop. -/
theorem Holds.probeloop_cons (answers : List Byte → Bool) {x : Entry} (h : Holds s (a ++ x :: t)) :
    probeloop answers (fuel + 1) s (some x.addr) =
      if x.alive ≠ 0 then
        if answers x.node = true then .ok (some x.addr, s)
        else probeloop answers fuel (s.write x.addr fun c => { c with alive := 0 }) (front t)
      else probeloop answers fuel s (front t) := by
  rw [probeloop, h.deref_eq rfl]
  rfl

/-- The loop clears in the cells the flags that it clears in the list. -/
theorem Holds.probeloop_eq (answers : List Byte → Bool) (h : Holds s (a ++ t))
    (enough : t.length < fuel) :
    ∃ found s' t', probeloop answers fuel s (front t) = .ok (found, s') ∧ Holds s' (a ++ t') ∧
      (found.isSome, t'.map Entry.value) = probe answers (t.map Entry.value) := by
  induction t generalizing a s fuel with
  | nil =>
    obtain ⟨fuel, rfl⟩ := Nat.exists_eq_succ_of_ne_zero (by omega : fuel ≠ 0)
    exact ⟨none, s, [], rfl, h, rfl⟩
  | cons x t ih =>
    obtain ⟨fuel, rfl⟩ := Nat.exists_eq_succ_of_ne_zero (by omega : fuel ≠ 0)
    rw [List.length_cons] at enough
    rw [front_cons, h.probeloop_cons, List.map_cons, probe]
    by_cases alive : x.alive = 0
    · rw [if_neg (not_not.2 alive), if_neg (fun both => both.1 alive)]
      have here : Holds s ((a ++ [x]) ++ t) := by simpa using h
      obtain ⟨found, s', t', loop, holds, same⟩ := @ih s (a ++ [x]) fuel here (by omega)
      refine ⟨found, s', x :: t', loop, by simpa using holds, ?_⟩
      rw [← same, ← alive]
      rfl
    · rw [if_pos alive]
      by_cases answered : answers x.node = true
      · rw [if_pos answered, if_pos ⟨alive, answered⟩]
        exact ⟨some x.addr, s, x :: t, rfl, h, rfl⟩
      · rw [if_neg answered, if_neg fun both => answered both.2]
        have cleared := h.modify (y := { x with alive := 0 }) (f := fun c => { c with alive := 0 })
          rfl (h.fits x (by simp)) fun _ => rfl
        have here : Holds (s.write x.addr fun c => { c with alive := 0 })
            ((a ++ [{ x with alive := 0 }]) ++ t) := by simpa using cleared
        obtain ⟨found, s', t', loop, holds, same⟩ := ih here (by omega : t.length < fuel)
        refine ⟨found, s', { x with alive := 0 } :: t', loop, by simpa using holds, ?_⟩
        rw [← same]
        rfl

/-- Both sides write the text of the list. -/
theorem Holds.agree_filewrite (h : Holds s l) {O : Type} (o : O) :
    Agree
      (if (text (l.map Entry.value)).length < 10000 then
        .ok (o, { s with dlist := none, config := text (l.map Entry.value) })
      else .error .overflow)
      (if (text (l.map Entry.value)).length < 10000 then
        .ok (o, ⟨l.map Entry.value, text (l.map Entry.value)⟩)
      else .error .overflow) := by
  split_ifs with fits
  · have written : Holds { s with dlist := none, config := text (l.map Entry.value) } l :=
      ⟨h.stored, h.first, h.nodup, h.fresh, h.fits⟩
    exact .returns ⟨rfl, l, ⟨written, .inl rfl⟩, rfl, rfl⟩
  · exact .fails ⟨rfl, rfl⟩

theorem look_fetch_list (filled : r.dlist ≠ []) (answers : List Byte → Bool) :
    r.look (.fetch answers) =
      if (text (probe answers r.dlist).2).length < 10000 then
        .ok (.node none, ⟨(probe answers r.dlist).2, text (probe answers r.dlist).2⟩)
      else .error .overflow := by
  rw [NodeList.look, Registry.fetch_datanode, if_neg filled]
  simp only [Registry.datanode_filewrite]
  by_cases fits : (text (probe answers r.dlist).2).length < 10000
  · simp only [if_pos fits]
    cases (probe answers r.dlist).1 <;> rfl
  · simp only [if_neg fits]
    rfl

theorem Holds.look_fetch {x : Entry} (h : Holds s (x :: t)) (answers : List Byte → Bool) :
    ∃ s' l', Holds s' l' ∧ l'.map Entry.value = (probe answers ((x :: t).map Entry.value)).2 ∧
      s.look (.fetch answers) =
        if (text (l'.map Entry.value)).length < 10000 then
          .ok (.node none, { s' with dlist := none, config := text (l'.map Entry.value) })
        else .error .overflow := by
  obtain ⟨found, s', l', loop, holds, same⟩ :=
    Holds.probeloop_eq (a := []) (t := x :: t) answers h (h.enough (a := []) rfl)
  rw [List.nil_append] at holds
  refine ⟨s', l', holds, congrArg Prod.snd same, ?_⟩
  rw [front_cons] at loop
  rw [NodeHeap.look, NodeHeap.fetch_datanode, h.first]
  simp only [front_cons, loop, bind, Except.bind, holds.datanode_filewrite_eq]
  by_cases fits : (text (l'.map Entry.value)).length < 10000
  · simp only [if_pos fits]
    cases found <;> rfl
  · simp only [if_neg fits]

theorem agree_fetch (represents : Represents s r) (answers : List Byte → Bool) :
    Agree (s.look (.fetch answers)) (r.look (.fetch answers)) := by
  obtain ⟨l, sound, values, config⟩ := represents
  cases l with
  | nil =>
    have empty : r.dlist = [] := values.symm
    have first : s.firstdlist = none := sound.first
    have moved := sound.toHolds.withCursor none
    rw [first] at moved
    rw [NodeHeap.look, NodeList.look, NodeHeap.fetch_datanode, Registry.fetch_datanode, if_pos empty,
      first]
    exact .returns ⟨rfl, [], ⟨moved, .inl rfl⟩, values, config⟩
  | cons x t =>
    obtain ⟨s', l', holds, same, result⟩ := sound.toHolds.look_fetch answers
    have filled : r.dlist ≠ [] := by simp [← values]
    rw [result, look_fetch_list filled, ← values, ← same]
    exact holds.agree_filewrite _

/-- The cell at which the cursor stays holds the data node that the list has under the name. -/
theorem agree_search (represents : Represents s r) (name : List Byte) :
    Agree (s.look (.search name)) (r.look (.search name)) := by
  obtain ⟨l, sound, values, config⟩ := represents
  have found := sound.toHolds.datanode_search_eq name
  obtain ⟨sound', -⟩ := sound.toHolds.datanode_search_sound found
  rw [NodeHeap.look, NodeList.look, found]
  have same : NodeHeap.node { s with dlist := (l.find? fun x => x.node == name).map Entry.addr }
      ((l.find? fun x => x.node == name).map Entry.addr) = Registry.datanode_search r name := by
    rw [Registry.datanode_search, ← values, List.find?_map]
    change NodeHeap.node _ _ = (l.find? fun x => x.node == name).map Entry.value
    cases here : l.find? fun x => x.node == name with
    | none => rfl
    | some x =>
      obtain ⟨a, t, split⟩ := List.append_of_mem (List.mem_of_find?_eq_some here)
      rw [Option.map_some, NodeHeap.node, Option.bind_some, Option.map_some, sound.cell_eq split]
      rfl
  simp only [bind, Except.bind, same]
  exact .returns ⟨rfl, l, sound', values, config⟩

theorem agree_sendlist (represents : Represents s r) : Agree (s.look .sendlist) (r.look .sendlist) := by
  obtain ⟨l, sound, values, config⟩ := represents
  have loop := sound.toHolds.writeloop_eq (a := []) rfl (sound.enough (a := []) rfl)
  rw [NodeHeap.look, NodeList.look, NodeHeap.datanode_sendlist, sound.first, loop,
    Wire.datanode_sendlist]
  simp only [bind, Except.bind, values]
  by_cases fits : (r.dlist.flatMap Wire.sendlistLine).length < 10000
  · simp only [if_pos fits]
    have moved := sound.toHolds.withCursor none
    rw [sound.first] at moved
    exact .returns ⟨rfl, l, ⟨moved, .inl rfl⟩, values, config⟩
  · simp only [if_neg fits]
    exact .fails ⟨rfl, rfl⟩

/-- A call that looks at the list alone. -/
theorem agree_look (represents : Represents s r) (k : Look) : Agree (s.look k) (r.look k) := by
  cases k with
  | search name => exact agree_search represents name
  | fetch answers => exact agree_fetch represents answers
  | sendlist => exact agree_sendlist represents

/-- The entry in memory, whatever is recorded elsewhere, and then the file. -/
theorem agree_enter (represents : Represents s r) (name ip : List Byte) (alive : ℤ) :
    ∃ s₁, s.enter name ip alive = .ok s₁ ∧
      Corresponds (fun s p => Represents s p.1) Full s₁.datanode_filewrite
        (Registry.datanode_filewrite { r with dlist := entered name ip alive r.dlist }) := by
  obtain ⟨l, sound, values, -⟩ := represents
  obtain ⟨s₁, l', enters, holds, same, -⟩ := sound.toHolds.enter_eq name ip alive
  refine ⟨s₁, enters, ?_⟩
  rw [holds.datanode_filewrite_eq, Registry.datanode_filewrite, ← values, ← same]
  dsimp only
  split_ifs with fits
  · have written : Holds { s₁ with dlist := none, config := text (l'.map Entry.value) } l' :=
      ⟨holds.stored, holds.first, holds.nodup, holds.fresh, holds.fits⟩
    exact .returns ⟨l', ⟨written, .inl rfl⟩, rfl, rfl⟩
  · exact .fails ⟨rfl, rfl⟩

end NodeHeap

/-! ## Both lists -/

namespace Blocks

variable {s : Blocks} {t : Wire.Tables} {fresh : ℕ → Wire.Cell} {m : Wire.FileTable}
  {nodes : NodeList} {name dn : List Byte}

/-- On the list `filenode_insert` fails only where an array is too small. -/
theorem filenode_insert_error {e : Fault} {t : Wire.Tables}
    (h : Wire.filenode_insert name dn t = .error e) : e = .overflow := by
  unfold Wire.filenode_insert at h
  split at h
  · exact (Except.error.inj h).symm
  · split at h
    · split at h
      · exact (Except.error.inj h).symm
      · cases h
    · split at h
      · exact (Except.error.inj h).symm
      · cases h

/-- Proper walks end. -/
theorem stopped_eq {walks : List Wire.Walk} (proper : ∀ w ∈ walks, w.Proper) :
    stopped walks = .overflow := by
  have ends : ∀ w ∈ walks, w.halt ≠ .wild ∧ w.halt ≠ .endless := by
    intro w mem
    rcases (proper w mem).ends with null | ⟨a, found⟩
    · simp [null]
    · simp [found]
  rw [stopped, if_neg, if_neg]
  · simpa using fun w mem => (ends w mem).2
  · simpa using fun w mem => (ends w mem).1

/-- The only block that is ever allocated for the file table is the first one. -/
theorem Hold.null (hold : Hold s t) (null : (fresh 0).next = none) {name : List Byte}
    (creates : (Wire.TableCall.insert Wire.DATANODE_DIR name).Creates s.table) :
    (fresh s.table.cells.length).next = none := by
  obtain ⟨absent, -⟩ := creates
  cases cells : s.table.cells with
  | nil => exact null
  | cons c rest =>
    have mem : c ∈ s.table.cells := cells ▸ List.mem_cons_self
    have stored : c.taken ∈ t.sfile := by
      rw [← hold.files, Wire.FileTable.files]
      exact List.mem_map_of_mem (List.mem_map_of_mem mem)
    have root : c.name = Wire.DATANODE_DIR := hold.root c.taken stored
    have named : c.named Wire.DATANODE_DIR = true := Wire.named_root root
    rw [absent c mem] at named
    cases named

/-- A replica of `DATANODE_DIR` adds no other path. -/
theorem root_enters {files files' : List Wire.Filelist}
    (root : ∀ f ∈ files, f.name = Wire.DATANODE_DIR)
    (enters : Wire.Enters Wire.DATANODE_DIR dn files files') :
    ∀ f ∈ files', f.name = Wire.DATANODE_DIR := by
  intro f mem
  cases enters with
  | new =>
    rcases List.mem_append.1 mem with old | made
    · exact root f old
    · rw [List.mem_singleton.1 made]
      rfl
  | @more before after g i split =>
    rw [split] at root
    rcases List.mem_append.1 mem with old | mem
    · exact root f (by simp [old])
    · rcases List.mem_cons.1 mem with rfl | old
      · exact root g (by simp)
      · exact root f (by simp [old])

/-- One more replica of `DATANODE_DIR`. -/
theorem Hold.filenode_insert (hold : Hold s t) (null : (fresh 0).next = none) (name : List Byte)
    (nodes : NodeList) :
    Corresponds (fun table t' => t'.toNodeList = nodes ∧ Wire.Chained table ∧
        table.files = t'.sfile ∧ ∀ f ∈ t'.sfile, f.name = Wire.DATANODE_DIR) Full
      (filenode_insert fresh Wire.DATANODE_DIR name s.table)
      (Wire.filenode_insert Wire.DATANODE_DIR name ⟨nodes, t.sfile⟩) := by
  have refines := @Wire.filenode_insert_refines s.table Wire.DATANODE_DIR name fresh nodes
    hold.chained fun creates => hold.null null creates
  have proper := (Wire.insert_proper hold.chained fresh Wire.DATANODE_DIR name).2
    fun creates => hold.null null creates
  have chained {m : Wire.FileTable} := @Wire.insert_chained s.table m Wire.DATANODE_DIR name fresh
    hold.chained fun creates => hold.null null creates
  rw [hold.files] at refines
  rw [Blocks.filenode_insert]
  rcases result : s.table.filenode_insert fresh Wire.DATANODE_DIR name with ⟨walks, _ | m⟩
  · rw [result] at refines proper
    obtain ⟨e, failed⟩ := refines
    rw [failed]
    exact .fails ⟨stopped_eq proper, filenode_insert_error failed⟩
  · rw [result] at refines chained
    have inserted : Wire.filenode_insert Wire.DATANODE_DIR name ⟨nodes, t.sfile⟩ =
        .ok ⟨nodes, m.files⟩ := refines
    rw [inserted]
    refine .returns ⟨rfl, chained rfl, rfl, ?_⟩
    obtain ⟨-, files, enters, same⟩ := Wire.filenode_insert_enters inserted
    obtain rfl : m.files = files := congrArg Wire.Tables.sfile same
    exact root_enters hold.root enters

/-- One call. -/
theorem agree_walk (null : (fresh 0).next = none) (hold : Hold s t) (w : Walk) :
    Lockstep Hold Full (s.walk fresh w) (walkTables t w) := by
  cases w with
  | insert name ip alive =>
    obtain ⟨nodes, entered_, written⟩ := NodeHeap.agree_enter hold.nodes name ip alive
    have recorded := hold.filenode_insert null name
      { t.toNodeList with dlist := entered name ip alive t.dlist }
    have whole : Corresponds Hold Full (s.datanode_insert fresh name ip alive)
        (Wire.datanode_insert name ip alive t) := by
      rw [Blocks.datanode_insert, entered_]
      apply recorded.bind
      rintro table t₁ ⟨list, chained, files, root⟩
      rw [list]
      apply written.bind
      rintro nodes ⟨r, cursor⟩ represents
      exact .returns ⟨represents, chained, files, root⟩
    rw [walk, walkTables]
    apply whole.bind
    intro s' t' hold'
    exact .returns ⟨rfl, hold'⟩
  | look k =>
    rw [walk, walkTables]
    apply (NodeHeap.agree_look hold.nodes k).bind
    rintro ⟨o, nodes⟩ ⟨o', r⟩ ⟨rfl, represents⟩
    exact .returns ⟨rfl, represents, hold.chained, hold.files, hold.root⟩

theorem empty_hold (config : List Byte) : Hold (empty config) ⟨⟨[], config⟩, []⟩ where
  nodes :=
    have sound := NodeHeap.empty_sound
    ⟨[], ⟨⟨sound.stored, sound.first, sound.nodup, sound.fresh, sound.fits⟩, .inl rfl⟩, rfl, rfl⟩
  chained := Wire.chained_empty
  files := rfl
  root _ mem := absurd mem List.not_mem_nil

end Blocks

/-- A name node that starts without data nodes, next to any file, and whose first block for the file
table comes with null in its `next`: whatever it calls, in memory it returns what it returns on the
lists, with the same lists and the same configuration file behind it, or both find the same array too
small.  Nothing else goes wrong in memory. -/
theorem walks_refine_list {fresh : ℕ → Wire.Cell} (null : (fresh 0).next = none)
    (config : List Byte) (ws : List Walk) :
    Lockstep Blocks.Hold Full (session (Blocks.walk fresh) (.empty config) ws)
      (session walkTables ⟨⟨[], config⟩, []⟩ ws) :=
  Lockstep.session (P := fun _ => True) (fun _ _ w hold _ => Blocks.agree_walk null hold w)
    (Blocks.empty_hold config) (by simp)

/-- A data node registers twice, does not answer, and is listed as dead. -/
def reportsTwice : List Walk :=
  [.insert (str "d") (str "10.0.0.1") 1, .insert (str "d") (str "10.0.0.2") 1,
    .look (.fetch fun _ => false), .look (.search (str "d")), .look .sendlist]

/-- Memory that `malloc` has filled with zeros. -/
def zeroed (_ : ℕ) : Wire.Cell := ⟨⟨[], fun _ => 0, fun _ => []⟩, none⟩

theorem walks_refine_list_twice :
    (session (Blocks.walk zeroed) (.empty []) reportsTwice).map Prod.fst =
        .ok [.nothing, .nothing, .node none, .node (some ⟨str "d", str "10.0.0.1", 0⟩),
          .text (str "d,10.0.0.1,0,")] ∧
      Lockstep Blocks.Hold Full (session (Blocks.walk zeroed) (.empty []) reportsTwice)
        (session walkTables ⟨⟨[], []⟩, []⟩ reportsTwice) :=
  ⟨by decide, walks_refine_list rfl [] reportsTwice⟩

end DistFs.Registry
