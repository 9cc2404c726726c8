import DistFs.CText.Decimal
import DistFs.CText.Stream

/-!
# The registry of data nodes

The list of data nodes in `list.c` and the file that mirrors it.  Every function that changes the
list ends in `datanode_filewrite`, which prints the whole list into a buffer of 10000 bytes and
replaces the contents of the file.  `readdnconfig` reads the file back line by line.
-/

namespace DistFs.Registry

open CText

/-- `datanode`. -/
structure Datanode where
  node : List Byte
  ip : List Byte
  alive : ℤ
deriving DecidableEq

/-- The list from `firstdlist` on, and the contents of the configuration file. -/
structure NodeList where
  dlist : List Datanode
  config : List Byte

/-- What `datanode_filewrite` prints for one data node. -/
def Datanode.line (d : Datanode) : List Byte :=
  d.node ++ comma :: (d.ip ++ comma :: (snprintf 10 d.alive ++ [newline]))

/-- The text of a list. -/
def text (dlist : List Datanode) : List Byte := dlist.flatMap Datanode.line

/-- `datanode_filewrite`: the file is replaced by the text of the list.  The loop uses the global
`dlist` as its cursor, which is null afterwards: what it points at comes second. -/
def datanode_filewrite (r : NodeList) : Except Fault (NodeList × List Datanode) :=
  if (text r.dlist).length < 10000 then .ok ({ r with config := text r.dlist }, [])
  else .error .overflow

/-- `datanode_search`: the first data node with the name. -/
def datanode_search (r : NodeList) (name : List Byte) : Option Datanode :=
  r.dlist.find? fun d => d.node == name

/-- What `datanode_insert` does to the list: a new data node goes to its end, a known one is marked
alive and keeps its address. -/
def entered (name ip : List Byte) (alive : ℤ) (dlist : List Datanode) : List Datanode :=
  match dlist.find? fun d => d.node == name with
  | none => dlist ++ [⟨name, ip, alive⟩]
  | some _ =>
      let position := dlist.findIdx fun d => d.node == name
      dlist.modify position fun d => { d with alive := 1 }

/-- `datanode_insert`, but for the replica of `DATANODE_DIR` that it records. -/
def datanode_insert (name ip : List Byte) (alive : ℤ) (r : NodeList) : Except Fault NodeList :=
  (datanode_filewrite { r with dlist := entered name ip alive r.dlist }).map Prod.fst

/-- The loop of `fetch_datanode`: whether a data node answered, and the list with the others in
front of it marked dead. -/
def probe (answers : List Byte → Bool) : List Datanode → Bool × List Datanode
  | [] => (false, [])
  | d :: rest =>
      if d.alive ≠ 0 ∧ answers d.node then (true, d :: rest)
      else
        let found := probe answers rest
        (found.1, { d with alive := 0 } :: found.2)

/-- `fetch_datanode`.  When a data node answers, the file is written before `dlist` is returned, and
by then the cursor is null. -/
def fetch_datanode (answers : List Byte → Bool) (r : NodeList) :
    Except Fault (Option Datanode × NodeList) :=
  if r.dlist = [] then .ok (none, r)
  else
    let found := probe answers r.dlist
    (datanode_filewrite { r with dlist := found.2 }).map fun (r, dlist) =>
      (if found.1 then dlist.head? else none, r)

/-- The cursor that `datanode_filewrite` leaves behind is null. -/
theorem datanode_filewrite_ok {r r' : NodeList} {cursor : List Datanode}
    (h : datanode_filewrite r = .ok (r', cursor)) :
    (text r.dlist).length < 10000 ∧ r' = { r with config := text r.dlist } ∧ cursor = [] := by
  rw [datanode_filewrite] at h
  split_ifs at h with fits
  cases h
  exact ⟨fits, rfl, rfl⟩

/-- `fetch_datanode` never returns a data node. -/
theorem fetch_datanode_none {answers : List Byte → Bool} {r r' : NodeList} {found : Option Datanode}
    (h : fetch_datanode answers r = .ok (found, r')) : found = none := by
  rw [fetch_datanode] at h
  split_ifs at h
  · cases h
    rfl
  · obtain ⟨⟨r, cursor⟩, wrote, same⟩ := map_eq_ok.1 h
    obtain ⟨-, -, rfl⟩ := datanode_filewrite_ok wrote
    cases same
    split_ifs <;> rfl

/-! ## What an insertion does to the list -/

section Entered

variable {dlist before after : List Datanode} {d : Datanode} {name ip : List Byte} {alive : ℤ}

theorem entered_new (fresh : name ∉ dlist.map Datanode.node) :
    entered name ip alive dlist = dlist ++ [⟨name, ip, alive⟩] := by
  have none_ : (dlist.find? fun d => d.node == name) = none := by
    rw [List.find?_eq_none]
    intro d hd same
    exact fresh (List.mem_map.2 ⟨d, hd, by simpa using same⟩)
  rw [entered, none_]

/-- The first data node with the name is marked alive. -/
theorem entered_first (others : ∀ c ∈ before, c.node ≠ d.node) :
    entered d.node ip alive (before ++ d :: after) = before ++ { d with alive := 1 } :: after := by
  have other : ∀ c ∈ before, (c.node == d.node) = false :=
    fun c hc => beq_eq_false_iff_ne.2 (others c hc)
  have found : (before ++ d :: after).find? (fun c => c.node == d.node) = some d := by
    rw [List.find?_append, List.find?_eq_none.2 fun c hc => by simpa using others c hc]
    simp
  rw [entered, found]
  exact modify_findIdx other (beq_self_eq_true d.node) _

/-- All that an insertion can do. -/
theorem entered_cases (name ip : List Byte) (alive : ℤ) (dlist : List Datanode) :
    (name ∉ dlist.map Datanode.node ∧ entered name ip alive dlist = dlist ++ [⟨name, ip, alive⟩]) ∨
      ∃ before d after, dlist = before ++ d :: after ∧ d.node = name ∧
        (∀ c ∈ before, c.node ≠ name) ∧
        entered name ip alive dlist = before ++ { d with alive := 1 } :: after := by
  cases found : dlist.find? fun d => d.node == name with
  | none =>
    left
    have fresh : name ∉ dlist.map Datanode.node := by
      intro known
      obtain ⟨d, hd, rfl⟩ := List.mem_map.1 known
      simpa using List.find?_eq_none.1 found d hd
    exact ⟨fresh, entered_new fresh⟩
  | some d =>
    right
    obtain ⟨named, before, after, rfl, others⟩ := List.find?_eq_some_iff_append.1 found
    obtain rfl := beq_iff_eq.1 named
    have first : ∀ c ∈ before, c.node ≠ d.node := fun c hc => by simpa using others c hc
    exact ⟨before, d, after, rfl, rfl, first, entered_first first⟩

end Entered

/-! ## Reading the file back -/

/-- The body of the loop of `readdnconfig` up to `datanode_insert`: the fields of a line, of which
two are copied into buffers of 20 bytes. -/
def parseLine (line : List Byte) : Except Fault Datanode :=
  match nextToken [comma] line with
  | (none, _) => .error .null
  | (some node, m) =>
      if 20 ≤ node.length then .error .overflow
      else
        match nextToken [comma] m with
        | (none, _) => .error .null
        | (some ip, m) =>
            if 20 ≤ ip.length then .error .overflow
            else
              match nextToken [comma, newline] m with
              | (none, _) => .error .null
              | (some alive, _) => .ok ⟨node, ip, atoi alive⟩

/-- The data nodes in a text, line by line. -/
def parse : ℕ → Stream → Except Fault (List Datanode)
  | 0, _ => .ok []
  | n + 1, s =>
      match fgets 0 4096 [] s with
      | (none, _) => .ok []
      | (some line, s) => do
          let d ← parseLine line
          let rest ← parse n s
          return d :: rest

/-- The data nodes in the file. -/
def parseConfig (file : List Byte) : Except Fault (List Datanode) :=
  parse (file.length + 1) ⟨file, file.length⟩

/-- A name or an address of one to nineteen characters that has no separator. -/
structure Short (s : List Byte) : Prop where
  token : IsToken [comma] s
  oneLine : newline ∉ s
  short : s.length < 20

/-- An entry that fits the buffers of `readdnconfig`. -/
structure Datanode.Valid (d : Datanode) : Prop where
  node : Short d.node
  ip : Short d.ip
  alive : (decimal d.alive).length ≤ 9

section Lines

variable {d : Datanode}

/-- A line without its end. -/
def Datanode.fields (d : Datanode) : List Byte :=
  d.node ++ comma :: (d.ip ++ comma :: snprintf 10 d.alive)

theorem line_eq (d : Datanode) : d.line = d.fields ++ [newline] := by
  simp [Datanode.line, Datanode.fields]

theorem newline_notMem_snprintf (x : ℤ) : newline ∉ snprintf 10 x := by
  intro h
  rcases snprintf_mem h with h | h <;> exact absurd h (by decide)

theorem isToken_alive (x : ℤ) : IsToken [comma, newline] (snprintf 10 x) := by
  have token := isToken_snprintf (by norm_num : 2 ≤ 10) x
  refine ⟨token.nonempty, token.noNul, fun c hc h => ?_⟩
  rcases List.mem_cons.1 h with rfl | h
  · exact token.plain _ hc (List.mem_singleton_self _)
  · rw [List.mem_singleton.1 h] at hc
    exact newline_notMem_snprintf x hc

theorem Datanode.Valid.oneLine (valid : d.Valid) : newline ∉ d.fields := by
  have separator : newline ≠ comma := by decide
  simp only [Datanode.fields, List.mem_append, List.mem_cons, not_or]
  exact ⟨valid.node.oneLine, separator, valid.ip.oneLine, separator, newline_notMem_snprintf _⟩

theorem Datanode.Valid.fields_noNul (valid : d.Valid) : NoNul d.fields := by
  have alive := (isToken_alive d.alive).noNul
  have separator : comma ≠ 0 := by decide
  simp only [Datanode.fields, noNul_append, noNul_cons]
  exact ⟨valid.node.token.noNul, separator, valid.ip.token.noNul, separator, alive⟩

theorem Datanode.Valid.fields_length (valid : d.Valid) : d.fields.length < 50 := by
  have node := valid.node.short
  have ip := valid.ip.short
  have alive : (snprintf 10 d.alive).length ≤ 9 := List.length_take_le 9 _
  simp only [Datanode.fields, List.length_append, List.length_cons]
  omega

/-- A line that `datanode_filewrite` prints is read as the entry it was printed for. -/
theorem Datanode.Valid.parse_line (valid : d.Valid) : parseLine d.line = .ok d := by
  have node := valid.node.short
  have ip := valid.ip.short
  have alive := nextToken_delimited (isToken_alive d.alive) (by simp : newline ∈ [comma, newline])
    (by decide) []
  simp only [parseLine, Datanode.line, nextToken_delimited valid.node.token (List.mem_singleton_self _)
    (by decide : comma ≠ 0), nextToken_delimited valid.ip.token (List.mem_singleton_self _)
    (by decide : comma ≠ 0), alive, if_neg (not_le.2 node), if_neg (not_le.2 ip),
    atoi_snprintf_of_short valid.alive]

end Lines

end DistFs.Registry
