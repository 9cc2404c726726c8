import DistFs.Runs.Simulation
import DistFs.Wire.Slots

/-!
# The data node that serves

What the name node amounts to over a run of any datagrams: a directory of the data nodes that have
registered.  A request for `DATANODE_DIR` goes to the first of them that answers a ping, in the order
in which they first registered, and every other request is answered by the name node for `JUNK`.
-/

namespace DistFs.Wire

open CText Registry

/-! ## The directory -/

/-- The data nodes that have registered, in the order of their first registration. -/
abbrev Directory := List (List Byte)

namespace Directory

/-- A data node registers: a new one comes last. -/
def enrol (d : Directory) (name : List Byte) : Directory :=
  if d.contains name then d else d ++ [name]

/-- The data node that serves `DATANODE_DIR`. -/
def primary (d : Directory) (net : Net) : Option (List Byte) := d.find? net.alive

/-- The data node that a path leads to. -/
def serving (d : Directory) (net : Net) (path : List Byte) : Option (List Byte) :=
  if spells path DATANODE_DIR then d.primary net else none

/-- What is sent for a command with a path. -/
def answer (d : Directory) (net : Net) (host M path : List Byte) (c : Command) : List Sent :=
  match d.serving net path with
  | none => (c.junk.map (Sent.response host)).toList
  | some dn =>
      if net.known dn then [.command dn (c.text ++ comma :: (host ++ comma :: cstr M))] else []

/-- What a directory does with an input. -/
def turn (d : Directory) : Input → Option (List Sent × Directory)
  | .insert name _ _ => some ([], d.enrol name)
  | .datagram net host M =>
      let cmd := nextToken [comma] M
      let path := (nextToken [comma] cmd.2).1
      match cmd.1.bind Command.ofText with
      | some .datanode => some ([], d.enrol host)
      | some .statfs => some ([.response host (.statfs path)], d)
      | none | some .shutdown | some .dn_command => some ([], d)
      | some c => path.map fun path => (d.answer net host M path c, d)

theorem enrol_mem (d : Directory) (name : List Byte) : name ∈ d.enrol name := by
  rw [enrol]
  split_ifs with known
  · exact List.contains_iff_mem.1 known
  · exact List.mem_append_right d (List.mem_singleton_self name)

/-- A data node that registers again adds nothing to a search. -/
theorem find?_enrol (d : Directory) (name : List Byte) (p : List Byte → Bool) :
    (d ++ [name]).find? p = (d.enrol name).find? p := by
  rw [enrol]
  split_ifs with known
  · rw [List.find?_append]
    cases found : d.find? p with
    | some n => rfl
    | none =>
      have no := List.find?_eq_none.1 found name (List.contains_iff_mem.1 known)
      rw [Option.none_or, List.find?_cons, Bool.eq_false_iff.2 no, List.find?_nil]
  · rfl

end Directory

/-- What the name node does with an input, if it goes on. -/
def Input.turn (t : Tables) : Input → Option (List Sent × Tables)
  | .insert name ip alive =>
      match datanode_insert name ip alive t with
      | .ok t => some ([], t)
      | .error _ => none
  | .datagram net host buf1 =>
      match (receivecommand_namenode net t host buf1).next with
      | .ok (some t') => some ((receivecommand_namenode net t host buf1).sent, t')
      | _ => none

theorem Input.turn_eq {input : Input} {t t' : Tables} {sent : List Sent}
    (h : input.turn t = some (sent, t')) : input.step t = .ok (some t') := by
  cases input with
  | insert name ip alive =>
    simp only [Input.turn] at h
    split at h
    · next inserted =>
      cases h
      rw [Input.step, inserted]
      rfl
    · cases h
  | datagram net host buf1 =>
    simp only [Input.turn] at h
    split at h
    · next next =>
      cases h
      exact next
    · cases h

/-! ## The slots of `DATANODE_DIR` -/

section Slots

variable {f : Filelist} {d : Directory} {n : ℕ} {i : Fin 50} {dn path : List Byte} {net : Net}

theorem range_filter_lt {m : ℕ} (h : n ≤ m) : (List.range m).filter (· < n) = List.range n := by
  obtain ⟨k, rfl⟩ := Nat.exists_eq_add_of_le h
  rw [List.range_add, List.filter_append, List.filter_eq_self.2, List.filter_eq_nil_iff.2,
    List.append_nil]
  · intro j mem
    obtain ⟨l, -, rfl⟩ := List.mem_map.1 mem
    simp
  · intro j mem
    simpa using mem

/-- The first `n + 1` slots are the first `n` and the next one. -/
theorem finRange_filter_lt {m : ℕ} (h : n < m) :
    (List.finRange m).filter (fun j => j.val < n + 1) =
      (List.finRange m).filter (fun j => j.val < n) ++ [⟨n, h⟩] := by
  apply List.map_injective_iff.2 Fin.val_injective
  have values (k : ℕ) (small : k ≤ m) :
      ((List.finRange m).filter (fun j => j.val < k)).map Fin.val = List.range k := by
    rw [← range_filter_lt small, ← List.map_coe_finRange_eq_range, List.filter_map]
    rfl
  rw [List.map_append, values _ h.le, values _ (Nat.succ_le_of_lt h), List.range_succ]
  rfl

/-- The data nodes in the slots of an entry. -/
def Filelist.nodes (f : Filelist) : List (List Byte) :=
  ((List.finRange 50).filter fun i => f.rep i ≠ 0).map f.replica

theorem Filelist.Filled.nodes (filled : f.Filled n) :
    f.nodes = ((List.finRange 50).filter fun i => i.val < n).map f.replica := by
  rw [Filelist.nodes]
  congr 2
  funext i
  exact decide_eq_decide.2 (filled i)

/-- A new replica goes behind the others. -/
theorem nodes_present (filled : f.Filled n) (here : i.val = n) :
    (f.present i dn).nodes = f.nodes ++ [dn] := by
  subst here
  rw [(filled_present filled rfl).nodes, filled.nodes, finRange_filter_lt i.isLt, List.map_append]
  congr 1
  · apply List.map_congr_left
    intro j mem
    have apart : j ≠ i := by
      rintro rfl
      simp at mem
    exact Function.update_of_ne apart _ _
  · show [Function.update f.replica i dn i] = [dn]
    rw [Function.update_self]

/-- The slots of an entry hold the data nodes of a directory.  A data node that registers again, and
one that serves a request that is recorded, takes one more slot, behind its first. -/
structure Filelist.Lists (f : Filelist) (d : Directory) : Prop where
  filled : ∃ n, f.Filled n
  synced : ∀ i, f.rep i ≤ 1
  order : ∀ p, f.nodes.find? p = d.find? p

theorem Filelist.Lists.present (lists : f.Lists d) (free : getRepcreatenum f = some i) :
    (f.present i dn).Lists (d.enrol dn) := by
  obtain ⟨n, filled⟩ := lists.filled
  have here := getRepcreatenum_filled filled free
  refine ⟨⟨n + 1, filled_present filled here⟩, fun j => ?_, fun p => ?_⟩
  · by_cases same : j = i
    · subst same
      simp [Filelist.present]
    · have kept : (f.present i dn).rep j = f.rep j := Function.update_of_ne same _ _
      rw [kept]
      exact lists.synced j
  · rw [nodes_present filled here, ← Directory.find?_enrol, List.find?_append, List.find?_append,
      lists.order]

/-- The slot that `getfiledn` chooses holds the first data node that answers. -/
theorem Filelist.Lists.chooses {choice : Option (Fin 50)} (lists : f.Lists d)
    (chooses : Chooses (fun i => net.alive (f.replica i)) f choice) :
    choice.map f.replica = d.primary net := by
  have used (j : Fin 50) : f.rep j ≠ 0 ↔ f.rep j = 1 := by
    have := lists.synced j
    omega
  rw [Directory.primary, ← lists.order, Filelist.nodes, List.find?_map, List.find?_filter]
  congr 1
  cases chooses with
  | @synced i present answered first =>
    symm
    apply find?_finRange.2
    refine ⟨by simp [present, answered], fun j lt => ?_⟩
    by_cases taken : f.rep j = 1
    · simp [first j lt taken]
    · simp [mt (used j).1 taken]
  | @behind i silent more =>
    have := lists.synced i
    omega
  | nothing silent =>
    symm
    rw [List.find?_eq_none]
    intro j _ both
    simp only [Function.comp_apply, decide_eq_true_eq] at both
    rw [silent j both.1] at both
    exact absurd both.2 (by decide)

end Slots

/-! ## The lists and the directory -/

/-- The lists of the name node behind the registrations of a directory. -/
structure Represents (t : Tables) (d : Directory) : Prop where
  sound : Sound t
  registered : t.dlist.map Datanode.node = d
  empty : t.sfile = [] → d = []
  entry : ∀ f ∈ t.sfile, f.Lists d

section Represents

variable {net : Net} {t t' : Tables} {d d' : Directory} {f : Filelist} {c : Command} {n : ℕ}
  {path name ip host M dn : List Byte} {alive : ℤ} {found : Option (List Byte)} {sent : List Sent}

theorem represents_init (config : List Byte) : Represents ⟨⟨[], config⟩, []⟩ [] where
  sound := (Reachable.init config).sound
  registered := rfl
  empty _ := rfl
  entry _ mem := absurd mem List.not_mem_nil

theorem lists_new (path dn : List Byte) :
    Filelist.Lists (Filelist.present ⟨path, fun _ => 0, fun _ => []⟩ 0 dn) [dn] := by
  have unused : Filelist.Lists ⟨path, fun _ => 0, fun _ => []⟩ [] := by
    refine ⟨⟨0, filled_empty path⟩, fun _ => Nat.zero_le 1, fun p => ?_⟩
    simp [Filelist.nodes]
  apply unused.present
  exact find?_finRange.2 ⟨rfl, fun j lt => absurd lt (Fin.not_lt_zero j)⟩

/-- An insertion makes the one entry, or takes one more slot of it. -/
theorem enters_cases {files files' : List Filelist} (single : ∀ f ∈ files, files = [f])
    (named : ∀ f ∈ files, f.named path = true) (enters : Enters path dn files files') :
    (files = [] ∧ files' = [Filelist.present ⟨path, fun _ => 0, fun _ => []⟩ 0 dn]) ∨
      ∃ f i, files = [f] ∧ getRepcreatenum f = some i ∧ files' = [f.present i dn] := by
  cases enters with
  | new absent =>
    have empty : files = [] := by
      rw [List.eq_nil_iff_forall_not_mem]
      intro f mem
      exact List.find?_eq_none.1 absent f mem (named f mem)
    rw [empty]
    exact .inl ⟨rfl, rfl⟩
  | @more before after f i split _ _ free =>
    have alone := single f (by simp [split])
    rw [alone] at split
    obtain ⟨rfl, same⟩ := List.append_eq_singleton_iff.1 split.symm |>.resolve_right (by simp)
    cases same
    exact .inr ⟨f, i, alone, free, rfl⟩

/-- What an insertion makes of the one entry. -/
theorem lists_enters {files files' : List Filelist} (empty : files = [] → d = [])
    (single : ∀ f ∈ files, files = [f]) (named : ∀ f ∈ files, f.named path = true)
    (entry : ∀ f ∈ files, f.Lists d) (enters : Enters path dn files files') :
    files' ≠ [] ∧ ∀ f ∈ files', f.Lists (d.enrol dn) := by
  obtain ⟨none_, rfl⟩ | ⟨f, i, alone, free, rfl⟩ := enters_cases single named enters
  · rw [empty none_]
    exact ⟨List.cons_ne_nil _ _, List.forall_mem_singleton.2 (lists_new path dn)⟩
  · have lists := entry f (by rw [alone]; exact List.mem_singleton_self f)
    exact ⟨List.cons_ne_nil _ _, List.forall_mem_singleton.2 (lists.present free)⟩

/-- Flags that change leave the directory as it is. -/
theorem Represents.looked (represents : Represents t d) (looked : Looked net t path found t') :
    Represents t' d := by
  refine ⟨looked.sound represents.sound, ?_, ?_, ?_⟩
  all_goals
    cases looked with
    | found => first | exact represents.registered | exact represents.empty | exact represents.entry
    | missing _ files cleared =>
      first
      | exact (cleared_nodes cleared).trans represents.registered
      | rw [files]; first | exact represents.empty | exact represents.entry

/-- A path of the entry leads to the first data node that answers, any other nowhere. -/
theorem Represents.getfiledn (represents : Represents t d) (net : Net) (path : List Byte) :
    ∃ t', getfiledn net t path = .ok (d.serving net path, t') ∧ Represents t' d := by
  obtain ⟨found, t', located, looked⟩ := getfiledn_looked represents.sound net path
  refine ⟨t', ?_, represents.looked looked⟩
  rw [located]
  congr 2
  cases entry : filelist_search t path with
  | none =>
    have nothing : found = none := by
      by_contra some_
      obtain ⟨f, mem, -⟩ := looked.located.1 some_
      rw [entry] at mem
      cases mem
    rw [nothing, Directory.serving]
    split_ifs with root
    · have empty : t.sfile = [] := by
        rw [List.eq_nil_iff_forall_not_mem]
        intro f mem
        obtain ⟨-, name, -⟩ := represents.sound.root f mem
        have named : f.named path = true := by rw [← spells_name, name, root]
        exact List.find?_eq_none.1 entry f mem named
      rw [represents.empty empty]
      rfl
    · rfl
  | some f =>
    obtain ⟨mem, named⟩ := filelist_search_mem entry
    obtain ⟨-, name, registered⟩ := represents.sound.root f mem
    rw [← spells_name, name] at named
    obtain ⟨choice, result, chooses⟩ := getfiledn_registered registered entry net.answers
    rw [← getfiledn_answers, located] at result
    cases result
    rw [Directory.serving, if_pos named]
    exact (represents.entry f mem).chooses chooses

/-- A registration enrols a data node. -/
theorem Represents.datanode_insert (represents : Represents t d)
    (h : datanode_insert name ip alive t = .ok t') : Represents t' (d.enrol name) := by
  have list := congrArg NodeList.dlist (datanode_insert_ok (datanode_insert_nodes h))
  have registered : t'.dlist.map Datanode.node = d.enrol name := by
    rw [show t'.dlist = entered name ip alive t.dlist from list, ← represents.registered,
      Directory.enrol]
    split_ifs with known
    · exact (entered_known (List.contains_iff_mem.1 known)).1
    · rw [entered_new (mt List.contains_iff_mem.2 known), List.map_append]
      rfl
  have sound := datanode_insert_sound represents.sound h
  obtain ⟨t₁, inserted, h⟩ := bind_eq_ok.1 h
  obtain ⟨⟨r, cursor⟩, -, same⟩ := bind_eq_ok.1 h
  cases same
  obtain ⟨-, files, enters, rfl⟩ := filenode_insert_enters inserted
  have root := represents.sound.root
  obtain ⟨nonempty, lists⟩ := lists_enters represents.empty (fun f mem => (root f mem).1)
    (fun f mem => named_root (root f mem).2.1) represents.entry enters
  exact ⟨sound, registered, fun empty => absurd empty nonempty, lists⟩

theorem Directory.enrol_serving (serves : d.serving net path = some dn) :
    spells path DATANODE_DIR = true ∧ d.enrol dn = d := by
  rw [serving] at serves
  split_ifs at serves with root
  exact ⟨root, if_pos (List.contains_iff_mem.2 (List.mem_of_find?_eq_some serves))⟩

/-- A data node that serves a request is recorded where it is found. -/
theorem Represents.filenode_insert (represents : Represents t d)
    (serves : d.serving net path = some dn) (h : filenode_insert path dn t = .ok t') :
    Represents t' d := by
  obtain ⟨root, same⟩ := Directory.enrol_serving serves
  have nodes := congrArg NodeList.dlist (filenode_insert_nodes h)
  have known : dn ∈ d := same ▸ d.enrol_mem dn
  obtain ⟨short, files, enters, rfl⟩ := filenode_insert_enters h
  have entries := represents.sound.root
  have named : ∀ f ∈ t.sfile, f.named path = true := by
    intro f mem
    rw [← spells_name, (entries f mem).2.1]
    exact root
  obtain ⟨nonempty, lists⟩ := lists_enters represents.empty (fun f mem => (entries f mem).1) named
    represents.entry enters
  rw [same] at lists
  refine ⟨?_, represents.registered, fun empty => absurd empty nonempty, lists⟩
  cases stored : t.sfile with
  | nil =>
    rw [represents.empty stored] at known
    cases known
  | cons f rest =>
    have mem : f ∈ t.sfile := stored ▸ List.mem_cons_self
    obtain ⟨found, entry⟩ : ∃ g, filelist_search t path = some g := by
      rw [filelist_search, stored, List.find?_cons, named f mem]
      exact ⟨f, rfl⟩
    apply filenode_insert_sound represents.sound entry _ h
    rw [represents.registered]
    exact known

/-- A command with a path is answered as the directory says. -/
theorem Represents.forward (represents : Represents t d)
    (h : (forward net t host (host ++ comma :: cstr M) (some path) c c.junk c.recorded c.stops).next =
      .ok (some t')) :
    (forward net t host (host ++ comma :: cstr M) (some path) c c.junk c.recorded c.stops).sent =
      d.answer net host M path c ∧ Represents t' d := by
  obtain ⟨t₁, located, represents⟩ := represents.getfiledn net path
  simp only [Wire.forward, located, Directory.answer] at h ⊢
  cases serves : d.serving net path with
  | none =>
    simp only [serves] at h ⊢
    cases junk : c.junk with
    | none =>
      simp only [junk] at h
      cases h
    | some call =>
      simp only [junk] at h ⊢
      cases h
      exact ⟨rfl, represents⟩
  | some dn =>
    simp only [serves] at h ⊢
    cases sends : sendcommand net dn (host ++ comma :: cstr M) c with
    | error e =>
      simp only [sends] at h
      cases h
    | ok datagram =>
      simp only [sends] at h ⊢
      cases datagram with
      | none =>
        rw [sendcommand_eq_none.1 sends]
        simp only [Bool.false_eq_true, if_false, true_and]
        cases stops : c.stops with
        | true =>
          simp only [stops, if_true] at h
          cases h
        | false =>
          simp only [stops, Bool.false_eq_true, if_false] at h
          cases h
          exact represents
      | some datagram =>
        rw [sendcommand_known sends, if_pos rfl, sendcommand_eq sends]
        refine ⟨rfl, ?_⟩
        cases records : c.recorded with
        | true =>
          simp only [records, if_true] at h
          obtain ⟨t₂, inserted, same⟩ := map_eq_ok.1 h
          cases same
          exact represents.filenode_insert serves inserted
        | false =>
          simp only [records, Bool.false_eq_true, if_false] at h
          cases h
          exact represents

/-- A datagram that the name node outlives is handled as the directory says. -/
theorem Represents.datagram (represents : Represents t d)
    (h : (receivecommand_namenode net t host M).next = .ok (some t')) :
    ∃ d', Directory.turn d (.datagram net host M) =
        some ((receivecommand_namenode net t host M).sent, d') ∧ Represents t' d' := by
  obtain ⟨fits, -⟩ := namenode_branch h
  have long := not_le.2 fits
  rcases parsed : nextToken [comma] M with ⟨_ | cmd, m⟩
  · simp only [receivecommand_namenode, if_neg long, parsed] at h
    cases h
  simp only [Directory.turn, parsed, Option.bind_some]
  cases named : Command.ofText cmd with
  | none =>
    simp only [receivecommand_namenode, if_neg long, parsed, named] at h ⊢
    cases h
    exact ⟨d, rfl, represents⟩
  | some c =>
    obtain rfl := Command.ofText_eq_some named
    cases c with
    | datanode =>
      simp only [receivecommand_namenode, if_neg long, parsed, named] at h ⊢
      split_ifs at h with known
      · obtain ⟨t₁, inserted, same⟩ := map_eq_ok.1 h
        cases same
        exact ⟨d.enrol host, rfl, represents.datanode_insert inserted⟩
      · cases h
    | statfs | shutdown | dn_command =>
      simp only [receivecommand_namenode, if_neg long, parsed, named] at h ⊢
      cases h
      exact ⟨d, rfl, represents⟩
    | _ =>
      -- the thirteen commands that are forwarded
      have turn := namenode_eq_forward net t host parsed rfl fits
      rw [turn] at h ⊢
      cases path : (nextToken [comma] m).1 with
      | none =>
        rw [path] at h
        cases h
      | some path =>
        rw [path] at h
        obtain ⟨sent, represents⟩ := represents.forward h
        exact ⟨d, by simp only [Option.map_some, sent], represents⟩

theorem turn_simulates : Machine.Simulates Directory.turn Input.turn Represents := by
  intro t d input sent t' represents h
  have step := Input.turn_eq h
  cases input with
  | insert name ip alive =>
    obtain ⟨t₁, inserted, same⟩ := map_eq_ok.1 step
    cases same
    simp only [Input.turn, inserted] at h
    cases h
    exact ⟨d.enrol name, rfl, represents.datanode_insert inserted⟩
  | datagram net host M =>
    obtain ⟨d', turn, represents⟩ := represents.datagram step
    change (receivecommand_namenode net t host M).next = .ok (some t') at step
    simp only [Input.turn, step] at h
    cases h
    exact ⟨d', turn, represents⟩

end Represents

/-- The lists of every name node are those of a directory. -/
theorem Reachable.represents {t : Tables} (reachable : Reachable t) :
    Represents t (t.dlist.map Datanode.node) := by
  induction reachable with
  | init config => exact represents_init config
  | @step t t' input _ next ih =>
    have again {d : Directory} (represents : Represents t' d) :
        Represents t' (t'.dlist.map Datanode.node) := by
      rw [represents.registered]
      exact represents
    cases input with
    | insert name ip alive =>
      obtain ⟨t₁, inserted, same⟩ := map_eq_ok.1 next
      cases same
      exact again (ih.datanode_insert inserted)
    | datagram net host M =>
      obtain ⟨d, -, represents⟩ := ih.datagram next
      exact again represents

/-- Over any run of registrations and datagrams, in networks that change, the name node sends what
the directory of its data nodes sends. -/
theorem namenode_refines_directory (config : List Byte) (inputs : List Input) (out : List (List Sent))
    (t : Tables) (run : Machine.trace Input.turn ⟨⟨[], config⟩, []⟩ inputs = some (out, t)) :
    Machine.trace Directory.turn [] inputs = some (out, t.dlist.map Datanode.node) := by
  obtain ⟨d, traced, represents⟩ := turn_simulates.trace (represents_init config) run
  rw [traced, represents.registered]

/-- Two data nodes register, and the directory is read while only the second one is up. -/
def failover : List Input :=
  [.datagram upNet (str "d") (str "datanode,"), .datagram upNet (str "e") (str "datanode,"),
    .datagram { upNet with alive := fun n => n = str "e" } (str "h")
      (str "readdir,/tmp/CS545/datanode/")]

theorem namenode_refines_directory_failover : ∃ out t,
    Machine.trace Input.turn ⟨⟨[], []⟩, []⟩ failover = some (out, t) ∧
      Machine.trace Directory.turn [] failover = some (out, t.dlist.map Datanode.node) :=
  have run : Machine.trace Input.turn ⟨⟨[], []⟩, []⟩ failover = some
      ([[], [], [.command (str "e") (str "readdir,h,readdir,/tmp/CS545/datanode/")]],
        ⟨⟨[⟨str "d", str "10.0.0.1", 1⟩, ⟨str "e", str "10.0.0.1", 1⟩],
          str "d,10.0.0.1,1\ne,10.0.0.1,1\n"⟩, [(newEntry (str "d")).present 1 (str "e")]⟩) := rfl
  ⟨_, _, run, namenode_refines_directory [] failover _ _ run⟩

end DistFs.Wire
