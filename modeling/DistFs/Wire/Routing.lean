import DistFs.Wire.Failures
import DistFs.Wire.Requests

/-!
# Routing

The name spaces of the data nodes beside the lists of the name node.  A call changes the name space
of the node that serves it or fails; nothing ever removes an entry from the file list.
-/

namespace DistFs.Wire

open CText Registry

/-! ## Name spaces -/

/-- The slash between the names of a path. -/
def slash : Byte := 47

/-- The names in a path: empty names and `.` are passed over, `..` goes up. -/
def names (path : List Byte) : List (List Byte) :=
  (path.splitOn slash).foldl (fun p n =>
    if n = [] ∨ n = str "." then p else if n = str ".." then p.dropLast else p ++ [n]) []

/-- A path as it is written. -/
def pathname (p : List (List Byte)) : List Byte := p.flatMap (slash :: ·)

/-- What a path may name. -/
inductive Kind where
  | file
  | directory
deriving DecidableEq

/-- What exists on a data node, by path. -/
abbrev FileSystem := List (List Byte) → Option Kind

/-- A data node that holds `DATANODE_DIR` alone. -/
def onlyRoot : FileSystem := fun p => if p = names DATANODE_DIR then some .directory else none

/-- What exists behind a rename. -/
def moved (source target : List (List Byte)) (fs : FileSystem) : FileSystem := fun p =>
  if target <+: p then fs (source ++ p.drop target.length)
  else if source <+: p then none else fs p

/-- What a system call that changes names can do.  It may always fail; `sendresponse_write` opens
its file without `O_CREAT`. -/
inductive Performs : Call → FileSystem → FileSystem → Prop where
  | failed (call : Call) (fs : FileSystem) : Performs call fs fs
  | mknod {path : List Byte} {mode rdev : ℤ} {fs : FileSystem} (absent : fs (names path) = none) :
      Performs (.mknod (some path) mode rdev) fs (Function.update fs (names path) (some .file))
  | mkdir {path : List Byte} {imode : ℤ} {fs : FileSystem} (absent : fs (names path) = none) :
      Performs (.mkdir (some path) imode) fs (Function.update fs (names path) (some .directory))
  | unlink {path : List Byte} {fs : FileSystem} (file : fs (names path) = some .file) :
      Performs (.unlink (some path)) fs (Function.update fs (names path) none)
  | rmdir {path : List Byte} {fs : FileSystem} (directory : fs (names path) = some .directory)
      (empty : ∀ p, names path <+: p → fs p ≠ none → p = names path) :
      Performs (.rmdir (some path)) fs (Function.update fs (names path) none)
  | rename {path dpath : List Byte} {fs : FileSystem} (present : fs (names path) ≠ none)
      (outside : ¬ names path <+: names dpath) :
      Performs (.rename (some path) (some dpath)) fs (moved (names path) (names dpath) fs)

/-! ## Clusters -/

/-- The lists of the name node and the name spaces of the data nodes. -/
structure Cluster where
  tables : Tables
  disks : List Byte → FileSystem

/-- The calls that a datagram leads to, each on its own data node.  What the name node answers
itself changes no data node. -/
def Performed : List Served → (List Byte → FileSystem) → (List Byte → FileSystem) → Prop
  | [], disks, disks' => disks' = disks
  | ⟨none, _, _⟩ :: rest, disks, disks' => Performed rest disks disks'
  | ⟨some node, _, call⟩ :: rest, disks, disks' =>
      ∃ fs, Performs call (disks node) fs ∧ Performed rest (Function.update disks node fs) disks'

/-- The requests that change names. -/
def Changing (M : CString) : Prop :=
  ∃ c path, Asks M.bytes c path ∧ c ∈ [.mknod, .mkdir, .write, .rename, .unlink, .rmdir]

/-- A request is handled by the name node and by the data node it is forwarded to. -/
structure Handled (net : Net) (s : Cluster) (host : Host) (M : CString) (s' : Cluster) : Prop where
  changing : Changing M
  next : (receivecommand_namenode net s.tables host.name M.bytes).next = .ok (some s'.tables)
  performed : Performed (serve net s.tables host.name M.bytes) s.disks s'.disks

/-- Runs of requests that all have a property. -/
inductive Run (net : Net) (P : CString → Prop) (start : Cluster) : Cluster → Prop where
  | start : Run net P start start
  | step {s s' : Cluster} {host : Host} {M : CString} (run : Run net P start s) (allowed : P M)
      (handled : Handled net s host M s') : Run net P start s'

/-- A path that exists on some registered data node is looked up on a node where it exists. -/
def RoutingFollows (net : Net) (s : Cluster) : Prop :=
  ∀ p, (∃ d ∈ s.tables.dlist, s.disks d.node p ≠ none) →
    ∃ dn t, getfiledn net s.tables (pathname p) = .ok (some dn, t) ∧ s.disks dn p ≠ none

/-- The lists of a name node behind some registrations. -/
structure Enrolled (net : Net) (t : Tables) : Prop where
  registered : ∃ (config : List Byte) (nodes : List Datanode), runFrom ⟨⟨[], config⟩, []⟩
    (nodes.map fun d => .insert d.node d.ip d.alive) = .ok (some t)
  answers : ∀ d ∈ t.dlist, net.alive d.node = true

/-- The request does not remove `DATANODE_DIR` and does not move it away. -/
def LeavesRoot (M : CString) : Prop :=
  ∀ path, names path = names DATANODE_DIR → ¬ Asks M.bytes .rmdir path ∧
    (Asks M.bytes .rename path → ∀ dpath,
      (nextToken [comma] (nextToken [comma] (nextToken [comma] M.bytes).2).2).1 = some dpath →
        names DATANODE_DIR <+: names dpath)

section Root

variable {net : Net} {s s' : Cluster} {host : Host} {M : CString} {path h : List Byte} {c : Command}
  {call : Call} {fs : FileSystem}

/-- A call on `DATANODE_DIR` fails, unless it removes it or moves it away. -/
theorem performs_onlyRoot (performs : Performs call onlyRoot fs) (at_ : call.path = some path)
    (root : names path = names DATANODE_DIR) (kept : ∀ p, call ≠ .rmdir p)
    (stays : ∀ p dpath, call = .rename p (some dpath) → names DATANODE_DIR <+: names dpath) :
    fs = onlyRoot := by
  cases performs with
  | failed => rfl
  | mknod absent | mkdir absent =>
    obtain rfl := Option.some.inj at_
    simp [onlyRoot, root] at absent
  | unlink file =>
    obtain rfl := Option.some.inj at_
    simp [onlyRoot, root] at file
  | rmdir => exact absurd rfl (kept _)
  | rename present outside =>
    obtain rfl := Option.some.inj at_
    rw [root] at outside
    exact absurd (stays _ _ rfl) outside

/-- What a request that changes names makes a data node call. -/
theorem server_changing {m : List Byte} (asks : Asks m c path)
    (changing : c ∈ [Command.mknod, .mkdir, .write, .rename, .unlink, .rmdir]) {host' : List Byte}
    (react : receivecommand_server net h m = .ok (.respond host' call)) :
    call.path = some path ∧ (∀ p, call = .rmdir p → c = .rmdir) ∧
      ∀ p dpath, call = .rename p (some dpath) → c = .rename ∧
        (nextToken [comma] (nextToken [comma] (nextToken [comma] m).2).2).1 = some dpath := by
  obtain ⟨first, second⟩ := asks
  rcases parsed : nextToken [comma] m with ⟨_ | cmd, rest⟩
  · rw [parsed] at first
    cases first
  · rw [parsed] at first second
    obtain rfl := Option.some.inj first
    simp only [receivecommand_server, parsed, Command.ofText_text] at react
    simp only [List.mem_cons, List.not_mem_nil, or_false] at changing
    rcases changing with rfl | rfl | rfl | rfl | rfl | rfl
    · cases react
      exact ⟨second, by simp, by simp⟩
    · obtain ⟨imode, -, same⟩ := bind_eq_ok.1 react
      cases same
      exact ⟨second, by simp, by simp⟩
    · cases react
      exact ⟨second, by simp, by simp⟩
    · cases react
      exact ⟨second, by simp, by simp⟩
    · cases react
      exact ⟨second, by simp, by simp⟩
    · cases react
      exact ⟨second, by simp, by simp⟩

/-- The file list finds `DATANODE_DIR` with and without a closing slash. -/
theorem names_of_named {f : Filelist} (named : f.named path = true) (root : f.name = DATANODE_DIR) :
    names path = names DATANODE_DIR := by
  rw [Filelist.named, root, Bool.or_eq_true, beq_iff_eq, beq_iff_eq] at named
  rcases named with rfl | named
  · rfl
  · split_ifs at named with closed
    · obtain ⟨front, rfl⟩ := List.getLast?_eq_some_iff.1 closed
      rw [List.dropLast_concat] at named
      subst named
      decide
    · rw [named]

/-- What a request that changes names leads to: nothing, an answer of the name node, or a call of a
data node on `DATANODE_DIR`. -/
theorem serve_changing {t : Tables} (sound : Sound t) (asks : Asks M.bytes c path)
    (forwards : c.forwards = true) (fits : (host.name ++ comma :: cstr M.bytes).length < 1000) :
    serve net t host.name M.bytes = [] ∨
      (∃ call, serve net t host.name M.bytes = [⟨none, host.name, call⟩]) ∨
      names path = names DATANODE_DIR ∧
        ∃ dn, serve net t host.name M.bytes =
          served dn (receivecommand_server net host.name M.bytes) := by
  obtain ⟨found, t', located, looked⟩ := getfiledn_looked sound net path
  have turn := namenode_eq_forward net t host.name (Prod.ext asks.command rfl) forwards fits
  rw [asks.path, cstr_of_noNul M.noNul] at turn
  rw [serve, turn]
  cases looked with
  | missing =>
    simp only [forward, located]
    cases c.junk with
    | none => exact .inl rfl
    | some call => exact .inr (.inl ⟨call, rfl⟩)
  | @found f i entry =>
    obtain ⟨mem, named⟩ := filelist_search_mem entry
    have root := names_of_named named (sound.root f mem).2.1
    simp only [forward, located]
    cases sent : sendcommand net (f.replica i) (host.name ++ comma :: M.bytes) c with
    | error e => exact .inl rfl
    | ok sent' =>
      cases sent' with
      | none => exact .inl rfl
      | some datagram =>
        obtain rfl : datagram = framed c host M.bytes := sendcommand_eq sent
        refine .inr (.inr ⟨root, f.replica i, ?_⟩)
        simp only [List.flatMap_cons, List.flatMap_nil, List.append_nil,
          datanode_eq_server net host asks.command forwards]
        rfl

/-- The data nodes are registered and hold `DATANODE_DIR` alone. -/
structure Rooted (nodes : List (List Byte)) (s : Cluster) : Prop where
  sound : Sound s.tables
  nodes : s.tables.dlist.map Datanode.node = nodes
  entered : s.tables.dlist ≠ [] → ∃ f ∈ s.tables.sfile, ∃ i, f.rep i ≠ 0
  disks : s.disks = fun _ => onlyRoot

theorem Changing.forwards {M : CString} (changing : Changing M) : ∃ c path, Asks M.bytes c path ∧
    c.forwards = true ∧ c ∈ [Command.mknod, .mkdir, .write, .rename, .unlink, .rmdir] := by
  obtain ⟨c, path, asks, mem⟩ := changing
  refine ⟨c, path, asks, ?_, mem⟩
  simp only [List.mem_cons, List.not_mem_nil, or_false] at mem
  rcases mem with rfl | rfl | rfl | rfl | rfl | rfl <;> rfl

/-- The calls of a request leave every data node with `DATANODE_DIR` alone. -/
theorem Handled.disks (handled : Handled net s host M s') (sound : Sound s.tables)
    (disks : s.disks = fun _ => onlyRoot) (leaves : LeavesRoot M) :
    s'.disks = fun _ => onlyRoot := by
  obtain ⟨c, path, asks, forwards, changing⟩ := handled.changing.forwards
  have fits := (namenode_branch handled.next).1
  have performed := handled.performed
  rw [disks] at performed
  rcases serve_changing sound asks forwards fits with none_ | ⟨call, junk⟩ | ⟨root, dn, served_⟩
  · rw [none_] at performed
    exact performed
  · rw [junk] at performed
    exact performed
  · rw [served_] at performed
    cases react : receivecommand_server net host.name M.bytes with
    | error e =>
      rw [react] at performed
      exact performed
    | ok reaction =>
      rw [react] at performed
      cases reaction with
      | respond h call =>
        obtain ⟨fs, performs, same⟩ := performed
        obtain ⟨at_, removes, moves⟩ := server_changing asks changing react
        have stays : fs = onlyRoot := by
          refine performs_onlyRoot performs at_ root (fun p remove => ?_) fun p dpath move => ?_
          · obtain rfl := removes p remove
            exact (leaves path root).1 asks
          · obtain ⟨rfl, target⟩ := moves p dpath move
            exact (leaves path root).2 asks dpath target
        rw [same, stays]
        exact Function.update_eq_self dn _
      | datanode_insert | ignored | stopped => exact performed

/-- One request keeps the data nodes and their name spaces. -/
theorem Rooted.step {nodes : List (List Byte)} (rooted : Rooted nodes s)
    (handled : Handled net s host M s') (leaves : LeavesRoot M) : Rooted nodes s' := by
  have effect := namenode_effect handled.next
  obtain ⟨c, path, asks, forwards, -⟩ := handled.changing.forwards
  have other : (nextToken [comma] M.bytes).1 ≠ some Command.datanode.text := by
    intro first
    obtain rfl := Command.text_injective (Option.some.inj (asks.command.symm.trans first))
    cases forwards
  obtain ⟨same, kept⟩ := effect.kept rooted.sound other
  refine ⟨effect.sound rooted.sound, same.trans rooted.nodes, fun nonempty => ?_,
    handled.disks rooted.sound rooted.disks leaves⟩
  have before : s.tables.dlist ≠ [] := by
    intro empty
    rw [empty] at same
    exact nonempty (List.map_eq_nil_iff.1 same)
  obtain ⟨f, mem, i, used⟩ := rooted.entered before
  obtain ⟨f', mem', uses⟩ := kept f mem
  exact ⟨f', mem', i, uses i used⟩

/-- With `DATANODE_DIR` on every data node, lookups follow the name space. -/
theorem Rooted.routingFollows {nodes : List (List Byte)} (rooted : Rooted nodes s)
    (answers : ∀ n ∈ nodes, net.alive n = true) : RoutingFollows net s := by
  rintro p ⟨d, mem, exists_⟩
  rw [rooted.disks] at exists_
  have root : p = names DATANODE_DIR := by
    by_contra other
    exact exists_ (if_neg other)
  subst root
  obtain ⟨f, memF, i, used⟩ := rooted.entered (List.ne_nil_of_mem mem)
  obtain ⟨single, name, registered⟩ := rooted.sound.root f memF
  have entry : filelist_search s.tables DATANODE_DIR = some f := by
    rw [filelist_search, single, List.find?_cons, named_root name]
  have alive : net.alive (f.replica i) = true := by
    have known := (registered i used).1
    rw [rooted.nodes] at known
    exact answers _ known
  have here : Located net s.tables DATANODE_DIR := ⟨f, entry, i, used, alive⟩
  have path : pathname (names DATANODE_DIR) = DATANODE_DIR := by decide
  obtain ⟨found, t', located, looked⟩ := getfiledn_looked rooted.sound net DATANODE_DIR
  obtain ⟨dn, rfl⟩ := Option.ne_none_iff_exists'.1 (looked.located.2 here)
  refine ⟨dn, t', by rw [path, located], ?_⟩
  rw [rooted.disks]
  simp [onlyRoot]

end Root

/-- Registered data nodes have an entry for `DATANODE_DIR`. -/
theorem runFrom_entered {t t' : Tables} {nodes : List Datanode} (sound : Sound t)
    (entered : t.dlist ≠ [] → ∃ f ∈ t.sfile, ∃ i, f.rep i ≠ 0)
    (run : runFrom t (nodes.map fun d => .insert d.node d.ip d.alive) = .ok (some t')) :
    t'.dlist ≠ [] → ∃ f ∈ t'.sfile, ∃ i, f.rep i ≠ 0 := by
  induction nodes generalizing t with
  | nil =>
    cases run
    exact entered
  | cons d rest ih =>
    obtain ⟨next, step, run⟩ := bind_eq_ok.1 run
    cases next with
    | none => cases run
    | some t₁ =>
      refine ih (Input.step_sound step sound) (fun _ => ?_) run
      obtain ⟨t₂, inserted, same⟩ := map_eq_ok.1 step
      cases same
      rcases datanode_insert_files sound inserted with ⟨-, files⟩ | ⟨f, i, -, -, files⟩
      · rw [files]
        exact ⟨_, List.mem_singleton_self _, 0, by simp [newEntry, Filelist.present]⟩
      · rw [files]
        exact ⟨_, List.mem_singleton_self _, i, by simp [Filelist.present]⟩

/-- Behind requests that leave `DATANODE_DIR` in its place, every path that exists is looked up on a
data node where it exists. -/
theorem routing_follows {net : Net} {t : Tables} {s : Cluster} (enrolled : Enrolled net t)
    (run : Run net LeavesRoot ⟨t, fun _ => onlyRoot⟩ s) : RoutingFollows net s := by
  obtain ⟨config, nodes, registered⟩ := enrolled.registered
  have init := Reachable.init config
  have rooted : Rooted (t.dlist.map Datanode.node) s := by
    induction run with
    | start =>
      exact ⟨(init.runFrom registered).sound, rfl,
        runFrom_entered init.sound (fun nonempty => absurd rfl nonempty) registered, rfl⟩
    | step _ leaves handled ih => exact ih.step handled leaves
  refine rooted.routingFollows fun n mem => ?_
  obtain ⟨d, memD, rfl⟩ := List.mem_map.1 mem
  exact enrolled.answers d memD

/-- A request to make the root. -/
def mkdirRoot : CString := .lit "mkdir,/tmp/CS545/datanode/,493"

theorem routing_follows_mkdir : ∃ s, Run upNet LeavesRoot ⟨oneFile DATANODE_DIR, fun _ => onlyRoot⟩ s ∧
    RoutingFollows upNet s := by
  have command : (nextToken [comma] mkdirRoot.bytes).1 = some Command.mkdir.text := by decide
  have leaves : LeavesRoot mkdirRoot := by
    refine fun path _ => ⟨fun asks => ?_, fun asks => ?_⟩
    · exact absurd (Command.text_injective (Option.some.inj (command.symm.trans asks.command)))
        (by decide)
    · exact absurd (Command.text_injective (Option.some.inj (command.symm.trans asks.command)))
        (by decide)
  have handled : Handled upNet ⟨oneFile DATANODE_DIR, fun _ => onlyRoot⟩ oneHost mkdirRoot
      ⟨⟨(oneFile DATANODE_DIR).toNodeList, [(newEntry (str "d")).present 1 (str "d")]⟩,
        fun _ => onlyRoot⟩ := by
    refine ⟨⟨.mkdir, _, ⟨command, rfl⟩, by decide⟩, rfl, ?_⟩
    exact ⟨onlyRoot, .failed _ _, (Function.update_eq_self _ _).symm⟩
  have run : Run upNet LeavesRoot ⟨oneFile DATANODE_DIR, fun _ => onlyRoot⟩ _ :=
    .step .start leaves handled
  exact ⟨_, run, routing_follows ⟨⟨[], [⟨str "d", str "10.0.0.1", 1⟩], rfl⟩, fun _ _ => rfl⟩ run⟩

/-- A name node that knows the data nodes `d` and `e`. -/
def twoNodes : Tables :=
  ⟨⟨[⟨str "d", str "10.0.0.1", 1⟩, ⟨str "e", str "10.0.0.2", 1⟩],
    str "d,10.0.0.1,1\ne,10.0.0.2,1\n"⟩, [(newEntry (str "d")).present 1 (str "e")]⟩

theorem twoNodes_enrolled : Enrolled upNet twoNodes :=
  ⟨⟨[], [⟨str "d", str "10.0.0.1", 1⟩, ⟨str "e", str "10.0.0.2", 1⟩], rfl⟩, fun _ _ => rfl⟩

/-- A request to remove the root. -/
def rmdirRoot : CString := .lit "rmdir,/tmp/CS545/datanode/"

/-- A request to move the root to another place. -/
def renameRoot : CString := .lit "rename,/tmp/CS545/datanode/,/tmp/x"

/-- The root as these requests spell it. -/
def rootSlash : List Byte := str "/tmp/CS545/datanode/"

/-- The other place. -/
def elsewhere : List Byte := str "/tmp/x"

/-- The directory that `d` has removed exists on `e`, but is looked up on `d`; the place to which
`d` has moved it is looked up nowhere. -/
theorem root_misrouted : Enrolled upNet twoNodes ∧
    (∃ s, Run upNet (· = rmdirRoot) ⟨twoNodes, fun _ => onlyRoot⟩ s ∧ ¬ RoutingFollows upNet s) ∧
    ∃ s, Run upNet (· = renameRoot) ⟨twoNodes, fun _ => onlyRoot⟩ s ∧ ¬ RoutingFollows upNet s := by
  have root : names rootSlash = names DATANODE_DIR := by decide
  have away : ¬ names rootSlash <+: names elsewhere := by decide
  refine ⟨twoNodes_enrolled, ?_, ?_⟩
  · have removes : Performs (.rmdir (some rootSlash)) onlyRoot
        (Function.update onlyRoot (names rootSlash) none) := by
      refine .rmdir (by simp [onlyRoot, root]) fun p _ exists_ => ?_
      by_contra other
      exact exists_ (if_neg (by rwa [root] at other))
    have handled : Handled upNet ⟨twoNodes, fun _ => onlyRoot⟩ oneHost rmdirRoot
        ⟨twoNodes, Function.update (fun _ => onlyRoot) (str "d")
          (Function.update onlyRoot (names rootSlash) none)⟩ :=
      ⟨⟨.rmdir, rootSlash, ⟨by decide, by decide⟩, by decide⟩, rfl,
        _, removes, rfl⟩
    refine ⟨_, .step .start rfl handled, fun follows => ?_⟩
    have onE : Function.update (fun _ => onlyRoot) (str "d")
        (Function.update onlyRoot (names rootSlash) none) (str "e") (names DATANODE_DIR) ≠ none := by
      rw [Function.update_of_ne (by decide)]
      simp [onlyRoot]
    obtain ⟨dn, t, located, present⟩ := follows (names DATANODE_DIR)
      ⟨⟨str "e", str "10.0.0.2", 1⟩, by simp [twoNodes], onE⟩
    have onD : getfiledn upNet twoNodes (pathname (names DATANODE_DIR)) =
        .ok (some (str "d"), twoNodes) := rfl
    rw [onD] at located
    cases located
    simp [root] at present
  · have moves : Performs (.rename (some rootSlash) (some elsewhere)) onlyRoot
        (moved (names rootSlash) (names elsewhere) onlyRoot) :=
      .rename (by simp [onlyRoot, root]) away
    have handled : Handled upNet ⟨twoNodes, fun _ => onlyRoot⟩ oneHost renameRoot
        ⟨twoNodes, Function.update (fun _ => onlyRoot) (str "d")
          (moved (names rootSlash) (names elsewhere) onlyRoot)⟩ :=
      ⟨⟨.rename, rootSlash, ⟨by decide, by decide⟩, by decide⟩, rfl,
        _, moves, rfl⟩
    refine ⟨_, .step .start rfl handled, fun follows => ?_⟩
    have there : moved (names rootSlash) (names elsewhere) onlyRoot (names elsewhere) ≠ none := by
      simp [moved, onlyRoot, root]
    obtain ⟨dn, t, located, -⟩ := follows (names elsewhere)
      ⟨⟨str "d", str "10.0.0.1", 1⟩, by simp [twoNodes], by simpa only [Function.update_self] using there⟩
    have nowhere : getfiledn upNet twoNodes (pathname (names elsewhere)) = .ok (none, twoNodes) := rfl
    rw [nowhere] at located
    cases located

end DistFs.Wire
