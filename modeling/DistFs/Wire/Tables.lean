import DistFs.Registry.Restart
import DistFs.Wire.Forwarding

/-!
# The tables over a run

What the operations of `list.c` and one turn of the name node do to the two lists.  A path that is
not in the file list has no data node, so the file list never holds a path but `DATANODE_DIR`.
-/

namespace DistFs.Wire

open CText Registry

/-! ## Looking up a data node -/

/-- An entry of the data-node list whose flag a failed probe may have cleared. -/
def Cleared (net : Net) (d d' : Datanode) : Prop :=
  d' = d ∨ d' = { d with alive := 0 } ∧ net.alive d.node = false

/-- Every replica in use is on a data node of the list, under a name that fits its buffer. -/
def Registered (dlist : List Datanode) (f : Filelist) : Prop :=
  ∀ i, f.rep i ≠ 0 → f.replica i ∈ dlist.map Datanode.node ∧ (f.replica i).length < 100

/-- The lists of a name node: they fit the configuration file, and the file list is empty or has the
one entry for `DATANODE_DIR`. -/
structure Sound (t : Tables) : Prop where
  small : (text t.dlist).length < 10000
  root : ∀ f ∈ t.sfile, t.sfile = [f] ∧ f.name = DATANODE_DIR ∧ Registered t.dlist f

/-- Some replica of the path answers. -/
def Located (net : Net) (t : Tables) (path : List Byte) : Prop :=
  ∃ f ∈ filelist_search t path, ∃ i, f.rep i ≠ 0 ∧ net.alive (f.replica i) = true

section Lookup

variable {net : Net} {t t' : Tables} {f : Filelist} {path name dn : List Byte}

theorem cleared_refl (net : Net) (dlist : List Datanode) :
    List.Forall₂ (Cleared net) dlist dlist :=
  List.forall₂_same.2 fun _ _ => .inl rfl

theorem cleared_nodes {dlist dlist' : List Datanode} (h : List.Forall₂ (Cleared net) dlist dlist') :
    dlist'.map Datanode.node = dlist.map Datanode.node := by
  induction h with
  | nil => rfl
  | cons head _ ih => rcases head with rfl | ⟨rfl, -⟩ <;> simp [ih]

/-- `fetch_datanode` clears flags of data nodes that do not answer. -/
theorem probe_cleared (net : Net) (dlist : List Datanode) :
    List.Forall₂ (Cleared net) dlist (probe net.alive dlist).2 := by
  induction dlist with
  | nil => exact .nil
  | cons d rest ih =>
    rw [probe]
    split_ifs with answered
    · exact cleared_refl net (d :: rest)
    · refine .cons ?_ ih
      rw [not_and_or, not_not] at answered
      rcases answered with dead | silent
      · exact .inl (by rw [← dead])
      · exact .inr ⟨rfl, by simpa using silent⟩

/-- Clearing flags does not make the text longer. -/
theorem cleared_text {dlist dlist' : List Datanode} (h : List.Forall₂ (Cleared net) dlist dlist') :
    (text dlist').length ≤ (text dlist).length := by
  induction h with
  | nil => exact le_rfl
  | @cons d d' _ _ head _ ih =>
    have line : d'.line.length ≤ d.line.length := by
      rcases head with rfl | ⟨rfl, -⟩
      · exact le_rfl
      · have zero : (snprintf 10 0).length = 1 := by decide
        have pos := List.length_pos_iff.2 (snprintf_ne_nil (by norm_num : 2 ≤ 10) d.alive)
        simp only [Datanode.line, List.length_append, List.length_cons, zero]
        omega
    rw [text_cons, text_cons, List.length_append, List.length_append]
    omega

theorem datanode_search_isSome {r : NodeList} (known : name ∈ r.dlist.map Datanode.node) :
    ∃ d, datanode_search r name = some d ∧ d.node = name := by
  obtain ⟨d, hd, rfl⟩ := List.mem_map.1 known
  have found : (datanode_search r d.node).isSome := by
    rw [datanode_search, List.find?_isSome]
    exact ⟨d, hd, by simp⟩
  obtain ⟨e, he⟩ := Option.isSome_iff_exists.1 found
  exact ⟨e, he, by simpa using List.find?_some he⟩

/-- A loop over an array stops at the first index with a property. -/
theorem find?_finRange {n : ℕ} {p : Fin n → Bool} {i : Fin n} :
    (List.finRange n).find? p = some i ↔ p i = true ∧ ∀ j < i, p j = false := by
  rw [List.find?_eq_some_iff_getElem]
  refine and_congr_right fun _ => ⟨?_, fun before => ?_⟩
  · rintro ⟨k, hk, rfl, before⟩ j lt
    rw [List.getElem_finRange] at lt
    have := before j.val lt
    rw [List.getElem_finRange] at this
    simpa using this
  · refine ⟨i.val, by simp, by simp, fun j lt => ?_⟩
    rw [List.getElem_finRange, before _ lt]
    rfl

/-- The loops over the replicas return the first wanted one that answers. -/
theorem Answers.fetchnum_eq (a : Answers) (registered : Registered t.dlist f) (wanted : ℕ → Bool)
    (positive : wanted 0 = false) (is : List (Fin 50)) :
    a.fetchnum t f wanted is =
      .ok (is.find? fun i => wanted (f.rep i) && a.slot i (f.replica i)) := by
  induction is with
  | nil => rfl
  | cons i rest ih =>
    rw [fetchnum]
    split_ifs with want
    · have used : f.rep i ≠ 0 := by
        intro zero
        rw [zero, positive] at want
        cases want
      obtain ⟨d, found, node⟩ := datanode_search_isSome (r := t.toNodeList) (registered i used).1
      simp only [found, node, ih, List.find?_cons, want, Bool.true_and]
      cases a.slot i (f.replica i) <;> rfl
    · simp only [ih, List.find?_cons, Bool.eq_false_iff.2 want, Bool.false_and]

/-- The slot that `getfiledn` is to choose. -/
inductive Chooses (answers : Fin 50 → Bool) (f : Filelist) : Option (Fin 50) → Prop where
  | synced {i : Fin 50} (present : f.rep i = 1) (answered : answers i = true)
      (first : ∀ j < i, f.rep j = 1 → answers j = false) : Chooses answers f (some i)
  | behind {i : Fin 50} (silent : ∀ j, f.rep j = 1 → answers j = false) (more : 1 < f.rep i)
      (answered : answers i = true) (first : ∀ j < i, 1 < f.rep j → answers j = false) :
      Chooses answers f (some i)
  | nothing (silent : ∀ j, f.rep j ≠ 0 → answers j = false) : Chooses answers f none

/-- The slot that is chosen is taken, and its node answers. -/
theorem Chooses.chosen {answers : Fin 50 → Bool} {i : Fin 50} (chooses : Chooses answers f (some i)) :
    f.rep i ≠ 0 ∧ answers i = true := by
  cases chooses with
  | synced present answered => exact ⟨by omega, answered⟩
  | behind _ more answered => exact ⟨by omega, answered⟩

theorem chooses_none {answers : Fin 50 → Bool} {choice : Option (Fin 50)} :
    Chooses answers f choice → (choice = none ↔ ∀ j, f.rep j ≠ 0 → answers j = false) := by
  intro chooses
  cases choice with
  | none =>
    cases chooses with
    | nothing silent => exact ⟨fun _ => silent, fun _ => rfl⟩
  | some i =>
    obtain ⟨used, answered⟩ := chooses.chosen
    simp only [reduceCtorEq, false_iff, not_forall]
    exact ⟨i, used, by rw [answered]; decide⟩

/-- `getfiledn` on an entry with registered nodes. -/
theorem getfiledn_registered (registered : Registered t.dlist f)
    (entry : filelist_search t path = some f) (a : Answers) :
    ∃ choice, a.getfiledn t path = .ok (choice.map f.replica, t) ∧
      Chooses (fun i => a.slot i (f.replica i)) f choice := by
  have first := a.fetchnum_eq registered (· == 1) rfl (List.finRange 50)
  have second := a.fetchnum_eq registered (1 < ·) rfl (List.finRange 50)
  simp only [Answers.getfiledn, entry, first, second]
  clear first second
  cases first : (List.finRange 50).find? fun i => f.rep i == 1 && a.slot i (f.replica i) with
  | some i =>
    refine ⟨some i, rfl, ?_⟩
    obtain ⟨found, before⟩ := find?_finRange.1 first
    simp only [Bool.and_eq_true, beq_iff_eq] at found
    apply Chooses.synced found.1 found.2
    intro j lt present
    simpa [present] using before j lt
  | none =>
    have silent : ∀ j, f.rep j = 1 → a.slot j (f.replica j) = false := by
      intro j present
      simpa [present] using List.find?_eq_none.1 first j (List.mem_finRange j)
    cases second : (List.finRange 50).find? fun i =>
      decide (1 < f.rep i) && a.slot i (f.replica i) with
    | some i =>
      refine ⟨some i, rfl, ?_⟩
      obtain ⟨found, before⟩ := find?_finRange.1 second
      simp only [Bool.and_eq_true, decide_eq_true_eq] at found
      apply Chooses.behind silent found.1 found.2
      intro j lt more
      simpa [more] using before j lt
    | none =>
      refine ⟨none, rfl, .nothing ?_⟩
      intro j used
      by_cases present : f.rep j = 1
      · exact silent j present
      · have more : 1 < f.rep j := by omega
        simpa [more] using List.find?_eq_none.1 second j (List.mem_finRange j)

/-- What `getfiledn` yields: a replica that answers, or nothing and a list with flags cleared. -/
inductive Looked (net : Net) (t : Tables) (path : List Byte) :
    Option (List Byte) → Tables → Prop where
  | found {f : Filelist} {i : Fin 50} (entry : filelist_search t path = some f)
      (used : f.rep i ≠ 0) (answers : net.alive (f.replica i) = true) :
      Looked net t path (some (f.replica i)) t
  | missing {t' : Tables} (absent : ¬ Located net t path) (files : t'.sfile = t.sfile)
      (cleared : List.Forall₂ (Cleared net) t.dlist t'.dlist) : Looked net t path none t'

theorem filelist_search_mem (entry : filelist_search t path = some f) :
    f ∈ t.sfile ∧ f.named path = true :=
  ⟨List.mem_of_find?_eq_some entry, List.find?_some entry⟩

/-- `fetch_datanode` on a list that fits the configuration file. -/
theorem fetch_datanode_sound (sound : Sound t) (net : Net) :
    ∃ r, fetch_datanode net.alive t.toNodeList = .ok (none, r) ∧
      List.Forall₂ (Cleared net) t.dlist r.dlist := by
  rw [fetch_datanode]
  split_ifs with empty
  · exact ⟨t.toNodeList, rfl, cleared_refl net t.dlist⟩
  · have cleared := probe_cleared net t.dlist
    have fits : (text (probe net.alive t.dlist).2).length < 10000 :=
      (cleared_text cleared).trans_lt sound.small
    refine ⟨⟨(probe net.alive t.dlist).2, text (probe net.alive t.dlist).2⟩, ?_, cleared⟩
    simp only [datanode_filewrite, if_pos fits]
    cases (probe net.alive t.dlist).1 <;> rfl

/-- `getfiledn` returns. -/
theorem getfiledn_looked (sound : Sound t) (net : Net) (path : List Byte) :
    ∃ found t', getfiledn net t path = .ok (found, t') ∧ Looked net t path found t' := by
  rw [getfiledn_answers]
  cases entry : filelist_search t path with
  | none =>
    obtain ⟨r, fetched, cleared⟩ := fetch_datanode_sound sound net
    refine ⟨none, { t with toNodeList := r }, ?_, .missing ?_ rfl cleared⟩
    · rw [Answers.getfiledn, entry]
      simp only [Net.answers, fetched]
      rfl
    · rintro ⟨f, mem, -⟩
      rw [entry] at mem
      cases mem
  | some f =>
    have registered := (sound.root f (filelist_search_mem entry).1).2.2
    obtain ⟨choice, result, chooses⟩ := getfiledn_registered registered entry net.answers
    refine ⟨choice.map f.replica, t, result, ?_⟩
    cases choice with
    | some i => exact .found entry chooses.chosen.1 chooses.chosen.2
    | none =>
      refine .missing ?_ rfl (cleared_refl net t.dlist)
      rintro ⟨g, mem, i, used, answers⟩
      obtain rfl : f = g := by rw [entry] at mem; exact Option.some.inj mem
      have quiet : net.alive (f.replica i) = false := (chooses_none chooses).1 rfl i used
      rw [answers] at quiet
      cases quiet

/-- What `getfiledn` has returned. -/
theorem Looked.of_eq {found : Option (List Byte)} (sound : Sound t)
    (located : getfiledn net t path = .ok (found, t')) : Looked net t path found t' := by
  obtain ⟨found', t₂, same, looked⟩ := getfiledn_looked sound net path
  rw [located] at same
  cases same
  exact looked

theorem Looked.sound {found : Option (List Byte)} (looked : Looked net t path found t')
    (sound : Sound t) : Sound t' := by
  cases looked with
  | found => exact sound
  | missing absent files cleared =>
    refine ⟨(cleared_text cleared).trans_lt sound.small, fun f hf => ?_⟩
    rw [files] at hf ⊢
    obtain ⟨single, root, registered⟩ := sound.root f hf
    refine ⟨single, root, fun i used => ?_⟩
    rw [cleared_nodes cleared]
    exact registered i used

theorem Looked.located {found : Option (List Byte)} (looked : Looked net t path found t') :
    found ≠ none ↔ Located net t path := by
  cases looked with
  | found entry used answers => exact ⟨fun _ => ⟨_, entry, _, used, answers⟩, fun _ => by simp⟩
  | missing absent => exact ⟨fun h => absurd rfl h, fun h => absurd h absent⟩

end Lookup

/-! ## Entering a replica -/

section Enter

variable {t t' : Tables} {f g : Filelist} {path name dn ip : List Byte} {alive : ℤ}

/-- What `filenode_insert` does to the file list: a new entry at its end, or one more replica in the
first entry for the path. -/
inductive Enters (path dn : List Byte) (files : List Filelist) : List Filelist → Prop where
  | new (absent : files.find? (Filelist.named path) = none) (short : path.length < 100) :
      Enters path dn files (files ++ [Filelist.present ⟨path, fun _ => 0, fun _ => []⟩ 0 dn])
  | more {before after : List Filelist} {f : Filelist} {i : Fin 50}
      (split : files = before ++ f :: after) (other : ∀ g ∈ before, g.named path = false)
      (named : f.named path = true) (free : getRepcreatenum f = some i) :
      Enters path dn files (before ++ f.present i dn :: after)

theorem filenode_insert_enters (h : filenode_insert path dn t = .ok t') : dn.length < 100 ∧
    ∃ files, Enters path dn t.sfile files ∧ t' = { t with sfile := files } := by
  by_cases long : 100 ≤ dn.length
  · rw [filenode_insert, if_pos long] at h
    cases h
  rw [filenode_insert, if_neg long] at h
  refine ⟨not_le.1 long, ?_⟩
  cases entry : filelist_search t path with
  | none =>
    simp only [entry] at h
    split_ifs at h with wide
    exact ⟨_, .new entry (not_le.1 wide), (Except.ok.inj h).symm⟩
  | some f =>
    simp only [entry] at h
    cases free : getRepcreatenum f with
    | none =>
      simp only [free] at h
      cases h
    | some i =>
      obtain ⟨named, before, after, split, other⟩ := List.find?_eq_some_iff_append.1 entry
      have other : ∀ g ∈ before, g.named path = false := fun g mem => by simpa using other g mem
      simp only [free, split, modify_findIdx other named] at h
      exact ⟨_, .more split other named free, (Except.ok.inj h).symm⟩

/-- In an entry that is there, `filenode_insert` uses the first free slot. -/
theorem filenode_insert_entry (single : t.sfile = [f]) (named : f.named path = true)
    (h : filenode_insert path dn t = .ok t') :
    ∃ i, f.rep i = 0 ∧ t' = { t with sfile := [f.present i dn] } := by
  obtain ⟨-, files, enters, rfl⟩ := filenode_insert_enters h
  cases enters with
  | new absent => simp [single, named] at absent
  | @more before after g i split other _ free =>
    rw [single] at split
    obtain ⟨rfl, same⟩ := List.append_eq_singleton_iff.1 split.symm |>.resolve_right (by simp)
    cases same
    have zero : f.rep i = 0 := by
      rw [getRepcreatenum] at free
      simpa using List.find?_some free
    exact ⟨i, zero, rfl⟩

theorem named_root (root : f.name = DATANODE_DIR) : f.named DATANODE_DIR = true := by
  rw [Filelist.named, root, beq_self_eq_true, Bool.true_or]

/-- The entry that `datanode_insert` makes in an empty file list. -/
def newEntry (dn : List Byte) : Filelist :=
  Filelist.present ⟨DATANODE_DIR, fun _ => 0, fun _ => []⟩ 0 dn

/-- In an empty file list `filenode_insert` makes an entry. -/
theorem filenode_insert_empty (empty : t.sfile = [])
    (h : filenode_insert DATANODE_DIR dn t = .ok t') :
    t' = { t with sfile := [newEntry dn] } := by
  obtain ⟨-, files, enters, rfl⟩ := filenode_insert_enters h
  cases enters with
  | new => rw [empty, List.nil_append, newEntry]
  | more split => simp [empty] at split

theorem filenode_insert_short (h : filenode_insert path dn t = .ok t') : dn.length < 100 :=
  (filenode_insert_enters h).1

/-- A replica is entered in the file list alone. -/
theorem filenode_insert_nodes (h : filenode_insert path dn t = .ok t') :
    t'.toNodeList = t.toNodeList := by
  obtain ⟨-, files, -, rfl⟩ := filenode_insert_enters h
  rfl

/-- There is a free slot for one more replica of a path. -/
def HasRoom (t : Tables) (path : List Byte) : Prop :=
  ∀ f ∈ filelist_search t path, ∃ i, f.rep i = 0

/-- A replica can be entered in a free slot, or in a new entry. -/
theorem filenode_insert_ok_iff : (∃ t', filenode_insert path dn t = .ok t') ↔
    dn.length < 100 ∧ (filelist_search t path = none → path.length < 100) ∧ HasRoom t path := by
  rw [filenode_insert, HasRoom]
  by_cases long : 100 ≤ dn.length
  · simp [long, not_lt.2 long]
  · simp only [if_neg long, not_le.1 long, true_and]
    cases filelist_search t path with
    | none => by_cases fits : path.length < 100 <;> simp [fits, not_le.2, not_lt.1]
    | some f =>
      have free : (getRepcreatenum f).isSome ↔ ∃ i, f.rep i = 0 := by
        simp [getRepcreatenum, List.find?_isSome]
      cases slot : getRepcreatenum f with
      | none =>
        rw [slot] at free
        simp only [Option.isSome_none, Bool.false_eq_true, false_iff] at free
        simp [slot, free]
      | some i =>
        rw [slot] at free
        simp only [Option.isSome_some, true_iff] at free
        simp [slot, free]

/-- The list of data nodes changes as in the registry. -/
theorem datanode_insert_nodes (h : datanode_insert name ip alive t = .ok t') :
    Registry.datanode_insert name ip alive t.toNodeList = .ok t'.toNodeList := by
  obtain ⟨t₁, recorded, h⟩ := bind_eq_ok.1 h
  obtain ⟨⟨r, cursor⟩, wrote, h⟩ := bind_eq_ok.1 h
  cases h
  rw [filenode_insert_nodes recorded] at wrote
  rw [Registry.datanode_insert]
  exact map_eq_ok.2 ⟨_, wrote, rfl⟩

/-- The file list after a registration: a new entry, or one more replica in the entry. -/
theorem datanode_insert_files (sound : Sound t) (h : datanode_insert name ip alive t = .ok t') :
    (t.sfile = [] ∧ t'.sfile = [newEntry name]) ∨
      ∃ f i, t.sfile = [f] ∧ f.rep i = 0 ∧ t'.sfile = [f.present i name] := by
  obtain ⟨t₁, recorded, h⟩ := bind_eq_ok.1 h
  obtain ⟨⟨r, cursor⟩, -, h⟩ := bind_eq_ok.1 h
  cases h
  cases stored : t.sfile with
  | nil =>
    obtain rfl := @filenode_insert_empty { t with dlist := entered name ip alive t.dlist } _ _
      stored recorded
    exact .inl ⟨rfl, rfl⟩
  | cons f rest =>
    obtain ⟨single, root, -⟩ := sound.root f (by rw [stored]; exact List.mem_cons_self)
    obtain ⟨i, free, rfl⟩ := @filenode_insert_entry { t with dlist := entered name ip alive t.dlist }
      _ _ _ _ single (named_root root) recorded
    exact .inr ⟨f, i, by rw [← stored, single], free, rfl⟩

/-- A registration enters the node and loses none. -/
theorem entered_nodes (name ip : List Byte) (alive : ℤ) (dlist : List Datanode) :
    ∀ n, n ∈ (entered name ip alive dlist).map Datanode.node ↔
      n = name ∨ n ∈ dlist.map Datanode.node := by
  intro n
  by_cases known : name ∈ dlist.map Datanode.node
  · rw [(entered_known known).1]
    exact ⟨.inr, fun h => h.elim (fun h => h ▸ known) id⟩
  · rw [entered_new known, List.map_append, List.mem_append, List.map_singleton,
      List.mem_singleton, or_comm]

theorem registered_present {dlist : List Datanode} {i : Fin 50} (registered : Registered dlist f)
    (known : dn ∈ dlist.map Datanode.node) (short : dn.length < 100) :
    Registered dlist (f.present i dn) := by
  intro j used
  by_cases same : j = i
  · subst same
    simpa only [Filelist.present, Function.update_self] using ⟨known, short⟩
  · simp only [Filelist.present, Function.update_of_ne same] at used ⊢
    exact registered j used

theorem registered_newEntry {dlist : List Datanode} (known : dn ∈ dlist.map Datanode.node)
    (short : dn.length < 100) : Registered dlist (newEntry dn) :=
  registered_present (fun _ used => absurd rfl used) known short

theorem datanode_insert_sound (sound : Sound t) (h : datanode_insert name ip alive t = .ok t') :
    Sound t' := by
  have nodes := datanode_insert_nodes h
  have list := datanode_insert_ok nodes
  have small : (text t'.dlist).length < 10000 := by
    obtain ⟨⟨r, cursor⟩, wrote, same⟩ := map_eq_ok.1 nodes
    obtain ⟨fits, rfl, -⟩ := datanode_filewrite_ok wrote
    rw [← same]
    exact fits
  have dlist : t'.dlist = entered name ip alive t.dlist := congrArg NodeList.dlist list
  have known : name ∈ t'.dlist.map Datanode.node := by
    rw [dlist]
    exact (entered_nodes name ip alive t.dlist name).2 (.inl rfl)
  have short : name.length < 100 := by
    obtain ⟨t₁, recorded, -⟩ := bind_eq_ok.1 h
    exact filenode_insert_short recorded
  refine ⟨small, fun g hg => ?_⟩
  rcases datanode_insert_files sound h with ⟨-, files⟩ | ⟨f, i, single, free, files⟩
  · rw [files] at hg ⊢
    obtain rfl := List.mem_singleton.1 hg
    exact ⟨rfl, rfl, registered_newEntry known short⟩
  · obtain ⟨-, root, registered⟩ := sound.root f (by rw [single]; exact List.mem_singleton_self f)
    rw [files] at hg ⊢
    obtain rfl := List.mem_singleton.1 hg
    refine ⟨rfl, root, registered_present (fun j used => ?_) known short⟩
    rw [dlist]
    obtain ⟨enrolled, fits⟩ := registered j used
    exact ⟨(entered_nodes name ip alive t.dlist _).2 (.inr enrolled), fits⟩

theorem filenode_insert_sound (sound : Sound t) (entry : filelist_search t path = some f)
    (known : dn ∈ t.dlist.map Datanode.node) (h : filenode_insert path dn t = .ok t') :
    Sound t' := by
  obtain ⟨mem, named⟩ := filelist_search_mem entry
  obtain ⟨single, root, registered⟩ := sound.root f mem
  obtain ⟨i, -, rfl⟩ := filenode_insert_entry single named h
  refine ⟨sound.small, fun g hg => ?_⟩
  obtain rfl := List.mem_singleton.1 hg
  exact ⟨rfl, root, registered_present registered known (filenode_insert_short h)⟩

end Enter

/-! ## Turns -/

/-- The command and the path in front of a datagram. -/
structure Asks (M : List Byte) (c : Command) (path : List Byte) : Prop where
  command : (nextToken [comma] M).1 = some c.text
  path : (nextToken [comma] (nextToken [comma] M).2).1 = some path

/-- The name node sends a datagram for the path on to a data node. -/
def Forwards (net : Net) (t : Tables) (path : List Byte) : Prop :=
  ∃ dn t', getfiledn net t path = .ok (some dn, t') ∧ net.known dn = true

/-- What a turn that ends in another turn does to the lists. -/
inductive Effect (net : Net) (t : Tables) (host M : List Byte) : Tables → Prop where
  | idle (other : ∀ c : Command, (nextToken [comma] M).1 = some c.text →
      c.forwards = false ∧ c ≠ .datanode) : Effect net t host M t
  | registered {t' : Tables} (first : (nextToken [comma] M).1 = some Command.datanode.text)
      (inserted : datanode_insert host (net.address host) 1 t = .ok t') : Effect net t host M t'
  | looked {c : Command} {path : List Byte} {found : Option (List Byte)} {t' : Tables}
      (asks : Asks M c path) (forwards : c.forwards = true)
      (located : getfiledn net t path = .ok (found, t'))
      (unrecorded : c.recorded = true → ¬ Forwards net t path) : Effect net t host M t'
  | recorded {c : Command} {path dn : List Byte} {t₁ t' : Tables} (asks : Asks M c path)
      (records : c.recorded = true) (located : getfiledn net t path = .ok (some dn, t₁))
      (known : net.known dn = true) (inserted : filenode_insert path dn t₁ = .ok t') :
      Effect net t host M t'

section Turns

variable {net : Net} {t t' : Tables} {host M : List Byte} {c : Command}

/-- A forwarded command either leaves the lists as `getfiledn` does or enters a replica. -/
theorem forward_effect {buf2 : List Byte} (first : (nextToken [comma] M).1 = some c.text)
    (forwards : c.forwards = true)
    (h : (forward net t host buf2 (nextToken [comma] (nextToken [comma] M).2).1 c c.junk c.recorded
      c.stops).next = .ok (some t')) : Effect net t host M t' := by
  cases second : (nextToken [comma] (nextToken [comma] M).2).1 with
  | none =>
    rw [second] at h
    cases h
  | some path =>
    have asks : Asks M c path := ⟨first, second⟩
    rw [second] at h
    simp only [forward] at h
    split at h
    · cases h
    · next t₁ located =>
      have unsent : ¬ Forwards net t path := by
        rintro ⟨dn, t₂, same, -⟩
        rw [located] at same
        cases same
      split at h
      · cases h
      · cases h
        exact .looked asks forwards located fun _ => unsent
    · next dn t₁ located =>
      split at h
      · cases h
      · next unsent =>
        have unknown := sendcommand_eq_none.1 unsent
        obtain rfl : t₁ = t' := by
          split_ifs at h
          · cases h
          · exact Option.some.inj (Except.ok.inj h)
        refine .looked asks forwards located fun _ => ?_
        rintro ⟨dn', t₂, same, known⟩
        rw [located] at same
        cases same
        rw [unknown] at known
        cases known
      · next datagram sent =>
        split_ifs at h with records
        · obtain ⟨t₂, inserted, same⟩ := map_eq_ok.1 h
          cases same
          exact .recorded asks records located (sendcommand_known sent) inserted
        · cases h
          exact .looked asks forwards located fun record => absurd record records

/-- The branch of `receivecommand_namenode` behind a turn that ends in another. -/
inductive Branch (net : Net) (t : Tables) (host M : List Byte) (t' : Tables) : Prop where
  | idle (same : t' = t) (other : ∀ c : Command, (nextToken [comma] M).1 = some c.text →
      c.forwards = false ∧ c ≠ .datanode)
  | registered (first : (nextToken [comma] M).1 = some Command.datanode.text)
      (known : net.known host = true)
      (inserted : datanode_insert host (net.address host) 1 t = .ok t')
  | forwarded {c : Command} (first : (nextToken [comma] M).1 = some c.text)
      (forwards : c.forwards = true)
      (next : (forward net t host (host ++ comma :: cstr M)
        (nextToken [comma] (nextToken [comma] M).2).1 c c.junk c.recorded c.stops).next =
          .ok (some t'))

theorem namenode_branch (h : (receivecommand_namenode net t host M).next = .ok (some t')) :
    (host ++ comma :: cstr M).length < 1000 ∧ Branch net t host M t' := by
  by_cases long : 1000 ≤ (host ++ comma :: cstr M).length
  · simp only [receivecommand_namenode, if_pos long] at h
    cases h
  have fits := not_le.1 long
  refine ⟨fits, ?_⟩
  rcases parsed : nextToken [comma] M with ⟨_ | cmd, m⟩
  · simp only [receivecommand_namenode, if_neg long, parsed] at h
    cases h
  have first : (nextToken [comma] M).1 = some cmd := congrArg Prod.fst parsed
  cases named : Command.ofText cmd with
  | none =>
    simp only [receivecommand_namenode, if_neg long, parsed, named] at h
    cases h
    refine .idle rfl fun c same => ?_
    obtain rfl : cmd = c.text := Option.some.inj (first.symm.trans same)
    rw [Command.ofText_text] at named
    cases named
  | some c =>
    obtain rfl := Command.ofText_eq_some named
    cases c with
    | datanode =>
      simp only [receivecommand_namenode, if_neg long, parsed, named] at h
      split_ifs at h with known
      · obtain ⟨t₁, inserted, same⟩ := map_eq_ok.1 h
        cases same
        exact .registered first known inserted
      · cases h
    | statfs | shutdown | dn_command =>
      simp only [receivecommand_namenode, if_neg long, parsed, named] at h
      cases h
      refine .idle rfl fun c same => ?_
      obtain rfl := Command.text_injective (Option.some.inj (first.symm.trans same))
      decide
    | _ =>
      rw [namenode_eq_forward net t host parsed rfl fits] at h
      apply Branch.forwarded first rfl
      rw [parsed]
      exact h

/-- What any datagram does to the lists. -/
theorem namenode_effect (h : (receivecommand_namenode net t host M).next = .ok (some t')) :
    Effect net t host M t' := by
  cases (namenode_branch h).2 with
  | idle same other => exact same ▸ .idle other
  | registered first _ inserted => exact .registered first inserted
  | forwarded first forwards next => exact forward_effect first forwards next

theorem Effect.sound (effect : Effect net t host M t') (sound : Sound t) : Sound t' := by
  cases effect with
  | idle => exact sound
  | registered first inserted => exact datanode_insert_sound sound inserted
  | @looked c path found _ asks forwards located =>
    exact (Looked.of_eq sound located).sound sound
  | @recorded c path dn t₁ _ asks records located known inserted =>
    cases Looked.of_eq sound located with
    | @found f i entry used answers =>
      have registered := (sound.root f (filelist_search_mem entry).1).2.2
      exact filenode_insert_sound sound entry (registered i used).1 inserted

/-- A datagram that is no registration keeps the data nodes and the replicas. -/
theorem Effect.kept (effect : Effect net t host M t') (sound : Sound t)
    (other : (nextToken [comma] M).1 ≠ some Command.datanode.text) :
    t'.dlist.map Datanode.node = t.dlist.map Datanode.node ∧
      ∀ f ∈ t.sfile, ∃ f' ∈ t'.sfile, ∀ i, f.rep i ≠ 0 → f'.rep i ≠ 0 := by
  have same : ∀ f ∈ t.sfile, ∃ f' ∈ t.sfile, ∀ i, f.rep i ≠ 0 → f'.rep i ≠ 0 :=
    fun f mem => ⟨f, mem, fun _ => id⟩
  cases effect with
  | idle => exact ⟨rfl, same⟩
  | registered first => exact absurd first other
  | @looked c path found _ asks forwards located =>
    cases Looked.of_eq sound located with
    | found => exact ⟨rfl, same⟩
    | missing absent files cleared =>
      rw [files]
      exact ⟨cleared_nodes cleared, same⟩
  | @recorded c path dn t₁ _ asks records located known inserted =>
    cases Looked.of_eq sound located with
    | @found f i entry used answers =>
      obtain ⟨mem, named⟩ := filelist_search_mem entry
      obtain ⟨single, -⟩ := sound.root f mem
      obtain ⟨j, free, rfl⟩ := filenode_insert_entry single named inserted
      refine ⟨rfl, fun g hg => ⟨_, List.mem_singleton_self _, fun k usedK => ?_⟩⟩
      rw [single] at hg
      obtain rfl := List.mem_singleton.1 hg
      by_cases atJ : k = j
      · simp [Filelist.present, atJ]
      · simpa [Filelist.present, atJ] using usedK

end Turns

/-! ## Runs -/

/-- What reaches a name node: an entry of the configuration file, or a datagram from a host in a
network that may have changed. -/
inductive Input where
  | insert (name ip : List Byte) (alive : ℤ)
  | datagram (net : Net) (host buf1 : List Byte)

/-- The lists after an input, unless it ends the loop. -/
def Input.step (t : Tables) : Input → Except Fault (Option Tables)
  | .insert name ip alive => some <$> datanode_insert name ip alive t
  | .datagram net host buf1 => (receivecommand_namenode net t host buf1).next

/-- The lists behind a run, unless some input ends the loop. -/
def runFrom : Tables → List Input → Except Fault (Option Tables)
  | t, [] => .ok (some t)
  | t, input :: rest => do
      match ← input.step t with
      | none => return none
      | some t => runFrom t rest

/-- The lists of a name node that has started with the contents of some file. -/
inductive Reachable : Tables → Prop where
  | init (config : List Byte) : Reachable ⟨⟨[], config⟩, []⟩
  | step {t t' : Tables} (input : Input) (reachable : Reachable t)
      (next : input.step t = .ok (some t')) : Reachable t'

theorem Input.step_sound {t t' : Tables} {input : Input} (next : input.step t = .ok (some t'))
    (sound : Sound t) : Sound t' := by
  cases input with
  | insert name ip alive =>
    obtain ⟨t₁, inserted, same⟩ := map_eq_ok.1 next
    cases same
    exact datanode_insert_sound sound inserted
  | datagram net host buf1 => exact (namenode_effect next).sound sound

theorem Reachable.runFrom {t t' : Tables} {inputs : List Input} (reachable : Reachable t)
    (run : runFrom t inputs = .ok (some t')) : Reachable t' := by
  induction inputs generalizing t with
  | nil =>
    cases run
    exact reachable
  | cons input rest ih =>
    obtain ⟨next, step, run⟩ := bind_eq_ok.1 run
    cases next with
    | none => cases run
    | some t₁ => exact ih (.step input reachable step) run

/-- Every name node has sound lists. -/
theorem Reachable.sound {t : Tables} (reachable : Reachable t) : Sound t := by
  induction reachable with
  | init config => exact ⟨by simp [text], by simp⟩
  | step input _ next ih => exact Input.step_sound next ih

end DistFs.Wire
