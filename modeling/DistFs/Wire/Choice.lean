import DistFs.Wire.Tables

/-!
# The choice among the replicas

`getfiledn` looks through the slots of an entry twice: for a replica in step, then for one that is
behind.  Each probe looks the node of the slot up in the list of data nodes.  Every node in a slot is
in that list, whatever the order of registrations and insertions, so no look-up fails.
-/

namespace DistFs.Wire

open CText Registry

/-- Replica `i` has fallen behind. -/
def Filelist.behind (f : Filelist) (i : Fin 50) (n : ℕ) : Filelist :=
  { f with rep := Function.update f.rep i n }

/-- The lists that registrations and insertions lead to, with the data nodes that `getfiledn` has
returned on the way. -/
inductive Replicated : Tables → List (List Byte) → Prop where
  | init (config : List Byte) : Replicated ⟨⟨[], config⟩, []⟩ []
  | datanode_insert {t t' : Tables} {given : List (List Byte)} {name ip : List Byte} {alive : ℤ}
      (before : Replicated t given) (h : datanode_insert name ip alive t = .ok t') :
      Replicated t' given
  | getfiledn {t t' : Tables} {given : List (List Byte)} {a : Answers} {name : List Byte}
      {found : Option (List Byte)} (before : Replicated t given)
      (h : a.getfiledn t name = .ok (found, t')) : Replicated t' (found.toList ++ given)
  | filenode_insert {t t' : Tables} {given : List (List Byte)} {name dn : List Byte}
      (before : Replicated t given) (returned : dn ∈ given)
      (h : filenode_insert name dn t = .ok t') : Replicated t' given
  | unsynced {t : Tables} {given : List (List Byte)} {front rest : List Filelist} {f : Filelist}
      {i : Fin 50} {n : ℕ} (before : Replicated t given) (entry : t.sfile = front ++ f :: rest)
      (used : f.rep i ≠ 0) (more : 2 ≤ n) :
      Replicated { t with sfile := front ++ f.behind i n :: rest } given

section Choice

variable {t t' : Tables} {f : Filelist} {files files' : List Filelist} {given : List (List Byte)}
  {a : Answers} {path name ip dn : List Byte} {alive : ℤ} {i : Fin 50} {n : ℕ}
  {dlist dlist' : List Datanode}

/-! ## Every slot names a registered node -/

theorem probe_nodes (answers : List Byte → Bool) (dlist : List Datanode) :
    (probe answers dlist).2.map Datanode.node = dlist.map Datanode.node := by
  induction dlist with
  | nil => rfl
  | cons d rest ih =>
    rw [probe]
    split_ifs
    · rfl
    · rw [List.map_cons, List.map_cons, ih]

/-- `fetch_datanode` keeps the data nodes. -/
theorem fetch_datanode_nodes {found : Option Datanode} {r r' : NodeList}
    (h : fetch_datanode a.node r = .ok (found, r')) :
    r'.dlist.map Datanode.node = r.dlist.map Datanode.node := by
  rw [fetch_datanode] at h
  split_ifs at h
  · cases h
    rfl
  · obtain ⟨⟨r₁, cursor⟩, wrote, same⟩ := map_eq_ok.1 h
    obtain ⟨-, rfl, -⟩ := datanode_filewrite_ok wrote
    cases same
    exact probe_nodes a.node r.dlist

theorem Registered.of_nodes (registered : Registered dlist f)
    (nodes : ∀ n ∈ dlist.map Datanode.node, n ∈ dlist'.map Datanode.node) :
    Registered dlist' f :=
  fun i used => ⟨nodes _ (registered i used).1, (registered i used).2⟩

theorem Registered.behind (registered : Registered dlist f) (used : f.rep i ≠ 0) :
    Registered dlist (f.behind i n) := by
  intro j taken
  by_cases same : j = i
  · subst same
    exact registered j used
  · have kept : (f.behind i n).rep j = f.rep j := Function.update_of_ne same _ _
    exact registered j (kept ▸ taken)

/-- A new replica on a registered node. -/
theorem registered_enters (registered : ∀ f ∈ files, Registered dlist f)
    (known : dn ∈ dlist.map Datanode.node) (short : dn.length < 100)
    (enters : Enters path dn files files') : ∀ f ∈ files', Registered dlist f := by
  cases enters with
  | new =>
    rw [List.forall_mem_append, List.forall_mem_singleton]
    exact ⟨registered, registered_present (fun _ used => absurd rfl used) known short⟩
  | more split =>
    subst split
    rw [List.forall_mem_append, List.forall_mem_cons] at registered ⊢
    obtain ⟨front, here, rest⟩ := registered
    exact ⟨front, registered_present here known short, rest⟩

/-! ## Runs -/

/-- What every run keeps: the nodes in the slots and the nodes that were returned are registered. -/
structure Covered (t : Tables) (given : List (List Byte)) : Prop where
  registered : ∀ f ∈ t.sfile, Registered t.dlist f
  returned : ∀ dn ∈ given, dn ∈ t.dlist.map Datanode.node

theorem Covered.datanode_insert (covered : Covered t given)
    (h : datanode_insert name ip alive t = .ok t') : Covered t' given := by
  have list := congrArg NodeList.dlist (datanode_insert_ok (datanode_insert_nodes h))
  have nodes := entered_nodes name ip alive t.dlist
  obtain ⟨t₁, inserted, h⟩ := bind_eq_ok.1 h
  obtain ⟨⟨r, cursor⟩, -, same⟩ := bind_eq_ok.1 h
  cases same
  obtain ⟨short, files, enters, rfl⟩ := filenode_insert_enters inserted
  change r.dlist = entered name ip alive t.dlist at list
  constructor
  · change ∀ f ∈ files, Registered r.dlist f
    rw [list]
    refine registered_enters (fun f mem => ?_) ((nodes name).2 (.inl rfl)) short enters
    exact (covered.registered f mem).of_nodes fun n known => (nodes n).2 (.inr known)
  · change ∀ dn ∈ given, dn ∈ r.dlist.map Datanode.node
    rw [list]
    exact fun dn mem => (nodes dn).2 (.inr (covered.returned dn mem))

theorem Covered.getfiledn {found : Option (List Byte)} (covered : Covered t given)
    (h : a.getfiledn t name = .ok (found, t')) : Covered t' (found.toList ++ given) := by
  cases entry : filelist_search t name with
  | none =>
    rw [Answers.getfiledn, entry] at h
    obtain ⟨⟨d, r⟩, fetched, same⟩ := bind_eq_ok.1 h
    obtain rfl := fetch_datanode_none fetched
    have nodes := fetch_datanode_nodes fetched
    cases same
    refine ⟨fun f mem => ?_, fun dn mem => ?_⟩
    · exact (covered.registered f mem).of_nodes fun n known => nodes ▸ known
    · exact nodes ▸ covered.returned dn mem
  | some f =>
    have registered := covered.registered f (filelist_search_mem entry).1
    obtain ⟨choice, result, chooses⟩ := getfiledn_registered registered entry a
    rw [result] at h
    cases h
    refine ⟨covered.registered, fun dn mem => ?_⟩
    rcases List.mem_append.1 mem with new | old
    · obtain ⟨i, rfl, rfl⟩ := Option.map_eq_some_iff.1 (Option.mem_toList.1 new)
      exact (registered i chooses.chosen.1).1
    · exact covered.returned dn old

theorem Replicated.covered (replicated : Replicated t given) : Covered t given := by
  induction replicated with
  | init => exact ⟨by simp, by simp⟩
  | datanode_insert _ h ih => exact ih.datanode_insert h
  | getfiledn _ h ih => exact ih.getfiledn h
  | filenode_insert _ returned h ih =>
    obtain ⟨short, files, enters, rfl⟩ := filenode_insert_enters h
    exact ⟨registered_enters ih.registered (ih.returned _ returned) short enters, ih.returned⟩
  | unsynced _ entry used more ih =>
    have registered := ih.registered
    rw [entry, List.forall_mem_append, List.forall_mem_cons] at registered
    obtain ⟨front, here, rest⟩ := registered
    refine ⟨?_, ih.returned⟩
    rw [List.forall_mem_append, List.forall_mem_cons]
    exact ⟨front, here.behind used, rest⟩

end Choice

/-- Whatever the nodes answer, `getfiledn` meets no unregistered one and returns the first replica in
step that answers, or else the first one behind that does, or else nothing. -/
theorem getfiledn_choice {t : Tables} {given : List (List Byte)} {path : List Byte} {f : Filelist}
    (replicated : Replicated t given) (entry : filelist_search t path = some f) (a : Answers) :
    (∀ g ∈ t.sfile, ∀ i, g.rep i ≠ 0 → ∃ d ∈ t.dlist, d.node = g.replica i) ∧
      ∃ choice, a.getfiledn t path = .ok (choice.map f.replica, t) ∧
        Chooses (fun i => a.slot i (f.replica i)) f choice ∧
        (choice = none ↔ ∀ i, f.rep i ≠ 0 → a.slot i (f.replica i) = false) := by
  have covered := replicated.covered
  constructor
  · intro g mem i used
    exact List.mem_map.1 (covered.registered g mem i used).1
  · have registered := covered.registered f (filelist_search_mem entry).1
    obtain ⟨choice, result, chooses⟩ := getfiledn_registered registered entry a
    exact ⟨choice, result, chooses, chooses_none chooses⟩

/-- The entry for `DATANODE_DIR` with the data nodes `d`, which is behind, and `e`. -/
def behindD : Filelist := ((newEntry (str "d")).present 1 (str "e")).behind 0 2

/-- A name node with that entry. -/
def partlySynced : Tables :=
  ⟨⟨[⟨str "d", str "10.0.0.1", 1⟩, ⟨str "e", str "10.0.0.2", 1⟩],
    str "d,10.0.0.1,1\ne,10.0.0.2,1\n"⟩, [behindD]⟩

theorem partlySynced_replicated : Replicated partlySynced [] := by
  have first : datanode_insert (str "d") (str "10.0.0.1") 1 ⟨⟨[], []⟩, []⟩ =
      .ok (oneFile DATANODE_DIR) := rfl
  have second : datanode_insert (str "e") (str "10.0.0.2") 1 (oneFile DATANODE_DIR) =
      .ok { partlySynced with sfile := [(newEntry (str "d")).present 1 (str "e")] } := rfl
  have both := (Replicated.init []).datanode_insert first |>.datanode_insert second
  have entry : [(newEntry (str "d")).present 1 (str "e")] =
      [] ++ (newEntry (str "d")).present 1 (str "e") :: [] := rfl
  exact both.unsynced (i := 0) (n := 2) entry (by decide) le_rfl

/-- The data node `e` is silent. -/
theorem getfiledn_choice_partlySynced :
    (∀ g ∈ partlySynced.sfile, ∀ i, g.rep i ≠ 0 → ∃ d ∈ partlySynced.dlist, d.node = g.replica i) ∧
      ∃ choice, Answers.getfiledn ⟨fun i _ => i = 0, fun _ => true⟩ partlySynced DATANODE_DIR =
          .ok (choice.map behindD.replica, partlySynced) ∧
        Chooses (fun i => i = 0) behindD choice ∧
        (choice = none ↔ ∀ i, behindD.rep i ≠ 0 → decide (i = 0) = false) :=
  getfiledn_choice partlySynced_replicated rfl ⟨fun i _ => i = 0, fun _ => true⟩

end DistFs.Wire
