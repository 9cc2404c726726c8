import DistFs.Wire.Tables

/-!
# One slot for each replica

`filenode_insert` takes a free slot for a data node without looking for it in the others.
`datanode_insert` calls it for every registration, and the branches for `open`, `write`, `mkdir` and
`mknod` call it with a data node that they have just found in the entry.
-/

namespace DistFs.Wire

open CText Registry

/-- The data nodes in the slots in use are different. -/
def Filelist.Distinct (f : Filelist) : Prop :=
  ∀ i j, f.rep i ≠ 0 → f.rep j ≠ 0 → f.replica i = f.replica j → i = j

/-- In every entry the data nodes in the slots in use are different. -/
def OneSlot (t : Tables) : Prop := ∀ f ∈ t.sfile, f.Distinct

/-- Some slot in use has the data node. -/
def Filelist.Holds (f : Filelist) (dn : List Byte) : Prop := ∃ i, f.rep i ≠ 0 ∧ f.replica i = dn

/-- The input does not enter a data node for a path that it is entered for: it is no registration of
a data node that `DATANODE_DIR` has a replica on, and no `open`, `write`, `mkdir` or `mknod` that is
forwarded. -/
def Fresh (t : Tables) : Input → Prop
  | .insert name _ _ => ∀ f ∈ filelist_search t DATANODE_DIR, ¬ f.Holds name
  | .datagram net host buf1 =>
      ((nextToken [comma] buf1).1 = some Command.datanode.text →
        ∀ f ∈ filelist_search t DATANODE_DIR, ¬ f.Holds host) ∧
      ∀ c path, Asks buf1 c path → c.recorded = true → ¬ Forwards net t path

/-- Every input of a run is fresh. -/
def FreshFrom : Tables → List Input → Prop
  | _, [] => True
  | t, input :: rest =>
      Fresh t input ∧ ∀ t', input.step t = .ok (some t') → FreshFrom t' rest

section Slots

variable {net : Net} {t t' : Tables} {f : Filelist} {i : Fin 50} {dn name ip host M path : List Byte}
  {alive : ℤ} {input : Input}

/-- A data node in a free slot. -/
theorem distinct_present (free : f.rep i = 0) :
    (f.present i dn).Distinct ↔ f.Distinct ∧ ¬ f.Holds dn := by
  have here : (f.present i dn).rep i ≠ 0 := by simp [Filelist.present]
  have there : ∀ {j}, f.rep j ≠ 0 → j ≠ i ∧ (f.present i dn).rep j ≠ 0 ∧
      (f.present i dn).replica j = f.replica j := by
    intro j used
    have other : j ≠ i := fun same => used (same ▸ free)
    simp [Filelist.present, other, used]
  constructor
  · intro distinct
    refine ⟨fun j k usedJ usedK same => ?_, ?_⟩
    · obtain ⟨-, repJ, replicaJ⟩ := there usedJ
      obtain ⟨-, repK, replicaK⟩ := there usedK
      exact distinct j k repJ repK (by rw [replicaJ, replicaK, same])
    · rintro ⟨j, used, same⟩
      obtain ⟨other, rep, replica⟩ := there used
      refine other (distinct j i rep here ?_)
      rw [replica, same]
      simp [Filelist.present]
  · rintro ⟨distinct, absent⟩ j k usedJ usedK same
    by_cases atJ : j = i <;> by_cases atK : k = i
    · rw [atJ, atK]
    · subst atJ
      simp only [Filelist.present, Function.update_self, Function.update_of_ne atK] at usedK same
      exact absurd ⟨k, usedK, same.symm⟩ absent
    · subst atK
      simp only [Filelist.present, Function.update_self, Function.update_of_ne atJ] at usedJ same
      exact absurd ⟨j, usedJ, same⟩ absent
    · simp only [Filelist.present, Function.update_of_ne atJ, Function.update_of_ne atK]
        at usedJ usedK same
      exact distinct j k usedJ usedK same

theorem distinct_newEntry (dn : List Byte) : (newEntry dn).Distinct :=
  (distinct_present rfl).2 ⟨fun _ _ used => absurd rfl used, fun ⟨_, used, _⟩ => used rfl⟩

theorem oneSlot_single (single : t.sfile = [f]) : OneSlot t ↔ f.Distinct := by
  simp [OneSlot, single]

/-- The entry for `DATANODE_DIR` is the one entry there is. -/
theorem filelist_search_root (sound : Sound t) (single : t.sfile = [f]) :
    filelist_search t DATANODE_DIR = some f := by
  have root := (sound.root f (by rw [single]; exact List.mem_singleton_self f)).2.1
  rw [filelist_search, single, List.find?_cons, named_root root]

/-- A registration needs the data node to be new. -/
theorem oneSlot_datanode_insert (sound : Sound t) (h : datanode_insert name ip alive t = .ok t') :
    OneSlot t' ↔ OneSlot t ∧ ∀ f ∈ filelist_search t DATANODE_DIR, ¬ f.Holds name := by
  rcases datanode_insert_files sound h with ⟨empty, files⟩ | ⟨f, i, single, free, files⟩
  · have absent : filelist_search t DATANODE_DIR = none := by rw [filelist_search, empty]; rfl
    rw [oneSlot_single files]
    simp [distinct_newEntry, OneSlot, empty, absent]
  · rw [oneSlot_single files, oneSlot_single single, distinct_present free,
      filelist_search_root sound single]
    simp

/-- A path is entered for a data node only when it is there already. -/
theorem not_oneSlot_recorded {t₁ : Tables} (sound : Sound t)
    (located : getfiledn net t path = .ok (some dn, t₁))
    (inserted : filenode_insert path dn t₁ = .ok t') : ¬ OneSlot t' := by
  cases Looked.of_eq sound located with
  | @found f i entry used answers =>
    obtain ⟨mem, named⟩ := filelist_search_mem entry
    obtain ⟨j, free, rfl⟩ := filenode_insert_entry (sound.root f mem).1 named inserted
    rw [oneSlot_single rfl, distinct_present free]
    exact fun h => h.2 ⟨i, used, rfl⟩

theorem oneSlot_of_files (files : t'.sfile = t.sfile) : OneSlot t' ↔ OneSlot t := by
  rw [OneSlot, OneSlot, files]

theorem Command.forwards_of_recorded {c : Command} (records : c.recorded = true) :
    c.forwards = true := by
  cases c <;> first | rfl | cases records

/-- One input keeps the slots distinct exactly if it is fresh. -/
theorem oneSlot_step (sound : Sound t) (next : input.step t = .ok (some t')) :
    OneSlot t' ↔ OneSlot t ∧ Fresh t input := by
  cases input with
  | insert name ip alive =>
    obtain ⟨t₁, inserted, same⟩ := map_eq_ok.1 next
    cases same
    exact oneSlot_datanode_insert sound inserted
  | datagram net host buf1 =>
    cases namenode_effect next with
    | idle other =>
      refine ⟨fun one => ⟨one, fun first => absurd rfl (other _ first).2, ?_⟩, And.left⟩
      intro c path asks records
      exact absurd (Command.forwards_of_recorded records) (by simp [(other c asks.command).1])
    | registered first inserted =>
      rw [oneSlot_datanode_insert sound inserted]
      refine and_congr_right fun _ => ⟨fun absent => ⟨fun _ => absent, ?_⟩, fun h => h.1 first⟩
      intro c path asks records
      have same := asks.command.symm.trans first
      obtain rfl := Command.text_injective (Option.some.inj same)
      cases records
    | @looked c path found _ asks forwards located unrecorded =>
      have files : t'.sfile = t.sfile := by
        cases Looked.of_eq sound located with
        | found => rfl
        | missing absent files => exact files
      rw [oneSlot_of_files files]
      refine ⟨fun one => ⟨one, fun first => ?_, ?_⟩, And.left⟩
      · have same := asks.command.symm.trans first
        obtain rfl := Command.text_injective (Option.some.inj same)
        cases forwards
      · intro c' path' asks' records
        obtain rfl := Command.text_injective
          (Option.some.inj (asks.command.symm.trans asks'.command))
        obtain rfl := Option.some.inj (asks.path.symm.trans asks'.path)
        exact unrecorded records
    | recorded asks records located known inserted =>
      refine ⟨fun one => absurd one (not_oneSlot_recorded sound located inserted), fun h => ?_⟩
      exact absurd ⟨_, _, located, known⟩ (h.2.2 _ _ asks records)

/-- Slots that a run leaves distinct were distinct before. -/
theorem oneSlot_of_run {inputs : List Input} (sound : Sound t)
    (run : runFrom t inputs = .ok (some t')) (one : OneSlot t') : OneSlot t := by
  induction inputs generalizing t with
  | nil =>
    cases run
    exact one
  | cons input rest ih =>
    obtain ⟨next, step, run⟩ := bind_eq_ok.1 run
    cases next with
    | none => cases run
    | some t₁ => exact ((oneSlot_step sound step).1 (ih (Input.step_sound step sound) run)).1

/-- A run keeps the slots distinct exactly if all its inputs are fresh. -/
theorem oneSlot_runFrom {inputs : List Input} (sound : Sound t) (one : OneSlot t)
    (run : runFrom t inputs = .ok (some t')) : OneSlot t' ↔ FreshFrom t inputs := by
  induction inputs generalizing t with
  | nil =>
    cases run
    exact ⟨fun _ => trivial, fun _ => one⟩
  | cons input rest ih =>
    obtain ⟨next, step, run⟩ := bind_eq_ok.1 run
    cases next with
    | none => cases run
    | some t₁ =>
      have sound₁ := Input.step_sound step sound
      have kept := oneSlot_step sound step
      by_cases fresh : Fresh t input
      · rw [ih sound₁ (kept.2 ⟨one, fresh⟩) run]
        refine ⟨fun h => ⟨fresh, fun t₂ same => ?_⟩, fun h => h.2 t₁ step⟩
        rw [step] at same
        cases same
        exact h
      · refine ⟨fun h => absurd ?_ fresh, fun h => absurd h.1 fresh⟩
        exact (kept.1 (oneSlot_of_run sound₁ run h)).2

end Slots

/-- In the lists that a run reaches every entry has one slot for each data node, exactly if every
input of the run is fresh in the lists before it. -/
theorem oneSlot_iff {config : List Byte} {inputs : List Input} {t : Tables}
    (run : runFrom ⟨⟨[], config⟩, []⟩ inputs = .ok (some t)) :
    OneSlot t ↔ FreshFrom ⟨⟨[], config⟩, []⟩ inputs :=
  oneSlot_runFrom (Reachable.init config).sound (by simp [OneSlot]) run

/-- A registration of the data node `d`. -/
def registerD : Input := .insert (str "d") (str "10.0.0.1") 1

/-- Two data nodes register, and the first is asked for the attributes of the directory. -/
def bothRegister : List Input :=
  [registerD, .insert (str "e") (str "10.0.0.2") 1,
    .datagram upNet (str "h") (str "getattr,/tmp/CS545/datanode")]

theorem oneSlot_iff_twoNodes : ∃ t, runFrom ⟨⟨[], []⟩, []⟩ bothRegister = .ok (some t) ∧
    (OneSlot t ↔ FreshFrom ⟨⟨[], []⟩, []⟩ bothRegister) :=
  have run : runFrom ⟨⟨[], []⟩, []⟩ bothRegister = .ok (some
      ⟨⟨[⟨str "d", str "10.0.0.1", 1⟩, ⟨str "e", str "10.0.0.2", 1⟩],
        str "d,10.0.0.1,1\ne,10.0.0.2,1\n"⟩, [(newEntry (str "d")).present 1 (str "e")]⟩) := rfl
  ⟨_, run, oneSlot_iff run⟩

/-- The data node `d` in two slots. -/
def twoSlots : Filelist := (newEntry (str "d")).present 1 (str "d")

/-- A data node that registers again takes a second slot. -/
theorem registered_twice : ∃ t, runFrom ⟨⟨[], []⟩, []⟩ [registerD, registerD] = .ok (some t) ∧
    ¬ OneSlot t := by
  refine ⟨⟨⟨[⟨str "d", str "10.0.0.1", 1⟩], str "d,10.0.0.1,1\n"⟩, [twoSlots]⟩, rfl, ?_⟩
  intro one
  have same := one twoSlots (List.mem_singleton_self _) 0 1 (by decide) (by decide) rfl
  exact absurd same (by decide)

end DistFs.Wire
