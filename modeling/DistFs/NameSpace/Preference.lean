import DistFs.NameSpace.Absent

/-!
# The preferred replica of a node

Four scans of `getdatanode` are meant to prefer a replica in sync to one that is not, and among
replicas of the same state the one on the asking host.  As the `if` of each scan guards nothing, the
first ends in slot 0 whatever the slots hold (`slot_first`); the name there is the preferred one only
when slot 0 happens to serve.
-/

namespace DistFs.NameSpace

open CText Registry

/-- What two scans for the slots of one state are meant to find: the host if such a slot holds it,
else the name in the first such slot. -/
def meant (d : Datadef) (host : CString) (state : ℤ) : Option CString :=
  if ∃ i, d.dname i = host ∧ d.dsync i = state then some host
  else (Fin.find? fun i => d.dsync i = state).map d.dname

/-- The name that the scans are meant to return. -/
def preferred (d : Datadef) (host : CString) : CString :=
  ((meant d host 1).or (meant d host 2)).getD fallback

/-- The slots to choose from: those in sync, or those out of sync if there is none in sync. -/
def Eligible (d : Datadef) (i : Fin REP) : Prop :=
  d.dsync i = 1 ∨ d.dsync i = 2 ∧ ∀ j, d.dsync j ≠ 1

/-- Slot 0 serves: it is eligible itself and not passed over for the host; or it is not, but has the
same name as the slot that is to be chosen, or as the fallback when there is none. -/
inductive FirstServes (d : Datadef) (host : CString) : Prop
  | eligible : Eligible d 0 → (d.dname 0 = host ∨ ∀ i, Eligible d i → d.dname i ≠ host) →
      FirstServes d host
  | sameName {i : Fin REP} : d.dsync 0 ≠ 0 → Eligible d i → d.dname i = d.dname 0 →
      (d.dname 0 = host ∨ (∀ j < i, ¬ Eligible d j) ∧ ∀ j, Eligible d j → d.dname j ≠ host) →
      FirstServes d host
  | fallback : d.dsync 0 ≠ 0 → (∀ i, ¬ Eligible d i) → d.dname 0 = fallback → FirstServes d host

variable {d : Datadef} {host v : CString} {state : ℤ} {i : Fin REP}

theorem meant_none (none_ : ∀ i, d.dsync i ≠ state) : meant d host state = none := by
  unfold meant
  rw [if_neg, Option.map_eq_none_iff, Fin.find?_eq_none_iff]
  · exact fun i => decide_eq_false (none_ i)
  · rintro ⟨i, -, synced⟩
    exact none_ i synced

theorem meant_host (named : d.dname i = host) (synced : d.dsync i = state) :
    meant d host state = some host := by
  unfold meant
  rw [if_pos ⟨i, named, synced⟩]

theorem meant_lowest (synced : d.dsync i = state) (lowest : ∀ j < i, d.dsync j ≠ state)
    (other : ∀ j, d.dsync j = state → d.dname j ≠ host) :
    meant d host state = some (d.dname i) := by
  have found : (Fin.find? fun j => decide (d.dsync j = state)) = some i := by
    rw [Fin.find?_eq_some_iff]
    exact ⟨decide_eq_true synced, fun j below => decide_eq_false (lowest j below)⟩
  unfold meant
  rw [if_neg, found, Option.map_some]
  rintro ⟨j, named, synced'⟩
  exact other j synced' named

/-- The eligible slots are those of one state, and the scan for it decides. -/
theorem eligible_state (d : Datadef) : ∃ state, (∀ j, Eligible d j ↔ d.dsync j = state) ∧
    ∀ host v, meant d host state = some v → preferred d host = v := by
  by_cases inSync : ∃ j, d.dsync j = 1
  · refine ⟨1, fun j => ?_, fun host v found => ?_⟩
    · constructor
      · rintro (synced | ⟨-, none_⟩)
        · exact synced
        · obtain ⟨k, synced⟩ := inSync
          exact absurd synced (none_ k)
      · exact .inl
    · rw [preferred, found, Option.some_or, Option.getD_some]
  · have none_ : ∀ j, d.dsync j ≠ 1 := not_exists.1 inSync
    refine ⟨2, fun j => ?_, fun host v found => ?_⟩
    · constructor
      · rintro (synced | ⟨unsynced, -⟩)
        · exact absurd synced (none_ j)
        · exact unsynced
      · exact fun unsynced => .inr ⟨unsynced, none_⟩
    · rw [preferred, meant_none none_, Option.none_or, found, Option.getD_some]

theorem preferred_host (eligible : Eligible d i) (named : d.dname i = host) :
    preferred d host = host := by
  obtain ⟨state, same, decides⟩ := eligible_state d
  exact decides _ _ (meant_host named ((same i).1 eligible))

theorem preferred_lowest (eligible : Eligible d i) (lowest : ∀ j < i, ¬ Eligible d j)
    (other : ∀ j, Eligible d j → d.dname j ≠ host) : preferred d host = d.dname i := by
  obtain ⟨state, same, decides⟩ := eligible_state d
  simp only [same] at eligible lowest other
  exact decides _ _ (meant_lowest eligible lowest other)

theorem preferred_none (none_ : ∀ i, ¬ Eligible d i) : preferred d host = fallback := by
  have inSync : ∀ i, d.dsync i ≠ 1 := fun i synced => none_ i (.inl synced)
  have unsynced : ∀ i, d.dsync i ≠ 2 := fun i synced => none_ i (.inr ⟨synced, inSync⟩)
  rw [preferred, meant_none inSync, meant_none unsynced]
  rfl

/-- Among the eligible slots there is a lowest one. -/
theorem exists_lowest (eligible : Eligible d i) :
    ∃ k, Eligible d k ∧ ∀ j < k, ¬ Eligible d j := by
  obtain ⟨state, same, -⟩ := eligible_state d
  have some_ : (Fin.find? fun j => decide (d.dsync j = state)).isSome := by
    rw [Fin.isSome_find?_iff]
    exact ⟨i, decide_eq_true ((same i).1 eligible)⟩
  obtain ⟨k, found⟩ := Option.isSome_iff_exists.1 some_
  rw [Fin.find?_eq_some_iff] at found
  refine ⟨k, (same k).2 (of_decide_eq_true found.1), fun j below other => ?_⟩
  exact of_decide_eq_false (found.2 j below) ((same j).1 other)

theorem preferred_eq_first_iff :
    preferred d host = d.dname 0 ∧ d.dsync 0 ≠ 0 ↔ FirstServes d host := by
  have set (eligible : Eligible d 0) : d.dsync 0 ≠ 0 := by
    rcases eligible with synced | ⟨unsynced, -⟩ <;> omega
  constructor
  · rintro ⟨first, marked⟩
    by_cases some_ : ∃ i, Eligible d i
    · by_cases local_ : ∃ i, Eligible d i ∧ d.dname i = host
      · obtain ⟨i, eligible, named⟩ := local_
        have here : d.dname 0 = host := first.symm.trans (preferred_host eligible named)
        exact .sameName marked eligible (named.trans here.symm) (.inl here)
      · have other : ∀ j, Eligible d j → d.dname j ≠ host := fun j eligible named =>
          local_ ⟨j, eligible, named⟩
        obtain ⟨i, eligible⟩ := some_
        obtain ⟨k, eligible, lowest⟩ := exists_lowest eligible
        exact .sameName marked eligible ((preferred_lowest eligible lowest other).symm.trans first)
          (.inr ⟨lowest, other⟩)
    · have none_ : ∀ i, ¬ Eligible d i := not_exists.1 some_
      exact .fallback marked none_ (first.symm.trans (preferred_none none_))
  · intro serves
    cases serves with
    | eligible eligible choice =>
      refine ⟨?_, set eligible⟩
      rcases choice with named | other
      · rw [named, preferred_host eligible named]
      · exact preferred_lowest eligible (fun j below => absurd below (Fin.not_lt_zero j)) other
    | sameName marked eligible same choice =>
      refine ⟨?_, marked⟩
      rcases choice with named | ⟨lowest, other⟩
      · rw [named, preferred_host eligible (same.trans named)]
      · rw [← same, preferred_lowest eligible lowest other]
    | fallback marked none_ first => exact ⟨by rw [first, preferred_none none_], marked⟩

/-- A scan ends in slot 0, whatever it tests. -/
theorem scan_first (test : Fin REP → Bool) : scan test = some 0 := by
  have slots : List.finRange REP = 0 :: (List.finRange REP).tail := by decide
  rw [scan, slots]
  simp

/-- So does the first of the four, and the others are never reached. -/
theorem slot_first (d : Datadef) (host : CString) : slot d host = some 0 := by
  rw [slot, scan_first, Option.some_or]

theorem getdatanode_first {s : State} {path : CString} {t : Addr} {n : Node}
    (named : Arrays.search s path = .ok (some t)) (cell : s.heap t = some n)
    (answers : List Byte → Bool) (host : CString) (r : NodeList) :
    getdatanode answers path host s r = .ok (some (n.data.dname 0).bytes, r) := by
  simp only [getdatanode, named, State.deref, cell, slot_first, Except.mapError, bind, Except.bind,
    pure, Except.pure]

/-- For a node that the path names, `getdatanode` returns the preferred name, and not from a slot that
is unset, if and only if slot 0 serves. -/
theorem getdatanode_preferred_iff {s : State} {path : CString} {t : Addr} {n : Node}
    (named : Arrays.search s path = .ok (some t)) (cell : s.heap t = some n)
    (answers : List Byte → Bool) (host : CString) (r : NodeList) :
    (getdatanode answers path host s r = .ok (some (preferred n.data host).bytes, r) ∧
        ∀ fh, slot n.data host = some fh → n.data.dsync fh ≠ 0) ↔
      FirstServes n.data host := by
  rw [getdatanode_first named cell, slot_first, ← preferred_eq_first_iff]
  simp only [Option.some.injEq, forall_eq']
  apply and_congr_left
  intro _
  constructor
  · intro same
    apply CString.ext
    simpa using same.symm
  · intro same
    rw [same]

/-! ## A replica out of sync in front of one in sync -/

/-- A file on two data nodes. -/
def twoReplicas (dsync₀ dsync₁ : ℤ) : Datadef :=
  { newdata (.lit "file1") (.lit "d1") home 0 with
    dname := fun i => if i = 0 then .lit "d1" else if i = 1 then .lit "d2" else none_
    dsync := fun i => if i = 0 then dsync₀ else if i = 1 then dsync₁ else 0 }

/-- The tree with that file. -/
def replicated (dsync₀ dsync₁ : ℤ) : State :=
  (stateAfter [.addfile (.lit "file1") (.lit "d1") home]).write 1 fun n =>
    { n with data := twoReplicas dsync₀ dsync₁ }

theorem replicated_file (dsync₀ dsync₁ : ℤ) : ∃ n, (replicated dsync₀ dsync₁).heap 1 = some n ∧
    n.data = twoReplicas dsync₀ dsync₁ := by
  have stored : ((stateAfter [.addfile (.lit "file1") (.lit "d1") home]).heap 1).isSome := by decide
  obtain ⟨n, cell⟩ := Option.isSome_iff_exists.1 stored
  refine ⟨{ n with data := twoReplicas dsync₀ dsync₁ }, ?_, rfl⟩
  rw [replicated, heap_write, cell]
  rfl

theorem getdatanode_preferred_iff_inSync :
    getdatanode (fun _ => false) (.lit "home/file1") (.lit "c") (replicated 1 2) ⟨[], []⟩ =
        .ok (some (preferred (twoReplicas 1 2) (.lit "c")).bytes, ⟨[], []⟩) ∧
      ∀ fh, slot (twoReplicas 1 2) (.lit "c") = some fh → (twoReplicas 1 2).dsync fh ≠ 0 := by
  obtain ⟨n, cell, same⟩ := replicated_file 1 2
  have serves : FirstServes n.data (.lit "c") := by
    rw [same]
    have other : ∀ i, (twoReplicas 1 2).dname i ≠ .lit "c" := by decide
    exact .eligible (.inl rfl) (.inr fun i _ => other i)
  rw [← same]
  exact (getdatanode_preferred_iff (by decide) cell _ _ _).2 serves

/-- Slot 0 is out of sync and slot 1 is in sync: the first is returned. -/
theorem unsynced_returned :
    Arrays.search (replicated 2 1) (.lit "home/file1") = .ok (some 1) ∧
    (∃ n, (replicated 2 1).heap 1 = some n ∧ n.data = twoReplicas 2 1) ∧
    preferred (twoReplicas 2 1) (.lit "c") = .lit "d2" ∧
    getdatanode (fun _ => false) (.lit "home/file1") (.lit "c") (replicated 2 1) ⟨[], []⟩ =
      .ok (some (CString.lit "d1").bytes, ⟨[], []⟩) := by
  obtain ⟨n, cell, same⟩ := replicated_file 2 1
  have named : Arrays.search (replicated 2 1) (.lit "home/file1") = .ok (some 1) := by decide
  refine ⟨named, ⟨n, cell, same⟩, by decide, ?_⟩
  rw [getdatanode_first named cell, same]
  rfl

end DistFs.NameSpace
