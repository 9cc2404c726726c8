import DistFs.NameSpace.Insertion

/-!
# Parent numbers

`addnode` takes the `pno` of a new node from the node that it links it to.  That is the folder itself
for its first child only; behind a child it is the number of that child.
-/

namespace DistFs.NameSpace

open CText Links

/-- Every node but the root has the number of the folder that its `loc` names as `pno`. -/
def ParentsRight (s : State) : Prop :=
  ∀ a n, Reached s a → s.heap a = some n → s.head ≠ some a →
    ∃ f m, search s n.data.loc = .ok (some f) ∧ s.heap f = some m ∧ m.data.dflag = 1 ∧
      n.data.pno = m.data.nno

/-- The path names a folder without children. -/
def EmptyFolder (s : State) (p : CString) : Prop :=
  ∃ f m, search s p = .ok (some f) ∧ s.heap f = some m ∧ m.data.dflag = 1 ∧ m.fold = none

/-- An insertion into an empty folder. -/
def Op.IntoEmpty (s : State) : Op → Prop
  | .addfile _ _ p | .addfolder _ _ p => EmptyFolder s p
  | .removefile _ | .removefold _ => False

/-- Each call of a run inserts into a folder that is empty at that time. -/
def Orderly : List Op → State → Prop
  | [], _ => True
  | op :: ops, s => op.IntoEmpty s ∧ ∀ s', op.run s = .ok s' → Orderly ops s'

/-- The same of the items of a chain. -/
def Numbered (l : List Item) : Prop :=
  ∀ x ∈ l, l.head? ≠ some x → ∃ f t, find Item.name Item.folder l x.data.loc = .ok (some (f, t)) ∧
    f.folder = true ∧ x.data.pno = f.data.nno

variable {s s' : State} {l : List Item} {p : CString} {d : Datadef} {a : Addr}

namespace Chain

/-- An empty folder stands at the end of the chain. -/
theorem emptyFolder_iff (c : Chain s l) :
    EmptyFolder s p ↔ ∃ x, find Item.name Item.folder l p = .ok (some (x, [])) ∧
      x.folder = true := by
  constructor
  · rintro ⟨f, m, named, cell, isFolder, fold⟩
    obtain ⟨x, t, found, rfl⟩ := c.search_ok_iff.1 named
    obtain ⟨b, hl⟩ := find_suffix found
    obtain rfl := Option.some.inj (cell.symm.trans (c.cell_eq hl.symm))
    have x_folder : x.folder = true := decide_eq_true isFolder
    have atEnd : t = [] := by
      cases t with
      | nil => rfl
      | cons y t => simp [Item.cell, x_folder] at fold
    exact ⟨x, atEnd ▸ found, x_folder⟩
  · rintro ⟨x, found, x_folder⟩
    obtain ⟨b, hl⟩ := find_suffix found
    refine ⟨x.addr, _, c.search_ok_iff.2 ⟨x, [], found, rfl⟩, c.cell_eq hl.symm, ?_, ?_⟩
    · exact of_decide_eq_true x_folder
    · simp [Item.cell]

theorem parentsRight (c : Chain s l) (numbered : Numbered l) : ParentsRight s := by
  intro a n reached cell below
  obtain ⟨b, x, t, hl, rfl, rfl⟩ := c.node_of_reached reached cell
  have inner : l.head? ≠ some x := by
    intro first
    apply below
    rw [c.head]
    cases l with
    | nil => cases first
    | cons y l =>
      obtain rfl := Option.some.inj first
      rfl
  obtain ⟨f, r, found, f_folder, same⟩ := numbered x (by simp [hl]) inner
  obtain ⟨b', hf⟩ := find_suffix found
  exact ⟨f.addr, _, c.search_ok_iff.2 ⟨f, r, found, rfl⟩, c.cell_eq hf.symm,
    of_decide_eq_true f_folder, same⟩

/-- The `pno` of a new node is right if and only if the folder is empty. -/
theorem addnode_pno_iff (i : Sound s l) (h : addnode p d s = .ok (a, s')) {f : Addr} {m : Node}
    (named : search s p = .ok (some f)) (cell : s.heap f = some m) (isFolder : m.data.dflag = 1) :
    (∃ n, s'.heap a = some n ∧ n.data.pno = m.data.nno) ↔ EmptyFolder s p := by
  have c := i.toChain
  obtain ⟨x, t, b, u, r, found, attach, hl, -, rfl, rfl, c'⟩ := c.addnode_cases h
  obtain ⟨y, t', found', rfl⟩ := c.search_ok_iff.1 named
  obtain ⟨rfl, rfl⟩ : x = y ∧ t = t' := by
    simpa using found.symm.trans found'
  obtain ⟨b', hx⟩ := find_suffix found
  obtain rfl := Option.some.inj (cell.symm.trans (c.cell_eq hx.symm))
  have x_folder : x.folder = true := decide_eq_true isFolder
  have new := c'.cell_eq (a := b ++ [u]) (x := newItem s d u) (t := []) (by simp)
  have pno : (∃ n, (hang s d u).heap s.brk = some n ∧ n.data.pno = x.data.nno) ↔
      u.data.nno = x.data.nno := by
    constructor
    · rintro ⟨n, stored, same⟩
      obtain rfl := Option.some.inj (new.symm.trans stored)
      exact same
    · intro same
      exact ⟨_, new, same⟩
  rw [c.emptyFolder_iff]
  refine pno.trans ⟨fun same => ?_, ?_⟩
  · obtain rfl : u = x := List.inj_on_of_nodup_map i.numbered (by simp [hl]) (by simp [← hx]) same
    obtain ⟨-, rfl, rfl⟩ | ⟨k, rfl, -, -⟩ := attachPoint_split x_folder attach
    · exact ⟨u, found, x_folder⟩
    · exfalso
      have twice := c.nodup
      rw [← hx] at twice
      simp [List.nodup_append] at twice
  · rintro ⟨y, atEnd, -⟩
    obtain ⟨rfl, rfl⟩ : x = y ∧ t = [] := by
      simpa using found.symm.trans atEnd
    have here : attachPoint Item.folder x [] = (x, []) := by
      simp [attachPoint, childrenOf]
    obtain ⟨rfl, -⟩ := Prod.mk.inj (here.symm.trans attach)
    rfl

end Chain

/-- An insertion into an empty folder extends the chain, so every path leads where it led. -/
theorem Numbered.addnode (numbered : Numbered l) (i : Sound s l)
    (h : addnode d.loc d s = .ok (a, s')) (empty : EmptyFolder s d.loc) :
    ∃ l', Sound s' l' ∧ Numbered l' := by
  obtain ⟨x, found, x_folder⟩ := i.emptyFolder_iff.1 empty
  obtain ⟨y, t, b, u, r, found', attach, hl, room, -, rfl, -⟩ := i.addnode_cases h
  obtain ⟨rfl, rfl⟩ : x = y ∧ [] = t := by
    simpa using found.symm.trans found'
  have here : attachPoint Item.folder x [] = (x, []) := by
    simp [attachPoint, childrenOf]
  obtain ⟨rfl, rfl⟩ := Prod.mk.inj (here.symm.trans attach)
  have longer : b ++ [x, newItem s d x] = l ++ [newItem s d x] := by
    rw [hl, List.append_assoc]
    rfl
  refine ⟨_, i.hang hl room d, ?_⟩
  rw [longer]
  intro z hz inner
  rcases List.mem_append.1 hz with old | new
  · have inner' : l.head? ≠ some z := by
      intro first
      apply inner
      rw [List.head?_append, first]
      rfl
    obtain ⟨f, t, found, f_folder, same⟩ := numbered z old inner'
    exact ⟨f, _, find_append found _, f_folder, same⟩
  · obtain rfl := List.mem_singleton.1 new
    exact ⟨x, _, find_append found _, x_folder, rfl⟩

/-- What one call preserves. -/
theorem Numbered.run (numbered : Numbered l) (i : Sound s l) {op : Op} (h : op.run s = .ok s')
    (empty : op.IntoEmpty s) : ∃ l', Sound s' l' ∧ Numbered l' := by
  cases op with
  | addfile f d p =>
    obtain ⟨⟨n, s'⟩, added, rfl⟩ := map_eq_ok.1 h
    exact numbered.addnode (d := newdata f d p 0) i added empty
  | addfolder f d p =>
    obtain ⟨⟨n, s'⟩, added, rfl⟩ := map_eq_ok.1 h
    exact numbered.addnode (d := newdata f d p 1) i added empty
  | removefile p => exact empty.elim
  | removefold p => exact empty.elim

theorem Numbered.runOps (numbered : Numbered l) (i : Sound s l) {ops : List Op}
    (h : runOps ops s = .ok s') (orderly : Orderly ops s) : ∃ l', Sound s' l' ∧ Numbered l' := by
  induction ops generalizing s l with
  | nil =>
    obtain rfl := Except.ok.inj h
    exact ⟨l, i, numbered⟩
  | cons op ops ih =>
    obtain ⟨s₁, h₁, h⟩ := bind_eq_ok.1 h
    obtain ⟨empty, rest⟩ := orderly
    obtain ⟨l₁, i₁, numbered₁⟩ := numbered.run i h₁ empty
    exact ih numbered₁ i₁ h (rest s₁ h₁)

/-- In a run of insertions into empty folders the parent numbers are right in every state. -/
theorem runOps_parentsRight (junk : Fin REP → ℤ) (ops : List Op)
    (returned : runOps ops (initialTree junk) = .ok s)
    (orderly : Orderly ops (initialTree junk)) : ParentsRight s := by
  have first : Numbered [rootItem junk] := by
    intro x hx inner
    obtain rfl := List.mem_singleton.1 hx
    exact absurd rfl inner
  obtain ⟨l, i, numbered⟩ := first.runOps (ninitialize_sound junk) returned orderly
  exact i.parentsRight numbered

theorem emptyFolder_of {f : Addr} (named : search s p = .ok (some f))
    (cell : (s.heap f).map (fun n => (n.data.dflag, n.fold)) = some (1, none)) : EmptyFolder s p := by
  obtain ⟨m, stored, same⟩ := Option.map_eq_some_iff.1 cell
  obtain ⟨flag, fold⟩ := Prod.mk.inj same
  exact ⟨f, m, named, stored, flag, fold⟩

/-- A folder and a file in it. -/
theorem runOps_parentsRight_nested : ParentsRight (stateAfter
    [.addfolder (.lit "fold1") (.lit "d") home,
      .addfile (.lit "file1") (.lit "d") (.lit "home/fold1")]) := by
  refine runOps_parentsRight _ _ (runOps_stateAfter (by decide)) ⟨?_, fun s₁ h₁ => ⟨?_, ?_⟩⟩
  · exact emptyFolder_of (f := 0) (by decide) (by decide)
  · have first : runOps [.addfolder (.lit "fold1") (.lit "d") home]
        (initialTree fun _ => 0) = .ok s₁ := bind_eq_ok.2 ⟨s₁, h₁, rfl⟩
    obtain rfl := Except.ok.inj ((runOps_stateAfter (by decide)).symm.trans first)
    exact emptyFolder_of (f := 1) (by decide) (by decide)
  · exact fun _ _ => trivial

/-- Two files in the root. -/
def secondFile : State :=
  stateAfter [.addfile (.lit "file1") (.lit "d") home, .addfile (.lit "file2") (.lit "d") home]

/-- The second one has the number of the first one as `pno`. -/
theorem secondFile_pno : runOps [.addfile (.lit "file1") (.lit "d") home,
    .addfile (.lit "file2") (.lit "d") home] (initialTree fun _ => 0) = .ok secondFile ∧
      ¬ ParentsRight secondFile := by
  refine ⟨runOps_stateAfter (by decide), fun right => ?_⟩
  have reached : Reached secondFile 2 := search_reached (p := .lit "home/file2") (by decide)
  have second : (secondFile.heap 2).map (fun n => (n.data.loc, n.data.pno)) = some (home, 2) := by
    decide
  have root : (secondFile.heap 0).map (fun n => n.data.nno) = some 1 := by decide
  have top : search secondFile home = .ok (some 0) := by decide
  obtain ⟨n, cell, same⟩ := Option.map_eq_some_iff.1 second
  obtain ⟨loc, pno⟩ := Prod.mk.inj same
  obtain ⟨f, m, named, folder, -, number⟩ := right 2 n reached cell (by decide)
  rw [loc, top] at named
  obtain rfl := Option.some.inj (Except.ok.inj named)
  rw [folder] at root
  have one : m.data.nno = 1 := Option.some.inj root
  rw [pno, one] at number
  cases number

end DistFs.NameSpace
