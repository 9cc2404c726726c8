import DistFs.Wire.Replicas

/-!
# The slots of an entry

`filenode_insert` writes to the slot that `getRepcreatenum` returns, which is -1 when the loop finds
no free one.  The slots of an entry are taken in order and none is given back, so the slot of a call
is the number of calls that the entry has had before.
-/

namespace DistFs.Wire

open CText Registry

/-! ## Calls of `filenode_insert` -/

/-- The result of `getRepcreatenum`: -1 behind its loop. -/
def slotIndex : Option (Fin 50) → ℤ
  | some i => i.val
  | none => -1

/-- The entry that `filenode_insert` works on: the one that it finds, or a new one. -/
def target (t : Tables) (path : List Byte) : Filelist :=
  (filelist_search t path).getD ⟨path, fun _ => 0, fun _ => []⟩

/-- The index into `rep`, `replica`, `d_ino` and `d_type`. -/
def slot (t : Tables) (path : List Byte) : ℤ := slotIndex (getRepcreatenum (target t path))

/-- A call of `filenode_insert` and the lists that it finds. -/
structure Insertion where
  path : List Byte
  dn : List Byte
  tables : Tables

namespace Insertion

/-- The call changes nothing. -/
def Unchanged (c : Insertion) : Prop := filenode_insert c.path c.dn c.tables = .ok c.tables

/-- The call uses a slot of the arrays, and changes nothing when all fifty are taken. -/
structure StaysInside (c : Insertion) : Prop where
  range : (0 ≤ slot c.tables c.path ∧ slot c.tables c.path < 50) ∨ c.Unchanged
  full : ∀ f ∈ filelist_search c.tables c.path, (∀ i, f.rep i ≠ 0) → c.Unchanged

end Insertion

/-- What can lead to a call of `filenode_insert`: the call itself, or an input of the name node. -/
inductive Trigger where
  | direct (path dn : List Byte)
  | input (input : Input)

/-- The call that `datanode_insert` makes. -/
def registration (t : Tables) (name ip : List Byte) (alive : ℤ) : Insertion :=
  ⟨DATANODE_DIR, name, { t with dlist := entered name ip alive t.dlist }⟩

/-- The call that the branches for `open`, `write`, `mkdir` and `mknod` make behind `sendcommand`. -/
def forwarded (net : Net) (t : Tables) (buf2 : List Byte) (path : Option (List Byte)) (c : Command) :
    Option Insertion :=
  match path with
  | none => none
  | some path =>
      match getfiledn net t path with
      | .ok (some dpath, t) =>
          match sendcommand net dpath buf2 c with
          | .ok (some _) => some ⟨path, dpath, t⟩
          | _ => none
      | _ => none

/-- The call that a datagram leads to. -/
def datagramCall (net : Net) (t : Tables) (host buf1 : List Byte) : Option Insertion :=
  let buf2 := host ++ comma :: cstr buf1
  if 1000 ≤ buf2.length then none
  else
    match (nextToken [comma] buf1).1.bind Command.ofText with
    | none => none
    | some .datanode =>
        if net.known host then some (registration t host (net.address host) 1) else none
    | some c =>
        if c.recorded then forwarded net t buf2 (nextToken [comma] (nextToken [comma] buf1).2).1 c
        else none

namespace Trigger

/-- The call of `filenode_insert` that it makes, if any. -/
def call (t : Tables) : Trigger → Option Insertion
  | direct path dn => some ⟨path, dn, t⟩
  | input (.insert name ip alive) => some (registration t name ip alive)
  | input (.datagram net host buf1) => datagramCall net t host buf1

/-- The lists behind it, unless it ends the loop of the name node. -/
def step (t : Tables) : Trigger → Except Fault (Option Tables)
  | direct path dn => some <$> filenode_insert path dn t
  | input i => i.step t

end Trigger

/-- The calls of `filenode_insert` in a run. -/
def callsFrom : Tables → List Trigger → List Insertion
  | _, [] => []
  | t, e :: rest =>
      (e.call t).toList ++
        match e.step t with
        | .ok (some t') => callsFrom t' rest
        | _ => []

/-! ## Counting the calls -/

/-- The two comparisons of `filelist_search` with the name of an entry. -/
def spells (path name : List Byte) : Bool :=
  name == path || name == (if path.getLast? = some 47 then path.dropLast else path)

/-- One more call for a path, under the first name that `filelist_search` accepts for it. -/
def tally (path : List Byte) : List (List Byte × ℕ) → List (List Byte × ℕ)
  | [] => [(path, 1)]
  | (name, n) :: rest =>
      if spells path name then (name, n + 1) :: rest else (name, n) :: tally path rest

/-- How many calls each entry gets. -/
def tallies (paths : List (List Byte)) (counts : List (List Byte × ℕ)) : List (List Byte × ℕ) :=
  paths.foldl (fun counts path => tally path counts) counts

/-- The first `n` slots are taken. -/
def Filelist.Filled (f : Filelist) (n : ℕ) : Prop := ∀ i : Fin 50, f.rep i ≠ 0 ↔ i.val < n

/-- Every entry has a slot taken for each of its calls. -/
def Tallied (counts : List (List Byte × ℕ)) (files : List Filelist) : Prop :=
  List.Forall₂ (fun c f => f.name = c.1 ∧ f.Filled c.2) counts files

section Calls

variable {t t' : Tables} {f : Filelist} {files : List Filelist} {counts : List (List Byte × ℕ)}
  {path dn name ip host buf1 buf2 : List Byte} {alive : ℤ} {net : Net} {c : Insertion} {n : ℕ}
  {i : Fin 50} {e : Trigger}

theorem getRepcreatenum_eq_none : getRepcreatenum f = none ↔ ∀ i, f.rep i ≠ 0 := by
  simp [getRepcreatenum, List.find?_eq_none]

theorem getRepcreatenum_filled (filled : f.Filled n) (free : getRepcreatenum f = some i) :
    i.val = n := by
  obtain ⟨zero, before⟩ := find?_finRange.1 free
  apply le_antisymm
  · by_contra beyond
    have room : n < 50 := by omega
    have used : f.rep ⟨n, room⟩ ≠ 0 := by simpa using before ⟨n, room⟩ (not_le.1 beyond)
    exact absurd ((filled ⟨n, room⟩).1 used) (lt_irrefl n)
  · by_contra taken
    exact (filled i).2 (not_le.1 taken) (by simpa using zero)

/-- A filled entry has a free slot as long as fewer than fifty are taken. -/
theorem free_iff (filled : f.Filled n) (small : n ≤ 50) : (∃ i, f.rep i = 0) ↔ n < 50 := by
  constructor
  · rintro ⟨i, free⟩
    have beyond : ¬ i.val < n := fun taken => (filled i).2 taken free
    omega
  · intro room
    refine ⟨⟨n, room⟩, ?_⟩
    by_contra taken
    exact lt_irrefl n ((filled ⟨n, room⟩).1 taken)

theorem filled_empty (path : List Byte) : Filelist.Filled ⟨path, fun _ => 0, fun _ => []⟩ 0 := by
  intro i
  simp

theorem filled_present (filled : f.Filled n) (here : i.val = n) :
    (f.present i dn).Filled (n + 1) := by
  intro j
  by_cases same : j = i
  · subst same
    simp [Filelist.present, here]
  · have apart : j.val ≠ i.val := fun h => same (Fin.ext h)
    have kept : (f.present i dn).rep j = f.rep j := Function.update_of_ne same _ _
    rw [kept, filled j]
    omega

theorem spells_name (path : List Byte) (f : Filelist) : spells path f.name = f.named path := rfl

/-- There is a slot for a path exactly if the count of its entry does not pass fifty. -/
theorem room_iff_tally (tallied : Tallied counts files) (small : ∀ c ∈ counts, c.2 ≤ 50) :
    (∀ f ∈ files.find? (Filelist.named path), ∃ i, f.rep i = 0) ↔
      ∀ c ∈ tally path counts, c.2 ≤ 50 := by
  induction tallied with
  | nil => simp [tally]
  | @cons c f counts files head tallied ih =>
    obtain ⟨name, n⟩ := c
    obtain ⟨rfl, filled⟩ := head
    have fits : n ≤ 50 := small _ List.mem_cons_self
    have rest : ∀ c ∈ counts, c.2 ≤ 50 := fun c mem => small c (List.mem_cons_of_mem _ mem)
    rw [List.find?_cons, tally, spells_name]
    by_cases named : f.named path = true
    · rw [if_pos named, named, List.forall_mem_cons]
      simp only [Option.mem_def, Option.some.injEq, forall_eq', free_iff filled fits]
      exact ⟨fun room => ⟨room, rest⟩, And.left⟩
    · rw [if_neg named, Bool.eq_false_iff.2 named, List.forall_mem_cons, ih rest]
      exact ⟨fun all => ⟨fits, all⟩, And.right⟩

theorem tallied_new (tallied : Tallied counts files)
    (absent : files.find? (Filelist.named path) = none) :
    Tallied (tally path counts)
      (files ++ [Filelist.present ⟨path, fun _ => 0, fun _ => []⟩ 0 dn]) := by
  induction tallied with
  | nil => exact .cons ⟨rfl, filled_present (filled_empty path) rfl⟩ .nil
  | @cons c f counts files head tallied ih =>
    obtain ⟨name, n⟩ := c
    obtain ⟨rfl, filled⟩ := head
    rw [List.find?_cons] at absent
    split at absent
    · cases absent
    · next other =>
      rw [tally, spells_name, if_neg (Bool.eq_false_iff.1 other)]
      exact .cons ⟨rfl, filled⟩ (ih absent)

theorem tallied_more {before after : List Filelist} (tallied : Tallied counts (before ++ f :: after))
    (other : ∀ g ∈ before, g.named path = false) (named : f.named path = true)
    (free : getRepcreatenum f = some i) :
    Tallied (tally path counts) (before ++ f.present i dn :: after) := by
  induction before generalizing counts with
  | nil =>
    cases tallied with
    | @cons c _ counts _ head rest =>
      obtain ⟨name, n⟩ := c
      obtain ⟨rfl, filled⟩ := head
      rw [tally, spells_name, if_pos named]
      exact .cons ⟨rfl, filled_present filled (getRepcreatenum_filled filled free)⟩ rest
  | cons g before ih =>
    cases tallied with
    | @cons c _ counts _ head rest =>
      obtain ⟨name, n⟩ := c
      obtain ⟨rfl, filled⟩ := head
      have unnamed := Bool.eq_false_iff.1 (other g List.mem_cons_self)
      rw [tally, spells_name, if_neg unnamed]
      exact .cons ⟨rfl, filled⟩ (ih rest fun h mem => other h (List.mem_cons_of_mem g mem))

/-- `filenode_insert` takes one more slot in the entry that it counts for. -/
theorem tallied_enters {files' : List Filelist} (tallied : Tallied counts files)
    (enters : Enters path dn files files') : Tallied (tally path counts) files' := by
  cases enters with
  | new absent => exact tallied_new tallied absent
  | more split other named free =>
    rw [split] at tallied
    exact tallied_more tallied other named free

/-! ## One call -/

theorem slotIndex_inside (o : Option (Fin 50)) :
    (0 ≤ slotIndex o ∧ slotIndex o < 50) ↔ o ≠ none := by
  cases o with
  | none => simp [slotIndex]
  | some i =>
    have := i.isLt
    simp only [slotIndex, ne_eq, reduceCtorEq, not_false_eq_true, iff_true]
    omega

/-- The entry of a call has a free slot, if it is new or has had one before. -/
theorem target_free : getRepcreatenum (target t path) ≠ none ↔ HasRoom t path := by
  rw [Ne, getRepcreatenum_eq_none, HasRoom, target]
  cases filelist_search t path with
  | none => simp
  | some f => simp

theorem staysInside_iff_room (c : Insertion) : c.StaysInside ↔ HasRoom c.tables c.path := by
  constructor
  · intro inside
    rcases inside.range with range | unchanged
    · exact target_free.1 ((slotIndex_inside _).1 range)
    · exact (filenode_insert_ok_iff.1 ⟨_, unchanged⟩).2.2
  · intro room
    refine ⟨.inl ((slotIndex_inside _).2 (target_free.2 room)), fun f mem taken => ?_⟩
    obtain ⟨i, free⟩ := room f mem
    exact absurd free (taken i)

/-! ## One step of a run -/

/-- The file list behind a step is the one that the call of the step leaves. -/
def Follows (t : Tables) (call : Option Insertion) (t' : Tables) : Prop :=
  match call with
  | none => t'.sfile = t.sfile
  | some c => ∃ t₁, filenode_insert c.path c.dn c.tables = .ok t₁ ∧ t'.sfile = t₁.sfile

theorem getfiledn_files {found : Option (List Byte)}
    (located : getfiledn net t path = .ok (found, t')) : t'.sfile = t.sfile := by
  unfold getfiledn at located
  split at located
  · obtain ⟨⟨d, r⟩, -, same⟩ := bind_eq_ok.1 located
    cases same
    rfl
  · obtain ⟨_ | i, -, located⟩ := bind_eq_ok.1 located
    · obtain ⟨_ | i, -, same⟩ := bind_eq_ok.1 located <;> cases same <;> rfl
    · cases located
      rfl

theorem datanode_insert_follows (h : datanode_insert name ip alive t = .ok t') :
    Follows t (some (registration t name ip alive)) t' := by
  obtain ⟨t₁, inserted, h⟩ := bind_eq_ok.1 h
  obtain ⟨⟨r, cursor⟩, -, same⟩ := bind_eq_ok.1 h
  cases same
  exact ⟨t₁, inserted, rfl⟩

theorem forward_follows {cmd : Command} {second : Option (List Byte)} {junk : Option Call}
    {recorded stops : Bool}
    (h : (forward net t host buf2 second cmd junk recorded stops).next = .ok (some t')) :
    Follows t (if recorded then forwarded net t buf2 second cmd else none) t' := by
  cases second with
  | none => cases h
  | some path =>
    rw [forwarded]
    simp only [forward] at h
    split at h
    · cases h
    · next t₁ located =>
      simp only [located, ite_self]
      split at h
      · cases h
      · cases h
        exact getfiledn_files located
    · next dn t₁ located =>
      split at h
      · cases h
      · next unsent =>
        simp only [located, unsent, ite_self]
        cases stops with
        | true => cases h
        | false =>
          cases h
          exact getfiledn_files located
      · next datagram sent =>
        simp only [located, sent]
        split_ifs at h ⊢
        · obtain ⟨t₂, inserted, same⟩ := map_eq_ok.1 h
          cases same
          exact ⟨_, inserted, rfl⟩
        · cases h
          exact getfiledn_files located

theorem namenode_follows (h : (receivecommand_namenode net t host buf1).next = .ok (some t')) :
    Follows t (datagramCall net t host buf1) t' := by
  obtain ⟨fits, branch⟩ := namenode_branch h
  simp only [datagramCall, if_neg (not_le.2 fits)]
  cases branch with
  | idle same other =>
    have unrecorded : ∀ c, (nextToken [comma] buf1).1.bind Command.ofText = some c →
        c ≠ .datanode ∧ c.recorded = false := by
      intro c named
      obtain ⟨cmd, first, found⟩ := Option.bind_eq_some_iff.1 named
      obtain rfl := Command.ofText_eq_some found
      obtain ⟨unforwarded, unregistered⟩ := other c first
      refine ⟨unregistered, Bool.eq_false_iff.2 fun records => ?_⟩
      rw [Command.forwards_of_recorded records] at unforwarded
      cases unforwarded
    subst same
    split
    · rfl
    · next named => exact absurd rfl (unrecorded _ named).1
    · next c _ named =>
      rw [(unrecorded c named).2]
      exact rfl
  | registered first known inserted =>
    simp only [first, Option.bind_some, Command.ofText_text, known, if_true]
    exact datanode_insert_follows inserted
  | @forwarded c first forwards next_ =>
    simp only [first, Option.bind_some, Command.ofText_text]
    cases c with
    | datanode | statfs | shutdown | dn_command => cases forwards
    | _ => exact forward_follows next_

theorem Trigger.step_follows (h : e.step t = .ok (some t')) : Follows t (e.call t) t' := by
  cases e with
  | direct path dn =>
    obtain ⟨t₁, inserted, same⟩ := map_eq_ok.1 h
    cases same
    exact ⟨_, inserted, rfl⟩
  | input i =>
    cases i with
    | insert name ip alive =>
      obtain ⟨t₁, inserted, same⟩ := map_eq_ok.1 h
      cases same
      exact datanode_insert_follows inserted
    | datagram net host buf1 => exact namenode_follows h

theorem forwarded_files {second : Option (List Byte)} {cmd : Command}
    (h : forwarded net t buf2 second cmd = some c) : c.tables.sfile = t.sfile := by
  unfold forwarded at h
  split at h
  · cases h
  · split at h
    · next dpath t₁ located =>
      split at h
      · cases h
        exact getfiledn_files located
      · cases h
    · cases h

/-- A call finds the file list from before the step. -/
theorem Trigger.call_files (h : e.call t = some c) : c.tables.sfile = t.sfile := by
  cases e with
  | direct path dn =>
    cases h
    rfl
  | input i =>
    cases i with
    | insert name ip alive =>
      cases h
      rfl
    | datagram net host buf1 =>
      simp only [call, datagramCall] at h
      split at h
      · cases h
      · split at h
        · cases h
        · split at h
          · cases h
            rfl
          · cases h
        · split at h
          · exact forwarded_files h
          · cases h

/-! ## Runs -/

theorem tallied_step (tallied : Tallied counts t.sfile) (h : e.step t = .ok (some t')) :
    Tallied (tallies ((e.call t).toList.map Insertion.path) counts) t'.sfile := by
  have follows := Trigger.step_follows h
  cases called : e.call t with
  | none =>
    rw [called] at follows
    rw [show t'.sfile = t.sfile from follows]
    exact tallied
  | some c =>
    rw [called] at follows
    obtain ⟨t₁, inserted, same⟩ := follows
    obtain ⟨-, files, enters, rfl⟩ := filenode_insert_enters inserted
    rw [Trigger.call_files called] at enters
    rw [same]
    exact tallied_enters tallied enters

/-- The call of a step stays inside the arrays exactly if no count passes fifty. -/
theorem call_inside (tallied : Tallied counts t.sfile) (small : ∀ c ∈ counts, c.2 ≤ 50) :
    (∀ c ∈ e.call t, c.StaysInside) ↔
      ∀ c ∈ tallies ((e.call t).toList.map Insertion.path) counts, c.2 ≤ 50 := by
  cases called : e.call t with
  | none => simpa [tallies] using small
  | some c =>
    have room := staysInside_iff_room c
    rw [HasRoom, filelist_search, Trigger.call_files called, room_iff_tally tallied small] at room
    simpa [tallies] using room

theorem tallies_append (paths more : List (List Byte)) :
    tallies (paths ++ more) counts = tallies more (tallies paths counts) := by
  simp only [tallies, List.foldl_append]

theorem calls_inside (tallied : Tallied counts t.sfile) (small : ∀ c ∈ counts, c.2 ≤ 50)
    (triggers : List Trigger) :
    (∀ c ∈ callsFrom t triggers, c.StaysInside) ↔
      ∀ c ∈ tallies ((callsFrom t triggers).map Insertion.path) counts, c.2 ≤ 50 := by
  induction triggers generalizing t counts with
  | nil => simpa [callsFrom, tallies] using small
  | cons e rest ih =>
    have first := call_inside (e := e) tallied small
    rw [callsFrom]
    split
    · next t' next_ =>
      have inside : ∀ c ∈ e.call t, c.StaysInside := by
        intro c called
        have follows := Trigger.step_follows next_
        rw [called] at follows
        obtain ⟨t₁, inserted, -⟩ := follows
        exact (staysInside_iff_room c).2 (filenode_insert_ok_iff.1 ⟨t₁, inserted⟩).2.2
      rw [List.map_append, tallies_append, ← ih (tallied_step tallied next_) (first.1 inside),
        List.forall_mem_append]
      simp only [Option.mem_toList]
      exact and_iff_right inside
    · -- a step that ends the loop or fails ends the run
      rw [List.append_nil, ← first]
      simp only [Option.mem_toList]
      exact Iff.rfl

end Calls

/-- In a run from an empty file list every call of `filenode_insert` stays inside the arrays,
exactly if no entry gets more than fifty calls. -/
theorem slots_inside_iff (nodes : NodeList) (triggers : List Trigger) :
    (∀ c ∈ callsFrom ⟨nodes, []⟩ triggers, c.StaysInside) ↔
      ∀ c ∈ tallies ((callsFrom ⟨nodes, []⟩ triggers).map Insertion.path) [], c.2 ≤ 50 :=
  calls_inside (t := ⟨nodes, []⟩) .nil (by simp) triggers

/-- A data node that registers fifty-one times. -/
def registrations : List Trigger := List.replicate 51 (.input registerD)

/-- The slot of the last call is -1, and the call does not leave the lists alone. -/
theorem registrations_outside :
    ¬ ∀ c ∈ callsFrom ⟨⟨[], []⟩, []⟩ registrations, c.StaysInside := by
  have paths : (callsFrom ⟨⟨[], []⟩, []⟩ registrations).map Insertion.path =
      List.replicate 51 DATANODE_DIR := by decide
  rw [calls_inside (t := ⟨⟨[], []⟩, []⟩) .nil (by simp), paths]
  decide

end DistFs.Wire
