import DistFs.NameSpace.Store

/-!
# The arrays of `dd.c`

`dd.c` copies strings into arrays of fixed size and never asks whether they fit: the parts of a path
into `foldname` and `tpath`, the fields of a record into `fname`, `dname` and `loc`, a line of the
file into `buffer`.  These are the functions of the tree with their arrays: a copy that does not fit
ends the call with the error `overflow`.  In every other way they do what the functions without
arrays do (`Within`), so whatever holds of every run of those holds of every run of these.
-/

namespace DistFs.NameSpace.Arrays

open CText

/-- A copy of the bytes and of their terminator into an array of `size` bytes. -/
def store (size : ℕ) (bytes : List Byte) : Except Fault Unit :=
  if bytes.length < size then .ok () else .error .overflow

/-! ## The calls -/

/-- `searchloc`: `foldname` receives what `parserpath` writes, `tpath` what `removepath` writes. -/
def searchloc (s : State) : ℕ → Option Addr → CString → Except Fault (Option Addr)
  | 0, _, _ => .error .fuel
  | fuel + 1, temp, vpath => do
      if findfch vpath.bytes slash ≠ -1 then
        store MAX_PATH (cstrcpy vpath.bytes 0 (findfch vpath.bytes slash - 2))
        match ← searchsiblings s (parserpath vpath) (s.brk + 1) temp with
        | none => return none
        | some a =>
            let n ← s.deref (some a)
            store MAX_PATH (cstrcpy vpath.bytes (findfch vpath.bytes slash).toNat 0)
            searchloc s fuel n.fold (removepath vpath)
      else if vpath = home then return s.head
      else
        let n ← s.deref temp
        if n.data.fname = home then
          let h ← s.deref s.head
          searchsiblings s vpath (s.brk + 1) h.fold
        else searchsiblings s vpath (s.brk + 1) temp

/-- `search`. -/
def search (s : State) (vpath : CString) : Except Fault (Option Addr) :=
  if vpath = home then .ok s.head
  else searchloc s (vpath.bytes.length + 1) s.head vpath

/-- `searchlast`. -/
def searchlast (s : State) (tpath : CString) : Except Fault (Option Addr) := do
  let tnode ← search s tpath
  let n ← s.deref tnode
  if n.fold = none then return tnode
  lastsibling s (s.brk + 1) n.fold

/-- `addnode`. -/
def addnode (vpath : CString) (vdata : Datadef) (s : State) : Except Fault (Addr × State) := do
  let newnode := s.brk
  let s := create_node vdata s
  let tnode ← searchlast s vpath
  let n ← s.deref tnode
  let some t := tnode | .error .null
  let s := if n.data.dflag = 1 then s.write t fun n => { n with fold := some newnode }
    else s.write t fun n => { n with next := some newnode }
  let s := s.write newnode fun n => { n with prev := some t }
  if s.nodeno ≥ INT_MAX then .error .overflow
  let s := { s with nodeno := s.nodeno + 1 }
  let parent ← s.deref (some t)
  let s := s.write newnode fun n =>
    { n with data := { n.data with pno := parent.data.nno, nno := s.nodeno } }
  return (newnode, s)

/-- The copies of `addfile` and `addfolder` into their `tdata`, and the call of `addnode`. -/
def addentry (fname dname loc : CString) (dflag : ℤ) (s : State) : Except Fault (Addr × State) := do
  store MAX_PATH fname.bytes
  store SERV_PATH dname.bytes
  store MAX_PATH loc.bytes
  addnode loc (newdata fname dname loc dflag) s

/-- `addfile`. -/
def addfile (fname dname loc : CString) (s : State) : Except Fault (Addr × State) :=
  addentry fname dname loc 0 s

/-- `addfolder`. -/
def addfolder (fname dname loc : CString) (s : State) : Except Fault (Addr × State) :=
  addentry fname dname loc 1 s

/-- What `removefile` and `removefold` share. -/
def unlink (vpath : CString) (s : State) : Except Fault (Addr × State) := do
  let tnode ← search s vpath
  let n ← s.deref tnode
  let p ← s.deref n.prev
  let (some t, some prev) := (tnode, n.prev) | .error .null
  let s := if p.data.dflag = 1 then s.write prev fun p => { p with fold := n.next }
    else s.write prev fun p => { p with next := n.next }
  let _ ← s.deref n.next
  let some next := n.next | .error .null
  let s := s.write next fun m => { m with prev := some prev }
  return (t, s)

/-- `removefile`. -/
def removefile (vpath : CString) (s : State) : Except Fault State := do
  let (t, s) ← unlink vpath s
  return s.free t

mutual

/-- `removefold`. -/
def removefold : ℕ → CString → State → Except Fault State
  | 0, _, _ => .error .fuel
  | fuel + 1, vpath, s => do
      let (t, s) ← unlink vpath s
      let n ← s.deref (some t)
      removechildren fuel n.fold s

/-- The loop of `removefold` over the children from `temp` on, and the last child behind it. -/
def removechildren : ℕ → Option Addr → State → Except Fault State
  | 0, _, _ => .error .fuel
  | fuel + 1, temp, s => do
      let n ← s.deref temp
      if n.next ≠ none then
        let s ← if n.data.dflag = 1 then removefold fuel n.data.loc s else removefile n.data.loc s
        removechildren fuel n.next s
      else if n.data.dflag = 1 then removefold fuel n.data.loc s
      else removefile n.data.loc s

end

/-- The effect of a call on the tree. -/
def run : Op → State → Except Fault State
  | .addfile f d l, s => Prod.snd <$> addfile f d l s
  | .addfolder f d l, s => Prod.snd <$> addfolder f d l s
  | .removefile p, s => removefile p s
  | .removefold p, s => removefold (2 * s.brk + 2) p s

/-- A sequence of calls that all return. -/
def runOps (ops : List Op) (s : State) : Except Fault State := ops.foldlM (fun s op => run op s) s

/-! ## The file -/

/-- The size of `buffer`, which holds a line of the file. -/
def LINE : ℕ := 1000

/-- `recursestore`. -/
def recursestore (s : State) : ℕ → Option Addr → Except Fault (List Byte)
  | 0, _ => .error .fuel
  | fuel + 1, tnode => do
      let n ← s.deref tnode
      store LINE (storeline n.data)
      let below ← if n.fold ≠ none then recursestore s fuel n.fold else pure []
      let behind ← if n.next ≠ none then recursestore s fuel n.next else pure []
      return storeline n.data ++ below ++ behind

/-- `storelist`. -/
def storelist (s : State) (file : File) : Except Fault File := do
  let text ← recursestore s (s.brk + 1) s.head
  return some (file.getD [] ++ text)

/-- The loop of `recoverlist` over the names of the data nodes. -/
def names : ℕ → List Byte → Except Fault (List (List Byte) × List Byte)
  | 0, m => .ok ([], m)
  | n + 1, m => do
      let (t, m) ← token m
      store SERV_PATH t
      let (ts, m) ← names n m
      return (t :: ts, m)

/-- The part of `recoverlist` that reads one node from `buffer`. -/
def readline (buffer : List Byte) : Except Fault Datadef := do
  let (nno, m) ← token buffer
  let (pno, m) ← token m
  let (fname, m) ← token m
  store MAX_PATH fname
  let (dname, m) ← names REP m
  let (loc, m) ← token m
  store MAX_PATH loc
  let (dflag, m) ← token m
  let (dsync, _) ← tokens REP m
  return {
    nno := atoi nno
    pno := atoi pno
    fname := .ofBytes fname
    dname := fun i => .ofBytes (dname.getD i [])
    loc := .ofBytes loc
    dflag := atoi dflag
    dsync := fun i => atoi (dsync.getD i []) }

/-- The nodes behind the first.  Every word of the file is read into `buffer`. -/
def recoverlines : List (List Byte) → State → Except Fault State
  | [], s => .ok s
  | buffer :: lines, s => do
      store LINE buffer
      let tdata ← readline buffer
      let (_, s) ← addnode tdata.loc tdata s
      recoverlines lines s

/-- `recoverlist`. -/
def recoverlist (junk : Fin REP → ℤ) (file : File) (s : State) : Except Fault State :=
  match file with
  | none => .ok <| ninitialize junk s
  | some text =>
      match words text with
      | [] => .ok s
      | buffer :: lines => do
          store LINE buffer
          let tdata ← readline buffer
          recoverlines lines (recoverhead tdata s)

/-! ## With and without arrays -/

/-- `x` does what `y` does, unless it writes past an array. -/
def Within {α : Type} (x y : Except Fault α) : Prop := x = y ∨ x = .error .overflow

section Within

variable {α β : Type} {x y : Except Fault α}

theorem Within.refl (x : Except Fault α) : Within x x := .inl rfl

theorem Within.ok {a : α} (h : Within x y) (returned : x = .ok a) : y = .ok a := by
  rcases h with rfl | overrun
  · exact returned
  · rw [overrun] at returned
    cases returned

theorem Within.bind {f g : α → Except Fault β} (first : Within x y)
    (later : ∀ a, Within (f a) (g a)) : Within (x >>= f) (y >>= g) := by
  rcases first with rfl | overrun
  · cases x with
    | error e => exact .refl _
    | ok a => exact later a
  · rw [overrun]
    exact .inr rfl

theorem Within.store {size : ℕ} {bytes : List Byte} (h : Within x y) :
    Within (store size bytes >>= fun _ => x) y := by
  unfold Arrays.store
  split_ifs
  · exact h
  · exact .inr rfl

end Within

theorem store_eq_ok {size : ℕ} {bytes : List Byte} :
    store size bytes = .ok () ↔ bytes.length < size := by
  unfold store
  split_ifs with fits <;> simp [fits]

variable {s s' : State} {vpath : CString}

theorem searchloc_within (s : State) (fuel : ℕ) (temp : Option Addr) (vpath : CString) :
    Within (searchloc s fuel temp vpath) (NameSpace.searchloc s fuel temp vpath) := by
  induction fuel generalizing temp vpath with
  | zero => exact .refl _
  | succ fuel ih =>
    rw [searchloc, NameSpace.searchloc]
    split_ifs
    · apply Within.store
      apply (Within.refl _).bind
      rintro (_ | a)
      · exact .refl _
      · apply (Within.refl _).bind
        intro n
        exact (ih _ _).store
    all_goals exact .refl _

theorem search_within (s : State) (vpath : CString) :
    Within (search s vpath) (NameSpace.search s vpath) := by
  rw [search, NameSpace.search]
  split_ifs
  · exact .refl _
  · exact searchloc_within _ _ _ _

theorem searchlast_within (s : State) (tpath : CString) :
    Within (searchlast s tpath) (NameSpace.searchlast s tpath) :=
  (search_within s tpath).bind fun _ => .refl _

theorem addnode_within (vpath : CString) (vdata : Datadef) (s : State) :
    Within (addnode vpath vdata s) (NameSpace.addnode vpath vdata s) :=
  (searchlast_within _ vpath).bind fun _ => .refl _

theorem addentry_within (fname dname loc : CString) (dflag : ℤ) (s : State) :
    Within (addentry fname dname loc dflag s)
      (NameSpace.addnode loc (newdata fname dname loc dflag) s) :=
  (addnode_within _ _ s).store.store.store

theorem unlink_within (vpath : CString) (s : State) :
    Within (unlink vpath s) (NameSpace.unlink vpath s) :=
  (search_within s vpath).bind fun _ => .refl _

theorem removefile_within (vpath : CString) (s : State) :
    Within (removefile vpath s) (NameSpace.removefile vpath s) :=
  (unlink_within vpath s).bind fun _ => .refl _

theorem removefold_within (fuel : ℕ) :
    (∀ vpath s, Within (removefold fuel vpath s) (NameSpace.removefold fuel vpath s)) ∧
      ∀ temp s, Within (removechildren fuel temp s) (NameSpace.removechildren fuel temp s) := by
  induction fuel with
  | zero => exact ⟨fun _ _ => .refl _, fun _ _ => .refl _⟩
  | succ fuel ih =>
    obtain ⟨folder, children⟩ := ih
    refine ⟨fun vpath s => ?_, fun temp s => ?_⟩
    · rw [removefold, NameSpace.removefold]
      apply (unlink_within vpath s).bind
      intro p
      apply (Within.refl _).bind
      intro n
      exact children _ _
    · rw [removechildren, NameSpace.removechildren]
      apply (Within.refl _).bind
      intro n
      split_ifs
      · exact (folder _ _).bind fun s => children _ s
      · exact (removefile_within _ _).bind fun s => children _ s
      · exact folder _ _
      · exact removefile_within _ _

theorem run_within (op : Op) (s : State) : Within (run op s) (op.run s) := by
  cases op with
  | addfile f d l => exact (addentry_within f d l 0 s).bind fun _ => .refl _
  | addfolder f d l => exact (addentry_within f d l 1 s).bind fun _ => .refl _
  | removefile p => exact removefile_within p s
  | removefold p => exact (removefold_within _).1 p s

/-- A run with arrays is a run without. -/
theorem runOps_returned {ops : List Op} (h : runOps ops s = .ok s') :
    NameSpace.runOps ops s = .ok s' := by
  induction ops generalizing s with
  | nil => exact h
  | cons op ops ih =>
    obtain ⟨u, first, later⟩ := bind_eq_ok.1 h
    exact bind_eq_ok.2 ⟨u, (run_within op s).ok first, ih later⟩

theorem runOps_stateAfter {ops : List Op}
    (h : (runOps ops (initialTree fun _ => 0)).toBool = true) :
    runOps ops (initialTree fun _ => 0) = .ok (stateAfter ops) := by
  obtain ⟨s, returned⟩ := ok_of_toBool h
  rw [stateAfter, runOps_returned returned, returned]

/-! ## Paths that fit -/

/-- What `parserpath` and `removepath` write is never longer than the path. -/
theorem length_parts {vpath : CString} (slashed : slash ∈ vpath.bytes) :
    (cstrcpy vpath.bytes 0 (findfch vpath.bytes slash - 2)).length ≤ vpath.bytes.length ∧
      (cstrcpy vpath.bytes (findfch vpath.bytes slash).toNat 0).length = vpath.bytes.length := by
  have whole : (cstrcpy vpath.bytes (findfch vpath.bytes slash).toNat 0).length =
      vpath.bytes.length := by
    rw [cstrcpy, if_neg (by simp), List.length_map, List.length_range, cstr_of_noNul vpath.noNul]
  refine ⟨?_, whole⟩
  obtain ⟨c, r, split, front⟩ := List.eq_append_cons_of_mem slashed
  have position : findfch vpath.bytes slash = c.length + 1 := by
    rw [split]
    exact findfch_split (split ▸ vpath.noNul) front
  have total : vpath.bytes.length = c.length + (r.length + 1) := by
    rw [split, List.length_append, List.length_cons]
  rw [cstrcpy]
  split_ifs
  · rw [List.length_map, List.length_range, position]
    omega
  · rw [List.length_map, List.length_range, cstr_of_noNul vpath.noNul]

/-- A short path is searched as if there were no arrays. -/
theorem searchloc_short (fits : vpath.bytes.length < MAX_PATH) (fuel : ℕ) (temp : Option Addr) :
    searchloc s fuel temp vpath = NameSpace.searchloc s fuel temp vpath := by
  induction fuel generalizing temp vpath with
  | zero => rfl
  | succ fuel ih =>
    rw [searchloc, NameSpace.searchloc]
    split_ifs with slashed
    · have mem := (findfch_ne_neg_one vpath.noNul).1 slashed
      obtain ⟨front, behind⟩ := length_parts mem
      have rest := ih ((removepath_length mem).trans fits)
      rw [store_eq_ok.2 (front.trans_lt fits), store_eq_ok.2 (behind.trans_lt fits)]
      simp only [rest]
      rfl
    all_goals rfl

theorem search_short (fits : vpath.bytes.length < MAX_PATH) :
    search s vpath = NameSpace.search s vpath := by
  rw [search, NameSpace.search, searchloc_short fits]

/-- A path without slash is not copied at all. -/
theorem search_plain (flat : slash ∉ vpath.bytes) : search s vpath = NameSpace.search s vpath := by
  have last : ¬ findfch vpath.bytes slash ≠ -1 := by rwa [findfch_ne_neg_one vpath.noNul]
  rw [search, NameSpace.search, searchloc, NameSpace.searchloc, if_neg last, if_neg last]

/-- The paths that `search` can follow to a node. -/
def Fits (vpath : CString) : Prop := slash ∈ vpath.bytes → vpath.bytes.length < MAX_PATH

instance (vpath : CString) : Decidable (Fits vpath) :=
  inferInstanceAs (Decidable (slash ∈ vpath.bytes → vpath.bytes.length < MAX_PATH))

/-- A node is found with the arrays when it is found without and the path fits. -/
theorem search_some_iff {a : Addr} : search s vpath = .ok (some a) ↔
    NameSpace.search s vpath = .ok (some a) ∧ Fits vpath := by
  constructor
  · intro found
    refine ⟨(search_within s vpath).ok found, fun slashed => ?_⟩
    have proper : vpath ≠ home := by
      rintro rfl
      revert slashed
      decide
    rw [search, if_neg proper, searchloc, if_pos ((findfch_ne_neg_one vpath.noNul).2 slashed)] at found
    obtain ⟨-, -, found⟩ := bind_eq_ok.1 found
    obtain ⟨_ | b, -, found⟩ := bind_eq_ok.1 found
    · cases found
    · -- a matching name is followed by a copy of the whole path into `tpath`
      obtain ⟨n, -, found⟩ := bind_eq_ok.1 found
      obtain ⟨⟨⟩, copied, -⟩ := bind_eq_ok.1 found
      rw [← (length_parts slashed).2]
      exact store_eq_ok.1 copied
  · rintro ⟨found, fits⟩
    by_cases slashed : slash ∈ vpath.bytes
    · rw [search_short (fits slashed), found]
    · rw [search_plain slashed, found]

theorem searchlast_short (fits : vpath.bytes.length < MAX_PATH) :
    searchlast s vpath = NameSpace.searchlast s vpath := by
  rw [searchlast, NameSpace.searchlast, search_short fits]

theorem addnode_short (fits : vpath.bytes.length < MAX_PATH) (vdata : Datadef) :
    addnode vpath vdata s = NameSpace.addnode vpath vdata s := by
  simp only [addnode, searchlast_short fits]
  rfl

theorem unlink_short (fits : vpath.bytes.length < MAX_PATH) :
    unlink vpath s = NameSpace.unlink vpath s := by
  rw [unlink, search_short fits]
  rfl

theorem removefile_short (fits : vpath.bytes.length < MAX_PATH) :
    removefile vpath s = NameSpace.removefile vpath s := by
  rw [removefile, NameSpace.removefile, unlink_short fits]

/-- A removal of a node that is found does the same with the arrays. -/
theorem unlink_fits {a : Addr} (fits : Fits vpath) (found : NameSpace.search s vpath = .ok (some a)) :
    unlink vpath s = NameSpace.unlink vpath s := by
  rw [unlink, search_some_iff.2 ⟨found, fits⟩, ← found]
  rfl

theorem removefile_fits {a : Addr} (fits : Fits vpath)
    (found : NameSpace.search s vpath = .ok (some a)) :
    removefile vpath s = NameSpace.removefile vpath s := by
  rw [removefile, NameSpace.removefile, unlink_fits fits found]

/-- The strings of a record fit into its fields. -/
structure RecordFits (d : Datadef) : Prop where
  fname : d.fname.bytes.length < MAX_PATH
  dname : ∀ i, (d.dname i).bytes.length < SERV_PATH
  loc : d.loc.bytes.length < MAX_PATH

theorem addentry_short {fname dname loc : CString} (dflag : ℤ)
    (fits : fname.bytes.length < MAX_PATH ∧ dname.bytes.length < SERV_PATH ∧
      loc.bytes.length < MAX_PATH) :
    addentry fname dname loc dflag s = NameSpace.addnode loc (newdata fname dname loc dflag) s := by
  rw [addentry, store_eq_ok.2 fits.1, store_eq_ok.2 fits.2.1, store_eq_ok.2 fits.2.2]
  exact addnode_short fits.2.2 _

/-- An insertion returns what `addnode` returns when its strings fit, and else nothing. -/
theorem addentry_eq_ok {fname dname loc : CString} {dflag : ℤ} {r : Addr × State} :
    addentry fname dname loc dflag s = .ok r ↔
      (fname.bytes.length < MAX_PATH ∧ dname.bytes.length < SERV_PATH ∧
        loc.bytes.length < MAX_PATH) ∧
      NameSpace.addnode loc (newdata fname dname loc dflag) s = .ok r := by
  rw [addentry]
  constructor
  · intro h
    obtain ⟨⟨⟩, first, h⟩ := bind_eq_ok.1 h
    obtain ⟨⟨⟩, second, h⟩ := bind_eq_ok.1 h
    obtain ⟨⟨⟩, third, h⟩ := bind_eq_ok.1 h
    exact ⟨⟨store_eq_ok.1 first, store_eq_ok.1 second, store_eq_ok.1 third⟩,
      (addnode_within _ _ s).ok h⟩
  · rintro ⟨fits, h⟩
    rw [← h, ← addentry_short dflag fits, addentry]

end DistFs.NameSpace.Arrays
