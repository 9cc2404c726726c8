import DistFs.NameSpace.Fitting
import DistFs.NameSpace.Recovery
import DistFs.Runs.Lockstep

/-!
# The tree as a list of records

What the library is for, without a heap: a list of records in the order of the chain, and the last
number given.  A path is looked up in the list, an insertion cuts the list behind the record that the
new one is linked to, a removal takes a record from between two others.  Whatever sequence of calls a
process makes, saves and restarts included, as long as its strings fit into the arrays of `dd.c`: the
heap returns what the list returns and fails where the list fails, at a null pointer or a full
counter, never at a freed cell, in an endless loop or past an array.
-/

namespace DistFs.NameSpace

open CText Links Machine

/-! ## Calls -/

/-- A call of the library.  `restart` is the end of the process and `recoverlist` in the next. -/
inductive Call where
  | addfile (fname dname loc : CString)
  | addfolder (fname dname loc : CString)
  | removefile (vpath : CString)
  | removefold (vpath : CString)
  | search (vpath : CString)
  | storelist
  | restart (junk : Fin REP → ℤ)

/-- What a call returns: nothing, or the record that a pointer leads to. -/
inductive Answer where
  | done
  | node (d : Option Datadef)
deriving DecidableEq

/-- The strings that a call passes fit into the arrays they are copied to. -/
def Call.Fits : Call → Prop
  | .addfile fname dname loc | .addfolder fname dname loc =>
      fname.bytes.length < MAX_PATH ∧ dname.bytes.length < SERV_PATH ∧ loc.bytes.length < MAX_PATH
  | .removefile vpath | .removefold vpath | .search vpath => vpath.bytes.length < MAX_PATH
  | .storelist | .restart _ => True

/-- The record that a pointer leads to. -/
def State.record (s : State) (r : Option Addr) : Option Datadef :=
  r.bind fun a => (s.heap a).map Node.data

/-- An insertion returns the record of the new node. -/
def created (r : Except Fault (Addr × State)) : Except Fault (Answer × State) :=
  r.map fun q => (.node (q.2.record (some q.1)), q.2)

/-- A call on the heap and on the file `data.txt`. -/
def onHeap : State × File → Call → Except Fault (Answer × State × File)
  | (s, file), .addfile fname dname loc => do
      let (o, s) ← created (Arrays.addfile fname dname loc s)
      return (o, s, file)
  | (s, file), .addfolder fname dname loc => do
      let (o, s) ← created (Arrays.addfolder fname dname loc s)
      return (o, s, file)
  | (s, file), .removefile vpath => do
      let s ← Arrays.removefile vpath s
      return (.done, s, file)
  | (s, file), .removefold vpath => do
      let s ← Arrays.removefold (2 * s.brk + 2) vpath s
      return (.done, s, file)
  | (s, file), .search vpath => do
      let r ← Arrays.search s vpath
      return (.node (s.record r), s, file)
  | (s, file), .storelist => do
      let file ← Arrays.storelist s file
      return (.done, s, file)
  | (_, file), .restart junk => do
      let s ← Arrays.recoverlist junk file .fresh
      return (.node (s.record s.head), s, file)

/-! ## The list -/

/-- The records in the order of the chain, and `nodeno`. -/
structure Listing where
  records : List Datadef
  nodeno : ℤ
deriving DecidableEq

namespace Listing

/-- The record that a path names, and the records behind it. -/
def locate (t : Listing) (vpath : CString) : Except Fault (Option (Datadef × List Datadef)) :=
  find Datadef.fname (fun d => d.dflag = 1) t.records vpath

/-- The records from the first up to the one in front of `behind`. -/
def upTo (t : Listing) (behind : List Datadef) : List Datadef :=
  t.records.take (t.records.length - behind.length)

/-- The new record comes behind the point of attachment, in place of everything there. -/
def add (t : Listing) (vpath : CString) (d : Datadef) : Except Fault (Answer × Listing) := do
  match ← t.locate vpath with
  | none => .error .null
  | some (x, behind) =>
      let (u, cut) := attachPoint (fun d : Datadef => d.dflag = 1) x behind
      if t.nodeno ≥ INT_MAX then .error .overflow
      let new := { d with pno := u.nno, nno := t.nodeno + 1 }
      return (.node (some new), ⟨t.upTo cut ++ [new], t.nodeno + 1⟩)

/-- Only a file that is neither the first nor the last of all records is removed. -/
def remove (t : Listing) (vpath : CString) : Except Fault Listing := do
  match ← t.locate vpath with
  | none => .error .null
  | some (x, behind) =>
      if t.upTo (x :: behind) = [] ∨ x.dflag = 1 ∨ behind = [] then .error .null
      return { t with records := t.upTo (x :: behind) ++ behind }

/-- The name space of a new file system. -/
def initial (junk : Fin REP → ℤ) : Listing := ⟨[(rootItem junk).data], 1⟩

/-- The records behind the first are inserted one by one. -/
def recoverlines : List (List Byte) → Listing → Except Fault Listing
  | [], t => .ok t
  | buffer :: lines, t => do
      let tdata ← readline buffer
      let (_, t) ← t.add tdata.loc tdata
      recoverlines lines t

/-- `recoverlist` on the list: without a file it begins anew. -/
def recover (junk : Fin REP → ℤ) : File → Except Fault Listing
  | none => .ok (initial junk)
  | some text =>
      match words text with
      | [] => .ok ⟨[], 0⟩
      | buffer :: lines => do
          let tdata ← readline buffer
          recoverlines lines ⟨[tdata], 0⟩

end Listing

/-- A call on the list and on the file `data.txt`. -/
def onListing : Listing × File → Call → Except Fault (Answer × Listing × File)
  | (t, file), .addfile fname dname loc => do
      let (o, t) ← t.add loc (newdata fname dname loc 0)
      return (o, t, file)
  | (t, file), .addfolder fname dname loc => do
      let (o, t) ← t.add loc (newdata fname dname loc 1)
      return (o, t, file)
  | (t, file), .removefile vpath => do
      let t ← t.remove vpath
      return (.done, t, file)
  | _, .removefold _ => .error .null
  | (t, file), .search vpath => do
      let r ← t.locate vpath
      return (.node (r.map Prod.fst), t, file)
  | (t, file), .storelist => .ok (.done, t, some (file.getD [] ++ t.records.flatMap storeline))
  | (_, file), .restart junk => do
      let t ← Listing.recover junk file
      return (.node t.records.head?, t, file)

/-! ## Heap and list -/

/-- What the first record always is. -/
structure RootRecord (d : Datadef) : Prop where
  name : d.fname = home
  folder : d.dflag = 1
  words : d.Words

/-- The tree of `s` is the chain of the records of `t`, and these fit. -/
structure Shows (s : State) (t : Listing) : Prop where
  chain : ∃ l, Chain s l ∧ l.map Item.data = t.records
  nodeno : s.nodeno = t.nodeno
  root : ∃ d, t.records.head? = some d ∧ RootRecord d
  fits : ∀ d ∈ t.records, Arrays.RecordFits d

/-- A file that has been saved holds lines of records that fit and begins with a root. -/
def Saved (file : File) : Prop :=
  ∀ text, file = some text → ∃ d ds, text = (d :: ds).flatMap storeline ∧ RootRecord d ∧
    ∀ e ∈ d :: ds, Arrays.RecordFits e

/-- The tree shows the records, next to the same file. -/
def Represents (p : State × File) (q : Listing × File) : Prop :=
  Shows p.1 q.1 ∧ p.2 = q.2 ∧ Saved q.2

/-- Both stop for the same reason, a null pointer or a full counter. -/
def Fails (e f : Fault) : Prop := e = f ∧ (e = .null ∨ e = .overflow)

theorem fails_null : Fails .null .null := ⟨rfl, .inl rfl⟩
theorem fails_overflow : Fails .overflow .overflow := ⟨rfl, .inr rfl⟩

variable {s s' : State} {l : List Item} {t : Listing} {file : File} {p : CString}

/-! ## Searching -/

theorem RootRecord.initial (junk : Fin REP → ℤ) : RootRecord (rootItem junk).data :=
  ⟨rfl, rfl, rootItem_words junk⟩

theorem RootRecord.reread {d : Datadef} (root : RootRecord d) : RootRecord d.reread :=
  ⟨root.name, reread_dflag root.folder, root.words.fname, root.words.dname, root.words.loc⟩

theorem locate_eq (same : l.map Item.data = t.records) (p : CString) :
    t.locate p =
      (find Item.name Item.folder l p).map
        (Option.map fun q => (q.1.data, q.2.map Item.data)) := by
  rw [Listing.locate, ← same, find_map]
  rfl

/-- The records in front of a part of the chain. -/
theorem upTo_eq {a b : List Item} (same : (a ++ b).map Item.data = t.records) :
    t.upTo (b.map Item.data) = a.map Item.data := by
  rw [Listing.upTo, ← same, List.map_append, List.length_append, Nat.add_sub_cancel, List.take_left]

namespace Chain

theorem record_eq (c : Chain s l) {x : Item} (hx : x ∈ l) : s.record (some x.addr) = some x.data := by
  obtain ⟨a, t, hl⟩ := List.append_of_mem hx
  simp [State.record, c.cell_eq hl, Item.cell]

/-- Without a node to attach to, an insertion reads through a null pointer. -/
theorem addnode_null (c : Chain s l) (lost : ∀ q, find Item.name Item.folder l p ≠ .ok (some q))
    (d : Datadef) : addnode p d s = .error .null := by
  have named := (c.create_node d).search_eq p
  have last : searchlast (NameSpace.create_node d s) p = .error .null := by
    rw [searchlast, named]
    cases h : find Item.name Item.folder l p with
    | error e =>
      rw [find_error h]
      rfl
    | ok r =>
      cases r with
      | none => rfl
      | some q => exact absurd h (lost q)
  simp [addnode, last, bind, Except.bind]

/-- What a removal that returns has found. -/
theorem find_of_unlink (c : Chain s l) {a r : List Item} {u x v : Item}
    (hl : l = a ++ u :: x :: v :: r) (h : unlink p s = .ok (x.addr, s')) :
    find Item.name Item.folder l p = .ok (some (x, v :: r)) := by
  have named := search_of_unlink h
  rw [c.search_eq] at named
  obtain ⟨_ | ⟨y, k⟩, hfind, found⟩ := map_eq_ok.1 named
  · cases found
  · obtain ⟨b, hb⟩ := find_suffix hfind
    have same : y.addr = x.addr := Option.some.inj found
    obtain rfl := c.item_eq (by simp [← hb]) (by simp [hl]) same
    have hx : l = (a ++ [u]) ++ y :: v :: r := by simp [hl]
    rw [hfind, (c.split_unique hb.symm hx).2]

end Chain

/-- A search finds the cell of the record. -/
theorem Shows.locate (shows_ : Shows s t) (fits : p.bytes.length < MAX_PATH) :
    Corresponds (fun r x => s.record r = x.map Prod.fst) Fails (Arrays.search s p)
      (t.locate p) := by
  obtain ⟨l, c, same⟩ := shows_.chain
  rw [Arrays.search_short fits, c.search_eq, locate_eq same]
  cases h : find Item.name Item.folder l p with
  | error e =>
    rw [find_error h]
    exact .fails fails_null
  | ok q =>
    apply Corresponds.returns
    cases q with
    | none => rfl
    | some q =>
      obtain ⟨a, hl⟩ := find_suffix h
      exact c.record_eq (by simp [← hl])

/-! ## Insertion -/

/-- Without a node to attach to, neither side returns. -/
theorem add_lost (c : Chain s l) (same : l.map Item.data = t.records)
    (lost : ∀ q, find Item.name Item.folder l p ≠ .ok (some q)) (d : Datadef) :
    addnode p d s = .error .null ∧ t.add p d = .error .null := by
  constructor
  · exact c.addnode_null lost d
  · rw [Listing.add, locate_eq same]
    cases h : find Item.name Item.folder l p with
    | error e =>
      rw [find_error h]
      rfl
    | ok r =>
      cases r with
      | none => rfl
      | some q => exact absurd h (lost q)

/-- Where the list attaches a record. -/
theorem listing_add_found (same : l.map Item.data = t.records) {x u : Item} {k r : List Item}
    (hfind : find Item.name Item.folder l p = .ok (some (x, k)))
    (attach : attachPoint Item.folder x k = (u, r)) (d : Datadef) :
    t.add p d =
      if t.nodeno ≥ INT_MAX then .error .overflow
      else .ok (.node (some { d with pno := u.data.nno, nno := t.nodeno + 1 }),
        ⟨t.upTo (r.map Item.data) ++ [{ d with pno := u.data.nno, nno := t.nodeno + 1 }],
          t.nodeno + 1⟩) := by
  have mapped : attachPoint (fun d : Datadef => d.dflag = 1) x.data (k.map Item.data) =
      (u.data, r.map Item.data) := by
    rw [attachPoint_map]
    exact congrArg (fun q : Item × List Item => (q.1.data, q.2.map Item.data)) attach
  rw [Listing.add, locate_eq same, hfind]
  simp only [Except.map, Option.map_some, bind, Except.bind, mapped]
  split_ifs
  · rfl
  · rfl

/-- The records up to some place are records. -/
theorem mem_of_mem_upTo {behind : List Datadef} {d : Datadef} (h : d ∈ t.upTo behind) :
    d ∈ t.records :=
  List.mem_of_mem_take h

theorem Shows.hang {a r : List Item} {u : Item} (c : Chain s (a ++ u :: r))
    (same : (a ++ u :: r).map Item.data = t.records) (nodeno : s.nodeno = t.nodeno)
    (root : ∃ d, t.records.head? = some d ∧ RootRecord d)
    (fits : ∀ d ∈ t.records, Arrays.RecordFits d) {d : Datadef} (new : Arrays.RecordFits d) :
    Shows (NameSpace.hang s d u)
      ⟨t.upTo (r.map Item.data) ++ [{ d with pno := u.data.nno, nno := t.nodeno + 1 }],
        t.nodeno + 1⟩ := by
  have front : t.upTo (r.map Item.data) = (a ++ [u]).map Item.data := by
    apply upTo_eq
    rw [← same, List.append_assoc]
    rfl
  refine ⟨⟨_, c.hang rfl d, ?_⟩, congrArg (· + 1) nodeno, ?_, fun e he => ?_⟩
  · simp [front, newItem, nodeno]
  · rw [← same] at root
    rw [front]
    cases a <;> exact root
  · rcases List.mem_append.1 he with old | last
    · exact fits e (mem_of_mem_upTo old)
    · obtain rfl := List.mem_singleton.1 last
      exact ⟨new.fname, new.dname, new.loc⟩

theorem Shows.add (shows_ : Shows s t) (p : CString) {d : Datadef} (new : Arrays.RecordFits d) :
    Lockstep Shows Fails (created (addnode p d s)) (t.add p d) := by
  obtain ⟨⟨l, c, same⟩, nodeno, root, fits⟩ := shows_
  by_cases lost : ∀ q, find Item.name Item.folder l p ≠ .ok (some q)
  · obtain ⟨heap, list⟩ := add_lost c same lost d
    rw [heap, list]
    exact .fails fails_null
  simp only [not_forall, not_not] at lost
  obtain ⟨⟨x, k⟩, hfind⟩ := lost
  obtain ⟨⟨u, r⟩, attach⟩ : ∃ q, attachPoint Item.folder x k = q := ⟨_, rfl⟩
  obtain ⟨a, hl⟩ := (attachPoint_suffix Item.folder x k).trans (find_suffix hfind)
  rw [attach] at hl
  rw [listing_add_found same hfind attach]
  by_cases room : s.nodeno < INT_MAX
  · have added := c.addnode_eq hfind attach room d
    subst hl
    have new_record : (NameSpace.hang s d u).record (some s.brk) = some (newItem s d u).data :=
      (c.hang rfl d).record_eq (x := newItem s d u) (by simp)
    rw [if_neg (by omega)]
    simp only [created, added, Except.map, new_record, newItem, nodeno]
    exact .returns ⟨rfl, Shows.hang c same nodeno root fits new⟩
  · have heap : addnode p d s = .error .overflow := c.addnode_overflow hfind (not_lt.1 room) d
    rw [heap, if_pos (by omega)]
    exact .fails fails_overflow

/-! ## Removal -/

/-- A file between two others is taken out on both sides. -/
theorem Shows.remove_between {a r : List Item} {u x v : Item}
    (c : Chain s (a ++ u :: x :: v :: r)) (same : (a ++ u :: x :: v :: r).map Item.data = t.records)
    (nodeno : s.nodeno = t.nodeno) (root : ∃ d, t.records.head? = some d ∧ RootRecord d)
    (fits : ∀ d ∈ t.records, Arrays.RecordFits d)
    (hfind : find Item.name Item.folder (a ++ u :: x :: v :: r) p = .ok (some (x, v :: r)))
    (isFile : x.folder = false) :
    ∃ s' t', removefile p s = .ok s' ∧ t.remove p = .ok t' ∧ Shows s' t' := by
  have named : search s p = .ok (some x.addr) := by
    rw [c.search_eq, hfind]
    rfl
  obtain ⟨s', removed, -, nodeno', -, c'⟩ := c.removefile_between rfl named isFile
  have front : t.upTo ((x :: v :: r).map Item.data) = (a ++ [u]).map Item.data := by
    apply upTo_eq
    rw [← same, List.append_assoc]
    rfl
  have mark : x.data.dflag ≠ 1 := of_decide_eq_false isFile
  refine ⟨s', { t with records := (a ++ u :: v :: r).map Item.data }, removed, ?_,
    ⟨_, c', rfl⟩, nodeno'.trans nodeno, ?_, fun d hd => ?_⟩
  · rw [Listing.remove, locate_eq same, hfind]
    simp only [Except.map, Option.map_some, bind, Except.bind, ← List.map_cons, front]
    rw [if_neg (by simp [mark])]
    simp [pure, Except.pure]
  · rw [← same] at root
    cases a <;> exact root
  · apply fits
    rw [← same]
    have kept : (a ++ u :: v :: r).Sublist (a ++ u :: x :: v :: r) :=
      List.Sublist.append_left (((List.Sublist.refl (v :: r)).cons x).cons_cons u) a
    exact (kept.map _).subset hd

/-- In every other case neither side returns. -/
theorem remove_null (c : Chain s l) (same : l.map Item.data = t.records)
    (never : ∀ a u x v r, l = a ++ u :: x :: v :: r → x.folder = false →
      find Item.name Item.folder l p ≠ .ok (some (x, v :: r))) :
    removefile p s = .error .null ∧ t.remove p = .error .null := by
  constructor
  · obtain null | ⟨s', a, u, x, v, r, removed, hl, isFile, -⟩ := c.unlink_cases p
    · simp [removefile, null, bind, Except.bind]
    · exact absurd (c.find_of_unlink hl removed) (never a u x v r hl isFile)
  · rw [Listing.remove, locate_eq same]
    cases h : find Item.name Item.folder l p with
    | error e =>
      rw [find_error h]
      rfl
    | ok q =>
      cases q with
      | none => rfl
      | some q =>
        obtain ⟨x, k⟩ := q
        obtain ⟨b, hl⟩ := find_suffix h
        have front : t.upTo ((x :: k).map Item.data) = b.map Item.data := upTo_eq (hl ▸ same)
        simp only [Except.map, Option.map_some, bind, Except.bind, ← List.map_cons, front]
        rw [if_pos]
        -- The record has both neighbours only in the case excluded.
        by_contra between
        simp only [not_or, List.map_eq_nil_iff] at between
        obtain ⟨first, file, last⟩ := between
        obtain ⟨a, u, rfl⟩ := (b.eq_nil_or_concat').resolve_left first
        obtain ⟨v, r, rfl⟩ := List.exists_cons_of_ne_nil last
        exact never a u x v r (by simp [← hl]) (decide_eq_false file) h

theorem Shows.remove (shows_ : Shows s t) (fits : p.bytes.length < MAX_PATH) :
    Corresponds Shows Fails (Arrays.removefile p s) (t.remove p) := by
  rw [Arrays.removefile_short fits]
  obtain ⟨⟨l, c, same⟩, nodeno, root, short⟩ := shows_
  by_cases never : ∀ a u x v r, l = a ++ u :: x :: v :: r → x.folder = false →
      find Item.name Item.folder l p ≠ .ok (some (x, v :: r))
  · obtain ⟨heap, list⟩ := remove_null c same never
    rw [heap, list]
    exact .fails fails_null
  · simp only [not_forall, not_not] at never
    obtain ⟨a, u, x, v, r, rfl, isFile, hfind⟩ := never
    obtain ⟨s', t', heap, list, shows'⟩ := Shows.remove_between c same nodeno root short hfind isFile
    rw [heap, list]
    exact .returns shows'

/-! ## Saving and restarting -/

/-- A computation that fails at a null pointer only. -/
def OnlyNull {A : Type} (m : Except Fault A) : Prop := ∀ e, m = .error e → e = .null

theorem OnlyNull.pure {A : Type} (a : A) : OnlyNull (.ok a) := by
  intro e h
  cases h

theorem OnlyNull.bind {A B : Type} {m : Except Fault A} {f : A → Except Fault B} (first : OnlyNull m)
    (later : ∀ a, OnlyNull (f a)) : OnlyNull (m >>= f) := by
  cases m with
  | error e =>
    intro e' h
    exact (Except.error.inj h) ▸ first e rfl
  | ok a => exact later a

theorem token_null (m : List Byte) : OnlyNull (token m) := by
  unfold token
  split
  · intro e h
    exact (Except.error.inj h).symm
  · exact .pure _

theorem tokens_null (n : ℕ) (m : List Byte) : OnlyNull (tokens n m) := by
  induction n generalizing m with
  | zero => exact .pure _
  | succ n ih =>
    rw [tokens]
    apply (token_null m).bind
    intro q
    apply (ih q.2).bind
    intro q'
    exact .pure _

/-- A word of the file with too few fields makes `strtok` return a null pointer. -/
theorem readline_null (buffer : List Byte) : OnlyNull (readline buffer) := by
  unfold readline
  apply (token_null _).bind
  intro nno
  apply (token_null _).bind
  intro pno
  apply (token_null _).bind
  intro fname
  apply (tokens_null _ _).bind
  intro dname
  apply (token_null _).bind
  intro loc
  apply (token_null _).bind
  intro dflag
  apply (tokens_null _ _).bind
  intro dsync
  exact .pure _

theorem recoverlines_cons (buffer : List Byte) (lines : List (List Byte)) (s : State) :
    NameSpace.recoverlines (buffer :: lines) s =
      (readline buffer >>= fun d => created (addnode d.loc d s) >>= fun q =>
        NameSpace.recoverlines lines q.2) := by
  rw [NameSpace.recoverlines]
  cases readline buffer with
  | error e => rfl
  | ok d =>
    simp only [bind, Except.bind, created]
    cases addnode d.loc d s with
    | error e => rfl
    | ok q => rfl

theorem Shows.recoverlines (shows_ : Shows s t) {lines : List (List Byte)}
    (fits : ∀ w ∈ lines, Arrays.TokensFit w) :
    Corresponds Shows Fails (NameSpace.recoverlines lines s) (Listing.recoverlines lines t) := by
  induction lines generalizing s t with
  | nil => exact .returns shows_
  | cons buffer lines ih =>
    rw [List.forall_mem_cons] at fits
    rw [recoverlines_cons, Listing.recoverlines]
    cases read : readline buffer with
    | error e =>
      rw [readline_null buffer e read]
      exact .fails fails_null
    | ok d =>
      apply (shows_.add d.loc (fits.1.short_record read)).bind
      rintro ⟨o, s'⟩ ⟨o', t'⟩ ⟨-, shows'⟩
      exact ih shows' fits.2

theorem shows_initial (junk : Fin REP → ℤ) : Shows (initialTree junk) (.initial junk) :=
  ⟨⟨_, (ninitialize_sound junk).toChain, rfl⟩, rfl, ⟨_, rfl, .initial junk⟩,
    List.forall_mem_singleton.2 (Arrays.rootItem_fits junk)⟩

/-- A restart rebuilds in memory what it rebuilds in the list. -/
theorem recover_corresponds (junk : Fin REP → ℤ) (saved : Saved file) :
    Corresponds Shows Fails (Arrays.recoverlist junk file .fresh) (Listing.recover junk file) := by
  have fits (text : List Byte) (same : file = some text) : Arrays.FileFits text := by
    obtain ⟨d, ds, rfl, -, short⟩ := saved text same
    exact Arrays.fileFits_lines short
  rw [Arrays.recoverlist_eq junk fits]
  cases file with
  | none => exact .returns (shows_initial junk)
  | some text =>
    obtain ⟨d, ds, text_eq, root, short⟩ := saved text rfl
    have tokens (w : List Byte) (mem : w ∈ words text) := ((fits text rfl).word mem).2
    have read : words text = storeword d :: words (ds.flatMap storeline) := by
      rw [text_eq, List.flatMap_cons, storeline_eq, List.append_assoc, List.singleton_append,
        words_line (storeword_ne_nil d) (storeword_plain root.words)]
    have line := readline_storeword root.words
    have again := root.reread
    have c := recoverhead_chain again.name again.folder
    rw [read, List.forall_mem_cons] at tokens
    rw [recoverlist, Listing.recover, read]
    simp only [line, bind, Except.bind]
    exact Shows.recoverlines ⟨⟨_, c, rfl⟩, rfl, ⟨_, rfl, again⟩,
      List.forall_mem_singleton.2 (tokens.1.short_record line)⟩ tokens.2

/-- What `storelist` appends begins with the line of the root. -/
theorem Saved.append (saved : Saved file) {d : Datadef} (first : t.records.head? = some d)
    (root : RootRecord d) (fits : ∀ d ∈ t.records, Arrays.RecordFits d) :
    Saved (some (file.getD [] ++ t.records.flatMap storeline)) := by
  rintro text ⟨⟩
  cases file with
  | none =>
    obtain ⟨rest, same⟩ := List.head?_eq_some_iff.1 first
    exact ⟨d, rest, by simp [same], root, same ▸ fits⟩
  | some old =>
    obtain ⟨d', ds, old_eq, root', short⟩ := saved old rfl
    refine ⟨d', ds ++ t.records, by simp [old_eq], root', ?_⟩
    rw [← List.cons_append]
    exact fun e he => (List.mem_append.1 he).elim (short e) (fits e)

theorem Shows.record_head (shows_ : Shows s t) : s.record s.head = t.records.head? := by
  obtain ⟨l, c, same⟩ := shows_.chain
  obtain ⟨r, k, rfl, -⟩ := c.rooted
  rw [c.head, ← same]
  exact c.record_eq (by simp)

/-! ## Any sequence of calls -/

/-- A call that only changes the tree. -/
theorem Represents.change {p : State × File} {q : Listing × File} (represents : Represents p q)
    {m : Except Fault (Answer × State)} {n : Except Fault (Answer × Listing)}
    (same : Lockstep Shows Fails m n) :
    Lockstep Represents Fails (m >>= fun r => .ok (r.1, r.2, p.2))
      (n >>= fun r => .ok (r.1, r.2, q.2)) := by
  obtain ⟨-, file, saved⟩ := represents
  apply same.bind
  rintro ⟨o, s'⟩ ⟨o', t'⟩ ⟨rfl, shows'⟩
  exact .returns ⟨rfl, shows', file, saved⟩

/-- A folder is never removed, whatever its path. -/
theorem Chain.arrays_removefold_null (c : Chain s l) (fits : p.bytes.length < MAX_PATH) (fuel : ℕ) :
    Arrays.removefold (fuel + 2) p s = .error .null := by
  obtain h | ⟨s', a, u, x, v, r, h, hl, isFile, same, -⟩ := c.unlink_cases p
  · simp [Arrays.removefold, Arrays.unlink_short fits, h, bind, Except.bind]
  · have hx : l = (a ++ [u]) ++ x :: v :: r := by simp [hl]
    simp [Arrays.removefold, Arrays.unlink_short fits, h, bind, Except.bind, State.deref, same,
      c.cell_eq hx, Item.cell, isFile, Arrays.removechildren]

theorem onHeap_onListing (p : State × File) (q : Listing × File) (c : Call)
    (represents : Represents p q) (fits : c.Fits) :
    Lockstep Represents Fails (onHeap p c) (onListing q c) := by
  obtain ⟨s, file⟩ := p
  obtain ⟨t, file'⟩ := q
  have whole := represents
  obtain ⟨shows_, rfl, saved⟩ := represents
  cases c with
  | addfile fname dname loc =>
    rw [onHeap, Arrays.addfile, Arrays.addentry_short 0 fits]
    exact whole.change (shows_.add loc (Arrays.newdata_fits 0 fits))
  | addfolder fname dname loc =>
    rw [onHeap, Arrays.addfolder, Arrays.addentry_short 1 fits]
    exact whole.change (shows_.add loc (Arrays.newdata_fits 1 fits))
  | removefile vpath =>
    apply (shows_.remove fits).bind
    intro s' t' shows'
    exact .returns ⟨rfl, shows', rfl, saved⟩
  | removefold vpath =>
    obtain ⟨l, c, -⟩ := shows_.chain
    rw [onHeap, onListing, c.arrays_removefold_null fits]
    exact .fails fails_null
  | search vpath =>
    apply (shows_.locate fits).bind
    intro r x same
    rw [same]
    exact .returns ⟨rfl, shows_, rfl, saved⟩
  | storelist =>
    obtain ⟨l, c, same⟩ := shows_.chain
    obtain ⟨d, first, root⟩ := shows_.root
    have text : l.flatMap (fun y => storeline y.data) = t.records.flatMap storeline := by
      rw [← same, List.flatMap_map]
    have short : ∀ x ∈ l, Arrays.RecordFits x.data := by
      rw [← List.forall_mem_map, same]
      exact shows_.fits
    rw [onHeap, onListing, Arrays.storelist_eq c short, c.storelist_eq, text]
    exact .returns ⟨rfl, shows_, rfl, saved.append first root shows_.fits⟩
  | restart junk =>
    apply (recover_corresponds junk saved).bind
    intro s' t' shows'
    rw [shows'.record_head]
    exact .returns ⟨rfl, shows', rfl, saved⟩

/-- A process that begins without a file, whatever it calls with strings that fit: the heap returns
what the list of records returns, and stops where that stops. -/
theorem tree_refines_listing (junk : Fin REP → ℤ) (calls : List Call) (fits : ∀ c ∈ calls, c.Fits) :
    Lockstep Represents Fails (session onHeap (initialTree junk, none) calls)
      (session onListing (.initial junk, none) calls) :=
  Lockstep.session onHeap_onListing ⟨shows_initial junk, rfl, by simp [Saved]⟩ fits

/-- A file is added, saved and found again after a restart. -/
theorem tree_refines_listing_restart :
    Lockstep Represents Fails
      (session onHeap (initialTree fun _ => 0, none)
        [.addfile (.lit "file1") (.lit "d") home, .storelist, .restart fun _ => 7,
          .search (.lit "home/file1")])
      (session onListing (.initial fun _ => 0, none)
        [.addfile (.lit "file1") (.lit "d") home, .storelist, .restart fun _ => 7,
          .search (.lit "home/file1")]) := by
  apply tree_refines_listing
  simp only [List.forall_mem_cons]
  exact ⟨by unfold Call.Fits; decide, trivial, trivial, by unfold Call.Fits; decide, by simp⟩

end DistFs.NameSpace
