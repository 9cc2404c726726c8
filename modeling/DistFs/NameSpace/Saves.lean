import DistFs.NameSpace.Fitting
import DistFs.NameSpace.Recovery

/-!
# Several saves, and the node numbers

`storelist` opens its file in mode `a+`, so a second save appends a second listing, whose root line
is replayed as an insertion into `Root` and does not resolve.  A tree that was stored once is
recovered if its paths resolve, but not with its numbers: the recovered root keeps its number 1, and
the fresh counter gives that number to the next node again.
-/

namespace DistFs.NameSpace

open CText Links

variable {s s' : State} {l : List Item}

/-! ## Histories with saves -/

/-- A call of an insertion, or of `storelist`. -/
inductive Event where
  | call (op : Op)
  | save
deriving DecidableEq

/-- The effect of a call on the tree and on `data.txt`. -/
def Event.run : Event → State × File → Except Fault (State × File)
  | .call op, (s, file) => do return (← Arrays.run op s, file)
  | .save, (s, file) => do return (s, ← Arrays.storelist s file)

/-- A sequence of calls that all return. -/
def runEvents (events : List Event) (start : State × File) : Except Fault (State × File) :=
  events.foldlM (fun s e => e.run s) start

/-- An insertion with strings that survive the file. -/
def Op.Words : Op → Prop
  | .addfile fname dname loc => IsWord fname ∧ IsWord dname ∧ IsWord loc
  | .addfolder fname dname loc => IsWord fname ∧ IsWord dname ∧ IsWord loc
  | .removefile _ => False
  | .removefold _ => False

/-- The strings of a call survive the file. -/
def Event.Words : Event → Prop
  | .call op => op.Words
  | .save => True

/-- The records of the tree in the order in which `recursestore` prints them. -/
def listing (s : State) : ℕ → Option Addr → List Datadef
  | 0, _ => []
  | _ + 1, none => []
  | fuel + 1, some a =>
      match s.heap a with
      | none => []
      | some n => n.data :: (listing s fuel n.fold ++ listing s fuel n.next)

/-- Every stored path is found among the records listed before it. -/
def PathsResolve (s : State) : Prop :=
  Resolves Datadef.fname (fun d => d.dflag = 1) Datadef.loc (listing s (s.brk + 1) s.head)

/-- The file is recovered, in a fresh process, as the tree of `s`. -/
def Recovers (junk : Fin REP → ℤ) (s : State) (file : File) : Prop :=
  ∃ s', Arrays.recoverlist junk file .fresh = .ok s' ∧ Alike SameEntry s s' s.head s'.head

/-- A recorded tree whose records fit into their fields. -/
structure RecordedFits (junk : Fin REP → ℤ) (s : State) (l : List Item) : Prop extends
    Recorded junk s l where
  fits : ∀ x ∈ l, Arrays.RecordFits x.data

theorem RecordedFits.op {junk : Fin REP → ℤ} (i : RecordedFits junk s l) {op : Op} (words : op.Words)
    (h : Arrays.run op s = .ok s') : ∃ l', RecordedFits junk s' l' := by
  have add {f d p : CString} {flag : ℤ} {n : Addr} (words : IsWord f ∧ IsWord d ∧ IsWord p)
      (mark : flag = 0 ∨ flag = 1) (h : Arrays.addentry f d p flag s = .ok (n, s')) :
      ∃ l', RecordedFits junk s' l' := by
    obtain ⟨⟨fname, dname, loc⟩, added⟩ := Arrays.addentry_eq_ok.1 h
    obtain ⟨x, t, b, u, r, hfind, hattach, hl, room, -, rfl, -⟩ := i.addnode_cases added
    refine ⟨_, i.hang hfind hattach hl room words.1 words.2.1 words.2.2 mark, fun y hy => ?_⟩
    have fits := Arrays.newdata_fits flag ⟨fname, dname, loc⟩
    simp only [List.mem_append, List.mem_cons, List.not_mem_nil, or_false] at hy
    rcases hy with hy | rfl | rfl
    · exact i.fits y (by simp [hl, hy])
    · exact i.fits y (by simp [hl])
    · exact ⟨fits.fname, fits.dname, fits.loc⟩
  cases op with
  | addfile f d p =>
    obtain ⟨⟨n, s₁⟩, added, rfl⟩ := map_eq_ok.1 h
    exact add words (.inl rfl) added
  | addfolder f d p =>
    obtain ⟨⟨n, s₁⟩, added, rfl⟩ := map_eq_ok.1 h
    exact add words (.inr rfl) added
  | removefile p => exact words.elim
  | removefold p => exact words.elim

/-- Without a save the file stays as it is, and insertions keep the tree recorded. -/
theorem RecordedFits.runEvents {junk : Fin REP → ℤ} (i : RecordedFits junk s l) {events : List Event}
    {file file' : File} (words : ∀ e ∈ events, e.Words) (quiet : Event.save ∉ events)
    (h : runEvents events (s, file) = .ok (s', file')) :
    (∃ l', RecordedFits junk s' l') ∧ file' = file := by
  induction events generalizing s l with
  | nil =>
    obtain ⟨rfl, rfl⟩ := Prod.mk.inj (Except.ok.inj h)
    exact ⟨⟨l, i⟩, rfl⟩
  | cons e events ih =>
    obtain ⟨⟨s₁, file₁⟩, h₁, h⟩ := bind_eq_ok.1 h
    cases e with
    | save => exact absurd (by simp) quiet
    | call op =>
      obtain ⟨s₂, h₂, h₁⟩ := bind_eq_ok (f := fun s => Except.ok (s, file)).1 h₁
      obtain ⟨rfl, rfl⟩ := Prod.mk.inj (Except.ok.inj h₁)
      obtain ⟨l₁, i₁⟩ := i.op (words (.call op) (by simp)) h₂
      exact ih i₁ (fun e he => words e (by simp [he])) (fun h => quiet (by simp [h])) h

theorem Chain.listing_eq (c : Chain s l) {a t : List Item} (hl : l = a ++ t) {fuel : ℕ}
    (enough : t.length < fuel) : listing s fuel (start t) = t.map Item.data := by
  induction t generalizing a fuel with
  | nil =>
    obtain ⟨n, rfl⟩ := Nat.exists_eq_succ_of_ne_zero (by omega : fuel ≠ 0)
    rfl
  | cons x t ih =>
    obtain ⟨n, rfl⟩ := Nat.exists_eq_succ_of_ne_zero (by omega : fuel ≠ 0)
    rw [List.length_cons] at enough
    have hx : l = (a ++ [x]) ++ t := by simp [hl]
    have rest := ih hx (by omega : t.length < n)
    obtain ⟨k, rfl⟩ := Nat.exists_eq_succ_of_ne_zero (by omega : n ≠ 0)
    by_cases isFolder : x.folder = true
    · simp [listing, c.cell_eq hl, Item.cell, isFolder, rest]
    · simp [listing, c.cell_eq hl, Item.cell, isFolder, rest]

theorem Chain.pathsResolve_iff (c : Chain s l) : PathsResolve s ↔
    Resolves Item.name Item.folder (fun x => x.data.loc) l := by
  rw [PathsResolve, c.head, c.listing_eq (a := []) rfl (c.enough (List.suffix_refl l)), resolves_map]
  rfl

/-! ## One save -/

/-- A history that saves once, when every stored path resolves and the unset marks of the root print
in full, is recovered as it was saved. -/
theorem recovers_of_one_save {file file₁ file₂ : File} (junk junk' : Fin REP → ℤ)
    (before after : List Event) (words : ∀ e ∈ before ++ after, e.Words)
    (returned : runEvents before (initialTree junk, none) = .ok (s, file))
    (saved : Arrays.storelist s file = .ok file₁) (last : Event.save ∉ after)
    (continued : runEvents after (s, file₁) = .ok (s', file₂))
    (once : Event.save ∉ before) (resolves : PathsResolve s)
    (short : ∀ i, (decimal (toInt (junk i))).length ≤ 9) : Recovers junk' s file₂ := by
  have start : RecordedFits junk (initialTree junk) [rootItem junk] :=
    ⟨ninitialize_recorded junk, List.forall_mem_singleton.2 (Arrays.rootItem_fits junk)⟩
  obtain ⟨⟨l, i⟩, rfl⟩ := start.runEvents (fun e he => words e (by simp [he])) once returned
  obtain ⟨-, rfl⟩ := i.runEvents (fun e he => words e (by simp [he])) last continued
  rw [Arrays.storelist_eq i.toChain i.fits, i.storelist_eq none, Option.getD_none,
    List.nil_append] at saved
  obtain rfl := Except.ok.inj saved
  have fits : Arrays.FileFits (l.flatMap fun x => storeline x.data) := by
    rw [← List.flatMap_map]
    exact Arrays.fileFits_lines (List.forall_mem_map.2 i.fits)
  obtain ⟨k, rfl⟩ := i.root
  have name : (rootItem junk).name = home := rfl
  have mark : (rootItem junk).data.dflag = 1 := rfl
  obtain ⟨s', k', recovered, c', related⟩ := recoverlist_eq junk' name mark (rootItem_words junk)
    (i.placed.replayable (i.pathsResolve_iff.1 resolves)) i.words i.short i.tail_room
  refine ⟨s', (Arrays.recoverlist_eq junk' fun text same => ?_).trans recovered, ?_⟩
  · obtain rfl := Option.some.inj same
    exact fits
  have one : (decimal 1).length ≤ 9 := by decide
  have root_short : (rootItem junk).data.Short := ⟨one, short⟩
  rw [i.head, c'.head]
  exact i.alike c' (fun _ _ => SameEntry.dflag) (List.nil_append _).symm (List.nil_append _).symm
    (.cons root_short.reread.symm related)

/-- The tree that consists of the root and the file `file1`. -/
def oneFile : State := stateAfter [.addfile (.lit "file1") (.lit "d") home]

theorem oneFile_eq : runOps [.addfile (.lit "file1") (.lit "d") home] (initialTree fun _ => 0) =
    .ok oneFile :=
  runOps_stateAfter (by decide)

theorem oneFile_returned :
    Arrays.runOps [.addfile (.lit "file1") (.lit "d") home] (initialTree fun _ => 0) = .ok oneFile :=
  Arrays.runOps_stateAfter (by decide)

/-- The history of one insertion and one save. -/
theorem recovers_oneFile :
    ∃ file, Arrays.storelist oneFile none = .ok file ∧ Recovers (fun _ => 7) oneFile file := by
  obtain ⟨file, saved⟩ : ∃ file, Arrays.storelist oneFile none = .ok file := ok_of_toBool (by decide)
  have returned : runEvents [.call (.addfile (.lit "file1") (.lit "d") home)]
      (initialTree fun _ => 0, none) = .ok (oneFile, none) := by
    have called := oneFile_returned
    simp only [Arrays.runOps, List.foldlM_cons, List.foldlM_nil] at called
    simp only [runEvents, List.foldlM_cons, List.foldlM_nil, Event.run]
    obtain ⟨s, h, hs⟩ := bind_eq_ok.1 called
    obtain rfl := Except.ok.inj hs
    simp [h, bind, Except.bind, pure, Except.pure]
  refine ⟨file, saved, recovers_of_one_save (fun _ => 0) (fun _ => 7) _ [] ?_ returned saved (by simp)
    rfl (by simp) ?_ (by decide)⟩
  · simp only [List.append_nil, List.mem_singleton, forall_eq]
    exact ⟨⟨by decide, by decide, by decide +kernel⟩, ⟨by decide, by decide, by decide +kernel⟩,
      isWord_lit_home⟩
  · have atHome : ∀ x ∈ (listing oneFile (oneFile.brk + 1) oneFile.head).tail, x.loc = home := by
      decide
    intro a x r hl more
    obtain ⟨y, a, rfl⟩ := List.exists_cons_of_ne_nil more
    refine ⟨(y, a), ?_⟩
    rw [atHome x (by simp [hl]), find, if_pos rfl]
    rfl

/-- After two saves the file begins with two lines for the root; the second is replayed as an
insertion into `Root`, which crashes. -/
theorem second_save_lost :
    Arrays.runOps [.addfile (.lit "file1") (.lit "d") home] (initialTree fun _ => 0) =
        .ok oneFile ∧
      ∃ file₁ file₂, Arrays.storelist oneFile none = .ok file₁ ∧
        Arrays.storelist oneFile file₁ = .ok file₂ ∧
        Arrays.recoverlist (fun _ => 0) file₂ .fresh = .error .null ∧
        ¬ Recovers (fun _ => 0) oneFile file₂ := by
  refine ⟨oneFile_returned, ?_⟩
  obtain ⟨file₁, saved₁⟩ : ∃ file, Arrays.storelist oneFile none = .ok file :=
    ok_of_toBool (by decide)
  have crash : ((Arrays.storelist oneFile none).bind fun file =>
      (Arrays.storelist oneFile file).bind fun file =>
        (Arrays.recoverlist (fun _ => 0) file .fresh).map fun _ => ()) = .error .null := by decide
  rw [saved₁, Except.bind] at crash
  cases saved₂ : Arrays.storelist oneFile file₁ with
  | error e =>
    have : ((Arrays.storelist oneFile none).bind fun file =>
        Arrays.storelist oneFile file).toBool = true := by
      decide
    simp [saved₁, saved₂, Except.bind, Except.toBool] at this
  | ok file₂ =>
    rw [saved₂, Except.bind] at crash
    have lost : Arrays.recoverlist (fun _ => 0) file₂ .fresh = .error .null := by
      cases h : Arrays.recoverlist (fun _ => 0) file₂ .fresh with
      | error e => simpa [h, Except.map] using crash
      | ok s => simp [h, Except.map] at crash
    refine ⟨file₁, file₂, saved₁, saved₂, lost, ?_⟩
    rintro ⟨s', recovered, -⟩
    rw [lost] at recovered
    cases recovered

/-! ## The numbers -/

/-- The numbers of the tree of `s` survive its recovery from `file`: they are what they were and
distinct, and no later insertion gives one of them again. -/
def NumbersSurvive (junk : Fin REP → ℤ) (s : State) (file : File) : Prop :=
  ∃ s', recoverlist junk file .fresh = .ok s' ∧
    Alike (fun d e => d.nno = e.nno ∧ d.pno = e.pno) s s' s.head s'.head ∧
    (∀ a b n m, Reached s' a → Reached s' b → s'.heap a = some n → s'.heap b = some m →
      n.data.nno = m.data.nno → a = b) ∧
    ∀ ops s₁ f d p a s₂ b n m, (∀ op ∈ ops, op.isAdd) → runOps ops s' = .ok s₁ →
      (addfile f d p s₁ = .ok (a, s₂) ∨ addfolder f d p s₁ = .ok (a, s₂)) → s₂.heap a = some n →
      Reached s₁ b → s₁.heap b = some m → n.data.nno ≠ m.data.nno

/-- A recovered chain is its root, or its first two nodes have the number 1. -/
def FirstTwo (s : State) (l : List Item) : Prop :=
  ∃ h r, l = h :: r ∧ h.data.nno = 1 ∧ h.folder = true ∧
    (r = [] ∧ s.nodeno = 0 ∨ ∃ x t, r = x :: t ∧ x.data.nno = 1)

theorem FirstTwo.addnode (c : Chain s l) (two : FirstTwo s l) {p : CString} {d : Datadef} {n : Addr}
    (h : addnode p d s = .ok (n, s')) : ∃ l', Chain s' l' ∧ FirstTwo s' l' := by
  obtain ⟨x, t, b, u, r, hfind, hattach, hl, -, -, rfl, c'⟩ := c.addnode_cases h
  refine ⟨_, c', ?_⟩
  obtain ⟨g, k, rfl, one, isFolder, ⟨rfl, fresh⟩ | ⟨y, k, rfl, second⟩⟩ := two
  · obtain ⟨rfl, hr⟩ : b = [] ∧ u :: r = [g] := by
      cases b with
      | nil => exact ⟨rfl, hl.symm⟩
      | cons z b => simp at hl
    obtain ⟨rfl, -⟩ := List.cons.inj hr
    exact ⟨u, _, rfl, one, isFolder, .inr ⟨_, _, rfl, by simp [newItem, fresh]⟩⟩
  · cases b with
    | nil =>
      -- A node is linked to the root only while the root is alone.
      obtain ⟨rfl, rfl⟩ := List.cons.inj hl
      have whole : x :: t = g :: y :: k := by
        have below := attachPoint_suffix Item.folder x t
        rw [hattach] at below
        exact (find_suffix hfind).eq_of_length_le below.length_le
      obtain ⟨rfl, rfl⟩ := List.cons.inj whole
      have := (lastSibling_suffix Item.folder y k).length_le
      rw [attachPoint, childrenOf, if_pos isFolder] at hattach
      simp only at hattach
      simp [hattach] at this
    | cons z b =>
      obtain ⟨rfl, hk⟩ := List.cons.inj hl
      refine ⟨g, _, rfl, one, isFolder, .inr ?_⟩
      cases b with
      | nil =>
        obtain ⟨rfl, -⟩ := List.cons.inj hk
        exact ⟨y, _, rfl, second⟩
      | cons z b =>
        obtain ⟨rfl, -⟩ := List.cons.inj hk
        exact ⟨y, _, rfl, second⟩

theorem FirstTwo.recoverlines {lines : List (List Byte)} (c : Chain s l) (two : FirstTwo s l)
    (h : recoverlines lines s = .ok s') : ∃ l', Chain s' l' ∧ FirstTwo s' l' := by
  induction lines generalizing s l with
  | nil =>
    obtain rfl := Except.ok.inj h
    exact ⟨l, c, two⟩
  | cons buffer lines ih =>
    obtain ⟨d, -, h⟩ := bind_eq_ok.1 h
    obtain ⟨⟨n, s₁⟩, added, h⟩ := bind_eq_ok.1 h
    obtain ⟨l₁, c₁, two₁⟩ := two.addnode c added
    exact ih c₁ two₁ h

/-- No tree keeps its numbers. -/
theorem not_numbersSurvive {file : File} (junk junk' : Fin REP → ℤ) (ops : List Op)
    (returned : runOps ops (initialTree junk) = .ok s) (saved : storelist s none = .ok file) :
    ¬ NumbersSurvive junk' s file := by
  rintro ⟨s', recovered, -, distinct, later⟩
  obtain ⟨l, i, first⟩ := (ninitialize_sound junk).runOps returned
  obtain ⟨k, rfl⟩ := List.head?_eq_some_iff.1 first
  rw [i.storelist_eq none, Option.getD_none, List.nil_append] at saved
  obtain rfl := Except.ok.inj saved
  have text : words ((rootItem junk :: k).flatMap fun x => storeline x.data) =
      storeword (rootItem junk).data :: words (k.flatMap fun x => storeline x.data) := by
    rw [List.flatMap_cons, storeline_eq, List.append_assoc, List.singleton_append]
    exact words_line (storeword_ne_nil _) (storeword_plain (rootItem_words junk)) _
  simp only [recoverlist, text, readline_storeword (rootItem_words junk), bind, Except.bind] at recovered
  -- The root read back has the number 1, and the counter of the fresh process is 0.
  have mark : (rootItem junk).data.reread.dflag = 1 := reread_dflag rfl
  have one : (rootItem junk).data.reread.nno = 1 := by
    have : atoi (snprintf 10 1) = 1 := by decide
    rw [Datadef.reread, rootItem, this]
  have two : FirstTwo (recoverhead (rootItem junk).data.reread .fresh)
      [⟨0, (rootItem junk).data.reread⟩] :=
    ⟨_, _, rfl, one, decide_eq_true mark, .inl ⟨rfl, rfl⟩⟩
  obtain ⟨l', c', h, r, rfl, one, isFolder, ⟨rfl, fresh⟩ | ⟨x, t, rfl, second⟩⟩ :=
    two.recoverlines (recoverhead_chain rfl mark) recovered
  · -- Nothing has been replayed: the next node gets the number of the root.
    have hfind : find Item.name Item.folder [h] home = .ok (some (h, [])) := by
      rw [find, if_pos rfl]
      rfl
    have hattach : attachPoint Item.folder h [] = (h, []) := by simp [attachPoint, childrenOf]
    have room : s'.nodeno < INT_MAX := by
      rw [fresh]
      decide
    have added := c'.addnode_eq hfind hattach room (newdata home home home 0)
    have new : (hang s' (newdata home home home 0) h).heap s'.brk =
        some ⟨(newItem s' (newdata home home home 0) h).data, none, some h.addr, none⟩ :=
      Function.update_self ..
    refine later [] s' home home home s'.brk _ h.addr _ _ (by simp) rfl (.inl added) new
      (c'.reached_of_mem (by simp)) (c'.cell_eq (a := []) rfl) ?_
    simp [newItem, fresh, Item.cell, one]
  · have hx : h :: x :: t = [h] ++ x :: t := rfl
    have same := distinct h.addr x.addr _ _ (c'.reached_of_mem (by simp))
      (c'.reached_of_mem (by simp)) (c'.cell_eq (a := []) rfl) (c'.cell_eq hx)
      (by simp [Item.cell, one, second])
    have := c'.nodup
    simp [same] at this

theorem not_numbersSurvive_oneFile :
    ∃ file, storelist oneFile none = .ok file ∧ ¬ NumbersSurvive (fun _ => 7) oneFile file :=
  let ⟨file, saved⟩ := ok_of_toBool (x := storelist oneFile none) (by decide)
  ⟨file, saved, not_numbersSurvive _ _ _ oneFile_eq saved⟩

/-- The root and the file `file1` both have the number 1 once they are recovered. -/
theorem oneFile_number_twice :
    runOps [.addfile (.lit "file1") (.lit "d") home] (initialTree fun _ => 0) = .ok oneFile ∧
      ∃ file, storelist oneFile none = .ok file ∧ ¬ NumbersSurvive (fun _ => 0) oneFile file := by
  refine ⟨oneFile_eq, ?_⟩
  obtain ⟨file, saved⟩ : ∃ file, storelist oneFile none = .ok file := ok_of_toBool (by decide)
  refine ⟨file, saved, ?_⟩
  rintro ⟨s', recovered, -, distinct, -⟩
  have numbers : ((storelist oneFile none).bind fun file =>
      (recoverlist (fun _ => 0) file .fresh).map fun s => (s.head, (s.heap 0).map Node.fold,
        (s.heap 0).map fun n => n.data.nno, (s.heap 1).map fun n => n.data.nno)) =
      .ok (some 0, some (some 1), some 1, some 1) := by
    decide
  simp only [saved, Except.bind, recovered, Except.map, Except.ok.injEq, Prod.mk.injEq,
    Option.map_eq_some_iff] at numbers
  obtain ⟨head, ⟨n, hn, fold⟩, ⟨n', hn', one⟩, m, hm, one'⟩ := numbers
  obtain rfl := Option.some.inj (hn.symm.trans hn')
  have atRoot : Reached s' 0 := .head head
  have := distinct 0 1 n m atRoot (.fold atRoot hn fold) hn hm (one.trans one'.symm)
  exact absurd this (by decide)

end DistFs.NameSpace
