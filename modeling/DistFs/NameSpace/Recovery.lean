import DistFs.NameSpace.Invariant
import DistFs.NameSpace.Replay
import DistFs.NameSpace.Store

/-!
# Recovering the tree from its text

`recoverlist` does not read the links back: it inserts the nodes again, in the order in which
`recursestore` listed them.  That rebuilds the tree if the path of each node leads, among the nodes
listed before it, to the point where the node was inserted.
-/

namespace DistFs.NameSpace

open CText Links

variable {s s' : State} {l : List Item}

/-! ## Equal trees -/

/-- All that a record says but the numbers. -/
def Datadef.entry (d : Datadef) : Datadef := { d with nno := 0, pno := 0 }

/-- Two trees have the same links, and corresponding records are related by `R`. -/
inductive Alike (R : Datadef → Datadef → Prop) (s s' : State) : Option Addr → Option Addr → Prop
  | nil : Alike R s s' none none
  | node {a b : Addr} {n m : Node} : s.heap a = some n → s'.heap b = some m → R n.data m.data →
      Alike R s s' n.fold m.fold → Alike R s s' n.next m.next → Alike R s s' (some a) (some b)

/-- The same record up to the numbers. -/
def SameEntry (d e : Datadef) : Prop := d.entry = e.entry

theorem SameEntry.dflag {d e : Datadef} (h : SameEntry d e) : d.dflag = e.dflag := by
  have : d.entry.dflag = e.entry.dflag := congrArg Datadef.dflag h
  exact this

/-- Chains of related records are alike. -/
theorem Chain.alike {R : Datadef → Datadef → Prop} (c : Chain s l) {l' : List Item}
    (c' : Chain s' l') (marks : ∀ d e, R d e → d.dflag = e.dflag) {a a' t t' : List Item}
    (hl : l = a ++ t) (hl' : l' = a' ++ t')
    (related : List.Forall₂ (fun x y => R x.data y.data) t t') :
    Alike R s s' (start t) (start t') := by
  induction related generalizing a a' with
  | nil => exact .nil
  | @cons x y t t' hxy _ ih =>
    have rest := @ih (a ++ [x]) (a' ++ [y]) (by simp [hl]) (by simp [hl'])
    have same : x.folder = y.folder := by simp [Item.folder, marks _ _ hxy]
    refine .node (c.cell_eq hl) (c'.cell_eq hl') hxy ?_ ?_
    · simp only [Item.cell, same]
      split_ifs
      · exact rest
      · exact .nil
    · simp only [Item.cell, same]
      split_ifs
      · exact .nil
      · exact rest

/-! ## Insertion at the end of the chain -/

/-- What decides where an item is linked. -/
def Item.shape (x : Item) : CString × Bool := (x.name, x.folder)

theorem atEnd_shape {p : CString} : AtEnd Item.name Item.folder l p ↔
    AtEnd Prod.fst Prod.snd (l.map Item.shape) p := by
  rw [atEnd_map]
  rfl

theorem Chain.addnode_atEnd (c : Chain s l) {p : CString} (h : AtEnd Item.name Item.folder l p)
    (room : s.nodeno < INT_MAX) (d : Datadef) :
    ∃ u s', addnode p d s = .ok (s.brk, s') ∧ Chain s' (l ++ [newItem s d u]) ∧
      s'.nodeno = s.nodeno + 1 := by
  obtain ⟨x, t, u, hfind, hattach⟩ := h
  obtain ⟨a, ha⟩ := (attachPoint_suffix Item.folder x t).trans (find_suffix hfind)
  simp only [hattach] at ha
  have := c.hang ha.symm d
  refine ⟨u, hang s d u, c.addnode_eq hfind hattach room d, ?_, rfl⟩
  simpa [← ha] using this

/-! ## Replaying the lines -/

/-- Marks that are printed in full. -/
structure Datadef.Short (d : Datadef) : Prop where
  dflag : (decimal d.dflag).length ≤ 9
  dsync : ∀ i, (decimal (d.dsync i)).length ≤ 9

theorem Datadef.Short.reread {d : Datadef} (h : d.Short) : d.reread.entry = d.entry := by
  simp [Datadef.reread, Datadef.entry, atoi_snprintf_of_short h.dflag,
    fun i => atoi_snprintf_of_short (h.dsync i)]

/-- Replayable nodes are appended one after another. -/
theorem Chain.recoverlines_eq {P rest : List Item} (c : Chain s l) (some_ : P ≠ [])
    (same : l.map Item.shape = P.map Item.shape)
    (replay : Replayable Item.name Item.folder (fun x => x.data.loc) (P ++ rest))
    (words : ∀ x ∈ rest, x.data.Words) (short : ∀ x ∈ rest, x.data.Short)
    (room : s.nodeno + rest.length ≤ INT_MAX) :
    ∃ s' k, recoverlines (rest.map fun x => storeword x.data) s = .ok s' ∧ Chain s' (l ++ k) ∧
      List.Forall₂ (fun x y => SameEntry x.data y.data) rest k := by
  induction rest generalizing s l P with
  | nil => exact ⟨s, [], rfl, by simpa using c, .nil⟩
  | cons x rest ih =>
    have hd := readline_storeword (words x (by simp))
    have entry := (short x (by simp)).reread
    have atEnd : AtEnd Item.name Item.folder l x.data.reread.loc := by
      rw [atEnd_shape, same, ← atEnd_shape]
      exact replay P x rest rfl some_
    rw [List.length_cons] at room
    obtain ⟨u, s₁, added, c₁, nodeno⟩ := c.addnode_atEnd atEnd (by omega) x.data.reread
    have shape : Item.shape (newItem s x.data.reread u) = x.shape := by
      have mark : x.data.reread.dflag = x.data.dflag := SameEntry.dflag entry
      simp only [Item.shape, newItem, Item.name, Item.folder, mark]
      rfl
    obtain ⟨s', k, recovered, c', related⟩ := ih (P := P ++ [x]) c₁ (by simp)
      (by simp [same, shape]) (by simpa using replay) (fun y hy => words y (by simp [hy]))
      (fun y hy => short y (by simp [hy])) (by rw [nodeno]; omega)
    refine ⟨s', newItem s x.data.reread u :: k, ?_, by simpa using c', .cons ?_ related⟩
    · simp [recoverlines, hd, added, bind, Except.bind, recovered]
    · exact entry.symm

/-- The root that a fresh process creates from the first line. -/
theorem recoverhead_chain {d : Datadef} (name : d.fname = home) (isFolder : d.dflag = 1) :
    Chain (recoverhead d .fresh) [⟨0, d⟩] where
  stored := by simp [recoverhead, create_node, State.malloc, State.fresh, Item.cell_none]
  head := rfl
  nodup := by simp
  fresh a ha := by
    have above : 0 < a := ha
    exact Function.update_of_ne above.ne' _ _
  rooted := ⟨_, _, rfl, name, decide_eq_true isFolder⟩

theorem reread_dflag {d : Datadef} (h : d.dflag = 1) : d.reread.dflag = 1 := by
  have : atoi (snprintf 10 1) = 1 := by decide
  rw [Datadef.reread, h, this]

/-- A replayable chain is rebuilt from its text. -/
theorem recoverlist_eq {root : Item} {k : List Item} (junk : Fin REP → ℤ) (name : root.name = home)
    (isFolder : root.data.dflag = 1) (root_words : root.data.Words)
    (replay : Replayable Item.name Item.folder (fun x => x.data.loc) (root :: k))
    (words_ : ∀ x ∈ k, x.data.Words) (short : ∀ x ∈ k, x.data.Short)
    (room : (k.length : ℤ) ≤ INT_MAX) :
    ∃ s' k', recoverlist junk (some ((root :: k).flatMap fun x => storeline x.data)) .fresh =
        .ok s' ∧
      Chain s' (⟨0, root.data.reread⟩ :: k') ∧
      List.Forall₂ (fun x y => SameEntry x.data y.data) k k' := by
  have text : words ((root :: k).flatMap fun x => storeline x.data) =
      storeword root.data :: k.map fun x => storeword x.data := by
    have all : ∀ d ∈ (root :: k).map Item.data, d.Words := by
      simpa using ⟨root_words, words_⟩
    have := words_storelines all []
    rw [List.append_nil, List.flatMap_map, List.map_map] at this
    exact this.trans (List.append_nil _)
  have mark := reread_dflag isFolder
  have shape : Item.shape ⟨0, root.data.reread⟩ = root.shape := by
    simp only [Item.shape, Item.name, Item.folder, mark, isFolder]
    rfl
  have c : Chain _ [⟨0, root.data.reread⟩] := recoverhead_chain name mark
  obtain ⟨s', k', recovered, c', related⟩ := c.recoverlines_eq (P := [root]) (by simp)
    (by simp [shape]) replay words_ short
    (by simpa [recoverhead, create_node, State.malloc, State.fresh] using room)
  refine ⟨s', k', ?_, c', related⟩
  simp only [recoverlist, text, readline_storeword root_words, bind, Except.bind, recovered]

/-! ## Histories -/

theorem isWord_lit_home : IsWord home := ⟨by decide, by decide, by decide +kernel⟩
theorem isWord_lit_root : IsWord root_ := ⟨by decide, by decide, by decide +kernel⟩
theorem isWord_lit_none : IsWord none_ := ⟨by decide, by decide, by decide +kernel⟩

theorem newdata_words {f d p : CString} (hf : IsWord f) (hd : IsWord d) (hp : IsWord p) (flag : ℤ) :
    (newdata f d p flag).Words where
  fname := hf
  dname i := by
    unfold newdata
    dsimp only
    split_ifs
    · exact hd
    · exact isWord_lit_none
  loc := hp

theorem newdata_short {f d p : CString} {flag : ℤ} (h : flag = 0 ∨ flag = 1) :
    (newdata f d p flag).Short where
  dflag := by
    have zero : (decimal 0).length ≤ 9 := by decide
    have one : (decimal 1).length ≤ 9 := by decide
    rcases h with rfl | rfl
    · exact zero
    · exact one
  dsync i := by
    have zero : (decimal 0).length ≤ 9 := by decide
    have one : (decimal 1).length ≤ 9 := by decide
    unfold newdata
    dsimp only
    split_ifs
    · exact one
    · exact zero

theorem rootItem_words (junk : Fin REP → ℤ) : (rootItem junk).data.Words where
  fname := isWord_lit_home
  dname i := by
    unfold rootItem
    dsimp only
    split_ifs
    · exact isWord_lit_root
    · exact isWord_lit_none
  loc := isWord_lit_root

/-- A tree whose nodes have been inserted with strings that survive the file. -/
structure Recorded (junk : Fin REP → ℤ) (s : State) (l : List Item) : Prop extends Sound s l where
  root : ∃ k, l = rootItem junk :: k
  words : ∀ x ∈ l.tail, x.data.Words
  short : ∀ x ∈ l.tail, x.data.Short
  placed : Placed Item.name Item.folder (fun x => x.data.loc) l

theorem ninitialize_recorded (junk : Fin REP → ℤ) :
    Recorded junk (initialTree junk) [rootItem junk] where
  toSound := ninitialize_sound junk
  root := ⟨[], rfl⟩
  words := by simp
  short := by simp
  placed := each_singleton _ _

/-- A property of all items but the first, after an insertion. -/
theorem forall_tail_insert {α : Type*} {P : α → Prop} {b r : List α} {u x : α}
    (h : ∀ y ∈ (b ++ u :: r).tail, P y) (new : P x) : ∀ y ∈ (b ++ [u, x]).tail, P y := by
  intro y hy
  cases b with
  | nil =>
    obtain rfl := List.mem_singleton.1 hy
    exact new
  | cons z b =>
    have : y ∈ b ++ [u] ∨ y = x := by simpa [or_assoc] using hy
    rcases this with hy | rfl
    · apply h y
      simp only [List.cons_append, List.tail_cons, List.mem_append, List.mem_cons] at hy ⊢
      tauto
    · exact new

/-- An insertion of strings that survive the file. -/
theorem Recorded.hang {junk : Fin REP → ℤ} (i : Recorded junk s l) {f d p : CString} {flag : ℤ}
    {x u : Item} {t b r : List Item}
    (hfind : find Item.name Item.folder l p = .ok (some (x, t)))
    (hattach : attachPoint Item.folder x t = (u, r)) (hl : l = b ++ u :: r)
    (room : s.nodeno < INT_MAX) (hf : IsWord f) (hd : IsWord d) (hp : IsWord p)
    (mark : flag = 0 ∨ flag = 1) :
    Recorded junk (hang s (newdata f d p flag) u) (b ++ [u, newItem s (newdata f d p flag) u]) where
  toSound := i.toSound.hang hl room _
  root := by
    obtain ⟨k, hk⟩ := i.root
    rw [hl] at hk
    cases b with
    | nil => exact ⟨_, by rw [(List.cons.inj hk).1]; rfl⟩
    | cons y b => exact ⟨_, by rw [(List.cons.inj hk).1]; rfl⟩
  words := by
    have new := newdata_words hf hd hp flag
    exact forall_tail_insert (hl ▸ i.words) ⟨new.fname, new.dname, new.loc⟩
  short := by
    have new : (newdata f d p flag).Short := newdata_short mark
    exact forall_tail_insert (hl ▸ i.short) ⟨new.dflag, new.dsync⟩
  placed := by
    have placed := i.placed
    rw [hl] at placed hfind
    exact placed.insert hfind hattach

/-! ### Paths that begin at `home` -/

/-- The components of a path. -/
def components (p : CString) : List (List Byte) := p.bytes.splitOn slash

/-- The first component is `home`, and no other is. -/
structure HomePath (p : CString) : Prop where
  first : (components p).head? = some home.bytes
  later : ∀ c ∈ (components p).tail, c ≠ home.bytes

theorem components_child {c : CString} (hc : slash ∉ c.bytes) (r : CString) :
    components (child c r) = c.bytes :: components r := by
  rw [components, bytes_child, List.splitOn_append_cons_self_of_not_mem hc]
  rfl

theorem components_flat {p : CString} (hp : slash ∉ p.bytes) : components p = [p.bytes] :=
  List.splitOn_eq_singleton hp

theorem lastName_mem_components (p : CString) : (lastName p).bytes ∈ components p := by
  fun_induction lastName p with
  | case1 p hp ih =>
    obtain ⟨c, r, rfl, hc⟩ := eq_child hp
    rw [removepath_child hc] at ih
    rw [components_child hc, removepath_child hc]
    exact List.mem_cons_of_mem _ ih
  | case2 p hp => simp [components_flat hp]

/-- Such a path is `home` or ends in something else behind a slash. -/
theorem HomePath.cases {p : CString} (h : HomePath p) :
    p = home ∨ slash ∈ p.bytes ∧ lastName p ≠ home := by
  by_cases hp : slash ∈ p.bytes
  · right
    refine ⟨hp, fun last => ?_⟩
    obtain ⟨c, r, rfl, hc⟩ := eq_child hp
    have later := h.later
    rw [components_child hc, List.tail_cons] at later
    refine later _ (lastName_mem_components r) ?_
    rw [lastName_of_mem hp, removepath_child hc] at last
    rw [last]
  · left
    have first := h.first
    rw [components_flat hp] at first
    exact CString.ext (Option.some.inj first)

/-- The arguments of an insertion: words that fit their arrays, a name other than `home`, and a path
from `home`. -/
structure CleanArgs (fname dname loc : CString) : Prop where
  fname_word : IsWord fname
  dname_word : IsWord dname
  loc_word : IsWord loc
  fname_fits : fname.bytes.length < MAX_PATH
  dname_fits : dname.bytes.length < SERV_PATH
  loc_fits : loc.bytes.length < MAX_PATH
  proper : fname ≠ home
  path : HomePath loc

/-- An insertion with such arguments. -/
def Op.Clean : Op → Prop
  | .addfile fname dname loc => CleanArgs fname dname loc
  | .addfolder fname dname loc => CleanArgs fname dname loc
  | .removefile _ => False
  | .removefold _ => False

/-- A recorded tree in which only the root is called `home`. -/
structure Tidy (junk : Fin REP → ℤ) (s : State) (l : List Item) : Prop extends Recorded junk s l where
  only : ∀ x ∈ l.tail, x.name ≠ home
  replayable : Replayable Item.name Item.folder (fun x => x.data.loc) l

theorem Tidy.addnode {junk : Fin REP → ℤ} (i : Tidy junk s l) {f d p : CString} {flag : ℤ}
    (clean : CleanArgs f d p) (mark : flag = 0 ∨ flag = 1) {n : Addr}
    (h : addnode p (newdata f d p flag) s = .ok (n, s')) : ∃ l', Tidy junk s' l' := by
  obtain ⟨x, t, b, u, r, hfind, hattach, hl, room, -, rfl, -⟩ := i.addnode_cases h
  refine ⟨_, { i.toRecorded.hang hfind hattach hl room clean.fname_word clean.dname_word
    clean.loc_word mark with only := ?_, replayable := ?_ }⟩
  · exact forall_tail_insert (hl ▸ i.only) clean.proper
  · have only := i.only
    have replayable := i.replayable
    rw [hl] at only replayable hfind
    exact replayable.insert (atEnd_of_attach only clean.path.cases hfind hattach)

theorem Tidy.runOps {junk : Fin REP → ℤ} (i : Tidy junk s l) {ops : List Op}
    (clean : ∀ op ∈ ops, op.Clean) (h : runOps ops s = .ok s') : ∃ l', Tidy junk s' l' := by
  induction ops generalizing s l with
  | nil =>
    obtain rfl := Except.ok.inj h
    exact ⟨l, i⟩
  | cons op ops ih =>
    obtain ⟨s₁, h₁, h⟩ := bind_eq_ok.1 h
    have hop := clean op (by simp)
    have step : ∃ l₁, Tidy junk s₁ l₁ := by
      cases op with
      | addfile f d p =>
        obtain ⟨⟨n, s₁⟩, added, rfl⟩ := map_eq_ok.1 h₁
        exact i.addnode hop (.inl rfl) added
      | addfolder f d p =>
        obtain ⟨⟨n, s₁⟩, added, rfl⟩ := map_eq_ok.1 h₁
        exact i.addnode hop (.inr rfl) added
      | removefile p => exact hop.elim
      | removefold p => exact hop.elim
    obtain ⟨l₁, i₁⟩ := step
    exact ih i₁ (fun op hop => clean op (by simp [hop])) h

/-! ## The round trip -/

/-- The same trees: the same links and records up to the numbers, except for the marks `dsync` of the
root. -/
def SameTree (s s' : State) : Prop :=
  ∃ a b n m, s.head = some a ∧ s'.head = some b ∧ s.heap a = some n ∧ s'.heap b = some m ∧
    SameEntry { n.data with dsync := m.data.dsync } m.data ∧
    Alike SameEntry s s' n.fold m.fold ∧ Alike SameEntry s s' n.next m.next

theorem ninitialize_tidy (junk : Fin REP → ℤ) : Tidy junk (initialTree junk) [rootItem junk] where
  toRecorded := ninitialize_recorded junk
  only := by simp
  replayable := each_singleton _ _

/-- The chain behind the root fits an `int`. -/
theorem Sound.tail_room {x : Item} {k : List Item} (i : Sound s (x :: k)) :
    (k.length : ℤ) ≤ INT_MAX := by
  have counted := i.counted.trans i.small
  simp only [List.length_cons] at counted
  omega

/-- A tree built with clean arguments is recovered from the file that it is stored in. -/
theorem recoverlist_storelist (junk junk' : Fin REP → ℤ) (ops : List Op)
    (clean : ∀ op ∈ ops, op.Clean) (returned : runOps ops (initialTree junk) = .ok s) :
    ∃ file s', storelist s none = .ok file ∧ recoverlist junk' file .fresh = .ok s' ∧
      SameTree s s' := by
  obtain ⟨l, i⟩ := (ninitialize_tidy junk).runOps clean returned
  obtain ⟨k, rfl⟩ := i.root
  have name : (rootItem junk).name = home := rfl
  have mark : (rootItem junk).data.dflag = 1 := rfl
  obtain ⟨s', k', recovered, c', related⟩ := recoverlist_eq junk' name mark (rootItem_words junk)
    i.replayable i.words i.short i.tail_room
  have stored := i.storelist_eq none
  rw [Option.getD_none, List.nil_append] at stored
  refine ⟨_, s', stored, recovered, ?_⟩
  have hk : rootItem junk :: k = [rootItem junk] ++ k := rfl
  have hk' : (⟨0, (rootItem junk).data.reread⟩ : Item) :: k' =
      [⟨0, (rootItem junk).data.reread⟩] ++ k' := rfl
  have below := i.alike c' (fun _ _ => SameEntry.dflag) hk hk' related
  have folder : (rootItem junk).folder = true := rfl
  have folder' : Item.folder ⟨0, (rootItem junk).data.reread⟩ = true :=
    decide_eq_true (reread_dflag mark)
  refine ⟨_, _, _, _, i.head, c'.head, i.cell_eq (a := []) rfl, c'.cell_eq (a := []) rfl, ?_, ?_, ?_⟩
  · simp only [SameEntry, Item.cell, Datadef.entry, Datadef.reread, mark]
    congr 1
  · simp only [Item.cell, folder, folder', if_true]
    exact below
  · simp only [Item.cell, folder, folder', if_true]
    exact .nil

/-- Two files, a folder and a file in it. -/
theorem recoverlist_storelist_fold1 :
    ∃ file s', storelist (stateAfter
        [.addfile (.lit "file1") (.lit "dpath") home, .addfile (.lit "file2") (.lit "dpath") home,
          .addfolder (.lit "fold1") (.lit "dpath2") home,
          .addfile (.lit "file3") (.lit "dpath3") (.lit "home/fold1")]) none = .ok file ∧
      recoverlist (fun _ => 7) file .fresh = .ok s' ∧ SameTree (stateAfter
        [.addfile (.lit "file1") (.lit "dpath") home, .addfile (.lit "file2") (.lit "dpath") home,
          .addfolder (.lit "fold1") (.lit "dpath2") home,
          .addfile (.lit "file3") (.lit "dpath3") (.lit "home/fold1")]) s' := by
  have word {s : String} (h : (CString.lit s).bytes ≠ [] ∧ comma ∉ (CString.lit s).bytes ∧
      ∀ b ∈ (CString.lit s).bytes, isSpace b = false) : IsWord (.lit s) := ⟨h.1, h.2.1, h.2.2⟩
  have atHome : HomePath home := ⟨by decide, by decide⟩
  have inFold : HomePath (.lit "home/fold1") := ⟨by decide, by decide⟩
  refine recoverlist_storelist _ _ _ ?_ (runOps_stateAfter (by decide))
  simp only [List.mem_cons, List.not_mem_nil, or_false, forall_eq_or_imp, forall_eq, Op.Clean]
  refine ⟨?_, ?_, ?_, ?_⟩
  · exact ⟨word (by decide +kernel), word (by decide +kernel), isWord_lit_home, by decide, by decide,
      by decide, by decide, atHome⟩
  · exact ⟨word (by decide +kernel), word (by decide +kernel), isWord_lit_home, by decide, by decide,
      by decide, by decide, atHome⟩
  · exact ⟨word (by decide +kernel), word (by decide +kernel), isWord_lit_home, by decide, by decide,
      by decide, by decide, atHome⟩
  · exact ⟨word (by decide +kernel), word (by decide +kernel), word (by decide +kernel), by decide,
      by decide, by decide, by decide, inFold⟩

end DistFs.NameSpace
