import DistFs.NameSpace.Chain

/-!
# Storing the tree as text

`recursestore` prints one line for each node, `storelist` appends the lines to the file, and
`recoverlist` reads the file back word by word: the first word becomes the root, and every further
word is handed to `addnode`.  The arrays for a line and for its fields are those of `Arrays`.
-/

namespace DistFs.NameSpace

open CText Links

/-! ## Writing -/

/-- The line that `recursestore` prints for a node. -/
def storeline (d : Datadef) : List Byte :=
  snprintf 10 d.nno ++ [comma] ++ snprintf 10 d.pno ++ [comma] ++ d.fname.bytes ++ [comma] ++
    (List.finRange REP).flatMap (fun i => (d.dname i).bytes ++ [comma]) ++
    d.loc.bytes ++ [comma] ++ snprintf 10 d.dflag ++ [comma] ++
    (List.finRange REP).flatMap (fun i => snprintf 10 (d.dsync i) ++ [comma]) ++ str "ENDD\n"

/-- `recursestore`: the text it prints. -/
def recursestore (s : State) : ℕ → Option Addr → Except Fault (List Byte)
  | 0, _ => .error .fuel
  | fuel + 1, tnode => do
      let n ← s.deref tnode
      let below ← if n.fold ≠ none then recursestore s fuel n.fold else pure []
      let behind ← if n.next ≠ none then recursestore s fuel n.next else pure []
      return storeline n.data ++ below ++ behind

/-- A file, if it exists. -/
abbrev File := Option (List Byte)

/-- `storelist(head, fpath)`: the file `data.txt` afterwards.  It is opened in mode `a+`. -/
def storelist (s : State) (file : File) : Except Fault File := do
  let text ← recursestore s (s.brk + 1) s.head
  return some (file.getD [] ++ text)

/-! ## Reading -/

/-- The strings that successive `fscanf(ifp, "%s", buffer)` read. -/
def words (text : List Byte) : List (List Byte) := (text.splitOnP isSpace).filter (· ≠ [])

/-- `strtok(NULL, ",")` when its result is used: a null pointer crashes. -/
def token (m : List Byte) : Except Fault (List Byte × List Byte) :=
  match nextToken [comma] m with
  | (none, _) => .error .null
  | (some t, m) => .ok (t, m)

/-- A loop of `n` such calls. -/
def tokens : ℕ → List Byte → Except Fault (List (List Byte) × List Byte)
  | 0, m => .ok ([], m)
  | n + 1, m => do
      let (t, m) ← token m
      let (ts, m) ← tokens n m
      return (t :: ts, m)

/-- The part of `recoverlist` that reads one node from a word of the file. -/
def readline (buffer : List Byte) : Except Fault Datadef := do
  let (nno, m) ← token buffer
  let (pno, m) ← token m
  let (fname, m) ← token m
  let (dname, m) ← tokens REP m
  let (loc, m) ← token m
  let (dflag, m) ← token m
  let (dsync, _) ← tokens REP m
  return {
    nno := atoi nno
    pno := atoi pno
    fname := .ofBytes fname
    dname := fun i => .ofBytes (dname.getD i [])
    loc := .ofBytes loc
    dflag := atoi dflag
    dsync := fun i => atoi (dsync.getD i []) }

/-- The nodes behind the first. -/
def recoverlines : List (List Byte) → State → Except Fault State
  | [], s => .ok s
  | buffer :: lines, s => do
      let tdata ← readline buffer
      let (_, s) ← addnode tdata.loc tdata s
      recoverlines lines s

/-- The root is created from the first word. -/
def recoverhead (tdata : Datadef) (s : State) : State :=
  { create_node tdata s with head := some s.brk }

/-- `recoverlist(fpath)`.  Without a file the tree is initialised. -/
def recoverlist (junk : Fin REP → ℤ) (file : File) (s : State) : Except Fault State :=
  match file with
  | none => .ok <| ninitialize junk s
  | some text =>
      match words text with
      | [] => .ok s
      | buffer :: lines => do
          let tdata ← readline buffer
          recoverlines lines (recoverhead tdata s)

/-! ## Reading a line back -/

/-- A string that survives both `fscanf` and `strtok`. -/
structure IsWord (s : CString) : Prop where
  nonempty : s.bytes ≠ []
  noComma : comma ∉ s.bytes
  noSpace : ∀ b ∈ s.bytes, isSpace b = false

theorem IsWord.isToken {s : CString} (h : IsWord s) : IsToken [comma] s.bytes where
  nonempty := h.nonempty
  noNul := s.noNul
  plain _ hb hc := h.noComma (List.mem_singleton.1 hc ▸ hb)

/-- The strings of a record are words. -/
structure Datadef.Words (d : Datadef) : Prop where
  fname : IsWord d.fname
  dname : ∀ i, IsWord (d.dname i)
  loc : IsWord d.loc

/-- What is read back of a record. -/
def Datadef.reread (d : Datadef) : Datadef :=
  { d with
    nno := atoi (snprintf 10 d.nno)
    pno := atoi (snprintf 10 d.pno)
    dflag := atoi (snprintf 10 d.dflag)
    dsync := fun i => atoi (snprintf 10 (d.dsync i)) }

/-- The texts of a record's data nodes. -/
def Datadef.dnames (d : Datadef) : List (List Byte) :=
  (List.finRange REP).map fun i => (d.dname i).bytes

/-- The texts of its marks `dsync`. -/
def Datadef.dsyncs (d : Datadef) : List (List Byte) :=
  (List.finRange REP).map fun i => snprintf 10 (d.dsync i)

/-- The word of the file that belongs to a node: its line without the end of line. -/
def storeword (d : Datadef) : List Byte :=
  snprintf 10 d.nno ++ comma :: (snprintf 10 d.pno ++ comma :: (d.fname.bytes ++ comma ::
    (d.dnames.flatMap (· ++ [comma]) ++ (d.loc.bytes ++ comma :: (snprintf 10 d.dflag ++ comma ::
      (d.dsyncs.flatMap (· ++ [comma]) ++ str "ENDD"))))))

theorem storeline_eq (d : Datadef) : storeline d = storeword d ++ [10] := by
  have last : str "ENDD\n" = str "ENDD" ++ [10] := by decide
  simp only [storeline, storeword, Datadef.dnames, Datadef.dsyncs, List.flatMap_map, last,
    List.append_assoc, List.cons_append, List.nil_append]

theorem token_append {t : List Byte} (ht : IsToken [comma] t) (m : List Byte) :
    token (t ++ comma :: m) = .ok (t, m) := by
  rw [token, nextToken_delimited ht (by simp) (by decide)]

theorem tokens_append {ts : List (List Byte)} (hts : ∀ t ∈ ts, IsToken [comma] t) (m : List Byte) :
    tokens ts.length (ts.flatMap (· ++ [comma]) ++ m) = .ok (ts, m) := by
  induction ts with
  | nil => rfl
  | cons t ts ih =>
    have := ih fun t ht => hts t (by simp [ht])
    simp only [List.flatMap_cons, List.append_assoc, List.cons_append, List.nil_append,
      List.length_cons, tokens, token_append (hts t (by simp)), this, bind, Except.bind, pure,
      Except.pure]

theorem readline_storeword {d : Datadef} (h : d.Words) : readline (storeword d) = .ok d.reread := by
  have number (x : ℤ) : IsToken [comma] (snprintf 10 x) := isToken_snprintf (by norm_num) x
  have names : ∀ t ∈ d.dnames, IsToken [comma] t := by
    simp only [Datadef.dnames, List.mem_map, forall_exists_index, and_imp, forall_apply_eq_imp_iff₂]
    exact fun i _ => (h.dname i).isToken
  have marks : ∀ t ∈ d.dsyncs, IsToken [comma] t := by
    simp only [Datadef.dsyncs, List.mem_map, forall_exists_index, and_imp, forall_apply_eq_imp_iff₂]
    exact fun i _ => number _
  have dname := tokens_append names
  have dsync := tokens_append marks
  have len : d.dnames.length = REP ∧ d.dsyncs.length = REP := by
    simp [Datadef.dnames, Datadef.dsyncs]
  rw [len.1] at dname
  rw [len.2] at dsync
  simp only [readline, storeword, token_append (number _), token_append h.fname.isToken,
    token_append h.loc.isToken, dname, dsync, bind, Except.bind, pure, Except.pure]
  simp [Datadef.reread, Datadef.dnames, Datadef.dsyncs, CString.ofBytes_bytes]

/-! ## The words of the file -/

theorem words_line {w : List Byte} (some_ : w ≠ []) (plain : ∀ b ∈ w, isSpace b = false)
    (m : List Byte) : words (w ++ 10 :: m) = w :: words m := by
  rw [words, List.splitOnP_append_cons_of_forall_mem plain 10 (by decide)]
  simp [words, some_]

theorem storeword_ne_nil (d : Datadef) : storeword d ≠ [] := by
  simp [storeword]

theorem snprintf_plain {size : ℕ} {x : ℤ} {b : Byte} (h : b ∈ snprintf size x) :
    isSpace b = false := by
  rcases snprintf_mem h with h | rfl
  · exact (not_special_of_isDigit h).2.2.2.2
  · decide

theorem storeword_plain {d : Datadef} (h : d.Words) : ∀ b ∈ storeword d, isSpace b = false := by
  have comma_plain : isSpace comma = false := by decide
  have fields {ts : List (List Byte)} (hts : ∀ t ∈ ts, ∀ b ∈ t, isSpace b = false) :
      ∀ b ∈ ts.flatMap (· ++ [comma]), isSpace b = false := by
    intro b hb
    obtain ⟨t, ht, hb⟩ := List.mem_flatMap.1 hb
    rcases List.mem_append.1 hb with hb | hb
    · exact hts t ht b hb
    · rwa [List.mem_singleton.1 hb]
  have names : ∀ t ∈ d.dnames, ∀ b ∈ t, isSpace b = false := by
    simp only [Datadef.dnames, List.mem_map, forall_exists_index, and_imp, forall_apply_eq_imp_iff₂]
    exact fun i _ => (h.dname i).noSpace
  have marks : ∀ t ∈ d.dsyncs, ∀ b ∈ t, isSpace b = false := by
    simp only [Datadef.dsyncs, List.mem_map, forall_exists_index, and_imp, forall_apply_eq_imp_iff₂]
    exact fun i _ b => snprintf_plain
  have last : ∀ b ∈ str "ENDD", isSpace b = false := by decide +kernel
  simp only [storeword, List.mem_append, List.mem_cons]
  rintro b (hb | rfl | hb | rfl | hb | rfl | hb | hb | rfl | hb | rfl | hb | hb)
  · exact snprintf_plain hb
  · exact comma_plain
  · exact snprintf_plain hb
  · exact comma_plain
  · exact h.fname.noSpace b hb
  · exact comma_plain
  · exact fields names b hb
  · exact h.loc.noSpace b hb
  · exact comma_plain
  · exact snprintf_plain hb
  · exact comma_plain
  · exact fields marks b hb
  · exact last b hb

/-- The file that holds the lines of some nodes is read word by word. -/
theorem words_storelines {ds : List Datadef} (h : ∀ d ∈ ds, d.Words) (m : List Byte) :
    words (ds.flatMap storeline ++ m) = ds.map storeword ++ words m := by
  induction ds with
  | nil => rfl
  | cons d ds ih =>
    have := ih fun e he => h e (by simp [he])
    have plain := storeword_plain (h d (by simp))
    rw [List.flatMap_cons, storeline_eq, List.append_assoc, List.append_assoc, List.singleton_append,
      words_line (storeword_ne_nil d) plain, this]
    rfl

/-! ## The text of a chain -/

theorem Chain.recursestore_eq {s : State} {l : List Item} (c : Chain s l) {a t : List Item} {x : Item}
    (hl : l = a ++ x :: t) {fuel : ℕ} (enough : t.length < fuel) :
    recursestore s fuel (some x.addr) =
      .ok ((x :: t).flatMap fun y => storeline y.data) := by
  induction t generalizing a x fuel with
  | nil =>
    obtain ⟨n, rfl⟩ := Nat.exists_eq_succ_of_ne_zero (by omega : fuel ≠ 0)
    simp [recursestore, c.deref_eq hl, Item.cell, bind, Except.bind, pure, Except.pure]
  | cons y t ih =>
    obtain ⟨n, rfl⟩ := Nat.exists_eq_succ_of_ne_zero (by omega : fuel ≠ 0)
    rw [List.length_cons] at enough
    have hy : l = (a ++ [x]) ++ y :: t := by simp [hl]
    have := ih hy (by omega : t.length < n)
    by_cases isFolder : x.folder = true
    · simp [recursestore, c.deref_eq hl, Item.cell, isFolder, this, bind, Except.bind, pure,
        Except.pure]
    · simp [recursestore, c.deref_eq hl, Item.cell, isFolder, this, bind, Except.bind, pure,
        Except.pure]

/-- `storelist` appends one line for each node of the chain, in order. -/
theorem Chain.storelist_eq {s : State} {l : List Item} (c : Chain s l) (file : File) :
    storelist s file = .ok (some (file.getD [] ++ l.flatMap fun y => storeline y.data)) := by
  obtain ⟨r, t, hl, -⟩ := c.rooted
  have tail : t <:+ l := hl ▸ List.suffix_cons r t
  have := c.recursestore_eq (a := []) hl (c.enough tail)
  rw [storelist, c.head, hl]
  simp [this, bind, Except.bind, pure, Except.pure]

end DistFs.NameSpace
