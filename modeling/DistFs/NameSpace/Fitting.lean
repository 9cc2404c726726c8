import DistFs.CText.Pieces
import DistFs.NameSpace.Arrays
import DistFs.NameSpace.Invariant

/-!
# Files and trees that fit

Where the strings of a record fit into its fields, its line fits into `buffer`, and what is read back
from the line fits again.  So the calls of the library can be used on one another's results: a tree
that they have built is saved, and a file that they have written is read, as if there were no arrays.
-/

namespace DistFs.NameSpace.Arrays

open CText

variable {s : State}

/-! ## Files that fit -/

/-- The words of a text and their fields fit into their arrays. -/
structure FileFits (text : List Byte) : Prop where
  noNul : NoNul text
  words : ∀ w ∈ text.splitOnP isSpace, w.length < LINE
  fields : ∀ t ∈ text.splitOnP (fun b => isSpace b || b == comma), t.length < MAX_PATH

section Split

variable {α : Type*} {p q : α → Bool} {l w : List α}

theorem sublist_of_mem_splitOnP (h : w ∈ l.splitOnP p) : w.Sublist l := by
  induction l generalizing w with
  | nil => simp_all
  | cons x l ih =>
    rw [List.splitOnP_cons_eq_if_modifyHead] at h
    split_ifs at h
    · rcases List.mem_cons.1 h with rfl | h
      · exact List.nil_sublist _
      · exact (ih h).cons x
    · obtain ⟨v, vs, split⟩ := List.exists_cons_of_ne_nil (List.splitOnP_ne_nil p l)
      rw [split, List.modifyHead_cons] at h
      rcases List.mem_cons.1 h with rfl | h
      · exact (ih (split ▸ List.mem_cons_self)).cons_cons x
      · exact (ih (split ▸ List.mem_cons_of_mem v h)).cons x

/-- Splitting the pieces once more is splitting at either kind of separator. -/
theorem splitOnP_splitOnP : (l.splitOnP p).flatMap (List.splitOnP q) =
    l.splitOnP fun x => p x || q x := by
  induction l with
  | nil => simp
  | cons x l ih =>
    rw [List.splitOnP_cons_eq_if_modifyHead, List.splitOnP_cons_eq_if_modifyHead, ← ih]
    obtain ⟨v, vs, split⟩ := List.exists_cons_of_ne_nil (List.splitOnP_ne_nil p l)
    obtain ⟨u, us, split'⟩ := List.exists_cons_of_ne_nil (List.splitOnP_ne_nil q v)
    by_cases hp : p x = true <;> by_cases hq : q x = true <;>
      simp [hp, hq, split, List.splitOnP_cons_eq_if_modifyHead, split']

end Split

/-- A text that `strtok` cuts into tokens that fit. -/
structure TokensFit (m : List Byte) : Prop where
  noNul : NoNul m
  short : ∀ t ∈ pieces comma m, t.length < MAX_PATH

theorem FileFits.word {text w : List Byte} (fits : FileFits text) (h : w ∈ NameSpace.words text) :
    w.length < LINE ∧ TokensFit w := by
  have part := (List.mem_filter.1 h).1
  refine ⟨fits.words w part, fun zero => ?_, fun t ht => ?_⟩
  · exact fits.noNul ((sublist_of_mem_splitOnP part).subset zero)
  · apply fits.fields
    rw [← splitOnP_splitOnP]
    exact List.mem_flatMap.2 ⟨w, part, (List.mem_filter.1 ht).1⟩

theorem TokensFit.token {m m' t : List Byte} (fits : TokensFit m) (h : token m = .ok (t, m')) :
    t.length < MAX_PATH ∧ TokensFit m' := by
  unfold NameSpace.token nextToken at h
  cases found : strtok [comma] m with
  | none =>
    rw [found] at h
    cases h
  | some u =>
    rw [found] at h
    cases h
    obtain ⟨cut, noNul⟩ := pieces_of_some fits.noNul found
    have short := fits.short
    rw [cut, List.forall_mem_cons] at short
    exact ⟨short.1, noNul, short.2⟩

theorem TokensFit.tokens {n : ℕ} {m m' : List Byte} {ts : List (List Byte)} (fits : TokensFit m)
    (h : tokens n m = .ok (ts, m')) : (∀ t ∈ ts, t.length < MAX_PATH) ∧ TokensFit m' := by
  induction n generalizing m ts with
  | zero =>
    cases h
    exact ⟨by simp, fits⟩
  | succ n ih =>
    obtain ⟨⟨t, m₁⟩, first, h⟩ := bind_eq_ok.1 h
    obtain ⟨⟨us, m₂⟩, later, h⟩ := bind_eq_ok.1 h
    cases h
    obtain ⟨short, fits'⟩ := fits.token first
    obtain ⟨shorts, fits''⟩ := ih fits' later
    exact ⟨List.forall_mem_cons.2 ⟨short, shorts⟩, fits''⟩

theorem bind_congr_ok {α β : Type} {x : Except Fault α} {f g : α → Except Fault β}
    (same : ∀ a, x = .ok a → f a = g a) : (x >>= f) = (x >>= g) := by
  cases x with
  | error e => rfl
  | ok a => exact same a rfl

/-- A copy that fits does nothing else. -/
theorem store_bind {β : Type} {size : ℕ} {bytes : List Byte} (fits : bytes.length < size)
    (f : Unit → Except Fault β) : (store size bytes >>= f) = f () := by
  rw [store_eq_ok.2 fits]
  rfl

theorem TokensFit.names_eq {m : List Byte} (fits : TokensFit m) (n : ℕ) :
    names n m = NameSpace.tokens n m := by
  induction n generalizing m with
  | zero => rfl
  | succ n ih =>
    apply bind_congr_ok
    rintro ⟨t, m'⟩ first
    obtain ⟨short, fits'⟩ := fits.token first
    exact (store_bind short _).trans (by rw [ih fits'])

/-- A word that fits is read as if there were no arrays, and so is what it says. -/
theorem TokensFit.readline_eq {buffer : List Byte} (fits : TokensFit buffer) :
    readline buffer = NameSpace.readline buffer := by
  unfold readline NameSpace.readline
  apply bind_congr_ok
  rintro ⟨nno, m⟩ read
  replace fits := (fits.token read).2
  apply bind_congr_ok
  rintro ⟨pno, m⟩ read
  replace fits := (fits.token read).2
  apply bind_congr_ok
  rintro ⟨fname, m⟩ read
  obtain ⟨short, fits⟩ := fits.token read
  refine (store_bind short _).trans ?_
  rw [fits.names_eq]
  apply bind_congr_ok
  rintro ⟨dname, m⟩ read
  replace fits := (fits.tokens read).2
  apply bind_congr_ok
  rintro ⟨loc, m⟩ read
  exact store_bind (fits.token read).1 _

theorem length_ofBytes_le (m : List Byte) : (CString.ofBytes m).bytes.length ≤ m.length := by
  rw [CString.bytes_ofBytes]
  exact (List.takeWhile_prefix _).length_le

theorem TokensFit.short_record {buffer : List Byte} {d : Datadef} (fits : TokensFit buffer)
    (h : NameSpace.readline buffer = .ok d) : RecordFits d := by
  obtain ⟨⟨nno, m⟩, read, h⟩ := bind_eq_ok.1 h
  replace fits := (fits.token read).2
  obtain ⟨⟨pno, m⟩, read, h⟩ := bind_eq_ok.1 h
  replace fits := (fits.token read).2
  obtain ⟨⟨fname, m⟩, read, h⟩ := bind_eq_ok.1 h
  obtain ⟨name, fits⟩ := fits.token read
  obtain ⟨⟨dname, m⟩, read, h⟩ := bind_eq_ok.1 h
  obtain ⟨nodes, fits⟩ := fits.tokens read
  obtain ⟨⟨loc, m⟩, read, h⟩ := bind_eq_ok.1 h
  obtain ⟨place, fits⟩ := fits.token read
  obtain ⟨⟨dflag, m⟩, read, h⟩ := bind_eq_ok.1 h
  obtain ⟨⟨dsync, m⟩, read, h⟩ := bind_eq_ok.1 h
  cases h
  refine ⟨(length_ofBytes_le _).trans_lt name, fun i => ?_, (length_ofBytes_le _).trans_lt place⟩
  refine (length_ofBytes_le _).trans_lt ?_
  by_cases inside : i.val < dname.length
  · rw [List.getD_eq_getElem _ _ inside]
    exact nodes _ (List.getElem_mem inside)
  · rw [List.getD_eq_default _ _ (not_lt.1 inside)]
    decide

theorem recoverlines_eq {lines : List (List Byte)}
    (fits : ∀ w ∈ lines, w.length < LINE ∧ TokensFit w) :
    recoverlines lines s = NameSpace.recoverlines lines s := by
  induction lines generalizing s with
  | nil => rfl
  | cons buffer lines ih =>
    rw [List.forall_mem_cons] at fits
    obtain ⟨⟨whole, tokens⟩, later⟩ := fits
    rw [recoverlines, NameSpace.recoverlines, store_bind whole, tokens.readline_eq]
    apply bind_congr_ok
    intro d read
    rw [addnode_short (tokens.short_record read).loc]
    apply bind_congr_ok
    rintro ⟨a, s₁⟩ -
    exact ih later

/-- A file whose words and fields fit is recovered as if there were no arrays. -/
theorem recoverlist_eq (junk : Fin REP → ℤ) {file : File}
    (fits : ∀ text, file = some text → FileFits text) :
    recoverlist junk file s = NameSpace.recoverlist junk file s := by
  cases file with
  | none => rfl
  | some text =>
    have words (w : List Byte) (mem : w ∈ NameSpace.words text) := (fits text rfl).word mem
    rw [recoverlist, NameSpace.recoverlist]
    cases split : NameSpace.words text with
    | nil => rfl
    | cons buffer lines =>
      rw [split, List.forall_mem_cons] at words
      obtain ⟨⟨whole, tokens⟩, later⟩ := words
      simp only
      rw [store_bind whole, tokens.readline_eq]
      apply bind_congr_ok
      intro d read
      exact recoverlines_eq later

/-! ## The lines of short records -/

theorem length_snprintf (x : ℤ) : (snprintf 10 x).length ≤ 9 := by
  rw [snprintf]
  exact List.length_take_le _ _

section Fields

variable {ts : List (List Byte)} {n : ℕ}

theorem length_fields (short : ∀ t ∈ ts, t.length < n) :
    (ts.flatMap (· ++ [comma])).length ≤ ts.length * n := by
  induction ts with
  | nil => simp
  | cons t ts ih =>
    rw [List.forall_mem_cons] at short
    have rest := ih short.2
    rw [List.flatMap_cons, List.length_append, List.length_append, List.length_singleton,
      List.length_cons, Nat.succ_mul]
    omega

theorem noNul_fields (plain : ∀ t ∈ ts, NoNul t) : NoNul (ts.flatMap (· ++ [comma])) := by
  intro zero
  obtain ⟨t, ht, zero⟩ := List.mem_flatMap.1 zero
  rcases List.mem_append.1 zero with zero | zero
  · exact plain t ht zero
  · exact absurd zero (by decide)

/-- The pieces of a text are shorter than `n`. -/
def Pieces (p : Byte → Bool) (n : ℕ) (text : List Byte) : Prop :=
  ∀ w ∈ text.splitOnP p, w.length < n

variable {p : Byte → Bool} {a b : List Byte} {c : Byte}

theorem Pieces.of_length (short : a.length < n) : Pieces p n a := by
  intro w hw
  exact (sublist_of_mem_splitOnP hw).length_le.trans_lt short

theorem Pieces.append (front : a.length < n) (cut : p c = true) (back : Pieces p n b) :
    Pieces p n (a ++ c :: b) := by
  intro w hw
  rw [List.splitOnP_append_cons a b cut] at hw
  exact (List.mem_append.1 hw).elim (Pieces.of_length front w) (back w)

theorem Pieces.fields (short : ∀ t ∈ ts, t.length < n) (cut : p comma = true) (back : Pieces p n b) :
    Pieces p n (ts.flatMap (· ++ [comma]) ++ b) := by
  induction ts with
  | nil => exact back
  | cons t ts ih =>
    rw [List.forall_mem_cons] at short
    rw [List.flatMap_cons, List.append_assoc, List.append_assoc]
    exact .append short.1 cut (ih short.2)

end Fields

section Line

variable {d : Datadef}

theorem RecordFits.dnames (short : RecordFits d) : ∀ t ∈ d.dnames, t.length < MAX_PATH ∧ NoNul t := by
  simp only [Datadef.dnames, List.mem_map, forall_exists_index, and_imp, forall_apply_eq_imp_iff₂]
  exact fun i _ => ⟨short.dname i, (d.dname i).noNul⟩

theorem dsyncs_short (d : Datadef) : ∀ t ∈ d.dsyncs, t.length < 10 ∧ NoNul t := by
  simp only [Datadef.dsyncs, List.mem_map, forall_exists_index, and_imp, forall_apply_eq_imp_iff₂]
  exact fun i _ => ⟨Nat.lt_succ_of_le (length_snprintf _), (isToken_snprintf (by norm_num) _).noNul⟩

/-- The line of a short record fits into `buffer`. -/
theorem RecordFits.length_storeline (short : RecordFits d) : (storeline d).length < LINE := by
  have nno := length_snprintf d.nno
  have pno := length_snprintf d.pno
  have dflag := length_snprintf d.dflag
  have dnames := length_fields fun t ht => (short.dnames t ht).1
  have dsyncs := length_fields fun t ht => (dsyncs_short d t ht).1
  have count : d.dnames.length = REP ∧ d.dsyncs.length = REP := by
    simp [Datadef.dnames, Datadef.dsyncs]
  have last : (str "ENDD").length = 4 := by decide
  have fname := short.fname
  have loc := short.loc
  rw [count.1] at dnames
  rw [count.2] at dsyncs
  rw [storeline_eq, storeword]
  simp only [List.length_append, List.length_cons, List.length_nil, last]
  simp only [MAX_PATH, LINE, REP] at dnames dsyncs fname loc ⊢
  omega

theorem noNul_storeword (d : Datadef) : NoNul (storeword d) := by
  have number (x : ℤ) : NoNul (snprintf 10 x) := (isToken_snprintf (by norm_num) x).noNul
  have separator : comma ≠ 0 := by decide
  have last : NoNul (str "ENDD") := by decide
  have dnames : NoNul (d.dnames.flatMap (· ++ [comma])) := by
    apply noNul_fields
    simp only [Datadef.dnames, List.mem_map, forall_exists_index, and_imp, forall_apply_eq_imp_iff₂]
    exact fun i _ => (d.dname i).noNul
  have dsyncs := noNul_fields fun t ht => (dsyncs_short d t ht).2
  simp only [storeword, noNul_append, noNul_cons]
  exact ⟨number _, separator, number _, separator, d.fname.noNul, separator, dnames, d.loc.noNul,
    separator, number _, separator, dsyncs, last⟩

theorem RecordFits.fields (short : RecordFits d) {p : Byte → Bool} (cut : p comma = true) :
    Pieces p MAX_PATH (storeword d) := by
  have number (x : ℤ) : (snprintf 10 x).length < MAX_PATH :=
    (length_snprintf x).trans_lt (by decide)
  have marks : ∀ t ∈ d.dsyncs, t.length < MAX_PATH := fun t ht =>
    (dsyncs_short d t ht).1.trans (by decide)
  exact .append (number _) cut <| .append (number _) cut <| .append short.fname cut <|
    .fields (fun t ht => (short.dnames t ht).1) cut <| .append short.loc cut <|
    .append (number _) cut <| .fields marks cut <| .of_length (by decide)

/-- A file that holds the lines of short records fits. -/
theorem fileFits_lines {ds : List Datadef} (short : ∀ d ∈ ds, RecordFits d) :
    FileFits (ds.flatMap storeline) := by
  induction ds with
  | nil =>
    refine ⟨List.not_mem_nil, ?_, ?_⟩
    all_goals simp [LINE, MAX_PATH]
  | cons d ds ih =>
    rw [List.forall_mem_cons] at short
    obtain ⟨noNul, words, fields⟩ := ih short.2
    have line := short.1.length_storeline
    rw [storeline_eq, List.length_append, List.length_singleton] at line
    rw [List.flatMap_cons, storeline_eq, List.append_assoc, List.singleton_append]
    refine ⟨?_, ?_, ?_⟩
    · exact noNul_append.2 ⟨noNul_storeword d, noNul_cons.2 ⟨by decide, noNul⟩⟩
    · exact Pieces.append (by omega) (by decide) words
    · intro w hw
      rw [List.splitOnP_append_cons _ _ (by decide)] at hw
      exact (List.mem_append.1 hw).elim (short.1.fields (by decide) w) (fields w)

end Line

/-! ## Trees that fit -/

theorem rootItem_fits (junk : Fin REP → ℤ) : RecordFits (rootItem junk).data where
  fname := (by decide : home.bytes.length < MAX_PATH)
  dname i := by
    have names : root_.bytes.length < SERV_PATH ∧ none_.bytes.length < SERV_PATH := by decide
    simp only [rootItem]
    split_ifs
    · exact names.1
    · exact names.2
  loc := (by decide : root_.bytes.length < MAX_PATH)

theorem newdata_fits {f d p : CString} (flag : ℤ) (fits : f.bytes.length < MAX_PATH ∧
    d.bytes.length < SERV_PATH ∧ p.bytes.length < MAX_PATH) : RecordFits (newdata f d p flag) where
  fname := fits.1
  dname i := by
    have unset : none_.bytes.length < SERV_PATH := by decide
    simp only [newdata]
    split_ifs
    · exact fits.2.1
    · exact unset
  loc := fits.2.2

/-- The chain of a tree, from an item on, is printed as if there were no arrays. -/
theorem recursestore_eq {l a t : List Item} {x : Item} (c : Chain s l)
    (fits : ∀ y ∈ l, RecordFits y.data) (hl : l = a ++ x :: t) (fuel : ℕ) :
    recursestore s fuel (some x.addr) = NameSpace.recursestore s fuel (some x.addr) := by
  induction t generalizing a x fuel with
  | nil =>
    cases fuel with
    | zero => rfl
    | succ fuel =>
      have line := (fits x (by simp [hl])).length_storeline
      simp [recursestore, NameSpace.recursestore, c.deref_eq hl, Item.cell, bind, Except.bind,
        store_eq_ok.2 line]
  | cons y t ih =>
    cases fuel with
    | zero => rfl
    | succ fuel =>
      have line := (fits x (by simp [hl])).length_storeline
      have hy : l = (a ++ [x]) ++ y :: t := by simp [hl]
      by_cases isFolder : x.folder = true
      · simp [recursestore, NameSpace.recursestore, c.deref_eq hl, Item.cell, bind, Except.bind,
          store_eq_ok.2 line, isFolder, ih hy]
      · simp [recursestore, NameSpace.recursestore, c.deref_eq hl, Item.cell, bind, Except.bind,
          store_eq_ok.2 line, isFolder, ih hy]

/-- A tree of short records is saved as if there were no arrays. -/
theorem storelist_eq {l : List Item} (c : Chain s l) (fits : ∀ x ∈ l, RecordFits x.data)
    (file : File) : storelist s file = NameSpace.storelist s file := by
  obtain ⟨r, t, hl, -⟩ := c.rooted
  have text := recursestore_eq (a := []) c fits hl (s.brk + 1)
  have head : s.head = some r.addr := by
    rw [c.head, hl]
    rfl
  rw [storelist, NameSpace.storelist, head, text]

end DistFs.NameSpace.Arrays
