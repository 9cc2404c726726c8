import DistFs.NameSpace.Heap

/-!
# Taking paths apart

The second pair of path helpers in `dd.c`: `getdir` and `parsepath` split a path at its last slash,
as `parserpath` and `removepath` do at the first one.  All four go through `cstrcpy`.  The two that
return the text in front of the slash pass it the index of the slash less one (`findfch` counts from
one, `findlch` from zero), which is 0 when that text has exactly one character; and 0 is how
`cstrcpy` is told to copy everything.
-/

namespace DistFs.NameSpace

open CText

/-- The loop of `findlch` from index `i` down. -/
def findlchFrom (stemp : List Byte) (ctemp : Byte) : ℕ → ℤ
  | 0 => if stemp.getD 0 0 = ctemp then 0 else -1
  | i + 1 => if stemp.getD (i + 1) 0 = ctemp then i + 1 else findlchFrom stemp ctemp i

/-- `findlch`: the index of the last `ctemp`, or -1.  The loop begins at the terminator. -/
def findlch (stemp : List Byte) (ctemp : Byte) : ℤ := findlchFrom stemp ctemp (cstr stemp).length

/-- `getdir`: a path without its last component. -/
def getdir (vpath : CString) : CString :=
  let ipos := findlch vpath.bytes slash
  if ipos ≠ -1 then .ofBytes (cstrcpy vpath.bytes 0 (ipos - 1)) else home

/-- `strrchr`: the string from its last `ctemp` on.  The terminator counts as part of the string. -/
def strrchr (ctemp : Byte) : List Byte → Option (List Byte)
  | [] => if ctemp = 0 then some [] else none
  | b :: m =>
      if b = 0 then if ctemp = 0 then some (b :: m) else none
      else (strrchr ctemp m).or (if b = ctemp then some (b :: m) else none)

/-- `parsepath`: the last component of a path.  Without a slash, `strlen` gets a null pointer. -/
def parsepath (vpath : CString) : Except Fault CString :=
  match strrchr slash vpath.bytes with
  | none => .error .null
  | some stemp => .ok (.ofBytes (cstrcpy stemp 1 ((cstr stemp).length - 1)))

/-! ## The last slash -/

section Last

variable {c : Byte} {m d n : List Byte} {i k : ℕ}

theorem findlchFrom_eq (le : k ≤ i) (here : m.getD k 0 = c)
    (behind : ∀ j, k < j → j ≤ i → m.getD j 0 ≠ c) : findlchFrom m c i = k := by
  induction i with
  | zero =>
    obtain rfl : k = 0 := by omega
    rw [findlchFrom, if_pos here]
    rfl
  | succ i ih =>
    rw [findlchFrom]
    by_cases last : k = i + 1
    · subst last
      rw [if_pos here]
      rfl
    · rw [if_neg (behind (i + 1) (by omega) (Nat.le_refl _))]
      apply ih (by omega)
      intro j before inside
      exact behind j before (by omega)

/-- The loop passes over the terminator and over what follows the last `c`. -/
theorem findlch_last (hs : NoNul (d ++ c :: n)) (hn : c ∉ n) :
    findlch (d ++ c :: n) c = d.length := by
  have nonzero : c ≠ 0 := (noNul_cons.1 (noNul_append.1 hs).2).1
  rw [findlch, cstr_of_noNul hs]
  apply findlchFrom_eq
  · rw [List.length_append]
    omega
  · simp
  · intro j before _
    obtain ⟨j, rfl⟩ : ∃ i, j = d.length + 1 + i := ⟨j - d.length - 1, by omega⟩
    have behind : (d ++ c :: n).getD (d.length + 1 + j) 0 = n.getD j 0 := by
      rw [List.getD_append_right _ _ _ _ (by omega),
        show d.length + 1 + j - d.length = j + 1 by omega, List.getD_cons_succ]
    rw [behind]
    by_cases inside : j < n.length
    · rw [List.getD_eq_getElem _ _ inside]
      exact ne_of_mem_of_not_mem (List.getElem_mem inside) hn
    · rw [List.getD_eq_default _ _ (by omega)]
      exact nonzero.symm

theorem strrchr_none (nonzero : c ≠ 0) (hm : c ∉ m) : strrchr c m = none := by
  induction m with
  | nil => rw [strrchr, if_neg nonzero]
  | cons b m ih =>
    rw [List.mem_cons, not_or] at hm
    rw [strrchr, if_neg nonzero, ih hm.2, if_neg (Ne.symm hm.1)]
    exact ite_self none

theorem strrchr_last (hs : NoNul (d ++ c :: n)) (hn : c ∉ n) :
    strrchr c (d ++ c :: n) = some (c :: n) := by
  induction d with
  | nil =>
    have nonzero := (noNul_cons.1 hs).1
    rw [List.nil_append, strrchr, if_neg nonzero, strrchr_none nonzero hn, if_pos rfl]
    rfl
  | cons b d ih =>
    obtain ⟨nonzero, hs⟩ := noNul_cons.1 hs
    rw [List.cons_append, strrchr, if_neg nonzero, ih hs]
    rfl

end Last

/-! ## The two pairs -/

/-- The last slash of `p` stands between `d` and `n`. -/
structure SplitsLast (p d n : CString) : Prop where
  joined : p = child d n
  last : slash ∉ n.bytes

/-- The first slash of `p` stands between `c` and `r`. -/
structure SplitsFirst (p c r : CString) : Prop where
  joined : p = child c r
  first : slash ∉ c.bytes

section Pairs

variable {p c r d n : CString}

/-- A path with a slash is its folder and its last component. -/
theorem exists_splitsLast (h : slash ∈ p.bytes) : ∃ d n, SplitsLast p d n := by
  obtain ⟨n, d, reversed, hn⟩ := List.eq_append_cons_of_mem (List.mem_reverse.2 h)
  have hp : p.bytes = d.reverse ++ slash :: n.reverse := by
    rw [← p.bytes.reverse_reverse, reversed]
    simp
  have noNul := p.noNul
  rw [hp, noNul_append, noNul_cons] at noNul
  refine ⟨⟨d.reverse, noNul.1⟩, ⟨n.reverse, noNul.2.2⟩, CString.ext ?_, by simpa using hn⟩
  rw [bytes_child, hp]

theorem exists_splitsFirst (h : slash ∈ p.bytes) : ∃ c r, SplitsFirst p c r := by
  obtain ⟨c, r, joined, first⟩ := eq_child h
  exact ⟨c, r, joined, first⟩

/-- `parsepath` is right about every path with a slash. -/
theorem SplitsLast.parsepath_eq (split : SplitsLast p d n) : parsepath p = .ok n := by
  obtain ⟨rfl, last⟩ := split
  have noNul := (child d n).noNul
  rw [bytes_child] at noNul
  have rest : NoNul (slash :: n.bytes) := (noNul_append.1 noNul).2
  rw [parsepath, bytes_child, strrchr_last noNul last]
  apply congrArg Except.ok
  apply CString.ext
  rw [CString.bytes_ofBytes, cstr_cstrcpy, cstr_of_noNul rest, List.drop_succ_cons, List.drop_zero,
    cstr_of_noNul n.noNul]
  apply List.take_of_length_le
  rw [List.length_cons]
  split_ifs <;> omega

/-- `getdir` returns the folder, or everything when that has one character. -/
theorem SplitsLast.getdir_eq (split : SplitsLast p d n) :
    getdir p = if d.bytes.length = 1 then p else d := by
  obtain ⟨rfl, last⟩ := split
  have noNul := (child d n).noNul
  rw [bytes_child] at noNul
  rw [getdir, bytes_child, findlch_last noNul last, if_pos (by omega)]
  apply CString.ext
  rw [CString.bytes_ofBytes, cstr_cstrcpy, List.drop_zero, cstr_of_noNul noNul]
  by_cases one : d.bytes.length = 1
  · rw [if_neg (by omega), if_pos one, List.take_length, bytes_child]
  · rw [if_pos (by omega), if_neg one,
      show ((d.bytes.length : ℤ) - 1 + 1).toNat = d.bytes.length by omega]
    exact List.take_left

theorem SplitsFirst.parserpath_eq (split : SplitsFirst p c r) :
    parserpath p = if c.bytes.length = 1 then p else c := by
  obtain ⟨rfl, first⟩ := split
  exact parserpath_child first r

theorem SplitsFirst.removepath_eq (split : SplitsFirst p c r) : removepath p = r := by
  obtain ⟨rfl, first⟩ := split
  exact removepath_child first r

/-- Where the first slash stands. -/
theorem SplitsFirst.idxOf_eq (split : SplitsFirst p c r) :
    p.bytes.idxOf slash = c.bytes.length := by
  obtain ⟨rfl, first⟩ := split
  rw [bytes_child, List.idxOf_append_of_notMem first]
  simp

/-- When the last slash stands behind one character. -/
theorem SplitsLast.length_eq_one_iff (split : SplitsLast p d n) :
    d.bytes.length = 1 ↔ p.bytes[1]? = some slash ∧ slash ∉ p.bytes.drop 2 := by
  obtain ⟨rfl, last⟩ := split
  rw [bytes_child]
  constructor
  · intro one
    obtain ⟨b, single⟩ := List.length_eq_one_iff.1 one
    rw [single]
    exact ⟨rfl, last⟩
  · rintro ⟨second, behind⟩
    match hd : d.bytes with
    | [] =>
      -- the last slash is the first character, and another one follows it
      rw [hd, List.nil_append, List.getElem?_cons_succ] at second
      exact absurd (List.mem_of_getElem? second) last
    | [b] => rfl
    | b :: b' :: l =>
      rw [hd] at behind
      apply absurd _ behind
      simp

/-- `parserpath` and `removepath` split a path at its first slash, unless it follows one character. -/
theorem splitsFirst_iff (h : slash ∈ p.bytes) :
    SplitsFirst p (parserpath p) (removepath p) ↔ p.bytes.idxOf slash ≠ 1 := by
  obtain ⟨c, r, split⟩ := exists_splitsFirst h
  rw [split.idxOf_eq, split.parserpath_eq, split.removepath_eq]
  split_ifs with one
  · simp only [one, ne_eq, not_true_eq_false, iff_false]
    intro whole
    exact whole.first h
  · exact iff_of_true split one

/-- `getdir` and `parsepath` split a path at its last slash, unless it follows one character. -/
theorem splitsLast_iff (h : slash ∈ p.bytes) :
    (∃ n, parsepath p = .ok n ∧ SplitsLast p (getdir p) n) ↔
      ¬ (p.bytes[1]? = some slash ∧ slash ∉ p.bytes.drop 2) := by
  obtain ⟨d, n, split⟩ := exists_splitsLast h
  rw [← split.length_eq_one_iff, split.parsepath_eq, split.getdir_eq]
  split_ifs with one
  · simp only [one, not_true_eq_false, iff_false]
    rintro ⟨m, same, whole⟩
    -- a path is longer than its folder
    have := congrArg (fun q => q.bytes.length) whole.joined
    simp [bytes_child] at this
  · exact iff_of_true ⟨n, rfl, split⟩ one

end Pairs

/-- A path comes apart at its first and at its last slash without a loss if and only if neither of
them follows exactly one character. -/
theorem path_splitting_iff (p : CString) (h : slash ∈ p.bytes) :
    (SplitsFirst p (parserpath p) (removepath p) ∧
        ∃ n, parsepath p = .ok n ∧ SplitsLast p (getdir p) n) ↔
      p.bytes.idxOf slash ≠ 1 ∧ ¬ (p.bytes[1]? = some slash ∧ slash ∉ p.bytes.drop 2) :=
  and_congr (splitsFirst_iff h) (splitsLast_iff h)

/-- A file in a folder of the root folder. -/
theorem path_splitting_nested :
    SplitsFirst (.lit "home/a/b") (parserpath (.lit "home/a/b")) (removepath (.lit "home/a/b")) ∧
      ∃ n, parsepath (.lit "home/a/b") = .ok n ∧
        SplitsLast (.lit "home/a/b") (getdir (.lit "home/a/b")) n :=
  (path_splitting_iff (.lit "home/a/b") (by decide)).2 (by decide)

/-- A folder with a name of one character gets lost. -/
theorem path_splitting_one_character :
    ¬ ∀ p : CString, p.bytes.length < MAX_PATH → slash ∈ p.bytes →
      SplitsFirst p (parserpath p) (removepath p) ∧
        ∃ n, parsepath p = .ok n ∧ SplitsLast p (getdir p) n := by
  intro lossless
  have split := (lossless (.lit "a/b") (by decide) (by decide)).1
  have := (splitsFirst_iff (by decide)).1 split
  exact absurd this (by decide)

end DistFs.NameSpace
