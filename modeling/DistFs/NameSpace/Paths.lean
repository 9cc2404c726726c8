import DistFs.CText.Basic

/-!
# Path strings of the name space

The string helpers of `dd.c`: `cstrcpy`, `findfch`, `parserpath` and `removepath`.  `cstrcpy` takes
a length that is one less than the number of characters it copies, and reads the length 0 as
"the whole source string"; so `parserpath` returns the whole path when its first component has
exactly one character.
-/

namespace DistFs.NameSpace

open CText

/-- The name of the root. -/
def home : CString := .lit "home"

/-- `MAX_PATH`: the size of the path buffers. -/
def MAX_PATH : ℕ := 100

/-- The separator of path components. -/
def slash : Byte := 47

/-- `findfch`: one more than the index of the first `ctemp`, or -1. -/
def findfch (stemp : List Byte) (ctemp : Byte) : ℤ :=
  if ctemp ∈ cstr stemp then (cstr stemp).idxOf ctemp + 1 else -1

/-- `cstrcpy`: the bytes written to `sret` in front of the closing `EOS`.  `stemp` is the memory at
the source pointer; the copy loop for length 0 runs as often as the source has characters. -/
def cstrcpy (stemp : List Byte) (start : ℕ) (ilen : ℤ) : List Byte :=
  if ilen ≠ 0 then (List.range (ilen + 1).toNat).map fun i => stemp.getD (start + i) 0
  else (List.range (cstr stemp).length).map fun i => stemp.getD (start + i) 0

/-- `parserpath`: the root folder name of a path. -/
def parserpath (vpath : CString) : CString :=
  .ofBytes (cstrcpy vpath.bytes 0 (findfch vpath.bytes slash - 2))

/-- `removepath`: the path without its root folder. -/
def removepath (vpath : CString) : CString :=
  .ofBytes (cstrcpy vpath.bytes (findfch vpath.bytes slash).toNat 0)

/-- The path of the entry `n` of the folder `p`. -/
def child (p n : CString) : CString := p ++ .lit "/" ++ n

/-! ## What the helpers return -/

theorem findfch_split {s r : List Byte} {c : Byte} (hs : NoNul (s ++ c :: r)) (hc : c ∉ s) :
    findfch (s ++ c :: r) c = s.length + 1 := by
  have index : (s ++ c :: r).idxOf c = s.length := by
    rw [List.idxOf_append_of_notMem hc]
    simp
  rw [findfch, cstr_of_noNul hs, if_pos (by simp), index]

theorem findfch_ne_neg_one {s : List Byte} (hs : NoNul s) {c : Byte} :
    findfch s c ≠ -1 ↔ c ∈ s := by
  rw [findfch, cstr_of_noNul hs]
  split_ifs with h
  · simp only [h, iff_true]
    omega
  · simp [h]

/-- The string that a copy of `n` bytes from index `start` holds. -/
theorem cstr_copy (m : List Byte) (start n : ℕ) :
    cstr ((List.range n).map fun i => m.getD (start + i) 0) = (cstr (m.drop start)).take n := by
  have step : (fun i => m.getD (start + i) 0) = fun i => (m.drop start).getD i 0 := by
    funext i
    simp
  rw [step]
  generalize m.drop start = l
  induction n generalizing l with
  | zero => simp
  | succ n ih =>
    rw [List.range_succ_eq_map, List.map_cons, List.map_map]
    cases l with
    | nil => simp [cstr]
    | cons b l =>
      have := ih l
      by_cases hb : b = 0
      · simp [cstr, hb]
      · simp only [cstr] at this
        simpa [cstr, hb, Function.comp_def] using this

/-- Only the string at the source pointer matters, not the memory behind its terminator. -/
theorem cstr_cstrcpy (m : List Byte) (start : ℕ) (ilen : ℤ) :
    cstr (cstrcpy m start ilen) =
      (cstr (m.drop start)).take (if ilen ≠ 0 then (ilen + 1).toNat else (cstr m).length) := by
  rw [cstrcpy]
  split_ifs <;> exact cstr_copy _ _ _

/-- `parserpath` returns the first component, or everything when that has one character. -/
theorem parserpath_split {p : CString} {c r : List Byte} (hp : p.bytes = c ++ slash :: r)
    (hc : slash ∉ c) : (parserpath p).bytes = if c.length = 1 then p.bytes else c := by
  have hs := p.noNul
  rw [hp] at hs
  rw [parserpath, CString.bytes_ofBytes, cstr_cstrcpy, hp, findfch_split hs hc, List.drop_zero,
    cstr_of_noNul hs]
  by_cases one : c.length = 1
  · rw [if_neg (by omega), if_pos one, List.take_length]
  · rw [if_pos (by omega), if_neg one, show ((c.length : ℤ) + 1 - 2 + 1).toNat = c.length by omega]
    exact List.take_left

/-- What `removepath` leaves: the string behind the first slash, whatever memory its copy loop
reads behind the terminator of the source. -/
theorem removepath_bytes {c r : List Byte} (hs : NoNul (c ++ slash :: r)) (hc : slash ∉ c)
    {m : List Byte} (hm : cstr m = c ++ slash :: r) :
    cstr (cstrcpy m (findfch m slash).toNat 0) = r := by
  have hr : NoNul r := (noNul_cons.1 (noNul_append.1 hs).2).2
  have position : findfch m slash = c.length + 1 := by
    have := findfch_split hs hc
    rw [findfch, cstr_of_noNul hs] at this
    rwa [findfch, hm]
  have drop : cstr (m.drop (c.length + 1)) = r := by
    rw [cstr_drop m (by rw [hm, List.length_append, List.length_cons]; omega), hm,
      ← List.singleton_append, ← List.append_assoc]
    exact List.drop_left' (by simp)
  rw [position, cstr_cstrcpy, if_neg (by simp), hm,
    show ((c.length : ℤ) + 1).toNat = c.length + 1 by omega, drop]
  exact List.take_of_length_le (by simp; omega)

/-- `removepath` returns what follows the first slash. -/
theorem removepath_split {p : CString} {c r : List Byte} (hp : p.bytes = c ++ slash :: r)
    (hc : slash ∉ c) : (removepath p).bytes = r :=
  removepath_bytes (hp ▸ p.noNul) hc ((cstr_of_noNul p.noNul).trans hp)

/-- Every step of the search shortens the path. -/
theorem removepath_length {p : CString} (h : slash ∈ p.bytes) :
    (removepath p).bytes.length < p.bytes.length := by
  obtain ⟨c, r, hp, hc⟩ := List.eq_append_cons_of_mem h
  have := congrArg List.length hp
  rw [List.length_append, List.length_cons] at this
  rw [removepath_split hp hc]
  omega

/-! ## Paths below a folder -/

theorem bytes_child (p n : CString) : (child p n).bytes = p.bytes ++ slash :: n.bytes := by
  have : (CString.lit "/").bytes = [slash] := by decide
  simp [child, this]

theorem child_assoc (p q n : CString) : child (child p q) n = child p (child q n) := by
  apply CString.ext
  simp [bytes_child]

theorem slash_mem_child (p n : CString) : slash ∈ (child p n).bytes := by
  simp [bytes_child]

theorem child_ne_home (p n : CString) : child p n ≠ home := by
  intro h
  have := slash_mem_child p n
  rw [h] at this
  revert this
  decide

/-- A path with a slash is its first component and the rest. -/
theorem eq_child {p : CString} (h : slash ∈ p.bytes) :
    ∃ c r, p = child c r ∧ slash ∉ c.bytes := by
  obtain ⟨c, r, hp, hc⟩ := List.eq_append_cons_of_mem h
  have noNul := p.noNul
  rw [hp, noNul_append, noNul_cons] at noNul
  refine ⟨⟨c, noNul.1⟩, ⟨r, noNul.2.2⟩, CString.ext ?_, hc⟩
  rw [bytes_child, hp]

theorem removepath_child {c : CString} (hc : slash ∉ c.bytes) (n : CString) :
    removepath (child c n) = n :=
  CString.ext (removepath_split (bytes_child c n) hc)

theorem parserpath_child {c : CString} (hc : slash ∉ c.bytes) (n : CString) :
    parserpath (child c n) = if c.bytes.length = 1 then child c n else c := by
  apply CString.ext
  rw [parserpath_split (bytes_child c n) hc]
  split_ifs <;> rfl

/-- A step of the search that looks for a plain name looks for the component itself. -/
theorem parserpath_child_plain {c n v : CString} (hc : slash ∉ c.bytes)
    (h : parserpath (child c n) = v) (hv : slash ∉ v.bytes) : c = v ∧ c.bytes.length ≠ 1 := by
  rw [parserpath_child hc] at h
  split_ifs at h with one
  · exact absurd (h ▸ slash_mem_child c n) hv
  · exact ⟨h, one⟩

end DistFs.NameSpace
