import DistFs.NameSpace.Insertion
import DistFs.NameSpace.Splitting

/-!
# What the path copies of a search touch

`searchloc` copies from the path of its level into the two local arrays `foldname` and `tpath`.  The
search is run again here with a log of its calls of `cstrcpy`, and each call is expanded to the
characters that it reads and writes.  The loop that copies the whole string tests `stemp[i]` and
copies `stemp[start + i]`: it runs past the terminator by as many characters as it has skipped.
-/

namespace DistFs.NameSpace

open CText Links

/-- One access of `cstrcpy`: it reads a character of `stemp` or writes one of `sret`. -/
inductive Access where
  | read (i : ℕ)
  | write (i : ℕ)
deriving DecidableEq, Repr

/-- A call of `cstrcpy`. -/
structure Copy where
  stemp : CString
  start : ℕ
  ilen : ℤ
deriving DecidableEq

namespace Copy

/-- The accesses of the two loops, and the closing `EOS`. -/
def accesses (c : Copy) : List Access :=
  let copied := (cstrcpy c.stemp.bytes c.start c.ilen).length
  if c.ilen ≠ 0 then
    (List.range copied).flatMap (fun i => [Access.read (c.start + i), Access.write i]) ++
      [Access.write copied]
  else
    (List.range copied).flatMap (fun i =>
        [Access.read i, Access.read (c.start + i), Access.write i]) ++
      [Access.read copied, Access.write copied]

/-- An access that stays inside the string it reads from and inside an array of `MAX_PATH` bytes. -/
def Within (c : Copy) : Access → Prop
  | .read i => i ≤ c.stemp.bytes.length
  | .write i => i < MAX_PATH

/-- Every access of the copy stays inside. -/
def Inside (c : Copy) : Prop := ∀ a ∈ c.accesses, c.Within a

end Copy

/-- The call of `cstrcpy` in `parserpath`. -/
def parserpathCopy (vpath : CString) : Copy := ⟨vpath, 0, findfch vpath.bytes slash - 2⟩

/-- The call of `cstrcpy` in `removepath`. -/
def removepathCopy (vpath : CString) : Copy := ⟨vpath, (findfch vpath.bytes slash).toNat, 0⟩

/-- `searchloc` with the calls of `cstrcpy` that it makes before it returns or crashes. -/
def searchlocLogged (s : State) :
    ℕ → Option Addr → CString → Except Fault (Option Addr) × List Copy
  | 0, _, _ => (.error .fuel, [])
  | fuel + 1, temp, vpath =>
      if findfch vpath.bytes slash ≠ -1 then
        match searchsiblings s (parserpath vpath) (s.brk + 1) temp with
        | .error e => (.error e, [parserpathCopy vpath])
        | .ok none => (.ok none, [parserpathCopy vpath])
        | .ok (some a) =>
            match s.deref (some a) with
            | .error e => (.error e, [parserpathCopy vpath])
            | .ok n =>
                let below := searchlocLogged s fuel n.fold (removepath vpath)
                (below.1, parserpathCopy vpath :: removepathCopy vpath :: below.2)
      else (searchloc s (fuel + 1) temp vpath, [])

/-- `search` with its calls of `cstrcpy`. -/
def searchLogged (s : State) (vpath : CString) : Except Fault (Option Addr) × List Copy :=
  if vpath = home then (.ok s.head, [])
  else searchlocLogged s (vpath.bytes.length + 1) s.head vpath

/-! ## The log belongs to the search -/

theorem searchlocLogged_fst (s : State) (fuel : ℕ) (temp : Option Addr) (p : CString) :
    (searchlocLogged s fuel temp p).1 = searchloc s fuel temp p := by
  induction fuel generalizing temp p with
  | zero => rfl
  | succ fuel ih =>
    rw [searchlocLogged]
    by_cases nested : findfch p.bytes slash ≠ -1
    · rw [if_pos nested, searchloc, if_pos nested]
      cases searchsiblings s (parserpath p) (s.brk + 1) temp with
      | error e => rfl
      | ok found =>
        cases found with
        | none => rfl
        | some a =>
          simp only [bind, Except.bind]
          cases s.deref (some a) with
          | error e => rfl
          | ok n => exact ih n.fold (removepath p)
    · rw [if_neg nested]

theorem searchLogged_fst (s : State) (p : CString) : (searchLogged s p).1 = search s p := by
  unfold searchLogged search
  split_ifs
  · rfl
  · exact searchlocLogged_fst s _ s.head p

/-! ## One call -/

section Call

variable {c : Copy} {p d r : CString}

theorem length_cstrcpy (m : List Byte) (start : ℕ) (ilen : ℤ) :
    (cstrcpy m start ilen).length = if ilen ≠ 0 then (ilen + 1).toNat else (cstr m).length := by
  unfold cstrcpy
  split_ifs <;> simp

/-- A copy that fits the array stays inside its source if and only if it copies nothing or ends no
later than with the terminator. -/
theorem Copy.inside_iff {n : ℕ} (copied : (cstrcpy c.stemp.bytes c.start c.ilen).length = n)
    (within : n ≤ c.stemp.bytes.length) (fits : n < MAX_PATH) :
    c.Inside ↔ n = 0 ∨ c.start + n ≤ c.stemp.bytes.length + 1 := by
  unfold Inside accesses
  rw [copied]
  constructor
  · intro inside
    by_cases none_ : n = 0
    · exact Or.inl none_
    · right
      have last : c.Within (.read (c.start + (n - 1))) := by
        apply inside
        dsimp only
        split_ifs
        all_goals
          apply List.mem_append_left
          apply List.mem_flatMap.2
          exact ⟨n - 1, List.mem_range.2 (by omega), by simp⟩
      unfold Within at last
      omega
  · intro ends a ha
    have reads : ∀ i < n, c.start + i ≤ c.stemp.bytes.length := by
      intro i hi
      omega
    dsimp only at ha
    split_ifs at ha
    all_goals
      rcases List.mem_append.1 ha with loop | closing
      · obtain ⟨i, hi, mem⟩ := List.mem_flatMap.1 loop
        rw [List.mem_range] at hi
        have := reads i hi
        simp only [List.mem_cons, List.not_mem_nil, or_false] at mem
        rcases mem with rfl | rfl | rfl <;> (unfold Within; omega)
      · simp only [List.mem_cons, List.not_mem_nil, or_false] at closing
        rcases closing with rfl | rfl <;> (unfold Within; omega)

theorem SplitsFirst.findfch_eq (split : SplitsFirst p d r) :
    findfch p.bytes slash = d.bytes.length + 1 := by
  obtain ⟨rfl, first⟩ := split
  have noNul := (child d r).noNul
  rw [bytes_child] at noNul ⊢
  exact findfch_split noNul first

theorem SplitsFirst.length_eq (split : SplitsFirst p d r) :
    p.bytes.length = d.bytes.length + 1 + r.bytes.length := by
  obtain ⟨rfl, -⟩ := split
  rw [bytes_child, List.length_append, List.length_cons]
  omega

/-- The path begins with a slash when nothing is in front of its first slash. -/
theorem SplitsFirst.head?_eq_slash_iff (split : SplitsFirst p d r) :
    p.bytes.head? = some slash ↔ d.bytes.length = 0 := by
  obtain ⟨rfl, first⟩ := split
  rw [bytes_child]
  cases hd : d.bytes with
  | nil => simp
  | cons b l =>
    have : b ≠ slash := by
      rintro rfl
      rw [hd] at first
      exact first List.mem_cons_self
    simpa using this

/-- The copy of the root folder name stays inside, also where it copies the whole path. -/
theorem parserpathCopy_inside (h : slash ∈ p.bytes) (short : p.bytes.length < MAX_PATH) :
    (parserpathCopy p).Inside := by
  obtain ⟨d, r, split⟩ := exists_splitsFirst h
  have length := split.length_eq
  have copied := length_cstrcpy p.bytes 0 (findfch p.bytes slash - 2)
  rw [cstr_of_noNul p.noNul, split.findfch_eq] at copied
  apply (Copy.inside_iff rfl _ _).2
  all_goals
    unfold parserpathCopy
    dsimp only
    rw [split.findfch_eq, copied]
    split_ifs <;> omega

/-- The copy of the rest of the path reads past the terminator by the length of the root folder
name. -/
theorem removepathCopy_inside_iff (h : slash ∈ p.bytes) (short : p.bytes.length < MAX_PATH) :
    (removepathCopy p).Inside ↔ p.bytes.head? = some slash := by
  obtain ⟨d, r, split⟩ := exists_splitsFirst h
  have length := split.length_eq
  have copied := length_cstrcpy p.bytes (findfch p.bytes slash).toNat 0
  rw [if_neg (by simp), cstr_of_noNul p.noNul] at copied
  rw [Copy.inside_iff copied (Nat.le_refl _) short, split.head?_eq_slash_iff]
  unfold removepathCopy
  dsimp only
  rw [split.findfch_eq]
  omega

end Call

/-! ## A whole search -/

/-- On a level of the search from `temp` for `vpath`, the sibling loop finds a node for a path that
does not begin with a slash. -/
inductive Overreads (s : State) : Option Addr → CString → Prop
  | here {temp : Option Addr} {vpath : CString} {a : Addr} (nested : slash ∈ vpath.bytes)
      (found : searchsiblings s (parserpath vpath) (s.brk + 1) temp = .ok (some a))
      (skips : vpath.bytes.head? ≠ some slash) : Overreads s temp vpath
  | deeper {temp : Option Addr} {vpath : CString} {a : Addr} {n : Node}
      (nested : slash ∈ vpath.bytes)
      (found : searchsiblings s (parserpath vpath) (s.brk + 1) temp = .ok (some a))
      (cell : s.heap a = some n) (later : Overreads s n.fold (removepath vpath)) :
      Overreads s temp vpath

section Run

variable {s : State} {temp : Option Addr} {p : CString}

theorem Overreads.nested (h : Overreads s temp p) : slash ∈ p.bytes := by
  cases h with
  | here nested => exact nested
  | deeper nested => exact nested

/-- Nothing is read past a terminator without a node that the sibling loop finds. -/
theorem Overreads.found (h : Overreads s temp p) :
    ∃ a, searchsiblings s (parserpath p) (s.brk + 1) temp = .ok (some a) := by
  cases h with
  | here _ found => exact ⟨_, found⟩
  | deeper _ found => exact ⟨_, found⟩

theorem overreads_iff {a : Addr} {n : Node} (nested : slash ∈ p.bytes)
    (found : searchsiblings s (parserpath p) (s.brk + 1) temp = .ok (some a))
    (cell : s.heap a = some n) :
    Overreads s temp p ↔ p.bytes.head? ≠ some slash ∨ Overreads s n.fold (removepath p) := by
  constructor
  · intro h
    cases h with
    | here _ _ skips => exact Or.inl skips
    | deeper _ found' cell' later =>
      right
      rw [found] at found'
      cases found'
      rw [cell] at cell'
      cases cell'
      exact later
  · rintro (skips | later)
    · exact .here nested found skips
    · exact .deeper nested found cell later

/-- The node that the sibling loop returns has been dereferenced. -/
theorem searchsiblings_cell {v : CString} {fuel : ℕ} {a : Addr}
    (found : searchsiblings s v fuel temp = .ok (some a)) : ∃ n, s.heap a = some n := by
  induction fuel generalizing temp with
  | zero => cases found
  | succ fuel ih =>
    cases temp with
    | none => cases found
    | some b =>
      rw [searchsiblings] at found
      obtain ⟨n, read, rest⟩ := bind_eq_ok.1 found
      split_ifs at rest with named
      · cases rest
        obtain ⟨_, same, cell⟩ := deref_eq_ok read
        cases same
        exact ⟨n, cell⟩
      · exact ih rest

/-! The log of one level. -/

theorem searchlocLogged_plain {fuel : ℕ} (plain : slash ∉ p.bytes) :
    (searchlocLogged s fuel temp p).2 = [] := by
  cases fuel with
  | zero => rfl
  | succ fuel =>
    rw [searchlocLogged, if_neg]
    intro h
    exact plain ((findfch_ne_neg_one p.noNul).1 h)

theorem searchlocLogged_lost {fuel : ℕ} (nested : slash ∈ p.bytes)
    (lost : ∀ a, searchsiblings s (parserpath p) (s.brk + 1) temp ≠ .ok (some a)) :
    (searchlocLogged s (fuel + 1) temp p).2 = [parserpathCopy p] := by
  rw [searchlocLogged, if_pos ((findfch_ne_neg_one p.noNul).2 nested)]
  cases h : searchsiblings s (parserpath p) (s.brk + 1) temp with
  | error e => rfl
  | ok r =>
    cases r with
    | none => rfl
    | some a => exact absurd h (lost a)

theorem searchlocLogged_found {fuel : ℕ} {a : Addr} {n : Node} (nested : slash ∈ p.bytes)
    (found : searchsiblings s (parserpath p) (s.brk + 1) temp = .ok (some a))
    (cell : s.heap a = some n) :
    (searchlocLogged s (fuel + 1) temp p).2 =
      parserpathCopy p :: removepathCopy p ::
        (searchlocLogged s fuel n.fold (removepath p)).2 := by
  have read : s.deref (some a) = .ok n := by simp [State.deref, cell]
  rw [searchlocLogged, if_pos ((findfch_ne_neg_one p.noNul).2 nested), found]
  dsimp only
  rw [read]

/-- One level and the levels below it, whose paths are shorter. -/
theorem searchlocLogged_inside_iff {fuel : ℕ} (enough : p.bytes.length < fuel)
    (short : p.bytes.length < MAX_PATH) :
    (∀ c ∈ (searchlocLogged s fuel temp p).2, c.Inside) ↔ ¬ Overreads s temp p := by
  induction fuel generalizing temp p with
  | zero => omega
  | succ fuel ih =>
    by_cases nested : slash ∈ p.bytes
    · have root := parserpathCopy_inside nested short
      by_cases hit : ∃ a, searchsiblings s (parserpath p) (s.brk + 1) temp = .ok (some a)
      · obtain ⟨a, found⟩ := hit
        obtain ⟨n, cell⟩ := searchsiblings_cell found
        have shorter := removepath_length nested
        have rest := @ih n.fold (removepath p) (by omega) (by omega)
        rw [searchlocLogged_found nested found cell, overreads_iff nested found cell, not_or,
          not_not, ← rest, ← removepathCopy_inside_iff nested short, List.forall_mem_cons,
          List.forall_mem_cons]
        exact and_iff_right root
      · rw [searchlocLogged_lost nested (not_exists.1 hit), List.forall_mem_singleton]
        exact iff_of_true root fun h => hit h.found
    · rw [searchlocLogged_plain nested]
      exact iff_of_true (fun _ h => absurd h List.not_mem_nil) fun h => nested h.nested

theorem searchLogged_inside_iff (short : p.bytes.length < MAX_PATH) :
    (∀ c ∈ (searchLogged s p).2, c.Inside) ↔ ¬ Overreads s s.head p := by
  unfold searchLogged
  split_ifs with root
  · subst root
    refine iff_of_true (fun _ h => absurd h List.not_mem_nil) fun h => ?_
    exact absurd h.nested (by decide)
  · exact searchlocLogged_inside_iff (Nat.lt_succ_self _) short

end Run

/-! ## The trees of the program -/

section Trees

variable {s : State} {l : List Item} {p : CString}

/-- The root folder has no siblings. -/
theorem Chain.searchsiblings_head (c : Chain s l) (v : CString) :
    searchsiblings s v (s.brk + 1) s.head = .ok (if v = home then s.head else none) := by
  obtain ⟨r, t, hr, rootName, rootFolder⟩ := c.rooted
  have enough := c.enough (List.suffix_refl l)
  rw [c.head, c.searchsiblings_eq (a := []) v rfl enough, hr, walk, rootName, if_pos rootFolder]
  by_cases named : v = home
  · subst named
    rw [if_pos rfl, if_pos rfl]
    rfl
  · rw [if_neg named, if_neg (Ne.symm named)]
    rfl

/-- Only a path below the root folder gets past the first level, and there it is read too far. -/
theorem Chain.overreads_iff (c : Chain s l) : Overreads s s.head p ↔ ∃ r, p = child home r := by
  constructor
  · intro h
    obtain ⟨a, found⟩ := h.found
    rw [c.searchsiblings_head] at found
    split_ifs at found with named
    · obtain ⟨d, r, rfl, plain⟩ := eq_child h.nested
      obtain ⟨rfl, -⟩ := parserpath_child_plain plain named (by decide)
      exact ⟨r, rfl⟩
    · cases found
  · rintro ⟨r, rfl⟩
    obtain ⟨x, t, hr, -⟩ := c.rooted
    have named : parserpath (child home r) = home := by
      rw [parserpath_child (by decide), if_neg (by decide)]
    have head : s.head = some x.addr := by
      rw [c.head, hr]
      rfl
    apply Overreads.here (a := x.addr) (slash_mem_child home r)
    · rw [c.searchsiblings_head, named, if_pos rfl, head]
    · have begins : home.bytes.head? = some 104 := by decide
      rw [bytes_child, List.head?_append, begins, Option.some_or]
      decide

/-- All the copies that a search makes stay inside their strings if and only if on none of its
levels the sibling loop finds a node for a path that does not begin with a slash.  In a tree that
calls have built this means that the path does not lead below the root folder. -/
theorem search_copies_inside_iff (s : State) (p : CString) (short : p.bytes.length < MAX_PATH) :
    ((∀ c ∈ (searchLogged s p).2, c.Inside) ↔ ¬ Overreads s s.head p) ∧
      ∀ junk ops, runOps ops (initialTree junk) = .ok s →
        ((∀ c ∈ (searchLogged s p).2, c.Inside) ↔ ∀ r, p ≠ child home r) := by
  refine ⟨searchLogged_inside_iff short, fun junk ops returned => ?_⟩
  obtain ⟨l, i, -⟩ := (ninitialize_sound junk).runOps returned
  rw [searchLogged_inside_iff short, i.toChain.overreads_iff, not_exists]

theorem oneFolder_chain : ∃ l, Chain oneFolder l :=
  let ⟨l, i, _⟩ := (ninitialize_sound fun _ => 0).runOps (runOps_stateAfter (by decide))
  ⟨l, i.toChain⟩

/-- The search for a folder in the root folder reads four characters too far. -/
theorem search_copies_folder : ¬ ∀ (s : State) (p : CString), p.bytes.length < MAX_PATH →
    ∀ c ∈ (searchLogged s p).2, c.Inside := by
  intro inside
  obtain ⟨l, c⟩ := oneFolder_chain
  have here := inside oneFolder (.lit "home/fold1") (by decide)
  apply (searchLogged_inside_iff (by decide)).1 here
  exact c.overreads_iff.2 ⟨.lit "fold1", by decide⟩

/-- From a path below another root folder one copy is made. -/
theorem search_copies_elsewhere :
    (searchLogged oneFolder (.lit "etc/fold1")).2 = [parserpathCopy (.lit "etc/fold1")] ∧
      ∀ c ∈ (searchLogged oneFolder (.lit "etc/fold1")).2, c.Inside := by
  obtain ⟨l, c⟩ := oneFolder_chain
  have lost : ∀ a, searchsiblings oneFolder (parserpath (.lit "etc/fold1")) (oneFolder.brk + 1)
      oneFolder.head ≠ .ok (some a) := by
    intro a found
    rw [c.searchsiblings_head, if_neg (by decide)] at found
    cases found
  constructor
  · rw [searchLogged, if_neg (by decide)]
    exact searchlocLogged_lost (by decide) lost
  · apply (search_copies_inside_iff _ _ (by decide)).1.2
    intro h
    obtain ⟨a, found⟩ := h.found
    exact lost a found

end Trees

end DistFs.NameSpace
