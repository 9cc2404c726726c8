import DistFs.NameSpace.Arrays
import DistFs.NameSpace.Descent
import DistFs.NameSpace.Invariant

/-!
# When an insertion is lossless

An insertion into the folder that `p` names should make the new node answer to `p/n` and leave every
path that resolved before as it was.  `addnode` hangs the new node behind the last child of the
folder, and when that child is a folder itself, the new node becomes its only child: what the child
contained is lost, and the new node is not found under its path.
-/

namespace DistFs.NameSpace

open CText Links

section Insertion

variable {α : Type*} {name : α → CString} {folder : α → Bool}

/-- What `search` does with the path of an entry `n` of `p`. -/
theorem find_child {n : CString} (plain : slash ∉ n.bytes) (l : List α) (p : CString) :
    find name folder l (child p n) =
      match descent name folder (steps (child p n)) l with
      | none => .ok none
      | some (f, t) => lookupLast name folder l n (childrenOf folder f t) := by
  obtain ⟨-, last⟩ := steps_child_length plain p
  rw [find, if_neg (child_ne_home p n), lookup, enter_eq_descent (steps_child_ne_nil p n), last]
  cases descent name folder (steps (child p n)) l <;> rfl

/-- A new last sibling is found behind files of other names. -/
theorem walk_new_iff {t : List α} {new : α} {n : CString} (named : name new = n) (out : new ∉ t) :
    (∃ r, walk name folder n (t ++ [new]) = some (new, r)) ↔
      ∀ y ∈ t, folder y = false ∧ name y ≠ n := by
  constructor
  · rintro ⟨r, h⟩
    obtain ⟨-, a, hl, ha⟩ := walk_split h
    obtain ⟨rfl, -⟩ := (List.append_cons_inj_of_notMem out List.not_mem_nil).1 hl
    exact ha
  · intro h
    exact ⟨[], by simp [walk_append_left h, walk, named]⟩

theorem lookupLast_new_iff {k s : List α} {root new : α} {n : CString}
    (rootFolder : folder root = true) (named : name new = n) (proper : n ≠ home)
    (out : new ∉ root :: k) (s_out : new ∉ s) :
    (∃ t, lookupLast name folder (root :: k ++ [new]) n (s ++ [new]) = .ok (some (new, t))) ↔
      ∀ y ∈ if ∃ y ∈ s.head?, name y = home then k else s, folder y = false ∧ name y ≠ n := by
  have top : topLevel folder (root :: k ++ [new]) = k ++ [new] := by
    simp [topLevel, childrenOf, rootFolder]
  have k_out : new ∉ k := fun h => out (by simp [h])
  unfold lookupLast
  rw [if_neg proper, top]
  cases s with
  | nil =>
    simp [walk, named, proper]
  | cons y s =>
    simp only [List.cons_append, List.head?_cons, Option.mem_def, Option.some.injEq,
      exists_eq_left', Except.ok.injEq]
    split_ifs
    · exact walk_new_iff named k_out
    · exact walk_new_iff named s_out

/-- A new node at the end of the chain is found when the names of its path lead to the last folder,
unless a child called `home` in front of it sends the search to the top level. -/
theorem find_new_iff {k s : List α} {root f new : α} {p n : CString}
    (rootFolder : folder root = true) (out : new ∉ root :: k) (nodup : (root :: k).Nodup)
    (named : name new = n) (plain : slash ∉ n.bytes) (proper : n ≠ home)
    (hf : f :: s <:+ root :: k) (isFolder : folder f = true) (files : ∀ y ∈ s, folder y = false)
    (unused : ∀ y ∈ s, name y ≠ n) :
    (∃ t, find name folder (root :: k ++ [new]) (child p n) = .ok (some (new, t))) ↔
      descent name folder (steps (child p n)) (root :: k) = some (f, s) ∧
        (f = root ∨ ∀ y ∈ s.head?, name y ≠ home) := by
  rw [find_child plain]
  have s_out : new ∉ s := fun h => out (hf.subset (by simp [h]))
  constructor
  · rintro ⟨t, h⟩
    cases longer : descent name folder (steps (child p n)) (root :: k ++ [new]) with
    | none =>
      rw [longer] at h
      cases h
    | some q =>
      obtain ⟨g, r⟩ := q
      rw [longer] at h
      have below : childrenOf folder g r ≠ [] := by
        intro empty
        simp [lookupLast, proper, empty] at h
      have g_folder : folder g = true := by
        by_contra file
        simp [childrenOf, file] at below
      simp only [childrenOf, g_folder, if_true] at h below
      obtain ⟨r, rfl, hd⟩ := descent_append_one longer below
      have hg := descent_suffix hd
      have r_out : new ∉ r := fun h => out (hg.subset (by simp [h]))
      have between := (lookupLast_new_iff rootFolder named proper out r_out).1 ⟨t, h⟩
      split_ifs at between with restart
      · -- All nodes below the root are files, so `g` is the root.
        have whole : root :: k <:+ root :: k := List.suffix_refl _
        have k_files := fun y hy => (between y hy).1
        obtain rfl : g = root := by
          rcases List.mem_cons.1 (hg.subset (by simp : g ∈ g :: r)) with h | h
          · exact h
          · simp [k_files g h] at g_folder
        obtain ⟨rfl, rfl⟩ := last_folder_unique hf whole isFolder rootFolder files k_files
        obtain rfl := suffix_cons_self nodup hg
        exact ⟨hd, .inl rfl⟩
      · obtain ⟨rfl, rfl⟩ := last_folder_unique hf hg isFolder g_folder files fun y hy => (between y hy).1
        exact ⟨hd, .inr fun y hy isHome => restart ⟨y, hy, isHome⟩⟩
  · rintro ⟨hd, first⟩
    rw [descent_append hd [new]]
    simp only [childrenOf, isFolder, if_true]
    rw [lookupLast_new_iff rootFolder named proper out s_out]
    split_ifs with restart
    · -- Only below the root may a child be called `home`.
      obtain ⟨y, hy, isHome⟩ := restart
      obtain rfl := first.resolve_right fun h => h y hy isHome
      rw [← suffix_cons_self nodup hf]
      exact fun y hy => ⟨files y hy, unused y hy⟩
    · exact fun y hy => ⟨files y hy, unused y hy⟩

/-! ## Cutting the chain behind a folder -/

/-- Behind a folder the chain does not matter to a walk that starts before it. -/
theorem walk_behind {v : CString} {b r : List α} {u x : α} {y : List α} (isFolder : folder u = true)
    (h : walk name folder v (b ++ u :: r) = some (x, y)) (m : List α) :
    (x = u ∧ y = r ∧ walk name folder v (b ++ u :: m) = some (u, m)) ∨
      ∃ b', y = b' ++ u :: r ∧ walk name folder v (b ++ u :: m) = some (x, b' ++ u :: m) := by
  induction b with
  | nil =>
    simp only [List.nil_append, walk, isFolder, if_true, Option.ite_none_right_eq_some,
      Option.some.injEq, Prod.mk.injEq] at h ⊢
    obtain ⟨named, rfl, rfl⟩ := h
    exact .inl ⟨rfl, rfl, by simp [named]⟩
  | cons z b ih =>
    simp only [List.cons_append, walk] at h ⊢
    split_ifs at h ⊢
    · simp only [Option.some.injEq, Prod.mk.injEq] at h
      obtain ⟨rfl, rfl⟩ := h
      exact .inr ⟨b, rfl, rfl⟩
    · exact ih h

/-- The last name is found whatever stands behind the folder `u`. -/
theorem lookupLast_behind {a b r m : List α} {root u x : α} {y : List α} {v : CString}
    (rootFolder : folder root = true) (isFolder : folder u = true) (proper : v ≠ home)
    (h : lookupLast name folder (root :: a ++ u :: r) v (b ++ u :: r) = .ok (some (x, y))) :
    ∃ y', lookupLast name folder (root :: a ++ u :: m) v (b ++ u :: m) = .ok (some (x, y')) := by
  have top (r : List α) : topLevel folder (root :: (a ++ u :: r)) = a ++ u :: r := by
    simp [topLevel, childrenOf, rootFolder]
  have found {b : List α} (h : walk name folder v (b ++ u :: r) = some (x, y)) :
      ∃ y', walk name folder v (b ++ u :: m) = some (x, y') := by
    obtain ⟨rfl, -, h⟩ | ⟨b', -, h⟩ := walk_behind isFolder h m
    · exact ⟨_, h⟩
    · exact ⟨_, h⟩
  unfold lookupLast at h ⊢
  rw [if_neg proper] at h ⊢
  cases b with
  | nil =>
    simp only [List.nil_append, List.cons_append, top, Except.ok.injEq] at h ⊢
    split_ifs at h ⊢
    · exact found h
    · exact found (b := []) h
  | cons z b =>
    simp only [List.cons_append, top, Except.ok.injEq] at h ⊢
    split_ifs at h ⊢
    · exact found h
    · exact found (b := z :: b) h

theorem root_behind {l l' y : List α} {root x : α} (h : NameSpace.root (root :: l) = some (x, y)) :
    ∃ y', NameSpace.root (root :: l') = some (x, y') := by
  obtain ⟨rfl, -⟩ := Prod.mk.inj (Option.some.inj h)
  exact ⟨l', rfl⟩

/-- Along the path `q` the search looks for the names `vs` and is left with `w`. -/
inductive Leads : List CString → CString → CString → Prop
  | nil {q : CString} : Leads [] q q
  | cons {vs : List CString} {q w : CString} : slash ∈ q.bytes → Leads vs (removepath q) w →
      Leads (parserpath q :: vs) q w

/-- Whatever is found is found whatever stands behind the folder `u`, or it is found below `u`. -/
theorem lookup_behind {a b r m : List α} {root u x : α} {y : List α} {q : CString}
    (rootFolder : folder root = true) (isFolder : folder u = true)
    (h : lookup name folder (root :: a ++ u :: r) (b ++ u :: r) q = .ok (some (x, y))) :
    (∃ y', lookup name folder (root :: a ++ u :: m) (b ++ u :: m) q = .ok (some (x, y'))) ∨
      ∃ vs w, Leads vs q w ∧ descent name folder vs (b ++ u :: r) = some (u, r) ∧
        lookup name folder (root :: a ++ u :: r) r w = .ok (some (x, y)) := by
  have atHome {t t' : List α}
      (h : lookup name folder (root :: a ++ u :: r) t home = .ok (some (x, y))) :
      ∃ y', lookup name folder (root :: a ++ u :: m) t' home = .ok (some (x, y')) := by
    rw [lookup_home] at h ⊢
    obtain ⟨y', h⟩ := root_behind (Except.ok.inj h)
    exact ⟨y', congrArg Except.ok h⟩
  fun_induction steps q generalizing b with
  | case1 p hp ih =>
    rw [lookup_of_mem hp] at h ⊢
    cases hw : walk name folder (parserpath p) (b ++ u :: r) with
    | none => simp [hw] at h
    | some z =>
      obtain ⟨z, t⟩ := z
      simp only [hw] at h
      obtain ⟨rfl, rfl, -⟩ | ⟨b', rfl, hw'⟩ := walk_behind isFolder hw m
      · right
        simp only [childrenOf, isFolder, if_true] at h
        exact ⟨[parserpath p], removepath p, .cons hp .nil, hw, h⟩
      · simp only [hw', childrenOf] at h ⊢
        split_ifs at h ⊢ with below
        · refine (ih h).imp_right ?_
          rintro ⟨vs, w, leads, hd, found⟩
          have more : vs ≠ [] := by
            rintro rfl
            cases hd
          refine ⟨_, w, .cons hp leads, ?_, found⟩
          simpa [descent_cons more, hw, childrenOf, below] using hd
        · have atEnd := lookup_childless h
          rw [atEnd] at h ⊢
          exact .inl (atHome h)
  | case2 p hp =>
    left
    by_cases atEnd : p = home
    · rw [atEnd] at h ⊢
      exact atHome h
    · rw [lookup_of_not_mem hp] at h ⊢
      exact lookupLast_behind rootFolder isFolder atEnd h

/-- The same of a path from the root. -/
theorem find_behind {a r m : List α} {root u x : α} {y : List α} {q : CString}
    (rootFolder : folder root = true) (isFolder : folder u = true)
    (h : find name folder (root :: a ++ u :: r) q = .ok (some (x, y))) :
    (∃ y', find name folder (root :: a ++ u :: m) q = .ok (some (x, y'))) ∨
      ∃ vs w, Leads vs q w ∧ descent name folder vs (root :: a ++ u :: r) = some (u, r) ∧
        lookup name folder (root :: a ++ u :: r) r w = .ok (some (x, y)) := by
  unfold find at h ⊢
  split_ifs at h ⊢
  · obtain ⟨y', h⟩ := root_behind (Except.ok.inj h)
    exact .inl ⟨y', congrArg Except.ok h⟩
  · exact lookup_behind rootFolder isFolder h

/-! ## Paths that lead past their folder -/

/-- The first name must be that of the root, which has no siblings. -/
theorem descent_root {root x : α} {k y : List α} {v : CString} {vs : List CString}
    (rootFolder : folder root = true) (h : descent name folder (v :: vs) (root :: k) = some (x, y)) :
    v = name root ∧ (vs ≠ [] → descent name folder vs k = some (x, y)) := by
  have hw : walk name folder v (root :: k) = if name root = v then some (root, k) else none := by
    simp [walk, rootFolder]
  by_cases more : vs = []
  · subst more
    rw [descent, hw] at h
    split_ifs at h with named
    exact ⟨named.symm, fun h => absurd rfl h⟩
  · rw [descent_cons more, hw] at h
    split_ifs at h with named
    · refine ⟨named.symm, fun _ => ?_⟩
      simpa [childrenOf, rootFolder] using h
    · cases h

/-- The paths that name a folder out of turn: the root by a final `home`, or a folder of the top
level by the name of its own, behind a child called `home`. -/
def OutOfTurn (p : CString) : Prop :=
  p = child home home ∨ ∃ v, slash ∉ v.bytes ∧ v.bytes.length ≠ 1 ∧ p = child home (child v v)

/-- A last name that is looked up at the top level names the folder that the names before it lead
into. -/
theorem path_of_topLevel {k r s : List α} {t u : α} {p n : CString} (t_folder : folder t = true)
    (depth : (steps p).length = 1) (located : walk name folder (lastName p) k = some (t, s))
    (hd : descent name folder (steps (child p n)) k = some (u, r)) :
    ∃ v, slash ∉ v.bytes ∧ v.bytes.length ≠ 1 ∧ p = child v v := by
  have slashed : slash ∈ p.bytes := by
    by_contra flat
    simp [steps_of_not_mem flat] at depth
  obtain ⟨v, p, rfl, hv⟩ := eq_child slashed
  rw [steps_of_mem slashed, removepath_child hv, List.length_cons] at depth
  have flat : slash ∉ p.bytes := by
    rw [← steps_eq_nil_iff, ← List.length_eq_zero_iff]
    omega
  rw [lastName_of_mem slashed, removepath_child hv, lastName_of_not_mem flat] at located
  rw [child_assoc, steps_of_mem (slash_mem_child _ _), removepath_child hv,
    descent_cons (steps_child_ne_nil p n), Option.bind_eq_some_iff] at hd
  obtain ⟨⟨x, y⟩, hx, below⟩ := hd
  obtain ⟨named, a, hk, a_files⟩ := walk_split located
  obtain ⟨named', a', hk', a'_files⟩ := walk_split hx
  have x_folder : folder x = true := by
    by_contra file
    simpa [childrenOf, file] using (descent_suffix below).length_le
  obtain ⟨rfl, -⟩ := first_folder_unique (hk'.symm.trans hk) (fun y hy => (a'_files y hy).1)
    (fun y hy => (a_files y hy).1) x_folder t_folder
  obtain ⟨rfl, one⟩ := parserpath_child_plain hv (named'.symm.trans named) flat
  exact ⟨v, hv, one, rfl⟩

/-- The names of `p/n` can lead into the last child of the folder that `p` names only when that
folder was found out of turn. -/
theorem path_of_nested {c k m r : List α} {root t u : α} {p n : CString}
    (rooted : root :: k = c ++ t :: (m ++ u :: r)) (rootName : name root = home)
    (rootFolder : folder root = true) (t_folder : folder t = true) (u_folder : folder u = true)
    (files : ∀ y ∈ m, folder y = false) (more : r ≠ []) (plain : slash ∉ n.bytes)
    (located : find name folder (root :: k) p = .ok (some (t, m ++ u :: r)))
    (hd : descent name folder (steps (child p n)) (root :: k) = some (u, r)) : OutOfTurn p := by
  -- The nesting of `t` says how many slashes `p` has.
  have depth : (steps p).length = c.countP folder + 1 := by
    have nested : root :: k = (c ++ t :: m) ++ u :: r := by simp [rooted]
    have length := (steps_child_length plain p).1
    rw [descent_depth u_folder more (nested ▸ hd)] at length
    simp [countP_files files, t_folder] at length
    omega
  have slashed : slash ∈ p.bytes := by
    by_contra flat
    simp [steps_of_not_mem flat] at depth
  obtain ⟨v, p, rfl, hv⟩ := eq_child slashed
  rw [steps_of_mem slashed, removepath_child hv, List.length_cons] at depth
  rw [child_assoc, steps_of_mem (slash_mem_child _ _), removepath_child hv] at hd
  obtain ⟨first, rest⟩ := descent_root rootFolder hd
  obtain ⟨rfl, one⟩ := parserpath_child_plain hv (first.trans rootName) (by decide)
  rw [find, if_neg (child_ne_home _ _), lookup, lastName_of_mem slashed, removepath_child hv]
    at located
  cases he : enter name folder (steps (child home p)) (root :: k) with
  | none => simp [he] at located
  | some T =>
    rw [he] at located
    simp only [lookupLast] at located
    split_ifs at located with atHome
    · -- The path ends in `home`, so `t` is the root.
      left
      simp only [NameSpace.root, Except.ok.injEq, Option.some.injEq, Prod.mk.injEq] at located
      obtain ⟨rfl, rfl⟩ := located
      obtain rfl : c = [] := by
        have := congrArg List.length rooted
        simp at this
        exact this
      have flat : slash ∉ p.bytes := by
        rw [← steps_eq_nil_iff, ← List.length_eq_zero_iff]
        simpa using depth
      rw [lastName_of_not_mem flat] at atHome
      rw [atHome]
    · right
      cases T with
      | nil => simp at located
      | cons z T =>
        simp only [Except.ok.injEq] at located
        split_ifs at located with restart
        · -- The last name was looked up at the top level.
          have top : topLevel folder (root :: k) = k := by simp [topLevel, childrenOf, rootFolder]
          rw [top] at located
          obtain ⟨-, a, hk, a_files⟩ := walk_split located
          obtain rfl : c = root :: a := by
            apply List.append_cancel_right
            rw [← rooted, hk, List.cons_append]
          simp [countP_files fun y hy => (a_files y hy).1, rootFolder] at depth
          obtain ⟨w, hw, one, rfl⟩ := path_of_topLevel t_folder depth located
            (rest (steps_child_ne_nil p n))
          exact ⟨w, hw, one, rfl⟩
        · -- The last name was looked up among the children of the folder before `t`.
          obtain ⟨b, hb, count⟩ := enter_depth he (List.cons_ne_nil z T)
          obtain ⟨-, a, ha, a_files⟩ := walk_split located
          rw [ha, rooted, ← List.append_assoc] at hb
          obtain rfl := List.append_cancel_right hb
          rw [steps_of_mem slashed, removepath_child hv, List.length_cons] at count
          simp [countP_files fun y hy => (a_files y hy).1] at depth
          omega

/-- Below such a path the names of a longer path follow those of the folder. -/
theorem steps_of_nested {p n : CString} (plain : slash ∉ n.bytes) (nested : OutOfTurn p)
    (w : CString) :
    steps (child p w) = steps (child p n) ++ steps w ∧ lastName (child p w) = lastName w := by
  have flat : slash ∉ home.bytes := by decide
  have one : home.bytes.length ≠ 1 := by decide
  rcases nested with rfl | ⟨v, hv, hv₁, rfl⟩
  · simp [child_assoc, steps_child flat one, steps_of_not_mem plain]
  · simp [child_assoc, steps_child flat one, steps_child hv hv₁, steps_of_not_mem plain]

/-! ## The condition -/

theorem find_of_nested {l r : List α} {p n : CString} (plain : slash ∉ n.bytes)
    (nested : OutOfTurn p) (entered : enter name folder (steps (child p n)) l = some r) (w : CString) :
    find name folder l (child p w) = lookup name folder l r w := by
  obtain ⟨names, last⟩ := steps_of_nested plain nested w
  rw [find, if_neg (child_ne_home p w), lookup, names, last, enter_append_names, entered]
  rfl

/-- The last folder in front of the new node: the last child `u` of `x` when this is a folder, else
`x` itself. -/
theorem last_folder_of_attach {l a t r : List α} {x u : α} (hx : x :: t <:+ l)
    (isFolder : folder x = true) (attach : attachPoint folder x t = (u, r))
    (hl : l = a ++ u :: r) :
    ∃ s, (if folder u then u else x) :: s <:+ a ++ [u] ∧
      (∀ y ∈ s, y ∈ siblings folder t ∧ folder y = false) ∧ (r ≠ [] → folder u = true) ∧
      (folder u = true → s = []) := by
  obtain ⟨rfl, rfl, rfl⟩ | ⟨m, rfl, files, last⟩ := attachPoint_split isFolder attach
  · exact ⟨[], by simp [isFolder], by simp, by simp, by simp⟩
  by_cases u_folder : folder u = true
  · exact ⟨[], by simp [u_folder], by simp, fun _ => u_folder, fun _ => rfl⟩
  · obtain rfl := last (by simpa using u_folder)
    obtain ⟨c, hc⟩ := hx
    have ha : a = c ++ x :: m := by
      refine List.append_cancel_right (hl.symm.trans (hc.symm.trans ?_))
      simp
    have all_files : ∀ y ∈ m ++ [u], folder y = false := by
      simpa [or_imp, forall_and] using And.intro files (by simpa using u_folder)
    refine ⟨m ++ [u], ?_, fun y hy => ?_, fun h => absurd rfl h, fun h => absurd h u_folder⟩
    · rw [if_neg u_folder]
      exact ⟨c, by simp [ha]⟩
    · rw [siblings_of_files all_files]
      exact ⟨hy, all_files y hy⟩

/-- When an insertion into the folder `x` with the last child `u` is lossless, on the chain `l`: the
names of the new path lead to the folder that will contain the new node, this has no child called
`home` in front unless it is the root or loses its children, and no path `p/w` that fits its array
leads to anything below `u`, except to the root by a final `home`. -/
def SafeOn (name : α → CString) (folder : α → Bool) (root : α) (l : List α) (x u : α) (r : List α)
    (p n : CString) : Prop :=
  ∃ f y, f = (if folder u then u else x) ∧
    descent name folder (steps (child p n)) l = some (f, y) ∧
    (f = root ∨ folder u = true ∨ ∀ z ∈ y.head?, name z ≠ home) ∧
    ∀ w, w ≠ home → w ≠ child n home → (child p w).bytes.length < MAX_PATH →
      ∀ z, lookup name folder l (childrenOf folder u r) w ≠ .ok (some z)

/-- A plain name that the search looks for is the first component of the path. -/
theorem Leads.plain {v q w : CString} {vs : List CString} (leads : Leads (v :: vs) q w)
    (plain : slash ∉ v.bytes) : ∃ q', q = child v q' ∧ Leads vs q' w := by
  cases leads with
  | cons slashed rest =>
    obtain ⟨c, r, rfl, hc⟩ := eq_child slashed
    obtain ⟨same, -⟩ := parserpath_child_plain hc rfl plain
    rw [removepath_child hc] at rest
    exact ⟨r, by rw [← same], rest⟩

/-- A path along which the names of `p/n` are looked for begins with `p`. -/
theorem Leads.nested {p n q w : CString} (plain : slash ∉ n.bytes) (nested : OutOfTurn p)
    (leads : Leads (steps (child p n)) q w) : q = child p w := by
  have flat : slash ∉ home.bytes := by decide
  have one : home.bytes.length ≠ 1 := by decide
  rcases nested with rfl | ⟨v, hv, hv₁, rfl⟩
  · have names : steps (child (child home home) n) = [home, home] := by
      simp [child_assoc, steps_child flat one, steps_of_not_mem plain]
    rw [names] at leads
    obtain ⟨q₁, rfl, leads₁⟩ := leads.plain flat
    obtain ⟨q₂, rfl, leads₂⟩ := leads₁.plain flat
    cases leads₂
    rw [child_assoc]
  · have names : steps (child (child home (child v v)) n) = [home, v, v] := by
      simp [child_assoc, steps_child flat one, steps_child hv hv₁, steps_of_not_mem plain]
    rw [names] at leads
    obtain ⟨q₁, rfl, leads₁⟩ := leads.plain flat
    obtain ⟨q₂, rfl, leads₂⟩ := leads₁.plain hv
    obtain ⟨q₃, rfl, leads₃⟩ := leads₂.plain hv
    cases leads₃
    rw [child_assoc, child_assoc]

/-- Names that end in `home` are found at the root. -/
theorem lookup_atRoot {l t y : List α} {x : α} {n w : CString} (plain : slash ∉ n.bytes)
    (atRoot : w = home ∨ w = child n home)
    (h : lookup name folder l t w = .ok (some (x, y))) : NameSpace.root l = some (x, y) := by
  rcases atRoot with rfl | rfl
  · rw [lookup_home] at h
    exact Except.ok.inj h
  · rw [lookup_of_mem (slash_mem_child _ _), removepath_child plain] at h
    cases found : walk name folder (parserpath (child n home)) t with
    | none => simp [found] at h
    | some q =>
      simp only [found, lookup_home] at h
      exact Except.ok.inj h

/-- So they are from a new node on. -/
theorem lookup_new_atRoot {new : α} {w : CString} (plain : slash ∉ (name new).bytes)
    (one : (name new).bytes.length ≠ 1) (atRoot : w = home ∨ w = child (name new) home)
    (l : List α) : lookup name folder l [new] w = .ok (NameSpace.root l) := by
  rcases atRoot with rfl | rfl
  · exact lookup_home _ _
  · rw [lookup_of_mem (slash_mem_child _ _), parserpath_child plain, if_neg one,
      removepath_child plain]
    simp [walk, lookup_home]

/-- Nothing else but the new node is found there. -/
theorem lookup_new {l y : List α} {new x : α} {w : CString} (proper : name new ≠ home)
    (plain : slash ∉ (name new).bytes) (hw : w ≠ home)
    (h : lookup name folder l [new] w = .ok (some (x, y))) :
    x = new ∨ w = child (name new) home := by
  by_cases slashed : slash ∈ w.bytes
  · right
    obtain ⟨c, r, rfl, hc⟩ := eq_child slashed
    rw [lookup_of_mem slashed, removepath_child hc] at h
    by_cases same : name new = parserpath (child c r)
    · have childless : childrenOf folder new [] = [] := by simp [childrenOf]
      rw [walk, if_pos same] at h
      simp only [childless] at h
      rw [lookup_childless h, (parserpath_child_plain hc same.symm plain).1]
    · simp [walk, same] at h
  · left
    rw [lookup_of_not_mem slashed, lookupLast, if_neg hw] at h
    simp only [if_neg proper, walk, Except.ok.injEq] at h
    split_ifs at h
    exact (congrArg Prod.fst (Option.some.inj h)).symm

/-- When nothing else but the new node is found behind the last child `u`, what was found there by a
path that fits is found no more. -/
theorem dead_of_kept {l a r : List α} {u new : α} {p w : CString} (split : l = a ++ u :: r)
    (u_folder : folder u = true) (out : new ∉ l) (plain : slash ∉ (name new).bytes)
    (proper : name new ≠ home) (nested : OutOfTurn p)
    (hd : descent name folder (steps (child p (name new))) (a ++ [u]) = some (u, []))
    (kept : ∀ q x y, Arrays.Fits q → find name folder l q = .ok (some (x, y)) →
      ∃ y', find name folder (a ++ [u, new]) q = .ok (some (x, y')))
    (hw : w ≠ home) (atRoot : w ≠ child (name new) home) (fits : (child p w).bytes.length < MAX_PATH)
    (z : α × List α) : lookup name folder l r w ≠ .ok (some z) := by
  have entered (m : List α) : enter name folder (steps (child p (name new))) (a ++ u :: m) = some m := by
    have := descent_append hd m
    rw [List.append_assoc, List.singleton_append] at this
    rw [enter_eq_descent (steps_child_ne_nil p _), this]
    simp [childrenOf, u_folder]
  intro h
  obtain ⟨x, y⟩ := z
  rw [← find_of_nested plain nested (split ▸ entered r)] at h
  obtain ⟨y', after⟩ := kept _ _ _ (fun _ => fits) h
  rw [find_of_nested plain nested (entered [new])] at after
  rcases lookup_new proper plain hw after with rfl | same
  · exact out ((find_suffix h).subset List.mem_cons_self)
  · exact atRoot same

/-- What is found by a path that fits is found as before when only the root can be found behind the
last child `u`. -/
theorem kept_of_dead {l k a r y : List α} {root u new x : α} {p q : CString} (hl : l = root :: k)
    (rootFolder : folder root = true) (u_folder : folder u = true) (split : l = a ++ u :: r)
    (below : u ≠ root) (plain : slash ∉ (name new).bytes) (one : (name new).bytes.length ≠ 1)
    (nested : OutOfTurn p)
    (hd : descent name folder (steps (child p (name new))) l = some (u, r))
    (dead : ∀ w, w ≠ home → w ≠ child (name new) home → (child p w).bytes.length < MAX_PATH →
      ∀ z, lookup name folder l r w ≠ .ok (some z))
    (fits : Arrays.Fits q) (h : find name folder l q = .ok (some (x, y))) :
    ∃ y', find name folder (a ++ [u, new]) q = .ok (some (x, y')) := by
  obtain ⟨a, rfl⟩ : ∃ a', a = root :: a' := by
    cases a with
    | nil => exact absurd (List.cons.inj (hl.symm.trans split)).1.symm below
    | cons z a => exact ⟨a, by rw [(List.cons.inj (hl.symm.trans split)).1]⟩
  rw [split] at h hd dead
  obtain found | ⟨vs, w, leads, hv, found⟩ := find_behind (m := [new]) rootFolder u_folder h
  · exact found
  -- the path leads below `u`, so its names are those of the new path
  obtain rfl := descent_unique u_folder hv hd
  obtain rfl := leads.nested plain nested
  have atRoot : w = home ∨ w = child (name new) home := by
    by_contra other
    rw [not_or] at other
    exact dead w other.1 other.2 (fits (slash_mem_child p w)) _ found
  have entered : enter name folder (steps (child p (name new))) (root :: a ++ [u, new]) = some [new] := by
    have cut := descent_of_append (m := r) (t := root :: a ++ [u]) (r := []) (by simpa using hd)
    have := descent_append cut [new]
    rw [enter_eq_descent (steps_child_ne_nil p _)]
    simp only [List.append_assoc, List.singleton_append, List.nil_append] at this
    rw [this]
    simp [childrenOf, u_folder]
  have same := lookup_atRoot plain atRoot found
  obtain ⟨rfl, -⟩ := Prod.mk.inj (Option.some.inj same)
  rw [find_of_nested plain nested entered, lookup_new_atRoot plain one atRoot]
  exact ⟨_, rfl⟩

/-- A last child that loses its children was found out of turn. -/
theorem outOfTurn_of_cut {l k t r : List α} {root x u : α} {p n : CString} (hl : l = root :: k)
    (rootName : name root = home) (rootFolder : folder root = true) (nodup : l.Nodup)
    (located : find name folder l p = .ok (some (x, t))) (isFolder : folder x = true)
    (attach : attachPoint folder x t = (u, r)) (u_folder : folder u = true) (more : r ≠ [])
    (plain : slash ∉ n.bytes) (hd : descent name folder (steps (child p n)) l = some (u, r)) :
    u ≠ root ∧ OutOfTurn p := by
  obtain ⟨-, -, rfl⟩ | ⟨m, rfl, files, -⟩ := attachPoint_split isFolder attach
  · exact absurd rfl more
  obtain ⟨c, hc⟩ := find_suffix located
  refine ⟨?_, path_of_nested (hl.symm.trans hc.symm) rootName rootFolder isFolder u_folder files more
    plain (hl ▸ located) (hl ▸ hd)⟩
  rintro rfl
  rw [← hc] at nodup hl
  have : c = [] ∧ x = u := by
    cases c with
    | nil => exact ⟨rfl, (List.cons.inj hl).1⟩
    | cons z c =>
      obtain ⟨rfl, -⟩ := List.cons.inj hl
      simp at nodup
  obtain ⟨rfl, rfl⟩ := this
  simp at nodup

/-- The folder that will contain the new node, and what follows it on the chain, are known. -/
theorem safeOn_iff {l s r : List α} {root x u f : α} {p n : CString} (nodup : l.Nodup)
    (hf : (if folder u then u else x) = f) (whole : f :: (s ++ r) <:+ l) :
    SafeOn name folder root l x u r p n ↔
      descent name folder (steps (child p n)) l = some (f, s ++ r) ∧
        (f = root ∨ folder u = true ∨ ∀ z ∈ (s ++ r).head?, name z ≠ home) ∧
        ∀ w, w ≠ home → w ≠ child n home → (child p w).bytes.length < MAX_PATH →
          ∀ z, lookup name folder l (childrenOf folder u r) w ≠ .ok (some z) := by
  subst hf
  constructor
  · rintro ⟨g, y, rfl, hd, first, dead⟩
    obtain rfl := suffix_unique nodup (descent_suffix hd) whole
    exact ⟨hd, first, dead⟩
  · rintro ⟨hd, first, dead⟩
    exact ⟨_, _, rfl, hd, first, dead⟩

theorem lossless_iff {l k a t r : List α} {root x u new : α} {p n : CString} (hl : l = root :: k)
    (rootName : name root = home) (rootFolder : folder root = true) (nodup : l.Nodup)
    (located : find name folder l p = .ok (some (x, t))) (isFolder : folder x = true)
    (attach : attachPoint folder x t = (u, r)) (split : l = a ++ u :: r) (out : new ∉ l)
    (named : name new = n) (plain : slash ∉ n.bytes) (one : n.bytes.length ≠ 1) (proper : n ≠ home)
    (unused : ∀ y ∈ siblings folder t, name y ≠ n) :
    ((∃ y, find name folder (a ++ [u, new]) (child p n) = .ok (some (new, y))) ∧
      ∀ q x y, Arrays.Fits q → find name folder l q = .ok (some (x, y)) →
        ∃ y', find name folder (a ++ [u, new]) q = .ok (some (x, y'))) ↔
      SafeOn name folder root l x u r p n := by
  obtain ⟨s, last, below, more_folder, alone⟩ :=
    last_folder_of_attach (find_suffix located) isFolder attach split
  have f_folder : folder (if folder u then u else x) = true := by
    split_ifs with h
    · exact h
    · exact isFolder
  generalize hf : (if folder u then u else x) = f at last f_folder
  obtain ⟨k', hk'⟩ : ∃ k', a ++ [u] = root :: k' := by
    rw [hl] at split
    cases a with
    | nil => exact ⟨[], by rw [(List.cons.inj split).1]; rfl⟩
    | cons z a => exact ⟨a ++ [u], by rw [(List.cons.inj split).1]; rfl⟩
  have front : l = root :: k' ++ r := by rw [split, ← hk']; simp
  have new_out : new ∉ root :: k' := fun h => out (front ▸ List.mem_append_left r h)
  have front_nodup : (root :: k').Nodup := (front ▸ nodup).of_append_left
  have append : a ++ [u, new] = root :: k' ++ [new] := by rw [← hk']; simp
  have whole : f :: (s ++ r) <:+ l := by
    obtain ⟨b, hb⟩ := last
    exact ⟨b, by rw [front, ← hk', ← hb]; simp⟩
  have leads : descent name folder (steps (child p n)) l = some (f, s ++ r) ↔
      descent name folder (steps (child p n)) (root :: k') = some (f, s) := by
    rw [front]
    exact ⟨descent_of_append, fun hd => descent_append hd r⟩
  rw [append, find_new_iff rootFolder new_out front_nodup named plain proper (hk' ▸ last) f_folder
    (fun y hy => (below y hy).2) fun y hy => unused y (below y hy).1,
    safeOn_iff nodup hf whole, leads, and_assoc]
  refine and_congr_right fun hd => ?_
  by_cases more : r = []
  · -- nothing is cut off, so only the child in front matters
    subst more
    have childless : childrenOf folder u [] = [] := by simp [childrenOf]
    rw [List.append_nil] at front ⊢
    rw [front, childless]
    refine ⟨fun h => ⟨h.1.imp_right .inr, fun w hw _ _ z found => hw (lookup_childless found)⟩,
      fun h => ⟨?_, fun q x y _ found => ⟨_, find_append found [new]⟩⟩⟩
    rcases h.1 with isRoot | u_folder | first
    · exact .inl isRoot
    · rw [alone u_folder]
      exact .inr (by simp)
    · exact .inr first
  · -- the new node is the only child, in place of those that are cut off
    have u_folder := more_folder more
    obtain rfl := alone u_folder
    rw [if_pos u_folder] at hf
    subst hf named
    have whole_hd := leads.2 hd
    obtain ⟨under, nested⟩ := outOfTurn_of_cut hl rootName rootFolder nodup located isFolder attach
      u_folder more plain whole_hd
    rw [← append, childrenOf, if_pos u_folder]
    refine ⟨fun h => ⟨.inr (.inl u_folder), fun w => dead_of_kept split u_folder out plain proper
      nested (hk' ▸ hd) h.2⟩, fun h => ⟨.inr (by simp), fun q x y fits found => ?_⟩⟩
    exact kept_of_dead hl rootFolder u_folder split under plain one nested whole_hd h.2 fits found

end Insertion

/-! ## The tree in memory -/

/-- The children of the node at `t`: its `fold` node and the siblings of that. -/
inductive Child (s : State) (t : Addr) : Addr → Prop
  | fold {a : Addr} {n : Node} : s.heap t = some n → n.fold = some a → Child s t a
  | next {a b : Addr} {n : Node} : Child s t a → s.heap a = some n → n.next = some b → Child s t b

/-- The last child of the node at `t`, or that node itself when it has no child. -/
inductive LastChild (s : State) (t : Addr) : Addr → Prop
  | self {n : Node} : s.heap t = some n → n.fold = none → LastChild s t t
  | child {u : Addr} {n : Node} : Child s t u → s.heap u = some n → n.next = none → LastChild s t u

/-- The node that names lead to: each is looked for among the children of the node before. -/
def descend (s : State) : List CString → Option Addr → Except Fault (Option Addr)
  | [], _ => .ok none
  | [v], temp => searchsiblings s v (s.brk + 1) temp
  | v :: vs, temp => do
      match ← searchsiblings s v (s.brk + 1) temp with
      | none => return none
      | some a =>
          let n ← s.deref (some a)
          descend s vs n.fold

/-- A name that a new entry of the folder at `t` may get. -/
structure NewName (s : State) (t : Addr) (n : CString) : Prop where
  long : 2 ≤ n.bytes.length
  fits : n.bytes.length < MAX_PATH
  plain : slash ∉ n.bytes
  proper : n ≠ home
  unused : ∀ a m, Child s t a → s.heap a = some m → m.data.fname ≠ n

/-- The insertion `add` of `n` into the folder `p` returns, the new node answers to `p/n`, and every
path that was found before still leads to the same node. -/
def Lossless (s : State) (p n : CString) (add : State → Except Fault (Addr × State)) : Prop :=
  ∃ a s', add s = .ok (a, s') ∧ Arrays.search s' (child p n) = .ok (some a) ∧
    ∀ q b, Arrays.search s q = .ok (some b) → Arrays.search s' q = .ok (some b)

/-- When an insertion of `n` into the folder at `t`, found under `p`, is lossless.  The strings must
fit into their arrays.  The new node is linked to the last child `u`, and will be a child of `f`: of
`u` if that is a folder itself, else of `t`.  The names of `p/n` must lead to `f`; in front of the new
node, `f` must have no child called `home`, which would send the search to the top level; and nothing
may be found below `u`, which loses its children, except the root by a final `home`. -/
def Safe (s : State) (p n d : CString) (t : Addr) : Prop :=
  d.bytes.length < SERV_PATH ∧ (child p n).bytes.length < MAX_PATH ∧ s.nodeno < INT_MAX ∧
    ∃ u nu f nf, LastChild s t u ∧ s.heap u = some nu ∧ f = (if nu.data.dflag = 1 then u else t) ∧
      s.heap f = some nf ∧ descend s (steps (child p n)) s.head = .ok (some f) ∧
      (s.head = some f ∨ nu.data.dflag = 1 ∨
        ∀ a m, nf.fold = some a → s.heap a = some m → m.data.fname ≠ home) ∧
      ∀ w, w ≠ home → w ≠ child n home → (child p w).bytes.length < MAX_PATH →
        ∀ a, Arrays.searchloc s (w.bytes.length + 1) nu.fold w ≠ .ok (some a)

variable {s : State} {l : List Item}

namespace Chain

theorem child_iff (c : Chain s l) {a t : List Item} {x : Item} (hl : l = a ++ x :: t)
    (isFolder : x.folder = true) {b : Addr} :
    Child s x.addr b ↔ ∃ y ∈ siblings Item.folder t, y.addr = b := by
  constructor
  · intro h
    induction h with
    | fold hn hb =>
      obtain rfl := Option.some.inj (hn.symm.trans (c.cell_eq hl))
      simp only [Item.cell, isFolder, if_true] at hb
      cases t with
      | nil => simp at hb
      | cons y t => exact ⟨y, mem_siblings_iff.2 ⟨[], t, rfl, by simp⟩, Option.some.inj hb⟩
    | next _ hn hb ih =>
      obtain ⟨y, hy, rfl⟩ := ih
      obtain ⟨m, r, rfl, files⟩ := mem_siblings_iff.1 hy
      have hl' : l = (a ++ x :: m) ++ y :: r := by simp [hl]
      obtain rfl := Option.some.inj (hn.symm.trans (c.cell_eq hl'))
      simp only [Item.cell] at hb
      split_ifs at hb with y_folder
      cases r with
      | nil => simp at hb
      | cons z r =>
        refine ⟨z, mem_siblings_iff.2 ⟨m ++ [y], r, by simp, ?_⟩, Option.some.inj hb⟩
        simpa [or_imp, forall_and] using And.intro files (by simpa using y_folder)
  · rintro ⟨y, hy, rfl⟩
    obtain ⟨m, r, rfl, files⟩ := mem_siblings_iff.1 hy
    clear hy
    induction m using List.reverseRecOn generalizing y r with
    | nil => exact .fold (c.cell_eq hl) (by simp [Item.cell, isFolder])
    | append_singleton m z ih =>
      have hl' : l = (a ++ x :: m) ++ z :: y :: r := by simp [hl]
      have z_file := files z (by simp)
      have hz := ih z (y :: r) (fun w hw => files w (by simp [hw])) (by simp [hl])
      refine .next hz (c.cell_eq hl') ?_
      simp [Item.cell, z_file]

theorem lastChild_iff (c : Chain s l) {a t : List Item} {x : Item} (hl : l = a ++ x :: t)
    (isFolder : x.folder = true) {b : Addr} :
    LastChild s x.addr b ↔ b = (attachPoint Item.folder x t).1.addr := by
  obtain ⟨u, r, hu⟩ : ∃ u r, attachPoint Item.folder x t = (u, r) := ⟨_, _, rfl⟩
  rw [hu]
  have cell := c.cell_eq hl
  obtain ⟨rfl, rfl, rfl⟩ | ⟨m, rfl, files, atEnd⟩ := attachPoint_split isFolder hu
  · constructor
    · rintro (⟨hn, hf⟩ | ⟨child, -, -⟩)
      · rfl
      · obtain ⟨y, hy, -⟩ := (c.child_iff hl isFolder).1 child
        simp [siblings] at hy
    · rintro rfl
      exact .self cell (by simp [Item.cell])
  · have at_u : l = (a ++ x :: m) ++ u :: r := by simp [hl]
    have u_next : (u.cell (last Item.addr (a ++ x :: m) none) (start r)).next = none := by
      simp only [Item.cell]
      split_ifs with h
      · rfl
      · rw [atEnd (by simpa using h)]
        rfl
    constructor
    · rintro (⟨hn, hf⟩ | ⟨child, hn, hf⟩)
      · obtain rfl := Option.some.inj (hn.symm.trans cell)
        cases m <;> simp [Item.cell, isFolder] at hf
      · obtain ⟨y, hy, rfl⟩ := (c.child_iff hl isFolder).1 child
        obtain ⟨m', r', ht, files'⟩ := mem_siblings_iff.1 hy
        have at_y : l = (a ++ x :: m') ++ y :: r' := by simp [hl, ht]
        obtain rfl := Option.some.inj (hn.symm.trans (c.cell_eq at_y))
        refine congrArg Item.addr (last_sibling_unique ht files files' atEnd fun file => ?_).symm
        cases r' with
        | nil => rfl
        | cons z r' => simp [Item.cell, file] at hf
    · rintro rfl
      exact .child ((c.child_iff hl isFolder).2 ⟨u, mem_siblings_iff.2 ⟨m, r, rfl, files⟩, rfl⟩)
        (c.cell_eq at_u) u_next

theorem descend_eq (c : Chain s l) {a t : List Item} (hl : l = a ++ t) (vs : List CString) :
    descend s vs (start t) = .ok ((descent Item.name Item.folder vs t).map found) := by
  induction vs generalizing a t with
  | nil => rfl
  | cons v vs ih =>
    have enough : t.length < s.brk + 1 := c.enough (hl ▸ List.suffix_append a t)
    by_cases more : vs = []
    · subst more
      exact c.searchsiblings_eq v hl enough
    · obtain ⟨w, vs, rfl⟩ := List.exists_cons_of_ne_nil more
      rw [descent_cons more]
      simp only [descend, c.searchsiblings_eq v hl enough, bind, Except.bind]
      cases hw : walk Item.name Item.folder v t with
      | none => rfl
      | some q =>
        obtain ⟨x, r⟩ := q
        obtain ⟨-, b, rfl, -⟩ := walk_split hw
        have hx : l = (a ++ b) ++ x :: r := by simp [hl]
        obtain ⟨d, hd⟩ := childrenOf_suffix Item.folder x r
        simp only [Option.map_some, found, c.deref_eq hx, Item.cell, Option.bind_some]
        rw [← start_childrenOf x r]
        refine ih (a := a ++ b ++ x :: d) ?_
        simp [hl, hd]

theorem search_ok_iff (c : Chain s l) {q : CString} {b : Addr} :
    search s q = .ok (some b) ↔
      ∃ x y, find Item.name Item.folder l q = .ok (some (x, y)) ∧ x.addr = b := by
  rw [c.search_eq, map_eq_ok]
  constructor
  · rintro ⟨_ | ⟨x, y⟩, h, hb⟩
    · cases hb
    · exact ⟨x, y, h, Option.some.inj hb⟩
  · rintro ⟨x, y, h, rfl⟩
    exact ⟨_, h, rfl⟩

theorem arrays_search_iff (c : Chain s l) {q : CString} {b : Addr} :
    Arrays.search s q = .ok (some b) ↔
      Arrays.Fits q ∧ ∃ x y, find Item.name Item.folder l q = .ok (some (x, y)) ∧ x.addr = b := by
  rw [Arrays.search_some_iff, c.search_ok_iff, and_comm]

/-- Losslessness in terms of the chain. -/
theorem lossless_hang_iff (c : Chain s l) {a r : List Item} {u : Item} (hl : l = a ++ u :: r)
    (d : Datadef) {q : CString} (fits : Arrays.Fits q) :
    (Arrays.search (NameSpace.hang s d u) q = .ok (some s.brk) ∧
        ∀ q b, Arrays.search s q = .ok (some b) →
          Arrays.search (NameSpace.hang s d u) q = .ok (some b)) ↔
      (∃ y, find Item.name Item.folder (a ++ [u, newItem s d u]) q =
          .ok (some (newItem s d u, y))) ∧
        ∀ q x y, Arrays.Fits q → find Item.name Item.folder l q = .ok (some (x, y)) →
          ∃ y', find Item.name Item.folder (a ++ [u, newItem s d u]) q = .ok (some (x, y')) := by
  have c' := c.hang hl d
  have mem {q : CString} {x : Item} {y l : List Item}
      (h : find Item.name Item.folder l q = .ok (some (x, y))) : x ∈ l :=
    (find_suffix h).subset (by simp)
  constructor
  · rintro ⟨new, kept⟩
    refine ⟨?_, fun q x y fits h => ?_⟩
    · obtain ⟨-, x, y, h, hx⟩ := c'.arrays_search_iff.1 new
      have last : newItem s d u ∈ a ++ [u, newItem s d u] := by simp
      obtain rfl := c'.item_eq (mem h) last hx
      exact ⟨y, h⟩
    · obtain ⟨-, z, y', h', hz⟩ :=
        c'.arrays_search_iff.1 (kept q _ (c.arrays_search_iff.2 ⟨fits, x, y, h, rfl⟩))
      have old : z ∈ l := by
        have := mem h'
        simp only [List.mem_append, List.mem_cons, List.not_mem_nil, or_false] at this
        rcases this with hz' | rfl | rfl
        · simp [hl, hz']
        · simp [hl]
        · exact absurd hz (c.addr_lt (mem h)).ne'
      obtain rfl := c.item_eq old (mem h) hz
      exact ⟨y', h'⟩
  · rintro ⟨⟨y, new⟩, kept⟩
    refine ⟨c'.arrays_search_iff.2 ⟨fits, _, y, new, rfl⟩, fun q b h => ?_⟩
    obtain ⟨fits', x, y, found, rfl⟩ := c.arrays_search_iff.1 h
    obtain ⟨y', h'⟩ := kept q x y fits' found
    exact c'.arrays_search_iff.2 ⟨fits', x, y', h', rfl⟩

/-- Whether the children of `f` may begin with a node called `home`. -/
theorem first_child_iff (c : Chain s l) {a k t : List Item} {root f u : Item} (hl : l = root :: k)
    (hf : l = a ++ f :: t) (isFolder : f.folder = true) :
    (s.head = some f.addr ∨ u.data.dflag = 1 ∨
        ∀ b m, (f.cell (last Item.addr a none) (start t)).fold = some b → s.heap b = some m →
          m.data.fname ≠ home) ↔
      (f = root ∨ u.folder = true ∨ ∀ z ∈ t.head?, z.name ≠ home) := by
  refine or_congr ?_ (or_congr decide_eq_true_iff.symm ?_)
  · rw [c.head, hl]
    constructor
    · intro h
      exact c.item_eq (by simp [hf]) (by simp [hl]) (Option.some.inj h).symm
    · rintro rfl
      rfl
  · simp only [Item.cell, isFolder, if_true]
    cases t with
    | nil => simp
    | cons z t =>
      have hz : l = (a ++ [f]) ++ z :: t := by simp [hf]
      simp only [first_cons, List.head?_cons, Option.mem_def, Option.some.injEq, forall_eq']
      constructor
      · exact fun h => h _ _ rfl (c.cell_eq hz)
      · rintro h b m rfl hm
        obtain rfl := Option.some.inj (hm.symm.trans (c.cell_eq hz))
        exact h

/-- Whether anything can be found from the siblings `t` on. -/
theorem dead_iff (c : Chain s l) {a t : List Item} (hl : l = a ++ t) {p n : CString} :
    (∀ w, w ≠ home → w ≠ child n home → (child p w).bytes.length < MAX_PATH →
        ∀ b, Arrays.searchloc s (w.bytes.length + 1) (start t) w ≠ .ok (some b)) ↔
      ∀ w, w ≠ home → w ≠ child n home → (child p w).bytes.length < MAX_PATH →
        ∀ z, lookup Item.name Item.folder l t w ≠ .ok (some z) := by
  refine forall₄_congr fun w _ _ fits => ?_
  have short : w.bytes.length < MAX_PATH := by
    rw [bytes_child, List.length_append, List.length_cons] at fits
    omega
  rw [Arrays.searchloc_short short, c.searchloc_eq hl (Nat.lt_succ_self _)]
  simp only [ne_eq, map_eq_ok, not_exists, not_and]
  constructor
  · intro h z hz
    exact h (found z) (some z) hz rfl
  · rintro h b (_ | z) hz hb
    · cases hb
    · exact h z hz

end Chain

/-- `Safe` in terms of the chain. -/
theorem Chain.safe_iff (c : Chain s l) {b t a r k : List Item} {root x u : Item} {p n d : CString}
    (hl : l = root :: k) (hx : l = b ++ x :: t) (isFolder : x.folder = true)
    (attach : attachPoint Item.folder x t = (u, r)) (hu : l = a ++ u :: r) :
    Safe s p n d x.addr ↔ d.bytes.length < SERV_PATH ∧ (child p n).bytes.length < MAX_PATH ∧
      s.nodeno < INT_MAX ∧ SafeOn Item.name Item.folder root l x u r p n := by
  have same : (if u.data.dflag = 1 then u.addr else x.addr) =
      (if u.folder then u else x).addr := by
    by_cases h : u.data.dflag = 1 <;> simp [Item.folder, h]
  have f_folder : (if u.folder then u else x).folder = true := by
    split_ifs with h
    · exact h
    · exact isFolder
  have u_fold : (u.cell (last Item.addr a none) (start r)).fold =
      start (childrenOf Item.folder u r) := by
    rw [Chain.start_childrenOf]
    rfl
  obtain ⟨e, he⟩ := childrenOf_suffix Item.folder u r
  have below : l = (a ++ u :: e) ++ childrenOf Item.folder u r := by simp [hu, he]
  have names (vs : List CString) := c.descend_eq (a := []) rfl vs
  rw [← c.head] at names
  have lastChild {v : Addr} : LastChild s x.addr v ↔ v = u.addr := by
    rw [c.lastChild_iff hx isFolder, attach]
  refine and_congr_right fun _ => and_congr_right fun _ => and_congr_right fun _ => ?_
  constructor
  · rintro ⟨v, nv, f, nf, hv, hnv, rfl, hnf, hd, first, dead⟩
    obtain rfl := lastChild.1 hv
    obtain rfl := Option.some.inj (hnv.symm.trans (c.cell_eq hu))
    rw [names] at hd
    obtain ⟨⟨f, w⟩, hd, hf⟩ := Option.map_eq_some_iff.1 (Except.ok.inj hd)
    obtain ⟨g, hg⟩ := descent_suffix hd
    have u_mem : u ∈ l := by simp [hu]
    have x_mem : x ∈ l := by simp [hx]
    have hf : f = if u.folder then u else x := by
      refine c.item_eq (by simp [← hg]) (by split_ifs <;> assumption) ?_
      exact hf.trans same
    have hnf' : s.heap f.addr = some nf := by rw [hf, ← same]; exact hnf
    obtain rfl := Option.some.inj (hnf'.symm.trans (c.cell_eq hg.symm))
    rw [← hf] at f_folder
    refine ⟨f, w, hf, hd, (c.first_child_iff hl hg.symm f_folder).1 ?_, ?_⟩
    · rw [hf, ← same, ← hf]
      exact first
    · rw [u_fold] at dead
      exact (c.dead_iff below).1 dead
  · rintro ⟨f, w, hf, hd, first, dead⟩
    obtain ⟨g, hg⟩ := descent_suffix hd
    rw [← hf] at same f_folder
    refine ⟨u.addr, _, f.addr, _, lastChild.2 rfl, c.cell_eq hu, same.symm, c.cell_eq hg.symm, ?_,
      (c.first_child_iff hl hg.symm f_folder).2 first, ?_⟩
    · rw [names, hd]
      rfl
    · rw [u_fold]
      exact (c.dead_iff below).2 dead

/-- An insertion that returns has room for its number and for its strings. -/
theorem Chain.addentry_iff (c : Chain s l) {r y : List Item} {x u : Item} {p n d : CString} {dflag : ℤ}
    (located : find Item.name Item.folder l p = .ok (some (x, y)))
    (attach : attachPoint Item.folder x y = (u, r)) {a : Addr} {s' : State} :
    Arrays.addentry n d p dflag s = .ok (a, s') ↔
      (n.bytes.length < MAX_PATH ∧ d.bytes.length < SERV_PATH ∧ p.bytes.length < MAX_PATH) ∧
        s.nodeno < INT_MAX ∧ a = s.brk ∧ s' = hang s (newdata n d p dflag) u := by
  rw [Arrays.addentry_eq_ok]
  apply and_congr_right
  intro _
  by_cases room : s.nodeno < INT_MAX
  · rw [c.addnode_eq located attach room]
    simp [room, eq_comm]
  · rw [c.addnode_overflow located (not_lt.1 room)]
    simp [room]

/-- An insertion into the folder that `p` names is lossless exactly when `Safe` says so. -/
theorem lossless_iff_safe (c : Chain s l) {p n d : CString} {t : Addr} {m : Node} {dflag : ℤ}
    (located : search s p = .ok (some t)) (cell : s.heap t = some m) (isFolder : m.data.dflag = 1)
    (new : NewName s t n) :
    Lossless s p n (Arrays.addentry n d p dflag) ↔ Safe s p n d t := by
  obtain ⟨x, y, hfind, rfl⟩ := c.search_ok_iff.1 located
  obtain ⟨b, hx⟩ := find_suffix hfind
  obtain rfl := Option.some.inj (cell.symm.trans (c.cell_eq hx.symm))
  have x_folder : x.folder = true := decide_eq_true isFolder
  obtain ⟨u, r, attach⟩ : ∃ u r, attachPoint Item.folder x y = (u, r) := ⟨_, _, rfl⟩
  obtain ⟨a, hu⟩ := (attachPoint_suffix Item.folder x y).trans (find_suffix hfind)
  simp only [attach] at hu
  obtain ⟨root, k, hl, rootName, rootFolder⟩ := c.rooted
  rw [c.safe_iff hl hx.symm x_folder attach hu.symm]
  have out : newItem s (newdata n d p dflag) u ∉ l := fun h => absurd (c.addr_lt h) (lt_irrefl _)
  have unused : ∀ z ∈ siblings Item.folder y, z.name ≠ n := by
    intro z hz
    obtain ⟨m, r', hy, -⟩ := mem_siblings_iff.1 hz
    have hz' : l = (b ++ x :: m) ++ z :: r' := by simp [← hx, hy]
    exact new.unused _ _ ((c.child_iff hx.symm x_folder).2 ⟨z, hz, rfl⟩) (c.cell_eq hz')
  have one : n.bytes.length ≠ 1 := by
    have := new.long
    omega
  have same := lossless_iff hl rootName rootFolder (List.Nodup.of_map _ c.nodup) hfind x_folder attach
    hu.symm out rfl new.plain one new.proper unused
  constructor
  · rintro ⟨a, s', added, answers, kept⟩
    obtain ⟨⟨-, fits, -⟩, room, rfl, rfl⟩ := (c.addentry_iff hfind attach).1 added
    have path := (Arrays.search_some_iff.1 answers).2
    exact ⟨fits, path (slash_mem_child _ _), room,
      same.1 ((c.lossless_hang_iff hu.symm _ path).1 ⟨answers, kept⟩)⟩
  · rintro ⟨fits, path, room, safe⟩
    have parts := path
    rw [bytes_child, List.length_append, List.length_cons] at parts
    obtain ⟨answers, kept⟩ := (c.lossless_hang_iff hu.symm _ fun _ => path).2 (same.2 safe)
    exact ⟨_, _, (c.addentry_iff hfind attach).2 ⟨⟨by omega, fits, by omega⟩, room, rfl, rfl⟩, answers,
      kept⟩

/-- In every reachable tree, an insertion is lossless exactly when `Safe` says so. -/
theorem insertion_lossless_iff (junk : Fin REP → ℤ) (ops : List Op)
    (returned : Arrays.runOps ops (initialTree junk) = .ok s) {p n d : CString} {t : Addr} {m : Node}
    (located : Arrays.search s p = .ok (some t)) (cell : s.heap t = some m)
    (isFolder : m.data.dflag = 1) (new : NewName s t n) :
    (Lossless s p n (Arrays.addfile n d p) ↔ Safe s p n d t) ∧
      (Lossless s p n (Arrays.addfolder n d p) ↔ Safe s p n d t) :=
  let ⟨_, i, _⟩ := (ninitialize_sound junk).runOps (Arrays.runOps_returned returned)
  let found := (Arrays.search_some_iff.1 located).1
  ⟨lossless_iff_safe i.toChain found cell isFolder new,
    lossless_iff_safe i.toChain found cell isFolder new⟩

/-! ### A file behind a folder -/

/-- The tree that consists of the root and the folder `fold1`. -/
def oneFolder : State := stateAfter [.addfolder (.lit "fold1") (.lit "d") home]

theorem oneFolder_newName : NewName oneFolder 0 (.lit "file1") where
  long := by decide
  fits := by decide
  plain := by decide
  proper := by decide
  unused a m ha hm := by
    have only : a = 1 := by
      clear hm
      induction ha with
      | fold hn ha =>
        have : (oneFolder.heap 0).map Node.fold = some (some 1) := by decide
        simp [hn, ha] at this
        exact this
      | next _ hn ha ih =>
        subst ih
        have : (oneFolder.heap 1).map Node.next = some none := by decide
        simp [hn, ha] at this
    subst only
    have : (oneFolder.heap 1).map (fun m => m.data.fname) = some (.lit "fold1") := by decide
    simp only [hm, Option.map_some, Option.some.injEq] at this
    rw [this]
    decide

theorem oneFolder_returned :
    Arrays.runOps [.addfolder (.lit "fold1") (.lit "d") home] (initialTree fun _ => 0) =
      .ok oneFolder :=
  Arrays.runOps_stateAfter (by decide)

theorem insertion_lossless_iff_oneFolder :
    (Lossless oneFolder home (.lit "file1") (Arrays.addfile (.lit "file1") (.lit "d") home) ↔
        Safe oneFolder home (.lit "file1") (.lit "d") 0) ∧
      (Lossless oneFolder home (.lit "file1") (Arrays.addfolder (.lit "file1") (.lit "d") home) ↔
        Safe oneFolder home (.lit "file1") (.lit "d") 0) :=
  insertion_lossless_iff _ _ oneFolder_returned rfl rfl rfl oneFolder_newName

/-- The file `file1` added to the root behind the folder `fold1` becomes a child of that folder, and
`home/file1` does not resolve. -/
theorem file_behind_folder_lost :
    Arrays.runOps [.addfolder (.lit "fold1") (.lit "d") home] (initialTree fun _ => 0) =
        .ok oneFolder ∧
      Arrays.search oneFolder home = .ok (some 0) ∧
      (∃ m, oneFolder.heap 0 = some m ∧ m.data.dflag = 1) ∧ NewName oneFolder 0 (.lit "file1") ∧
      ¬ Lossless oneFolder home (.lit "file1") (Arrays.addfile (.lit "file1") (.lit "d") home) := by
  refine ⟨oneFolder_returned, rfl, ⟨_, rfl, rfl⟩, oneFolder_newName, ?_⟩
  rintro ⟨a, s, added, answers, -⟩
  have lost : (Arrays.addfile (.lit "file1") (.lit "d") home oneFolder).toOption.map
      (fun r => (Arrays.search r.2 (child home (.lit "file1"))).toOption) = some (some none) := by
    decide
  simp [added, answers, Except.toOption] at lost

end DistFs.NameSpace
