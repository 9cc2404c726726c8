import DistFs.NameSpace.Lookup

/-!
# Descending a chain

Where the names of a path lead (`descent`), how deep they lead, and what an insertion can change
about it.  The folders of a chain are nested in each other: each lies among the children of the one
before it, so a walk of `n` names ends among the children of the `n`th folder.
-/

namespace DistFs.NameSpace

open CText

section Descent

variable {α : Type*} (name : α → CString) (folder : α → Bool)

/-- The node that a list of names leads to, and what follows it in the chain. -/
def descent : List CString → List α → Option (α × List α)
  | [], _ => none
  | [v], t => walk name folder v t
  | v :: vs, t => (walk name folder v t).bind fun p => descent vs (childrenOf folder p.1 p.2)

/-- The siblings that begin a chain: everything up to the first folder. -/
def siblings : List α → List α
  | [] => []
  | x :: l => if folder x then [x] else x :: siblings l

end Descent

section DescentLemmas

variable {α : Type*} {name : α → CString} {folder : α → Bool}

theorem descent_cons {v : CString} {vs : List CString} (more : vs ≠ []) (t : List α) :
    descent name folder (v :: vs) t =
      (walk name folder v t).bind fun p => descent name folder vs (childrenOf folder p.1 p.2) := by
  cases vs with
  | nil => exact absurd rfl more
  | cons w vs => rfl

/-- The children that names lead to are those of the node that they lead to. -/
theorem enter_eq_descent {vs : List CString} (some_ : vs ≠ []) (t : List α) :
    enter name folder vs t =
      (descent name folder vs t).map fun p => childrenOf folder p.1 p.2 := by
  induction vs generalizing t with
  | nil => exact absurd rfl some_
  | cons v vs ih =>
    by_cases more : vs = []
    · subst more
      rw [enter_cons, descent]
      cases walk name folder v t <;> rfl
    · rw [enter_cons, descent_cons more]
      cases walk name folder v t with
      | none => rfl
      | some p => exact ih more _

theorem descent_suffix {vs : List CString} {t : List α} {x : α} {r : List α}
    (h : descent name folder vs t = some (x, r)) : x :: r <:+ t := by
  induction vs generalizing t with
  | nil => simp [descent] at h
  | cons v vs ih =>
    by_cases more : vs = []
    · subst more
      exact walk_suffix h
    · rw [descent_cons more, Option.bind_eq_some_iff] at h
      obtain ⟨⟨y, l⟩, hy, h⟩ := h
      exact (ih h).trans ((childrenOf_suffix _ y l).trans ((List.suffix_cons y l).trans (walk_suffix hy)))

/-- What is found is found in any longer chain. -/
theorem descent_append {vs : List CString} {t : List α} {x : α} {r : List α}
    (h : descent name folder vs t = some (x, r)) (m : List α) :
    descent name folder vs (t ++ m) = some (x, r ++ m) := by
  induction vs generalizing t with
  | nil => simp [descent] at h
  | cons v vs ih =>
    by_cases more : vs = []
    · subst more
      exact walk_append h m
    · rw [descent_cons more, Option.bind_eq_some_iff] at h ⊢
      obtain ⟨⟨y, l⟩, hy, h⟩ := h
      refine ⟨(y, l ++ m), walk_append hy m, ?_⟩
      simp only [childrenOf] at h ⊢
      split_ifs at h ⊢
      · exact ih h
      · -- Below a file nothing is found.
        simpa using (descent_suffix h).length_le

theorem walk_of_append {v : CString} {t m : List α} {x : α} {r : List α}
    (h : walk name folder v (t ++ m) = some (x, r ++ m)) : walk name folder v t = some (x, r) := by
  obtain ⟨named, a, hl, ha⟩ := walk_split h
  obtain rfl : t = a ++ x :: r := by
    refine List.append_cancel_right (hl.trans ?_)
    simp
  rw [walk_append_left ha]
  simp [walk, named]

/-- What is found in front of the end of the chain is found without it. -/
theorem descent_of_append {vs : List CString} {t m : List α} {x : α} {r : List α}
    (h : descent name folder vs (t ++ m) = some (x, r ++ m)) :
    descent name folder vs t = some (x, r) := by
  induction vs generalizing t with
  | nil => simp [descent] at h
  | cons v vs ih =>
    by_cases more : vs = []
    · subst more
      exact walk_of_append h
    · rw [descent_cons more, Option.bind_eq_some_iff] at h ⊢
      obtain ⟨⟨y, l⟩, hy, h⟩ := h
      have below := (descent_suffix h).trans (childrenOf_suffix _ y l)
      obtain ⟨b, rfl⟩ := below
      have hl : b ++ x :: (r ++ m) = (b ++ x :: r) ++ m := by simp
      rw [hl] at hy h
      refine ⟨(y, b ++ x :: r), walk_of_append hy, ?_⟩
      simp only [childrenOf] at h ⊢
      split_ifs at h ⊢
      · exact ih h
      · simpa using (descent_suffix h).length_le

/-- One more node at the end of the chain is the last thing behind the node that names lead to. -/
theorem descent_append_one {vs : List CString} {t r : List α} {x new : α}
    (h : descent name folder vs (t ++ [new]) = some (x, r)) (below : r ≠ []) :
    ∃ r', r = r' ++ [new] ∧ descent name folder vs t = some (x, r') := by
  obtain ⟨b, hb⟩ := (List.suffix_cons x r).trans (descent_suffix h)
  obtain ⟨r', y, rfl⟩ := (List.eq_nil_or_concat' r).resolve_left below
  rw [← List.append_assoc] at hb
  obtain rfl : y = new := List.singleton_inj.1 (List.append_inj' hb rfl).2
  exact ⟨r', rfl, descent_of_append h⟩

theorem enter_append_names (vs ws : List CString) (t : List α) :
    enter name folder (vs ++ ws) t = (enter name folder vs t).bind (enter name folder ws) := by
  induction vs generalizing t with
  | nil => rfl
  | cons v vs ih =>
    rw [List.cons_append, enter_cons, enter_cons, Option.bind_assoc]
    exact congrArg _ (funext fun p => ih _)

theorem countP_files {a : List α} (files : ∀ y ∈ a, folder y = false) : a.countP folder = 0 := by
  rw [List.countP_eq_zero]
  intro y hy
  simp [files y hy]

/-- Each name leads past one folder. -/
theorem enter_depth {vs : List CString} {t t' : List α} (h : enter name folder vs t = some t')
    (more : t' ≠ []) : ∃ b, t = b ++ t' ∧ b.countP folder = vs.length := by
  induction vs generalizing t with
  | nil =>
    obtain rfl := Option.some.inj h
    exact ⟨[], rfl, rfl⟩
  | cons v vs ih =>
    rw [enter_cons, Option.bind_eq_some_iff] at h
    obtain ⟨⟨x, l⟩, hx, h⟩ := h
    obtain ⟨-, a, rfl, ha⟩ := walk_split hx
    simp only [childrenOf] at h
    split_ifs at h with isFolder
    · obtain ⟨b, rfl, count⟩ := ih h
      have files : a.countP folder = 0 := countP_files fun y hy => (ha y hy).1
      exact ⟨a ++ x :: b, by simp, by simp [files, isFolder, count]⟩
    · cases vs with
      | nil => exact absurd (Option.some.inj h).symm more
      | cons w vs => simp [enter_cons_nil] at h

/-- Names that lead to a folder lead through the folders in front of it. -/
theorem descent_depth {vs : List CString} {b r : List α} {u : α} (isFolder : folder u = true)
    (more : r ≠ []) (h : descent name folder vs (b ++ u :: r) = some (u, r)) :
    vs.length = b.countP folder + 1 := by
  have names : vs ≠ [] := by
    rintro rfl
    cases h
  have entered : enter name folder vs (b ++ u :: r) = some r := by
    rw [enter_eq_descent names, h]
    simp [childrenOf, isFolder]
  obtain ⟨b', hb, count⟩ := enter_depth entered more
  obtain rfl : b' = b ++ [u] := by
    apply List.append_cancel_right
    rw [← hb, List.append_assoc, List.singleton_append]
  rw [← count, List.countP_append, List.countP_singleton, if_pos isFolder]

theorem suffix_cons_self {k s : List α} {x : α} (nodup : (x :: k).Nodup) (h : x :: s <:+ x :: k) :
    s = k := by
  rcases List.suffix_cons_iff.1 h with h | h
  · exact (List.cons.inj h).2
  · exact absurd (h.subset (by simp)) (List.nodup_cons.1 nodup).1

theorem suffix_unique {l t t' : List α} {x : α} (nodup : l.Nodup) (h : x :: t <:+ l)
    (h' : x :: t' <:+ l) : t = t' := by
  rcases List.suffix_or_suffix_of_suffix h h' with h₁ | h₁
  · exact suffix_cons_self (h'.sublist.nodup nodup) h₁
  · exact (suffix_cons_self (h.sublist.nodup nodup) h₁).symm

/-- The last folder of a chain. -/
theorem last_folder_unique {l t t' : List α} {x x' : α} (h : x :: t <:+ l) (h' : x' :: t' <:+ l)
    (hx : folder x = true) (hx' : folder x' = true) (ht : ∀ y ∈ t, folder y = false)
    (ht' : ∀ y ∈ t', folder y = false) : x = x' ∧ t = t' := by
  rcases List.suffix_or_suffix_of_suffix h h' with h | h
  · rcases List.suffix_cons_iff.1 h with h | h
    · exact List.cons.inj h
    · simp [ht' x (h.subset (by simp))] at hx
  · rcases List.suffix_cons_iff.1 h with h | h
    · exact ⟨(List.cons.inj h).1.symm, (List.cons.inj h).2.symm⟩
    · simp [ht x' (h.subset (by simp))] at hx'

/-- The first folder of a chain. -/
theorem first_folder_unique {a a' t t' : List α} {x x' : α} (h : a ++ x :: t = a' ++ x' :: t')
    (ha : ∀ y ∈ a, folder y = false) (ha' : ∀ y ∈ a', folder y = false) (hx : folder x = true)
    (hx' : folder x' = true) : x = x' ∧ t = t' := by
  induction a generalizing a' with
  | nil =>
    cases a' with
    | nil => exact List.cons.inj h
    | cons y a' =>
      obtain ⟨rfl, -⟩ := List.cons.inj h
      simp [ha' x (by simp)] at hx
  | cons z a ih =>
    cases a' with
    | nil =>
      obtain ⟨rfl, -⟩ := List.cons.inj h
      simp [ha z (by simp)] at hx'
    | cons y a' =>
      exact ih (List.cons.inj h).2 (fun y hy => ha y (by simp [hy])) fun y hy => ha' y (by simp [hy])

/-- The last of a run of siblings: a folder, or a file at the end of the chain. -/
theorem last_sibling_unique {m m' t t' : List α} {x x' : α} (h : m ++ x :: t = m' ++ x' :: t')
    (hm : ∀ y ∈ m, folder y = false) (hm' : ∀ y ∈ m', folder y = false)
    (hx : folder x = false → t = []) (hx' : folder x' = false → t' = []) : x = x' := by
  by_cases isFolder : folder x = true
  · by_cases isFolder' : folder x' = true
    · exact (first_folder_unique h hm hm' isFolder isFolder').1
    · obtain rfl := hx' (by simpa using isFolder')
      have : x ∈ m' ++ [x'] := h ▸ by simp
      rcases List.mem_append.1 this with hx | hx
      · simp [hm' x hx] at isFolder
      · exact List.mem_singleton.1 hx
  · obtain rfl := hx (by simpa using isFolder)
    by_cases isFolder' : folder x' = true
    · have : x' ∈ m ++ [x] := h ▸ by simp
      rcases List.mem_append.1 this with hx | hx
      · simp [hm x' hx] at isFolder'
      · exact (List.mem_singleton.1 hx).symm
    · obtain rfl := hx' (by simpa using isFolder')
      exact (List.append_singleton_inj.1 h).2

/-- The first step of names that lead to a folder leads to the first folder. -/
theorem descent_first {v : CString} {vs : List CString} {t r : List α} {u : α}
    (isFolder : folder u = true) (h : descent name folder (v :: vs) t = some (u, r)) :
    ∃ x l a, t = a ++ x :: l ∧ (∀ y ∈ a, folder y = false) ∧ folder x = true ∧ name x = v ∧
      (vs = [] ∧ x = u ∧ l = r ∨ vs ≠ [] ∧ descent name folder vs l = some (u, r)) := by
  by_cases more : vs = []
  · subst more
    obtain ⟨named, a, rfl, files⟩ := walk_split h
    exact ⟨u, r, a, rfl, fun y hy => (files y hy).1, isFolder, named, .inl ⟨rfl, rfl, rfl⟩⟩
  · rw [descent_cons more, Option.bind_eq_some_iff] at h
    obtain ⟨⟨x, l⟩, hx, h⟩ := h
    obtain ⟨named, a, rfl, files⟩ := walk_split hx
    have x_folder : folder x = true := by
      by_contra file
      simpa [childrenOf, file] using (descent_suffix h).length_le
    rw [childrenOf, if_pos x_folder] at h
    exact ⟨x, l, a, rfl, fun y hy => (files y hy).1, x_folder, named, .inr ⟨more, h⟩⟩

/-- Only one list of names leads to a folder. -/
theorem descent_unique {vs ws : List CString} {t r : List α} {u : α} (isFolder : folder u = true)
    (hv : descent name folder vs t = some (u, r)) (hw : descent name folder ws t = some (u, r)) :
    vs = ws := by
  induction vs generalizing ws t with
  | nil => cases hv
  | cons v vs ih =>
    cases ws with
    | nil => cases hw
    | cons w ws =>
      obtain ⟨x, l, a, rfl, files, x_folder, rfl, behind⟩ := descent_first isFolder hv
      obtain ⟨x', l', a', split, files', x_folder', rfl, behind'⟩ := descent_first isFolder hw
      obtain ⟨rfl, rfl⟩ := first_folder_unique split files files' x_folder x_folder'
      have never {us : List CString} (h : descent name folder us r = some (u, r)) : False := by
        simpa using (descent_suffix h).length_le
      rcases behind with ⟨rfl, rfl, rfl⟩ | ⟨-, later⟩ <;>
        rcases behind' with ⟨rfl, same⟩ | ⟨-, later'⟩
      · rfl
      · exact (never later').elim
      · obtain ⟨rfl, rfl⟩ := same
        exact (never later).elim
      · rw [ih later later']

theorem siblings_of_files {t : List α} (files : ∀ y ∈ t, folder y = false) :
    siblings folder t = t := by
  induction t with
  | nil => rfl
  | cons x t ih => simp [siblings, files x (by simp), ih fun y hy => files y (by simp [hy])]

theorem mem_siblings_iff {t : List α} {y : α} :
    y ∈ siblings folder t ↔ ∃ m r, t = m ++ y :: r ∧ ∀ z ∈ m, folder z = false := by
  induction t with
  | nil => simp [siblings]
  | cons x t ih =>
    constructor
    · intro h
      rw [siblings] at h
      split_ifs at h with isFolder
      · obtain rfl := List.mem_singleton.1 h
        exact ⟨[], t, rfl, by simp⟩
      · rcases List.mem_cons.1 h with rfl | h
        · exact ⟨[], t, rfl, by simp⟩
        · obtain ⟨m, r, rfl, files⟩ := ih.1 h
          exact ⟨x :: m, r, rfl, by simpa using And.intro (by simpa using isFolder) files⟩
    · rintro ⟨m, r, h, files⟩
      rw [siblings]
      cases m with
      | nil =>
        obtain ⟨rfl, -⟩ := List.cons.inj h
        split_ifs <;> simp
      | cons z m =>
        obtain ⟨rfl, rest⟩ := List.cons.inj h
        rw [if_neg (by simp [files x (by simp)])]
        exact List.mem_cons_of_mem _ (ih.2 ⟨m, r, rest, fun z hz => files z (by simp [hz])⟩)

theorem lastSibling_split (folder : α → Bool) (x : α) (t : List α) :
    ∃ m, x :: t = m ++ (lastSibling folder x t).1 :: (lastSibling folder x t).2 ∧
      (∀ y ∈ m, folder y = false) ∧
      (folder (lastSibling folder x t).1 = false → (lastSibling folder x t).2 = []) := by
  induction t generalizing x with
  | nil => exact ⟨[], rfl, by simp, fun _ => rfl⟩
  | cons y t ih =>
    rw [lastSibling]
    split_ifs with isFolder
    · exact ⟨[], rfl, by simp, fun h => by simp [isFolder] at h⟩
    · obtain ⟨m, hm, files, last⟩ := ih y
      refine ⟨x :: m, by rw [List.cons_append, ← hm], ?_, last⟩
      rintro z (_ | ⟨_, hz⟩)
      · simpa using isFolder
      · exact files z hz

/-- The node behind which a child of the folder `x` is linked: `x` itself when it has no child,
else its last child. -/
theorem attachPoint_split {x u : α} {t r : List α} (isFolder : folder x = true)
    (h : attachPoint folder x t = (u, r)) :
    (u = x ∧ t = [] ∧ r = []) ∨
      ∃ m, t = m ++ u :: r ∧ (∀ y ∈ m, folder y = false) ∧ (folder u = false → r = []) := by
  rw [attachPoint, childrenOf, if_pos isFolder] at h
  cases t with
  | nil =>
    obtain ⟨rfl, rfl⟩ := Prod.mk.inj h
    exact .inl ⟨rfl, rfl, rfl⟩
  | cons y t =>
    have := lastSibling_split folder y t
    simp only at h
    rw [h] at this
    exact .inr this

end DescentLemmas

end DistFs.NameSpace
