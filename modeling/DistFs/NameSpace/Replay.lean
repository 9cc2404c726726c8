import DistFs.NameSpace.Descent

/-!
# Replaying the insertions that built a chain

`Placed l` says that each item of `l` was once put where it stands: its own path then led to the
item before it, possibly with further items behind that one.  `Replayable l` says that its path
leads there among the items before it alone, so that inserting the items of `l` one by one builds
`l` again.
-/

namespace DistFs.NameSpace

open CText

section Replay

variable {α β : Type*} (name : α → CString) (folder : α → Bool) (loc : α → CString)

/-- A child of the node at `p` is linked behind the last item of the chain. -/
def AtEnd (l : List α) (p : CString) : Prop :=
  ∃ x t u, find name folder l p = .ok (some (x, t)) ∧ attachPoint folder x t = (u, [])

/-- `P` holds of every item but the first and the items before it. -/
def Each (P : List α → α → Prop) (l : List α) : Prop :=
  ∀ a x r, l = a ++ x :: r → a ≠ [] → P a x

/-- Every item but the first has been linked where it stands. -/
def Placed : List α → Prop :=
  Each fun a x => ∃ m y t u, find name folder (a ++ m) (loc x) = .ok (some (y, t)) ∧
    attachPoint folder y t = (u, m)

/-- The path of every item but the first is found among the items before it. -/
def Resolves : List α → Prop :=
  Each fun a x => ∃ q, find name folder a (loc x) = .ok (some q)

/-- Every item but the first is linked where it stands if the items are inserted in order. -/
def Replayable : List α → Prop := Each fun a x => AtEnd name folder a (loc x)

end Replay

section ReplayLemmas

variable {α β : Type*} {name : α → CString} {folder : α → Bool} {loc : α → CString}

/-! ## Placed items -/

theorem lastSibling_of_append {x u : α} {t r : List α}
    (h : lastSibling folder x (t ++ r) = (u, r)) : lastSibling folder x t = (u, []) := by
  induction t generalizing x with
  | nil =>
    cases r with
    | nil => exact h
    | cons y r =>
      rw [List.nil_append, lastSibling] at h
      split_ifs at h
      · rw [lastSibling, (Prod.mk.inj h).1]
      · have := (lastSibling_suffix folder y r).length_le
        simp [h] at this
  | cons y t ih =>
    rw [List.cons_append, lastSibling] at h
    rw [lastSibling]
    split_ifs at h ⊢
    · have := congrArg List.length (Prod.mk.inj h).2
      simp at this
      omega
    · exact ih h

theorem attachPoint_of_append {x u : α} {t r : List α}
    (h : attachPoint folder x (t ++ r) = (u, r)) : attachPoint folder x t = (u, []) := by
  unfold attachPoint childrenOf at h ⊢
  split_ifs at h ⊢
  · cases t with
    | nil =>
      cases r with
      | nil => exact h
      | cons y r =>
        have := (lastSibling_suffix folder y r).length_le
        simp only [List.nil_append] at h
        simp [h] at this
    | cons y t => exact lastSibling_of_append h
  · obtain ⟨rfl, ht⟩ := Prod.mk.inj h
    rw [List.append_left_eq_self.1 ht]

theorem Placed.replayable {l : List α} (h : Placed name folder loc l)
    (resolves : Resolves name folder loc l) : Replayable name folder loc l := by
  intro a x r hl more
  obtain ⟨m, y, t, u, hfind, hattach⟩ := h a x r hl more
  obtain ⟨⟨z, t'⟩, hq⟩ := resolves a x r hl more
  have := find_append hq m
  rw [hfind] at this
  simp only [Except.ok.injEq, Option.some.injEq, Prod.mk.injEq] at this
  obtain ⟨rfl, rfl⟩ := this
  exact ⟨y, t', u, hq, attachPoint_of_append hattach⟩

/-- What an insertion behind `u` has to establish. -/
theorem Each.insert {P : List α → α → Prop} {a r : List α} {u x : α} (h : Each P (a ++ u :: r))
    (new : P (a ++ [u]) x) : Each P (a ++ [u, x]) := by
  intro b z s hl more
  obtain rfl | ⟨s, w, rfl⟩ := s.eq_nil_or_concat'
  · rw [← List.singleton_append, ← List.append_assoc] at hl
    obtain ⟨rfl, rfl⟩ := List.append_singleton_inj.1 hl
    exact new
  · have front : a ++ [u] = b ++ z :: s := by
      refine (List.append_singleton_inj (a := x) (b := w)).1 ?_ |>.1
      simpa using hl
    refine h b z (s ++ r) ?_ more
    rw [← List.cons_append, ← List.append_assoc, ← front]
    simp

theorem each_singleton (P : List α → α → Prop) (x : α) : Each P [x] := by
  intro a y r hl more
  have := congrArg List.length hl
  simp only [List.length_append, List.length_cons, List.length_nil] at this
  exact absurd (List.eq_nil_of_length_eq_zero (by omega)) more

/-- An insertion places the new item. -/
theorem Placed.insert {a r : List α} {u x : α} (h : Placed name folder loc (a ++ u :: r))
    {y : α} {t : List α} (hfind : find name folder (a ++ u :: r) (loc x) = .ok (some (y, t)))
    (hattach : attachPoint folder y t = (u, r)) : Placed name folder loc (a ++ [u, x]) :=
  Each.insert h ⟨r, y, t, u, by simpa using hfind, hattach⟩

/-! ## Chains in which only the root is called `home` -/

theorem enter_suffix_tail {vs : List CString} {t t' : List α} (more : vs ≠ [])
    (h : enter name folder vs t = some t') : t' <:+ t.tail := by
  obtain ⟨v, vs, rfl⟩ := List.exists_cons_of_ne_nil more
  rw [enter_cons, Option.bind_eq_some_iff] at h
  obtain ⟨⟨x, l⟩, hx, h⟩ := h
  refine (enter_suffix h).trans ((childrenOf_suffix _ x l).trans ?_)
  obtain ⟨a, ha⟩ := walk_suffix hx
  cases a with
  | nil => rw [← ha]; exact List.suffix_refl _
  | cons y a => exact ⟨a ++ [x], by simp [← ha]⟩

theorem descent_append_name (vs : List CString) (v : CString) (t : List α) :
    descent name folder (vs ++ [v]) t = (enter name folder vs t).bind (walk name folder v) := by
  induction vs generalizing t with
  | nil => rfl
  | cons w vs ih =>
    rw [List.cons_append, descent_cons (by simp), enter_cons, Option.bind_assoc]
    exact congrArg _ (funext fun p => ih _)

/-- Without a second `home`, a path names what its components lead to. -/
theorem find_eq_descent {l : List α} {p : CString} (only : ∀ x ∈ l.tail, name x ≠ home)
    (hp : slash ∈ p.bytes) (last : lastName p ≠ home) {q : α × List α} :
    find name folder l p = .ok (some q) ↔
      descent name folder (steps p ++ [lastName p]) l = some q := by
  have notHome : p ≠ home := by
    rintro rfl
    revert hp
    decide
  have more : steps p ≠ [] := by simp [steps_of_mem hp]
  rw [find, if_neg notHome, lookup, descent_append_name]
  cases he : enter name folder (steps p) l with
  | none => simp
  | some t =>
    cases t with
    | nil => simp [lookupLast, last, walk]
    | cons x t =>
      have : name x ≠ home := only x ((enter_suffix_tail more he).subset (by simp))
      simp [lookupLast, last, this]

/-- If only the root is called `home`, an insertion links to the node that it would find without
what stands behind that node. -/
theorem atEnd_of_attach {a r : List α} {u y : α} {t : List α} {p : CString}
    (only : ∀ x ∈ (a ++ u :: r).tail, name x ≠ home)
    (path : p = home ∨ slash ∈ p.bytes ∧ lastName p ≠ home)
    (hfind : find name folder (a ++ u :: r) p = .ok (some (y, t)))
    (hattach : attachPoint folder y t = (u, r)) : AtEnd name folder (a ++ [u]) p := by
  have split : a ++ u :: r = (a ++ [u]) ++ r := by simp
  obtain ⟨t, rfl⟩ : ∃ t', t = t' ++ r := by
    have := attachPoint_suffix folder y t
    rw [hattach] at this
    rcases List.suffix_cons_iff.1 this with h | ⟨b, hb⟩
    · exact ⟨[], (List.cons.inj h).2.symm⟩
    · exact ⟨b ++ [u], by simp [← hb]⟩
  refine ⟨y, t, u, ?_, attachPoint_of_append hattach⟩
  rcases path with rfl | ⟨hp, last⟩
  · rw [find, if_pos rfl] at hfind ⊢
    have := root_suffix (Except.ok.inj hfind)
    rw [split, ← List.cons_append] at this
    rw [List.append_cancel_right this]
    rfl
  · have only' : ∀ x ∈ (a ++ [u]).tail, name x ≠ home := by
      intro x hx
      refine only x ?_
      rw [split, List.tail_append_of_ne_nil (by simp)]
      exact List.mem_append_left r hx
    rw [find_eq_descent only hp last, split] at hfind
    rw [find_eq_descent only' hp last]
    exact descent_of_append hfind

/-! ## Chains with the same names -/

section Map

variable (f : β → α)

theorem walk_map (v : CString) (t : List β) :
    walk name folder v (t.map f) =
      (walk (name ∘ f) (folder ∘ f) v t).map fun q => (f q.1, q.2.map f) := by
  induction t with
  | nil => rfl
  | cons x t ih =>
    simp only [List.map_cons, walk, Function.comp_apply, ih]
    split_ifs <;> rfl

theorem childrenOf_map (x : β) (t : List β) :
    childrenOf folder (f x) (t.map f) = (childrenOf (folder ∘ f) x t).map f := by
  unfold childrenOf
  split_ifs <;> simp_all

theorem enter_map (vs : List CString) (t : List β) :
    enter name folder vs (t.map f) =
      (enter (name ∘ f) (folder ∘ f) vs t).map (List.map f) := by
  induction vs generalizing t with
  | nil => rfl
  | cons v vs ih =>
    rw [enter_cons, enter_cons, walk_map]
    cases walk (name ∘ f) (folder ∘ f) v t with
    | none => rfl
    | some q =>
      obtain ⟨x, r⟩ := q
      simp only [Option.map_some, Option.bind_some, childrenOf_map, ih]

theorem lookupLast_map (l t : List β) (v : CString) :
    lookupLast name folder (l.map f) v (t.map f) =
      (lookupLast (name ∘ f) (folder ∘ f) l v t).map
        (Option.map fun q => (f q.1, q.2.map f)) := by
  unfold lookupLast
  have top : topLevel folder (l.map f) = (topLevel (folder ∘ f) l).map f := by
    cases l with
    | nil => rfl
    | cons x l => exact childrenOf_map f x l
  split_ifs
  · cases l <;> rfl
  · cases t with
    | nil => rfl
    | cons x t =>
      simp only [List.map_cons, Except.map, top, Function.comp_apply]
      split_ifs
      · rw [walk_map]
      · rw [← List.map_cons, walk_map]

theorem find_map (l : List β) (p : CString) :
    find name folder (l.map f) p =
      (find (name ∘ f) (folder ∘ f) l p).map (Option.map fun q => (f q.1, q.2.map f)) := by
  unfold find lookup
  split_ifs
  · cases l <;> rfl
  · rw [enter_map]
    cases enter (name ∘ f) (folder ∘ f) (steps p) l with
    | none => rfl
    | some t => exact lookupLast_map f l t _

theorem lastSibling_map (x : β) (t : List β) :
    lastSibling folder (f x) (t.map f) =
      (f (lastSibling (folder ∘ f) x t).1, (lastSibling (folder ∘ f) x t).2.map f) := by
  induction t generalizing x with
  | nil => rfl
  | cons y t ih =>
    simp only [List.map_cons, lastSibling, Function.comp_apply]
    split_ifs
    · rfl
    · exact ih y

theorem attachPoint_map (x : β) (t : List β) :
    attachPoint folder (f x) (t.map f) =
      (f (attachPoint (folder ∘ f) x t).1, (attachPoint (folder ∘ f) x t).2.map f) := by
  unfold attachPoint
  rw [childrenOf_map]
  cases childrenOf (folder ∘ f) x t with
  | nil => rfl
  | cons y r => exact lastSibling_map f y r

/-- Only names and folder marks decide where a node is linked. -/
theorem atEnd_map (l : List β) (p : CString) :
    AtEnd name folder (l.map f) p ↔ AtEnd (name ∘ f) (folder ∘ f) l p := by
  constructor
  · rintro ⟨x, t, u, hfind, hattach⟩
    rw [find_map, map_eq_ok] at hfind
    obtain ⟨_ | ⟨y, r⟩, hy, h⟩ := hfind
    · cases h
    · obtain ⟨rfl, rfl⟩ := Prod.mk.inj (Option.some.inj h)
      rw [attachPoint_map] at hattach
      obtain ⟨-, hr⟩ := Prod.mk.inj hattach
      exact ⟨y, r, _, hy, Prod.ext rfl (List.map_eq_nil_iff.1 hr)⟩
  · rintro ⟨x, t, u, hfind, hattach⟩
    refine ⟨f x, t.map f, f u, ?_, ?_⟩
    · rw [find_map, hfind]
      rfl
    · rw [attachPoint_map, hattach]
      rfl

theorem each_map (P : List α → α → Prop) (l : List β) :
    Each P (l.map f) ↔ Each (fun a x => P (a.map f) (f x)) l := by
  constructor
  · intro h a x r hl more
    exact h (a.map f) (f x) (r.map f) (by simp [hl]) (by simpa using more)
  · intro h a x r hl more
    obtain ⟨a, t, rfl, rfl, ht⟩ := List.map_eq_append_iff.1 hl
    obtain ⟨x, r, rfl, rfl, rfl⟩ := List.map_eq_cons_iff.1 ht
    exact h a x r rfl (by simpa using more)

theorem resolves_map (l : List β) : Resolves name folder loc (l.map f) ↔
    Resolves (name ∘ f) (folder ∘ f) (loc ∘ f) l := by
  rw [Resolves, each_map, Resolves]
  have (a : List β) (x : β) : (∃ q, find name folder (a.map f) (loc (f x)) = .ok (some q)) ↔
      ∃ q, find (name ∘ f) (folder ∘ f) a ((loc ∘ f) x) = .ok (some q) := by
    rw [find_map]
    constructor
    · rintro ⟨q, h⟩
      obtain ⟨_ | q', h', hq⟩ := map_eq_ok.1 h
      · cases hq
      · exact ⟨q', h'⟩
    · rintro ⟨q, h⟩
      exact ⟨_, map_eq_ok.2 ⟨some q, h, rfl⟩⟩
  simp only [this]

end Map

end ReplayLemmas

end DistFs.NameSpace
