import DistFs.Wire.Slots

/-!
# One entry for each path

`filelist_search` drops a closing slash from the name it is asked for, never from the name that it
finds in an entry.  An entry with a closing slash in its name is therefore missed by the same path
without it.
-/

namespace DistFs.Wire

open CText Registry

/-- A name without its closing slash, if it has one. -/
def bare (name : List Byte) : List Byte := if name.getLast? = some 47 then name.dropLast else name

/-- A name `x/` where `x` is another name that does not end in a slash. -/
def Slashed (name x : List Byte) : Prop := name = x ++ [47] ∧ x ≠ [] ∧ x.getLast? ≠ some 47

/-- No two entries for one path, and one answer for its two spellings. -/
structure OneEntryPerPath (t : Tables) : Prop where
  distinct : t.sfile.Pairwise fun f g => bare f.name ≠ bare g.name
  same : ∀ x, x ≠ [] → x.getLast? ≠ some 47 →
    filelist_search t x = filelist_search t (x ++ [47])

/-- A sequence of calls of `filenode_insert`. -/
def insertAll : List (List Byte × List Byte) → Tables → Except Fault Tables
  | [], t => .ok t
  | (name, dn) :: rest, t => do insertAll rest (← filenode_insert name dn t)

/-- Behind the names `seen`, every name `x/` comes after `x`. -/
def BareFirst : List (List Byte) → List (List Byte) → Prop
  | _, [] => True
  | seen, name :: rest =>
      (∀ x, Slashed name x → x ∈ seen) ∧ BareFirst (name :: seen) rest

/-- No entry has a name `x/`. -/
def Unslashed (names : List (List Byte)) : Prop := ∀ name ∈ names, ∀ x, ¬ Slashed name x

/-- The names of the entries, of all that were inserted: none finds an earlier one, and a name
without a closing slash is among them. -/
structure Stored (seen names : List (List Byte)) : Prop where
  missed : names.Pairwise fun a b => spells b a = false
  inserted : ∀ a ∈ names, a ∈ seen
  kept : ∀ x ∈ seen, x.getLast? ≠ some 47 → x ∈ names

section Names

variable {t t' : Tables} {f : Filelist} {files files' : List Filelist} {names seen : List (List Byte)}
  {path dn name x : List Byte} {calls : List (List Byte × List Byte)}

theorem spells_iff : spells path name = true ↔ name = path ∨ name = bare path := by
  simp [spells, bare]

theorem bare_of_not (open_ : x.getLast? ≠ some 47) : bare x = x := by rw [bare, if_neg open_]

theorem bare_append (x : List Byte) : bare (x ++ [47]) = x := by simp [bare]

/-- A name with a closing slash is its bare name with the slash. -/
theorem bare_slash (closed : name.getLast? = some 47) : name = bare name ++ [47] := by
  rw [bare, if_pos closed]
  obtain ⟨front, rfl⟩ := List.getLast?_eq_some_iff.1 closed
  rw [List.dropLast_concat]

/-- What `filenode_insert` does to the names of the entries. -/
theorem enters_names (enters : Enters path dn files files') :
    ((∃ a ∈ files.map Filelist.name, spells path a = true) ∧
      files'.map Filelist.name = files.map Filelist.name) ∨
    ((∀ a ∈ files.map Filelist.name, spells path a = false) ∧
      files'.map Filelist.name = files.map Filelist.name ++ [path]) := by
  cases enters with
  | new absent =>
    right
    constructor
    · intro a mem
      obtain ⟨f, hf, rfl⟩ := List.mem_map.1 mem
      exact Bool.eq_false_iff.2 (List.find?_eq_none.1 absent f hf)
    · rw [List.map_append]
      rfl
  | @more before after f i split other named free =>
    left
    subst split
    constructor
    · exact ⟨f.name, List.mem_map_of_mem (List.mem_append_right _ List.mem_cons_self), named⟩
    · simp only [List.map_append, List.map_cons]
      rfl

theorem Stored.enters (stored : Stored seen (files.map Filelist.name))
    (enters : Enters path dn files files') :
    Stored (path :: seen) (files'.map Filelist.name) := by
  rcases enters_names enters with ⟨⟨a, mem, found⟩, same⟩ | ⟨absent, longer⟩
  · rw [same]
    refine ⟨stored.missed, fun b hb => List.mem_cons_of_mem _ (stored.inserted b hb), ?_⟩
    intro x hx open_
    rcases List.mem_cons.1 hx with rfl | old
    · rw [spells_iff, bare_of_not open_, or_self] at found
      exact found ▸ mem
    · exact stored.kept x old open_
  · rw [longer]
    constructor
    · rw [List.pairwise_append]
      refine ⟨stored.missed, List.pairwise_singleton _ _, fun a ha b hb => ?_⟩
      obtain rfl := List.mem_singleton.1 hb
      exact absent a ha
    · intro a ha
      rcases List.mem_append.1 ha with old | new
      · exact List.mem_cons_of_mem _ (stored.inserted a old)
      · exact List.mem_cons.2 (.inl (List.mem_singleton.1 new))
    · intro x hx open_
      rcases List.mem_cons.1 hx with rfl | old
      · exact List.mem_append_right _ (List.mem_singleton_self _)
      · exact List.mem_append_left _ (stored.kept x old open_)

/-- An insertion keeps the names unslashed exactly if its own name, when it is slashed, was inserted
without the slash before. -/
theorem unslashed_enters (stored : Stored seen (files.map Filelist.name))
    (enters : Enters path dn files files') : Unslashed (files'.map Filelist.name) ↔
      Unslashed (files.map Filelist.name) ∧ ∀ x, Slashed path x → x ∈ seen := by
  rcases enters_names enters with ⟨⟨a, mem, found⟩, same⟩ | ⟨absent, longer⟩
  · rw [same]
    refine ⟨fun unslashed => ⟨unslashed, fun x slashed => ?_⟩, And.left⟩
    have bare_path : bare path = x := by rw [slashed.1, bare_append]
    rw [spells_iff, bare_path] at found
    rcases found with rfl | rfl
    · exact absurd slashed (unslashed a mem x)
    · exact stored.inserted a mem
  · rw [longer]
    constructor
    · intro unslashed
      refine ⟨fun a ha => unslashed a (List.mem_append_left _ ha), fun x slashed => ?_⟩
      exact absurd slashed (unslashed path (List.mem_append_right _ (List.mem_singleton_self _)) x)
    · rintro ⟨unslashed, before⟩ a ha x slashed
      rcases List.mem_append.1 ha with old | new
      · exact unslashed a old x slashed
      · obtain rfl := List.mem_singleton.1 new
        have mem := stored.kept x (before x slashed) slashed.2.2
        have found : spells a x = true := by
          rw [spells_iff, slashed.1, bare_append]
          exact .inr rfl
        rw [absent x mem] at found
        cases found

/-! ## The entries and their names -/

/-- A path without a closing slash is only found under its own name. -/
theorem named_bare (open_ : x.getLast? ≠ some 47) : f.named x = true ↔ f.name = x := by
  rw [← spells_name, spells_iff, bare_of_not open_, or_self]

theorem named_slash : f.named (x ++ [47]) = true ↔ f.name = x ++ [47] ∨ f.name = x := by
  rw [← spells_name, spells_iff, bare_append]

/-- An entry with a name `x/` is not found for `x`. -/
theorem unslashed_of_same (missed : (t.sfile.map Filelist.name).Pairwise fun a b => spells b a = false)
    (same : ∀ x, x ≠ [] → x.getLast? ≠ some 47 →
      filelist_search t x = filelist_search t (x ++ [47])) :
    Unslashed (t.sfile.map Filelist.name) := by
  rintro a mem x ⟨rfl, nonempty, open_⟩
  obtain ⟨g, hg, name⟩ := List.mem_map.1 mem
  have named : g.named (x ++ [47]) = true := named_slash.2 (.inl name)
  cases found : filelist_search t (x ++ [47]) with
  | none => exact absurd named (List.find?_eq_none.1 found g hg)
  | some f =>
    have short : f.name = x := by
      have entry : filelist_search t x = some f := (same x nonempty open_).trans found
      exact (named_bare open_).1 (filelist_search_mem entry).2
    obtain ⟨-, before, after, split, other⟩ := List.find?_eq_some_iff_append.1 found
    rw [split, List.mem_append, List.mem_cons] at hg
    rcases hg with old | rfl | behind
    · have unnamed := other g old
      rw [named] at unnamed
      cases unnamed
    · rw [short] at name
      simp at name
    · -- the entry for `x` was there when `x/` was inserted
      rw [split, List.map_append, List.map_cons, List.pairwise_append, List.pairwise_cons] at missed
      have unnamed := missed.2.1.1 g.name (List.mem_map_of_mem behind)
      rw [name, spells_name, named_slash.2 (.inr short)] at unnamed
      cases unnamed

theorem same_of_unslashed (unslashed : Unslashed (t.sfile.map Filelist.name)) (nonempty : x ≠ [])
    (open_ : x.getLast? ≠ some 47) : filelist_search t x = filelist_search t (x ++ [47]) := by
  apply List.find?_congr
  intro f mem
  have other : f.name ≠ x ++ [47] := fun name =>
    unslashed f.name (List.mem_map_of_mem mem) x ⟨name, nonempty, open_⟩
  rw [Bool.eq_iff_iff, named_bare open_, named_slash, or_iff_right other]

/-- Two unslashed names for one path are one name. -/
theorem bare_ne {a b : List Byte} (missed : spells b a = false) (nonempty : b ≠ [])
    (unslashed : ∀ x, ¬ Slashed a x) : bare a ≠ bare b := by
  intro same
  have other := Bool.eq_false_iff.1 missed
  rw [Ne, spells_iff, not_or, ← same] at other
  by_cases closed : a.getLast? = some 47
  · have whole := bare_slash closed
    by_cases closedB : b.getLast? = some 47
    · refine other.1 ?_
      rw [whole, same, ← bare_slash closedB]
    · rw [bare_of_not closedB] at same
      exact unslashed (bare a) ⟨whole, same ▸ nonempty, same ▸ closedB⟩
  · exact other.2 (bare_of_not closed).symm

theorem oneEntry_iff_unslashed (stored : Stored seen (t.sfile.map Filelist.name))
    (nonempty : ∀ a ∈ seen, a ≠ []) :
    OneEntryPerPath t ↔ Unslashed (t.sfile.map Filelist.name) := by
  refine ⟨fun one => unslashed_of_same stored.missed one.same, fun unslashed => ⟨?_, ?_⟩⟩
  · have distinct : (t.sfile.map Filelist.name).Pairwise fun a b => bare a ≠ bare b := by
      apply stored.missed.imp_of_mem
      intro a b ha hb missed
      exact bare_ne missed (nonempty b (stored.inserted b hb)) (unslashed a ha)
    rwa [List.pairwise_map] at distinct
  · intro x nonemptyX open_
    exact same_of_unslashed unslashed nonemptyX open_

/-! ## Runs -/

theorem insertAll_stored (nonempty : ∀ c ∈ calls, c.1 ≠ []) (seenNonempty : ∀ a ∈ seen, a ≠ [])
    (stored : Stored seen (t.sfile.map Filelist.name)) (run : insertAll calls t = .ok t') :
    ∃ seen', Stored seen' (t'.sfile.map Filelist.name) ∧ (∀ a ∈ seen', a ≠ []) ∧
      (Unslashed (t'.sfile.map Filelist.name) ↔
        Unslashed (t.sfile.map Filelist.name) ∧ BareFirst seen (calls.map Prod.fst)) := by
  induction calls generalizing t seen with
  | nil =>
    cases run
    exact ⟨seen, stored, seenNonempty, by simp [BareFirst]⟩
  | cons call rest ih =>
    obtain ⟨name, dn⟩ := call
    obtain ⟨t₁, inserted, run⟩ := bind_eq_ok.1 run
    obtain ⟨-, files, enters, rfl⟩ := filenode_insert_enters inserted
    have first : name ≠ [] := nonempty _ List.mem_cons_self
    have more : ∀ a ∈ name :: seen, a ≠ [] := List.forall_mem_cons.2 ⟨first, seenNonempty⟩
    obtain ⟨seen', stored', nonempty', kept⟩ :=
      ih (fun c mem => nonempty c (List.mem_cons_of_mem _ mem)) more (stored.enters enters) run
    refine ⟨seen', stored', nonempty', ?_⟩
    rw [kept, unslashed_enters stored enters, and_assoc]
    rfl

end Names

/-- In a file list that insertions lead to, every path has one entry exactly if every name `x/` was
inserted after `x`. -/
theorem oneEntryPerPath_iff {nodes : NodeList} {calls : List (List Byte × List Byte)} {t : Tables}
    (nonempty : ∀ c ∈ calls, c.1 ≠ []) (run : insertAll calls ⟨nodes, []⟩ = .ok t) :
    OneEntryPerPath t ↔ BareFirst [] (calls.map Prod.fst) := by
  have start : Stored [] (([] : List Filelist).map Filelist.name) :=
    ⟨.nil, by simp, by simp⟩
  obtain ⟨seen, stored, kept, unslashed⟩ := insertAll_stored nonempty (by simp) start run
  rw [oneEntry_iff_unslashed stored kept, unslashed, and_iff_right]
  simp [Unslashed]

/-- Two paths on two data nodes, one of them in both spellings. -/
def threeCalls : List (List Byte × List Byte) :=
  [(str "/f", str "d"), (str "/g", str "d"), (str "/f/", str "e")]

theorem oneEntryPerPath_iff_threeCalls : ∃ t, insertAll threeCalls ⟨⟨[], []⟩, []⟩ = .ok t ∧
    (OneEntryPerPath t ↔ BareFirst [] (threeCalls.map Prod.fst)) :=
  have run : insertAll threeCalls ⟨⟨[], []⟩, []⟩ = .ok ⟨⟨[], []⟩,
      [(Filelist.present ⟨str "/f", fun _ => 0, fun _ => []⟩ 0 (str "d")).present 1 (str "e"),
        Filelist.present ⟨str "/g", fun _ => 0, fun _ => []⟩ 0 (str "d")]⟩ := rfl
  ⟨_, run, oneEntryPerPath_iff (by decide) run⟩

/-- The path `/f` in two entries. -/
def twoSpellings : Tables :=
  ⟨⟨[], []⟩, [Filelist.present ⟨str "/f/", fun _ => 0, fun _ => []⟩ 0 (str "d"),
    Filelist.present ⟨str "/f", fun _ => 0, fun _ => []⟩ 0 (str "d")]⟩

/-- A path that is inserted with a closing slash and then without it. -/
theorem twoSpellings_apart :
    insertAll [(str "/f/", str "d"), (str "/f", str "d")] ⟨⟨[], []⟩, []⟩ = .ok twoSpellings ∧
      ¬ OneEntryPerPath twoSpellings := by
  refine ⟨rfl, fun one => ?_⟩
  have apart := (List.pairwise_cons.1 one.distinct).1 _ (List.mem_singleton_self _)
  exact apart (by decide)

end DistFs.Wire
