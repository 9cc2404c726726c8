import DistFs.Wire.Forwarding

/-!
# Choosing a data node

`fetch_datanode` walks the list with the global cursor `dlist` and returns that cursor, but only after
`datanode_filewrite` has walked the list with it as well.  A live data node is probed and then lost.
-/

namespace DistFs.Wire

open CText Registry

/-- A data node that is marked alive and answers. -/
def live (net : Net) (d : Datanode) : Bool := d.alive ≠ 0 && net.alive d.node

/-- The entry with its flag cleared. -/
def dead (d : Datanode) : Datanode := { d with alive := 0 }

/-- A live data node is found whenever there is one: the first is returned, those in front of it are
marked dead, the others stay as they are, and the file holds the list, unless it was empty.  A path
without file entry has no data node only if none is live. -/
structure FindsLive (net : Net) (t : Tables) : Prop where
  fetched : ∃ r, fetch_datanode net.alive t.toNodeList = .ok (t.dlist.find? (live net), r) ∧
    r.dlist = (t.dlist.takeWhile fun d => !live net d).map dead ++
      t.dlist.dropWhile (fun d => !live net d) ∧
    (t.dlist ≠ [] → r.config = text r.dlist)
  located : ∀ path, filelist_search t path = none → ∀ t', getfiledn net t path = .ok (none, t') →
    ∀ d ∈ t.dlist, live net d = false

section Selection

variable {net : Net} {t : Tables}

/-- The loop of `fetch_datanode` stops at the first live data node. -/
theorem probe_eq (net : Net) (dlist : List Datanode) :
    probe net.alive dlist = (dlist.any (live net),
      (dlist.takeWhile fun d => !live net d).map dead ++
        dlist.dropWhile fun d => !live net d) := by
  induction dlist with
  | nil => rfl
  | cons d rest ih =>
    rw [probe, List.any_cons]
    by_cases found : live net d = true
    · have answered : d.alive ≠ 0 ∧ net.alive d.node = true := by simpa [live] using found
      rw [if_pos answered, List.takeWhile_cons_of_neg (by simp [found]),
        List.dropWhile_cons_of_neg (by simp [found]), found]
      rfl
    · have unanswered : ¬ (d.alive ≠ 0 ∧ net.alive d.node = true) := by simpa [live] using found
      rw [if_neg unanswered, List.takeWhile_cons_of_pos (by simp [found]),
        List.dropWhile_cons_of_pos (by simp [found]), ih, Bool.eq_false_iff.2 found]
      rfl

theorem find_live : t.dlist.find? (live net) = none ↔ ∀ d ∈ t.dlist, live net d = false := by
  simp [List.find?_eq_none]

theorem takeWhile_none_live {dlist : List Datanode} (none_ : ∀ d ∈ dlist, live net d = false) :
    (dlist.takeWhile fun d => !live net d) = dlist ∧
      (dlist.dropWhile fun d => !live net d) = [] := by
  have all : ∀ d ∈ dlist, (!live net d) = true := fun d hd => by rw [none_ d hd]; rfl
  exact ⟨List.takeWhile_eq_self_iff.2 all, List.dropWhile_eq_nil_iff.2 all⟩

/-- Without a live data node the loop clears every flag. -/
theorem probe_none_live {dlist : List Datanode} (none_ : ∀ d ∈ dlist, live net d = false) :
    probe net.alive dlist = (false, dlist.map dead) := by
  have any : dlist.any (live net) = false := List.any_eq_false.2 fun d hd => by simp [none_ d hd]
  obtain ⟨front, behind⟩ := takeWhile_none_live none_
  rw [probe_eq, any, front, behind, List.append_nil]

theorem fetch_datanode_dead (none_ : ∀ d ∈ t.dlist, live net d = false)
    (fits : (text (t.dlist.map dead)).length < 10000) :
    ∃ r, fetch_datanode net.alive t.toNodeList = .ok (none, r) ∧ r.dlist = t.dlist.map dead ∧
      (t.dlist ≠ [] → r.config = text r.dlist) := by
  rw [fetch_datanode]
  split_ifs with empty
  · exact ⟨t.toNodeList, rfl, by rw [empty]; rfl, fun h => absurd empty h⟩
  · refine ⟨⟨t.dlist.map dead, text (t.dlist.map dead)⟩, ?_, rfl, fun _ => rfl⟩
    simp only [probe_none_live none_, datanode_filewrite, if_pos fits]
    rfl

/-- `fetch_datanode` and `getfiledn` do what they should if and only if no data node that is marked
alive answers, and the list fits the buffer. -/
theorem findsLive_iff (net : Net) (t : Tables) : FindsLive net t ↔
    (∀ d ∈ t.dlist, live net d = false) ∧ (text (t.dlist.map dead)).length < 10000 := by
  constructor
  · rintro ⟨⟨r, fetched, -, -⟩, -⟩
    -- whatever the loop has found, nothing is returned
    have none_ := find_live.1 (fetch_datanode_none fetched)
    refine ⟨none_, ?_⟩
    rw [fetch_datanode] at fetched
    split_ifs at fetched with empty
    · rw [empty]
      decide
    · obtain ⟨⟨r', cursor⟩, wrote, -⟩ := map_eq_ok.1 fetched
      have fits := (datanode_filewrite_ok wrote).1
      rwa [probe_none_live none_] at fits
  · rintro ⟨none_, fits⟩
    obtain ⟨r, fetched, list, config⟩ := fetch_datanode_dead none_ fits
    obtain ⟨front, behind⟩ := takeWhile_none_live none_
    refine ⟨⟨r, ?_, ?_, config⟩, fun _ _ _ _ => none_⟩
    · rw [fetched, find_live.2 none_]
    · rw [list, front, behind, List.append_nil]

end Selection

/-- One data node that is up, and no file. -/
def oneLive : Tables := ⟨⟨[⟨str "d", str "10.0.0.1", 1⟩], []⟩, []⟩

theorem oneLive_overlooked : ¬ FindsLive upNet oneLive := by
  rintro ⟨⟨r, fetched, -, -⟩, -⟩
  have found : oneLive.dlist.find? (live upNet) ≠ none := by decide
  exact found (fetch_datanode_none fetched)

end DistFs.Wire
