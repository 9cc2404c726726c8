import DistFs.Registry.Restart

/-!
# The latest news about each node

Registrations and probes from an empty list.  The names stand in order of first registration, and a
flag is cleared exactly while a failed probe is the latest news.  A known name keeps the address of
its first registration: one that comes back with another address is listed with the old one.
-/

namespace DistFs.Registry

open CText

/-- What the name node hears of the data nodes: one reports, or some are probed. -/
inductive News where
  | registers (name ip : List Byte)
  | probes (answers : List Byte → Bool)

namespace News

/-- What the news makes the name node do. -/
def operation : News → Operation
  | .registers name ip => .register name ip 1
  | .probes answers => .probe answers

/-- The data node that reports. -/
def reported : News → Option (List Byte)
  | .registers name _ => some name
  | .probes _ => none

/-- The address that `name` reports. -/
def address (name : List Byte) : News → Option (List Byte)
  | .registers node ip => if node = name then some ip else none
  | .probes _ => none

end News

/-- The list after some news. -/
def listed (news : List News) : List Datanode := evolveAll (news.map News.operation)

/-- The names that were ever registered, in order of first registration. -/
def names (news : List News) : List (List Byte) := (news.filterMap News.reported).eraseDups

/-- The addresses of the registrations of `name`. -/
def addresses (name : List Byte) (news : List News) : List (List Byte) :=
  news.filterMap (News.address name)

/-- The data nodes that a probe pings in vain: those marked alive in front of the first of them that
answers. -/
def silent (answers : List Byte → Bool) (dlist : List Datanode) : List Datanode :=
  (dlist.filter fun d => d.alive ≠ 0).takeWhile fun d => !answers d.node

/-- A probe of the node failed after its most recent registration. -/
def FailedSince (name : List Byte) (news : List News) : Prop :=
  ∃ before answers after, news = before ++ .probes answers :: after ∧
    name ∈ (silent answers (listed before)).map Datanode.node ∧ ∀ ip, .registers name ip ∉ after

/-- The list reflects the latest news about each node. -/
structure UpToDate (news : List News) (dlist : List Datanode) : Prop where
  nodes : dlist.map Datanode.node = names news
  address : ∀ d ∈ dlist, (addresses d.node news).getLast? = some d.ip
  flag : ∀ d ∈ dlist, d.alive = 0 ↔ FailedSince d.node news

/-- What the entry of a name takes in the configuration file: the name, the first address, a flag
and three separators. -/
def entrySize (news : List News) (name : List Byte) : ℕ :=
  name.length + ((addresses name news).headD []).length + 4

/-- The size of the configuration file after some news. -/
def configSize (news : List News) : ℕ := ((names news).map (entrySize news)).sum

/-! ## One operation on a list without duplicates -/

section Operations

variable {dlist : List Datanode} {name ip : List Byte}

/-- Behind the only node of a name there are nodes of other names. -/
theorem other_nodes {d : Datanode} (only : d.node ∉ dlist.map Datanode.node) :
    ∀ e ∈ dlist, e.node ≠ d.node := by
  intro e he same
  apply only
  rw [← same]
  exact List.mem_map_of_mem he

/-- A registration of a known node sets the flag of that node. -/
theorem entered_map (nodup : (dlist.map Datanode.node).Nodup)
    (known : name ∈ dlist.map Datanode.node) (alive : ℤ) :
    entered name ip alive dlist =
      dlist.map fun d => if d.node = name then { d with alive := 1 } else d := by
  rcases entered_cases name ip alive dlist with
    ⟨fresh, -⟩ | ⟨before, d, after, rfl, rfl, others, same⟩
  · exact absurd known fresh
  · rw [List.map_append, List.map_cons, List.nodup_middle, List.nodup_cons, List.mem_append,
      not_or] at nodup
    have behind := other_nodes nodup.1.2
    rw [same, List.map_append, List.map_cons, if_pos rfl,
      List.map_congr_left fun e he => if_neg (others e he),
      List.map_congr_left fun e he => if_neg (behind e he), List.map_id', List.map_id']

/-- A probe clears the flags of the nodes that it pings in vain. -/
theorem probe_map (nodup : (dlist.map Datanode.node).Nodup) (answers : List Byte → Bool) :
    (probe answers dlist).2 = dlist.map fun d =>
      if d.node ∈ (silent answers dlist).map Datanode.node then { d with alive := 0 } else d := by
  induction dlist with
  | nil => rfl
  | cons d rest ih =>
    rw [List.map_cons, List.nodup_cons] at nodup
    have later : d.node ∉ (silent answers rest).map Datanode.node := by
      intro h
      apply nodup.1
      refine List.Sublist.subset (List.Sublist.map _ ?_) h
      exact (List.takeWhile_sublist _).trans List.filter_sublist
    rw [probe, silent]
    by_cases dead : d.alive = 0
    · rw [if_neg fun h => h.1 dead, List.filter_cons_of_neg (by simpa using dead)]
      show { d with alive := 0 } :: (probe answers rest).2 = _
      rw [ih nodup.2, List.map_cons, ← silent, if_neg later, ← dead]
    · rw [List.filter_cons_of_pos (by simpa using dead)]
      by_cases heard : answers d.node = true
      · rw [if_pos ⟨dead, heard⟩, List.takeWhile_cons_of_neg (by simpa using heard)]
        simp
      · rw [if_neg fun h => heard h.2, List.takeWhile_cons_of_pos (by simpa using heard)]
        show { d with alive := 0 } :: (probe answers rest).2 = _
        rw [ih nodup.2, List.map_cons, ← silent]
        rw [if_pos (by simp)]
        refine congrArg _ (List.map_congr_left fun e he => ?_)
        simp [other_nodes nodup.1 e he]

end Operations

/-! ## What one more piece of news changes -/

section Events

variable {news : List News} {name node ip : List Byte} {answers : List Byte → Bool}

theorem listed_registers : listed (news ++ [.registers name ip]) =
    entered name ip 1 (listed news) := by
  rw [listed, List.map_append, List.map_singleton, evolveAll_concat]
  rfl

theorem listed_probes : listed (news ++ [.probes answers]) =
    (probe answers (listed news)).2 := by
  rw [listed, List.map_append, List.map_singleton, evolveAll_concat]
  rfl

theorem names_nodup (news : List News) : (names news).Nodup := by
  rw [names]
  induction (news.filterMap News.reported) using List.reverseRecOn with
  | nil => exact List.nodup_nil
  | append_singleton l name ih =>
    rw [List.eraseDups_append]
    by_cases known : name ∈ l
    · simpa [List.cons_removeAll, known] using ih
    · have new : [name].removeAll l = [name] := by simp [List.cons_removeAll, known]
      have single : [name].eraseDups = [name] := by simp [List.eraseDups_cons]
      rw [new, single]
      exact ih.append (List.nodup_singleton _) (by simpa using known)

theorem names_probes : names (news ++ [.probes answers]) = names news := by
  rw [names, List.filterMap_append]
  exact congrArg _ (List.append_nil _)

theorem names_known (known : name ∈ names news) :
    names (news ++ [.registers name ip]) = names news := by
  rw [names, List.mem_eraseDups] at known
  simp only [names, List.filterMap_append, List.filterMap_cons, List.filterMap_nil, News.reported,
    List.eraseDups_append, List.cons_removeAll]
  simp [known]

theorem names_new (fresh : name ∉ names news) :
    names (news ++ [.registers name ip]) = names news ++ [name] := by
  rw [names, List.mem_eraseDups] at fresh
  simp only [names, List.filterMap_append, List.filterMap_cons, List.filterMap_nil, News.reported,
    List.eraseDups_append, List.cons_removeAll]
  simp [fresh, List.eraseDups_cons]

theorem addresses_probes : addresses name (news ++ [.probes answers]) = addresses name news := by
  simp [addresses, News.address]

theorem addresses_registers : addresses name (news ++ [.registers node ip]) =
    addresses name news ++ if node = name then [ip] else [] := by
  by_cases same : node = name <;> simp [addresses, News.address, same]

theorem addresses_eq_nil : addresses name news = [] ↔ name ∉ names news := by
  rw [names, List.mem_eraseDups, addresses, List.filterMap_eq_nil_iff]
  constructor
  · intro none_ mem
    obtain ⟨item, he, reported⟩ := List.mem_filterMap.1 mem
    have := none_ item he
    cases item with
    | registers node ip =>
      cases reported
      simp [News.address] at this
    | probes => cases reported
  · intro absent item he
    cases item with
    | registers node ip =>
      have other : node ≠ name := by
        rintro rfl
        exact absent (List.mem_filterMap.2 ⟨_, he, rfl⟩)
      exact if_neg other
    | probes => rfl

/-- The first address of a name stays its first. -/
theorem first_address (known : name ∈ names news) (item : News) :
    (addresses name (news ++ [item])).head? = (addresses name news).head? := by
  have some_ : addresses name news ≠ [] := fun h => addresses_eq_nil.1 h known
  cases item with
  | registers => rw [addresses_registers, List.head?_append_of_ne_nil _ some_]
  | probes => rw [addresses_probes]

theorem failedSince_registers : FailedSince node (news ++ [.registers name ip]) ↔
    node ≠ name ∧ FailedSince node news := by
  constructor
  · rintro ⟨before, answers, after, split, failed, since⟩
    rcases List.eq_nil_or_concat after with rfl | ⟨after, item, rfl⟩
    · have := List.append_inj_right' split rfl
      simp at this
    · have parts : news ++ [.registers name ip] = (before ++ .probes answers :: after) ++ [item] := by
        simpa using split
      obtain ⟨rfl, last⟩ := List.append_inj' parts rfl
      obtain rfl := (List.cons.inj last).1
      refine ⟨?_, before, answers, after, rfl, failed, fun ip h => since ip (by simp [h])⟩
      rintro rfl
      exact since ip (by simp)
  · rintro ⟨other, before, answers, after, rfl, failed, since⟩
    refine ⟨before, answers, after ++ [.registers name ip], by simp, failed, fun ip h => ?_⟩
    rcases List.mem_append.1 h with h | h
    · exact since ip h
    · simp [other] at h

theorem failedSince_probes : FailedSince node (news ++ [.probes answers]) ↔
    node ∈ (silent answers (listed news)).map Datanode.node ∨ FailedSince node news := by
  constructor
  · rintro ⟨before, answers', after, split, failed, since⟩
    rcases List.eq_nil_or_concat after with rfl | ⟨after, item, rfl⟩
    · obtain ⟨rfl, last⟩ := List.append_inj' split rfl
      cases last
      exact .inl failed
    · have parts : news ++ [.probes answers] = (before ++ .probes answers' :: after) ++ [item] := by
        simpa using split
      obtain ⟨rfl, -⟩ := List.append_inj' parts rfl
      exact .inr ⟨before, answers', after, rfl, failed, fun ip h => since ip (by simp [h])⟩
  · rintro (failed | ⟨before, answers', after, rfl, failed, since⟩)
    · exact ⟨news, answers, [], rfl, failed, fun ip => List.not_mem_nil⟩
    · refine ⟨before, answers', after ++ [.probes answers], by simp, failed, fun ip h => ?_⟩
      rcases List.mem_append.1 h with h | h
      · exact since ip h
      · simp at h

/-! ## The list after a history -/

/-- What the list holds: the names, for each the first address, and the flag. -/
structure Tracks (news : List News) : Prop where
  nodes : (listed news).map Datanode.node = names news
  address : ∀ d ∈ listed news, (addresses d.node news).head? = some d.ip
  flag : ∀ d ∈ listed news,
    d.alive = 0 ∧ FailedSince d.node news ∨ d.alive = 1 ∧ ¬ FailedSince d.node news

theorem Tracks.nodup (tracks : Tracks news) : ((listed news).map Datanode.node).Nodup := by
  rw [tracks.nodes]
  exact names_nodup news

theorem Tracks.named (tracks : Tracks news) {d : Datanode} (hd : d ∈ listed news) :
    d.node ∈ names news := by
  rw [← tracks.nodes]
  exact List.mem_map_of_mem hd

theorem Tracks.registers_known (tracks : Tracks news) (known : name ∈ names news) :
    Tracks (news ++ [.registers name ip]) := by
  have list : entered name ip 1 (listed news) =
      (listed news).map fun d => if d.node = name then { d with alive := 1 } else d :=
    entered_map tracks.nodup (by rwa [tracks.nodes]) 1
  constructor
  · rw [listed_registers, names_known known, ← tracks.nodes, list, List.map_map]
    refine List.map_congr_left fun d hd => ?_
    simp only [Function.comp]
    split_ifs <;> rfl
  · rw [listed_registers, list, List.forall_mem_map]
    intro d hd
    split_ifs <;> rw [← tracks.address d hd] <;> exact first_address (tracks.named hd) _
  · rw [listed_registers, list, List.forall_mem_map]
    intro d hd
    split_ifs with same
    · refine .inr ⟨rfl, fun failed => ?_⟩
      exact (failedSince_registers.1 failed).1 same
    · rw [failedSince_registers, and_iff_right same]
      exact tracks.flag d hd

theorem Tracks.registers_new (tracks : Tracks news) (fresh : name ∉ names news) :
    Tracks (news ++ [.registers name ip]) := by
  have list : entered name ip 1 (listed news) = listed news ++ [⟨name, ip, 1⟩] :=
    entered_new (by rwa [tracks.nodes])
  constructor
  · rw [listed_registers, names_new fresh, list, List.map_append, tracks.nodes]
    rfl
  · rw [listed_registers, list, List.forall_mem_append, List.forall_mem_singleton]
    refine ⟨fun d hd => ?_, ?_⟩
    · rw [first_address (tracks.named hd), tracks.address d hd]
    · rw [addresses_registers, addresses_eq_nil.2 fresh, if_pos rfl]
      rfl
  · rw [listed_registers, list, List.forall_mem_append, List.forall_mem_singleton]
    refine ⟨fun d hd => ?_, .inr ⟨rfl, fun failed => (failedSince_registers.1 failed).1 rfl⟩⟩
    have other : d.node ≠ name := by
      rintro rfl
      exact fresh (tracks.named hd)
    rw [failedSince_registers, and_iff_right other]
    exact tracks.flag d hd

theorem Tracks.probes (tracks : Tracks news) (answers : List Byte → Bool) :
    Tracks (news ++ [.probes answers]) := by
  have list := probe_map tracks.nodup answers
  constructor
  · rw [listed_probes, names_probes, ← tracks.nodes, list, List.map_map]
    refine List.map_congr_left fun d hd => ?_
    simp only [Function.comp]
    split_ifs <;> rfl
  · rw [listed_probes, list, List.forall_mem_map]
    intro d hd
    rw [addresses_probes]
    split_ifs <;> exact tracks.address d hd
  · rw [listed_probes, list, List.forall_mem_map]
    intro d hd
    split_ifs with failed
    · exact .inl ⟨rfl, failedSince_probes.2 (.inl failed)⟩
    · rw [failedSince_probes, or_iff_right failed]
      exact tracks.flag d hd

theorem tracks (news : List News) : Tracks news := by
  induction news using List.reverseRecOn with
  | nil => exact ⟨rfl, by simp [listed, evolveAll], by simp [listed, evolveAll]⟩
  | append_singleton news item ih =>
    cases item with
    | registers name ip =>
      by_cases known : name ∈ names news
      · exact ih.registers_known known
      · exact ih.registers_new known
    | probes answers => exact ih.probes answers

/-! ## The size of the file -/

theorem text_length (news : List News) : (text (listed news)).length = configSize news := by
  have line (d : Datanode) (hd : d ∈ listed news) :
      d.line.length = entrySize news d.node := by
    have one : d.alive = 0 ∨ d.alive = 1 := ((tracks news).flag d hd).imp And.left And.left
    have digit : (snprintf 10 d.alive).length = 1 := by
      rcases one with one | one <;> rw [one] <;> decide
    have ip : (addresses d.node news).headD [] = d.ip := by
      rw [List.headD_eq_head?_getD, (tracks news).address d hd]
      rfl
    simp only [Datanode.line, entrySize, ip, List.length_append, List.length_cons, List.length_nil,
      digit]
    omega
  rw [text, List.length_flatMap, configSize, ← (tracks news).nodes, List.map_map]
  exact congrArg List.sum (List.map_congr_left line)

/-- The file never gets smaller. -/
theorem configSize_mono (news : List News) (item : News) :
    configSize news ≤ configSize (news ++ [item]) := by
  have same (name : List Byte) (hn : name ∈ names news) :
      entrySize (news ++ [item]) name = entrySize news name := by
    rw [entrySize, entrySize, List.headD_eq_head?_getD, List.headD_eq_head?_getD, first_address hn]
  have kept : configSize news = ((names news).map (entrySize (news ++ [item]))).sum := by
    rw [configSize, List.map_congr_left same]
  rw [kept, configSize]
  cases item with
  | registers name ip =>
    by_cases known : name ∈ names news
    · rw [names_known known]
    · rw [names_new known, List.map_append, List.sum_append]
      exact Nat.le_add_right _ _
  | probes answers => rw [names_probes]

end Events

/-- An operation that does not overflow the buffer leaves a list that fits it. -/
theorem Operation.run_fits {op : Operation} {r r' : NodeList} (ran : op.run r = .ok r') :
    (text (op.evolve r.dlist)).length < 10000 := by
  cases op with
  | register name ip alive =>
    obtain ⟨⟨r'', cursor⟩, wrote, -⟩ := map_eq_ok.1 ran
    exact (datanode_filewrite_ok wrote).1
  | probe answers =>
    obtain ⟨found, fetched, -⟩ := map_eq_ok.1 ran
    rw [fetch_datanode] at fetched
    split_ifs at fetched with empty
    · rw [Operation.evolve, empty, Registry.probe]
      decide
    · obtain ⟨⟨r'', cursor⟩, wrote, -⟩ := map_eq_ok.1 fetched
      exact (datanode_filewrite_ok wrote).1

/-- A history runs to its end if and only if the file fits its buffer. -/
theorem runAll_ok_iff {news : List News} {r : NodeList} :
    runAll (news.map News.operation) = .ok r ↔
      configSize news < 10000 ∧ r = ⟨listed news, text (listed news)⟩ := by
  induction news using List.reverseRecOn generalizing r with
  | nil =>
    constructor
    · intro ran
      cases ran
      exact ⟨by decide, rfl⟩
    · rintro ⟨-, rfl⟩
      rfl
  | append_singleton news item ih =>
    have list : listed (news ++ [item]) = item.operation.evolve (listed news) := by
      rw [listed, List.map_append, List.map_singleton, evolveAll_concat]
      rfl
    have smaller := configSize_mono news item
    have step (fits : (text (item.operation.evolve (listed news))).length < 10000) :=
      Operation.run_eq (r := ⟨listed news, text (listed news)⟩) rfl fits
    rw [← text_length (news ++ [item]), list] at smaller ⊢
    rw [List.map_append, List.map_singleton, runAll_concat, bind_eq_ok]
    constructor
    · rintro ⟨r', ran, last⟩
      obtain ⟨-, rfl⟩ := ih.1 ran
      have fits := Operation.run_fits last
      rw [step fits] at last
      cases last
      exact ⟨fits, rfl⟩
    · rintro ⟨fits, rfl⟩
      exact ⟨_, ih.2 ⟨smaller.trans_lt fits, rfl⟩, step fits⟩

/-- The registry reflects the latest news after a history if and only if its file fits the buffer
and no name was last registered with another address than at first. -/
theorem upToDate_iff (news : List News) :
    (∃ r, runAll (news.map News.operation) = .ok r ∧ UpToDate news r.dlist) ↔
      configSize news < 10000 ∧
        ∀ name, (addresses name news).getLast? = (addresses name news).head? := by
  have held := tracks news
  constructor
  · rintro ⟨r, ran, upToDate⟩
    obtain ⟨fits, rfl⟩ := runAll_ok_iff.1 ran
    refine ⟨fits, fun name => ?_⟩
    by_cases known : name ∈ names news
    · rw [← held.nodes] at known
      obtain ⟨d, hd, rfl⟩ := List.mem_map.1 known
      rw [held.address d hd]
      exact upToDate.address d hd
    · rw [addresses_eq_nil.2 known]
      rfl
  · rintro ⟨fits, same⟩
    refine ⟨_, runAll_ok_iff.2 ⟨fits, rfl⟩, held.nodes, fun d hd => ?_, fun d hd => ?_⟩
    · rw [same, held.address d hd]
    · rcases held.flag d hd with ⟨flag, failed⟩ | ⟨flag, alive⟩
      · exact ⟨fun _ => failed, fun _ => flag⟩
      · rw [flag]
        exact ⟨fun h => absurd h one_ne_zero, fun failed => absurd failed alive⟩

/-- A data node comes back with another address. -/
def movedNode : List News :=
  [.registers (str "d") (str "10.0.0.1"), .registers (str "d") (str "10.0.0.2")]

theorem movedNode_stale :
    ¬ ∃ r, runAll (movedNode.map News.operation) = .ok r ∧ UpToDate movedNode r.dlist := by
  rintro ⟨r, ran, upToDate⟩
  obtain ⟨-, rfl⟩ := runAll_ok_iff.1 ran
  have list : listed movedNode = [⟨str "d", str "10.0.0.1", 1⟩] := by decide
  have latest := upToDate.address ⟨str "d", str "10.0.0.1", 1⟩ (by rw [list]; simp)
  have last : (addresses (str "d") movedNode).getLast? = some (str "10.0.0.2") := by decide
  rw [last] at latest
  exact absurd latest (by decide)

end DistFs.Registry
