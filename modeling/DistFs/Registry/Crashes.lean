import DistFs.Registry.Restart

/-!
# Crashes

Runs of the name node one after the other.  Only the file survives a crash; each write of it is
atomic, and a restart has read the whole of it when it inserts the first line.  From then on the
file holds no more than the lines inserted so far.
-/

namespace DistFs.Registry

open CText

/-- The name node: not running, in the loop of `readdnconfig` with what is left of the file it has
read, or behind `initdatanodelist`. -/
inductive Process where
  | down
  | reading (pending : List Byte) (dlist : List Datanode)
  | serving (dlist : List Datanode)

/-- The file and the process of the name node. -/
structure Machine where
  config : List Byte
  process : Process

/-- What can happen: a restart, one round of `readdnconfig`, an operation on the list, a crash. -/
inductive Event where
  | start
  | round
  | operate (op : Operation)
  | crash

/-- `initdatanodelist` reads a missing file like an empty one.  A fault ends the process. -/
def step (m : Machine) : Event → Machine
  | .start =>
      match m.process with
      | .down => ⟨m.config, .reading m.config []⟩
      | _ => m
  | .round =>
      match m.process with
      | .reading pending dlist =>
          match fgets 0 4096 [] ⟨pending, 0⟩ with
          | (none, _) => ⟨m.config, .serving dlist⟩
          | (some line, s) =>
              match parseLine line with
              | .error _ => ⟨m.config, .down⟩
              | .ok d =>
                  match datanode_insert d.node d.ip d.alive ⟨dlist, m.config⟩ with
                  | .error _ => ⟨m.config, .down⟩
                  | .ok r => ⟨r.config, .reading s.buf r.dlist⟩
      | _ => m
  | .operate op =>
      match m.process with
      | .serving dlist =>
          match op.run ⟨dlist, m.config⟩ with
          | .error _ => ⟨m.config, .down⟩
          | .ok r => ⟨r.config, .serving r.dlist⟩
      | _ => m
  | .crash => ⟨m.config, .down⟩

/-- The name node after a history that starts without a file. -/
def after (events : List Event) : Machine := events.foldl step ⟨[], .down⟩

/-- A line of the file is an entry for a name. -/
inductive HasEntry (name : List Byte) : List Byte → Prop where
  | here (rest : List Byte) : HasEntry name (name ++ comma :: rest)
  | later {line rest : List Byte} (oneLine : newline ∉ line) (entry : HasEntry name rest) :
      HasEntry name (line ++ newline :: rest)

/-- A name that is in the file at some moment of the history stays there. -/
def NeverForgets (events : List Event) : Prop :=
  ∀ (name : List Byte), comma ∉ name → newline ∉ name → ∀ i j, i ≤ j →
    HasEntry name (after (events.take i)).config → HasEntry name (after (events.take j)).config

/-- A registration of a host. -/
def Event.Hosts : Event → Prop
  | .operate (.register name ip _) =>
      (IsToken [comma] name ∧ newline ∉ name) ∧ IsToken [comma] ip ∧ newline ∉ ip
  | _ => True

/-- What follows the line that the next round of `readdnconfig` reads. -/
def Machine.unread (m : Machine) : List Byte :=
  match m.process with
  | .reading pending _ => (fgets 0 4096 [] ⟨pending, 0⟩).2.buf
  | _ => []

/-- `readdnconfig` does not insert a line while more of them are to come. -/
def Careful (m : Machine) : Event → Prop
  | .round => m.unread = []
  | _ => True

/-- Every step of a history is careful. -/
def CarefulFrom : Machine → List Event → Prop
  | _, [] => True
  | m, e :: rest => Careful m e ∧ CarefulFrom (step m e) rest

/-- A careful history that starts without a file. -/
def CarefulRun (events : List Event) : Prop := CarefulFrom ⟨[], .down⟩ events

instance (m : Machine) : (e : Event) → Decidable (Careful m e)
  | .round => inferInstanceAs (Decidable (m.unread = []))
  | .start | .operate _ | .crash => .isTrue trivial

instance decidableCarefulFrom : (m : Machine) → (events : List Event) →
    Decidable (CarefulFrom m events)
  | _, [] => .isTrue trivial
  | m, e :: rest =>
      have := decidableCarefulFrom (step m e) rest
      inferInstanceAs (Decidable (Careful m e ∧ CarefulFrom (step m e) rest))

instance (events : List Event) : Decidable (CarefulRun events) :=
  inferInstanceAs (Decidable (CarefulFrom _ events))

/-! ## Entries -/

section Entries

variable {d : Datanode} {dlist : List Datanode} {name : List Byte}

/-- A name and an address without separators. -/
structure Datanode.Host (d : Datanode) : Prop where
  node : IsToken [comma] d.node
  nodeLine : newline ∉ d.node
  ip : IsToken [comma] d.ip
  ipLine : newline ∉ d.ip

/-- Every data node has a name and an address without separators. -/
def AllHosts (dlist : List Datanode) : Prop := ∀ d ∈ dlist, d.Host

theorem Datanode.Host.oneLine (host : d.Host) : newline ∉ d.fields := by
  have separator : newline ≠ comma := by decide
  simp only [Datanode.fields, List.mem_append, List.mem_cons, not_or]
  exact ⟨host.nodeLine, separator, host.ipLine, separator, newline_notMem_snprintf _⟩

theorem text_cons_fields (d : Datanode) (dlist : List Datanode) :
    text (d :: dlist) = d.fields ++ newline :: text dlist := by
  rw [text_cons, line_eq, List.append_assoc, List.singleton_append]

/-- The entries of a text are those of its list. -/
theorem hasEntry_text (all : AllHosts dlist) (plain : comma ∉ name) (oneLine : newline ∉ name) :
    HasEntry name (text dlist) ↔ name ∈ dlist.map Datanode.node := by
  induction dlist with
  | nil =>
    constructor
    · intro entry
      generalize isText : text [] = m at entry
      cases entry with
      | here rest => simp [text] at isText
      | later => simp [text] at isText
    · simp
  | cons d dlist ih =>
    have host := all d List.mem_cons_self
    have ih := ih fun e he => all e (List.mem_cons_of_mem _ he)
    have nodePlain : comma ∉ d.node := fun h => host.node.plain _ h (List.mem_singleton_self _)
    rw [List.map_cons, List.mem_cons, ← ih]
    constructor
    · intro entry
      generalize isText : text (d :: dlist) = m at entry
      cases entry with
      | here rest =>
        left
        rw [text_cons, Datanode.line, List.append_assoc, List.cons_append] at isText
        exact (split_first nodePlain plain isText).1.symm
      | @later line rest plainLine entry =>
        right
        rw [text_cons_fields] at isText
        rw [(split_first host.oneLine plainLine isText).2]
        exact entry
    · rintro (rfl | entry)
      · rw [text_cons, Datanode.line, List.append_assoc, List.cons_append]
        exact .here _
      · rw [text_cons_fields]
        exact .later host.oneLine entry

end Entries

/-! ## Runs -/

section Runs

variable {m : Machine} {e : Event} {events : List Event} {l dlist : List Datanode}

/-- What holds between two steps: the file is the text of a list, which a process either has in
memory or is about to read as a whole. -/
structure Consistent (m : Machine) (l : List Datanode) : Prop where
  hosts : AllHosts l
  config : m.config = text l
  process : match m.process with
    | .down => True
    | .reading pending dlist => (pending = text l ∧ dlist = []) ∨ (pending = [] ∧ dlist = l)
    | .serving dlist => dlist = l

theorem AllHosts.entered (all : AllHosts l) {name ip : List Byte} {alive : ℤ}
    (host : Datanode.Host ⟨name, ip, alive⟩) : AllHosts (entered name ip alive l) := by
  intro d hd
  rcases entered_cases name ip alive l with ⟨-, same⟩ | ⟨before, e, after, rfl, -, -, same⟩
  · rw [same, List.mem_append, List.mem_singleton] at hd
    rcases hd with hd | rfl
    · exact all d hd
    · exact host
  · rw [same, List.mem_append, List.mem_cons] at hd
    rcases hd with hd | rfl | hd
    · exact all d (by simp [hd])
    · have old := all e (by simp)
      exact ⟨old.node, old.nodeLine, old.ip, old.ipLine⟩
    · exact all d (by simp [hd])

theorem AllHosts.probe (all : AllHosts l) (answers : List Byte → Bool) :
    AllHosts (Registry.probe answers l).2 ∧
      (Registry.probe answers l).2.map Datanode.node = l.map Datanode.node := by
  induction l with
  | nil => exact ⟨all, rfl⟩
  | cons d rest ih =>
    have host := all d List.mem_cons_self
    obtain ⟨hosts, names⟩ := ih fun e he => all e (List.mem_cons_of_mem _ he)
    rw [Registry.probe]
    split_ifs
    · exact ⟨all, rfl⟩
    · refine ⟨fun e he => ?_, ?_⟩
      · rcases List.mem_cons.1 he with rfl | he
        · exact ⟨host.node, host.nodeLine, host.ip, host.ipLine⟩
        · exact hosts e he
      · rw [List.map_cons, List.map_cons, names]

/-- An operation that returns keeps every name. -/
theorem Operation.run_keeps {op : Operation} {r : NodeList} (hosts : AllHosts l)
    (named : Event.Hosts (.operate op)) (ran : op.run ⟨l, text l⟩ = .ok r) :
    AllHosts r.dlist ∧ r.config = text r.dlist ∧
      l.map Datanode.node ⊆ r.dlist.map Datanode.node := by
  cases op with
  | register name ip alive =>
    obtain rfl := datanode_insert_ok ran
    refine ⟨hosts.entered ⟨named.1.1, named.1.2, named.2.1, named.2.2⟩, rfl, ?_⟩
    by_cases known : name ∈ l.map Datanode.node
    · rw [(entered_known known).1]
      exact fun _ h => h
    · rw [entered_new known, List.map_append]
      exact List.subset_append_left _ _
  | probe answers =>
    obtain ⟨⟨found, r'⟩, probed, rfl⟩ := map_eq_ok.1 ran
    rw [fetch_datanode] at probed
    split_ifs at probed with empty
    · cases probed
      exact ⟨hosts, rfl, fun _ h => h⟩
    · obtain ⟨⟨r, cursor⟩, wrote, same⟩ := map_eq_ok.1 probed
      obtain ⟨-, rfl, -⟩ := datanode_filewrite_ok wrote
      cases same
      obtain ⟨kept, names⟩ := hosts.probe answers
      exact ⟨kept, rfl, by rw [names]; exact fun _ h => h⟩

/-- A line of a host is read with the host's name and address, or not at all. -/
theorem Datanode.Host.parse_line {d d' : Datanode} (host : d.Host)
    (parsed : parseLine d.line = .ok d') : d'.node = d.node ∧ d'.ip = d.ip := by
  have alive := nextToken_delimited (isToken_alive d.alive) (by simp : newline ∈ [comma, newline])
    (by decide) []
  simp only [parseLine, Datanode.line, nextToken_delimited host.node (List.mem_singleton_self _)
    (by decide : comma ≠ 0), nextToken_delimited host.ip (List.mem_singleton_self _)
    (by decide : comma ≠ 0), alive] at parsed
  split_ifs at parsed
  cases parsed
  exact ⟨rfl, rfl⟩

/-- A file that is one line has one entry. -/
theorem rest_of_line {d : Datanode} {rest : List Datanode} {body : List Byte} (host : d.Host)
    (plain : newline ∉ body)
    (whole : text (d :: rest) = body ∨ text (d :: rest) = body ++ [newline]) : rest = [] := by
  rw [text_cons_fields] at whole
  rcases whole with rfl | ended
  · exact absurd plain (by simp)
  · have length := length_le_text rest
    rw [(split_first host.oneLine plain ended).2] at length
    exact List.length_eq_zero_iff.1 (by simpa using length)

/-- One careful round of `readdnconfig`. -/
theorem Consistent.round (h : Consistent m l) (careful : Careful m .round) :
    ∃ l', Consistent (step m .round) l' ∧ l.map Datanode.node ⊆ l'.map Datanode.node := by
  obtain ⟨config, process⟩ := m
  obtain ⟨hosts, config_eq, consistent⟩ := h
  simp only at config_eq consistent
  subst config_eq
  have same : l.map Datanode.node ⊆ l.map Datanode.node := fun _ h => h
  cases process with
  | down => exact ⟨l, ⟨hosts, rfl, trivial⟩, same⟩
  | serving dlist => exact ⟨l, ⟨hosts, rfl, consistent⟩, same⟩
  | reading pending dlist =>
    simp only [Careful, Machine.unread] at careful
    simp only [step]
    split
    next found =>
      refine ⟨l, ⟨hosts, rfl, ?_⟩, same⟩
      rcases consistent with ⟨rfl, rfl⟩ | ⟨-, rfl⟩
      · have empty := fgets_none (by norm_num) found
        have := length_le_text l
        rw [empty] at this
        exact (List.length_eq_zero_iff.1 (by simpa using this)).symm
      · rfl
    next line s found =>
      rw [found] at careful
      simp only at careful
      split
      · exact ⟨l, ⟨hosts, rfl, trivial⟩, same⟩
      next d parsed =>
        split
        · exact ⟨l, ⟨hosts, rfl, trivial⟩, same⟩
        next r inserted =>
          obtain rfl := datanode_insert_ok inserted
          obtain ⟨whole, body, plain, line_eq'⟩ := fgets_split found
          rw [careful, List.append_nil] at whole
          subst whole
          rcases consistent with ⟨rfl, rfl⟩ | ⟨rfl, -⟩
          · -- The line is the whole file, so its entry is the only one.
            cases l with
            | nil => cases parsed
            | cons d₀ rest =>
              have host := hosts d₀ List.mem_cons_self
              obtain rfl := rest_of_line host plain line_eq'
              obtain ⟨node, ip⟩ := host.parse_line (by simpa [text] using parsed)
              refine ⟨[d], ⟨?_, rfl, .inr ⟨careful, rfl⟩⟩, by simp [node]⟩
              intro e he
              rw [List.mem_singleton.1 he]
              exact ⟨node ▸ host.node, node ▸ host.nodeLine, ip ▸ host.ip, ip ▸ host.ipLine⟩
          · cases parsed

/-- A careful step keeps every name. -/
theorem Consistent.step (h : Consistent m l) (named : e.Hosts) (careful : Careful m e) :
    ∃ l', Consistent (step m e) l' ∧ l.map Datanode.node ⊆ l'.map Datanode.node := by
  have same : l.map Datanode.node ⊆ l.map Datanode.node := fun _ h => h
  cases e with
  | round => exact h.round careful
  | crash => exact ⟨l, ⟨h.hosts, h.config, trivial⟩, same⟩
  | start =>
    obtain ⟨config, process⟩ := m
    obtain ⟨hosts, config_eq, consistent⟩ := h
    cases process with
    | down => exact ⟨l, ⟨hosts, config_eq, .inl ⟨config_eq, rfl⟩⟩, same⟩
    | reading pending dlist => exact ⟨l, ⟨hosts, config_eq, consistent⟩, same⟩
    | serving dlist => exact ⟨l, ⟨hosts, config_eq, consistent⟩, same⟩
  | operate op =>
    obtain ⟨config, process⟩ := m
    obtain ⟨hosts, config_eq, consistent⟩ := h
    simp only at config_eq consistent
    subst config_eq
    cases process with
    | down => exact ⟨l, ⟨hosts, rfl, trivial⟩, same⟩
    | reading pending dlist => exact ⟨l, ⟨hosts, rfl, consistent⟩, same⟩
    | serving dlist =>
      simp only at consistent
      subst consistent
      simp only [Registry.step]
      split
      · exact ⟨dlist, ⟨hosts, rfl, trivial⟩, same⟩
      next r ran =>
        obtain ⟨kept, config, names⟩ := Operation.run_keeps hosts named ran
        exact ⟨r.dlist, ⟨kept, config, rfl⟩, names⟩

theorem after_concat (events : List Event) (e : Event) :
    after (events ++ [e]) = step (after events) e := by
  simp [after]

theorem CarefulFrom.at_ {before rest : List Event} (h : CarefulFrom m (before ++ e :: rest)) :
    Careful (before.foldl Registry.step m) e := by
  induction before generalizing m with
  | nil => exact h.1
  | cons e' before ih => exact ih h.2

/-- A careful history keeps every name from each of its moments on. -/
theorem Consistent.from_ (hosts : ∀ e ∈ events, e.Hosts) (careful : CarefulRun events) {i : ℕ}
    (h : Consistent (after (events.take i)) l) (k : ℕ) :
    ∃ l', Consistent (after (events.take (i + k))) l' ∧
      l.map Datanode.node ⊆ l'.map Datanode.node := by
  induction k with
  | zero => exact ⟨l, h, fun _ h => h⟩
  | succ k ih =>
    obtain ⟨l₁, consistent, names₁⟩ := ih
    by_cases inside : i + k < events.length
    · have taken : events.take (i + (k + 1)) =
          events.take (i + k) ++ [events.get ⟨i + k, inside⟩] := by
        rw [← Nat.add_assoc, List.take_succ_eq_append_getElem inside]
        rfl
      have split : events = events.take (i + k) ++ events.get ⟨i + k, inside⟩ ::
          events.drop (i + k + 1) := by
        rw [List.get_eq_getElem, List.getElem_cons_drop, List.take_append_drop]
      rw [taken, after_concat]
      obtain ⟨l₂, consistent, names₂⟩ :=
        consistent.step (hosts _ (List.get_mem _ _)) (CarefulFrom.at_ (split ▸ careful))
      exact ⟨l₂, consistent, fun _ h => names₂ (names₁ h)⟩
    · rw [List.take_of_length_le (by omega)]
      rw [List.take_of_length_le (by omega)] at consistent
      exact ⟨l₁, consistent, names₁⟩

end Runs

/-- Data nodes are never forgotten in a history in which no line is inserted while more of the file
is to be read. -/
theorem neverForgets_of_careful {events : List Event} (hosts : ∀ e ∈ events, e.Hosts)
    (careful : CarefulRun events) : NeverForgets events := by
  intro name plain oneLine i j h entry
  have start : Consistent (after (events.take 0)) [] :=
    ⟨fun d h => absurd h List.not_mem_nil, rfl, trivial⟩
  obtain ⟨l, consistent, -⟩ := start.from_ hosts careful i
  rw [Nat.zero_add] at consistent
  obtain ⟨k, rfl⟩ := Nat.exists_eq_add_of_le h
  obtain ⟨l', consistent', names⟩ := consistent.from_ hosts careful k
  rw [consistent.config, hasEntry_text consistent.hosts plain oneLine] at entry
  rw [consistent'.config, hasEntry_text consistent'.hosts plain oneLine]
  exact names entry

/-- A data node called `a` registers. -/
def registerNode (name : List Byte) : Event := .operate (.register name (str "10.0.0.1") 1)

theorem registerNode_hosts {name : List Byte} (token : IsToken [comma] name)
    (oneLine : newline ∉ name) : (registerNode name).Hosts :=
  ⟨⟨token, oneLine⟩, short_oneAddress.token, short_oneAddress.oneLine⟩

/-- One data node and a restart. -/
def oneRestart : List Event := [.start, .round, registerNode (str "a"), .crash, .start, .round]

theorem neverForgets_oneRestart : NeverForgets oneRestart := by
  refine neverForgets_of_careful ?_ ?_
  · intro e h
    simp only [oneRestart, List.mem_cons, List.not_mem_nil, or_false] at h
    rcases h with rfl | rfl | rfl | rfl | rfl | rfl
    · trivial
    · trivial
    · exact registerNode_hosts ⟨by decide +kernel, by decide +kernel, by decide +kernel⟩
        (by decide)
    · trivial
    · trivial
    · trivial
  · decide

/-- Two data nodes: the restart writes the first one before it has inserted the second. -/
def twoRestart : List Event :=
  [.start, .round, registerNode (str "a"), registerNode (str "b"), .crash, .start, .round]

theorem second_forgotten : ¬ NeverForgets twoRestart := by
  intro never
  have plain : comma ∉ str "b" := by decide
  have oneLine : newline ∉ str "b" := by decide
  have host (name : List Byte) (token : IsToken [comma] name) (line : newline ∉ name) :
      Datanode.Host ⟨name, str "10.0.0.1", 1⟩ :=
    ⟨token, line, short_oneAddress.token, short_oneAddress.oneLine⟩
  have hostA := host (str "a") ⟨by decide +kernel, by decide +kernel, by decide +kernel⟩
    (by decide)
  have hostB := host (str "b") ⟨by decide +kernel, by decide +kernel, by decide +kernel⟩
    (by decide)
  have four : (after (twoRestart.take 4)).config =
      text [⟨str "a", str "10.0.0.1", 1⟩, ⟨str "b", str "10.0.0.1", 1⟩] := by decide
  have seven : (after (twoRestart.take 7)).config = text [⟨str "a", str "10.0.0.1", 1⟩] := by
    decide
  have lost := never (str "b") plain oneLine 4 7 (by norm_num)
  rw [four, seven, hasEntry_text (by simp [AllHosts, hostA, hostB]) plain oneLine,
    hasEntry_text (by simp [AllHosts, hostA]) plain oneLine] at lost
  exact absurd (lost (by simp)) (by decide)

end DistFs.Registry
