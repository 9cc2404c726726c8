import DistFs.Runs.Flight
import DistFs.Runs.Machine
import DistFs.Wire.Monitor
import DistFs.Wire.Requests

/-!
# The monitors and the name node

`monitor` on any number of hosts and the thread of the name node that answers them, as a machine:
what is typed, the datagrams to `MONITOR_PORT` in either direction, and a network that delays,
reorders, drops and duplicates.  The other threads of the name node may put another list in the
place of the list of data nodes at any time, but not in the middle of a turn.
-/

namespace DistFs.Administration

open CText Flight Machine Registry Wire

/-! ## The loop of `main` -/

/-- What two words make `main` do. -/
inductive Entered where
  | helpme
  | dnlist
  | shut
  | replica (count : ℤ)
  | invalid
deriving DecidableEq

/-- The loop of `main` behind `scanf`, which reads two words into arrays of twenty bytes. -/
def command (first second : List Byte) : Except Fault Entered :=
  if 20 ≤ first.length ∨ 20 ≤ second.length then .error .overflow
  else if first = str "help" ∧ second = str "me" then .ok .helpme
  else if first = str "dn" ∧ second = str "list" then .ok .dnlist
  else if first = str "shut" ∧ second = str "down" then .ok .shut
  else if first = str "replica" then .ok (.replica (atoi second))
  else .ok .invalid

/-- A word that does not fit its array is all that `main` fails on. -/
theorem command_error {first second : List Byte} {f : Fault}
    (failed : command first second = .error f) : 20 ≤ first.length ∨ 20 ≤ second.length := by
  rw [command] at failed
  split_ifs at failed with long
  exact long

/-- What `dnlist` and `replica` send to the name node. -/
def Entered.request : Entered → Option (List Byte)
  | .dnlist => some DNLIST
  | .replica count => some (SENDREP ++ comma :: snprintf 10 count)
  | .helpme | .shut | .invalid => none

/-! ## The machine -/

/-- A datagram in flight: from a host to the name node, or from the name node to a host. -/
inductive Packet where
  | request (host bytes : List Byte)
  | answer (host bytes : List Byte)

/-- What has happened: the lists of data nodes, the values of `replication_count`, what was typed
where, and the pairs of words that were too long for their arrays. -/
structure History where
  lists : List (List Datanode)
  settings : List ℤ
  entered : List (List Byte × Entered)
  overlong : List (List Byte × List Byte × List Byte)

/-- The name node, the monitors and the network.  `namenode` says whether the name node runs, `ended`
and `crashed` are the hosts whose monitor has been left or has failed, and `displayed` is what the
monitors have made of the answers. -/
structure State where
  namenode : Bool
  dlist : List Datanode
  replication_count : ℤ
  ended : List (List Byte)
  crashed : List (List Byte)
  flight : List Packet
  past : History
  displayed : List (List Byte × MonitorReaction)

/-- A name node has started, and nothing has been typed. -/
def State.init (dlist : List Datanode) : State :=
  ⟨true, dlist, 0, [], [], [], ⟨[dlist], [0], [], []⟩, []⟩

/-- What may happen next: somebody types two words, another thread changes the list, the name node or
a monitor receives the packet at a position, or the network drops or duplicates it. -/
inductive Event where
  | enter (host first second : List Byte)
  | change (dlist : List Datanode)
  | answer (i : ℕ) (net : Net)
  | display (i : ℕ) (monitor_namenode namenode : List Byte)
  | lose (i : ℕ)
  | duplicate (i : ℕ)

/-- One event.  A monitor fails when what is typed or received does not fit its arrays. -/
def step (s : State) : Event → Option State
  | .enter host first second =>
      if host ∈ s.ended ++ s.crashed then none
      else
        match command first second with
        | .error _ =>
            some { s with
              crashed := host :: s.crashed
              past := { s.past with overlong := (host, first, second) :: s.past.overlong } }
        | .ok e =>
            some { s with
              ended := if e = .shut then host :: s.ended else s.ended
              flight := (e.request.map (Packet.request host)).toList ++ s.flight
              past := { s.past with entered := (host, e) :: s.past.entered } }
  | .change dlist =>
      some { s with dlist := dlist, past := { s.past with lists := dlist :: s.past.lists } }
  | .answer i net =>
      match take s.flight i, s.namenode with
      | some (.request host bytes, rest), true =>
          match monitorcommand_namenode net s.dlist s.replication_count host bytes with
          | .error _ => some { s with flight := rest, namenode := false }
          | .ok (sent, count) =>
              some { s with
                flight := (sent.map (Packet.answer host)).toList ++ rest
                replication_count := count
                past := { s.past with settings := count :: s.past.settings } }
      | _, _ => none
  | .display i monitor_namenode namenode =>
      match take s.flight i with
      | some (.answer host bytes, rest) =>
          if host ∈ s.ended ++ s.crashed then none
          else
            match receivecommand_monitor monitor_namenode namenode bytes with
            | .ok .stopped | .error _ => some { s with flight := rest, crashed := host :: s.crashed }
            | .ok reaction =>
                some { s with flight := rest, displayed := (host, reaction) :: s.displayed }
      | _ => none
  | .lose i => (take s.flight i).map fun taken => { s with flight := taken.2 }
  | .duplicate i => s.flight[i]?.map fun p => { s with flight := p :: s.flight }

/-! ## What a turn answers and a monitor shows -/

section Turns

variable {net : Net} {dlist : List Datanode} {replication_count count : ℤ} {host : List Byte}
  {sent : Option (List Byte)} {reaction : MonitorReaction} {monitor_namenode namenode : List Byte}

/-- What the monitor shows of a list: up to a space, and of the first 993 bytes alone. -/
def screen (dlist : List Datanode) : MonitorReaction :=
  .datanodes (shown (nextToken [space] ((dlist.flatMap sendlistLine).take 993)).1)

theorem answer_dnlist (answered : monitorcommand_namenode net dlist replication_count host DNLIST =
    .ok (sent, count)) : count = replication_count ∧
      ∀ bytes ∈ sent, bytes = DNLIST ++ comma :: dlist.flatMap sendlistLine := by
  have first : nextToken [comma] DNLIST = (some DNLIST, []) := nextToken_last isToken_DNLIST
  simp only [monitorcommand_namenode, first, if_true] at answered
  obtain ⟨dnbuf, listed, answered⟩ := bind_eq_ok.1 answered
  obtain ⟨datagram, sends, same⟩ := bind_eq_ok.1 answered
  cases same
  refine ⟨rfl, fun bytes mem => ?_⟩
  rw [datanode_sendlist] at listed
  rw [senddnlist] at sends
  split_ifs at listed sends
  · cases sends
    cases mem
  · cases listed
    cases sends
    exact (Option.some.inj mem).symm

/-- The name node fails only if the list does not fit its arrays. -/
theorem answer_dnlist_error {e : Fault}
    (failed : monitorcommand_namenode net dlist replication_count host DNLIST = .error e) :
    9993 ≤ (dlist.flatMap sendlistLine).length := by
  have first : nextToken [comma] DNLIST = (some DNLIST, []) := nextToken_last isToken_DNLIST
  by_contra short
  have listed : datanode_sendlist dlist = .ok (dlist.flatMap sendlistLine) := if_pos (by omega)
  have header : (DNLIST ++ comma :: dlist.flatMap sendlistLine).length < 10000 := by
    rw [List.length_append, List.length_cons, DNLIST_length]
    omega
  simp only [monitorcommand_namenode, first, if_true, listed, bind, Except.bind, senddnlist,
    if_pos header] at failed
  split_ifs at failed <;> cases failed

theorem isToken_SENDREP : IsToken [comma] SENDREP :=
  ⟨by decide +kernel, by decide +kernel, by decide +kernel⟩

theorem answer_replica (net : Net) (dlist : List Datanode) (replication_count : ℤ) (host : List Byte)
    (count : ℤ) :
    monitorcommand_namenode net dlist replication_count host (SENDREP ++ comma :: snprintf 10 count) =
      .ok (sendAckRep net host (atoi (snprintf 10 count)), atoi (snprintf 10 count)) := by
  have first := nextToken_comma isToken_SENDREP (snprintf 10 count)
  have differ : SENDREP ≠ DNLIST := by decide
  simp only [monitorcommand_namenode, first, if_neg differ, if_true, nextToken_number]
  rfl

theorem display_dnlist (shows : receivecommand_monitor monitor_namenode namenode
    (DNLIST ++ comma :: dlist.flatMap sendlistLine) = .ok reaction) : reaction = screen dlist := by
  rw [receivecommand_monitor_dnlist] at shows
  obtain ⟨ptr, read, rfl⟩ := map_eq_ok.1 shows
  rw [tokenIn] at read
  split_ifs at read
  cases read
  rfl

/-- The monitor fails only if the list does not fit its array. -/
theorem display_dnlist_error {e : Fault} (failed : receivecommand_monitor monitor_namenode namenode
    (DNLIST ++ comma :: dlist.flatMap sendlistLine) = .error e) :
    993 ≤ (dlist.flatMap sendlistLine).length := by
  rw [receivecommand_monitor_dnlist] at failed
  by_contra short
  rw [decide_eq_false short, tokenIn_terminated] at failed
  cases failed

theorem display_replica (monitor_namenode namenode : List Byte) (count : ℤ) :
    receivecommand_monitor monitor_namenode namenode (SENDREP ++ comma :: snprintf 10 count) =
      .ok (.replication (atoi (snprintf 10 count))) := by
  have header : SENDREP.length = 6 := by decide
  have digits : (snprintf 10 count).length ≤ 9 := List.length_take_le 9 _
  have length : (SENDREP ++ comma :: snprintf 10 count).length < 1000 := by
    rw [List.length_append, List.length_cons]
    omega
  have whole : (SENDREP ++ comma :: snprintf 10 count).take 1000 =
      SENDREP ++ comma :: snprintf 10 count := List.take_of_length_le length.le
  have room : decide ((SENDREP ++ comma :: snprintf 10 count).length = 1000) = false :=
    decide_eq_false (by omega)
  have differ : SENDREP ≠ R_FILEEXIST ∧ SENDREP ≠ R_READ ∧ SENDREP ≠ Command.text .shutdown ∧
      SENDREP ≠ Command.text .dn_command ∧ SENDREP ≠ DISP_RESULTS ∧ SENDREP ≠ DNLIST := by
    decide
  obtain ⟨fexist, read, shutdown, dn_command, disp_results, dnlist⟩ := differ
  unfold receivecommand_monitor
  simp only [whole, room, tokenIn_delimited isToken_SENDREP (List.mem_singleton_self comma)
    (by decide), tokenIn_terminated, nextToken_number, bind, Except.bind, if_neg fexist, if_neg read,
    if_neg shutdown, if_neg dn_command, if_neg disp_results, if_neg dnlist, if_true]
  rfl

/-- A value that has come over the wire once comes over it unchanged. -/
theorem value_again (count : ℤ) :
    atoi (snprintf 10 (atoi (snprintf 10 count))) = atoi (snprintf 10 count) :=
  atoi_snprintf_iff.2 (atoi_snprintf_range count)

end Turns

/-! ## What is shown -/

/-- Why the monitor of a host may fail: a word of twenty bytes or more was typed there, or the list
was asked for there and has had 993 bytes or more. -/
def History.Overfills (past : History) (host : List Byte) : Prop :=
  (∃ first second, (host, first, second) ∈ past.overlong ∧
      (20 ≤ first.length ∨ 20 ≤ second.length)) ∨
    (host, Entered.dnlist) ∈ past.entered ∧
      ∃ l ∈ past.lists, 993 ≤ (l.flatMap sendlistLine).length

/-- A number that was typed on a host, as it comes over the wire. -/
def History.Asked (past : History) (host : List Byte) (v : ℤ) : Prop :=
  ∃ count, (host, Entered.replica count) ∈ past.entered ∧ v = atoi (snprintf 10 count)

/-- What a monitor may show: a list that the name node has had, if the list was asked for there, or a
value that `replication_count` has had, if it was typed there. -/
inductive Shows (past : History) (host : List Byte) : MonitorReaction → Prop where
  | list {l : List Datanode} (had : l ∈ past.lists) (asked : (host, .dnlist) ∈ past.entered) :
      Shows past host (screen l)
  | replication {v : ℤ} (had : v ∈ past.settings) (asked : past.Asked host v) :
      Shows past host (.replication v)

/-- What a packet carries was typed on its host, and what it answers was so at the name node. -/
inductive Packet.Truthful (past : History) : Packet → Prop where
  | dnlist {host : List Byte} (asked : (host, Entered.dnlist) ∈ past.entered) :
      Truthful past (.request host DNLIST)
  | replica {host : List Byte} {count : ℤ} (asked : (host, Entered.replica count) ∈ past.entered) :
      Truthful past (.request host (SENDREP ++ comma :: snprintf 10 count))
  | list {host : List Byte} {l : List Datanode} (had : l ∈ past.lists)
      (asked : (host, Entered.dnlist) ∈ past.entered) :
      Truthful past (.answer host (DNLIST ++ comma :: l.flatMap sendlistLine))
  | replication {host : List Byte} {v : ℤ} (had : v ∈ past.settings) (asked : past.Asked host v) :
      Truthful past (.answer host (SENDREP ++ comma :: snprintf 10 v))

/-- The present is part of the history, and nothing else is in the network or on a screen. -/
structure Truthful (s : State) : Prop where
  list : s.dlist ∈ s.past.lists
  value : s.replication_count ∈ s.past.settings
  settings : ∀ v ∈ s.past.settings, v = 0 ∨ ∃ host, s.past.Asked host v
  flight : ∀ p ∈ s.flight, p.Truthful s.past
  displayed : ∀ d ∈ s.displayed, Shows s.past d.1 d.2
  namenode : s.namenode = false → ∃ l ∈ s.past.lists, 9993 ≤ (l.flatMap sendlistLine).length
  crashed : ∀ host ∈ s.crashed, s.past.Overfills host

/-- More has happened. -/
structure History.Grows (past later : History) : Prop where
  lists : past.lists ⊆ later.lists
  settings : past.settings ⊆ later.settings
  entered : past.entered ⊆ later.entered
  overlong : past.overlong ⊆ later.overlong

section Truthful

variable {s s' : State} {past later : History} {host : List Byte} {p : Packet} {v : ℤ}
  {reaction : MonitorReaction} {e : Event} {flight : List Packet}

theorem History.Asked.mono (grows : past.Grows later) (asked : past.Asked host v) :
    later.Asked host v := by
  obtain ⟨count, typed, same⟩ := asked
  exact ⟨count, grows.entered typed, same⟩

theorem History.Overfills.mono (grows : past.Grows later) (overfills : past.Overfills host) :
    later.Overfills host := by
  rcases overfills with ⟨first, second, typed, long⟩ | ⟨asked, l, had, long⟩
  · exact .inl ⟨first, second, grows.overlong typed, long⟩
  · exact .inr ⟨grows.entered asked, l, grows.lists had, long⟩

theorem Shows.mono (grows : past.Grows later) (shows : Shows past host reaction) :
    Shows later host reaction := by
  cases shows with
  | list had asked => exact .list (grows.lists had) (grows.entered asked)
  | replication had asked => exact .replication (grows.settings had) (asked.mono grows)

theorem Packet.Truthful.mono (grows : past.Grows later) (truthful : p.Truthful past) :
    p.Truthful later := by
  cases truthful with
  | dnlist asked => exact .dnlist (grows.entered asked)
  | replica asked => exact .replica (grows.entered asked)
  | list had asked => exact .list (grows.lists had) (grows.entered asked)
  | replication had asked => exact .replication (grows.settings had) (asked.mono grows)

theorem truthful_init (dlist : List Datanode) : Truthful (State.init dlist) where
  list := List.mem_singleton_self dlist
  value := List.mem_singleton_self 0
  settings _ mem := .inl (List.mem_singleton.1 mem)
  flight _ mem := absurd mem List.not_mem_nil
  displayed _ mem := absurd mem List.not_mem_nil
  namenode down := Bool.noConfusion down
  crashed _ mem := absurd mem List.not_mem_nil

/-- A step that adds to the history and lets everything else be. -/
theorem Truthful.grow (truthful : Truthful s) (grows : s.past.Grows later)
    (settings : ∀ v ∈ later.settings, v ∈ s.past.settings ∨ ∃ host, later.Asked host v) :
    Truthful { s with past := later } where
  list := grows.lists truthful.list
  value := grows.settings truthful.value
  settings v mem := by
    rcases settings v mem with old | asked
    · rcases truthful.settings v old with zero | ⟨host, asked⟩
      · exact .inl zero
      · exact .inr ⟨host, asked.mono grows⟩
    · exact .inr asked
  flight p mem := (truthful.flight p mem).mono grows
  displayed d mem := (truthful.displayed d mem).mono grows
  namenode down := by
    obtain ⟨l, had, long⟩ := truthful.namenode down
    exact ⟨l, grows.lists had, long⟩
  crashed host mem := (truthful.crashed host mem).mono grows

/-- A step that changes the packets in flight. -/
theorem Truthful.fly (truthful : Truthful s) (packets : ∀ p ∈ flight, p.Truthful s.past) :
    Truthful { s with flight := flight } :=
  ⟨truthful.list, truthful.value, truthful.settings, packets, truthful.displayed, truthful.namenode,
    truthful.crashed⟩

theorem Truthful.enter {first second : List Byte} (truthful : Truthful s)
    (next : step s (.enter host first second) = some s') : Truthful s' := by
  simp only [step] at next
  split_ifs at next with left
  split at next
  next e failed =>
    cases next
    have grows : s.past.Grows
        { s.past with overlong := (host, first, second) :: s.past.overlong } :=
      ⟨List.Subset.refl _, List.Subset.refl _, List.Subset.refl _, List.subset_cons_self _ _⟩
    have later := truthful.grow grows fun v mem => .inl mem
    refine ⟨later.list, later.value, later.settings, later.flight, later.displayed, later.namenode, ?_⟩
    rintro h (_ | ⟨_, mem⟩)
    · exact .inl ⟨first, second, List.mem_cons_self, command_error failed⟩
    · exact later.crashed h mem
  next e typed =>
    cases next
    have grows : s.past.Grows { s.past with entered := (host, e) :: s.past.entered } :=
      ⟨List.Subset.refl _, List.Subset.refl _, List.subset_cons_self _ _, List.Subset.refl _⟩
    have later := truthful.grow grows fun v mem => .inl mem
    have packets : ∀ p ∈ (e.request.map (Packet.request host)).toList ++ s.flight,
        p.Truthful { s.past with entered := (host, e) :: s.past.entered } := by
      intro p mem
      rcases List.mem_append.1 mem with new | old
      · obtain ⟨bytes, request, rfl⟩ := Option.map_eq_some_iff.1 (Option.mem_toList.1 new)
        cases e with
        | helpme | shut | invalid => cases request
        | dnlist =>
          cases request
          exact .dnlist List.mem_cons_self
        | replica count =>
          cases request
          exact .replica List.mem_cons_self
      · exact (truthful.flight p old).mono grows
    have flying := later.fly packets
    exact ⟨flying.list, flying.value, flying.settings, flying.flight, flying.displayed,
      flying.namenode, flying.crashed⟩

/-- The turn of the name node. -/
theorem Truthful.answer {i : ℕ} {net : Net} (truthful : Truthful s)
    (next : step s (.answer i net) = some s') : Truthful s' := by
  simp only [step] at next
  split at next
  next host bytes rest taken up =>
    have others : ∀ p ∈ rest, p.Truthful s.past :=
      fun p mem => truthful.flight p (take_subset taken mem)
    have request := truthful.flight _ (take_mem taken)
    split at next
    next e failed =>
      cases next
      have flying := truthful.fly others
      refine ⟨flying.list, flying.value, flying.settings, flying.flight, flying.displayed,
        fun _ => ?_, flying.crashed⟩
      cases request with
      | dnlist asked => exact ⟨s.dlist, truthful.list, answer_dnlist_error failed⟩
      | replica asked =>
        rw [answer_replica] at failed
        cases failed
    next sent count answered =>
      cases next
      have grows : s.past.Grows { s.past with settings := count :: s.past.settings } :=
        ⟨List.Subset.refl _, List.subset_cons_self _ _, List.Subset.refl _, List.Subset.refl _⟩
      -- the value is the old one or the number in the request, and the answer is about it
      have turn : (count ∈ s.past.settings ∨ s.past.Asked host count) ∧ ∀ bytes ∈ sent,
          (Packet.answer host bytes).Truthful { s.past with settings := count :: s.past.settings } := by
        cases request with
        | dnlist asked =>
          obtain ⟨rfl, bytes⟩ := answer_dnlist answered
          refine ⟨.inl truthful.value, fun m mem => ?_⟩
          rw [bytes m mem]
          exact .list truthful.list asked
        | @replica _ typed asked =>
          rw [answer_replica] at answered
          cases answered
          refine ⟨.inr ⟨typed, asked, rfl⟩, fun m mem => ?_⟩
          rw [Option.mem_def, sendAckRep] at mem
          split_ifs at mem
          cases mem
          exact .replication List.mem_cons_self ⟨typed, asked, rfl⟩
      obtain ⟨value, answers⟩ := turn
      have later := truthful.grow grows fun v mem => by
        rcases List.mem_cons.1 mem with rfl | old
        · exact value.imp_right fun asked => ⟨host, asked.mono grows⟩
        · exact .inl old
      have packets : ∀ p ∈ (sent.map (Packet.answer host)).toList ++ rest,
          p.Truthful { s.past with settings := count :: s.past.settings } := by
        intro p mem
        rcases List.mem_append.1 mem with new | old
        · obtain ⟨bytes, sends, rfl⟩ := Option.map_eq_some_iff.1 (Option.mem_toList.1 new)
          exact answers bytes sends
        · exact (others p old).mono grows
      have flying := later.fly packets
      exact ⟨flying.list, List.mem_cons_self, flying.settings, flying.flight, flying.displayed,
        flying.namenode, flying.crashed⟩
  · cases next

/-- A monitor shows no more than a truthful answer allows. -/
theorem Packet.Truthful.displays {bytes monitor_namenode namenode : List Byte}
    (truthful : (Packet.answer host bytes).Truthful past)
    (shows : receivecommand_monitor monitor_namenode namenode bytes = .ok reaction) :
    Shows past host reaction := by
  cases truthful with
  | list had asked =>
    rw [display_dnlist shows]
    exact .list had asked
  | @replication _ v had asked =>
    rw [display_replica] at shows
    cases shows
    obtain ⟨count, typed, rfl⟩ := asked
    rw [value_again]
    exact .replication had ⟨count, typed, rfl⟩

/-- A truthful answer that a monitor fails on is a list that is too long for it. -/
theorem Packet.Truthful.fails {bytes monitor_namenode namenode : List Byte} {f : Fault}
    (truthful : (Packet.answer host bytes).Truthful past)
    (failed : receivecommand_monitor monitor_namenode namenode bytes = .error f) :
    past.Overfills host := by
  cases truthful with
  | list had asked => exact .inr ⟨asked, _, had, display_dnlist_error failed⟩
  | replication had asked =>
    rw [display_replica] at failed
    cases failed

theorem Truthful.display {i : ℕ} {monitor_namenode namenode : List Byte} (truthful : Truthful s)
    (next : step s (.display i monitor_namenode namenode) = some s') : Truthful s' := by
  simp only [step] at next
  split at next
  next host bytes rest taken =>
    have answer : (Packet.answer host bytes).Truthful s.past := truthful.flight _ (take_mem taken)
    have flying := truthful.fly fun p mem => truthful.flight p (take_subset taken mem)
    split_ifs at next with left
    split at next
    next stops => cases answer.displays stops
    next e failed =>
      cases next
      refine ⟨flying.list, flying.value, flying.settings, flying.flight, flying.displayed,
        flying.namenode, ?_⟩
      rintro h (_ | ⟨_, mem⟩)
      · exact answer.fails failed
      · exact truthful.crashed h mem
    next reaction _ shows =>
      cases next
      refine ⟨flying.list, flying.value, flying.settings, flying.flight, ?_, flying.namenode,
        flying.crashed⟩
      rintro d (_ | ⟨_, mem⟩)
      · exact answer.displays shows
      · exact truthful.displayed d mem
  · cases next

theorem Truthful.step (truthful : Truthful s) (next : step s e = some s') : Truthful s' := by
  cases e with
  | enter host first second => exact truthful.enter next
  | change dlist =>
    cases next
    have grows : s.past.Grows { s.past with lists := dlist :: s.past.lists } :=
      ⟨List.subset_cons_self _ _, List.Subset.refl _, List.Subset.refl _, List.Subset.refl _⟩
    have later := truthful.grow grows fun v mem => .inl mem
    exact ⟨List.mem_cons_self, later.value, later.settings, later.flight, later.displayed,
      later.namenode, later.crashed⟩
  | answer i net => exact truthful.answer next
  | display i monitor_namenode namenode => exact truthful.display next
  | lose i =>
    obtain ⟨taken, found, rfl⟩ := Option.map_eq_some_iff.1 next
    exact truthful.fly fun p mem => truthful.flight p (take_subset found mem)
  | duplicate i =>
    obtain ⟨p, found, rfl⟩ := Option.map_eq_some_iff.1 next
    apply truthful.fly
    rintro q (_ | ⟨_, mem⟩)
    · exact truthful.flight p (List.mem_of_getElem? found)
    · exact truthful.flight q mem

end Truthful

/-- A replication value is typed on `m`, and its acknowledgement arrives after the list. -/
def overtaken : List Event :=
  [.enter (str "m") (str "replica") (str "5"), .answer 0 upNet, .enter (str "m") (str "dn") (str "list"),
    .answer 0 upNet, .display 0 (str "n") (str "n"), .display 0 (str "n") (str "n")]

/-- One data node. -/
def oneEntry : List Datanode := [⟨str "d", str "10.0.0.1", 1⟩]

end DistFs.Administration
