import DistFs.Runs.Flight
import DistFs.Runs.Machine
import DistFs.Wire.Disk
import DistFs.Wire.Operations
import DistFs.Wire.RootOnly

/-!
# Requests, commands and replies

The whole way of a request as a machine: hosts that send datagrams to the name node, the name node
that forwards them, the data nodes that answer unless what they find overruns a buffer, and a network
that delays, reorders, drops and duplicates.  Nothing that travels says which request it belongs to:
the requests that the packets of the model carry are read by no step.
-/

namespace DistFs.Delivery

open CText Flight Machine Wire

/-- A datagram that a host has sent to the name node. -/
structure Issued where
  number : ℕ
  host : Host
  bytes : CString

/-- A datagram in flight: to the name node, to a data node, or what a node's `sendresponse_*` call
sends to a client. -/
inductive Packet where
  | request (q : Issued)
  | command (q : Issued) (node datagram : List Byte)
  | response (q : Issued) (s : Served)

/-- The request that the packet goes back to. -/
def Packet.issued : Packet → Issued
  | request q | command q _ _ | response q _ => q

/-- The request has not been answered yet. -/
def Packet.open_ : Packet → Bool
  | request _ | command _ _ _ => true
  | response _ _ => false

section Packet

variable (q : Issued) (node datagram : List Byte) (s : Served)

@[simp] theorem issued_request : (Packet.request q).issued = q := rfl
@[simp] theorem issued_command : (Packet.command q node datagram).issued = q := rfl
@[simp] theorem issued_response : (Packet.response q s).issued = q := rfl
@[simp] theorem open_request : (Packet.request q).open_ = true := rfl
@[simp] theorem open_command : (Packet.command q node datagram).open_ = true := rfl
@[simp] theorem open_response : (Packet.response q s).open_ = false := rfl

end Packet

/-- What is at the path of a call on the disk of the node that makes it: a directory or a file that
can be opened, or neither. -/
inductive Found where
  | directory (entries : List Dirent)
  | file (bytes : List Byte)
  | closed

/-- The `sendresponse_*` call writes behind the end of its `listfiles[10000]` or its `buf[4096]`. -/
def overruns (found : Found) (errno : Errno) : Call → Bool
  | .readdir _ =>
      match found with
      | .directory entries => (sendresponse_readdir (some entries) errno).toBool == false
      | .file _ | .closed => false
  | .read _ size offset =>
      match found with
      | .file bytes => (readAnswer errno bytes size offset).toBool == false
      | .directory _ | .closed => false
  | _ => false

/-- The nodes and the network.  `namenode` is the lists of the name node while it runs, `stopped` the
data nodes that have stopped or crashed; `issued`, `copied`, `performed`, `overran` and `delivered`
are the history: the datagrams sent, the packets that the network has duplicated, the calls that
nodes have made, those among them that have overrun a buffer, with what they have found, and the
replies that clients have got. -/
structure State where
  namenode : Option Tables
  stopped : List (List Byte)
  flight : List Packet
  issued : List Issued
  copied : List Issued
  performed : List (Issued × Served)
  overran : List (Issued × Served × Found)
  delivered : List (Issued × Served)

/-- A name node has started with some lists. -/
def State.init (t : Tables) : State := ⟨some t, [], [], [], [], [], [], []⟩

/-- What may happen next: a host sends a datagram, a node or a client receives the packet at a
position, in a network and on a disk that may have changed, or the network drops or duplicates it. -/
inductive Event where
  | issue (host : Host) (bytes : CString)
  | receive (i : ℕ) (net : Net)
  | perform (i : ℕ) (net : Net) (found : Found) (errno : Errno)
  | deliver (i : ℕ)
  | lose (i : ℕ)
  | duplicate (i : ℕ)

/-- What the name node sends on account of a request. -/
def packet (q : Issued) : Sent → Packet
  | .command node datagram => .command q node datagram
  | .response host call => .response q ⟨none, host, call⟩

/-- The calls among it. -/
def ownCall (q : Issued) : Sent → Option (Issued × Served)
  | .command _ _ => none
  | .response host call => some (q, ⟨none, host, call⟩)

/-- The lists behind a turn, unless it ends the name node. -/
def after (turn : Turn) : Option Tables :=
  match turn.next with
  | .ok next => next
  | .error _ => none

/-- One event.  A call whose client has an address and that overruns a buffer is the last one of its
data node, and sends nothing. -/
def step (s : State) : Event → Option State
  | .issue host bytes =>
      let q : Issued := ⟨s.issued.length, host, bytes⟩
      some { s with flight := .request q :: s.flight, issued := q :: s.issued }
  | .receive i net =>
      match take s.flight i, s.namenode with
      | some (.request q, rest), some t =>
          let turn := receivecommand_namenode net t q.host.name q.bytes.bytes
          some { s with
            namenode := after turn
            flight := turn.sent.map (packet q) ++ rest
            performed := turn.sent.filterMap (ownCall q) ++ s.performed }
      | _, _ => none
  | .perform i net found errno =>
      match take s.flight i with
      | some (.command q node datagram, rest) =>
          if s.stopped.contains node then none
          else
            match receivecommand_datanode net datagram with
            | .ok (.respond host call) =>
                if net.known host && overruns found errno call then
                  some { s with
                    flight := rest
                    stopped := node :: s.stopped
                    performed := (q, ⟨some node, host, call⟩) :: s.performed
                    overran := (q, ⟨some node, host, call⟩, found) :: s.overran }
                else
                  some { s with
                    flight := .response q ⟨some node, host, call⟩ :: rest
                    performed := (q, ⟨some node, host, call⟩) :: s.performed }
            | .ok .ignored | .ok (.datanode_insert _) => some { s with flight := rest }
            | .ok .stopped | .error _ =>
                some { s with flight := rest, stopped := node :: s.stopped }
      | _ => none
  | .deliver i =>
      match take s.flight i with
      | some (.response q answer, rest) =>
          some { s with flight := rest, delivered := (q, answer) :: s.delivered }
      | _ => none
  | .lose i => (take s.flight i).map fun taken => { s with flight := taken.2 }
  | .duplicate i =>
      s.flight[i]?.map fun p =>
        { s with flight := p :: s.flight, copied := p.issued :: s.copied }

/-! ## What a step does -/

/-- The steps of the machine. -/
inductive Steps (s : State) : Event → State → Prop where
  | issue (host : Host) (bytes : CString) : Steps s (.issue host bytes)
      { s with
        flight := .request ⟨s.issued.length, host, bytes⟩ :: s.flight
        issued := ⟨s.issued.length, host, bytes⟩ :: s.issued }
  | receive {i : ℕ} {q : Issued} {rest : List Packet} {t : Tables} (net : Net)
      (taken : take s.flight i = some (.request q, rest)) (up : s.namenode = some t) :
      Steps s (.receive i net)
        { s with
          namenode := after (receivecommand_namenode net t q.host.name q.bytes.bytes)
          flight :=
            (receivecommand_namenode net t q.host.name q.bytes.bytes).sent.map (packet q) ++ rest
          performed :=
            (receivecommand_namenode net t q.host.name q.bytes.bytes).sent.filterMap (ownCall q) ++
              s.performed }
  | responds {i : ℕ} {q : Issued} {node datagram host : List Byte} {call : Call}
      {rest : List Packet} (net : Net) (found : Found) (errno : Errno)
      (taken : take s.flight i = some (.command q node datagram, rest))
      (running : node ∉ s.stopped)
      (calls : receivecommand_datanode net datagram = .ok (.respond host call)) :
      Steps s (.perform i net found errno)
        { s with
          flight := .response q ⟨some node, host, call⟩ :: rest
          performed := (q, ⟨some node, host, call⟩) :: s.performed }
  | overruns {i : ℕ} {q : Issued} {node datagram host : List Byte} {call : Call}
      {rest : List Packet} {found : Found} {errno : Errno} (net : Net)
      (taken : take s.flight i = some (.command q node datagram, rest))
      (running : node ∉ s.stopped)
      (calls : receivecommand_datanode net datagram = .ok (.respond host call))
      (long : overruns found errno call = true) :
      Steps s (.perform i net found errno)
        { s with
          flight := rest
          stopped := node :: s.stopped
          performed := (q, ⟨some node, host, call⟩) :: s.performed
          overran := (q, ⟨some node, host, call⟩, found) :: s.overran }
  | ignores {i : ℕ} {q : Issued} {node datagram : List Byte} {rest : List Packet} (net : Net)
      (found : Found) (errno : Errno)
      (taken : take s.flight i = some (.command q node datagram, rest)) :
      Steps s (.perform i net found errno) { s with flight := rest }
  | stops {i : ℕ} {q : Issued} {node datagram : List Byte} {rest : List Packet} (net : Net)
      (found : Found) (errno : Errno)
      (taken : take s.flight i = some (.command q node datagram, rest))
      (silent : ∀ host call, receivecommand_datanode net datagram ≠ .ok (.respond host call)) :
      Steps s (.perform i net found errno) { s with flight := rest, stopped := node :: s.stopped }
  | deliver {i : ℕ} {q : Issued} {r : Served} {rest : List Packet}
      (taken : take s.flight i = some (.response q r, rest)) :
      Steps s (.deliver i) { s with flight := rest, delivered := (q, r) :: s.delivered }
  | lose {i : ℕ} {p : Packet} {rest : List Packet} (taken : take s.flight i = some (p, rest)) :
      Steps s (.lose i) { s with flight := rest }
  | duplicate {i : ℕ} {p : Packet} (mem : p ∈ s.flight) :
      Steps s (.duplicate i) { s with flight := p :: s.flight, copied := p.issued :: s.copied }

theorem after_eq_some {turn : Turn} {t : Tables} : after turn = some t ↔ turn.next = .ok (some t) := by
  rw [after]
  split
  next next same => rw [same, Except.ok.injEq]
  next same => rw [same]; exact ⟨nofun, nofun⟩

theorem step_cases {s s' : State} {e : Event} (h : step s e = some s') : Steps s e s' := by
  cases e with
  | issue host bytes =>
    cases h
    exact .issue host bytes
  | receive i net =>
    simp only [step] at h
    split at h
    next taken up =>
      cases h
      exact .receive net taken up
    · cases h
  | perform i net found errno =>
    simp only [step] at h
    split at h
    next q node datagram rest taken =>
      split_ifs at h with stopped
      have running : node ∉ s.stopped := mt List.contains_iff_mem.2 stopped
      split at h
      next host call calls =>
        split_ifs at h with long
        · cases h
          exact .overruns net taken running calls (Bool.and_eq_true_iff.1 long).2
        · cases h
          exact .responds net found errno taken running calls
      all_goals cases h
      · exact .ignores net found errno taken
      · exact .ignores net found errno taken
      next stops => exact .stops net found errno taken (by simp [stops])
      next stops => exact .stops net found errno taken (by simp [stops])
    · cases h
  | deliver i =>
    simp only [step] at h
    split at h
    next q r rest taken =>
      cases h
      exact .deliver taken
    · cases h
  | lose i =>
    obtain ⟨⟨p, rest⟩, taken, same⟩ := Option.map_eq_some_iff.1 h
    cases same
    exact .lose taken
  | duplicate i =>
    obtain ⟨p, found, same⟩ := Option.map_eq_some_iff.1 h
    cases same
    exact .duplicate (List.mem_of_getElem? found)

/-! ## One turn of a node -/

section Turns

variable {net : Net} {t t' : Tables} {h host' M : List Byte} {host : Host} {call : Call} {x : Sent}

/-- A server responds to the host that asks, for the path behind the command, whatever it knows of
the network. -/
theorem server_responds (responds : receivecommand_server net h M = .ok (.respond host' call)) :
    host' = h ∧ call.path = (nextToken [comma] (nextToken [comma] M).2).1 ∧
      ∀ net', receivecommand_server net' h M = .ok (.respond h call) := by
  rcases parsed : nextToken [comma] M with ⟨_ | cmd, m⟩
  · simp only [receivecommand_server, parsed] at responds
    cases responds
  simp only [receivecommand_server, parsed] at responds ⊢
  cases named : Command.ofText cmd with
  | none =>
    rw [named] at responds
    cases responds
  | some c =>
    rw [named] at responds
    cases c with
    | datanode =>
      simp only [Except.ok.injEq] at responds
      split_ifs at responds
    | shutdown | dn_command => cases responds
    | access | open_ | mkdir | chmod =>
      obtain ⟨x, number, same⟩ := bind_eq_ok.1 responds
      cases same
      exact ⟨rfl, rfl, fun net' => bind_eq_ok.2 ⟨x, number, rfl⟩⟩
    | _ =>
      cases responds
      exact ⟨rfl, rfl, fun _ => rfl⟩

/-- What a turn sends: a command for the root, framed for a data node of the list, or the response
to a request that has no data node. -/
inductive Sends (t : Tables) (host : Host) (M : List Byte) : Sent → Prop where
  | command {c : Command} {path dn : List Byte} (asks : Asks M c path) (forwards : c.forwards = true)
      (root : spells path DATANODE_DIR = true) (known : dn ∈ t.dlist.map Registry.Datanode.node) :
      Sends t host M (.command dn (framed c host M))
  | junk {c : Command} {call : Call} (first : (nextToken [comma] M).1 = some c.text)
      (junk : c.junk = some call) : Sends t host M (.response host.name call)
  | statfs {call : Call} (calls : ∀ net, receivecommand_server net host.name M =
      .ok (.respond host.name call)) : Sends t host M (.response host.name call)

theorem forward_sends {c : Command} (reachable : Reachable t) (noNul : NoNul M)
    (first : (nextToken [comma] M).1 = some c.text) (forwards : c.forwards = true)
    (mem : x ∈ (forward net t host.name (host.name ++ comma :: cstr M)
      (nextToken [comma] (nextToken [comma] M).2).1 c c.junk c.recorded c.stops).sent) :
    Sends t host M x := by
  cases second : (nextToken [comma] (nextToken [comma] M).2).1 with
  | none =>
    rw [second] at mem
    cases mem
  | some path =>
    obtain ⟨t', located, -⟩ := reachable.represents.getfiledn net path
    simp only [second, forward, located] at mem
    cases serves : Directory.serving (t.dlist.map Registry.Datanode.node) net path with
    | none =>
      simp only [serves] at mem
      cases junk : c.junk with
      | none =>
        simp only [junk] at mem
        cases mem
      | some call =>
        simp only [junk] at mem
        obtain rfl := List.mem_singleton.1 mem
        exact .junk first junk
    | some dn =>
      simp only [serves] at mem
      obtain ⟨root, -⟩ := Directory.enrol_serving serves
      rw [Directory.serving, if_pos root] at serves
      cases sends : sendcommand net dn (host.name ++ comma :: cstr M) c with
      | error e =>
        simp only [sends] at mem
        cases mem
      | ok datagram =>
        cases datagram with
        | none =>
          simp only [sends] at mem
          cases mem
        | some datagram =>
          simp only [sends] at mem
          obtain rfl := List.mem_singleton.1 mem
          rw [sendcommand_eq sends, cstr_of_noNul noNul]
          exact .command ⟨first, second⟩ forwards root (List.mem_of_find?_eq_some serves)

theorem namenode_sends (reachable : Reachable t) (noNul : NoNul M)
    (mem : x ∈ (receivecommand_namenode net t host.name M).sent) : Sends t host M x := by
  by_cases long : 1000 ≤ (host.name ++ comma :: cstr M).length
  · simp only [receivecommand_namenode, if_pos long] at mem
    cases mem
  rcases parsed : nextToken [comma] M with ⟨_ | cmd, m⟩
  · simp only [receivecommand_namenode, if_neg long, parsed] at mem
    cases mem
  have first : (nextToken [comma] M).1 = some cmd := congrArg Prod.fst parsed
  cases named : Command.ofText cmd with
  | none =>
    simp only [receivecommand_namenode, if_neg long, parsed, named] at mem
    cases mem
  | some c =>
    obtain rfl := Command.ofText_eq_some named
    cases c with
    | datanode | shutdown | dn_command =>
      simp only [receivecommand_namenode, if_neg long, parsed, named] at mem
      cases mem
    | statfs =>
      simp only [receivecommand_namenode, if_neg long, parsed, named] at mem
      obtain rfl := List.mem_singleton.1 mem
      refine .statfs fun net => ?_
      simp only [receivecommand_server, parsed, named]
    | _ =>
      rw [namenode_eq_forward net t host.name parsed rfl (not_le.1 long)] at mem
      have second : m = (nextToken [comma] M).2 := by rw [parsed]
      rw [second] at mem
      exact forward_sends reachable noNul first rfl mem

/-- A turn sends at most one datagram. -/
theorem namenode_sent_length (net : Net) (t : Tables) (h M : List Byte) :
    (receivecommand_namenode net t h M).sent.length ≤ 1 := by
  have forwarded (buf2 : List Byte) (path : Option (List Byte)) (c : Command) (junk : Option Call)
      (recorded stops : Bool) :
      (forward net t h buf2 path c junk recorded stops).sent.length ≤ 1 := by
    simp only [forward]
    repeat' split
    all_goals simp [Turn.fault]
  simp only [receivecommand_namenode]
  split
  · exact Nat.zero_le 1
  split
  · exact Nat.zero_le 1
  split <;> first | exact forwarded _ _ _ _ _ _ | exact Nat.zero_le 1 | exact le_rfl

/-- A turn enters no data node but the one that registers. -/
theorem turn_nodes (reachable : Reachable t)
    (next : (receivecommand_namenode net t h M).next = .ok (some t')) :
    ∀ n ∈ t'.dlist.map Registry.Datanode.node, n ∈ t.dlist.map Registry.Datanode.node ∨
      (n = h ∧ (nextToken [comma] M).1 = some Command.datanode.text) := by
  intro n mem
  by_cases registers : (nextToken [comma] M).1 = some Command.datanode.text
  · cases (namenode_branch next).2 with
    | idle _ other => exact absurd rfl (other .datanode registers).2
    | registered _ _ inserted =>
      have list := congrArg Registry.NodeList.dlist
        (Registry.datanode_insert_ok (datanode_insert_nodes inserted))
      rw [show t'.dlist = Registry.entered h (net.address h) 1 t.dlist from list,
        entered_nodes] at mem
      exact mem.elim (fun same => .inr ⟨same, registers⟩) .inl
    | @forwarded c first forwards =>
      obtain rfl := Command.text_injective (Option.some.inj (registers.symm.trans first))
      cases forwards
  · rw [((namenode_effect next).kept reachable.sound registers).1] at mem
    exact .inl mem

end Turns

/-! ## Whose calls, and whose replies -/

/-- A data node that was in the lists at the start, or has registered itself. -/
def Joined (t : Tables) (issued : List Issued) (dn : List Byte) : Prop :=
  dn ∈ t.dlist.map Registry.Datanode.node ∨ ∃ r ∈ issued, r.host.name = dn ∧
    (nextToken [comma] r.bytes.bytes).1 = some Command.datanode.text

/-- The calls that may come of a request.  A data node that has joined makes the call that a server
makes of the request itself, for a path that spells the root; the name node makes the call for
`JUNK`, or that of `statfs`.  All of them respond to the host of the request. -/
inductive Answered (t : Tables) (issued : List Issued) (q : Issued) : Served → Prop where
  | datanode {dn path : List Byte} {call : Call} (joined : Joined t issued dn)
      (calls : ∀ net, receivecommand_server net q.host.name q.bytes.bytes =
        .ok (.respond q.host.name call))
      (at_ : call.path = some path) (root : spells path DATANODE_DIR = true) :
      Answered t issued q ⟨some dn, q.host.name, call⟩
  | junk {c : Command} {call : Call} (first : (nextToken [comma] q.bytes.bytes).1 = some c.text)
      (junk : c.junk = some call) : Answered t issued q ⟨none, q.host.name, call⟩
  | statfs {call : Call} (calls : ∀ net, receivecommand_server net q.host.name q.bytes.bytes =
      .ok (.respond q.host.name call)) : Answered t issued q ⟨none, q.host.name, call⟩

/-- What a packet carries belongs to its request. -/
def Packet.Genuine (t : Tables) (issued : List Issued) (performed : List (Issued × Served)) :
    Packet → Prop
  | .request _ => True
  | .command q dn datagram => Joined t issued dn ∧ ∃ c path, Asks q.bytes.bytes c path ∧
      c.forwards = true ∧ spells path DATANODE_DIR = true ∧ datagram = framed c q.host q.bytes.bytes
  | .response q r => (q, r) ∈ performed

/-- Everything in the network and in the history goes back to the hosts' datagrams. -/
structure Genuine (t : Tables) (s : State) : Prop where
  lists : ∀ u ∈ s.namenode, Reachable u ∧
    ∀ dn ∈ u.dlist.map Registry.Datanode.node, Joined t s.issued dn
  flight : ∀ p ∈ s.flight, p.issued ∈ s.issued ∧ p.Genuine t s.issued s.performed
  performed : ∀ r ∈ s.performed, r.1 ∈ s.issued ∧ Answered t s.issued r.1 r.2
  delivered : ∀ r ∈ s.delivered, r ∈ s.performed

section Genuine

variable {t : Tables} {s s' : State} {issued issued' : List Issued}
  {performed performed' : List (Issued × Served)} {p : Packet} {q : Issued} {r : Served}
  {dn : List Byte} {e : Event}

theorem Joined.mono (more : issued ⊆ issued') (joined : Joined t issued dn) :
    Joined t issued' dn := by
  rcases joined with known | ⟨r, mem, registers⟩
  · exact .inl known
  · exact .inr ⟨r, more mem, registers⟩

theorem Answered.mono (more : issued ⊆ issued') (answered : Answered t issued q r) :
    Answered t issued' q r := by
  cases answered with
  | datanode joined calls at_ root => exact .datanode (joined.mono more) calls at_ root
  | junk first junk => exact .junk first junk
  | statfs calls => exact .statfs calls

theorem Answered.host (answered : Answered t issued q r) : r.host = q.host.name := by
  cases answered <;> rfl

theorem Packet.Genuine.mono (sent : issued ⊆ issued') (made : performed ⊆ performed')
    (genuine : p.Genuine t issued performed) : p.Genuine t issued' performed' := by
  cases p with
  | request q => trivial
  | command q dn datagram => exact ⟨genuine.1.mono sent, genuine.2⟩
  | response q r => exact made genuine

theorem genuine_init (reachable : Reachable t) : Genuine t (State.init t) := by
  refine ⟨?_, ?_, ?_, ?_⟩
  · rintro u ⟨rfl⟩
    exact ⟨reachable, fun dn known => .inl known⟩
  all_goals exact fun _ mem => absurd mem List.not_mem_nil

/-- The name node's own answer is one that its request asks for. -/
theorem Sends.answers {u : Tables} {x : Sent} {own : Issued × Served}
    (sends : Sends u q.host q.bytes.bytes x) (mem : own ∈ ownCall q x) :
    own.1 = q ∧ Answered t issued q own.2 := by
  cases sends with
  | command asks forwards root known => cases mem
  | junk first junk =>
    cases mem
    exact ⟨rfl, .junk first junk⟩
  | statfs calls =>
    cases mem
    exact ⟨rfl, .statfs calls⟩

/-- What the name node sends on account of a genuine request is genuine. -/
theorem Sends.genuine {u : Tables} {x : Sent} (sends : Sends u q.host q.bytes.bytes x)
    (lists : ∀ dn ∈ u.dlist.map Registry.Datanode.node, Joined t issued dn)
    (made : ∀ own ∈ ownCall q x, own ∈ performed) : (packet q x).Genuine t issued performed := by
  cases sends with
  | @command c path dn asks forwards root known =>
    exact ⟨lists dn known, c, path, asks, forwards, root, rfl⟩
  | junk first junk => exact made _ rfl
  | statfs calls => exact made _ rfl

theorem packet_issued (q : Issued) (x : Sent) : (packet q x).issued = q := by
  cases x <;> rfl

/-- The call that a data node makes of a command in the network is the one its request asks for. -/
theorem Genuine.makes {i : ℕ} {node datagram host : List Byte} {call : Call} {rest : List Packet}
    {net : Net} (genuine : Genuine t s)
    (taken : take s.flight i = some (.command q node datagram, rest))
    (calls : receivecommand_datanode net datagram = .ok (.respond host call)) :
    q ∈ s.issued ∧ Answered t s.issued q ⟨some node, host, call⟩ := by
  obtain ⟨issued, joined, c, path, asks, forwards, root, rfl⟩ := genuine.flight _ (take_mem taken)
  rw [datanode_eq_server net q.host asks.command forwards] at calls
  obtain ⟨rfl, at_, calls⟩ := server_responds calls
  exact ⟨issued, .datanode joined calls (at_.trans asks.path) root⟩

theorem Genuine.issue (genuine : Genuine t s) (q : Issued) :
    Genuine t { s with flight := .request q :: s.flight, issued := q :: s.issued } := by
  have more : s.issued ⊆ q :: s.issued := List.subset_cons_self q s.issued
  refine ⟨fun u up => ?_, ?_, fun r mem => ?_, genuine.delivered⟩
  · obtain ⟨reachable, joined⟩ := genuine.lists u up
    exact ⟨reachable, fun dn known => (joined dn known).mono more⟩
  · rintro p (_ | ⟨_, mem⟩)
    · exact ⟨List.mem_cons_self, trivial⟩
    · obtain ⟨issued, own⟩ := genuine.flight p mem
      exact ⟨more issued, own.mono more (List.Subset.refl _)⟩
  · obtain ⟨issued, answered⟩ := genuine.performed r mem
    exact ⟨more issued, answered.mono more⟩

/-- A turn of the name node over a request in the network. -/
theorem Genuine.receive {net : Net} {u : Tables} {rest : List Packet} {turn : Turn}
    (genuine : Genuine t s) (issued : q ∈ s.issued) (less : rest ⊆ s.flight)
    (up : s.namenode = some u)
    (same : receivecommand_namenode net u q.host.name q.bytes.bytes = turn) :
    Genuine t { s with
      namenode := after turn
      flight := turn.sent.map (packet q) ++ rest
      performed := turn.sent.filterMap (ownCall q) ++ s.performed } := by
  obtain ⟨reachable, joined⟩ := genuine.lists u up
  have sends : ∀ x ∈ turn.sent, Sends u q.host q.bytes.bytes x := fun x mem =>
    namenode_sends reachable q.bytes.noNul (same ▸ mem)
  refine ⟨fun u' up' => ?_, fun p mem => ?_, fun r mem => ?_, fun r mem => ?_⟩
  · have next := after_eq_some.1 up'
    rw [← same] at next
    refine ⟨.step (.datagram net q.host.name q.bytes.bytes) reachable next, fun dn mem => ?_⟩
    rcases turn_nodes reachable next dn mem with known | ⟨rfl, registers⟩
    · exact joined dn known
    · exact .inr ⟨q, issued, rfl, registers⟩
  · rcases List.mem_append.1 mem with mem | mem
    · obtain ⟨x, sent, rfl⟩ := List.mem_map.1 mem
      rw [packet_issued]
      refine ⟨issued, (sends x sent).genuine joined fun own isOwn => ?_⟩
      exact List.mem_append_left _ (List.mem_filterMap.2 ⟨x, sent, isOwn⟩)
    · obtain ⟨issued, own⟩ := genuine.flight p (less mem)
      exact ⟨issued, own.mono (List.Subset.refl _) (List.subset_append_right _ _)⟩
  · rcases List.mem_append.1 mem with mem | mem
    · obtain ⟨x, mem, isOwn⟩ := List.mem_filterMap.1 mem
      obtain ⟨own, answered⟩ := (sends x mem).answers isOwn
      rw [own]
      exact ⟨issued, answered⟩
    · exact genuine.performed r mem
  · exact List.mem_append_right _ (genuine.delivered r mem)

/-- A data node makes a call that its request asks for. -/
theorem Genuine.record {rest : List Packet} (genuine : Genuine t s) (less : rest ⊆ s.flight)
    (issued : q ∈ s.issued) (answered : Answered t s.issued q r) :
    Genuine t { s with flight := rest, performed := (q, r) :: s.performed } := by
  refine ⟨genuine.lists, fun p mem => ?_, ?_, fun r mem =>
    List.mem_cons_of_mem _ (genuine.delivered r mem)⟩
  · obtain ⟨issued, own⟩ := genuine.flight p (less mem)
    exact ⟨issued, own.mono (List.Subset.refl _) (List.subset_cons_self _ _)⟩
  · rintro r (_ | ⟨_, mem⟩)
    · exact ⟨issued, answered⟩
    · exact genuine.performed r mem

theorem Genuine.send (genuine : Genuine t s) (issued : p.issued ∈ s.issued)
    (own : p.Genuine t s.issued s.performed) : Genuine t { s with flight := p :: s.flight } := by
  refine ⟨genuine.lists, ?_, genuine.performed, genuine.delivered⟩
  rintro p (_ | ⟨_, mem⟩)
  · exact ⟨issued, own⟩
  · exact genuine.flight p mem

theorem Genuine.step (genuine : Genuine t s) (next : step s e = some s') : Genuine t s' := by
  obtain ⟨lists, flight, performed, delivered⟩ := id genuine
  cases step_cases next with
  | issue host bytes => exact genuine.issue ⟨s.issued.length, host, bytes⟩
  | receive net taken up =>
    exact genuine.receive (flight _ (take_mem taken)).1 (take_subset taken) up rfl
  | responds net found errno taken running calls =>
    obtain ⟨issued, answered⟩ := genuine.makes taken calls
    exact (genuine.record (take_subset taken) issued answered).send issued List.mem_cons_self
  | overruns net taken running calls long =>
    obtain ⟨issued, answered⟩ := genuine.makes taken calls
    have made := genuine.record (take_subset taken) issued answered
    exact ⟨made.lists, made.flight, made.performed, made.delivered⟩
  | ignores net found errno taken =>
    exact ⟨lists, fun p mem => flight p (take_subset taken mem), performed, delivered⟩
  | stops net found errno taken =>
    exact ⟨lists, fun p mem => flight p (take_subset taken mem), performed, delivered⟩
  | deliver taken =>
    refine ⟨lists, fun p mem => flight p (take_subset taken mem), performed, ?_⟩
    rintro r (_ | ⟨_, mem⟩)
    · exact (flight _ (take_mem taken)).2
    · exact delivered r mem
  | lose taken => exact ⟨lists, fun p mem => flight p (take_subset taken mem), performed, delivered⟩
  | duplicate mem =>
    have again := genuine.send (flight _ mem).1 (flight _ mem).2
    exact ⟨again.lists, again.flight, again.performed, again.delivered⟩

end Genuine

/-- In every run, whatever the network does: a call that a node makes is the one that the datagram of
some host asks for, made by a data node that has joined, for a path that spells the root, or the
name node's own answer; it responds to that host; and so does every reply that is delivered. -/
theorem calls_genuine {t : Tables} {s : State} {events : List Event} (reachable : Reachable t)
    (ran : run step (State.init t) events = some s) :
    (∀ r ∈ s.performed, r.1 ∈ s.issued ∧ Answered t s.issued r.1 r.2) ∧
      ∀ r ∈ s.delivered, r ∈ s.performed ∧ r.2.host = r.1.host.name := by
  have genuine := run_invariant (fun _ _ _ inv next => inv.step next) (genuine_init reachable) ran
  refine ⟨genuine.performed, fun r mem => ?_⟩
  have performed := genuine.delivered r mem
  refine ⟨performed, ?_⟩
  exact (genuine.performed r performed).2.host

/-! ## How often -/

/-- How often a request is in the network, not yet answered. -/
def State.pending (s : State) (n : ℕ) : ℕ :=
  s.flight.countP fun p => p.open_ && p.issued.number == n

/-- How often a request or its reply is in the network. -/
def State.flying (s : State) (n : ℕ) : ℕ := s.flight.countP fun p => p.issued.number == n

/-- How often a call has been made for a request. -/
def State.calls (s : State) (n : ℕ) : ℕ := s.performed.countP fun r => r.1.number == n

/-- How often a client has got a reply to a request. -/
def State.replies (s : State) (n : ℕ) : ℕ := s.delivered.countP fun r => r.1.number == n

/-- How often a request has been sent, by its host or by the network. -/
def State.copies (s : State) (n : ℕ) : ℕ :=
  (if n < s.issued.length then 1 else 0) + s.copied.countP fun q => q.number == n

section Counts

variable {s s' : State} {e : Event} {n : ℕ}

/-- What the name node sends is pending or has been performed, and no more than one datagram. -/
theorem sent_count (q : Issued) (sent : List Sent) (n : ℕ) :
    (sent.map (packet q)).countP (fun p => p.open_ && p.issued.number == n) +
        (sent.filterMap (ownCall q)).countP (fun r => r.1.number == n) =
      if q.number = n then sent.length else 0 := by
  induction sent with
  | nil => simp
  | cons x rest ih =>
    rw [List.map_cons, List.countP_cons, packet_issued, List.length_cons]
    cases x with
    | command node datagram =>
      have open_ : (packet q (.command node datagram)).open_ = true := rfl
      have none_ : ownCall q (.command node datagram) = none := rfl
      rw [open_, List.filterMap_cons_none none_, Bool.true_and]
      simp only [beq_iff_eq]
      split_ifs at ih ⊢ <;> omega
    | response host call =>
      have closed : (packet q (.response host call)).open_ = false := rfl
      have own : ownCall q (.response host call) = some (q, ⟨none, host, call⟩) := rfl
      rw [closed, List.filterMap_cons_some own, List.countP_cons, Bool.false_and]
      simp only [beq_iff_eq, Bool.false_eq_true, if_false]
      split_ifs at ih ⊢ <;> omega

theorem packets_count (q : Issued) (sent : List Sent) (n : ℕ) :
    (sent.map (packet q)).countP (fun p => p.issued.number == n) =
      if q.number = n then sent.length else 0 := by
  induction sent with
  | nil => simp
  | cons x rest ih =>
    rw [List.map_cons, List.countP_cons, packet_issued, ih, List.length_cons]
    simp only [beq_iff_eq]
    split_ifs <;> omega

/-- No step makes more of a request than there are copies of it. -/
theorem counts_step (next : step s e = some s')
    (counts : ∀ n, s.pending n + s.calls n ≤ s.copies n ∧ s.flying n + s.replies n ≤ s.copies n) :
    ∀ n, s'.pending n + s'.calls n ≤ s'.copies n ∧ s'.flying n + s'.replies n ≤ s'.copies n := by
  intro n
  obtain ⟨calls, replies⟩ := counts n
  simp only [State.pending, State.calls, State.flying, State.replies, State.copies] at calls replies ⊢
  cases step_cases next with
  | issue host bytes =>
    simp only [List.countP_cons, open_request, issued_request, Bool.true_and, beq_iff_eq,
      List.length_cons]
    split_ifs at calls replies ⊢ <;> omega
  | @receive i q rest t net taken up =>
    have once := namenode_sent_length net t q.host.name q.bytes.bytes
    have sent := sent_count q (receivecommand_namenode net t q.host.name q.bytes.bytes).sent n
    have packets := packets_count q (receivecommand_namenode net t q.host.name q.bytes.bytes).sent n
    rw [take_countP _ taken] at calls replies
    simp only [open_request, issued_request, Bool.true_and, beq_iff_eq] at calls replies
    simp only [List.countP_append]
    split_ifs at * <;> omega
  | responds net found errno taken running answered =>
    rw [take_countP _ taken] at calls replies
    simp only [open_command, issued_command, Bool.true_and, beq_iff_eq] at calls replies
    simp only [List.countP_cons, open_response, issued_response, Bool.false_and, Bool.false_eq_true,
      if_false, beq_iff_eq]
    split_ifs at * <;> omega
  | overruns net taken running answered long =>
    rw [take_countP _ taken] at calls replies
    simp only [open_command, issued_command, Bool.true_and, beq_iff_eq] at calls replies
    simp only [List.countP_cons, beq_iff_eq]
    split_ifs at * <;> omega
  | ignores net found errno taken | stops net found errno taken | lose taken =>
    rw [take_countP _ taken] at calls replies
    dsimp only
    omega
  | deliver taken =>
    rw [take_countP _ taken] at calls replies
    simp only [open_response, issued_response, Bool.false_and, Bool.false_eq_true, if_false,
      beq_iff_eq] at calls replies
    simp only [List.countP_cons, beq_iff_eq]
    omega
  | @duplicate i p mem =>
    simp only [List.countP_cons, beq_iff_eq, Bool.and_eq_true]
    split_ifs at * <;> omega

end Counts

/-- A data node called `d`. -/
def oneNode : Host := ⟨str "d", by constructor <;> decide +kernel, by decide +kernel⟩

theorem zero_isErrno : (0 : ℤ) ≤ 0 ∧ (0 : ℤ) < 4096 := by decide

/-- No system call has failed yet. -/
def noErrno : Errno := ⟨0, zero_isErrno⟩

/-- A data node registers, and the network duplicates the request of a client on its way to it. -/
def twice : List Event :=
  [.issue oneNode (.lit "datanode,"), .receive 0 upNet,
    .issue oneHost (.lit "unlink,/tmp/CS545/datanode/"), .receive 0 upNet, .duplicate 0,
    .perform 0 upNet .closed noErrno, .perform 1 upNet .closed noErrno, .deliver 0]

/-- No name node has been registered yet. -/
def noNodes : Tables := ⟨⟨[], []⟩, []⟩

theorem calls_genuine_twice : ∃ s, run step (State.init noNodes) twice = some s ∧
    (∀ r ∈ s.performed, r.1 ∈ s.issued ∧ Answered noNodes s.issued r.1 r.2) ∧
      ∀ r ∈ s.delivered, r ∈ s.performed ∧ r.2.host = r.1.host.name :=
  have ran : run step (State.init noNodes) twice = some _ := rfl
  ⟨_, ran, calls_genuine (.init []) ran⟩

/-- No call is made and no reply delivered more often than the request has been sent: once by its
host, and once more for every packet of it that the network has duplicated. -/
theorem calls_atMostOnce {t : Tables} {s : State} {events : List Event}
    (ran : run step (State.init t) events = some s) (n : ℕ) :
    s.calls n ≤ 1 + s.copied.countP (fun q => q.number == n) ∧
      s.replies n ≤ 1 + s.copied.countP fun q => q.number == n := by
  have counts := run_invariant (fun _ _ _ inv next => counts_step next inv)
    (fun n => ⟨Nat.zero_le _, Nat.zero_le _⟩) ran n
  simp only [State.copies] at counts
  split_ifs at counts <;> omega

/-- The duplicated request is performed twice and answered once. -/
theorem calls_atMostOnce_twice : ∃ s, run step (State.init noNodes) twice = some s ∧
    s.calls 1 = 2 ∧ s.replies 1 = 1 ∧
      (s.calls 1 ≤ 1 + s.copied.countP (fun q => q.number == 1) ∧
        s.replies 1 ≤ 1 + s.copied.countP fun q => q.number == 1) :=
  have ran : run step (State.init noNodes) twice = some _ := rfl
  ⟨_, ran, by decide, by decide, calls_atMostOnce ran 1⟩

/-! ## What stops a data node -/

/-- A request for the root that lacks the number its command needs. -/
def Unnumbered (M : List Byte) : Prop :=
  ∃ c path, c ∈ [Command.access, .open_, .mkdir, .chmod] ∧ Asks M c path ∧
    spells path DATANODE_DIR = true ∧
    (nextToken [comma] (nextToken [comma] (nextToken [comma] M).2).2).1 = none

/-- A server responds to a forwarded command unless the number that it needs is missing. -/
theorem server_forwarded {c : Command} {net : Net} {h M : List Byte}
    (first : (nextToken [comma] M).1 = some c.text) (forwards : c.forwards = true) :
    (∃ call, receivecommand_server net h M = .ok (.respond h call)) ∨
      c ∈ [Command.access, .open_, .mkdir, .chmod] ∧
        (nextToken [comma] (nextToken [comma] (nextToken [comma] M).2).2).1 = none := by
  rcases parsed : nextToken [comma] M with ⟨cmd, m⟩
  rw [parsed] at first
  obtain rfl : cmd = some c.text := first
  simp only [receivecommand_server, parsed, Command.ofText_text]
  cases c with
  | datanode | statfs | shutdown | dn_command => cases forwards
  | access | open_ | mkdir | chmod =>
    cases number : (nextToken [comma] (nextToken [comma] m).2).1 with
    | none => exact .inr ⟨by decide, rfl⟩
    | some x => exact .inl ⟨_, rfl⟩
  | _ => exact .inl ⟨_, rfl⟩

/-- A request for the names in the root, or for the bytes at it, that what the data node finds there
is too long for: the text of a directory for `listfiles[10000]`, what is read of a file for
`buf[4096]`. -/
def Overlong (M : List Byte) (found : Found) : Prop :=
  ∃ path, spells path DATANODE_DIR = true ∧
    ((Asks M .readdir path ∧ ∃ (entries : List Dirent) (errno : Errno), found = .directory entries ∧
        sendresponse_readdir (some entries) errno = .error .overflow) ∨
      (Asks M .read path ∧ ∃ (bytes : List Byte) (errno : Errno) (size offset : ℤ),
        found = .file bytes ∧ readAnswer errno bytes size offset = .error .overflow))

/-- A call that overruns a buffer lists a directory or reads a file. -/
theorem overruns_cases {found : Found} {errno : Errno} {call : Call}
    (long : overruns found errno call = true) :
    (∃ path entries, call = .readdir path ∧ found = .directory entries ∧
        sendresponse_readdir (some entries) errno = .error .overflow) ∨
      ∃ path size offset bytes, call = .read path size offset ∧ found = .file bytes ∧
        readAnswer errno bytes size offset = .error .overflow := by
  cases call with
  | readdir path =>
    cases found with
    | directory entries =>
      refine .inl ⟨path, entries, rfl, rfl, ?_⟩
      simp only [overruns, sendresponse_readdir] at long ⊢
      split_ifs at long ⊢
      · cases long
      · rfl
    | file bytes | closed => cases long
  | read path size offset =>
    cases found with
    | file bytes =>
      refine .inr ⟨path, size, offset, bytes, rfl, rfl, ?_⟩
      simp only [overruns, readAnswer] at long ⊢
      split_ifs at long ⊢
      · cases long
      · cases long
      · rfl
    | directory entries | closed => cases long
  | _ => cases long

/-- A server lists and reads what the request asks it to. -/
theorem server_asks {c : Command} {net : Net} {h M path : List Byte} {call : Call}
    (asks : Asks M c path) (responds : receivecommand_server net h M = .ok (.respond h call)) :
    (∀ p, call = .readdir p → c = .readdir) ∧
      ∀ p size offset, call = .read p size offset → c = .read := by
  rcases parsed : nextToken [comma] M with ⟨cmd, m⟩
  have first := asks.command
  rw [parsed] at first
  obtain rfl : cmd = some c.text := first
  simp only [receivecommand_server, parsed, Command.ofText_text] at responds
  cases c with
  | datanode =>
    simp only [Except.ok.injEq] at responds
    split_ifs at responds
  | shutdown | dn_command => cases responds
  | access | open_ | mkdir | chmod =>
    obtain ⟨x, -, same⟩ := bind_eq_ok.1 responds
    cases same
    constructor <;> intros <;> contradiction
  | readdir | read =>
    cases responds
    constructor <;> intros <;> first | rfl | contradiction
  | _ =>
    cases responds
    constructor <;> intros <;> contradiction

/-- A data node that has stopped was sent a request for the root: one that lacks the number its
command needs, and that no operation of the client sends, or one whose answer has overrun a buffer
of the node. -/
def Blamed (t : Tables) (s : State) : Prop :=
  ∀ dn ∈ s.stopped, Joined t s.issued dn ∧ ∃ q ∈ s.issued,
    (Unnumbered q.bytes.bytes ∧ ∀ op net namenode, ¬ Op.Message net namenode op q.bytes.bytes) ∨
      ∃ r found, (q, r, found) ∈ s.overran ∧ r.node = some dn ∧ Overlong q.bytes.bytes found

theorem blamed_step {t : Tables} {s s' : State} {e : Event} (genuine : Genuine t s)
    (blamed : Blamed t s) (next : step s e = some s') : Blamed t s' := by
  cases step_cases next with
  | issue host bytes =>
    intro dn mem
    obtain ⟨joined, q, issued, why⟩ := blamed dn mem
    exact ⟨joined.mono (List.subset_cons_self _ _), q, List.mem_cons_of_mem _ issued, why⟩
  | @overruns i q node datagram host call rest found errno net taken running calls long =>
    rintro dn (_ | ⟨_, mem⟩)
    · obtain ⟨issued, joined, c, path, asks, forwards, root, rfl⟩ := genuine.flight _ (take_mem taken)
      rw [datanode_eq_server net q.host asks.command forwards] at calls
      obtain ⟨rfl, -, -⟩ := server_responds calls
      obtain ⟨lists, reads⟩ := server_asks asks calls
      refine ⟨joined, q, issued, .inr ⟨_, found, List.mem_cons_self, rfl, path, root, ?_⟩⟩
      rcases overruns_cases long with
        ⟨p, entries, rfl, same, long⟩ | ⟨p, size, offset, bytes, rfl, same, long⟩
      · obtain rfl := lists p rfl
        exact .inl ⟨asks, entries, errno, same, long⟩
      · obtain rfl := reads p size offset rfl
        exact .inr ⟨asks, bytes, errno, size, offset, same, long⟩
    · obtain ⟨joined, q', issued, why⟩ := blamed dn mem
      refine ⟨joined, q', issued, why.imp_right ?_⟩
      rintro ⟨r, found', known, rest⟩
      exact ⟨r, found', List.mem_cons_of_mem _ known, rest⟩
  | @stops i q node datagram rest net found errno taken silent =>
    rintro dn (_ | ⟨_, mem⟩)
    · obtain ⟨issued, joined, c, path, asks, forwards, root, rfl⟩ := genuine.flight _ (take_mem taken)
      rw [datanode_eq_server net q.host asks.command forwards] at silent
      refine ⟨joined, q, issued, .inl ⟨?_, ?_⟩⟩
      · rcases server_forwarded asks.command forwards with ⟨call, responds⟩ | ⟨needs, missing⟩
        · exact absurd responds (silent _ _)
        · exact ⟨c, path, needs, asks, root, missing⟩
      · rintro op net' namenode ⟨r, built, sent⟩
        obtain ⟨call, responds, -⟩ := request_responds net q.host.name built
        rw [← sendcommand_eq sent] at responds
        exact silent _ _ responds
    · exact blamed dn mem
  | _ => exact blamed

/-- In every run, what stops a data node is a request for the root without its number, or one that
what the node has at the root is too long for. -/
theorem stopped_blamed {t : Tables} {s : State} {events : List Event} (reachable : Reachable t)
    (ran : run step (State.init t) events = some s) : Blamed t s := by
  have both := run_invariant (I := fun s => Genuine t s ∧ Blamed t s)
    (fun _ _ _ inv next => ⟨inv.1.step next, blamed_step inv.1 inv.2 next⟩)
    ⟨genuine_init reachable, fun _ mem => absurd mem List.not_mem_nil⟩ ran
  exact both.2

/-- A client asks for the permissions of the root and does not say which. -/
def unnumbered : List Event :=
  [.issue oneNode (.lit "datanode,"), .receive 0 upNet,
    .issue oneHost (.lit "access,/tmp/CS545/datanode"), .receive 0 upNet,
    .perform 0 upNet .closed noErrno]

/-- The data node passes a null pointer to `atoi`. -/
theorem stopped_blamed_unnumbered : ∃ s, run step (State.init noNodes) unnumbered = some s ∧
    s.stopped = [str "d"] ∧ Blamed noNodes s :=
  have ran : run step (State.init noNodes) unnumbered = some _ := rfl
  ⟨_, ran, rfl, stopped_blamed (.init []) ran⟩

end DistFs.Delivery
