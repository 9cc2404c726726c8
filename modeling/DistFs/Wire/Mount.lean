import DistFs.Wire.Receivers
import DistFs.Wire.Remote
import DistFs.Wire.RootOnly

/-!
# The mount from its start on

A name node that starts with empty lists, the data nodes that register with it and the clients that
ask it, one after another.  What the clients see is the root of the first registered data node that
answers; behind every other path they see the file `JUNK` of the name node.  This goes on until
registrations and recorded requests have taken the fifty slots of the one entry of the file list.
-/

namespace DistFs.Mount

open CText Registry Wire

open DistFs.Machine (session session_follows)
open Remote (Kernels Mounted Ordinary Payload Replies Seen Tidy bounded onWire onWire_served seen)

/-! ## The nodes -/

/-- An operation of the client on `host`, and the buffer of its caller. -/
structure Asked where
  host : Host
  op : Op
  net : Net
  namenode : List Byte
  buf : List Byte

/-- The operation at a name node with the lists `t`. -/
def Asked.mounted (c : Asked) (t : Tables) : Mounted :=
  ⟨c.host, c.op, c.net, c.namenode, t, c.buf⟩

/-- A data node starts on `host` and registers, or a client asks for something. -/
inductive Event where
  | start (net : Net) (host : Host) (namenode : List Byte)
  | call (c : Asked)

namespace Event

/-- The datagram for the name node, unless its address is not found. -/
def datagram : Event → Except Fault (Option (List Byte))
  | start net _ namenode => sendcommand net namenode [] .datanode
  | call c => do
      let r ← c.op.request
      sendcommand c.net c.namenode r.path r.command

/-- The network at the time of an event. -/
def net : Event → Net
  | start net _ _ => net
  | call c => c.net

/-- The host that sends. -/
def host : Event → Host
  | start _ host _ => host
  | call c => c.host

/-- The lists of the name node behind an event.  An error is a fault, or (`none`) the end of its
loop. -/
def lists (t : Tables) (e : Event) : Except (Option Fault) Tables :=
  match e.datagram with
  | .error fault => .error (some fault)
  | .ok none => .ok t
  | .ok (some M) =>
      match (receivecommand_namenode e.net t e.host.name M).next with
      | .error fault => .error (some fault)
      | .ok none => .error none
      | .ok (some t) => .ok t

end Event

variable {K : Type}

/-- The lists of the name node, the kernels of all nodes, and the reply buffers of the clients. -/
abbrev Nodes (K : Type) := Tables × K × (List Byte → Replies)

/-- An event, and what a client sees of it. -/
def onNodes (kernels : Kernels K) (p : Nodes K) (e : Event) :
    Except (Option Fault) (Option Seen × Nodes K) :=
  match e with
  | .start _ _ _ => (e.lists p.1).map fun t => (none, t, p.2)
  | .call c => do
      let t ← e.lists p.1
      match onWire kernels p.2 (c.mounted p.1) with
      | .error fault => .error (some fault)
      | .ok (o, s) => .ok (some o, t, s)

/-! ## The root and `JUNK` -/

instance (op : Op) : Decidable op.AtRoot := inferInstanceAs (Decidable (_ ∧ _))

/-- The registered data nodes, the slots that are taken, and the kernels. -/
structure Share (K : Type) where
  directory : Directory
  slots : ℕ
  kernels : K

/-- The slots that a command takes. -/
def taken (c : Command) : ℕ := if c.recorded then 1 else 0

/-- An event, as the root of the first data node that answers, or as the file `JUNK` of the name node.
Nothing is said behind an answer that the replies cannot carry, a slot that is not there, a data node
without an address, or a `rename` elsewhere. -/
def onShare (kernels : Kernels K) (s : Share K) : Event → Except Unit (Option Seen × Share K)
  | .start net host namenode =>
      if net.known namenode = false then .ok (none, s)
      else if net.known host.name ∧ s.slots < 50 then
        .ok (none, ⟨s.directory.enrol host.name, s.slots + 1, s.kernels⟩)
      else .error ()
  | .call c =>
      if c.net.known c.namenode = false then .ok (some .refused, s)
      else
        match if c.op.AtRoot then s.directory.primary c.net else none with
        | some dn =>
            let (answer, k) := kernels.serve s.kernels (some dn) (bounded c.op.call)
            let slots := s.slots + taken c.op.command
            if c.net.known dn = true ∧ Ordinary answer ∧ slots ≤ 50 then
              .ok (some (seen answer), ⟨s.directory, slots, k⟩)
            else .error ()
        | none =>
            match c.op.command.junk with
            | none => .error ()
            | some call =>
                let (answer, k) := kernels.serve s.kernels none (bounded call)
                if Ordinary answer then .ok (some (seen answer), ⟨s.directory, s.slots, k⟩)
                else .error ()

/-- The event fits the buffers on its way. -/
def Event.Sendable : Event → Prop
  | .start net host _ => (net.address host.name).length < 16
  | .call c =>
      c.op.command ≠ .statfs ∧ c.op.Plain ∧ c.op.Short ∧ (∃ r, c.op.request = .ok r) ∧
        Payload c.host c.op

/-! ## The lists -/

/-- The lists behind the registrations of `d`, with the first `n` slots of the entry taken. -/
structure Holds (t : Tables) (d : Directory) (n : ℕ) : Prop where
  represents : Represents t d
  unused : t.sfile = [] → n = 0
  filled : ∀ f ∈ t.sfile, f.Filled n
  small : (text t.dlist).length ≤ 118 * n
  bound : n ≤ 50

section Lists

variable {t t' : Tables} {d : Directory} {n : ℕ} {net : Net} {files files' : List Filelist}
  {path dn name ip : List Byte} {found : Option (List Byte)}

theorem holds_init (config : List Byte) : Holds ⟨⟨[], config⟩, []⟩ [] 0 where
  represents := represents_init config
  unused _ := rfl
  filled _ mem := absurd mem List.not_mem_nil
  small := le_rfl
  bound := by norm_num

theorem Holds.room (holds : Holds t d n) (less : n < 50) (path : List Byte) : HasRoom t path := by
  intro f mem
  exact (free_iff (holds.filled f (filelist_search_mem mem).1) holds.bound).2 less

/-- A look-up takes no slot. -/
theorem Holds.looked (holds : Holds t d n) (looked : Looked net t path found t') :
    Holds t' d n := by
  have represents := holds.represents.looked looked
  cases looked with
  | found => exact holds
  | missing _ same cleared =>
    refine ⟨represents, ?_, ?_, (cleared_text cleared).trans holds.small, holds.bound⟩
    · rw [same]
      exact holds.unused
    · rw [same]
      exact holds.filled

/-- An insertion takes the next slot of the one entry. -/
theorem filled_enters (unused : files = [] → n = 0) (filled : ∀ f ∈ files, f.Filled n)
    (single : ∀ f ∈ files, files = [f]) (named : ∀ f ∈ files, f.named path = true)
    (enters : Enters path dn files files') : files' ≠ [] ∧ ∀ f ∈ files', f.Filled (n + 1) := by
  obtain ⟨none_, rfl⟩ | ⟨f, i, alone, free, rfl⟩ := enters_cases single named enters
  · rw [unused none_]
    exact ⟨List.cons_ne_nil _ _,
      List.forall_mem_singleton.2 (filled_present (filled_empty path) rfl)⟩
  · have taken := filled f (by rw [alone]; exact List.mem_singleton_self f)
    have here := getRepcreatenum_filled taken free
    exact ⟨List.cons_ne_nil _ _, List.forall_mem_singleton.2 (filled_present taken here)⟩

/-- The file list behind an insertion in the one entry. -/
theorem Holds.inserted (holds : Holds t d n) (same : t'.sfile = t.sfile) {t₁ : Tables}
    (root : spells path DATANODE_DIR = true) (inserted : filenode_insert path dn t' = .ok t₁) :
    t₁.sfile ≠ [] ∧ ∀ f ∈ t₁.sfile, f.Filled (n + 1) := by
  obtain ⟨-, files, enters, rfl⟩ := filenode_insert_enters inserted
  rw [same] at enters
  have entries := holds.represents.sound.root
  refine filled_enters holds.unused holds.filled (fun f mem => (entries f mem).1) ?_ enters
  intro f mem
  rw [← spells_name, (entries f mem).2.1]
  exact root

/-- A registration adds a line, or none. -/
theorem entered_length (name ip : List Byte) (dlist : List Datanode) :
    (text (entered name ip 1 dlist)).length ≤ (text dlist).length + (name.length + ip.length + 4) := by
  have one : (snprintf 10 1).length = 1 := by decide
  by_cases known : name ∈ dlist.map Datanode.node
  · exact (entered_known known).2.trans (Nat.le_add_right _ _)
  · rw [entered_new known, text_append, List.length_append]
    apply Nat.add_le_add_left
    simp only [text, List.flatMap_cons, List.flatMap_nil, List.append_nil, Datanode.line,
      List.length_append, List.length_cons, List.length_nil, one]
    omega

/-- With a free slot a data node is enrolled. -/
theorem Holds.datanode_insert (holds : Holds t d n) (less : n < 50) (short : name.length < 100)
    (dotted : ip.length < 16) :
    ∃ t', datanode_insert name ip 1 t = .ok t' ∧ Holds t' (d.enrol name) (n + 1) := by
  have line := entered_length name ip t.dlist
  have small := holds.small
  have fits : (text (entered name ip 1 t.dlist)).length < 10000 := by omega
  obtain ⟨t', inserted⟩ := datanode_insert_ok_iff.2 ⟨short, holds.room less DATANODE_DIR, fits⟩
  refine ⟨t', inserted, ?_⟩
  have list := congrArg NodeList.dlist (datanode_insert_ok (datanode_insert_nodes inserted))
  obtain ⟨t₁, recorded, same⟩ := datanode_insert_follows inserted
  obtain ⟨nonempty, filled⟩ := holds.inserted (by rfl) (spells_root_iff.2 (.inl rfl)) recorded
  rw [← same] at nonempty filled
  refine ⟨holds.represents.datanode_insert inserted, fun empty => absurd empty nonempty, filled, ?_,
    less⟩
  rw [show t'.dlist = entered name ip 1 t.dlist from list]
  omega

end Lists

/-! ## A request at the name node -/

section Requests

variable {t : Tables} {d : Directory} {n : ℕ} {net : Net} {host : Host} {op : Op} {r : Request}
  {dn : List Byte}

theorem serving_front (d : Directory) (net : Net) (op : Op) :
    d.serving net op.front = if op.AtRoot then d.primary net else none := by
  rw [Directory.serving]
  exact if_congr (front_root_iff op) rfl rfl

/-- The turn of the name node for a request. -/
theorem request_turn (net : Net) (t : Tables) (built : op.request = .ok r)
    (fits : (framed r.command host (r.command.text ++ comma :: r.path)).length < 1000) :
    receivecommand_namenode net t host.name (r.command.text ++ comma :: r.path) =
      forward net t host.name (host.name ++ comma :: (r.command.text ++ comma :: r.path))
        (some op.front) r.command r.command.junk r.command.recorded r.command.stops := by
  have noNul := message_noNul built
  have buf2 : (host.name ++ comma :: cstr (r.command.text ++ comma :: r.path)).length < 1000 := by
    rw [framed_length] at fits
    rw [cstr_of_noNul noNul, List.length_append, List.length_cons]
    omega
  rw [namenode_eq_forward net t host.name (nextToken_command r.command r.path)
    (request_forwards built) buf2, request_first built, cstr_of_noNul noNul]

/-- Without a data node the name node answers itself, for `JUNK`. -/
theorem Holds.junk (holds : Holds t d n) (built : op.request = .ok r)
    (fits : (framed r.command host (r.command.text ++ comma :: r.path)).length < 1000)
    (nowhere : d.serving net op.front = none) {call : Call} (junk : r.command.junk = some call) :
    ∃ t', receivecommand_namenode net t host.name (r.command.text ++ comma :: r.path) =
      ⟨[.response host.name call], .ok (some t')⟩ ∧ Holds t' d n := by
  obtain ⟨t', located, -⟩ := holds.represents.getfiledn net op.front
  have looked := Looked.of_eq holds.represents.sound located
  rw [nowhere] at located
  refine ⟨t', ?_, holds.looked looked⟩
  rw [request_turn net t built fits]
  simp only [forward, located, junk]

/-- With a data node the request is forwarded, and recorded where it is. -/
theorem Holds.forwards (holds : Holds t d n) (built : op.request = .ok r)
    (fits : (framed r.command host (r.command.text ++ comma :: r.path)).length < 1000)
    (serves : d.serving net op.front = some dn) (known : net.known dn = true)
    (room : n + taken r.command ≤ 50) :
    ∃ t', (receivecommand_namenode net t host.name (r.command.text ++ comma :: r.path)).next =
      .ok (some t') ∧ Holds t' d (n + taken r.command) := by
  obtain ⟨t₁, located, -⟩ := holds.represents.getfiledn net op.front
  have looked := Looked.of_eq holds.represents.sound located
  have sent : sendcommand net dn (host.name ++ comma :: (r.command.text ++ comma :: r.path))
      r.command = .ok (some (framed r.command host (r.command.text ++ comma :: r.path))) :=
    sendcommand_ok known fits
  rw [serves] at located looked
  rw [request_turn net t built fits]
  simp only [forward, located, sent]
  cases records : r.command.recorded with
  | false =>
    simp only [taken, records, Bool.false_eq_true, if_false, Nat.add_zero] at room ⊢
    exact ⟨t₁, rfl, holds.looked looked⟩
  | true =>
    simp only [taken, records, if_true] at room ⊢
    cases looked with
    | @found f i entry used _ =>
      have mem := (filelist_search_mem entry).1
      have short := ((holds.represents.sound.root f mem).2.2 i used).2
      have found : filelist_search t op.front ≠ none := by
        rw [entry]
        exact Option.some_ne_none f
      obtain ⟨t₂, inserted⟩ := filenode_insert_ok_iff.2
        ⟨short, fun none_ => absurd none_ found, holds.room room op.front⟩
      obtain ⟨nonempty, filled⟩ := holds.inserted rfl (Directory.enrol_serving serves).1 inserted
      refine ⟨t₂, by rw [inserted]; rfl, holds.represents.filenode_insert serves inserted,
        fun empty => absurd empty nonempty, filled, ?_, room⟩
      have small := holds.small
      have same := congrArg NodeList.dlist (filenode_insert_nodes inserted)
      rw [show t₂.dlist = t.dlist from same]
      omega

/-- Every request fits its way. -/
theorem request_fits (built : op.request = .ok r) (payload : Payload host op) :
    (framed r.command host (r.command.text ++ comma :: r.path)).length < 1000 := by
  by_cases write : op.command = .write
  · cases op with
    | write path buf size offset =>
      obtain ⟨-, rfl⟩ := request_eq_ok.1 built
      obtain ⟨-, -, -, fits⟩ := payload
      simpa [writeText, readText] using fits
    | _ => cases write
  · exact framed_fits host built write

theorem front_eq (notTruncate : op.command ≠ .truncate) : op.front = sentPath op.path := by
  cases op with
  | truncate => exact absurd rfl notTruncate
  | _ => rfl

/-- The answer for `JUNK` is of the kind that the client waits for. -/
theorem junk_operation {call : Call} (junk : op.command.junk = some call) :
    Remote.operation call = op.operation := by
  cases op <;> cases junk <;> rfl

end Requests

/-! ## Events -/

section Events

variable {kernels : Kernels K} {p : Nodes K} {s s' : Share K} {o : Option Seen} {net : Net}
  {host : Host} {namenode : List Byte} {c : Asked}

/-- The lists, the kernels and the buffers behind a share. -/
structure Shows (p : Nodes K) (s : Share K) : Prop where
  lists : Holds p.1 s.directory s.slots
  kernels : p.2.1 = s.kernels
  tidy : ∀ h, Tidy (p.2.2 h)

/-- The turn of the name node for a registration. -/
theorem start_turn (net : Net) (host : Host) (t : Tables) (known : net.known host.name = true) :
    (receivecommand_namenode net t host.name (Command.text .datanode ++ [comma])).next =
      some <$> datanode_insert host.name (net.address host.name) 1 t := by
  have buf2 : ¬ 1000 ≤ (host.name ++ comma :: cstr (Command.text .datanode ++ [comma])).length := by
    have message : (cstr (Command.text .datanode ++ [comma])).length = 9 := by decide
    have := host.short
    rw [List.length_append, List.length_cons, message]
    omega
  have first := nextToken_command .datanode []
  simp only [receivecommand_namenode, if_neg buf2, first, Command.ofText_text, known, if_true]

theorem shows_start (shows_ : Shows p s) (sendable : (Event.start net host namenode).Sendable)
    (returned : onShare kernels s (.start net host namenode) = .ok (o, s')) :
    ∃ p', onNodes kernels p (.start net host namenode) = .ok (o, p') ∧ Shows p' s' := by
  rw [onShare] at returned
  split_ifs at returned with unknown enters
  · cases returned
    have unsent : sendcommand net namenode [] .datanode = .ok none := sendcommand_eq_none.2 unknown
    refine ⟨p, ?_, shows_⟩
    simp only [onNodes, Event.lists, Event.datagram, unsent]
    rfl
  · cases returned
    obtain ⟨t', inserted, held⟩ := shows_.lists.datanode_insert enters.2 host.short sendable
    have sends : sendcommand net namenode [] .datanode =
        .ok (some (Command.text .datanode ++ [comma])) :=
      sendcommand_ok (Bool.eq_true_of_not_eq_false unknown) (by decide)
    refine ⟨(t', p.2), ?_, held, shows_.kernels, shows_.tidy⟩
    simp only [onNodes, Event.lists, Event.datagram, sends, Event.net, Event.host,
      start_turn net host p.1 enters.1, inserted]
    rfl

theorem request_sends {r : Request} (reached : c.net.known c.namenode = true)
    (fits : (framed r.command c.host (r.command.text ++ comma :: r.path)).length < 1000) :
    sendcommand c.net c.namenode r.path r.command =
      .ok (some (r.command.text ++ comma :: r.path)) := by
  apply sendcommand_ok reached
  rw [framed_length] at fits
  omega

/-- The lists behind a request that the name node outlives, and what the client sees. -/
theorem onNodes_call {r : Request} {t' : Tables} {x : Seen} {q : K × (List Byte → Replies)}
    (built : c.op.request = .ok r) (reached : c.net.known c.namenode = true)
    (fits : (framed r.command c.host (r.command.text ++ comma :: r.path)).length < 1000)
    (turn : (receivecommand_namenode c.net p.1 c.host.name
      (r.command.text ++ comma :: r.path)).next = .ok (some t'))
    (wired : onWire kernels p.2 (c.mounted p.1) = .ok (x, q)) :
    onNodes kernels p (.call c) = .ok (some x, t', q) := by
  simp only [onNodes, Event.lists, Event.datagram, built, bind, Except.bind,
    request_sends reached fits, Event.net, Event.host, turn, wired]

/-- A request for the root is served by the data node, as a call on the spot. -/
theorem shows_root (shows_ : Shows p s) (sendable : (Event.call c).Sendable)
    (reached : c.net.known c.namenode = true) {dn : List Byte}
    (serves : s.directory.serving c.net c.op.front = some dn) (known : c.net.known dn = true)
    (ordinary : Ordinary (kernels.serve s.kernels (some dn) (bounded c.op.call)).1)
    (room : s.slots + taken c.op.command ≤ 50) :
    ∃ p', onNodes kernels p (.call c) =
        .ok (some (seen (kernels.serve s.kernels (some dn) (bounded c.op.call)).1), p') ∧
      Shows p' ⟨s.directory, s.slots + taken c.op.command,
        (kernels.serve s.kernels (some dn) (bounded c.op.call)).2⟩ := by
  obtain ⟨notStatfs, plain, short, ⟨r, built⟩, payload⟩ := sendable
  have command := request_command built notStatfs
  have fits := request_fits built payload
  obtain ⟨root, -⟩ := Directory.enrol_serving serves
  have notTruncate : c.op.command ≠ .truncate := by
    intro truncate
    exact Remote.plain_path plain (((front_root_iff c.op).1 root).2 truncate)
  obtain ⟨t₁, located, -⟩ := shows_.lists.represents.getfiledn c.net c.op.front
  rw [serves, front_eq notTruncate] at located
  have sent : (c.mounted p.1).Sendable fun _ => dn :=
    ⟨notTruncate, notStatfs, plain, short, ⟨r, built⟩, payload, reached, ⟨t₁, located⟩, known⟩
  have returned : Remote.onKernels kernels (fun _ => dn) p.2.1 (c.mounted p.1) =
      .ok (seen (kernels.serve s.kernels (some dn) (bounded c.op.call)).1,
        (kernels.serve s.kernels (some dn) (bounded c.op.call)).2) := by
    rw [shows_.kernels]
    exact if_pos ordinary
  obtain ⟨replies, wired, tidy⟩ := Remote.onWire_follows sent shows_.tidy returned
  rw [← command] at room ⊢
  obtain ⟨t', turn, held⟩ := shows_.lists.forwards built fits serves known room
  exact ⟨_, onNodes_call built reached fits turn wired, held, rfl, tidy⟩

/-- Any other request is answered by the name node, for `JUNK`. -/
theorem shows_junk (shows_ : Shows p s) (sendable : (Event.call c).Sendable)
    (reached : c.net.known c.namenode = true)
    (nowhere : s.directory.serving c.net c.op.front = none) {call : Call}
    (junk : c.op.command.junk = some call)
    (ordinary : Ordinary (kernels.serve s.kernels none (bounded call)).1) :
    ∃ p', onNodes kernels p (.call c) =
        .ok (some (seen (kernels.serve s.kernels none (bounded call)).1), p') ∧
      Shows p' ⟨s.directory, s.slots, (kernels.serve s.kernels none (bounded call)).2⟩ := by
  obtain ⟨notStatfs, -, -, ⟨r, built⟩, payload⟩ := sendable
  have command := request_command built notStatfs
  have fits := request_fits built payload
  rw [← shows_.kernels] at ordinary ⊢
  obtain ⟨t', turn, held⟩ := shows_.lists.junk built fits nowhere (command ▸ junk)
  have exchanged : exchange c.net c.namenode p.1 c.host c.op =
      .ok (some ⟨none, c.host.name, call⟩) := by
    simp only [exchange, built, bind, Except.bind, request_sends reached fits, serve, turn]
    rfl
  have exchanged' : exchange (c.mounted p.1).net (c.mounted p.1).namenode (c.mounted p.1).tables
      (c.mounted p.1).host (c.mounted p.1).op = .ok (some ⟨none, c.host.name, call⟩) := exchanged
  obtain ⟨replies, wired, tidy⟩ :=
    onWire_served exchanged' (junk_operation junk) ordinary shows_.tidy
  exact ⟨_, onNodes_call built reached fits (congrArg Turn.next turn) wired, held, rfl, tidy⟩

theorem shows_call (shows_ : Shows p s) (sendable : (Event.call c).Sendable)
    (returned : onShare kernels s (.call c) = .ok (o, s')) :
    ∃ p', onNodes kernels p (.call c) = .ok (o, p') ∧ Shows p' s' := by
  rw [onShare, ← serving_front] at returned
  split_ifs at returned with unknown
  · cases returned
    obtain ⟨-, -, -, ⟨r, built⟩, -⟩ := sendable
    have unsent : sendcommand c.net c.namenode r.path r.command = .ok none :=
      sendcommand_eq_none.2 unknown
    refine ⟨p, ?_, shows_⟩
    simp only [onNodes, Event.lists, Event.datagram, onWire, Asked.mounted, exchange, built, bind,
      Except.bind, unsent]
    rfl
  · have reached := Bool.eq_true_of_not_eq_false unknown
    cases serves : s.directory.serving c.net c.op.front with
    | some dn =>
      simp only [serves] at returned
      split_ifs at returned with fine
      cases returned
      obtain ⟨known, ordinary, room⟩ := fine
      exact shows_root shows_ sendable reached serves known ordinary room
    | none =>
      simp only [serves] at returned
      cases junk : c.op.command.junk with
      | none =>
        simp only [junk] at returned
        cases returned
      | some call =>
        simp only [junk] at returned
        split_ifs at returned with ordinary
        cases returned
        exact shows_junk shows_ sendable reached serves junk ordinary

end Events

/-! ## Runs -/

/-- A file on each node, there or not. -/
def names : Kernels (List (Option (List Byte))) where
  serve made node call :=
    let (answer, there) := Remote.oneName.serve (made.contains node) node call
    (answer, if there then node :: made else made)
  inKind made node call := Remote.oneName.inKind (made.contains node) node call

/-- The host of the first data node. -/
def hostD1 : Host := ⟨str "d1", by constructor <;> decide +kernel, by decide +kernel⟩

/-- The host of the second data node. -/
def hostD2 : Host := ⟨str "d2", by constructor <;> decide +kernel, by decide +kernel⟩

/-- The root is made while only the second of two data nodes is up, and two files below it. -/
def twoNodes : List Event :=
  let mknod (path : CString) : Event :=
    .call ⟨oneHost, .mknod path 420 0, { upNet with alive := fun n => n = str "d2" }, str "n", []⟩
  [.start upNet hostD1 (str "n"), .start upNet hostD2 (str "n"), mknod (.lit "/"), mknod slashF,
    mknod (.lit "/g")]

end DistFs.Mount
