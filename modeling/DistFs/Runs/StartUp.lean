import DistFs.Runs.Delivery
import DistFs.Runs.Probe

/-!
# Starting up

The `main` functions of the data node, the monitor and the client up to the point where they begin
to work, on any number of hosts next to a name node that has read its config file: each pings the
name node it has been given, the first two wait for an answer, and a data node then registers.  The
name node pings in its own right, and the network delays, reorders, drops and duplicates.
-/

namespace DistFs.StartUp

open CText Flight Machine Wire

open Probe (Names Datagram sendping1 receiveping)

/-! ## The machine -/

/-- The programs that look for the name node when they start. -/
inductive Program where
  | datanode
  | monitor
  | client
deriving DecidableEq

/-- The command with which a monitor greets the name node. -/
def MONITOR : List Byte := str "monitor"

/-- The datagram to the name node once it has answered.  The client does not wait for an answer. -/
def Program.greeting : Program → Option (List Byte)
  | datanode => some (Command.datanode.text ++ [comma])
  | monitor => some (MONITOR ++ [comma])
  | client => none

/-- Where `main` is: in front of `sendping`, in it behind `pingsuccess = 0`, in the loop that waits for
an answer, or behind that. -/
inductive Stage where
  | begun
  | sending
  | waiting (counter : ℕ)
  | running
deriving DecidableEq

/-- A process: `namenode` is its argument. -/
structure Process where
  program : Program
  namenode : List Byte
  pingsuccess : ℤ
  stage : Stage
deriving DecidableEq

/-- A datagram in flight: to `PING_PORT`, or to `COMMAND_PORT`. -/
inductive Packet (Host : Type) where
  | ping (d : Datagram Host)
  | command (source target : Host) (bytes : List Byte)

/-- What has happened: a process has started, a host has replied to a ping of another, or a data node
has sent its registration. -/
inductive Happened (Host : Type) where
  | started (host : Host) (namenode : List Byte)
  | replied (host asker : Host)
  | registered (host : Host) (namenode : List Byte)

/-- The processes, the lists of the name node while it runs, the network, and the past, latest
first. -/
structure State (Host : Type) where
  process : Host → Option Process
  namenode : Option Tables
  flight : List (Packet Host)
  past : List (Happened Host)

/-- What may happen next: a process starts, `main` takes a step, a process ends, a client sends a
request, the name node pings, a host receives the packet at a position, or the network drops or
duplicates it. -/
inductive Event (Host : Type) where
  | start (host : Host) (program : Program) (namenode : List Byte)
  | advance (host : Host)
  | quit (host : Host)
  | ask (host : Host) (op : Op)
  | probe (node : List Byte)
  | receive (i : ℕ) (net : Net)
  | lose (i : ℕ)
  | duplicate (i : ℕ)

variable {Host : Type}

/-- The loop of `readdnconfig` with the file table, for at most `fuel` lines of the config file. -/
def readdnconfig : ℕ → Stream → Tables → Except Fault (Option Tables)
  | 0, _, _ => .ok none
  | fuel + 1, s, t =>
      match fgets 4096 4096 t.config s with
      | (none, _) => .ok (some t)
      | (some line, s) => do
          let d ← Registry.parseLine line
          let t ← datanode_insert d.node d.ip d.alive t
          readdnconfig fuel s t

/-- A name node that starts next to a config file comes out of `initdatanodelist` with the lists `t`. -/
def Starts (config : List Byte) (t : Tables) : Prop :=
  ∃ fuel, readdnconfig fuel ⟨[], 0⟩ ⟨⟨[], config⟩, []⟩ = .ok (some t)

/-- A name node has started with some lists. -/
def State.init (t : Tables) : State Host := ⟨fun _ => none, some t, [], []⟩

/-- A step of `main`: the process behind it, unless it has ended, and what it sends. -/
def Process.advance (names : Names Host) (host : Host) (p : Process) :
    Option Process × Option (Packet Host) :=
  match p.stage with
  | .begun => (some { p with pingsuccess := 0, stage := .sending }, none)
  | .sending =>
      match sendping1 names host p.namenode (str "ping") none with
      | none => (none, none)
      | some d =>
          (some { p with stage := if p.program = .client then .running else .waiting 0 },
            some (.ping d))
  | .waiting counter =>
      if p.pingsuccess = 1 then
        match p.program.greeting, names.hostname_to_ip p.namenode with
        | some bytes, some target =>
            (some { p with stage := .running }, some (.command host target bytes))
        | _, _ => (none, none)
      else if 100 < counter + 1 then (none, none)
      else (some { p with stage := .waiting (counter + 1) }, none)
  | .running => (some p, none)

/-- What a step of `main` adds to the past. -/
def Process.registers (host : Host) (p : Process) : Option (Packet Host) → List (Happened Host)
  | some (.command _ _ _) => if p.program = .datanode then [.registered host p.namenode] else []
  | _ => []

/-- The request of a client that runs: what is sent, unless an array is too short for it. -/
def Process.ask (names : Names Host) (host : Host) (p : Process) (op : Op) :
    Except Fault (Option (Packet Host)) := do
  let r ← op.request
  match names.hostname_to_ip p.namenode with
  | none => return none
  | some target =>
      if (r.command.text ++ comma :: r.path).length < 1000 then
        return some (.command host target (r.command.text ++ comma :: r.path))
      else .error .overflow

/-- A client receives pings only behind `parse_arguments`. -/
def Process.listens (p : Process) : Bool := p.program ≠ .client ∨ p.stage = .running

section Step

variable [DecidableEq Host] (names : Names Host) (namehost : Host)

/-- `receiveping` at the target of a datagram. -/
def State.ping (s : State Host) (d : Datagram Host) : State Host :=
  let turn := receiveping names d
  { s with
    process :=
      if turn.2 then
        Function.update s.process d.target
          ((s.process d.target).map fun p => { p with pingsuccess := 1 })
      else s.process
    flight := turn.1.toList.map Packet.ping ++ s.flight
    past := turn.1.toList.map (fun reply => .replied reply.source d.source) ++ s.past }

/-- The next state; `namehost` is the host of the name node. -/
def step (s : State Host) : Event Host → Option (State Host)
  | .start host program namenode =>
      if host = namehost ∨ (s.process host).isSome then none
      else
        some { s with
          process := Function.update s.process host (some ⟨program, namenode, 1, .begun⟩)
          past := .started host namenode :: s.past }
  | .advance host =>
      (s.process host).map fun p =>
        let turn := p.advance names host
        { s with
          process := Function.update s.process host turn.1
          flight := turn.2.toList ++ s.flight
          past := p.registers host turn.2 ++ s.past }
  | .quit host => some { s with process := Function.update s.process host none }
  | .ask host op =>
      match s.process host with
      | some p =>
          if p.program = .client ∧ p.stage = .running then
            match p.ask names host op with
            | .ok sent => some { s with flight := sent.toList ++ s.flight }
            | .error _ => some { s with process := Function.update s.process host none }
          else none
      | none => none
  | .probe node =>
      let ping := sendping1 names namehost node (str "ping") none
      some { s with flight := ping.toList.map Packet.ping ++ s.flight }
  | .receive i net =>
      match take s.flight i with
      | some (.ping d, rest) =>
          if d.target = namehost ∨ (s.process d.target).any Process.listens then
            some (State.ping names { s with flight := rest } d)
          else none
      | some (.command source target bytes, rest) =>
          match s.namenode with
          | some t =>
              if target = namehost then
                some { s with
                  namenode :=
                    Delivery.after
                      (receivecommand_namenode net t (names.getnameinfo source) bytes)
                  flight := rest }
              else none
          | none => none
      | none => none
  | .lose i => (take s.flight i).map fun taken => { s with flight := taken.2 }
  | .duplicate i => s.flight[i]?.map fun p => { s with flight := p :: s.flight }

end Step

/-! ## What holds in every state -/

section Invariant

variable (names : Names Host) (namehost : Host) (old : List (List Byte))
  (past : List (Happened Host))

/-- A process on the host was given a name of a host that has replied to a ping of it. -/
def Heard (host : Host) : Prop :=
  ∃ namenode x, .started host namenode ∈ past ∧ names.hostname_to_ip namenode = some x ∧
    .replied x host ∈ past

/-- A ping goes to the name node of a process that has started, unless the name node has sent it; a
reply reaches a host that has pinged; and a registration comes from a data node. -/
def Packet.Sound : Packet Host → Prop
  | .ping d =>
      (d.buf = str "ping" → d.source = namehost ∨ ∃ namenode, .started d.source namenode ∈ past ∧
        names.hostname_to_ip namenode = some d.target) ∧
      (d.buf = str "fucku" → d.target = namehost ∨ Heard names past d.target)
  | .command source target bytes =>
      (nextToken [comma] bytes).1 = some Command.datanode.text →
        ∃ namenode, .registered source namenode ∈ past ∧ names.hostname_to_ip namenode = some target

/-- Once a process has begun to ping, its flag is up only after a reply. -/
structure Process.Sound (host : Host) (p : Process) : Prop where
  elsewhere : host ≠ namehost
  started : .started host p.namenode ∈ past
  flag : p.stage ≠ .begun → p.pingsuccess = 1 → Heard names past host

/-- Whoever is listed is one of the `old` names that the name node has started with, or has
registered with it. -/
structure Listed (t : Tables) : Prop where
  reachable : Reachable t
  registered : ∀ n ∈ t.dlist.map Registry.Datanode.node, n ∈ old ∨ ∃ host namenode,
    n = names.getnameinfo host ∧ .registered host namenode ∈ past ∧
      names.hostname_to_ip namenode = some namehost

/-- Every registration comes after a reply. -/
def Ordered : List (Happened Host) → Prop
  | [] => True
  | .registered host namenode :: older =>
      (.started host namenode ∈ older ∧ Heard names older host) ∧ Ordered older
  | _ :: older => Ordered older

/-- What every state keeps. -/
structure Inv (s : State Host) : Prop where
  flight : ∀ p ∈ s.flight, p.Sound names namehost s.past
  process : ∀ host p, s.process host = some p → p.Sound names namehost s.past host
  namenode : ∀ t ∈ s.namenode, Listed names namehost old s.past t
  past : Ordered names s.past

end Invariant

section Steps

variable {names : Names Host} {namehost host : Host} {s t : State Host} {p q : Process}
  {old : List (List Byte)} {past later : List (Happened Host)} {d : Datagram Host} {packet : Packet Host}
  {e : Happened Host}

theorem Heard.mono (grows : past ⊆ later) (heard : Heard names past host) :
    Heard names later host := by
  obtain ⟨namenode, x, started, found, replied⟩ := heard
  exact ⟨namenode, x, grows started, found, grows replied⟩

theorem Packet.Sound.mono (grows : past ⊆ later) (sound : packet.Sound names namehost past) :
    packet.Sound names namehost later := by
  cases packet with
  | ping d =>
    refine ⟨fun ping => ?_, fun fucku => (sound.2 fucku).imp id (Heard.mono grows)⟩
    rcases sound.1 ping with own | ⟨namenode, started, found⟩
    · exact .inl own
    · exact .inr ⟨namenode, grows started, found⟩
  | command source target bytes =>
    intro registers
    obtain ⟨namenode, registered, found⟩ := sound registers
    exact ⟨namenode, grows registered, found⟩

theorem Process.Sound.mono (grows : past ⊆ later) (sound : p.Sound names namehost past host) :
    p.Sound names namehost later host where
  elsewhere := sound.elsewhere
  started := grows sound.started
  flag begun up := (sound.flag begun up).mono grows

theorem Listed.mono {t : Tables} (grows : past ⊆ later) (listed : Listed names namehost old past t) :
    Listed names namehost old later t where
  reachable := listed.reachable
  registered n mem := by
    rcases listed.registered n mem with known | ⟨host, namenode, same, registered, found⟩
    · exact .inl known
    · exact .inr ⟨host, namenode, same, grows registered, found⟩

/-- Reading the config file only inserts. -/
theorem readdnconfig_reachable {fuel : ℕ} {stream : Stream} {t t' : Tables}
    (reachable : Reachable t) (read : readdnconfig fuel stream t = .ok (some t')) :
    Reachable t' := by
  induction fuel generalizing stream t with
  | zero => cases read
  | succ fuel ih =>
    rw [readdnconfig] at read
    split at read
    · cases read
      exact reachable
    · obtain ⟨d, -, read⟩ := bind_eq_ok.1 read
      obtain ⟨u, inserted, read⟩ := bind_eq_ok.1 read
      refine ih (.step (.insert d.node d.ip d.alive) reachable ?_) read
      rw [Input.step, inserted]
      rfl

theorem Starts.reachable {config : List Byte} {t : Tables} (starts : Starts config t) :
    Reachable t := by
  obtain ⟨fuel, read⟩ := starts
  exact readdnconfig_reachable (.init config) read

theorem inv_init {t : Tables} (reachable : Reachable t) :
    Inv names namehost (t.dlist.map Registry.Datanode.node) (State.init t) where
  flight _ mem := absurd mem List.not_mem_nil
  process _ _ none_ := by cases none_
  namenode := by
    rintro u ⟨⟩
    exact ⟨reachable, fun n mem => .inl mem⟩
  past := trivial

/-! What may change: the network, one process, the lists, and the past. -/

theorem Inv.fly {flight : List (Packet Host)} (inv : Inv names namehost old s)
    (sound : ∀ p ∈ flight, p.Sound names namehost s.past) :
    Inv names namehost old { s with flight := flight } :=
  ⟨sound, inv.process, inv.namenode, inv.past⟩

theorem Inv.send {sent : List (Packet Host)} (inv : Inv names namehost old s)
    (sound : ∀ p ∈ sent, p.Sound names namehost s.past) :
    Inv names namehost old { s with flight := sent ++ s.flight } := by
  apply inv.fly
  intro p mem
  exact (List.mem_append.1 mem).elim (sound p) (inv.flight p)

theorem Inv.sendOne (inv : Inv names namehost old s) (sound : packet.Sound names namehost s.past) :
    Inv names namehost old { s with flight := packet :: s.flight } :=
  inv.fly (List.forall_mem_cons.2 ⟨sound, inv.flight⟩)

theorem Inv.set [DecidableEq Host] {next : Option Process} (inv : Inv names namehost old s)
    (sound : ∀ p ∈ next, p.Sound names namehost s.past host) :
    Inv names namehost old { s with process := Function.update s.process host next } := by
  refine ⟨inv.flight, fun x p at_ => ?_, inv.namenode, inv.past⟩
  by_cases own : x = host
  · subst own
    exact sound p (by simpa using at_)
  · exact inv.process x p (by simpa [own] using at_)

theorem Inv.lists {next : Option Tables} (inv : Inv names namehost old s)
    (listed : ∀ t ∈ next, Listed names namehost old s.past t) :
    Inv names namehost old { s with namenode := next } :=
  ⟨inv.flight, inv.process, listed, inv.past⟩

theorem Inv.add (inv : Inv names namehost old s) (ordered : Ordered names (e :: s.past)) :
    Inv names namehost old { s with past := e :: s.past } := by
  have grows : s.past ⊆ e :: s.past := List.subset_cons_self e s.past
  exact ⟨fun p mem => (inv.flight p mem).mono grows, fun x p at_ => (inv.process x p at_).mono grows,
    fun t up => (inv.namenode t up).mono grows, ordered⟩

/-- A ping that a process or the name node sends. -/
theorem sound_ping {node : List Byte} (sent : d ∈ sendping1 names host node (str "ping") none)
    (asks : host = namehost ∨ .started host node ∈ past) :
    (Packet.ping d).Sound names namehost past := by
  obtain ⟨found, source, buf, -⟩ := Probe.mem_sendping1 (Option.mem_toList.2 sent)
  rw [Packet.Sound, source]
  refine ⟨fun _ => ?_, fun fucku => absurd (buf.symm.trans fucku) Probe.ping_ne_fucku⟩
  exact asks.imp id fun started => ⟨node, started, found⟩

/-- A data node registers once it has heard. -/
theorem Inv.register (inv : Inv names namehost old s) (started : .started host p.namenode ∈ s.past)
    (heard : Heard names s.past host) {target : Host} {bytes : List Byte}
    (greeting : p.program.greeting = some bytes)
    (found : names.hostname_to_ip p.namenode = some target) :
    Inv names namehost old { s with
      flight := .command host target bytes :: s.flight
      past := p.registers host (some (.command host target bytes)) ++ s.past } := by
  unfold Process.registers
  cases program : p.program with
  | datanode =>
    have later := inv.add (e := .registered host p.namenode) ⟨⟨started, heard⟩, inv.past⟩
    apply later.sendOne
    exact fun _ => ⟨p.namenode, List.mem_cons_self, found⟩
  | monitor =>
    rw [program] at greeting
    cases greeting
    apply inv.sendOne
    intro registers
    exact absurd registers (by decide)
  | client =>
    rw [program] at greeting
    cases greeting

/-- A step of `main`. -/
theorem Inv.advance [DecidableEq Host] (inv : Inv names namehost old s)
    (at_ : s.process host = some p) : Inv names namehost old { s with
      process := Function.update s.process host (p.advance names host).1
      flight := (p.advance names host).2.toList ++ s.flight
      past := p.registers host (p.advance names host).2 ++ s.past } := by
  obtain ⟨elsewhere, started, flag⟩ := inv.process host p at_
  have ends : Inv names namehost old { s with process := Function.update s.process host none } :=
    inv.set fun _ mem => absurd mem (Option.not_mem_none _)
  unfold Process.advance
  cases stage : p.stage with
  | begun =>
    apply inv.set
    rintro q ⟨rfl⟩
    exact ⟨elsewhere, started, fun _ up => absurd up zero_ne_one⟩
  | sending =>
    have begun : p.stage ≠ .begun := by simp [stage]
    dsimp only
    cases sent : sendping1 names host p.namenode (str "ping") none with
    | none => exact ends
    | some d =>
      have packet : (Packet.ping d).Sound names namehost s.past := sound_ping sent (.inr started)
      apply (inv.sendOne packet).set
      rintro q ⟨rfl⟩
      exact ⟨elsewhere, started, fun _ up => flag begun up⟩
  | waiting counter =>
    have begun : p.stage ≠ .begun := by simp [stage]
    dsimp only
    split_ifs with up late
    · split
      next bytes target greeting found =>
        have registers := inv.register started (flag begun up) greeting found
        apply registers.set
        rintro q ⟨rfl⟩
        have grows := List.subset_append_right
          (p.registers host (some (.command host target bytes))) s.past
        exact ⟨elsewhere, grows started, fun _ _ => (flag begun up).mono grows⟩
      next => exact ends
    · exact ends
    · apply inv.set
      rintro q ⟨rfl⟩
      exact ⟨elsewhere, started, fun _ up' => absurd up' up⟩
  | running =>
    apply inv.set
    rintro q ⟨rfl⟩
    exact ⟨elsewhere, started, flag⟩

/-- A reply goes to the host that has pinged. -/
theorem reply_sound (faithful : ∀ x, names.hostname_to_ip (names.getnameinfo x) = some x)
    (sound : (Packet.ping d).Sound names namehost past) {r : Datagram Host}
    (replies : (receiveping names d).1 = some r) :
    r.source = d.target ∧
      (Packet.ping r).Sound names namehost (.replied r.source d.source :: past) := by
  have mem : r ∈ (receiveping names d).1.toList := Option.mem_toList.2 replies
  obtain ⟨ping, source, buf, -⟩ := Probe.mem_receiveping mem
  have back : r.target = d.source := by
    rw [receiveping, if_pos ping] at replies
    obtain ⟨found, -⟩ := Probe.mem_sendping1 (Option.mem_toList.2 replies)
    rw [faithful] at found
    exact (Option.some.inj found).symm
  refine ⟨source, fun ping' => absurd (ping'.symm.trans buf) Probe.ping_ne_fucku, fun _ => ?_⟩
  rw [back]
  rcases sound.1 ping with own | ⟨namenode, started, found⟩
  · exact .inl own
  · refine .inr ⟨namenode, d.target, List.mem_cons_of_mem _ started, found, ?_⟩
    rw [source]
    exact List.mem_cons_self

/-- `receiveping` at any host. -/
theorem Inv.ping [DecidableEq Host]
    (faithful : ∀ x, names.hostname_to_ip (names.getnameinfo x) = some x)
    (inv : Inv names namehost old s) (sound : (Packet.ping d).Sound names namehost s.past) :
    Inv names namehost old (s.ping names d) := by
  have flagged : Inv names namehost old { s with
      process :=
        if (receiveping names d).2 then
          Function.update s.process d.target
            ((s.process d.target).map fun p => { p with pingsuccess := 1 })
        else s.process } := by
    split_ifs with answers
    · apply inv.set
      intro q mem
      obtain ⟨p, at_, rfl⟩ := Option.map_eq_some_iff.1 mem
      obtain ⟨elsewhere, started, -⟩ := inv.process _ p at_
      refine ⟨elsewhere, started, fun _ _ => ?_⟩
      exact (sound.2 (of_decide_eq_true answers)).resolve_left elsewhere
    · exact inv
  unfold State.ping
  cases replies : (receiveping names d).1 with
  | none =>
    simp only [replies]
    exact flagged
  | some r =>
    simp only [replies]
    have later := flagged.add (e := .replied r.source d.source) flagged.past
    exact later.sendOne (reply_sound faithful sound replies).2

/-- No request of a client registers a data node. -/
theorem ask_sound {op : Op} (asks : p.ask names host op = .ok (some packet)) :
    packet.Sound names namehost past := by
  obtain ⟨r, built, asks⟩ := bind_eq_ok.1 asks
  cases found : names.hostname_to_ip p.namenode with
  | none =>
    rw [found] at asks
    cases asks
  | some target =>
    rw [found] at asks
    dsimp only at asks
    split_ifs at asks
    cases asks
    intro registers
    rw [nextToken_command] at registers
    have datanode := Command.text_injective (Option.some.inj registers)
    have forwards := request_forwards built
    rw [datanode] at forwards
    cases forwards

/-- A turn of the name node. -/
theorem Listed.turn {t : Tables} {net : Net} {source : Host} {bytes : List Byte}
    (listed : Listed names namehost old past t)
    (sound : (Packet.command source namehost bytes).Sound names namehost past) :
    ∀ t' ∈ Delivery.after (receivecommand_namenode net t (names.getnameinfo source) bytes),
      Listed names namehost old past t' := by
  intro t' up
  have next := Delivery.after_eq_some.1 up
  refine ⟨.step (.datagram net (names.getnameinfo source) bytes) listed.reachable next, ?_⟩
  intro n mem
  rcases Delivery.turn_nodes listed.reachable next n mem with before | ⟨same, registers⟩
  · exact listed.registered n before
  · obtain ⟨namenode, registered, found⟩ := sound registers
    exact .inr ⟨source, namenode, same, registered, found⟩

theorem Inv.step [DecidableEq Host]
    (faithful : ∀ x, names.hostname_to_ip (names.getnameinfo x) = some x) {e : Event Host}
    (inv : Inv names namehost old s) (next : step names namehost s e = some t) :
    Inv names namehost old t := by
  cases e with
  | start host program namenode =>
    rw [StartUp.step] at next
    split_ifs at next with taken
    cases next
    rw [not_or] at taken
    have later := inv.add (e := .started host namenode) inv.past
    apply later.set
    rintro p ⟨rfl⟩
    exact ⟨taken.1, List.mem_cons_self, fun begun => absurd rfl begun⟩
  | advance host =>
    obtain ⟨p, at_, rfl⟩ := Option.map_eq_some_iff.1 next
    exact inv.advance at_
  | quit host =>
    cases next
    exact inv.set fun _ mem => absurd mem (Option.not_mem_none _)
  | ask host op =>
    simp only [StartUp.step] at next
    split at next
    next p at_ =>
      split_ifs at next
      split at next
      next sent asks =>
        cases next
        apply inv.send
        intro packet mem
        rw [Option.mem_toList] at mem
        cases mem
        exact ask_sound asks
      next =>
        cases next
        exact inv.set fun _ mem => absurd mem (Option.not_mem_none _)
    next => cases next
  | probe node =>
    cases next
    apply inv.send
    intro packet mem
    obtain ⟨d, sent, rfl⟩ := List.mem_map.1 mem
    exact sound_ping (Option.mem_toList.1 sent) (.inl rfl)
  | receive i net =>
    simp only [StartUp.step] at next
    split at next
    next d rest taken =>
      split_ifs at next
      cases next
      have less := inv.fly fun p mem => inv.flight p (take_subset taken mem)
      exact less.ping faithful (inv.flight _ (take_mem taken))
    next source target bytes rest taken =>
      split at next
      next u up =>
        split_ifs at next with own
        cases next
        subst own
        have less := inv.fly fun p mem => inv.flight p (take_subset taken mem)
        exact less.lists ((inv.namenode u up).turn (inv.flight _ (take_mem taken)))
      next => cases next
    next => cases next
  | lose i =>
    obtain ⟨⟨p, rest⟩, taken, same⟩ := Option.map_eq_some_iff.1 next
    cases same
    exact inv.fly fun p mem => inv.flight p (take_subset taken mem)
  | duplicate i =>
    obtain ⟨p, found, same⟩ := Option.map_eq_some_iff.1 next
    cases same
    exact inv.sendOne (inv.flight p (List.mem_of_getElem? found))

/-- What has come before a registration. -/
theorem Ordered.before {newer older : List (Happened Host)} {namenode : List Byte}
    (ordered : Ordered names (newer ++ .registered host namenode :: older)) :
    .started host namenode ∈ older ∧ Heard names older host := by
  induction newer with
  | nil => exact ordered.1
  | cons e newer ih =>
    cases e with
    | registered host' namenode' => exact ih ordered.2
    | _ => exact ih ordered

end Steps

/-- How a name has come into the list of the name node: a data node of that host, given a name of the
name node, has registered, and before that a host whose name a process there had been given has
replied to a ping from there.  If all processes there were given names of this name node, it has
replied itself. -/
def Joined (names : Names Host) (namehost : Host) (past : List (Happened Host)) (n : List Byte) :
    Prop :=
  ∃ host namenode newer older, n = names.getnameinfo host ∧
    past = newer ++ .registered host namenode :: older ∧
    .started host namenode ∈ older ∧ names.hostname_to_ip namenode = some namehost ∧
    Heard names older host ∧
    ((∀ given, .started host given ∈ older → names.hostname_to_ip given = some namehost) →
      .replied namehost host ∈ older)

/-- In every run, whatever the network does, who is listed was read from the config file or has heard
before it has registered. -/
theorem listed_heard [DecidableEq Host] {names : Names Host} {namehost : Host} {config : List Byte}
    {events : List (Event Host)} {s : State Host} {t₀ t : Tables}
    (faithful : ∀ x, names.hostname_to_ip (names.getnameinfo x) = some x) (starts : Starts config t₀)
    (ran : run (step names namehost) (State.init t₀) events = some s) (up : s.namenode = some t) :
    ∀ n ∈ t.dlist.map Registry.Datanode.node,
      n ∈ t₀.dlist.map Registry.Datanode.node ∨ Joined names namehost s.past n := by
  intro n listed
  have inv := run_invariant (fun _ _ _ inv next => Inv.step faithful inv next)
    (inv_init starts.reachable) ran
  refine ((inv.namenode t up).registered n listed).imp_right ?_
  rintro ⟨host, namenode, same, registered, found⟩
  obtain ⟨newer, older, split⟩ := List.append_of_mem registered
  have past := inv.past
  rw [split] at past
  obtain ⟨started, heard⟩ := past.before
  refine ⟨host, namenode, newer, older, same, split, started, found, heard, fun only => ?_⟩
  obtain ⟨given, x, asked, answered, replied⟩ := heard
  rw [only given asked] at answered
  cases answered
  exact replied

/-- Two hosts, the one of the name node and another. -/
def twoNames : Names Bool where
  hostname_to_ip n := if n = str "nn" then some true else if n = str "dn" then some false else none
  getnameinfo host := if host then str "nn" else str "dn"

/-- A data node starts, pings, is answered, and registers. -/
def once : List (Event Bool) :=
  [.start false .datanode (str "nn"), .advance false, .advance false, .receive 0 upNet,
    .receive 0 upNet, .advance false, .receive 0 upNet]

/-- The config file has an entry for a node that is gone. -/
theorem listed_heard_once : ∃ s t,
    Starts (str "d,10.0.0.1,1\n") (oneFile DATANODE_DIR) ∧
    run (step twoNames true) (State.init (oneFile DATANODE_DIR)) once = some s ∧
    s.namenode = some t ∧ t.dlist.map Registry.Datanode.node = [str "d", str "dn"] ∧
      ∀ n ∈ t.dlist.map Registry.Datanode.node,
        n ∈ (oneFile DATANODE_DIR).dlist.map Registry.Datanode.node ∨
          Joined twoNames true s.past n := by
  have starts : Starts (str "d,10.0.0.1,1\n") (oneFile DATANODE_DIR) := ⟨2, rfl⟩
  obtain ⟨s, ran⟩ :
      ∃ s, run (step twoNames true) (State.init (oneFile DATANODE_DIR)) once = some s :=
    Option.isSome_iff_exists.1 (by decide)
  have listed : ((run (step twoNames true) (State.init (oneFile DATANODE_DIR)) once).bind
      State.namenode).map (fun t => t.dlist.map Registry.Datanode.node) = some [str "d", str "dn"] := by
    decide
  rw [ran, Option.bind_some, Option.map_eq_some_iff] at listed
  obtain ⟨t, up, nodes⟩ := listed
  exact ⟨s, t, starts, ran, up, nodes, listed_heard (by decide) starts ran up⟩

end DistFs.StartUp
