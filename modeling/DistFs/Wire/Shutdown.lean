import DistFs.Wire.Forwarding

/-!
# Stopping a data node

The loop of `receivecommand_datanode` over datagrams from anywhere.  The name of the sender is
looked up and printed, but what a shutdown order is compared with is a field of the datagram, and an
order of the monitor is compared with nothing.
-/

namespace DistFs.Wire

open CText

/-- A datagram and the host that has sent it. -/
structure Datagram where
  sender : List Byte
  buf1 : List Byte

/-- Where the loop is after some datagrams: at the next `recvfrom`, left by a `break` for a shutdown
order, left by the `return` for a data node without an address, or in a fault. -/
inductive LoopState where
  | receiving
  | shutdown
  | returned
  | crashed (e : Fault)
deriving DecidableEq

/-- The field of a datagram that is compared with the commands. -/
def datanodeCommand (M : List Byte) : Option (List Byte) :=
  (nextToken [comma] (nextToken [comma] (nextToken [comma] M).2).2).1

/-- The loop of `receivecommand_datanode` over some datagrams. -/
def runDatanode (net : Net) : List Datagram → LoopState
  | [] => .receiving
  | d :: rest =>
      match receivecommand_datanode net d.buf1 with
      | .error e => .crashed e
      | .ok .stopped =>
          if datanodeCommand d.buf1 = some Command.datanode.text then .returned else .shutdown
      | .ok _ => runDatanode net rest

/-- A loop that is left by a shutdown order has had a datagram of the name node. -/
def OnlyNameNodeStops (net : Net) (run : List Datagram) : Prop :=
  runDatanode net run = .shutdown → ∃ d ∈ run, d.sender = net.datanode_namenode

/-- The datagrams that order a shutdown: `shutdown` behind the name of the name node, and
`dn_command,shutdown` behind any name. -/
def StopOrder (net : Net) (M : List Byte) : Prop :=
  let tmphost := nextToken [comma] (nextToken [comma] M).2
  let cmd := nextToken [comma] tmphost.2
  ∃ host, tmphost.1 = some host ∧ host.length < 100 ∧
    (cmd.1 = some Command.shutdown.text ∧ host = net.datanode_namenode ∨
      cmd.1 = some Command.dn_command.text ∧
        (nextToken [comma] cmd.2).1 = some Command.shutdown.text)

/-- A shutdown order comes from the name node. -/
def Trusted (net : Net) (d : Datagram) : Prop :=
  StopOrder net d.buf1 → d.sender = net.datanode_namenode

section Loop

variable {net : Net} {M : List Byte} {d : Datagram} {run : List Datagram}

theorem resolvemonitorcommand_stopped {intcmd : Option (List Byte)} :
    resolvemonitorcommand intcmd = .ok .stopped ↔ intcmd = some Command.shutdown.text := by
  cases intcmd with
  | none => simp [resolvemonitorcommand]
  | some intcmd =>
    rw [resolvemonitorcommand]
    split_ifs with same <;> simp [same]

/-- What makes one turn leave the loop. -/
theorem datanode_stopped_iff : receivecommand_datanode net M = .ok .stopped ↔
    StopOrder net M ∨ ∃ host, (nextToken [comma] (nextToken [comma] M).2).1 = some host ∧
      host.length < 100 ∧ datanodeCommand M = some Command.datanode.text ∧
        net.known host = false := by
  rw [receivecommand_datanode, StopOrder, datanodeCommand]
  rcases nextToken [comma] (nextToken [comma] M).2 with ⟨_ | host, m⟩
  · simp
  · by_cases long : 100 ≤ host.length
    · simp [long, not_lt.2 long]
    · rcases nextToken [comma] m with ⟨_ | cmd, rest⟩
      · simp [long]
      · simp only [if_neg long, not_le.1 long, Option.some.injEq, exists_eq_left', true_and]
        cases named : Command.ofText cmd with
        | none =>
          have other : ∀ c : Command, cmd ≠ c.text := by
            rintro c rfl
            rw [Command.ofText_text] at named
            cases named
          simp [other]
        | some c =>
          obtain rfl := Command.ofText_eq_some named
          simp only [Command.text_injective.eq_iff]
          cases c with
          | access | mkdir | open_ | chmod =>
            cases (nextToken [comma] (nextToken [comma] rest).2).1 <;> simp [atoiPtr]
          | _ => simp [resolvemonitorcommand_stopped]

theorem StopOrder.command (order : StopOrder net M) :
    datanodeCommand M ≠ some Command.datanode.text := by
  obtain ⟨host, -, -, ⟨cmd, -⟩ | ⟨cmd, -⟩⟩ := order <;>
  · rw [datanodeCommand, cmd, ne_eq, Option.some.injEq, Command.text_injective.eq_iff]
    decide

/-- The loop is left by a shutdown order at a datagram that is one. -/
theorem runDatanode_shutdown (h : runDatanode net run = .shutdown) :
    ∃ d ∈ run, StopOrder net d.buf1 := by
  induction run with
  | nil => cases h
  | cons d rest ih =>
    rw [runDatanode] at h
    split at h
    · cases h
    · next stopped =>
      split_ifs at h with returned
      rcases datanode_stopped_iff.1 stopped with order | ⟨host, -, -, datanode, -⟩
      · exact ⟨d, List.mem_cons_self, order⟩
      · exact absurd datanode returned
    · obtain ⟨e, mem, order⟩ := ih h
      exact ⟨e, List.mem_cons_of_mem d mem, order⟩

/-- A shutdown order ends the loop. -/
theorem StopOrder.stops (order : StopOrder net d.buf1) : runDatanode net [d] = .shutdown := by
  rw [runDatanode, datanode_stopped_iff.2 (.inl order)]
  exact if_neg order.command

end Loop

/-- An order of a host that is not the name node `n`. -/
def forgedMaster : Datagram := ⟨str "x", str "x,n,shutdown"⟩

/-- The same with the command of the monitor. -/
def forgedMonitor : Datagram := ⟨str "x", str "x,h,dn_command,shutdown"⟩

end DistFs.Wire
