import DistFs.Wire.Shutdown
import DistFs.Wire.Failures

/-!
# Datagrams that stop a receiver

The loops of `receivecommand_replica` and `monitorcommand_namenode` beside those of the name node
and the data node, and which datagrams each of the four outlives.  A handler that passes a null path
on to the kernel gets `EFAULT`; `opendir` reads the path itself, `fwrite` its stream.
-/

namespace DistFs.Wire

open CText Registry

/-- What the calls of `strtok` return, one after the other. -/
def field : ℕ → List Byte → Option (List Byte)
  | 0, M => (nextToken [comma] M).1
  | n + 1, M => field n (nextToken [comma] M).2

/-! ## The replica -/

/-- The command that asks whether a file exists. -/
def R_FILEEXIST : List Byte := str "replica_fileexists"

/-- The command that asks for the contents of a file. -/
def R_READ : List Byte := str "r_read"

/-- The command that writes a file. -/
def R_WRITE : List Byte := str "r_write"

/-- A call of one of the `sendreplicaresponse_*` functions, without the node. -/
inductive ReplicaCall where
  | fileexist (path : Option (List Byte))
  | read (path : Option (List Byte))
  | write (path buf : Option (List Byte))
deriving DecidableEq

/-- `receivecommand_replica`: the call that a datagram makes. -/
def receivecommand_replica (M : List Byte) : Except Fault (Option ReplicaCall) :=
  match nextToken [comma] M with
  | (none, _) => .error .null
  | (some cmd, m) =>
    let path := nextToken [comma] m
    if cmd = R_FILEEXIST then .ok (some (.fileexist path.1))
    else if cmd = R_READ then .ok (some (.read path.1))
    else if cmd = R_WRITE then .ok (some (.write path.1 (nextToken [comma] path.2).1))
    else .ok none

/-- A stream that `fopen` has opened for writing: how many bytes it takes, and whether its address
is the same after it was kept in an `int`.  It is where an `int` is as wide as a pointer; with 64
bits it is not for the memory that a second thread gets. -/
structure FileStream where
  takes : ℕ
  inInt : Bool

/-- Whether the function returns.  What `fopen` returns is kept in an `int` and compared with -1, so
`fwrite` uses a null pointer, and what is left of an address, like any other. -/
def ReplicaCall.returns (net : Net) (fopen : List Byte → Option FileStream) (host : List Byte) :
    ReplicaCall → Except Fault Unit
  | .fileexist _ | .read _ => .ok ()
  | .write path buf =>
      if net.known host = false then .ok ()
      else if buf = none then .error .null
      else
        match path.bind fopen with
        | none => .error .null
        | some fd => if fd.inInt then .ok () else .error .undefined

/-- One turn of the replica. -/
def replicaTurn (net : Net) (fopen : List Byte → Option FileStream) (host M : List Byte) :
    Except Fault Unit :=
  (receivecommand_replica M).bind fun call =>
    match call with
    | none => .ok ()
    | some call => call.returns net fopen host

/-! ## The monitor's requests to the name node -/

/-- The command that asks for the list of data nodes. -/
def DNLIST : List Byte := str "dnlist"

/-- The command that sets `replication_count`. -/
def SENDREP : List Byte := str "senrep"

/-- What `datanode_sendlist` prints for one data node. -/
def sendlistLine (d : Datanode) : List Byte :=
  d.node ++ comma :: (d.ip ++ comma :: (snprintf 10 d.alive ++ [comma]))

/-- `datanode_sendlist`, into the 10000 bytes of `dnbuf`. -/
def datanode_sendlist (dlist : List Datanode) : Except Fault (List Byte) :=
  if (dlist.flatMap sendlistLine).length < 10000 then .ok (dlist.flatMap sendlistLine)
  else .error .overflow

/-- `senddnlist`: the datagram, or nothing when the address of `node` is not found. -/
def senddnlist (net : Net) (node dnbuf : List Byte) : Except Fault (Option (List Byte)) :=
  if net.known node = false then .ok none
  else if (DNLIST ++ comma :: dnbuf).length < 10000 then .ok (some (DNLIST ++ comma :: dnbuf))
  else .error .overflow

/-- `sendAckRep`. -/
def sendAckRep (net : Net) (node : List Byte) (replication_count : ℤ) : Option (List Byte) :=
  if net.known node = false then none
  else some (SENDREP ++ comma :: snprintf 10 replication_count)

/-- `monitorcommand_namenode`: the datagram that answers, and `replication_count` afterwards. -/
def monitorcommand_namenode (net : Net) (dlist : List Datanode) (replication_count : ℤ)
    (host M : List Byte) : Except Fault (Option (List Byte) × ℤ) :=
  match nextToken [comma] M with
  | (none, _) => .error .null
  | (some cmd, m) =>
    if cmd = DNLIST then do
      let dnbuf ← datanode_sendlist dlist
      let sent ← senddnlist net host dnbuf
      return (sent, replication_count)
    else if cmd = SENDREP then do
      let i_temp ← atoiPtr (nextToken [comma] m).1
      return (sendAckRep net host i_temp, i_temp)
    else .ok (none, replication_count)

/-! ## Turns that end at the next `recvfrom` -/

/-- The loop of the data node after one datagram and the function it calls.  A data node has no
configuration file, so `datanode_insert` writes to a null stream. -/
def datanodeTurn (net : Net) (M : List Byte) : LoopState :=
  match receivecommand_datanode net M with
  | .ok (.datanode_insert _) => .crashed .null
  | .ok (.respond host (.readdir none)) => if net.known host then .crashed .null else .receiving
  | _ => runDatanode net [⟨[], M⟩]

/-- The name node goes on to the next datagram. -/
def NamenodeSurvives (net : Net) (t : Tables) (host M : List Byte) : Prop :=
  ∃ t', (receivecommand_namenode net t host M).next = .ok (some t')

/-- The data node goes on to the next datagram, or obeys a shutdown order. -/
def DatanodeSurvives (net : Net) (M : List Byte) : Prop :=
  datanodeTurn net M = .receiving ∨ datanodeTurn net M = .shutdown

/-- The replica goes on to the next datagram. -/
def ReplicaSurvives (net : Net) (fopen : List Byte → Option FileStream) (host M : List Byte) : Prop :=
  replicaTurn net fopen host M = .ok ()

/-- The other loop of the name node goes on to the next datagram. -/
def MonitorSurvives (net : Net) (dlist : List Datanode) (host M : List Byte) : Prop :=
  ∀ replication_count, ∃ sent, monitorcommand_namenode net dlist replication_count host M = .ok sent

/-! ## Their conditions -/

/-- A data node can be entered. -/
def Enterable (net : Net) (t : Tables) (host : List Byte) : Prop :=
  net.known host = true ∧ host.length < 100 ∧ HasRoom t DATANODE_DIR ∧
    (text (entered host (net.address host) 1 t.dlist)).length < 10000

/-- A command can be forwarded for a path, or answered, and recorded where it is. -/
def Forwardable (net : Net) (t : Tables) (host M path : List Byte) (c : Command) : Prop :=
  (¬ Located net t path → c ≠ .rename) ∧
    ∀ dn t', getfiledn net t path = .ok (some dn, t') →
      if net.known dn then
        (c.text ++ comma :: (host ++ comma :: cstr M)).length < 1000 ∧
          (c.recorded = true → HasRoom t path)
      else c ≠ .getattr

/-- A datagram that the name node outlives: a command, with a path if it is forwarded. -/
def NamenodeFields (net : Net) (t : Tables) (host M : List Byte) : Prop :=
  (host ++ comma :: cstr M).length < 1000 ∧ ∃ cmd, field 0 M = some cmd ∧
    ∀ c : Command, cmd = c.text → (c = .datanode → Enterable net t host) ∧
      (c.forwards = true → ∃ path, field 1 M = some path ∧ Forwardable net t host M path c)

/-- A datagram that the data node outlives: a host and a command behind the first field, and the
fields that the command takes without a check. -/
def DatanodeFields (net : Net) (M : List Byte) : Prop :=
  ∃ host cmd, field 1 M = some host ∧ host.length < 100 ∧ field 2 M = some cmd ∧
    ∀ c : Command, cmd = c.text →
      match c with
      | .datanode => False
      | .access | .open_ | .mkdir | .chmod => field 4 M ≠ none
      | .readdir => field 3 M ≠ none ∨ net.known host = false
      | .dn_command => field 3 M = some Command.shutdown.text
      | _ => True

/-- A datagram that the replica outlives: a command, and behind `r_write` a text and a file that
opens as a stream with an address that an `int` can hold. -/
def ReplicaFields (net : Net) (fopen : List Byte → Option FileStream) (host M : List Byte) : Prop :=
  field 0 M ≠ none ∧ (field 0 M = some R_WRITE → net.known host = true →
    field 2 M ≠ none ∧ ∃ path fd, field 1 M = some path ∧ fopen path = some fd ∧ fd.inInt = true)

/-- A datagram that the other loop of the name node outlives: a command, and behind `senrep` a
number; a list has to fit its datagram. -/
def MonitorFields (net : Net) (dlist : List Datanode) (host M : List Byte) : Prop :=
  field 0 M ≠ none ∧ (field 0 M = some SENDREP → field 1 M ≠ none) ∧
    (field 0 M = some DNLIST → (text dlist).length < 10000 ∧
      (net.known host = true → (text dlist).length < 9993))

section Survival

variable {net : Net} {t t' : Tables} {host M path dn : List Byte} {c : Command} {f : Filelist}
  {fopen : List Byte → Option FileStream} {dlist : List Datanode}

/-- What a write outlives. -/
theorem write_returns_iff {path buf : Option (List Byte)} (known : net.known host = true) :
    (ReplicaCall.write path buf).returns net fopen host = .ok () ↔
      buf ≠ none ∧ ∃ p fd, path = some p ∧ fopen p = some fd ∧ fd.inInt = true := by
  rw [ReplicaCall.returns, known, if_neg (by decide)]
  cases buf with
  | none => simp
  | some buf =>
    rw [if_neg (Option.some_ne_none buf)]
    cases path with
    | none => simp
    | some p =>
      rw [Option.bind_some]
      cases opened : fopen p with
      | none => simp [opened]
      | some fd => cases whole : fd.inInt <;> simp [opened, whole]

theorem replicaSurvives_iff : ReplicaSurvives net fopen host M ↔ ReplicaFields net fopen host M := by
  rw [ReplicaSurvives, ReplicaFields, replicaTurn, receivecommand_replica]
  simp only [field]
  rcases nextToken [comma] M with ⟨_ | cmd, m⟩
  · simp [Except.bind]
  · have differ : R_READ ≠ R_FILEEXIST ∧ R_FILEEXIST ≠ R_WRITE ∧ R_READ ≠ R_WRITE := by
      decide
    by_cases exists_ : cmd = R_FILEEXIST
    · simp [exists_, Except.bind, ReplicaCall.returns, differ]
    · by_cases read : cmd = R_READ
      · simp [read, Except.bind, ReplicaCall.returns, differ]
      · by_cases write : cmd = R_WRITE
        · subst write
          simp only [if_neg exists_, if_neg read, if_true, Except.bind]
          cases known : net.known host with
          | false => simp [ReplicaCall.returns, known]
          | true => rw [write_returns_iff known]; simp
        · simp [exists_, read, write, Except.bind]

theorem sendlist_length (dlist : List Datanode) :
    (dlist.flatMap sendlistLine).length = (text dlist).length := by
  induction dlist with
  | nil => rfl
  | cons d rest ih =>
    rw [text_cons, List.flatMap_cons, List.length_append, List.length_append, ih]
    simp [sendlistLine, Datanode.line]

theorem monitorSurvives_iff : MonitorSurvives net dlist host M ↔ MonitorFields net dlist host M := by
  rw [MonitorSurvives, MonitorFields]
  simp only [monitorcommand_namenode, field]
  rcases nextToken [comma] M with ⟨_ | cmd, m⟩
  · simp
  · have differ : DNLIST ≠ SENDREP := by decide
    by_cases list : cmd = DNLIST
    · subst list
      have header : (DNLIST ++ comma :: dlist.flatMap sendlistLine).length =
          (text dlist).length + 7 := by
        rw [List.length_append, List.length_cons, sendlist_length]
        have : DNLIST.length = 6 := by decide
        omega
      simp only [if_true, differ, Option.some.injEq, ne_eq, reduceCtorEq, not_false_eq_true,
        true_and, false_imp_iff, forall_const, datanode_sendlist, sendlist_length]
      by_cases fits : (text dlist).length < 10000
      · have sends : senddnlist net host (dlist.flatMap sendlistLine) =
            if net.known host = false then .ok none
            else if (text dlist).length < 9993 then
              .ok (some (DNLIST ++ comma :: dlist.flatMap sendlistLine))
            else .error .overflow := by
          rw [senddnlist, header]
          simp only [show (text dlist).length + 7 < 10000 ↔ (text dlist).length < 9993 by omega]
        rw [if_pos fits]
        cases known : net.known host with
        | false => simp [fits, sends, known, bind, Except.bind, pure, Except.pure]
        | true =>
          by_cases sent : (text dlist).length < 9993 <;>
            simp [fits, sends, known, sent, bind, Except.bind, pure, Except.pure]
      · simp [fits, bind, Except.bind]
    · by_cases rep : cmd = SENDREP
      · subst rep
        cases number : (nextToken [comma] m).1 <;>
          simp [list, number, atoiPtr, bind, Except.bind, pure, Except.pure]
      · simp [list, rep]

/-- What one turn of the data node outlives. -/
theorem datanodeSurvives_iff : DatanodeSurvives net M ↔ DatanodeFields net M := by
  rw [DatanodeSurvives, DatanodeFields, datanodeTurn, runDatanode, datanodeCommand,
    receivecommand_datanode]
  simp only [field]
  rcases nextToken [comma] (nextToken [comma] M).2 with ⟨_ | host, m⟩
  · simp
  · by_cases long : 100 ≤ host.length
    · simp [long, not_lt.2 long]
    · rcases nextToken [comma] m with ⟨_ | cmd, rest⟩
      · simp [long]
      · simp only [if_neg long, Option.some.injEq]
        cases named : Command.ofText cmd with
        | none =>
          have other : ∀ c : Command, cmd ≠ c.text := by
            rintro c rfl
            rw [Command.ofText_text] at named
            cases named
          simp [other, not_le.1 long, runDatanode]
        | some c =>
          obtain rfl := Command.ofText_eq_some named
          have same : ∀ d : Command, c.text = d.text ↔ c = d :=
            fun d => Command.text_injective.eq_iff
          have short := not_le.1 long
          cases c with
          | access | open_ | mkdir | chmod =>
            cases (nextToken [comma] (nextToken [comma] rest).2).1 <;>
              simp [same, atoiPtr, bind, Except.bind, pure, Except.pure, runDatanode, short]
          | shutdown =>
            by_cases master : host = net.datanode_namenode
            · subst master
              simp [same, short]
            · simp [master, same, runDatanode, short]
          | dn_command =>
            cases (nextToken [comma] rest).1 with
            | none => simp [same, resolvemonitorcommand, short]
            | some intcmd =>
              by_cases order : intcmd = Command.shutdown.text <;>
                simp [order, same, resolvemonitorcommand, short]
          | readdir =>
            cases (nextToken [comma] rest).1 <;> cases known : net.known host <;>
              simp [known, same, runDatanode, short]
          | datanode => cases known : net.known host <;> simp [known, same, short]
          | _ => simp [same, runDatanode, short]

theorem datanode_insert_ok_iff {name ip : List Byte} {alive : ℤ} :
    (∃ t', datanode_insert name ip alive t = .ok t') ↔ name.length < 100 ∧
      HasRoom t DATANODE_DIR ∧ (text (entered name ip alive t.dlist)).length < 10000 := by
  have root : DATANODE_DIR.length < 100 := by decide
  have recorded := @filenode_insert_ok_iff { t with dlist := entered name ip alive t.dlist }
    DATANODE_DIR name
  constructor
  · rintro ⟨t', h⟩
    obtain ⟨t₁, inserted, h⟩ := bind_eq_ok.1 h
    obtain ⟨⟨r, cursor⟩, wrote, -⟩ := bind_eq_ok.1 h
    obtain ⟨short, -, room⟩ := recorded.1 ⟨t₁, inserted⟩
    rw [filenode_insert_nodes inserted] at wrote
    exact ⟨short, room, (datanode_filewrite_ok wrote).1⟩
  · rintro ⟨short, room, fits⟩
    obtain ⟨t₁, inserted⟩ := recorded.2 ⟨short, fun _ => root, room⟩
    have wrote : datanode_filewrite t₁.toNodeList =
        .ok (⟨entered name ip alive t.dlist, text (entered name ip alive t.dlist)⟩, []) := by
      rw [filenode_insert_nodes inserted, datanode_filewrite, if_pos fits]
    exact ⟨_, bind_eq_ok.2 ⟨t₁, inserted, bind_eq_ok.2 ⟨_, wrote, rfl⟩⟩⟩

theorem exists_map_some {x : Except Fault Tables} :
    (∃ t', (some <$> x : Except Fault (Option Tables)) = .ok (some t')) ↔ ∃ t', x = .ok t' := by
  cases x with
  | error e => exact ⟨fun ⟨_, h⟩ => (by cases h), fun ⟨_, h⟩ => (by cases h)⟩
  | ok t' => exact ⟨fun _ => ⟨t', rfl⟩, fun _ => ⟨t', rfl⟩⟩

/-- What the branch of a forwarded command outlives. -/
theorem forward_survives_iff (sound : Sound t) (forwards : c.forwards = true) :
    (∃ t', (forward net t host (host ++ comma :: cstr M) (some path) c c.junk c.recorded
      c.stops).next = .ok (some t')) ↔ Forwardable net t host M path c := by
  obtain ⟨found, t₁, located, looked⟩ := getfiledn_looked sound net path
  simp only [forward, located]
  cases looked with
  | missing absent =>
    have unfound : Forwardable net t host M path c ↔ c.junk ≠ none := by
      rw [Forwardable, located, ne_eq, ne_eq, ← junk_eq_none forwards]
      simp [absent]
    rw [unfound]
    cases c.junk <;> simp [Turn.fault]
  | @found f i entry used answers =>
    have here : Located net t path := ⟨f, entry, i, used, answers⟩
    have short := ((sound.root f (filelist_search_mem entry).1).2.2 i used).2
    have recorded := @filenode_insert_ok_iff t path (f.replica i)
    simp only [short, entry, reduceCtorEq, false_imp_iff, true_and] at recorded
    have unique : Forwardable net t host M path c ↔
        if net.known (f.replica i) then
          (c.text ++ comma :: (host ++ comma :: cstr M)).length < 1000 ∧
            (c.recorded = true → HasRoom t path)
        else c ≠ .getattr := by
      rw [Forwardable, located]
      refine ⟨fun h => h.2 _ _ rfl, fun h => ⟨fun absent => absurd here absent, ?_⟩⟩
      rintro dn t' same
      cases same
      exact h
    rw [unique]
    cases known : net.known (f.replica i) with
    | false =>
      simp only [sendcommand_eq_none.2 known, Bool.false_eq_true, if_false]
      rw [ne_eq, ← stops_iff]
      cases c.stops <;> simp
    | true =>
      rw [if_pos rfl]
      by_cases fits : (c.text ++ comma :: (host ++ comma :: cstr M)).length < 1000
      · simp only [sendcommand_ok known fits, fits, true_and]
        cases c.recorded with
        | false => simp
        | true =>
          rw [← recorded]
          simp only [if_true, forall_const]
          exact exists_map_some
      · have overrun : sendcommand net (f.replica i) (host ++ comma :: cstr M) c =
            .error .overflow := by
          rw [sendcommand, known, if_neg (by simp), if_neg fits]
        simp only [overrun, fits, false_and]
        simp [Turn.fault]

/-- What one turn of the name node outlives. -/
theorem namenodeSurvives_iff (sound : Sound t) :
    NamenodeSurvives net t host M ↔ NamenodeFields net t host M := by
  rw [NamenodeSurvives, NamenodeFields]
  by_cases fits : (host ++ comma :: cstr M).length < 1000
  · simp only [field, fits, true_and]
    rcases parsed : nextToken [comma] M with ⟨_ | cmd, m⟩
    · simp only [receivecommand_namenode, if_neg (not_le.2 fits), parsed]
      simp [Turn.fault]
    · simp only [Option.some.injEq, exists_eq_left']
      cases named : Command.ofText cmd with
      | none =>
        have other : ∀ c : Command, cmd ≠ c.text := by
          rintro c rfl
          rw [Command.ofText_text] at named
          cases named
        simp only [receivecommand_namenode, if_neg (not_le.2 fits), parsed, named, other,
          false_imp_iff, implies_true, iff_true]
        exact ⟨t, rfl⟩
      | some c =>
        obtain rfl := Command.ofText_eq_some named
        have same : ∀ d : Command, c.text = d.text ↔ c = d :=
          fun d => Command.text_injective.eq_iff
        by_cases forwards : c.forwards = true
        · have other : c ≠ .datanode := by
            rintro rfl
            cases forwards
          rw [namenode_eq_forward net t host parsed forwards fits]
          simp only [same, forall_eq', other, forwards, false_imp_iff, true_and, forall_const]
          cases (nextToken [comma] m).1 with
          | none => simp [forward, Turn.fault]
          | some path => simpa using forward_survives_iff sound forwards
        · simp only [same, forall_eq', forwards]
          cases c with
          | datanode =>
            simp only [receivecommand_namenode, if_neg (not_le.2 fits), parsed, named, forall_const,
              Enterable, ← datanode_insert_ok_iff, Bool.false_eq_true, false_imp_iff, and_true]
            cases net.known host with
            | false => simp
            | true =>
              simp only [if_true, true_and]
              exact exists_map_some
          | statfs | shutdown | dn_command =>
            simp only [receivecommand_namenode, if_neg (not_le.2 fits), parsed, named, reduceCtorEq,
              false_imp_iff, and_true, iff_true]
            exact ⟨t, rfl⟩
          | _ => exact absurd rfl forwards
  · simp only [receivecommand_namenode, if_pos (not_lt.1 fits), fits, false_and]
    simp [Turn.fault]

end Survival

/-- The datagrams that the four receivers outlive. -/
theorem receivers_survive_iff {net : Net} {t : Tables} {fopen : List Byte → Option FileStream}
    {host M : List Byte} (reachable : Reachable t) :
    (NamenodeSurvives net t host M ↔ NamenodeFields net t host M) ∧
      (DatanodeSurvives net M ↔ DatanodeFields net M) ∧
      (ReplicaSurvives net fopen host M ↔ ReplicaFields net fopen host M) ∧
      (MonitorSurvives net t.dlist host M ↔ MonitorFields net t.dlist host M) :=
  ⟨namenodeSurvives_iff reachable.sound, datanodeSurvives_iff, replicaSurvives_iff,
    monitorSurvives_iff⟩

/-- A file system in which every file can be opened, as a stream whose address fits an `int`. -/
def openStream (_ : List Byte) : Option FileStream := some ⟨4096, true⟩

/-- A request that the name node forwards. -/
def accessText : List Byte := str "access,/tmp/CS545/datanode,4"

theorem receivers_survive_iff_access :
    (NamenodeSurvives upNet (oneFile DATANODE_DIR) (str "h") accessText ↔
      NamenodeFields upNet (oneFile DATANODE_DIR) (str "h") accessText) ∧
    (DatanodeSurvives upNet accessText ↔ DatanodeFields upNet accessText) ∧
    (ReplicaSurvives upNet openStream (str "h") accessText ↔
      ReplicaFields upNet openStream (str "h") accessText) ∧
    (MonitorSurvives upNet (oneFile DATANODE_DIR).dlist (str "h") accessText ↔
      MonitorFields upNet (oneFile DATANODE_DIR).dlist (str "h") accessText) :=
  receivers_survive_iff oneFile_reachable

/-- Each receiver is stopped by a datagram that lacks a field. -/
theorem fields_missing :
    ¬ NamenodeSurvives upNet (oneFile DATANODE_DIR) (str "h") (str "access") ∧
    ¬ DatanodeSurvives upNet (str "x,h,access,/f") ∧
    ¬ ReplicaSurvives upNet openStream (str "h") (str "r_write,/f") ∧
    ¬ MonitorSurvives upNet (oneFile DATANODE_DIR).dlist (str "h") (str "senrep") := by
  refine ⟨?_, by unfold DatanodeSurvives; decide, ?_, ?_⟩
  · rintro ⟨t', next⟩
    have stops : (receivecommand_namenode upNet (oneFile DATANODE_DIR) (str "h")
      (str "access")).next = .error .null := rfl
    rw [stops] at next
    cases next
  · intro returns
    have crashes : replicaTurn upNet openStream (str "h") (str "r_write,/f") = .error .null := rfl
    rw [ReplicaSurvives, crashes] at returns
    cases returns
  · intro returns
    obtain ⟨sent, h⟩ := returns 0
    cases h

end DistFs.Wire
