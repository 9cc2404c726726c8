import DistFs.Wire.Nodes

/-!
# The receivers

The bodies of the loops of `receivecommand_server`, `receivecommand_namenode` and
`receivecommand_datanode`: what one datagram makes them do.  The arguments of a `sendresponse_*`
call are those parsed from the datagram; a null pointer is `none`.
-/

namespace DistFs.Wire

open CText

/-- A call of one of the `sendresponse_*` functions, without its first argument `node`.  The payload
of `write` is the memory behind its pointer. -/
inductive Call where
  | getattr (path : Option (List Byte))
  | access (path : Option (List Byte)) (mask : ℤ)
  | readdir (path : Option (List Byte))
  | open_ (path : Option (List Byte)) (flags : ℤ)
  | read (path : Option (List Byte)) (size offset : ℤ)
  | write (path : Option (List Byte)) (size offset : ℤ) (buf : Option (List Byte))
  | mkdir (path : Option (List Byte)) (imode : ℤ)
  | mknod (path : Option (List Byte)) (mode rdev : ℤ)
  | truncate (path : Option (List Byte)) (size : ℤ)
  | unlink (path : Option (List Byte))
  | rmdir (path : Option (List Byte))
  | statfs (path : Option (List Byte))
  | chmod (path : Option (List Byte)) (imode : ℤ)
  | rename (path dpath : Option (List Byte))
deriving DecidableEq

/-- What a datagram makes a server or a data node do. -/
inductive Reaction where
  | respond (host : List Byte) (call : Call)
  | datanode_insert (host : List Byte)
  | ignored
  | stopped
deriving DecidableEq

/-- `atoi` of a pointer. -/
def atoiPtr : Option (List Byte) → Except Fault ℤ
  | none => .error .null
  | some s => .ok (atoi s)

/-- `atoi` of a pointer unless it is null. -/
def atoiOrZero : Option (List Byte) → ℤ
  | none => 0
  | some s => atoi s

/-- `receivecommand_server`: a datagram `buf1` from `host`. -/
def receivecommand_server (net : Net) (host buf1 : List Byte) : Except Fault Reaction :=
  match nextToken [comma] buf1 with
  | (none, _) => .error .null
  | (some cmd, m) =>
    let first := nextToken [comma] m
    let second := nextToken [comma] first.2
    let third := nextToken [comma] second.2
    match Command.ofText cmd with
    | some .getattr => .ok (.respond host (.getattr first.1))
    | some .datanode => .ok (if net.known host then .datanode_insert host else .stopped)
    | some .access => do
        let mask ← atoiPtr second.1
        return .respond host (.access first.1 mask)
    | some .readdir => .ok (.respond host (.readdir first.1))
    | some .open_ => do
        let flags ← atoiPtr second.1
        return .respond host (.open_ first.1 flags)
    | some .read =>
        let sz := atoiOrZero second.1
        let off := atoiOrZero third.1
        .ok (.respond host (.read first.1 sz off))
    | some .write =>
        let sz := atoiOrZero second.1
        let off := atoiOrZero third.1
        let w_buf := (strtok [comma] third.2).map Token.view
        .ok (.respond host (.write first.1 sz off w_buf))
    | some .mkdir => do
        let imode ← atoiPtr second.1
        return .respond host (.mkdir first.1 imode)
    | some .mknod =>
        let mode := atoiOrZero second.1
        let rdev := atoiOrZero third.1
        .ok (.respond host (.mknod first.1 mode rdev))
    | some .truncate => .ok (.respond host (.truncate first.1 (atoiOrZero second.1)))
    | some .unlink => .ok (.respond host (.unlink first.1))
    | some .rmdir => .ok (.respond host (.rmdir first.1))
    | some .statfs => .ok (.respond host (.statfs first.1))
    | some .chmod => do
        let imode ← atoiPtr second.1
        return .respond host (.chmod first.1 imode)
    | some .rename => .ok (.respond host (.rename first.1 second.1))
    | some .shutdown | some .dn_command | none => .ok .ignored

/-- `resolvemonitorcommand` as its caller uses it.  It returns no value unless the command is
`shutdown`. -/
def resolvemonitorcommand : Option (List Byte) → Except Fault Reaction
  | none => .error .null
  | some intcmd => if intcmd = Command.text .shutdown then .ok .stopped else .error .undefined

/-- `receivecommand_datanode`: the first field of the datagram is passed over, the second is the
host that gets the response, and the command comes third. -/
def receivecommand_datanode (net : Net) (buf1 : List Byte) : Except Fault Reaction :=
  let tmphost := nextToken [comma] (nextToken [comma] buf1).2
  match tmphost.1 with
  | none => .error .null
  | some host =>
    if 100 ≤ host.length then .error .overflow
    else
      match nextToken [comma] tmphost.2 with
      | (none, _) => .error .null
      | (some cmd, m) =>
        let first := nextToken [comma] m
        let second := nextToken [comma] first.2
        let third := nextToken [comma] second.2
        match Command.ofText cmd with
        | some .getattr => .ok (.respond host (.getattr first.1))
        | some .datanode => .ok (if net.known host then .datanode_insert host else .stopped)
        | some .access => do
            let mask ← atoiPtr second.1
            return .respond host (.access first.1 mask)
        | some .readdir => .ok (.respond host (.readdir first.1))
        | some .open_ => do
            let flags ← atoiPtr second.1
            return .respond host (.open_ first.1 flags)
        | some .read =>
            let sz := atoiOrZero second.1
            let off := atoiOrZero third.1
            .ok (.respond host (.read first.1 sz off))
        | some .write =>
            let sz := atoiOrZero second.1
            let off := atoiOrZero third.1
            let w_buf := (strtok [comma] third.2).map Token.view
            .ok (.respond host (.write first.1 sz off w_buf))
        | some .mkdir => do
            let imode ← atoiPtr second.1
            return .respond host (.mkdir first.1 imode)
        | some .mknod =>
            let mode := atoiOrZero second.1
            let rdev := atoiOrZero third.1
            .ok (.respond host (.mknod first.1 mode rdev))
        | some .truncate => .ok (.respond host (.truncate first.1 (atoiOrZero second.1)))
        | some .unlink => .ok (.respond host (.unlink first.1))
        | some .rmdir => .ok (.respond host (.rmdir first.1))
        | some .statfs => .ok (.respond host (.statfs first.1))
        | some .chmod => do
            let imode ← atoiPtr second.1
            return .respond host (.chmod first.1 imode)
        | some .rename => .ok (.respond host (.rename first.1 second.1))
        | some .shutdown => .ok (if host = net.datanode_namenode then .stopped else .ignored)
        | some .dn_command => resolvemonitorcommand first.1
        | none => .ok .ignored

/-! ## The name node -/

/-- `JUNK`: the path the name node answers for when it has no data node. -/
def JUNK : List Byte := str "Adasdadasdasda"

/-- What the name node sends. -/
inductive Sent where
  | command (node datagram : List Byte)
  | response (host : List Byte) (call : Call)
deriving DecidableEq

/-- One turn of the name node: what it sends, and then the lists for the next turn, if there is
one. -/
structure Turn where
  sent : List Sent
  next : Except Fault (Option Tables)

/-- A turn that ends in a fault. -/
def Turn.fault (e : Fault) : Turn := ⟨[], .error e⟩

/-- The branch for a command that is forwarded to the data node of `path`: `junk` is the call that
answers when there is none, `recorded` says whether the path is entered in the file list, and
`stops` whether a failed `sendcommand` ends the loop. -/
def forward (net : Net) (t : Tables) (host buf2 : List Byte) (path : Option (List Byte))
    (cmd : Command) (junk : Option Call) (recorded stops : Bool) : Turn :=
  match path with
  | none => .fault .null
  | some path =>
    match getfiledn net t path with
    | .error e => .fault e
    | .ok (none, t) =>
        match junk with
        | none => .fault .undefined
        | some call => ⟨[.response host call], .ok (some t)⟩
    | .ok (some dpath, t) =>
        match sendcommand net dpath buf2 cmd with
        | .error e => .fault e
        | .ok none => ⟨[], .ok (if stops then none else some t)⟩
        | .ok (some datagram) =>
            ⟨[.command dpath datagram],
              if recorded then some <$> filenode_insert path dpath t else .ok (some t)⟩

/-- `receivecommand_namenode`: a datagram `buf1` from `host`.  The branch for `rename` calls
`sendresponse_rename` without its last argument when there is no data node. -/
def receivecommand_namenode (net : Net) (t : Tables) (host buf1 : List Byte) : Turn :=
  let buf2 := host ++ comma :: cstr buf1
  if 1000 ≤ buf2.length then .fault .overflow
  else
    match nextToken [comma] buf1 with
    | (none, _) => .fault .null
    | (some cmd, m) =>
      let path := (nextToken [comma] m).1
      match Command.ofText cmd with
      | some .getattr =>
          forward net t host buf2 path .getattr (some (.getattr (some JUNK))) false true
      | some .datanode =>
          ⟨[], if net.known host then some <$> datanode_insert host (net.address host) 1 t else .ok none⟩
      | some .access =>
          forward net t host buf2 path .access (some (.access (some JUNK) 0)) false false
      | some .readdir =>
          forward net t host buf2 path .readdir (some (.readdir (some JUNK))) false false
      | some .open_ =>
          forward net t host buf2 path .open_ (some (.open_ (some JUNK) 0)) true false
      | some .read =>
          forward net t host buf2 path .read (some (.read (some JUNK) 0 0)) false false
      | some .write =>
          forward net t host buf2 path .write (some (.write (some JUNK) 0 0 (some JUNK))) true false
      | some .mkdir =>
          forward net t host buf2 path .mkdir (some (.mkdir (some JUNK) 0)) true false
      | some .mknod =>
          forward net t host buf2 path .mknod (some (.mknod (some JUNK) 0 0)) true false
      | some .truncate =>
          forward net t host buf2 path .truncate (some (.truncate (some JUNK) 0)) false false
      | some .unlink =>
          forward net t host buf2 path .unlink (some (.unlink (some JUNK))) false false
      | some .rmdir =>
          forward net t host buf2 path .rmdir (some (.rmdir (some JUNK))) false false
      | some .statfs => ⟨[.response host (.statfs path)], .ok (some t)⟩
      | some .chmod =>
          forward net t host buf2 path .chmod (some (.chmod (some JUNK) 0)) false false
      | some .rename => forward net t host buf2 path .rename none false false
      | some .shutdown | some .dn_command | none => ⟨[], .ok (some t)⟩

/-! ## From the name node to the call -/

/-- A `sendresponse_*` call and the node that makes it: a data node, or (`none`) the name node. -/
structure Served where
  node : Option (List Byte)
  host : List Byte
  call : Call
deriving DecidableEq

/-- The calls that a datagram from `host` to the name node leads to when none is lost. -/
def serve (net : Net) (t : Tables) (host buf1 : List Byte) : List Served :=
  (receivecommand_namenode net t host buf1).sent.flatMap fun
    | .response host call => [⟨none, host, call⟩]
    | .command node datagram =>
        match receivecommand_datanode net datagram with
        | .ok (.respond host call) => [⟨some node, host, call⟩]
        | _ => []

end DistFs.Wire
