import DistFs.Wire.Receive

/-!
# Forwarding

The name node puts the command and the client's host in front of a datagram and sends it on.  The
data node drops the first field, takes the host from the second, and is left with exactly the
memory that `receivecommand_server` reads, so the two loops make the same call.
-/

namespace DistFs.Wire

open CText

/-- A host name as `getnameinfo` writes it into `char host[100]`. -/
structure Host where
  name : List Byte
  isToken : IsToken [comma] name
  short : name.length < 100

/-- The commands that the name node forwards. -/
def Command.forwards : Command → Bool
  | .getattr | .access | .readdir | .open_ | .read | .write | .mkdir | .mknod | .truncate | .unlink
  | .rmdir | .chmod | .rename => true
  | .datanode | .statfs | .shutdown | .dn_command => false

/-- The datagram that reaches the data node. -/
def framed (c : Command) (host : Host) (M : List Byte) : List Byte :=
  c.text ++ comma :: (host.name ++ comma :: M)

section Frame

variable {net : Net} {t t' : Tables} {host : Host} {c : Command} {M m : List Byte}

/-- Behind its two extra fields the data node sees what the server sees. -/
theorem datanode_eq_server (net : Net) (host : Host)
    (first : (nextToken [comma] M).1 = some c.text)
    (forwards : c.forwards = true) :
    receivecommand_datanode net (framed c host M) = receivecommand_server net host.name M := by
  have fields : nextToken [comma] (nextToken [comma] (framed c host M)).2 = (some host.name, M) := by
    rw [framed, nextToken_delimited c.isToken_text (by simp) (by decide),
      nextToken_delimited host.isToken (by simp) (by decide)]
  have short : ¬ 100 ≤ host.name.length := by
    have := host.short
    omega
  rw [receivecommand_datanode, receivecommand_server, fields]
  simp only [if_neg short]
  generalize nextToken [comma] M = parsed at first ⊢
  obtain ⟨cmd, m⟩ := parsed
  obtain rfl : cmd = some c.text := first
  simp only [Command.ofText_text]
  cases c <;> first | rfl | cases forwards

/-- The path in a `sendresponse_*` call. -/
def Call.path : Call → Option (List Byte)
  | .getattr path | .access path _ | .readdir path | .open_ path _ | .read path _ _
  | .write path _ _ _ | .mkdir path _ | .mknod path _ _ | .truncate path _ | .unlink path
  | .rmdir path | .statfs path | .chmod path _ | .rename path _ => path

/-- The call that answers for the path `JUNK`; the branch for `rename` has none. -/
def Command.junk : Command → Option Call
  | .getattr => some (.getattr (some JUNK))
  | .access => some (.access (some JUNK) 0)
  | .readdir => some (.readdir (some JUNK))
  | .open_ => some (.open_ (some JUNK) 0)
  | .read => some (.read (some JUNK) 0 0)
  | .write => some (.write (some JUNK) 0 0 (some JUNK))
  | .mkdir => some (.mkdir (some JUNK) 0)
  | .mknod => some (.mknod (some JUNK) 0 0)
  | .truncate => some (.truncate (some JUNK) 0)
  | .unlink => some (.unlink (some JUNK))
  | .rmdir => some (.rmdir (some JUNK))
  | .chmod => some (.chmod (some JUNK) 0)
  | .rename | .datanode | .statfs | .shutdown | .dn_command => none

/-- The commands behind which the path is entered in the file list. -/
def Command.recorded : Command → Bool
  | .open_ | .write | .mkdir | .mknod => true
  | _ => false

/-- The command whose branch returns when `sendcommand` fails. -/
def Command.stops : Command → Bool
  | .getattr => true
  | _ => false

theorem Command.junk_path {c : Command} {call : Call} (h : call ∈ c.junk) :
    call.path = some JUNK := by
  cases c <;> simp only [junk, Option.mem_def, Option.some.injEq, reduceCtorEq] at h <;>
    subst h <;> rfl

/-- Every forwarded command goes through the same branch; without a data node it is answered for
the path `JUNK`. -/
theorem namenode_eq_forward (net : Net) (t : Tables) (host : List Byte)
    (first : nextToken [comma] M = (some c.text, m))
    (forwards : c.forwards = true) (fits : (host ++ comma :: cstr M).length < 1000) :
    receivecommand_namenode net t host M =
      forward net t host (host ++ comma :: cstr M) (nextToken [comma] m).1 c c.junk
        c.recorded c.stops := by
  have fits : ¬ 1000 ≤ (host ++ comma :: cstr M).length := by omega
  rw [receivecommand_namenode]
  simp only [if_neg fits, first, Command.ofText_text]
  cases c with
  | datanode | statfs | shutdown | dn_command => cases forwards
  | _ => rfl

/-- What the branch sends: nothing, the answer for `JUNK`, or the forwarded datagram. -/
theorem forward_sent {buf2 : List Byte} {path : Option (List Byte)} {junk : Option Call}
    {recorded stops : Bool} {sent : List Sent}
    (h : (forward net t host.name buf2 path c junk recorded stops).sent = sent) :
    sent = [] ∨ (∃ call ∈ junk, sent = [.response host.name call]) ∨
      ∃ dn datagram, sendcommand net dn buf2 c = .ok (some datagram) ∧
        sent = [.command dn datagram] := by
  subst h
  simp only [forward]
  split
  · exact .inl rfl
  · split
    · exact .inl rfl
    · split
      · exact .inl rfl
      · exact .inr (.inl ⟨_, rfl, rfl⟩)
    · split
      · exact .inl rfl
      · exact .inl rfl
      next dn _ _ _ datagram command => exact .inr (.inr ⟨dn, datagram, command, rfl⟩)

/-- The two buffers that a framed datagram passes through. -/
theorem framed_length (c : Command) (host : Host) (M : List Byte) :
    (framed c host M).length = c.text.length + 1 + host.name.length + 1 + M.length := by
  simp only [framed, List.length_append, List.length_cons]
  omega

/-- With a data node for its path the datagram is forwarded whole. -/
theorem namenode_sent {path dn : List Byte} (noNul : NoNul M)
    (first : nextToken [comma] M = (some c.text, m)) (forwards : c.forwards = true)
    (second : (nextToken [comma] m).1 = some path) (fits : (framed c host M).length < 1000)
    (located : getfiledn net t path = .ok (some dn, t')) (known : net.known dn = true) :
    (receivecommand_namenode net t host.name M).sent = [.command dn (framed c host M)] := by
  have buf2 : (host.name ++ comma :: cstr M).length < 1000 := by
    rw [framed_length] at fits
    rw [cstr_of_noNul noNul, List.length_append, List.length_cons]
    omega
  have turn := namenode_eq_forward net t host.name first forwards buf2
  have sent : sendcommand net dn (host.name ++ comma :: M) c = .ok (some (framed c host M)) :=
    sendcommand_ok known fits
  rw [turn, second, cstr_of_noNul noNul]
  simp only [forward, located, sent]

end Frame

/-- Forwarding preserves meaning: the data node reacts to the forwarded datagram as a server does
to the original one, whatever its fields are. -/
theorem forwarding_preserves_call {net : Net} {t t' : Tables} {host : Host} {c : Command}
    {M path dn : List Byte} (noNul : NoNul M) (first : (nextToken [comma] M).1 = some c.text)
    (forwards : c.forwards = true)
    (fits : c.text.length + 1 + host.name.length + 1 + M.length < 1000)
    (second : (nextToken [comma] (nextToken [comma] M).2).1 = some path)
    (located : getfiledn net t path = .ok (some dn, t')) (known : net.known dn = true) :
    ∃ datagram, sendcommand net dn (host.name ++ comma :: M) c = .ok (some datagram) ∧
      (receivecommand_namenode net t host.name M).sent = [.command dn datagram] ∧
      receivecommand_datanode net datagram = receivecommand_server net host.name M := by
  rw [← framed_length] at fits
  exact ⟨framed c host M, sendcommand_ok known fits,
    namenode_sent noNul (Prod.ext first rfl) forwards second fits located known,
    datanode_eq_server net host first forwards⟩

/-- A client called `h`. -/
def oneHost : Host := ⟨str "h", by constructor <;> decide +kernel, by decide +kernel⟩

/-- A network in which every node is up. -/
def upNet : Net := ⟨fun _ => true, fun _ => str "10.0.0.1", fun _ => true, str "n"⟩

/-- A name node that knows the data node `d` and one path on it. -/
def oneFile (name : List Byte) : Tables :=
  ⟨⟨[⟨str "d", str "10.0.0.1", 1⟩], str "d,10.0.0.1,1\n"⟩,
    [Filelist.present ⟨name, fun _ => 0, fun _ => []⟩ 0 (str "d")]⟩

theorem oneFile_located (name : List Byte) :
    getfiledn upNet (oneFile name) name = .ok (some (str "d"), oneFile name) := by
  have named : filelist_search (oneFile name) name =
      some (Filelist.present ⟨name, fun _ => 0, fun _ => []⟩ 0 (str "d")) := by
    simp [filelist_search, oneFile, Filelist.named, Filelist.present]
  rw [getfiledn, named]
  rfl

/-- A request with a repeated comma. -/
theorem forwarding_preserves_call_access :
    ∃ datagram, sendcommand upNet (str "d")
        (oneHost.name ++ comma :: str "access,,/tmp/CS545/datanode,4") .access =
        .ok (some datagram) ∧
      (receivecommand_namenode upNet (oneFile DATANODE_DIR) oneHost.name
        (str "access,,/tmp/CS545/datanode,4")).sent = [.command (str "d") datagram] ∧
      receivecommand_datanode upNet datagram =
        receivecommand_server upNet oneHost.name (str "access,,/tmp/CS545/datanode,4") :=
  forwarding_preserves_call (by decide) (by decide) rfl (by decide)
    (by decide) (oneFile_located DATANODE_DIR) rfl

end DistFs.Wire
