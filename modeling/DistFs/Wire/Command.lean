import DistFs.CText.Decimal

/-!
# Commands and requests

The command names of `global.h`, `sendcommand`, and the requests that the operations of `client.c`
build in their `my_path` buffers.  A string that does not fit its buffer is a fault.
-/

namespace DistFs.Wire

open CText

/-- The command names of `global.h`. -/
inductive Command where
  | access
  | getattr
  | datanode
  | readdir
  | mkdir
  | mknod
  | truncate
  | open_
  | read
  | write
  | unlink
  | rmdir
  | statfs
  | chmod
  | rename
  | shutdown
  | dn_command
deriving DecidableEq, Repr

namespace Command

/-- The name of a command as `global.h` has it. -/
def text : Command → List Byte
  | access => str "access"
  | getattr => str "getattr"
  | datanode => str "datanode"
  | readdir => str "readdir"
  | mkdir => str "mkdir"
  | mknod => str "mknod"
  | truncate => str "truncate"
  | open_ => str "open"
  | read => str "read"
  | write => str "write"
  | unlink => str "unlink"
  | rmdir => str "rmdir"
  | statfs => str "statfs"
  | chmod => str "chmod"
  | rename => str "rename"
  | shutdown => str "shutdown"
  | dn_command => str "dn_command"

/-- All commands, in the order of the definition. -/
def all : List Command :=
  [access, getattr, datanode, readdir, mkdir, mknod, truncate, open_, read, write, unlink, rmdir,
    statfs, chmod, rename, shutdown, dn_command]

/-- The command that a chain of `strcmp` calls finds. -/
def ofText (s : List Byte) : Option Command := all.find? fun c => c.text == s

theorem ofText_text (c : Command) : ofText c.text = some c := by
  cases c <;> decide

theorem text_injective : Function.Injective text := by
  intro c c' same
  have := congrArg ofText same
  rw [ofText_text, ofText_text] at this
  exact Option.some.inj this

theorem ofText_eq_some {s : List Byte} {c : Command} (h : ofText s = some c) : s = c.text := by
  have := List.find?_some h
  rw [beq_iff_eq] at this
  exact this.symm

theorem isToken_text (c : Command) : IsToken [comma] c.text := by
  -- one evaluation of each name
  have bytes : (c.text.all fun b => b ≠ 0 ∧ b ≠ comma) = true := by
    cases c <;> decide
  have plain (b : Byte) (hb : b ∈ c.text) : b ≠ 0 ∧ b ≠ comma :=
    of_decide_eq_true (List.all_eq_true.1 bytes b hb)
  constructor
  · cases c <;> decide
  · intro zero
    exact (plain 0 zero).1 rfl
  · intro b hb delimiter
    exact (plain b hb).2 (List.mem_singleton.1 delimiter)

theorem text_length (c : Command) : c.text.length ≤ 10 := by
  cases c <;> decide

end Command

/-! ## Sending a command -/

/-- The network: the hosts that `hostname_to_ip` finds when something is sent to them, their
addresses, the nodes that answer a ping, and the name of the name node in the data nodes.  A node
whose address `sendping` does not find does not answer. -/
structure Net where
  known : List Byte → Bool
  address : List Byte → List Byte
  alive : List Byte → Bool
  datanode_namenode : List Byte

/-- `sendcommand`: the datagram for `node`, or nothing (-1) when its address is not found. -/
def sendcommand (net : Net) (node path : List Byte) (cmd : Command) :
    Except Fault (Option (List Byte)) :=
  if net.known node = false then .ok none
  else if (cmd.text ++ comma :: path).length < 1000 then .ok (some (cmd.text ++ comma :: path))
  else .error .overflow

theorem sendcommand_ok {net : Net} {node path : List Byte} {cmd : Command}
    (known : net.known node = true) (fits : (cmd.text ++ comma :: path).length < 1000) :
    sendcommand net node path cmd = .ok (some (cmd.text ++ comma :: path)) := by
  rw [sendcommand, known, if_neg (by simp), if_pos fits]

theorem sendcommand_eq {net : Net} {node path : List Byte} {cmd : Command} {d : List Byte}
    (h : sendcommand net node path cmd = .ok (some d)) : d = cmd.text ++ comma :: path := by
  rw [sendcommand] at h
  split_ifs at h
  · cases h
  · cases h
    rfl

/-- Nothing is sent only to a node whose address is not found. -/
theorem sendcommand_eq_none {net : Net} {node path : List Byte} {cmd : Command} :
    sendcommand net node path cmd = .ok none ↔ net.known node = false := by
  rw [sendcommand]
  by_cases unknown : net.known node = false
  · rw [if_pos unknown]
    exact ⟨fun _ => unknown, fun _ => rfl⟩
  · rw [if_neg unknown]
    refine ⟨fun h => ?_, fun h => absurd h unknown⟩
    split_ifs at h
    cases h

theorem sendcommand_known {net : Net} {node path : List Byte} {cmd : Command} {d : List Byte}
    (h : sendcommand net node path cmd = .ok (some d)) : net.known node = true := by
  by_contra unknown
  rw [Bool.not_eq_true] at unknown
  rw [sendcommand_eq_none.2 unknown] at h
  cases h

/-! ## Requests of the client -/

/-- Where a data node keeps the mounted file system. -/
def tmp_path : List Byte := str "/tmp/CS545/datanode"

/-- A path of the mounted file system on a data node. -/
def my_path (path : CString) : List Byte := tmp_path ++ path.bytes

/-- The arguments of `sendcommand(namenode, my_path, command)`. -/
structure Request where
  command : Command
  path : List Byte
deriving DecidableEq

/-- A request whose text was built in `char my_path[size]`. -/
def request (size : ℕ) (command : Command) (path : List Byte) : Except Fault Request :=
  if path.length < size then .ok ⟨command, path⟩ else .error .overflow

/-- The request is the path alone. -/
def my_getattr (path : CString) : Except Fault Request := request 100 .getattr (my_path path)

/-- The mask follows the path. -/
def xmp_access (path : CString) (mask : ℤ) : Except Fault Request :=
  request 100 .access (my_path path ++ comma :: snprintf 10 mask)

/-- The request is the path alone. -/
def xmp_readdir (path : CString) : Except Fault Request := request 100 .readdir (my_path path)

/-- The mode and the device number follow the path, with a comma behind each. -/
def xmp_mknod (path : CString) (mode rdev : ℤ) : Except Fault Request :=
  request 100 .mknod
    (my_path path ++ comma :: (snprintf 10 mode ++ comma :: (snprintf 10 rdev ++ [comma])))

/-- The mode follows the path. -/
def xmp_mkdir (path : CString) (mode : ℤ) : Except Fault Request :=
  request 100 .mkdir (my_path path ++ comma :: snprintf 10 mode)

/-- The request is the path alone. -/
def xmp_unlink (path : CString) : Except Fault Request := request 100 .unlink (my_path path)

/-- The request is the path alone. -/
def xmp_rmdir (path : CString) : Except Fault Request := request 100 .rmdir (my_path path)

/-- The new path follows the old one. -/
def xmp_rename (from_ to_ : CString) : Except Fault Request :=
  request 100 .rename (my_path from_ ++ comma :: my_path to_)

/-- The mode follows the path. -/
def xmp_chmod (path : CString) (mode : ℤ) : Except Fault Request :=
  request 100 .chmod (my_path path ++ comma :: snprintf 10 mode)

/-- The size is printed right behind the path, and the comma behind the size. -/
def xmp_truncate (path : CString) (size : ℤ) : Except Fault Request :=
  request 100 .truncate (my_path path ++ snprintf 10 size ++ [comma])

/-- The flags follow the path. -/
def xmp_open (path : CString) (flags : ℤ) : Except Fault Request :=
  request 100 .open_ (my_path path ++ comma :: snprintf 10 flags)

/-- The size and the offset follow the path. -/
def xmp_read (path : CString) (size offset : ℤ) : Except Fault Request :=
  request 100 .read (my_path path ++ comma :: (snprintf 10 size ++ comma :: snprintf 10 offset))

/-- `buf` is the memory at the payload, which is appended as a string. -/
def xmp_write (path : CString) (buf : List Byte) (size offset : ℤ) : Except Fault Request :=
  request 10000 .write
    (my_path path ++
      comma :: (snprintf 10 size ++ comma :: (snprintf 10 offset ++ comma :: cstr buf)))

/-- The request names the command `write`. -/
def xmp_statfs (path : CString) : Except Fault Request := request 100 .write (my_path path)

/-- The operations of the client that send a request. -/
inductive Op where
  | getattr (path : CString)
  | access (path : CString) (mask : ℤ)
  | readdir (path : CString)
  | mknod (path : CString) (mode rdev : ℤ)
  | mkdir (path : CString) (mode : ℤ)
  | unlink (path : CString)
  | rmdir (path : CString)
  | rename (from_ to_ : CString)
  | chmod (path : CString) (mode : ℤ)
  | truncate (path : CString) (size : ℤ)
  | open_ (path : CString) (flags : ℤ)
  | read (path : CString) (size offset : ℤ)
  | write (path : CString) (buf : List Byte) (size offset : ℤ)
  | statfs (path : CString)
deriving DecidableEq

/-- What an operation passes to `sendcommand`. -/
def Op.request : Op → Except Fault Request
  | .getattr path => my_getattr path
  | .access path mask => xmp_access path mask
  | .readdir path => xmp_readdir path
  | .mknod path mode rdev => xmp_mknod path mode rdev
  | .mkdir path mode => xmp_mkdir path mode
  | .unlink path => xmp_unlink path
  | .rmdir path => xmp_rmdir path
  | .rename from_ to_ => xmp_rename from_ to_
  | .chmod path mode => xmp_chmod path mode
  | .truncate path size => xmp_truncate path size
  | .open_ path flags => xmp_open path flags
  | .read path size offset => xmp_read path size offset
  | .write path buf size offset => xmp_write path buf size offset
  | .statfs path => xmp_statfs path

theorem request_eq_ok {size : ℕ} {command : Command} {path : List Byte} {r : Request} :
    request size command path = .ok r ↔ path.length < size ∧ r = ⟨command, path⟩ := by
  rw [request]
  split_ifs with fits <;> simp [fits, eq_comm]

/-- A path on a data node is a token of the protocol unless it contains a comma. -/
theorem isToken_my_path {path : CString} (plain : comma ∉ path.bytes) :
    IsToken [comma] (my_path path) where
  nonempty := by
    have : tmp_path ≠ [] := by decide
    simp [my_path, this]
  noNul := NoNul.append (by decide) path.noNul
  plain := by
    intro b hb hc
    rw [List.mem_singleton] at hc
    subst hc
    rcases List.mem_append.1 hb with hb | hb
    · exact absurd hb (by decide)
    · exact plain hb

end DistFs.Wire
