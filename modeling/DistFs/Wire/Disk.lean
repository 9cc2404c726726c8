import DistFs.Wire.Leftovers
import DistFs.Wire.Requests

/-!
# Files on the data nodes

The system calls behind `sendresponse_write` and `sendresponse_read`, and a `write` or `read` of the
client from the request to the result, when no datagram is lost.  The kernel may refuse a `pwrite`
or take only some of its bytes; `pread` returns what the file holds.
-/

namespace DistFs.Wire

open CText

/-- The contents of the files of each data node. -/
abbrev Disk := List Byte → List Byte → Option (List Byte)

/-- The disks after a file has been written. -/
def Disk.set (disk : Disk) (node path file : List Byte) : Disk :=
  Function.update disk node (Function.update (disk node) path (some file))

/-- The `n` bytes at a pointer. -/
def bytesAt (m : List Byte) (n : ℕ) : List Byte := (m ++ List.replicate n 0).take n

/-- A file after a write at `offset`.  A gap behind its end is filled with zeros. -/
def overwrite (file : List Byte) (offset : ℕ) (bytes : List Byte) : List Byte :=
  if bytes = [] then file
  else file.take offset ++ List.replicate (offset - file.length) 0 ++ bytes ++
    file.drop (offset + bytes.length)

/-- The error number of a failed system call. -/
abbrev Failure := {e : ℤ // 0 < e ∧ e < 4096}

/-- The error number that an earlier call has left. -/
abbrev Errno := {e : ℤ // 0 ≤ e ∧ e < 4096}

/-- There is no such file. -/
def ENOENT : Failure := ⟨2, by norm_num⟩

/-- An address outside the memory of the process. -/
def EFAULT : Failure := ⟨14, by norm_num⟩

/-- An argument that no call takes. -/
def EINVAL : Failure := ⟨22, by norm_num⟩

/-- How the kernel refuses a negative offset, or a size that is negative and therefore reaches beyond
the memory of the process. -/
def refusal (offset : ℤ) : Failure := if offset < 0 then EINVAL else EFAULT

/-- What the kernel does with a write to an existing file: `open` or `pwrite` fails, or `pwrite`
takes at most `n` bytes. -/
inductive Outcome where
  | closed (e : Failure)
  | fails (e : Failure)
  | takes (n : ℕ)

/-- `sendresponse_write`: the reply, and the file afterwards. -/
def writeAnswer (outcome : Outcome) (errno : Errno) (file : List Byte) (size offset : ℤ)
    (buf : Option (List Byte)) : List Byte × List Byte :=
  match outcome with
  | .closed e => (sendresponse_write none e, file)
  | .fails e => (sendresponse_write (some (-1)) e, file)
  | .takes n =>
      if offset < 0 ∨ size < 0 then (sendresponse_write (some (-1)) (refusal offset), file)
      else
        match buf with
        | none =>
            if size = 0 then (sendresponse_write (some 0) errno, file)
            else (sendresponse_write (some (-1)) EFAULT, file)
        | some m =>
            let bytes := bytesAt m (min n size.toNat)
            (sendresponse_write (some bytes.length) errno, overwrite file offset.toNat bytes)

/-- `sendresponse_read`: the reply.  More than a `char buf[4096]` with its NUL is a fault. -/
def readAnswer (errno : Errno) (file : List Byte) (size offset : ℤ) : Except Fault (List Byte) :=
  if offset < 0 ∨ size < 0 then .ok (sendresponse_read (some (-1, [])) (refusal offset))
  else
    let bytes := (file.drop offset.toNat).take size.toNat
    if bytes.length < 4096 then .ok (sendresponse_read (some (bytes.length, bytes)) errno)
    else .error .overflow

/-! ## Operations of the client -/

/-- The path that the nodes read in a request: they take a comma for its end. -/
def sentPath (path : CString) : List Byte := (my_path path).takeWhile (· != comma)

/-- The name node can be reached and sends requests for the path to the data node `dn`. -/
structure Route (net : Net) (namenode : List Byte) (t : Tables) (dn : List Byte) (path : CString) :
    Prop where
  reached : net.known namenode = true
  located : ∃ t', getfiledn net t (sentPath path) = .ok (some dn, t')
  known : net.known dn = true

/-- The call that an operation leads to, if there is one. -/
def exchange (net : Net) (namenode : List Byte) (t : Tables) (host : Host) (op : Op) :
    Except Fault (Option Served) := do
  let r ← op.request
  match ← sendcommand net namenode r.path r.command with
  | none => return none
  | some M =>
      match serve net t host.name M with
      | [s] => return some s
      | _ => return none

/-- `xmp_write`: the return value, the disks and the reply buffers.  Without a reply it is -1. -/
def writeFile (net : Net) (namenode : List Byte) (t : Tables) (host : Host) (path : CString)
    (buf : List Byte) (size offset : ℤ) (outcome : Outcome) (errno : Errno) (disk : Disk)
    (s : Buffers) : Except Fault (ℤ × Disk × Buffers) := do
  match ← exchange net namenode t host (.write path buf size offset) with
  | some ⟨some node, _, .write (some p) size offset w_buf⟩ =>
      match disk node p with
      | none =>
          let r ← receive .write (sendresponse_write none ENOENT) [] s
          return (r.value, disk, Function.update s .write r.left)
      | some file =>
          let (reply, file) := writeAnswer outcome errno file size offset w_buf
          let r ← receive .write reply [] s
          return (r.value, disk.set node p file, Function.update s .write r.left)
  | _ => return (-1, disk, s)

/-- `xmp_read`: the return value, the caller's buffer and the reply buffers. -/
def readFile (net : Net) (namenode : List Byte) (t : Tables) (host : Host) (path : CString)
    (size offset : ℤ) (errno : Errno) (disk : Disk) (buf : List Byte) (s : Buffers) :
    Except Fault (ℤ × List Byte × Buffers) := do
  match ← exchange net namenode t host (.read path size offset) with
  | some ⟨some node, _, .read (some p) size offset⟩ =>
      match disk node p with
      | none =>
          let r ← receive .read (sendresponse_read none ENOENT) buf s
          return (r.value, r.buf, Function.update s .read r.left)
      | some file =>
          let reply ← readAnswer errno file size offset
          let r ← receive .read reply buf s
          return (r.value, r.buf, Function.update s .read r.left)
  | _ => return (-1, buf, s)

/-! ## Memory -/

section Memory

variable {m file bytes b : List Byte} {n offset : ℕ}

theorem bytesAt_length (m : List Byte) (n : ℕ) : (bytesAt m n).length = n := by
  simp [bytesAt]

theorem bytesAt_append (b m : List Byte) : bytesAt (b ++ m) b.length = b := by
  rw [bytesAt, List.append_assoc]
  exact List.take_left

theorem bytesAt_getElem {i : ℕ} (h : i < n) : (bytesAt m n)[i]? = some (m.getD i 0) := by
  rw [bytesAt, List.getElem?_take_of_lt h, List.getD]
  by_cases inside : i < m.length
  · simp [List.getElem?_append_left inside, inside]
  · rw [List.getElem?_append_right (by omega), List.getElem?_replicate, if_pos (by omega),
      List.getElem?_eq_none (by omega : m.length ≤ i), Option.getD_none]

theorem overwrite_of_ne (h : bytes ≠ []) : overwrite file offset bytes =
    file.take offset ++ List.replicate (offset - file.length) 0 ++ bytes ++
      file.drop (offset + bytes.length) := if_neg h

/-- What was written can be read. -/
theorem overwrite_read (file : List Byte) (offset : ℕ) (bytes : List Byte) :
    ((overwrite file offset bytes).drop offset).take bytes.length = bytes := by
  by_cases h : bytes = []
  · simp [h]
  · have front : (file.take offset ++ List.replicate (offset - file.length) (0 : Byte)).length =
        offset := by
      simp only [List.length_append, List.length_take, List.length_replicate]
      omega
    rw [overwrite_of_ne h, List.append_assoc, List.drop_left' front]
    exact List.take_left

/-- Writes of the same length that give the same file write the same bytes. -/
theorem overwrite_inj (size : bytes.length = b.length)
    (same : overwrite file offset bytes = overwrite file offset b) : bytes = b := by
  have read := overwrite_read file offset bytes
  rw [same, size, overwrite_read] at read
  exact read.symm

theorem overwrite_nil (file : List Byte) (offset : ℕ) : overwrite file offset [] = file :=
  if_pos rfl

/-- Writing back what a file holds changes nothing. -/
theorem disk_set_self {disk : Disk} {node path file : List Byte}
    (held : disk node path = some file) : disk.set node path file = disk := by
  rw [Disk.set, ← held, Function.update_eq_self, Function.update_eq_self]

theorem disk_set_of_ne (disk : Disk) (node file : List Byte) {p q : List Byte} (other : q ≠ p) :
    (disk.set node p file) node q = disk node q := by
  rw [Disk.set, Function.update_self, Function.update_of_ne other]

theorem disk_set (disk : Disk) (node path file : List Byte) :
    (disk.set node path file) node path = some file := by
  simp [Disk.set]

end Memory

end DistFs.Wire
