import DistFs.Wire.Requests
import DistFs.Wire.Reply

/-!
# Operations and their replies

For each operation of the client: the command it puts into `COMMAND_NAME`, the buffer in which
`receiveresponse_client` then waits for a reply, the tail of the operation, which takes its own
buffer apart, and the text that the matching `sendresponse_*` function sends.
-/

namespace DistFs.Wire

open CText

/-- The operations, without their arguments. -/
inductive Operation where
  | getattr
  | access
  | readdir
  | mknod
  | mkdir
  | unlink
  | rmdir
  | rename
  | chmod
  | truncate
  | open_
  | read
  | write
  | statfs
deriving DecidableEq, Repr

/-- The operation of a request. -/
def Op.operation : Op → Operation
  | .getattr _ => .getattr
  | .access _ _ => .access
  | .readdir _ => .readdir
  | .mknod _ _ _ => .mknod
  | .mkdir _ _ => .mkdir
  | .unlink _ => .unlink
  | .rmdir _ => .rmdir
  | .rename _ _ => .rename
  | .chmod _ _ => .chmod
  | .truncate _ _ => .truncate
  | .open_ _ _ => .open_
  | .read _ _ _ => .read
  | .write _ _ _ _ => .write
  | .statfs _ => .statfs

/-- `COMMAND_NAME` while the operation runs, which is also the command of its request. -/
def Operation.COMMAND_NAME : Operation → Command
  | .getattr => .getattr
  | .access => .access
  | .readdir => .readdir
  | .mknod => .mknod
  | .mkdir => .mkdir
  | .unlink => .unlink
  | .rmdir => .rmdir
  | .rename => .rename
  | .chmod => .chmod
  | .truncate => .truncate
  | .open_ => .open_
  | .read => .read
  | .write => .write
  | .statfs => .write

/-! ## The reply buffers -/

/-- The global buffers of the client: those of `Retbuf` and the others. -/
inductive Replybuf where
  | retbuf (b : Retbuf)
  | getattr_buf
  | readdir_buf
  | mkdir_buf
  | statvfs_retbuf
  | rename_buf
  | chmod_buf
deriving DecidableEq, Repr

namespace Replybuf

/-- The size of each buffer in `global.h`. -/
def size : Replybuf → ℕ
  | .retbuf b => b.size
  | .getattr_buf => 1000
  | .readdir_buf => 10000
  | .mkdir_buf => 10
  | .statvfs_retbuf => 1000
  | .rename_buf => 10
  | .chmod_buf => 10

/-- Whether `receiveresponse_client` clears the buffer before it receives. -/
def cleared : Replybuf → Bool
  | .retbuf b => b.cleared
  | _ => true

/-- The buffer after a reply has arrived in it.  The client prints it: a reply that leaves no room
for a NUL makes it read past the end. -/
def received (b : Replybuf) (reply m : List Byte) : Except Fault (List Byte) :=
  if reply.length < b.size then .ok (overlay reply (if b.cleared then [] else m))
  else .error .overflow

theorem received_of_fits {b : Replybuf} {reply : List Byte} (fits : reply.length < b.size) :
    b.received reply [] = .ok reply := by
  unfold received
  rw [if_pos fits, ite_self, overlay_nil]

end Replybuf

/-- The branch of `receiveresponse_client` for a command. -/
def Command.replybuf : Command → Option Replybuf
  | .getattr => some .getattr_buf
  | .readdir => some .readdir_buf
  | .access => some (.retbuf .access)
  | .open_ => some (.retbuf .open_)
  | .read => some (.retbuf .read)
  | .write => some (.retbuf .write)
  | .mknod => some (.retbuf .mknod)
  | .truncate => some (.retbuf .truncate)
  | .unlink => some (.retbuf .unlink)
  | .rmdir => some (.retbuf .rmdir)
  | .statfs => some .statvfs_retbuf
  | .mkdir => some .mkdir_buf
  | .chmod => some .chmod_buf
  | .rename => some .rename_buf
  | .datanode | .shutdown | .dn_command => none

/-- The buffer that the tail of an operation reads. -/
def Operation.replybuf : Operation → Replybuf
  | .getattr => .getattr_buf
  | .access => .retbuf .access
  | .readdir => .readdir_buf
  | .mknod => .retbuf .mknod
  | .mkdir => .mkdir_buf
  | .unlink => .retbuf .unlink
  | .rmdir => .retbuf .rmdir
  | .rename => .rename_buf
  | .chmod => .chmod_buf
  | .truncate => .retbuf .truncate
  | .open_ => .retbuf .open_
  | .read => .retbuf .read
  | .write => .retbuf .write
  | .statfs => .statvfs_retbuf

/-- The reply to an operation arrives in the buffer that the operation reads, except for `statfs`. -/
theorem command_replybuf (o : Operation) :
    o.COMMAND_NAME.replybuf = some o.replybuf ↔ o ≠ .statfs := by
  cases o <;> decide

/-! ## The tails of the operations -/

/-- The fields of `struct stat` that travel, as `atoi` gives them. -/
structure Stat where
  st_mode : ℤ
  st_ino : ℤ
  st_dev : ℤ
  st_rdev : ℤ
  st_nlink : ℤ
  st_uid : ℤ
  st_gid : ℤ
  st_size : ℤ
  st_atime : ℤ
  st_mtime : ℤ
  st_ctime : ℤ
  st_blksize : ℤ
  st_blocks : ℤ
deriving DecidableEq

/-- `stbuf` after its `memset`. -/
def Stat.zero : Stat := ⟨0, 0, 0, 0, 0, 0, 0, 0, 0, 0, 0, 0, 0⟩

/-- The assignments of `my_getattr`. -/
def Stat.ofFields : List ℤ → Stat
  | [mode, ino, dev, rdev, nlink, uid, gid, size, atime, mtime, ctime, blksize, blocks] =>
      ⟨mode, ino, dev, rdev, nlink, uid, gid, size, atime, mtime, ctime, blksize, blocks⟩
  | _ => zero

/-- The fields of `struct statvfs` that travel. -/
structure Statvfs where
  f_bsize : ℤ
  f_frsize : ℤ
  f_blocks : ℤ
  f_bfree : ℤ
  f_bavail : ℤ
  f_files : ℤ
  f_ffree : ℤ
  f_favail : ℤ
  f_fsid : ℤ
  f_flag : ℤ
  f_namemax : ℤ
deriving DecidableEq

/-- The assignments of `xmp_statfs`. -/
def Statvfs.ofFields : List ℤ → Option Statvfs
  | [bsize, frsize, blocks, bfree, bavail, files, ffree, favail, fsid, flag, namemax] =>
      some ⟨bsize, frsize, blocks, bfree, bavail, files, ffree, favail, fsid, flag, namemax⟩
  | _ => none

/-- One call of the `filler` of `xmp_readdir`. -/
structure Filled where
  name : List Byte
  st_ino : ℤ
  st_mode : ℤ
deriving DecidableEq

/-- What an operation gives its caller besides its return value. -/
inductive Output where
  | nothing
  | data (buf : List Byte)
  | stat (stbuf : Stat)
  | entries (calls : List Filled)
  | statvfs (stbuf : Option Statvfs)
deriving DecidableEq

/-- The return value of an operation, its output, and what it leaves in its reply buffer. -/
structure Returned where
  value : ℤ
  output : Output
  left : List Byte
deriving DecidableEq

/-- Numbers read from a buffer, and the buffer in front of and behind the saved pointer. -/
structure Numbers where
  values : List ℤ
  front : List Byte
  rest : List Byte

/-- `n` times `strtok` and `atoi`. -/
def atois : ℕ → List Byte → Except Fault Numbers
  | 0, m => .ok ⟨[], [], m⟩
  | n + 1, m =>
      match strtok [comma] m with
      | none => .error .null
      | some t =>
          (atois n t.rest).map fun p => ⟨atoi t.token :: p.values, t.front ++ p.front, p.rest⟩

/-- The tail of `my_getattr`. -/
def getattrResult (m : List Byte) : Except Fault Returned := do
  let s ← status m
  if s.res = -1 then return ⟨toInt (-s.errno), .stat .zero, s.front ++ s.rest⟩
  else
    let p ← atois 13 s.rest
    return ⟨0, .stat (.ofFields p.values), s.front ++ p.front ++ p.rest⟩

/-- The tail of `xmp_statfs`. -/
def statfsResult (m : List Byte) : Except Fault Returned := do
  let s ← status m
  if s.res = -1 then return ⟨toInt (-s.errno), .statvfs none, s.front ++ s.rest⟩
  else
    let p ← atois 11 s.rest
    return ⟨0, .statvfs (Statvfs.ofFields p.values), s.front ++ p.front ++ p.rest⟩

/-- The tails of `xmp_mkdir`, `xmp_rename` and `xmp_chmod`, which compare the first byte with
`'Y'`. -/
def flagResult (m : List Byte) : Except Fault Returned :=
  (status m).map fun s =>
    ⟨if m.head? = some 89 then toInt (-s.errno) else 0, .nothing, s.front ++ s.rest⟩

/-- The loop of `xmp_readdir`: the calls of `filler`, and the buffer afterwards.  A name goes into a
`char name[100]`.  `filler` returns whether it refuses the last of its calls so far. -/
def readdirLoop (filler : List Filled → Bool) :
    ℕ → List Filled → List Byte → List Byte → Except Fault (List Filled × List Byte)
  | 0, calls, front, m => .ok (calls, front ++ m)
  | n + 1, calls, front, m =>
      match strtok [comma] m with
      | none => .ok (calls, front ++ m)
      | some name =>
          if 100 ≤ name.token.length then .error .overflow
          else
            match strtok [comma] name.rest with
            | none => .error .null
            | some ino =>
                match strtok [comma] ino.rest with
                | none => .error .null
                | some mode =>
                    let calls := calls ++
                      [⟨name.token, atoi ino.token, toInt (atoi mode.token * 2 ^ 12)⟩]
                    let front := front ++ name.front ++ ino.front ++ mode.front
                    if filler calls then .ok (calls, front ++ mode.rest)
                    else readdirLoop filler n calls front mode.rest

/-- The tail of `xmp_readdir`, which reads the error number and returns 0. -/
def readdirResult (filler : List Filled → Bool) (m : List Byte) : Except Fault Returned :=
  match strtok [comma] m with
  | none => .error .null
  | some t => do
      let (calls, left) ← readdirLoop filler t.rest.length [] t.front t.rest
      return ⟨0, .entries calls, left⟩

/-- The result of an operation with a `Retbuf`, for a caller whose buffer is `buf`. -/
def retbufResult (b : Retbuf) (m buf : List Byte) : Except Fault Returned :=
  (decode b m buf).map fun r => ⟨r.value, if b = .read then .data r.buf else .nothing, r.left⟩

/-- The tail of an operation: `m` is its reply buffer, `filler` and `buf` come from its caller. -/
def Operation.result (o : Operation) (filler : List Filled → Bool) (buf m : List Byte) :
    Except Fault Returned :=
  match o.replybuf with
  | .retbuf b => retbufResult b m buf
  | .getattr_buf => getattrResult m
  | .readdir_buf => readdirResult filler m
  | .statvfs_retbuf => statfsResult m
  | .mkdir_buf | .rename_buf | .chmod_buf => flagResult m

/-- An operation whose reply arrives when all reply buffers are clear. -/
def Operation.afterReply (o : Operation) (filler : List Filled → Bool) (buf reply : List Byte) :
    Except Fault Returned := do
  match o.COMMAND_NAME.replybuf with
  | none => o.result filler buf []
  | some b =>
      let m ← b.received reply []
      o.result filler buf (if b = o.replybuf then m else [])

/-! ## The senders -/

/-- The fields of `struct stat` in the order in which `sendresponse_getattr` prints them. -/
def Stat.fields (st : Stat) : List ℤ :=
  [st.st_mode, st.st_ino, st.st_dev, st.st_rdev, st.st_nlink, st.st_uid, st.st_gid, st.st_size,
    st.st_atime, st.st_mtime, st.st_ctime, st.st_blksize, st.st_blocks]

/-- The fields of `struct statvfs` in the order in which `sendresponse_statfs` prints them. -/
def Statvfs.fields (st : Statvfs) : List ℤ :=
  [st.f_bsize, st.f_frsize, st.f_blocks, st.f_bfree, st.f_bavail, st.f_files, st.f_ffree,
    st.f_favail, st.f_fsid, st.f_flag, st.f_namemax]

/-- `st` is what `stat` has filled in, or nothing when it has failed. -/
def sendresponse_getattr (st : Option Stat) (errno : ℤ) : List Byte :=
  match st with
  | none => str "-1" ++ comma :: snprintf 10 errno
  | some st =>
      snprintf 10 0 ++ comma :: (snprintf 10 errno ++
        st.fields.flatMap fun x => comma :: snprintf 10 x)

/-- `st` is what `statvfs` gives, or nothing when it fails. -/
def sendresponse_statfs (st : Option Statvfs) (errno : ℤ) : List Byte :=
  match st with
  | none =>
      snprintf 10 (-1) ++ comma :: (snprintf 10 errno ++ comma :: (snprintf 10 errno ++ [comma]))
  | some st =>
      snprintf 10 0 ++ comma :: (snprintf 10 errno ++ comma ::
        (st.fields.flatMap fun x => snprintf 10 x ++ [comma]) ++ (snprintf 10 errno ++ [comma]))

/-- The text for `rmdir`, like those for `unlink` and `truncate`, is made as for `mknod`. -/
def sendresponse_rmdir (res errno : ℤ) : List Byte := sendresponse_mknod res errno

/-- The text for `unlink`. -/
def sendresponse_unlink (res errno : ℤ) : List Byte := sendresponse_mknod res errno

/-- The text for `truncate`. -/
def sendresponse_truncate (res errno : ℤ) : List Byte := sendresponse_mknod res errno

/-- `'Y'` for a failure, `'N'` for a success, and the error number. -/
def flagReply (res errno : ℤ) : List Byte :=
  (if res = -1 then 89 else 78) :: comma :: snprintf 10 errno

/-- The text for `mkdir`. -/
def sendresponse_mkdir (res errno : ℤ) : List Byte := flagReply res errno

/-- The text for `rename`. -/
def sendresponse_rename (res errno : ℤ) : List Byte := flagReply res errno

/-- The text for `chmod`. -/
def sendresponse_chmod (res errno : ℤ) : List Byte := flagReply res errno

/-- A directory entry. -/
structure Dirent where
  d_name : CString
  d_type : ℤ
  d_ino : ℤ

/-- `entries` is what `readdir` gives, or nothing when `opendir` has failed.  The text goes into a
`char listfiles[10000]`. -/
def sendresponse_readdir (entries : Option (List Dirent)) (errno : ℤ) : Except Fault (List Byte) :=
  let listfiles := snprintf 10 errno ++ comma :: (entries.getD []).flatMap fun de =>
    de.d_name.bytes ++ comma :: (snprintf 10 de.d_type ++ comma :: (snprintf 10 de.d_ino ++ [comma]))
  if listfiles.length < 10000 then .ok listfiles else .error .overflow

/-! ## Results -/

section Results

variable {o : Operation} {filler : List Filled → Bool} {buf reply m : List Byte}

/-- A reply that fits is what the operation reads. -/
theorem afterReply_of_fits (own : o ≠ .statfs) (fits : reply.length < o.replybuf.size) :
    o.afterReply filler buf reply = o.result filler buf reply := by
  unfold Operation.afterReply
  rw [(command_replybuf o).2 own]
  show (o.replybuf.received reply []).bind _ = _
  rw [Replybuf.received_of_fits fits]
  show o.result filler buf (if o.replybuf = o.replybuf then reply else []) = _
  rw [if_pos rfl]

theorem afterReply_of_long (own : o ≠ .statfs) (long : ¬ reply.length < o.replybuf.size) :
    o.afterReply filler buf reply = .error .overflow := by
  unfold Operation.afterReply
  rw [(command_replybuf o).2 own]
  show (o.replybuf.received reply []).bind _ = _
  unfold Replybuf.received
  rw [if_neg long]
  rfl

/-- `statfs` waits for its reply in another buffer than the one it reads: it never returns. -/
theorem statfs_afterReply (filler : List Filled → Bool) (buf reply : List Byte) :
    ∃ e, Operation.afterReply .statfs filler buf reply = .error e := by
  show ∃ e, ((Replybuf.retbuf .write).received reply []).bind _ = .error e
  cases (Replybuf.retbuf .write).received reply [] with
  | error e => exact ⟨e, rfl⟩
  | ok m => exact ⟨.null, rfl⟩

/-- What an operation returns after a success that is reported with `res`. -/
def Retbuf.success (b : Retbuf) (res : ℤ) : ℤ := if b = .read ∨ b = .write then res else 0

/-- The value of an operation whose reply begins with a result and an error number. -/
theorem retbufResult_value {res errno : ℤ} {front rest : List Byte} (b : Retbuf) (buf : List Byte)
    (read : status m = .ok ⟨res, errno, front, rest⟩) :
    ∃ r, retbufResult b m buf = .ok r ∧
      r.value = if res = -1 then toInt (-errno) else b.success res := by
  unfold retbufResult
  cases b with
  | read =>
    simp only [decode, readResult, read, Except.map]
    refine ⟨_, rfl, ?_⟩
    by_cases failed : res = -1
    · rw [if_pos failed, if_pos failed]
    · rw [if_neg failed, if_neg failed, Retbuf.success, if_pos (Or.inl rfl)]
      cases strtok [comma] rest <;> rfl
  | write =>
    simp only [decode, writeResult, read, Except.map, Retbuf.success]
    exact ⟨_, rfl, by simp⟩
  | _ =>
    simp only [decode, statusResult, read, Except.map, Retbuf.success]
    exact ⟨_, rfl, by simp⟩

theorem isToken_flag {c : Byte} (nonzero : c ≠ 0) (other : c ≠ comma) : IsToken [comma] [c] where
  nonempty := List.cons_ne_nil c []
  noNul := by simpa [NoNul] using nonzero.symm
  plain := by simpa using other

/-- The value of `mkdir`, `rename` and `chmod`. -/
theorem flagResult_value (res errno : ℤ) : ∃ r, flagResult (flagReply res errno) = .ok r ∧
    r.value = if res = -1 then toInt (-atoi (snprintf 10 errno)) else 0 := by
  unfold flagResult flagReply
  by_cases failed : res = -1
  · have read := status_pair (isToken_flag (c := 89) (by decide) (by decide)) (isToken_number errno)
    rw [List.singleton_append] at read
    rw [if_pos failed, if_pos failed, read]
    exact ⟨_, rfl, rfl⟩
  · have read := status_pair (isToken_flag (c := 78) (by decide) (by decide)) (isToken_number errno)
    rw [List.singleton_append] at read
    rw [if_neg failed, if_neg failed, read]
    exact ⟨_, rfl, rfl⟩

/-- Fields between commas are read one after another. -/
theorem atois_fields (x : ℤ) (l : List ℤ) :
    ∃ front, atois (l.length + 1) (snprintf 10 x ++ l.flatMap fun y => comma :: snprintf 10 y) =
      .ok ⟨(x :: l).map fun y => atoi (snprintf 10 y), front, []⟩ := by
  induction l generalizing x with
  | nil =>
    unfold atois
    rw [List.flatMap_nil, List.append_nil, strtok_last (isToken_number x)]
    exact ⟨_, rfl⟩
  | cons y l ih =>
    obtain ⟨front, later⟩ := ih y
    unfold atois
    rw [List.flatMap_cons, List.cons_append, strtok_comma (isToken_number x), List.length_cons]
    show ∃ front, (atois (l.length + 1) _).map _ = _
    rw [later]
    exact ⟨_, rfl⟩

/-- The value of `getattr`. -/
theorem getattrResult_value (st : Option Stat) (errno : ℤ) :
    ∃ r, getattrResult (sendresponse_getattr st errno) = .ok r ∧
      r.value = if st = none then toInt (-atoi (snprintf 10 errno)) else 0 := by
  unfold getattrResult sendresponse_getattr
  cases st with
  | none =>
    have minus : atoi (snprintf 10 (-1)) = -1 := atoi_snprintf_of_short (by decide)
    rw [str_minus_one, status_pair (isToken_number (-1)) (isToken_number errno)]
    simp only [minus]
    exact ⟨_, rfl, rfl⟩
  | some st =>
    have zero : atoi (snprintf 10 0) = 0 := atoi_snprintf_of_short (by decide)
    obtain ⟨front, read⟩ := atois_fields st.st_mode st.fields.tail
    have text : (st.fields.flatMap fun x => comma :: snprintf 10 x) =
        comma :: (snprintf 10 st.st_mode ++ st.fields.tail.flatMap fun x => comma :: snprintf 10 x) :=
      rfl
    dsimp only
    rw [text, status_fields (isToken_number 0) (isToken_number errno)]
    simp only [zero]
    show ∃ r, (atois 13 _).bind _ = .ok r ∧ _
    have count : st.fields.tail.length + 1 = 13 := rfl
    rw [count] at read
    rw [read]
    exact ⟨_, rfl, rfl⟩

end Results

end DistFs.Wire
