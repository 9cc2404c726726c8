import DistFs.Wire.Exchange
import DistFs.Wire.Receivers

/-!
# Replication

`create_replica` on the name node and `receivecommand_replica` on the two data nodes: the replica is
asked whether it has the file, the primary for its contents, and the replica is told to write them.
No datagram is lost, and an answer that is sent arrives in time.
-/

namespace DistFs.Wire

open CText

/-! ## The data nodes -/

/-- The contents of the files of a data node. -/
abbrev Files := List Byte → Option (List Byte)

/-- What the kernels do: `open` and `pread` on the primary, where `takes n` gives at most `n` bytes;
`fopen` on the replica; and the error numbers that earlier calls have left on both. -/
structure Kernel where
  reading : Outcome
  fopen : Option FileStream
  readErrno : Errno
  writeErrno : Errno

/-- 0 if the file exists, 1 if it does not exist. -/
def fexist (files : Files) : Option (List Byte) → ℤ
  | none => 1
  | some path => if (files path).isSome then 0 else 1

/-- The text with the result of `fexist`. -/
def sendreplicaresponse_fileexist (fret : ℤ) : List Byte := snprintf 10 fret ++ [comma]

/-- The text is made like that of `sendresponse_read`. -/
def sendreplicaresponse_read (got : Option (ℤ × List Byte)) (errno : ℤ) : List Byte :=
  sendresponse_read got errno

/-- The result of `fwrite` and the error number. -/
def sendreplicaresponse_write (res errno : ℤ) : List Byte :=
  snprintf 10 res ++ comma :: snprintf 10 errno

/-- What the name node hears of a call: the reply; nothing, because its address is not found; or
nothing, because the data node reads past the end of `buf`, takes the length of a null pointer,
writes to a null stream, or to an address of which an `int` has kept a part. -/
inductive Heard where
  | reply (text : List Byte)
  | silent
  | overrun
  | null_text
  | null_file
  | wild_file
deriving DecidableEq

/-- `sendreplicaresponse_read` for a size of 4096. -/
def readReplica (kernel : Kernel) (files : Files) (path : Option (List Byte)) : Heard :=
  match path with
  | none => .reply (sendreplicaresponse_read none EFAULT)
  | some path =>
    match files path with
    | none => .reply (sendreplicaresponse_read none ENOENT)
    | some file =>
      match kernel.reading with
      | .closed e => .reply (sendreplicaresponse_read none e)
      | .fails e => .reply (sendreplicaresponse_read (some (-1, [])) e)
      | .takes n =>
          let buf := file.take (min n 4096)
          if (cstr buf).length < 4096 then
            .reply (sendreplicaresponse_read (some (buf.length, buf)) kernel.readErrno)
          else .overrun

/-- `sendreplicaresponse_write`.  `fopen` empties the file; its result is compared with -1, so a null
stream, or what an `int` keeps of an address, is used like any other.  The stream buffers the text:
what it does not take is lost in `fclose`. -/
def writeReplica (kernel : Kernel) (files : Files) (path buf : Option (List Byte)) :
    Heard × Files :=
  match path, kernel.fopen with
  | some path, some fd =>
      match buf with
      | none => (.null_text, Function.update files path (some []))
      | some buf =>
          if fd.inInt then
            (.reply (sendreplicaresponse_write 1 kernel.writeErrno),
              Function.update files path (some (buf.take fd.takes)))
          else (.wild_file, Function.update files path (some []))
  | _, _ => (if buf = none then .null_text else .null_file, files)

/-- A call of a data node, and its files afterwards. -/
def ReplicaCall.serve (net : Net) (kernel : Kernel) (host : List Byte) (files : Files) :
    ReplicaCall → Heard × Files
  | .fileexist path =>
      (if net.known host then .reply (sendreplicaresponse_fileexist (fexist files path)) else .silent,
        files)
  | .read path => (if net.known host then readReplica kernel files path else .silent, files)
  | .write path buf =>
      if net.known host then writeReplica kernel files path buf else (.silent, files)

/-! ## The name node -/

/-- `sendcommand_replica`: the datagram for `node`, or nothing (-1) when its address is not found. -/
def sendcommand_replica (net : Net) (node cmd path : List Byte) :
    Except Fault (Option (List Byte)) :=
  if net.known node = false then .ok none
  else if (cmd ++ comma :: path).length < 1000 then .ok (some (cmd ++ comma :: path))
  else .error .overflow

/-- A command, and what `receiveresponse_replica` hears of it. -/
def exchange_replica (net : Net) (kernel : Kernel) (host : List Byte) (disk : Disk)
    (node cmd path : List Byte) : Except Fault (Option (Heard × Disk)) :=
  (sendcommand_replica net node cmd path).bind fun sent =>
    match sent with
    | none => .ok none
    | some M =>
      match receivecommand_replica M with
      | .ok (some call) =>
          let served := call.serve net kernel host (disk node)
          .ok (some (served.1, Function.update disk node served.2))
      | _ => .ok (some (.silent, disk))

/-- How `create_replica` ends: with a value, behind its last statement, where there is no `return`, or
never, because it joins a thread that waits for an answer. -/
inductive Finish where
  | returns (value : ℤ)
  | ends
  | waits
deriving DecidableEq

/-- How it ends, the disks afterwards, and why the last data node did not answer. -/
structure Replication where
  ended : Finish
  disk : Disk
  unanswered : Option Heard

/-- `check_filepresent`: -1 if the address is not found, 1 if the file exists, and 0 otherwise, or
nothing without an answer. -/
def check_filepresent (net : Net) (kernel : Kernel) (host : List Byte) (disk : Disk)
    (path repdn : List Byte) : Except Fault (Option ℤ) :=
  if net.known repdn = false then .ok (some (-1))
  else
    (exchange_replica net kernel host disk repdn R_FILEEXIST path).bind fun sent =>
      match sent with
      | none => .ok (some (-1))
      | some (.reply r_fexist_buf, _) =>
          (atoiPtr (nextToken [comma] r_fexist_buf).1).map fun res => some (if res = 0 then 1 else 0)
      | some _ => .ok none

/-- The end of `create_replica`: "Write the contents in repdn.." -/
def writeContents (net : Net) (kernel : Kernel) (host : List Byte) (disk : Disk)
    (path repdn buf : List Byte) : Except Fault Replication :=
  let my_path := path ++ comma :: buf
  if 4196 ≤ my_path.length then .error .overflow
  else
    (exchange_replica net kernel host disk repdn R_WRITE my_path).bind fun sent =>
      match sent with
      | none => .ok ⟨.returns (-1), disk, none⟩
      | some (.reply r_write_buf, disk) => (status r_write_buf).map fun _ => ⟨.ends, disk, none⟩
      -- a hundred looks at `datanoderesponse_success`
      | some (answer, disk) => .ok ⟨.returns (-1), disk, some answer⟩

/-- The middle of `create_replica`: "Get the file contents from primdn.." -/
def getContents (net : Net) (kernel : Kernel) (host : List Byte) (disk : Disk)
    (path primdn repdn : List Byte) : Except Fault Replication :=
  (exchange_replica net kernel host disk primdn R_READ path).bind fun sent =>
    match sent with
    | none => .ok ⟨.returns (-1), disk, none⟩
    | some (.reply r_read_buf, disk) =>
        (status r_read_buf).bind fun s =>
          if s.res = -1 then .ok ⟨.returns (toInt (-s.errno)), disk, none⟩
          else
            let buf := (nextToken [comma] s.rest).1.getD []
            if 4096 ≤ buf.length then .error .overflow
            else writeContents net kernel host disk path repdn buf
    | some (answer, disk) => .ok ⟨.waits, disk, some answer⟩

/-- `create_replica`.  A file that is present is only reported on the screen. -/
def create_replica (net : Net) (kernel : Kernel) (host : List Byte) (disk : Disk)
    (path primdn repdn : List Byte) : Except Fault Replication :=
  (check_filepresent net kernel host disk path repdn).bind fun ret =>
    match ret with
    | none => .ok ⟨.waits, disk, none⟩
    | some ret =>
        if ret = -1 then .ok ⟨.returns (-1), disk, none⟩
        else getContents net kernel host disk path primdn repdn

/-! ## Messages -/

section Messages

variable {net : Net} {kernel : Kernel} {host node cmd path M primdn repdn buf : List Byte} {disk : Disk}
  {call : ReplicaCall}

theorem isToken_R_FILEEXIST : IsToken [comma] R_FILEEXIST :=
  ⟨by decide +kernel, by decide +kernel, by decide +kernel⟩

theorem isToken_R_READ : IsToken [comma] R_READ :=
  ⟨by decide +kernel, by decide +kernel, by decide +kernel⟩

theorem isToken_R_WRITE : IsToken [comma] R_WRITE :=
  ⟨by decide +kernel, by decide +kernel, by decide +kernel⟩

theorem replica_commands_differ :
    R_READ ≠ R_FILEEXIST ∧ R_WRITE ≠ R_FILEEXIST ∧ R_WRITE ≠ R_READ := by decide

theorem receivecommand_replica_fileexist (path : List Byte) :
    receivecommand_replica (R_FILEEXIST ++ comma :: path) =
      .ok (some (.fileexist (nextToken [comma] path).1)) := by
  unfold receivecommand_replica
  rw [nextToken_comma isToken_R_FILEEXIST]
  exact if_pos rfl

theorem receivecommand_replica_read (path : List Byte) :
    receivecommand_replica (R_READ ++ comma :: path) =
      .ok (some (.read (nextToken [comma] path).1)) := by
  unfold receivecommand_replica
  rw [nextToken_comma isToken_R_READ]
  show (if _ then _ else _) = _
  rw [if_neg replica_commands_differ.1, if_pos rfl]

theorem receivecommand_replica_write (my_path : List Byte) :
    receivecommand_replica (R_WRITE ++ comma :: my_path) =
      .ok (some (.write (nextToken [comma] my_path).1
        (nextToken [comma] (nextToken [comma] my_path).2).1)) := by
  unfold receivecommand_replica
  rw [nextToken_comma isToken_R_WRITE]
  show (if _ then _ else _) = _
  rw [if_neg replica_commands_differ.2.1, if_neg replica_commands_differ.2.2, if_pos rfl]

theorem exchange_replica_unknown (unknown : net.known node = false) :
    exchange_replica net kernel host disk node cmd path = .ok none := by
  unfold exchange_replica sendcommand_replica
  rw [if_pos unknown]
  rfl

theorem exchange_replica_long (known : net.known node = true)
    (long : 1000 ≤ (cmd ++ comma :: path).length) :
    exchange_replica net kernel host disk node cmd path = .error .overflow := by
  unfold exchange_replica sendcommand_replica
  rw [if_neg (by simp [known]), if_neg (by omega)]
  rfl

/-- A command that fits its datagram is served. -/
theorem exchange_replica_served (known : net.known node = true)
    (fits : (cmd ++ comma :: path).length < 1000)
    (received : receivecommand_replica (cmd ++ comma :: path) = .ok (some call)) :
    exchange_replica net kernel host disk node cmd path =
      .ok (some ((call.serve net kernel host (disk node)).1,
        Function.update disk node (call.serve net kernel host (disk node)).2)) := by
  unfold exchange_replica sendcommand_replica
  rw [if_neg (by simp [known]), if_pos fits]
  show (match receivecommand_replica (cmd ++ comma :: path) with
    | .ok (some call) => _
    | _ => _) = _
  rw [received]

end Messages

/-! ## The first question -/

section Present

variable {net : Net} {kernel : Kernel} {host path primdn repdn : List Byte} {disk : Disk}

theorem R_FILEEXIST_length (path : List Byte) :
    (R_FILEEXIST ++ comma :: path).length = path.length + 19 := by
  have : R_FILEEXIST.length = 18 := by decide
  rw [List.length_append, List.length_cons]
  omega

theorem create_replica_unknown (unknown : net.known repdn = false) :
    create_replica net kernel host disk path primdn repdn = .ok ⟨.returns (-1), disk, none⟩ := by
  unfold create_replica check_filepresent
  rw [if_pos unknown]
  rfl

theorem create_replica_long (known : net.known repdn = true) (long : 1000 ≤ path.length + 19) :
    create_replica net kernel host disk path primdn repdn = .error .overflow := by
  unfold create_replica check_filepresent
  rw [if_neg (by simp [known]), exchange_replica_long known (by rwa [R_FILEEXIST_length])]
  rfl

/-- Without an answer the name node waits. -/
theorem create_replica_silent (known : net.known repdn = true) (fits : path.length + 19 < 1000)
    (silent : net.known host = false) :
    create_replica net kernel host disk path primdn repdn = .ok ⟨.waits, disk, none⟩ := by
  unfold create_replica check_filepresent
  rw [if_neg (by simp [known]), exchange_replica_served known (by rwa [R_FILEEXIST_length])
    (receivecommand_replica_fileexist path)]
  simp only [ReplicaCall.serve, silent]
  rfl

/-- Whatever the answer is, the contents are fetched. -/
theorem create_replica_asked (known : net.known repdn = true) (fits : path.length + 19 < 1000)
    (answers : net.known host = true) :
    create_replica net kernel host disk path primdn repdn =
      getContents net kernel host disk path primdn repdn := by
  unfold create_replica check_filepresent
  rw [if_neg (by simp [known]), exchange_replica_served known (by rwa [R_FILEEXIST_length])
    (receivecommand_replica_fileexist path)]
  simp only [ReplicaCall.serve, answers, if_true, sendreplicaresponse_fileexist]
  show ((atoiPtr (nextToken [comma] (snprintf 10 _ ++ comma :: [])).1).map _).bind _ = _
  rw [nextToken_comma (isToken_number _)]
  show (if (if _ then (1 : ℤ) else 0) = -1 then _ else _) = _
  rw [if_neg]
  split_ifs <;> decide

end Present

/-! ## The contents -/

/-- What the name node gets to know of a file: an error number; nothing, because the text fills `buf`
to its end; or the text of its first field. -/
inductive Fetched where
  | failed (e : Failure)
  | overrun
  | text (buf : List Byte)

/-- The text that `create_replica` finds behind the two numbers. -/
def contentsOf (bytes : List Byte) : List Byte := (nextToken [comma] (cstr bytes)).1.getD []

/-- What `create_replica` reads on the primary. -/
def fetched (kernel : Kernel) (files : Files) (path : Option (List Byte)) : Fetched :=
  match path with
  | none => .failed EFAULT
  | some path =>
    match files path with
    | none => .failed ENOENT
    | some file =>
      match kernel.reading with
      | .closed e => .failed e
      | .fails e => .failed e
      | .takes n =>
          if (cstr (file.take (min n 4096))).length < 4096 then
            .text (contentsOf (file.take (min n 4096)))
          else .overrun

section Contents

variable {net : Net} {kernel : Kernel} {host path primdn repdn : List Byte} {disk : Disk}
  {files : Files} {e : Failure} {m buf : List Byte} {p : Option (List Byte)}

/-- A token is not longer than the memory it lies in. -/
theorem nextToken_length (m : List Byte) : ((nextToken [comma] m).1.getD []).length ≤ m.length := by
  unfold nextToken
  cases found : strtok [comma] m with
  | none => exact Nat.zero_le _
  | some t =>
    have whole := strtok_length found
    show t.token.length ≤ m.length
    unfold Token.front at whole
    simp only [List.length_append] at whole
    omega

theorem getContents_unknown (unknown : net.known primdn = false) :
    getContents net kernel host disk path primdn repdn = .ok ⟨.returns (-1), disk, none⟩ := by
  unfold getContents
  rw [exchange_replica_unknown unknown]
  rfl

theorem R_READ_length (path : List Byte) : (R_READ ++ comma :: path).length = path.length + 7 := by
  have : R_READ.length = 6 := by decide
  rw [List.length_append, List.length_cons]
  omega

/-- What the primary hears leaves its files alone. -/
theorem exchange_replica_read (known : net.known primdn = true) (fits : path.length + 19 < 1000)
    (answers : net.known host = true) :
    exchange_replica net kernel host disk primdn R_READ path =
      .ok (some (readReplica kernel (disk primdn) (nextToken [comma] path).1, disk)) := by
  rw [exchange_replica_served known (by rw [R_READ_length]; omega) (receivecommand_replica_read path)]
  simp only [ReplicaCall.serve, answers, if_true, Function.update_eq_self]

theorem errno_short {e : ℤ} (range : 0 ≤ e ∧ e < 4096) : (decimal e).length ≤ 9 := by
  have := errno_length range
  omega

/-- What the primary answers. -/
theorem readReplica_fetched (kernel : Kernel) (files : Files) (p : Option (List Byte)) :
    match fetched kernel files p with
    | .failed e => readReplica kernel files p = .reply (sendreplicaresponse_read none e) ∨
        readReplica kernel files p = .reply (sendreplicaresponse_read (some (-1, [])) e)
    | .overrun => readReplica kernel files p = .overrun
    | .text buf => ∃ path file n, p = some path ∧ files path = some file ∧
        kernel.reading = .takes n ∧ (cstr (file.take (min n 4096))).length < 4096 ∧
        buf = contentsOf (file.take (min n 4096)) ∧
        readReplica kernel files p = .reply (sendreplicaresponse_read
          (some ((file.take (min n 4096)).length, file.take (min n 4096))) kernel.readErrno) := by
  unfold fetched readReplica
  cases p with
  | none => exact Or.inl rfl
  | some path =>
    dsimp only
    cases held : files path with
    | none => exact Or.inl rfl
    | some file =>
      dsimp only
      cases outcome : kernel.reading with
      | closed e => exact Or.inl rfl
      | fails e => exact Or.inr rfl
      | takes n =>
        dsimp only
        by_cases fits : (cstr (file.take (min n 4096))).length < 4096
        · rw [if_pos fits, if_pos fits]
          exact ⟨path, file, n, rfl, held, rfl, fits, rfl, rfl⟩
        · rw [if_neg fits, if_neg fits]

/-- A failure is told with its error number, in either of two texts. -/
theorem readReplica_failed (failed : fetched kernel files p = .failed e) :
    ∃ reply s, readReplica kernel files p = .reply reply ∧ status reply = .ok s ∧ s.res = -1 ∧
      s.errno = e := by
  have minus : (decimal (-1)).length ≤ 9 := by decide
  have short : (decimal e.1).length ≤ 9 := errno_short ⟨e.2.1.le, e.2.2⟩
  have answer := readReplica_fetched kernel files p
  rw [failed] at answer
  rcases answer with unopened | unread
  · have decoded := status_pair (isToken_number (-1)) (isToken_number e)
    rw [atoi_snprintf_of_short minus, atoi_snprintf_of_short short, ← str_minus_one] at decoded
    exact ⟨_, _, unopened, decoded, rfl, rfl⟩
  · obtain ⟨front, decoded⟩ := status_closed ⟨-1, minus⟩ ⟨e, short⟩ []
    exact ⟨_, _, unread, decoded, rfl, rfl⟩

theorem readReplica_overrun (overrun : fetched kernel files p = .overrun) :
    readReplica kernel files p = .overrun := by
  have answer := readReplica_fetched kernel files p
  rwa [overrun] at answer

theorem readReplica_text (text : fetched kernel files p = .text buf) :
    buf.length < 4096 ∧ ∃ reply s, readReplica kernel files p = .reply reply ∧
      status reply = .ok s ∧ s.res ≠ -1 ∧ (nextToken [comma] s.rest).1.getD [] = buf := by
  have answer := readReplica_fetched kernel files p
  rw [text] at answer
  obtain ⟨path, file, n, rfl, held, outcome, fits, rfl, heard⟩ := answer
  have size : ((file.take (min n 4096)).length : ℤ) < 10 ^ 6 := by
    rw [List.length_take]
    omega
  have count : (decimal ((file.take (min n 4096)).length : ℤ)).length ≤ 9 :=
    (result_length ⟨by omega, size⟩).trans (by decide)
  have errno : (decimal kernel.readErrno.1).length ≤ 9 := errno_short kernel.readErrno.2
  obtain ⟨front, decoded⟩ := status_closed ⟨_, count⟩ ⟨_, errno⟩ (cstr (file.take (min n 4096)))
  have token := nextToken_length (cstr (file.take (min n 4096)))
  refine ⟨lt_of_le_of_lt token fits, _, _, heard, decoded, ?_, rfl⟩
  show ((file.take (min n 4096)).length : ℤ) ≠ -1
  omega

/-- What `create_replica` does with a reply to `r_read`. -/
theorem getContents_answered {reply : List Byte} {s : Status} (known : net.known primdn = true)
    (fits : path.length + 19 < 1000) (answers : net.known host = true)
    (heard : readReplica kernel (disk primdn) (nextToken [comma] path).1 = .reply reply)
    (decoded : status reply = .ok s) :
    getContents net kernel host disk path primdn repdn =
      if s.res = -1 then .ok ⟨.returns (toInt (-s.errno)), disk, none⟩
      else if 4096 ≤ ((nextToken [comma] s.rest).1.getD []).length then .error .overflow
      else writeContents net kernel host disk path repdn ((nextToken [comma] s.rest).1.getD []) := by
  unfold getContents
  rw [exchange_replica_read known fits answers, heard]
  show (status reply).bind _ = _
  rw [decoded]
  rfl

theorem getContents_failed (known : net.known primdn = true) (fits : path.length + 19 < 1000)
    (answers : net.known host = true)
    (failed : fetched kernel (disk primdn) (nextToken [comma] path).1 = .failed e) :
    getContents net kernel host disk path primdn repdn = .ok ⟨.returns (-e.1), disk, none⟩ := by
  obtain ⟨reply, s, heard, decoded, res, errno⟩ := readReplica_failed failed
  have range := e.2
  rw [getContents_answered known fits answers heard decoded, if_pos res, errno,
    toInt_of_range (by omega) (by omega)]

theorem getContents_overrun (known : net.known primdn = true) (fits : path.length + 19 < 1000)
    (answers : net.known host = true)
    (overrun : fetched kernel (disk primdn) (nextToken [comma] path).1 = .overrun) :
    getContents net kernel host disk path primdn repdn = .ok ⟨.waits, disk, some .overrun⟩ := by
  unfold getContents
  rw [exchange_replica_read known fits answers, readReplica_overrun overrun]
  rfl

theorem getContents_text (known : net.known primdn = true) (fits : path.length + 19 < 1000)
    (answers : net.known host = true)
    (text : fetched kernel (disk primdn) (nextToken [comma] path).1 = .text buf) :
    getContents net kernel host disk path primdn repdn =
      writeContents net kernel host disk path repdn buf := by
  obtain ⟨small, reply, s, heard, decoded, res, contents⟩ := readReplica_text text
  rw [getContents_answered known fits answers heard decoded, if_neg res, contents,
    if_neg (by omega)]

end Contents

/-! ## The writing -/

/-- The path that the replica finds behind `r_write`. -/
def writtenPath (path buf : List Byte) : Option (List Byte) :=
  (nextToken [comma] (path ++ comma :: buf)).1

/-- The text that it finds behind the path. -/
def writtenText (path buf : List Byte) : Option (List Byte) :=
  (nextToken [comma] (nextToken [comma] (path ++ comma :: buf)).2).1

/-- The disks after a text or a stream was missing: `fopen` has emptied the file, if it could. -/
def emptied (kernel : Kernel) (disk : Disk) (repdn : List Byte) : Option (List Byte) → Disk
  | none => disk
  | some p => if kernel.fopen.isSome then disk.set repdn p [] else disk

section Writing

variable {net : Net} {kernel : Kernel} {host path repdn buf p text : List Byte} {disk : Disk}
  {fd : FileStream}

theorem R_WRITE_length (path buf : List Byte) :
    (R_WRITE ++ comma :: (path ++ comma :: buf)).length = path.length + buf.length + 9 := by
  have : R_WRITE.length = 7 := by decide
  rw [List.length_append, List.length_cons, List.length_append, List.length_cons]
  omega

theorem writeContents_long (known : net.known repdn = true)
    (long : 1000 ≤ path.length + buf.length + 9) :
    writeContents net kernel host disk path repdn buf = .error .overflow := by
  unfold writeContents
  by_cases longer : 4196 ≤ (path ++ comma :: buf).length
  · exact if_pos longer
  · dsimp only
    rw [if_neg longer, exchange_replica_long known (by rwa [R_WRITE_length])]
    rfl

/-- What the replica hears, and what `create_replica` makes of the answer. -/
theorem writeContents_served (known : net.known repdn = true) (answers : net.known host = true)
    (fits : path.length + buf.length + 9 < 1000) :
    writeContents net kernel host disk path repdn buf =
      match writeReplica kernel (disk repdn) (writtenPath path buf) (writtenText path buf) with
      | (.reply r_write_buf, files) =>
          (status r_write_buf).map fun _ => ⟨.ends, Function.update disk repdn files, none⟩
      | (heard, files) => .ok ⟨.returns (-1), Function.update disk repdn files, some heard⟩ := by
  have short : ¬ 4196 ≤ (path ++ comma :: buf).length := by
    rw [List.length_append, List.length_cons]
    omega
  unfold writeContents
  dsimp only
  rw [if_neg short, exchange_replica_served known (by rwa [R_WRITE_length])
    (receivecommand_replica_write (path ++ comma :: buf))]
  simp only [ReplicaCall.serve, answers, if_true]
  show _ = match writeReplica kernel (disk repdn) (nextToken [comma] (path ++ comma :: buf)).1
    (nextToken [comma] (nextToken [comma] (path ++ comma :: buf)).2).1 with
    | (.reply _, _) => _
    | (_, _) => _
  rcases writeReplica kernel (disk repdn) (nextToken [comma] (path ++ comma :: buf)).1
    (nextToken [comma] (nextToken [comma] (path ++ comma :: buf)).2).1 with ⟨heard, files⟩
  cases heard <;> rfl

/-- The replica writes what it has found. -/
theorem writeContents_written (known : net.known repdn = true) (answers : net.known host = true)
    (fits : path.length + buf.length + 9 < 1000) (named : writtenPath path buf = some p)
    (found : writtenText path buf = some text) (opened : kernel.fopen = some fd)
    (whole : fd.inInt = true) :
    writeContents net kernel host disk path repdn buf =
      .ok ⟨.ends, disk.set repdn p (text.take fd.takes), none⟩ := by
  rw [writeContents_served known answers fits, named, found]
  unfold writeReplica
  simp only [opened, whole, if_true]
  unfold sendreplicaresponse_write
  rw [status_pair (isToken_number 1) (isToken_number _)]
  rfl

/-- Without a text the file is emptied, if it can be opened, before the replica falls. -/
theorem writeContents_null_text (known : net.known repdn = true) (answers : net.known host = true)
    (fits : path.length + buf.length + 9 < 1000) (missing : writtenText path buf = none) :
    writeContents net kernel host disk path repdn buf =
      .ok ⟨.returns (-1), emptied kernel disk repdn (writtenPath path buf), some .null_text⟩ := by
  rw [writeContents_served known answers fits, missing]
  unfold writeReplica emptied
  cases writtenPath path buf with
  | none => simp
  | some p =>
    cases kernel.fopen with
    | none => simp
    | some m => rfl

/-- What an `int` has kept of the address is no stream: the file is emptied before the replica falls. -/
theorem writeContents_wild_file (known : net.known repdn = true) (answers : net.known host = true)
    (fits : path.length + buf.length + 9 < 1000) (named : writtenPath path buf = some p)
    (found : writtenText path buf = some text) (opened : kernel.fopen = some fd)
    (part : fd.inInt = false) :
    writeContents net kernel host disk path repdn buf =
      .ok ⟨.returns (-1), emptied kernel disk repdn (writtenPath path buf), some .wild_file⟩ := by
  rw [writeContents_served known answers fits, named, found]
  unfold writeReplica emptied
  simp only [opened, part, Bool.false_eq_true, if_false, Option.isSome_some, if_true]
  rfl

/-- A null stream is written to. -/
theorem writeContents_null_file (known : net.known repdn = true) (answers : net.known host = true)
    (fits : path.length + buf.length + 9 < 1000) (found : writtenText path buf = some text)
    (unopened : kernel.fopen = none) :
    writeContents net kernel host disk path repdn buf =
      .ok ⟨.returns (-1), disk, some .null_file⟩ := by
  rw [writeContents_served known answers fits, found]
  unfold writeReplica
  rw [unopened]
  cases writtenPath path buf <;> simp

theorem writtenPath_of_text (found : writtenText path buf = some text) :
    ∃ p, writtenPath path buf = some p := by
  unfold writtenText at found
  unfold writtenPath
  cases first : nextToken [comma] (path ++ comma :: buf) with
  | mk p rest =>
    rw [first] at found
    cases p with
    | some p => exact ⟨p, rfl⟩
    | none =>
      -- nothing in front of the saved pointer, and nothing behind it
      unfold nextToken at first found
      cases token : strtok [comma] (path ++ comma :: buf) with
      | some t =>
        rw [token] at first
        cases first
      | none =>
        rw [token] at first
        cases first
        dsimp only at found
        rw [token] at found
        cases found

end Writing

/-! ## The whole course -/

/-- Both data nodes are found, and find the name node; the messages of the first two steps fit. -/
structure Reached (net : Net) (host path primdn repdn : List Byte) : Prop where
  replica : net.known repdn = true
  primary : net.known primdn = true
  answers : net.known host = true
  asked : path.length + 19 < 1000

/-- The courses that `create_replica` can take, and their results. -/
inductive Course (net : Net) (kernel : Kernel) (host : List Byte) (disk : Disk)
    (path primdn repdn : List Byte) : Except Fault Replication → Prop where
  | noReplica (unknown : net.known repdn = false) :
      Course net kernel host disk path primdn repdn (.ok ⟨.returns (-1), disk, none⟩)
  | longPath (replica : net.known repdn = true) (long : 1000 ≤ path.length + 19) :
      Course net kernel host disk path primdn repdn (.error .overflow)
  | silent (replica : net.known repdn = true) (asked : path.length + 19 < 1000)
      (silent : net.known host = false) :
      Course net kernel host disk path primdn repdn (.ok ⟨.waits, disk, none⟩)
  | noPrimary (asked : path.length + 19 < 1000) (answers : net.known host = true)
      (unknown : net.known primdn = false) :
      Course net kernel host disk path primdn repdn (.ok ⟨.returns (-1), disk, none⟩)
  | failed (reached : Reached net host path primdn repdn) (e : Failure)
      (failed : fetched kernel (disk primdn) (nextToken [comma] path).1 = .failed e) :
      Course net kernel host disk path primdn repdn (.ok ⟨.returns (-e.1), disk, none⟩)
  | overrun (reached : Reached net host path primdn repdn)
      (overrun : fetched kernel (disk primdn) (nextToken [comma] path).1 = .overrun) :
      Course net kernel host disk path primdn repdn (.ok ⟨.waits, disk, some .overrun⟩)
  | longText (reached : Reached net host path primdn repdn) (buf : List Byte)
      (text : fetched kernel (disk primdn) (nextToken [comma] path).1 = .text buf)
      (long : 1000 ≤ path.length + buf.length + 9) :
      Course net kernel host disk path primdn repdn (.error .overflow)
  | noText (reached : Reached net host path primdn repdn) (buf : List Byte)
      (text : fetched kernel (disk primdn) (nextToken [comma] path).1 = .text buf)
      (fits : path.length + buf.length + 9 < 1000) (missing : writtenText path buf = none) :
      Course net kernel host disk path primdn repdn
        (.ok ⟨.returns (-1), emptied kernel disk repdn (writtenPath path buf), some .null_text⟩)
  | noFile (reached : Reached net host path primdn repdn) (buf t : List Byte)
      (text : fetched kernel (disk primdn) (nextToken [comma] path).1 = .text buf)
      (fits : path.length + buf.length + 9 < 1000) (found : writtenText path buf = some t)
      (unopened : kernel.fopen = none) :
      Course net kernel host disk path primdn repdn
        (.ok ⟨.returns (-1), disk, some .null_file⟩)
  | noStream (reached : Reached net host path primdn repdn) (buf t : List Byte) (fd : FileStream)
      (text : fetched kernel (disk primdn) (nextToken [comma] path).1 = .text buf)
      (fits : path.length + buf.length + 9 < 1000) (found : writtenText path buf = some t)
      (opened : kernel.fopen = some fd) (part : fd.inInt = false) :
      Course net kernel host disk path primdn repdn
        (.ok ⟨.returns (-1), emptied kernel disk repdn (writtenPath path buf), some .wild_file⟩)
  | written (reached : Reached net host path primdn repdn) (buf p t : List Byte) (fd : FileStream)
      (text : fetched kernel (disk primdn) (nextToken [comma] path).1 = .text buf)
      (fits : path.length + buf.length + 9 < 1000) (named : writtenPath path buf = some p)
      (found : writtenText path buf = some t) (opened : kernel.fopen = some fd)
      (whole : fd.inInt = true) :
      Course net kernel host disk path primdn repdn
        (.ok ⟨.ends, disk.set repdn p (t.take fd.takes), none⟩)

/-- What happens once the contents are there. -/
theorem writeContents_course {net : Net} {kernel : Kernel} {host path primdn repdn buf : List Byte}
    {disk : Disk} (reached : Reached net host path primdn repdn)
    (text : fetched kernel (disk primdn) (nextToken [comma] path).1 = .text buf) :
    Course net kernel host disk path primdn repdn
      (writeContents net kernel host disk path repdn buf) := by
  by_cases fits : path.length + buf.length + 9 < 1000
  · cases found : writtenText path buf with
    | none =>
      rw [writeContents_null_text reached.replica reached.answers fits found]
      exact .noText reached buf text fits found
    | some t =>
      cases opened : kernel.fopen with
      | none =>
        rw [writeContents_null_file reached.replica reached.answers fits found opened]
        exact .noFile reached buf t text fits found opened
      | some fd =>
        obtain ⟨p, named⟩ := writtenPath_of_text found
        cases kept : fd.inInt with
        | true =>
          rw [writeContents_written reached.replica reached.answers fits named found opened kept]
          exact .written reached buf p t fd text fits named found opened kept
        | false =>
          rw [writeContents_wild_file reached.replica reached.answers fits named found opened kept]
          exact .noStream reached buf t fd text fits found opened kept
  · rw [writeContents_long reached.replica (by omega)]
    exact .longText reached buf text (by omega)

/-- `create_replica` takes one of the courses. -/
theorem create_replica_course (net : Net) (kernel : Kernel) (host : List Byte) (disk : Disk)
    (path primdn repdn : List Byte) : Course net kernel host disk path primdn repdn
      (create_replica net kernel host disk path primdn repdn) := by
  cases replica : net.known repdn with
  | false =>
    rw [create_replica_unknown replica]
    exact .noReplica replica
  | true =>
    by_cases asked : path.length + 19 < 1000
    · cases answers : net.known host with
      | false =>
        rw [create_replica_silent replica asked answers]
        exact .silent replica asked answers
      | true =>
        rw [create_replica_asked replica asked answers]
        cases primary : net.known primdn with
        | false =>
          rw [getContents_unknown primary]
          exact .noPrimary asked answers primary
        | true =>
          have reached : Reached net host path primdn repdn := ⟨replica, primary, answers, asked⟩
          cases answer : fetched kernel (disk primdn) (nextToken [comma] path).1 with
          | failed e =>
            rw [getContents_failed primary asked answers answer]
            exact .failed reached e answer
          | overrun =>
            rw [getContents_overrun primary asked answers answer]
            exact .overrun reached answer
          | text buf =>
            rw [getContents_text primary asked answers answer]
            exact writeContents_course reached answer
    · rw [create_replica_long replica (by omega)]
      exact .longPath replica (by omega)

end DistFs.Wire
