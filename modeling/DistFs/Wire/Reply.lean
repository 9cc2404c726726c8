import DistFs.Wire.Command

/-!
# Replies

The texts that the `sendresponse_*` functions send for a result and an error number, the global
buffers of the client that receive them, and the tails of the client's operations, which take the
texts apart with `strtok`.  A buffer is the list of its bytes up to the last one ever written; it
reads as zero behind them.
-/

namespace DistFs.Wire

open CText

/-! ## The senders -/

/-- A number as `snprintf(buffer, 10, "%d", x)` prints whole. -/
abbrev Number := {x : ℤ // (decimal x).length ≤ 9}

/-- A reply text of `sendresponse_access`. -/
def sendresponse_access (res errno : ℤ) : List Byte :=
  snprintf 10 res ++ comma :: snprintf 10 errno

/-- The reply to `open`: `res` is the file descriptor, or -1. -/
def sendresponse_open (res errno : ℤ) : List Byte :=
  if res = -1 then str "-1" ++ comma :: snprintf 10 errno
  else snprintf 10 res ++ comma :: snprintf 10 errno

/-- The result that `sendresponse_write` prints after `pwrite` has returned `res`. -/
def written (res errno : ℤ) : ℤ := if res = -1 then -errno else res

/-- `res` is the result of `pwrite`, or nothing when the file cannot be opened. -/
def sendresponse_write (res : Option ℤ) (errno : ℤ) : List Byte :=
  match res with
  | none => str "-1" ++ comma :: snprintf 10 errno
  | some res => snprintf 10 (written res errno) ++ comma :: snprintf 10 errno

/-- The reply to `mknod`, with a comma behind each number. -/
def sendresponse_mknod (res errno : ℤ) : List Byte :=
  snprintf 10 res ++ comma :: (snprintf 10 errno ++ [comma])

/-- `got` is the result of `pread` with the memory of its buffer, or nothing when the file cannot be
opened. -/
def sendresponse_read (got : Option (ℤ × List Byte)) (errno : ℤ) : List Byte :=
  match got with
  | none => str "-1" ++ comma :: snprintf 10 errno
  | some (res, buf) => snprintf 10 res ++ comma :: (snprintf 10 errno ++ comma :: cstr buf)

/-- The text for a failed system call. -/
theorem str_minus_one : str "-1" = snprintf 10 (-1) := by decide

theorem sendresponse_open_eq (res errno : ℤ) :
    sendresponse_open res errno = sendresponse_access res errno := by
  rw [sendresponse_open, sendresponse_access]
  split_ifs with failed
  · rw [failed, str_minus_one]
  · rfl

/-! ## The reply buffers of the client -/

/-- The global buffers whose replies begin with a result and an error number. -/
inductive Retbuf where
  | access
  | open_
  | read
  | write
  | mknod
  | truncate
  | unlink
  | rmdir
deriving DecidableEq, Repr

namespace Retbuf

/-- The size of the buffer. -/
def size : Retbuf → ℕ
  | .read => 4096
  | _ => 100

/-- Whether `receiveresponse_client` clears the buffer before it receives. -/
def cleared : Retbuf → Bool
  | .truncate | .unlink | .rmdir => true
  | .access | .open_ | .read | .write | .mknod => false

end Retbuf

/-- Bytes written over the beginning of a buffer. -/
def overlay (bytes buf : List Byte) : List Byte := bytes ++ buf.drop bytes.length

/-- The global reply buffers of a client. -/
abbrev Buffers := Retbuf → List Byte

/-- `receiveresponse_client`: the buffer of the command after a reply has arrived.  A reply that
leaves no room for a NUL makes the client read past the end of the buffer. -/
def receiveresponse_client (b : Retbuf) (reply : List Byte) (s : Buffers) :
    Except Fault (List Byte) :=
  if reply.length < b.size then .ok (overlay reply (if b.cleared then [] else s b))
  else .error .overflow

/-- The first two fields of a reply, and the buffer in front of and behind the saved pointer. -/
structure Status where
  res : ℤ
  errno : ℤ
  front : List Byte
  rest : List Byte

/-- Two calls of `strtok` and `atoi`. -/
def status (m : List Byte) : Except Fault Status :=
  match strtok [comma] m with
  | none => .error .null
  | some t =>
    match strtok [comma] t.rest with
    | none => .error .null
    | some u => .ok ⟨atoi t.token, atoi u.token, t.front ++ u.front, u.rest⟩

/-- The result of an operation: its return value, the memory at the caller's `buf`, and what it
leaves in the reply buffer. -/
structure Result where
  value : ℤ
  buf : List Byte
  left : List Byte

/-- The tails of `xmp_access`, `xmp_open`, `xmp_mknod`, `xmp_truncate`, `xmp_unlink` and
`xmp_rmdir`. -/
def statusResult (m buf : List Byte) : Except Fault Result :=
  (status m).map fun s => ⟨if s.res = -1 then toInt (-s.errno) else 0, buf, s.front ++ s.rest⟩

/-- The tail of `xmp_write`. -/
def writeResult (m buf : List Byte) : Except Fault Result :=
  (status m).map fun s => ⟨if s.res = -1 then toInt (-s.errno) else s.res, buf, s.front ++ s.rest⟩

/-- The tail of `xmp_read`. -/
def readResult (m buf : List Byte) : Except Fault Result :=
  (status m).map fun s =>
    if s.res = -1 then ⟨toInt (-s.errno), buf, s.front ++ s.rest⟩
    else
      match strtok [comma] s.rest with
      | none => ⟨s.res, buf, s.front ++ s.rest⟩
      | some t => ⟨s.res, overlay (t.token ++ [0]) buf, s.front ++ t.front ++ t.rest⟩

/-- The tail of the operation that reads a reply buffer. -/
def decode : Retbuf → List Byte → List Byte → Except Fault Result
  | .read => readResult
  | .write => writeResult
  | .access | .open_ | .mknod | .truncate | .unlink | .rmdir => statusResult

/-- An operation of the client once its reply has arrived. -/
def receive (b : Retbuf) (reply buf : List Byte) (s : Buffers) : Except Fault Result := do
  let m ← receiveresponse_client b reply s
  decode b m buf

/-! ## Overlays -/

theorem overlay_nil (bytes : List Byte) : overlay bytes [] = bytes := by
  simp [overlay]

theorem overlay_length (bytes buf : List Byte) :
    (overlay bytes buf).length = max bytes.length buf.length := by
  rw [overlay, List.length_append, List.length_drop]
  omega

/-! ## Decoding -/

section Decode

variable {m s : List Byte} {x y : ℤ}

theorem strtok_comma {p : List Byte} (token : IsToken [comma] p) (m : List Byte) :
    strtok [comma] (p ++ comma :: m) = some ⟨[], p, [0], m⟩ :=
  strtok_delimited token (by simp) (by decide) m

theorem isToken_number (x : ℤ) : IsToken [comma] (snprintf 10 x) :=
  isToken_snprintf (by norm_num) x

theorem snprintf_length (x : ℤ) : (snprintf 10 x).length ≤ 9 := List.length_take_le 9 _

theorem snprintf_pos (x : ℤ) : 0 < (snprintf 10 x).length :=
  List.length_pos_iff.2 (isToken_number x).nonempty

/-- A printed number starts a token, whatever follows it. -/
theorem strtok_number (x : ℤ) (s : List Byte) :
    strtok [comma] (snprintf 10 x ++ s) = some (scanToken [comma] (snprintf 10 x ++ s)) :=
  (isToken_number x).strtok_append s

/-- The status of a reply whose second field is open to what follows it. -/
theorem status_open (x : Number) (y : ℤ) (s : List Byte) :
    ∃ front rest, status (snprintf 10 x ++ comma :: (snprintf 10 y ++ s)) =
      .ok ⟨x, atoi (scanToken [comma] (snprintf 10 y ++ s)).token, front, rest⟩ := by
  simp only [status, strtok_comma (isToken_number x), strtok_number, atoi_snprintf_of_short x.2]
  exact ⟨_, _, rfl⟩

/-- The status of a reply whose second field is closed. -/
theorem status_closed (x y : Number) (s : List Byte) :
    ∃ front, status (snprintf 10 x ++ comma :: (snprintf 10 y ++ comma :: s)) =
      .ok ⟨x, y, front, s⟩ := by
  simp only [status, strtok_comma (isToken_number x), strtok_comma (isToken_number y),
    atoi_snprintf_of_short x.2, atoi_snprintf_of_short y.2]
  exact ⟨_, rfl⟩

/-- The status of a reply that goes on behind its second field. -/
theorem status_fields {p q : List Byte} (first : IsToken [comma] p) (second : IsToken [comma] q)
    (s : List Byte) : status (p ++ comma :: (q ++ comma :: s)) =
      .ok ⟨atoi p, atoi q, p ++ [0] ++ (q ++ [0]), s⟩ := by
  simp only [status, strtok_comma first, strtok_comma second]
  rfl

/-- The status of a reply of two fields. -/
theorem status_pair {p q : List Byte} (first : IsToken [comma] p) (second : IsToken [comma] q) :
    status (p ++ comma :: q) = .ok ⟨atoi p, atoi q, p ++ [0] ++ q, []⟩ := by
  simp only [status, strtok_comma first, strtok_last second]
  simp [Token.front]

/-- Decoding keeps the length of the buffer. -/
theorem status_length {t : Status} (h : status m = .ok t) :
    (t.front ++ t.rest).length = m.length := by
  rw [status] at h
  split at h
  · cases h
  next u found =>
    have first := strtok_length found
    split at h
    · cases h
    next v found =>
      have second := strtok_length found
      cases h
      simp only [List.length_append] at first second ⊢
      omega

theorem decode_length {b : Retbuf} {buf : List Byte} {r : Result} (h : decode b m buf = .ok r) :
    r.left.length = m.length := by
  cases found : status m with
  | error e =>
    cases b <;> simp [decode, statusResult, writeResult, readResult, found, Except.map] at h
  | ok t =>
    have whole := status_length found
    cases b with
    | read =>
      simp only [decode, readResult, found, Except.map, Except.ok.injEq] at h
      subst h
      split
      · exact whole
      · split
        · exact whole
        next u third =>
          have last := strtok_length third
          simp only [List.length_append] at whole last ⊢
          omega
    | _ =>
      simp only [decode, statusResult, writeResult, found, Except.map, Except.ok.injEq] at h
      subst h
      exact whole

end Decode

end DistFs.Wire
