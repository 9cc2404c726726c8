import DistFs.Wire.ReadWrite

/-!
# Positions on the wire

The size and the offset of a `write` or a `read`, from the caller to `pwrite` and `pread`.  Each is
converted to an `int` and cut to nine characters.  A number that is negative after the conversion is
refused by the kernel; another one of more than nine digits is cut and used.
-/

namespace DistFs.Wire

open CText

/-- The size and the offset that a data node hands to `pwrite` or `pread`. -/
def Call.range : Call → Option (ℤ × ℤ)
  | .read _ size offset => some (size, offset)
  | .write _ size offset _ => some (size, offset)
  | _ => none

/-- Whatever the kernel and the disks do: a `write` that reaches an existing file returns an error,
or hands the given size and offset to `pwrite`. -/
def WriteExact (net : Net) (namenode : List Byte) (t : Tables) (host : Host) (path : CString)
    (buf : List Byte) (size offset : ℤ) : Prop :=
  ∀ served node, exchange net namenode t host (.write path buf size offset) = .ok (some served) →
    served.node = some node → ∀ (outcome : Outcome) (errno : Errno) (disk : Disk) (s : Buffers)
      (file : List Byte) (value : ℤ) (disk' : Disk) (s' : Buffers), LeftByReplies s →
      disk node (sentPath path) = some file →
      writeFile net namenode t host path buf size offset outcome errno disk s =
        .ok (value, disk', s') →
      value < 0 ∨ served.call.range = some (size, offset)

/-- The same of a `read`. -/
def ReadExact (net : Net) (namenode : List Byte) (t : Tables) (host : Host) (path : CString)
    (size offset : ℤ) : Prop :=
  ∀ served node, exchange net namenode t host (.read path size offset) = .ok (some served) →
    served.node = some node → ∀ (errno : Errno) (disk : Disk) (buf : List Byte) (s : Buffers)
      (file : List Byte) (value : ℤ) (buf' : List Byte) (s' : Buffers), LeftByReplies s →
      disk node (sentPath path) = some file →
      readFile net namenode t host path size offset errno disk buf s = .ok (value, buf', s') →
      value < 0 ∨ served.call.range = some (size, offset)

/-- Both numbers have at most nine digits, or one of them is negative as an `int`. -/
def Carried (size offset : ℤ) : Prop :=
  (size < 10 ^ 9 ∧ offset < 10 ^ 9) ∨ 2 ^ 31 ≤ size % 2 ^ 32 ∨ 2 ^ 31 ≤ offset % 2 ^ 32

theorem toInt_neg_iff (x : ℤ) : toInt x < 0 ↔ 2 ^ 31 ≤ x % 2 ^ 32 := by
  have lower := toInt_range x
  have same := toInt_emod x
  omega

theorem toInt_eq_zero_iff (x : ℤ) : toInt x = 0 ↔ x % 2 ^ 32 = 0 := by
  have lower := toInt_range x
  have same := toInt_emod x
  omega

section Positions

variable {net : Net} {namenode dn : List Byte} {t : Tables} {host : Host} {path : CString}
  {buf : List Byte} {size offset : ℤ}

/-- What the numbers have to be, once printed, cut and read back. -/
theorem carried_iff (size_nonneg : 0 ≤ size) (offset_nonneg : 0 ≤ offset) :
    Carried size offset ↔ atoi (snprintf 10 size) < 0 ∨ atoi (snprintf 10 offset) < 0 ∨
      (atoi (snprintf 10 size) = size ∧ atoi (snprintf 10 offset) = offset) := by
  unfold Carried
  rw [(atoi_snprintf_sign size).1, (atoi_snprintf_sign offset).1, toInt_neg_iff, toInt_neg_iff,
    atoi_snprintf_iff, atoi_snprintf_iff]
  omega

/-- The fields that a data node reads, for a path without a comma. -/
theorem fields_cut (plain : comma ∉ path.bytes) (payload : List Byte) :
    fields (writeText path size offset payload) =
      ⟨atoi (snprintf 10 size), atoi (snprintf 10 offset),
        (strtok [comma] payload).map Token.view⟩ := by
  simp only [fields, writeText, readText, List.append_assoc, List.cons_append,
    nextToken_comma (isToken_my_path plain), nextToken_number_comma, atoiOrZero]

/-- A string without commas is no pointer to a payload only if it is empty. -/
theorem payload_none_iff (plain : comma ∉ cstr buf) :
    (strtok [comma] (cstr buf)).map Token.view = none ↔ cstr buf = [] := by
  rw [Option.map_eq_none_iff, strtok_eq_none_iff (cstr_noNul buf)]
  constructor
  · intro commas
    rw [List.eq_nil_iff_forall_not_mem]
    intro b hb
    exact plain (List.mem_singleton.1 (commas b hb) ▸ hb)
  · intro empty
    rw [empty]
    exact fun b hb => absurd hb List.not_mem_nil

/-- A kernel that takes no bytes lets the client report none, if it gets as far as that. -/
theorem receive_none {w : Option (List Byte)} (inRange : 0 ≤ size ∧ 0 ≤ offset)
    (usable : w = none → size = 0) (errno : Errno) (file : List Byte) :
    ∃ r, receive .write (writeAnswer (.takes 0) errno file size offset w).1 [] (fun _ => []) =
      .ok r ∧ r.value = 0 := by
  have outside : ¬ (offset < 0 ∨ size < 0) := by omega
  have answer : (writeAnswer (.takes 0) errno file size offset w).1 =
      sendresponse_write (some 0) errno := by
    unfold writeAnswer
    dsimp only
    rw [if_neg outside]
    cases w with
    | none => rw [if_pos (usable rfl)]
    | some m =>
      simp only [Nat.zero_min, bytesAt_length]
      rfl
  obtain ⟨x, count, text⟩ := count_reply (k := 0) (by norm_num) errno
  obtain ⟨r, received, succeeded, -⟩ := receive_write x .fresh errno.2
  rw [answer]
  refine ⟨r, ?_, (succeeded (by omega)).trans count⟩
  rw [← received, ← text]
  rfl

/-- The reply to a `pwrite` with a negative number, or without the data that its size asks for. -/
theorem receive_write_refused {w : Option (List Byte)} {outcome : Outcome} {errno : Errno}
    {file : List Byte} {s : Buffers} {r : Result}
    (refused : size < 0 ∨ offset < 0 ∨ (w = none ∧ size ≠ 0)) (left : LeftByReplies s)
    (received : receive .write (writeAnswer outcome errno file size offset w).1 [] s = .ok r) :
    r.value < 0 := by
  have small : size < 10 ^ 6 ∨ offset < 0 ∨ w = none := by
    rcases refused with negative | negative | ⟨null, -⟩
    · exact .inl (by omega)
    · exact .inr (.inl negative)
    · exact .inr (.inr null)
  obtain ⟨x, e, error, text, result⟩ := writeAnswer_reply outcome errno file w small
  obtain ⟨r', received', succeeded, failed⟩ := receive_write x left error
  rw [text, received'] at received
  obtain rfl := Except.ok.inj received
  rcases result with ⟨negative, positive⟩ | ⟨n, size_used, offset_used, -, -, null⟩
  · by_cases minusOne : x.1 = -1
    · exact failed minusOne (positive minusOne)
    · rw [succeeded minusOne]
      exact negative
  · rcases refused with negative | negative | ⟨none_, nonzero⟩
    · omega
    · omega
    · exact absurd (null none_) nonzero

/-- A `write` without commas hands its size and offset on if and only if both are carried, or there
is no payload for a size that is not a multiple of `2 ^ 32`. -/
theorem writeExact_iff (size_nonneg : 0 ≤ size) (offset_nonneg : 0 ≤ offset)
    (plain : comma ∉ path.bytes) (string : comma ∉ cstr buf)
    (fits : (framed .write host (Command.text .write ++ comma ::
      writeText path size offset (cstr buf))).length < 1000)
    (route : Route net namenode t dn path) :
    WriteExact net namenode t host path buf size offset ↔
      Carried size offset ∨ (cstr buf = [] ∧ size % 2 ^ 32 ≠ 0) := by
  have called := exchange_write fits route (fields_cut plain (cstr buf))
  rw [carried_iff size_nonneg offset_nonneg, ← payload_none_iff string, ne_eq,
    ← toInt_eq_zero_iff, ← (atoi_snprintf_sign size).2]
  generalize (strtok [comma] (cstr buf)).map Token.view = w at called ⊢
  constructor
  · intro exact_
    by_contra used
    push Not at used
    obtain ⟨⟨size_used, offset_used, other⟩, usable⟩ := used
    have errno : Errno := ⟨0, by norm_num⟩
    have held := disk_set (fun _ _ => none) dn (sentPath path) []
    obtain ⟨r, received, zero⟩ := receive_none ⟨size_used, offset_used⟩ usable errno []
    have wrote := writeFile_eq (.takes 0) errno (fun _ => []) called held
    rw [received] at wrote
    rcases exact_ _ dn called rfl _ _ _ _ _ _ _ _ .fresh held wrote with negative | same
    · omega
    · simp only [Call.range, Option.some.injEq, Prod.mk.injEq] at same
      exact other same.1 same.2
  · rintro cases_ served node sent there outcome errno disk s file value disk' s' left held wrote
    obtain rfl := Option.some.inj (Except.ok.inj (called.symm.trans sent))
    obtain rfl := Option.some.inj there
    rw [writeFile_eq outcome errno s called held] at wrote
    obtain ⟨r, received, same⟩ := map_eq_ok.1 wrote
    obtain rfl := (Prod.mk.inj same).1
    by_cases equal : atoi (snprintf 10 size) = size ∧ atoi (snprintf 10 offset) = offset
    · right
      simp only [Call.range, equal.1, equal.2]
    · left
      have refused : atoi (snprintf 10 size) < 0 ∨ atoi (snprintf 10 offset) < 0 ∨
          (w = none ∧ atoi (snprintf 10 size) ≠ 0) := by
        rcases cases_ with (negative | negative | same) | unsent
        · exact .inl negative
        · exact .inr (.inl negative)
        · exact absurd same equal
        · exact .inr (.inr unsent)
      exact receive_write_refused refused left received

/-- The reply to a `pread` that the kernel refuses. -/
theorem receive_refused (e : Failure) (buf : List Byte) (s : Buffers) :
    ∃ r, receive .read (sendresponse_read (some (-1, [])) e) buf s = .ok r ∧ r.value < 0 := by
  have range := e.2
  have short := errno_length ⟨range.1.le, range.2⟩
  have fits : (sendresponse_read (some (-1, [])) e).length < Retbuf.size .read := by
    have result := snprintf_length (-1)
    have errno := snprintf_length e.1
    have size : Retbuf.size .read = 4096 := rfl
    simp only [sendresponse_read, List.length_append, List.length_cons, cstr_nil, List.length_nil]
    omega
  obtain ⟨r, decoded, result⟩ := decode_read_result ⟨-1, by decide⟩ ⟨e.1, by omega⟩ []
    ((s .read).drop (sendresponse_read (some (-1, [])) e).length) buf
  rw [if_pos rfl] at result
  have value : r.value = toInt (-e.1) := (Prod.mk.inj result).1
  refine ⟨r, ?_, ?_⟩
  · rw [receive_fits fits]
    exact decoded
  · rw [value, toInt_of_range (by omega) (by omega)]
    omega

/-- The reply to a `pread` at the end of a file. -/
theorem receive_empty (errno : Errno) (buf : List Byte) (s : Buffers) :
    ∃ r, receive .read (sendresponse_read (some (0, [])) errno) buf s = .ok r ∧ r.value = 0 := by
  have shortErrno := errno_length errno.2
  have fits : (sendresponse_read (some (0, [])) errno).length < Retbuf.size .read := by
    have := snprintf_length 0
    have := snprintf_length errno
    simp only [sendresponse_read, cstr_nil, List.length_append, List.length_cons, Retbuf.size,
      List.length_nil]
    omega
  obtain ⟨r, decoded, result⟩ := decode_read_result ⟨0, by decide⟩ ⟨errno, by omega⟩ []
    ((s .read).drop (sendresponse_read (some (0, [])) errno).length) buf
  rw [if_neg (by decide)] at result
  refine ⟨r, ?_, (Prod.mk.inj result).1⟩
  rw [receive_fits fits]
  exact decoded

/-- A `read` hands its size and offset on if and only if both are carried. -/
theorem readExact_iff (size_nonneg : 0 ≤ size) (offset_nonneg : 0 ≤ offset)
    (plain : comma ∉ path.bytes) (fits : (readText path size offset).length < 100)
    (route : Route net namenode t dn path) :
    ReadExact net namenode t host path size offset ↔ Carried size offset := by
  have parsed := fields_writeText path size offset []
  have cut := @fields_cut path size offset plain []
  rw [cut] at parsed
  have called := exchange_read host fits route rfl
  rw [← parsed.1, ← parsed.2] at called
  have called' : exchange net namenode t host (.read path size offset) = .ok (some ⟨some dn,
      host.name, .read (some (sentPath path)) (atoi (snprintf 10 size)) (atoi (snprintf 10 offset))⟩) :=
    called
  rw [carried_iff size_nonneg offset_nonneg]
  constructor
  · intro exact_
    by_contra used
    push Not at used
    obtain ⟨size_used, offset_used, other⟩ := used
    have errno : Errno := ⟨0, by norm_num⟩
    have held := disk_set (fun _ _ => none) dn (sentPath path) []
    have answer : readAnswer errno [] (atoi (snprintf 10 size)) (atoi (snprintf 10 offset)) =
        .ok (sendresponse_read (some (0, [])) errno) := by
      rw [readAnswer, if_neg (by omega)]
      simp
    obtain ⟨r, received, zero⟩ := receive_empty errno [] fun _ => []
    have read := readFile_eq [] (fun _ => []) (f := ⟨_, _, none⟩) called' held answer
    rw [received] at read
    rcases exact_ _ dn called' rfl _ _ _ _ _ _ _ _ .fresh held read with negative | same
    · omega
    · simp only [Call.range, Option.some.injEq, Prod.mk.injEq] at same
      exact other same.1 same.2
  · rintro cases_ served node sent there errno disk buf s file value buf' s' - held read
    obtain rfl := Option.some.inj (Except.ok.inj (called'.symm.trans sent))
    obtain rfl := Option.some.inj there
    by_cases equal : atoi (snprintf 10 size) = size ∧ atoi (snprintf 10 offset) = offset
    · right
      simp only [Call.range, equal.1, equal.2]
    · left
      have refused : atoi (snprintf 10 offset) < 0 ∨ atoi (snprintf 10 size) < 0 := by
        rcases cases_ with negative | negative | same
        · exact .inr negative
        · exact .inl negative
        · exact absurd same equal
      have answer : readAnswer errno file (atoi (snprintf 10 size)) (atoi (snprintf 10 offset)) =
          .ok (sendresponse_read (some (-1, [])) (refusal (atoi (snprintf 10 offset)))) :=
        if_pos refused
      obtain ⟨r, received, negative⟩ := receive_refused _ buf s
      rw [readFile_eq buf s (f := ⟨_, _, none⟩) called' held answer, received] at read
      obtain rfl : r.value = value := (Prod.mk.inj (Except.ok.inj read)).1
      exact negative

/-- Positions survive the wire exactly as far as they are carried. -/
theorem positions_exact_iff (size_range : 0 ≤ size ∧ size < 2 ^ 64)
    (offset_range : 0 ≤ offset ∧ offset < 2 ^ 63) (plain : comma ∉ path.bytes)
    (string : comma ∉ cstr buf)
    (fits_write : (framed .write host (Command.text .write ++ comma ::
      writeText path size offset (cstr buf))).length < 1000)
    (fits_read : (readText path size offset).length < 100) (route : Route net namenode t dn path) :
    (WriteExact net namenode t host path buf size offset ↔
      Carried size offset ∨ (cstr buf = [] ∧ size % 2 ^ 32 ≠ 0)) ∧
    (ReadExact net namenode t host path size offset ↔ Carried size offset) :=
  ⟨writeExact_iff size_range.1 offset_range.1 plain string fits_write route,
    readExact_iff size_range.1 offset_range.1 plain fits_read route⟩

end Positions

theorem positions_exact_iff_start :
    WriteExact upNet (str "n") (oneFile (my_path slashF)) oneHost slashF (str "hi") 2 0 ∧
      ReadExact upNet (str "n") (oneFile (my_path slashF)) oneHost slashF 2 0 := by
  have carried : Carried 2 0 := .inl (by norm_num)
  have exact_ := @positions_exact_iff upNet (str "n") (str "d") (oneFile (my_path slashF)) oneHost
    slashF (str "hi") 2 0 (by norm_num) (by norm_num) slashF_plain (by decide)
    (by decide) (by decide) slashF_route
  exact ⟨exact_.1.2 (.inl carried), exact_.2.2 carried⟩

/-- A `write` behind the first 4 GiB of a file goes to its beginning. -/
theorem far_write_wraps :
    exchange upNet (str "n") (oneFile (my_path slashF)) oneHost (.write slashF (str "hi") 2 4294967296) =
      .ok (some ⟨some (str "d"), oneHost.name,
        .write (some (sentPath slashF)) 2 0 (some (str "hi"))⟩) ∧
    ¬ WriteExact upNet (str "n") (oneFile (my_path slashF)) oneHost slashF (str "hi") 2 4294967296 := by
  have fits : (framed .write oneHost (Command.text .write ++ comma ::
      writeText slashF 2 4294967296 (cstr (str "hi")))).length < 1000 := by decide
  constructor
  · have called := exchange_write fits slashF_route (fields_cut slashF_plain (cstr (str "hi")))
    have size : atoi (snprintf 10 2) = 2 := by decide
    have offset : atoi (snprintf 10 4294967296) = 0 := by decide
    have data : (strtok [comma] (cstr (str "hi"))).map Token.view = some (str "hi") := by
      decide
    rw [size, offset, data] at called
    exact called
  · rw [writeExact_iff (by norm_num) (by norm_num) slashF_plain (by decide) fits slashF_route]
    unfold Carried
    rintro (carried | ⟨empty, -⟩)
    · omega
    · revert empty
      decide

end DistFs.Wire
