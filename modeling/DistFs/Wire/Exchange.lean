import DistFs.Wire.Disk

/-!
# Writes and reads on their way

The texts of a `write` and a `read`, the fields that a data node finds in them, the answers of the
data node and what the client makes of them.
-/

namespace DistFs.Wire

open CText

/-! ## Texts -/

section Texts

variable {path : CString} {size offset : ℤ}

/-- The text of a `read` request behind the command. -/
def readText (path : CString) (size offset : ℤ) : List Byte :=
  my_path path ++ comma :: (snprintf 10 size ++ comma :: snprintf 10 offset)

/-- The text of a `write` request behind the command. -/
def writeText (path : CString) (size offset : ℤ) (payload : List Byte) : List Byte :=
  readText path size offset ++ comma :: payload

/-- The fields that a data node reads behind the path of a `read` or a `write`. -/
structure Fields where
  size : ℤ
  offset : ℤ
  payload : Option (List Byte)

/-- The fields in the text of a request behind the command. -/
def fields (text : List Byte) : Fields :=
  let first := nextToken [comma] text
  let second := nextToken [comma] first.2
  let third := nextToken [comma] second.2
  ⟨atoiOrZero second.1, atoiOrZero third.1, (strtok [comma] third.2).map Token.view⟩

theorem server_write (net : Net) (h text : List Byte) :
    receivecommand_server net h (Command.text .write ++ comma :: text) =
      .ok (.respond h (.write (nextToken [comma] text).1 (fields text).size (fields text).offset
        (fields text).payload)) := by
  simp only [receivecommand_server, nextToken_command, Command.ofText_text, fields]

theorem server_read (net : Net) (h text : List Byte) :
    receivecommand_server net h (Command.text .read ++ comma :: text) =
      .ok (.respond h (.read (nextToken [comma] text).1 (fields text).size (fields text).offset)) := by
  simp only [receivecommand_server, nextToken_command, Command.ofText_text, fields]

theorem sentPath_plain (plain : comma ∉ path.bytes) : sentPath path = my_path path := by
  rw [sentPath, List.takeWhile_eq_self_iff]
  intro c hc
  have token := (isToken_my_path plain).plain c hc
  rw [List.mem_singleton] at token
  simpa using token

/-- A path ends at its first comma. -/
theorem my_path_comma (special : comma ∈ path.bytes) : IsToken [comma] (sentPath path) ∧
    ∃ q, NoNul q ∧ my_path path = sentPath path ++ comma :: q := by
  obtain ⟨p, c, q, split, isComma, before⟩ :=
    exists_first (· == comma) ⟨comma, special, by simp⟩
  rw [beq_iff_eq] at isComma
  subst isComma
  have noNul := path.noNul
  rw [split, noNul_append, noNul_cons] at noNul
  have front : IsToken [comma] (my_path ⟨p, noNul.1⟩) := isToken_my_path fun h => by
    simpa using before _ h
  have whole : my_path path = my_path ⟨p, noNul.1⟩ ++ comma :: q := by
    simp only [my_path, split, List.append_assoc]
  have sent : sentPath path = my_path ⟨p, noNul.1⟩ := by
    rw [sentPath, whole, List.takeWhile_append_of_pos]
    · simp
    · intro c hc
      have token := front.plain c hc
      rw [List.mem_singleton] at token
      simpa using token
  rw [sent]
  exact ⟨front, q, noNul.2.2, whole⟩

/-- What stands behind the path in the text of a `read` request has two tokens, and no token changes
when a comma and more text follow. -/
theorem nextToken_append {m : List Byte} {u : Token} (h0 : NoNul m)
    (found : strtok [comma] m = some u) (s : List Byte) :
    nextToken [comma] (m ++ comma :: s) =
      (some u.token, if u.mark = [] then s else u.rest ++ comma :: s) := by
  by_cases marked : u.mark = []
  · rw [nextToken, strtok_append_open found h0 marked, if_pos marked]
    simp [scanToken, comma]
  · rw [nextToken, strtok_append_marked found marked, if_neg marked]

theorem strtok_append_ne_none (m : List Byte) {p : List Byte} (h0 : NoNul m)
    (token : IsToken [comma] p) : strtok [comma] (m ++ comma :: p) ≠ none := by
  obtain ⟨c, hc⟩ := List.exists_mem_of_ne_nil p token.nonempty
  rw [Ne, strtok_eq_none_iff (h0.append (noNul_cons.2 ⟨by decide, token.noNul⟩))]
  exact fun commas => token.plain c hc (commas c (by simp [hc]))

/-- The text of a `read` request has at least two tokens behind the path. -/
theorem readText_split (path : CString) (size offset : ℤ) : ∃ m u, NoNul m ∧
    strtok [comma] m = some u ∧ readText path size offset =
      sentPath path ++ comma :: (m ++ comma :: snprintf 10 offset) := by
  have number := isToken_number size
  by_cases special : comma ∈ path.bytes
  · obtain ⟨-, q, noNul, split⟩ := my_path_comma special
    obtain ⟨u, found⟩ :=
      Option.ne_none_iff_exists'.1 (strtok_append_ne_none q noNul number)
    refine ⟨q ++ comma :: snprintf 10 size, u, ?_, found, ?_⟩
    · exact noNul.append (noNul_cons.2 ⟨by decide, number.noNul⟩)
    · simp [readText, split]
  · exact ⟨snprintf 10 size, _, number.noNul, strtok_last number, by
      rw [readText, sentPath_plain special]⟩

theorem isToken_sentPath (path : CString) : IsToken [comma] (sentPath path) := by
  by_cases special : comma ∈ path.bytes
  · exact (my_path_comma special).1
  · rw [sentPath_plain special]
    exact isToken_my_path special

theorem nextToken_readText (path : CString) (size offset : ℤ) :
    (nextToken [comma] (readText path size offset)).1 = some (sentPath path) := by
  obtain ⟨m, u, -, -, split⟩ := readText_split path size offset
  rw [split, nextToken_comma (isToken_sentPath path)]

theorem nextToken_writeText (path : CString) (size offset : ℤ) (payload : List Byte) :
    (nextToken [comma] (writeText path size offset payload)).1 = some (sentPath path) := by
  obtain ⟨m, u, -, -, split⟩ := readText_split path size offset
  rw [writeText, split, List.append_assoc, List.cons_append,
    nextToken_comma (isToken_sentPath path)]

/-- A data node reads the same size and offset in a `write` and in a `read` of the same range. -/
theorem fields_writeText (path : CString) (size offset : ℤ) (payload : List Byte) :
    (fields (writeText path size offset payload)).size = (fields (readText path size offset)).size ∧
    (fields (writeText path size offset payload)).offset =
      (fields (readText path size offset)).offset := by
  obtain ⟨m, u, noNul, found, split⟩ := readText_split path size offset
  have path := isToken_sentPath path
  have number := isToken_number offset
  simp only [fields, writeText, split, List.append_assoc, List.cons_append, nextToken_comma path,
    nextToken_append noNul found]
  refine ⟨trivial, ?_⟩
  by_cases marked : u.mark = []
  · simp only [if_pos marked, nextToken_comma number, nextToken_last number]
  · have rest : NoNul u.rest := fun h => noNul ((strtok_rest_suffix found).subset h)
    obtain ⟨v, third⟩ := Option.ne_none_iff_exists'.1 (strtok_append_ne_none u.rest rest number)
    have separator : (comma : Byte) ≠ 0 := by decide
    have longer := rest.append (noNul_cons.2 ⟨separator, number.noNul⟩)
    simp only [if_neg marked]
    rw [← List.cons_append, ← List.append_assoc, nextToken_append longer third, nextToken, third]

/-- Without a comma in the path a data node reads the fields as they were written. -/
theorem fields_plain (plain : comma ∉ path.bytes) (shortSize : (decimal size).length ≤ 9)
    (shortOffset : (decimal offset).length ≤ 9) (payload : List Byte) :
    fields (writeText path size offset payload) =
      ⟨size, offset, (strtok [comma] payload).map Token.view⟩ := by
  simp only [fields, writeText, readText, List.append_assoc, List.cons_append,
    nextToken_comma (isToken_my_path plain), nextToken_number_comma, atoiOrZero,
    atoi_snprintf_of_short shortSize, atoi_snprintf_of_short shortOffset]

end Texts

/-! ## The exchanges -/

section Exchange

variable {net : Net} {namenode dn : List Byte} {t : Tables} {host : Host} {path : CString}
  {buf file reply : List Byte} {size offset : ℤ} {outcome : Outcome} {errno : Errno} {disk : Disk}
  {s : Buffers}

theorem exchange_write (fits : (framed .write host (Command.text .write ++ comma ::
      writeText path size offset (cstr buf))).length < 1000)
    (route : Route net namenode t dn path) {f : Fields}
    (read : fields (writeText path size offset (cstr buf)) = f) :
    exchange net namenode t host (.write path buf size offset) =
      .ok (some ⟨some dn, host.name, .write (some (sentPath path)) f.size f.offset f.payload⟩) := by
  obtain ⟨reached, ⟨t', located⟩, known⟩ := route
  have long := framed_length .write host (Command.text .write ++ comma ::
    writeText path size offset (cstr buf))
  rw [List.length_append, List.length_cons] at long
  have text : writeText path size offset (cstr buf) = my_path path ++
      comma :: (snprintf 10 size ++ comma :: (snprintf 10 offset ++ comma :: cstr buf)) := by
    simp [writeText, readText]
  have built : Op.request (.write path buf size offset) =
      .ok ⟨.write, writeText path size offset (cstr buf)⟩ :=
    request_eq_ok.2 ⟨by rw [← text]; omega, by rw [text]⟩
  have sent : sendcommand net namenode (writeText path size offset (cstr buf)) .write =
      .ok (some (Command.text .write ++ comma :: writeText path size offset (cstr buf))) :=
    sendcommand_ok reached (by rw [List.length_append, List.length_cons]; omega)
  have calls := serve_located (message_noNul built) (nextToken_command _ _) rfl
    (nextToken_writeText path size offset (cstr buf)) fits located known
  rw [server_write, nextToken_writeText, read, served] at calls
  simp only [exchange, built, bind, Except.bind, sent, calls]
  rfl

theorem exchange_read (host : Host) (fits : (readText path size offset).length < 100)
    (route : Route net namenode t dn path) {f : Fields}
    (read : fields (readText path size offset) = f) :
    exchange net namenode t host (.read path size offset) =
      .ok (some ⟨some dn, host.name, .read (some (sentPath path)) f.size f.offset⟩) := by
  obtain ⟨reached, ⟨t', located⟩, known⟩ := route
  have notWrite : Op.command (.read path size offset) ≠ .write := by simp [Op.command]
  have built : Op.request (.read path size offset) = .ok ⟨.read, readText path size offset⟩ :=
    request_eq_ok.2 ⟨fits, rfl⟩
  obtain ⟨r, built', sent⟩ := (message_iff built notWrite reached).2 rfl
  obtain rfl := Except.ok.inj (built.symm.trans built')
  have calls := serve_located (message_noNul built) (nextToken_command _ _) rfl
    (nextToken_readText path size offset) (framed_fits host built notWrite) located known
  rw [server_read, nextToken_readText, read, served] at calls
  simp only [exchange, built, bind, Except.bind, sent, calls]
  rfl

/-- A `write` whose datagrams arrive: the data node answers and the client decodes the reply. -/
theorem writeFile_eq (outcome : Outcome) (errno : Errno) (s : Buffers) {f : Fields}
    (called : exchange net namenode t host (.write path buf size offset) =
      .ok (some ⟨some dn, host.name, .write (some (sentPath path)) f.size f.offset f.payload⟩))
    (held : disk dn (sentPath path) = some file) :
    writeFile net namenode t host path buf size offset outcome errno disk s =
      (receive .write (writeAnswer outcome errno file f.size f.offset f.payload).1 [] s).map
        fun r => (r.value,
          disk.set dn (sentPath path) (writeAnswer outcome errno file f.size f.offset f.payload).2,
          Function.update s .write r.left) := by
  simp only [writeFile, called, bind, Except.bind, held]
  generalize receive _ _ _ _ = received
  cases received <;> rfl

theorem writeFile_missing {f : Fields}
    (called : exchange net namenode t host (.write path buf size offset) =
      .ok (some ⟨some dn, host.name, .write (some (sentPath path)) f.size f.offset f.payload⟩))
    (missing : disk dn (sentPath path) = none) :
    writeFile net namenode t host path buf size offset outcome errno disk s =
      (receive .write (sendresponse_write none ENOENT) [] s).map fun r =>
        (r.value, disk, Function.update s .write r.left) := by
  simp only [writeFile, called, bind, Except.bind, missing]
  generalize receive _ _ _ _ = received
  cases received <;> rfl

/-- A `read` whose datagrams arrive. -/
theorem readFile_eq (buf : List Byte) (s : Buffers) {f : Fields}
    (called : exchange net namenode t host (.read path size offset) =
      .ok (some ⟨some dn, host.name, .read (some (sentPath path)) f.size f.offset⟩))
    (held : disk dn (sentPath path) = some file)
    (answer : readAnswer errno file f.size f.offset = .ok reply) :
    readFile net namenode t host path size offset errno disk buf s =
      (receive .read reply buf s).map fun r =>
        (r.value, r.buf, Function.update s .read r.left) := by
  simp only [readFile, called, bind, Except.bind, held, answer]
  cases receive .read reply buf s <;> rfl

end Exchange

/-! ## Left-overs -/

/-- The reply buffers that the data nodes' replies to earlier operations may have left.  Their
results have at most six characters and their error numbers at most four. -/
inductive LeftByReplies : Buffers → Prop where
  | fresh : LeftByReplies fun _ => []
  | write {s : Buffers} {r : Result} (res errno : ℤ) (left : LeftByReplies s)
      (range : -4096 < res ∧ res < 10 ^ 6) (error : 0 ≤ errno ∧ errno < 4096)
      (returned : receive .write (sendresponse_access res errno) [] s = .ok r) :
      LeftByReplies (Function.update s .write r.left)
  | read {s : Buffers} {r : Result} (got : Option (ℤ × List Byte)) (errno : ℤ)
      (left : LeftByReplies s)
      (returned : receive .read (sendresponse_read got errno) [] s = .ok r) :
      LeftByReplies (Function.update s .read r.left)
  | other {s : Buffers} {b : Retbuf} {m : List Byte} (left : LeftByReplies s)
      (notWrite : b ≠ .write) (notRead : b ≠ .read) : LeftByReplies (Function.update s b m)

/-- An error number has at most four characters. -/
theorem errno_length {e : ℤ} (error : 0 ≤ e ∧ e < 4096) : (decimal e).length ≤ 4 :=
  decimal_length (by norm_num; omega) (by norm_num; omega) (by norm_num : 0 < 3)

theorem result_length {res : ℤ} (range : -4096 < res ∧ res < 10 ^ 6) : (decimal res).length ≤ 6 :=
  decimal_length (by norm_num; omega) (by norm_num; omega) (by norm_num : 0 < 5)

theorem LeftByReplies.write_length {s : Buffers} (left : LeftByReplies s) :
    (s .write).length ≤ 12 := by
  induction left with
  | fresh => simp
  | @write s r res errno _ range error returned ih =>
    have fits := sendresponse_access_length .write res errno
    have first := result_length range
    have second := errno_length error
    rw [receive_fits (by omega)] at returned
    have length := decode_length returned
    rw [overlay_length, sendresponse_access, snprintf_of_short (by omega),
      snprintf_of_short (by omega), List.length_append, List.length_cons] at length
    rw [Function.update_self, length]
    simp only [Retbuf.cleared, Bool.false_eq_true, if_false]
    omega
  | read got errno _ returned ih => rwa [Function.update_of_ne (by decide)]
  | other _ notWrite _ ih => rwa [Function.update_of_ne notWrite.symm]

section Write

variable {s : Buffers} {x : Number} {e : ℤ}

theorem scanToken_token_length (m : List Byte) : (scanToken [comma] m).token.length ≤ m.length := by
  have := @scanToken_length [comma] m
  simp only [Token.front, List.length_append] at this
  omega

/-- The error number that the client reads is positive when the printed one is, although digits of
an earlier reply may follow it. -/
theorem errno_pos (left : LeftByReplies s) (error : 0 < e ∧ e < 4096) :
    0 < atoi (scanToken [comma] (snprintf 10 e ++
      (s .write).drop (sendresponse_access (-1) e).length)).token ∧
    atoi (scanToken [comma] (snprintf 10 e ++
      (s .write).drop (sendresponse_access (-1) e).length)).token < 10 ^ 9 := by
  have size := errno_length ⟨error.1.le, error.2⟩
  have number : snprintf 10 e = decimal e := snprintf_of_short (by omega)
  have token := isToken_number e
  set tail := (s .write).drop (sendresponse_access (-1) e).length with tailOf
  have unmarked : (scanToken [comma] (snprintf 10 e)).mark = [] := by
    rw [scanToken_last token.noNul token.plain]
  have together : (decimal e).length + tail.length ≤ 9 := by
    have one : (snprintf 10 (-1)).length = 2 := by decide
    have left := left.write_length
    rw [tailOf, List.length_drop, sendresponse_access, List.length_append, List.length_cons, one,
      number]
    omega
  rw [scanToken_append_open token.noNul tail unmarked, scanToken_last token.noNul token.plain,
    number]
  refine atoi_pos error.1 ?_
  have := scanToken_token_length tail
  rw [List.length_append]
  omega

/-- `xmp_write` returns the result in the reply, and a negative number if that is -1. -/
theorem receive_write (x : Number) (left : LeftByReplies s) (error : 0 ≤ e ∧ e < 4096) :
    ∃ r, receive .write (sendresponse_access x e) [] s = .ok r ∧
      (x.1 ≠ -1 → r.value = x.1) ∧ (x.1 = -1 → 0 < e → r.value < 0) := by
  have fits : (sendresponse_access x.1 e).length < Retbuf.size .write := by
    have := sendresponse_access_length .write x.1 e
    omega
  obtain ⟨front, rest, read⟩ :=
    status_open x e ((s .write).drop (sendresponse_access x.1 e).length)
  rw [← List.cons_append, ← List.append_assoc, ← sendresponse_access, ← overlay] at read
  have returned := receive_fits (s := s) fits []
  simp only [Retbuf.cleared, Bool.false_eq_true, if_false, decode, writeResult, read, Except.map]
    at returned
  refine ⟨_, returned, fun succeeded => if_neg succeeded, fun failed positive => ?_⟩
  have value := errno_pos left ⟨positive, error.2⟩
  simp only [if_pos failed]
  rw [failed, toInt_of_range (by omega) (by omega)]
  omega

end Write

/-! ## Answers -/

section Answers

variable {outcome : Outcome} {errno : Errno} {file b : List Byte} {size offset : ℤ} {s : Buffers}
  {value : ℤ}

/-- The reply to a `pwrite` that has failed. -/
theorem failure_reply (e : Failure) : ∃ x : Number,
    sendresponse_write (some (-1)) e = sendresponse_access x e ∧ x.1 < 0 ∧
      (x.1 = -1 → 0 < e.1) := by
  have range := e.2
  have printed : written (-1) e.1 = -e.1 := if_pos rfl
  have short : (decimal (-e.1)).length ≤ 6 := result_length ⟨by omega, by omega⟩
  refine ⟨⟨-e.1, by omega⟩, ?_, ?_, fun _ => range.1⟩
  · rw [sendresponse_write, printed]
    rfl
  · show -e.1 < 0
    omega

/-- The reply to a `pwrite` of `k` bytes. -/
theorem count_reply {k : ℕ} (range : k < 10 ^ 6) (errno : ℤ) : ∃ x : Number, x.1 = k ∧
    sendresponse_write (some (k : ℤ)) errno = sendresponse_access x errno := by
  have short : (decimal (k : ℤ)).length ≤ 6 := result_length ⟨by omega, by omega⟩
  have printed : written (k : ℤ) errno = k := if_neg (by omega)
  refine ⟨⟨k, by omega⟩, rfl, ?_⟩
  rw [sendresponse_write, printed]
  rfl

/-- The reply to a write: an error, or the number of bytes that are now in the file. -/
theorem writeAnswer_reply (outcome : Outcome) (errno : Errno) (file : List Byte)
    (buf : Option (List Byte)) (small : size < 10 ^ 6 ∨ offset < 0 ∨ buf = none) :
    ∃ (x : Number) (e : ℤ), (0 ≤ e ∧ e < 4096) ∧
      (writeAnswer outcome errno file size offset buf).1 = sendresponse_access x e ∧
      ((x.1 < 0 ∧ (x.1 = -1 → 0 < e)) ∨
        ∃ n : ℕ, 0 ≤ size ∧ 0 ≤ offset ∧ x.1 = (min n size.toNat : ℕ) ∧
          (writeAnswer outcome errno file size offset buf).2 =
            overwrite file offset.toNat (bytesAt (buf.getD []) (min n size.toNat)) ∧
          (buf = none → size = 0)) := by
  cases outcome with
  | closed e =>
    refine ⟨⟨-1, by decide⟩, e.1, ⟨e.2.1.le, e.2.2⟩, ?_, .inl ⟨by simp, fun _ => e.2.1⟩⟩
    rw [writeAnswer, sendresponse_write, str_minus_one]
    rfl
  | fails e =>
    obtain ⟨x, text, negative, positive⟩ := failure_reply e
    exact ⟨x, e.1, ⟨e.2.1.le, e.2.2⟩, text, .inl ⟨negative, positive⟩⟩
  | takes n =>
    by_cases outside : offset < 0 ∨ size < 0
    · have error := (refusal offset).2
      obtain ⟨x, text, negative, positive⟩ := failure_reply (refusal offset)
      simp only [writeAnswer, if_pos outside]
      exact ⟨x, _, ⟨error.1.le, error.2⟩, text, .inl ⟨negative, positive⟩⟩
    · push Not at outside
      simp only [writeAnswer, if_neg (not_or.2 ⟨not_lt.2 outside.1, not_lt.2 outside.2⟩)]
      cases buf with
      | none =>
        by_cases empty : size = 0
        · subst empty
          obtain ⟨x, count, text⟩ := count_reply (k := 0) (by norm_num) errno
          refine ⟨x, errno, errno.2, text,
            .inr ⟨n, le_rfl, outside.1, by simpa using count, ?_, fun _ => rfl⟩⟩
          simp [overwrite, bytesAt]
        · obtain ⟨x, text, negative, positive⟩ := failure_reply EFAULT
          simp only [if_neg empty]
          exact ⟨x, EFAULT, ⟨EFAULT.2.1.le, EFAULT.2.2⟩, text, .inl ⟨negative, positive⟩⟩
      | some m =>
        have small : size < 10 ^ 6 := by
          rcases small with small | small | small
          · exact small
          · omega
          · cases small
        obtain ⟨x, count, text⟩ := count_reply (k := min n size.toNat) (by omega) errno
        simp only [bytesAt_length]
        exact ⟨x, errno, errno.2, text,
          .inr ⟨n, outside.2, outside.1, count, rfl, fun h => by cases h⟩⟩

/-- A result that is a length comes from a kernel that took as many bytes, which are now in the
file. -/
theorem writeAnswer_bytes {buf : Option (List Byte)} {r : Result} (left : LeftByReplies s)
    (small : size < 10 ^ 6 ∨ offset < 0 ∨ buf = none)
    (returned : receive .write (writeAnswer outcome errno file size offset buf).1 [] s = .ok r)
    (whole : r.value = b.length) :
    (b.length : ℤ) ≤ size ∧ 0 ≤ offset ∧ (buf = none → size = 0) ∧
      (writeAnswer outcome errno file size offset buf).2 =
        overwrite file offset.toNat (bytesAt (buf.getD []) b.length) := by
  obtain ⟨x, e, error, text, result⟩ := writeAnswer_reply outcome errno file buf small
  obtain ⟨r', received, succeeded, failed⟩ := receive_write x left error
  rw [text, received] at returned
  cases returned
  rcases result with ⟨negative, positive⟩ | ⟨n, inRange, start, count, written, null⟩
  · by_cases minusOne : x.1 = -1
    · have := failed minusOne (positive minusOne)
      omega
    · rw [succeeded minusOne] at whole
      omega
  · rw [succeeded (by omega), count] at whole
    have all : min n size.toNat = b.length := by exact_mod_cast whole
    rw [all] at written
    exact ⟨by omega, start, null, written⟩

/-- A kernel that takes as many bytes as the client has lets the client report them. -/
theorem receive_takes (errno : Errno) (file : List Byte) (offset : ℤ) (m : List Byte)
    (short : b.length < 1000) (size_le : (b.length : ℤ) ≤ size) (start : 0 ≤ offset)
    (left : LeftByReplies s) :
    ∃ r, receive .write (writeAnswer (.takes b.length) errno file size offset (some m)).1 [] s =
      .ok r ∧ r.value = b.length := by
  have inRange : ¬ (offset < 0 ∨ size < 0) := by omega
  have all : min b.length size.toNat = b.length := by omega
  obtain ⟨x, count, text⟩ := count_reply (k := b.length) (by omega) errno
  have answer : (writeAnswer (.takes b.length) errno file size offset (some m)).1 =
      sendresponse_access x errno := by
    simp only [writeAnswer, if_neg inRange, all, bytesAt_length, text]
  obtain ⟨r, received, succeeded, -⟩ := receive_write x left errno.2
  rw [answer]
  exact ⟨r, received, (succeeded (by omega)).trans count⟩

/-- A missing file makes the client return a negative number. -/
theorem receive_missing {r : Result} (left : LeftByReplies s)
    (returned : receive .write (sendresponse_write none ENOENT) [] s = .ok r) : r.value < 0 := by
  have text : sendresponse_write none ENOENT = sendresponse_access (-1) ENOENT := by
    rw [sendresponse_write, str_minus_one]
    rfl
  obtain ⟨r', received, -, failed⟩ :=
    receive_write ⟨-1, by decide⟩ left ⟨ENOENT.2.1.le, ENOENT.2.2⟩
  rw [text, received] at returned
  cases returned
  exact failed rfl ENOENT.2.1

end Answers

end DistFs.Wire
