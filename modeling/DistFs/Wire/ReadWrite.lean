import DistFs.Wire.Exchange

/-!
# Reading what was written

The payload of a `write` travels as the last field of a comma-separated string and comes back as the
last field of another one.  It survives the round trip exactly when it contains neither a comma nor
a NUL; a payload of commas alone is refused by `pwrite`, because its pointer is null.  A path with a
comma is taken for a shorter one, and what follows the comma for the size.
-/

namespace DistFs.Wire

open CText

/-- The pointer to the payload that a data node gets from `strtok`. -/
def payload (b after : List Byte) : Option (List Byte) :=
  (strtok [comma] (cstr (b ++ after))).map Token.view

/-- Read after write: whenever a `write` of `b` reports all of `b` as written, the file holds `b` at
the offset and is otherwise unchanged, and a `read` of the same range gives `b` back.  `after` is
the memory behind the payload. -/
def ReadAfterWrite (net : Net) (namenode : List Byte) (t₁ t₂ : Tables) (host : Host)
    (dn : List Byte) (path : CString) (b after : List Byte) (offset : ℕ) : Prop :=
  ∀ (outcome : Outcome) (errno₁ errno₂ : Errno) (disk disk' : Disk) (file buf : List Byte)
    (s s' : Buffers) (value : ℤ), LeftByReplies s → disk dn (my_path path) = some file →
    writeFile net namenode t₁ host path (b ++ after) b.length offset outcome errno₁ disk s =
      .ok (value, disk', s') →
    value = b.length →
    disk' = disk.set dn (my_path path) (overwrite file offset b) ∧
      ∃ buf' s'', readFile net namenode t₂ host path b.length offset errno₂ disk' buf s' =
        .ok ((b.length : ℤ), buf', s'') ∧ bytesAt buf' b.length = b

/-- The condition for a path without a comma: the payload has neither a comma nor a NUL, or the
string at its address consists of commas only. -/
def Unbroken (b after : List Byte) : Prop :=
  (comma ∉ b ∧ 0 ∉ b) ∨ ∀ c ∈ cstr (b ++ after), c = comma

/-- The condition for a path with a comma: with the fields that the data node reads, no `write` can
report the length of `b`, or `b` is empty and nothing can be read. -/
def Refused (f : Fields) (b : List Byte) : Prop :=
  f.size < max b.length 1 ∨ f.offset < 0 ∨ f.payload = none

/-! ## The payload -/

section Payload

variable {b after v : List Byte}

/-- A payload without separators is found where it was put. -/
theorem payload_plain (nonempty : b ≠ []) (plain : comma ∉ b) (noNul : NoNul b) :
    ∃ v, payload b after = some (b ++ v) := by
  have token : IsToken [comma] b := by
    refine ⟨nonempty, noNul, fun c hc hd => ?_⟩
    rw [List.mem_singleton] at hd
    exact plain (hd ▸ hc)
  rw [payload, cstr_append noNul, strtok_append_open (strtok_last token) noNul rfl]
  let t := scanToken [comma] (cstr after)
  refine ⟨t.token ++ (t.mark ++ t.rest), ?_⟩
  simp [Token.view, t]

theorem payload_eq_none_iff : payload b after = none ↔ ∀ c ∈ cstr (b ++ after), c = comma := by
  rw [payload, Option.map_eq_none_iff, strtok_eq_none_iff (cstr_noNul _)]
  simp only [List.mem_singleton]

/-- A payload with a separator that is written unchanged is a string without commas, followed by
NULs. -/
theorem payload_broken (special : comma ∈ b ∨ 0 ∈ b) (pointer : payload b after = some v)
    (same : bytesAt v b.length = b) :
    IsToken [comma] (cstr b) ∧ (cstr b).length < b.length := by
  have found : ∃ c ∈ b, (c == comma || c == 0) = true := by
    rcases special with special | special
    · exact ⟨comma, special, by simp⟩
    · exact ⟨0, special, by simp⟩
  obtain ⟨p, d, q, rfl, separator, before⟩ := exists_first _ found
  simp only [Bool.or_eq_false_iff, beq_eq_false_iff_ne] at before
  have noNul : NoNul p := fun h => (before 0 h).2 rfl
  have plain : ∀ c ∈ p, c ∉ [comma] := fun c hc h => (before c hc).1 (List.mem_singleton.1 h)
  have at_p : v.getD p.length 0 = d := by
    have := congrArg (fun l => l[p.length]?) same
    simpa [bytesAt_getElem] using this
  rw [payload, List.append_assoc, cstr_append noNul, List.cons_append] at pointer
  obtain ⟨t, token, rfl⟩ := Option.map_eq_some_iff.1 pointer
  simp only [Bool.or_eq_true, beq_iff_eq] at separator
  rcases separator with rfl | rfl
  · -- A comma is marked by a NUL, or skipped when it comes first.
    exfalso
    have rest : cstr (comma :: (q ++ after)) = comma :: cstr (q ++ after) := by
      simp [cstr, comma]
    rw [rest] at token
    by_cases first : p = []
    · subst first
      rw [List.nil_append, strtok_skip (by simp) (by decide)] at token
      obtain ⟨u, found, rfl⟩ := Option.map_eq_some_iff.1 token
      obtain ⟨c, w, view, other⟩ := strtok_view_head found
      have head : (Token.view { u with skipped := comma :: u.skipped }).getD 0 0 = c := by
        simp only [Token.view] at view ⊢
        rw [view]
        rfl
      simp only [List.length_nil] at at_p
      rw [head] at at_p
      exact other (List.mem_singleton.2 at_p)
    · rw [strtok_delimited ⟨first, noNul, plain⟩ (by simp) (by decide)] at token
      cases token
      simp [Token.view, comma] at at_p
  · have string : cstr (p ++ 0 :: q) = p := cstr_terminated noNul q
    have rest : cstr (0 :: (q ++ after)) = [] := rfl
    rw [string]
    refine ⟨⟨?_, noNul, plain⟩, by simp⟩
    rintro rfl
    rw [rest, List.nil_append] at token
    cases token

end Payload

/-! ## The read -/

section Read

variable {b buf : List Byte} {s : Buffers}

/-- The client decodes the reply together with what earlier ones have left behind it. -/
theorem receive_read (small : b.length < 1000) (errno : Errno) (buf : List Byte) (s : Buffers) :
    ∃ r, receive .read (sendresponse_read (some ((b.length : ℤ), b)) errno) buf s = .ok r ∧
      r.value = b.length ∧
      r.buf = readData (cstr b ++ (s .read).drop
        (sendresponse_read (some ((b.length : ℤ), b)) errno).length) buf := by
  have shortSize : (decimal (b.length : ℤ)).length ≤ 6 := result_length ⟨by omega, by omega⟩
  have shortErrno := errno_length errno.2
  have size : (cstr b).length ≤ b.length := (List.takeWhile_prefix _).length_le
  have fits : (sendresponse_read (some ((b.length : ℤ), b)) errno).length < Retbuf.size .read := by
    have := snprintf_length b.length
    have := snprintf_length errno
    simp only [sendresponse_read, List.length_append, List.length_cons, Retbuf.size]
    omega
  obtain ⟨r, decoded, result⟩ := decode_read_result ⟨b.length, by omega⟩ ⟨errno, by omega⟩ b
    ((s .read).drop (sendresponse_read (some ((b.length : ℤ), b)) errno).length) buf
  have notFailed : (b.length : ℤ) ≠ -1 := by omega
  rw [if_neg notFailed] at result
  obtain ⟨value, bytes⟩ := Prod.mk.inj result
  refine ⟨r, ?_, value, bytes⟩
  rw [receive_fits fits]
  exact decoded

/-- A reply whose data is one token leaves the data at the end of the buffer. -/
theorem receive_read_left (n e : Number) (succeeded : n.1 ≠ -1) {w : List Byte}
    (token : IsToken [comma] w) (short : w.length < 4000) :
    ∃ r front, receive .read (sendresponse_read (some (n.1, w)) e) [] (fun _ => []) = .ok r ∧
      r.left = front ++ w ∧
      front.length + w.length = (sendresponse_read (some (n.1, w)) e).length := by
  have string : cstr w = w := cstr_of_noNul token.noNul
  have fits : (sendresponse_read (some (n.1, w)) e).length < Retbuf.size .read := by
    have := snprintf_length n
    have := snprintf_length e
    simp only [sendresponse_read, List.length_append, List.length_cons, Retbuf.size, string]
    omega
  obtain ⟨front, read⟩ := status_closed n e w
  rw [← string, ← List.append_nil (cstr w), ← sendresponse_read_append, List.append_nil, string]
    at read
  have whole := status_length read
  have decoded : decode .read (sendresponse_read (some (n.1, w)) e) [] =
      .ok ⟨n.1, w ++ [0], front ++ w⟩ := by
    simp only [decode, readResult, read, Except.map, if_neg succeeded, strtok_last token,
      Token.front, List.nil_append, List.append_nil, overlay_nil]
  simp only [List.append_nil, List.length_append] at whole
  refine ⟨⟨n.1, w ++ [0], front ++ w⟩, front, ?_, rfl, whole⟩
  rw [receive_fits fits]
  simpa only [Retbuf.cleared, Bool.false_eq_true, if_false, overlay_nil] using decoded

end Read

/-! ## Round trips -/

section RoundTrip

variable {net : Net} {namenode dn : List Byte} {t t₁ t₂ : Tables} {host : Host} {path : CString}
  {b after v file buf : List Byte} {offset : ℕ} {disk : Disk} {errno : Errno} {s : Buffers}

/-- The buffers of the client and of the nodes hold the requests. -/
structure Fits (host : Host) (path : CString) (b after : List Byte) (offset : ℕ) : Prop where
  small : b.length < 1000
  write : (framed .write host (Command.text .write ++ comma ::
    writeText path b.length offset (cstr (b ++ after)))).length < 1000
  read : (readText path b.length offset).length < 100

/-- The fields that the data node reads in the `write`. -/
def sentFields (path : CString) (b after : List Byte) (offset : ℕ) : Fields :=
  fields (writeText path b.length offset (cstr (b ++ after)))

theorem Fits.shortSize (fits : Fits host path b after offset) :
    (decimal (b.length : ℤ)).length ≤ 6 :=
  result_length ⟨by omega, by have := fits.small; omega⟩

/-- The data node of a `write` answers for the path up to its first comma. -/
theorem writeFile_sent (outcome : Outcome) (errno : Errno) (disk : Disk) (s : Buffers)
    (fits : Fits host path b after offset) (route : Route net namenode t dn path)
    (held : disk dn (sentPath path) = some file) :
    writeFile net namenode t host path (b ++ after) b.length offset outcome errno disk s =
      (receive .write (writeAnswer outcome errno file (sentFields path b after offset).size
        (sentFields path b after offset).offset
        (sentFields path b after offset).payload).1 [] s).map fun r =>
          (r.value, disk.set dn (sentPath path) (writeAnswer outcome errno file
            (sentFields path b after offset).size (sentFields path b after offset).offset
            (sentFields path b after offset).payload).2, Function.update s .write r.left) :=
  writeFile_eq _ _ _ (exchange_write fits.write route rfl) held

theorem sentFields_plain (plain : comma ∉ path.bytes)
    (shortOffset : (decimal (offset : ℤ)).length ≤ 9) (fits : Fits host path b after offset) :
    sentFields path b after offset = ⟨b.length, offset, payload b after⟩ := by
  have size := fits.shortSize
  rw [sentFields, fields_plain plain (by omega) shortOffset, payload]

/-- A `read` of what was written to a path without a comma. -/
theorem readFile_written (plain : comma ∉ path.bytes)
    (shortOffset : (decimal (offset : ℤ)).length ≤ 9) (fits : Fits host path b after offset)
    (route : Route net namenode t dn path) :
    readFile net namenode t host path b.length offset errno
        (disk.set dn (my_path path) (overwrite file offset b)) buf s =
      (receive .read (sendresponse_read (some ((b.length : ℤ), b)) errno) buf s).map fun r =>
        (r.value, r.buf, Function.update s .read r.left) := by
  have inRange : ¬ ((offset : ℤ) < 0 ∨ (b.length : ℤ) < 0) := by omega
  have answer : readAnswer errno (overwrite file offset b) b.length offset =
      .ok (sendresponse_read (some ((b.length : ℤ), b)) errno) := by
    have := fits.small
    rw [readAnswer, if_neg inRange]
    simp only [Int.toNat_natCast, overwrite_read]
    rw [if_pos (by omega)]
  have parsed := fields_writeText path b.length offset (cstr (b ++ after))
  rw [← sentFields, sentFields_plain plain shortOffset fits] at parsed
  have called := exchange_read host fits.read route rfl
  rw [← parsed.1, ← parsed.2] at called
  rw [← sentPath_plain plain]
  exact readFile_eq buf s (f := ⟨b.length, offset, none⟩) called (disk_set _ _ _ _) answer

/-- Read after write, for a kernel that takes all of the bytes at the pointer to the payload. -/
theorem ReadAfterWrite.delivers
    (holds : ReadAfterWrite net namenode t₁ t₂ host dn path b after offset)
    (plain : comma ∉ path.bytes) (shortOffset : (decimal (offset : ℤ)).length ≤ 9)
    (fits : Fits host path b after offset) (route₁ : Route net namenode t₁ dn path)
    (route₂ : Route net namenode t₂ dn path) (pointer : payload b after = some v) (errno : Errno)
    (left : LeftByReplies s) :
    bytesAt v b.length = b ∧
      bytesAt (readData (cstr b ++ (s .read).drop
        (sendresponse_read (some ((b.length : ℤ), b)) errno).length) []) b.length = b := by
  have sent := sentPath_plain plain
  have parsed := sentFields_plain plain shortOffset fits
  rw [pointer] at parsed
  have held := disk_set (fun _ _ => none) dn (my_path path) []
  have wrote := writeFile_sent (.takes b.length) errno _ s fits route₁ (sent.symm ▸ held)
  simp only [parsed] at wrote
  obtain ⟨r, received, value⟩ := receive_takes errno [] offset v fits.small le_rfl (by omega) left
  rw [received, Except.map, sent] at wrote
  obtain ⟨stored, buf', s'', read, same⟩ := holds _ errno errno _ _ [] [] s _ _ left held wrote value
  obtain ⟨-, -, -, bytes⟩ := writeAnswer_bytes left (.inl (by have := fits.small; omega)) received value
  constructor
  · have files := congrFun (congrFun stored dn) (my_path path)
    rw [disk_set, disk_set, bytes] at files
    exact overwrite_inj (bytesAt_length _ _) (Option.some.inj files)
  · obtain ⟨r', reply, -, data⟩ :=
      receive_read fits.small errno [] (Function.update s .write r.left)
    rw [stored, readFile_written plain shortOffset fits route₂, reply, Except.map] at read
    simp only [Except.ok.injEq, Prod.mk.injEq] at read
    obtain ⟨-, rfl, -⟩ := read
    rwa [data, Function.update_of_ne (by decide)] at same

/-- A payload that comes back has no separators. -/
theorem ReadAfterWrite.unbroken
    (holds : ReadAfterWrite net namenode t₁ t₂ host dn path b after offset)
    (plain : comma ∉ path.bytes) (shortOffset : (decimal (offset : ℤ)).length ≤ 9)
    (fits : Fits host path b after offset) (route₁ : Route net namenode t₁ dn path)
    (route₂ : Route net namenode t₂ dn path) : Unbroken b after := by
  by_contra broken
  rw [Unbroken] at broken
  push Not at broken
  obtain ⟨separator, nonComma⟩ := broken
  have special : comma ∈ b ∨ 0 ∈ b := or_iff_not_imp_left.2 separator
  have pointer : payload b after ≠ none := by
    rw [Ne, payload_eq_none_iff]
    push Not
    exact nonComma
  obtain ⟨v, pointer⟩ := Option.ne_none_iff_exists'.1 pointer
  have delivers {s : Buffers} (left : LeftByReplies s) := holds.delivers plain shortOffset fits
    route₁ route₂ pointer ⟨0, by norm_num⟩ left
  obtain ⟨token, shorter⟩ := payload_broken special pointer (delivers .fresh).1
  have small := fits.small
  have size := fits.shortSize
  -- An earlier reply of the same length with one more digit of data.
  have longer : IsToken [comma] (cstr b ++ [49]) := by
    refine ⟨by simp, token.noNul.append (by decide), fun c hc => ?_⟩
    rcases List.mem_append.1 hc with hc | hc
    · exact token.plain c hc
    · rw [List.mem_singleton.1 hc]
      decide
  obtain ⟨r, front, received, memory, length⟩ := receive_read_left ⟨b.length, by omega⟩
    ⟨0, by decide⟩ (by simp only; omega) longer (by simp; omega)
  have bytes := (delivers (.read _ _ .fresh received)).2
  have reply : (sendresponse_read (some ((b.length : ℤ), b)) 0).length =
      front.length + (cstr b).length := by
    simp only [sendresponse_read, cstr_of_noNul longer.noNul, List.length_append,
      List.length_cons, List.length_nil] at length ⊢
    omega
  have digit : (scanToken [comma] [49]).token = [49] := by decide
  rw [Function.update_self, memory, reply, ← List.append_assoc, List.drop_left' (by simp),
    readData_open token.noNul (strtok_last token) rfl, overlay_nil, digit] at bytes
  rw [bytesAt, List.append_assoc, List.take_append, List.take_of_length_le (by simp; omega)] at bytes
  have string := congrArg (fun m => (cstr m).length) bytes
  simp only [cstr_append longer.noNul, List.length_append, List.length_cons] at string
  omega

/-- A payload without separators comes back. -/
theorem readAfterWrite_of_unbroken (plain : comma ∉ path.bytes)
    (shortOffset : (decimal (offset : ℤ)).length ≤ 9) (fits : Fits host path b after offset)
    (route₁ : Route net namenode t₁ dn path) (route₂ : Route net namenode t₂ dn path)
    (intact : Unbroken b after) :
    ReadAfterWrite net namenode t₁ t₂ host dn path b after offset := by
  intro outcome errno₁ errno₂ disk disk' file buf s s' value left held returned whole
  have sent := sentPath_plain plain
  rw [writeFile_sent outcome errno₁ disk s fits route₁ (sent.symm ▸ held),
    sentFields_plain plain shortOffset fits, sent] at returned
  obtain ⟨r, received, returned⟩ := map_eq_ok.1 returned
  simp only [Prod.mk.injEq] at returned received
  obtain ⟨rfl, rfl, rfl⟩ := returned
  obtain ⟨-, -, null, bytes⟩ :=
    writeAnswer_bytes left (.inl (by have := fits.small; omega)) received whole
  rw [bytes, Int.toNat_natCast]
  obtain ⟨r', reply, count, data⟩ :=
    receive_read fits.small errno₂ buf (Function.update s .write r.left)
  have read : readFile net namenode t₂ host path b.length offset errno₂
      (disk.set dn (my_path path) (overwrite file offset b)) buf (Function.update s .write r.left) = _ :=
    readFile_written plain shortOffset fits route₂
  rw [reply, Except.map, count] at read
  have null : payload b after = none → b = [] := fun h =>
    List.length_eq_zero_iff.1 (by have := null h; omega)
  by_cases empty : b = []
  · subst empty
    exact ⟨rfl, _, _, read, rfl⟩
  · have intact : comma ∉ b ∧ 0 ∉ b :=
      intact.resolve_right fun commas => empty (null (payload_eq_none_iff.2 commas))
    obtain ⟨v, pointer⟩ := @payload_plain b after empty intact.1 intact.2
    have stored : bytesAt ((payload b after).getD []) b.length = b := by
      rw [pointer]
      exact bytesAt_append b v
    have token : IsToken [comma] b := by
      refine ⟨empty, intact.2, fun c hc hd => ?_⟩
      rw [List.mem_singleton] at hd
      exact intact.1 (hd ▸ hc)
    rw [stored]
    refine ⟨rfl, _, _, read, ?_⟩
    rw [data, cstr_of_noNul intact.2, readData_open intact.2 (strtok_last token) rfl, overlay]
    simp only [List.append_assoc]
    exact bytesAt_append b _

/-! ### Paths with a comma -/

theorem my_path_ne_sentPath (special : comma ∈ path.bytes) : my_path path ≠ sentPath path := by
  obtain ⟨-, q, -, split⟩ := my_path_comma special
  rw [split]
  intro same
  simpa using congrArg List.length same

/-- The fields of the `read` are those of the `write`. -/
theorem readFile_sent (errno : Errno) (disk : Disk) (buf : List Byte) (s : Buffers)
    {reply : List Byte} (fits : Fits host path b after offset)
    (route : Route net namenode t dn path) (held : disk dn (sentPath path) = some file)
    (answer : readAnswer errno file (sentFields path b after offset).size
      (sentFields path b after offset).offset = .ok reply) :
    readFile net namenode t host path b.length offset errno disk buf s =
      (receive .read reply buf s).map fun r =>
        (r.value, r.buf, Function.update s .read r.left) := by
  have parsed := fields_writeText path b.length offset (cstr (b ++ after))
  have called := exchange_read host fits.read route rfl
  rw [← parsed.1, ← parsed.2] at called
  exact readFile_eq buf s (f := sentFields path b after offset) called held answer

/-- A `write` that can report all of `b` goes to another file, and a `read` of no bytes may find
some. -/
theorem ReadAfterWrite.refused
    (holds : ReadAfterWrite net namenode t₁ t₂ host dn path b after offset)
    (special : comma ∈ path.bytes) (fits : Fits host path b after offset)
    (route₁ : Route net namenode t₁ dn path) (route₂ : Route net namenode t₂ dn path) :
    Refused (sentFields path b after offset) b := by
  by_contra accepted
  rw [Refused] at accepted
  push Not at accepted
  obtain ⟨size, start, pointer⟩ := accepted
  obtain ⟨v, pointer⟩ := Option.ne_none_iff_exists'.1 pointer
  have other := my_path_ne_sentPath special
  let errno : Errno := ⟨0, by norm_num⟩
  let long := List.replicate ((sentFields path b after offset).offset.toNat + 1) (0 : Byte)
  let disk := (Disk.set (fun _ _ => none) dn (my_path path) []).set dn (sentPath path) long
  have held : disk dn (sentPath path) = some long := disk_set _ _ _ _
  have empty : disk dn (my_path path) = some [] :=
    (disk_set_of_ne _ _ _ other).trans (disk_set _ _ _ _)
  have wrote := writeFile_sent (.takes b.length) errno disk (fun _ => []) fits route₁ held
  obtain ⟨r, received, value⟩ := receive_takes errno long _ v fits.small
    (by omega : (b.length : ℤ) ≤ (sentFields path b after offset).size) start .fresh
  rw [pointer, received, Except.map] at wrote
  obtain ⟨stored, buf', s'', read, -⟩ :=
    holds _ errno errno _ _ [] [] _ _ _ .fresh empty wrote value
  have nothing : b = [] := by
    have files := congrFun (congrFun stored dn) (my_path path)
    rw [disk_set_of_ne _ _ _ other, empty, disk_set, Option.some.injEq] at files
    have kept := overwrite_read [] offset b
    rw [← files] at kept
    simpa using kept.symm
  have one : ((long.drop (sentFields path b after offset).offset.toNat).take
      (sentFields path b after offset).size.toNat) = [0] := by
    rw [List.drop_replicate, List.take_replicate]
    have : min (sentFields path b after offset).size.toNat
        ((sentFields path b after offset).offset.toNat + 1 -
          (sentFields path b after offset).offset.toNat) = 1 := by omega
    rw [this]
    rfl
  have answer : readAnswer errno long (sentFields path b after offset).size
      (sentFields path b after offset).offset =
      .ok (sendresponse_read (some ((([0] : List Byte).length : ℤ), [0])) errno) := by
    rw [readAnswer, if_neg (by omega)]
    simp only [one]
    rfl
  obtain ⟨r', reply, count, -⟩ := @receive_read [0] (by decide) errno [] _
  rw [readFile_sent errno _ [] _ fits route₂ (by rw [stored, disk_set_of_ne _ _ _ other.symm, held])
    answer, reply, Except.map] at read
  simp only [Except.ok.injEq, Prod.mk.injEq, count, nothing] at read
  exact absurd read.1 (by decide)

/-- A `write` that is refused reports no bytes, and if there are none a `read` finds none. -/
theorem readAfterWrite_of_refused
    (fits : Fits host path b after offset) (route₁ : Route net namenode t₁ dn path)
    (route₂ : Route net namenode t₂ dn path)
    (refused : Refused (sentFields path b after offset) b) :
    ReadAfterWrite net namenode t₁ t₂ host dn path b after offset := by
  intro outcome errno₁ errno₂ disk disk' file buf s s' value left held returned whole
  have small := fits.small
  cases found : disk dn (sentPath path) with
  | none =>
    rw [writeFile_missing (exchange_write fits.write route₁ rfl) found] at returned
    obtain ⟨r, received, returned⟩ := map_eq_ok.1 returned
    simp only [Prod.mk.injEq] at returned
    have := receive_missing left received
    omega
  | some other =>
    rw [writeFile_sent outcome errno₁ disk s fits route₁ found] at returned
    obtain ⟨r, received, returned⟩ := map_eq_ok.1 returned
    simp only [Prod.mk.injEq] at returned
    obtain ⟨rfl, rfl, rfl⟩ := returned
    have bounded : (sentFields path b after offset).size < 10 ^ 6 ∨
        (sentFields path b after offset).offset < 0 ∨
        (sentFields path b after offset).payload = none := by
      rcases refused with short | negative | null
      · exact .inl (by omega)
      · exact .inr (.inl negative)
      · exact .inr (.inr null)
    obtain ⟨size, start, null, bytes⟩ := writeAnswer_bytes left bounded received whole
    have nothing : b.length = 0 ∧ (sentFields path b after offset).size = 0 := by
      rcases refused with short | negative | pointer
      · omega
      · omega
      · have := null pointer
        omega
    obtain rfl := List.length_eq_zero_iff.1 nothing.1
    have unchanged : bytesAt ((sentFields path [] after offset).payload.getD []) 0 = [] := rfl
    rw [List.length_nil] at bytes
    rw [bytes, unchanged, overwrite_nil, overwrite_nil, disk_set_self found, disk_set_self held]
    have answer : readAnswer errno₂ other (sentFields path [] after offset).size
        (sentFields path [] after offset).offset =
        .ok (sendresponse_read (some ((([] : List Byte).length : ℤ), [])) errno₂) := by
      rw [readAnswer, if_neg (by omega), nothing.2]
      rfl
    obtain ⟨r', reply, count, -⟩ := receive_read (b := []) (by decide) errno₂ buf
      (Function.update s .write r.left)
    refine ⟨rfl, r'.buf, Function.update (Function.update s .write r.left) .read r'.left, ?_, rfl⟩
    rw [readFile_sent errno₂ disk buf _ fits route₂ found answer, reply, Except.map, count]

end RoundTrip

/-- Read after write holds of a path without a comma exactly when the payload has neither a comma
nor a NUL or is never written, and of a path with a comma exactly when no `write` can report more
than no bytes. -/
theorem readAfterWrite_iff {net : Net} {namenode dn : List Byte} {t₁ t₂ : Tables} {host : Host}
    {path : CString} {b after : List Byte} {offset : ℕ}
    (shortOffset : (decimal (offset : ℤ)).length ≤ 9) (fits : Fits host path b after offset)
    (route₁ : Route net namenode t₁ dn path) (route₂ : Route net namenode t₂ dn path) :
    ReadAfterWrite net namenode t₁ t₂ host dn path b after offset ↔
      (comma ∉ path.bytes ∧ Unbroken b after) ∨
        (comma ∈ path.bytes ∧ Refused (sentFields path b after offset) b) := by
  constructor
  · intro holds
    by_cases special : comma ∈ path.bytes
    · exact .inr ⟨special, holds.refused special fits route₁ route₂⟩
    · exact .inl ⟨special, holds.unbroken special shortOffset fits route₁ route₂⟩
  · rintro (⟨plain, intact⟩ | ⟨special, refused⟩)
    · exact readAfterWrite_of_unbroken plain shortOffset fits route₁ route₂ intact
    · exact readAfterWrite_of_refused fits route₁ route₂ refused

theorem slashF_plain : comma ∉ slashF.bytes := by decide

theorem slashF_route : Route upNet (str "n") (oneFile (my_path slashF)) (str "d") slashF where
  reached := rfl
  located := ⟨_, by rw [sentPath_plain slashF_plain]; exact oneFile_located (my_path slashF)⟩
  known := rfl

/-- The payload `hi` for the file `/f`. -/
theorem readAfterWrite_iff_hi :
    ReadAfterWrite upNet (str "n") (oneFile (my_path slashF)) (oneFile (my_path slashF)) oneHost
        (str "d") slashF (str "hi") [] 0 ↔
      (comma ∉ slashF.bytes ∧ Unbroken (str "hi") []) ∨
        (comma ∈ slashF.bytes ∧ Refused (sentFields slashF (str "hi") [] 0) (str "hi")) :=
  readAfterWrite_iff (by decide)
    ⟨by decide, by decide, by decide⟩ slashF_route slashF_route

/-- The payload `a,b` does not come back. -/
theorem comma_lost : ¬ ReadAfterWrite upNet (str "n") (oneFile (my_path slashF))
    (oneFile (my_path slashF)) oneHost (str "d") slashF (str "a,b") [] 0 := by
  intro holds
  have intact := holds.unbroken slashF_plain (by decide)
    ⟨by decide, by decide, by decide⟩ slashF_route slashF_route
  rcases intact with ⟨plain, -⟩ | commas
  · exact plain (by decide)
  · exact absurd (commas 97 (by decide)) (by decide)

end DistFs.Wire
