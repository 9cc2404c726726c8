import DistFs.Wire.Reply

/-!
# What earlier replies leave behind

`receiveresponse_client` clears the buffers of `truncate`, `unlink` and `rmdir` before it receives,
but not those of `access`, `open`, `read`, `write` and `mknod`.  There a reply is read together with
what longer replies have left behind it, so a field that the reply itself does not close can grow.
-/

namespace DistFs.Wire

open CText

/-- Earlier operations and their replies. -/
abbrev History := List (Retbuf × CString)

/-- The reply buffers after an operation that returns. -/
def afterReply (s : Buffers) (p : Retbuf × CString) : Except Fault Buffers :=
  (receive p.1 p.2.bytes [] s).map fun r => Function.update s p.1 r.left

/-- The reply buffers after a history in which every operation returns. -/
def run (h : History) : Except Fault Buffers := h.foldlM afterReply fun _ => []

/-- What the caller of an operation sees: the return value, and for `read` that many bytes of its
buffer. -/
def Result.seen (b : Retbuf) (r : Result) : ℤ × List Byte :=
  (r.value, if b = .read then (List.range r.value.toNat).map fun i => r.buf.getD i 0 else [])

/-- The operation of a reply buffer returns, and with the same result after any two histories. -/
def HistoryFree (b : Retbuf) (reply : List Byte) : Prop :=
  ∀ h₁ h₂ s₁ s₂, run h₁ = .ok s₁ → run h₂ = .ok s₂ → ∀ buf, ∃ v,
    (receive b reply buf s₁).map (Result.seen b) = .ok v ∧
      (receive b reply buf s₂).map (Result.seen b) = .ok v

/-- Replies of the operations whose buffers are not cleared. -/
inductive Answer where
  | access (res errno : Number)
  | open_ (res errno : Number)
  | read (got : Option (Number × List Byte)) (errno : Number)
  | write (res : Option ℤ) (errno : Number)
      (short : ∀ x ∈ res, (decimal (written x errno)).length ≤ 9)
  | mknod (res errno : Number)

namespace Answer

/-- The buffer that the reply arrives in. -/
def retbuf : Answer → Retbuf
  | .access _ _ => .access
  | .open_ _ _ => .open_
  | .read _ _ => .read
  | .write _ _ _ => .write
  | .mknod _ _ => .mknod

/-- The datagram. -/
def text : Answer → List Byte
  | .access res errno => sendresponse_access res errno
  | .open_ res errno => sendresponse_open res errno
  | .read got errno => sendresponse_read (got.map fun g => (g.1.1, g.2)) errno
  | .write res errno _ => sendresponse_write res errno
  | .mknod res errno => sendresponse_mknod res errno

/-- The answer closes every field that the client uses.  A reply to `read` that fits its buffer does
so when no data is expected, when no byte is left for a longer one, or when its first field of data
is closed by a comma or long enough. -/
def Complete : Answer → Prop
  | .access res _ | .open_ res _ => res.1 ≠ -1
  | .read none _ => False
  | .read (some (res, buf)) errno =>
      (text (.read (some (res, buf)) errno)).length < 4096 ∧
        (res.1 ≤ 0 ∨ (text (.read (some (res, buf)) errno)).length = 4095 ∨
          ∃ t, strtok [comma] (cstr buf) = some t ∧ (t.mark ≠ [] ∨ res.1 ≤ t.token.length))
  | .write none _ _ => False
  | .write (some res) errno _ => written res errno ≠ -1
  | .mknod _ _ => True

end Answer

/-! ## Histories -/

section Histories

variable {b : Retbuf} {reply : List Byte} {s : Buffers}

theorem receive_fits (fits : reply.length < b.size) (buf : List Byte) :
    receive b reply buf s = decode b (overlay reply (if b.cleared then [] else s b)) buf := by
  rw [receive, receiveresponse_client, if_pos fits]
  rfl

theorem receive_error (long : ¬ reply.length < b.size) (buf : List Byte) :
    receive b reply buf s = .error .overflow := by
  rw [receive, receiveresponse_client, if_neg long]
  rfl

/-- No reply fills its buffer: there is always a NUL behind what the replies have left. -/
theorem afterReply_length {s' : Buffers} {p : Retbuf × CString}
    (within : ∀ b, (s b).length < b.size) (returned : afterReply s p = .ok s') (b : Retbuf) :
    (s' b).length < b.size := by
  rw [afterReply] at returned
  by_cases fits : p.2.bytes.length < p.1.size
  · rw [receive_fits fits] at returned
    generalize received : overlay p.2.bytes (if p.1.cleared then [] else s p.1) = m at returned
    have short : m.length < p.1.size := by
      have old := within p.1
      rw [← received, overlay_length]
      split_ifs
      · simpa using fits
      · omega
    cases decoded : decode p.1 m [] with
    | error e =>
      rw [decoded] at returned
      cases returned
    | ok r =>
      rw [decoded] at returned
      obtain rfl := Except.ok.inj returned
      show (Function.update s p.1 r.left b).length < b.size
      by_cases same : b = p.1
      · subst same
        rwa [Function.update_self, decode_length decoded]
      · rw [Function.update_of_ne same]
        exact within b
  · rw [receive_error fits] at returned
    cases returned

theorem run_length {h : History} (ran : run h = .ok s) : ∀ b, (s b).length < b.size := by
  have steps : ∀ (h : History) (s s' : Buffers), (∀ b, (s b).length < b.size) →
      h.foldlM afterReply s = .ok s' → ∀ b, (s' b).length < b.size := by
    intro h
    induction h with
    | nil =>
      intro s s' within ran
      cases ran
      exact within
    | cons p h ih =>
      intro s s' within ran
      rw [List.foldlM_cons] at ran
      cases returned : afterReply s p with
      | error e =>
        rw [returned] at ran
        cases ran
      | ok s₁ =>
        rw [returned] at ran
        exact ih s₁ s' (afterReply_length within returned) ran
  exact steps h _ s (fun b => by cases b <;> decide) ran

/-- A reply that is decoded alike whatever follows it in its buffer. -/
theorem historyFree_of_const (fits : reply.length < b.size) {c : List Byte → ℤ × List Byte}
    (uncleared : b.cleared = false)
    (const : ∀ s buf, reply.length + s.length < b.size ∨ s = [] →
      (decode b (reply ++ s) buf).map (Result.seen b) = .ok (c buf)) : HistoryFree b reply := by
  have all {h : History} {s : Buffers} (ran : run h = .ok s) (buf : List Byte) :
      (receive b reply buf s).map (Result.seen b) = .ok (c buf) := by
    rw [receive_fits fits, uncleared, if_neg (by simp), overlay]
    refine const _ buf ?_
    have within := run_length ran b
    rw [List.length_drop, List.drop_eq_nil_iff]
    omega
  exact fun h₁ h₂ s₁ s₂ ran₁ ran₂ buf => ⟨c buf, all ran₁ buf, all ran₂ buf⟩

/-- A reply of `n + 1` bytes whose last byte is a digit. -/
def filler (n : ℕ) : List Byte := 48 :: comma :: (List.replicate (n - 2) 48 ++ [49])

theorem isToken_filler (n : ℕ) : IsToken [comma] (List.replicate n 48 ++ [49]) := by
  refine ⟨by simp, ?_, ?_⟩
  · simp [NoNul, List.mem_replicate]
  · intro b hb
    rcases List.mem_append.1 hb with hb | hb
    · rw [(List.mem_replicate.1 hb).2]
      decide
    · rw [List.mem_singleton.1 hb]
      decide

/-- The buffer in which such a reply has been decoded. -/
theorem decode_filler (b : Retbuf) (n : ℕ) : ∃ v,
    decode b (filler n) [] = .ok ⟨v, [], 48 :: 0 :: (List.replicate (n - 2) 48 ++ [49])⟩ := by
  have zero : snprintf 10 0 = [48] := by decide
  have read : ∃ e, status (filler n) =
      .ok ⟨0, e, 48 :: 0 :: (List.replicate (n - 2) 48 ++ [49]), []⟩ := by
    have first := strtok_comma (isToken_number 0) (List.replicate (n - 2) 48 ++ [49])
    have value : atoi (snprintf 10 0) = 0 := atoi_snprintf_of_short (by decide)
    rw [zero, List.singleton_append] at first
    rw [zero] at value
    refine ⟨atoi (List.replicate (n - 2) 48 ++ [49]), ?_⟩
    rw [status, filler]
    simp [first, strtok_last (isToken_filler (n - 2)), Token.front, value]
  obtain ⟨e, read⟩ := read
  cases b <;>
    simp [decode, statusResult, writeResult, readResult, read, Except.map]

/-- A reply that does not fit its buffer is not read without a fault. -/
theorem HistoryFree.fits (free : HistoryFree b reply) : reply.length < b.size := by
  by_contra long
  obtain ⟨v, fresh, -⟩ := free [] [] _ _ rfl rfl []
  rw [receive_error long] at fresh
  cases fresh

/-- If the history does not matter, neither does one digit behind the reply. -/
theorem HistoryFree.digit (free : HistoryFree b reply) (uncleared : b.cleared = false)
    (two : 2 ≤ reply.length) (room : reply.length + 1 < b.size) (buf : List Byte) :
    (decode b reply buf).map (Result.seen b) =
      (decode b (reply ++ [49]) buf).map (Result.seen b) := by
  have fits : reply.length < b.size := by omega
  obtain ⟨v, decoded⟩ := decode_filler b reply.length
  have noNul : NoNul (filler reply.length) := by
    simp [filler, NoNul, comma, List.mem_replicate]
  have long : (filler reply.length).length < b.size := by
    simp only [filler, List.length_cons, List.length_append, List.length_replicate,
      List.length_nil]
    omega
  generalize left : 48 :: 0 :: (List.replicate (reply.length - 2) (48 : Byte) ++ [49]) = m at decoded
  have ran : run [(b, ⟨filler reply.length, noNul⟩)] =
      .ok (Function.update (fun _ => []) b m) := by
    rw [run, List.foldlM_cons, afterReply, receive_fits long, uncleared]
    simp only [Bool.false_eq_true, if_false, overlay_nil, decoded]
    rfl
  have digit : m.drop reply.length = [49] := by
    obtain ⟨n, hn⟩ := Nat.exists_eq_add_of_le two
    rw [← left, hn, Nat.add_comm 2 n]
    simp
  obtain ⟨v, fresh, later⟩ := free [] _ _ _ rfl ran buf
  have both := fresh.trans later.symm
  rw [receive_fits fits, receive_fits fits, uncleared, Function.update_self] at both
  simp only [Bool.false_eq_true, if_false, overlay_nil] at both
  rwa [overlay, digit] at both

end Histories

/-! ## Replies of two fields -/

section Fields

variable {b : Retbuf} {x y : Number}

/-- A reply without a closing comma fits every buffer, with a byte to spare. -/
theorem sendresponse_access_length (b : Retbuf) (res errno : ℤ) :
    2 ≤ (sendresponse_access res errno).length ∧
      (sendresponse_access res errno).length + 1 < b.size := by
  have := snprintf_length res
  have := snprintf_length errno
  have := snprintf_pos res
  have small : 100 ≤ b.size := by cases b <;> decide
  rw [sendresponse_access, List.length_append, List.length_cons]
  omega

/-- A failed operation returns the error number in the second field. -/
theorem decode_failed {m front rest buf : List Byte} {e : ℤ}
    (read : status m = .ok ⟨-1, e, front, rest⟩) :
    decode b m buf = .ok ⟨toInt (-e), buf, front ++ rest⟩ := by
  cases b <;> simp [decode, statusResult, writeResult, readResult, read, Except.map]

/-- The error number of a failed operation is open to what an earlier reply has left. -/
theorem not_historyFree_failed (uncleared : b.cleared = false) (errno : Number) :
    ¬ HistoryFree b (sendresponse_access (-1) errno) := by
  intro free
  have sizes := sendresponse_access_length b (-1) errno
  have both := free.digit uncleared sizes.1 sizes.2 []
  have token := isToken_number errno.1
  have number : snprintf 10 errno = decimal errno := snprintf_of_short errno.2
  have longer : IsToken [comma] (snprintf 10 errno ++ [49]) := by
    refine ⟨by simp, token.noNul.append (by decide), fun c hc => ?_⟩
    rcases List.mem_append.1 hc with hc | hc
    · exact token.plain c hc
    · rw [List.mem_singleton.1 hc]
      decide
  obtain ⟨front, rest, plain⟩ := status_open ⟨-1, by decide⟩ errno.1 []
  obtain ⟨front', rest', digit⟩ := status_open ⟨-1, by decide⟩ errno.1 [49]
  rw [List.append_nil, scanToken_last token.noNul token.plain] at plain
  rw [scanToken_last longer.noNul longer.plain] at digit
  rw [sendresponse_access, decode_failed plain, List.append_assoc, List.cons_append,
    decode_failed digit, atoi_snprintf_of_short errno.2, number] at both
  simp only [Except.map, Except.ok.injEq, Result.seen, Prod.mk.injEq] at both
  exact atoi_decimal_digit errno.2 both.1.symm

/-- Where only the result is used, the second field may be open. -/
theorem historyFree_open_iff (isStatus : b = .access ∨ b = .open_ ∨ b = .write) :
    HistoryFree b (sendresponse_access x y) ↔ x.1 ≠ -1 := by
  have uncleared : b.cleared = false := by rcases isStatus with rfl | rfl | rfl <;> rfl
  constructor
  · intro free failed
    rw [failed] at free
    exact not_historyFree_failed uncleared y free
  · intro succeeded
    have sizes := sendresponse_access_length b x y
    refine historyFree_of_const (by omega) (c := fun _ => (if b = .write then x.1 else 0, []))
      uncleared fun s buf _ => ?_
    obtain ⟨front, rest, read⟩ := status_open x y.1 s
    rw [sendresponse_access, List.append_assoc, List.cons_append]
    rcases isStatus with rfl | rfl | rfl <;>
      simp [decode, statusResult, writeResult, read, Except.map, Result.seen, succeeded]

/-- A closing comma makes the reply independent of the history. -/
theorem historyFree_mknod : HistoryFree .mknod (sendresponse_mknod x y) := by
  have := snprintf_length x.1
  have := snprintf_length y.1
  have fits : (sendresponse_mknod x y).length < Retbuf.size .mknod := by
    simp only [sendresponse_mknod, Retbuf.size, List.length_append, List.length_cons,
      List.length_nil]
    omega
  refine historyFree_of_const fits (c := fun _ => (if x.1 = -1 then toInt (-y.1) else 0, [])) rfl
    fun s buf _ => ?_
  obtain ⟨front, read⟩ := status_closed x y s
  rw [sendresponse_mknod, List.append_assoc, List.cons_append, List.append_assoc,
    List.singleton_append]
  simp [decode, statusResult, read, Except.map, Result.seen]

end Fields

/-! ## Replies with data -/

section Data

variable {res errno : Number} {data s buf : List Byte}

/-- The bytes of `buf` up to the count that `read` returns. -/
def delivered (n : ℤ) (buf : List Byte) : List Byte :=
  (List.range n.toNat).map fun i => buf.getD i 0

/-- What `xmp_read` makes of a successful reply: its data is the first token of `data`. -/
def readData (data buf : List Byte) : List Byte :=
  match strtok [comma] data with
  | none => buf
  | some t => overlay (t.token ++ [0]) buf

theorem sendresponse_read_append (res errno : ℤ) (m s : List Byte) :
    sendresponse_read (some (res, m)) errno ++ s =
      snprintf 10 res ++ comma :: (snprintf 10 errno ++ comma :: (cstr m ++ s)) := by
  simp [sendresponse_read]

theorem decode_read_result (res errno : Number) (m s buf : List Byte) :
    ∃ r, decode .read (sendresponse_read (some (res.1, m)) errno ++ s) buf = .ok r ∧
      (r.value, r.buf) = if res.1 = -1 then (toInt (-errno.1), buf)
        else (res.1, readData (cstr m ++ s) buf) := by
  obtain ⟨front, read⟩ := status_closed res errno (cstr m ++ s)
  rw [sendresponse_read_append]
  simp only [decode, readResult, read, Except.map, readData]
  refine ⟨_, rfl, ?_⟩
  split_ifs
  · rfl
  · cases strtok [comma] (cstr m ++ s) <;> rfl

theorem decode_read (res errno : Number) (m s buf : List Byte) :
    (decode .read (sendresponse_read (some (res.1, m)) errno ++ s) buf).map (Result.seen .read) =
      .ok (if res.1 = -1 then (toInt (-errno.1), delivered (toInt (-errno.1)) buf)
        else (res.1, delivered res.1 (readData (cstr m ++ s) buf))) := by
  obtain ⟨r, decoded, same⟩ := decode_read_result res errno m s buf
  rw [decoded]
  simp only [Except.map, Result.seen, if_true]
  split_ifs at same ⊢ <;> obtain ⟨value, bytes⟩ := Prod.mk.inj same <;> rw [value, bytes] <;> rfl

theorem delivered_nonpos {n : ℤ} (h : n ≤ 0) (buf : List Byte) : delivered n buf = [] := by
  simp [delivered, Int.toNat_of_nonpos h]

/-- A text that is long enough is all that is delivered. -/
theorem delivered_overlay {n : ℤ} {w v : List Byte} (long : n ≤ w.length) (buf : List Byte) :
    delivered n (overlay (w ++ v) buf) = delivered n w := by
  refine List.map_congr_left fun i hi => ?_
  have : i < w.length := by
    have := List.mem_range.1 hi
    omega
  simp [overlay, List.getD, List.getElem?_append_left, this]

theorem delivered_getElem {n : ℤ} {i : ℕ} (h : (i : ℤ) < n) (buf : List Byte) :
    (delivered n buf)[i]? = some (buf.getD i 0) := by
  have : i < n.toNat := by omega
  simp [delivered, this]

/-- The byte behind a token that is too short tells what an earlier reply has left there. -/
theorem delivered_ne {n : ℤ} {w : List Byte} (short : (w.length : ℤ) < n) :
    delivered n (overlay (w ++ [0]) []) ≠ delivered n (overlay (w ++ [49] ++ [0]) []) := by
  intro same
  have byte := congrArg (fun l => l[w.length]?) same
  simp only [delivered_getElem short, overlay_nil] at byte
  simp at byte

theorem readData_open {t : Token} (h0 : NoNul data) (found : strtok [comma] data = some t)
    (unmarked : t.mark = []) (s : List Byte) :
    readData (data ++ s) buf =
      overlay (t.token ++ (scanToken [comma] s).token ++ [0]) buf := by
  rw [readData, strtok_append_open found h0 unmarked s]

/-- When a byte of the buffer is free and more data is expected than the first token holds, what an
earlier reply has left is read as data. -/
theorem not_historyFree_read {m : List Byte} (positive : 0 < res.1)
    (fits : (sendresponse_read (some (res.1, m)) errno).length < 4096)
    (room : (sendresponse_read (some (res.1, m)) errno).length ≠ 4095)
    (short : ∀ t, strtok [comma] (cstr m) = some t → t.mark = [] ∧ (t.token.length : ℤ) < res.1) :
    ¬ HistoryFree .read (sendresponse_read (some (res.1, m)) errno) := by
  intro free
  have noNul : NoNul (cstr m) := cstr_noNul m
  have two : 2 ≤ (sendresponse_read (some (res.1, m)) errno).length := by
    have := snprintf_pos res.1
    simp only [sendresponse_read, List.length_append, List.length_cons]
    omega
  have both := free.digit rfl two (by simp only [Retbuf.size]; omega) []
  have plain := decode_read res errno m [] []
  have succeeded : res.1 ≠ -1 := by omega
  rw [List.append_nil, List.append_nil] at plain
  rw [plain, decode_read res errno m [49] [], if_neg succeeded, if_neg succeeded] at both
  have same := congrArg Prod.snd (Except.ok.inj both)
  cases found : strtok [comma] (cstr m) with
  | none =>
    have one : IsToken [comma] [49] := isToken_filler 0
    have zeros : delivered res.1 [] = delivered res.1 (overlay ([] ++ [0]) []) :=
      List.map_congr_left fun i _ => by cases i <;> rfl
    have alone : readData (cstr m) [] = [] := by rw [readData, found]
    have joined : readData (cstr m ++ [49]) [] = overlay ([] ++ [49] ++ [0]) [] := by
      rw [readData, strtok_append_none found noNul, strtok_last one]
      rfl
    rw [alone, joined, zeros] at same
    exact delivered_ne (by simpa using positive) same
  | some t =>
    obtain ⟨unmarked, less⟩ := short t found
    have alone : readData (cstr m) [] = overlay (t.token ++ [0]) [] := by
      rw [readData, found]
    have joined : readData (cstr m ++ [49]) [] = _ := readData_open noNul found unmarked [49]
    have digit : (scanToken [comma] [49]).token = [49] := by decide
    rw [alone, joined, digit] at same
    exact delivered_ne less same

/-- With the count and the data of a reply to `read` the history is irrelevant exactly when the
reply fits and no data is expected, no byte of the buffer is free, or the first token is closed or
long enough. -/
theorem historyFree_read_iff {m : List Byte} :
    HistoryFree .read (sendresponse_read (some (res.1, m)) errno) ↔
      (sendresponse_read (some (res.1, m)) errno).length < 4096 ∧
        (res.1 ≤ 0 ∨ (sendresponse_read (some (res.1, m)) errno).length = 4095 ∨
          ∃ t, strtok [comma] (cstr m) = some t ∧ (t.mark ≠ [] ∨ res.1 ≤ t.token.length)) := by
  have noNul : NoNul (cstr m) := cstr_noNul m
  constructor
  · intro free
    refine ⟨free.fits, ?_⟩
    by_contra incomplete
    push Not at incomplete
    obtain ⟨positive, room, short⟩ := incomplete
    exact not_historyFree_read positive free.fits room short free
  · rintro ⟨fits, nonpositive | full | ⟨t, found, closed⟩⟩
    · refine historyFree_of_const fits (c := fun buf => if res.1 = -1 then
        (toInt (-errno.1), delivered (toInt (-errno.1)) buf) else (res.1, [])) rfl fun s buf _ => ?_
      rw [decode_read, delivered_nonpos nonpositive]
    · refine historyFree_of_const fits (c := fun buf => if res.1 = -1 then
        (toInt (-errno.1), delivered (toInt (-errno.1)) buf)
        else (res.1, delivered res.1 (readData (cstr m) buf))) rfl fun s buf within => ?_
      obtain rfl : s = [] := by
        refine within.elim (fun free => List.length_eq_zero_iff.1 ?_) id
        simp only [Retbuf.size] at free
        omega
      rw [decode_read, List.append_nil]
    · refine historyFree_of_const fits (c := fun buf => if res.1 = -1 then
        (toInt (-errno.1), delivered (toInt (-errno.1)) buf)
        else (res.1, delivered res.1 (if t.mark = [] then t.token
          else overlay (t.token ++ [0]) buf))) rfl fun s buf within => ?_
      rw [decode_read]
      by_cases unmarked : t.mark = []
      · have long := closed.resolve_left (not_not.2 unmarked)
        rw [readData_open noNul found unmarked, List.append_assoc, delivered_overlay long,
          if_pos unmarked]
      · rw [readData, strtok_append_marked found unmarked, if_neg unmarked]

end Data

/-- The result of an operation depends on its own reply alone exactly when the reply is complete. -/
theorem historyFree_iff (a : Answer) : HistoryFree a.retbuf a.text ↔ a.Complete := by
  cases a with
  | access res errno => exact historyFree_open_iff (.inl rfl)
  | open_ res errno =>
    rw [Answer.text, sendresponse_open_eq]
    exact historyFree_open_iff (.inr (.inl rfl))
  | write res errno short =>
    cases res with
    | none =>
      refine iff_of_false ?_ id
      rw [Answer.text, sendresponse_write, str_minus_one]
      exact not_historyFree_failed rfl errno
    | some res => exact historyFree_open_iff (x := ⟨_, short res rfl⟩) (.inr (.inr rfl))
  | mknod res errno => exact iff_of_true historyFree_mknod trivial
  | read got errno =>
    cases got with
    | none =>
      refine iff_of_false ?_ id
      rw [Answer.text, Option.map_none, sendresponse_read, str_minus_one]
      exact not_historyFree_failed rfl errno
    | some g => exact historyFree_read_iff

/-- An `access` refused with error number 2. -/
def refused : Answer := .access ⟨-1, by decide +kernel⟩ ⟨2, by decide +kernel⟩

/-- After an `access` refused with error number 13 the client reports error number 23. -/
theorem refused_misread : ¬ HistoryFree refused.retbuf refused.text ∧
    ((run [(.access, .lit "-1,13")]).bind fun s => receive .access refused.text [] s).map
      Result.value = .ok (-23) :=
  ⟨fun free => not_historyFree_failed rfl _ free, by decide⟩

end DistFs.Wire
