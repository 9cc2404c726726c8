import DistFs.CText.Pieces
import DistFs.Wire.Operations

/-!
# Failures and their way to the caller

A system call at the node that serves an operation fails with an error number or succeeds, leaving
whatever `errno` was.  The replies say so in three conventions: a result and an error number, `'Y'`
or `'N'` and an error number, or an error number alone.  The third one, of `readdir`, loses the
failure; the reply to `statfs` arrives in another buffer than the one that is read.
-/

namespace DistFs.Wire

open CText

/-- The error numbers of failed system calls. -/
abbrev ErrorNumber := {e : ℤ // 1 ≤ e ∧ e ≤ 999}

/-- The results of the other calls, which fit an `int`. -/
abbrev Count := {n : ℤ // 0 ≤ n ∧ n < 2 ^ 31}

/-- How a system call ends.  One that succeeds leaves `errno` as it was. -/
inductive Ending (α : Type) where
  | failed (e : ErrorNumber)
  | succeeded (a : α) (errno : ℤ)

namespace Ending

variable {α : Type}

/-- The error number of a call that fails. -/
def error : Ending α → Option ErrorNumber
  | .failed e => some e
  | .succeeded _ _ => none

/-- The value of a call that succeeds. -/
def value : Ending α → Option α
  | .failed _ => none
  | .succeeded a _ => some a

/-- `errno` behind the call. -/
def errno : Ending α → ℤ
  | .failed e => e
  | .succeeded _ errno => errno

/-- The return value of the call, `f a` being that of a success. -/
def res (f : α → ℤ) : Ending α → ℤ
  | .failed _ => -1
  | .succeeded a _ => f a

end Ending

/-- What the `sendresponse_*` function of an operation gets from the kernel.  `mknod` opens and
closes; `read` and `write` may already fail to open their file. -/
inductive Serving where
  | getattr (stat : Ending Stat)
  | access (access : Ending Unit)
  | readdir (opendir : Ending (List Dirent))
  | mknod (openClose : Ending Unit)
  | mkdir (mkdir : Ending Unit)
  | unlink (unlink : Ending Unit)
  | rmdir (rmdir : Ending Unit)
  | rename (rename : Ending Unit)
  | chmod (chmod : Ending Unit)
  | truncate (truncate : Ending Unit)
  | open_ (opened : Ending Count)
  | unread (e : ErrorNumber)
  | read (pread : Ending (List Byte))
  | unwritten (e : ErrorNumber)
  | write (pwrite : Ending Count)
  | statfs (statvfs : Ending Statvfs)

namespace Serving

/-- The operation that the answer belongs to. -/
def operation : Serving → Operation
  | .getattr _ => .getattr
  | .access _ => .access
  | .readdir _ => .readdir
  | .mknod _ => .mknod
  | .mkdir _ => .mkdir
  | .unlink _ => .unlink
  | .rmdir _ => .rmdir
  | .rename _ => .rename
  | .chmod _ => .chmod
  | .truncate _ => .truncate
  | .open_ _ => .open_
  | .unread _ | .read _ => .read
  | .unwritten _ | .write _ => .write
  | .statfs _ => .statfs

/-- The error number with which the system call has failed, if it has. -/
def error : Serving → Option ErrorNumber
  | .getattr r => r.error
  | .access r | .mknod r | .mkdir r | .unlink r | .rmdir r | .rename r | .chmod r
  | .truncate r => r.error
  | .readdir r => r.error
  | .open_ r | .write r => r.error
  | .unread e | .unwritten e => some e
  | .read r => r.error
  | .statfs r => r.error

/-- The reply.  `pread` fills a `char buf[4096]`, which is then printed as a string. -/
def reply : Serving → Except Fault (List Byte)
  | .getattr r => .ok (sendresponse_getattr r.value r.errno)
  | .access r => .ok (sendresponse_access (r.res fun _ => 0) r.errno)
  | .readdir r => sendresponse_readdir r.value r.errno
  | .mknod r => .ok (sendresponse_mknod (r.res fun _ => 0) r.errno)
  | .mkdir r => .ok (sendresponse_mkdir (r.res fun _ => 0) r.errno)
  | .unlink r => .ok (sendresponse_unlink (r.res fun _ => 0) r.errno)
  | .rmdir r => .ok (sendresponse_rmdir (r.res fun _ => 0) r.errno)
  | .rename r => .ok (sendresponse_rename (r.res fun _ => 0) r.errno)
  | .chmod r => .ok (sendresponse_chmod (r.res fun _ => 0) r.errno)
  | .truncate r => .ok (sendresponse_truncate (r.res fun _ => 0) r.errno)
  | .open_ r => .ok (sendresponse_open (r.res Subtype.val) r.errno)
  | .unread e => .ok (sendresponse_read none e)
  | .read (.failed e) => .ok (sendresponse_read (some (-1, [])) e)
  | .read (.succeeded buf errno) =>
      if buf.length ≤ 4096 ∧ (cstr buf).length < 4096 then
        .ok (sendresponse_read (some (buf.length, buf)) errno)
      else .error .overflow
  | .unwritten e => .ok (sendresponse_write none e)
  | .write r => .ok (sendresponse_write (some (r.res Subtype.val)) r.errno)
  | .statfs r => .ok (sendresponse_statfs r.value r.errno)

end Serving

/-- An operation returns the negated error number of a failure, and for a success something that is
not negative. -/
def Tells (returned : Except Fault Returned) (error : Option ErrorNumber) : Prop :=
  ∃ r, returned = .ok r ∧
    match error with
    | some e => r.value = -e
    | none => 0 ≤ r.value

/-- The operation tells its caller the outcome once the reply has arrived in clear buffers. -/
def Serving.Reported (served : Serving) (filler : List Filled → Bool) (buf reply : List Byte) :
    Prop :=
  Tells (served.operation.afterReply filler buf reply) served.error

/-- The pieces of a listing: those of each name, a type and a number. -/
def listed (entries : List Dirent) : List (List Byte) :=
  entries.flatMap fun de =>
    pieces comma de.d_name.bytes ++ [snprintf 10 de.d_type, snprintf 10 de.d_ino]

/-- The pieces come in threes whose first fits a `char name[100]`, as far as `filler` takes them. -/
def InThrees (filler : List Filled → Bool) : List Filled → List (List Byte) → Prop
  | _, [] => True
  | _, [_] | _, [_, _] => False
  | calls, name :: ino :: mode :: rest =>
      let calls := calls ++ [⟨name, atoi ino, toInt (atoi mode * 2 ^ 12)⟩]
      name.length < 100 ∧ (filler calls = true ∨ InThrees filler calls rest)

namespace Serving

/-- The caller hears of the outcome: no `statfs`, no `readdir` that fails or whose listing does not
come in threes, no data longer than the buffer of `read`, and no error number left behind that is
too long for the `char [10]` of `mkdir`, `rename` and `chmod`. -/
def Heard (filler : List Filled → Bool) : Serving → Prop
  | .readdir (.failed _) => False
  | .readdir (.succeeded entries _) => InThrees filler [] (listed entries)
  | .mkdir r | .rename r | .chmod r => (snprintf 10 r.errno).length ≤ 7
  | .read (.succeeded buf errno) =>
      (sendresponse_read (some (buf.length, buf)) errno).length < 4096
  | .statfs _ => False
  | _ => True

end Serving

/-! ## Listings -/

section Listings

variable {filler : List Filled → Bool} {m : List Byte}

/-- A token is not empty, so there is less to read behind it. -/
theorem strtok_rest_lt {t : Token} (noNul : NoNul m) (found : strtok [comma] m = some t) :
    t.rest.length < m.length := by
  have nonempty : t.token ∈ pieces comma m := by
    rw [(pieces_of_some noNul found).1]
    exact List.mem_cons_self
  have token := List.length_pos_iff.2 (of_decide_eq_true (List.mem_filter.1 nonempty).2)
  have whole := strtok_length found
  simp only [Token.front, List.length_append] at whole
  omega

theorem InThrees.short {calls : List Filled} {name : List Byte} {rest : List (List Byte)}
    (threes : InThrees filler calls (name :: rest)) : name.length < 100 := by
  match rest, threes with
  | _ :: _ :: _, threes => exact threes.1

/-- The loop of `xmp_readdir` ends without a fault exactly if the pieces come in threes. -/
theorem readdirLoop_ok_iff {n : ℕ} {calls : List Filled} (front : List Byte) (noNul : NoNul m)
    (fuel : m.length ≤ n) : (∃ p, readdirLoop filler n calls front m = .ok p) ↔
      InThrees filler calls (pieces comma m) := by
  induction n generalizing calls front m with
  | zero =>
    obtain rfl := List.length_eq_zero_iff.1 (Nat.le_zero.1 fuel)
    exact iff_of_true ⟨_, rfl⟩ trivial
  | succ n ih =>
    unfold readdirLoop
    cases first : strtok [comma] m with
    | none =>
      rw [pieces_of_none noNul first]
      exact iff_of_true ⟨_, rfl⟩ trivial
    | some name =>
      obtain ⟨parts, noNul₁⟩ := pieces_of_some noNul first
      have shorter₁ := strtok_rest_lt noNul first
      rw [parts]
      dsimp only
      by_cases long : 100 ≤ name.token.length
      · rw [if_pos long]
        refine iff_of_false (by rintro ⟨p, h⟩; cases h) fun threes => ?_
        exact absurd threes.short (not_lt.2 long)
      · rw [if_neg long]
        cases second : strtok [comma] name.rest with
        | none =>
          rw [pieces_of_none noNul₁ second]
          exact iff_of_false (by rintro ⟨p, h⟩; cases h) id
        | some ino =>
          obtain ⟨parts₁, noNul₂⟩ := pieces_of_some noNul₁ second
          have shorter₂ := strtok_rest_lt noNul₁ second
          rw [parts₁]
          dsimp only
          cases third : strtok [comma] ino.rest with
          | none =>
            rw [pieces_of_none noNul₂ third]
            exact iff_of_false (by rintro ⟨p, h⟩; cases h) id
          | some mode =>
            obtain ⟨parts₂, noNul₃⟩ := pieces_of_some noNul₂ third
            have shorter₃ := strtok_rest_lt noNul₂ third
            rw [parts₂]
            show _ ↔ _ ∧ _
            rw [and_iff_right (not_le.1 long)]
            dsimp only
            split_ifs with full
            · exact iff_of_true ⟨_, rfl⟩ (Or.inl full)
            · rw [ih _ noNul₃ (by omega)]
              exact (or_iff_right full).symm

/-- The text of the entries, as `sendresponse_readdir` sends it, has the pieces of the listing. -/
theorem pieces_listing (entries : List Dirent) :
    let text := entries.flatMap fun de => de.d_name.bytes ++
      comma :: (snprintf 10 de.d_type ++ comma :: (snprintf 10 de.d_ino ++ [comma]))
    NoNul text ∧ pieces comma text = listed entries := by
  induction entries with
  | nil => exact ⟨noNul_nil, rfl⟩
  | cons de entries ih =>
    obtain ⟨noNul, parts⟩ := ih
    have type := isToken_number de.d_type
    have ino := isToken_number de.d_ino
    have separator : (comma : Byte) ≠ 0 := by decide
    dsimp only at noNul parts ⊢
    unfold listed at parts ⊢
    rw [List.flatMap_cons, List.flatMap_cons, List.append_assoc, List.cons_append,
      List.append_assoc, List.cons_append, List.append_assoc, List.singleton_append]
    constructor
    · refine de.d_name.noNul.append (noNul_cons.2 ⟨separator, type.noNul.append ?_⟩)
      exact noNul_cons.2 ⟨separator, ino.noNul.append (noNul_cons.2 ⟨separator, noNul⟩)⟩
    · rw [pieces_append, pieces_append, pieces_append, parts, type.pieces_eq, ino.pieces_eq]
      simp

/-- If `readdir` returns, it returns 0. -/
theorem readdirResult_value {r : Returned} (returned : readdirResult filler m = .ok r) :
    r.value = 0 := by
  unfold readdirResult at returned
  cases first : strtok [comma] m with
  | none =>
    rw [first] at returned
    cases returned
  | some t =>
    rw [first] at returned
    obtain ⟨p, -, made⟩ := bind_eq_ok.1 returned
    obtain rfl := Except.ok.inj made
    rfl

theorem readdirResult_ok_iff {entries : Option (List Dirent)} {errno : ℤ} {reply : List Byte}
    (sent : sendresponse_readdir entries errno = .ok reply) :
    (∃ r, readdirResult filler reply = .ok r) ↔ InThrees filler [] (listed (entries.getD [])) := by
  unfold sendresponse_readdir at sent
  dsimp only at sent
  split_ifs at sent
  obtain rfl := Except.ok.inj sent
  obtain ⟨noNul, parts⟩ := pieces_listing (entries.getD [])
  unfold readdirResult
  rw [strtok_comma (isToken_number errno), ← parts]
  show (∃ r, (readdirLoop filler _ [] _ _).bind _ = .ok r) ↔ _
  rw [← readdirLoop_ok_iff (Token.front ⟨[], snprintf 10 errno, [0], _⟩) noNul le_rfl]
  constructor
  · rintro ⟨r, returned⟩
    obtain ⟨p, looped, -⟩ := bind_eq_ok.1 returned
    exact ⟨p, looped⟩
  · rintro ⟨p, looped⟩
    rw [looped]
    exact ⟨_, rfl⟩

end Listings

/-! ## Outcomes -/

section Outcomes

variable {α : Type} {filler : List Filled → Bool} {buf reply front rest : List Byte} {o : Operation}
  {b : Retbuf} {r : Ending α} {f : α → ℤ} {e : ErrorNumber}

/-- An error number is printed whole. -/
theorem decimal_error (e : ErrorNumber) : (decimal e.1).length ≤ 3 := by
  have := e.2
  exact decimal_length (by omega) (by omega) (by norm_num)

theorem atoi_error (e : ErrorNumber) : atoi (snprintf 10 e.1) = e.1 :=
  atoi_snprintf_of_short ((decimal_error e).trans (by norm_num))

theorem toInt_error (e : ErrorNumber) : toInt (-e.1) = -e.1 := by
  have := e.2
  exact toInt_of_range (by omega) (by omega)

/-- What the client makes of the error number of a failure. -/
theorem negated_error (e : ErrorNumber) : toInt (-atoi (snprintf 10 e.1)) = -e.1 := by
  rw [atoi_error, toInt_error]

theorem atoi_minus_one : atoi (snprintf 10 (-1)) = -1 := atoi_snprintf_of_short (by decide)

/-- A reply that begins with the result of a system call and `errno` tells the outcome. -/
theorem tells_retbuf (own : o ≠ .statfs) (buffer : o.replybuf = .retbuf b)
    (fits : reply.length < b.size) (nonneg : ∀ a, 0 ≤ f a ∧ f a < 2 ^ 31)
    (read : status reply =
      .ok ⟨atoi (snprintf 10 (r.res f)), atoi (snprintf 10 r.errno), front, rest⟩) :
    Tells (o.afterReply filler buf reply) r.error := by
  obtain ⟨x, returned, value⟩ := retbufResult_value b buf read
  refine ⟨x, ?_, ?_⟩
  · rw [afterReply_of_fits own (by rw [buffer]; exact fits)]
    unfold Operation.result
    rw [buffer]
    exact returned
  · cases r with
    | failed e =>
      show x.value = -e.1
      have failure : x.value = toInt (-atoi (snprintf 10 e.1)) :=
        value.trans (if_pos atoi_minus_one)
      exact failure.trans (negated_error e)
    | succeeded a errno =>
      show 0 ≤ x.value
      have printed := atoi_snprintf_nonneg (nonneg a).1 (nonneg a).2
      have other : atoi (snprintf 10 (f a)) ≠ -1 := by omega
      have success : x.value = b.success (atoi (snprintf 10 (f a))) := value.trans (if_neg other)
      rw [success, Retbuf.success]
      split_ifs
      · exact printed
      · exact le_rfl

/-- A reply of `"-1"` and an error number. -/
theorem tells_failed (own : o ≠ .statfs) (buffer : o.replybuf = .retbuf b) :
    Tells (o.afterReply filler buf (str "-1" ++ comma :: snprintf 10 e.1)) (some e) := by
  have small : 100 ≤ b.size := by cases b <;> decide
  have := snprintf_length (-1)
  have := snprintf_length e.1
  rw [str_minus_one]
  refine tells_retbuf (r := .failed e) (f := fun _ : Unit => 0) own buffer ?_
    (fun _ => by norm_num) (status_pair (isToken_number (-1)) (isToken_number e.1))
  rw [List.length_append, List.length_cons]
  omega

/-- A reply of a result and an error number, with a closing comma. -/
theorem tells_mknod (own : o ≠ .statfs) (buffer : o.replybuf = .retbuf b) (r : Ending Unit) :
    Tells (o.afterReply filler buf (sendresponse_mknod (r.res fun _ => 0) r.errno)) r.error := by
  have small : 100 ≤ b.size := by cases b <;> decide
  have := snprintf_length (r.res fun _ => 0)
  have := snprintf_length r.errno
  refine tells_retbuf own buffer ?_ (fun _ => by norm_num)
    (status_fields (isToken_number _) (isToken_number _) [])
  unfold sendresponse_mknod
  simp only [List.length_append, List.length_cons, List.length_nil]
  omega

/-- A reply of a result and an error number, without one. -/
theorem tells_access (own : o ≠ .statfs) (buffer : o.replybuf = .retbuf b)
    (nonneg : ∀ a, 0 ≤ f a ∧ f a < 2 ^ 31) (r : Ending α) :
    Tells (o.afterReply filler buf (sendresponse_access (r.res f) r.errno)) r.error := by
  have small : 100 ≤ b.size := by cases b <;> decide
  have := snprintf_length (r.res f)
  have := snprintf_length r.errno
  refine tells_retbuf own buffer ?_ nonneg (status_pair (isToken_number _) (isToken_number _))
  unfold sendresponse_access
  rw [List.length_append, List.length_cons]
  omega

/-- `"-e"` and `e`, which `sendresponse_write` sends for a failed `pwrite`. -/
theorem tells_unsuccessful_write (e : ErrorNumber) :
    Tells (Operation.afterReply .write filler buf (sendresponse_write (some (-1)) e)) (some e) := by
  have := e.2
  have short : (decimal (-e.1)).length ≤ 4 :=
    decimal_length (by omega) (by omega) (by norm_num)
  have minus : atoi (snprintf 10 (-e.1)) = -e.1 := atoi_snprintf_of_short (by omega)
  have read := status_pair (isToken_number (-e.1)) (isToken_number e.1)
  rw [minus, atoi_error] at read
  obtain ⟨x, returned, value⟩ := retbufResult_value .write buf read
  have text : sendresponse_write (some (-1)) e = snprintf 10 (-e.1) ++ comma :: snprintf 10 e.1 :=
    rfl
  have := snprintf_length (-e.1)
  have := snprintf_length e.1
  refine ⟨x, ?_, ?_⟩
  · rw [text, afterReply_of_fits (by decide)]
    · exact returned
    · show _ < 100
      rw [List.length_append, List.length_cons]
      omega
  · show x.value = -e.1
    rw [value, toInt_error]
    split_ifs
    · rfl
    · unfold Retbuf.success
      rw [if_pos (Or.inr rfl)]

theorem tells_write (pwrite : Ending Count) :
    Tells (Operation.afterReply .write filler buf
      (sendresponse_write (some (pwrite.res Subtype.val)) pwrite.errno)) pwrite.error := by
  cases pwrite with
  | failed e => exact tells_unsuccessful_write e
  | succeeded n errno =>
    have text : sendresponse_write (some n.1) errno = sendresponse_access n.1 errno := by
      have := n.2
      have other : n.1 ≠ -1 := by omega
      show snprintf 10 (written n.1 errno) ++ _ = _
      rw [written, if_neg other, sendresponse_access]
    show Tells (Operation.afterReply .write filler buf (sendresponse_write (some n.1) errno)) none
    rw [text]
    exact tells_access (by decide) rfl (fun n : Count => n.2) (.succeeded n errno)

/-- The `char [10]` of `mkdir`, `rename` and `chmod` has room for seven characters of `errno`. -/
theorem tells_flag_iff (own : o ≠ .statfs) (ten : o.replybuf.size = 10)
    (tail : o.result filler buf = flagResult) (r : Ending Unit) :
    Tells (o.afterReply filler buf (flagReply (r.res fun _ => 0) r.errno)) r.error ↔
      (snprintf 10 r.errno).length ≤ 7 := by
  have size : (flagReply (r.res fun _ => 0) r.errno).length = (snprintf 10 r.errno).length + 2 := rfl
  by_cases fits : (snprintf 10 r.errno).length ≤ 7
  · refine iff_of_true ?_ fits
    obtain ⟨x, returned, value⟩ := flagResult_value (r.res fun _ => 0) r.errno
    refine ⟨x, ?_, ?_⟩
    · rw [afterReply_of_fits own (by omega), tail]
      exact returned
    · cases r with
      | failed e =>
        have failure : x.value = toInt (-atoi (snprintf 10 e.1)) := value.trans (if_pos rfl)
        exact failure.trans (negated_error e)
      | succeeded a errno =>
        have success : x.value = 0 := value.trans (if_neg (show (0 : ℤ) ≠ -1 by decide))
        exact success.ge
  · refine iff_of_false ?_ fits
    rintro ⟨x, returned, -⟩
    rw [afterReply_of_long own (by omega)] at returned
    cases returned

theorem fields_length (l : List ℤ) :
    (l.flatMap fun x => comma :: snprintf 10 x).length ≤ 10 * l.length := by
  induction l with
  | nil => exact le_rfl
  | cons x l ih =>
    have := snprintf_length x
    simp only [List.flatMap_cons, List.length_append, List.length_cons]
    omega

theorem sendresponse_getattr_length (st : Option Stat) (errno : ℤ) :
    (sendresponse_getattr st errno).length < 1000 := by
  have := snprintf_length errno
  unfold sendresponse_getattr
  cases st with
  | none =>
    have := snprintf_length (-1)
    simp only [str_minus_one, List.length_append, List.length_cons]
    omega
  | some st =>
    have := snprintf_length 0
    have fields := fields_length st.fields
    have count : st.fields.length = 13 := rfl
    simp only [List.length_append, List.length_cons]
    omega

/-- `getattr` tells the outcome. -/
theorem tells_getattr (stat : Ending Stat) :
    Tells (Operation.afterReply .getattr filler buf (sendresponse_getattr stat.value stat.errno))
      stat.error := by
  obtain ⟨x, returned, value⟩ := getattrResult_value stat.value stat.errno
  refine ⟨x, ?_, ?_⟩
  · rw [afterReply_of_fits (by decide) (sendresponse_getattr_length _ _)]
    exact returned
  · cases stat with
    | failed e =>
      have failure : x.value = toInt (-atoi (snprintf 10 e.1)) := value.trans (if_pos rfl)
      exact failure.trans (negated_error e)
    | succeeded a errno =>
      have success : x.value = 0 := value.trans (if_neg (Option.some_ne_none a))
      exact success.ge

theorem tells_unsuccessful_read (e : ErrorNumber) :
    Tells (Operation.afterReply .read filler buf (sendresponse_read (some (-1, [])) e)) (some e) :=
  tells_mknod (o := .read) (by decide) rfl (.failed e)

/-- The data of `read` must fit its buffer in the client. -/
theorem tells_read_iff (data : List Byte) (errno : ℤ) (small : data.length ≤ 4096) :
    Tells (Operation.afterReply .read filler buf
        (sendresponse_read (some (data.length, data)) errno)) none ↔
      (sendresponse_read (some (data.length, data)) errno).length < 4096 := by
  by_cases fits : (sendresponse_read (some (data.length, data)) errno).length < 4096
  · refine iff_of_true ?_ fits
    exact tells_retbuf (o := .read) (r := .succeeded data errno)
      (f := fun _ => (data.length : ℤ)) (by decide) rfl fits (fun _ => by omega)
      (status_fields (isToken_number _) (isToken_number _) (cstr data))
  · refine iff_of_false ?_ fits
    rintro ⟨x, returned, -⟩
    rw [afterReply_of_long (by decide) fits] at returned
    cases returned

/-- `readdir` never tells a failure, and a success when the listing comes in threes. -/
theorem tells_readdir_iff {opendir : Ending (List Dirent)}
    (sent : sendresponse_readdir opendir.value opendir.errno = .ok reply) :
    Tells (Operation.afterReply .readdir filler buf reply) opendir.error ↔
      Serving.Heard filler (.readdir opendir) := by
  have fits : reply.length < 10000 := by
    unfold sendresponse_readdir at sent
    dsimp only at sent
    split_ifs at sent with fits
    obtain rfl := Except.ok.inj sent
    exact fits
  have read : Operation.afterReply .readdir filler buf reply = readdirResult filler reply :=
    afterReply_of_fits (by decide) fits
  rw [read]
  cases opendir with
  | failed e =>
    refine iff_of_false ?_ id
    rintro ⟨r, returned, value⟩
    have := e.2
    have zero := readdirResult_value returned
    have minus : r.value = -e.1 := value
    omega
  | succeeded entries errno =>
    have ends : (∃ r, readdirResult filler reply = .ok r) ↔ InThrees filler [] (listed entries) :=
      readdirResult_ok_iff sent
    refine Iff.trans ?_ ends
    constructor
    · rintro ⟨r, returned, -⟩
      exact ⟨r, returned⟩
    · rintro ⟨r, returned⟩
      exact ⟨r, returned, (readdirResult_value returned).ge⟩

end Outcomes

/-- Exactly the outcomes that are `Heard` are reported to the caller. -/
theorem reported_iff_heard (served : Serving) (filler : List Filled → Bool) (buf reply : List Byte)
    (sent : served.reply = .ok reply) :
    served.Reported filler buf reply ↔ served.Heard filler := by
  unfold Serving.Reported
  cases served with
  | getattr stat =>
    obtain rfl := Except.ok.inj sent
    exact iff_of_true (tells_getattr stat) trivial
  | access r =>
    obtain rfl := Except.ok.inj sent
    exact iff_of_true (tells_access (by nofun) rfl (fun _ => by norm_num) r) trivial
  | readdir opendir => exact tells_readdir_iff sent
  | mknod r | unlink r | rmdir r | truncate r =>
    obtain rfl := Except.ok.inj sent
    exact iff_of_true (tells_mknod (by nofun) rfl r) trivial
  | mkdir r | rename r | chmod r =>
    obtain rfl := Except.ok.inj sent
    exact tells_flag_iff (by nofun) rfl rfl r
  | open_ opened =>
    obtain rfl := Except.ok.inj sent
    rw [sendresponse_open_eq]
    exact iff_of_true (tells_access (by nofun) rfl (fun n : Count => n.2) opened) trivial
  | unread e =>
    obtain rfl := Except.ok.inj sent
    exact iff_of_true (tells_failed (by nofun) rfl) trivial
  | read pread =>
    cases pread with
    | failed e =>
      obtain rfl := Except.ok.inj sent
      exact iff_of_true (tells_unsuccessful_read e) trivial
    | succeeded data errno =>
      unfold Serving.reply at sent
      dsimp only at sent
      split_ifs at sent with whole
      obtain rfl := Except.ok.inj sent
      exact tells_read_iff data errno whole.1
  | unwritten e =>
    obtain rfl := Except.ok.inj sent
    exact iff_of_true (tells_failed (by nofun) rfl) trivial
  | write pwrite =>
    obtain rfl := Except.ok.inj sent
    exact iff_of_true (tells_write pwrite) trivial
  | statfs statvfs =>
    refine iff_of_false ?_ id
    rintro ⟨r, returned, -⟩
    obtain ⟨e, fault⟩ := statfs_afterReply filler buf reply
    cases fault.symm.trans returned

/-- An `access` refused with error number 13. -/
theorem reported_refusal : (Serving.access (.failed ⟨13, by decide⟩)).Reported (fun _ => false) []
    (str "-1,13") :=
  (reported_iff_heard _ _ _ _ (by decide)).2 trivial

/-- A `readdir` that fails with error number 2 returns 0, and a `statfs` that succeeds never
returns. -/
theorem failures_unheard :
    ((Serving.readdir (.failed ⟨2, by decide⟩)).reply = .ok (str "2,") ∧
      ¬ (Serving.readdir (.failed ⟨2, by decide⟩)).Reported (fun _ => false) [] (str "2,")) ∧
    ∀ buf reply, ¬ (Serving.statfs (.succeeded ⟨0, 0, 0, 0, 0, 0, 0, 0, 0, 0, 0⟩ 0)).Reported
      (fun _ => false) buf reply := by
  refine ⟨⟨by decide, ?_⟩, ?_⟩
  · rintro ⟨r, returned, value⟩
    have zero : Operation.afterReply .readdir (fun _ => false) [] (str "2,") =
        .ok ⟨0, .entries [], [50, 0]⟩ := by decide
    obtain rfl := Except.ok.inj (zero.symm.trans returned)
    have same : (0 : ℤ) = -2 := value
    exact absurd same (by decide)
  · rintro buf reply ⟨r, returned, -⟩
    obtain ⟨e, fault⟩ := statfs_afterReply (fun _ => false) buf reply
    cases fault.symm.trans returned

end DistFs.Wire
