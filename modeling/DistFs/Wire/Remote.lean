import DistFs.Runs.Lockstep
import DistFs.Wire.Errors
import DistFs.Wire.Overruns
import DistFs.Wire.ReadWrite
import DistFs.Wire.Replications
import DistFs.Wire.RoundTrips

/-!
# The mount and the kernels behind it

Eleven of the fourteen operations of the mount act on the kernel of the data node that their path is
routed to, as if they were calls of that kernel: whatever the kernels do, the callers of the mount see
over the wire what the kernels answer.  What is said of the answers is that they are in kind and small
enough for the buffers, and that the contents of files are plain text.  An error number may be lost
where the reply to `access`, `open` or `write` ends with it; that there was an error is not.  The
reply to `mkdir` ends the client, which clears 10000 bytes from its `mkdir_buf[10]` on.
-/

namespace DistFs.Remote

open CText Machine Wire

/-- Text that no node takes apart. -/
def Plain (b : List Byte) : Prop := comma ∉ b ∧ 0 ∉ b

instance (b : List Byte) : Decidable (Plain b) := inferInstanceAs (Decidable (_ ∧ _))

/-! ## Kernels -/

/-- The operation that a call belongs to. -/
def operation : Call → Operation
  | .getattr _ => .getattr
  | .access _ _ => .access
  | .readdir _ => .readdir
  | .open_ _ _ => .open_
  | .read _ _ _ => .read
  | .write _ _ _ _ => .write
  | .mkdir _ _ => .mkdir
  | .mknod _ _ _ => .mknod
  | .truncate _ _ => .truncate
  | .unlink _ => .unlink
  | .rmdir _ => .rmdir
  | .statfs _ => .statfs
  | .chmod _ _ => .chmod
  | .rename _ _ => .rename

/-- `pwrite` gets no more than `size` bytes of the memory behind its pointer. -/
def bounded : Call → Call
  | .write path size offset (some m) => .write path size offset (some (bytesAt m size.toNat))
  | call => call

/-- What a call gets from the kernel of a data node, or of the name node (`none`): an answer in
kind. -/
structure Kernels (K : Type) where
  serve : K → Option (List Byte) → Call → Serving × K
  inKind : ∀ k node call, (serve k node call).1.operation = operation call

/-! ## Over the wire -/

/-- All reply buffers of a client. -/
abbrev Replies := Replybuf → List Byte

/-- An operation once its reply has arrived, for a caller with room for every directory entry.  It is
a fault to clear more than the buffer. -/
def receive (o : Operation) (reply buf : List Byte) (s : Replies) :
    Except Fault (Returned × Replies) := do
  let s ← match o.COMMAND_NAME.replybuf with
    | none => .ok s
    | some b =>
        if b.size < b.clearing then .error .overflow
        else (b.received reply (s b)).map (Function.update s b)
  let r ← o.result (fun _ => false) buf (s o.replybuf)
  return (r, Function.update s o.replybuf r.left)

/-- What the caller of an operation sees. -/
inductive Seen where
  | refused
  | failed (e : ℤ)
  | done
  | stat (stbuf : Stat)
  | statvfs (stbuf : Option Statvfs)
  | names (entries : List (List Byte))
  | data (bytes : List Byte)
  | wrote (n : ℤ)
deriving DecidableEq

/-- The replies that end with an error number, where digits of an earlier reply may follow. -/
def openEnded : Operation → Bool
  | .access | .open_ | .write => true
  | _ => false

/-- Of a directory entry only the name is looked at. -/
def see (o : Operation) (r : Returned) : Seen :=
  if r.value < 0 then
    if openEnded o then .refused else .failed (-r.value)
  else
    match r.output with
    | .stat stbuf => .stat stbuf
    | .statvfs stbuf => .statvfs stbuf
    | .entries calls => .names (calls.map Filled.name)
    | .data buf => .data (bytesAt buf r.value.toNat)
    | .nothing => if o = .write then .wrote r.value else .done

/-- An operation of the client on `host`, the nodes between it and the kernel, and the buffer of its
caller. -/
structure Mounted where
  host : Host
  op : Op
  net : Net
  namenode : List Byte
  tables : Tables
  buf : List Byte

variable {K : Type}

/-- An operation over the wire: without a reply it fails. -/
def onWire (kernels : Kernels K) :
    K × (List Byte → Replies) → Mounted → Except Fault (Seen × K × (List Byte → Replies))
  | (k, s), c => do
      match ← exchange c.net c.namenode c.tables c.host c.op with
      | none => return (.refused, k, s)
      | some served =>
          let (answer, k) := kernels.serve k served.node (bounded served.call)
          let reply ← answer.reply
          let (r, own) ← receive c.op.operation reply c.buf (s c.host.name)
          return (see c.op.operation r, k, Function.update s c.host.name own)

/-! ## On the kernels -/

section Answers

variable {α : Type}

/-- An error with its number, and one without. -/
def told (r : Ending α) (f : α → Seen) : Seen :=
  match r with
  | .failed e => .failed e
  | .succeeded a _ => f a

/-- An error without its number. -/
def hidden (r : Ending α) (f : α → Seen) : Seen :=
  match r with
  | .failed _ => .refused
  | .succeeded a _ => f a

/-- What the caller of a kernel sees. -/
def seen : Serving → Seen
  | .getattr r => told r .stat
  | .readdir r => told r fun entries => .names (entries.map fun de => de.d_name.bytes)
  | .mknod r | .mkdir r | .unlink r | .rmdir r | .rename r | .chmod r | .truncate r =>
      told r fun _ => .done
  | .access r => hidden r fun _ => .done
  | .open_ r => hidden r fun _ => .done
  | .read r => told r .data
  | .write r => hidden r fun n => .wrote n
  | .unread _ | .unwritten _ => .refused
  | .statfs r => told r fun stbuf => .statvfs (some stbuf)

/-- The error number that a call leaves. -/
def Usual (r : Ending α) : Prop := 0 ≤ r.errno ∧ r.errno < 4096

instance (r : Ending α) : Decidable (Usual r) := inferInstanceAs (Decidable (_ ∧ _))

instance (de : Dirent) : Decidable de.Ordinary :=
  decidable_of_iff (comma ∉ de.d_name.bytes ∧ de.d_name.bytes.length < 100 ∧
      (0 ≤ de.d_type ∧ de.d_type < 256) ∧ 0 ≤ de.d_ino ∧ de.d_ino < 10 ^ 9)
    ⟨fun ⟨plain, short, type, ino⟩ => ⟨plain, short, type, ino⟩,
      fun ⟨plain, short, type, ino⟩ => ⟨plain, short, type, ino⟩⟩

/-- An answer that the replies can carry: none to `mkdir`, no `opendir` that fails, which a client
takes for an empty directory, no file that cannot be opened to be read, and nothing too long. -/
def Ordinary : Serving → Prop
  | .getattr r => ∀ stbuf ∈ r.value, ∀ x ∈ stbuf.fields, 0 ≤ x ∧ x < 10 ^ 9
  | .readdir (.failed _) => False
  | .readdir (.succeeded entries errno) =>
      (∀ de ∈ entries, de.Ordinary ∧ de.d_name.bytes ≠ []) ∧
        (snprintf 10 errno ++ comma :: listing entries).length < 10000
  | .access r | .mknod r | .unlink r | .rmdir r | .rename r | .chmod r | .truncate r => Usual r
  | .open_ r | .write r => Usual r ∧ ∀ n ∈ r.value, n.1 < 10 ^ 6
  | .read r => Usual r ∧ ∀ data ∈ r.value, Plain data ∧ data.length ≤ 4080
  | .unwritten _ => True
  | .mkdir _ | .unread _ | .statfs _ => False

instance : (answer : Serving) → Decidable (Ordinary answer)
  | .getattr r =>
      inferInstanceAs (Decidable (∀ stbuf ∈ r.value, ∀ x ∈ stbuf.fields, 0 ≤ x ∧ x < 10 ^ 9))
  | .readdir (.failed _) | .mkdir _ | .unread _ | .statfs _ => inferInstanceAs (Decidable False)
  | .readdir (.succeeded entries errno) =>
      inferInstanceAs (Decidable ((∀ de ∈ entries, de.Ordinary ∧ de.d_name.bytes ≠ []) ∧
        (snprintf 10 errno ++ comma :: listing entries).length < 10000))
  | .access r | .mknod r | .unlink r | .rmdir r | .rename r | .chmod r | .truncate r =>
      inferInstanceAs (Decidable (Usual r))
  | .open_ r | .write r => inferInstanceAs (Decidable (Usual r ∧ ∀ n ∈ r.value, n.1 < 10 ^ 6))
  | .read r =>
      inferInstanceAs (Decidable (Usual r ∧ ∀ data ∈ r.value, Plain data ∧ data.length ≤ 4080))
  | .unwritten _ => inferInstanceAs (Decidable True)

end Answers

/-- An operation on the kernel of the data node where its path is at home.  Nothing is said behind an
answer that the replies cannot carry. -/
def onKernels (kernels : Kernels K) (home : List Byte → List Byte) (k : K) (c : Mounted) :
    Except Unit (Seen × K) :=
  let (answer, k) := kernels.serve k (some (home (my_path c.op.path))) (bounded c.op.call)
  if Ordinary answer then .ok (seen answer, k) else .error ()

/-- What a `write` needs besides: plain data, and room for it in the buffers of the nodes. -/
def Payload (host : Host) : Op → Prop
  | .write path buf size offset =>
      0 < size ∧ size < 1000 ∧ Plain (bytesAt buf size.toNat) ∧
        (framed .write host (Command.text .write ++ comma ::
          writeText path size offset (cstr buf))).length < 1000
  | _ => True

/-- The operation arrives as it was issued. -/
structure Mounted.Sendable (c : Mounted) (home : List Byte → List Byte) : Prop where
  notTruncate : c.op.command ≠ .truncate
  notStatfs : c.op.command ≠ .statfs
  plain : c.op.Plain
  short : c.op.Short
  built : ∃ r, c.op.request = .ok r
  payload : Payload c.host c.op
  route : Route c.net c.namenode c.tables (home (my_path c.op.path)) c.op.path

/-! ## Requests -/

section Requests

variable {home : List Byte → List Byte} {c : Mounted}

theorem operation_bounded (call : Call) : operation (bounded call) = operation call := by
  unfold bounded
  split <;> rfl

theorem operation_call (op : Op) : operation op.call = op.operation := by
  cases op <;> rfl

theorem plain_path {op : Op} (plain : op.Plain) : comma ∉ op.path.bytes := by
  cases op with
  | rename from_ to_ => exact plain.1
  | _ => exact plain

/-- A payload that is plain is found, with some memory behind it. -/
theorem payload_bytes {buf : List Byte} {n : ℕ} (positive : 0 < n) (plain : Plain (bytesAt buf n)) :
    ∃ v, (strtok [comma] (cstr buf)).map Token.view = some (bytesAt buf n ++ v) := by
  have enough : n ≤ buf.length := by
    by_contra short
    apply plain.2
    rw [bytesAt, List.take_append, List.take_of_length_le (by omega), List.take_replicate]
    apply List.mem_append_right
    rw [List.mem_replicate]
    exact ⟨by omega, rfl⟩
  have front : bytesAt buf n = buf.take n := by
    rw [bytesAt, List.take_append_of_le_length enough]
  have nonempty : buf.take n ≠ [] := by
    intro empty
    have size := congrArg List.length empty
    rw [List.length_take, List.length_nil] at size
    omega
  rw [front] at plain ⊢
  obtain ⟨v, found⟩ := @payload_plain (buf.take n) (buf.drop n) nonempty plain.1 plain.2
  rw [payload, List.take_append_drop] at found
  exact ⟨v, found⟩

/-- The call that the data node makes is the one that was asked for. -/
theorem exchange_sendable (sendable : c.Sendable home) : ∃ call,
    exchange c.net c.namenode c.tables c.host c.op =
      .ok (some ⟨some (home (my_path c.op.path)), c.host.name, call⟩) ∧
      bounded call = bounded c.op.call := by
  obtain ⟨notTruncate, notStatfs, plain, short, ⟨r, built⟩, payload, route⟩ := sendable
  have sent := sentPath_plain (plain_path plain)
  by_cases write : c.op.command = .write
  · cases op : c.op with
    | write path buf size offset =>
      simp only [op, Op.Plain, Op.path, Op.Short, Op.numbers, Payload, List.forall_mem_cons]
        at plain short payload route sent
      obtain ⟨positive, small, text, fits⟩ := payload
      obtain ⟨v, pointer⟩ := payload_bytes (by omega) text
      have parsed := fields_plain plain short.1 short.2.1 (cstr buf)
      rw [pointer] at parsed
      refine ⟨_, exchange_write fits route parsed, ?_⟩
      have size_eq : (bytesAt buf size.toNat).length = size.toNat := bytesAt_length _ _
      have cut := bytesAt_append (bytesAt buf size.toNat) v
      rw [size_eq] at cut
      simp only [bounded, Op.call, cut, sent]
    | _ =>
      rw [op] at write
      cases write
  · obtain ⟨reached, ⟨t', located⟩, known⟩ := route
    rw [sent] at located
    obtain ⟨r', built', sends⟩ := (message_iff built write reached).2 rfl
    obtain rfl := Except.ok.inj (built.symm.trans built')
    have command := request_command built notStatfs
    have calls := serve_located (message_noNul built) (nextToken_command _ _)
      (command ▸ Op.command_forwards notStatfs) (request_path plain built notTruncate)
      (framed_fits c.host built write) located known
    rw [server_call plain short built write notTruncate notStatfs, served] at calls
    refine ⟨c.op.call, ?_, rfl⟩
    simp only [exchange, built, bind, Except.bind, sends, calls]
    rfl

end Requests

/-! ## Replies -/

section Hearing

variable {o : Operation} {b : Retbuf} {reply buf tail m : List Byte} {s : Replies} {answer : Seen}
  {α : Type} {r : Ending α} {x : Returned} {res e : ℤ}

/-- The buffers whose replies end with an error number hold no more than twelve characters. -/
def Tidy (s : Replies) : Prop :=
  ∀ b ∈ [Retbuf.access, .open_, .write], (s (.retbuf b)).length ≤ 12

/-- Whatever earlier replies have left, the caller sees the answer. -/
def Hears (o : Operation) (reply : List Byte) (answer : Seen) : Prop :=
  ∀ s buf, Tidy s → ∃ x s', receive o reply buf s = .ok (x, s') ∧ see o x = answer ∧ Tidy s'

theorem receive_eq (own : o ≠ .statfs) (notMkdir : o ≠ .mkdir)
    (fits : reply.length < o.replybuf.size) (buf : List Byte) (s : Replies) :
    receive o reply buf s = (o.result (fun _ => false) buf
      (overlay reply (if o.replybuf.cleared then [] else s o.replybuf))).map fun x =>
        (x, Function.update s o.replybuf x.left) := by
  have clears : ¬ o.replybuf.size < o.replybuf.clearing := by
    rw [not_lt, Replybuf.clearing_le]
    cases o <;> first | exact absurd rfl notMkdir | exact nofun
  unfold receive
  rw [(command_replybuf o).2 own]
  simp only [if_neg clears, Replybuf.received, if_pos fits, Except.map, bind, Except.bind,
    Function.update_self, Function.update_idem]
  cases o.result (fun _ => false) buf
    (overlay reply (if o.replybuf.cleared then [] else s o.replybuf)) <;> rfl

theorem retbufResult_left (returned : retbufResult b m buf = .ok x) : x.left.length = m.length := by
  obtain ⟨d, decoded, rfl⟩ := map_eq_ok.1 returned
  exact decode_length decoded

theorem result_left (ended : openEnded o = true) (returned : o.result (fun _ => false) buf m = .ok x) :
    x.left.length = m.length := by
  cases o with
  | access | open_ | write => exact retbufResult_left returned
  | _ => cases ended

/-- An operation hears what its tail makes of the reply, with some text behind it: none if the buffer
is cleared, and a short one if it is among the tidy ones. -/
theorem hears_of (own : o ≠ .statfs) (notMkdir : o ≠ .mkdir) (fits : reply.length < o.replybuf.size)
    (short : openEnded o = true → reply.length ≤ 12)
    (heard : ∀ buf tail, (o.replybuf.cleared = true → tail = []) →
      (openEnded o = true → reply.length + tail.length ≤ 12) →
      ∃ x, o.result (fun _ => false) buf (reply ++ tail) = .ok x ∧ see o x = answer) :
    Hears o reply answer := by
  intro s buf tidy
  have length (ended : openEnded o = true) :
      (overlay reply (if o.replybuf.cleared then [] else s o.replybuf)).length ≤ 12 := by
    rw [overlay_length]
    have kept : (s o.replybuf).length ≤ 12 := by
      cases o with
      | access | open_ | write => exact tidy _ (by decide)
      | _ => cases ended
    have := short ended
    split_ifs
    · simpa using this
    · omega
  obtain ⟨x, returned, same⟩ := heard buf
    ((if o.replybuf.cleared then [] else s o.replybuf).drop reply.length)
    (fun cleared => by rw [if_pos cleared, List.drop_nil])
    (fun ended => by rw [← List.length_append]; exact length ended)
  refine ⟨x, Function.update s o.replybuf x.left, ?_, same, ?_⟩
  · rw [receive_eq own notMkdir fits, overlay, returned]
    rfl
  · intro b mem
    by_cases here : Replybuf.retbuf b = o.replybuf
    · have ended : openEnded o = true := by
        cases o with
        | access | open_ | write => rfl
        | _ =>
          simp only [Operation.replybuf, Replybuf.retbuf.injEq, reduceCtorEq] at here
          all_goals
            subst here
            exact absurd mem (by decide)
      rw [here, Function.update_self, result_left ended returned]
      exact length ended
    · rw [Function.update_of_ne here]
      exact tidy b mem

/-! ### Results -/

theorem see_failed (ended : openEnded o = false) (negative : x.value = -e) (error : 0 < e) :
    see o x = .failed e := by
  rw [see, if_pos (by omega), if_neg (by rw [ended]; decide), negative, neg_neg]

theorem see_refused (ended : openEnded o = true) (negative : x.value < 0) : see o x = .refused := by
  rw [see, if_pos negative, if_pos ended]

theorem see_done (notWrite : o ≠ .write) (value : 0 ≤ x.value) (output : x.output = .nothing) :
    see o x = .done := by
  rw [see, if_neg (by omega), output]
  exact if_neg notWrite

theorem retbufResult_nothing (notRead : b ≠ .read) (returned : retbufResult b m buf = .ok x) :
    x.output = .nothing := by
  obtain ⟨d, -, rfl⟩ := map_eq_ok.1 returned
  exact if_neg notRead

theorem errno_short (r : Ending α) (usual : Usual r) : (decimal r.errno).length ≤ 9 :=
  (errno_length usual).trans (by norm_num)

/-- A result and an error number with a comma behind each. -/
theorem hears_closed (buffer : o.replybuf = .retbuf b) (ended : openEnded o = false)
    (notRead : b ≠ .read) (notWrite : o ≠ .write) (own : o ≠ .statfs) (success : b.success 0 = 0)
    (r : Ending Unit) (usual : Usual r) :
    Hears o (sendresponse_mknod (r.res fun _ => 0) r.errno) (told r fun _ => .done) := by
  have number : (decimal (r.res fun _ => 0)).length ≤ 9 := by
    cases r with
    | failed e => exact (by decide : (decimal (-1)).length ≤ 9)
    | succeeded a errno => exact (by decide : (decimal 0).length ≤ 9)
  have size : 100 ≤ o.replybuf.size := by
    rw [buffer]
    cases b <;> decide
  have notMkdir : o ≠ .mkdir := by
    rintro rfl
    cases buffer
  have := snprintf_length (r.res fun _ => 0)
  have := snprintf_length r.errno
  apply hears_of own notMkdir
  · simp only [sendresponse_mknod, List.length_append, List.length_cons, List.length_nil]
    omega
  · intro open_
    rw [ended] at open_
    cases open_
  · intro buf tail _ _
    obtain ⟨front, read⟩ := status_closed ⟨_, number⟩ ⟨_, errno_short r usual⟩ tail
    obtain ⟨x, returned, value⟩ := retbufResult_value b buf read
    have text : sendresponse_mknod (r.res fun _ => 0) r.errno ++ tail =
        snprintf 10 (r.res fun _ => 0) ++ comma :: (snprintf 10 r.errno ++ comma :: tail) := by
      simp [sendresponse_mknod]
    refine ⟨x, ?_, ?_⟩
    · rw [text, Operation.result, buffer]
      exact returned
    · cases r with
      | failed e =>
        have failure : x.value = toInt (-e.1) := value.trans (if_pos rfl)
        exact see_failed ended (failure.trans (toInt_error e)) (by have := e.2; omega)
      | succeeded a errno =>
        have done : x.value = b.success 0 := value.trans (if_neg (by decide : ¬ (0 : ℤ) = -1))
        exact see_done notWrite (by omega) (retbufResult_nothing notRead returned)

/-- An error number that ends its reply is positive, although digits may follow it. -/
theorem errno_open (error : 0 < e ∧ e < 4096) (short : (decimal e).length + tail.length ≤ 9) :
    0 < atoi (scanToken [comma] (snprintf 10 e ++ tail)).token ∧
      atoi (scanToken [comma] (snprintf 10 e ++ tail)).token < 10 ^ 9 := by
  have size := errno_length ⟨error.1.le, error.2⟩
  have number : snprintf 10 e = decimal e := snprintf_of_short (by omega)
  have token := isToken_number e
  have unmarked : (scanToken [comma] (snprintf 10 e)).mark = [] := by
    rw [scanToken_last token.noNul token.plain]
  rw [scanToken_append_open token.noNul tail unmarked, scanToken_last token.noNul token.plain, number]
  apply atoi_pos error.1
  have := scanToken_token_length tail
  rw [List.length_append]
  omega

/-- A result and an error number without a comma behind it. -/
theorem hears_access (buffer : o.replybuf = .retbuf b) (ended : openEnded o = true)
    (range : -4096 < res ∧ res < 10 ^ 6) (error : 0 ≤ e ∧ e < 4096)
    (failed : res = -1 → 0 < e ∧ answer = .refused)
    (other : res ≠ -1 → ∀ left, see o ⟨b.success res, .nothing, left⟩ = answer) :
    Hears o (sendresponse_access res e) answer := by
  have shortRes := result_length range
  have shortErrno := errno_length error
  have own : o ≠ .statfs := by
    rintro rfl
    cases ended
  have notMkdir : o ≠ .mkdir := by
    rintro rfl
    cases ended
  have notRead : b ≠ .read := by
    rintro rfl
    cases o with
    | access | open_ | write => cases buffer
    | _ => cases ended
  have size : 100 ≤ o.replybuf.size := by
    rw [buffer]
    cases b <;> decide
  have length : (sendresponse_access res e).length = (decimal res).length + (decimal e).length + 1 := by
    rw [sendresponse_access, snprintf_of_short (by omega), snprintf_of_short (by omega),
      List.length_append, List.length_cons]
    omega
  apply hears_of own notMkdir
  · omega
  · intro
    omega
  · intro buf tail _ together
    have together := together ended
    obtain ⟨front, rest, read⟩ := status_open ⟨res, by omega⟩ e tail
    obtain ⟨x, returned, value⟩ := retbufResult_value b buf read
    have text : sendresponse_access res e ++ tail =
        snprintf 10 res ++ comma :: (snprintf 10 e ++ tail) := by
      simp [sendresponse_access]
    refine ⟨x, ?_, ?_⟩
    · rw [text, Operation.result, buffer]
      exact returned
    · by_cases minusOne : res = -1
      · obtain ⟨positive, rfl⟩ := failed minusOne
        subst minusOne
        have two : (decimal (-1)).length = 2 := by decide
        have bound := @errno_open tail e ⟨positive, error.2⟩ (by omega)
        rw [if_pos rfl, toInt_of_range (by omega) (by omega)] at value
        exact see_refused ended (by omega)
      · rw [if_neg minusOne] at value
        have nothing := retbufResult_nothing notRead returned
        have same := other minusOne x.left
        rwa [← value, ← nothing] at same

/-- `'Y'` or `'N'` and an error number, in a buffer that has been cleared. -/
theorem hears_flag (own : o ≠ .statfs) (notMkdir : o ≠ .mkdir) (ten : o.replybuf.size = 10)
    (cleared : o.replybuf.cleared = true) (ended : openEnded o = false) (notWrite : o ≠ .write)
    (tail_eq : ∀ buf, o.result (fun _ => false) buf = flagResult) (r : Ending Unit)
    (usual : Usual r) :
    Hears o (flagReply (r.res fun _ => 0) r.errno) (told r fun _ => .done) := by
  have number : snprintf 10 r.errno = decimal r.errno := snprintf_of_short (errno_short r usual)
  have short := errno_length usual
  apply hears_of own notMkdir
  · rw [ten, flagReply, List.length_cons, List.length_cons, number]
    omega
  · intro open_
    rw [ended] at open_
    cases open_
  · intro buf tail nothing _
    obtain ⟨x, returned, value⟩ := flagResult_value (r.res fun _ => 0) r.errno
    rw [nothing cleared, List.append_nil, tail_eq]
    refine ⟨x, returned, ?_⟩
    obtain ⟨d, -, rfl⟩ := map_eq_ok.1 returned
    cases r with
    | failed e =>
      exact see_failed ended (value.trans ((if_pos rfl).trans (negated_error e)))
        (by have := e.2; omega)
    | succeeded a errno =>
      have done := value.trans (if_neg (by decide : ¬ (0 : ℤ) = -1))
      exact see_done notWrite done.ge rfl

theorem hears_getattr (r : Ending Stat)
    (small : ∀ stbuf ∈ r.value, ∀ x ∈ stbuf.fields, 0 ≤ x ∧ x < 10 ^ 9) :
    Hears .getattr (sendresponse_getattr r.value r.errno) (told r .stat) := by
  apply hears_of (by decide) (by decide) (sendresponse_getattr_length _ _)
    (fun ended => absurd ended (by decide))
  intro buf tail nothing _
  rw [nothing rfl, List.append_nil]
  cases r with
  | failed e =>
    obtain ⟨x, returned, value⟩ := getattrResult_value none e
    refine ⟨x, returned, ?_⟩
    exact see_failed rfl (value.trans ((if_pos rfl).trans (negated_error e))) (by have := e.2; omega)
  | succeeded stbuf errno =>
    obtain ⟨left, returned⟩ := getattrResult_some stbuf errno
    have fields : Stat.ofFields (stbuf.fields.map fun x => atoi (snprintf 10 x)) = stbuf := by
      rw [ofFields_eq_iff]
      intro x mem
      have := small stbuf rfl x mem
      rw [atoi_snprintf_iff]
      omega
    rw [fields] at returned
    exact ⟨_, returned, rfl⟩

theorem hears_readdir {entries : List Dirent} {errno : ℤ}
    (ordinary : ∀ de ∈ entries, de.Ordinary ∧ de.d_name.bytes ≠ [])
    (fits : (snprintf 10 errno ++ comma :: listing entries).length < 10000) :
    Hears .readdir (snprintf 10 errno ++ comma :: listing entries)
      (.names (entries.map fun de => de.d_name.bytes)) := by
  apply hears_of (by decide) (by decide) fits (fun ended => absurd ended (by decide))
  intro buf tail nothing _
  obtain ⟨left, looped⟩ := readdirLoop_listing (fun _ => false) []
    (fun de mem => (ordinary de mem).1) (fun de mem => (ordinary de mem).2)
    (length_le_listing entries) (Token.front ⟨[], snprintf 10 errno, [0], listing entries⟩)
  rw [accepted_all, List.nil_append] at looped
  refine ⟨⟨0, .entries (entries.map Dirent.misread), left⟩, ?_, ?_⟩
  · rw [nothing rfl, List.append_nil]
    show readdirResult (fun _ => false) _ = _
    rw [readdirResult, strtok_comma (isToken_number errno)]
    simp only [looped, bind, Except.bind]
    rfl
  · show Seen.names ((entries.map Dirent.misread).map Filled.name) = _
    rw [List.map_map]
    rfl

theorem hears_unread {e : ErrorNumber} :
    Hears .read (sendresponse_read (some (-1, [])) e) (.failed e) := by
  have number : (decimal e.1).length ≤ 9 := (decimal_error e).trans (by norm_num)
  have := snprintf_length (-1)
  have := snprintf_length e.1
  apply hears_of (by decide) (by decide)
  · simp only [sendresponse_read, List.length_append, List.length_cons]
    have : (cstr []).length = 0 := rfl
    have : Operation.read.replybuf.size = 4096 := rfl
    omega
  · intro ended
    cases ended
  · intro buf tail _ _
    obtain ⟨x, decoded, result⟩ := decode_read_result ⟨-1, by decide⟩ ⟨e.1, number⟩ [] tail buf
    rw [if_pos rfl] at result
    obtain ⟨value, -⟩ := Prod.mk.inj result
    refine ⟨⟨x.value, .data x.buf, x.left⟩, ?_, ?_⟩
    · show (decode .read _ _).map _ = _
      rw [decoded]
      rfl
    · exact see_failed rfl (value.trans (toInt_error e)) (by have := e.2; omega)

/-- A text without separators is found in front of whatever an earlier reply has left. -/
theorem readData_plain {data : List Byte} (plain : Plain data) (left : List Byte) :
    bytesAt (readData (data ++ left) buf) data.length = data := by
  by_cases empty : data = []
  · subst empty
    rfl
  · have token : IsToken [comma] data := by
      refine ⟨empty, plain.2, fun c hc hd => ?_⟩
      rw [List.mem_singleton] at hd
      exact plain.1 (hd ▸ hc)
    rw [readData_open plain.2 (strtok_last token) rfl, overlay]
    simp only [List.append_assoc]
    rw [bytesAt_append]

theorem hears_data {data : List Byte} {errno : ℤ} (plain : Plain data) (small : data.length ≤ 4080)
    (error : 0 ≤ errno ∧ errno < 4096) :
    Hears .read (sendresponse_read (some ((data.length : ℤ), data)) errno) (.data data) := by
  have string : cstr data = data := cstr_of_noNul plain.2
  have shortSize : (decimal (data.length : ℤ)).length ≤ 4 := errno_length ⟨by omega, by omega⟩
  have shortErrno := errno_length error
  apply hears_of (by decide) (by decide)
  · rw [sendresponse_read, snprintf_of_short (by omega), snprintf_of_short (by omega), string]
    simp only [List.length_append, List.length_cons]
    have : Operation.read.replybuf.size = 4096 := rfl
    omega
  · intro ended
    cases ended
  · intro buf tail _ _
    obtain ⟨x, decoded, result⟩ := decode_read_result ⟨data.length, by omega⟩ ⟨errno, by omega⟩ data
      tail buf
    have notFailed : (data.length : ℤ) ≠ -1 := by omega
    rw [if_neg notFailed, string] at result
    obtain ⟨value, bytes⟩ := Prod.mk.inj result
    refine ⟨⟨x.value, .data x.buf, x.left⟩, ?_, ?_⟩
    · unfold Operation.result Operation.replybuf retbufResult
      dsimp only
      rw [decoded]
      rfl
    · rw [see, if_neg (by simp [value]), value, bytes, Int.toNat_natCast]
      simp only [readData_plain plain]

/-- `xmp_write` returns the count, or a negative number. -/
theorem hears_write (r : Ending Count) (usual : Usual r) (small : ∀ n ∈ r.value, n.1 < 10 ^ 6) :
    Hears .write (sendresponse_write (some (r.res Subtype.val)) r.errno)
      (hidden r fun n => .wrote n) := by
  cases r with
  | failed e =>
    have bounds := e.2
    have text : sendresponse_write (some (-1)) e.1 = sendresponse_access (-e.1) e.1 := by
      rw [sendresponse_write, written, if_pos rfl]
      rfl
    show Hears .write (sendresponse_write (some (-1)) e.1) .refused
    rw [text]
    apply hears_access rfl rfl ⟨by omega, by omega⟩ ⟨by omega, by omega⟩
    · exact fun _ => ⟨by omega, rfl⟩
    · intro _ left
      apply see_refused rfl
      show Retbuf.success .write (-e.1) < 0
      rw [Retbuf.success, if_pos (.inr rfl)]
      omega
  | succeeded n errno =>
    have bounds := n.2
    have few : n.1 < 10 ^ 6 := small n rfl
    have text : sendresponse_write (some n.1) errno = sendresponse_access n.1 errno := by
      rw [sendresponse_write, written, if_neg (by omega)]
      rfl
    show Hears .write (sendresponse_write (some n.1) errno) (.wrote n.1)
    rw [text]
    apply hears_access rfl rfl ⟨by omega, few⟩ usual
    · exact fun minusOne => by omega
    · intro _ left
      have count : Retbuf.success .write n.1 = n.1 := if_pos (.inr rfl)
      rw [count, see, if_neg (by simp only; omega)]
      rfl

/-- `access` and `open` return 0, or a negative number. -/
theorem hears_status (buffer : o.replybuf = .retbuf b) (ended : openEnded o = true)
    (notWrite : o ≠ .write) (success : ∀ res, b.success res = 0) {f : α → ℤ} (r : Ending α)
    (usual : Usual r) (small : ∀ a ∈ r.value, 0 ≤ f a ∧ f a < 10 ^ 6) :
    Hears o (sendresponse_access (r.res f) r.errno) (hidden r fun _ => .done) := by
  cases r with
  | failed e =>
    have bounds := e.2
    show Hears o (sendresponse_access (-1) e.1) .refused
    apply hears_access buffer ended ⟨by decide, by decide⟩ ⟨by omega, by omega⟩
    · exact fun _ => ⟨by omega, rfl⟩
    · exact fun other => absurd rfl other
  | succeeded a errno =>
    have bounds := small a rfl
    apply hears_access buffer ended ⟨by omega, bounds.2⟩ usual
    · intro minusOne
      have : f a = -1 := minusOne
      omega
    · intro _ left
      rw [success]
      exact see_done notWrite le_rfl rfl

theorem hears_unwritten (e : ErrorNumber) : Hears .write (sendresponse_write none e) .refused := by
  have bounds := e.2
  have text : sendresponse_write none e.1 = sendresponse_access (-1) e.1 := by
    rw [sendresponse_write, str_minus_one]
    rfl
  rw [text]
  apply hears_access rfl rfl ⟨by decide, by decide⟩ ⟨by omega, by omega⟩
  · exact fun _ => ⟨by omega, rfl⟩
  · exact fun other => absurd rfl other

/-- Every ordinary answer is heard. -/
theorem hears_ordinary (answer : Serving) (ordinary : Ordinary answer) :
    ∃ reply, answer.reply = .ok reply ∧ Hears answer.operation reply (seen answer) := by
  cases answer with
  | getattr r => exact ⟨_, rfl, hears_getattr r ordinary⟩
  | access r =>
    exact ⟨_, rfl,
      hears_status (o := .access) (b := .access) rfl rfl (by decide) (fun _ => rfl) r ordinary
        fun _ _ => by norm_num⟩
  | readdir r =>
    cases r with
    | failed e => exact ordinary.elim
    | succeeded entries errno =>
      exact ⟨_, if_pos ordinary.2, hears_readdir ordinary.1 ordinary.2⟩
  | mknod r =>
    exact ⟨_, rfl,
      hears_closed (o := .mknod) (b := .mknod) rfl rfl (by decide) (by decide) (by decide)
        rfl r ordinary⟩
  | unlink r =>
    exact ⟨_, rfl,
      hears_closed (o := .unlink) (b := .unlink) rfl rfl (by decide) (by decide) (by decide)
        rfl r ordinary⟩
  | rmdir r =>
    exact ⟨_, rfl,
      hears_closed (o := .rmdir) (b := .rmdir) rfl rfl (by decide) (by decide) (by decide)
        rfl r ordinary⟩
  | truncate r =>
    exact ⟨_, rfl,
      hears_closed (o := .truncate) (b := .truncate) rfl rfl (by decide) (by decide) (by decide)
        rfl r ordinary⟩
  | mkdir r => exact ordinary.elim
  | rename r =>
    exact ⟨_, rfl, hears_flag (o := .rename) (by decide) (by decide) rfl rfl rfl (by decide)
      (fun _ => rfl) r ordinary⟩
  | chmod r =>
    exact ⟨_, rfl, hears_flag (o := .chmod) (by decide) (by decide) rfl rfl rfl (by decide)
      (fun _ => rfl) r ordinary⟩
  | open_ r =>
    refine ⟨_, rfl, ?_⟩
    rw [sendresponse_open_eq]
    exact hears_status (o := .open_) (b := .open_) rfl rfl (by decide) (fun _ => rfl) r ordinary.1
      fun n mem => ⟨n.2.1, ordinary.2 n mem⟩
  | unread e => exact ordinary.elim
  | read r =>
    cases r with
    | failed e => exact ⟨_, rfl, hears_unread⟩
    | succeeded data errno =>
      obtain ⟨plain, small⟩ := ordinary.2 data rfl
      have string : cstr data = data := cstr_of_noNul plain.2
      refine ⟨_, if_pos ⟨by omega, by rw [string]; omega⟩, hears_data plain small ordinary.1⟩
  | unwritten e => exact ⟨_, rfl, hears_unwritten e⟩
  | write r => exact ⟨_, rfl, hears_write r ordinary.1 ordinary.2⟩
  | statfs r => exact ordinary.elim

end Hearing

/-! ## Sessions -/

/-- An operation that a node has served, and the reply buffers behind it. -/
theorem onWire_served {kernels : Kernels K} {k : K} {s : List Byte → Replies} {c : Mounted}
    {served : Served}
    (exchanged : exchange c.net c.namenode c.tables c.host c.op = .ok (some served))
    (kind : operation served.call = c.op.operation)
    (ordinary : Ordinary (kernels.serve k served.node (bounded served.call)).1)
    (tidy : ∀ h, Tidy (s h)) :
    ∃ s', onWire kernels (k, s) c =
        .ok (seen (kernels.serve k served.node (bounded served.call)).1,
          (kernels.serve k served.node (bounded served.call)).2, s') ∧ ∀ h, Tidy (s' h) := by
  have same := kernels.inKind k served.node (bounded served.call)
  rw [operation_bounded, kind] at same
  obtain ⟨reply, replied, hears⟩ := hears_ordinary _ ordinary
  rw [same] at hears
  obtain ⟨x, own, received, heard, tidy'⟩ := hears (s c.host.name) c.buf (tidy _)
  refine ⟨Function.update s c.host.name own, ?_, fun h => ?_⟩
  · simp only [onWire, exchanged, replied, received, bind, Except.bind, heard]
    rfl
  · by_cases here : h = c.host.name
    · rw [here, Function.update_self]
      exact tidy'
    · rw [Function.update_of_ne here]
      exact tidy h

/-- One operation of one client. -/
theorem onWire_follows {kernels : Kernels K} {home : List Byte → List Byte} {k k' : K}
    {s : List Byte → Replies} {c : Mounted} {o : Seen} (sendable : c.Sendable home)
    (tidy : ∀ h, Tidy (s h)) (returned : onKernels kernels home k c = .ok (o, k')) :
    ∃ s', onWire kernels (k, s) c = .ok (o, k', s') ∧ ∀ h, Tidy (s' h) := by
  obtain ⟨call, exchanged, same⟩ := exchange_sendable sendable
  unfold onKernels at returned
  dsimp only at returned
  split_ifs at returned with ordinary
  cases returned
  have kind : operation call = c.op.operation := by
    rw [← operation_bounded, same, operation_bounded, operation_call]
  rw [← same] at ordinary ⊢
  exact onWire_served exchanged kind ordinary tidy

/-- The name is taken. -/
def EEXIST : ErrorNumber := ⟨17, by decide⟩

/-- The kernel does not know the call. -/
def ENOSYS : ErrorNumber := ⟨38, by decide⟩

/-- A kernel with one file, there or not, that knows no other call than `mknod`. -/
def oneName : Kernels Bool where
  serve there _ call :=
    match call with
    | .mknod _ _ _ => (.mknod (if there then .failed EEXIST else .succeeded () 0), true)
    | .getattr _ => (.getattr (.failed ENOSYS), there)
    | .access _ _ => (.access (.failed ENOSYS), there)
    | .readdir _ => (.readdir (.failed ENOSYS), there)
    | .open_ _ _ => (.open_ (.failed ENOSYS), there)
    | .read _ _ _ => (.unread ENOSYS, there)
    | .write _ _ _ _ => (.unwritten ENOSYS, there)
    | .mkdir _ _ => (.mkdir (.failed ENOSYS), there)
    | .truncate _ _ => (.truncate (.failed ENOSYS), there)
    | .unlink _ => (.unlink (.failed ENOSYS), there)
    | .rmdir _ => (.rmdir (.failed ENOSYS), there)
    | .statfs _ => (.statfs (.failed ENOSYS), there)
    | .chmod _ _ => (.chmod (.failed ENOSYS), there)
    | .rename _ _ => (.rename (.failed ENOSYS), there)
  inKind there _ call := by cases call <;> rfl

/-- A file is made. -/
def mknodF : Mounted :=
  ⟨oneHost, .mknod slashF 420 0, upNet, str "n", oneFile (my_path slashF), []⟩

end DistFs.Remote
