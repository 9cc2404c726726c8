import DistFs.Runs.Machine
import DistFs.Wire.Operations

/-!
# Replies and requests

The client as a machine: operations one after another, each with a `receiveresponse_client` thread
of its own, and a network that delays, reorders and drops.  An operation that gives up leaves its
thread alive, since `pthread_kill` with signal 0 does nothing.  What an operation waits for is one
flag, and neither requests nor replies are numbered: the numbers of the model do not travel, and no
step looks at them.  A fault ends the process, so it has no next state.
-/

namespace DistFs.Matching

open CText Machine Wire

/-- An operation that has been called, with what its caller passes to it. -/
structure Issued where
  number : ℕ
  operation : Operation
  filler : List Filled → Bool
  buf : List Byte

/-- Where the client is in an operation. -/
inductive Client where
  | idle
  | clearing (t : Issued)
  | sending (t : Issued)
  | waiting (t : Issued) (counter : ℕ)
  | joining (t : Issued)
  | decoding (t : Issued)

/-- The operation under way. -/
def Client.issued : Client → Option Issued
  | idle => none
  | clearing t | sending t | waiting t _ | joining t | decoding t => some t

/-- The operation that has cleared the flag and not yet found it set. -/
def Client.listening : Client → Option Issued
  | sending t | waiting t _ => some t
  | idle | clearing _ | joining _ | decoding _ => none

/-- Where a `receiveresponse_client` is.  `got` is the buffer it has received into, and the number of
the request that this reply answers. -/
inductive Receiver where
  | absent
  | created
  | cleared
  | opened
  | waiting (b : Replybuf)
  | received (got : Option (Replybuf × ℕ))
  | closed (got : Option (Replybuf × ℕ))
deriving DecidableEq

/-- The buffer that has received, and the request whose reply came. -/
def Receiver.got : Receiver → Option (Replybuf × ℕ)
  | received got | closed got => got
  | absent | created | cleared | opened | waiting _ => none

/-- A reply buffer.  `filled` is the request whose reply was the last one to arrive in it. -/
structure Buffer where
  bytes : List Byte
  filled : Option ℕ
deriving DecidableEq

/-- A reply, and the number of the request it answers. -/
structure Response where
  request : ℕ
  bytes : List Byte
deriving DecidableEq

/-- How an operation returns: with the -1 of a timeout or a failed `sendcommand`, or with a value
taken from its buffer. -/
inductive Ended where
  | gaveUp
  | decoded (filled : Option ℕ) (value : ℤ)
deriving DecidableEq

/-- The client and the network.  `port` is the thread that is bound to `RESPONSE_PORT`; `produced` and
`returned` are the history. -/
structure State where
  clientreceive_success : ℤ
  COMMAND_NAME : Option Command
  client : Client
  calls : ℕ
  receivers : ℕ → Receiver
  port : Option ℕ
  buffers : Replybuf → Buffer
  requests : List ℕ
  responses : List Response
  produced : List Response
  returned : List (Issued × Ended)

/-- No operation has been called. -/
def State.init : State where
  clientreceive_success := 1
  COMMAND_NAME := none
  client := .idle
  calls := 0
  receivers _ := .absent
  port := none
  buffers _ := ⟨[], none⟩
  requests := []
  responses := []
  produced := []
  returned := []

/-- What may happen next: a step of the client, of a receiver, of a serving node or of the network.
`found` is whether `sendcommand` finds the name node, and `seen` what a receiver reads in
`COMMAND_NAME`, which is freed memory once its operation is over. -/
inductive Event where
  | call (o : Operation) (filler : List Filled → Bool) (buf : List Byte)
  | clear
  | send (found : Bool)
  | poll
  | join
  | decode
  | start (r : ℕ)
  | bind (r : ℕ)
  | branch (r : ℕ) (seen : Option Command)
  | receive (r : ℕ) (d : Response)
  | close (r : ℕ)
  | finish (r : ℕ)
  | serve (q : ℕ) (bytes : List Byte)
  | loseRequest (q : ℕ)
  | loseResponse (d : Response)

/-- The operations that wait for their thread once the flag is set. -/
def joins (o : Operation) : Bool := o = .getattr ∨ o = .mkdir

/-- The steps of the client.  `statfs` does not clear the flag; `mkdir` frees `COMMAND_NAME` only when
it gives up. -/
def clientStep (s : State) : Event → Option State
  | .call o filler buf =>
      match s.client with
      | .idle =>
          let t : Issued := ⟨s.calls, o, filler, buf⟩
          some { s with
            COMMAND_NAME := some o.COMMAND_NAME
            client := if o = .statfs then .sending t else .clearing t
            calls := s.calls + 1
            receivers := Function.update s.receivers s.calls .created }
      | _ => none
  | .clear =>
      match s.client with
      | .clearing t => some { s with clientreceive_success := 0, client := .sending t }
      | _ => none
  | .send found =>
      match s.client with
      | .sending t =>
          if found then some { s with client := .waiting t 0, requests := s.requests ++ [t.number] }
          else
            some { s with
              COMMAND_NAME := none, client := .idle, returned := (t, .gaveUp) :: s.returned }
      | _ => none
  | .poll =>
      match s.client with
      | .waiting t counter =>
          if s.clientreceive_success = 1 then
            if joins t.operation then some { s with client := .joining t }
            else some { s with COMMAND_NAME := none, client := .decoding t }
          else if 100 < counter + 1 then
            some { s with
              COMMAND_NAME := none, client := .idle, returned := (t, .gaveUp) :: s.returned }
          else some { s with client := .waiting t (counter + 1) }
      | _ => none
  | .join =>
      match s.client with
      | .joining t =>
          if s.receivers t.number = .absent then
            some { s with
              COMMAND_NAME := if t.operation = .mkdir then s.COMMAND_NAME else none
              client := .decoding t }
          else none
      | _ => none
  | .decode =>
      match s.client with
      | .decoding t =>
          let b := t.operation.replybuf
          let m := s.buffers b
          match t.operation.result t.filler t.buf m.bytes with
          | .error _ => none
          | .ok r =>
              some { s with
                client := .idle
                buffers := Function.update s.buffers b ⟨r.left, none⟩
                returned := (t, .decoded m.filled r.value) :: s.returned }
      | _ => none
  | _ => none

/-- The steps of `receiveresponse_client`.  The check of `bind` never finds a failure: a thread that
does not get the port goes on and receives nothing.  The branch for `mkdir` clears 10000 bytes from
the ten of `mkdir_buf` on, which is a fault. -/
def receiverStep (s : State) : Event → Option State
  | .start r =>
      match s.receivers r with
      | .created =>
          some { s with
            clientreceive_success := 0
            receivers := Function.update s.receivers r .cleared }
      | _ => none
  | .bind r =>
      match s.receivers r with
      | .cleared =>
          some { s with
            receivers := Function.update s.receivers r .opened
            port := if s.port = none then some r else s.port }
      | _ => none
  | .branch r seen =>
      match s.receivers r with
      | .opened =>
          if s.COMMAND_NAME = none ∨ seen = s.COMMAND_NAME then
            match seen.bind Command.replybuf with
            | none => some { s with receivers := Function.update s.receivers r (.received none) }
            | some b =>
                if b = .mkdir_buf then none
                else
                  some { s with
                    receivers := Function.update s.receivers r (.waiting b)
                    buffers :=
                      if b.cleared then Function.update s.buffers b ⟨[], none⟩ else s.buffers }
          else none
      | _ => none
  | .receive r d =>
      match s.receivers r with
      | .waiting b =>
          if s.port = some r ∧ d ∈ s.responses ∧ d.bytes.length < b.size then
            let m := overlay d.bytes (s.buffers b).bytes
            some { s with
              receivers := Function.update s.receivers r (.received (some (b, d.request)))
              buffers := Function.update s.buffers b ⟨m, some d.request⟩
              responses := s.responses.erase d }
          else none
      | _ => none
  | .close r =>
      match s.receivers r with
      | .received got =>
          some { s with
            receivers := Function.update s.receivers r (.closed got)
            port := if s.port = some r then none else s.port }
      | _ => none
  | .finish r =>
      match s.receivers r with
      | .closed _ =>
          some { s with
            clientreceive_success := 1
            receivers := Function.update s.receivers r .absent }
      | _ => none
  | _ => none

/-- The steps of the network and the serving nodes. -/
def networkStep (s : State) : Event → Option State
  | .serve q bytes =>
      if q ∈ s.requests then
        some { s with
          requests := s.requests.erase q
          responses := s.responses ++ [⟨q, bytes⟩]
          produced := s.produced ++ [⟨q, bytes⟩] }
      else none
  | .loseRequest q =>
      if q ∈ s.requests then some { s with requests := s.requests.erase q } else none
  | .loseResponse d =>
      if d ∈ s.responses then some { s with responses := s.responses.erase d } else none
  | _ => none

/-- The next state. -/
def step (s : State) (e : Event) : Option State :=
  match e with
  | .call _ _ _ | .clear | .send _ | .poll | .join | .decode => clientStep s e
  | .start _ | .bind _ | .branch _ _ | .receive _ _ | .close _ | .finish _ => receiverStep s e
  | .serve _ _ | .loseRequest _ | .loseResponse _ => networkStep s e

/-- The return value that the tail of an operation makes of its buffer. -/
def Issued.value (t : Issued) (m : List Byte) : Except Fault ℤ :=
  (t.operation.result t.filler t.buf m).map Returned.value

/-- Every operation that has returned has given up, or its value is what its tail makes of the reply
to its own request, which was the last one to arrive in its buffer. -/
def Matched (s : State) : Prop :=
  ∀ t e, (t, e) ∈ s.returned → e = .gaveUp ∨
    ∃ reply v, ⟨t.number, reply⟩ ∈ s.produced ∧ t.value reply = .ok v ∧
      e = .decoded (some t.number) v

/-- The buffer of an operation holds the reply to its own request. -/
def Answered (s : State) (t : Issued) : Prop :=
  (s.buffers t.operation.replybuf).filled = some t.number

/-- A reply covers what the buffer of its operation holds, or the tail of the operation makes the
same of it whatever stands behind it. -/
def Covers (s : State) (t : Issued) (reply : List Byte) : Prop :=
  (s.buffers t.operation.replybuf).bytes.length ≤ reply.length ∨
    ∀ left, t.value (reply ++ left) = t.value reply

/-- No `statfs` finds the flag set; the reply to an operation covers what its buffer holds, and stays
there until it is taken apart; and a thread that ends while another operation waits has received the
reply to it, or the reply is there already. -/
def Orderly (s : State) : Event → Prop
  | .poll => ∀ t ∈ s.client.listening, t.operation = .statfs → s.clientreceive_success ≠ 1
  | .branch _ seen => ∀ t ∈ s.client.issued, Answered s t →
      seen.bind Command.replybuf = some t.operation.replybuf →
        t.operation.replybuf.cleared = false
  | .receive r d => ∀ t ∈ s.client.issued, s.receivers r = .waiting t.operation.replybuf →
      if d.request = t.number then Covers s t d.bytes else ¬ Answered s t
  | .finish r => ∀ t ∈ s.client.listening, t.operation ≠ .statfs →
      (s.receivers r).got = some (t.operation.replybuf, t.number) ∨ Answered s t
  | _ => True

/-! ## What holds in every state -/

/-- The numbers of the history are those of the calls so far; while an operation is under way, its
reply is in its buffer if a thread has received it there, if the flag is set for it, or if it is
past its loop; and then its tail makes of the buffer what it makes of the reply. -/
structure Inv (s : State) : Prop where
  current : ∀ t ∈ s.client.issued, t.number < s.calls
  requests : ∀ q ∈ s.requests, q < s.calls
  responses : ∀ d ∈ s.responses, d.request < s.calls ∧ d ∈ s.produced
  received : ∀ r b q, (s.receivers r).got = some (b, q) → q < s.calls
  filled : ∀ b q, (s.buffers b).filled = some q → q < s.calls
  arrived : ∀ t ∈ s.client.issued, ∀ r,
    (s.receivers r).got = some (t.operation.replybuf, t.number) → Answered s t
  flagged : ∀ t ∈ s.client.listening, t.operation ≠ .statfs →
    s.clientreceive_success = 1 → Answered s t
  finished : ∀ t, s.client = .joining t ∨ s.client = .decoding t → Answered s t
  answers : ∀ t ∈ s.client.issued, Answered s t →
    ∃ reply, ⟨t.number, reply⟩ ∈ s.produced ∧
      t.value (s.buffers t.operation.replybuf).bytes = t.value reply
  matched : Matched s

section

variable {s u : State} {t : Issued}

theorem inv_init : Inv State.init where
  current _ running := by cases running
  requests _ mem := by cases mem
  responses _ mem := by cases mem
  received _ _ _ got := by cases got
  filled _ _ filled := by cases filled
  arrived _ running := by cases running
  flagged _ running := by cases running
  finished _ running := by rcases running with running | running <;> cases running
  answers _ running := by cases running
  matched _ _ mem := by cases mem

/-- An operation that listens is under way. -/
theorem issued_of_listening {c : Client} (listening : c.listening = some t) :
    c.issued = some t := by
  cases c with
  | sending t' => exact listening
  | waiting t' counter => exact listening
  | _ => cases listening

theorem issued_of_finished {c : Client} (finished : c = .joining t ∨ c = .decoding t) :
    c.issued = some t := by
  rcases finished with rfl | rfl <;> rfl

/-- What a thread has received after another thread, or this one, has gone on. -/
theorem got_update {receivers : ℕ → Receiver} {r r' : ℕ} {x : Receiver} {p : Replybuf × ℕ}
    (got : (Function.update receivers r x r').got = some p) :
    (receivers r').got = some p ∨ x.got = some p := by
  by_cases same : r' = r
  · subst same
    rw [Function.update_self] at got
    exact Or.inr got
  · rw [Function.update_of_ne same] at got
    exact Or.inl got

/-- A thread that goes on without a new reply. -/
theorem got_kept {receivers : ℕ → Receiver} {r r' : ℕ} {x : Receiver} {p : Replybuf × ℕ}
    (keeps : x.got = none ∨ x.got = (receivers r).got)
    (got : (Function.update receivers r x r').got = some p) : (receivers r').got = some p := by
  by_cases same : r' = r
  · subst same
    rw [Function.update_self] at got
    rcases keeps with silent | keeps
    · rw [silent] at got
      cases got
    · rwa [keeps] at got
  · rwa [Function.update_of_ne same] at got

/-- A buffer that is cleared or taken apart is filled by no reply. -/
theorem filled_update {buffers : Replybuf → Buffer} {b b' : Replybuf} {m : List Byte} {q : ℕ}
    (holds : (Function.update buffers b ⟨m, none⟩ b').filled = some q) :
    (buffers b').filled = some q := by
  by_cases own : b' = b
  · subst own
    rw [Function.update_self] at holds
    cases holds
  · rwa [Function.update_of_ne own] at holds

/-- The client returns to its caller. -/
theorem Inv.returns {COMMAND_NAME : Option Command} {buffers : Replybuf → Buffer} {e : Ended}
    (inv : Inv s) (emptied : ∀ b q, (buffers b).filled = some q → (s.buffers b).filled = some q)
    (matched : e = .gaveUp ∨ ∃ reply v, ⟨t.number, reply⟩ ∈ s.produced ∧ t.value reply = .ok v ∧
      e = .decoded (some t.number) v) :
    Inv { s with
      COMMAND_NAME := COMMAND_NAME
      client := .idle
      buffers := buffers
      returned := (t, e) :: s.returned } where
  current _ running := by cases running
  requests := inv.requests
  responses := inv.responses
  received := inv.received
  filled b q holds := inv.filled b q (emptied b q holds)
  arrived _ running := by cases running
  flagged _ running := by cases running
  finished _ running := by rcases running with running | running <;> cases running
  answers _ running := by cases running
  matched t' e' mem := by
    rcases List.mem_cons.1 mem with same | old
    · obtain ⟨rfl, rfl⟩ := Prod.mk.inj same
      exact matched
    · exact inv.matched t' e' old

/-- The client goes on in its operation. -/
theorem Inv.advances {flag : ℤ} {COMMAND_NAME : Option Command} {c : Client} {requests : List ℕ}
    (inv : Inv s) (running : s.client.issued = some t) (same : c.issued = some t)
    (sent : ∀ q ∈ requests, q ∈ s.requests ∨ q = t.number)
    (flagged : c.listening = some t → t.operation ≠ .statfs → flag = 1 → Answered s t)
    (finished : c = .joining t ∨ c = .decoding t → Answered s t) :
    Inv { s with
      clientreceive_success := flag
      COMMAND_NAME := COMMAND_NAME
      client := c
      requests := requests } where
  current t' running' := by
    obtain rfl := Option.some.inj (same.symm.trans running')
    exact inv.current t running
  requests q mem := by
    rcases sent q mem with old | rfl
    · exact inv.requests q old
    · exact inv.current t running
  responses := inv.responses
  received := inv.received
  filled := inv.filled
  arrived t' running' := by
    obtain rfl := Option.some.inj (same.symm.trans running')
    exact inv.arrived t running
  flagged t' listening own up := by
    obtain rfl := Option.some.inj (same.symm.trans (issued_of_listening listening))
    exact flagged listening own up
  finished t' past := by
    obtain rfl := Option.some.inj (same.symm.trans (issued_of_finished past))
    exact finished past
  answers t' running' := by
    obtain rfl := Option.some.inj (same.symm.trans running')
    exact inv.answers t running
  matched := inv.matched

/-- A thread or the network goes on without a new reply, and without touching the buffer of an
operation that has its reply. -/
theorem Inv.frame {flag : ℤ} {receivers : ℕ → Receiver} {port : Option ℕ}
    {buffers : Replybuf → Buffer} {requests : List ℕ} {responses : List Response} (inv : Inv s)
    (fewer : requests ⊆ s.requests) (lost : responses ⊆ s.responses)
    (nothing : ∀ r p, (receivers r).got = some p → (s.receivers r).got = some p)
    (down : flag = 1 → s.clientreceive_success = 1)
    (emptied : ∀ b q, (buffers b).filled = some q → (s.buffers b).filled = some q)
    (kept : ∀ t ∈ s.client.issued, Answered s t →
      buffers t.operation.replybuf = s.buffers t.operation.replybuf) :
    Inv { s with
      clientreceive_success := flag
      receivers := receivers
      port := port
      buffers := buffers
      requests := requests
      responses := responses } := by
  have answered {t : Issued} (running : t ∈ s.client.issued) (before : Answered s t) :
      (buffers t.operation.replybuf).filled = some t.number := by
    rw [kept t running before]
    exact before
  constructor
  · exact inv.current
  · exact fun q mem => inv.requests q (fewer mem)
  · exact fun d mem => inv.responses d (lost mem)
  · exact fun r b q got => inv.received r b q (nothing r _ got)
  · exact fun b q holds => inv.filled b q (emptied b q holds)
  · exact fun t running r got => answered running (inv.arrived t running r (nothing r _ got))
  · exact fun t listening own up =>
      answered (issued_of_listening listening) (inv.flagged t listening own (down up))
  · exact fun t past => answered (issued_of_finished past) (inv.finished t past)
  · intro t running after
    have before : Answered s t := emptied _ _ after
    obtain ⟨reply, produced, same⟩ := inv.answers t running before
    refine ⟨reply, produced, ?_⟩
    show t.value (buffers t.operation.replybuf).bytes = _
    rw [kept t running before]
    exact same
  · exact inv.matched

/-- A new operation: no thread and no buffer knows its number. -/
theorem Inv.call {o : Operation} {filler : List Filled → Bool} {buf : List Byte} (inv : Inv s)
    (next : clientStep s (.call o filler buf) = some u) : Inv u := by
  unfold clientStep at next
  dsimp only at next
  split at next
  · obtain rfl := Option.some.inj next
    set t : Issued := ⟨s.calls, o, filler, buf⟩ with new
    set c : Client := if o = .statfs then .sending t else .clearing t with begun
    have running : c.issued = some t := by
      rw [begun]
      split_ifs <;> rfl
    have old {r : ℕ} {p : Replybuf × ℕ}
        (got : (Function.update s.receivers s.calls Receiver.created r).got = some p) :
        (s.receivers r).got = some p := got_kept (Or.inl rfl) got
    constructor
    · intro t' running'
      obtain rfl := Option.some.inj (running.symm.trans running')
      exact Nat.lt_succ_self s.calls
    · exact fun q mem => Nat.lt_succ_of_lt (inv.requests q mem)
    · exact fun d mem => ⟨Nat.lt_succ_of_lt (inv.responses d mem).1, (inv.responses d mem).2⟩
    · exact fun r b q got => Nat.lt_succ_of_lt (inv.received r b q (old got))
    · exact fun b q holds => Nat.lt_succ_of_lt (inv.filled b q holds)
    · intro t' running' r got
      obtain rfl := Option.some.inj (running.symm.trans running')
      exact absurd (inv.received r _ _ (old got)) (lt_irrefl s.calls)
    · intro t' listening own
      obtain rfl := Option.some.inj (running.symm.trans (issued_of_listening listening))
      have clears : c = .clearing t := if_neg own
      have listening : c.listening = some t := listening
      rw [clears] at listening
      cases listening
    · intro t' past
      have past : c = .joining t' ∨ c = .decoding t' := past
      rw [begun] at past
      split_ifs at past <;> rcases past with past | past <;> cases past
    · intro t' running' after
      obtain rfl := Option.some.inj (running.symm.trans running')
      exact absurd (inv.filled _ _ after) (lt_irrefl s.calls)
    · exact inv.matched
  · cases next

/-- The tail of an operation whose reply is in its buffer returns what the reply says. -/
theorem Inv.decoded {r : Returned} (inv : Inv s) (decoding : s.client = .decoding t)
    (result : t.operation.result t.filler t.buf (s.buffers t.operation.replybuf).bytes = .ok r) :
    ∃ reply v, ⟨t.number, reply⟩ ∈ s.produced ∧ t.value reply = .ok v ∧
      Ended.decoded (s.buffers t.operation.replybuf).filled r.value =
        .decoded (some t.number) v := by
  have answered := inv.finished t (Or.inr decoding)
  have running : s.client.issued = some t := by rw [decoding]; rfl
  obtain ⟨reply, produced, same⟩ := inv.answers t running answered
  refine ⟨reply, r.value, produced, ?_, by rw [answered]⟩
  rw [← same, Issued.value, result]
  rfl

/-- A look at the flag. -/
theorem Inv.poll (inv : Inv s) (orderly : Orderly s .poll) (next : clientStep s .poll = some u) :
    Inv u := by
  unfold clientStep at next
  dsimp only at next
  split at next
  · next t counter waiting =>
    have running : s.client.issued = some t := by rw [waiting]; rfl
    have listening : s.client.listening = some t := by rw [waiting]; rfl
    have flagged := inv.flagged t listening
    have own (up : s.clientreceive_success = 1) : t.operation ≠ .statfs :=
      fun statfs => orderly t listening statfs up
    split_ifs at next with up joins last
    · obtain rfl := Option.some.inj next
      exact inv.advances running rfl (fun q mem => Or.inl mem)
        (fun listening => by cases listening) fun _ => flagged (own up) up
    · obtain rfl := Option.some.inj next
      exact inv.advances running rfl (fun q mem => Or.inl mem)
        (fun listening => by cases listening) fun _ => flagged (own up) up
    · obtain rfl := Option.some.inj next
      exact inv.returns (fun b q holds => holds) (Or.inl rfl)
    · obtain rfl := Option.some.inj next
      refine inv.advances running rfl (fun q mem => Or.inl mem) (fun _ => flagged) ?_
      rintro (past | past) <;> cases past
  · cases next

/-- The buffer of an operation is taken apart. -/
theorem Inv.decode (inv : Inv s) (next : clientStep s .decode = some u) : Inv u := by
  unfold clientStep at next
  dsimp only at next
  split at next
  · next t decoding =>
    split at next
    · cases next
    · next r result =>
      obtain rfl := Option.some.inj next
      apply inv.returns
      · exact fun b q holds => filled_update holds
      · exact Or.inr (inv.decoded decoding result)
  · cases next

/-- The steps of the client. -/
theorem Inv.client {e : Event} (inv : Inv s) (orderly : Orderly s e)
    (next : clientStep s e = some u) : Inv u := by
  cases e with
  | call o filler buf => exact inv.call next
  | clear =>
    unfold clientStep at next
    dsimp only at next
    split at next
    · next t clearing =>
      obtain rfl := Option.some.inj next
      refine inv.advances (t := t) (by rw [clearing]; rfl) rfl (fun q mem => Or.inl mem) ?_ ?_
      · exact fun _ _ up => absurd up zero_ne_one
      · rintro (past | past) <;> cases past
    · cases next
  | send found =>
    unfold clientStep at next
    dsimp only at next
    split at next
    · next t sending =>
      have running : s.client.issued = some t := by rw [sending]; rfl
      split_ifs at next
      · obtain rfl := Option.some.inj next
        refine inv.advances running rfl ?_ ?_ ?_
        · intro q mem
          exact (List.mem_append.1 mem).imp_right List.mem_singleton.1
        · exact fun _ => inv.flagged t (by rw [sending]; rfl)
        · rintro (past | past) <;> cases past
      · obtain rfl := Option.some.inj next
        exact inv.returns (fun b q holds => holds) (Or.inl rfl)
    · cases next
  | poll => exact inv.poll orderly next
  | join =>
    unfold clientStep at next
    dsimp only at next
    split at next
    · next t joining =>
      by_cases ended : s.receivers t.number = .absent
      · rw [if_pos ended] at next
        obtain rfl := Option.some.inj next
        exact inv.advances (by rw [joining]; rfl) rfl (fun q mem => Or.inl mem)
          (fun listening => by cases listening) fun _ => inv.finished t (Or.inl joining)
      · rw [if_neg ended] at next
        cases next
    · cases next
  | decode => exact inv.decode next
  | _ => cases next

/-- A thread clears the buffer of its command only when no reply to the operation is lost by it. -/
theorem Inv.branch {r : ℕ} {seen : Option Command} (inv : Inv s)
    (orderly : Orderly s (.branch r seen)) (next : receiverStep s (.branch r seen) = some u) :
    Inv u := by
  unfold receiverStep at next
  dsimp only at next
  split at next
  · split_ifs at next
    split at next
    · obtain rfl := Option.some.inj next
      apply inv.frame (List.Subset.refl _) (List.Subset.refl _)
      · exact fun _ _ => got_kept (Or.inl rfl)
      · exact id
      · exact fun b q holds => holds
      · exact fun t _ _ => rfl
    · next b branch =>
      by_cases spills : b = .mkdir_buf
      · rw [if_pos spills] at next
        cases next
      rw [if_neg spills] at next
      obtain rfl := Option.some.inj next
      apply inv.frame (List.Subset.refl _) (List.Subset.refl _)
      · exact fun _ _ => got_kept (Or.inl rfl)
      · exact id
      · intro b' q holds
        split_ifs at holds
        · exact filled_update holds
        · exact holds
      · intro t running answered
        split_ifs with clears
        · have other : t.operation.replybuf ≠ b := by
            rintro rfl
            rw [orderly t running answered branch] at clears
            cases clears
          exact Function.update_of_ne other _ _
        · rfl
  · cases next

/-- What the tail makes of a reply that covers its buffer. -/
theorem Covers.value {reply : List Byte} (covers : Covers s t reply) :
    t.value (overlay reply (s.buffers t.operation.replybuf).bytes) = t.value reply := by
  unfold overlay
  rcases covers with short | closed
  · rw [List.drop_eq_nil_of_le short, List.append_nil]
  · exact closed _

/-- A reply arrives. -/
theorem Inv.receive {r : ℕ} {d : Response} (inv : Inv s) (orderly : Orderly s (.receive r d))
    (next : receiverStep s (.receive r d) = some u) : Inv u := by
  unfold receiverStep at next
  dsimp only at next
  split at next
  · next b waiting =>
    split_ifs at next with arrives
    obtain ⟨-, mem, -⟩ := arrives
    obtain rfl := Option.some.inj next
    obtain ⟨known, produced⟩ := inv.responses d mem
    set buffers := Function.update s.buffers b ⟨overlay d.bytes (s.buffers b).bytes, some d.request⟩
      with updated
    have own : buffers b = ⟨overlay d.bytes (s.buffers b).bytes, some d.request⟩ := by
      rw [updated, Function.update_self]
    have other {b' : Replybuf} (away : b' ≠ b) : buffers b' = s.buffers b' := by
      rw [updated, Function.update_of_ne away]
    -- an operation that had its reply has not lost it
    have kept {t : Issued} (running : t ∈ s.client.issued) (answered : Answered s t) :
        (buffers t.operation.replybuf).filled = some t.number := by
      by_cases same : t.operation.replybuf = b
      · have arrived := orderly t running (by rw [same]; exact waiting)
        split_ifs at arrived with about
        · rw [same, own, about]
        · exact absurd answered arrived
      · rw [other same]
        exact answered
    constructor
    · exact inv.current
    · exact inv.requests
    · exact fun d' mem' => inv.responses d' (List.mem_of_mem_erase mem')
    · intro r' b' q got
      rcases got_update got with got | got
      · exact inv.received r' b' q got
      · obtain ⟨-, rfl⟩ := Prod.mk.inj (Option.some.inj got)
        exact known
    · intro b' q holds
      by_cases same : b' = b
      · subst same
        have holds : (buffers b').filled = some q := holds
        rw [own] at holds
        obtain rfl := Option.some.inj holds
        exact known
      · have holds : (buffers b').filled = some q := holds
        rw [other same] at holds
        exact inv.filled b' q holds
    · intro t running r' got
      rcases got_update got with got | got
      · exact kept running (inv.arrived t running r' got)
      · obtain ⟨same, about⟩ := Prod.mk.inj (Option.some.inj got)
        show (buffers t.operation.replybuf).filled = some t.number
        rw [← same, own, about]
    · exact fun t listening own up =>
        kept (issued_of_listening listening) (inv.flagged t listening own up)
    · exact fun t past => kept (issued_of_finished past) (inv.finished t past)
    · intro t running answered
      have answered : (buffers t.operation.replybuf).filled = some t.number := answered
      show ∃ reply, _ ∧ t.value (buffers t.operation.replybuf).bytes = t.value reply
      by_cases same : t.operation.replybuf = b
      · have arrived := orderly t running (by rw [same]; exact waiting)
        rw [same, own] at answered
        have about : d.request = t.number := Option.some.inj answered
        rw [if_pos about] at arrived
        refine ⟨d.bytes, ?_, ?_⟩
        · rw [← about]
          exact produced
        · rw [same, own, ← same]
          exact arrived.value
      · rw [other same] at answered ⊢
        exact inv.answers t running answered
    · exact inv.matched
  · cases next

/-- A thread ends and sets the flag. -/
theorem Inv.finish {r : ℕ} (inv : Inv s) (orderly : Orderly s (.finish r))
    (next : receiverStep s (.finish r) = some u) : Inv u := by
  unfold receiverStep at next
  dsimp only at next
  split at next
  · obtain rfl := Option.some.inj next
    have old {r' : ℕ} {p : Replybuf × ℕ}
        (got : (Function.update s.receivers r Receiver.absent r').got = some p) :
        (s.receivers r').got = some p := got_kept (Or.inl rfl) got
    constructor
    · exact inv.current
    · exact inv.requests
    · exact inv.responses
    · exact fun r' b q got => inv.received r' b q (old got)
    · exact inv.filled
    · exact fun t running r' got => inv.arrived t running r' (old got)
    · intro t listening own _
      rcases orderly t listening own with got | answered
      · exact inv.arrived t (issued_of_listening listening) r got
      · exact answered
    · exact inv.finished
    · exact inv.answers
    · exact inv.matched
  · cases next

/-- The steps of the threads. -/
theorem Inv.receiver {e : Event} (inv : Inv s) (orderly : Orderly s e)
    (next : receiverStep s e = some u) : Inv u := by
  cases e with
  | branch r seen => exact inv.branch orderly next
  | receive r d => exact inv.receive orderly next
  | finish r => exact inv.finish orderly next
  | start r =>
    unfold receiverStep at next
    dsimp only at next
    split at next
    · obtain rfl := Option.some.inj next
      apply inv.frame (List.Subset.refl _) (List.Subset.refl _)
      · exact fun _ _ => got_kept (Or.inl rfl)
      · exact fun up => absurd up zero_ne_one
      · exact fun b q holds => holds
      · exact fun t _ _ => rfl
    · cases next
  | bind r =>
    unfold receiverStep at next
    dsimp only at next
    split at next
    · obtain rfl := Option.some.inj next
      apply inv.frame (List.Subset.refl _) (List.Subset.refl _)
      · exact fun _ _ => got_kept (Or.inl rfl)
      · exact id
      · exact fun b q holds => holds
      · exact fun t _ _ => rfl
    · cases next
  | close r =>
    unfold receiverStep at next
    dsimp only at next
    split at next
    · next received =>
      obtain rfl := Option.some.inj next
      apply inv.frame (List.Subset.refl _) (List.Subset.refl _)
      · exact fun _ _ => got_kept (Or.inr (by rw [received]; rfl))
      · exact id
      · exact fun b q holds => holds
      · exact fun t _ _ => rfl
    · cases next
  | _ => cases next

/-- The steps of the network and the serving nodes. -/
theorem Inv.network {e : Event} (inv : Inv s) (next : networkStep s e = some u) : Inv u := by
  cases e with
  | serve q bytes =>
    unfold networkStep at next
    dsimp only at next
    split_ifs at next with mem
    obtain rfl := Option.some.inj next
    have grows : s.produced ⊆ s.produced ++ [⟨q, bytes⟩] := List.subset_append_left _ _
    constructor
    · exact inv.current
    · exact fun q' mem' => inv.requests q' (List.mem_of_mem_erase mem')
    · intro d dmem
      rcases List.mem_append.1 dmem with old | new
      · exact ⟨(inv.responses d old).1, grows (inv.responses d old).2⟩
      · obtain rfl := List.mem_singleton.1 new
        exact ⟨inv.requests q mem, List.mem_append_right _ new⟩
    · exact inv.received
    · exact inv.filled
    · exact inv.arrived
    · exact inv.flagged
    · exact inv.finished
    · intro t running answered
      obtain ⟨reply, produced, same⟩ := inv.answers t running answered
      exact ⟨reply, grows produced, same⟩
    · intro t e' returned
      refine (inv.matched t e' returned).imp_right ?_
      rintro ⟨reply, v, produced, same⟩
      exact ⟨reply, v, grows produced, same⟩
  | loseRequest q =>
    unfold networkStep at next
    dsimp only at next
    split_ifs at next
    obtain rfl := Option.some.inj next
    exact inv.frame List.erase_subset (List.Subset.refl _) (fun r p got => got) id
      (fun b q holds => holds) fun t _ _ => rfl
  | loseResponse d =>
    unfold networkStep at next
    dsimp only at next
    split_ifs at next
    obtain rfl := Option.some.inj next
    exact inv.frame (List.Subset.refl _) List.erase_subset (fun r p got => got) id
      (fun b q holds => holds) fun t _ _ => rfl
  | _ => cases next

/-- Every orderly step keeps the invariant. -/
theorem Inv.step {e : Event} (orderly : Orderly s e) (inv : Inv s) (next : step s e = some u) :
    Inv u := by
  unfold Matching.step at next
  cases e with
  | call | clear | send | poll | join | decode => exact inv.client orderly next
  | start | bind | branch | receive | close | finish => exact inv.receiver orderly next
  | serve | loseRequest | loseResponse => exact inv.network next

end

/-- In an orderly run every operation gives up or returns what its tail makes of the reply to its own
request. -/
theorem orderly_matched (events : List Event) (s : State)
    (orderly : Along step Orderly State.init events)
    (ran : run step State.init events = some s) : Matched s :=
  (orderly.invariant (fun _ _ _ ok inv next => inv.step ok next) inv_init ran).matched

/-- A flag that is set by a thread without the reply misleads the operation that waits: if the tail of
the operation returns at all, it is not by the reply to its own request. -/
theorem stray_flag_misleads {s u : State} {t : Issued} {counter r : ℕ}
    {got : Option (Replybuf × ℕ)} (waiting : s.client = .waiting t counter)
    (alone : joins t.operation = false) (unanswered : ¬ Answered s t)
    (ended : s.receivers r = .closed got)
    (ran : run step s [.finish r, .poll, .decode] = some u) : ¬ Matched u := by
  obtain ⟨s₁, finished, ran⟩ := run_cons.1 ran
  obtain ⟨s₂, polled, ran⟩ := run_cons.1 ran
  obtain ⟨s₃, decoded, ran⟩ := run_cons.1 ran
  obtain rfl := Option.some.inj ran
  simp only [step, receiverStep, ended, Option.some.injEq] at finished
  subst finished
  simp only [step, clientStep, waiting, if_true, alone, Option.some.injEq, Bool.false_eq_true,
    if_false] at polled
  subst polled
  simp only [step, clientStep] at decoded
  split at decoded
  · cases decoded
  · obtain rfl := Option.some.inj decoded
    intro matched
    rcases matched _ _ List.mem_cons_self with gaveUp | ⟨reply, v, -, -, own⟩
    · cases gaveUp
    · exact unanswered (Ended.decoded.inj own).1

/-- An `access` without a caller's buffer. -/
def callAccess : Event := .call .access (fun _ => false) []

/-- An `access` that is refused. -/
def refusal : Response := ⟨0, str "-1,13"⟩

/-- An `open` of another file. -/
def callOpen : Event := .call .open_ (fun _ => false) []

/-- The reply to the `open`. -/
def success : Response := ⟨1, str "3,0"⟩

/-- The reply to an operation arrives while it waits, first to an `access` and then to an `open`. -/
def promptReplies : List Event :=
  [callAccess, .start 0, .bind 0, .branch 0 (some .access), .clear, .send true,
    .serve 0 refusal.bytes, .receive 0 refusal, .close 0, .finish 0, .poll, .decode,
    callOpen, .start 1, .clear, .send true, .bind 1, .serve 1 success.bytes,
    .branch 1 (some .open_), .poll, .receive 1 success, .close 1, .finish 1, .poll, .decode]

theorem promptReplies_orderly : Along step Orderly State.init promptReplies := by
  -- `access`
  refine Along.cons trivial rfl (Along.cons trivial rfl (Along.cons trivial rfl ?_))
  refine Along.cons (by rintro t ⟨⟩ ⟨⟩) rfl ?_
  refine Along.cons trivial rfl (Along.cons trivial rfl (Along.cons trivial rfl ?_))
  refine Along.cons (by rintro t ⟨⟩ -; exact Or.inl (Nat.zero_le _)) rfl ?_
  refine Along.cons trivial rfl ?_
  refine Along.cons (by rintro t ⟨⟩ -; exact Or.inl rfl) rfl ?_
  refine Along.cons (by rintro t ⟨⟩ ⟨⟩) rfl (Along.cons trivial rfl ?_)
  -- `open`
  refine Along.cons trivial rfl (Along.cons trivial rfl (Along.cons trivial rfl ?_))
  refine Along.cons trivial rfl (Along.cons trivial rfl (Along.cons trivial rfl ?_))
  refine Along.cons (by rintro t ⟨⟩ ⟨⟩) rfl ?_
  refine Along.cons (by rintro t ⟨⟩ ⟨⟩) rfl ?_
  refine Along.cons (by rintro t ⟨⟩ -; exact Or.inl (Nat.zero_le _)) rfl ?_
  refine Along.cons trivial rfl ?_
  refine Along.cons (by rintro t ⟨⟩ -; exact Or.inl rfl) rfl ?_
  refine Along.cons (by rintro t ⟨⟩ ⟨⟩) rfl ?_
  exact Along.cons trivial rfl trivial

theorem promptReplies_matched :
    ∃ s, run step State.init promptReplies = some s ∧
      s.returned.map Prod.snd = [.decoded (some 1) 0, .decoded (some 0) (-13)] ∧ Matched s := by
  obtain ⟨s, ran⟩ : ∃ s, run step State.init promptReplies = some s :=
    Option.isSome_iff_exists.1 (by decide)
  have returned : (run step State.init promptReplies).map (fun s => s.returned.map Prod.snd) =
      some [.decoded (some 1) 0, .decoded (some 0) (-13)] := by decide
  rw [ran] at returned
  exact ⟨s, ran, Option.some.inj returned,
    orderly_matched promptReplies s promptReplies_orderly ran⟩

/-- A first `access` gives up, and its reply arrives during a second one. -/
def lateReply : List Event :=
  [callAccess, .start 0, .bind 0, .branch 0 (some .access), .clear, .send true] ++
    List.replicate 101 .poll ++
    [.serve 0 refusal.bytes, callAccess, .clear, .send true, .receive 0 refusal, .close 0,
      .finish 0, .poll, .decode]

/-- The second `access` returns the answer to the first one. -/
theorem lateReply_unmatched :
    ∃ s, run step State.init lateReply = some s ∧ ¬ Matched s := by
  obtain ⟨s, ran⟩ : ∃ s, run step State.init lateReply = some s :=
    Option.isSome_iff_exists.1 (by decide)
  have history : (run step State.init lateReply).map
      (fun s => s.returned.map fun p => (p.1.number, p.2)) =
      some [(1, .decoded (some 0) (-13)), (0, .gaveUp)] := by decide
  rw [ran, Option.map_some, Option.some_inj] at history
  refine ⟨s, ran, fun matched => ?_⟩
  obtain ⟨⟨t, e⟩, mem, same⟩ : ∃ p ∈ s.returned, (p.1.number, p.2) = (1, .decoded (some 0) (-13)) := by
    rw [← List.mem_map, history]
    exact List.mem_cons_self
  obtain ⟨number, rfl⟩ := Prod.mk.inj same
  rcases matched t _ mem with gaveUp | ⟨reply, v, -, -, own⟩
  · cases gaveUp
  · have about : some 0 = some t.number := (Ended.decoded.inj own).1
    rw [number] at about
    exact absurd about (by decide)

end DistFs.Matching
