import DistFs.CText.Basic
import DistFs.Runs.Machine

/-!
# Probing a node

`check_nodealive`, `sendping` and `receiveping` as a machine: one prober that probes nodes one after
another, and datagrams that arrive late, in any order or never.  Every process runs `receiveping`.

What the prober waits for is one flag.  A reply does not say which ping it answers, so each datagram
of the model carries the call of `check_nodealive` that it belongs to, which no step looks at.
-/

namespace DistFs.Probe

open CText Machine

/-- A call of `check_nodealive` on a name. -/
structure Call where
  number : ℕ
  name : List Byte
deriving DecidableEq

/-- The names: the host that `hostname_to_ip` finds for a name, and the name that `getnameinfo`
finds for a host. -/
structure Names (Host : Type) where
  hostname_to_ip : List Byte → Option Host
  getnameinfo : Host → List Byte

/-- A datagram to `PING_PORT`.  `call` does not travel: it is the call that has sent the ping, or
whose ping the reply answers. -/
structure Datagram (Host : Type) where
  source : Host
  target : Host
  buf : List Byte
  call : Option Call
deriving DecidableEq

/-- Where `check_nodealive` is: before the `sendto` of `sendping`, or in its loop. -/
inductive Prober where
  | idle
  | sending (c : Call)
  | waiting (c : Call) (counter : ℕ)
deriving DecidableEq

/-- The call under way. -/
def Prober.call : Prober → Option Call
  | idle => none
  | sending c => some c
  | waiting c _ => some c

/-- The prober and the network.  `replied` and `returned` are the history: the replies sent, with
the calls whose pings they answer, and the results of the calls. -/
structure State (Host : Type) where
  pingsuccess : ℤ
  prober : Prober
  calls : ℕ
  flying : List (Datagram Host)
  replied : List (Host × Option Call)
  returned : List (Call × ℤ)
deriving DecidableEq

/-- What may happen next.  `elsewhere` is a ping of another process. -/
inductive Event (Host : Type) where
  | check_nodealive (name : Option (List Byte))
  | send
  | poll
  | elsewhere (source : Host) (node : List Byte)
  | receive (d : Datagram Host)
  | lose (d : Datagram Host)

variable {Host : Type}

/-- Nothing has been probed. -/
def State.init : State Host := ⟨1, .idle, 0, [], [], []⟩

/-- The datagram of `sendping` and `sendping1`, or nothing (-1) for a name without a host. -/
def sendping1 (names : Names Host) (source : Host) (node msg : List Byte) (call : Option Call) :
    Option (Datagram Host) :=
  (names.hostname_to_ip node).map fun host => ⟨source, host, msg, call⟩

/-- One turn of `receiveping` at the target of a datagram: the reply, and whether `pingsuccess` is
set. -/
def receiveping (names : Names Host) (d : Datagram Host) : Option (Datagram Host) × Bool :=
  (if d.buf = str "ping" then
      sendping1 names d.target (names.getnameinfo d.source) (str "fucku") d.call
    else none,
    d.buf = str "fucku")

/-- The next state, `self` being the host of the prober. -/
def step [DecidableEq Host] (names : Names Host) (self : Host) (s : State Host) :
    Event Host → Option (State Host)
  | .check_nodealive name =>
      match s.prober, name with
      | .idle, none => some s
      | .idle, some name =>
          some { s with pingsuccess := 0, prober := .sending ⟨s.calls, name⟩, calls := s.calls + 1 }
      | _, _ => none
  | .send =>
      match s.prober with
      | .sending c =>
          let ping := sendping1 names self c.name (str "ping") (some c)
          some { s with prober := .waiting c 0, flying := s.flying ++ ping.toList }
      | _ => none
  | .poll =>
      match s.prober with
      | .waiting c counter =>
          if s.pingsuccess = 1 then some { s with prober := .idle, returned := (c, 1) :: s.returned }
          else if 100 < counter + 1 then
            some { s with prober := .idle, returned := (c, 0) :: s.returned }
          else some { s with prober := .waiting c (counter + 1) }
      | _ => none
  | .elsewhere source node =>
      if source = self then none
      else
        let ping := sendping1 names source node (str "ping") none
        some { s with flying := s.flying ++ ping.toList }
  | .receive d =>
      if d ∈ s.flying then
        let turn := receiveping names d
        some { s with
          flying := s.flying.erase d ++ turn.1.toList
          replied := s.replied ++ turn.1.toList.map fun reply => (reply.source, reply.call)
          pingsuccess := if turn.2 = true ∧ d.target = self then 1 else s.pingsuccess }
      else none
  | .lose d => if d ∈ s.flying then some { s with flying := s.flying.erase d } else none

/-- The host of the node that a call probes has replied to a ping of this call. -/
def Answered (names : Names Host) (s : State Host) (c : Call) : Prop :=
  ∃ host, names.hostname_to_ip c.name = some host ∧ (host, some c) ∈ s.replied

/-- Every call that has returned 1 is answered by the node it is about. -/
def RightNode (names : Names Host) (s : State Host) : Prop :=
  ∀ c, (c, 1) ∈ s.returned → Answered names s c

/-- A reply that arrives while a call still waits answers a ping of this call. -/
def Timely (self : Host) (s : State Host) : Event Host → Prop
  | .receive d =>
      d.target = self → d.buf = str "fucku" → s.pingsuccess ≠ 1 →
        ∀ c ∈ s.prober.call, d.call = some c
  | _ => True

instance [DecidableEq Host] (self : Host) (s : State Host) :
    (e : Event Host) → Decidable (Timely self s e)
  | .receive d =>
      inferInstanceAs (Decidable (d.target = self → d.buf = str "fucku" → s.pingsuccess ≠ 1 →
        ∀ c ∈ s.prober.call, d.call = some c))
  | .check_nodealive _ | .send | .poll | .elsewhere _ _ | .lose _ =>
      inferInstanceAs (Decidable True)

/-! ## What holds in every state -/

/-- A ping goes to the node it is about, a reply comes from a node that has answered, and while a
call runs the flag is up only for its own node. -/
structure Inv (names : Names Host) (s : State Host) : Prop where
  pings : ∀ d ∈ s.flying, ∀ c, d.call = some c → d.buf = str "ping" →
    names.hostname_to_ip c.name = some d.target
  replies : ∀ d ∈ s.flying, ∀ c, d.call = some c → d.buf = str "fucku" → Answered names s c
  flag : ∀ c, s.prober.call = some c → s.pingsuccess = 1 → Answered names s c
  right : RightNode names s

section

variable {names : Names Host} {self : Host} {s t : State Host} {d : Datagram Host}

theorem inv_init : Inv names (State.init : State Host) where
  pings _ mem := by cases mem
  replies _ mem := by cases mem
  flag _ running := by cases running
  right _ mem := by cases mem

theorem Answered.mono {c : Call} (grows : s.replied ⊆ t.replied) (answered : Answered names s c) :
    Answered names t c := by
  obtain ⟨host, found, mem⟩ := answered
  exact ⟨host, found, grows mem⟩

theorem ping_ne_fucku : str "ping" ≠ str "fucku" := by
  decide

/-- What `sendping` adds to the datagrams under way. -/
theorem mem_sendping1 {source : Host} {node msg : List Byte} {call : Option Call}
    (mem : d ∈ (sendping1 names source node msg call).toList) :
    names.hostname_to_ip node = some d.target ∧ d.source = source ∧ d.buf = msg ∧ d.call = call := by
  unfold sendping1 at mem
  rw [Option.mem_toList, Option.map_eq_some_iff] at mem
  obtain ⟨host, found, rfl⟩ := mem
  exact ⟨found, rfl, rfl, rfl⟩

/-- A reply answers a ping, from the host that has received it. -/
theorem mem_receiveping {r : Datagram Host} (mem : r ∈ (receiveping names d).1.toList) :
    d.buf = str "ping" ∧ r.source = d.target ∧ r.buf = str "fucku" ∧ r.call = d.call := by
  unfold receiveping at mem
  dsimp only at mem
  split_ifs at mem with ping
  · obtain ⟨-, source, buf, call⟩ := mem_sendping1 mem
    exact ⟨ping, source, buf, call⟩
  · cases mem

/-- Fewer datagrams and the same flag, call and results. -/
theorem Inv.lose {flying : List (Datagram Host)} (inv : Inv names s) (fewer : flying ⊆ s.flying) :
    Inv names { s with flying := flying } where
  pings d mem := inv.pings d (fewer mem)
  replies d mem := inv.replies d (fewer mem)
  flag := inv.flag
  right := inv.right

/-- One more ping under way, which goes to the node of its call. -/
theorem Inv.ping {prober : Prober} {source : Host} {node : List Byte} {call : Option Call}
    (inv : Inv names s) (same : prober.call = s.prober.call)
    (about : ∀ c, call = some c → node = c.name) :
    Inv names { s with
      prober := prober
      flying := s.flying ++ (sendping1 names source node (str "ping") call).toList } where
  pings d mem c carries ping := by
    rcases List.mem_append.1 mem with old | new
    · exact inv.pings d old c carries ping
    · obtain ⟨found, -, -, called⟩ := mem_sendping1 new
      rwa [about c (called.symm.trans carries)] at found
  replies d mem c carries fucku := by
    rcases List.mem_append.1 mem with old | new
    · exact inv.replies d old c carries fucku
    · obtain ⟨-, -, ping, -⟩ := mem_sendping1 new
      exact absurd (ping.symm.trans fucku) ping_ne_fucku
  flag c running := inv.flag c (same ▸ running)
  right := inv.right

/-- A datagram that arrives in time. -/
theorem Inv.receive [DecidableEq Host] (inv : Inv names s)
    (timely : Timely self s (.receive d)) (mem : d ∈ s.flying) :
    Inv names { s with
      flying := s.flying.erase d ++ (receiveping names d).1.toList
      replied := s.replied ++
        (receiveping names d).1.toList.map fun reply => (reply.source, reply.call)
      pingsuccess := if (receiveping names d).2 = true ∧ d.target = self then 1
        else s.pingsuccess } := by
  have grows : s.replied ⊆ s.replied ++
      (receiveping names d).1.toList.map fun reply => (reply.source, reply.call) :=
    List.subset_append_left _ _
  constructor
  · intro r rmem c carries ping
    rcases List.mem_append.1 rmem with old | new
    · exact inv.pings r (List.mem_of_mem_erase old) c carries ping
    · exact absurd (ping.symm.trans (mem_receiveping new).2.2.1) ping_ne_fucku
  · intro r rmem c carries fucku
    rcases List.mem_append.1 rmem with old | new
    · exact (inv.replies r (List.mem_of_mem_erase old) c carries fucku).mono grows
    · obtain ⟨ping, source, -, call⟩ := mem_receiveping new
      have called : d.call = some c := call.symm.trans carries
      refine ⟨d.target, inv.pings d mem c called ping, ?_⟩
      apply List.mem_append_right
      rw [List.mem_map]
      exact ⟨r, new, by rw [source, carries]⟩
  · intro c running up
    apply Answered.mono grows
    by_cases before : s.pingsuccess = 1
    · exact inv.flag c running before
    · -- the flag goes up with this datagram
      have set : (receiveping names d).2 = true ∧ d.target = self := by
        by_contra keeps
        exact before (by simpa only [if_neg keeps] using up)
      have fucku : d.buf = str "fucku" := of_decide_eq_true set.1
      exact inv.replies d mem c (timely set.2 fucku before c running) fucku
  · intro c one
    exact (inv.right c one).mono grows

/-- A call that ends. -/
theorem Inv.poll {c : Call} {result : ℤ} (inv : Inv names s)
    (answered : result = 1 → Answered names s c) :
    Inv names { s with prober := .idle, returned := (c, result) :: s.returned } where
  pings := inv.pings
  replies := inv.replies
  flag _ running := by cases running
  right c' mem := by
    rcases List.mem_cons.1 mem with same | old
    · obtain ⟨rfl, rfl⟩ := Prod.mk.inj same
      exact answered rfl
    · exact inv.right c' old

/-- Every step of a timely event keeps the invariant. -/
theorem Inv.step [DecidableEq Host] {e : Event Host} (timely : Timely self s e) (inv : Inv names s)
    (next : step names self s e = some t) : Inv names t := by
  unfold Probe.step at next
  cases e with
  | check_nodealive name =>
    dsimp only at next
    split at next
    · obtain rfl := Option.some.inj next
      exact inv
    · obtain rfl := Option.some.inj next
      exact ⟨inv.pings, inv.replies, fun _ _ up => absurd up zero_ne_one, inv.right⟩
    · cases next
  | send =>
    dsimp only at next
    split at next
    · next c sending =>
      obtain rfl := Option.some.inj next
      apply inv.ping
      · rw [sending]
        rfl
      · intro c' same
        rw [Option.some.inj same]
    · cases next
  | poll =>
    dsimp only at next
    split at next
    · next c counter waiting =>
      have running : s.prober.call = some c := by rw [waiting]; rfl
      split_ifs at next with up last
      · obtain rfl := Option.some.inj next
        exact inv.poll fun _ => inv.flag c running up
      · obtain rfl := Option.some.inj next
        exact inv.poll fun one => absurd one zero_ne_one
      · obtain rfl := Option.some.inj next
        exact ⟨inv.pings, inv.replies, fun _ _ up' => absurd up' up, inv.right⟩
    · cases next
  | elsewhere source node =>
    dsimp only at next
    split_ifs at next
    obtain rfl := Option.some.inj next
    exact inv.ping rfl fun _ absent => by cases absent
  | receive d =>
    dsimp only at next
    split at next
    · next mem =>
      obtain rfl := Option.some.inj next
      exact inv.receive timely mem
    · cases next
  | lose d =>
    dsimp only at next
    split_ifs at next
    obtain rfl := Option.some.inj next
    exact inv.lose List.erase_subset

end

/-! ## Calls and replies -/

/-- In a run whose replies are timely, a call returns 1 only for a node that has answered it. -/
theorem timely_rightNode [DecidableEq Host] (names : Names Host) (self : Host)
    (events : List (Event Host)) (s : State Host)
    (timely : Along (step names self) (Timely self) State.init events)
    (ran : run (step names self) State.init events = some s) : RightNode names s :=
  (timely.invariant (fun _ _ _ ok inv next => inv.step ok next) inv_init ran).right

/-- A reply that is not timely misleads the call that waits, unless its own node has answered
already: the next look at the flag ends the call with 1. -/
theorem late_misleads [DecidableEq Host] {names : Names Host} {self : Host} {s : State Host}
    {d : Datagram Host} {c : Call} {counter : ℕ} (late : ¬ Timely self s (.receive d))
    (mem : d ∈ s.flying) (waiting : s.prober = .waiting c counter)
    (unanswered : ¬ Answered names s c) :
    ∃ t, run (step names self) s [.receive d, .poll] = some t ∧ ¬ RightNode names t := by
  simp only [Timely, not_forall] at late
  obtain ⟨arrives, fucku, -⟩ := late
  have silent : (receiveping names d).1 = none := by
    unfold receiveping
    rw [if_neg (fucku ▸ ping_ne_fucku.symm)]
  have sets : (receiveping names d).2 = true := decide_eq_true fucku
  refine ⟨{ s with
    pingsuccess := 1
    prober := .idle
    flying := s.flying.erase d
    returned := (c, 1) :: s.returned }, ?_, ?_⟩
  · simp [run, step, mem, silent, sets, arrives, waiting]
  · intro right
    exact unanswered (right c List.mem_cons_self)

/-- Two nodes `a` and `b` on the hosts 1 and 2, and a prober `m` on the host 0. -/
def twoNodes : Names ℕ where
  hostname_to_ip name :=
    if name = str "m" then some 0 else if name = str "a" then some 1
    else if name = str "b" then some 2 else none
  getnameinfo host := if host = 0 then str "m" else if host = 1 then str "a" else str "b"

/-- A probe of `a`. -/
def probeA : Call := ⟨0, str "a"⟩

/-- The ping of `a`. -/
def pingA : Datagram ℕ := ⟨0, 1, str "ping", some probeA⟩

/-- What `a` sends back. -/
def replyA : Datagram ℕ := ⟨1, 0, str "fucku", some probeA⟩

/-- A node that is probed and answers. -/
def answering : List (Event ℕ) :=
  [.check_nodealive (some probeA.name), .send, .receive pingA, .poll, .receive replyA, .poll]

theorem answering_rightNode :
    ∃ s, run (step twoNodes 0) State.init answering = some s ∧ s.returned = [(probeA, 1)] ∧
      RightNode twoNodes s := by
  obtain ⟨s, ran⟩ : ∃ s, run (step twoNodes 0) State.init answering = some s :=
    Option.isSome_iff_exists.1 (by decide)
  have returned : (run (step twoNodes 0) State.init answering).map State.returned =
      some [(probeA, 1)] := by decide
  rw [ran] at returned
  refine ⟨s, ran, Option.some.inj returned, ?_⟩
  exact timely_rightNode twoNodes 0 answering s (by decide) ran

/-- The probe of `a` is given up, and its reply arrives while `b` is probed. -/
def lateReply : List (Event ℕ) :=
  [.check_nodealive (some probeA.name), .send] ++ List.replicate 101 .poll ++
    [.receive pingA, .check_nodealive (some (str "b")), .send, .receive replyA, .poll]

/-- `check_nodealive` returns 1 for `b`, which has sent nothing. -/
theorem lateReply_wrongNode :
    ∃ s, run (step twoNodes 0) State.init lateReply = some s ∧ ¬ RightNode twoNodes s := by
  obtain ⟨s, ran⟩ : ∃ s, run (step twoNodes 0) State.init lateReply = some s :=
    Option.isSome_iff_exists.1 (by decide)
  have history : (run (step twoNodes 0) State.init lateReply).map
      (fun s => (s.returned, s.replied)) =
      some ([(⟨1, str "b"⟩, 1), (probeA, 0)], [(1, some probeA)]) := by decide
  rw [ran, Option.map_some, Option.some_inj, Prod.mk.injEq] at history
  refine ⟨s, ran, fun right => ?_⟩
  obtain ⟨host, -, mem⟩ := right ⟨1, str "b"⟩ (by rw [history.1]; exact List.mem_cons_self)
  rw [history.2, List.mem_singleton, Prod.mk.injEq, Option.some_inj] at mem
  exact absurd mem.2 (by decide)

end DistFs.Probe
