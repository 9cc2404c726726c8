import DistFs.Wire.Forwarding

/-!
# Requests and calls

Which `sendresponse_*` call each operation of the client asks for, and which one its request leads
to.  The request of `truncate` has its comma behind the size instead of in front of it, and the
request of `statfs` names the command `write`; a server that gets any other calls what the operation
asks for.
-/

namespace DistFs.Wire

open CText

namespace Op

/-- The command of the operation. -/
def command : Op → Command
  | .getattr _ => .getattr
  | .access _ _ => .access
  | .readdir _ => .readdir
  | .mknod _ _ _ => .mknod
  | .mkdir _ _ => .mkdir
  | .unlink _ => .unlink
  | .rmdir _ => .rmdir
  | .rename _ _ => .rename
  | .chmod _ _ => .chmod
  | .truncate _ _ => .truncate
  | .open_ _ _ => .open_
  | .read _ _ _ => .read
  | .write _ _ _ _ => .write
  | .statfs _ => .statfs

/-- The path that the operation is about. -/
def path : Op → CString
  | .getattr path | .access path _ | .readdir path | .mknod path _ _ | .mkdir path _ | .unlink path
  | .rmdir path | .rename path _ | .chmod path _ | .truncate path _ | .open_ path _ | .read path _ _
  | .write path _ _ _ | .statfs path => path

/-- No comma in a path. -/
def Plain : Op → Prop
  | .rename from_ to_ => comma ∉ from_.bytes ∧ comma ∉ to_.bytes
  | op => comma ∉ op.path.bytes

/-- The integer arguments. -/
def numbers : Op → List ℤ
  | .access _ x | .mkdir _ x | .chmod _ x | .truncate _ x | .open_ _ x => [x]
  | .mknod _ x y | .read _ x y | .write _ _ x y => [x, y]
  | .getattr _ | .readdir _ | .unlink _ | .rmdir _ | .rename _ _ | .statfs _ => []

/-- No integer argument has more than nine characters. -/
def Short (op : Op) : Prop := ∀ x ∈ op.numbers, (decimal x).length ≤ 9

/-- The call that the operation asks for. -/
def call : Op → Call
  | .getattr path => .getattr (my_path path)
  | .access path mask => .access (my_path path) mask
  | .readdir path => .readdir (my_path path)
  | .mknod path mode rdev => .mknod (my_path path) mode rdev
  | .mkdir path mode => .mkdir (my_path path) mode
  | .unlink path => .unlink (my_path path)
  | .rmdir path => .rmdir (my_path path)
  | .rename from_ to_ => .rename (my_path from_) (my_path to_)
  | .chmod path mode => .chmod (my_path path) mode
  | .truncate path size => .truncate (my_path path) size
  | .open_ path flags => .open_ (my_path path) flags
  | .read path size offset => .read (my_path path) size offset
  | .write path buf size offset => .write (my_path path) size offset buf
  | .statfs path => .statfs (my_path path)

/-- The message that reaches the name node. -/
def Message (net : Net) (namenode : List Byte) (op : Op) (M : List Byte) : Prop :=
  ∃ r, op.request = .ok r ∧ sendcommand net namenode r.path r.command = .ok (some M)

/-- The request of the operation makes exactly one node call the `sendresponse_*` function that the
operation asks for, with its arguments and for its host. -/
def Arrives (net : Net) (namenode : List Byte) (t : Tables) (host : Host) (op : Op) : Prop :=
  ∃ M, op.Message net namenode M ∧
    (serve net t host.name M).map (fun s => (s.host, s.call)) = [(host.name, op.call)]

end Op

section Server

variable {net : Net} {t t' : Tables} {host : Host} {h p q : List Byte} {c : Command} {x y : ℤ}

theorem nextToken_number (x : ℤ) : nextToken [comma] (snprintf 10 x) = (some (snprintf 10 x), []) :=
  nextToken_last (isToken_snprintf (by norm_num) x)

theorem nextToken_number_comma (x : ℤ) (m : List Byte) :
    nextToken [comma] (snprintf 10 x ++ comma :: m) = (some (snprintf 10 x), m) :=
  nextToken_delimited (isToken_snprintf (by norm_num) x) (by simp) (by decide) m

theorem nextToken_command (c : Command) (m : List Byte) :
    nextToken [comma] (c.text ++ comma :: m) = (some c.text, m) :=
  nextToken_delimited c.isToken_text (by simp) (by decide) m

theorem nextToken_comma (token : IsToken [comma] p) (m : List Byte) :
    nextToken [comma] (p ++ comma :: m) = (some p, m) :=
  nextToken_delimited token (by simp) (by decide) m

/-- A server that gets a request directly makes the call that the operation asks for. -/
theorem server_call {op : Op} {r : Request} (plain : op.Plain) (short : op.Short)
    (built : op.request = .ok r) (notWrite : op.command ≠ .write)
    (notTruncate : op.command ≠ .truncate) (notStatfs : op.command ≠ .statfs) :
    receivecommand_server net h (r.command.text ++ comma :: r.path) =
      .ok (.respond h op.call) := by
  have number {x : ℤ} (listed : x ∈ op.numbers) : atoi (snprintf 10 x) = x :=
    atoi_snprintf_of_short (short x listed)
  simp only [receivecommand_server, nextToken_command, Command.ofText_text]
  cases op with
  | write => exact absurd rfl notWrite
  | truncate => exact absurd rfl notTruncate
  | statfs => exact absurd rfl notStatfs
  | getattr path | readdir path | unlink path | rmdir path =>
    obtain ⟨-, rfl⟩ := request_eq_ok.1 built
    have token : IsToken [comma] (my_path path) := isToken_my_path plain
    simp only [nextToken_last token]
    rfl
  | access path x | mkdir path x | open_ path x | chmod path x =>
    obtain ⟨-, rfl⟩ := request_eq_ok.1 built
    have token : IsToken [comma] (my_path path) := isToken_my_path plain
    simp only [nextToken_comma token, nextToken_number, atoiPtr,
      number List.mem_cons_self]
    rfl
  | mknod path x y =>
    obtain ⟨-, rfl⟩ := request_eq_ok.1 built
    have token : IsToken [comma] (my_path path) := isToken_my_path plain
    simp only [nextToken_comma token, nextToken_number_comma, atoiOrZero,
      number List.mem_cons_self, number (List.mem_cons_of_mem _ List.mem_cons_self)]
    rfl
  | read path x y =>
    obtain ⟨-, rfl⟩ := request_eq_ok.1 built
    have token : IsToken [comma] (my_path path) := isToken_my_path plain
    simp only [nextToken_comma token, nextToken_number_comma, nextToken_number,
      atoiOrZero, number List.mem_cons_self, number (List.mem_cons_of_mem _ List.mem_cons_self)]
    rfl
  | rename from_ to_ =>
    obtain ⟨-, rfl⟩ := request_eq_ok.1 built
    simp only [nextToken_comma (isToken_my_path plain.1), nextToken_last (isToken_my_path plain.2)]
    rfl

/-- The calls of a data node that reacts like a server. -/
def served (node : List Byte) : Except Fault Reaction → List Served
  | .ok (.respond h call) => [⟨some node, h, call⟩]
  | _ => []

/-- A datagram with a forwarded command is served by a data node, as a server would, or by the name
node for `JUNK`, or not at all. -/
theorem serve_cases (net : Net) (t : Tables) (host : Host) {M m : List Byte} (noNul : NoNul M)
    (first : nextToken [comma] M = (some c.text, m)) (forwards : c.forwards = true)
    (fits : (framed c host M).length < 1000) :
    serve net t host.name M = [] ∨
      (∃ call, Call.path call = some JUNK ∧ serve net t host.name M = [⟨none, host.name, call⟩]) ∨
      ∃ dn, serve net t host.name M = served dn (receivecommand_server net host.name M) := by
  have buf2 : (host.name ++ comma :: cstr M).length < 1000 := by
    rw [framed_length] at fits
    rw [cstr_of_noNul noNul, List.length_append, List.length_cons]
    omega
  have turn := namenode_eq_forward net t host.name first forwards buf2
  have react := datanode_eq_server net host (congrArg Prod.fst first) forwards
  rw [cstr_of_noNul noNul] at turn
  rcases forward_sent (congrArg Turn.sent turn).symm with sent | ⟨call, mem, sent⟩ |
    ⟨dn, datagram, command, sent⟩
  · exact .inl (by simp [serve, sent])
  · exact .inr (.inl ⟨call, Command.junk_path mem, by simp [serve, sent]⟩)
  · obtain rfl : datagram = framed c host M := sendcommand_eq command
    refine .inr (.inr ⟨dn, ?_⟩)
    simp only [serve, sent, List.flatMap_cons, List.flatMap_nil, List.append_nil, react]
    rfl

/-- With a data node for the path of a datagram the call is made there. -/
theorem serve_located {M m path dn : List Byte} (noNul : NoNul M)
    (first : nextToken [comma] M = (some c.text, m)) (forwards : c.forwards = true)
    (second : (nextToken [comma] m).1 = some path) (fits : (framed c host M).length < 1000)
    (located : getfiledn net t path = .ok (some dn, t')) (known : net.known dn = true) :
    serve net t host.name M = served dn (receivecommand_server net host.name M) := by
  simp only [serve, namenode_sent noNul first forwards second fits located known,
    List.flatMap_cons, List.flatMap_nil, List.append_nil,
    datanode_eq_server net host (congrArg Prod.fst first) forwards]
  rfl

/-- No request contains a NUL. -/
theorem request_noNul {op : Op} {r : Request} (built : op.request = .ok r) : NoNul r.path := by
  have number (x : ℤ) : NoNul (snprintf 10 x) := (isToken_snprintf (by norm_num) x).noNul
  have path (p : CString) : NoNul (my_path p) := NoNul.append (by decide) p.noNul
  have separator : comma ≠ 0 := by decide
  cases op <;> obtain ⟨-, rfl⟩ := request_eq_ok.1 built <;>
    simp [noNul_append, noNul_cons, noNul_nil, number, path, separator, cstr_noNul]

/-- The message of an operation that builds its request in a buffer of 100 characters. -/
theorem message_length {op : Op} {r : Request} (built : op.request = .ok r)
    (notWrite : op.command ≠ .write) : r.path.length < 100 := by
  cases op with
  | write => exact absurd rfl notWrite
  | _ =>
    obtain ⟨fits, rfl⟩ := request_eq_ok.1 built
    exact fits

/-- The message of an operation. -/
theorem message_iff {namenode M : List Byte} {op : Op} {r : Request} (built : op.request = .ok r)
    (notWrite : op.command ≠ .write) (reached : net.known namenode = true) :
    op.Message net namenode M ↔ M = r.command.text ++ comma :: r.path := by
  have fits : (r.command.text ++ comma :: r.path).length < 1000 := by
    have := message_length built notWrite
    have := r.command.text_length
    rw [List.length_append, List.length_cons]
    omega
  have sent := sendcommand_ok reached fits
  constructor
  · rintro ⟨r', built', command⟩
    rw [built] at built'
    cases built'
    rw [sent] at command
    cases command
    rfl
  · rintro rfl
    exact ⟨r, built, sent⟩

theorem message_noNul {op : Op} {r : Request} (built : op.request = .ok r) :
    NoNul (r.command.text ++ comma :: r.path) :=
  r.command.isToken_text.noNul.append (noNul_cons.2 ⟨by decide, request_noNul built⟩)

/-- A request from a buffer of 100 characters fits every buffer on its way. -/
theorem framed_fits (host : Host) {op : Op} {r : Request} (built : op.request = .ok r)
    (notWrite : op.command ≠ .write) :
    (framed r.command host (r.command.text ++ comma :: r.path)).length < 1000 := by
  have := message_length built notWrite
  have := r.command.text_length
  have := host.short
  rw [framed_length, List.length_append, List.length_cons]
  omega

/-- The size of a `truncate` is read as the end of its path. -/
theorem truncate_server {path : CString} {size : ℤ} (plain : comma ∉ path.bytes) :
    receivecommand_server net h
        (Command.text .truncate ++ comma :: (my_path path ++ snprintf 10 size ++ [comma])) =
      .ok (.respond h (.truncate (some (my_path path ++ snprintf 10 size)) 0)) := by
  have number := isToken_snprintf (by norm_num : 2 ≤ 10) size
  have token : IsToken [comma] (my_path path ++ snprintf 10 size) := by
    have path := isToken_my_path plain
    refine ⟨by simp [path.nonempty], path.noNul.append number.noNul, fun b hb => ?_⟩
    exact (List.mem_append.1 hb).elim (path.plain b) (number.plain b)
  simp only [receivecommand_server, nextToken_command, Command.ofText_text, nextToken_comma token,
    nextToken_nil]
  rfl

theorem my_path_ne_JUNK (path : CString) : my_path path ≠ JUNK := by
  intro h
  have lengths := congrArg List.length h
  have long : tmp_path.length = 19 := by decide
  have short : JUNK.length = 14 := by decide
  rw [my_path, List.length_append, long, short] at lengths
  omega

theorem truncate_not_arrives {namenode : List Byte} {path : CString} {size : ℤ} {r : Request}
    (plain : comma ∉ path.bytes) (built : Op.request (.truncate path size) = .ok r)
    (reached : net.known namenode = true) :
    ¬ Op.Arrives net namenode t host (.truncate path size) := by
  rintro ⟨M, message, arrived⟩
  obtain rfl := (message_iff built (by simp [Op.command]) reached).1 message
  have fits := framed_fits host built (by simp [Op.command])
  have noNul := message_noNul built
  obtain ⟨-, rfl⟩ := request_eq_ok.1 built
  rcases serve_cases net t host noNul (nextToken_command _ _) rfl fits with
    nothing | ⟨call, junk, served⟩ | ⟨dn, served⟩
  · rw [nothing] at arrived
    cases arrived
  · rw [served] at arrived
    simp only [List.map_cons, List.map_nil, List.cons.injEq, Prod.mk.injEq, and_true] at arrived
    obtain ⟨-, rfl⟩ := arrived
    exact my_path_ne_JUNK path (Option.some.inj junk)
  · rw [served, truncate_server plain] at arrived
    have longer : my_path path ++ snprintf 10 size ≠ my_path path := by
      simp [snprintf_ne_nil (by norm_num : 2 ≤ 10) size]
    simp only [Wire.served, List.map_cons, List.map_nil, List.cons.injEq, Prod.mk.injEq, and_true,
      Op.call, Call.truncate.injEq, Option.some.injEq] at arrived
    exact longer arrived.2.1

/-- The request of `statfs` makes a data node write. -/
theorem statfs_not_arrives {namenode dn : List Byte} {path : CString} {r : Request}
    (plain : comma ∉ path.bytes) (built : Op.request (.statfs path) = .ok r)
    (reached : net.known namenode = true)
    (located : getfiledn net t (my_path path) = .ok (some dn, t')) (known : net.known dn = true) :
    ¬ Op.Arrives net namenode t host (.statfs path) := by
  rintro ⟨M, message, arrived⟩
  obtain rfl := (message_iff built (by simp [Op.command]) reached).1 message
  have fits := framed_fits host built (by simp [Op.command])
  have noNul := message_noNul built
  obtain ⟨-, rfl⟩ := request_eq_ok.1 built
  have second := congrArg Prod.fst (nextToken_last (isToken_my_path plain))
  rw [serve_located noNul (nextToken_command _ _) rfl second fits located known] at arrived
  simp only [receivecommand_server, nextToken_command, Command.ofText_text, served, List.map_cons,
    List.map_nil, List.cons.injEq, Prod.mk.injEq, and_true, Op.call] at arrived
  exact Call.noConfusion arrived.2

/-- Every request but that of `truncate` has the path as its first field. -/
theorem request_path {op : Op} {r : Request} (plain : op.Plain) (built : op.request = .ok r)
    (notTruncate : op.command ≠ .truncate) :
    (nextToken [comma] r.path).1 = some (my_path op.path) := by
  cases op with
  | truncate => exact absurd rfl notTruncate
  | getattr path | readdir path | unlink path | rmdir path | statfs path =>
    obtain ⟨-, rfl⟩ := request_eq_ok.1 built
    have token : IsToken [comma] (my_path path) := isToken_my_path plain
    exact congrArg Prod.fst (nextToken_last token)
  | access path | mkdir path | open_ path | chmod path | mknod path | read path | write path =>
    obtain ⟨-, rfl⟩ := request_eq_ok.1 built
    have token : IsToken [comma] (my_path path) := isToken_my_path plain
    exact congrArg Prod.fst (nextToken_comma token _)
  | rename from_ to_ =>
    obtain ⟨-, rfl⟩ := request_eq_ok.1 built
    exact congrArg Prod.fst (nextToken_comma (isToken_my_path plain.1) _)

/-- The command in the request of an operation. -/
theorem request_command {op : Op} {r : Request} (built : op.request = .ok r)
    (notStatfs : op.command ≠ .statfs) : r.command = op.command := by
  cases op with
  | statfs => exact absurd rfl notStatfs
  | _ =>
    obtain ⟨-, rfl⟩ := request_eq_ok.1 built
    rfl

theorem Op.command_forwards {op : Op} (notStatfs : op.command ≠ .statfs) :
    op.command.forwards = true := by
  cases op <;> first | rfl | exact absurd rfl notStatfs

end Server

/-- A file of the root directory. -/
def slashF : CString := .lit "/f"

end DistFs.Wire
