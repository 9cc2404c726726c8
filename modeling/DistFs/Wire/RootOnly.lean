import DistFs.Wire.Exchange
import DistFs.Wire.Failures
import DistFs.Wire.Limits
import DistFs.Wire.Primary

/-!
# What reaches a data node

From an operation of the client to the data node, over any lists of the name node and for paths that
may contain commas.  A path ends at its first comma on the way, and the file list knows
`DATANODE_DIR` alone, so what reaches a data node is an operation on the root, or on a path that has
a comma where the first name should stand.  Only operations on the root arrive as they were issued.
-/

namespace DistFs.Wire

open CText Registry

/-- What stands in front of the first comma of the path is the root.  The request of `truncate` has
no comma of its own behind the path. -/
def Op.AtRoot (op : Op) : Prop :=
  (op.path.bytes.takeWhile (· != comma) = [] ∨ op.path.bytes.takeWhile (· != comma) = [47]) ∧
    (op.command = .truncate → comma ∈ op.path.bytes)

section Fields

variable {net : Net} {t t' : Tables} {host : Host} {op : Op} {r : Request} {d : Directory}
  {text h path : List Byte}

/-- The first field of a text that does not begin with a comma. -/
theorem nextToken_takeWhile {b : Byte} {m : List Byte} (noNul : NoNul (b :: m)) (other : b ≠ comma) :
    (nextToken [comma] (b :: m)).1 = some ((b :: m).takeWhile (· != comma)) := by
  by_cases special : comma ∈ b :: m
  · obtain ⟨p, c, q, split, isComma, before⟩ := exists_first (· == comma) ⟨comma, special, by simp⟩
    rw [beq_iff_eq] at isComma
    subst isComma
    have plain : ∀ c ∈ p, (c != comma) = true := fun c mem => by
      rw [bne, before c mem]
      rfl
    have token : IsToken [comma] p := by
      refine ⟨?_, fun zero => ?_, fun c mem delimiter => ?_⟩
      · rintro rfl
        exact other (List.cons.inj split).1
      · apply noNul
        rw [split]
        exact List.mem_append_left _ zero
      · rw [List.mem_singleton.1 delimiter] at mem
        exact absurd (plain comma mem) (by simp)
    rw [split, nextToken_comma token, List.takeWhile_append_of_pos plain]
    simp
  · have token : IsToken [comma] (b :: m) := by
      refine ⟨List.cons_ne_nil b m, noNul, fun c mem delimiter => ?_⟩
      rw [List.mem_singleton.1 delimiter] at mem
      exact special mem
    rw [nextToken_last token, List.takeWhile_eq_self_iff.2]
    intro c mem
    rw [bne_iff_ne]
    rintro rfl
    exact special mem

/-- The path that the name node reads in the request of an operation. -/
def Op.front (op : Op) : List Byte :=
  match op with
  | .truncate path size =>
      if comma ∈ path.bytes then sentPath path else my_path path ++ snprintf 10 size
  | op => sentPath op.path

theorem sentPath_append (path : CString) (m : List Byte) :
    (my_path path ++ comma :: m).takeWhile (· != comma) = sentPath path := by
  rw [List.takeWhile_append, sentPath]
  split_ifs with whole
  · rw [(List.takeWhile_prefix _).eq_of_length whole]
    simp
  · rfl

theorem request_takeWhile (built : op.request = .ok r) :
    r.path.takeWhile (· != comma) = op.front := by
  cases op with
  | truncate path size =>
    obtain ⟨-, rfl⟩ := request_eq_ok.1 built
    rw [Op.front]
    split_ifs with special
    · obtain ⟨-, q, -, split⟩ := my_path_comma special
      obtain ⟨token, -⟩ := my_path_comma special
      have plain : ∀ c ∈ sentPath path, (c != comma) = true := by
        intro c mem
        simpa using token.plain c mem
      rw [split, List.append_assoc, List.append_assoc, List.cons_append,
        List.takeWhile_append_of_pos plain]
      simp
    · have number := isToken_number size
      have token := isToken_my_path special
      have plain : ∀ c ∈ my_path path ++ snprintf 10 size, (c != comma) = true := by
        intro c mem
        rcases List.mem_append.1 mem with mem | mem
        · simpa using token.plain c mem
        · simpa using number.plain c mem
      rw [List.takeWhile_append_of_pos plain]
      simp
  | getattr path | readdir path | unlink path | rmdir path | statfs path =>
    obtain ⟨-, rfl⟩ := request_eq_ok.1 built
    rfl
  | _ =>
    obtain ⟨-, rfl⟩ := request_eq_ok.1 built
    exact sentPath_append _ _

theorem request_starts (built : op.request = .ok r) : ∃ m, r.path = 47 :: m := by
  have start : ∃ m, tmp_path = 47 :: m := ⟨_, rfl⟩
  obtain ⟨m, start⟩ := start
  cases op <;> obtain ⟨-, rfl⟩ := request_eq_ok.1 built <;>
    simp only [my_path, start, List.cons_append] <;> exact ⟨_, rfl⟩

theorem request_first (built : op.request = .ok r) :
    (nextToken [comma] r.path).1 = some op.front := by
  have noNul := request_noNul built
  have front := request_takeWhile built
  obtain ⟨m, starts⟩ := request_starts built
  rw [starts] at noNul front ⊢
  rw [nextToken_takeWhile noNul (by decide), front]

/-! ## The root -/

theorem spells_root_iff : spells path DATANODE_DIR = true ↔
    path = DATANODE_DIR ∨ path = DATANODE_DIR ++ [47] := by
  rw [spells, Bool.or_eq_true, beq_iff_eq, beq_iff_eq]
  split_ifs with closed
  · obtain ⟨p, rfl⟩ := List.getLast?_eq_some_iff.1 closed
    rw [List.dropLast_concat, List.append_left_inj, eq_comm, @eq_comm _ DATANODE_DIR]
  · rw [or_self, eq_comm]
    refine ⟨.inl, fun spelled => spelled.elim id fun slashed => ?_⟩
    rw [slashed, List.getLast?_concat] at closed
    exact absurd rfl closed

theorem spells_append {m : List Byte} :
    spells (tmp_path ++ m) DATANODE_DIR = true ↔ m = [] ∨ m = [47] := by
  rw [spells_root_iff]
  have same : DATANODE_DIR = tmp_path := rfl
  rw [same, List.append_right_eq_self, List.append_cancel_left_eq]

theorem sentPath_eq (path : CString) :
    sentPath path = tmp_path ++ path.bytes.takeWhile (· != comma) := by
  rw [sentPath, my_path]
  apply List.takeWhile_append_of_pos
  intro c mem
  rw [bne_iff_ne]
  rintro rfl
  exact absurd mem (by decide)

/-- The operations whose path the name node takes for the root. -/
theorem front_root_iff (op : Op) : spells op.front DATANODE_DIR = true ↔ op.AtRoot := by
  cases op with
  | truncate path size =>
    rw [Op.front, Op.AtRoot]
    simp only [Op.path, Op.command, forall_const]
    split_ifs with special
    · rw [sentPath_eq, spells_append]
      simp only [special, and_true]
    · simp only [special, and_false, iff_false]
      rw [my_path, List.append_assoc, spells_append]
      have number := isToken_number size
      rintro (none_ | slash)
      · exact number.nonempty (List.append_eq_nil_iff.1 none_).2
      · rcases List.append_eq_singleton_iff.1 slash with ⟨-, digit⟩ | ⟨-, none_⟩
        · have mem : (47 : Byte) ∈ snprintf 10 size := by simp [digit]
          rcases snprintf_mem mem with isDigit_ | minus
          · exact absurd isDigit_ (by decide)
          · exact absurd minus (by decide)
        · exact number.nonempty none_
  | _ =>
    change spells (sentPath _) DATANODE_DIR = true ↔ _
    rw [Op.AtRoot, sentPath_eq, spells_append]
    simp [Op.command, Op.path]

/-! ## What the data node makes of it -/

theorem nextToken_second (path : CString) (x : ℤ) : ∃ p, (nextToken [comma]
    (nextToken [comma] (my_path path ++ comma :: snprintf 10 x)).2).1 = some p := by
  have number := isToken_number x
  by_cases special : comma ∈ path.bytes
  · obtain ⟨token, q, noNul, split⟩ := my_path_comma special
    rw [split, List.append_assoc, List.cons_append, nextToken_comma token]
    obtain ⟨u, found⟩ := Option.ne_none_iff_exists'.1 (strtok_append_ne_none q noNul number)
    exact ⟨u.token, by rw [nextToken, found]⟩
  · rw [nextToken_comma (isToken_my_path special), nextToken_last number]
    exact ⟨_, rfl⟩

/-- Every request of the client makes a data node call a `sendresponse_*` function on the path in
front. -/
theorem request_responds (net : Net) (h : List Byte) (built : op.request = .ok r) :
    ∃ call, receivecommand_server net h (r.command.text ++ comma :: r.path) = .ok (.respond h call) ∧
      call.path = some op.front := by
  have first := request_first built
  simp only [receivecommand_server, nextToken_command]
  cases op with
  | access path x | mkdir path x | chmod path x | open_ path x =>
    obtain ⟨-, rfl⟩ := request_eq_ok.1 built
    obtain ⟨p, second⟩ := nextToken_second path x
    simp only [Command.ofText_text, second, atoiPtr]
    exact ⟨_, rfl, first⟩
  | _ =>
    obtain ⟨-, rfl⟩ := request_eq_ok.1 built
    simp only [Command.ofText_text]
    exact ⟨_, rfl, first⟩

theorem request_forwards (built : op.request = .ok r) : r.command.forwards = true := by
  cases op <;> obtain ⟨-, rfl⟩ := request_eq_ok.1 built <;> rfl

/-- Every request is answered or forwarded as the directory says. -/
theorem request_serve {namenode M : List Byte} (represents : Represents t d)
    (passes : op.PassesWhole host) (message : op.Message net namenode M) :
    (∀ dn, d.serving net op.front = some dn → net.known dn = true →
      ∃ call, serve net t host.name M = [⟨some dn, host.name, call⟩] ∧ call.path = some op.front) ∧
    ((∀ dn, d.serving net op.front = some dn → net.known dn = false) →
      ∀ s ∈ serve net t host.name M, s.node = none) := by
  obtain ⟨r, built, sent⟩ := message
  obtain rfl := sendcommand_eq sent
  obtain ⟨r', built', fits⟩ := fits_of_passesWhole passes
  obtain rfl := Except.ok.inj (built.symm.trans built')
  have noNul := message_noNul built
  have first := nextToken_command r.command r.path
  have second := request_first built
  have forwards := request_forwards built
  obtain ⟨t', located, -⟩ := represents.getfiledn net op.front
  constructor
  · intro dn serves known
    rw [serves] at located
    obtain ⟨call, responds, path⟩ := request_responds net host.name built
    refine ⟨call, ?_, path⟩
    rw [serve_located noNul first forwards second fits located known, responds]
    rfl
  · intro silent s mem
    have buf2 : (host.name ++ comma :: cstr (r.command.text ++ comma :: r.path)).length < 1000 := by
      rw [framed_length] at fits
      rw [cstr_of_noNul noNul, List.length_append, List.length_cons]
      omega
    have turn := namenode_eq_forward net t host.name first forwards buf2
    rw [second] at turn
    rw [serve, turn, forward, located] at mem
    cases serves : d.serving net op.front with
    | none =>
      simp only [serves] at mem
      cases junk : r.command.junk with
      | none =>
        simp only [junk] at mem
        cases mem
      | some call =>
        simp only [junk, List.flatMap_cons, List.flatMap_nil, List.append_nil] at mem
        rw [List.mem_singleton.1 mem]
    | some dn =>
      have unsent : sendcommand net dn
          (host.name ++ comma :: cstr (r.command.text ++ comma :: r.path)) r.command = .ok none :=
        sendcommand_eq_none.2 (silent dn serves)
      simp only [serves, unsent] at mem
      cases mem

end Fields

/-- An operation reaches a data node if and only if the name node takes its path for the root, and
the first registered data node that answers, which it is then sent to, has an address. -/
theorem reaches_iff {net : Net} {t : Tables} {host : Host} {op : Op} {namenode M dn : List Byte}
    (reachable : Reachable t) (passes : op.PassesWhole host) (message : op.Message net namenode M) :
    (∃ s ∈ serve net t host.name M, s.node = some dn) ↔
      op.AtRoot ∧ (t.dlist.map Datanode.node).find? net.alive = some dn ∧ net.known dn = true := by
  obtain ⟨reaches, misses⟩ := request_serve reachable.represents passes message
  rw [← front_root_iff]
  constructor
  · rintro ⟨s, mem, node⟩
    by_cases served : ∃ dn', Directory.serving (t.dlist.map Datanode.node) net op.front = some dn' ∧
        net.known dn' = true
    · obtain ⟨dn', serves, known⟩ := served
      obtain ⟨call, calls, -⟩ := reaches dn' serves known
      rw [calls] at mem
      obtain rfl := List.mem_singleton.1 mem
      obtain rfl := Option.some.inj node
      rw [Directory.serving] at serves
      split_ifs at serves with root
      exact ⟨root, serves, known⟩
    · have nowhere := misses (fun dn' serves => ?_) s mem
      · rw [nowhere] at node
        cases node
      · by_contra known
        exact served ⟨dn', serves, Bool.eq_true_of_not_eq_false known⟩
  · rintro ⟨root, first, known⟩
    have serves : Directory.serving (t.dlist.map Datanode.node) net op.front = some dn := by
      rw [Directory.serving, if_pos root]
      exact first
    obtain ⟨call, calls, -⟩ := reaches dn serves known
    exact ⟨_, by rw [calls]; exact List.mem_singleton_self _, rfl⟩

/-- The request to remove a file of the root directory whose name begins with a comma. -/
def unlinkComma : Op := .unlink (.lit "/,x")

/-- A data node is asked to remove `DATANODE_DIR` instead. -/
theorem reaches_iff_unlinkComma :
    (∃ s ∈ serve upNet (oneFile DATANODE_DIR) oneHost.name (str "unlink,/tmp/CS545/datanode/,x"),
      s.node = some (str "d")) ↔
      unlinkComma.AtRoot ∧
        ((oneFile DATANODE_DIR).dlist.map Datanode.node).find? upNet.alive = some (str "d") ∧
          upNet.known (str "d") = true :=
  have small : (my_path (.lit "/,x")).length < 100 := by decide
  have built : unlinkComma.request = .ok ⟨.unlink, my_path (.lit "/,x")⟩ := by
    change request 100 .unlink (my_path (.lit "/,x")) = _
    exact request_eq_ok.2 ⟨small, rfl⟩
  reaches_iff oneFile_reachable (passesWhole_of_fits built (by decide))
    (⟨_, built, rfl⟩ : unlinkComma.Message upNet (str "n") _)

/-! ## Requests arrive as issued -/

section Arrivals

variable {net : Net} {t : Tables} {host : Host} {op : Op} {r : Request} {namenode M dn : List Byte}

/-- An operation without a comma in its path is on the root if its path is empty or a slash. -/
theorem Op.atRoot_iff (plain : op.Plain) (notTruncate : op.command ≠ .truncate) :
    op.AtRoot ↔ op.path.bytes = [] ∨ op.path.bytes = [47] := by
  have whole : op.path.bytes.takeWhile (· != comma) = op.path.bytes := by
    apply List.takeWhile_eq_self_iff.2
    intro c mem
    rw [bne_iff_ne]
    rintro rfl
    cases op with
    | rename from_ to_ => exact plain.1 mem
    | _ => exact plain mem
  rw [Op.AtRoot, whole]
  exact and_iff_left fun truncates => absurd truncates notTruncate

theorem Op.call_path (op : Op) : op.call.path = some (my_path op.path) := by
  cases op <;> rfl

/-- An operation that arrives has reached a data node: the name node itself answers for `JUNK`. -/
theorem Op.Message.reaches (message : op.Message net namenode M) (built : op.request = .ok r)
    (notWrite : op.command ≠ .write)
    (arrived : (serve net t host.name M).map (fun s => (s.host, s.call)) = [(host.name, op.call)]) :
    ∃ dn, ∃ s ∈ serve net t host.name M, s.node = some dn := by
  obtain ⟨r', built', sent⟩ := message
  obtain rfl := Except.ok.inj (built.symm.trans built')
  obtain rfl := sendcommand_eq sent
  rcases serve_cases net t host (message_noNul built) (nextToken_command _ _)
    (request_forwards built) (framed_fits host built notWrite) with
    nothing | ⟨call, junk, served_⟩ | ⟨dn, served_⟩
  · rw [nothing] at arrived
    cases arrived
  · rw [served_] at arrived
    simp only [List.map_cons, List.map_nil, List.cons.injEq, Prod.mk.injEq, and_true] at arrived
    obtain ⟨-, rfl⟩ := arrived
    exact absurd (op.call_path.symm.trans junk) fun same => my_path_ne_JUNK _ (Option.some.inj same)
  · obtain ⟨call, responds, -⟩ := request_responds net host.name built
    refine ⟨dn, ⟨some dn, host.name, call⟩, ?_, rfl⟩
    rw [served_, responds]
    exact List.mem_singleton_self _

end Arrivals

/-- A request arrives as the operation that issued it if and only if it is no `truncate`, no
`statfs` and about the root, the client finds the name node, and the name node finds the data node
that it chooses: the first registered one that answers. -/
theorem arrives_iff {net : Net} {t : Tables} {host : Host} {namenode : List Byte} {op : Op}
    {r : Request} (reachable : Reachable t) (notWrite : op.command ≠ .write) (plain : op.Plain)
    (short : op.Short) (built : op.request = .ok r) :
    op.Arrives net namenode t host ↔ op.command ≠ .truncate ∧ op.command ≠ .statfs ∧
      (op.path.bytes = [] ∨ op.path.bytes = [47]) ∧ net.known namenode = true ∧
        ∃ dn, (t.dlist.map Datanode.node).find? net.alive = some dn ∧ net.known dn = true := by
  have passes := passesWhole_of_fits built (framed_fits host built notWrite)
  have located (root : op.AtRoot) (dn : List Byte)
      (first : (t.dlist.map Datanode.node).find? net.alive = some dn) :
      ∃ t', getfiledn net t op.front = .ok (some dn, t') := by
    obtain ⟨t', found, -⟩ := reachable.represents.getfiledn net op.front
    rw [Directory.serving, if_pos ((front_root_iff op).2 root)] at found
    exact ⟨t', found.trans (by rw [Directory.primary, first])⟩
  constructor
  · rintro ⟨M, message, arrived⟩
    obtain ⟨dn, reached⟩ := message.reaches built notWrite arrived
    obtain ⟨root, first, known⟩ := (reaches_iff reachable passes message).1 reached
    have knownName : net.known namenode = true := by
      obtain ⟨r', -, sent⟩ := message
      exact sendcommand_known sent
    have notTruncate : op.command ≠ .truncate := by
      intro isTruncate
      cases op with
      | truncate path size => exact plain (root.2 rfl)
      | _ => cases isTruncate
    have notStatfs : op.command ≠ .statfs := by
      intro isStatfs
      cases op with
      | statfs path =>
        obtain ⟨t', found⟩ := located root dn first
        have front : Op.front (.statfs path) = my_path path := sentPath_plain plain
        rw [front] at found
        exact statfs_not_arrives plain built knownName found known ⟨M, message, arrived⟩
      | _ => cases isStatfs
    exact ⟨notTruncate, notStatfs, (Op.atRoot_iff plain notTruncate).1 root, knownName, dn, first,
      known⟩
  · rintro ⟨notTruncate, notStatfs, isRoot, knownName, dn, first, known⟩
    obtain ⟨t', found⟩ := located ((Op.atRoot_iff plain notTruncate).2 isRoot) dn first
    have message := (message_iff built notWrite knownName).2 rfl
    refine ⟨_, message, ?_⟩
    rw [serve_located (message_noNul built) (nextToken_command _ _) (request_forwards built)
      (request_first built) (framed_fits host built notWrite) found known,
      server_call plain short built notWrite notTruncate notStatfs]
    rfl

/-- The root directory. -/
def root : CString := .lit "/"

theorem root_access : Op.request (.access root 4) =
    .ok ⟨.access, my_path root ++ comma :: snprintf 10 4⟩ := by
  rw [Op.request, xmp_access, request, if_pos (by decide)]

/-- An `access` to the root directory. -/
theorem arrives_iff_access :
    Op.Arrives upNet (str "n") (oneFile DATANODE_DIR) oneHost (.access root 4) ↔
      (Op.access root 4).command ≠ .truncate ∧ (Op.access root 4).command ≠ .statfs ∧
        ((Op.access root 4).path.bytes = [] ∨ (Op.access root 4).path.bytes = [47]) ∧
          upNet.known (str "n") = true ∧
            ∃ dn, ((oneFile DATANODE_DIR).dlist.map Datanode.node).find? upNet.alive = some dn ∧
              upNet.known dn = true :=
  arrives_iff oneFile_reachable (by decide) (show comma ∉ root.bytes by decide)
    (show ∀ x ∈ [(4 : ℤ)], (decimal x).length ≤ 9 by decide) root_access

theorem root_truncate : Op.request (.truncate root 5) =
    .ok ⟨.truncate, my_path root ++ snprintf 10 5 ++ [comma]⟩ := by
  rw [Op.request, xmp_truncate, request, if_pos (by decide)]

/-- `truncate("/", 5)` is a request to truncate the file `/5` to no bytes, and `access("/f", 4)` is
answered by the name node for `JUNK`. -/
theorem truncate_misread :
    Reachable (oneFile DATANODE_DIR) ∧
    ¬ Op.Arrives upNet (str "n") (oneFile DATANODE_DIR) oneHost (.truncate root 5) ∧
    receivecommand_datanode upNet (str "truncate,h,truncate,/tmp/CS545/datanode/5,") =
      .ok (.respond (str "h") (.truncate (some (str "/tmp/CS545/datanode/5")) 0)) ∧
    serve upNet (oneFile DATANODE_DIR) oneHost.name (str "access,/tmp/CS545/datanode/f,4") =
      [⟨none, oneHost.name, .access (some JUNK) 0⟩] :=
  ⟨oneFile_reachable, truncate_not_arrives (by decide) root_truncate rfl, by decide, by decide⟩

end DistFs.Wire
