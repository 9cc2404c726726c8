import DistFs.Wire.Copying

/-!
# Replications one after another

Whatever calls of `create_replica` follow each other, for whatever paths, between whatever data
nodes, and however each of them ends: no file disappears, no file changes but the one that a call
names on its replica, and what a file holds in the end is a part of what some data node held under
the same path in the beginning.  A path with a comma in it is the exception: then a part of the path
may be taken for the contents.
-/

namespace DistFs.Wire

open CText

/-! ## Parts of texts -/

section Parts

variable {delims m : List Byte} {t : Token}

theorem scanToken_token_start (m : List Byte) : (scanToken delims m).token <+: m := by
  induction m with
  | nil => exact List.prefix_rfl
  | cons b m ih =>
    rw [scanToken]
    split_ifs
    · exact List.nil_prefix
    · exact List.nil_prefix
    · exact List.cons_prefix_cons.2 ⟨rfl, ih⟩

/-- A token is a part of its text. -/
theorem strtok_token_part (found : strtok delims m = some t) : t.token <:+: m := by
  induction m generalizing t with
  | nil => cases found
  | cons b m ih =>
    rw [strtok] at found
    split_ifs at found
    · obtain ⟨u, later, rfl⟩ := Option.map_eq_some_iff.1 found
      exact (ih later).trans (List.suffix_cons b m).isInfix
    · cases found
      exact (scanToken_token_start (b :: m)).isInfix

theorem nextToken_part {p : List Byte} (first : (nextToken delims m).1 = some p) : p <:+: m := by
  unfold nextToken at first
  cases found : strtok delims m with
  | none =>
    rw [found] at first
    cases first
  | some t =>
    rw [found] at first
    cases first
    exact strtok_token_part found

theorem nextToken_rest_suffix (m : List Byte) : (nextToken delims m).2 <:+ m := by
  unfold nextToken
  cases found : strtok delims m with
  | none => exact List.suffix_rfl
  | some t => exact strtok_rest_suffix found

theorem contentsOf_part (b : List Byte) : contentsOf b <:+: b := by
  have text : cstr b <:+: b := (List.takeWhile_prefix _).isInfix
  unfold contentsOf
  cases first : (nextToken [comma] (cstr b)).1 with
  | none => exact List.nil_infix
  | some p => exact (nextToken_part first).trans text

/-- A part without the separator lies on one side of it. -/
theorem infix_of_separated {α : Type*} {a b p : List α} {c : α} (part : p <:+: a ++ c :: b)
    (plain : c ∉ p) : p <:+: a ∨ p <:+: b := by
  obtain ⟨s, u, h⟩ := part
  rw [List.append_assoc, List.append_eq_append_iff] at h
  rcases h with ⟨a', rfl, h⟩ | ⟨s', -, h⟩
  · rw [List.append_eq_append_iff] at h
    rcases h with ⟨d, rfl, -⟩ | ⟨d, rfl, h⟩
    · exact .inl ⟨s, d, by simp⟩
    · -- The part would reach over the separator.
      cases d with
      | nil => exact .inl ⟨s, [], by simp⟩
      | cons x d =>
        obtain rfl := (List.cons.inj h).1
        simp at plain
  · cases s' with
    | nil =>
      cases p with
      | nil => exact .inl List.nil_infix
      | cons x p =>
        obtain rfl := (List.cons.inj h).1
        simp at plain
    | cons x s' => exact .inr ⟨s', u, by simp [(List.cons.inj h).2]⟩

end Parts

/-! ## One replication -/

/-- A call of `create_replica`, with the network and the kernels it meets. -/
structure Task where
  net : Net
  kernel : Kernel
  host : List Byte
  path : CString
  primdn : List Byte
  repdn : List Byte

/-- The path as the data nodes read it. -/
def Task.file (t : Task) : Option (List Byte) := (nextToken [comma] t.path.bytes).1

/-- The disks after a call.  Where the name node writes past an array, nothing has been written to a
disk yet. -/
def replicate (disk : Disk) (t : Task) : Disk :=
  match create_replica t.net t.kernel t.host disk t.path.bytes t.primdn t.repdn with
  | .ok r => r.disk
  | .error _ => disk

variable {disk : Disk} {t : Task} {node p b buf : List Byte} {tasks : List Task}

/-- The replica writes to the file that the primary has read. -/
theorem writtenPath_file (named : t.file = some p) (buf : List Byte) :
    writtenPath t.path.bytes buf = some p := by
  unfold Task.file nextToken at named
  cases found : strtok [comma] t.path.bytes with
  | none =>
    rw [found] at named
    cases named
  | some u =>
    rw [found] at named
    cases named
    unfold writtenPath
    rw [nextToken_append t.path.noNul found]

/-- What the name node has fetched is a part of the file on the primary. -/
theorem fetched_part
    (text : fetched t.kernel (disk t.primdn) (nextToken [comma] t.path.bytes).1 = .text buf) :
    ∃ p file, t.file = some p ∧ disk t.primdn p = some file ∧ buf <:+: file ∧
      ∃ m, buf = contentsOf m := by
  have answer := readReplica_fetched t.kernel (disk t.primdn) (nextToken [comma] t.path.bytes).1
  rw [text] at answer
  obtain ⟨p, file, n, first, held, -, -, contents, -⟩ := answer
  refine ⟨p, file, first, held, ?_, _, contents⟩
  rw [contents]
  exact (contentsOf_part _).trans (List.take_prefix _ _).isInfix

/-- What the replica takes for the contents. -/
theorem writtenText_part {m text : List Byte} (named : t.file = some p) (contents : buf = contentsOf m)
    (found : writtenText t.path.bytes buf = some text) :
    text <:+: buf ∨ comma ∈ t.path.bytes ∧ text <:+: t.path.bytes := by
  by_cases special : comma ∈ t.path.bytes
  · have token : IsToken [comma] text := by
      unfold writtenText nextToken at found
      split at found
      · cases found
      · rename_i u later
        cases found
        exact strtok_isToken later
    have part : text <:+: t.path.bytes ++ comma :: buf :=
      (nextToken_part found).trans (nextToken_rest_suffix _).isInfix
    rcases infix_of_separated part fun h => token.plain _ h (List.mem_singleton.2 rfl) with
      path | own
    · exact .inr ⟨special, path⟩
    · exact .inl own
  · have nonempty : t.path.bytes ≠ [] := by
      intro empty
      rw [Task.file, empty] at named
      cases named
    rw [contents, writtenText_token (isToken_path special nonempty)] at found
    split_ifs at found
    cases found
    exact .inl (contents ▸ List.infix_rfl)

/-- A replication changes nothing, or it writes to the file that it names on the replica a part of
what the primary holds there, or a part of a path with a comma. -/
theorem replicate_cases (disk : Disk) (t : Task) : replicate disk t = disk ∨
    ∃ p file b, t.file = some p ∧ disk t.primdn p = some file ∧
      replicate disk t = disk.set t.repdn p b ∧
      (b <:+: file ∨ comma ∈ t.path.bytes ∧ b <:+: t.path.bytes) := by
  have course := create_replica_course t.net t.kernel t.host disk t.path.bytes t.primdn t.repdn
  unfold replicate
  generalize create_replica t.net t.kernel t.host disk t.path.bytes t.primdn t.repdn = r at course ⊢
  cases course with
  | noText _ buf text | noStream _ buf _ _ text =>
    obtain ⟨p, file, named, held, -⟩ := fetched_part text
    dsimp only
    rw [writtenPath_file named, emptied]
    split_ifs
    · exact .inr ⟨p, file, [], named, held, rfl, .inl List.nil_infix⟩
    · exact .inl rfl
  | written _ buf p b fd text _ named found =>
    obtain ⟨q, file, first, held, part, _, contents⟩ := fetched_part text
    rw [writtenPath_file first] at named
    cases named
    have cut : b.take fd.takes <:+: b := (List.take_prefix fd.takes b).isInfix
    refine .inr ⟨p, file, b.take fd.takes, first, held, rfl, ?_⟩
    rcases writtenText_part first contents found with own | ⟨special, path⟩
    · exact .inl (cut.trans (own.trans part))
    · exact .inr ⟨special, cut.trans path⟩
  | _ => exact .inl rfl

theorem disk_set_elsewhere {n q : List Byte} (disk : Disk) (file : List Byte)
    (other : ¬ (node = n ∧ p = q)) : disk.set n q file node p = disk node p := by
  by_cases own : node = n
  · subst own
    exact disk_set_of_ne disk node file fun same => other ⟨rfl, same⟩
  · rw [Disk.set, Function.update_of_ne own]

/-- A file that is there stays there. -/
theorem replicate_kept (there : disk node p ≠ none) : replicate disk t node p ≠ none := by
  rcases replicate_cases disk t with same | ⟨q, file, text, -, -, changed, -⟩
  · rwa [same]
  · rw [changed]
    by_cases own : node = t.repdn ∧ p = q
    · rw [own.1, own.2, disk_set]
      exact Option.some_ne_none text
    · rwa [disk_set_elsewhere disk text own]

/-- Only the file that a call names changes, and only on the replica. -/
theorem replicate_elsewhere (other : t.repdn = node → t.file ≠ some p) :
    replicate disk t node p = disk node p := by
  rcases replicate_cases disk t with same | ⟨q, file, text, named, -, changed, -⟩
  · rw [same]
  · rw [changed]
    apply disk_set_elsewhere
    rintro ⟨rfl, rfl⟩
    exact other rfl named

/-! ## Any number of replications -/

/-- The text is a part of a file that some data node holds under the path, or a part of the path of a
call, if that has a comma. -/
def Genuine (disk : Disk) (tasks : List Task) (p b : List Byte) : Prop :=
  (∃ node file, disk node p = some file ∧ b <:+: file) ∨
    ∃ t ∈ tasks, t.file = some p ∧ comma ∈ t.path.bytes ∧ b <:+: t.path.bytes

theorem Genuine.part {b' : List Byte} (genuine : Genuine disk tasks p b) (part : b' <:+: b) :
    Genuine disk tasks p b' := by
  rcases genuine with ⟨node, file, held, whole⟩ | ⟨t, mem, named, special, path⟩
  · exact .inl ⟨node, file, held, part.trans whole⟩
  · exact .inr ⟨t, mem, named, special, part.trans path⟩

/-- Where the contents come from after the first of several calls. -/
theorem genuine_replicate (held : replicate disk t node p = some b) :
    Genuine disk (t :: tasks) p b := by
  rcases replicate_cases disk t with same | ⟨q, file, text, named, source, changed, origin⟩
  · rw [same] at held
    exact .inl ⟨node, b, held, List.infix_rfl⟩
  · rw [changed] at held
    by_cases own : node = t.repdn ∧ p = q
    · rw [own.1, own.2, disk_set] at held
      cases held
      rw [own.2]
      rcases origin with part | ⟨special, path⟩
      · exact .inl ⟨_, file, source, part⟩
      · exact .inr ⟨t, List.mem_cons_self, named, special, path⟩
    · rw [disk_set_elsewhere disk text own] at held
      exact .inl ⟨node, b, held, List.infix_rfl⟩

theorem Genuine.later (genuine : Genuine (replicate disk t) tasks p b) :
    Genuine disk (t :: tasks) p b := by
  rcases genuine with ⟨node, file, held, part⟩ | ⟨u, mem, origin⟩
  · exact (genuine_replicate held).part part
  · exact .inr ⟨u, List.mem_cons_of_mem t mem, origin⟩

/-- After any calls of `create_replica`, however they end: every file is still there; a file that no
call names on its replica is as it was; and what a file holds is a part of what some data node held
under the same path, or of the path of a call, if that has a comma. -/
theorem replications_genuine (tasks : List Task) (disk : Disk) (node p : List Byte) :
    (disk node p ≠ none → tasks.foldl replicate disk node p ≠ none) ∧
      ((∀ t ∈ tasks, t.repdn = node → t.file ≠ some p) →
        tasks.foldl replicate disk node p = disk node p) ∧
      ∀ b, tasks.foldl replicate disk node p = some b → Genuine disk tasks p b := by
  induction tasks generalizing disk with
  | nil =>
    refine ⟨id, fun _ => rfl, fun b held => ?_⟩
    exact .inl ⟨node, b, held, List.infix_rfl⟩
  | cons t rest ih =>
    obtain ⟨kept, elsewhere, genuine⟩ := ih (replicate disk t)
    refine ⟨fun there => kept (replicate_kept there), fun other => ?_, fun b held => ?_⟩
    · rw [List.foldl_cons, elsewhere fun u mem => other u (List.mem_cons_of_mem t mem)]
      exact replicate_elsewhere (other t List.mem_cons_self)
    · exact (genuine b held).later

end DistFs.Wire
