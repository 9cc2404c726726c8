import DistFs.CText.Memory
import DistFs.Wire.Replication

/-!
# When a replica is a copy, and when nothing is replicated

The contents of a file travel as the first field of a C string, and `create_replica` goes on where it
should stop: when the file is present on the replica, and when it cannot be opened there.
-/

namespace DistFs.Wire

open CText

/-! ## Copies -/

/-- If `create_replica` gets to its end, the file on the replica holds `b`. -/
def CopiesContent (net : Net) (kernel : Kernel) (host : List Byte) (disk : Disk)
    (path primdn repdn b : List Byte) : Prop :=
  ∀ r, create_replica net kernel host disk path primdn repdn = .ok r → r.ended = .ends →
    r.disk repdn path = some b

/-- The run of `create_replica` for a file `b` of which `pread` gives at most `n` bytes gets to its
end, if the replica can open the file: all addresses are found, the messages fit their datagrams, and
there is a text to write. -/
structure GetsThrough (net : Net) (host path primdn repdn b : List Byte) (n : ℕ) : Prop where
  replica : net.known repdn = true
  primary : net.known primdn = true
  answers : net.known host = true
  named : path ≠ []
  asked : path.length + 19 < 1000
  terminated : (cstr (b.take (min n 4096))).length < 4096
  text : contentsOf (b.take (min n 4096)) ≠ []
  sent : path.length + (contentsOf (b.take (min n 4096))).length + 9 < 1000

section Copies

variable {net : Net} {kernel : Kernel} {host path primdn repdn b buf : List Byte} {disk : Disk}
  {n : ℕ} {fd : FileStream}

theorem contentsOf_isToken (text : contentsOf b ≠ []) : IsToken [comma] (contentsOf b) := by
  unfold contentsOf nextToken at text ⊢
  cases found : strtok [comma] (cstr b) with
  | none =>
    rw [found] at text
    exact absurd rfl text
  | some t => exact strtok_isToken found

/-- A text without comma and NUL is its own first field. -/
theorem contentsOf_plain (noComma : comma ∉ b) (noNul : NoNul b) : contentsOf b = b := by
  unfold contentsOf
  rw [cstr_of_noNul noNul]
  by_cases empty : b = []
  · rw [empty]
    rfl
  · have token : IsToken [comma] b :=
      ⟨empty, noNul, fun c hc other => noComma (List.mem_singleton.1 other ▸ hc)⟩
    rw [nextToken_last token]
    rfl

theorem writtenPath_token (token : IsToken [comma] path) (buf : List Byte) :
    writtenPath path buf = some path := by
  unfold writtenPath
  rw [nextToken_comma token]

theorem writtenText_token (token : IsToken [comma] path) (b : List Byte) :
    writtenText path (contentsOf b) =
      if contentsOf b = [] then none else some (contentsOf b) := by
  unfold writtenText
  rw [nextToken_comma token]
  dsimp only
  by_cases empty : contentsOf b = []
  · rw [if_pos empty, empty]
    rfl
  · rw [if_neg empty, nextToken_last (contentsOf_isToken empty)]

/-- The contents of a file that the primary can read. -/
theorem fetched_held (token : IsToken [comma] path) (held : disk primdn path = some b)
    (reads : kernel.reading = .takes n) (fits : (cstr (b.take (min n 4096))).length < 4096) :
    fetched kernel (disk primdn) (nextToken [comma] path).1 =
      .text (contentsOf (b.take (min n 4096))) := by
  unfold fetched
  rw [nextToken_last token]
  simp only [held, reads, if_pos fits]

theorem create_replica_ends (token : IsToken [comma] path) (held : disk primdn path = some b)
    (reads : kernel.reading = .takes n) (opened : kernel.fopen = some fd) (whole : fd.inInt = true)
    (through : GetsThrough net host path primdn repdn b n) :
    create_replica net kernel host disk path primdn repdn =
      .ok ⟨.ends, disk.set repdn path ((contentsOf (b.take (min n 4096))).take fd.takes), none⟩ := by
  have text := fetched_held token held reads through.terminated
  rw [create_replica_asked through.replica through.asked through.answers,
    getContents_text through.primary through.asked through.answers text]
  apply writeContents_written through.replica through.answers through.sent
    (writtenPath_token token _) _ opened whole
  rw [writtenText_token token, if_neg through.text]

theorem isToken_path {path : CString} (plain : comma ∉ path.bytes) (named : path.bytes ≠ []) :
    IsToken [comma] path.bytes :=
  ⟨named, path.noNul, fun _ hc other => plain (List.mem_singleton.1 other ▸ hc)⟩

/-- Nothing else gets to the end. -/
theorem getsThrough_of_ends {path : CString} (plain : comma ∉ path.bytes)
    (held : disk primdn path.bytes = some b) {r : Replication}
    (run : create_replica net kernel host disk path.bytes primdn repdn = .ok r)
    (ends : r.ended = .ends) :
    ∃ n fd, kernel.reading = .takes n ∧ kernel.fopen = some fd ∧ fd.inInt = true ∧
      GetsThrough net host path.bytes primdn repdn b n ∧
      r.disk = disk.set repdn path.bytes ((contentsOf (b.take (min n 4096))).take fd.takes) := by
  have course := create_replica_course net kernel host disk path.bytes primdn repdn
  rw [run] at course
  cases course with
  | written reached buf p t fd text fits named found opened whole =>
    have answer := readReplica_fetched kernel (disk primdn) (nextToken [comma] path.bytes).1
    rw [text] at answer
    obtain ⟨q, file, n, first, stored, reads, terminated, contents, -⟩ := answer
    have nonempty : path.bytes ≠ [] := by
      intro empty
      rw [empty] at first
      cases first
    have token := isToken_path plain nonempty
    rw [nextToken_last token] at first
    cases first
    rw [held] at stored
    cases stored
    subst contents
    rw [writtenPath_token token] at named
    cases named
    rw [writtenText_token token] at found
    split_ifs at found with missing
    cases found
    exact ⟨n, fd, reads, opened, whole, ⟨reached.replica, reached.primary, reached.answers, nonempty,
      reached.asked, terminated, missing, fits⟩, rfl⟩
  | _ => cases ends

theorem contentsOf_length (b : List Byte) : (contentsOf b).length ≤ b.length :=
  (nextToken_length (cstr b)).trans (List.takeWhile_sublist _ |>.length_le)

end Copies

/-- The replica is a copy if and only if the text of the file is the file, and both kernels take all
of it, unless the run does not get to its end: then an address of a stream that does not fit an `int`
is one of the reasons. -/
theorem copiesContent_iff (net : Net) (kernel : Kernel) (host : List Byte) (disk : Disk)
    (path : CString) (primdn repdn b : List Byte) (plain : comma ∉ path.bytes)
    (held : disk primdn path.bytes = some b) :
    CopiesContent net kernel host disk path.bytes primdn repdn b ↔
      ∀ n fd, kernel.reading = .takes n → kernel.fopen = some fd → fd.inInt = true →
        GetsThrough net host path.bytes primdn repdn b n →
          comma ∉ b ∧ NoNul b ∧ b.length ≤ n ∧ b.length ≤ fd.takes := by
  constructor
  · intro copies n fd reads opened kept through
    have token := isToken_path plain through.named
    have same := copies _ (create_replica_ends token held reads opened kept through) rfl
    dsimp only at same
    rw [disk_set] at same
    have copied : (contentsOf (b.take (min n 4096))).take fd.takes = b := Option.some.inj same
    have text := contentsOf_isToken through.text
    have length := congrArg List.length copied
    rw [List.length_take] at length
    have given := contentsOf_length (b.take (min n 4096))
    rw [List.length_take] at given
    refine ⟨fun bad => ?_, fun bad => ?_, by omega, by omega⟩
    · rw [← copied] at bad
      exact text.plain comma (List.mem_of_mem_take bad) (List.mem_singleton_self comma)
    · rw [← copied] at bad
      exact text.noNul (List.mem_of_mem_take bad)
  · intro good r run ends
    obtain ⟨n, fd, reads, opened, kept, through, disks⟩ := getsThrough_of_ends plain held run ends
    obtain ⟨noComma, noNul, given, taken⟩ := good n fd reads opened kept through
    have contents : contentsOf (b.take (min n 4096)) = b.take (min n 4096) :=
      contentsOf_plain (fun bad => noComma (List.mem_of_mem_take bad))
        (fun bad => noNul (List.mem_of_mem_take bad))
    have small := through.sent
    rw [contents, List.length_take] at small
    have whole : b.take (min n 4096) = b := List.take_of_length_le (by omega)
    rw [disks, disk_set, contents, whole, List.take_of_length_le taken]

/-- Kernels that do all they are asked, on machines where an `int` is as wide as a pointer. -/
def goodKernel : Kernel := ⟨.takes 4096, some ⟨4096, true⟩, ⟨0, by norm_num⟩, ⟨0, by norm_num⟩⟩

/-- One file on the data node `p`, and what the data node `r` has under the same name. -/
def heldBy (b : List Byte) (there : Option (List Byte)) : Disk := fun node path =>
  if path = str "/f" then if node = str "p" then some b else if node = str "r" then there else none
  else none

theorem isToken_slashF : IsToken [comma] (str "/f") :=
  ⟨by decide +kernel, by decide +kernel, by decide +kernel⟩

theorem copiesContent_iff_letters :
    CopiesContent upNet goodKernel (str "h") (heldBy (str "ab") none) (str "/f") (str "p") (str "r")
        (str "ab") ↔
      ∀ n fd, goodKernel.reading = .takes n → goodKernel.fopen = some fd → fd.inInt = true →
        GetsThrough upNet (str "h") (str "/f") (str "p") (str "r") (str "ab") n →
          comma ∉ str "ab" ∧ NoNul (str "ab") ∧ (str "ab").length ≤ n ∧
            (str "ab").length ≤ fd.takes :=
  copiesContent_iff upNet goodKernel (str "h") (heldBy (str "ab") none)
    ⟨str "/f", by decide⟩ (str "p") (str "r") (str "ab") (by decide)
    (by decide)

/-- The path has no comma and is free on the replica; of the text, only what is in front of its comma
arrives. -/
theorem commaContent_cut : comma ∉ str "/f" ∧
    heldBy (str "a,b") none (str "p") (str "/f") = some (str "a,b") ∧
    heldBy (str "a,b") none (str "r") (str "/f") = none ∧
    ¬ CopiesContent upNet goodKernel (str "h") (heldBy (str "a,b") none) (str "/f") (str "p")
      (str "r") (str "a,b") := by
  refine ⟨by decide, by decide, by decide, fun copies => ?_⟩
  have through : GetsThrough upNet (str "h") (str "/f") (str "p") (str "r") (str "a,b") 4096 :=
    ⟨rfl, rfl, rfl, by decide, by decide, by decide, by decide,
      by decide⟩
  have held : heldBy (str "a,b") none (str "p") (str "/f") = some (str "a,b") := by decide
  have same := copies _ (create_replica_ends isToken_slashF held rfl rfl rfl through) rfl
  dsimp only at same
  rw [disk_set] at same
  exact absurd same (by decide)

/-! ## Failed and needless replication -/

/-- `open` or `pread` fails on the primary. -/
def ReadingFails (kernel : Kernel) (disk : Disk) (path primdn : List Byte) : Prop :=
  ∃ e, fetched kernel (disk primdn) (nextToken [comma] path).1 = .failed e

/-- There is nothing to replicate, or it fails. -/
def Obstacle (kernel : Kernel) (disk : Disk) (path primdn repdn : List Byte) : Prop :=
  disk repdn path ≠ none ∨ ReadingFails kernel disk path primdn ∨ kernel.fopen = none

/-- `create_replica` returns a value that says so, the file on the replica is the same, and no null
stream was written to. -/
def Reported (net : Net) (kernel : Kernel) (host : List Byte) (disk : Disk)
    (path primdn repdn : List Byte) : Prop :=
  ∃ value disk' unanswered,
    create_replica net kernel host disk path primdn repdn =
      .ok ⟨.returns value, disk', unanswered⟩ ∧
    value < 0 ∧ disk' repdn path = disk repdn path ∧ unanswered ≠ some .null_file

/-- The request to write holds no text, or the address of the stream does not fit an `int`; and the
file that `fopen` empties is none, another one, or empty already. -/
def Harmless (kernel : Kernel) (disk : Disk) (path repdn buf : List Byte) : Prop :=
  path.length + buf.length + 9 < 1000 ∧
    (writtenText path buf = none ∨ ∃ fd, kernel.fopen = some fd ∧ fd.inInt = false) ∧
      (kernel.fopen = none ∨ writtenPath path buf ≠ some path ∨ disk repdn path = some [])

/-- `create_replica` stops before it writes: an address is not found, reading fails, or there is no
text to write, or no stream to write it to. -/
def StopsInTime (net : Net) (kernel : Kernel) (host : List Byte) (disk : Disk)
    (path primdn repdn : List Byte) : Prop :=
  net.known repdn = false ∨
    path.length + 19 < 1000 ∧ net.known host = true ∧
      (net.known primdn = false ∨ ReadingFails kernel disk path primdn ∨
        ∃ buf, fetched kernel (disk primdn) (nextToken [comma] path).1 = .text buf ∧
          Harmless kernel disk path repdn buf)

section Reports

variable {net : Net} {kernel : Kernel} {host path primdn repdn buf : List Byte} {disk : Disk}

/-- Emptying a file changes `path` unless it is another one or empty already. -/
theorem emptied_same (present : disk repdn path ≠ none ∨ kernel.fopen = none) :
    (emptied kernel disk repdn (writtenPath path buf)) repdn path = disk repdn path ↔
      kernel.fopen = none ∨ writtenPath path buf ≠ some path ∨ disk repdn path = some [] := by
  unfold emptied
  cases writtenPath path buf with
  | none => simp
  | some p =>
    cases opened : kernel.fopen with
    | none => simp
    | some m =>
      simp only [Option.isSome_some, if_true]
      by_cases own : p = path
      · subst own
        rw [disk_set]
        simp [eq_comm]
      · rw [disk_set_of_ne disk repdn [] (Ne.symm own)]
        simp [own]

/-- Once the contents have been asked for, they decide. -/
theorem stopsInTime_reached (reached : Reached net host path primdn repdn) :
    StopsInTime net kernel host disk path primdn repdn ↔
      ReadingFails kernel disk path primdn ∨
        ∃ buf, fetched kernel (disk primdn) (nextToken [comma] path).1 = .text buf ∧
          Harmless kernel disk path repdn buf := by
  unfold StopsInTime
  simp only [reached.replica, reached.primary, reached.answers, reached.asked, Bool.true_eq_false,
    false_or, true_and]

/-- When there is a text of the file, the run stops in time only if nothing is written. -/
theorem stopsInTime_text (reached : Reached net host path primdn repdn)
    (text : fetched kernel (disk primdn) (nextToken [comma] path).1 = .text buf) :
    StopsInTime net kernel host disk path primdn repdn ↔ Harmless kernel disk path repdn buf := by
  rw [stopsInTime_reached reached]
  constructor
  · rintro (⟨e, failed⟩ | ⟨buf', same, harmless⟩)
    · rw [text] at failed
      cases failed
    · rw [text] at same
      cases same
      exact harmless
  · intro harmless
    exact Or.inr ⟨buf, text, harmless⟩

/-- Without a text or a stream the replica falls, and not because of a null stream. -/
theorem writeContents_unwritten (known : net.known repdn = true) (answers : net.known host = true)
    (fits : path.length + buf.length + 9 < 1000)
    (unwritten : writtenText path buf = none ∨ ∃ fd, kernel.fopen = some fd ∧ fd.inInt = false) :
    ∃ heard, writeContents net kernel host disk path repdn buf =
        .ok ⟨.returns (-1), emptied kernel disk repdn (writtenPath path buf), heard⟩ ∧
      heard ≠ some .null_file := by
  cases found : writtenText path buf with
  | none =>
    exact ⟨_, writeContents_null_text known answers fits found, by simp⟩
  | some t =>
    obtain ⟨fd, opened, part⟩ := unwritten.resolve_left (by simp [found])
    obtain ⟨p, named⟩ := writtenPath_of_text found
    exact ⟨_, writeContents_wild_file known answers fits named found opened part, by simp⟩

/-- Once there is a text, the obstacle is a file that is present or cannot be opened. -/
theorem Obstacle.present (obstacle : Obstacle kernel disk path primdn repdn)
    (text : fetched kernel (disk primdn) (nextToken [comma] path).1 = .text buf) :
    disk repdn path ≠ none ∨ kernel.fopen = none := by
  rcases obstacle with there | ⟨e, failed⟩ | unopened
  · exact Or.inl there
  · rw [text] at failed
    cases failed
  · exact Or.inr unopened

/-- Of the courses that return a value, only the one to a null stream goes on too far. -/
theorem Reported.stopsInTime (obstacle : Obstacle kernel disk path primdn repdn)
    (reported : Reported net kernel host disk path primdn repdn) :
    StopsInTime net kernel host disk path primdn repdn := by
  obtain ⟨value, disk', unanswered, run, -, same, used⟩ := reported
  have course := create_replica_course net kernel host disk path primdn repdn
  rw [run] at course
  cases course with
  | noReplica unknown => exact Or.inl unknown
  | noPrimary asked answers unknown => exact Or.inr ⟨asked, answers, Or.inl unknown⟩
  | failed reached e failed =>
    rw [stopsInTime_reached reached]
    exact Or.inl ⟨e, failed⟩
  | noText reached buf text fits missing =>
    rw [stopsInTime_text reached text]
    exact ⟨fits, .inl missing, (emptied_same (obstacle.present text)).1 same⟩
  | noStream reached buf t fd text fits found opened part =>
    rw [stopsInTime_text reached text]
    exact ⟨fits, .inr ⟨fd, opened, part⟩, (emptied_same (obstacle.present text)).1 same⟩
  | noFile => exact absurd rfl used

/-- The courses that stop in time return a negative value. -/
theorem StopsInTime.reported (obstacle : Obstacle kernel disk path primdn repdn)
    (stops : StopsInTime net kernel host disk path primdn repdn) :
    Reported net kernel host disk path primdn repdn := by
  unfold Reported
  cases replica : net.known repdn with
  | false =>
    rw [create_replica_unknown replica]
    exact ⟨-1, disk, none, rfl, by decide, rfl, by simp⟩
  | true =>
    rcases stops with unknown | ⟨asked, answers, contents⟩
    · rw [replica] at unknown
      cases unknown
    · rw [create_replica_asked replica asked answers]
      cases primary : net.known primdn with
      | false =>
        rw [getContents_unknown primary]
        exact ⟨-1, disk, none, rfl, by decide, rfl, by simp⟩
      | true =>
        rcases contents with unknown | ⟨e, failed⟩ | ⟨buf, text, fits, missing, same⟩
        · rw [primary] at unknown
          cases unknown
        · rw [getContents_failed primary asked answers failed]
          have positive := e.2.1
          refine ⟨-e.1, disk, none, rfl, ?_, rfl, by simp⟩
          omega
        · rw [getContents_text primary asked answers text]
          have kept := (emptied_same (obstacle.present text)).2 same
          obtain ⟨heard, run, other⟩ := writeContents_unwritten replica answers fits missing
          exact ⟨-1, _, _, run, by decide, kept, other⟩

/-- An obstacle to a run that has a text to write, and no stream that an `int` has spoilt, is not
reported. -/
theorem not_reported {t : List Byte} (obstacle : Obstacle kernel disk path primdn repdn)
    (reached : Reached net host path primdn repdn)
    (text : fetched kernel (disk primdn) (nextToken [comma] path).1 = .text buf)
    (found : writtenText path buf = some t)
    (whole : ∀ fd, kernel.fopen = some fd → fd.inInt = true) :
    ¬ Reported net kernel host disk path primdn repdn := by
  intro reported
  have stops := reported.stopsInTime obstacle
  rcases ((stopsInTime_text reached text).1 stops).2.1 with missing | ⟨fd, opened, part⟩
  · rw [found] at missing
    cases missing
  · rw [whole fd opened] at part
    cases part

end Reports

/-- `create_replica` reports every obstacle and leaves the file alone if and only if no obstacle meets
a run that goes on to write. -/
theorem reported_iff (net : Net) (kernel : Kernel) (host : List Byte) (disk : Disk)
    (path : CString) (primdn repdn : List Byte) :
    (Obstacle kernel disk path.bytes primdn repdn →
      Reported net kernel host disk path.bytes primdn repdn) ↔
    (Obstacle kernel disk path.bytes primdn repdn →
      StopsInTime net kernel host disk path.bytes primdn repdn) := by
  constructor
  · intro reports obstacle
    exact (reports obstacle).stopsInTime obstacle
  · intro stops obstacle
    exact (stops obstacle).reported obstacle

/-- A present file is overwritten, and a null stream is written to when the replica cannot open the
file. -/
theorem obstacles_unreported :
    (Obstacle goodKernel (heldBy (str "new") (some (str "old"))) (str "/f") (str "p") (str "r") ∧
      ¬ Reported upNet goodKernel (str "h") (heldBy (str "new") (some (str "old"))) (str "/f")
        (str "p") (str "r")) ∧
    (Obstacle { goodKernel with fopen := none } (heldBy (str "new") none) (str "/f") (str "p")
        (str "r") ∧
      ¬ Reported upNet { goodKernel with fopen := none } (str "h") (heldBy (str "new") none)
        (str "/f") (str "p") (str "r")) := by
  have reached : Reached upNet (str "h") (str "/f") (str "p") (str "r") :=
    ⟨rfl, rfl, rfl, by decide⟩
  have held (there : Option (List Byte)) :
      heldBy (str "new") there (str "p") (str "/f") = some (str "new") := by
    have path : str "/f" = str "/f" := rfl
    unfold heldBy
    rw [if_pos path, if_pos rfl]
  have terminated : (cstr ((str "new").take (min 4096 4096))).length < 4096 := by decide
  have found : writtenText (str "/f") (contentsOf ((str "new").take (min 4096 4096))) =
      some (contentsOf ((str "new").take (min 4096 4096))) := by
    rw [writtenText_token isToken_slashF, if_neg (by decide)]
  have present : Obstacle goodKernel (heldBy (str "new") (some (str "old"))) (str "/f") (str "p")
      (str "r") := Or.inl (by decide)
  have unopened : Obstacle { goodKernel with fopen := none } (heldBy (str "new") none) (str "/f")
      (str "p") (str "r") := Or.inr (Or.inr rfl)
  exact ⟨⟨present, not_reported present reached
      (fetched_held isToken_slashF (held _) rfl terminated) found (by rintro fd ⟨⟩; rfl)⟩,
    unopened, not_reported unopened reached
      (fetched_held isToken_slashF (held _) rfl terminated) found (by rintro fd ⟨⟩)⟩

end DistFs.Wire
