import DistFs.Wire.Primary

/-!
# Peers that cannot be reached

A turn of the name node calls `hostname_to_ip` inside `sendping` for every data node that it probes,
and then for a data node that registers, inside `sendcommand` for the data node of the path, or
inside `sendresponse_*` for the client.  Which of these calls fail is left open here.  Most branches
go on with the next datagram; what they enter in the lists depends on the last call alone.
-/

namespace DistFs.Wire

open CText Registry

/-- A datagram for one of the fifteen branches.  All but `datanode` take a path. -/
structure WellFormed (M : List Byte) (c : Command) (path : List Byte) : Prop where
  command : (nextToken [comma] M).1 = some c.text
  branch : c ≠ .shutdown ∧ c ≠ .dn_command
  path : c = .datanode ∨ (nextToken [comma] (nextToken [comma] M).2).1 = some path

/-- The name node goes on to the next datagram, with the lists it had but for cleared flags. -/
def KeepsServing (net : Net) (t : Tables) (host M : List Byte) : Prop :=
  ∃ t', (receivecommand_namenode net t host M).next = .ok (some t') ∧ t'.sfile = t.sfile ∧
    List.Forall₂ (Cleared net) t.dlist t'.dlist

/-- A forwarded command that leaves the lists alone: without a data node it is not `rename`, with
one that is found it is forwarded and not recorded, and with one that is not found it is not
`getattr`. -/
def Command.Spares (c : Command) (net : Net) (d : Directory) (host M path : List Byte) : Prop :=
  match d.serving net path with
  | none => c ≠ .rename
  | some dn =>
      if net.known dn then
        (c.text ++ comma :: (host ++ comma :: cstr M)).length < 1000 ∧ c.recorded = false
      else c ≠ .getattr

/-- In a network each node answers alike however often a turn probes it.  Nothing is lost by that:
whatever single probes give, in some such network the same data node is found, and the same lists are
left. -/
theorem getfiledn_alike {t : Tables} (a : Answers) (net : Net) (path : List Byte) (sound : Sound t) :
    ∃ alive, getfiledn { net with alive := alive } t path = a.getfiledn t path := by
  cases entry : filelist_search t path with
  | none =>
    refine ⟨a.node, ?_⟩
    rw [getfiledn_answers, Answers.getfiledn, Answers.getfiledn, entry]
    rfl
  | some f =>
    have registered := (sound.root f (filelist_search_mem entry).1).2.2
    obtain ⟨choice, result, chooses⟩ := getfiledn_registered registered entry a
    -- the node that is found, if any, is the only one that answers
    let only : Net := { net with alive := fun n => decide (n ∈ choice.map f.replica) }
    obtain ⟨choice', result', chooses'⟩ := getfiledn_registered registered entry only.answers
    refine ⟨only.alive, ?_⟩
    change getfiledn only t path = _
    rw [getfiledn_answers, result, result']
    congr 2
    cases choice' with
    | none =>
      have silent := (chooses_none chooses').1 rfl
      cases choice with
      | none => rfl
      | some i =>
        have unanswered := silent i chooses.chosen.1
        simp [only, Net.answers] at unanswered
    | some j =>
      have same : f.replica j ∈ choice.map f.replica := of_decide_eq_true chooses'.chosen.2
      exact (Option.mem_def.1 same).symm

section Turn

variable {net : Net} {t t' : Tables} {host M path dn : List Byte} {c : Command} {d : Directory}

theorem keepsServing_fits (serving : KeepsServing net t host M) :
    (host ++ comma :: cstr M).length < 1000 := by
  obtain ⟨t', next, -⟩ := serving
  exact (namenode_branch next).1

/-- A replica that is entered changes the file list. -/
theorem present_ne {f : Filelist} {i : Fin 50} (free : f.rep i = 0) : f.present i dn ≠ f := by
  intro same
  have slot : (f.present i dn).rep i = 1 := Function.update_self i 1 f.rep
  rw [same, free] at slot
  cases slot

theorem filenode_insert_ne (h : filenode_insert path dn t = .ok t') : t'.sfile ≠ t.sfile := by
  obtain ⟨-, files, enters, rfl⟩ := filenode_insert_enters h
  cases enters with
  | new => simp
  | @more before after f i split _ _ free =>
    rw [split]
    intro same
    have here := (List.cons.inj (List.append_cancel_left same)).1
    have zero : f.rep i = 0 := by
      rw [getRepcreatenum] at free
      simpa using List.find?_some free
    exact present_ne zero here

/-- A registration ends the loop or changes the file list. -/
theorem not_keepsServing_datanode (first : (nextToken [comma] M).1 = some Command.datanode.text) :
    ¬ KeepsServing net t host M := by
  rintro ⟨t', next, files, -⟩
  cases (namenode_branch next).2 with
  | idle same other => exact (other .datanode first).2 rfl
  | registered _ _ inserted =>
    obtain ⟨t₁, recorded, rest⟩ := bind_eq_ok.1 inserted
    obtain ⟨⟨r, cursor⟩, -, same⟩ := bind_eq_ok.1 rest
    cases same
    exact filenode_insert_ne recorded files
  | @forwarded c first' forwards =>
    obtain rfl := Command.text_injective (Option.some.inj (first.symm.trans first'))
    cases forwards

theorem keepsServing_statfs (first : (nextToken [comma] M).1 = some Command.statfs.text)
    (fits : (host ++ comma :: cstr M).length < 1000) : KeepsServing net t host M := by
  refine ⟨t, ?_, rfl, cleared_refl net t.dlist⟩
  obtain ⟨first', m, parsed⟩ : ∃ first' m, nextToken [comma] M = (first', m) := ⟨_, _, rfl⟩
  obtain rfl : first' = some Command.statfs.text := by rw [parsed] at first; exact first
  simp only [receivecommand_namenode, if_neg (not_le.2 fits), parsed, Command.ofText_text]

/-- Only the branch for `rename` has no answer when there is no data node. -/
theorem junk_eq_none (forwards : c.forwards = true) : c.junk = none ↔ c = .rename := by
  cases c with
  | datanode | statfs | shutdown | dn_command => cases forwards
  | _ => simp [Command.junk]

theorem stops_iff : c.stops = true ↔ c = .getattr := by
  cases c <;> simp [Command.stops]

theorem forward_unknown {buf2 : List Byte} {junk : Option Call} {recorded stops : Bool}
    (located : getfiledn net t path = .ok (some dn, t')) (unknown : net.known dn = false) :
    (forward net t host buf2 (some path) c junk recorded stops).next =
      .ok (if stops then none else some t') := by
  simp only [forward, located, sendcommand_eq_none.2 unknown]

theorem forward_missing {buf2 : List Byte} {junk : Option Call} {recorded stops : Bool}
    (located : getfiledn net t path = .ok (none, t')) :
    (forward net t host buf2 (some path) c junk recorded stops).next =
      if junk = none then .error .undefined else .ok (some t') := by
  simp only [forward, located]
  cases junk with
  | none => rfl
  | some call => rfl

theorem forward_known {buf2 : List Byte} {junk : Option Call} {recorded stops : Bool}
    (located : getfiledn net t path = .ok (some dn, t')) (known : net.known dn = true) :
    (forward net t host buf2 (some path) c junk recorded stops).next =
      if (c.text ++ comma :: buf2).length < 1000 then
        if recorded then some <$> filenode_insert path dn t' else .ok (some t')
      else .error .overflow := by
  simp only [forward, located, sendcommand, known, Bool.true_eq_false, if_false]
  split_ifs <;> rfl

section Forward

variable (turn : receivecommand_namenode net t host M =
  forward net t host (host ++ comma :: cstr M) (some path) c c.junk c.recorded c.stops)

include turn

theorem keepsServing_missing (sound : Sound t) (forwards : c.forwards = true)
    (located : getfiledn net t path = .ok (none, t')) : KeepsServing net t host M ↔ c ≠ .rename := by
  obtain ⟨files, cleared⟩ : t'.sfile = t.sfile ∧ List.Forall₂ (Cleared net) t.dlist t'.dlist := by
    cases Looked.of_eq sound located with
    | missing _ files cleared => exact ⟨files, cleared⟩
  rw [KeepsServing, turn, forward_missing located, ne_eq, ← junk_eq_none forwards]
  cases c.junk with
  | none =>
    constructor
    · rintro ⟨t₂, next, -⟩
      cases next
    · intro other
      exact absurd rfl other
  | some call => exact ⟨fun _ => by simp, fun _ => ⟨t', rfl, files, cleared⟩⟩

theorem keepsServing_unknown (located : getfiledn net t path = .ok (some dn, t))
    (unknown : net.known dn = false) : KeepsServing net t host M ↔ c ≠ .getattr := by
  rw [KeepsServing, turn, forward_unknown located unknown, ne_eq, ← stops_iff]
  cases c.stops with
  | false => exact ⟨fun _ => by simp, fun _ => ⟨t, rfl, rfl, cleared_refl net t.dlist⟩⟩
  | true =>
    constructor
    · rintro ⟨t₂, next, -⟩
      cases next
    · intro other
      exact absurd rfl other

theorem keepsServing_known (located : getfiledn net t path = .ok (some dn, t))
    (known : net.known dn = true) : KeepsServing net t host M ↔
      (c.text ++ comma :: (host ++ comma :: cstr M)).length < 1000 ∧ c.recorded = false := by
  rw [KeepsServing, turn, forward_known located known]
  by_cases whole : (c.text ++ comma :: (host ++ comma :: cstr M)).length < 1000
  · rw [if_pos whole]
    cases c.recorded with
    | false => exact ⟨fun _ => ⟨whole, rfl⟩, fun _ => ⟨t, rfl, rfl, cleared_refl net t.dlist⟩⟩
    | true =>
      constructor
      · rintro ⟨t₂, next, files, -⟩
        obtain ⟨t₃, inserted, same⟩ := map_eq_ok.1 next
        cases same
        exact absurd files (filenode_insert_ne inserted)
      · rintro ⟨-, unrecorded⟩
        cases unrecorded
  · rw [if_neg whole]
    constructor
    · rintro ⟨t₂, next, -⟩
      cases next
    · intro sent
      exact absurd sent.1 whole

end Forward

/-- A forwarded command, whatever lookups fail on its way. -/
theorem keepsServing_forward_iff (represents : Represents t d) (asks : Asks M c path)
    (forwards : c.forwards = true) :
    KeepsServing net t host M ↔
      (host ++ comma :: cstr M).length < 1000 ∧ c.Spares net d host M path := by
  by_cases fits : (host ++ comma :: cstr M).length < 1000
  · obtain ⟨t', located, -⟩ := represents.getfiledn net path
    have turn := namenode_eq_forward net t host (Prod.ext asks.command rfl) forwards fits
    rw [asks.path] at turn
    rw [and_iff_right fits, Command.Spares]
    cases serves : d.serving net path with
    | none =>
      rw [serves] at located
      exact keepsServing_missing turn represents.sound forwards located
    | some dn =>
      rw [serves] at located
      obtain rfl : t' = t := by
        cases Looked.of_eq represents.sound located with
        | found => rfl
      dsimp only
      split_ifs with known
      · exact keepsServing_known turn located known
      · exact keepsServing_unknown turn located (Bool.eq_false_of_not_eq_true known)
  · exact ⟨fun serving => absurd (keepsServing_fits serving) fits, fun h => absurd h.1 fits⟩

end Turn

/-- In any turn, whatever lookups fail in it, the loop goes on and the lists stay as they were if
and only if the datagram fits, registers no data node, and is answered directly or spares the
lists. -/
theorem keepsServing_iff {net : Net} {t : Tables} {host M path : List Byte} {c : Command}
    (reachable : Reachable t) (formed : WellFormed M c path) :
    KeepsServing net t host M ↔ (host ++ comma :: cstr M).length < 1000 ∧ c ≠ .datanode ∧
      (c ≠ .statfs → c.Spares net (t.dlist.map Datanode.node) host M path) := by
  by_cases forwards : c.forwards = true
  · have other : c ≠ .datanode ∧ c ≠ .statfs := by
      constructor <;> rintro rfl <;> cases forwards
    have asks : Asks M c path := ⟨formed.command, formed.path.resolve_left other.1⟩
    rw [keepsServing_forward_iff reachable.represents asks forwards]
    simp only [ne_eq, other, not_false_eq_true, true_and, forall_const]
  · cases c with
    | datanode =>
      have stops := @not_keepsServing_datanode net t host M formed.command
      exact ⟨fun serving => absurd serving stops, fun h => absurd rfl h.2.1⟩
    | statfs =>
      exact ⟨fun serving => ⟨keepsServing_fits serving, by simp⟩,
        fun h => keepsServing_statfs formed.command h.1⟩
    | shutdown => exact absurd rfl formed.branch.1
    | dn_command => exact absurd rfl formed.branch.2
    | _ => exact absurd rfl forwards

/-- A network without an address for any name. -/
def deafNet : Net := ⟨fun _ => false, fun _ => [], fun _ => true, str "n"⟩

theorem oneFile_reachable : Reachable (oneFile DATANODE_DIR) :=
  .step (.insert (str "d") (str "10.0.0.1") 1) (.init []) rfl

/-- With an access to the root that cannot be forwarded the loop goes on. -/
theorem keepsServing_access : KeepsServing deafNet (oneFile DATANODE_DIR) (str "h")
    (str "access,/tmp/CS545/datanode,4") :=
  have formed : WellFormed (str "access,/tmp/CS545/datanode,4") .access DATANODE_DIR :=
    ⟨by decide, by decide, .inr (by decide)⟩
  (keepsServing_iff oneFile_reachable formed).2
    ⟨by decide, by decide, fun _ => show Command.access ≠ .getattr by decide⟩

/-- A request for the attributes of the root that cannot be forwarded takes the name node down. -/
theorem getattr_stops : Reachable (oneFile DATANODE_DIR) ∧
    WellFormed (str "getattr,/tmp/CS545/datanode") .getattr DATANODE_DIR ∧
    getfiledn deafNet (oneFile DATANODE_DIR) DATANODE_DIR =
      .ok (some (str "d"), oneFile DATANODE_DIR) ∧
    sendcommand deafNet (str "d") (str "h,getattr,/tmp/CS545/datanode") .getattr = .ok none ∧
    ¬ KeepsServing deafNet (oneFile DATANODE_DIR) (str "h") (str "getattr,/tmp/CS545/datanode") := by
  refine ⟨oneFile_reachable, ⟨by decide, by decide, .inr (by decide)⟩, rfl, rfl, ?_⟩
  rintro ⟨t', next, -⟩
  have stops : (receivecommand_namenode deafNet (oneFile DATANODE_DIR) (str "h")
    (str "getattr,/tmp/CS545/datanode")).next = .ok none := rfl
  rw [stops] at next
  cases next

end DistFs.Wire
