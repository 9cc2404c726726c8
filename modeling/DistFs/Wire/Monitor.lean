import DistFs.CText.Memory
import DistFs.Wire.Receivers

/-!
# The monitor

`receivecommand_monitor`, and the way of the list of data nodes from the name node to its screen: the
10000 bytes of `dnbuf`, the 10000 bytes of `cmd` in `senddnlist`, and the 1000 bytes of `buf1`.
-/

namespace DistFs.Wire

open CText Registry

/-- The command with results for the monitor. -/
def DISP_RESULTS : List Byte := str "disp_results"

/-- The delimiter of the last `strtok` for `dnlist`. -/
def space : Byte := 32

/-- What a datagram makes the monitor do: call `fexist`, print the path of `r_read`, stop, call
`sendmonitorcommand_datanode`, or print results, the list of data nodes or a replication value. -/
inductive MonitorReaction where
  | fexist (path : Option (List Byte))
  | r_read (path : Option (List Byte))
  | stopped
  | sendmonitorcommand_datanode (node cmd1 : Option (List Byte))
  | results (shown : List Byte)
  | datanodes (shown : List Byte)
  | replication (i_temp : ℤ)
  | ignored
deriving DecidableEq

/-- What `printf` shows of a string with `%s`. -/
def shown (ptr : Option (List Byte)) : List Byte := ptr.getD (str "(null)")

/-- `receivecommand_monitor`: a datagram from `host`. -/
def receivecommand_monitor (monitor_namenode host datagram : List Byte) :
    Except Fault MonitorReaction := do
  let buf1 := datagram.take 1000
  let full := decide (buf1.length = 1000)
  let first ← tokenIn full [comma] buf1
  match first.1 with
  | none => .error .null
  | some cmd =>
    if cmd = R_FILEEXIST then
      let path ← tokenIn full [comma] first.2
      return .fexist path.1
    else if cmd = R_READ then
      let path ← tokenIn full [comma] first.2
      return .r_read path.1
    else if cmd = Command.text .shutdown then
      return if host = monitor_namenode then .stopped else .ignored
    else if cmd = Command.text .dn_command then
      let node ← tokenIn full [comma] first.2
      let cmd1 ← tokenIn full [comma] node.2
      return .sendmonitorcommand_datanode node.1 cmd1.1
    else if cmd = DISP_RESULTS then
      let ptr ← tokenIn full [comma] first.2
      return .results (shown ptr.1)
    else if cmd = DNLIST then
      let ptr ← tokenIn full [space] first.2
      return .datanodes (shown ptr.1)
    else if cmd = SENDREP then
      let ptr ← tokenIn full [comma] first.2
      let i_temp ← atoiPtr ptr.1
      return .replication i_temp
    else return .ignored

/-- After a request for the list the monitor shows the text of every data node in the order of the
list, and every text stays inside its array. -/
def ShowsWhole (dlist : List Datanode) : Prop :=
  ∀ net monitor replication_count request monitor_namenode namenode,
    net.known monitor = true → field 0 request = some DNLIST →
      ∃ datagram,
        monitorcommand_namenode net dlist replication_count monitor request =
          .ok (some datagram, replication_count) ∧
        receivecommand_monitor monitor_namenode namenode datagram =
          .ok (.datanodes (dlist.flatMap sendlistLine))

section Monitor

variable {dlist : List Datanode} {net : Net} {monitor_namenode host T : List Byte}

theorem isToken_DNLIST : IsToken [comma] DNLIST :=
  ⟨by decide +kernel, by decide +kernel, by decide +kernel⟩

theorem DNLIST_length : DNLIST.length = 6 := by decide

/-- What the monitor does with a list. -/
theorem receivecommand_monitor_dnlist (monitor_namenode host T : List Byte) :
    receivecommand_monitor monitor_namenode host (DNLIST ++ comma :: T) =
      (tokenIn (decide (993 ≤ T.length)) [space] (T.take 993)).map fun ptr =>
        .datanodes (shown ptr.1) := by
  have cut : (DNLIST ++ comma :: T).take 1000 = DNLIST ++ comma :: T.take 993 := by
    rw [List.take_append, DNLIST_length, List.take_of_length_le (by rw [DNLIST_length]; omega)]
    rfl
  have full : decide ((DNLIST ++ comma :: T.take 993).length = 1000) = decide (993 ≤ T.length) := by
    rw [decide_eq_decide, List.length_append, List.length_cons, DNLIST_length, List.length_take]
    omega
  have differ : DNLIST ≠ R_FILEEXIST ∧ DNLIST ≠ R_READ ∧ DNLIST ≠ Command.text .shutdown ∧
      DNLIST ≠ Command.text .dn_command ∧ DNLIST ≠ DISP_RESULTS := by
    decide
  obtain ⟨fexist, read, shutdown, dn_command, disp_results⟩ := differ
  unfold receivecommand_monitor
  simp only [cut, full, tokenIn_delimited isToken_DNLIST (List.mem_singleton_self comma)
    (by decide), bind, Except.bind, if_neg fexist, if_neg read, if_neg shutdown, if_neg dn_command,
    if_neg disp_results, if_true]
  cases tokenIn (decide (993 ≤ T.length)) [space] (T.take 993) <;> rfl

/-- The list is sent if it fits both arrays of the name node. -/
theorem monitorcommand_namenode_dnlist {request : List Byte} (replication_count : ℤ)
    (known : net.known host = true) (asked : field 0 request = some DNLIST) :
    monitorcommand_namenode net dlist replication_count host request =
      if (dlist.flatMap sendlistLine).length < 9993 then
        .ok (some (DNLIST ++ comma :: dlist.flatMap sendlistLine), replication_count)
      else .error .overflow := by
  have header : (DNLIST ++ comma :: dlist.flatMap sendlistLine).length =
      (dlist.flatMap sendlistLine).length + 7 := by
    rw [List.length_append, List.length_cons, DNLIST_length]
    omega
  unfold field at asked
  unfold monitorcommand_namenode
  cases parsed : nextToken [comma] request with
  | mk cmd m =>
    rw [parsed] at asked
    dsimp only at asked
    subst asked
    by_cases fits : (dlist.flatMap sendlistLine).length < 9993
    · have listed : datanode_sendlist dlist = .ok (dlist.flatMap sendlistLine) :=
        if_pos (by omega)
      have sent : senddnlist net host (dlist.flatMap sendlistLine) =
          .ok (some (DNLIST ++ comma :: dlist.flatMap sendlistLine)) := by
        unfold senddnlist
        rw [known, if_neg (by simp), if_pos (by omega)]
      rw [if_pos fits]
      simp only [listed, if_true]
      show (senddnlist net host (dlist.flatMap sendlistLine)).bind _ = _
      rw [sent]
      rfl
    · rw [if_neg fits]
      by_cases first : (dlist.flatMap sendlistLine).length < 10000
      · have listed : datanode_sendlist dlist = .ok (dlist.flatMap sendlistLine) := if_pos first
        have sent : senddnlist net host (dlist.flatMap sendlistLine) = .error .overflow := by
          unfold senddnlist
          rw [known, if_neg (by simp), if_neg (by omega)]
        simp only [listed, if_true]
        show (senddnlist net host (dlist.flatMap sendlistLine)).bind _ = _
        rw [sent]
        rfl
      · have listed : datanode_sendlist dlist = .error .overflow := if_neg first
        simp only [listed, if_true]
        rfl

/-- Names and addresses as they are in a list: without a NUL, and without spaces. -/
theorem isToken_sendlist (nonempty : dlist ≠ [])
    (plain : ∀ d ∈ dlist, ∀ b ∈ d.node ++ d.ip, b ≠ 0 ∧ b ≠ space) :
    IsToken [space] (dlist.flatMap sendlistLine) := by
  have bytes : ∀ b ∈ dlist.flatMap sendlistLine, b ≠ 0 ∧ b ≠ space := by
    intro b hb
    obtain ⟨d, hd, hb⟩ := List.mem_flatMap.1 hb
    have named := plain d hd
    have separator : comma ≠ 0 ∧ comma ≠ space := by decide
    have digit : ∀ b ∈ snprintf 10 d.alive, b ≠ 0 ∧ b ≠ space := by
      intro b hb
      rcases snprintf_mem hb with digit | rfl
      · refine ⟨(not_special_of_isDigit digit).1, ?_⟩
        rintro rfl
        exact absurd digit (by decide)
      · decide
    simp only [sendlistLine, List.mem_append, List.mem_cons, List.not_mem_nil, or_false] at hb named
    rcases hb with hb | rfl | hb | rfl | hb | rfl
    · exact named b (Or.inl hb)
    · exact separator
    · exact named b (Or.inr hb)
    · exact separator
    · exact digit b hb
    · exact separator
  refine ⟨?_, fun zero => (bytes 0 zero).1 rfl, fun b hb delimiter => ?_⟩
  · intro empty
    cases dlist with
    | nil => exact nonempty rfl
    | cons d rest => simp [sendlistLine] at empty
  · exact (bytes b hb).2 (List.mem_singleton.1 delimiter)

/-- What is sent for a list that is shown whole, and what the monitor makes of it. -/
theorem ShowsWhole.received (shows : ShowsWhole dlist) :
    receivecommand_monitor [] [] (DNLIST ++ comma :: dlist.flatMap sendlistLine) =
      .ok (.datanodes (dlist.flatMap sendlistLine)) := by
  have asked : field 0 DNLIST = some DNLIST := by
    unfold field
    rw [nextToken_last isToken_DNLIST]
  obtain ⟨datagram, sent, received⟩ := shows upNet [] 0 DNLIST [] [] rfl asked
  rw [monitorcommand_namenode_dnlist 0 rfl asked] at sent
  split_ifs at sent
  cases sent
  exact received

theorem ShowsWhole.nonempty (shows : ShowsWhole dlist) : dlist ≠ [] := by
  rintro rfl
  have received := shows.received
  rw [receivecommand_monitor_dnlist] at received
  have null : (.datanodes (str "(null)") : MonitorReaction) = .datanodes [] := Except.ok.inj received
  exact absurd null (by decide)

theorem ShowsWhole.fits (plain : ∀ d ∈ dlist, ∀ b ∈ d.node ++ d.ip, b ≠ 0 ∧ b ≠ space)
    (shows : ShowsWhole dlist) : (dlist.flatMap sendlistLine).length < 993 := by
  by_contra long
  have token := (isToken_sendlist shows.nonempty plain).take (n := 993) (by omega)
  have received := shows.received
  rw [receivecommand_monitor_dnlist, decide_eq_true (by omega), tokenIn_full token] at received
  cases received

end Monitor

/-- The monitor shows the list if and only if it is not empty and fits behind the command name in the
1000 bytes of the monitor. -/
theorem showsWhole_iff (dlist : List Datanode)
    (plain : ∀ d ∈ dlist, ∀ b ∈ d.node ++ d.ip, b ≠ 0 ∧ b ≠ space) :
    ShowsWhole dlist ↔ dlist ≠ [] ∧ (dlist.flatMap sendlistLine).length < 993 := by
  constructor
  · intro shows
    exact ⟨shows.nonempty, shows.fits plain⟩
  · rintro ⟨nonempty, fits⟩ net monitor replication_count request monitor_namenode namenode known asked
    refine ⟨DNLIST ++ comma :: dlist.flatMap sendlistLine, ?_, ?_⟩
    · rw [monitorcommand_namenode_dnlist replication_count known asked, if_pos (by omega)]
    · rw [receivecommand_monitor_dnlist, decide_eq_false (by omega),
        List.take_of_length_le (by omega), tokenIn_terminated,
        nextToken_last (isToken_sendlist nonempty plain)]
      rfl

theorem showsWhole_iff_two :
    ShowsWhole [⟨str "d", str "10.0.0.1", 1⟩, ⟨str "e", str "10.0.0.2", 0⟩] ↔
      [(⟨str "d", str "10.0.0.1", 1⟩ : Datanode), ⟨str "e", str "10.0.0.2", 0⟩] ≠ [] ∧
        (List.flatMap sendlistLine
          [⟨str "d", str "10.0.0.1", 1⟩, ⟨str "e", str "10.0.0.2", 0⟩]).length < 993 :=
  showsWhole_iff _ (by decide +kernel)

/-- Twelve data nodes with names of eighty letters. -/
def twelveNodes : List Datanode :=
  (List.range 12).map fun i => ⟨List.replicate 80 (97 + i.toUInt8), str "10.0.0.1", 1⟩

/-- Their text fits the arrays of the name node easily. -/
theorem twelveNodes_cut : (∀ d ∈ twelveNodes, ∀ b ∈ d.node ++ d.ip, b ≠ 0 ∧ b ≠ comma ∧ b ≠ space) ∧
    (twelveNodes.flatMap sendlistLine).length < 2000 ∧ ¬ ShowsWhole twelveNodes := by
  have plain : ∀ d ∈ twelveNodes, ∀ b ∈ d.node ++ d.ip, b ≠ 0 ∧ b ≠ comma ∧ b ≠ space := by
    intro d hd b hb
    obtain ⟨i, hi, rfl⟩ := List.mem_map.1 hd
    have letter : ∀ i < 12, (97 + i.toUInt8 : Byte) ≠ 0 ∧ (97 + i.toUInt8 : Byte) ≠ comma ∧
        (97 + i.toUInt8 : Byte) ≠ space := by
      decide
    have address : ∀ b ∈ str "10.0.0.1", b ≠ 0 ∧ b ≠ comma ∧ b ≠ space := by
      decide +kernel
    rcases List.mem_append.1 hb with hb | hb
    · rw [List.eq_of_mem_replicate hb]
      exact letter i (List.mem_range.1 hi)
    · exact address b hb
  have one : (snprintf 10 1).length = 1 := by decide
  have eight : (str "10.0.0.1").length = 8 := by decide
  have length : (twelveNodes.flatMap sendlistLine).length = 1104 := by
    simp [twelveNodes, sendlistLine, List.length_flatMap, List.map_map, Function.comp_def, one,
      eight]
  refine ⟨plain, by omega, fun shows => ?_⟩
  have fits := shows.fits fun d hd b hb => ⟨(plain d hd b hb).1, (plain d hd b hb).2.2⟩
  omega

end DistFs.Wire
