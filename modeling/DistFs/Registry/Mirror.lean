import DistFs.Registry.Config

/-!
# The file mirrors the list

After every registration and every probe the file holds the text of the list, and `readdnconfig`
reads the list in it.
-/

namespace DistFs.Registry

open CText

/-- What changes the list: a data node registers, or `fetch_datanode` looks for one that answers. -/
inductive Operation where
  | register (name ip : List Byte) (alive : ℤ)
  | probe (answers : List Byte → Bool)

namespace Operation

/-- The list and the file after an operation that returns. -/
def run : Operation → NodeList → Except Fault NodeList
  | .register name ip alive, r => datanode_insert name ip alive r
  | .probe answers, r => (fetch_datanode answers r).map Prod.snd

/-- What the operation does to the list. -/
def evolve : Operation → List Datanode → List Datanode
  | .register name ip alive, dlist => entered name ip alive dlist
  | .probe answers, dlist => (Registry.probe answers dlist).2

/-- A registration with a name, an address and a flag that can be read back. -/
def Valid : Operation → Prop
  | .register name ip alive => Datanode.Valid ⟨name, ip, alive⟩
  | .probe _ => True

end Operation

/-- A sequence of operations from an empty list and an empty file. -/
def runAll (ops : List Operation) : Except Fault NodeList :=
  ops.foldlM (fun r op => op.run r) ⟨[], []⟩

/-! ## Valid entries -/

section Entries

variable {dlist : List Datanode} {d : Datanode}

/-- The lists whose entries can all be read back. -/
def AllValid (dlist : List Datanode) : Prop := ∀ d ∈ dlist, d.Valid

/-- A flag that is set or cleared can be read back. -/
theorem Datanode.Valid.flag (valid : d.Valid) {alive : ℤ} (flag : alive = 0 ∨ alive = 1) :
    Datanode.Valid { d with alive := alive } := by
  refine ⟨valid.node, valid.ip, ?_⟩
  rcases flag with rfl | rfl
  · show (decimal 0).length ≤ 9
    decide
  · show (decimal 1).length ≤ 9
    decide

theorem AllValid.entered (all : AllValid dlist) {name ip : List Byte} {alive : ℤ}
    (valid : Datanode.Valid ⟨name, ip, alive⟩) : AllValid (entered name ip alive dlist) := by
  intro d hd
  rcases entered_cases name ip alive dlist with ⟨-, same⟩ | ⟨before, e, after, rfl, -, -, same⟩
  · rw [same, List.mem_append, List.mem_singleton] at hd
    rcases hd with hd | rfl
    · exact all d hd
    · exact valid
  · rw [same, List.mem_append, List.mem_cons] at hd
    rcases hd with hd | rfl | hd
    · exact all d (by simp [hd])
    · exact (all e (by simp)).flag (.inr rfl)
    · exact all d (by simp [hd])

theorem AllValid.probe (all : AllValid dlist) (answers : List Byte → Bool) :
    AllValid (Registry.probe answers dlist).2 := by
  induction dlist with
  | nil => exact all
  | cons d rest ih =>
    rw [Registry.probe]
    split_ifs
    · exact all
    · intro e he
      rcases List.mem_cons.1 he with rfl | he
      · exact (all d List.mem_cons_self).flag (.inl rfl)
      · exact ih (fun e he => all e (List.mem_cons_of_mem _ he)) e he

theorem Operation.Valid.evolve {op : Operation} (valid : op.Valid) (all : AllValid dlist) :
    AllValid (op.evolve dlist) := by
  cases op with
  | register name ip alive => exact all.entered valid
  | probe answers => exact all.probe answers

end Entries

/-! ## Reading the text of a list -/

/-- The lines of the text are read one by one. -/
theorem parse_text {dlist : List Datanode} (all : AllValid dlist) {n : ℕ}
    (enough : dlist.length < n) (offset : ℕ) : parse n ⟨text dlist, offset⟩ = .ok dlist := by
  induction dlist generalizing n with
  | nil =>
    obtain ⟨n, rfl⟩ : ∃ k, n = k + 1 := ⟨n - 1, by simp at enough; omega⟩
    have done := @fgets_last 0 4096 offset [] [] List.not_mem_nil (by decide) (Nat.zero_le _)
    rw [parse, text, List.flatMap_nil, done]
    rfl
  | cons d rest ih =>
    obtain ⟨n, rfl⟩ : ∃ k, n = k + 1 := ⟨n - 1, by simp at enough; omega⟩
    have valid := all d List.mem_cons_self
    have short := valid.fields_length
    have line := @fgets_line 0 4096 [] _ valid.oneLine (by omega) (text rest) offset
    have split : text (d :: rest) = d.fields ++ newline :: text rest := by
      rw [text, List.flatMap_cons, line_eq, List.append_assoc]
      rfl
    have later : parse n ⟨text rest, offset⟩ = .ok rest :=
      ih (fun e he => all e (List.mem_cons_of_mem _ he))
        (by simp only [List.length_cons] at enough; omega)
    rw [parse, split, line]
    simp only [← line_eq, valid.parse_line, later, bind, Except.bind, pure, Except.pure]

theorem line_pos (d : Datanode) : 0 < d.line.length := by
  simp [line_eq]

theorem length_le_text (dlist : List Datanode) : dlist.length ≤ (text dlist).length := by
  induction dlist with
  | nil => exact Nat.zero_le _
  | cons d rest ih =>
    have := line_pos d
    simp only [text, List.flatMap_cons, List.length_append, List.length_cons] at ih ⊢
    omega

theorem parseConfig_text {dlist : List Datanode} (all : AllValid dlist) :
    parseConfig (text dlist) = .ok dlist :=
  parse_text all (Nat.lt_succ_of_le (length_le_text dlist)) _

/-! ## Runs -/

section Runs

variable {r : NodeList} {op : Operation} {ops : List Operation}

/-- Every operation ends in a rewrite, but for a probe of the empty list. -/
theorem Operation.run_eq (mirrors : r.config = text r.dlist)
    (fits : (text (op.evolve r.dlist)).length < 10000) :
    op.run r = .ok ⟨op.evolve r.dlist, text (op.evolve r.dlist)⟩ := by
  cases op with
  | register name ip alive =>
    rw [Operation.evolve] at fits
    simp only [Operation.run, datanode_insert, datanode_filewrite, if_pos fits]
    rfl
  | probe answers =>
    rw [Operation.evolve] at fits
    by_cases empty : r.dlist = []
    · have same : r = ⟨[], text []⟩ := by
        cases r
        simp_all
      simp only [Operation.run, fetch_datanode, if_pos empty]
      rw [same]
      rfl
    · simp only [Operation.run, fetch_datanode, if_neg empty, datanode_filewrite, if_pos fits]
      rfl

theorem runAll_concat (ops : List Operation) (op : Operation) :
    runAll (ops ++ [op]) = (runAll ops).bind op.run := by
  rw [runAll, List.foldlM_append]
  simp only [List.foldlM_cons, List.foldlM_nil, bind_pure]
  rfl

/-- The list after a sequence of operations. -/
def evolveAll (ops : List Operation) : List Datanode := ops.foldl (fun dlist op => op.evolve dlist) []

theorem evolveAll_concat (ops : List Operation) (op : Operation) :
    evolveAll (ops ++ [op]) = op.evolve (evolveAll ops) := by
  simp [evolveAll]

theorem evolveAll_valid (valid : ∀ op ∈ ops, op.Valid) : AllValid (evolveAll ops) := by
  induction ops using List.reverseRecOn with
  | nil => exact fun d h => absurd h List.not_mem_nil
  | append_singleton ops op ih =>
    rw [evolveAll_concat]
    exact (valid op (by simp)).evolve (ih fun op h => valid op (by simp [h]))

/-- A sequence of operations leaves the text of the list in the file. -/
theorem runAll_eq (small : ∀ n, (text (evolveAll (ops.take n))).length < 10000) :
    runAll ops = .ok ⟨evolveAll ops, text (evolveAll ops)⟩ := by
  induction ops using List.reverseRecOn with
  | nil => rfl
  | append_singleton ops op ih =>
    have earlier := ih fun n => by
      by_cases inside : n ≤ ops.length
      · have := small n
        rwa [List.take_append_of_le_length inside] at this
      · have := small ops.length
        rwa [List.take_left, ← List.take_of_length_le (by omega : ops.length ≤ n)] at this
    have last := small (ops ++ [op]).length
    rw [List.take_length, evolveAll_concat] at last
    rw [runAll_concat, earlier, evolveAll_concat]
    exact Operation.run_eq rfl last

end Runs

/-- After every sequence of probes and of registrations with flags of at most nine characters,
`readdnconfig` reads in the file exactly the list in memory. -/
theorem config_mirrors_list {ops : List Operation} (valid : ∀ op ∈ ops, op.Valid)
    (small : ∀ n, (text (evolveAll (ops.take n))).length < 10000) :
    ∃ r, runAll ops = .ok r ∧ r.dlist = evolveAll ops ∧ parseConfig r.config = .ok r.dlist :=
  ⟨_, runAll_eq small, rfl, parseConfig_text (evolveAll_valid valid)⟩

/-- One data node registers and does not answer a probe. -/
def twoSteps : List Operation := [.register (str "d") (str "10.0.0.1") 1, .probe fun _ => false]

theorem config_mirrors_list_twoSteps : ∃ r, runAll twoSteps = .ok r ∧
    r.dlist = evolveAll twoSteps ∧ parseConfig r.config = .ok r.dlist := by
  refine config_mirrors_list ?_ ?_
  · intro op h
    rcases List.mem_cons.1 h with rfl | h
    · exact ⟨⟨⟨by decide +kernel, by decide +kernel, by decide +kernel⟩, by decide +kernel,
        by decide +kernel⟩, ⟨⟨by decide +kernel, by decide +kernel, by decide +kernel⟩,
        by decide, by decide⟩, by decide⟩
    · rw [List.mem_singleton.1 h]
      trivial
  · intro n
    rcases n with _ | _ | _ | n
    · decide
    · decide
    · decide
    · rw [List.take_of_length_le (by simp [twoSteps])]
      decide

/-- A registration with a name and an address as usual, and a flag of ten digits. -/
def wideFlag : List Operation := [.register (str "d") (str "10.0.0.1") (10 ^ 9)]

/-- `snprintf` with a size of 10 leaves nine of them: in the file the flag is another one. -/
theorem wideFlag_cut : Short (str "d") ∧ Short (str "10.0.0.1") ∧
    (∀ n, (text (evolveAll (wideFlag.take n))).length < 10000) ∧
    ∃ r, runAll wideFlag = .ok r ∧ r.dlist = [⟨str "d", str "10.0.0.1", 10 ^ 9⟩] ∧
      parseConfig r.config = .ok [⟨str "d", str "10.0.0.1", 10 ^ 8⟩] := by
  refine ⟨⟨⟨by decide +kernel, by decide +kernel, by decide +kernel⟩, by decide +kernel,
    by decide +kernel⟩, ⟨⟨by decide +kernel, by decide +kernel, by decide +kernel⟩, by decide,
    by decide⟩, ?_, _, rfl, rfl, by decide⟩
  intro n
  cases n with
  | zero => decide
  | succ n =>
    rw [List.take_of_length_le (by simp [wideFlag])]
    decide

end DistFs.Registry
