import DistFs.Registry.Mirror

/-!
# Restart

`readdnconfig` inserts every data node that it reads, and every insertion rewrites the file that is
being read.  What the stream has buffered is not affected; the next block comes from the rewritten
file, which is shorter than what has been read of the old one.
-/

namespace DistFs.Registry

open CText

/-- The loop of `readdnconfig`, for at most `fuel` lines; nothing comes back if there are more. -/
def readdnconfig (block : ℕ) : ℕ → Stream → NodeList → Except Fault (Option NodeList)
  | 0, _, _ => .ok none
  | fuel + 1, s, r =>
      match fgets block 4096 r.config s with
      | (none, _) => .ok (some r)
      | (some line, s) => do
          let d ← parseLine line
          let r ← datanode_insert d.node d.ip d.alive r
          readdnconfig block fuel s r

/-- `initdatanodelist` when the file exists. -/
def restart (fuel : ℕ) (config : List Byte) : Except Fault (Option NodeList) :=
  readdnconfig 4096 fuel ⟨[], 0⟩ ⟨[], config⟩

/-- A restart from the file of a list ends with the list in memory and in the file, and finds every
field of every line. -/
def Restores (dlist : List Datanode) : Prop :=
  (∃ fuel, restart fuel (text dlist) = .ok (some ⟨dlist, text dlist⟩)) ∧
    ∀ fuel, restart fuel (text dlist) ≠ .error .null

/-- Reading from a stream ends with the list and the file of `r'`. -/
def Reads (block : ℕ) (s : Stream) (r r' : NodeList) : Prop :=
  ∃ fuel, readdnconfig block fuel s r = .ok (some r')

section Loop

variable {block fuel : ℕ} {s s' : Stream} {r r' r'' : NodeList} {line : List Byte} {d : Datanode}

/-- A loop that has ended does so with more fuel, too. -/
theorem readdnconfig_ended (ended : readdnconfig block fuel s r = .ok (some r')) (more : ℕ) :
    readdnconfig block more s r = .ok none ∨ readdnconfig block more s r = .ok (some r') := by
  induction fuel generalizing s r more with
  | zero => cases ended
  | succ fuel ih =>
    cases more with
    | zero => exact .inl rfl
    | succ more =>
      rw [readdnconfig] at ended ⊢
      split at ended
      · exact .inr ended
      · obtain ⟨d, parsed, ended⟩ := bind_eq_ok.1 ended
        obtain ⟨r, inserted, ended⟩ := bind_eq_ok.1 ended
        simp only [parsed, inserted, bind, Except.bind]
        exact ih ended more

theorem Reads.ne_error (reads : Reads block s r r') (more : ℕ) (e : Fault) :
    readdnconfig block more s r ≠ .error e := by
  obtain ⟨fuel, ended⟩ := reads
  rcases readdnconfig_ended ended more with h | h <;> rw [h] <;> simp

/-- At the end of the file. -/
theorem reads_end (done : (fgets block 4096 r.config s).1 = none) :
    Reads block s r r' ↔ r' = r := by
  have stop (fuel : ℕ) : readdnconfig block (fuel + 1) s r = .ok (some r) := by
    rw [readdnconfig]
    split
    · rfl
    next found => rw [found] at done; cases done
  constructor
  · rintro ⟨fuel, ended⟩
    cases fuel with
    | zero => cases ended
    | succ fuel =>
      rw [stop] at ended
      cases ended
      rfl
  · rintro rfl
    exact ⟨1, stop 0⟩

/-- A line that can be read is inserted. -/
theorem Reads.of_line (found : fgets block 4096 r.config s = (some line, s'))
    (parsed : parseLine line = .ok d)
    (inserted : datanode_insert d.node d.ip d.alive r = .ok r'')
    (reads : Reads block s' r'' r') : Reads block s r r' := by
  obtain ⟨fuel, ended⟩ := reads
  refine ⟨fuel + 1, ?_⟩
  rw [readdnconfig, found]
  simp only [parsed, inserted, bind, Except.bind, ended]

/-- Every line that is read could be parsed and inserted. -/
theorem Reads.found_line (reads : Reads block s r r')
    (found : fgets block 4096 r.config s = (some line, s')) : ∃ d r'', parseLine line = .ok d ∧
      datanode_insert d.node d.ip d.alive r = .ok r'' ∧ Reads block s' r'' r' := by
  obtain ⟨fuel, ended⟩ := reads
  cases fuel with
  | zero => cases ended
  | succ fuel =>
    rw [readdnconfig, found] at ended
    obtain ⟨d, parsed, ended⟩ := bind_eq_ok.1 ended
    obtain ⟨r'', inserted, ended⟩ := bind_eq_ok.1 ended
    exact ⟨d, r'', parsed, inserted, fuel, ended⟩

/-- Reading goes on from the filled buffer. -/
theorem reads_fill (more : (s.fill block r.config).buf ≠ []) :
    Reads block s r r' ↔ Reads block (s.fill block r.config) r r' := by
  have same (fuel : ℕ) : readdnconfig block fuel s r =
      readdnconfig block fuel (s.fill block r.config) r := by
    cases fuel with
    | zero => rfl
    | succ fuel => rw [readdnconfig, readdnconfig, fgets_fill (by norm_num) s more]
  exact exists_congr fun fuel => by rw [same]

end Loop

/-! ## Insertions -/

section Insertions

variable {dlist done rest : List Datanode} {d : Datanode} {name ip : List Byte} {alive : ℤ}
  {r r' : NodeList}

theorem datanode_insert_ok (h : datanode_insert name ip alive r = .ok r') :
    r' = ⟨entered name ip alive r.dlist, text (entered name ip alive r.dlist)⟩ := by
  obtain ⟨⟨r'', cursor⟩, wrote, rfl⟩ := map_eq_ok.1 h
  exact (datanode_filewrite_ok wrote).2.1

theorem datanode_insert_fits (fits : (text (entered name ip alive r.dlist)).length < 10000) :
    datanode_insert name ip alive r =
      .ok ⟨entered name ip alive r.dlist, text (entered name ip alive r.dlist)⟩ := by
  rw [datanode_insert, datanode_filewrite, if_pos fits]
  rfl

/-- A known data node keeps its name and its place; its flag is printed in one character. -/
theorem entered_known (known : name ∈ dlist.map Datanode.node) :
    (entered name ip alive dlist).map Datanode.node = dlist.map Datanode.node ∧
      (text (entered name ip alive dlist)).length ≤ (text dlist).length := by
  rcases entered_cases name ip alive dlist with ⟨fresh, -⟩ | ⟨before, d, after, rfl, -, -, same⟩
  · exact absurd known fresh
  · have one : (snprintf 10 1).length = 1 := by decide
    have digit : 0 < (snprintf 10 d.alive).length :=
      List.length_pos_iff.2 (snprintf_ne_nil (by norm_num) _)
    rw [same]
    refine ⟨by simp, ?_⟩
    simp only [text, List.flatMap_append, List.flatMap_cons, List.length_append, Datanode.line,
      List.length_cons, List.length_nil, one]
    omega

/-- No name is entered twice. -/
theorem entered_nodup (nodup : (dlist.map Datanode.node).Nodup) :
    ((entered name ip alive dlist).map Datanode.node).Nodup := by
  by_cases known : name ∈ dlist.map Datanode.node
  · rwa [(entered_known known).1]
  · rw [entered_new known, List.map_append, List.map_singleton]
    exact nodup.append (List.nodup_singleton _) (by simpa using known)

theorem Reads.nodup {block : ℕ} {s : Stream} (reads : Reads block s r r')
    (nodup : (r.dlist.map Datanode.node).Nodup) : (r'.dlist.map Datanode.node).Nodup := by
  obtain ⟨fuel, ended⟩ := reads
  induction fuel generalizing s r with
  | zero => cases ended
  | succ fuel ih =>
    rw [readdnconfig] at ended
    split at ended
    · cases ended
      exact nodup
    · obtain ⟨d, -, ended⟩ := bind_eq_ok.1 ended
      obtain ⟨r'', inserted, ended⟩ := bind_eq_ok.1 ended
      obtain rfl := datanode_insert_ok inserted
      exact ih (entered_nodup nodup) ended

end Insertions

/-! ## Lines and blocks -/

section Blocks

variable {dlist done k rest : List Datanode} {d : Datanode} {p q tail config : List Byte}
  {block offset : ℕ} {r' : NodeList}

theorem text_append (k rest : List Datanode) : text (k ++ rest) = text k ++ text rest :=
  List.flatMap_append

theorem text_cons (d : Datanode) (rest : List Datanode) : text (d :: rest) = d.line ++ text rest :=
  rfl

theorem fgets_text (valid : d.Valid) (file tail : List Byte) (offset : ℕ) :
    fgets block 4096 file ⟨d.line ++ tail, offset⟩ = (some d.line, ⟨tail, offset⟩) := by
  have short := valid.fields_length
  have line := @fgets_line block 4096 file d.fields valid.oneLine (by omega) tail offset
  rwa [← List.singleton_append, ← List.append_assoc, ← line_eq] at line

/-- The whole lines of a block are inserted one after the other. -/
theorem reads_lines (all : AllValid k) (nodup : ((done ++ k).map Datanode.node).Nodup)
    (small : (text (done ++ k)).length < 10000) (tail : List Byte) :
    Reads block ⟨text k ++ tail, offset⟩ ⟨done, config⟩ r' ↔
      Reads block ⟨tail, offset⟩ ⟨done ++ k, if k = [] then config else text (done ++ k)⟩ r' := by
  induction k generalizing done config with
  | nil => simp [text]
  | cons d k ih =>
    have valid := all d List.mem_cons_self
    have found := @fgets_text d block valid config (text k ++ tail) offset
    have fresh : d.node ∉ done.map Datanode.node := by
      intro known
      rw [List.map_append, List.map_cons] at nodup
      exact (List.disjoint_of_nodup_append nodup) known List.mem_cons_self
    have split : done ++ d :: k = done ++ [d] ++ k := by simp
    have inserted : datanode_insert d.node d.ip d.alive ⟨done, config⟩ =
        .ok ⟨done ++ [d], text (done ++ [d])⟩ := by
      rw [split, text_append, List.length_append] at small
      have grown : entered d.node d.ip d.alive done = done ++ [d] := entered_new fresh
      rw [← grown] at small ⊢
      exact datanode_insert_fits (by simp only; omega)
    rw [split] at nodup small ⊢
    rw [text_cons, List.append_assoc, if_neg (List.cons_ne_nil d k)]
    have rest := @ih (done ++ [d]) (text (done ++ [d]))
      (fun e he => all e (List.mem_cons_of_mem _ he)) nodup small
    have config_eq : (if k = [] then text (done ++ [d]) else text (done ++ [d] ++ k)) =
        text (done ++ [d] ++ k) := by
      split_ifs with empty
      · rw [empty, List.append_nil]
      · rfl
    rw [config_eq] at rest
    rw [← rest]
    constructor
    · intro reads
      obtain ⟨d', r'', parsed, inserted', reads⟩ := reads.found_line found
      rw [valid.parse_line] at parsed
      cases parsed
      rw [inserted] at inserted'
      cases inserted'
      exact reads
    · exact Reads.of_line found valid.parse_line inserted

/-- A block ends in the middle of a line, or behind one. -/
theorem text_take {n : ℕ} (more : n < (text dlist).length) : ∃ k d rest p q,
    dlist = k ++ d :: rest ∧ (text dlist).take n = text k ++ p ∧ d.line = p ++ q ∧ q ≠ [] := by
  induction dlist generalizing n with
  | nil => simp [text] at more
  | cons d rest ih =>
    rw [text_cons, List.length_append] at more
    by_cases inside : n < d.line.length
    · refine ⟨[], d, rest, d.line.take n, d.line.drop n, rfl, ?_, ?_, ?_⟩
      · rw [text_cons, List.take_append_of_le_length inside.le]
        rfl
      · rw [List.take_append_drop]
      · rw [Ne, List.drop_eq_nil_iff]
        omega
    · obtain ⟨k, e, rest', p, q, rfl, taken, line, more⟩ := @ih (n - d.line.length) (by omega)
      refine ⟨d :: k, e, rest', p, q, rfl, ?_, line, more⟩
      rw [text_cons, List.take_append, List.take_of_length_le (by omega), taken, text_cons,
        List.append_assoc]

end Blocks

/-! ## A block boundary inside the list -/

section Boundary

variable {k : List Datanode} {d : Datanode} {p q m t : List Byte} {r' : NodeList}

/-- A field that is found ends at a comma or at the end of the text. -/
theorem nextToken_length (noNul : NoNul m) (found : nextToken [comma] m = (some t, p)) :
    p.length + t.length ≤ m.length ∧ (p ≠ [] → p.length + t.length + 1 ≤ m.length) ∧ NoNul p := by
  rw [nextToken] at found
  split at found
  · cases found
  next u token =>
    cases found
    have length := strtok_length token
    have suffix := strtok_rest_suffix token
    simp only [Token.front, List.length_append] at length
    refine ⟨by omega, fun more => ?_, fun h => noNul (suffix.subset h)⟩
    by_cases marked : u.mark = []
    · have same := strtok_append_open token noNul marked []
      rw [List.append_nil, token] at same
      have rest := congrArg Token.rest (Option.some.inj same)
      exact absurd rest more
    · have := List.length_pos_iff.2 marked
      omega

/-- A line that is parsed is at least three bytes longer than its first two fields. -/
theorem parseLine_length (noNul : NoNul m) (parsed : parseLine m = .ok d) :
    d.node.length + d.ip.length + 3 ≤ m.length ∧ d.node.length < 20 ∧ d.ip.length < 20 := by
  rw [parseLine] at parsed
  split at parsed
  · cases parsed
  next node m₁ first =>
    split_ifs at parsed with long
    split at parsed
    · cases parsed
    next ip m₂ second =>
      split_ifs at parsed with longIp
      split at parsed
      · cases parsed
      next alive m₃ third =>
        cases parsed
        have one := nextToken_length noNul first
        have two := nextToken_length one.2.2 second
        have more₂ : m₂ ≠ [] := by
          rintro rfl
          cases third
        have more₁ : m₁ ≠ [] := by
          rintro rfl
          cases second
        have size₂ := two.2.1 more₂
        have size₁ := one.2.1 more₁
        have := List.length_pos_iff.2 more₂
        exact ⟨by simp only; omega, by simpa using long, by simpa using longIp⟩

/-- A text without a comma is not a line of the file. -/
theorem parseLine_error (plain : comma ∉ m) (noNul : NoNul m) (h : parseLine m = .ok d) : False := by
  have length := parseLine_length noNul h
  by_cases empty : m = []
  · rw [empty] at length
    simp at length
  · have token : IsToken [comma] m :=
      ⟨empty, noNul, fun c hc hd => plain (List.mem_singleton.1 hd ▸ hc)⟩
    rw [parseLine, nextToken_last token] at h
    simp only [nextToken_nil] at h
    split_ifs at h

/-- What follows the first two fields of a line and one more byte is not a line. -/
theorem line_drop {n : ℕ} (behind : d.node.length + d.ip.length + 2 ≤ n)
    (inside : n < d.line.length) : ∃ body, d.line.drop n = body ++ [newline] ∧ newline ∉ body ∧
      comma ∉ body ∧ NoNul body ∧ body.length ≤ 9 := by
  have token := isToken_snprintf (by norm_num : 2 ≤ 10) d.alive
  obtain ⟨j, rfl⟩ := Nat.exists_eq_add_of_le behind
  have split : d.line =
      (d.node ++ comma :: (d.ip ++ [comma])) ++ (snprintf 10 d.alive ++ [newline]) := by
    simp [Datanode.line]
  have front : (d.node ++ comma :: (d.ip ++ [comma])).length = d.node.length + d.ip.length + 2 := by
    simp only [List.length_append, List.length_cons, List.length_nil]
    omega
  have size : (snprintf 10 d.alive).length ≤ 9 := List.length_take_le 9 _
  rw [split, List.length_append, front, List.length_append, List.length_singleton] at inside
  refine ⟨(snprintf 10 d.alive).drop j, ?_, ?_, ?_, ?_, ?_⟩
  · rw [split, ← front, List.drop_append, List.drop_of_length_le (by omega), List.nil_append,
      Nat.add_sub_cancel_left, List.drop_append_of_le_length (by omega)]
  · exact fun h => newline_notMem_snprintf _ (List.mem_of_mem_drop h)
  · exact fun h => token.plain _ (List.mem_of_mem_drop h) (List.mem_singleton_self _)
  · exact fun h => token.noNul (List.mem_of_mem_drop h)
  · rw [List.length_drop]
    omega

end Boundary

/-- A restart that has read part of a line and entered it does not get past the rest of the line that
it has written. -/
theorem Reads.not_tail {k : List Datanode} {d : Datanode} {p : List Byte} {r' : NodeList}
    (size : (text k).length + p.length = 4096) (behind : d.node.length + d.ip.length + 2 ≤ p.length)
    (longer : 4096 < (text (k ++ [d])).length) :
    ¬ Reads 4096 ⟨[], 4096⟩ ⟨k ++ [d], text (k ++ [d])⟩ r' := by
  intro reads
  have split : text (k ++ [d]) = text k ++ d.line := by
    rw [text_append, text_cons]
    simp [text]
  have rest : (text (k ++ [d])).drop 4096 = d.line.drop p.length := by
    rw [split, ← size, List.drop_length_add_append]
  have more : p.length < d.line.length := by
    rw [split, List.length_append] at longer
    omega
  obtain ⟨body, dropped, plainEnd, plain, noNul, small⟩ := line_drop behind more
  have filled : Stream.fill 4096 (text (k ++ [d])) ⟨[], 4096⟩ =
      ⟨body ++ [newline], 4096 + (body ++ [newline]).length⟩ := by
    have length : (body ++ [newline]).length ≤ 4096 := by
      rw [List.length_append, List.length_singleton]
      omega
    simp only [Stream.fill, if_true, rest, dropped, List.take_of_length_le length]
  rw [reads_fill (by rw [filled]; simp), filled] at reads
  have last := @fgets_line 4096 4096 (text (k ++ [d])) body plainEnd (by omega) []
    (4096 + (body ++ [newline]).length)
  obtain ⟨d', r'', parsed, -, -⟩ := reads.found_line last
  have separator : comma ≠ newline := by decide
  exact parseLine_error (by simpa [plain] using separator) (noNul.append (by decide)) parsed

/-- Behind the first block a restart finds part of a line, or nothing, and then the line end that it
has written itself. -/
theorem Reads.text_le {k dlist : List Datanode} {p : List Byte} (oneLine : newline ∉ p)
    (noNul : NoNul p) (short : p.length < 50) (size : (text k).length + p.length = 4096)
    (longer : k.length < dlist.length)
    (reads : Reads 4096 ⟨p, 4096⟩ ⟨k, text k⟩ ⟨dlist, text dlist⟩) :
    (text dlist).length ≤ 4096 := by
  have found := @fgets_last 4096 4096 4096 (text k) p oneLine (by omega) (by omega)
  by_cases empty : p = []
  · rw [if_pos empty] at found
    have same := (reads_end (congrArg Prod.fst found)).1 reads
    have := congrArg (fun r => r.dlist.length) same
    simp only at this
    omega
  · rw [if_neg empty] at found
    obtain ⟨d, r'', parsed, inserted, reads⟩ := reads.found_line found
    obtain rfl := datanode_insert_ok inserted
    have fields := parseLine_length noNul parsed
    by_cases inside : (text (entered d.node d.ip d.alive k)).length ≤ 4096
    · have done := @fgets_last 4096 4096 4096 _ [] List.not_mem_nil (by decide) inside
      rw [if_pos rfl] at done
      have same := (reads_end (congrArg Prod.fst done)).1 reads
      have lists : dlist = entered d.node d.ip d.alive k := congrArg NodeList.dlist same
      rw [lists]
      exact inside
    · exfalso
      have fresh : d.node ∉ k.map Datanode.node := by
        intro known
        have shorter : (text (entered d.node d.ip d.alive k)).length ≤ (text k).length :=
          (entered_known known).2
        omega
      rw [entered_new fresh] at reads inside
      have behind : d.node.length + d.ip.length + 2 ≤ p.length := by omega
      exact Reads.not_tail size behind (not_le.1 inside) reads

/-- A restart that ends with the list has found it in one block. -/
theorem Restores.length_le {dlist : List Datanode} (all : AllValid dlist)
    (small : (text dlist).length < 10000) (restores : Restores dlist) :
    (text dlist).length ≤ 4096 ∧ (dlist.map Datanode.node).Nodup := by
  obtain ⟨reads, -⟩ := restores
  have reads : Reads 4096 ⟨[], 0⟩ ⟨[], text dlist⟩ ⟨dlist, text dlist⟩ := reads
  have nodup := reads.nodup List.nodup_nil
  refine ⟨?_, nodup⟩
  by_contra long
  obtain ⟨k, d, rest, p, q, rfl, taken, line, more⟩ :=
    text_take (by omega : 4096 < (text dlist).length)
  have valid := all d (by simp)
  have size : (text k).length + p.length = 4096 := by
    have := congrArg List.length taken
    rw [List.length_take, List.length_append] at this
    omega
  have short : p.length ≤ d.fields.length := by
    have lengths := congrArg List.length line
    have := List.length_pos_iff.2 more
    simp only [line_eq, List.length_append, List.length_singleton] at lengths
    omega
  have front : p = d.fields.take p.length := by
    have := congrArg (List.take p.length) line
    rw [line_eq, List.take_append_of_le_length short, List.take_left] at this
    exact this.symm
  have fields := valid.fields_length
  have some_ : k ≠ [] := by
    rintro rfl
    simp only [text, List.flatMap_nil, List.length_nil] at size
    omega
  have filled : Stream.fill 4096 (text (k ++ d :: rest)) ⟨[], 0⟩ = ⟨text k ++ p, 4096⟩ := by
    simp only [Stream.fill, if_true, List.drop_zero, taken, List.length_append, size, Nat.zero_add]
  have nonempty : text k ++ p ≠ [] := by
    intro h
    have := congrArg List.length h
    rw [List.length_append, size] at this
    simp at this
  rw [reads_fill (by rw [filled]; exact nonempty), filled,
    reads_lines (fun e he => all e (List.mem_append_left _ he)) ?_ ?_ p, if_neg some_] at reads
  · refine long (Reads.text_le ?_ ?_ (by omega) size (by simp) reads)
    · rw [front]
      exact fun h => valid.oneLine (List.mem_of_mem_take h)
    · rw [front]
      exact fun h => valid.fields_noNul (List.mem_of_mem_take h)
  · rw [List.map_append] at nodup
    exact nodup.of_append_left
  · rw [text_append, List.length_append] at small
    rw [List.nil_append]
    omega

/-- A list in one block is found again. -/
theorem restores_of_length_le {dlist : List Datanode} (all : AllValid dlist)
    (short : (text dlist).length ≤ 4096) (nodup : (dlist.map Datanode.node).Nodup) :
    Restores dlist := by
  have filled : Stream.fill 4096 (text dlist) ⟨[], 0⟩ = ⟨text dlist, (text dlist).length⟩ := by
    simp only [Stream.fill, if_true, List.drop_zero, List.take_of_length_le short, Nat.zero_add]
  have reads : Reads 4096 ⟨[], 0⟩ ⟨[], text dlist⟩ ⟨dlist, text dlist⟩ := by
    have lines := @reads_lines [] dlist (text dlist) 4096 (text dlist).length ⟨dlist, text dlist⟩ all
      nodup (by rw [List.nil_append]; omega) []
    rw [List.append_nil, List.nil_append, ite_self] at lines
    have done : Reads 4096 ⟨[], (text dlist).length⟩ ⟨dlist, text dlist⟩ ⟨dlist, text dlist⟩ := by
      have last := @fgets_last 4096 4096 (text dlist).length (text dlist) [] List.not_mem_nil
        (by decide) le_rfl
      rw [if_pos rfl] at last
      exact (reads_end (congrArg Prod.fst last)).2 rfl
    by_cases empty : text dlist = []
    · have last := @fgets_last 4096 4096 0 (text dlist) [] List.not_mem_nil (by decide)
        (by rw [empty]; exact le_rfl)
      have none_ : dlist = [] := by
        have := length_le_text dlist
        rw [empty] at this
        exact List.length_eq_zero_iff.1 (by simpa using this)
      rw [if_pos rfl] at last
      refine (reads_end (congrArg Prod.fst last)).2 ?_
      rw [none_]
    · rw [reads_fill (by rw [filled]; exact empty), filled]
      exact lines.2 done
  exact ⟨reads, fun fuel => reads.ne_error fuel .null⟩

/-- A restart loses no data node exactly when the file fits one block (the names are distinct in
every list that `datanode_insert` makes). -/
theorem restores_iff {dlist : List Datanode} (all : AllValid dlist)
    (small : (text dlist).length < 10000) :
    Restores dlist ↔ (text dlist).length ≤ 4096 ∧ (dlist.map Datanode.node).Nodup :=
  ⟨fun restores => restores.length_le all small,
    fun ⟨short, nodup⟩ => restores_of_length_le all short nodup⟩

/-- A registry of two data nodes, one of which has not answered. -/
def twoEntries : List Datanode :=
  [⟨str "d", str "10.0.0.1", 1⟩, ⟨str "e.local", str "10.0.0.1", 0⟩]

theorem short_oneAddress : Short (str "10.0.0.1") :=
  ⟨⟨by decide +kernel, by decide +kernel, by decide +kernel⟩, by decide +kernel, by decide +kernel⟩

theorem twoEntries_valid : AllValid twoEntries := by
  intro d mem
  rcases List.mem_cons.1 mem with rfl | mem
  · exact ⟨⟨⟨by decide +kernel, by decide +kernel, by decide +kernel⟩, by decide +kernel,
      by decide⟩, short_oneAddress, by decide⟩
  · obtain rfl := List.mem_singleton.1 mem
    exact ⟨⟨⟨by decide +kernel, by decide +kernel, by decide +kernel⟩, by decide +kernel,
      by decide⟩, short_oneAddress, by decide⟩

theorem restores_iff_twoEntries : Restores twoEntries ↔
    (text twoEntries).length ≤ 4096 ∧ (twoEntries.map Datanode.node).Nodup :=
  restores_iff twoEntries_valid (by decide)

/-- Data nodes `0`, `1`, `2` and so on. -/
def manyEntries : List Datanode :=
  (List.range 300).map fun i => ⟨snprintf 10 i, str "10.0.0.1", 1⟩

/-- The file of three hundred data nodes is longer than a block. -/
theorem manyEntries_lost : ¬ Restores manyEntries := by
  intro restores
  have all : AllValid manyEntries := by
    intro d hd
    obtain ⟨i, -, rfl⟩ := List.mem_map.1 hd
    have size : (snprintf 10 i).length ≤ 9 := List.length_take_le 9 _
    have one : (decimal 1).length ≤ 9 := by decide
    exact ⟨⟨isToken_snprintf (by norm_num) _, newline_notMem_snprintf _, by simp only; omega⟩,
      short_oneAddress, one⟩
  have short := (restores.length_le all (by decide +kernel)).1
  exact absurd short (by decide +kernel)

end DistFs.Registry
