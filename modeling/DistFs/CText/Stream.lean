import DistFs.CText.Basic

/-!
# Reading lines

A `FILE` open for reading, and `fgets`.  The library reads the file in blocks, each when the bytes of
the last one are used up, so that a change of the file in between is seen block by block.
-/

namespace DistFs.CText

/-- The end of a line. -/
def newline : Byte := 10

/-- A stream: the bytes of the last block that are still to be served, and the offset behind it. -/
structure Stream where
  buf : List Byte
  offset : ℕ

/-- The stream as it serves its next byte: an empty buffer is filled from the file as it is now. -/
def Stream.fill (block : ℕ) (file : List Byte) (s : Stream) : Stream :=
  if s.buf = [] then
    let bytes := (file.drop s.offset).take block
    ⟨bytes, s.offset + bytes.length⟩
  else s

/-- The loop of `fgets`: at most `n` bytes, up to and with a newline. -/
def getLine (block : ℕ) (file : List Byte) : ℕ → Stream → List Byte × Stream
  | 0, s => ([], s)
  | n + 1, s =>
      let s := s.fill block file
      match s.buf with
      | [] => ([], s)
      | c :: buf =>
          if c = newline then ([c], { s with buf := buf })
          else
            let line := getLine block file n { s with buf := buf }
            (c :: line.1, line.2)

/-- `fgets(line, size, fp)`: the line, or null at the end of the file. -/
def fgets (block size : ℕ) (file : List Byte) (s : Stream) : Option (List Byte) × Stream :=
  match getLine block file (size - 1) s with
  | ([], s) => (none, s)
  | (line, s) => (some line, s)

section Lines

variable {block size n offset : ℕ} {file p buf : List Byte}

theorem fill_cons (block : ℕ) (file : List Byte) (c : Byte) (buf : List Byte) (offset : ℕ) :
    Stream.fill block file ⟨c :: buf, offset⟩ = ⟨c :: buf, offset⟩ := by
  simp [Stream.fill]

/-- Nothing is left to read. -/
theorem fill_end (short : file.length ≤ offset) :
    Stream.fill block file ⟨[], offset⟩ = ⟨[], offset⟩ := by
  simp [Stream.fill, List.drop_eq_nil_of_le short]

theorem fill_fill (block : ℕ) (file : List Byte) (s : Stream) (more : (s.fill block file).buf ≠ []) :
    (s.fill block file).fill block file = s.fill block file := by
  rw [Stream.fill, if_neg more]

/-- Bytes in the buffer are served without a look at the file. -/
theorem getLine_buffered (plain : newline ∉ p) (room : p.length ≤ n) :
    getLine block file n ⟨p ++ buf, offset⟩ =
      (p ++ (getLine block file (n - p.length) ⟨buf, offset⟩).1,
        (getLine block file (n - p.length) ⟨buf, offset⟩).2) := by
  induction p generalizing n with
  | nil => rfl
  | cons c p ih =>
    obtain ⟨n, rfl⟩ : ∃ k, n = k + 1 := ⟨n - 1, by simp at room; omega⟩
    simp only [List.mem_cons, not_or, List.length_cons, Nat.add_le_add_iff_right] at plain room
    rw [List.cons_append, getLine, fill_cons]
    simp only [if_neg (Ne.symm plain.1), ih plain.2 room, List.length_cons, List.cons_append,
      Nat.add_sub_add_right]

/-- A line in the buffer. -/
theorem fgets_line (plain : newline ∉ p) (room : p.length + 1 < size) (buf : List Byte)
    (offset : ℕ) :
    fgets block size file ⟨p ++ newline :: buf, offset⟩ =
      (some (p ++ [newline]), ⟨buf, offset⟩) := by
  obtain ⟨k, hk⟩ : ∃ k, size - 1 - p.length = k + 1 := ⟨size - 2 - p.length, by omega⟩
  rw [fgets, getLine_buffered plain (by omega), hk, getLine, fill_cons]
  simp only [if_true]
  cases p <;> rfl

/-- The bytes behind the last newline of the buffer, when the file has no more. -/
theorem fgets_last (plain : newline ∉ p) (room : p.length + 1 < size) (short : file.length ≤ offset) :
    fgets block size file ⟨p, offset⟩ = (if p = [] then none else some p, ⟨[], offset⟩) := by
  obtain ⟨k, hk⟩ : ∃ k, size - 1 - p.length = k + 1 := ⟨size - 2 - p.length, by omega⟩
  have served := @getLine_buffered block _ offset file _ [] plain (by omega : p.length ≤ size - 1)
  rw [List.append_nil, hk, getLine, fill_end short] at served
  rw [fgets, served]
  cases p <;> simp

/-- What is read of a buffer, and what is left of it. -/
theorem getLine_split (n : ℕ) (p : List Byte) (offset : ℕ) :
    (getLine 0 file n ⟨p, offset⟩).1 ++ (getLine 0 file n ⟨p, offset⟩).2.buf = p ∧
      ∃ body, newline ∉ body ∧ ((getLine 0 file n ⟨p, offset⟩).1 = body ∨
        (getLine 0 file n ⟨p, offset⟩).1 = body ++ [newline]) := by
  induction n generalizing p offset with
  | zero => exact ⟨rfl, [], List.not_mem_nil, .inl rfl⟩
  | succ n ih =>
    cases p with
    | nil =>
      have filled : Stream.fill 0 file ⟨[], offset⟩ = ⟨[], offset⟩ := by simp [Stream.fill]
      rw [getLine, filled]
      exact ⟨rfl, [], List.not_mem_nil, .inl rfl⟩
    | cons c p =>
      rw [getLine, fill_cons]
      simp only
      split_ifs with ends
      · subst ends
        exact ⟨rfl, [], List.not_mem_nil, .inr rfl⟩
      · obtain ⟨whole, body, plain, line⟩ := ih p offset
        have plain : newline ∉ c :: body := by
          simp only [List.mem_cons, not_or]
          exact ⟨Ne.symm ends, plain⟩
        refine ⟨by simp only [List.cons_append, whole], c :: body, plain, ?_⟩
        rcases line with line | line
        · exact .inl (by rw [line])
        · exact .inr (by rw [line, List.cons_append])

/-- Only an empty buffer serves no line. -/
theorem fgets_none {s : Stream} (room : 1 < size)
    (found : fgets block size file ⟨p, offset⟩ = (none, s)) : p = [] := by
  cases p with
  | nil => rfl
  | cons c p =>
    obtain ⟨k, hk⟩ : ∃ k, size - 1 = k + 1 := ⟨size - 2, by omega⟩
    rw [fgets, hk, getLine, fill_cons] at found
    simp only at found
    split_ifs at found <;> cases found

/-- A line that is served from the buffer. -/
theorem fgets_split {line : List Byte} {s : Stream}
    (found : fgets 0 size file ⟨p, offset⟩ = (some line, s)) : line ++ s.buf = p ∧
      ∃ body, newline ∉ body ∧ (line = body ∨ line = body ++ [newline]) := by
  have split := @getLine_split file (size - 1) p offset
  rw [fgets] at found
  split at found
  · cases found
  next line' s' _ got =>
    cases found
    rwa [got] at split

/-- Reading starts with a block. -/
theorem fgets_fill (room : 1 < size) (s : Stream) (more : (s.fill block file).buf ≠ []) :
    fgets block size file s = fgets block size file (s.fill block file) := by
  obtain ⟨k, hk⟩ : ∃ k, size - 1 = k + 1 := ⟨size - 2, by omega⟩
  rw [fgets, fgets, hk, getLine, getLine, fill_fill block file s more]

end Lines

end DistFs.CText
