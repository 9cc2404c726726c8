import DistFs.CText.Basic

/-!
# Pieces of a text

The non-empty pieces of a text between the occurrences of a delimiter are what one call of `strtok`
after another returns.
-/

namespace DistFs.CText

/-- The non-empty pieces between the delimiters. -/
def pieces (d : Byte) (s : List Byte) : List (List Byte) := (s.splitOn d).filter (· ≠ [])

section Pieces

variable {d : Byte} {m s : List Byte}

@[simp] theorem pieces_nil : pieces d [] = [] := rfl

/-- A delimiter separates the pieces in front of it from those behind it. -/
theorem pieces_append (s m : List Byte) : pieces d (s ++ d :: m) = pieces d s ++ pieces d m := by
  unfold pieces
  rw [List.splitOn_append_cons_self, List.filter_append]

theorem pieces_cons_self (m : List Byte) : pieces d (d :: m) = pieces d m :=
  pieces_append [] m

/-- Text without a delimiter is one piece. -/
theorem pieces_plain (plain : d ∉ s) (nonempty : s ≠ []) : pieces d s = [s] := by
  unfold pieces
  rw [List.splitOn_eq_singleton plain, List.filter_singleton]
  simp [nonempty]

theorem IsToken.pieces_eq (token : IsToken [d] s) : pieces d s = [s] := by
  apply pieces_plain _ token.nonempty
  intro mem
  exact token.plain d mem List.mem_cons_self

/-- A text begins with a run without the delimiter. -/
theorem split_at_delimiter (d : Byte) (s : List Byte) :
    d ∉ s ∨ ∃ p q, s = p ++ d :: q ∧ d ∉ p := by
  by_cases mem : d ∈ s
  · right
    obtain ⟨p, c, q, split, found, front⟩ := exists_first (· == d) ⟨d, mem, beq_self_eq_true d⟩
    obtain rfl := beq_iff_eq.1 found
    exact ⟨p, q, split, fun inside => by simpa using front c inside⟩
  · exact Or.inl mem

theorem scanToken_pieces (noNul : NoNul m) (plain : ∀ b ∈ m.head?, b ≠ d) (nonempty : m ≠ []) :
    pieces d m = (scanToken [d] m).token :: pieces d (scanToken [d] m).rest := by
  rcases split_at_delimiter d m with whole | ⟨p, q, rfl, front⟩
  · rw [scanToken_last noNul fun b hb => by simpa using ne_of_mem_of_not_mem hb whole]
    rw [pieces_plain whole nonempty, pieces_nil]
  · have parts := noNul_append.1 noNul
    rw [scanToken_delimited parts.1 (fun b hb => by simpa using ne_of_mem_of_not_mem hb front)
      List.mem_cons_self (noNul_cons.1 parts.2).1]
    have : p ≠ [] := by
      rintro rfl
      exact plain d rfl rfl
    rw [pieces_append, pieces_plain front this]
    rfl

/-- The next call of `strtok` returns the next piece. -/
theorem pieces_strtok (noNul : NoNul m) : pieces d m =
    match strtok [d] m with
    | none => []
    | some t => t.token :: pieces d t.rest := by
  induction m with
  | nil => rfl
  | cons b m ih =>
    obtain ⟨nonzero, later⟩ := noNul_cons.1 noNul
    by_cases delimiter : b = d
    · subst delimiter
      rw [pieces_cons_self, ih later, strtok_skip List.mem_cons_self nonzero]
      cases strtok [b] m <;> rfl
    · rw [strtok_start nonzero (by simpa using delimiter)]
      exact scanToken_pieces noNul (by simpa using delimiter) (List.cons_ne_nil b m)

theorem pieces_of_none (noNul : NoNul m) (found : strtok [d] m = none) : pieces d m = [] := by
  rw [pieces_strtok noNul, found]

theorem pieces_of_some {t : Token} (noNul : NoNul m) (found : strtok [d] m = some t) :
    pieces d m = t.token :: pieces d t.rest ∧ NoNul t.rest := by
  refine ⟨by rw [pieces_strtok noNul, found], fun mem => noNul ?_⟩
  exact (strtok_rest_suffix found).subset mem

end Pieces

end DistFs.CText
