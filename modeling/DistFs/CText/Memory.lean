import DistFs.CText.Basic

/-!
# Memory

A byte at every address, the arrays of a program as blocks of it, and the one write that `memset` and
`recvfrom` are made of: a store of consecutive bytes, which knows nothing of the size of its array.
`strtok` knows nothing of it either.
-/

namespace DistFs.CText

/-- An array: its first address and its size. -/
structure Block where
  base : ℕ
  size : ℕ
deriving DecidableEq, Repr

namespace Block

/-- The address is in the array. -/
def Contains (b : Block) (a : ℕ) : Prop := b.base ≤ a ∧ a < b.base + b.size

/-- No address belongs to both blocks. -/
def Apart (b c : Block) : Prop := b.base + b.size ≤ c.base ∨ c.base + c.size ≤ b.base

instance (b : Block) (a : ℕ) : Decidable (b.Contains a) := inferInstanceAs (Decidable (_ ∧ _))

instance (b c : Block) : Decidable (b.Apart c) := inferInstanceAs (Decidable (_ ∨ _))

theorem Apart.not_contains {b c : Block} {a : ℕ} (apart : b.Apart c) (inside : c.Contains a) :
    ¬ b.Contains a := by
  unfold Apart at apart
  unfold Contains at inside ⊢
  omega

end Block

/-- The byte at each address. -/
abbrev Memory := ℕ → Byte

namespace Memory

/-- The memory after `bytes` have been written from `base` on. -/
def store (m : Memory) (base : ℕ) (bytes : List Byte) : Memory := fun a =>
  if base ≤ a then (bytes[a - base]?).getD (m a) else m a

/-- The bytes of an array. -/
def contents (m : Memory) (b : Block) : List Byte := (List.range b.size).map fun i => m (b.base + i)

section Store

variable {m m' : Memory} {base a : ℕ} {bytes : List Byte}

/-- A store leaves everything alone that it does not reach. -/
theorem store_outside (outside : ¬ (Block.mk base bytes.length).Contains a) :
    m.store base bytes a = m a := by
  unfold store
  split_ifs with behind
  · have past : bytes.length ≤ a - base := by
      unfold Block.Contains at outside
      dsimp only at outside
      omega
    rw [List.getElem?_eq_none past, Option.getD_none]
  · rfl

/-- Where a store reaches, nothing is left of the memory before it. -/
theorem store_inside (inside : (Block.mk base bytes.length).Contains a) :
    m.store base bytes a = m'.store base bytes a := by
  obtain ⟨behind, before⟩ := inside
  dsimp only at behind before
  unfold store
  have within : a - base < bytes.length := by omega
  rw [if_pos behind, if_pos behind, List.getElem?_eq_getElem within, Option.getD_some,
    Option.getD_some]

/-- Two memories that agree at an address agree there after the same store. -/
theorem store_congr (same : m a = m' a) : m.store base bytes a = m'.store base bytes a := by
  unfold store
  rw [same]

theorem contents_congr {b : Block} (same : ∀ a, b.Contains a → m a = m' a) :
    m.contents b = m'.contents b := by
  unfold contents
  apply List.map_congr_left
  intro i hi
  rw [List.mem_range] at hi
  exact same _ ⟨by omega, by omega⟩

end Store

end Memory

/-! ## Tokens in an array -/

/-- `strtok` gets to the end of the memory it is given without meeting a NUL. -/
def runsOut (delims m : List Byte) : Bool :=
  match strtok delims m with
  | none => decide (NoNul m)
  | some t => t.mark.isEmpty && t.rest.isEmpty

/-- `strtok` in an array.  When the array is `full`, there is no NUL at its end, and `strtok` may read
on behind it. -/
def tokenIn (full : Bool) (delims m : List Byte) : Except Fault (Option (List Byte) × List Byte) :=
  if full && runsOut delims m then .error .overflow else .ok (nextToken delims m)

section TokenIn

variable {delims t : List Byte} {d : Byte} {full : Bool}

theorem tokenIn_terminated (delims m : List Byte) :
    tokenIn false delims m = .ok (nextToken delims m) := rfl

theorem tokenIn_delimited (token : IsToken delims t) (hd : d ∈ delims) (hd0 : d ≠ 0)
    (m : List Byte) : tokenIn full delims (t ++ d :: m) = .ok (some t, m) := by
  have more : runsOut delims (t ++ d :: m) = false := by
    unfold runsOut
    rw [strtok_delimited token hd hd0]
    rfl
  unfold tokenIn
  rw [more, Bool.and_false, nextToken_delimited token hd hd0]
  rfl

theorem scanToken_plain : ∀ m : List Byte, ∀ b ∈ (scanToken delims m).token, b ≠ 0 ∧ b ∉ delims
  | [], b, hb => by cases hb
  | c :: m, b, hb => by
    have rest := scanToken_plain m
    unfold scanToken at hb
    split_ifs at hb with zero delimiter
    · cases hb
    · cases hb
    · rcases List.mem_cons.1 hb with rfl | hb
      · exact ⟨zero, delimiter⟩
      · exact rest b hb

/-- What `strtok` returns is a token. -/
theorem strtok_isToken {m : List Byte} {t : Token} (found : strtok delims m = some t) :
    IsToken delims t.token := by
  induction m generalizing t with
  | nil => cases found
  | cons b m ih =>
    unfold strtok at found
    split_ifs at found with zero delimiter
    · obtain ⟨u, earlier, rfl⟩ := Option.map_eq_some_iff.1 found
      have token := ih earlier
      exact token
    · cases found
      have plain := @scanToken_plain delims (b :: m)
      refine ⟨?_, fun h => (plain 0 h).1 rfl, fun c hc => (plain c hc).2⟩
      unfold scanToken
      rw [if_neg zero, if_neg delimiter]
      exact List.cons_ne_nil _ _

/-- The beginning of a token. -/
theorem IsToken.take (token : IsToken delims t) {n : ℕ} (some_ : 0 < n) : IsToken delims (t.take n) where
  nonempty := by
    rw [ne_eq, List.take_eq_nil_iff, not_or]
    exact ⟨by omega, token.nonempty⟩
  noNul zero := token.noNul (List.mem_of_mem_take zero)
  plain b hb := token.plain b (List.mem_of_mem_take hb)

theorem tokenIn_full (token : IsToken delims t) : tokenIn true delims t = .error .overflow := by
  have out : runsOut delims t = true := by
    unfold runsOut
    rw [strtok_last token]
    rfl
  unfold tokenIn
  rw [out]
  rfl

end TokenIn

end DistFs.CText
