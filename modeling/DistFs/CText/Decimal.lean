import DistFs.CText.Basic

/-!
# Decimal numbers in text

`printf`'s `%d` through a bounded `snprintf`, and `atoi` as `(int) strtol`.  The main fact is
`atoi_decimal_append`: a printed number is read back whatever non-digit follows it.
-/

namespace DistFs.CText

/-- Conversion to a 32-bit `int`. -/
def toInt (x : ℤ) : ℤ := Int.bmod x (2 ^ 32)

/-- The digits of a natural number. -/
def digits (n : ℕ) : List Byte := (Nat.toDigits 10 n).map Char.toUInt8

/-- The text `%d` prints for `x`. -/
def decimal (x : ℤ) : List Byte := if x < 0 then 45 :: digits x.natAbs else digits x.natAbs

/-- `snprintf(buf, size, "%d", x)`: the argument is read as an `int`, and at most `size - 1`
characters are kept. -/
def snprintf (size : ℕ) (x : ℤ) : List Byte := (decimal (toInt x)).take (size - 1)

/-- A character that `atoi` skips. -/
def isSpace (b : Byte) : Bool := b == 32 || (9 ≤ b && b ≤ 13)

/-- A character between `0` and `9`. -/
def isDigit (b : Byte) : Bool := 48 ≤ b && b ≤ 57

/-- The value of a run of digits. -/
def digitsVal (l : List Byte) : ℕ := l.foldl (fun v b => 10 * v + (b.toNat - 48)) 0

/-- The number that the digits in front of `s` denote, clamped to a `long`. -/
def strtolDigits (negative : Bool) (s : List Byte) : ℤ :=
  let v : ℤ := digitsVal (s.takeWhile isDigit)
  if negative then max (-v) (-2 ^ 63) else min v (2 ^ 63 - 1)

/-- `strtol(s, NULL, 10)`. -/
def strtol (s : List Byte) : ℤ :=
  match s.dropWhile isSpace with
  | [] => 0
  | b :: t =>
      if b = 45 then strtolDigits true t
      else if b = 43 then strtolDigits false t
      else strtolDigits false (b :: t)

/-- `atoi(s)`. -/
def atoi (s : List Byte) : ℤ := toInt (strtol s)

/-! ## `int` conversion -/

theorem toInt_of_range {x : ℤ} (lower : -2 ^ 31 ≤ x) (upper : x < 2 ^ 31) : toInt x = x := by
  rw [toInt, Int.bmod_eq_of_le] <;> omega

theorem toInt_range (x : ℤ) : -2 ^ 31 ≤ toInt x ∧ toInt x < 2 ^ 31 := by
  have lower := Int.le_bmod (x := x) (m := 2 ^ 32) (by norm_num)
  have upper := Int.bmod_lt (x := x) (m := 2 ^ 32) (by norm_num)
  unfold toInt
  omega

@[simp] theorem toInt_toInt (x : ℤ) : toInt (toInt x) = toInt x :=
  toInt_of_range (toInt_range x).1 (toInt_range x).2

theorem toInt_emod (x : ℤ) : toInt x % 2 ^ 32 = x % 2 ^ 32 := Int.bmod_emod

/-! ## Digits -/

theorem isDigit_of_char {c : Char} (h : c.isDigit = true) :
    isDigit c.toUInt8 = true ∧ c.toUInt8.toNat = c.toNat := by
  simp only [Char.isDigit, Bool.and_eq_true, decide_eq_true_eq] at h
  have lower : 48 ≤ c.val.toNat := h.1
  have upper : c.val.toNat ≤ 57 := h.2
  have value : c.toUInt8.toNat = c.val.toNat := by
    show (c.val.toUInt8).toNat = c.val.toNat
    rw [UInt32.toNat_toUInt8]
    exact Nat.mod_eq_of_lt (by omega)
  refine ⟨?_, value⟩
  simp only [isDigit, Bool.and_eq_true, decide_eq_true_eq, UInt8.le_iff_toNat_le, value]
  exact ⟨lower, upper⟩

theorem digits_isDigit {n : ℕ} {b : Byte} (hb : b ∈ digits n) : isDigit b = true := by
  obtain ⟨c, hc, rfl⟩ := List.mem_map.1 hb
  exact (isDigit_of_char (Nat.isDigit_of_mem_toDigits (by norm_num) (by norm_num) hc)).1

theorem digits_ne_nil (n : ℕ) : digits n ≠ [] := by
  simp [digits, Nat.toDigits_ne_nil]

theorem digitsVal_digits (n : ℕ) : digitsVal (digits n) = n := by
  have key : ∀ (l : List Char) (v : ℕ), (∀ c ∈ l, c.isDigit = true) →
      (l.map Char.toUInt8).foldl (fun v b => 10 * v + (b.toNat - 48)) v =
        Nat.ofDigitChars 10 l v := by
    intro l
    induction l with
    | nil => intro v _; rfl
    | cons c l ih =>
      intro v hl
      have value := (isDigit_of_char (hl c (by simp))).2
      rw [List.map_cons, List.foldl_cons, value, Nat.ofDigitChars_cons]
      exact ih _ fun d hd => hl d (by simp [hd])
  have allDigits : ∀ c ∈ Nat.toDigits 10 n, c.isDigit = true := fun c hc =>
    Nat.isDigit_of_mem_toDigits (by norm_num) (by norm_num) hc
  exact (key _ 0 allDigits).trans Nat.ofDigitChars_ten_toDigits

theorem digitsVal_append_one (l : List Byte) (b : Byte) :
    digitsVal (l ++ [b]) = 10 * digitsVal l + (b.toNat - 48) := by
  simp [digitsVal, List.foldl_append]

theorem digits_length_le_iff {n k : ℕ} (hk : 0 < k) : (digits n).length ≤ k ↔ n < 10 ^ k := by
  rw [digits, List.length_map]
  exact Nat.length_toDigits_le_iff (by norm_num) hk

theorem digitsVal_lt : ∀ {l : List Byte}, (∀ b ∈ l, isDigit b = true) →
    digitsVal l < 10 ^ l.length := by
  intro l
  induction l using List.reverseRecOn with
  | nil => intro _; simp [digitsVal]
  | append_singleton l b ih =>
    intro hl
    have digit : b.toNat ≤ 57 := by
      have := hl b (by simp)
      simp only [isDigit, Bool.and_eq_true, decide_eq_true_eq, UInt8.le_iff_toNat_le] at this
      exact this.2
    have := ih fun c hc => hl c (by simp [hc])
    rw [digitsVal_append_one, List.length_append, List.length_singleton, pow_succ]
    omega

/-- Bytes that are digits are neither blank nor a sign. -/
theorem not_special_of_isDigit {b : Byte} (h : isDigit b = true) :
    b ≠ 0 ∧ b ≠ comma ∧ b ≠ 45 ∧ b ≠ 43 ∧ isSpace b = false := by
  simp only [isDigit, Bool.and_eq_true, decide_eq_true_eq, UInt8.le_iff_toNat_le] at h
  have lower : 48 ≤ b.toNat := h.1
  refine ⟨?_, ?_, ?_, ?_, ?_⟩
  · rintro rfl; simp at lower
  · rintro rfl; simp [comma] at lower
  · rintro rfl; simp at lower
  · rintro rfl; simp at lower
  · simp only [isSpace, Bool.or_eq_false_iff, beq_eq_false_iff_ne, Bool.and_eq_false_iff,
      decide_eq_false_iff_not, UInt8.le_iff_toNat_le]
    refine ⟨?_, Or.inr ?_⟩
    · rintro rfl; simp at lower
    · show ¬ b.toNat ≤ 13
      omega

/-- The first byte of a piece of text, if any, does not continue a number. -/
def EndsNumber (tail : List Byte) : Prop := ∀ b ∈ tail.head?, isDigit b = false

theorem endsNumber_nil : EndsNumber [] := by simp [EndsNumber]

theorem takeWhile_digits {l : List Byte} (hl : ∀ b ∈ l, isDigit b = true) {tail : List Byte}
    (ht : EndsNumber tail) : (l ++ tail).takeWhile isDigit = l := by
  have whole : l.takeWhile isDigit = l := List.takeWhile_eq_self_iff.2 hl
  rw [List.takeWhile_append, if_pos (by rw [whole])]
  cases tail with
  | nil => simp
  | cons b tail => simp [ht b rfl]

/-- Reading an unsigned run of digits. -/
theorem strtol_digits {l : List Byte} (hne : l ≠ []) (hl : ∀ b ∈ l, isDigit b = true)
    {tail : List Byte} (ht : EndsNumber tail) :
    strtol (l ++ tail) = min (digitsVal l : ℤ) (2 ^ 63 - 1) := by
  cases l with
  | nil => exact absurd rfl hne
  | cons b l =>
    obtain ⟨-, -, hminus, hplus, hspace⟩ := not_special_of_isDigit (hl b (by simp))
    have := takeWhile_digits hl ht
    rw [List.cons_append] at this
    simp only [strtol, List.cons_append, List.dropWhile_cons, hspace, Bool.false_eq_true, if_false,
      if_neg hminus, if_neg hplus, strtolDigits, this]

/-- Reading a run of digits behind a minus sign. -/
theorem strtol_minus {l : List Byte} (hl : ∀ b ∈ l, isDigit b = true) {tail : List Byte}
    (ht : EndsNumber tail) :
    strtol (45 :: l ++ tail) = max (-(digitsVal l : ℤ)) (-2 ^ 63) := by
  have hspace : isSpace 45 = false := by decide
  simp only [strtol, List.cons_append, List.dropWhile_cons, hspace, Bool.false_eq_true, if_false,
    if_true, strtolDigits, takeWhile_digits hl ht]

theorem strtol_decimal_append {x : ℤ} (lower : -2 ^ 31 ≤ x) (upper : x < 2 ^ 31)
    {tail : List Byte} (ht : EndsNumber tail) : strtol (decimal x ++ tail) = x := by
  unfold decimal
  split_ifs with negative
  · rw [strtol_minus (fun b hb => digits_isDigit hb) ht, digitsVal_digits]
    omega
  · rw [strtol_digits (digits_ne_nil _) (fun b hb => digits_isDigit hb) ht, digitsVal_digits]
    omega

/-- A printed `int` is read back, whatever non-digit follows it. -/
theorem atoi_decimal_append {x : ℤ} (lower : -2 ^ 31 ≤ x) (upper : x < 2 ^ 31)
    {tail : List Byte} (ht : EndsNumber tail) : atoi (decimal x ++ tail) = x := by
  rw [atoi, strtol_decimal_append lower upper ht, toInt_of_range lower upper]

theorem atoi_decimal {x : ℤ} (lower : -2 ^ 31 ≤ x) (upper : x < 2 ^ 31) : atoi (decimal x) = x := by
  have := atoi_decimal_append lower upper endsNumber_nil
  rwa [List.append_nil] at this

theorem natAbs_lt_of_decimal_length {x : ℤ} {k : ℕ} (hk : 0 < k) (h : (decimal x).length ≤ k) :
    x.natAbs < 10 ^ k := by
  unfold decimal at h
  split_ifs at h
  · rw [List.length_cons] at h
    exact (digits_length_le_iff hk).1 (by omega)
  · exact (digits_length_le_iff hk).1 h

theorem decimal_length {x : ℤ} {k : ℕ} (lower : -(10 : ℤ) ^ k < x) (upper : x < 10 ^ (k + 1))
    (hk : 0 < k) : (decimal x).length ≤ k + 1 := by
  unfold decimal
  split_ifs with negative
  · rw [List.length_cons, Nat.add_le_add_iff_right, digits_length_le_iff hk]
    zify
    rw [abs_of_neg negative]
    linarith
  · rw [digits_length_le_iff (by omega)]
    zify
    rwa [abs_of_nonneg (by omega)]

/-- A digit behind a printed number shifts it. -/
theorem strtol_decimal_digit {x : ℤ} (bound : x.natAbs < 10 ^ 9) :
    strtol (decimal x ++ [49]) = if x < 0 then 10 * x - 1 else 10 * x + 1 := by
  have isDigits : ∀ b ∈ digits x.natAbs ++ [49], isDigit b = true := by
    intro b hb
    rcases List.mem_append.1 hb with hb | hb
    · exact digits_isDigit hb
    · rw [List.mem_singleton.1 hb]
      decide
  have value : digitsVal (digits x.natAbs ++ [49]) = 10 * x.natAbs + 1 := by
    rw [digitsVal_append_one, digitsVal_digits]
    rfl
  unfold decimal
  split_ifs with negative
  · have := strtol_minus isDigits endsNumber_nil
    rw [List.append_nil] at this
    rw [List.cons_append, this, value]
    omega
  · have := strtol_digits (by simp) isDigits endsNumber_nil
    rw [List.append_nil] at this
    rw [this, value]
    omega

/-- Numbers that differ as `int`s differ after a change of sign. -/
theorem dvd_of_toInt_neg {x y : ℤ} (same : toInt (-toInt y) = toInt (-x)) :
    (2 : ℤ) ^ 32 ∣ y - x := by
  have outer : -toInt y ≡ -x [ZMOD 2 ^ 32] := by
    rw [Int.ModEq, ← toInt_emod, same, toInt_emod]
  have inner : toInt y ≡ y [ZMOD 2 ^ 32] := toInt_emod y
  exact (Int.neg_modEq_neg.1 outer).symm.trans inner |>.dvd

/-- A shift of fewer than ten digits is no multiple of the range of an `int`. -/
theorem shift_ne {x k : ℤ} (lower : -1000000000 < x) (upper : x < 1000000000) :
    (if x < 0 then 10 * x - 1 else 10 * x + 1) - x ≠ 2 ^ 32 * k := by
  split_ifs with negative
  · intro h
    have above : -3 < k := by linarith
    have below : k < 0 := by linarith
    interval_cases k <;> omega
  · intro h
    have above : 0 < k := by linarith
    have below : k < 3 := by linarith
    interval_cases k <;> omega

/-- So a short number with a digit behind it is read as another one. -/
theorem atoi_decimal_digit {x : ℤ} (short : (decimal x).length ≤ 9) :
    toInt (-atoi (decimal x ++ [49])) ≠ toInt (-x) := by
  have bound := natAbs_lt_of_decimal_length (by norm_num) short
  have lower : -1000000000 < x := by omega
  have upper : x < 1000000000 := by omega
  rw [atoi]
  intro same
  obtain ⟨k, hk⟩ := dvd_of_toInt_neg same
  rw [strtol_decimal_digit bound] at hk
  exact shift_ne lower upper hk

theorem le_digitsVal_append (l m : List Byte) : digitsVal l ≤ digitsVal (l ++ m) := by
  induction m using List.reverseRecOn with
  | nil => rw [List.append_nil]
  | append_singleton m b ih =>
    rw [← List.append_assoc, digitsVal_append_one]
    omega

/-- A short text that begins with a positive number is read as a positive number. -/
theorem atoi_pos {x : ℤ} (positive : 0 < x) {s : List Byte} (short : (decimal x ++ s).length ≤ 9) :
    0 < atoi (decimal x ++ s) ∧ atoi (decimal x ++ s) < 10 ^ 9 := by
  set l := digits x.natAbs ++ s.takeWhile isDigit with digitsOf
  have isDigits : ∀ b ∈ l, isDigit b = true := by
    intro b hb
    rcases List.mem_append.1 hb with hb | hb
    · exact digits_isDigit hb
    · exact List.mem_takeWhile_imp hb
  have ends : EndsNumber (s.dropWhile isDigit) := by
    intro b hb
    have := List.head?_dropWhile_not isDigit s
    rw [Option.mem_def] at hb
    rw [hb] at this
    simpa using this
  have text : decimal x ++ s = l ++ s.dropWhile isDigit := by
    rw [decimal, if_neg (by omega), digitsOf, List.append_assoc, List.takeWhile_append_dropWhile]
  have lower : x.natAbs ≤ digitsVal l := by
    have := le_digitsVal_append (digits x.natAbs) (s.takeWhile isDigit)
    rwa [digitsVal_digits] at this
  have upper : digitsVal l < 10 ^ 9 := by
    have := digitsVal_lt isDigits
    have length : l.length ≤ 9 := by
      rw [text, List.length_append] at short
      omega
    exact this.trans_le (Nat.pow_le_pow_right (by norm_num) length)
  have value : strtol (decimal x ++ s) = digitsVal l := by
    rw [text, strtol_digits (by simp [digitsOf, digits_ne_nil]) isDigits ends]
    omega
  rw [atoi, value, toInt_of_range (by omega) (by omega)]
  omega

/-! ## Printed numbers as tokens -/

theorem decimal_ne_nil (x : ℤ) : decimal x ≠ [] := by
  unfold decimal
  split_ifs
  · simp
  · exact digits_ne_nil _

theorem decimal_mem {x : ℤ} {b : Byte} (hb : b ∈ decimal x) : isDigit b = true ∨ b = 45 := by
  unfold decimal at hb
  split_ifs at hb
  · rcases List.mem_cons.1 hb with rfl | hb
    · exact Or.inr rfl
    · exact Or.inl (digits_isDigit hb)
  · exact Or.inl (digits_isDigit hb)

theorem snprintf_mem {size : ℕ} {x : ℤ} {b : Byte} (hb : b ∈ snprintf size x) :
    isDigit b = true ∨ b = 45 := decimal_mem (List.mem_of_mem_take hb)

theorem snprintf_ne_nil {size : ℕ} (hs : 2 ≤ size) (x : ℤ) : snprintf size x ≠ [] := by
  rw [snprintf, ne_eq, List.take_eq_nil_iff, not_or]
  exact ⟨by omega, decimal_ne_nil _⟩

/-- Printed numbers contain no separator and no NUL, so they are tokens. -/
theorem isToken_snprintf {size : ℕ} (hs : 2 ≤ size) (x : ℤ) :
    IsToken [comma] (snprintf size x) where
  nonempty := snprintf_ne_nil hs x
  noNul := by
    intro h
    rcases snprintf_mem h with h | h
    · exact (not_special_of_isDigit h).1 rfl
    · exact absurd h (by decide)
  plain := by
    intro b hb hc
    rw [List.mem_singleton] at hc
    subst hc
    rcases snprintf_mem hb with h | h
    · exact (not_special_of_isDigit h).2.1 rfl
    · exact absurd h (by decide)

/-- A number of at most nine characters survives `snprintf(buf, 10, "%d", x)`. -/
theorem snprintf_of_short {x : ℤ} (h : (decimal x).length ≤ 9) : snprintf 10 x = decimal x := by
  have bound := natAbs_lt_of_decimal_length (by norm_num) h
  have same : toInt x = x := toInt_of_range (by omega) (by omega)
  rw [snprintf, same]
  exact List.take_of_length_le (by omega)

/-- … and `atoi` reads it back. -/
theorem atoi_snprintf_of_short {x : ℤ} (h : (decimal x).length ≤ 9) : atoi (snprintf 10 x) = x := by
  have bound := natAbs_lt_of_decimal_length (by norm_num) h
  rw [snprintf_of_short h]
  exact atoi_decimal (by omega) (by omega)

/-- A number that is not negative is read back as one, whole or cut. -/
theorem atoi_snprintf_nonneg {n : ℤ} (lower : 0 ≤ n) (upper : n < 2 ^ 31) :
    0 ≤ atoi (snprintf 10 n) := by
  set l := snprintf 10 n with printed
  have digit : ∀ b ∈ l, isDigit b = true := by
    intro b hb
    rw [printed, snprintf, toInt_of_range (by omega) upper, decimal, if_neg (by omega)] at hb
    exact digits_isDigit (List.mem_of_mem_take hb)
  have value : strtol l = min (digitsVal l : ℤ) (2 ^ 63 - 1) := by
    have := strtol_digits (snprintf_ne_nil (by norm_num) n) digit endsNumber_nil
    rwa [List.append_nil] at this
  have bound : digitsVal l < 10 ^ 9 := by
    have short : l.length ≤ 9 := List.length_take_le 9 _
    exact (digitsVal_lt digit).trans_le (Nat.pow_le_pow_right (by norm_num) short)
  rw [atoi, value, toInt_of_range (by omega) (by omega)]
  omega

theorem decimal_short_iff {x : ℤ} : (decimal x).length ≤ 9 ↔ -10 ^ 8 < x ∧ x < 10 ^ 9 := by
  unfold decimal
  split_ifs with negative
  · rw [List.length_cons, Nat.add_le_add_iff_right, digits_length_le_iff (by norm_num)]
    omega
  · rw [digits_length_le_iff (by norm_num)]
    omega

/-- What is left of a number: its first nine digits, or a sign and its first eight. -/
theorem atoi_snprintf_eq (x : ℤ) :
    (toInt x < 0 ∧ atoi (snprintf 10 x) = -digitsVal ((digits (toInt x).natAbs).take 8)) ∨
      (0 ≤ toInt x ∧ atoi (snprintf 10 x) = digitsVal ((digits (toInt x).natAbs).take 9)) := by
  have digit {n k : ℕ} : ∀ b ∈ (digits n).take k, isDigit b = true := fun b hb =>
    digits_isDigit (List.mem_of_mem_take hb)
  have bound (n k : ℕ) : digitsVal ((digits n).take k) < 10 ^ k :=
    (digitsVal_lt digit).trans_le (Nat.pow_le_pow_right (by norm_num) (List.length_take_le k _))
  set y := toInt x with converted
  by_cases negative : y < 0
  · have text : snprintf 10 x = 45 :: (digits y.natAbs).take 8 ++ [] := by
      rw [snprintf, ← converted, decimal, if_pos negative, List.append_nil]
      rfl
    have := bound y.natAbs 8
    refine .inl ⟨negative, ?_⟩
    rw [atoi, text, strtol_minus digit endsNumber_nil, toInt_of_range (by omega) (by omega)]
    omega
  · have text : snprintf 10 x = (digits y.natAbs).take 9 ++ [] := by
      rw [snprintf, ← converted, decimal, if_neg negative, List.append_nil]
    have nonempty : (digits y.natAbs).take 9 ≠ [] := by
      rw [ne_eq, List.take_eq_nil_iff, not_or]
      exact ⟨by norm_num, digits_ne_nil _⟩
    have := bound y.natAbs 9
    refine .inr ⟨not_lt.1 negative, ?_⟩
    rw [atoi, text, strtol_digits nonempty digit endsNumber_nil,
      toInt_of_range (by omega) (by omega)]
    omega

theorem atoi_snprintf_range (x : ℤ) :
    -10 ^ 8 < atoi (snprintf 10 x) ∧ atoi (snprintf 10 x) < 10 ^ 9 := by
  have bound (n k : ℕ) : digitsVal ((digits n).take k) < 10 ^ k :=
    (digitsVal_lt fun b hb => digits_isDigit (List.mem_of_mem_take hb)).trans_le
      (Nat.pow_le_pow_right (by norm_num) (List.length_take_le k _))
  rcases atoi_snprintf_eq x with ⟨-, value⟩ | ⟨-, value⟩
  · have := bound (toInt x).natAbs 8
    rw [value]
    omega
  · have := bound (toInt x).natAbs 9
    rw [value]
    omega

/-- Cutting digits off divides. -/
theorem digitsVal_take {l : List Byte} (hl : ∀ b ∈ l, isDigit b = true) (k : ℕ) :
    digitsVal (l.take k) = digitsVal l / 10 ^ (l.length - k) := by
  induction l using List.reverseRecOn with
  | nil => simp [digitsVal]
  | append_singleton l b ih =>
    by_cases whole : l.length < k
    · have all : (l ++ [b]).length ≤ k := by
        rw [List.length_append, List.length_singleton]
        exact whole
      rw [List.take_of_length_le all, Nat.sub_eq_zero_of_le all, pow_zero, Nat.div_one]
    · have digit : b.toNat ≤ 57 := by
        have := hl b (by simp)
        simp only [isDigit, Bool.and_eq_true, decide_eq_true_eq, UInt8.le_iff_toNat_le] at this
        exact this.2
      have length : (l ++ [b]).length - k = l.length - k + 1 := by
        rw [List.length_append, List.length_singleton]
        omega
      rw [List.take_append_of_le_length (not_lt.1 whole), ih fun c hc => hl c (by simp [hc]),
        digitsVal_append_one, length, pow_succ', ← Nat.div_div_eq_div_mul]
      congr 1
      omega

/-- The first digits of a positive number are not all zero. -/
theorem digitsVal_take_pos {n k : ℕ} (positive : 0 < n) (some_ : 0 < k) :
    0 < digitsVal ((digits n).take k) := by
  rw [digitsVal_take (fun b hb => digits_isDigit hb), digitsVal_digits]
  apply Nat.div_pos _ (Nat.pow_pos (by norm_num))
  by_cases short : (digits n).length ≤ k
  · rw [Nat.sub_eq_zero_of_le short, pow_zero]
    exact positive
  · have long : ¬ (digits n).length ≤ (digits n).length - k := by omega
    by_contra below
    exact long ((digits_length_le_iff (by omega)).2 (not_le.1 below))

/-- A printed and cut number keeps its sign. -/
theorem atoi_snprintf_sign (x : ℤ) :
    (atoi (snprintf 10 x) < 0 ↔ toInt x < 0) ∧ (atoi (snprintf 10 x) = 0 ↔ toInt x = 0) := by
  rcases atoi_snprintf_eq x with ⟨negative, value⟩ | ⟨nonneg, value⟩
  · have := digitsVal_take_pos (n := (toInt x).natAbs) (k := 8) (by omega) (by norm_num)
    omega
  · by_cases zero : toInt x = 0
    · have none_ : digitsVal ((digits 0).take 9) = 0 := by decide
      rw [zero, Int.natAbs_zero, none_] at value
      omega
    · have := digitsVal_take_pos (n := (toInt x).natAbs) (k := 9) (by omega) (by norm_num)
      omega

/-- Exactly the numbers of nine characters survive. -/
theorem atoi_snprintf_iff {x : ℤ} : atoi (snprintf 10 x) = x ↔ -10 ^ 8 < x ∧ x < 10 ^ 9 := by
  constructor
  · intro same
    rw [← same]
    exact atoi_snprintf_range x
  · intro range
    exact atoi_snprintf_of_short (decimal_short_iff.2 range)

end DistFs.CText
