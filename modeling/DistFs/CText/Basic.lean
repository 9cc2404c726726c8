import Mathlib

/-!
# C strings and `strtok`

Bytes in memory, the string a pointer denotes, and the tokeniser.  A piece of memory is a list of
bytes; what lies behind the list reads as zero, which is how the receive buffers are prepared.
`strtok` returns the token together with the memory it leaves in front of and behind it, so that
a later reader of the same buffer can be modelled too.
-/

namespace DistFs.CText

/-! ## Calls that may not return -/

/-- Why a function does not return: a null pointer is dereferenced, a string is written past the
end of its buffer, or a missing argument or return value is used. -/
inductive Fault where
  | null
  | overflow
  | undefined
deriving DecidableEq, Repr

theorem bind_eq_ok {ε α β : Type*} {x : Except ε α} {f : α → Except ε β} {b : β} :
    x.bind f = .ok b ↔ ∃ a, x = .ok a ∧ f a = .ok b := by
  cases x <;> simp [Except.bind]

theorem map_eq_ok {ε α β : Type*} {x : Except ε α} {f : α → β} {b : β} :
    x.map f = .ok b ↔ ∃ a, x = .ok a ∧ f a = b := by
  cases x <;> simp [Except.map]

theorem ok_of_toBool {ε α : Type*} {x : Except ε α} (h : x.toBool = true) : ∃ a, x = .ok a := by
  cases x with
  | error e => cases h
  | ok a => exact ⟨a, rfl⟩

/-! ## Memory -/

/-- A byte of memory. -/
abbrev Byte := UInt8

/-- The bytes of a string literal, without its terminator. -/
def str (s : String) : List Byte := s.toList.map Char.toUInt8

/-- The separator of the text protocol. -/
def comma : Byte := 44

/-- The string at a pointer: the bytes before the first NUL. -/
def cstr (m : List Byte) : List Byte := m.takeWhile (· != 0)

/-- Bytes that can be a C string. -/
def NoNul (s : List Byte) : Prop := 0 ∉ s

instance (s : List Byte) : Decidable (NoNul s) := inferInstanceAs (Decidable (0 ∉ s))

@[simp] theorem cstr_nil : cstr [] = [] := rfl

theorem cstr_noNul (m : List Byte) : NoNul (cstr m) := by
  intro h
  simpa using List.mem_takeWhile_imp h

theorem cstr_of_noNul {s : List Byte} (h : NoNul s) : cstr s = s := by
  rw [cstr, List.takeWhile_eq_self_iff]
  intro b hb
  simp only [bne_iff_ne, ne_eq]
  rintro rfl
  exact h hb

theorem cstr_terminated {s : List Byte} (h : NoNul s) (m : List Byte) : cstr (s ++ 0 :: m) = s := by
  have hs : s.takeWhile (· != 0) = s := cstr_of_noNul h
  rw [cstr, List.takeWhile_append, if_pos (by rw [hs])]
  simp

theorem cstr_append {s : List Byte} (h : NoNul s) (m : List Byte) :
    cstr (s ++ m) = s ++ cstr m := by
  have whole : s.takeWhile (· != 0) = s := cstr_of_noNul h
  rw [cstr, List.takeWhile_append, if_pos (by rw [whole])]
  rfl

/-- A pointer into a string denotes the rest of it. -/
theorem cstr_drop (m : List Byte) {k : ℕ} (hk : k ≤ (cstr m).length) :
    cstr (m.drop k) = (cstr m).drop k := by
  induction k generalizing m with
  | zero => rfl
  | succ k ih =>
    cases m with
    | nil => rfl
    | cons b m =>
      by_cases hb : b = 0
      · simp [cstr, hb] at hk
      · simp only [cstr, List.takeWhile_cons, bne_iff_ne, ne_eq, hb, not_false_eq_true, if_true,
          List.length_cons, Nat.add_le_add_iff_right, List.drop_succ_cons] at hk ⊢
        exact ih m hk

theorem NoNul.append {s t : List Byte} (hs : NoNul s) (ht : NoNul t) : NoNul (s ++ t) := by
  simp only [NoNul, List.mem_append, not_or]
  exact ⟨hs, ht⟩

theorem noNul_append {s t : List Byte} : NoNul (s ++ t) ↔ NoNul s ∧ NoNul t := by
  simp [NoNul, not_or]

theorem noNul_cons {b : Byte} {s : List Byte} : NoNul (b :: s) ↔ b ≠ 0 ∧ NoNul s := by
  simp only [NoNul, List.mem_cons, not_or, ne_eq, eq_comm]

theorem noNul_nil : NoNul [] := List.not_mem_nil

/-- A C string: bytes without the terminator. -/
@[ext] structure CString where
  bytes : List Byte
  noNul : NoNul bytes
deriving DecidableEq

namespace CString

/-- The string at a pointer into memory `m`. -/
def ofBytes (m : List Byte) : CString := ⟨cstr m, cstr_noNul m⟩

/-- A string literal of the source. -/
def lit (s : String) : CString := ofBytes (str s)

/-- `strcat`. -/
instance : Append CString := ⟨fun s t => ⟨s.bytes ++ t.bytes, s.noNul.append t.noNul⟩⟩

@[simp] theorem bytes_append (s t : CString) : (s ++ t).bytes = s.bytes ++ t.bytes := rfl

@[simp] theorem bytes_ofBytes (m : List Byte) : (ofBytes m).bytes = cstr m := rfl

theorem ofBytes_bytes (s : CString) : ofBytes s.bytes = s :=
  CString.ext (cstr_of_noNul s.noNul)

end CString

/-! ## Tokens -/

/-- What one call of `strtok` yields: the delimiters it skipped, the token, the NUL it wrote over
the delimiter behind the token (nothing at the end of the string), and the memory from the saved
pointer on. -/
@[ext] structure Token where
  skipped : List Byte
  token : List Byte
  mark : List Byte
  rest : List Byte
deriving DecidableEq, Repr

/-- The bytes the call has passed over, as it leaves them. -/
def Token.front (t : Token) : List Byte := t.skipped ++ t.token ++ t.mark

/-- The memory seen through the returned pointer. -/
def Token.view (t : Token) : List Byte := t.token ++ t.mark ++ t.rest

/-- The token that starts at `m`, read up to a delimiter or the end of the string.  A delimiter is
overwritten by a NUL and passed over. -/
def scanToken (delims : List Byte) : List Byte → Token
  | [] => ⟨[], [], [], []⟩
  | b :: m =>
      if b = 0 then ⟨[], [], [], b :: m⟩
      else if b ∈ delims then ⟨[], [], [0], m⟩
      else
        let t := scanToken delims m
        { t with token := b :: t.token }

/-- `strtok(m, delims)`, and `strtok(NULL, delims)` when `m` is the memory at the saved pointer. -/
def strtok (delims : List Byte) : List Byte → Option Token
  | [] => none
  | b :: m =>
      if b = 0 then none
      else if b ∈ delims then (strtok delims m).map fun t => { t with skipped := b :: t.skipped }
      else some (scanToken delims (b :: m))

/-- The next call `strtok(NULL, delims)`: the token, or null, and the memory at the saved pointer
afterwards. -/
def nextToken (delims m : List Byte) : Option (List Byte) × List Byte :=
  match strtok delims m with
  | none => (none, m)
  | some t => (some t.token, t.rest)

/-- The first element with a property, in its place. -/
theorem modify_findIdx {α : Type*} {p : α → Bool} {before after : List α} {a : α}
    (other : ∀ b ∈ before, p b = false) (here : p a = true) (g : α → α) :
    (before ++ a :: after).modify ((before ++ a :: after).findIdx p) g = before ++ g a :: after := by
  induction before with
  | nil => simp [List.findIdx_cons, here]
  | cons b before ih =>
    have rest := ih fun c mem => other c (List.mem_cons_of_mem b mem)
    simp only [List.cons_append, List.findIdx_cons, other b List.mem_cons_self, cond_false,
      List.modify_succ_cons, rest]

/-- A list with a byte that has a property, split at the first one. -/
theorem exists_first (P : Byte → Bool) {l : List Byte} (h : ∃ c ∈ l, P c = true) :
    ∃ p c q, l = p ++ c :: q ∧ P c = true ∧ ∀ d ∈ p, P d = false := by
  induction l with
  | nil => simp at h
  | cons b l ih =>
    cases hb : P b with
    | true => exact ⟨[], b, l, rfl, hb, by simp⟩
    | false =>
      have rest : ∃ c ∈ l, P c = true := by
        obtain ⟨c, hc, hP⟩ := h
        rcases List.mem_cons.1 hc with rfl | hc
        · rw [hb] at hP
          cases hP
        · exact ⟨c, hc, hP⟩
      obtain ⟨p, c, q, rfl, hc, hp⟩ := ih rest
      exact ⟨b :: p, c, q, rfl, hc, by simpa [hb] using hp⟩

/-- What stands in front of the first separator is determined by the whole. -/
theorem split_first {c : Byte} {a b x y : List Byte} (ha : c ∉ a) (hb : c ∉ b)
    (h : a ++ c :: x = b ++ c :: y) : a = b ∧ x = y := by
  induction a generalizing b with
  | nil =>
    cases b with
    | nil => exact ⟨rfl, by simpa using h⟩
    | cons d b =>
      rw [List.nil_append, List.cons_append] at h
      exact absurd (by simp [(List.cons.inj h).1] : c ∈ d :: b) hb
  | cons d a ih =>
    cases b with
    | nil =>
      rw [List.nil_append, List.cons_append] at h
      exact absurd (by simp [(List.cons.inj h).1] : c ∈ d :: a) ha
    | cons e b =>
      rw [List.cons_append, List.cons_append] at h
      obtain ⟨rfl, tails⟩ := List.cons.inj h
      obtain ⟨rfl, rest⟩ := ih (fun hc => ha (List.mem_cons_of_mem d hc))
        (fun hc => hb (List.mem_cons_of_mem d hc)) tails
      exact ⟨rfl, rest⟩

/-- A non-empty run of bytes that `strtok` returns as it stands. -/
structure IsToken (delims t : List Byte) : Prop where
  nonempty : t ≠ []
  noNul : NoNul t
  plain : ∀ b ∈ t, b ∉ delims

section Tokens

variable {delims t m : List Byte} {d : Byte}

theorem scanToken_delimited (h0 : NoNul t) (ht : ∀ b ∈ t, b ∉ delims) (hd : d ∈ delims)
    (hd0 : d ≠ 0) (m : List Byte) : scanToken delims (t ++ d :: m) = ⟨[], t, [0], m⟩ := by
  induction t with
  | nil => simp [scanToken, hd, hd0]
  | cons b t ih =>
    rw [noNul_cons] at h0
    have := ih h0.2 fun c hc => ht c (by simp [hc])
    simp [scanToken, h0.1, ht b (by simp), this]

theorem scanToken_last (h0 : NoNul t) (ht : ∀ b ∈ t, b ∉ delims) :
    scanToken delims t = ⟨[], t, [], []⟩ := by
  induction t with
  | nil => rfl
  | cons b t ih =>
    rw [noNul_cons] at h0
    have := ih h0.2 fun c hc => ht c (by simp [hc])
    simp [scanToken, h0.1, ht b (by simp), this]

/-- A non-delimiter, non-NUL byte starts a token. -/
theorem strtok_start {b : Byte} (h0 : b ≠ 0) (hb : b ∉ delims) (m : List Byte) :
    strtok delims (b :: m) = some (scanToken delims (b :: m)) := by
  simp [strtok, h0, hb]

theorem IsToken.strtok_append (h : IsToken delims t) (m : List Byte) :
    strtok delims (t ++ m) = some (scanToken delims (t ++ m)) := by
  cases t with
  | nil => exact absurd rfl h.nonempty
  | cons b t => exact strtok_start (noNul_cons.1 h.noNul).1 (h.plain b (by simp)) (t ++ m)

/-- A token followed by a delimiter: the delimiter becomes a NUL and is passed over. -/
theorem strtok_delimited (h : IsToken delims t) (hd : d ∈ delims) (hd0 : d ≠ 0) (m : List Byte) :
    strtok delims (t ++ d :: m) = some ⟨[], t, [0], m⟩ := by
  rw [h.strtok_append, scanToken_delimited h.noNul h.plain hd hd0]

/-- A token at the end of the string. -/
theorem strtok_last (h : IsToken delims t) : strtok delims t = some ⟨[], t, [], []⟩ := by
  have := h.strtok_append []
  rw [List.append_nil] at this
  rw [this, scanToken_last h.noNul h.plain]

/-- Delimiters in front of a token are skipped. -/
theorem strtok_skip (hd : d ∈ delims) (hd0 : d ≠ 0) (m : List Byte) :
    strtok delims (d :: m) = (strtok delims m).map fun t => { t with skipped := d :: t.skipped } := by
  simp [strtok, hd, hd0]

@[simp] theorem strtok_nil : strtok delims [] = none := rfl

@[simp] theorem strtok_nul (m : List Byte) : strtok delims (0 :: m) = none := by simp [strtok]

/-- A call changes no bytes but the delimiter it marks. -/
theorem scanToken_length : ∀ m : List Byte,
    ((scanToken delims m).front ++ (scanToken delims m).rest).length = m.length := by
  intro m
  induction m with
  | nil => rfl
  | cons b m ih =>
    simp only [Token.front, List.length_append] at ih
    rw [scanToken]
    split_ifs
    · rfl
    · simp [Token.front]
    · simp only [Token.front, List.length_append, List.length_cons]
      omega

theorem scanToken_skipped : ∀ m : List Byte, (scanToken delims m).skipped = [] := by
  intro m
  induction m with
  | nil => rfl
  | cons b m ih =>
    rw [scanToken]
    split_ifs
    · rfl
    · rfl
    · exact ih

theorem strtok_length {t : Token} (h : strtok delims m = some t) :
    (t.front ++ t.rest).length = m.length := by
  induction m generalizing t with
  | nil => cases h
  | cons b m ih =>
    rw [strtok] at h
    split_ifs at h
    · obtain ⟨u, found, rfl⟩ := Option.map_eq_some_iff.1 h
      have := ih found
      simp only [Token.front, List.length_append, List.length_cons] at this ⊢
      omega
    · cases h
      exact scanToken_length (b :: m)

theorem scanToken_rest_suffix : ∀ m : List Byte, (scanToken delims m).rest <:+ m := by
  intro m
  induction m with
  | nil => exact List.suffix_rfl
  | cons b m ih =>
    rw [scanToken]
    split_ifs
    · exact List.suffix_rfl
    · exact List.suffix_cons b m
    · exact ih.trans (List.suffix_cons b m)

/-- The memory at the saved pointer ends the string. -/
theorem strtok_rest_suffix {t : Token} (h : strtok delims m = some t) : t.rest <:+ m := by
  induction m generalizing t with
  | nil => cases h
  | cons b m ih =>
    rw [strtok] at h
    split_ifs at h
    · obtain ⟨u, found, rfl⟩ := Option.map_eq_some_iff.1 h
      exact (ih found).trans (List.suffix_cons b m)
    · cases h
      exact scanToken_rest_suffix (b :: m)

/-- Text behind a token that a delimiter ends does not change the token. -/
theorem scanToken_append_marked (s : List Byte) (marked : (scanToken delims m).mark ≠ []) :
    scanToken delims (m ++ s) =
      ⟨[], (scanToken delims m).token, (scanToken delims m).mark,
        (scanToken delims m).rest ++ s⟩ := by
  induction m with
  | nil => simp [scanToken] at marked
  | cons b m ih =>
    rw [List.cons_append, scanToken, scanToken] at *
    split_ifs at marked ⊢ with nul delim
    · simp at marked
    · rfl
    · rw [ih marked]

/-- Text behind a token that the string ends is joined to it. -/
theorem scanToken_append_open (h0 : NoNul m) (s : List Byte)
    (unmarked : (scanToken delims m).mark = []) :
    scanToken delims (m ++ s) =
      ⟨[], (scanToken delims m).token ++ (scanToken delims s).token, (scanToken delims s).mark,
        (scanToken delims s).rest⟩ := by
  induction m with
  | nil =>
    rw [List.nil_append]
    exact Token.ext (scanToken_skipped s) rfl rfl rfl
  | cons b m ih =>
    rw [noNul_cons] at h0
    rw [List.cons_append, scanToken, scanToken] at *
    split_ifs at unmarked ⊢ with nul delim
    · exact absurd nul h0.1
    · rw [ih h0.2 unmarked]
      rfl

theorem strtok_append_marked {t : Token} (h : strtok delims m = some t) (marked : t.mark ≠ [])
    (s : List Byte) : strtok delims (m ++ s) = some { t with rest := t.rest ++ s } := by
  induction m generalizing t with
  | nil => cases h
  | cons b m ih =>
    rw [strtok] at h
    split_ifs at h with nul delim
    · obtain ⟨u, found, rfl⟩ := Option.map_eq_some_iff.1 h
      rw [List.cons_append, strtok_skip delim nul, ih found marked]
      rfl
    · cases h
      rw [List.cons_append, strtok_start nul delim, ← List.cons_append,
        scanToken_append_marked s marked]
      exact congrArg some (Token.ext (scanToken_skipped _).symm rfl rfl rfl)

theorem strtok_append_open {t : Token} (h : strtok delims m = some t) (h0 : NoNul m)
    (unmarked : t.mark = []) (s : List Byte) :
    strtok delims (m ++ s) =
      some ⟨t.skipped, t.token ++ (scanToken delims s).token, (scanToken delims s).mark,
        (scanToken delims s).rest⟩ := by
  induction m generalizing t with
  | nil => cases h
  | cons b m ih =>
    rw [strtok] at h
    split_ifs at h with nul delim
    · obtain ⟨u, found, rfl⟩ := Option.map_eq_some_iff.1 h
      rw [List.cons_append, strtok_skip delim nul, ih found (noNul_cons.1 h0).2 unmarked]
      rfl
    · cases h
      rw [List.cons_append, strtok_start nul delim, ← List.cons_append,
        scanToken_append_open h0 s unmarked, scanToken_skipped]

/-- A string without a token is passed over. -/
theorem strtok_append_none (h : strtok delims m = none) (h0 : NoNul m) (s : List Byte) :
    strtok delims (m ++ s) = (strtok delims s).map fun t => { t with skipped := m ++ t.skipped } := by
  induction m with
  | nil => simp
  | cons b m ih =>
    rw [noNul_cons] at h0
    rw [strtok, if_neg h0.1] at h
    split_ifs at h with delim
    · rw [Option.map_eq_none_iff] at h
      rw [List.cons_append, strtok_skip delim h0.1, ih h h0.2, Option.map_map]
      rfl

/-- What the returned pointer points at is no delimiter. -/
theorem strtok_view_head {t : Token} (h : strtok delims m = some t) :
    ∃ c v, t.view = c :: v ∧ c ∉ delims := by
  induction m generalizing t with
  | nil => cases h
  | cons b m ih =>
    rw [strtok] at h
    split_ifs at h with nul delim
    · obtain ⟨u, found, rfl⟩ := Option.map_eq_some_iff.1 h
      have head := ih found
      exact head
    · cases h
      rw [scanToken, if_neg nul, if_neg delim]
      exact ⟨b, _, rfl, delim⟩

/-- Only delimiters: there is no token. -/
theorem strtok_eq_none_iff (h0 : NoNul m) : strtok delims m = none ↔ ∀ b ∈ m, b ∈ delims := by
  induction m with
  | nil => simp
  | cons b m ih =>
    rw [noNul_cons] at h0
    rw [strtok, if_neg h0.1]
    split_ifs with delim
    · simp [ih h0.2, delim]
    · simp [delim]

theorem nextToken_delimited (h : IsToken delims t) (hd : d ∈ delims) (hd0 : d ≠ 0)
    (m : List Byte) : nextToken delims (t ++ d :: m) = (some t, m) := by
  simp [nextToken, strtok_delimited h hd hd0]

theorem nextToken_last (h : IsToken delims t) : nextToken delims t = (some t, []) := by
  simp [nextToken, strtok_last h]

@[simp] theorem nextToken_nil : nextToken delims [] = (none, []) := rfl

end Tokens

end DistFs.CText
