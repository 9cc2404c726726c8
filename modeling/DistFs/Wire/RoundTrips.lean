import DistFs.Wire.Errors

/-!
# What a caller reads back

The attributes of a file and the entries of a directory, from the data node to the caller.  The
attributes arrive if their numbers have at most nine digits.  The entries are sent with the type in
front of the number and read with the number in front of the type, so they arrive if the two agree.
-/

namespace DistFs.Wire

open CText

/-! ## Attributes -/

section Attributes

variable {st : Stat} {filler : List Filled → Bool} {buf : List Byte}

/-- The client gets the attributes as the data node has them. -/
def StatArrives (st : Stat) (errno : ℤ) (filler : List Filled → Bool) (buf : List Byte) : Prop :=
  ∃ left, Operation.afterReply .getattr filler buf (sendresponse_getattr (some st) errno) =
    .ok ⟨0, .stat st, left⟩

/-- Each field goes through its own `snprintf` and `atoi`, in the same place on both sides. -/
theorem getattrResult_some (st : Stat) (errno : ℤ) :
    ∃ left, getattrResult (sendresponse_getattr (some st) errno) =
      .ok ⟨0, .stat (.ofFields (st.fields.map fun x => atoi (snprintf 10 x))), left⟩ := by
  have zero : atoi (snprintf 10 0) = 0 := atoi_snprintf_of_short (by decide)
  obtain ⟨front, read⟩ := atois_fields st.st_mode st.fields.tail
  have text : (st.fields.flatMap fun x => comma :: snprintf 10 x) =
      comma :: (snprintf 10 st.st_mode ++ st.fields.tail.flatMap fun x => comma :: snprintf 10 x) :=
    rfl
  have count : st.fields.tail.length + 1 = 13 := rfl
  rw [count] at read
  unfold getattrResult sendresponse_getattr
  dsimp only
  rw [text, status_fields (isToken_number 0) (isToken_number errno)]
  simp only [zero]
  show ∃ left, (atois 13 _).bind _ = _
  rw [read]
  exact ⟨_, rfl⟩

theorem ofFields_eq_iff (f : ℤ → ℤ) :
    Stat.ofFields (st.fields.map f) = st ↔ ∀ x ∈ st.fields, f x = x := by
  simp only [Stat.fields, List.map_cons, List.map_nil, Stat.ofFields, List.forall_mem_cons,
    List.not_mem_nil, false_imp_iff, implies_true, and_true]
  rw [Stat.mk.injEq]

theorem statArrives_iff_fields (errno : ℤ) :
    StatArrives st errno filler buf ↔ ∀ x ∈ st.fields, atoi (snprintf 10 x) = x := by
  obtain ⟨left, returned⟩ := getattrResult_some st errno
  have own : Operation.getattr ≠ .statfs := by decide
  rw [← ofFields_eq_iff]
  unfold StatArrives
  rw [afterReply_of_fits own (sendresponse_getattr_length _ _)]
  show (∃ left, getattrResult _ = _) ↔ _
  rw [returned]
  simp

/-- The attributes arrive if and only if no field has ten digits. -/
theorem statArrives_iff (errno : ℤ) (fits : ∀ x ∈ st.fields, 0 ≤ x ∧ x < 2 ^ 31) :
    StatArrives st errno filler buf ↔ ∀ x ∈ st.fields, x < 10 ^ 9 := by
  rw [statArrives_iff_fields]
  refine forall₂_congr fun x hx => ?_
  have := fits x hx
  rw [atoi_snprintf_iff]
  omega

/-- A regular file, last changed at `mtime`. -/
def changedAt (mtime : ℤ) : Stat := ⟨33188, 12, 2049, 0, 1, 1000, 1000, 5, 0, mtime, 0, 4096, 8⟩

theorem statArrives_iff_early :
    StatArrives (changedAt 999999999) 0 (fun _ => false) [] :=
  (statArrives_iff 0 (by decide)).2 (by decide)

/-- A time of ten digits loses the last one. -/
theorem mtime_cut : (∀ x ∈ (changedAt 1300000001).fields, 0 ≤ x ∧ x < 2 ^ 31) ∧
    atoi (snprintf 10 1300000001) = 130000000 ∧
      ¬ StatArrives (changedAt 1300000001) 0 (fun _ => false) [] := by
  have cut : atoi (snprintf 10 1300000001) = 130000000 := by decide
  refine ⟨by decide, cut, fun arrives => ?_⟩
  have same := (statArrives_iff_fields 0).1 arrives 1300000001 (by decide)
  rw [cut] at same
  cases same

end Attributes

/-! ## Directories -/

section Directories

variable {entries : List Dirent} {filler : List Filled → Bool} {buf reply : List Byte}
  {calls : List Filled} {errno : ℤ}

/-- A directory entry that the buffers on the way can hold. -/
structure Dirent.Ordinary (de : Dirent) : Prop where
  plain : comma ∉ de.d_name.bytes
  short : de.d_name.bytes.length < 100
  type : 0 ≤ de.d_type ∧ de.d_type < 256
  ino : 0 ≤ de.d_ino ∧ de.d_ino < 10 ^ 9

/-- The call of `filler` that an entry deserves. -/
def Dirent.filled (de : Dirent) : Filled := ⟨de.d_name.bytes, de.d_ino, de.d_type * 2 ^ 12⟩

/-- The call that the client makes: it takes the second field for the number and the third for the
type. -/
def Dirent.misread (de : Dirent) : Filled :=
  ⟨de.d_name.bytes, de.d_type, toInt (de.d_ino * 2 ^ 12)⟩

/-- Calls of `filler` in their order, up to the first that it refuses. -/
def accepted (filler : List Filled → Bool) : List Filled → List Filled → List Filled
  | calls, [] => calls
  | calls, c :: rest =>
      if filler (calls ++ [c]) then calls ++ [c] else accepted filler (calls ++ [c]) rest

/-- The client makes one call for each entry, in order, as far as `filler` accepts. -/
def EntriesArrive (entries : List Dirent) (buf reply : List Byte) : Prop :=
  ∀ filler, ∃ left, Operation.afterReply .readdir filler buf reply =
    .ok ⟨0, .entries (accepted filler [] (entries.map Dirent.filled)), left⟩

/-- The text of the entries, as `sendresponse_readdir` prints them. -/
def listing (entries : List Dirent) : List Byte :=
  entries.flatMap fun de => de.d_name.bytes ++ comma :: (snprintf 10 de.d_type ++
    comma :: (snprintf 10 de.d_ino ++ [comma]))

theorem accepted_all (calls rest : List Filled) :
    accepted (fun _ => false) calls rest = calls ++ rest := by
  induction rest generalizing calls with
  | nil => rw [accepted, List.append_nil]
  | cons c rest ih =>
    rw [accepted, if_neg (by decide), ih, List.append_assoc]
    rfl

theorem Dirent.Ordinary.token {de : Dirent} (ordinary : de.Ordinary)
    (nonempty : de.d_name.bytes ≠ []) : IsToken [comma] de.d_name.bytes where
  nonempty := nonempty
  noNul := de.d_name.noNul
  plain _ hb hc := ordinary.plain (List.mem_singleton.1 hc ▸ hb)

/-- The loop makes the misread calls. -/
theorem readdirLoop_listing (filler : List Filled → Bool) (calls : List Filled)
    (ordinary : ∀ de ∈ entries, de.Ordinary)
    (nonempty : ∀ de ∈ entries, de.d_name.bytes ≠ []) {n : ℕ} (fuel : entries.length ≤ n)
    (front : List Byte) : ∃ left, readdirLoop filler n calls front (listing entries) =
      .ok (accepted filler calls (entries.map Dirent.misread), left) := by
  induction entries generalizing n calls front with
  | nil =>
    have done : strtok [comma] (listing []) = none := strtok_nil
    cases n with
    | zero => exact ⟨_, rfl⟩
    | succ n =>
      unfold readdirLoop
      rw [done]
      exact ⟨_, rfl⟩
  | cons de entries ih =>
    obtain ⟨n, rfl⟩ := Nat.exists_eq_succ_of_ne_zero (by simp at fuel; omega : n ≠ 0)
    have here := ordinary de List.mem_cons_self
    have token := here.token (nonempty de List.mem_cons_self)
    have text : listing (de :: entries) = de.d_name.bytes ++ comma :: (snprintf 10 de.d_type ++
        comma :: (snprintf 10 de.d_ino ++ comma :: listing entries)) := by
      simp [listing]
    have type : atoi (snprintf 10 de.d_type) = de.d_type := by
      have := here.type
      rw [atoi_snprintf_iff]
      omega
    have ino : atoi (snprintf 10 de.d_ino) = de.d_ino := by
      have := here.ino
      rw [atoi_snprintf_iff]
      omega
    unfold readdirLoop
    rw [text, strtok_comma token]
    simp only [not_le.2 here.short, if_false, strtok_comma (isToken_number _), type, ino]
    rw [List.map_cons, accepted]
    change ∃ left, (if filler (calls ++ [de.misread]) then _ else _) = _
    split_ifs with refused
    · exact ⟨_, rfl⟩
    · exact ih _ (fun d hd => ordinary d (List.mem_cons_of_mem _ hd))
        (fun d hd => nonempty d (List.mem_cons_of_mem _ hd)) (by simpa using fuel) _

/-- Every call has a name. -/
theorem readdirLoop_names {n : ℕ} {front m : List Byte} {p : List Filled × List Byte}
    (named : ∀ c ∈ calls, c.name ≠ []) (noNul : NoNul m)
    (looped : readdirLoop filler n calls front m = .ok p) : ∀ c ∈ p.1, c.name ≠ [] := by
  induction n generalizing calls front m with
  | zero =>
    obtain rfl := Except.ok.inj looped
    exact named
  | succ n ih =>
    unfold readdirLoop at looped
    cases first : strtok [comma] m with
    | none =>
      rw [first] at looped
      obtain rfl := Except.ok.inj looped
      exact named
    | some name =>
      rw [first] at looped
      obtain ⟨parts, noNul₁⟩ := pieces_of_some noNul first
      have token : name.token ≠ [] := by
        have member : name.token ∈ pieces comma m := by
          rw [parts]
          exact List.mem_cons_self
        exact of_decide_eq_true (List.mem_filter.1 member).2
      dsimp only at looped
      split_ifs at looped with long
      cases second : strtok [comma] name.rest with
      | none =>
        rw [second] at looped
        cases looped
      | some ino =>
        rw [second] at looped
        obtain ⟨-, noNul₂⟩ := pieces_of_some noNul₁ second
        dsimp only at looped
        cases third : strtok [comma] ino.rest with
        | none =>
          rw [third] at looped
          cases looped
        | some mode =>
          rw [third] at looped
          obtain ⟨-, noNul₃⟩ := pieces_of_some noNul₂ third
          have named' : ∀ c ∈ calls ++
              [⟨name.token, atoi ino.token, toInt (atoi mode.token * 2 ^ 12)⟩], c.name ≠ [] := by
            intro c hc
            rcases List.mem_append.1 hc with hc | hc
            · exact named c hc
            · rw [List.mem_singleton.1 hc]
              exact token
          dsimp only at looped
          split_ifs at looped
          · obtain rfl := Except.ok.inj looped
            exact named'
          · exact ih named' noNul₃ looped

/-- The client skips the error number and takes the rest apart. -/
theorem readdir_afterReply (buf : List Byte)
    (sent : sendresponse_readdir (some entries) errno = .ok reply) :
    ∃ front, ∀ filler, Operation.afterReply .readdir filler buf reply =
      (readdirLoop filler (listing entries).length [] front (listing entries)).map fun p =>
        ⟨0, .entries p.1, p.2⟩ := by
  have own : Operation.readdir ≠ .statfs := by decide
  unfold sendresponse_readdir at sent
  dsimp only at sent
  split_ifs at sent with fits
  obtain rfl := Except.ok.inj sent
  refine ⟨Token.front ⟨[], snprintf 10 errno, [0], listing entries⟩, fun filler => ?_⟩
  rw [afterReply_of_fits own fits]
  show readdirResult filler (snprintf 10 errno ++ comma :: listing entries) = _
  unfold readdirResult
  rw [strtok_comma (isToken_number errno)]
  rfl

theorem length_le_listing (entries : List Dirent) : entries.length ≤ (listing entries).length := by
  induction entries with
  | nil => exact le_rfl
  | cons de entries ih =>
    rw [listing, List.flatMap_cons, List.length_append, List.length_append, List.length_cons,
      List.length_cons]
    have : (entries.flatMap fun de => de.d_name.bytes ++ comma :: (snprintf 10 de.d_type ++
        comma :: (snprintf 10 de.d_ino ++ [comma]))) = listing entries := rfl
    rw [this]
    omega

/-- An entry is read back unchanged if and only if its type and its number are the same. -/
theorem Dirent.misread_eq_iff {de : Dirent} (ordinary : de.Ordinary) :
    de.misread = de.filled ↔ de.d_type = de.d_ino := by
  have type := ordinary.type
  unfold Dirent.misread Dirent.filled
  rw [Filled.mk.injEq]
  constructor
  · exact fun same => same.2.1
  · intro same
    refine ⟨rfl, same, ?_⟩
    rw [← same]
    apply toInt_of_range <;> omega

/-- A directory arrives if and only if each of its entries has a name, and a type that equals its
number. -/
theorem entriesArrive_iff (ordinary : ∀ de ∈ entries, de.Ordinary)
    (sent : sendresponse_readdir (some entries) errno = .ok reply) :
    EntriesArrive entries buf reply ↔
      ∀ de ∈ entries, de.d_name.bytes ≠ [] ∧ de.d_type = de.d_ino := by
  obtain ⟨front, read⟩ := readdir_afterReply buf sent
  have looped (nonempty : ∀ de ∈ entries, de.d_name.bytes ≠ []) (filler : List Filled → Bool) :=
    readdirLoop_listing filler [] ordinary nonempty (length_le_listing entries) front
  constructor
  · intro arrive
    obtain ⟨left, returned⟩ := arrive fun _ => false
    rw [read, accepted_all, List.nil_append] at returned
    obtain ⟨⟨made, rest⟩, all, made_eq⟩ := map_eq_ok.1 returned
    obtain rfl : made = entries.map Dirent.filled := by
      simp only [Returned.mk.injEq, Output.entries.injEq] at made_eq
      exact made_eq.2.1
    have nonempty : ∀ de ∈ entries, de.d_name.bytes ≠ [] := by
      intro de hde
      exact readdirLoop_names (fun c hc => absurd hc List.not_mem_nil) (pieces_listing entries).1 all
        de.filled (List.mem_map_of_mem hde)
    obtain ⟨left', all'⟩ := looped nonempty fun _ => false
    rw [all, accepted_all, List.nil_append] at all'
    have same : entries.map Dirent.filled = entries.map Dirent.misread :=
      (Prod.mk.inj (Except.ok.inj all')).1
    intro de hde
    have here : de.filled = de.misread := List.map_inj_left.1 same de hde
    exact ⟨nonempty de hde, (Dirent.misread_eq_iff (ordinary de hde)).1 here.symm⟩
  · intro agree filler
    obtain ⟨left, all⟩ := looped (fun de hde => (agree de hde).1) filler
    have same : entries.map Dirent.misread = entries.map Dirent.filled :=
      List.map_congr_left fun de hde =>
        (Dirent.misread_eq_iff (ordinary de hde)).2 (agree de hde).2
    refine ⟨left, ?_⟩
    rw [read, all, same]
    rfl

/-- A directory with one entry, called `a`. -/
def oneEntry (d_type d_ino : ℤ) : List Dirent := [⟨.lit "a", d_type, d_ino⟩]

theorem oneEntry_ordinary {d_type d_ino : ℤ} (type : 0 ≤ d_type ∧ d_type < 256)
    (ino : 0 ≤ d_ino ∧ d_ino < 10 ^ 9) : ∀ de ∈ oneEntry d_type d_ino, de.Ordinary := by
  intro de hde
  obtain rfl := List.mem_singleton.1 hde
  have plain : comma ∉ (CString.lit "a").bytes := by decide
  have short : (CString.lit "a").bytes.length < 100 := by decide
  exact ⟨plain, short, type, ino⟩

theorem entriesArrive_iff_same : EntriesArrive (oneEntry 4 4) [] (str "0,a,4,4,") := by
  have sent : sendresponse_readdir (some (oneEntry 4 4)) 0 = .ok (str "0,a,4,4,") := by
    decide
  apply (entriesArrive_iff (oneEntry_ordinary (by decide) (by decide)) sent).2
  intro de hde
  obtain rfl := List.mem_singleton.1 hde
  decide

/-- The type of a file is read as its number, and its number as its type. -/
theorem type_taken_for_ino :
    sendresponse_readdir (some (oneEntry 8 131073)) 0 = .ok (str "0,a,8,131073,") ∧
    (∃ left, Operation.afterReply .readdir (fun _ => false) [] (str "0,a,8,131073,") =
      .ok ⟨0, .entries [⟨str "a", 8, 131073 * 2 ^ 12⟩], left⟩) ∧
    ¬ EntriesArrive (oneEntry 8 131073) [] (str "0,a,8,131073,") := by
  have sent : sendresponse_readdir (some (oneEntry 8 131073)) 0 = .ok (str "0,a,8,131073,") := by
    decide
  obtain ⟨front, read⟩ := readdir_afterReply [] sent
  obtain ⟨left, looped⟩ := readdirLoop_listing (fun _ => false) []
    (oneEntry_ordinary (by decide) (by decide)) (by decide) (length_le_listing (oneEntry 8 131073))
    front
  have returned := read fun _ => false
  rw [looped] at returned
  refine ⟨sent, ⟨left, returned⟩, fun arrive => ?_⟩
  obtain ⟨left', meant⟩ := arrive fun _ => false
  rw [returned] at meant
  simp only [Except.map, Except.ok.injEq, Returned.mk.injEq, Output.entries.injEq] at meant
  have other : accepted (fun _ => false) [] ((oneEntry 8 131073).map Dirent.misread) ≠
      accepted (fun _ => false) [] ((oneEntry 8 131073).map Dirent.filled) := by decide
  exact other meant.2.1

end Directories

end DistFs.Wire
