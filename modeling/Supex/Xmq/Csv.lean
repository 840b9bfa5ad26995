import Supex.Lib.Bytes

/-!
# libxmq — the comma-separated list parser

`xmq_csv.c` splits a stored list such as `"P1,P2,P3"` into its fields. The
parser runs twice over the string: `number_of_fields` sizes the array that
`csv_parse` then fills. `csvParse` keeps both passes and faults when the
second pass would write behind the array the first pass sized.

* `csvFields_eq_runs` — the fields are the maximal comma-free runs, in order.
* `numberOfFields_eq` — the first pass counts exactly them.
* `runs_joinFields` — the runs of a joined list of nonempty comma-free names are
  the names.

Main result: `csv_fields`.
-/

namespace Supex.Xmq

open List

/-- The separator `','`. -/
def comma : UInt8 := 44

/-- The counting loop of `number_of_fields`; `prev` is `*(pos - 1)`. -/
def numberOfFieldsLoop (split : UInt8) : UInt8 → Bytes → Nat
  | prev, [] => if prev ≠ split then 1 else 0
  | prev, c :: rest =>
    (if c = split ∧ prev ≠ split then 1 else 0) + numberOfFieldsLoop split c rest

/-- `number_of_fields`. A leading separator is skipped before the loop. On the
empty string the C code reads the byte before the string, here `0`. -/
def numberOfFields (s : Bytes) (split : UInt8) : Nat :=
  match s with
  | c :: rest =>
    if c = split then numberOfFieldsLoop split c rest else numberOfFieldsLoop split 0 (c :: rest)
  | [] => numberOfFieldsLoop split 0 []

/-- The `while (*pos != '\0')` loop of `csv_parse`: a field runs to the next
comma (`strchr`) or to the end, anything else is a comma to skip. Every turn
consumes a byte, so the length of the string is enough fuel. -/
def csvFieldsLoop : Nat → Bytes → List Bytes
  | _, [] => []
  | 0, _ :: _ => []
  | fuel + 1, c :: rest =>
    if c ≠ comma then
      let field := (c :: rest).takeWhile (· ≠ comma)
      field :: csvFieldsLoop fuel ((c :: rest).drop field.length)
    else csvFieldsLoop fuel rest

/-- The fields `csv_parse` stores. -/
def csvFields (s : Bytes) : List Bytes := csvFieldsLoop s.length s

/-- `csv_parse`: the array has `number_of_fields` entries. -/
def csvParse (s : Bytes) : Except Fault (List Bytes) :=
  if (csvFields s).length ≤ numberOfFields s comma then .ok (csvFields s) else .error .memory

/-- The maximal comma-free runs of a string. -/
def runs (s : Bytes) : List Bytes := (s.splitOn comma).filter (· ≠ [])

/-! ## The fields are the runs -/

theorem runs_nil : runs [] = [] := by decide

theorem runs_comma (s : Bytes) : runs (comma :: s) = runs s := by
  simp [runs, List.splitOn, splitOnP_cons_eq_if_modifyHead]

theorem runs_append_comma {field rest : Bytes} (hf : comma ∉ field) (hne : field ≠ []) :
    runs (field ++ comma :: rest) = field :: runs rest := by
  have hsplit : (field ++ comma :: rest).splitOn comma =
      field.splitOn comma ++ rest.splitOn comma := by
    simp [List.splitOn, splitOnP_append_cons]
  have hself : field.splitOn comma = [field] := by
    apply splitOnP_eq_singleton
    intro x hx
    have : x ≠ comma := fun e => hf (e ▸ hx)
    simpa using this
  simp [runs, hsplit, hself, hne]

theorem runs_singleton {field : Bytes} (hf : comma ∉ field) (hne : field ≠ []) :
    runs field = [field] := by
  have hself : field.splitOn comma = [field] := by
    apply splitOnP_eq_singleton
    intro x hx
    have : x ≠ comma := fun e => hf (e ▸ hx)
    simpa using this
  simp [runs, hself, hne]

theorem takeWhile_comma_split (s : Bytes) :
    s.drop (s.takeWhile (· ≠ comma)).length = [] ∨
      ∃ rest, s.drop (s.takeWhile (· ≠ comma)).length = comma :: rest := by
  induction s with
  | nil => simp
  | cons c s ih =>
    by_cases hc : c = comma
    · right
      simp [hc]
    · simpa [hc] using ih

theorem comma_notMem_takeWhile (s : Bytes) : comma ∉ s.takeWhile (· ≠ comma) := by
  intro h
  have hall := all_eq_true.mp
    (all_takeWhile (p := fun b : UInt8 => decide (b ≠ comma)) (l := s)) comma h
  simp at hall

theorem length_drop_field {fuel : Nat} {c : UInt8} {rest : Bytes} (hc : c ≠ comma)
    (h : (c :: rest).length ≤ fuel + 1) :
    ((c :: rest).drop ((c :: rest).takeWhile (· ≠ comma)).length).length ≤ fuel := by
  have hpos : 0 < ((c :: rest).takeWhile (· ≠ comma)).length := by simp [hc]
  rw [length_drop]
  omega

theorem csvFieldsLoop_eq_runs {fuel : Nat} {s : Bytes} (h : s.length ≤ fuel) :
    csvFieldsLoop fuel s = runs s := by
  induction fuel generalizing s with
  | zero =>
    have hs : s = [] := length_eq_zero_iff.mp (by omega)
    subst hs
    rfl
  | succ fuel ih =>
    cases s with
    | nil => rfl
    | cons c rest =>
      rw [csvFieldsLoop]
      split
      · next hc =>
        set field := (c :: rest).takeWhile (· ≠ comma) with hfield
        have hne : field ≠ [] := by simp [hfield, hc]
        have hfree : comma ∉ field := comma_notMem_takeWhile _
        have hsplit : field ++ (c :: rest).drop field.length = c :: rest :=
          prefix_iff_eq_append.mp (List.takeWhile_prefix _)
        show field :: csvFieldsLoop fuel ((c :: rest).drop field.length) = runs (c :: rest)
        rw [ih (length_drop_field hc h)]
        -- the field stops at the end of the string or at a comma
        rcases takeWhile_comma_split (c :: rest) with hnil | ⟨more, hmore⟩
        · rw [← hfield] at hnil
          rw [hnil, append_nil] at hsplit
          rw [hnil, runs_nil, ← hsplit, runs_singleton hfree hne]
        · rw [← hfield] at hmore
          rw [hmore] at hsplit
          rw [hmore, runs_comma, ← hsplit, runs_append_comma hfree hne]
      · next hc =>
        have hc : c = comma := by simpa using hc
        rw [hc, runs_comma]
        exact ih (by simpa using h)

theorem csvFields_eq_runs (s : Bytes) : csvFields s = runs s :=
  csvFieldsLoop_eq_runs le_rfl

/-! ## The counting pass -/

/-- The runs of a string that starts with an ordinary byte: the byte joins the
first run of the rest, or is a run of its own. -/
theorem runs_cons_length (c : UInt8) (s : Bytes) (hc : c ≠ comma) :
    (runs (c :: s)).length =
      (runs s).length + (if s.head? = none ∨ s.head? = some comma then 1 else 0) := by
  cases s with
  | nil =>
    rw [runs_singleton (by simpa using hc.symm) (by simp), runs_nil]
    simp
  | cons d s =>
    by_cases hd : d = comma
    · subst hd
      rw [show c :: comma :: s = [c] ++ comma :: s from rfl,
        runs_append_comma (by simpa using hc.symm) (by simp), runs_comma]
      simp
    · have hcs : (c :: d :: s).splitOn comma =
          ((d :: s).splitOn comma).modifyHead (List.cons c) := by
        simp [List.splitOn, splitOnP_cons_eq_if_modifyHead, hc]
      have hds : (d :: s).splitOn comma = (s.splitOn comma).modifyHead (List.cons d) := by
        simp [List.splitOn, splitOnP_cons_eq_if_modifyHead, hd]
      obtain ⟨x, xs, hx⟩ := exists_cons_of_ne_nil
        (show s.splitOn comma ≠ [] from splitOnP_ne_nil _ _)
      simp [runs, hcs, hds, hx, hd]

theorem numberOfFieldsLoop_eq (prev : UInt8) (s : Bytes) :
    numberOfFieldsLoop comma prev s =
      (runs s).length +
        (if prev ≠ comma ∧ (s.head? = none ∨ s.head? = some comma) then 1 else 0) := by
  induction s generalizing prev with
  | nil => simp [numberOfFieldsLoop, runs_nil]
  | cons c s ih =>
    rw [numberOfFieldsLoop, ih]
    by_cases hc : c = comma
    · subst hc
      simp [runs_comma, Nat.add_comm]
    · simp [hc, runs_cons_length c s hc]

theorem numberOfFields_eq {s : Bytes} (hne : s ≠ []) :
    numberOfFields s comma = (csvFields s).length := by
  obtain ⟨c, rest, rfl⟩ := exists_cons_of_ne_nil hne
  rw [csvFields_eq_runs, numberOfFields]
  split
  · next hc =>
    subst hc
    rw [numberOfFieldsLoop_eq, runs_comma]
    simp
  · next hc =>
    rw [numberOfFieldsLoop_eq]
    simp [hc]

theorem csvFields_nil : csvFields [] = [] := rfl

theorem csvParse_eq (s : Bytes) : csvParse s = .ok (runs s) := by
  rw [csvParse, if_pos, csvFields_eq_runs]
  cases s with
  | nil => simp [csvFields_nil]
  | cons c s => rw [numberOfFields_eq (by simp)]

/-! ## Where the fields lie -/

/-- `csv_field_t`: `ptr` is the offset in `csv->string`. -/
structure CsvField where
  ptr : Nat
  len : Nat

/-- The loop of `csv_parse` with its pointers; `pos` is where the rest of the string begins. -/
def csvScan : Nat → Nat → Bytes → List CsvField
  | _, _, [] => []
  | 0, _, _ :: _ => []
  | fuel + 1, pos, c :: rest =>
    if c ≠ comma then
      let len := ((c :: rest).takeWhile (· ≠ comma)).length
      ⟨pos, len⟩ :: csvScan fuel (pos + len) ((c :: rest).drop len)
    else csvScan fuel (pos + 1) rest

/-- `csv->fields`, in an array of `number_of_fields` entries. -/
def csvParseFields (s : Bytes) : Except Fault (List CsvField) :=
  let fields := csvScan s.length 0 s
  if fields.length ≤ numberOfFields s comma then .ok fields else .error .memory

/-- `len` bytes from `ptr` on are a comma-free run that no longer one contains. -/
structure IsRun (s : Bytes) (ptr len : Nat) : Prop where
  pos : 0 < len
  inside : ptr + len ≤ s.length
  free : ∀ i, ptr ≤ i → i < ptr + len → s[i]? ≠ some comma
  left : ptr = 0 ∨ s[ptr - 1]? = some comma
  right : ptr + len = s.length ∨ s[ptr + len]? = some comma

theorem isRun_comma {s : Bytes} {p n : Nat} :
    IsRun (comma :: s) p n ↔ ∃ q, p = q + 1 ∧ IsRun s q n := by
  constructor
  · rintro ⟨hpos, hin, hfree, hl, hr⟩
    cases p with
    | zero => exact absurd rfl (hfree 0 le_rfl (by omega))
    | succ q =>
      rw [Nat.add_right_comm, getElem?_cons_succ] at hr
      rw [length_cons] at hin
      refine ⟨q, rfl, hpos, by omega, fun i h₁ h₂ => hfree (i + 1) (by omega) (by omega), ?_,
        hr.imp_left Nat.succ.inj⟩
      cases q with
      | zero => exact .inl rfl
      | succ q => exact .inr (hl.resolve_left (Nat.succ_ne_zero _))
  · rintro ⟨q, rfl, hpos, hin, hfree, hl, hr⟩
    refine ⟨hpos, by rw [length_cons]; omega, fun i h₁ h₂ => ?_, .inr ?_, ?_⟩
    · cases i with
      | zero => omega
      | succ i => exact hfree i (by omega) (by omega)
    · cases q with
      | zero => rfl
      | succ q => exact hl.resolve_left (Nat.succ_ne_zero q)
    · rw [Nat.add_right_comm, getElem?_cons_succ]
      exact hr.imp_left (congrArg Nat.succ)

theorem isRun_append {field t : Bytes} {p n : Nat} (hne : field ≠ []) (hfree : comma ∉ field)
    (ht : t = [] ∨ ∃ t', t = comma :: t') :
    IsRun (field ++ t) p n ↔
      p = 0 ∧ n = field.length ∨ ∃ q, p = field.length + q ∧ IsRun t q n := by
  have hin (i : Nat) (hi : i < field.length) : (field ++ t)[i]? ≠ some comma := by
    rw [getElem?_append_left hi]
    exact fun h => hfree (mem_of_getElem? h)
  have hout (i : Nat) : (field ++ t)[field.length + i]? = t[i]? := by
    rw [getElem?_append_right (Nat.le_add_right ..), Nat.add_sub_cancel_left]
  have hfirst (h : 0 < t.length) : t[0]? = some comma := by
    rcases ht with rfl | ⟨t', rfl⟩
    · cases h
    · rfl
  have hlen : 0 < field.length := length_pos_iff.mpr hne
  constructor
  · rintro ⟨hpos, hle, hrun, hl, hr⟩
    rw [length_append] at hle hr
    by_cases hp : p < field.length
    · -- the run begins with the field, and ends where it ends
      left
      have hp0 : p = 0 := hl.resolve_right (hin _ (by omega))
      refine ⟨hp0, Nat.le_antisymm ?_ ?_⟩
      · by_contra hgt
        exact hrun field.length (by omega) (by omega) ((hout 0).trans (hfirst (by omega)))
      · rcases hr with hr | hr
        · omega
        · by_contra hlt
          exact hin _ (by omega) hr
    · obtain ⟨q, rfl⟩ := Nat.exists_eq_add_of_le (Nat.le_of_not_lt hp)
      rw [Nat.add_assoc, hout] at hr
      refine .inr ⟨q, rfl, hpos, by omega, fun i h₁ h₂ => ?_, ?_, hr.imp_left Nat.add_left_cancel⟩
      · rw [← hout]
        exact hrun _ (by omega) (by omega)
      · cases q with
        | zero => exact .inl rfl
        | succ q => exact .inr ((hout q).symm.trans (hl.resolve_left (by omega)))
  · rintro (⟨rfl, rfl⟩ | ⟨q, rfl, hpos, hle, hrun, hl, hr⟩)
    · refine ⟨hlen, by simp, fun i _ h₂ => hin i (by omega), .inl rfl, ?_⟩
      rw [Nat.zero_add, length_append]
      rcases Nat.eq_zero_or_pos t.length with h | h
      · exact .inl (by omega)
      · exact .inr ((hout 0).trans (hfirst h))
    · refine ⟨hpos, by rw [length_append]; omega, fun i h₁ h₂ => ?_, .inr ?_, ?_⟩
      · obtain ⟨j, rfl⟩ := Nat.exists_eq_add_of_le (show field.length ≤ i by omega)
        rw [hout]
        exact hrun j (by omega) (by omega)
      · cases q with
        | zero => exact absurd (hfirst (by omega)) (hrun 0 le_rfl (by omega))
        | succ q => exact (hout q).trans (hl.resolve_left (Nat.succ_ne_zero q))
      · rw [Nat.add_assoc, hout, length_append]
        exact hr.imp_left (congrArg (field.length + ·))

theorem IsRun.not_nil {p n : Nat} : ¬IsRun [] p n := fun h => by
  have := h.pos
  have := h.inside
  simp at this
  omega

theorem csvScan_spec {fuel : Nat} {s : Bytes} (h : s.length ≤ fuel) (pos : Nat) :
    (∀ f, f ∈ csvScan fuel pos s ↔ ∃ q, f.ptr = pos + q ∧ IsRun s q f.len) ∧
      (csvScan fuel pos s).Pairwise fun f g => f.ptr + f.len ≤ g.ptr := by
  induction fuel generalizing s pos with
  | zero =>
    obtain rfl : s = [] := length_eq_zero_iff.mp (by omega)
    exact ⟨fun _ => iff_of_false not_mem_nil fun ⟨_, _, hrun⟩ => hrun.not_nil, .nil⟩
  | succ fuel ih =>
    cases s with
    | nil => exact ⟨fun _ => iff_of_false not_mem_nil fun ⟨_, _, hrun⟩ => hrun.not_nil, .nil⟩
    | cons c rest =>
      rw [csvScan]
      split
      · next hc =>
        have hne : (c :: rest).takeWhile (· ≠ comma) ≠ [] := by simp [hc]
        have hsplit {p n : Nat} := isRun_append (p := p) (n := n) hne
          (comma_notMem_takeWhile _) (takeWhile_comma_split (c :: rest))
        rw [prefix_iff_eq_append.mp (List.takeWhile_prefix _)] at hsplit
        obtain ⟨hmem, hordered⟩ := ih (length_drop_field hc h)
          (pos + ((c :: rest).takeWhile (· ≠ comma)).length)
        refine ⟨fun f => ?_, pairwise_cons.mpr ⟨fun f hf => ?_, hordered⟩⟩
        · rw [mem_cons, hmem]
          constructor
          · rintro (rfl | ⟨q, hq, hrun⟩)
            · exact ⟨0, rfl, hsplit.mpr (.inl ⟨rfl, rfl⟩)⟩
            · exact ⟨_, hq.trans (Nat.add_assoc ..), hsplit.mpr (.inr ⟨q, rfl, hrun⟩)⟩
          · rintro ⟨q, hq, hrun⟩
            rcases hsplit.mp hrun with ⟨rfl, hn⟩ | ⟨q, rfl, hrest⟩
            · exact .inl (by cases f; simp_all)
            · exact .inr ⟨q, hq.trans (Nat.add_assoc ..).symm, hrest⟩
        · obtain ⟨q, hq, -⟩ := (hmem f).mp hf
          exact hq ▸ Nat.le_add_right _ _
      · next hc =>
        obtain rfl : c = comma := by simpa using hc
        obtain ⟨hmem, hordered⟩ := ih (by simpa using h) (pos + 1)
        refine ⟨fun f => ?_, hordered⟩
        rw [hmem]
        constructor
        · rintro ⟨q, hq, hrun⟩
          exact ⟨q + 1, by omega, isRun_comma.mpr ⟨q, rfl, hrun⟩⟩
        · rintro ⟨p, hp, hrun⟩
          obtain ⟨q, rfl, hrest⟩ := isRun_comma.mp hrun
          exact ⟨q, by omega, hrest⟩

theorem csvScan_length (fuel pos : Nat) (s : Bytes) :
    (csvScan fuel pos s).length = (csvFieldsLoop fuel s).length := by
  fun_induction csvScan fuel pos s with
  | case1 fuel => cases fuel <;> rfl
  | case2 => rfl
  | case3 fuel pos c rest hc len ih => rw [csvFieldsLoop, if_pos hc, length_cons, ih, length_cons]
  | case4 fuel pos c rest hc ih => rw [csvFieldsLoop, if_neg hc, ih]

/-- The fields are the runs of the string, in their order, and as many as were counted. -/
structure Parsed (s : Bytes) (fields : List CsvField) : Prop where
  runs : ∀ f, f ∈ fields ↔ IsRun s f.ptr f.len
  ordered : fields.Pairwise fun f g => f.ptr + f.len ≤ g.ptr
  count : numberOfFields s comma = fields.length

/-- **The parser.** `csv_parse` yields the maximal comma-free runs of a nonempty string. -/
theorem csv_fields {s : Bytes} (hne : s ≠ []) :
    ∃ fields, csvParseFields s = .ok fields ∧ Parsed s fields := by
  have hcount : numberOfFields s comma = (csvScan s.length 0 s).length := by
    rw [csvScan_length, numberOfFields_eq hne, csvFields]
  obtain ⟨hmem, hordered⟩ := csvScan_spec (le_refl s.length) 0
  refine ⟨_, if_pos hcount.ge, fun f => ?_, hordered, hcount⟩
  rw [hmem]
  simp

/-- A string that begins and ends with a comma. -/
theorem csv_fields_commas : ∃ fields, csvParseFields (ascii ",ab,,c,") = .ok fields ∧
    Parsed (ascii ",ab,,c,") fields :=
  csv_fields (by decide)

/-! ## Joined lists -/

/-- Fields terminated by a comma each, as the lists are written. -/
def joinFields (fields : List Bytes) : Bytes := (fields.map (· ++ [comma])).flatten

theorem joinFields_cons (f : Bytes) (fs : List Bytes) :
    joinFields (f :: fs) = f ++ comma :: joinFields fs := by
  simp [joinFields]

theorem joinFields_append (fs gs : List Bytes) :
    joinFields (fs ++ gs) = joinFields fs ++ joinFields gs := by
  simp [joinFields]

theorem runs_joinFields {fields : List Bytes}
    (hf : ∀ f ∈ fields, comma ∉ f ∧ f ≠ []) : runs (joinFields fields).dropLast = fields := by
  induction fields with
  | nil => exact runs_nil
  | cons f fs ih =>
    obtain ⟨hfree, hne⟩ := hf f (.head _)
    have hfs : ∀ g ∈ fs, comma ∉ g ∧ g ≠ [] := fun g hg => hf g (.tail _ hg)
    cases fs with
    | nil =>
      rw [joinFields_cons, show joinFields [] = [] from rfl, dropLast_append_cons]
      simpa using runs_singleton hfree hne
    | cons g gs =>
      have hjoin : joinFields (g :: gs) ≠ [] := by simp [joinFields_cons]
      rw [joinFields_cons, dropLast_append_cons, dropLast_cons_of_ne_nil hjoin,
        runs_append_comma hfree hne, ih hfs]

end Supex.Xmq
