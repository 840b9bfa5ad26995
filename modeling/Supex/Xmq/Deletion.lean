import Supex.Xmq.Context

/-!
# libxmq — taking a name out of a comma list

`__write_back_delete` takes a producer or a consumer out of its stored list
with `__string_delete_by_substr`. That function looks for the name as a
substring and takes an occurrence out when it ends the string or when the
separator alone follows it. A field with another one behind it is followed by
more than the separator, so it stays; and the last field loses the name also
where it merely ends with it.

* `stringDeleteLoop_ends` / `stringDeleteLoop_passes` — in the last field the
  occurrences are passed one after the other, unless one of them ends it.

Main results: `stringDeleteLoop_field`, `deletes_field_iff`.
-/

namespace Supex.Xmq

open List

--
-- The first occurrence
--

variable {s : Bytes}

theorem strstr_found {x : Bytes} {i : Nat} (h : strstr x s = some i) :
    s.take i ++ x ++ s.drop (i + x.length) = s := by
  induction s generalizing i with
  | nil =>
    rw [strstr] at h
    split at h
    · next hx =>
      obtain rfl : 0 = i := by simpa using h
      simp [hx]
    · simp at h
  | cons c s ih =>
    rw [strstr] at h
    split at h
    · next hx =>
      obtain rfl : 0 = i := by simpa using h
      have hprefix := prefix_iff_eq_append.mp (List.isPrefixOf_iff_prefix.mp hx)
      rw [take_zero, nil_append, Nat.zero_add]
      exact hprefix
    · obtain ⟨j, hj, rfl⟩ := Option.map_eq_some_iff.mp h
      have hrest := ih hj
      rw [show j + 1 + x.length = (j + x.length) + 1 by omega]
      simpa using hrest

theorem strstr_fits {x : Bytes} {i : Nat} (h : strstr x s = some i) : i + x.length ≤ s.length := by
  induction s generalizing i with
  | nil =>
    rw [strstr] at h
    split at h
    · next hx =>
      obtain rfl : 0 = i := by simpa using h
      simp [hx]
    · simp at h
  | cons c s ih =>
    rw [strstr] at h
    split at h
    · next hx =>
      obtain rfl : 0 = i := by simpa using h
      rw [Nat.zero_add]
      exact (List.isPrefixOf_iff_prefix.mp hx).length_le
    · obtain ⟨j, hj, rfl⟩ := Option.map_eq_some_iff.mp h
      have hrest := ih hj
      rw [length_cons]
      omega

theorem strstr_field {x : Bytes} (hx : comma ∉ x) (hne : x ≠ []) (f rest : Bytes) :
    strstr x (f ++ comma :: rest) =
      match strstr x f with
      | some i => some i
      | none => (strstr x rest).map (· + (f.length + 1)) := by
  have hpre : ∀ g : Bytes, x.isPrefixOf (g ++ comma :: rest) = x.isPrefixOf g := by
    intro g
    rw [Bool.eq_iff_iff, List.isPrefixOf_iff_prefix, List.isPrefixOf_iff_prefix]
    constructor
    · intro h
      rcases prefix_or_prefix_of_prefix h (prefix_append g _) with h | ⟨t, ht⟩
      · exact h
      · -- a longer name would hold the comma behind the field
        rw [← ht, prefix_append_right_inj] at h
        rcases t with - | ⟨d, t⟩
        · rw [← ht, append_nil]
        · rw [cons_prefix_cons] at h
          rw [← ht, h.1] at hx
          simp at hx
    · intro h
      exact h.trans (prefix_append g _)
  induction f with
  | nil =>
    have hno : x.isPrefixOf (comma :: rest) = false := by
      have := hpre []
      rw [nil_append] at this
      rw [this]
      cases x with
      | nil => exact absurd rfl hne
      | cons d x => rfl
    rw [nil_append, strstr, strstr, if_neg hne, hno]
    simp
  | cons c f ih =>
    have hcons := hpre (c :: f)
    rw [cons_append] at hcons
    rw [cons_append, strstr, hcons, strstr]
    by_cases hx : x.isPrefixOf (c :: f)
    · simp [hx]
    · rw [if_neg hx, if_neg hx, ih]
      cases strstr x f with
      | some i => rfl
      | none =>
        simp only [Option.map_map, Option.map_none, length_cons]
        rfl

/-- Cut at its first occurrences of `x`, one behind the other, the text ends
with one of them. -/
inductive EndsInOccurrence (x : Bytes) : Bytes → Prop
  | last {s : Bytes} {i : Nat} : strstr x s = some i → s.drop (i + x.length) = [] →
      EndsInOccurrence x s
  | next {s : Bytes} {i : Nat} : strstr x s = some i →
      EndsInOccurrence x (s.drop (i + x.length)) → EndsInOccurrence x s

theorem strstr_self (x : Bytes) : strstr x x = some 0 := by
  cases x with
  | nil => rfl
  | cons c x =>
    have hself : (c :: x).isPrefixOf (c :: x) := List.isPrefixOf_iff_prefix.mpr (prefix_refl _)
    rw [strstr, if_pos hself]

theorem endsInOccurrence_self (x : Bytes) : EndsInOccurrence x x :=
  .last (strstr_self x) (by simp)

theorem not_endsInOccurrence_nil {x : Bytes} (hx : x ≠ []) : ¬EndsInOccurrence x [] := by
  intro h
  have hnone : strstr x [] = none := by rw [strstr, if_neg hx]
  rcases h with ⟨hfound, -⟩ | ⟨hfound, -⟩ <;> simp [hnone] at hfound

theorem endsInOccurrence_iff {x : Bytes} {i : Nat} (h : strstr x s = some i) :
    EndsInOccurrence x s ↔
      s.drop (i + x.length) = [] ∨ EndsInOccurrence x (s.drop (i + x.length)) := by
  constructor
  · intro hends
    rcases hends with ⟨hfound, hend⟩ | ⟨hfound, hrest⟩
    · obtain rfl := Option.some.inj (h.symm.trans hfound)
      exact .inl hend
    · obtain rfl := Option.some.inj (h.symm.trans hfound)
      exact .inr hrest
  · rintro (hend | hrest)
    · exact .last h hend
    · exact .next h hrest

theorem EndsInOccurrence.suffix {x : Bytes} (h : EndsInOccurrence x s) : x <:+ s := by
  induction h with
  | last hfound hend =>
    have hsplit := strstr_found hfound
    rw [hend, append_nil] at hsplit
    exact ⟨_, hsplit⟩
  | next _ _ ih => exact ih.trans (drop_suffix _ _)

--
-- The loop
--

section Loop

variable {x : Bytes} (hx : comma ∉ x) (hne : x ≠ [])

include hne in
theorem length_drop_found {i : Nat} (h : strstr x s = some i) :
    (s.drop (i + x.length)).length < s.length := by
  have hfits := strstr_fits h
  have hpos : 0 < x.length := length_pos_iff.mpr hne
  rw [length_drop]
  omega

include hx hne in
/-- **A field in front of another.** The loop comes through it with every byte
of it kept. -/
theorem stringDeleteLoop_field {rest : Bytes} (hrest : rest ≠ []) {fuel : Nat} {before f : Bytes}
    (hf : comma ∉ f) (hfuel : (f ++ comma :: rest).length < fuel) :
    ∃ fuel', rest.length < fuel' ∧
      stringDeleteLoop x [comma] fuel before (f ++ comma :: rest) =
        stringDeleteLoop x [comma] fuel' (before ++ f ++ [comma]) rest := by
  induction fuel generalizing before f with
  | zero => omega
  | succ fuel ih =>
    rw [length_append, length_cons] at hfuel
    rcases hfound : strstr x f with - | i
    · -- the name is not in this field, so the search goes on behind the comma
      refine ⟨fuel + 1, by omega, ?_⟩
      rw [stringDeleteLoop, stringDeleteLoop, strstr_field hx hne, hfound]
      rcases hbehind : strstr x rest with - | i
      · simp
      · have hdrop : (f ++ comma :: rest).drop (i + (f.length + 1) + x.length) =
            rest.drop (i + x.length) := by
          rw [show i + (f.length + 1) + x.length = f.length + (i + x.length + 1) by omega,
            drop_length_add_append, drop_succ_cons]
        have htake : ∀ j, (f ++ comma :: rest).take (j + (f.length + 1)) =
            f ++ comma :: rest.take j := by
          intro j
          rw [show j + (f.length + 1) = f.length + (j + 1) by omega,
            take_length_add_append, take_succ_cons]
        have hshift : i + (f.length + 1) + x.length = i + x.length + (f.length + 1) := by omega
        simp only [Option.map_some, hdrop]
        split
        · rw [hshift, htake]
          simp
        · rw [htake]
          simp
    · have hlt := length_drop_found hne hfound
      have hle : i + x.length ≤ f.length := strstr_fits hfound
      have hdrop : (f ++ comma :: rest).drop (i + x.length) =
          f.drop (i + x.length) ++ comma :: rest := drop_append_of_le_length hle
      have hstays : f.drop (i + x.length) ++ comma :: rest ≠ [comma] ∧
          f.drop (i + x.length) ++ comma :: rest ≠ [] := by
        constructor
        · intro h
          have := congrArg List.length h
          have hpos : 0 < rest.length := length_pos_iff.mpr hrest
          rw [length_append, length_cons, length_singleton] at this
          omega
        · simp
      obtain ⟨fuel', hfuel', hgo⟩ := @ih (before ++ f.take (i + x.length)) (f.drop (i + x.length))
        (fun h => hf (mem_of_mem_drop h)) (by simp; simp at hlt; omega)
      refine ⟨fuel', hfuel', ?_⟩
      rw [stringDeleteLoop, strstr_field hx hne, hfound]
      simp only [hdrop, if_pos hstays, take_append_of_le_length hle]
      rw [hgo, append_assoc before, take_append_drop]

include hne in
theorem stringDeleteLoop_ends (h : EndsInOccurrence x s) (hs : comma ∉ s) {fuel : Nat}
    (hfuel : s.length < fuel) (before : Bytes) :
    stringDeleteLoop x [comma] fuel before s =
      .ok (before ++ s.take (s.length - x.length)) := by
  have hnil : ∀ fuel b, stringDeleteLoop x [comma] (fuel + 1) b [] = .ok b := by
    intro fuel b
    rw [stringDeleteLoop, strstr, if_neg hne]
    simp
  induction h generalizing fuel before with
  | @last s i hfound hend =>
    obtain ⟨fuel, rfl⟩ : ∃ n, fuel = n + 1 := ⟨fuel - 1, by omega⟩
    have hsplit := strstr_found hfound
    rw [hend, append_nil] at hsplit
    have hi : i = s.length - x.length := by
      have hfits := strstr_fits hfound
      have hlen := congrArg List.length hsplit
      rw [length_append, length_take] at hlen
      omega
    have hmore : ∃ n, fuel = n + 1 := by
      refine ⟨fuel - 1, ?_⟩
      have hlt := length_drop_found hne hfound
      rw [hend, length_nil] at hlt
      omega
    obtain ⟨fuel, rfl⟩ := hmore
    rw [stringDeleteLoop, hfound]
    simp only [hend, ne_eq, not_true_eq_false, and_false, if_false]
    rw [hnil, ← hi]
  | @next s i hfound hrest ih =>
    obtain ⟨fuel, rfl⟩ : ∃ n, fuel = n + 1 := ⟨fuel - 1, by omega⟩
    have hlt := length_drop_found hne hfound
    have hfits := strstr_fits hfound
    have hlong := hrest.suffix.length_le
    rw [length_drop] at hlong hlt
    have hstays : s.drop (i + x.length) ≠ [comma] ∧ s.drop (i + x.length) ≠ [] := by
      constructor
      · intro h
        apply hs
        apply mem_of_mem_drop
        rw [h]
        exact .head _
      · intro h
        rw [h] at hrest
        exact not_endsInOccurrence_nil hne hrest
    rw [stringDeleteLoop, hfound]
    simp only [if_pos hstays]
    have hends : i + x.length + (s.length - (i + x.length) - x.length) = s.length - x.length := by
      omega
    rw [ih (fun h => hs (mem_of_mem_drop h)) (by rw [length_drop]; omega),
      append_assoc, length_drop, ← take_add, hends]

include hne in
theorem stringDeleteLoop_passes (h : ¬EndsInOccurrence x s) (hs : comma ∉ s) {fuel : Nat}
    (hfuel : s.length < fuel) (before : Bytes) :
    stringDeleteLoop x [comma] fuel before s = .ok (before ++ s) := by
  induction fuel generalizing s before with
  | zero => omega
  | succ fuel ih =>
    rw [stringDeleteLoop]
    rcases hfound : strstr x s with - | i
    · rfl
    · rw [endsInOccurrence_iff hfound, not_or] at h
      have hlt := length_drop_found hne hfound
      have hstays : s.drop (i + x.length) ≠ [comma] ∧ s.drop (i + x.length) ≠ [] := by
        refine ⟨?_, h.1⟩
        intro hcomma
        apply hs
        apply mem_of_mem_drop
        rw [hcomma]
        exact .head _
      simp only [if_pos hstays]
      rw [ih h.2 (fun h => hs (mem_of_mem_drop h)) (by omega), append_assoc,
        take_append_drop]

end Loop

--
-- Lists of names
--

/-- A list of names as libxmq stores it. -/
def joinNames (names : List Bytes) : Bytes := [comma].intercalate names

theorem joinNames_concat (names : List Bytes) (last : Bytes) :
    joinNames (names ++ [last]) = joinFields names ++ last := by
  induction names with
  | nil => simp [joinNames, joinFields]
  | cons f names ih =>
    have hmore : names ++ [last] ≠ [] := by simp
    rw [joinNames] at ih ⊢
    rw [cons_append, intercalate_cons_of_ne_nil hmore, ih, joinFields_cons]
    simp

theorem runs_joinFields_append {names : List Bytes} (hnames : ∀ f ∈ names, comma ∉ f ∧ f ≠ [])
    (s : Bytes) : runs (joinFields names ++ s) = names ++ runs s := by
  induction names with
  | nil => simp [joinFields]
  | cons f names ih =>
    obtain ⟨hfree, hne⟩ := hnames f (.head _)
    rw [joinFields_cons, append_assoc, cons_append, runs_append_comma hfree hne,
      ih fun g hg => hnames g (.tail _ hg), cons_append]

theorem stringDeleteLoop_fields {x : Bytes} (hx : comma ∉ x) (hne : x ≠ []) {names : List Bytes}
    (hnames : ∀ f ∈ names, comma ∉ f ∧ f ≠ []) {last : Bytes} (hlast : last ≠ []) {fuel : Nat}
    (hfuel : (joinFields names ++ last).length < fuel) (before : Bytes) :
    ∃ fuel', last.length < fuel' ∧
      stringDeleteLoop x [comma] fuel before (joinFields names ++ last) =
        stringDeleteLoop x [comma] fuel' (before ++ joinFields names) last := by
  induction names generalizing fuel before with
  | nil => exact ⟨fuel, by simpa [joinFields] using hfuel, by simp [joinFields]⟩
  | cons f names ih =>
    obtain ⟨hfree, -⟩ := hnames f (.head _)
    have hrest : joinFields names ++ last ≠ [] := by simp [hlast]
    rw [joinFields_cons, append_assoc, cons_append] at hfuel ⊢
    obtain ⟨fuel₁, hfuel₁, hfield⟩ := @stringDeleteLoop_field x hx hne _ hrest fuel before f hfree
      hfuel
    obtain ⟨fuel₂, hfuel₂, hfields⟩ := ih (fun g hg => hnames g (.tail _ hg))
      hfuel₁ (before ++ f ++ [comma])
    refine ⟨fuel₂, hfuel₂, ?_⟩
    rw [hfield, hfields]
    simp

/-- The fields of the result, as `csv_parse` reads them, are those of the list
other than `x`. -/
def DeletesField (names : List Bytes) (x : Bytes) : Prop :=
  ∃ s, stringDeleteBySubstr (some (joinNames names)) x [comma] = .ok (some s) ∧
    csvParse s = .ok (names.filter (· ≠ x))

/-- `x` is no field in front of the last one, and the last field is `x` or does
not end in an occurrence of it. -/
def OnlyLast (names : List Bytes) (x : Bytes) : Prop :=
  x ∉ names.dropLast ∧ ∀ last ∈ names.getLast?, last = x ∨ ¬EndsInOccurrence x last

theorem stringDelete_concat {x : Bytes} (hx : comma ∉ x) (hne : x ≠ []) {names : List Bytes}
    {last : Bytes} (hnames : ∀ f ∈ names ++ [last], comma ∉ f ∧ f ≠ []) :
    ∃ kept, stringDeleteBySubstr (some (joinNames (names ++ [last]))) x [comma] =
        .ok (some (joinFields names ++ kept)) ∧
      (EndsInOccurrence x last → kept = last.take (last.length - x.length)) ∧
      (¬EndsInOccurrence x last → kept = last) := by
  obtain ⟨hfree, hlast⟩ := hnames last (by simp)
  obtain ⟨fuel, hfuel, hloop⟩ := stringDeleteLoop_fields hx hne
    (fun f hf => hnames f (mem_append_left _ hf)) hlast (Nat.lt_succ_self _) []
  rw [nil_append] at hloop
  by_cases hends : EndsInOccurrence x last
  · refine ⟨last.take (last.length - x.length), ?_, fun _ => rfl, fun h => absurd hends h⟩
    rw [stringDeleteBySubstr, joinNames_concat]
    simp only [hloop]
    rw [stringDeleteLoop_ends hne hends hfree hfuel]
  · refine ⟨last, ?_, fun h => absurd h hends, fun _ => rfl⟩
    rw [stringDeleteBySubstr, joinNames_concat]
    simp only [hloop]
    rw [stringDeleteLoop_passes hne hends hfree hfuel]

theorem filter_ne_eq_self {names : List Bytes} {x : Bytes} :
    names.filter (· ≠ x) = names ↔ x ∉ names := by
  rw [filter_eq_self]
  constructor
  · intro h hmem
    simpa using h x hmem
  · intro h f hf
    have hne : f ≠ x := fun e => h (e ▸ hf)
    simpa using hne

/-- **Deletion.** Taking a name out of a comma list leaves exactly the other
fields, in their order, if and only if the name is no field in front of the
last one, and the last field is the name or does not end in it. -/
theorem deletes_field_iff (names : List Bytes) (x : Bytes)
    (hnames : ∀ f ∈ names, comma ∉ f ∧ f ≠ []) (hx : comma ∉ x) (hne : x ≠ []) :
    DeletesField names x ↔ OnlyLast names x := by
  rcases eq_nil_or_concat names with rfl | ⟨front, last, rfl⟩
  · have hempty : stringDeleteBySubstr (some (joinNames [])) x [comma] = .ok (some []) := by
      simp [stringDeleteBySubstr, joinNames, stringDeleteLoop, strstr, hne]
    constructor
    · intro _
      exact ⟨by simp, by simp⟩
    · intro _
      exact ⟨[], hempty, by rw [csvParse_eq, runs_nil]; rfl⟩
  rw [concat_eq_append] at hnames ⊢
  obtain ⟨kept, hdelete, hends, hpasses⟩ := stringDelete_concat hx hne hnames
  obtain ⟨hfree, hlast⟩ := hnames last (by simp)
  have hfront : ∀ f ∈ front, comma ∉ f ∧ f ≠ [] :=
    fun f hf => hnames f (mem_append_left _ hf)
  have hfields : DeletesField (front ++ [last]) x ↔
      front ++ runs kept = (front ++ [last]).filter (· ≠ x) := by
    rw [DeletesField, hdelete]
    constructor
    · rintro ⟨s, hs, hparse⟩
      obtain rfl : joinFields front ++ kept = s := by simpa using hs
      rw [csvParse_eq, runs_joinFields_append hfront] at hparse
      simpa using hparse
    · intro h
      exact ⟨_, rfl, by rw [csvParse_eq, runs_joinFields_append hfront, h]⟩
  have honly : OnlyLast (front ++ [last]) x ↔
      x ∉ front ∧ (last = x ∨ ¬EndsInOccurrence x last) := by
    simp [OnlyLast]
  rw [hfields, honly, filter_append]
  by_cases hself : last = x
  · -- the last field is the name: it is emptied
    subst hself
    have hkept : kept = [] := by
      rw [hends (endsInOccurrence_self _)]
      simp
    rw [hkept, runs_nil]
    simp only [ne_eq, not_true_eq_false, decide_false, Bool.false_eq_true, not_false_eq_true,
      filter_cons_of_neg, filter_nil, append_nil, true_or, and_true]
    rw [eq_comm]
    exact filter_ne_eq_self
  · have hstays : ([last] : List Bytes).filter (· ≠ x) = [last] := by simp [hself]
    rw [hstays]
    by_cases hend : EndsInOccurrence x last
    · -- the last field only ends with the name, and is cut
      have hlt : kept.length < last.length := by
        have hpos : 0 < x.length := length_pos_iff.mpr hne
        have hle := hend.suffix.length_le
        rw [hends hend, length_take]
        omega
      have hkne : kept ≠ [] := by
        intro hnil
        have hlen := congrArg List.length (hends hend)
        rw [hnil, length_nil, length_take] at hlen
        exact hself (hend.suffix.eq_of_length (by have := hend.suffix.length_le; omega)).symm
      have hkfree : comma ∉ kept := by
        rw [hends hend]
        exact fun h => hfree (mem_of_mem_take h)
      rw [runs_singleton hkfree hkne]
      constructor
      · intro h
        have hsame := (append_inj' h rfl).2
        rw [List.cons.injEq] at hsame
        rw [hsame.1] at hlt
        exact absurd hlt (Nat.lt_irrefl _)
      · rintro ⟨-, hself' | hno⟩
        · exact absurd hself' hself
        · exact absurd hend hno
    · rw [hpasses hend, runs_singleton hfree hlast, append_cancel_right_eq, eq_comm]
      constructor
      · intro h
        exact ⟨filter_ne_eq_self.mp h, .inr hend⟩
      · rintro ⟨hno, -⟩
        exact filter_ne_eq_self.mpr hno

/-- The last of three names is taken out. -/
theorem deletes_field_last :
    DeletesField [ascii "P1", ascii "P10", ascii "P2"] (ascii "P2") :=
  (deletes_field_iff [ascii "P1", ascii "P10", ascii "P2"] (ascii "P2") (by decide) (by decide)
    (by decide)).mpr ⟨by decide, fun last hlast => .inl (by simpa using hlast.symm)⟩

/-- The first of two names stays in the list. -/
theorem not_deletes_field_first : ¬DeletesField [ascii "P1", ascii "P2"] (ascii "P1") := by
  rintro ⟨s, hdelete, hparse⟩
  have hsame : stringDeleteBySubstr (some (joinNames [ascii "P1", ascii "P2"])) (ascii "P1")
      [comma] = .ok (some (ascii "P1,P2")) := by decide
  obtain rfl : ascii "P1,P2" = s := by simpa [hsame] using hdelete
  revert hparse
  decide

end Supex.Xmq
