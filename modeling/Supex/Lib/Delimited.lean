import Mathlib.Data.List.Basic
import Mathlib.Data.List.Count

/-!
# Delimited pieces

A stream of pieces, each with a start mark in front, a stop mark at its end and
neither mark in between.

* `flatten_start_iff`, `flatten_stop_iff` — in the stream the marks stand exactly
  at the ends of the pieces.
* `flatten_unique` — the stream is cut into pieces in one way only.
* `count_take_start`, `count_take_stop` — a piece that is cut short has its start
  mark and lacks its stop mark; `count_flatten` counts those of whole pieces.

With separators instead of marks:

* `exists_pieces` — every list is pieces without the separator and separators between
  them.

Main result: `cut_pieces_iff`.
-/

namespace Supex.Lib

open List

variable {α : Type*} {s e : α}

/-- A start mark, something without marks, a stop mark. -/
def Delimited (s e : α) (p : List α) : Prop := ∃ x, p = s :: x ++ [e] ∧ s ∉ x ∧ e ∉ x

theorem Delimited.length_pos {p : List α} (h : Delimited s e p) : 0 < p.length := by
  obtain ⟨x, rfl, -⟩ := h
  simp

--
-- Where the marks stand
--

theorem Delimited.start_iff {p : List α} (h : Delimited s e p) (hne : s ≠ e) (i : Nat) :
    p[i]? = some s ↔ i = 0 := by
  obtain ⟨x, rfl, hs, -⟩ := h
  cases i with
  | zero => simp
  | succ i =>
    rw [cons_append, getElem?_cons_succ]
    refine iff_of_false (fun hget => ?_) (Nat.succ_ne_zero i)
    rcases mem_append.mp (mem_of_getElem? hget) with hmem | hmem
    · exact hs hmem
    · exact hne (mem_singleton.mp hmem)

theorem Delimited.stop_iff {p : List α} (h : Delimited s e p) (hne : s ≠ e) (i : Nat) :
    p[i]? = some e ↔ i + 1 = p.length := by
  obtain ⟨x, rfl, -, he⟩ := h
  rcases Nat.lt_trichotomy i (s :: x).length with hlt | heq | hgt
  · rw [getElem?_append_left hlt, length_append, length_singleton]
    refine iff_of_false (fun hget => ?_) (by omega)
    rcases mem_cons.mp (mem_of_getElem? hget) with hmem | hmem
    · exact hne hmem.symm
    · exact he hmem
  · rw [heq, getElem?_append_right (Nat.le_refl _), Nat.sub_self, length_append]
    exact iff_of_true rfl rfl
  · rw [getElem?_eq_none (by rw [length_append, length_singleton]; omega),
      length_append, length_singleton]
    exact iff_of_false nofun (by omega)

theorem flatten_getElem?_iff {ps : List (List α)} {x : α} (off : List α → Nat)
    (h : ∀ p ∈ ps, off p < p.length ∧ ∀ i, p[i]? = some x ↔ i = off p) (i : Nat) :
    ps.flatten[i]? = some x ↔
      ∃ k p, ps[k]? = some p ∧ i = (ps.take k).flatten.length + off p := by
  induction ps generalizing i with
  | nil => simp
  | cons p ps ih =>
    obtain ⟨hoff, hp⟩ := h p (.head _)
    have ih := ih fun q hq => h q (mem_cons_of_mem p hq)
    rw [flatten_cons]
    by_cases hi : i < p.length
    · rw [getElem?_append_left hi, hp]
      constructor
      · rintro rfl
        exact ⟨0, p, rfl, (Nat.zero_add _).symm⟩
      · rintro ⟨k, q, hq, rfl⟩
        cases k with
        | zero =>
          obtain rfl : p = q := Option.some.inj hq
          exact Nat.zero_add _
        | succ k =>
          rw [take_succ_cons, flatten_cons, length_append] at hi
          omega
    · rw [getElem?_append_right (by omega), ih]
      constructor
      · rintro ⟨k, q, hq, heq⟩
        refine ⟨k + 1, q, hq, ?_⟩
        rw [take_succ_cons, flatten_cons, length_append]
        omega
      · rintro ⟨k, q, hq, rfl⟩
        cases k with
        | zero =>
          obtain rfl : p = q := Option.some.inj hq
          rw [take_zero, flatten_nil, length_nil] at hi
          omega
        | succ k =>
          refine ⟨k, q, hq, ?_⟩
          rw [take_succ_cons, flatten_cons, length_append]
          omega

theorem take_succ_flatten {ps : List (List α)} {k : Nat} {p : List α} (h : ps[k]? = some p) :
    (ps.take (k + 1)).flatten.length = (ps.take k).flatten.length + p.length := by
  rw [take_add_one, h, flatten_append, length_append]
  simp

theorem flatten_start_iff (hne : s ≠ e) {ps : List (List α)} (h : ∀ p ∈ ps, Delimited s e p)
    (i : Nat) : ps.flatten[i]? = some s ↔ ∃ k < ps.length, i = (ps.take k).flatten.length := by
  rw [flatten_getElem?_iff (fun _ => 0) fun p hp => ⟨(h p hp).length_pos, (h p hp).start_iff hne⟩]
  constructor
  · rintro ⟨k, p, hp, rfl⟩
    exact ⟨k, (List.getElem?_eq_some_iff.mp hp).1, rfl⟩
  · rintro ⟨k, hk, rfl⟩
    exact ⟨k, ps[k], getElem?_eq_getElem hk, rfl⟩

theorem flatten_stop_iff (hne : s ≠ e) {ps : List (List α)} (h : ∀ p ∈ ps, Delimited s e p)
    (i : Nat) :
    ps.flatten[i]? = some e ↔ ∃ k < ps.length, i + 1 = (ps.take (k + 1)).flatten.length := by
  rw [flatten_getElem?_iff (fun p => p.length - 1) fun p hp => ⟨?_, fun i => ?_⟩]
  · constructor
    · rintro ⟨k, p, hp, rfl⟩
      refine ⟨k, (List.getElem?_eq_some_iff.mp hp).1, ?_⟩
      have := (h p (mem_of_getElem? hp)).length_pos
      rw [take_succ_flatten hp]
      omega
    · rintro ⟨k, hk, heq⟩
      have hp := getElem?_eq_getElem hk
      refine ⟨k, ps[k], hp, ?_⟩
      have := (h ps[k] (getElem_mem hk)).length_pos
      rw [take_succ_flatten hp] at heq
      omega
  · have := (h p hp).length_pos
    omega
  · have := (h p hp).length_pos
    rw [(h p hp).stop_iff hne]
    omega

--
-- One way to cut
--

theorem append_cons_inj {a : α} {x y u v : List α} (hx : a ∉ x) (hy : a ∉ y)
    (h : x ++ a :: u = y ++ a :: v) : x = y ∧ u = v := by
  induction x generalizing y with
  | nil =>
    cases y with
    | nil => exact ⟨rfl, (List.cons.inj h).2⟩
    | cons b y => exact absurd ((List.cons.inj h).1 ▸ .head _) hy
  | cons b x ih =>
    cases y with
    | nil => exact absurd ((List.cons.inj h).1 ▸ .head _) hx
    | cons c y =>
      obtain ⟨rfl, htail⟩ := List.cons.inj h
      obtain ⟨rfl, hrest⟩ := ih (fun hm => hx (.tail _ hm))
        (fun hm => hy (.tail _ hm)) htail
      exact ⟨rfl, hrest⟩

theorem append_cons_cases {a : α} {x y u v : List α} (hx : a ∉ x) (h : x ++ a :: u = y ++ a :: v) :
    (x = y ∧ u = v) ∨ ∃ w, y = x ++ a :: w ∧ u = w ++ a :: v := by
  rcases append_eq_append_iff.mp h with ⟨as, rfl, has⟩ | ⟨bs, rfl, hbs⟩
  · rcases as with _ | ⟨b, as⟩
    · exact .inl ⟨(append_nil x).symm, (List.cons.inj has).2⟩
    · obtain ⟨rfl, hu⟩ := List.cons.inj has
      exact .inr ⟨as, rfl, hu⟩
  · rcases bs with _ | ⟨b, bs⟩
    · exact .inl ⟨append_nil y, (List.cons.inj hbs).2.symm⟩
    · obtain ⟨rfl, -⟩ := List.cons.inj hbs
      exact absurd (mem_append_right y (.head _)) hx

theorem suffix_of_notMem {a : α} {p x y z : List α} (hx : a ∉ x) (h : p ++ x = y ++ a :: z) :
    ∃ w, z = w ++ x := by
  rcases append_eq_append_iff.mp h with ⟨as, rfl, rfl⟩ | ⟨bs, rfl, hbs⟩
  · exact absurd (mem_append_right as (.head _)) hx
  · rcases bs with _ | ⟨b, bs⟩
    · obtain rfl : a :: z = x := hbs
      exact absurd (.head _) hx
    · exact ⟨bs, (List.cons.inj hbs).2⟩

theorem flatten_unique {ps qs : List (List α)} (hp : ∀ p ∈ ps, Delimited s e p)
    (hq : ∀ q ∈ qs, Delimited s e q) (h : ps.flatten = qs.flatten) : ps = qs := by
  induction ps generalizing qs with
  | nil =>
    cases qs with
    | nil => rfl
    | cons q qs =>
      have := (hq q (.head _)).length_pos
      have hlen := congrArg List.length h
      rw [flatten_cons, length_append, flatten_nil, length_nil] at hlen
      omega
  | cons p ps ih =>
    cases qs with
    | nil =>
      have := (hp p (.head _)).length_pos
      have hlen := congrArg List.length h
      rw [flatten_cons, length_append, flatten_nil, length_nil] at hlen
      omega
    | cons q qs =>
      obtain ⟨x, rfl, -, hx⟩ := hp p (.head _)
      obtain ⟨y, rfl, -, hy⟩ := hq q (.head _)
      rw [flatten_cons, flatten_cons, append_assoc, append_assoc,
        cons_append, cons_append] at h
      obtain ⟨rfl, hrest⟩ := append_cons_inj hx hy (List.cons.inj h).2
      rw [ih (fun p hm => hp p (.tail _ hm))
        (fun q hm => hq q (.tail _ hm)) hrest]

--
-- Pieces cut short
--

variable [DecidableEq α]

theorem Delimited.count_take_start {p : List α} (h : Delimited s e p) (hne : s ≠ e) (n : Nat) :
    (p.take n).count s = if n = 0 then 0 else 1 := by
  obtain ⟨x, rfl, hs, -⟩ := h
  cases n with
  | zero => simp
  | succ n =>
    have hnot : s ∉ (x ++ [e]).take n := fun hm => by
      rcases mem_append.mp (mem_of_mem_take hm) with hm | hm
      · exact hs hm
      · exact hne (mem_singleton.mp hm)
    rw [cons_append, take_succ_cons, count_cons_self, count_eq_zero.mpr hnot,
      if_neg (Nat.succ_ne_zero n)]

theorem Delimited.count_take_stop {p : List α} (h : Delimited s e p) (hne : s ≠ e) (n : Nat) :
    (p.take n).count e = if p.length ≤ n then 1 else 0 := by
  obtain ⟨x, rfl, -, he⟩ := h
  have hnot : e ∉ s :: x := fun hm => (mem_cons.mp hm).elim (fun h => hne h.symm) he
  rw [length_append, length_singleton, take_append, count_append,
    count_eq_zero.mpr fun hm => hnot (mem_of_mem_take hm), Nat.zero_add]
  split
  · rw [take_of_length_le (by rw [length_singleton]; omega), count_singleton_self]
  · rw [show n - (s :: x).length = 0 by omega, take_zero, count_nil]

theorem count_flatten (hne : s ≠ e) {ps : List (List α)} (h : ∀ p ∈ ps, Delimited s e p) :
    ps.flatten.count s = ps.flatten.count e := by
  induction ps with
  | nil => rfl
  | cons p ps ih =>
    have hp := h p (.head _)
    have hpos := hp.length_pos
    have hs := hp.count_take_start hne p.length
    have he := hp.count_take_stop hne p.length
    rw [take_length, if_neg (by omega)] at hs
    rw [take_length, if_pos (Nat.le_refl _)] at he
    rw [flatten_cons, count_append, count_append, hs, he,
      ih fun q hq => h q (.tail _ hq)]

theorem count_cut_le (hne : s ≠ e) {qs : List (List α × Nat)} (h : ∀ q ∈ qs, Delimited s e q.1) :
    (qs.map fun q => q.1.take q.2).flatten.count e ≤
      (qs.map fun q => q.1.take q.2).flatten.count s := by
  induction qs with
  | nil => exact Nat.le_refl _
  | cons q qs ih =>
    have hq := h q (.head _)
    have ih := ih fun q' hq' => h q' (.tail _ hq')
    have hpos := hq.length_pos
    rw [map_cons, flatten_cons, count_append, count_append,
      hq.count_take_start hne, hq.count_take_stop hne]
    split_ifs <;> omega

theorem whole_of_count (hne : s ≠ e) {qs : List (List α × Nat)}
    (h : ∀ q ∈ qs, Delimited s e q.1 ∧ q.2 ≤ q.1.length)
    (hcount : (qs.map fun q => q.1.take q.2).flatten.count s =
      (qs.map fun q => q.1.take q.2).flatten.count e) :
    ∀ q ∈ qs, q.2 = 0 ∨ q.2 = q.1.length := by
  induction qs with
  | nil => nofun
  | cons q qs ih =>
    obtain ⟨hq, hlen⟩ := h q (.head _)
    have hrest := fun q' hq' => h q' (mem_cons_of_mem q hq')
    have hle := count_cut_le hne fun q' hq' => (hrest q' hq').1
    have hpos := hq.length_pos
    rw [map_cons, flatten_cons, count_append, count_append,
      hq.count_take_start hne, hq.count_take_stop hne] at hcount
    have hsame : (qs.map fun q => q.1.take q.2).flatten.count s =
        (qs.map fun q => q.1.take q.2).flatten.count e := by
      split_ifs at hcount <;> omega
    rw [forall_mem_cons]
    refine ⟨?_, ih hrest hsame⟩
    split_ifs at hcount <;> omega

/-- **Pieces of which only a part got through**: what is there is a sequence of
whole pieces exactly when every piece got through as a whole or not at all. -/
theorem cut_pieces_iff (hne : s ≠ e) {qs : List (List α × Nat)}
    (h : ∀ q ∈ qs, Delimited s e q.1 ∧ q.2 ≤ q.1.length) :
    (∃ ps : List (List α), ps.Sublist (qs.map Prod.fst) ∧
        (qs.map fun q => q.1.take q.2).flatten = ps.flatten) ↔
      ∀ q ∈ qs, q.2 = 0 ∨ q.2 = q.1.length := by
  constructor
  · rintro ⟨ps, hsub, hflat⟩
    refine whole_of_count hne h ?_
    rw [hflat]
    refine count_flatten hne fun p hp => ?_
    obtain ⟨q, hq, rfl⟩ := mem_map.mp (hsub.mem hp)
    exact (h q hq).1
  · intro hall
    induction qs with
    | nil => exact ⟨[], List.Sublist.slnil, rfl⟩
    | cons q qs ih =>
      rw [forall_mem_cons] at h hall
      obtain ⟨ps, hsub, hflat⟩ := ih h.2 hall.2
      rcases hall.1 with hzero | hfull
      · refine ⟨ps, hsub.cons _, ?_⟩
        rw [map_cons, flatten_cons, hzero, take_zero, nil_append, hflat]
      · refine ⟨q.1 :: ps, hsub.cons_cons _, ?_⟩
        rw [map_cons, flatten_cons, hfull, take_length, hflat, flatten_cons]

--
-- Separators
--

theorem exists_pieces (c : α) (l : List α) :
    ∃ ps : List (List α), (∀ p ∈ ps, c ∉ p) ∧ ps.length = l.count c + 1 ∧
      List.intercalate [c] ps = l ∧ (ps.map (· ++ [c])).flatten = l ++ [c] := by
  induction l with
  | nil => exact ⟨[[]], by simp, rfl, rfl, rfl⟩
  | cons b l ih =>
    obtain ⟨ps, hfree, hlen, hjoin, hflat⟩ := ih
    obtain ⟨p, ps, rfl⟩ : ∃ p ps', ps = p :: ps' :=
      exists_cons_of_length_pos (by rw [hlen]; exact Nat.succ_pos _)
    by_cases hb : b = c
    · refine ⟨[] :: p :: ps, ?_, ?_, ?_, ?_⟩
      · intro q hq
        rcases mem_cons.mp hq with rfl | hq
        · exact not_mem_nil
        · exact hfree q hq
      · rw [length_cons, hlen, hb, count_cons_self]
      · rw [intercalate_cons_cons, hjoin, hb]
        rfl
      · rw [map_cons, flatten_cons, hflat, hb]
        rfl
    · refine ⟨(b :: p) :: ps, ?_, ?_, ?_, ?_⟩
      · intro q hq
        rcases mem_cons.mp hq with rfl | hq
        · rw [mem_cons, not_or]
          exact ⟨fun h => hb h.symm, hfree p (.head _)⟩
        · exact hfree q (mem_cons_of_mem p hq)
      · rw [length_cons, ← length_cons (a := p), hlen, count_cons_of_ne hb]
      · rw [← hjoin]
        cases ps with
        | nil => rfl
        | cons q qs => rw [intercalate_cons_cons, intercalate_cons_cons]; rfl
      · rw [cons_append, ← hflat]
        rfl

end Supex.Lib
