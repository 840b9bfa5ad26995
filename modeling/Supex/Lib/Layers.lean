import Mathlib.Order.WithBot
import Mathlib.Data.List.Basic

/-!
# Layered lists

A list in ascending order of its keys whose elements have heights: layer `l` is the
list of the elements that are higher than `l`. What a skip list links are the
elements of each layer, so what it stores is `nextAbove`: the first element of a
layer behind a key, or the first of all (`⊥`).

* `nextAbove_eq_some_iff`, `nextAbove_eq_none_iff` — what it is, by membership only.
* `Ascending.exists_insert`, `Ascending.exists_erase` — one element more, one less;
  `nextAbove_insert_new`, `nextAbove_erase_next` and so on — what it does to `nextAbove`.
* `layer_succ_sublist`, `layer_ascending` — the layers; `nextAbove_eq_head`,
  `above_key_of_cons` — how `nextAbove` goes through one.
-/

namespace Supex.Lib

open List

/-- Keys and heights. -/
structure Tall (α κ : Type) where
  key : α → κ
  height : α → Nat

namespace Tall

/-- The elements of layer `l`. -/
def layer {α κ : Type} (t : Tall α κ) (xs : List α) (l : Nat) : List α :=
  xs.filter fun y => decide (l < t.height y)

theorem layer_succ_sublist {α κ : Type} (t : Tall α κ) (xs : List α) (l : Nat) :
    (t.layer xs (l + 1)).Sublist (t.layer xs l) := by
  refine monotone_filter_right xs fun y hy => ?_
  have hlt : l + 1 < t.height y := of_decide_eq_true hy
  exact decide_eq_true (by omega)

variable {α κ : Type} [LinearOrder κ] (t : Tall α κ)

def Ascending (xs : List α) : Prop := xs.Pairwise fun a b => t.key a < t.key b

/-- The first element of layer `l` behind `b`. -/
def nextAbove (xs : List α) (b : WithBot κ) (l : Nat) : Option α :=
  xs.find? fun y => decide (b < (t.key y : WithBot κ) ∧ l < t.height y)

variable {t} {xs ys : List α} {b : WithBot κ} {l : Nat} {e y : α}

theorem Ascending.key_inj (h : t.Ascending xs) (hy : y ∈ xs) (he : e ∈ xs)
    (hkey : t.key y = t.key e) : y = e := by
  induction xs with
  | nil => exact absurd hy not_mem_nil
  | cons x xs ih =>
    obtain ⟨hhead, htail⟩ := pairwise_cons.mp h
    rcases mem_cons.mp hy with rfl | hy' <;> rcases mem_cons.mp he with rfl | he'
    · rfl
    · exact absurd hkey (hhead e he').ne
    · exact absurd hkey (hhead y hy').ne'
    · exact ih htail hy' he'

theorem Ascending.exists_insert (h : t.Ascending xs) (hnew : ∀ z ∈ xs, t.key z ≠ t.key e) :
    ∃ ys, t.Ascending ys ∧ (∀ z, z ∈ ys ↔ z = e ∨ z ∈ xs) ∧ ys.length = xs.length + 1 := by
  induction xs with
  | nil => exact ⟨[e], pairwise_singleton _ _, by simp, rfl⟩
  | cons x xs ih =>
    obtain ⟨hhead, htail⟩ := pairwise_cons.mp h
    rcases lt_or_gt_of_ne (hnew x (.head _)) with hlt | hgt
    · obtain ⟨ys, hys, hmem, hlen⟩ := ih htail fun z hz => hnew z (.tail _ hz)
      refine ⟨x :: ys, pairwise_cons.mpr ⟨fun z hz => ?_, hys⟩, fun z => ?_, by simp [hlen]⟩
      · rcases (hmem z).mp hz with rfl | hz
        · exact hlt
        · exact hhead z hz
      · rw [mem_cons, hmem, mem_cons]
        exact or_left_comm
    · refine ⟨e :: x :: xs, pairwise_cons.mpr ⟨fun z hz => ?_, h⟩, fun z => ?_, rfl⟩
      · rcases mem_cons.mp hz with rfl | hz
        · exact hgt
        · exact hgt.trans (hhead z hz)
      · exact mem_cons

theorem Ascending.exists_erase (h : t.Ascending xs) (he : e ∈ xs) :
    ∃ ys, t.Ascending ys ∧ (∀ z, z ∈ ys ↔ z ∈ xs ∧ z ≠ e) ∧ xs.length = ys.length + 1 := by
  induction xs with
  | nil => exact absurd he not_mem_nil
  | cons x xs ih =>
    obtain ⟨hhead, htail⟩ := pairwise_cons.mp h
    by_cases hxe : x = e
    · subst hxe
      refine ⟨xs, htail, fun z => ?_, rfl⟩
      constructor
      · intro hz
        exact ⟨.tail _ hz, fun hzx => absurd (hhead z hz) (hzx ▸ lt_irrefl _)⟩
      · rintro ⟨hz, hne⟩
        exact (mem_cons.mp hz).resolve_left hne
    · obtain ⟨ys, hys, hmem, hlen⟩ := ih htail ((mem_cons.mp he).resolve_left (Ne.symm hxe))
      refine ⟨x :: ys, pairwise_cons.mpr ⟨fun z hz => hhead z ((hmem z).mp hz).1, hys⟩,
        fun z => ?_, by simp [hlen]⟩
      rw [mem_cons, hmem, mem_cons]
      constructor
      · rintro (rfl | ⟨hz, hne⟩)
        · exact ⟨Or.inl rfl, hxe⟩
        · exact ⟨Or.inr hz, hne⟩
      · rintro ⟨rfl | hz, hne⟩
        · exact Or.inl rfl
        · exact Or.inr ⟨hz, hne⟩

theorem nextAbove_eq_none_iff :
    t.nextAbove xs b l = none ↔ ∀ z ∈ xs, b < t.key z → ¬ l < t.height z := by
  simp [nextAbove, find?_eq_none]

theorem nextAbove_eq_some_iff (h : t.Ascending xs) : t.nextAbove xs b l = some y ↔
    y ∈ xs ∧ b < t.key y ∧ l < t.height y ∧
      ∀ z ∈ xs, b < t.key z → l < t.height z → t.key y ≤ t.key z := by
  induction xs with
  | nil => simp [nextAbove]
  | cons x xs ih =>
    obtain ⟨hhead, htail⟩ := pairwise_cons.mp h
    have hcons : t.nextAbove (x :: xs) b l =
        if b < t.key x ∧ l < t.height x then some x else t.nextAbove xs b l := by
      unfold nextAbove
      rw [find?_cons]
      by_cases hx : b < t.key x ∧ l < t.height x <;> simp [hx]
    rw [hcons]
    by_cases hx : b < t.key x ∧ l < t.height x
    · rw [if_pos hx]
      constructor
      · intro hxy
        obtain rfl := Option.some.inj hxy
        refine ⟨.head _, hx.1, hx.2, fun z hz _ _ => ?_⟩
        rcases mem_cons.mp hz with rfl | hz
        · exact le_rfl
        · exact (hhead z hz).le
      · rintro ⟨hy, -, -, hmin⟩
        rcases mem_cons.mp hy with rfl | hy
        · rfl
        · exact absurd (hmin x (.head _) hx.1 hx.2) (not_le_of_gt (hhead y hy))
    · rw [if_neg hx, ih htail, forall_mem_cons]
      constructor
      · rintro ⟨hy, hb, hl, hmin⟩
        exact ⟨.tail _ hy, hb, hl, fun hbx hlx => absurd ⟨hbx, hlx⟩ hx, hmin⟩
      · rintro ⟨hy, hb, hl, -, hmin⟩
        rcases mem_cons.mp hy with rfl | hy
        · exact absurd ⟨hb, hl⟩ hx
        · exact ⟨hy, hb, hl, hmin⟩

theorem nextAbove_congr (hx : t.Ascending xs) (hy : t.Ascending ys) {b' : WithBot κ}
    (h : ∀ z, (z ∈ xs ∧ b < t.key z ∧ l < t.height z) ↔
      (z ∈ ys ∧ b' < t.key z ∧ l < t.height z)) :
    t.nextAbove xs b l = t.nextAbove ys b' l := by
  apply Option.ext
  intro z
  rw [nextAbove_eq_some_iff hx, nextAbove_eq_some_iff hy]
  constructor
  · rintro ⟨hz, hb, hl, hmin⟩
    obtain ⟨hz', hb', -⟩ := (h z).mp ⟨hz, hb, hl⟩
    refine ⟨hz', hb', hl, fun w hw hbw hlw => ?_⟩
    obtain ⟨hw', hbw', -⟩ := (h w).mpr ⟨hw, hbw, hlw⟩
    exact hmin w hw' hbw' hlw
  · rintro ⟨hz, hb, hl, hmin⟩
    obtain ⟨hz', hb', -⟩ := (h z).mpr ⟨hz, hb, hl⟩
    refine ⟨hz', hb', hl, fun w hw hbw hlw => ?_⟩
    obtain ⟨hw', hbw', -⟩ := (h w).mp ⟨hw, hbw, hlw⟩
    exact hmin w hw' hbw' hlw

theorem nextAbove_of_gap (h : t.Ascending xs) {k : κ} (hb : b < k)
    (hgap : ∀ z ∈ xs, b < t.key z → l < t.height z → k < t.key z) :
    t.nextAbove xs b l = t.nextAbove xs k l := by
  refine nextAbove_congr h h fun z => ?_
  constructor
  · rintro ⟨hz, hbz, hl⟩
    exact ⟨hz, WithBot.coe_lt_coe.mpr (hgap z hz hbz hl), hl⟩
  · rintro ⟨hz, hkz, hl⟩
    exact ⟨hz, hb.trans hkz, hl⟩

theorem nextAbove_insert_new (hy : t.Ascending ys) (hmem : ∀ z, z ∈ ys ↔ z = e ∨ z ∈ xs)
    (hb : b < t.key e) (hl : l < t.height e)
    (hmin : ∀ z ∈ xs, b < t.key z → l < t.height z → t.key e ≤ t.key z) :
    t.nextAbove ys b l = some e := by
  refine (nextAbove_eq_some_iff hy).mpr ⟨(hmem e).mpr (Or.inl rfl), hb, hl, fun z hz hbz hlz => ?_⟩
  rcases (hmem z).mp hz with rfl | hz
  · exact le_rfl
  · exact hmin z hz hbz hlz

theorem nextAbove_insert_old (hx : t.Ascending xs) (hy : t.Ascending ys)
    (hmem : ∀ z, z ∈ ys ↔ z = e ∨ z ∈ xs)
    (h : ¬ (b < t.key e ∧ l < t.height e ∧
      ∀ z ∈ xs, b < t.key z → l < t.height z → t.key e ≤ t.key z)) :
    t.nextAbove ys b l = t.nextAbove xs b l := by
  apply Option.ext
  intro y
  rw [nextAbove_eq_some_iff hy, nextAbove_eq_some_iff hx]
  constructor
  · rintro ⟨hyy, hb, hl, hmin⟩
    rcases (hmem y).mp hyy with rfl | hyx
    · exact absurd ⟨hb, hl, fun z hz => hmin z ((hmem z).mpr (Or.inr hz))⟩ h
    · exact ⟨hyx, hb, hl, fun z hz => hmin z ((hmem z).mpr (Or.inr hz))⟩
  · rintro ⟨hyx, hb, hl, hmin⟩
    refine ⟨(hmem y).mpr (Or.inr hyx), hb, hl, fun z hz hbz hlz => ?_⟩
    rcases (hmem z).mp hz with rfl | hz
    · by_contra hlt
      exact h ⟨hbz, hlz, fun w hw hbw hlw => ((not_le.mp hlt).trans_le (hmin w hw hbw hlw)).le⟩
    · exact hmin z hz hbz hlz

theorem nextAbove_erase_next (hx : t.Ascending xs) (hy : t.Ascending ys)
    (hmem : ∀ z, z ∈ ys ↔ z ∈ xs ∧ z ≠ e) (h : t.nextAbove xs b l = some e) :
    t.nextAbove ys b l = t.nextAbove xs (t.key e) l := by
  obtain ⟨he, hb, hl, hmin⟩ := (nextAbove_eq_some_iff hx).mp h
  refine nextAbove_congr hy hx fun z => ?_
  constructor
  · rintro ⟨hz, hbz, hlz⟩
    obtain ⟨hz, hne⟩ := (hmem z).mp hz
    refine ⟨hz, WithBot.coe_lt_coe.mpr ?_, hlz⟩
    exact lt_of_le_of_ne (hmin z hz hbz hlz) fun hkey => hne (hx.key_inj hz he hkey.symm)
  · rintro ⟨hz, hkz, hlz⟩
    exact ⟨(hmem z).mpr ⟨hz, fun hze => absurd (hze ▸ hkz) (lt_irrefl _)⟩, hb.trans hkz, hlz⟩

theorem nextAbove_erase_other (hx : t.Ascending xs) (hy : t.Ascending ys)
    (hmem : ∀ z, z ∈ ys ↔ z ∈ xs ∧ z ≠ e) (h : t.nextAbove xs b l ≠ some e) :
    t.nextAbove ys b l = t.nextAbove xs b l := by
  apply Option.ext
  intro y
  rw [nextAbove_eq_some_iff hy, nextAbove_eq_some_iff hx]
  constructor
  · rintro ⟨hyy, hb, hl, hmin⟩
    obtain ⟨hyx, hne⟩ := (hmem y).mp hyy
    refine ⟨hyx, hb, hl, fun z hz hbz hlz => ?_⟩
    by_cases hze : z = e
    · subst hze
      by_contra hlt
      refine h ((nextAbove_eq_some_iff hx).mpr ⟨hz, hbz, hlz, fun w hw hbw hlw => ?_⟩)
      by_cases hwz : w = z
      · rw [hwz]
      · exact ((not_le.mp hlt).trans_le (hmin w ((hmem w).mpr ⟨hw, hwz⟩) hbw hlw)).le
    · exact hmin z ((hmem z).mpr ⟨hz, hze⟩) hbz hlz
  · rintro ⟨hyx, hb, hl, hmin⟩
    refine ⟨(hmem y).mpr ⟨hyx, ?_⟩, hb, hl, fun z hz => hmin z ((hmem z).mp hz).1⟩
    rintro rfl
    exact h ((nextAbove_eq_some_iff hx).mpr ⟨hyx, hb, hl, hmin⟩)

theorem layer_ascending (h : t.Ascending xs) (l : Nat) : t.Ascending (t.layer xs l) := h.filter _

--
-- Going through a layer
--

/-- What of layer `l` lies behind `b`. -/
def above (t : Tall α κ) (xs : List α) (b : WithBot κ) (l : Nat) : List α :=
  (t.layer xs l).filter fun y => decide (b < (t.key y : WithBot κ))

@[simp] theorem above_bot (xs : List α) (l : Nat) : t.above xs ⊥ l = t.layer xs l :=
  filter_eq_self.mpr fun _ _ => decide_eq_true (WithBot.bot_lt_coe _)

theorem above_length_le (xs : List α) (b : WithBot κ) (l : Nat) :
    (t.above xs b l).length ≤ xs.length :=
  (length_filter_le _ _).trans (length_filter_le _ _)

theorem nextAbove_eq_head (xs : List α) (b : WithBot κ) (l : Nat) :
    t.nextAbove xs b l = (t.above xs b l).head? := by
  unfold nextAbove above layer
  rw [filter_filter, head?_filter]
  congr 1
  funext y
  exact Bool.decide_and _ _

theorem above_key_of_cons (h : t.Ascending xs) {rest : List α}
    (hcons : t.above xs b l = y :: rest) : t.above xs (t.key y) l = rest := by
  have hlayer := layer_ascending h l
  unfold above at hcons ⊢
  generalize t.layer xs l = zs at hlayer hcons
  induction zs with
  | nil => exact absurd hcons (cons_ne_nil _ _).symm
  | cons z zs ih =>
    obtain ⟨hhead, htail⟩ := pairwise_cons.mp hlayer
    by_cases hz : b < t.key z
    · have hkeep {c : WithBot κ} (hc : c ≤ t.key z) :
          zs.filter (fun w => decide (c < (t.key w : WithBot κ))) = zs :=
        filter_eq_self.mpr fun w hw =>
          decide_eq_true (hc.trans_lt (WithBot.coe_lt_coe.mpr (hhead w hw)))
      simp only [filter_cons, hz, decide_true, if_true, hkeep hz.le, List.cons.injEq] at hcons
      obtain ⟨rfl, rfl⟩ := hcons
      simp only [filter_cons, lt_irrefl, decide_false, Bool.false_eq_true, if_false,
        hkeep le_rfl]
    · simp only [filter_cons, hz, decide_false, Bool.false_eq_true, if_false] at hcons
      have hy : b < t.key y := by
        have hmem : y ∈ zs.filter fun w => decide (b < (t.key w : WithBot κ)) :=
          hcons ▸ .head _
        exact of_decide_eq_true (mem_filter.mp hmem).2
      have hlt : ¬ (t.key y : WithBot κ) < t.key z :=
        not_lt.mpr ((not_lt.mp hz).trans hy.le)
      simp only [filter_cons, hlt, decide_false, Bool.false_eq_true, if_false]
      exact ih htail hcons

end Tall

end Supex.Lib
