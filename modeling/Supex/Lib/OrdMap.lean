import Mathlib.Order.Lattice
import Mathlib.Data.List.Basic

/-!
# Ordered maps

A finite map over a linear order, kept as its entries in key order. This is
what an ordered key/value store offers: point reads and writes, and an iterator
that can be placed at the first key at or behind a given one (`seek`) or at the
last key (`last`).

* `get_insert`, `get_erase` — the point operations.
* `seek_eq_some_iff`, `last_eq_some_iff` — an iterator position is determined by
  the keys of the map alone.
-/

namespace Supex.Lib

open List

/-- A finite map as its entries, with strictly increasing keys. -/
structure OrdMap (κ ν : Type) [LinearOrder κ] where
  entries : List (κ × ν)
  sorted : entries.Pairwise fun a b => a.1 < b.1

namespace OrdMap

variable {κ ν : Type} [LinearOrder κ]

/-- The map without entries. -/
def empty : OrdMap κ ν := ⟨[], List.Pairwise.nil⟩

/-- Point lookup. -/
def get (m : OrdMap κ ν) (k : κ) : Option ν := (m.entries.find? (·.1 = k)).map Prod.snd

/-- Insertion into a sorted list of entries; an entry with the same key is
replaced. -/
def insertEntry (k : κ) (v : ν) : List (κ × ν) → List (κ × ν)
  | [] => [(k, v)]
  | e :: es =>
    if k < e.1 then (k, v) :: e :: es
    else if e.1 < k then e :: insertEntry k v es
    else (k, v) :: es

theorem mem_insertEntry {k : κ} {v : ν} {es : List (κ × ν)} {e : κ × ν}
    (h : e ∈ insertEntry k v es) : e = (k, v) ∨ e ∈ es := by
  induction es with
  | nil => simpa [insertEntry] using h
  | cons e' es ih =>
    rw [insertEntry] at h
    split_ifs at h with h₁ h₂
    · simpa using h
    · rcases mem_cons.mp h with rfl | h
      · exact .inr (.head _)
      · exact (ih h).imp_right (mem_cons_of_mem _)
    · rcases mem_cons.mp h with rfl | h
      · exact .inl rfl
      · exact .inr (.tail _ h)

theorem insertEntry_sorted (k : κ) (v : ν) {es : List (κ × ν)}
    (h : es.Pairwise fun a b => a.1 < b.1) :
    (insertEntry k v es).Pairwise fun a b => a.1 < b.1 := by
  induction es with
  | nil => simp [insertEntry]
  | cons e es ih =>
    obtain ⟨hhead, htail⟩ := pairwise_cons.mp h
    rw [insertEntry]
    split_ifs with h₁ h₂
    · refine pairwise_cons.mpr ⟨fun b hb => ?_, h⟩
      rcases mem_cons.mp hb with rfl | hb
      · exact h₁
      · exact h₁.trans (hhead b hb)
    · refine pairwise_cons.mpr ⟨fun b hb => ?_, ih htail⟩
      rcases mem_insertEntry hb with rfl | hb
      · exact h₂
      · exact hhead b hb
    · have heq : e.1 = k := le_antisymm (not_lt.mp h₁) (not_lt.mp h₂)
      exact pairwise_cons.mpr ⟨fun b hb => heq ▸ hhead b hb, htail⟩

/-- Point write. -/
def insert (m : OrdMap κ ν) (k : κ) (v : ν) : OrdMap κ ν :=
  ⟨insertEntry k v m.entries, insertEntry_sorted k v m.sorted⟩

/-- Point deletion. -/
def erase (m : OrdMap κ ν) (k : κ) : OrdMap κ ν :=
  ⟨m.entries.filter (·.1 ≠ k), m.sorted.filter _⟩

/-- The first entry whose key is not below `k`. -/
def seek (m : OrdMap κ ν) (k : κ) : Option (κ × ν) := m.entries.find? (k ≤ ·.1)

/-- The entry with the greatest key. -/
def last (m : OrdMap κ ν) : Option (κ × ν) := m.entries.getLast?

/-! ## Point operations -/

@[simp] theorem get_empty (k : κ) : (empty : OrdMap κ ν).get k = none := rfl

theorem find?_key_eq {es : List (κ × ν)} (h : es.Pairwise fun a b => a.1 < b.1) {e : κ × ν}
    (he : e ∈ es) : es.find? (·.1 = e.1) = some e := by
  induction es with
  | nil => simp at he
  | cons e' es ih =>
    obtain ⟨hhead, htail⟩ := pairwise_cons.mp h
    rcases mem_cons.mp he with rfl | he
    · simp
    · have hne : e'.1 ≠ e.1 := (hhead e he).ne
      rw [find?_cons, decide_eq_false hne]
      exact ih htail he

theorem mem_entries_iff {m : OrdMap κ ν} {k : κ} {v : ν} :
    (k, v) ∈ m.entries ↔ m.get k = some v := by
  constructor
  · intro h
    rw [get, find?_key_eq m.sorted h]
    rfl
  · intro h
    obtain ⟨e, hfind, rfl⟩ := Option.map_eq_some_iff.mp h
    have hk : e.1 = k := by simpa using find?_some hfind
    subst hk
    exact mem_of_find?_eq_some hfind

theorem entries_eq_of_mem_iff {m : OrdMap κ ν} {es : List (κ × ν)}
    (hes : es.Pairwise fun a b => a.1 < b.1) (h : ∀ e, e ∈ m.entries ↔ e ∈ es) :
    m.entries = es := by
  have hnodup {l : List (κ × ν)} (hl : l.Pairwise fun a b => a.1 < b.1) : l.Nodup :=
    hl.imp fun {a b} hlt => ne_of_apply_ne Prod.fst hlt.ne
  have hperm : m.entries.Perm es :=
    (perm_ext_iff_of_nodup (hnodup m.sorted) (hnodup hes)).mpr h
  exact hperm.eq_of_pairwise (fun a b _ _ hab hba => absurd hba (lt_asymm hab)) m.sorted hes

theorem find?_insertEntry (k : κ) (v : ν) (es : List (κ × ν)) (k' : κ) :
    ((insertEntry k v es).find? (·.1 = k')).map Prod.snd =
      if k' = k then some v else (es.find? (·.1 = k')).map Prod.snd := by
  induction es with
  | nil =>
    by_cases hk : k' = k
    · simp [insertEntry, hk]
    · simp [insertEntry, hk, Ne.symm hk]
  | cons e es ih =>
    rw [insertEntry]
    by_cases hk : k' = k
    · subst hk
      rw [if_pos rfl] at ih ⊢
      split_ifs with h₁ h₂
      · simp
      · rw [find?_cons, decide_eq_false h₂.ne]
        exact ih
      · simp
    · rw [if_neg hk] at ih ⊢
      split_ifs with h₁ h₂
      · simp [Ne.symm hk]
      · rw [find?_cons, find?_cons]
        by_cases he : e.1 = k'
        · simp [he]
        · simpa [he] using ih
      · have heq : e.1 = k := le_antisymm (not_lt.mp h₁) (not_lt.mp h₂)
        simp [heq, Ne.symm hk]

theorem get_insert (m : OrdMap κ ν) (k : κ) (v : ν) (k' : κ) :
    (m.insert k v).get k' = if k' = k then some v else m.get k' :=
  find?_insertEntry k v m.entries k'

theorem get_erase (m : OrdMap κ ν) (k k' : κ) :
    (m.erase k).get k' = if k' = k then none else m.get k' := by
  rw [get, get, erase, find?_filter]
  by_cases hk : k' = k
  · rw [if_pos hk, find?_eq_none.mpr]
    · rfl
    · intro e _
      simp [hk]
  · rw [if_neg hk]
    congr 2
    funext e
    by_cases he : e.1 = k'
    · simp [he, hk]
    · simp [he]

theorem erase_of_none {m : OrdMap κ ν} {k : κ} (h : m.get k = none) : m.erase k = m := by
  obtain ⟨es, hes⟩ := m
  have hall : es.filter (fun e => decide (e.1 ≠ k)) = es := by
    refine filter_eq_self.mpr fun e he => decide_eq_true fun hek => ?_
    have hget : (⟨es, hes⟩ : OrdMap κ ν).get e.1 = some e.2 := mem_entries_iff.mp he
    rw [hek, h] at hget
    cases hget
  unfold erase
  congr

theorem length_insert_of_none {m : OrdMap κ ν} {k : κ} (h : m.get k = none) (v : ν) :
    (m.insert k v).entries.length = m.entries.length + 1 := by
  obtain ⟨es, hes⟩ := m
  have hne : ∀ e ∈ es, e.1 ≠ k := by
    intro e he hek
    have hget : (⟨es, hes⟩ : OrdMap κ ν).get e.1 = some e.2 := mem_entries_iff.mp he
    rw [hek, h] at hget
    cases hget
  clear h
  change (insertEntry k v es).length = es.length + 1
  induction es with
  | nil => rfl
  | cons e es ih =>
    rw [insertEntry]
    by_cases hlt : k < e.1
    · rw [if_pos hlt]
      rfl
    · have hgt : e.1 < k := lt_of_le_of_ne (not_lt.mp hlt) (hne e (.head _))
      rw [if_neg hlt, if_pos hgt, length_cons, length_cons,
        ih (pairwise_cons.mp hes).2 fun e' he' => hne e' (.tail _ he')]

theorem length_erase_of_some {m : OrdMap κ ν} {k : κ} {v : ν} (h : m.get k = some v) :
    m.entries.length = (m.erase k).entries.length + 1 := by
  obtain ⟨es, hes⟩ := m
  obtain ⟨before, after, rfl⟩ := append_of_mem (mem_entries_iff.mpr h)
  obtain ⟨-, htail, hcross⟩ := pairwise_append.mp hes
  have hbefore : before.filter (fun e => decide (e.1 ≠ k)) = before :=
    filter_eq_self.mpr fun e he =>
      decide_eq_true (hcross e he (k, v) (.head _)).ne
  have hafter : after.filter (fun e => decide (e.1 ≠ k)) = after :=
    filter_eq_self.mpr fun e he =>
      decide_eq_true ((pairwise_cons.mp htail).1 e he).ne'
  change (before ++ (k, v) :: after).length =
    ((before ++ (k, v) :: after).filter fun e => decide (e.1 ≠ k)).length + 1
  rw [filter_append, filter_cons, hbefore, hafter]
  simp
  omega

theorem length_insert_of_some {m : OrdMap κ ν} {k : κ} {v : ν} (h : m.get k = some v) (w : ν) :
    (m.insert k w).entries.length = m.entries.length := by
  have hnew : (m.insert k w).get k = some w := by rw [get_insert, if_pos rfl]
  have herase : ((m.insert k w).erase k).entries = (m.erase k).entries := by
    refine entries_eq_of_mem_iff (m.erase k).sorted ?_
    rintro ⟨k', v'⟩
    rw [mem_entries_iff, mem_entries_iff, get_erase, get_erase, get_insert]
    by_cases hk : k' = k
    · rw [if_pos hk, if_pos hk]
    · rw [if_neg hk, if_neg hk, if_neg hk]
  rw [length_erase_of_some h, length_erase_of_some hnew, herase]

/-! ## Iterators -/

theorem seek_eq_some_iff {m : OrdMap κ ν} {k k' : κ} {v : ν} :
    m.seek k = some (k', v) ↔
      m.get k' = some v ∧ k ≤ k' ∧ ∀ k'' v'', m.get k'' = some v'' → k ≤ k'' → k' ≤ k'' := by
  obtain ⟨es, hes⟩ := m
  constructor
  · intro h
    obtain ⟨hle, l₁, l₂, rfl, hbefore⟩ := find?_eq_some_iff_append.mp h
    refine ⟨mem_entries_iff.mp (by simp), by simpa using hle, ?_⟩
    intro k'' v'' hget hk''
    have hmem := mem_entries_iff.mpr hget
    rcases mem_append.mp hmem with hmem | hmem
    · have := hbefore _ hmem
      simp [hk''] at this
    · rcases mem_cons.mp hmem with heq | hmem
      · rw [Prod.mk.injEq] at heq
        exact heq.1.ge
      · have htail := (pairwise_append.mp hes).2.1
        exact ((pairwise_cons.mp htail).1 _ hmem).le
  · rintro ⟨hget, hle, hmin⟩
    have hmem := mem_entries_iff.mpr hget
    obtain ⟨l₁, l₂, rfl⟩ := append_of_mem hmem
    refine find?_eq_some_iff_append.mpr ⟨by simpa using hle, l₁, l₂, rfl, ?_⟩
    intro e he
    -- an earlier entry that is not below `k` would be a smaller such key
    have hlt : e.1 < k' := (pairwise_append.mp hes).2.2 e he _ (.head _)
    by_contra hcon
    have hke : k ≤ e.1 := by simpa using hcon
    have hgete : (⟨l₁ ++ (k', v) :: l₂, hes⟩ : OrdMap κ ν).get e.1 = some e.2 :=
      mem_entries_iff.mp (mem_append_left _ he)
    exact absurd (hmin e.1 e.2 hgete hke) (not_le.mpr hlt)

theorem last_eq_some_iff {m : OrdMap κ ν} {k : κ} {v : ν} :
    m.last = some (k, v) ↔ m.get k = some v ∧ ∀ k' v', m.get k' = some v' → k' ≤ k := by
  obtain ⟨es, hes⟩ := m
  constructor
  · intro h
    obtain ⟨l, rfl⟩ := getLast?_eq_some_iff.mp h
    refine ⟨mem_entries_iff.mp (by simp), ?_⟩
    intro k' v' hget
    rcases mem_append.mp (mem_entries_iff.mpr hget) with hmem | hmem
    · exact ((pairwise_append.mp hes).2.2 _ hmem _ (.head _)).le
    · have : (k', v') = (k, v) := by simpa using hmem
      rw [Prod.mk.injEq] at this
      exact this.1.le
  · rintro ⟨hget, hmax⟩
    obtain ⟨l₁, l₂, rfl⟩ := append_of_mem (mem_entries_iff.mpr hget)
    rcases l₂ with - | ⟨e, l₂⟩
    · simp [last]
    · -- an entry behind it would have a greater key
      have htail := (pairwise_append.mp hes).2.1
      have hlt : k < e.1 := (pairwise_cons.mp htail).1 e (.head _)
      have hgete : (⟨l₁ ++ (k, v) :: e :: l₂, hes⟩ : OrdMap κ ν).get e.1 = some e.2 :=
        mem_entries_iff.mp (by simp)
      exact absurd (hmax e.1 e.2 hgete) (not_le.mpr hlt)

theorem last_eq_none_iff {m : OrdMap κ ν} : m.last = none ↔ ∀ k, m.get k = none := by
  rw [last, getLast?_eq_none_iff]
  constructor
  · intro h k
    rw [get, h]
    rfl
  · intro h
    cases hes : m.entries with
    | nil => rfl
    | cons e es =>
      have hmem : (e.1, e.2) ∈ m.entries := by rw [hes]; exact .head _
      rw [mem_entries_iff, h] at hmem
      cases hmem

end OrdMap

end Supex.Lib
