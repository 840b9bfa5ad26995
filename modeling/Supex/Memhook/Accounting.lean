import Supex.Memhook.Hooks

/-!
# The accounting of the hooks

While a call is on its way its blocks are its own: `Pc.uses` lists them, and
`Pc.Ok` says for each what the table and the allocator know of it. No two threads and
no caller share a block (`Inv`), so a step of one thread does not touch what the
others rely on (`Inv.of_own`).
-/

namespace Supex.Memhook

open Supex.Lib List
open Function (update update_eq_self update_of_ne update_self)
open Option (some_ne_none isSome_none)

--
-- Sizes
--

variable {p ptr t : Nat} {pc : Pc} {size : UInt64} {b : Block} {bytes : Int}

theorem aligememorysize_toNat (h : size.toNat ≤ 2 ^ 63 - 8) :
    size.toNat ≤ (aligememorysize size).toNat ∧ (aligememorysize size).toNat < 2 ^ 63 := by
  unfold aligememorysize
  have h7 : (7 : UInt64).toNat = 7 := rfl
  have h8 : (8 : UInt64).toNat = 8 := rfl
  rw [UInt64.toNat_mul, UInt64.toNat_div, UInt64.toNat_add, h7, h8]
  omega

/-- What is asked for is at most the rounded size, unless it is too much. -/
def Rounded (asked : Nat) (size : UInt64) : Prop :=
  0 < size.toNat ∧ (asked ≤ 2 ^ 63 - 8 → asked ≤ size.toNat ∧ size.toNat < 2 ^ 63)

theorem Rounded.of_toNat {asked : Nat} (hne : aligememorysize size ≠ 0)
    (h : asked ≤ 2 ^ 63 - 8 → size.toNat = asked) : Rounded asked (aligememorysize size) := by
  refine ⟨?_, fun hasked => ?_⟩
  · by_contra hcon
    exact hne (UInt64.toNat_inj.mp (Nat.eq_zero_of_not_pos hcon))
  · have hsize := h hasked
    rw [← hsize] at hasked ⊢
    exact aligememorysize_toNat hasked

theorem toLong_of_lt (h : size.toNat < 2 ^ 63) : toLong size = size.toNat :=
  if_pos h

--
-- The blocks of a call
--

/-- In the table, with a size that fits. -/
def Listed (blocks : Blocks) (table : Sizes) (p : Nat) (b : Block) (bytes : Int) : Prop :=
  blocks.get p = some b ∧ table.get p = some bytes ∧ (b.asked : Int) ≤ bytes ∧ bytes ≤ b.size ∧
    bytes < 2 ^ 63 ∧ p % 8 = 0

def Kept (blocks : Blocks) (table : Sizes) (p : Nat) : Prop :=
  ∃ b bytes, Listed blocks table p b bytes

/-- Not in the table yet; `size` will fit. -/
def Unlisted (blocks : Blocks) (table : Sizes) (p : Nat) (b : Block) (size : UInt64) : Prop :=
  blocks.get p = some b ∧ table.get p = none ∧ b.asked ≤ size.toNat ∧ size.toNat ≤ b.size ∧
    size.toNat < 2 ^ 63 ∧ p % 8 = 0

/-- Not in the table any more. -/
def Dropped (blocks : Blocks) (table : Sizes) (p : Nat) : Prop :=
  blocks.get p ≠ none ∧ table.get p = none

/-- `b` has what it shares with the block of the caller. -/
def Preserves (was : Option Block) (b : Block) : Prop :=
  ∀ w, was = some w → ∀ i, i < min w.asked b.asked → b.data i = w.data i

def Pc.uses : Pc → List Nat
  | .idle => []
  | .allocating .. => []
  | .recording ptr _ _ _ => [ptr]
  | .filling ptr _ => [ptr]
  | .pulling old _ _ _ => if old = 0 then [] else [old]
  | .reallocating .. => []
  | .moving old _ _ _ _ => [old]
  | .copying old ptr _ _ _ => [old, ptr]
  | .unrecording old ptr _ _ => [old, ptr]
  | .releasing old ptr _ _ => [old, ptr]
  | .freeing ptr => [ptr]
  | .givingBack ptr => [ptr]

/-- What a call relies on. -/
def Pc.Ok (blocks : Blocks) (table : Sizes) : Pc → Prop
  | .idle => True
  | .allocating asked size _ str => Rounded asked size ∧ ∀ text ∈ str, asked = text.length + 1
  | .recording ptr size str was => ∃ b, Unlisted blocks table ptr b size ∧ Preserves was b ∧
      ∀ text ∈ str, b.asked = text.length + 1
  | .filling ptr str => ∃ b bytes, Listed blocks table ptr b bytes ∧ str.length + 1 ≤ b.size
  | .pulling old asked size was => Rounded asked size ∧
      (old = 0 → was = none) ∧
      (old ≠ 0 → ∃ b bytes, was = some b ∧ Listed blocks table old b bytes)
  | .reallocating old asked size was => Rounded asked size ∧ old = 0 ∧ was = none
  | .moving old asked size oldsize was => Rounded asked size ∧
      ∃ b bytes, was = some b ∧ Listed blocks table old b bytes ∧ oldsize = ofLong bytes
  | .copying old ptr size oldsize was => old ≠ ptr ∧
      (∃ b bytes, was = some b ∧ Listed blocks table old b bytes ∧ oldsize = ofLong bytes) ∧
      ∃ b, Unlisted blocks table ptr b size
  | .unrecording old ptr size was => old ≠ ptr ∧ Kept blocks table old ∧
      ∃ b, Unlisted blocks table ptr b size ∧ Preserves was b
  | .releasing old ptr size was => old ≠ ptr ∧ Dropped blocks table old ∧
      ∃ b, Unlisted blocks table ptr b size ∧ Preserves was b
  | .freeing ptr => Kept blocks table ptr
  | .givingBack ptr => Dropped blocks table ptr

variable {s s' : Hooks} {blocks blocks' : Blocks} {table table' : Sizes}

theorem Listed.congr (hb : blocks'.get p = blocks.get p) (ht : table'.get p = table.get p)
    (h : Listed blocks table p b bytes) : Listed blocks' table' p b bytes := by
  unfold Listed
  rw [hb, ht]
  exact h

theorem Unlisted.congr (hb : blocks'.get p = blocks.get p) (ht : table'.get p = table.get p)
    (h : Unlisted blocks table p b size) : Unlisted blocks' table' p b size := by
  unfold Unlisted
  rw [hb, ht]
  exact h

theorem Dropped.congr (hb : blocks'.get p = blocks.get p) (ht : table'.get p = table.get p)
    (h : Dropped blocks table p) : Dropped blocks' table' p := by
  unfold Dropped
  rw [hb, ht]
  exact h

theorem Pc.Ok.congr (h : pc.Ok blocks table)
    (hsame : ∀ p ∈ pc.uses, blocks'.get p = blocks.get p ∧ table'.get p = table.get p) :
    pc.Ok blocks' table' := by
  cases pc with
  | idle => trivial
  | allocating asked size zero str => exact h
  | recording ptr size str was =>
    obtain ⟨hb, ht⟩ := hsame ptr (.head _)
    obtain ⟨b, hb', hrest⟩ := h
    exact ⟨b, hb'.congr hb ht, hrest⟩
  | filling ptr str =>
    obtain ⟨hb, ht⟩ := hsame ptr (.head _)
    obtain ⟨b, bytes, hb', hrest⟩ := h
    exact ⟨b, bytes, hb'.congr hb ht, hrest⟩
  | pulling old asked size was =>
    obtain ⟨hsize, hnull, hold⟩ := h
    refine ⟨hsize, hnull, fun hne => ?_⟩
    obtain ⟨b, bytes, hwas, hb'⟩ := hold hne
    obtain ⟨hb, ht⟩ := hsame old (by simp [Pc.uses, hne])
    exact ⟨b, bytes, hwas, hb'.congr hb ht⟩
  | reallocating old asked size was => exact h
  | moving old asked size oldsize was =>
    obtain ⟨hb, ht⟩ := hsame old (.head _)
    obtain ⟨hsize, b, bytes, hwas, hb', hold⟩ := h
    exact ⟨hsize, b, bytes, hwas, hb'.congr hb ht, hold⟩
  | copying old ptr size oldsize was =>
    obtain ⟨hb, ht⟩ := hsame old (by simp [Pc.uses])
    obtain ⟨hb₂, ht₂⟩ := hsame ptr (by simp [Pc.uses])
    obtain ⟨hne, ⟨b, bytes, hwas, hb', hold⟩, c, hc⟩ := h
    exact ⟨hne, ⟨b, bytes, hwas, hb'.congr hb ht, hold⟩, c, hc.congr hb₂ ht₂⟩
  | unrecording old ptr size was =>
    obtain ⟨hb, ht⟩ := hsame old (by simp [Pc.uses])
    obtain ⟨hb₂, ht₂⟩ := hsame ptr (by simp [Pc.uses])
    obtain ⟨hne, ⟨b, bytes, hb'⟩, c, hc, hkeep⟩ := h
    exact ⟨hne, ⟨b, bytes, hb'.congr hb ht⟩, c, hc.congr hb₂ ht₂, hkeep⟩
  | releasing old ptr size was =>
    obtain ⟨hb, ht⟩ := hsame old (by simp [Pc.uses])
    obtain ⟨hb₂, ht₂⟩ := hsame ptr (by simp [Pc.uses])
    obtain ⟨hne, hdrop, c, hc, hkeep⟩ := h
    exact ⟨hne, hdrop.congr hb ht, c, hc.congr hb₂ ht₂, hkeep⟩
  | freeing ptr =>
    obtain ⟨hb, ht⟩ := hsame ptr (.head _)
    obtain ⟨b, bytes, hb'⟩ := h
    exact ⟨b, bytes, hb'.congr hb ht⟩
  | givingBack ptr =>
    obtain ⟨hb, ht⟩ := hsame ptr (.head _)
    exact Dropped.congr hb ht h

theorem Listed.kept (h : Listed blocks table p b bytes) : Kept blocks table p := ⟨b, bytes, h⟩

theorem Unlisted.dropped (h : Unlisted blocks table p b size) : Dropped blocks table p := by
  refine ⟨?_, h.2.1⟩
  rw [h.1]
  exact some_ne_none b

/-- A block of a call is in the table as a block that is kept, or it is not in the
table; it is not given back. -/
theorem Pc.Ok.kept_or_dropped (h : pc.Ok blocks table) (hp : p ∈ pc.uses) :
    Kept blocks table p ∨ Dropped blocks table p := by
  cases pc with
  | idle => exact absurd hp not_mem_nil
  | allocating asked size zero str => exact absurd hp not_mem_nil
  | recording ptr size str was =>
    obtain ⟨b, hb, -⟩ := h
    rw [mem_singleton.mp hp]
    exact .inr hb.dropped
  | filling ptr str =>
    obtain ⟨b, bytes, hb, -⟩ := h
    rw [mem_singleton.mp hp]
    exact .inl hb.kept
  | pulling old asked size was =>
    by_cases hne : old = 0
    · simp [Pc.uses, hne] at hp
    · obtain ⟨b, bytes, -, hb⟩ := h.2.2 hne
      obtain rfl : p = old := by simpa [Pc.uses, hne] using hp
      exact .inl hb.kept
  | reallocating old asked size was => exact absurd hp not_mem_nil
  | moving old asked size oldsize was =>
    obtain ⟨-, b, bytes, -, hb, -⟩ := h
    rw [mem_singleton.mp hp]
    exact .inl hb.kept
  | copying old ptr size oldsize was =>
    obtain ⟨-, ⟨b, bytes, -, hb, -⟩, c, hc⟩ := h
    rcases mem_pair.mp hp with rfl | rfl
    · exact .inl hb.kept
    · exact .inr hc.dropped
  | unrecording old ptr size was =>
    obtain ⟨-, hkept, c, hc, -⟩ := h
    rcases mem_pair.mp hp with rfl | rfl
    · exact .inl hkept
    · exact .inr hc.dropped
  | releasing old ptr size was =>
    obtain ⟨-, hdrop, c, hc, -⟩ := h
    rcases mem_pair.mp hp with rfl | rfl
    · exact .inr hdrop
    · exact .inr hc.dropped
  | freeing ptr =>
    rw [mem_singleton.mp hp]
    exact .inl h
  | givingBack ptr =>
    rw [mem_singleton.mp hp]
    exact .inr h

theorem Pc.Ok.block (h : pc.Ok blocks table) (hp : p ∈ pc.uses) : blocks.get p ≠ none := by
  rcases h.kept_or_dropped hp with ⟨b, bytes, hb⟩ | hdropped
  · rw [hb.1]
    exact some_ne_none b
  · exact hdropped.1

--
-- The invariant
--

structure Inv (s : Hooks) : Prop where
  ok : ∀ t, (s.pc t).Ok s.blocks s.table
  apart : ∀ t t', t ≠ t' → ∀ p ∈ (s.pc t).uses, p ∉ (s.pc t').uses
  held : ∀ p, s.held p = true → Kept s.blocks s.table p
  away : ∀ t, ∀ p ∈ (s.pc t).uses, s.held p = false
  cover : ∀ p, s.blocks.get p ≠ none ∨ s.table.get p ≠ none →
    s.held p = true ∨ ∃ t, p ∈ (s.pc t).uses
  solid : ∀ p b, s.blocks.get p = some b → 0 < b.size
  null : s.blocks.get 0 = none
  moved : ∀ e ∈ s.moved, Preserves (some e.was) e.now

theorem inv_init : Inv .init where
  ok _ := trivial
  apart _ _ _ _ hp := absurd hp not_mem_nil
  held _ hp := absurd hp Bool.false_ne_true
  away _ _ hp := absurd hp not_mem_nil
  cover _ hp := hp.elim (absurd rfl) (absurd rfl)
  solid _ _ hb := nomatch hb
  null := rfl
  moved _ he := absurd he not_mem_nil

/-- **Steps of one thread.** A step that changes nothing but blocks that no other call
uses keeps the invariant if it keeps it for these. -/
theorem Inv.of_own (h : Inv s) {own : List Nat}
    (hfree : ∀ p ∈ own, ∀ t', t' ≠ t → p ∉ (s.pc t').uses) (hzero : 0 ∉ own)
    (huses : ∀ p ∈ (s.pc t).uses, p ∈ own) (hpc : ∀ t', t' ≠ t → s'.pc t' = s.pc t')
    (hsame : ∀ p, p ∉ own → s'.blocks.get p = s.blocks.get p ∧ s'.table.get p = s.table.get p ∧
      s'.held p = s.held p) (huses' : ∀ p ∈ (s'.pc t).uses, p ∈ own ∧ s'.held p = false)
    (hok : (s'.pc t).Ok s'.blocks s'.table)
    (hheld : ∀ p ∈ own, s'.held p = true → Kept s'.blocks s'.table p)
    (hcover : ∀ p ∈ own, s'.blocks.get p ≠ none ∨ s'.table.get p ≠ none →
      s'.held p = true ∨ p ∈ (s'.pc t).uses)
    (hsolid : ∀ p ∈ own, ∀ b, s'.blocks.get p = some b → 0 < b.size)
    (hmoved : ∀ e ∈ s'.moved, Preserves (some e.was) e.now) : Inv s' where
  ok t' := by
    by_cases ht : t' = t
    · rw [ht]
      exact hok
    · rw [hpc t' ht]
      refine (h.ok t').congr fun p hp => ?_
      obtain ⟨hb, htab, -⟩ := hsame p fun hown => hfree p hown t' ht hp
      exact ⟨hb, htab⟩
  apart t₁ t₂ hne p hp := by
    by_cases h₁ : t₁ = t
    · subst h₁
      rw [hpc t₂ hne.symm]
      exact hfree p (huses' p hp).1 t₂ hne.symm
    · rw [hpc t₁ h₁] at hp
      by_cases h₂ : t₂ = t
      · subst h₂
        intro hp₂
        exact hfree p (huses' p hp₂).1 t₁ h₁ hp
      · rw [hpc t₂ h₂]
        exact h.apart t₁ t₂ hne p hp
  held p hp := by
    by_cases hown : p ∈ own
    · exact hheld p hown hp
    · obtain ⟨hb, ht, hh⟩ := hsame p hown
      rw [hh] at hp
      obtain ⟨b, bytes, hlisted⟩ := h.held p hp
      exact ⟨b, bytes, hlisted.congr hb ht⟩
  away t' p hp := by
    by_cases ht : t' = t
    · exact (huses' p (ht ▸ hp)).2
    · rw [hpc t' ht] at hp
      obtain ⟨-, -, hh⟩ := hsame p fun hown => hfree p hown t' ht hp
      rw [hh]
      exact h.away t' p hp
  cover p hp := by
    by_cases hown : p ∈ own
    · exact (hcover p hown hp).imp_right fun hp => ⟨t, hp⟩
    · obtain ⟨hb, ht, hh⟩ := hsame p hown
      rw [hb, ht] at hp
      rw [hh]
      refine (h.cover p hp).imp_right fun ⟨t', hp'⟩ => ⟨t', ?_⟩
      rw [hpc t' fun htt => hown (huses p (htt ▸ hp'))]
      exact hp'
  solid p b hb := by
    by_cases hown : p ∈ own
    · exact hsolid p hown b hb
    · rw [(hsame p hown).1] at hb
      exact h.solid p b hb
  null := by
    rw [(hsame 0 hzero).1]
    exact h.null
  moved := hmoved

--
-- Blocks that no other call uses
--

theorem Inv.free_of_uses (h : Inv s) (hp : p ∈ (s.pc t).uses) :
    ∀ t', t' ≠ t → p ∉ (s.pc t').uses := fun t' ht => h.apart t t' (Ne.symm ht) p hp

theorem Inv.free_of_held (h : Inv s) (hp : s.held p = true) (t : Nat) : p ∉ (s.pc t).uses := by
  intro hp'
  rw [h.away t p hp'] at hp
  cases hp

theorem Inv.free_of_fresh (h : Inv s) (hp : s.blocks.get p = none) (t : Nat) :
    p ∉ (s.pc t).uses := fun hp' => (h.ok t).block hp' hp

theorem Inv.table_of_fresh (h : Inv s) (hp : s.blocks.get p = none) : s.table.get p = none := by
  by_contra hne
  rcases h.cover p (Or.inr hne) with hheld | ⟨t, ht⟩
  · obtain ⟨b, bytes, hb, -⟩ := h.held p hheld
    rw [hp] at hb
    cases hb
  · exact h.free_of_fresh hp t ht

theorem Inv.ne_zero (h : Inv s) (hp : p ∈ (s.pc t).uses) : p ≠ 0 := by
  rintro rfl
  exact (h.ok t).block hp h.null

theorem Inv.fresh (h : Inv s) {a : Answer} (ha : a.Fits s.blocks size) (hsize : 0 < size.toNat) :
    s.blocks.get a.ptr = none := by
  rcases hb : s.blocks.get a.ptr with - | b
  · rfl
  · have hsolid := h.solid a.ptr b hb
    have hmeet := ha.2.2.2 (a.ptr, b) (OrdMap.mem_entries_iff.mpr hb)
    have hlarge := ha.2.2.1
    dsimp only at hmeet
    omega

theorem Inv.own_step (h : Inv s) (own : List Nat) {held : Nat → Bool} {moved : List Moved}
    (hfree : ∀ p ∈ own, p ≠ 0 ∧ ∀ t', t' ≠ t → p ∉ (s.pc t').uses)
    (huses : ∀ p ∈ (s.pc t).uses, p ∈ own)
    (hsame : ∀ p, p ∉ own → blocks'.get p = s.blocks.get p ∧ table'.get p = s.table.get p ∧
      held p = s.held p) (huses' : ∀ p ∈ pc.uses, p ∈ own ∧ held p = false)
    (hok : pc.Ok blocks' table') (hheld : ∀ p ∈ own, held p = true → Kept blocks' table' p)
    (hcover : ∀ p ∈ own, blocks'.get p ≠ none ∨ table'.get p ≠ none →
      held p = true ∨ p ∈ pc.uses) (hsolid : ∀ p ∈ own, ∀ b, blocks'.get p = some b → 0 < b.size)
    (hmoved : ∀ e ∈ moved, Preserves (some e.was) e.now) :
    Inv ⟨blocks', table', update s.pc t pc, held, moved⟩ := by
  refine h.of_own (t := t) (fun p hp => (hfree p hp).2) (fun h0 => (hfree 0 h0).1 rfl) huses
    (fun t' ht => update_of_ne ht ..) hsame ?_ ?_ hheld ?_ hsolid hmoved
  all_goals
    dsimp only
    rw [update_self]
    assumption

theorem Inv.goto (h : Inv s) (huses : pc.uses = (s.pc t).uses) (hok : pc.Ok s.blocks s.table) :
    Inv (s.goto t pc) := by
  refine h.own_step (s.pc t).uses (fun p hp => ⟨h.ne_zero hp, h.free_of_uses hp⟩) (fun _ hp => hp)
    (fun _ _ => ⟨rfl, rfl, rfl⟩) (fun p hp => ?_) hok (fun p hp hheld => ?_) (fun p hp _ => ?_)
    (fun p _ b hb => h.solid p b hb) h.moved
  · rw [huses] at hp
    exact ⟨hp, h.away t p hp⟩
  · exact h.held p hheld
  · rw [huses]
    exact Or.inr hp

@[simp] theorem setHeld_held_self (s : Hooks) (p : Nat) (b : Bool) : (s.setHeld p b).held p = b :=
  update_self ..

theorem setHeld_held_of_ne {q : Nat} (hq : q ≠ p) (s : Hooks) (b : Bool) :
    (s.setHeld p b).held q = s.held q := update_of_ne hq ..

@[simp] theorem goto_pc_self (s : Hooks) (t : Nat) (pc : Pc) : (s.goto t pc).pc t = pc :=
  update_self ..

theorem Inv.setHeld_null (h : Inv s) : s.setHeld 0 false = s := by
  have hnull : s.held 0 = false := by
    by_contra hheld
    obtain ⟨b, bytes, hb, -⟩ := h.held 0 (by simpa using hheld)
    rw [h.null] at hb
    cases hb
  unfold Hooks.setHeld
  rw [← hnull, update_eq_self]

--
-- The calls
--

theorem call_inv (h : Inv s) {c : HookCall} (hidle : s.pc t = .idle) (hc : Allowed s (.call t c)) :
    (∃ s', s.call t c = .ok s' ∧ Inv s') ∨ s.call t c = .error .assertion := by
  have hnone : (s.pc t).uses = [] := by rw [hidle]; rfl
  rcases c with size | ⟨n, size⟩ | ⟨old, size⟩ | str | ptr
  · by_cases hsize : aligememorysize size = 0
    · exact Or.inr (if_pos hsize)
    · refine Or.inl ⟨_, if_neg hsize, h.goto hnone.symm ⟨Rounded.of_toNat hsize fun _ => rfl, ?_⟩⟩
      exact nofun
  · by_cases hsize : aligememorysize (size * n) = 0
    · exact Or.inr (if_pos hsize)
    · refine Or.inl ⟨_, if_neg hsize,
        h.goto hnone.symm ⟨Rounded.of_toNat hsize fun hasked => ?_, nofun⟩⟩
      rw [UInt64.toNat_mul, Nat.mul_comm, Nat.mod_eq_of_lt (by omega)]
  · by_cases hsize : aligememorysize size = 0
    · exact Or.inr (if_pos hsize)
    · refine Or.inl ⟨_, if_neg hsize, ?_⟩
      have hrounded : Rounded size.toNat (aligememorysize size) :=
        Rounded.of_toNat hsize fun _ => rfl
      by_cases hold : old = 0
      · subst hold
        rw [h.setHeld_null]
        exact h.goto hnone.symm ⟨hrounded, fun _ => h.null, fun hne => absurd rfl hne⟩
      · have hheld : s.held old = true := hc.resolve_left hold
        obtain ⟨b, bytes, hlisted⟩ := h.held old hheld
        refine h.own_step [old] (fun p hp => ?_) (fun p hp => ?_) (fun p hp => ⟨rfl, rfl, ?_⟩)
          (fun p hp => ?_) ⟨hrounded, fun hz => absurd hz hold,
            fun _ => ⟨b, bytes, hlisted.1, hlisted⟩⟩
          (fun p hp hheld' => ?_) (fun p hp _ => ?_) (fun p _ b hb => h.solid p b hb) h.moved
        · obtain rfl := mem_singleton.mp hp
          exact ⟨hold, fun t' _ => h.free_of_held hheld t'⟩
        · rw [hnone] at hp
          exact absurd hp not_mem_nil
        · exact setHeld_held_of_ne (fun hpo => hp (mem_singleton.mpr hpo)) ..
        · have hpo : p = old := by simpa [Pc.uses, hold] using hp
          subst hpo
          exact ⟨.head _, setHeld_held_self ..⟩
        · obtain rfl := mem_singleton.mp hp
          rw [setHeld_held_self] at hheld'
          cases hheld'
        · right
          simpa [Pc.uses, hold] using hp
  · rcases str with - | str
    · exact Or.inl ⟨s, rfl, h⟩
    · by_cases hsize : aligememorysize (1 * (UInt64.ofNat (cstr str).length + 1)) = 0
      · exact Or.inr (if_pos hsize)
      · refine Or.inl ⟨_, if_neg hsize,
          h.goto hnone.symm ⟨Rounded.of_toNat hsize fun hasked => ?_, fun text htext => ?_⟩⟩
        · have h1 : (1 : UInt64).toNat = 1 := rfl
          rw [UInt64.toNat_mul, UInt64.toNat_add, UInt64.toNat_ofNat', h1]
          omega
        · rw [Option.mem_def, Option.some.injEq] at htext
          rw [htext]
  · by_cases hptr : ptr = 0
    · exact Or.inl ⟨s, if_pos hptr, h⟩
    · have hheld : s.held ptr = true := hc.resolve_left hptr
      refine Or.inl ⟨_, if_neg hptr, ?_⟩
      refine h.own_step [ptr] (fun p hp => ?_) (fun p hp => ?_) (fun p hp => ⟨rfl, rfl, ?_⟩)
        (fun p hp => ?_) (h.held ptr hheld) (fun p hp hheld' => ?_) (fun p hp _ => Or.inr hp)
        (fun p _ b hb => h.solid p b hb) h.moved
      · obtain rfl := mem_singleton.mp hp
        exact ⟨hptr, fun t' _ => h.free_of_held hheld t'⟩
      · rw [hnone] at hp
        exact absurd hp not_mem_nil
      · exact setHeld_held_of_ne (fun hpo => hp (mem_singleton.mpr hpo)) ..
      · obtain rfl := mem_singleton.mp hp
        exact ⟨hp, setHeld_held_self ..⟩
      · obtain rfl := mem_singleton.mp hp
        rw [setHeld_held_self] at hheld'
        cases hheld'

--
-- The steps of a call
--

theorem get_insert_self (b : Blocks) (p : Nat) (v : Block) : (b.insert p v).get p = some v := by
  rw [OrdMap.get_insert, if_pos rfl]

theorem get_insert_of_ne {b : Blocks} {q : Nat} (hq : q ≠ p) (v : Block) :
    (b.insert p v).get q = b.get q := by
  rw [OrdMap.get_insert, if_neg hq]

theorem Inv.alloc (h : Inv s) {a : Answer} {asked : Nat} {data : Nat → UInt8}
    (ha : a.Fits s.blocks size) (hrounded : Rounded asked size) (hasked : asked ≤ 2 ^ 63 - 8)
    (huses : ∀ p, p ∈ pc.uses ↔ p = a.ptr ∨ p ∈ (s.pc t).uses)
    (hok : ∀ blocks' : Blocks, (∀ p, p ≠ a.ptr → blocks'.get p = s.blocks.get p) →
      Unlisted blocks' s.table a.ptr ⟨a.size, data, asked⟩ size → pc.Ok blocks' s.table) :
    Inv ((s.setBlock a.ptr ⟨a.size, data, asked⟩).goto t pc) := by
  have hfresh := h.fresh ha hrounded.1
  obtain ⟨hle, hlt⟩ := hrounded.2 hasked
  have hnotheld : s.held a.ptr = false := by
    by_contra hheld
    obtain ⟨b, bytes, hb, -⟩ := h.held a.ptr (by simpa using hheld)
    rw [hfresh] at hb
    cases hb
  refine h.own_step (a.ptr :: (s.pc t).uses) (fun p hp => ?_)
    (fun p hp => .tail _ hp) (fun p hp => ⟨?_, rfl, rfl⟩) (fun p hp => ?_)
    (hok _ (fun p hp => get_insert_of_ne hp _) ⟨get_insert_self .., h.table_of_fresh hfresh, hle,
      ha.2.2.1, hlt, ha.2.1⟩) (fun p hp hheld => ?_) (fun p hp _ => ?_)
        (fun p hp b hb => ?_) h.moved
  · rcases mem_cons.mp hp with rfl | hp
    · exact ⟨ha.1, fun t' _ => h.free_of_fresh hfresh t'⟩
    · exact ⟨h.ne_zero hp, h.free_of_uses hp⟩
  · exact get_insert_of_ne (fun hpa => hp (mem_cons.mpr (Or.inl hpa))) _
  · rcases (huses p).mp hp with rfl | hp
    · exact ⟨.head _, hnotheld⟩
    · exact ⟨.tail _ hp, h.away t p hp⟩
  · change s.held p = true at hheld
    rcases mem_cons.mp hp with rfl | hp
    · rw [hnotheld] at hheld
      cases hheld
    · rw [h.away t p hp] at hheld
      cases hheld
  · exact Or.inr ((huses p).mpr (mem_cons.mp hp))
  · change (s.blocks.insert a.ptr _).get p = some b at hb
    by_cases hpa : p = a.ptr
    · subst hpa
      rw [get_insert_self, Option.some.injEq] at hb
      subst hb
      exact hrounded.1.trans_le ha.2.2.1
    · rw [get_insert_of_ne hpa] at hb
      exact h.solid p b hb

theorem Inv.fill (h : Inv s) {data : Nat → UInt8} (hptr : ptr ∈ (s.pc t).uses)
    (hb : s.blocks.get ptr = some b) (huses : pc.uses = (s.pc t).uses)
    (hok : pc.Ok (s.blocks.insert ptr { b with data := data }) s.table) :
    Inv ((s.setBlock ptr { b with data := data }).goto t pc) := by
  have hsize : ∀ p c, (s.blocks.insert ptr { b with data := data }).get p = some c →
    0 < c.size := by
    intro p c hc
    by_cases hp : p = ptr
    · subst hp
      rw [get_insert_self, Option.some.injEq] at hc
      subst hc
      exact h.solid p b hb
    · rw [get_insert_of_ne hp] at hc
      exact h.solid p c hc
  refine h.own_step (s.pc t).uses (fun p hp => ⟨h.ne_zero hp, h.free_of_uses hp⟩) (fun _ hp => hp)
    (fun p hp => ?_) (fun p hp => ?_) hok
    (fun p hp hheld => ?_) (fun p hp _ => ?_) (fun p _ c hc => hsize p c hc) h.moved
  · refine ⟨get_insert_of_ne ?_ _, rfl, rfl⟩
    rintro rfl
    exact hp hptr
  · rw [huses] at hp
    exact ⟨hp, h.away t p hp⟩
  · change s.held p = true at hheld
    rw [h.away t p hp] at hheld
    cases hheld
  · rw [huses]
    exact Or.inr hp

theorem return_eq (s : Hooks) (t ptr : Nat) (was : Option Block) : ∃ moved,
    s.return t ptr was = ⟨s.blocks, s.table, update s.pc t .idle,
      update s.held ptr true, moved⟩ ∧
    ∀ e ∈ moved, e ∈ s.moved ∨ was = some e.was ∧ s.blocks.get ptr = some e.now := by
  unfold Hooks.return
  rcases was with - | w
  · exact ⟨s.moved, rfl, fun e he => Or.inl he⟩
  · have hblocks : ((s.setHeld ptr true).goto t .idle).blocks.get ptr = s.blocks.get ptr := rfl
    dsimp only
    rw [hblocks]
    rcases hb : s.blocks.get ptr with - | b
    · exact ⟨s.moved, rfl, fun e he => Or.inl he⟩
    · refine ⟨s.moved ++ [⟨w, b⟩], rfl, fun e he => ?_⟩
      rcases mem_append.mp he with he | he
      · exact Or.inl he
      · rw [mem_singleton.mp he]
        exact Or.inr ⟨rfl, rfl⟩

theorem Inv.return (h : Inv s) {table' : Sizes} {was : Option Block} (huses : (s.pc t).uses = [ptr])
    (hlisted : Listed s.blocks table' ptr b bytes)
    (htable : ∀ p, p ≠ ptr → table'.get p = s.table.get p) (hkeep : Preserves was b) :
    Inv ({ s with table := table' }.return t ptr was) := by
  obtain ⟨moved, heq, hmoved⟩ := return_eq { s with table := table' } t ptr was
  rw [heq]
  have hptr : ptr ∈ (s.pc t).uses := by
    rw [huses]
    exact .head _
  refine h.own_step [ptr] (fun p hp => ?_) (fun p hp => huses ▸ hp)
    (fun p hp => ⟨rfl, ?_, ?_⟩) nofun
    trivial (fun p hp _ => ?_) (fun p hp _ => ?_) (fun p _ c hc => h.solid p c hc) (fun e he => ?_)
  · obtain rfl := mem_singleton.mp hp
    exact ⟨h.ne_zero hptr, h.free_of_uses hptr⟩
  · exact htable p fun hpp => hp (mem_singleton.mpr hpp)
  · exact update_of_ne (fun hpp => hp (mem_singleton.mpr hpp)) ..
  · obtain rfl := mem_singleton.mp hp
    exact ⟨b, bytes, hlisted⟩
  · obtain rfl := mem_singleton.mp hp
    exact Or.inl (update_self ..)
  · rcases hmoved e he with he | ⟨hwas, hnow⟩
    · exact h.moved e he
    · have hbe : b = e.now := Option.some.inj (hlisted.1.symm.trans hnow)
      rw [← hwas, ← hbe]
      exact hkeep

theorem Inv.record (h : Inv s) {table' : Sizes}
    (htable : ∀ p, p ∉ (s.pc t).uses → table'.get p = s.table.get p)
    (huses : pc.uses = (s.pc t).uses) (hok : pc.Ok s.blocks table') :
    Inv ({ s with table := table' }.goto t pc) := by
  refine h.own_step (s.pc t).uses (fun p hp => ⟨h.ne_zero hp, h.free_of_uses hp⟩) (fun _ hp => hp)
    (fun p hp => ⟨rfl, htable p hp, rfl⟩) (fun p hp => ?_) hok (fun p hp hheld => ?_)
    (fun p hp _ => ?_) (fun p _ b hb => h.solid p b hb) h.moved
  · rw [huses] at hp
    exact ⟨hp, h.away t p hp⟩
  · rw [h.away t p hp] at hheld
    cases hheld
  · rw [huses]
    exact Or.inr hp

theorem Inv.giveBack (h : Inv s) (hptr : ptr ∈ (s.pc t).uses) (htable : s.table.get ptr = none)
    (huses : ∀ p, p ∈ pc.uses ↔ p ∈ (s.pc t).uses ∧ p ≠ ptr)
    (hok : ∀ blocks' : Blocks, (∀ p, p ≠ ptr → blocks'.get p = s.blocks.get p) →
      pc.Ok blocks' s.table) : ∃ s', s.realFree ptr = .ok s' ∧ Inv (s'.goto t pc) := by
  have herase : ∀ p, p ≠ ptr → (s.blocks.erase ptr).get p = s.blocks.get p := by
    intro p hp
    rw [OrdMap.get_erase, if_neg hp]
  have hgone : (s.blocks.erase ptr).get ptr = none := by
    rw [OrdMap.get_erase, if_pos rfl]
  refine ⟨{ s with blocks := s.blocks.erase ptr }, ?_, ?_⟩
  · unfold Hooks.realFree
    rcases hb : s.blocks.get ptr with - | b
    · exact absurd hb ((h.ok t).block hptr)
    · rfl
  · refine h.own_step (s.pc t).uses (fun p hp => ⟨h.ne_zero hp, h.free_of_uses hp⟩) (fun _ hp => hp)
      (fun p hp => ?_) (fun p hp => ?_) (hok _ herase) (fun p hp hheld => ?_) (fun p hp hp' => ?_)
      (fun p _ b hb => ?_) h.moved
    · refine ⟨herase p ?_, rfl, rfl⟩
      rintro rfl
      exact hp hptr
    · obtain ⟨hp, -⟩ := (huses p).mp hp
      exact ⟨hp, h.away t p hp⟩
    · rw [h.away t p hp] at hheld
      cases hheld
    · refine Or.inr ((huses p).mpr ⟨hp, ?_⟩)
      rintro rfl
      exact hp'.elim (absurd hgone) (absurd htable)
    · by_cases hp : p = ptr
      · subst hp
        rw [hgone] at hb
        cases hb
      · exact h.solid p b ((herase p hp).symm.trans hb)

theorem addStackInfo_get {table : Sizes} (h : table.get ptr = none) (size : UInt64) (p : Nat) :
    (addStackInfo table ptr size).get p =
      if p = ptr then some (toLong size) else table.get p := by
  unfold addStackInfo
  rw [h, isSome_none, if_neg Bool.false_ne_true, OrdMap.get_insert]

theorem delStackInfo_get (h : ptr % 8 = 0) (table : Sizes) (p : Nat) :
    (delStackInfo table ptr).get p = if p = ptr then none else table.get p := by
  unfold delStackInfo
  rw [if_pos h, OrdMap.get_erase]

theorem Kept.dropped (h : Kept blocks table p) : Dropped blocks (delStackInfo table p) p := by
  obtain ⟨b, bytes, hb, -, -, -, -, halign⟩ := h
  refine ⟨by rw [hb]; exact some_ne_none b, ?_⟩
  rw [delStackInfo_get halign, if_pos rfl]

theorem Kept.aligned (h : Kept blocks table p) : p % 8 = 0 := by
  obtain ⟨b, bytes, -, -, -, -, -, halign⟩ := h
  exact halign

theorem Unlisted.listed (h : Unlisted blocks table p b size) :
    Listed blocks (addStackInfo table p size) p b size.toNat := by
  obtain ⟨hb, ht, hasked, hle, hlt, halign⟩ := h
  refine ⟨hb, ?_, by exact_mod_cast hasked, by exact_mod_cast hle, by exact_mod_cast hlt, halign⟩
  rw [addStackInfo_get ht, if_pos rfl, toLong_of_lt hlt]

theorem ofLong_toNat (h0 : 0 ≤ bytes) (h : bytes < 2 ^ 63) :
    ((ofLong bytes).toNat : Int) = bytes := by
  unfold ofLong
  rw [UInt64.toNat_ofNat']
  omega

theorem copyText_eq {str : Bytes} (hb : s.blocks.get ptr = some b)
    (hstr : str.length + 1 ≤ b.size) :
    ∃ data, s.copyText ptr str = .ok (s.setBlock ptr { b with data := data }) := by
  unfold Hooks.copyText
  rw [hb]
  exact ⟨_, if_pos hstr⟩

theorem memcpy_eq {old k : Nat} {o : Block} (hb : s.blocks.get ptr = some b)
    (ho : s.blocks.get old = some o) (hkb : k ≤ b.size) (hko : k ≤ o.size) :
    ∃ data, s.memcpy ptr old k = .ok (s.setBlock ptr { b with data := data }) ∧
      ∀ i, i < k → data i = o.data i := by
  unfold Hooks.memcpy
  rw [hb, ho]
  exact ⟨_, if_pos ⟨hkb, hko⟩, fun i hi => if_pos hi⟩

theorem return_goto (s : Hooks) (t ptr : Nat) (pc : Pc) (was : Option Block) :
    (s.goto t pc).return t ptr was = s.return t ptr was := by
  simp [Hooks.return, Hooks.goto, Hooks.setHeld]

theorem answer_fits {asked : Nat} {a : Answer} (hrequest : (s.pc t).request = some (asked, size))
    (ha : Allowed s (.next t (some a))) (hr : Recordable s (.next t (some a))) :
    a.Fits s.blocks size ∧ asked ≤ 2 ^ 63 - 8 := by
  unfold Allowed at ha
  unfold Recordable at hr
  dsimp only at ha hr
  rw [hrequest] at ha hr
  exact ⟨ha, hr⟩

theorem next_inv (h : Inv s) {answer : Option Answer} (ha : Allowed s (.next t answer))
    (hr : Recordable s (.next t answer)) : ∃ s', s.next t answer = .ok s' ∧ Inv s' := by
  have hok := h.ok t
  unfold Hooks.next
  cases hpc : s.pc t with (rw [hpc] at hok; dsimp only)
  | idle => exact ⟨s, rfl, h⟩
  | allocating asked size zero str =>
    obtain ⟨hrounded, hstr⟩ := hok
    rcases answer with - | a
    · exact ⟨_, rfl, h.goto (by rw [hpc]; rfl) trivial⟩
    · obtain ⟨hfits, hasked⟩ := answer_fits (by rw [hpc]; rfl) ha hr
      refine ⟨_, rfl, h.alloc hfits hrounded hasked (fun p => ?_) fun blocks' hsame hnew => ?_⟩
      · rw [hpc]
        simp [Pc.uses]
      · exact ⟨_, hnew, nofun, hstr⟩
  | recording ptr size str was =>
    obtain ⟨b, hb, hkeep, hstr⟩ := hok
    have huses : (s.pc t).uses = [ptr] := by rw [hpc]; rfl
    have htable : ∀ p, p ≠ ptr → (addStackInfo s.table ptr size).get p = s.table.get p := by
      intro p hp
      rw [addStackInfo_get hb.2.1, if_neg hp]
    rcases str with - | str
    · exact ⟨_, rfl, h.return huses hb.listed htable hkeep⟩
    · refine ⟨_, rfl, h.record (fun p hp => ?_) huses.symm ⟨b, _, hb.listed, ?_⟩⟩
      · rw [huses, mem_singleton] at hp
        exact htable p hp
      · rw [← hstr str rfl]
        exact hb.2.2.1.trans hb.2.2.2.1
  | filling ptr str =>
    obtain ⟨b, bytes, hb, hstr⟩ := hok
    have huses : (s.pc t).uses = [ptr] := by rw [hpc]; rfl
    obtain ⟨data, hcopy⟩ := copyText_eq hb.1 hstr
    rw [hcopy, ok_bind]
    refine ⟨_, rfl, ?_⟩
    have hlisted : Listed (s.blocks.insert ptr { b with data := data }) s.table ptr
        { b with data := data } bytes := ⟨get_insert_self .., hb.2⟩
    have hptr : ptr ∈ (s.pc t).uses := by rw [huses]; exact .head _
    have hok' : (Pc.filling ptr str).Ok (s.blocks.insert ptr { b with data := data }) s.table :=
      ⟨_, bytes, hlisted, hstr⟩
    have huses' : (Pc.filling ptr str).uses = (s.pc t).uses := huses.symm
    have hfill := h.fill hptr hb.1 huses' hok'
    rw [← return_goto]
    exact hfill.return (by rw [goto_pc_self]; rfl) hlisted (fun _ _ => rfl) nofun
  | pulling old asked size was =>
    obtain ⟨hrounded, hnull, hold⟩ := hok
    by_cases hz : old = 0
    · subst hz
      rw [h.table_of_fresh h.null]
      exact ⟨_, rfl, h.goto (by rw [hpc]; rfl) ⟨hrounded, rfl, hnull rfl⟩⟩
    · obtain ⟨b, bytes, hwas, hb⟩ := hold hz
      have hsize : size ≠ 0 := by
        rintro rfl
        exact absurd hrounded.1 (by decide)
      rw [hb.2.1]
      refine ⟨_, if_neg hsize, h.goto ?_ ⟨hrounded, b, bytes, hwas, hb, rfl⟩⟩
      rw [hpc]
      simp [Pc.uses, hz]
  | reallocating old asked size was =>
    obtain ⟨hrounded, rfl, hwas⟩ := hok
    have huses : (s.pc t).uses = [] := by rw [hpc]; rfl
    rw [h.null]
    rcases answer with - | a
    · refine ⟨_, rfl, ?_⟩
      rw [isSome_none, h.setHeld_null]
      exact h.goto huses.symm trivial
    · obtain ⟨hfits, hasked⟩ := answer_fits (by rw [hpc]; rfl) ha hr
      have herase : ({ s with blocks := s.blocks.erase 0 } : Hooks) = s := by
        have hsame : s.blocks.erase 0 = s.blocks := OrdMap.erase_of_none h.null
        rw [hsame]
      rw [herase]
      refine ⟨_, rfl, h.alloc hfits hrounded hasked (fun p => ?_) fun blocks' hsame hnew => ?_⟩
      · rw [huses]
        simp [Pc.uses]
      · exact ⟨_, hnew, by rw [hwas]; exact nofun, nofun⟩
  | moving old asked size oldsize was =>
    obtain ⟨hrounded, b, bytes, hwas, hb, hold⟩ := hok
    have huses : (s.pc t).uses = [old] := by rw [hpc]; rfl
    rcases answer with - | a
    · have hnone : Preserves none b := nofun
      exact ⟨_, rfl, h.return huses hb (fun _ _ => rfl) hnone⟩
    · obtain ⟨hfits, hasked⟩ := answer_fits (by rw [hpc]; rfl) ha hr
      have hfresh := h.fresh hfits hrounded.1
      have hne : old ≠ a.ptr := by
        rintro rfl
        rw [hb.1] at hfresh
        cases hfresh
      refine ⟨_, rfl, h.alloc hfits hrounded hasked (fun p => ?_) fun blocks' hsame hnew => ?_⟩
      · rw [huses]
        simp [Pc.uses, or_comm]
      · exact ⟨hne, ⟨b, bytes, hwas, hb.congr (hsame old hne) rfl, hold⟩, _, hnew⟩
  | copying old ptr size oldsize was =>
    obtain ⟨hne, ⟨o, bytes, hwas, ho, hold⟩, b, hb⟩ := hok
    have huses : (s.pc t).uses = [old, ptr] := by rw [hpc]; rfl
    obtain ⟨hob, hot, hoasked, hole, holt, hoalign⟩ := ho
    have holdsize : (oldsize.toNat : Int) = bytes := by
      rw [hold]
      exact ofLong_toNat (by omega) holt
    obtain ⟨data, hcopy, hdata⟩ := memcpy_eq (k := min size.toNat oldsize.toNat) hb.1 hob
      ((min_le_left _ _).trans hb.2.2.2.1) (by omega)
    rw [hcopy, ok_bind]
    refine ⟨_, rfl, h.fill (by simp [huses]) hb.1 huses.symm ⟨hne, ⟨o, bytes, ?_⟩,
      { b with data := data }, ⟨?_, hb.2⟩, ?_⟩⟩
    · exact ⟨(get_insert_of_ne hne _).trans hob, hot, hoasked, hole, holt, hoalign⟩
    · exact get_insert_self ..
    · intro w hw i hi
      obtain rfl : o = w := Option.some.inj (hwas.symm.trans hw)
      refine hdata i ?_
      have hbasked := hb.2.2.1
      dsimp only at hi
      omega
  | unrecording old ptr size was =>
    obtain ⟨hne, hkept, b, hb, hkeep⟩ := hok
    have huses : (s.pc t).uses = [old, ptr] := by rw [hpc]; rfl
    have htable : ∀ p, p ≠ old → (delStackInfo s.table old).get p = s.table.get p := by
      intro p hp
      rw [delStackInfo_get hkept.aligned, if_neg hp]
    refine ⟨_, rfl, h.record (fun p hp => htable p ?_) huses.symm
      ⟨hne, hkept.dropped, b, hb.congr rfl (htable ptr hne.symm), hkeep⟩⟩
    exact fun hpo => hp (by simp [huses, hpo])
  | releasing old ptr size was =>
    obtain ⟨hne, hdropped, b, hb, hkeep⟩ := hok
    have huses : (s.pc t).uses = [old, ptr] := by rw [hpc]; rfl
    have hleft : ∀ p, p ∈ (Pc.recording ptr size none was).uses ↔ p ∈ (s.pc t).uses ∧ p ≠ old := by
      intro p
      rw [huses, mem_pair]
      constructor
      · intro hp
        rw [mem_singleton.mp hp]
        exact ⟨Or.inr rfl, hne.symm⟩
      · rintro ⟨hp, hpo⟩
        exact mem_singleton.mpr (hp.resolve_left hpo)
    obtain ⟨s', hfree, hinv⟩ := h.giveBack (by simp [huses]) hdropped.2 hleft
      fun blocks' hsame => ⟨b, hb.congr (hsame ptr hne.symm) rfl, hkeep, nofun⟩
    rw [hfree, ok_bind]
    exact ⟨_, rfl, hinv⟩
  | freeing ptr =>
    have huses : (s.pc t).uses = [ptr] := by rw [hpc]; rfl
    have hkept : Kept s.blocks s.table ptr := hok
    refine ⟨_, rfl, h.record (fun p hp => ?_) huses.symm hkept.dropped⟩
    rw [huses, mem_singleton] at hp
    rw [delStackInfo_get hkept.aligned, if_neg hp]
  | givingBack ptr =>
    have huses : (s.pc t).uses = [ptr] := by rw [hpc]; rfl
    have hdropped : Dropped s.blocks s.table ptr := hok
    have hleft : ∀ p, p ∈ Pc.idle.uses ↔ p ∈ (s.pc t).uses ∧ p ≠ ptr := by
      intro p
      rw [huses, mem_singleton]
      exact iff_of_false not_mem_nil fun hp => hp.2 hp.1
    obtain ⟨s', hfree, hinv⟩ := h.giveBack (by simp [huses]) hdropped.2 hleft fun _ _ => trivial
    rw [hfree, ok_bind]
    exact ⟨_, rfl, hinv⟩

theorem write_inv (h : Inv s) (hp : s.held p = true) (i : Nat) (v : UInt8) :
    ∃ s', s.step (.write p i v) = .ok s' ∧ Inv s' := by
  obtain ⟨b, bytes, hb⟩ := h.held p hp
  have hne : ∀ t, ∀ q ∈ (s.pc t).uses, q ≠ p := by
    rintro t q hq rfl
    exact h.free_of_held hp t hq
  have hblocks : ∀ q, (s.blocks.insert p { b with data := update b.data i v }).get q =
    none ↔
      s.blocks.get q = none := by
    intro q
    by_cases hqp : q = p
    · subst hqp
      rw [get_insert_self, hb.1]
      exact iff_of_false nofun nofun
    · rw [get_insert_of_ne hqp]
  refine ⟨s.setBlock p { b with data := update b.data i v }, ?_,
    fun t => (h.ok t).congr fun q hq => ⟨get_insert_of_ne (hne t q hq) _, rfl⟩, h.apart,
    fun q hq => ?_, h.away, fun q hq => h.cover q ?_, fun q c hc => ?_, ?_, h.moved⟩
  · unfold Hooks.step
    dsimp only
    rw [hb.1]
  · by_cases hqp : q = p
    · subst hqp
      exact ⟨_, bytes, get_insert_self .., hb.2⟩
    · obtain ⟨c, cbytes, hc⟩ := h.held q hq
      exact ⟨c, cbytes, hc.congr (get_insert_of_ne hqp _) rfl⟩
  · exact hq.imp_left (hblocks q).not.mp
  · change (s.blocks.insert p _).get q = some c at hc
    by_cases hqp : q = p
    · subst hqp
      rw [get_insert_self, Option.some.injEq] at hc
      subst hc
      exact h.solid q b hb.1
    · rw [get_insert_of_ne hqp] at hc
      exact h.solid q c hc
  · exact (hblocks 0).mpr h.null

theorem step_inv (h : Inv s) {a : HookAct} (ha : Allowed s a) (hr : Recordable s a) :
    (∃ s', s.step a = .ok s' ∧ Inv s') ∨ s.step a = .error .assertion := by
  rcases a with ⟨t, c⟩ | ⟨t, answer⟩ | ⟨p, i, v⟩
  · unfold Hooks.step
    dsimp only
    split
    · next hidle => exact call_inv h hidle ha
    · exact Or.inl ⟨s, rfl, h⟩
  · exact Or.inl (next_inv h ha hr)
  · exact Or.inl (write_inv h ha i v)

--
-- The accounting
--

theorem Pc.Ok.listed (h : pc.Ok blocks table) (hp : p ∈ pc.uses)
    (htable : table.get p = some bytes) : Kept blocks table p := by
  rcases h.kept_or_dropped hp with hkept | hdropped
  · exact hkept
  · rw [hdropped.2] at htable
    cases htable

theorem Inv.listed (h : Inv s) (hp : s.table.get p = some bytes) :
    ∃ b, Listed s.blocks s.table p b bytes := by
  have hkept : Kept s.blocks s.table p := by
    rcases h.cover p (Or.inr (by rw [hp]; exact some_ne_none bytes)) with hheld | ⟨t, ht⟩
    · exact h.held p hheld
    · exact (h.ok t).listed ht hp
  obtain ⟨b, bytes', hb⟩ := hkept
  obtain rfl : bytes = bytes' := Option.some.inj (hp.symm.trans hb.2.1)
  exact ⟨b, hb⟩

theorem Inv.sound (h : Inv s) : Sound s where
  push t p hp := by
    have hok := h.ok t
    unfold Pc.Pushes at hp
    split at hp
    · next ptr size str was hpc =>
      rw [hpc] at hok
      obtain ⟨b, hb, -⟩ := hok
      rw [hp]
      exact hb.2.1
    · exact hp.elim
  pop t p hp := by
    have hok := h.ok t
    have hkept : Kept s.blocks s.table p := by
      unfold Pc.Pops at hp
      split at hp
      · next old ptr size was hpc =>
        rw [hpc] at hok
        rw [hp]
        exact hok.2.1
      · next ptr hpc =>
        rw [hpc] at hok
        rw [hp]
        exact hok
      · exact hp.elim
    obtain ⟨b, bytes, hb⟩ := hkept
    refine ⟨hb.2.2.2.2.2, ?_⟩
    rw [hb.2.1]
    exact some_ne_none bytes
  held p hp := by
    obtain ⟨b, bytes, hb⟩ := h.held p hp
    rw [hb.2.1]
    exact some_ne_none bytes
  exact hidle p := by
    have hheld : s.held p = true → s.table.get p ≠ none ∧ s.blocks.get p ≠ none := by
      intro hp
      obtain ⟨b, bytes, hb⟩ := h.held p hp
      rw [hb.1, hb.2.1]
      exact ⟨some_ne_none _, some_ne_none _⟩
    have hnone : ¬ ∃ t, p ∈ (s.pc t).uses := by
      rintro ⟨t, ht⟩
      rw [hidle t] at ht
      exact absurd ht not_mem_nil
    constructor
    · intro hp
      exact (hheld ((h.cover p (Or.inr hp)).resolve_right hnone)).2
    · intro hp
      exact (hheld ((h.cover p (Or.inl hp)).resolve_right hnone)).1
  sizes p bytes hp := by
    obtain ⟨b, hb⟩ := h.listed hp
    exact ⟨b, hb.1, hb.2.2.1, hb.2.2.2.1⟩
  moved e he := h.moved e he e.was rfl

/-- **The accounting is sound** in every state that a run reaches, until an assertion
on a rounded size stops it. -/
theorem hooks_sound {acts : List HookAct}
    (h : Along Hooks.step (fun s a => Allowed s a ∧ Recordable s a) .init acts) :
    (∃ s, run Hooks.step .init acts = .ok s ∧ Sound s) ∨
      run Hooks.step .init acts = .error .assertion := by
  refine (run_of_along_or (fun s a hs ha => step_inv hs ha.1 ha.2) inv_init h).imp_left ?_
  rintro ⟨s, hrun, hinv⟩
  exact ⟨s, hrun, hinv.sound⟩

instance (s : Hooks) (a : HookAct) : Decidable (Allowed s a) := by
  unfold Allowed
  split <;> try infer_instance
  split <;> infer_instance

instance (s : Hooks) (a : HookAct) : Decidable (Recordable s a) := by
  unfold Recordable
  split <;> try infer_instance
  split <;> infer_instance

/-- A `realloc` during which another thread gets the address of the old block. -/
def reusedAddress : List HookAct :=
  let a (ptr size : Nat) : Option Answer := some ⟨ptr, size, fun _ => 0⟩
  [.call 0 (.malloc 20), .next 0 (a 16 24), .next 0 none, .write 16 3 7,
    .call 0 (.realloc 16 100), .next 0 none, .next 0 (a 64 104), .next 0 none, .next 0 none,
    .next 0 none, .call 1 (.strdup (some [65, 66])), .next 1 (a 16 8), .next 1 none, .next 0 none,
    .next 1 none, .call 1 (.free 64), .next 1 none, .next 1 none]

theorem hooks_sound_reusedAddress :
    (∃ s, run Hooks.step .init reusedAddress = .ok s ∧ Sound s) ∨
      run Hooks.step .init reusedAddress = .error .assertion :=
  hooks_sound (by decide +kernel)

/-- A block recorded with less than its caller asked for. -/
def Hooks.short (s : Hooks) (p : Nat) : Bool :=
  match s.blocks.get p, s.table.get p with
  | some b, some bytes => bytes < b.asked
  | _, _ => false

theorem not_sound_of_short (h : s.short p = true) : ¬ Sound s := by
  intro hsound
  unfold Hooks.short at h
  split at h
  · next b bytes hb hbytes =>
    obtain ⟨b', hb', hasked, -⟩ := hsound.sizes p bytes hbytes
    obtain rfl : b = b' := Option.some.inj (hb.symm.trans hb')
    have hlt : bytes < b.asked := of_decide_eq_true h
    omega
  · cases h

/-- `calloc(2^61 + 1, 8)` is eight bytes. -/
def wrappedCalloc : List HookAct :=
  [.call 0 (.calloc (2 ^ 61 + 1) 8), .next 0 (some ⟨16, 8, fun _ => 0⟩), .next 0 none]

theorem not_sound_wrappedCalloc : Along Hooks.step Allowed .init wrappedCalloc ∧
    ∃ s, run Hooks.step .init wrappedCalloc = .ok s ∧ ¬ Sound s := by
  refine ⟨by decide +kernel, ?_⟩
  obtain ⟨s, hrun, hshort⟩ := exists_ok_of_any (x := run Hooks.step .init wrappedCalloc)
    (p := fun s => s.short 16) (by decide +kernel)
  exact ⟨s, hrun, not_sound_of_short hshort⟩

end Supex.Memhook
