import Mathlib.Data.List.Chain

/-!
# The sorts of `utils.lua`

`safe_sort` and `safe_cntl_sort` let the smaller of two neighbours pass the other one, from the
end of the list to its beginning, until a pass changes nothing.

* `innerLoop_spec` — a pass carries one element forward, and says whether it changed anything.
* `pass_settled` — after `k` passes, the first `k` places are settled.

Main result: `sorts`.
-/

namespace Supex.Utils

open List

variable {α β : Type} {swaps : α → α → Bool} {r : α → α → Prop}

--
-- The loops
--

/-- The loop `for i=#L-1,1,-1`; `L[i]` is entry `i - 1`. -/
def innerLoop (swaps : α → α → Bool) : Nat → List α × Bool → List α × Bool
  | 0, s => s
  | i + 1, (L, isF) =>
    match L[i]?, L[i + 1]? with
    | some a, some b =>
      if swaps a b then innerLoop swaps i ((L.set i b).set (i + 1) a, false)
      else innerLoop swaps i (L, isF)
    | _, _ => (L, isF)

/-- The loop `for m=#L-1,1,-1`. -/
def outerLoop (swaps : α → α → Bool) : Nat → List α → List α
  | 0, L => L
  | m + 1, L =>
    let (L, isF) := innerLoop swaps (L.length - 1) (L, true)
    if isF then L else outerLoop swaps m L

variable [LT α] [DecidableLT α] [LT β] [DecidableLT β]

/-- `prior` in `safe_sort`. -/
def prior (F : Option (α → α → Bool)) (a b : α) : Bool :=
  match F with
  | some F => F a b
  | none => a > b

def safeSort (L : List α) (F : Option (α → α → Bool)) : List α :=
  outerLoop (prior F) (L.length - 1) L

/-- `prior` in `safe_cntl_sort`; `F` stands for the function with its further arguments. -/
def cntlPrior (F : Option (α → α → β × β)) (a b : α) : Bool :=
  match F with
  | some F => (F a b).1 > (F a b).2
  | none => a > b

def safeCntlSort (L : List α) (M : Bool) (F : Option (α → α → β × β)) : List α :=
  outerLoop (fun a b => M != cntlPrior F a b) (L.length - 1) L

/-- The comparison is that of the total preorder `r`; of equal elements it may say either. -/
structure Compares (prior : α → α → Bool) (r : α → α → Prop) : Prop where
  trans : ∀ a b c, r a b → r b c → r a c
  behind : ∀ a b, prior a b = true → r b a
  before : ∀ a b, prior a b = false → r a b

--
-- One pass
--

omit [LT α] [DecidableLT α]

/-- What a pass does in front of a list it has been through. -/
def carry (swaps : α → α → Bool) (a : α) : List α → List α
  | [] => [a]
  | b :: t => if swaps a b then b :: a :: t else a :: b :: t

def pass (swaps : α → α → Bool) (L : List α) : List α := L.foldr (carry swaps) []

theorem carry_perm (a : α) (l : List α) : (carry swaps a l).Perm (a :: l) := by
  unfold carry
  split
  · rfl
  · split
    · exact .swap ..
    · rfl

theorem pass_perm (swaps : α → α → Bool) (L : List α) : (pass swaps L).Perm L := by
  induction L with
  | nil => rfl
  | cons a l ih => exact (carry_perm a _).trans (ih.cons a)

theorem innerLoop_spec (swaps : α → α → Bool) (pre : List α) (b : α) (t : List α) (isF : Bool) :
    (innerLoop swaps pre.length (pre ++ b :: t, isF)).1 = pre.foldr (carry swaps) (b :: t) ∧
    ((innerLoop swaps pre.length (pre ++ b :: t, isF)).2 = true → isF = true ∧
      pre.foldr (carry swaps) (b :: t) = pre ++ b :: t ∧
      (pre ++ [b]).IsChain fun a b => swaps a b = false) := by
  induction pre using List.reverseRecOn generalizing b t isF with
  | nil => exact ⟨rfl, fun h => ⟨h, rfl, .singleton b⟩⟩
  | append_singleton pre a ih =>
    have hget : (pre ++ [a] ++ b :: t)[pre.length]? = some a := by simp
    have hget' : (pre ++ [a] ++ b :: t)[pre.length + 1]? = some b := by simp
    rw [length_append, length_singleton, innerLoop, hget, hget', foldr_append]
    dsimp only
    rw [foldr_cons, foldr_nil, carry]
    by_cases hswap : swaps a b = true
    · rw [if_pos hswap, if_pos hswap]
      have hset : ((pre ++ [a] ++ b :: t).set pre.length b).set (pre.length + 1) a =
          pre ++ b :: a :: t := by simp
      rw [hset]
      obtain ⟨hlist, hflag⟩ := ih b (a :: t) false
      exact ⟨hlist, fun h => absurd (hflag h).1 nofun⟩
    · rw [if_neg hswap, if_neg hswap, append_assoc]
      obtain ⟨hlist, hflag⟩ := ih a (b :: t) isF
      refine ⟨hlist, fun h => ?_⟩
      obtain ⟨hisF, hsame, hchain⟩ := hflag h
      refine ⟨hisF, hsame, ?_⟩
      rw [append_assoc, singleton_append, isChain_append_cons_cons]
      exact ⟨hchain, Bool.eq_false_iff.mpr hswap, .singleton b⟩

theorem innerLoop_pass (swaps : α → α → Bool) (L : List α) :
    (innerLoop swaps (L.length - 1) (L, true)).1 = pass swaps L ∧
    ((innerLoop swaps (L.length - 1) (L, true)).2 = true →
      pass swaps L = L ∧ L.IsChain fun a b => swaps a b = false) := by
  rcases eq_nil_or_concat L with rfl | ⟨pre, b, rfl⟩
  · exact ⟨rfl, fun _ => ⟨rfl, .nil⟩⟩
  · have hpass : pass swaps (pre ++ [b]) = pre.foldr (carry swaps) [b] := foldr_append ..
    obtain ⟨hlist, hflag⟩ := innerLoop_spec swaps pre b [] true
    rw [concat_eq_append, length_append, length_singleton, Nat.add_sub_cancel, hpass]
    exact ⟨hlist, fun h => (hflag h).2⟩

--
-- Many passes
--

theorem outerLoop_perm (m : Nat) (L : List α) : (outerLoop swaps m L).Perm L := by
  induction m generalizing L with
  | zero => rfl
  | succ m ih =>
    have hperm : (innerLoop swaps (L.length - 1) (L, true)).1.Perm L :=
      (innerLoop_pass swaps L).1 ▸ pass_perm swaps L
    rw [outerLoop]
    split
    next L' isF hloop =>
    rw [hloop] at hperm
    split
    · exact hperm
    · exact (ih L').trans hperm

/-- The first `k` elements are in order, and none behind them belongs in front of them. -/
def Settled (r : α → α → Prop) : Nat → List α → Prop
  | 0, _ => True
  | _, [] => True
  | k + 1, a :: l => (∀ b ∈ l, r a b) ∧ Settled r k l

theorem Settled.pairwise {k : Nat} {L : List α} (h : Settled r k L) (hlen : L.length ≤ k + 1) :
    L.Pairwise r := by
  induction L generalizing k with
  | nil => exact .nil
  | cons a l ih =>
    cases k with
    | zero =>
      obtain rfl : l = [] := length_eq_zero_iff.mp (by simpa using hlen)
      exact pairwise_singleton r a
    | succ k => exact .cons h.1 (ih h.2 (by simpa using hlen))

theorem pass_settled (h : Compares swaps r) {k : Nat} {L : List α} (hs : Settled r k L) :
    Settled r (k + 1) (pass swaps L) := by
  induction L generalizing k with
  | nil => trivial
  | cons a l ih =>
    have hperm := pass_perm swaps l
    show Settled r (k + 1) (carry swaps a (pass swaps l))
    cases hpass : pass swaps l with
    | nil => exact ⟨nofun, by cases k <;> trivial⟩
    | cons b t =>
      rw [hpass] at ih hperm
      have hb : ∀ x ∈ t, r b x := (ih (k := 0) trivial).1
      rw [carry]
      split
      · next hswap =>
        have hba := h.behind a b hswap
        refine ⟨forall_mem_cons.mpr ⟨hba, hb⟩, ?_⟩
        cases k with
        | zero => trivial
        | succ k =>
          exact ⟨fun x hx => hs.1 x (hperm.mem_iff.mp (.tail _ hx)), (ih hs.2).2⟩
      · next hswap =>
        have hab := h.before a b (Bool.eq_false_iff.mpr hswap)
        refine ⟨forall_mem_cons.mpr ⟨hab, fun x hx => h.trans a b x hab (hb x hx)⟩, ?_⟩
        cases k with
        | zero => trivial
        | succ k => exact ih hs.2

theorem outerLoop_sorted (h : Compares swaps r) {k m : Nat} {L : List α} (hs : Settled r k L)
    (hlen : L.length ≤ k + m + 1) : (outerLoop swaps m L).Pairwise r := by
  induction m generalizing k L with
  | zero => exact hs.pairwise hlen
  | succ m ih =>
    obtain ⟨hlist, hflag⟩ := innerLoop_pass swaps L
    rw [outerLoop]
    split
    next L' isF hloop =>
    rw [hloop] at hlist hflag
    subst hlist
    split
    · next hisF =>
      obtain ⟨hsame, hchain⟩ := hflag hisF
      have : IsTrans α r := ⟨h.trans⟩
      rw [hsame]
      exact (hchain.imp fun a b => h.before a b).pairwise
    · refine ih (pass_settled h hs) ?_
      rw [(pass_perm swaps L).length_eq]
      omega

theorem loops_sorted (h : Compares swaps r) (L : List α) :
    (outerLoop swaps (L.length - 1) L).Pairwise r :=
  outerLoop_sorted h (k := 0) trivial (by omega)

--
-- The sorts
--

variable [LT α] [DecidableLT α]

/-- **The sorts.** Whatever the comparison, the result is a permutation. If it is that of a total
preorder, `safe_sort` and `safe_cntl_sort` without `M` leave the list ascending, and with `M`
descending, though of two neighbours it then swaps also equal ones. -/
theorem sorts (L : List α) (F : Option (α → α → Bool)) (M : Bool) (G : Option (α → α → β × β)) :
    (safeSort L F).Perm L ∧ (safeCntlSort L M G).Perm L ∧
    (∀ a b, cntlPrior G a b = false → safeCntlSort [a, b] true G = [b, a]) ∧
    ∀ r : α → α → Prop,
      (Compares (prior F) r → (safeSort L F).Pairwise r) ∧
      (Compares (cntlPrior G) r → (safeCntlSort L false G).Pairwise r ∧
        (safeCntlSort L true G).Pairwise fun a b => r b a) := by
  refine ⟨outerLoop_perm _ L, outerLoop_perm _ L, fun a b h => ?_,
    fun r => ⟨fun h => loops_sorted h L, fun h => ⟨?_, ?_⟩⟩⟩
  · simp [safeCntlSort, outerLoop, innerLoop, h]
  · refine loops_sorted ⟨h.trans, fun a b hp => ?_, fun a b hp => ?_⟩ L
    · exact h.behind a b (by simpa using hp)
    · exact h.before a b (by simpa using hp)
  · refine loops_sorted ⟨fun a b c hab hbc => h.trans c b a hbc hab, fun a b hp => ?_,
      fun a b hp => ?_⟩ L
    · exact h.before a b (by simpa using hp)
    · exact h.behind a b (by simpa using hp)

theorem sorts_four : (safeSort [3, 1, 2, 1] none).Pairwise (· ≤ ·) := by
  have h : Compares (prior none) (· ≤ · : Nat → Nat → Prop) :=
    ⟨fun _ _ _ => Nat.le_trans, fun _ _ h => Nat.le_of_lt (of_decide_eq_true h),
      fun _ _ h => Nat.le_of_not_lt (of_decide_eq_false h)⟩
  exact ((sorts [3, 1, 2, 1] none true (none : Option (Nat → Nat → Nat × Nat))).2.2.2 _).1 h

end Supex.Utils
