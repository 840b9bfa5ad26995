import Supex.Memhook.Lists

/-!
# The table of blocks is a map

One theorem for each call of `Supex.Memhook.Table` says what it does to the nodes of
`Rep`; `Holds` relates these nodes to the map.
-/

namespace Supex.Memhook

open Supex.Lib Option
open Function (update update_of_ne update_self)

variable {m m' : Manager} {xs : Nat → List Entry} {ys : List Entry} {b : Nat}

--
-- One node more, one less, another height of the list
--

@[simp] theorem stored_addCount (m : Manager) (b : Nat) (d : Int) (a : Nat) :
    (m.addCount b d).stored a = m.stored a := rfl

@[simp] theorem slot_setLayer (m : Manager) (b n : Nat) (r : Ref) (l : Nat) :
    (m.setLayer b n).slot r l = m.slot r l := by
  rcases r with b' | a
  · by_cases hb : b' = b
    · subst hb
      simp [Manager.slot, Manager.setLayer, Manager.setList]
    · simp [Manager.slot, Manager.setLayer, Manager.setList, hb]
  · rfl

@[simp] theorem slot_addCount (m : Manager) (b : Nat) (d : Int) (r : Ref) (l : Nat) :
    (m.addCount b d).slot r l = m.slot r l := by
  rcases r with b' | a
  · by_cases hb : b' = b
    · subst hb
      simp [Manager.slot, Manager.addCount, Manager.setList]
    · simp [Manager.slot, Manager.addCount, Manager.setList, hb]
  · rfl

theorem layer_setLayer (m : Manager) (b n b' : Nat) :
    ((m.setLayer b n).bucket b').layer = if b' = b then n else (m.bucket b').layer := by
  by_cases hb : b' = b
  · subst hb
    simp [Manager.setLayer, Manager.setList]
  · simp [Manager.setLayer, Manager.setList, hb]

@[simp] theorem count_setLayer (m : Manager) (b n b' : Nat) :
    ((m.setLayer b n).bucket b').count = (m.bucket b').count := by
  by_cases hb : b' = b
  · subst hb
    simp [Manager.setLayer, Manager.setList]
  · simp [Manager.setLayer, Manager.setList, hb]

@[simp] theorem layer_addCount (m : Manager) (b : Nat) (d : Int) (b' : Nat) :
    ((m.addCount b d).bucket b').layer = (m.bucket b').layer := by
  by_cases hb : b' = b
  · subst hb
    simp [Manager.addCount, Manager.setList]
  · simp [Manager.addCount, Manager.setList, hb]

theorem count_addCount (m : Manager) (b : Nat) (d : Int) (b' : Nat) :
    ((m.addCount b d).bucket b').count = (m.bucket b').count + if b' = b then d else 0 := by
  by_cases hb : b' = b
  · subst hb
    simp [Manager.addCount, Manager.setList]
  · simp [Manager.addCount, Manager.setList, hb]

theorem addCount_setLayer (m : Manager) (b n : Nat) (d : Int) :
    (m.setLayer b n).addCount b d = (m.addCount b d).setLayer b n := by
  simp [Manager.setLayer, Manager.addCount, Manager.setList]

theorem stored_setBlock (m : Manager) (a : Nat) (n : Option NodeManager) (a' : Nat) :
    (m.setBlock a n).stored a' =
      if a' = a then n.map fun n => (n.ptr, n.bytes) else m.stored a' := by
  by_cases ha : a' = a
  · subst ha
    simp [Manager.stored, Manager.setBlock]
  · simp [Manager.stored, Manager.setBlock, ha]

theorem slot_setBlock_of_ne {r : Ref} {a : Nat} (hr : r ≠ .node a) (m : Manager)
    (n : Option NodeManager) (l : Nat) : (m.setBlock a n).slot r l = m.slot r l := by
  rcases r with b' | a'
  · rfl
  · have ha : a' ≠ a := fun h => hr (congrArg Ref.node h)
    simp [Manager.slot, Manager.setBlock, ha]

theorem Rep.setLayer (h : Rep m xs) {n : Nat} (hn : n ≤ GMAXLAYERS)
    (hhigh : ∀ e ∈ xs b, e.height ≤ n) : Rep (m.setLayer b n) xs where
  ascending := h.ascending
  hashed := h.hashed
  stored b' e he := h.stored b' e he
  low := h.low
  high b' e he := by
    rw [layer_setLayer]
    split
    · next hb => exact hhigh e (hb ▸ he)
    · exact h.high b' e he
  layer_le b' := by
    rw [layer_setLayer]
    split
    · exact hn
    · exact h.layer_le b'
  next b' l r k hAt := by rw [slot_setLayer, h.next b' l r k hAt]
  count b' := by rw [count_setLayer, h.count b']

theorem At.of_ne (h : Rep m xs) {b' l : Nat} {r : Ref} {k : WithBot Nat} {a : Nat}
    (hAt : At (xs b') b' l r k) (hfree : m.stored a = none) : r ≠ .node a := by
  rintro rfl
  rcases hAt with ⟨hhead, -, -⟩ | ⟨e, he, hnode, -, -⟩
  · cases hhead
  · rw [Ref.node.inj hnode, h.stored b' e he] at hfree
    cases hfree

variable {ptr : Nat} {path : UpdatePath}

theorem Rep.link (h : Rep m xs) {a n : Nat} {nbytes : Int} (hhash : hashPointer ptr = b)
    (habsent : ∀ z ∈ xs b, z.ptr ≠ ptr) (hfree : m.stored a = none) (hlow : 1 ≤ n)
    (hhigh : n ≤ (m.bucket b).layer) (hpath : PathOk (xs b) b ptr n path)
    (hstored : ∀ a', m'.stored a' = if a' = a then some (ptr, nbytes) else m.stored a')
    (hlayer : ∀ b', (m'.bucket b').layer = (m.bucket b').layer)
    (hcount : ∀ b', (m'.bucket b').count = (m.bucket b').count + if b' = b then 1 else 0)
    (hnode : ∀ r l, l < n → path l = some r → m'.slot (.node a) l = m.slot r l)
    (hslot : ∀ r l, r ≠ .node a → m'.slot r l =
      if l < n ∧ path l = some r then some (some a) else m.slot r l) (hys : tall.Ascending ys)
    (hmem : ∀ z, z ∈ ys ↔ z = ⟨a, ptr, nbytes, n⟩ ∨ z ∈ xs b)
    (hlen : ys.length = (xs b).length + 1) : Rep m' (update xs b ys) := by
  have hstored_old : ∀ b', ∀ e ∈ xs b', m'.stored e.addr = some (e.ptr, e.bytes) := by
    intro b' e he
    rw [hstored, if_neg, h.stored b' e he]
    intro hea
    rw [← hea, h.stored b' e he] at hfree
    cases hfree
  have hcases : ∀ b', ∀ e ∈ update xs b ys b',
      (b' = b ∧ e = ⟨a, ptr, nbytes, n⟩) ∨ e ∈ xs b' := by
    intro b' e he
    by_cases hb : b' = b
    · subst hb
      rw [update_self, hmem] at he
      exact he.imp_left fun he => ⟨rfl, he⟩
    · rw [update_of_ne hb] at he
      exact Or.inr he
  refine ⟨fun b' => ?_, fun b' e he => ?_, fun b' e he => ?_, fun b' e he => ?_, fun b' e he => ?_,
    fun b' => (hlayer b').symm ▸ h.layer_le b', fun b' l r k hAt => ?_, fun b' => ?_⟩
  · by_cases hb : b' = b
    · subst hb
      rwa [update_self]
    · rw [update_of_ne hb]
      exact h.ascending b'
  · rcases hcases b' e he with ⟨rfl, rfl⟩ | he
    · exact hhash
    · exact h.hashed b' e he
  · rcases hcases b' e he with ⟨rfl, rfl⟩ | he
    · rw [hstored, if_pos rfl]
    · exact hstored_old b' e he
  · rcases hcases b' e he with ⟨rfl, rfl⟩ | he
    · exact hlow
    · exact h.low b' e he
  · rw [hlayer]
    rcases hcases b' e he with ⟨rfl, rfl⟩ | he
    · exact hhigh
    · exact h.high b' e he
  · by_cases hb : b' = b
    · subst hb
      rw [update_self] at hAt ⊢
      -- a slot that was there before
      have hold : At (xs b') b' l r k →
          m'.slot r l = some ((tall.nextAbove ys k l).map Entry.addr) := by
        intro hAt
        rw [hslot r l (At.of_ne h hAt hfree)]
        by_cases hc : k < WithBot.some ptr ∧ l < n ∧
            ∀ z ∈ xs b', k < WithBot.some z.ptr → l < z.height → ptr ≤ z.ptr
        · obtain ⟨r₀, k₀, hr₀, hbefore⟩ := hpath l hc.2.1
          have hr : r = r₀ := h.before_inj ⟨hAt, hc.1, hc.2.2⟩ hbefore
          rw [if_pos ⟨hc.2.1, hr ▸ hr₀⟩, Tall.nextAbove_insert_new hys hmem hc.1 hc.2.1 hc.2.2]
          rfl
        · have hr : ¬ (l < n ∧ path l = some r) := by
            rintro ⟨hl, hr⟩
            obtain ⟨r₀, k₀, hr₀, hAt₀, hk₀, hgap⟩ := hpath l hl
            obtain rfl : r = r₀ := Option.some.inj (hr.symm.trans hr₀)
            obtain ⟨-, rfl⟩ := h.at_key hAt hAt₀
            exact hc ⟨hk₀, hl, hgap⟩
          rw [if_neg hr, Tall.nextAbove_insert_old (h.ascending b') hys hmem hc,
            h.next b' l r k hAt]
      rcases hAt with hhead | ⟨e, he, rfl, rfl, hl⟩
      · exact hold (Or.inl hhead)
      · rcases (hmem e).mp he with rfl | he
        · obtain ⟨r₀, k₀, hr₀, hbefore⟩ := hpath l hl
          have hself : tall.nextAbove ys (WithBot.some ptr) l =
              tall.nextAbove (xs b') (WithBot.some ptr) l :=
            Tall.nextAbove_insert_old (h.ascending b') hys hmem fun hc => lt_irrefl _ hc.1
          rw [hnode r₀ l hl hr₀, h.next b' l r₀ k₀ hbefore.1, h.nextAbove_of_before hbefore habsent]
          exact congrArg (fun o => some (Option.map Entry.addr o)) hself.symm
        · exact hold (Or.inr ⟨e, he, rfl, rfl, hl⟩)
    · rw [update_of_ne hb] at hAt ⊢
      have hr : ¬ (l < n ∧ path l = some r) := by
        rintro ⟨hl, hr⟩
        obtain ⟨r₀, k₀, hr₀, hAt₀, -⟩ := hpath l hl
        obtain rfl : r = r₀ := Option.some.inj (hr.symm.trans hr₀)
        exact hb (h.at_key hAt hAt₀).1
      rw [hslot r l (At.of_ne h hAt hfree), if_neg hr, h.next b' l r k hAt]
  · rw [hcount]
    by_cases hb : b' = b
    · subst hb
      rw [if_pos rfl, update_self, hlen, h.count b']
      rfl
    · rw [if_neg hb, update_of_ne hb, h.count b', add_zero]

theorem Rep.unlink (h : Rep m xs) {e : Entry} (he : e ∈ xs b)
    (hpath : PathOk (xs b) b e.ptr e.height path)
    (hstored : ∀ a, a ≠ e.addr → m'.stored a = m.stored a)
    (hlayer : ∀ b', (m'.bucket b').layer = (m.bucket b').layer)
    (hcount : ∀ b', (m'.bucket b').count = (m.bucket b').count + if b' = b then -1 else 0)
    (hslot : ∀ r l, r ≠ .node e.addr → m'.slot r l =
      if l < e.height ∧ path l = some r then m.slot (.node e.addr) l else m.slot r l)
    (hys : tall.Ascending ys) (hmem : ∀ z, z ∈ ys ↔ z ∈ xs b ∧ z ≠ e)
    (hlen : (xs b).length = ys.length + 1) : Rep m' (update xs b ys) := by
  have hleft : ∀ b', ∀ z ∈ update xs b ys b', z ∈ xs b' ∧ z ≠ e := by
    intro b' z hz
    by_cases hb : b' = b
    · subst hb
      rwa [update_self, hmem] at hz
    · rw [update_of_ne hb] at hz
      exact ⟨hz, fun hze => hb (h.addr_inj hz he (congrArg Entry.addr hze)).1⟩
  have haddr : ∀ b', ∀ z ∈ update xs b ys b', z.addr ≠ e.addr := by
    intro b' z hz heq
    obtain ⟨hzx, hne⟩ := hleft b' z hz
    exact hne (h.addr_inj hzx he heq).2
  refine ⟨fun b' => ?_, fun b' z hz => h.hashed b' z (hleft b' z hz).1, fun b' z hz => ?_,
    fun b' z hz => h.low b' z (hleft b' z hz).1,
    fun b' z hz => (hlayer b').symm ▸ h.high b' z (hleft b' z hz).1,
    fun b' => (hlayer b').symm ▸ h.layer_le b', fun b' l r k hAt => ?_, fun b' => ?_⟩
  · by_cases hb : b' = b
    · subst hb
      rwa [update_self]
    · rw [update_of_ne hb]
      exact h.ascending b'
  · rw [hstored _ (haddr b' z hz), h.stored b' z (hleft b' z hz).1]
  · have hre : r ≠ .node e.addr := by
      rintro rfl
      rcases hAt with ⟨hhead, -, -⟩ | ⟨z, hz, hnode, -, -⟩
      · cases hhead
      · exact haddr b' z hz (Ref.node.inj hnode).symm
    have hAt' : At (xs b') b' l r k := by
      rcases hAt with hhead | ⟨z, hz, hr, hk, hl⟩
      · exact Or.inl hhead
      · exact Or.inr ⟨z, (hleft b' z hz).1, hr, hk, hl⟩
    rw [hslot r l hre]
    by_cases hb : b' = b
    · subst hb
      rw [update_self]
      by_cases hc : l < e.height ∧ path l = some r
      · obtain ⟨r₀, k₀, hr₀, hbefore⟩ := hpath l hc.1
        obtain rfl : r = r₀ := Option.some.inj (hc.2.symm.trans hr₀)
        obtain ⟨-, rfl⟩ := h.at_key hAt' hbefore.1
        have hnext := h.nextAbove_eq_of_before he hbefore hc.1
        rw [if_pos hc, h.next b' l _ _ (Or.inr ⟨e, he, rfl, rfl, hc.1⟩),
          Tall.nextAbove_erase_next (h.ascending b') hys hmem hnext]
        rfl
      · have hnext : tall.nextAbove (xs b') k l ≠ some e := by
          intro hnext
          obtain ⟨-, hk, hl, hmin⟩ := (Tall.nextAbove_eq_some_iff (h.ascending b')).mp hnext
          obtain ⟨r₀, k₀, hr₀, hbefore⟩ := hpath l hl
          have hr : r = r₀ := h.before_inj ⟨hAt', hk, hmin⟩ hbefore
          exact hc ⟨hl, hr ▸ hr₀⟩
        rw [if_neg hc, Tall.nextAbove_erase_other (h.ascending b') hys hmem hnext,
          h.next b' l r k hAt']
    · have hr : ¬ (l < e.height ∧ path l = some r) := by
        rintro ⟨hl, hr⟩
        obtain ⟨r₀, k₀, hr₀, hbefore⟩ := hpath l hl
        obtain rfl : r = r₀ := Option.some.inj (hr.symm.trans hr₀)
        exact hb (h.at_key hAt' hbefore.1).1
      rw [if_neg hr, update_of_ne hb, h.next b' l r k hAt']
  · rw [hcount]
    by_cases hb : b' = b
    · subst hb
      rw [if_pos rfl, update_self, h.count b', hlen]
      omega
    · rw [if_neg hb, update_of_ne hb, h.count b', add_zero]

--
-- The calls
--

theorem pushManager_present (h : Rep m xs) {nbytes : Int} {layer : Nat} {alloc : Option Nat}
    {e : Entry} (hfound : lookup (xs (hashPointer ptr)) ptr = some e) :
    pushManager m ptr nbytes layer alloc path = .ok (m, false) := by
  obtain ⟨path', hfind, -⟩ := managerFindNode_spec h (hashPointer ptr) ptr path
  unfold pushManager
  dsimp only
  rw [hfind, hfound]
  rfl

/-- A higher list has the same nodes, and its path is right in every layer of the new
node. -/
theorem raiseLayer_spec (h : Rep m xs) {layer : Nat}
    (hpath : PathOk (xs b) b ptr (m.bucket b).layer path) (hlow : 1 ≤ layer)
    (hlayer : layer ≤ GMAXLAYERS) :
    ∃ m₁ n path₁, raiseLayer m b layer path = .ok (m₁, n, path₁) ∧ Rep m₁ xs ∧ 1 ≤ n ∧
      n ≤ (m₁.bucket b).layer ∧ PathOk (xs b) b ptr n path₁ ∧ m₁.total = m.total ∧
      m₁.heap = m.heap := by
  unfold raiseLayer
  by_cases hraise : (m.bucket b).layer < layer
  · have hlt : (m.bucket b).layer < GMAXLAYERS := by omega
    have hwrite : path.write (m.bucket b).layer (.head b) =
        .ok (update path (m.bucket b).layer (some (.head b))) := if_pos hlt
    rw [if_pos hraise, hwrite, ok_bind]
    refine ⟨_, _, _, rfl, h.setLayer hlt fun e he => (h.high b e he).trans (by omega), by omega, ?_,
      fun l hl => ?_, rfl, rfl⟩
    · rw [layer_setLayer, if_pos rfl]
    · rcases Nat.lt_succ_iff_lt_or_eq.mp hl with hl | rfl
      · rw [update_of_ne hl.ne]
        exact hpath l hl
      · -- no node reaches the new layer
        exact ⟨.head b, ⊥, update_self .., Or.inl ⟨rfl, rfl, hlt⟩, WithBot.bot_lt_coe _,
          fun z hz _ hl => absurd (h.high b z hz) (by omega)⟩
  · rw [if_neg hraise]
    exact ⟨m, layer, path, rfl, h, hlow, by omega, fun l hl => hpath l (by omega), rfl, rfl⟩

theorem pushManager_failed (h : Rep m xs) {layer : Nat} (nbytes : Int) (path : UpdatePath)
    (habsent : lookup (xs (hashPointer ptr)) ptr = none) (hlow : 1 ≤ layer)
    (hlayer : layer ≤ GMAXLAYERS) :
    ∃ m', pushManager m ptr nbytes layer none path = .ok (m', false) ∧ Rep m' xs ∧
      m'.total = m.total := by
  obtain ⟨path', hfind, hpath⟩ := managerFindNode_spec h (hashPointer ptr) ptr path
  obtain ⟨m₁, n, path₁, hraise, hrep, -, -, -, htotal, -⟩ := raiseLayer_spec h hpath hlow hlayer
  refine ⟨m₁, ?_, hrep, htotal⟩
  unfold pushManager
  dsimp only
  rw [hfind, habsent, ok_bind]
  rw [hraise, ok_bind]
  rfl

theorem pushManager_absent (h : Rep m xs) {layer a : Nat} (nbytes : Int) (path : UpdatePath)
    (hb : hashPointer ptr = b) (habsent : lookup (xs b) ptr = none) (hlow : 1 ≤ layer)
    (hlayer : layer ≤ GMAXLAYERS) (halloc : m.heap a = none) :
    ∃ m' ys n, pushManager m ptr nbytes layer (some a) path = .ok (m', true) ∧
      Rep m' (update xs b ys) ∧ m'.total = m.total + 1 ∧
      ∀ z, z ∈ ys ↔ z = ⟨a, ptr, nbytes, n⟩ ∨ z ∈ xs b := by
  obtain ⟨path', hfind, hpath⟩ := managerFindNode_spec h b ptr path
  obtain ⟨m₁, n, path₁, hraise, hrep, hnlow, hnhigh, hpath₁, htotal, hheap⟩ :=
    raiseLayer_spec h hpath hlow hlayer
  have hnone := lookup_eq_none_iff.mp habsent
  have hfree : m₁.stored a = none := by
    unfold Manager.stored
    rw [hheap, halloc]
    rfl
  have hnmax : n ≤ GMAXLAYERS := hnhigh.trans (hrep.layer_le b)
  obtain ⟨m₃, hlink, hsame, hnode, -, hslot⟩ := linkNode_spec
    (m := m₁.setBlock a (some ⟨ptr, nbytes, List.replicate n none⟩)) (a := a) hnmax
    (fun l hl => by
      obtain ⟨r, k, hr, hAt, -⟩ := hpath₁ l hl
      have hra := At.of_ne hrep hAt hfree
      exact ⟨r, _, hr, hra, (slot_setBlock_of_ne hra _ _ l).trans (hrep.next b l r k hAt)⟩)
    (fun l hl => ⟨none, by simp [Manager.slot, Manager.setBlock, hl]⟩)
  obtain ⟨ys, hys, hmem, hlen⟩ := (hrep.ascending b).exists_insert
    (e := (⟨a, ptr, nbytes, n⟩ : Entry)) hnone
  refine ⟨m₃.addCount b 1, ys, n, ?_, ?_, ?_, hmem⟩
  · unfold pushManager
    dsimp only
    rw [hb, hfind, habsent, ok_bind]
    rw [hraise, ok_bind]
    rw [hlink, ok_bind]
    rfl
  · refine hrep.link hb hnone hfree hnlow hnhigh hpath₁ (fun a' => ?_) (fun b' => ?_) (fun b' => ?_)
      (fun r l hl hr => ?_) (fun r l hra => ?_) hys hmem hlen
    · rw [stored_addCount, hsame.stored, stored_setBlock]
      rfl
    · rw [layer_addCount, hsame.layer]
      rfl
    · rw [count_addCount, hsame.count]
      rfl
    · obtain ⟨r₀, k₀, hr₀, hAt, -⟩ := hpath₁ l hl
      obtain rfl : r = r₀ := Option.some.inj (hr.symm.trans hr₀)
      rw [slot_addCount, hnode r l hl hr, slot_setBlock_of_ne (At.of_ne hrep hAt hfree)]
    · rw [slot_addCount, hslot r l hra, slot_setBlock_of_ne hra]
  · rw [← htotal]
    exact congrArg (· + 1) hsame.total

theorem popManager_absent (h : Rep m xs) (habsent : lookup (xs (hashPointer ptr)) ptr = none) :
    popManager m ptr path = .ok (m, none) := by
  obtain ⟨path', hfind, -⟩ := managerFindNode_spec h (hashPointer ptr) ptr path
  unfold popManager
  dsimp only
  rw [hfind, habsent]
  rfl

theorem popManager_present (h : Rep m xs) (path : UpdatePath) {e : Entry} (hb : hashPointer ptr = b)
    (hfound : lookup (xs b) ptr = some e) :
    ∃ m' ys, popManager m ptr path = .ok (m', some e.bytes) ∧ Rep m' (update xs b ys) ∧
      m'.total = m.total - 1 ∧ ∀ z, z ∈ ys ↔ z ∈ xs b ∧ z ≠ e := by
  obtain ⟨path', hfind, hpath⟩ := managerFindNode_spec h b ptr path
  obtain ⟨he, rfl⟩ := (lookup_eq_some_iff h).mp hfound
  have hhigh := h.high b e he
  have hself : ∀ l r k, Before (xs b) b e.ptr l r k → r ≠ .node e.addr := by
    rintro l r k ⟨hAt, hlt, -⟩ rfl
    have hnode : At (xs b) b 0 (.node e.addr) (.some e.ptr) :=
      Or.inr ⟨e, he, rfl, rfl, h.low b e he⟩
    obtain ⟨-, rfl⟩ := h.at_key hAt hnode
    exact lt_irrefl _ hlt
  obtain ⟨m₂, hunlink, hsame, hslot⟩ := unlinkNode_spec (m := m) (a := e.addr)
    (l := 0) path' (m.bucket b).layer e.height (Nat.zero_le _) (by omega)
    (by have := h.layer_le b; omega)
    (fun l _ hl => by
      obtain ⟨r, k, hr, hbefore⟩ := hpath l (by omega)
      refine ⟨r, _, hr, hself l r k hbefore, ?_, h.next b l _ _ (Or.inr ⟨e, he, rfl, rfl, hl⟩)⟩
      rw [h.next b l r k hbefore.1, h.nextAbove_eq_of_before he hbefore hl]
      rfl)
    (fun htop => by
      obtain ⟨r, k, hr, hbefore⟩ := hpath e.height (by omega)
      refine ⟨r, _, hr, h.next b e.height r k hbefore.1, fun hshow => ?_⟩
      obtain ⟨z, hz, haddr⟩ := map_eq_some_iff.mp hshow
      obtain ⟨hz, -, hl, -⟩ := (Tall.nextAbove_eq_some_iff (h.ascending b)).mp hz
      rw [(h.addr_inj hz he haddr).2] at hl
      exact lt_irrefl _ hl)
  obtain ⟨ys, hys, hmem, hlen⟩ := (h.ascending b).exists_erase he
  have hstored₂ : m₂.stored e.addr = some (e.ptr, e.bytes) :=
    (hsame.stored _).trans (h.stored b e he)
  obtain ⟨node, hnode, -, hbytes⟩ := node_of_stored hstored₂
  have hrep : Rep ((m₂.setBlock e.addr none).addCount b (-1)) (update xs b ys) := by
    have hbelow : PathOk (xs b) b e.ptr e.height path' := fun l hl => hpath l (by omega)
    refine h.unlink he hbelow (fun a ha => ?_) (fun b' => ?_) (fun b' => ?_) (fun r l hre => ?_) hys
      hmem hlen
    · rw [stored_addCount, stored_setBlock, if_neg ha, hsame.stored]
    · rw [layer_addCount]
      exact hsame.layer b'
    · rw [count_addCount, ← hsame.count b']
      rfl
    · rw [slot_addCount, slot_setBlock_of_ne hre, hslot]
      simp only [Nat.zero_le, true_and]
  have hlayer : ((m₂.setBlock e.addr none).bucket b).layer = (m.bucket b).layer := hsame.layer b
  -- the heads of the list as `lowerLayer` reads them
  have hhead : ∀ l, l < GMAXLAYERS → (m₂.setBlock e.addr none).slot (.head b) l =
      some ((tall.nextAbove ys ⊥ l).map Entry.addr) := by
    intro l hl
    have hnext := hrep.next b l (.head b) ⊥ (Or.inl ⟨rfl, rfl, hl⟩)
    rwa [slot_addCount, update_self] at hnext
  obtain ⟨n, hlower, hn, hempty⟩ := lowerLayer_spec (m := m₂.setBlock e.addr none) (b := b)
    (n := (m.bucket b).layer) fun l hl => ⟨_, hhead l (hl.trans_le (h.layer_le b))⟩
  refine ⟨((m₂.setBlock e.addr none).setLayer b n).addCount b (-1), ys, ?_, ?_, ?_, hmem⟩
  · unfold popManager
    dsimp only
    rw [hb, hfind, hfound, ok_bind]
    simp only [map_some]
    rw [hunlink, ok_bind, hnode, ok_bind, hlayer, hlower, ok_bind, hbytes]
    rfl
  · rw [addCount_setLayer]
    refine hrep.setLayer (hn.trans (h.layer_le b)) fun z hz => ?_
    rw [update_self] at hz
    have hzx := ((hmem z).mp hz).1
    have hzhigh := h.high b z hzx
    by_contra hcon
    have hnone := hempty (z.height - 1) (by omega) (by omega)
    rw [hhead _ (by have := h.layer_le b; omega), Option.some.injEq,
      map_eq_none_iff] at hnone
    have hzh : z.height - 1 < z.height := by omega
    exact Tall.nextAbove_eq_none_iff.mp hnone z hz (WithBot.bot_lt_coe _) hzh
  · change m₂.total + -1 = m.total - 1
    rw [hsame.total]
    rfl

theorem pullManager_spec (h : Rep m xs) (ptr : Nat) (path : UpdatePath) :
    pullManager m ptr path = .ok ((lookup (xs (hashPointer ptr)) ptr).map Entry.bytes) := by
  obtain ⟨path', hfind, -⟩ := managerFindNode_spec h (hashPointer ptr) ptr path
  unfold pullManager
  rw [hfind, ok_bind]
  rcases hlookup : lookup (xs (hashPointer ptr)) ptr with - | e
  · rfl
  · obtain ⟨he, -⟩ := (lookup_eq_some_iff h).mp hlookup
    obtain ⟨node, hnode, -, hbytes⟩ := node_of_stored (h.stored _ e he)
    simp only [map_some, hnode, ok_bind, hbytes]
    rfl

--
-- The map
--

/-- The table's nodes are the entries of the map. -/
def Holds (m : Manager) (t : Sizes) : Prop :=
  ∃ xs, Rep m xs ∧ (∀ ptr, (lookup (xs (hashPointer ptr)) ptr).map Entry.bytes = t.get ptr) ∧
    m.total = t.entries.length

theorem holds_init : Holds .init .empty := by
  refine ⟨fun _ => [], ⟨fun _ => List.Pairwise.nil, nofun, nofun, nofun, nofun,
    fun _ => Nat.zero_le _,
    fun b l r k hAt => ?_, fun _ => rfl⟩, fun _ => rfl, rfl⟩
  rcases hAt with ⟨rfl, rfl, hl⟩ | ⟨e, he, -⟩
  · simp [Manager.slot, Manager.init, hl, Tall.nextAbove]
  · exact absurd he List.not_mem_nil

theorem lookup_update (h : Rep m xs) (h' : Rep m' (update xs b ys)) {p : Nat}
    (hmem : ∀ z, z.ptr ≠ ptr → (z ∈ ys ↔ z ∈ xs b)) (hp : p ≠ ptr) :
    lookup (update xs b ys (hashPointer p)) p = lookup (xs (hashPointer p)) p := by
  apply Option.ext
  intro z
  rw [lookup_eq_some_iff h, lookup_eq_some_iff h']
  by_cases hpb : hashPointer p = b
  · rw [hpb, update_self]
    constructor
    · rintro ⟨hz, rfl⟩
      exact ⟨(hmem z hp).mp hz, rfl⟩
    · rintro ⟨hz, rfl⟩
      exact ⟨(hmem z hp).mpr hz, rfl⟩
  · rw [update_of_ne hpb]

theorem call_refines {t : Sizes} (h : Holds m t) {c : Call} {rs : List Result}
    (hc : Promised (m, rs) c) :
    ∃ m', call m c = .ok (m', (Sizes.call t c).2) ∧ Holds m' (Sizes.call t c).1 := by
  obtain ⟨xs, hrep, hget, htotal⟩ := h
  rcases c with ⟨ptr, nbytes, layer, alloc, path⟩ | ⟨ptr, path⟩ | ⟨ptr, path⟩
  · obtain ⟨hlow, hlayer, halloc⟩ := hc
    have hptr := hget ptr
    rcases hlookup : lookup (xs (hashPointer ptr)) ptr with - | e
    · rw [hlookup, map_none] at hptr
      rcases alloc with - | a
      · obtain ⟨m', hpush, hrep', htotal'⟩ := pushManager_failed hrep nbytes path hlookup hlow
          hlayer
        refine ⟨m', ?_, xs, hrep', ?_, ?_⟩
        · simp [call, hpush, Sizes.call]
        · simpa [Sizes.call] using hget
        · simpa [Sizes.call, htotal'] using htotal
      · obtain ⟨m', ys, n, hpush, hrep', htotal', hmem⟩ := pushManager_absent hrep nbytes path rfl
          hlookup hlow hlayer halloc
        have hspec : Sizes.call t (.push ptr nbytes layer (some a) path) =
            (t.insert ptr nbytes, .pushed true) := by
          simp [Sizes.call, ← hptr]
        rw [hspec]
        refine ⟨m', ?_, _, hrep', fun p => ?_, ?_⟩
        · simp [call, hpush]
        · rw [OrdMap.get_insert]
          by_cases hp : p = ptr
          · subst hp
            have hmem' : (⟨a, p, nbytes, n⟩ : Entry) ∈
                update xs (hashPointer p) ys (hashPointer p) := by
              rw [update_self]
              exact (hmem _).mpr (Or.inl rfl)
            rw [if_pos rfl, (lookup_eq_some_iff hrep').mpr ⟨hmem', rfl⟩]
            rfl
          · rw [if_neg hp, ← hget p, lookup_update hrep hrep' (fun z hz => ?_) hp]
            rw [hmem]
            exact or_iff_right fun hze => hz (hze ▸ rfl)
        · rw [htotal', htotal, OrdMap.length_insert_of_none hptr.symm]
          rfl
    · rw [hlookup, map_some] at hptr
      have hspec : Sizes.call t (.push ptr nbytes layer alloc path) = (t, .pushed false) := by
        simp [Sizes.call, ← hptr]
      rw [hspec]
      refine ⟨m, ?_, xs, hrep, hget, htotal⟩
      rw [call, pushManager_present hrep hlookup]
      rfl
  · have hptr := hget ptr
    rcases hlookup : lookup (xs (hashPointer ptr)) ptr with - | e
    · rw [hlookup, map_none] at hptr
      have hspec : Sizes.call t (.pop ptr path) = (t, .popped none) := by
        simp [Sizes.call, ← hptr]
      rw [hspec]
      refine ⟨m, ?_, xs, hrep, hget, htotal⟩
      rw [call, popManager_absent hrep hlookup]
      rfl
    · rw [hlookup, map_some] at hptr
      obtain ⟨m', ys, hpop, hrep', htotal', hmem⟩ := popManager_present hrep path rfl hlookup
      obtain ⟨he, heptr⟩ := (lookup_eq_some_iff hrep).mp hlookup
      have hspec : Sizes.call t (.pop ptr path) = (t.erase ptr, .popped (some e.bytes)) := by
        simp [Sizes.call, ← hptr]
      rw [hspec]
      refine ⟨m', ?_, _, hrep', fun p => ?_, ?_⟩
      · rw [call, hpop]
        rfl
      · rw [OrdMap.get_erase]
        by_cases hp : p = ptr
        · subst hp
          rw [if_pos rfl, update_self, lookup_eq_none_iff.mpr, map_none]
          intro z hz hzp
          obtain ⟨hzx, hne⟩ := (hmem z).mp hz
          exact hne ((hrep.ascending _).key_inj hzx he (hzp.trans heptr.symm))
        · rw [if_neg hp, ← hget p, lookup_update hrep hrep' (fun z hz => ?_) hp]
          rw [hmem]
          exact and_iff_left fun hze => hz (hze ▸ heptr)
      · rw [htotal', htotal, OrdMap.length_erase_of_some hptr.symm]
        push_cast
        omega
  · refine ⟨m, ?_, xs, hrep, hget, htotal⟩
    rw [call, pullManager_spec hrep, hget ptr]
    rfl

def Agree (s : Manager × List Result) (t : Sizes × List Result) : Prop :=
  Holds s.1 t.1 ∧ s.2 = t.2

theorem step_refines (s : Manager × List Result) (t : Sizes × List Result) (c : Call)
    (h : Agree s t) (hc : Promised s c) : ∃ s', step s c = .ok s' ∧ Agree s' (Sizes.step t c) := by
  obtain ⟨hholds, hresults⟩ := h
  obtain ⟨m', hcall, hholds'⟩ := call_refines hholds hc
  refine ⟨(m', s.2 ++ [(Sizes.call t.1 c).2]), ?_, hholds', ?_⟩
  · rw [step, hcall]
    rfl
  · rw [Sizes.step, hresults]

/-- **The table is a map.** -/
theorem manager_refines_map {calls : List Call} (h : Along step Promised (.init, []) calls) :
    ∃ m, run step (.init, []) calls = .ok (m, (calls.foldl Sizes.step (.empty, [])).2) ∧
      managerTotal m = (calls.foldl Sizes.step (.empty, [])).1.entries.length ∧
      ∀ b, b < MANAGER_MAX_BUCKETS → Layered m b := by
  have hinit : Agree (.init, []) (.empty, []) := ⟨holds_init, rfl⟩
  obtain ⟨s, hrun, ⟨xs, hrep, -, htotal⟩, hresults⟩ := run_refines step_refines hinit h
  refine ⟨s.1, ?_, htotal, fun b _ => hrep.layered b⟩
  rw [hrun, ← hresults]

/-- Two pointers of one bucket, one push that fails, a pop. -/
def someCalls : List Call :=
  let p : UpdatePath := fun _ => none
  [.push 8 24 2 (some 0) p, .push 2416 8 5 (some 1) p, .push 16 8 9 none p, .push 8 1 1 (some 2) p,
    .pull 8 p, .pop 8 p, .pull 8 p]

theorem manager_refines_map_someCalls : ∃ m, run step (.init, []) someCalls =
      .ok (m, (someCalls.foldl Sizes.step (.empty, [])).2) ∧
    managerTotal m = (someCalls.foldl Sizes.step (.empty, [])).1.entries.length ∧
    ∀ b, b < MANAGER_MAX_BUCKETS → Layered m b :=
  manager_refines_map (by decide +kernel)

end Supex.Memhook
