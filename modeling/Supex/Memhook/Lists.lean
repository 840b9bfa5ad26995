import Supex.Lib.Layers
import Supex.Memhook.Table

/-!
# The lists of the table of blocks

What the buckets of `Supex.Memhook.Table` store: `Rep m xs` says that the list of
each bucket `b` has the nodes `xs b`, and that every slot of the head and of a node
holds the next higher node in the layer of the slot (`Tall.nextAbove`).

* `managerFindNode_spec` — the search finds the node, and leaves in the path the
  last one in front of it in every layer (`Before`), which is unique.
* `linkNode_spec`, `unlinkNode_spec` — what the loops of a push and a pop write.
* `Rep.layered` — the lists of a table that meets `Rep`.
-/

namespace Supex.Memhook

open Supex.Lib List

--
-- Slots
--

/-- The pointer and the size of a block's node. -/
def Manager.stored (m : Manager) (a : Nat) : Option (Nat × Int) :=
  (m.heap a).map fun n => (n.ptr, n.bytes)

/-- Only next slots differ. -/
structure SameNodes (m m' : Manager) : Prop where
  stored : ∀ a, m'.stored a = m.stored a
  layer : ∀ b, (m'.bucket b).layer = (m.bucket b).layer
  count : ∀ b, (m'.bucket b).count = (m.bucket b).count
  total : m'.total = m.total

theorem SameNodes.rfl {m : Manager} : SameNodes m m :=
  ⟨fun _ => Eq.refl _, fun _ => Eq.refl _, fun _ => Eq.refl _, Eq.refl _⟩

theorem SameNodes.trans {m₁ m₂ m₃ : Manager} (h : SameNodes m₁ m₂) (h' : SameNodes m₂ m₃) :
    SameNodes m₁ m₃ :=
  ⟨fun a => (h'.stored a).trans (h.stored a), fun b => (h'.layer b).trans (h.layer b),
    fun b => (h'.count b).trans (h.count b), h'.total.trans h.total⟩

variable {m m' : Manager}

theorem readNext_of_slot {r : Ref} {l : Nat} {v : Option Nat} (h : m.slot r l = some v) :
    m.readNext r l = .ok v := by
  unfold Manager.readNext
  rw [h]

theorem writeNext_of_slot {r : Ref} {l : Nat} {old : Option Nat} (h : m.slot r l = some old)
    (v : Option Nat) : ∃ m', m.writeNext r l v = .ok m' ∧ SameNodes m m' ∧
      ∀ r' l', m'.slot r' l' = if r' = r ∧ l' = l then some v else m.slot r' l' := by
  unfold Manager.writeNext
  rw [h]
  rcases r with b | a
  · refine ⟨_, rfl, ⟨fun _ => rfl, fun b' => ?_, fun b' => ?_, rfl⟩, fun r' l' => ?_⟩
    · by_cases hb : b' = b
      · subst hb
        simp [Manager.setList]
      · simp [Manager.setList, hb]
    · by_cases hb : b' = b
      · subst hb
        simp [Manager.setList]
      · simp [Manager.setList, hb]
    · rcases r' with b' | a'
      · by_cases hb : b' = b
        · subst hb
          have hlt : l < (m.bucket b').head.length := by
            obtain ⟨hlt, -⟩ := List.getElem?_eq_some_iff.mp h
            exact hlt
          by_cases hl : l' = l
          · subst hl
            simp [Manager.slot, Manager.setList, hlt]
          · simp [Manager.slot, Manager.setList, hl, Ne.symm hl]
        · simp [Manager.slot, Manager.setList, hb]
      · simp [Manager.slot, Manager.setList]
  · obtain ⟨n, hn, hget⟩ := Option.bind_eq_some_iff.mp h
    obtain ⟨hlt, -⟩ := List.getElem?_eq_some_iff.mp hget
    refine ⟨_, rfl, ⟨fun a' => ?_, fun _ => rfl, fun _ => rfl, rfl⟩, fun r' l' => ?_⟩
    · by_cases ha : a' = a
      · subst ha
        simp [Manager.stored, Manager.setBlock, hn]
      · simp [Manager.stored, Manager.setBlock, ha]
    · rcases r' with b' | a'
      · simp [Manager.slot, Manager.setBlock]
      · by_cases ha : a' = a
        · subst ha
          by_cases hl : l' = l
          · subst hl
            simp [Manager.slot, Manager.setBlock, hn, hlt]
          · simp [Manager.slot, Manager.setBlock, hn, hl, Ne.symm hl]
        · simp [Manager.slot, Manager.setBlock, ha]

variable {ptr : Nat}

theorem node_of_stored {a : Nat} {bytes : Int} (h : m.stored a = some (ptr, bytes)) :
    ∃ n, m.node a = .ok n ∧ n.ptr = ptr ∧ n.bytes = bytes := by
  obtain ⟨n, hn, hpair⟩ := Option.map_eq_some_iff.mp h
  rw [Prod.mk.injEq] at hpair
  refine ⟨n, ?_, hpair.1, hpair.2⟩
  unfold Manager.node
  rw [hn]

--
-- What a table stores
--

/-- A node of a list. -/
structure Entry where
  addr : Nat
  ptr : Nat
  bytes : Int
  height : Nat
  deriving DecidableEq

def tall : Tall Entry Nat := ⟨Entry.ptr, Entry.height⟩

/-- `r` has a slot in layer `l` of the list of bucket `b`, and is the head or the
node with pointer `k`. -/
def At (xs : List Entry) (b l : Nat) (r : Ref) (k : WithBot Nat) : Prop :=
  (r = .head b ∧ k = ⊥ ∧ l < GMAXLAYERS) ∨
    ∃ e ∈ xs, r = .node e.addr ∧ k = .some e.ptr ∧ l < e.height

/-- The table stores the nodes `xs b` in each bucket `b`. -/
structure Rep (m : Manager) (xs : Nat → List Entry) : Prop where
  ascending : ∀ b, tall.Ascending (xs b)
  hashed : ∀ b, ∀ e ∈ xs b, hashPointer e.ptr = b
  stored : ∀ b, ∀ e ∈ xs b, m.stored e.addr = some (e.ptr, e.bytes)
  low : ∀ b, ∀ e ∈ xs b, 1 ≤ e.height
  high : ∀ b, ∀ e ∈ xs b, e.height ≤ (m.bucket b).layer
  layer_le : ∀ b, (m.bucket b).layer ≤ GMAXLAYERS
  next : ∀ b l r k, At (xs b) b l r k →
    m.slot r l = some ((tall.nextAbove (xs b) k l).map Entry.addr)
  count : ∀ b, (m.bucket b).count = (xs b).length

variable {xs : Nat → List Entry} {b l : Nat} {r r' : Ref} {k k' : WithBot Nat}

theorem At.down {xs : List Entry} {j : Nat} (h : At xs b l r k) (hj : j ≤ l) : At xs b j r k := by
  rcases h with ⟨hr, hk, hl⟩ | ⟨e, he, hr, hk, hl⟩
  · exact Or.inl ⟨hr, hk, hj.trans_lt hl⟩
  · exact Or.inr ⟨e, he, hr, hk, hj.trans_lt hl⟩

theorem Rep.addr_inj (h : Rep m xs) {b b' : Nat} {e e' : Entry} (he : e ∈ xs b) (he' : e' ∈ xs b')
    (haddr : e.addr = e'.addr) : b = b' ∧ e = e' := by
  have hpair : some (e.ptr, e.bytes) = some (e'.ptr, e'.bytes) := by
    rw [← h.stored b e he, ← h.stored b' e' he', haddr]
  have hptr : e.ptr = e'.ptr := congrArg Prod.fst (Option.some.inj hpair)
  have hb : b = b' := by rw [← h.hashed b e he, ← h.hashed b' e' he', hptr]
  subst hb
  exact ⟨rfl, (h.ascending b).key_inj he he' hptr⟩

theorem Rep.at_inj (h : Rep m xs) (hr : At (xs b) b l r k) (hr' : At (xs b) b l r' k) : r = r' := by
  rcases hr with ⟨rfl, rfl, -⟩ | ⟨e, he, rfl, rfl, -⟩
  · rcases hr' with ⟨rfl, -, -⟩ | ⟨e', -, -, hk', -⟩
    · rfl
    · exact absurd hk' (WithBot.bot_ne_coe)
  · rcases hr' with ⟨-, hk', -⟩ | ⟨e', he', rfl, hk', -⟩
    · exact absurd hk' (WithBot.coe_ne_bot)
    · rw [(h.ascending b).key_inj he he' (WithBot.coe_injective hk')]

theorem Rep.at_key (h : Rep m xs) {b' l' : Nat} (hr : At (xs b) b l r k)
    (hr' : At (xs b') b' l' r k') : b = b' ∧ k = k' := by
  rcases hr with ⟨rfl, rfl, -⟩ | ⟨e, he, rfl, rfl, -⟩
  · rcases hr' with ⟨hhead, rfl, -⟩ | ⟨e', -, hnode, -, -⟩
    · exact ⟨Ref.head.inj hhead, rfl⟩
    · cases hnode
  · rcases hr' with ⟨hhead, -, -⟩ | ⟨e', he', hnode, rfl, -⟩
    · cases hhead
    · obtain ⟨hb, hee⟩ := h.addr_inj he he' (Ref.node.inj hnode)
      exact ⟨hb, congrArg _ (congrArg Entry.ptr hee)⟩

/-- `r` is the last in front of `ptr` in layer `l`. -/
def Before (xs : List Entry) (b ptr l : Nat) (r : Ref) (k : WithBot Nat) : Prop :=
  At xs b l r k ∧ k < WithBot.some ptr ∧
    ∀ z ∈ xs, k < WithBot.some z.ptr → l < z.height → ptr ≤ z.ptr

theorem Rep.before_inj (h : Rep m xs) (hr : Before (xs b) b ptr l r k)
    (hr' : Before (xs b) b ptr l r' k') : r = r' := by
  obtain ⟨hAt, hlt, hgap⟩ := hr
  obtain ⟨hAt', hlt', hgap'⟩ := hr'
  -- the later of two would lie between the earlier one and `ptr`
  have hle {k₁ k₂ : WithBot Nat} {r₂ : Ref} (h₂ : At (xs b) b l r₂ k₂)
    (hlt₂ : k₂ < WithBot.some ptr)
      (hgap₁ : ∀ z ∈ xs b, k₁ < WithBot.some z.ptr → l < z.height → ptr ≤ z.ptr) :
      k₂ ≤ k₁ := by
    by_contra hcon
    rcases h₂ with ⟨-, rfl, -⟩ | ⟨e, he, -, rfl, hl⟩
    · exact hcon bot_le
    · exact absurd (WithBot.coe_lt_coe.mp hlt₂) (not_lt.mpr (hgap₁ e he (not_le.mp hcon) hl))
  have hk : k = k' := le_antisymm (hle hAt hlt hgap') (hle hAt' hlt' hgap)
  subst hk
  exact h.at_inj hAt hAt'

theorem Rep.nextAbove_of_before (h : Rep m xs) (hr : Before (xs b) b ptr l r k)
    (habsent : ∀ z ∈ xs b, z.ptr ≠ ptr) :
    tall.nextAbove (xs b) k l = tall.nextAbove (xs b) (WithBot.some ptr) l := by
  refine Tall.nextAbove_of_gap (h.ascending b) hr.2.1 fun z hz hkz hl => ?_
  exact lt_of_le_of_ne (hr.2.2 z hz hkz hl) (habsent z hz).symm

theorem Rep.nextAbove_eq_of_before (h : Rep m xs) {e : Entry} (he : e ∈ xs b)
    (hr : Before (xs b) b e.ptr l r k) (hl : l < e.height) :
    tall.nextAbove (xs b) k l = some e :=
  (Tall.nextAbove_eq_some_iff (h.ascending b)).mpr ⟨he, hr.2.1, hl, hr.2.2⟩

--
-- The search
--

theorem searchLayer_spec (h : Rep m xs) {turns : Nat} (hAt : At (xs b) b l r k)
    (hk : k < WithBot.some ptr) (hturns : (tall.above (xs b) k l).length < turns) :
    ∃ r' k', searchLayer m ptr l turns r =
        .ok (r', (tall.nextAbove (xs b) k' l).map Entry.addr) ∧ Before (xs b) b ptr l r' k' := by
  induction turns generalizing r k with
  | zero => exact absurd hturns (Nat.not_lt_zero _)
  | succ turns ih =>
    rw [searchLayer, readNext_of_slot (h.next b l r k hAt), ok_bind]
    rcases hnext : tall.nextAbove (xs b) k l with - | e
    · refine ⟨r, k, ?_, hAt, hk, fun z hz hkz hl => ?_⟩
      · rw [hnext]
        rfl
      · exact absurd hl (Tall.nextAbove_eq_none_iff.mp hnext z hz hkz)
    · obtain ⟨he, hke, hl, hmin⟩ := (Tall.nextAbove_eq_some_iff (h.ascending b)).mp hnext
      obtain ⟨n, hn, hptr, -⟩ := node_of_stored (h.stored b e he)
      simp only [Option.map_some, hn, ok_bind, hptr]
      by_cases hlt : e.ptr < ptr
      · rw [if_pos hlt]
        refine ih (Or.inr ⟨e, he, rfl, rfl, hl⟩) (WithBot.coe_lt_coe.mpr hlt) ?_
        rw [Tall.nextAbove_eq_head] at hnext
        obtain ⟨rest, hcons⟩ := head?_eq_some_iff.mp hnext
        have htail := Tall.above_key_of_cons (h.ascending b) hcons
        rw [hcons, length_cons] at hturns
        exact htail ▸ (by omega)
      · rw [if_neg hlt]
        refine ⟨r, k, ?_, hAt, hk, fun z hz hkz hl => ?_⟩
        · rw [hnext]
          rfl
        · exact (not_lt.mp hlt).trans (hmin z hz hkz hl)

/-- The path is right in the layers below `n`. -/
def PathOk (xs : List Entry) (b ptr n : Nat) (path : UpdatePath) : Prop :=
  ∀ l, l < n → ∃ r k, path l = some r ∧ Before xs b ptr l r k

theorem searchLayers_spec (h : Rep m xs) {turns n : Nat} (search : Option Nat) (path : UpdatePath)
    (hn : n ≤ GMAXLAYERS) (hAt : ∀ l, l < n → At (xs b) b l r k) (hk : k < WithBot.some ptr)
    (hturns : (xs b).length < turns) :
    ∃ search' path', searchLayers m ptr turns n r search path = .ok (search', path') ∧
      PathOk (xs b) b ptr n path' ∧ (∀ l, n ≤ l → path' l = path l) ∧ (n = 0 → search' = search) ∧
      (0 < n → ∃ r' k', Before (xs b) b ptr 0 r' k' ∧
        search' = (tall.nextAbove (xs b) k' 0).map Entry.addr) := by
  induction n generalizing r k search path with
  | zero =>
    exact ⟨search, path, rfl, fun l hl => absurd hl (Nat.not_lt_zero _), fun _ _ => rfl,
      fun _ => rfl, fun h0 => absurd h0 (lt_irrefl _)⟩
  | succ n ih =>
    obtain ⟨r₁, k₁, hsearch, hbefore⟩ := searchLayer_spec h (hAt n (Nat.lt_succ_self n)) hk
      ((Tall.above_length_le _ _ _).trans_lt hturns)
    obtain ⟨search', path', hrun, hpath, hkept, hzero, hpos⟩ :=
      ih ((tall.nextAbove (xs b) k₁ n).map Entry.addr) (Function.update path n (some r₁)) (by omega)
      (fun l hl => hbefore.1.down hl.le) hbefore.2.1
    have hwrite : path.write n r₁ = .ok (Function.update path n (some r₁)) := by
      unfold UpdatePath.write
      rw [if_pos (by omega)]
    refine ⟨search', path', ?_, fun l hl => ?_, fun l hl => ?_, nofun, fun _ => ?_⟩
    · rw [searchLayers, hsearch, ok_bind]
      dsimp only
      rw [hwrite, ok_bind, hrun]
    · rcases Nat.lt_succ_iff_lt_or_eq.mp hl with hl | rfl
      · exact hpath l hl
      · refine ⟨r₁, k₁, ?_, hbefore⟩
        rw [hkept l le_rfl, Function.update_self]
    · rw [hkept l (by omega), Function.update_of_ne (by omega)]
    · rcases Nat.eq_zero_or_pos n with rfl | hn0
      · exact ⟨r₁, k₁, hbefore, hzero rfl⟩
      · exact hpos hn0

/-- The node of a pointer, if the bucket has one. -/
def lookup (xs : List Entry) (ptr : Nat) : Option Entry := xs.find? fun e => e.ptr = ptr

theorem lookup_eq_some_iff (h : Rep m xs) {e : Entry} :
    lookup (xs b) ptr = some e ↔ e ∈ xs b ∧ e.ptr = ptr := by
  constructor
  · intro hfind
    have hptr := find?_some hfind
    exact ⟨mem_of_find?_eq_some hfind, of_decide_eq_true hptr⟩
  · rintro ⟨he, rfl⟩
    rcases hfind : lookup (xs b) e.ptr with - | e'
    · exact absurd rfl (of_decide_eq_false
        (Bool.eq_false_iff.mpr (find?_eq_none.mp hfind e he)))
    · have hptr := find?_some hfind
      have hptr : e'.ptr = e.ptr := of_decide_eq_true hptr
      rw [(h.ascending b).key_inj (mem_of_find?_eq_some hfind) he hptr]

theorem lookup_eq_none_iff {xs : List Entry} : lookup xs ptr = none ↔ ∀ z ∈ xs, z.ptr ≠ ptr := by
  simp [lookup, find?_eq_none]

theorem managerFindNode_spec (h : Rep m xs) (b ptr : Nat) (path : UpdatePath) :
    ∃ path', managerFindNode m b ptr path = .ok ((lookup (xs b) ptr).map Entry.addr, path') ∧
      PathOk (xs b) b ptr (m.bucket b).layer path' := by
  have hlayer := h.layer_le b
  have hturns : (xs b).length < (m.bucket b).count.toNat + 1 := by
    rw [h.count b]
    omega
  obtain ⟨search, path', hrun, hpath, -, hzero, hpos⟩ := searchLayers_spec (r := .head b) (k := ⊥) h
    none path hlayer (fun l hl => Or.inl ⟨rfl, rfl, hl.trans_le hlayer⟩)
      (WithBot.bot_lt_coe ptr) hturns
  refine ⟨path', ?_, hpath⟩
  unfold managerFindNode
  dsimp only
  rw [hrun, ok_bind]
  rcases Nat.eq_zero_or_pos (m.bucket b).layer with h0 | h0
  · -- no layer, no node
    have hnone : lookup (xs b) ptr = none := by
      refine lookup_eq_none_iff.mpr fun z hz => ?_
      have := h.low b z hz
      have := h.high b z hz
      omega
    rw [hnone, hzero h0]
    rfl
  · obtain ⟨r, k, ⟨-, hk, hgap⟩, hsearch⟩ := hpos h0
    rw [hsearch]
    rcases hnext : tall.nextAbove (xs b) k 0 with - | e
    · have hnone : lookup (xs b) ptr = none := by
        refine lookup_eq_none_iff.mpr fun z hz hptr => ?_
        have hkz : k < WithBot.some z.ptr := by rw [hptr]; exact hk
        exact Tall.nextAbove_eq_none_iff.mp hnext z hz hkz (h.low b z hz)
      rw [hnone]
      rfl
    · obtain ⟨he, hke, hl, hmin⟩ := (Tall.nextAbove_eq_some_iff (h.ascending b)).mp hnext
      obtain ⟨n, hn, hptr, -⟩ := node_of_stored (h.stored b e he)
      simp only [Option.map_some, hn, ok_bind, hptr]
      by_cases heq : e.ptr = ptr
      · rw [(lookup_eq_some_iff h).mpr ⟨he, heq⟩, if_pos heq]
        rfl
      · have hnone : lookup (xs b) ptr = none := by
          refine lookup_eq_none_iff.mpr fun z hz hz' => heq ?_
          have hkz : k < WithBot.some z.ptr := by rw [hz']; exact hk
          have hle : e.ptr ≤ z.ptr := hmin z hz hkz (h.low b z hz)
          exact le_antisymm (hz' ▸ hle) (hgap e he hke hl)
        rw [hnone, if_neg heq]
        rfl

--
-- The loops of a push and a pop
--

theorem UpdatePath.read_of_some {path : UpdatePath} (h : path l = some r) (hl : l < GMAXLAYERS) :
    path.read l = .ok r := by
  unfold UpdatePath.read
  rw [h]
  exact if_pos hl

theorem linkNode_spec {path : UpdatePath} {a n : Nat} (hn : n ≤ GMAXLAYERS)
    (hpath : ∀ l, l < n → ∃ r v, path l = some r ∧ r ≠ .node a ∧ m.slot r l = some v)
    (hnew : ∀ l, l < n → ∃ v, m.slot (.node a) l = some v) :
    ∃ m', linkNode path a n m = .ok m' ∧ SameNodes m m' ∧
      (∀ r l, l < n → path l = some r → m'.slot (.node a) l = m.slot r l) ∧
      (∀ l, n ≤ l → m'.slot (.node a) l = m.slot (.node a) l) ∧
      ∀ r l, r ≠ .node a → m'.slot r l =
        if l < n ∧ path l = some r then some (some a) else m.slot r l := by
  induction n generalizing m with
  | zero =>
    exact ⟨m, rfl, .rfl, fun _ l hl => absurd hl (Nat.not_lt_zero _), fun _ _ => rfl,
      fun r l _ => by simp⟩
  | succ n ih =>
    obtain ⟨r₀, v, hr₀, hne, hv⟩ := hpath n (Nat.lt_succ_self n)
    obtain ⟨v₀, hv₀⟩ := hnew n (Nat.lt_succ_self n)
    obtain ⟨m₁, hwrite₁, hsame₁, hslot₁⟩ := writeNext_of_slot hv₀ v
    have hv₁ : m₁.slot r₀ n = some v := by rw [hslot₁, if_neg fun hc => hne hc.1, hv]
    obtain ⟨m₂, hwrite₂, hsame₂, hslot₂⟩ := writeNext_of_slot hv₁ (some a)
    -- the layers below are as they were
    have hbelow : ∀ r l, l < n → m₂.slot r l = m.slot r l := by
      intro r l hl
      rw [hslot₂, if_neg fun hc => hl.ne hc.2, hslot₁, if_neg fun hc => hl.ne hc.2]
    obtain ⟨m', hrun, hsame, hnode, hupper, hrest⟩ := ih (m := m₂) (by omega)
      (fun l hl => by
        obtain ⟨r, v, hr, hra, hv⟩ := hpath l (by omega)
        exact ⟨r, v, hr, hra, (hbelow r l hl).trans hv⟩)
      (fun l hl => by
        obtain ⟨v, hv⟩ := hnew l (by omega)
        exact ⟨v, (hbelow _ l hl).trans hv⟩)
    have hread : path.read n = .ok r₀ := UpdatePath.read_of_some hr₀ (by omega)
    refine ⟨m', ?_, hsame₁.trans (hsame₂.trans hsame), fun r l hl hr => ?_, fun l hl => ?_,
      fun r l hra => ?_⟩
    · rw [linkNode, hread, ok_bind, readNext_of_slot hv, ok_bind, hwrite₁, ok_bind, hwrite₂,
        ok_bind,
        hrun]
    · rcases Nat.lt_succ_iff_lt_or_eq.mp hl with hl | rfl
      · rw [hnode r l hl hr, hbelow r l hl]
      · obtain rfl : r = r₀ := Option.some.inj (hr.symm.trans hr₀)
        rw [hupper l le_rfl, hslot₂, if_neg fun hc => hne hc.1.symm, hslot₁, if_pos ⟨rfl, rfl⟩, hv]
    · rw [hupper l (by omega), hslot₂, if_neg fun hc => hne hc.1.symm, hslot₁,
        if_neg fun hc => absurd hc.2 (by omega)]
    · rw [hrest r l hra]
      rcases lt_trichotomy l n with hl | rfl | hl
      · rw [hbelow r l hl]
        by_cases hr : path l = some r
        · rw [if_pos ⟨hl, hr⟩, if_pos ⟨by omega, hr⟩]
        · rw [if_neg fun hc => hr hc.2, if_neg fun hc => hr hc.2]
      · rw [if_neg fun hc => absurd hc.1 (lt_irrefl _), hslot₂, hslot₁]
        by_cases hr : r = r₀
        · subst hr
          rw [if_pos ⟨rfl, rfl⟩, if_pos ⟨Nat.lt_succ_self _, hr₀⟩]
        · rw [if_neg fun hc => hr hc.1, if_neg fun hc => hra hc.1,
            if_neg fun hc => hr (Option.some.inj (hr₀.symm.trans hc.2)).symm]
      · rw [if_neg fun hc => absurd hc.1 (by omega), if_neg fun hc => absurd hc.1 (by omega),
          hslot₂,
          if_neg fun hc => absurd hc.2 (by omega), hslot₁, if_neg fun hc => absurd hc.2 (by omega)]

/-- In the layers below `top`, and in no other, the path shows the node; its slots
take over what the node's showed. -/
theorem unlinkNode_spec {a : Nat} (path : UpdatePath) (turns top : Nat) (hle : l ≤ top)
    (htop : top ≤ l + turns) (hmax : l + turns ≤ GMAXLAYERS)
    (hpath : ∀ j, l ≤ j → j < top → ∃ r v, path j = some r ∧ r ≠ .node a ∧
      m.slot r j = some (some a) ∧ m.slot (.node a) j = some v)
    (hstop : top < l + turns → ∃ r v, path top = some r ∧ m.slot r top = some v ∧ v ≠ some a) :
    ∃ m', unlinkNode path a turns l m = .ok m' ∧ SameNodes m m' ∧
      ∀ r j, m'.slot r j =
        if l ≤ j ∧ j < top ∧ path j = some r then m.slot (.node a) j else m.slot r j := by
  induction turns generalizing l m with
  | zero =>
    refine ⟨m, rfl, .rfl, fun r j => ?_⟩
    rw [if_neg fun hc => absurd hc.1 (by omega)]
  | succ turns ih =>
    rcases hle.lt_or_eq with hlt | rfl
    · obtain ⟨r₀, v, hr₀, hne, hshow, hv⟩ := hpath l le_rfl hlt
      have hread : path.read l = .ok r₀ := UpdatePath.read_of_some hr₀ (by omega)
      obtain ⟨m₁, hwrite, hsame₁, hslot₁⟩ := writeNext_of_slot hshow v
      have habove : ∀ r j, l < j → m₁.slot r j = m.slot r j := by
        intro r j hj
        rw [hslot₁, if_neg fun hc => hj.ne' hc.2]
      obtain ⟨m', hrun, hsame, hslot⟩ := ih (m := m₁) (l := l + 1) hlt (by omega) (by omega)
        (fun j hj hjt => by
          obtain ⟨r, w, hr, hra, hrs, hw⟩ := hpath j (by omega) hjt
          exact ⟨r, w, hr, hra, (habove r j hj).trans hrs, (habove _ j hj).trans hw⟩)
        (fun ht => by
          obtain ⟨r, w, hr, hrs, hw⟩ := hstop (by omega)
          exact ⟨r, w, hr, (habove r top hlt).trans hrs, hw⟩)
      refine ⟨m', ?_, hsame₁.trans hsame, fun r j => ?_⟩
      · rw [unlinkNode, hread, ok_bind, readNext_of_slot hshow, ok_bind, if_pos rfl,
          readNext_of_slot hv, ok_bind, hwrite, ok_bind, hrun]
      · rw [hslot r j]
        rcases lt_trichotomy l j with hj | rfl | hj
        · rw [habove _ j hj, habove _ j hj]
          by_cases hr : j < top ∧ path j = some r
          · rw [if_pos ⟨hj, hr⟩, if_pos ⟨hj.le, hr⟩]
          · rw [if_neg fun hc => hr hc.2, if_neg fun hc => hr hc.2]
        · rw [if_neg fun hc => absurd hc.1 (by omega), hslot₁]
          by_cases hr : r = r₀
          · subst hr
            rw [if_pos ⟨rfl, rfl⟩, if_pos ⟨le_rfl, hlt, hr₀⟩, hv]
          · rw [if_neg fun hc => hr hc.1,
              if_neg fun hc => hr (Option.some.inj (hr₀.symm.trans hc.2.2)).symm]
        · rw [if_neg fun hc => absurd hc.1 (by omega), if_neg fun hc => absurd hc.1 (by omega),
            hslot₁,
            if_neg fun hc => hj.ne hc.2]
    · obtain ⟨r, v, hr, hv, hva⟩ := hstop (by omega)
      have hread : path.read l = .ok r := UpdatePath.read_of_some hr (by omega)
      refine ⟨m, ?_, .rfl, fun r j => ?_⟩
      · rw [unlinkNode, hread, ok_bind, readNext_of_slot hv, ok_bind, if_neg hva]
        rfl
      · rw [if_neg fun hc => absurd hc.1 (by omega)]

theorem lowerLayer_spec {n : Nat} (hslot : ∀ l, l < n → ∃ v, m.slot (.head b) l = some v) :
    ∃ n', lowerLayer m b n = .ok n' ∧ n' ≤ n ∧
      ∀ l, n' ≤ l → l < n → m.slot (.head b) l = some none := by
  induction n with
  | zero => exact ⟨0, rfl, le_rfl, fun l _ hl => absurd hl (Nat.not_lt_zero _)⟩
  | succ n ih =>
    obtain ⟨v, hv⟩ := hslot n (Nat.lt_succ_self n)
    rw [lowerLayer, readNext_of_slot hv, ok_bind]
    rcases v with - | a
    · obtain ⟨n', hrun, hle, hempty⟩ := ih fun l hl => hslot l (by omega)
      refine ⟨n', hrun, by omega, fun l hl hln => ?_⟩
      rcases Nat.lt_succ_iff_lt_or_eq.mp hln with hln | rfl
      · exact hempty l hl hln
      · exact hv
    · exact ⟨n + 1, rfl, le_rfl, fun l hl hln => absurd hln (by omega)⟩

--
-- The lists
--

theorem follow_spec (h : Rep m xs) {turns : Nat} (hturns : (tall.above (xs b) k l).length ≤ turns) :
    follow m l turns ((tall.nextAbove (xs b) k l).map Entry.addr) =
      .ok ((tall.above (xs b) k l).map fun e => (e.addr, e.ptr)) := by
  induction turns generalizing k with
  | zero =>
    have hnil : tall.above (xs b) k l = [] := eq_nil_of_length_eq_zero (by omega)
    rw [Tall.nextAbove_eq_head, hnil]
    rfl
  | succ turns ih =>
    have hnext := Tall.nextAbove_eq_head (t := tall) (xs b) k l
    rcases habove : tall.above (xs b) k l with - | ⟨e, rest⟩
    · rw [hnext, habove]
      rfl
    · rw [habove, head?_cons] at hnext
      obtain ⟨he, -, hl, -⟩ := (Tall.nextAbove_eq_some_iff (h.ascending b)).mp hnext
      have htail : tall.above (xs b) (WithBot.some e.ptr) l = rest :=
        Tall.above_key_of_cons (h.ascending b) habove
      obtain ⟨n, hn, hptr, -⟩ := node_of_stored (h.stored b e he)
      rw [habove, length_cons] at hturns
      rw [hnext, Option.map_some, follow, hn, ok_bind,
        readNext_of_slot (h.next b l _ _ (Or.inr ⟨e, he, rfl, rfl, hl⟩)), ok_bind,
        ih (by rw [htail]; omega), ok_bind, htail, hptr]
      rfl

theorem Rep.layered (h : Rep m xs) (b : Nat) : Layered m b := by
  refine ⟨fun l => (tall.layer (xs b) l).map fun e => (e.addr, e.ptr), fun l hl => ⟨?_, ?_⟩,
    fun l _ => ?_, ?_⟩
  · have hturns : (tall.above (xs b) ⊥ l).length ≤ (m.bucket b).count.toNat := by
      rw [h.count b]
      exact Tall.above_length_le _ _ _
    have hfollow := follow_spec h hturns
    rw [Tall.above_bot] at hfollow
    unfold layerList
    rw [readNext_of_slot (h.next b l _ _ (Or.inl ⟨rfl, rfl, hl⟩)), ok_bind, hfollow]
  · exact pairwise_map.mpr (Tall.layer_ascending (h.ascending b) l)
  · exact (tall.layer_succ_sublist (xs b) l).map _
  · have hall : tall.layer (xs b) 0 = xs b :=
      filter_eq_self.mpr fun e he => decide_eq_true (h.low b e he)
    dsimp only
    rw [hall, length_map, h.count b]

end Supex.Memhook
