import Supex.Lib.Run
import Supex.Timport.Task

/-!
# timport — who is counted where

A task counts the children that have reported. What is left of the children it
has created are live, or were dropped. While a callback runs some tasks have
reported, or will not be heard of, and are not freed yet: they are `Z` here. And
one task may still be owed a count: `m` of `o`.

* `Core.put`, `Core.leave`, `Core.enter`, `Core.free`, `Core.spawn` — what
  callbacks are made of.
-/

namespace Supex.Timport

open List

open Function (update update_eq_self update_idem update_of_ne update_self)

variable {cfg : Config} {st st' : Sys} {Z : List Nat} {o m t p : Nat} {x y : Task}

--
-- Counts
--

/-- There is a request of the task. -/
def asked (st : Sys) (t : Nat) : Prop := ∃ r ∈ st.pending, r.task = some t

/-- The live children of a task. -/
def kids (st : Sys) (Z : List Nat) (p : Nat) : Finset Nat :=
  (Finset.range st.next).filter fun t => t ∉ Z ∧ (st.task t).bind Task.parent = some p

/-- The children a task has created; the tasks of a key are created at once. -/
def Task.created (x : Task) : Nat :=
  if x.rdsLink = none then x.totalTaskCount else x.nextTaskCount

/-- An index whose elements are taken a few at a time. -/
structure Index (x : Task) (idx : Nat) (k : TKey) (es : List Bytes) : Prop where
  link : x.rdsLink = some idx
  idx_lt : idx < MAX_REDIS_SIZE
  tkey : x.tkey = some k
  reply : x.reply = some (.array es)
  results : x.totalResultCount = es.length
  total : x.totalTaskCount = es.length * k.child.length
  next : x.nextTaskCount = (x.finishResultCount + x.step) * k.child.length
  taken : x.finishResultCount + x.step ≤ es.length
  step_pos : 0 < x.step
  child : k.child ≠ []

/-- All the children of a task were created and have reported. -/
def Task.Done (x : Task) : Prop :=
  x.finishTaskCount = x.totalTaskCount ∧ x.created = x.totalTaskCount

/-- What a task is: it has a request, or it waits for its children. Only when the
process quits it may have neither. -/
structure Sound (st : Sys) (t : Nat) (x : Task) : Prop where
  created_le : x.created ≤ x.totalTaskCount
  done : asked st t → x.finishTaskCount = x.totalTaskCount
  moves : st.quit = false → asked st t ∨ x.finishTaskCount < x.totalTaskCount
  waits : x.rdsLink ≠ none → x.finishTaskCount < x.totalTaskCount →
    x.finishTaskCount < x.nextTaskCount ∧ ∃ idx k es, Index x idx k es
  flat : x.rdsLink = none → x.nextTaskCount = 0

/-- What a task is for a request to be its. -/
def Request.fits (r : Request) (x : Task) : Prop :=
  x.rdsLink ≠ none ∧ ∀ t, r = .index t → x.nextTaskCount = 0

/-- Where a task is in the tree. -/
structure Placed (t : Nat) (x : Task) (p : Nat) (k : TKey) : Prop where
  parent : x.parent = some p
  lt : p < t
  link : x.rdsLink = none ↔ p = 0
  tkey : x.tkey = some k
  loaded : k.Loaded

/-- The tasks, the requests and the counts fit. -/
structure Core (st : Sys) (Z : List Nat) (o m : Nat) : Prop where
  root : ∃ r, st.task 0 = some r ∧ r.parent = none ∧ r.rdsLink = none ∧ r.nextTaskCount = 0
  fresh : ∀ t x, st.task t = some x → t < st.next
  placed : ∀ t x, st.task t = some x → t ≠ 0 → ∃ p k, Placed t x p k
  held : ∀ t x p, st.task t = some x → t ∉ Z → x.parent = some p →
    p ∉ Z ∧ ∃ y, st.task p = some y
  gone : ∀ z ∈ Z, z ≠ 0 ∧ z ∉ st.dropped ∧
    ∃ x, st.task z = some x ∧ x.Done
  asks : ∀ r ∈ st.pending, ∀ t, r.task = some t →
    t ≠ 0 ∧ t ∉ Z ∧ ∃ x, st.task t = some x ∧ r.fits x
  once : (st.pending.map Request.task).Nodup
  count : ∀ p y, st.task p = some y → p ∉ Z →
    y.finishTaskCount + (kids st Z p).card + st.dropped.count p + (if p = o then m else 0) =
      y.created
  sound : ∀ t x, st.task t = some x → t ∉ Z → t ≠ 0 → Sound st t x
  dropped : ∀ p ∈ st.dropped, p ≠ 0 ∧ p < st.next

theorem Sys.get_eq (h : st.task t = some x) : st.get t = .ok x := by
  unfold Sys.get
  rw [h]

theorem live_written {n : Nat} (htask : st'.task = update st.task n (some y))
    (h : st'.task t = some x) : t = n ∧ x = y ∨ t ≠ n ∧ st.task t = some x := by
  rw [htask] at h
  by_cases heq : t = n
  · rw [heq, update_self, Option.some.injEq] at h
    exact .inl ⟨heq, h.symm⟩
  · rw [update_of_ne heq] at h
    exact .inr ⟨heq, h⟩

theorem live_freed {n : Nat} (htask : st'.task = update st.task n none)
    (h : st'.task t = some x) : t ≠ n ∧ st.task t = some x := by
  rw [htask] at h
  by_cases heq : t = n
  · rw [heq, update_self] at h
    cases h
  · rw [update_of_ne heq] at h
    exact ⟨heq, h⟩

theorem asked_append {rs : List Request} {n : Nat} (hpending : st'.pending = st.pending ++ rs)
    (hmine : ∀ r ∈ rs, r.task = some n) (hne : t ≠ n) : asked st' t ↔ asked st t := by
  unfold asked
  rw [hpending]
  constructor
  · rintro ⟨r, hr, ht⟩
    rcases mem_append.mp hr with hr | hr
    · exact ⟨r, hr, ht⟩
    · rw [hmine r hr, Option.some.injEq] at ht
      exact absurd ht.symm hne
  · rintro ⟨r, hr, ht⟩
    exact ⟨r, mem_append_left _ hr, ht⟩

theorem Sound.of_asked (h : Sound st t x) (hasked : asked st' t ↔ asked st t)
    (hquit : st.quit = true → st'.quit = true) : Sound st' t x := by
  refine ⟨h.created_le, fun ha => h.done (hasked.mp ha), fun hq => ?_, h.waits, h.flat⟩
  rw [hasked]
  refine h.moves ?_
  cases hq' : st.quit with
  | false => rfl
  | true =>
    rw [hquit hq'] at hq
    cases hq

theorem mem_kids : t ∈ kids st Z p ↔
    t < st.next ∧ t ∉ Z ∧ ∃ x, st.task t = some x ∧ x.parent = some p := by
  unfold kids
  rw [Finset.mem_filter, Finset.mem_range, Option.bind_eq_some_iff]

theorem Core.next_pos (h : Core st Z o m) : 0 < st.next := by
  obtain ⟨r, hr, -⟩ := h.root
  exact h.fresh 0 r hr

theorem Core.zero_notMem (h : Core st Z o m) : 0 ∉ Z := fun hmem => (h.gone 0 hmem).1 rfl

theorem Core.paid (h : Core st Z o 0) (o' : Nat) : Core st Z o' 0 := by
  refine { h with count := fun p y hp hZ => ?_ }
  have hcount := h.count p y hp hZ
  rw [ite_self] at hcount ⊢
  exact hcount

theorem Core.congr (h : Core st Z o m) (htask : st'.task = st.task) (hnext : st'.next = st.next)
    (hpending : st'.pending = st.pending) (hquit : st.quit = true → st'.quit = true)
    (hdropped : st'.dropped = st.dropped) : Core st' Z o m := by
  have hasked : ∀ t, asked st' t ↔ asked st t := fun t => by
    unfold Timport.asked
    rw [hpending]
  have hkids : ∀ p, kids st' Z p = kids st Z p := fun p => by
    unfold kids
    rw [htask, hnext]
  constructor
  case root =>
    rw [htask]
    exact h.root
  case fresh =>
    rw [htask, hnext]
    exact h.fresh
  case placed =>
    rw [htask]
    exact h.placed
  case held =>
    rw [htask]
    exact h.held
  case gone =>
    rw [htask, hdropped]
    exact h.gone
  case asks =>
    rw [htask, hpending]
    exact h.asks
  case once =>
    rw [hpending]
    exact h.once
  case count =>
    intro p y hp hZ
    rw [htask] at hp
    rw [hkids, hdropped]
    exact h.count p y hp hZ
  case sound =>
    intro t x ht hZ h0
    rw [htask] at ht
    exact (h.sound t x ht hZ h0).of_asked (hasked t) hquit
  case dropped =>
    rw [hnext, hdropped]
    exact h.dropped

theorem Core.raise (h : Core st Z o m) : Core st.raise Z o m :=
  h.congr rfl rfl rfl (fun _ => rfl) rfl

--
-- Changes of one task
--

/-- The parts of a task that say where it is. -/
def SamePlace (x x' : Task) : Prop :=
  x'.parent = x.parent ∧ x'.rdsLink = x.rdsLink ∧ x'.tkey = x.tkey

variable {x' : Task}

theorem Placed.congr {k : TKey} (h : Placed t x p k) (hsame : SamePlace x x') : Placed t x' p k :=
  ⟨hsame.1.trans h.parent, h.lt, by rw [hsame.2.1]; exact h.link, hsame.2.2.trans h.tkey, h.loaded⟩

theorem Core.fresh_written (h : Core st Z o m) (hx : st.task t = some x)
    (htask : st'.task = update st.task t (some x')) (hnext : st'.next = st.next) :
    ∀ t' x₁, st'.task t' = some x₁ → t' < st'.next := by
  intro t' x₁ ht
  rw [hnext]
  rcases live_written htask ht with ⟨rfl, -⟩ | ⟨-, ht⟩
  · exact h.fresh t' x hx
  · exact h.fresh t' x₁ ht

theorem Core.placed_written (h : Core st Z o m) (hx : st.task t = some x) (hsame : SamePlace x x')
    (htask : st'.task = update st.task t (some x')) :
    ∀ t' x₁, st'.task t' = some x₁ → t' ≠ 0 → ∃ p k, Placed t' x₁ p k := by
  intro t' x₁ ht h0
  rcases live_written htask ht with ⟨rfl, rfl⟩ | ⟨-, ht⟩
  · obtain ⟨q, k, hplaced⟩ := h.placed t' x hx h0
    exact ⟨q, k, hplaced.congr hsame⟩
  · exact h.placed t' x₁ ht h0

theorem kids_update (hx : st.task t = some x) (hsame : SamePlace x x')
    (htask : st'.task = update st.task t (some x')) (hnext : st'.next = st.next) (p : Nat) :
    kids st' Z p = kids st Z p := by
  unfold kids
  rw [hnext]
  refine Finset.filter_congr fun t' _ => and_congr_right fun _ => ?_
  rw [htask]
  by_cases heq : t' = t
  · rw [heq, update_self, hx]
    show x'.parent = some p ↔ x.parent = some p
    rw [hsame.1]
  · rw [update_of_ne heq]

theorem Core.put (h : Core st Z p m) {y' : Task} {m' : Nat} (hy : st.task p = some y)
    (hZ : p ∉ Z) (hsame : SamePlace y y')
    (hroot : p = 0 → y'.nextTaskCount = 0) (hsound : p ≠ 0 → Sound (st.put p y') p y')
    (hfits : ∀ r ∈ st.pending, r.task = some p → r.fits y')
    (hcount : y.finishTaskCount + m + y'.created = y'.finishTaskCount + m' + y.created) :
    Core (st.put p y') Z p m' := by
  have htask : (st.put p y').task = update st.task p (some y') := rfl
  have hkids := kids_update (Z := Z) hy hsame htask rfl
  have hthere : ∀ t x, st.task t = some x → ∃ x', (st.put p y').task t = some x' ∧
      (t ≠ p → x' = x) := by
    intro t x ht
    rw [htask]
    by_cases heq : t = p
    · rw [heq, update_self]
      exact ⟨y', rfl, fun hne => absurd rfl hne⟩
    · rw [update_of_ne heq]
      exact ⟨x, ht, fun _ => rfl⟩
  refine ⟨?_, h.fresh_written hy htask rfl, h.placed_written hy hsame htask, ?_, ?_, ?_, h.once,
    ?_, ?_, h.dropped⟩
  · obtain ⟨r, hr, hparent, hlink, hnext⟩ := h.root
    by_cases heq : p = 0
    · subst heq
      rw [hy, Option.some.injEq] at hr
      subst hr
      exact ⟨y', by rw [htask, update_self], hsame.1.trans hparent, hsame.2.1.trans hlink,
        hroot rfl⟩
    · exact ⟨r, (update_of_ne (Ne.symm heq) ..).trans hr, hparent, hlink, hnext⟩
  · intro t x' q ht htZ hq
    have hold : q ∉ Z ∧ ∃ y, st.task q = some y := by
      rcases live_written htask ht with ⟨rfl, rfl⟩ | ⟨-, ht⟩
      · exact h.held t y q hy htZ (hsame.1.symm.trans hq)
      · exact h.held t x' q ht htZ hq
    obtain ⟨hqZ, z, hz⟩ := hold
    obtain ⟨z', hz', -⟩ := hthere q z hz
    exact ⟨hqZ, z', hz'⟩
  · intro z hz
    obtain ⟨h0, hdropped, x, hx, hfin⟩ := h.gone z hz
    obtain ⟨x', hx', heq⟩ := hthere z x hx
    have hne : z ≠ p := fun heq => hZ (heq ▸ hz)
    exact ⟨h0, hdropped, x', hx', by rw [heq hne]; exact hfin⟩
  · intro r hr t ht
    obtain ⟨h0, htZ, x, hx, hfit⟩ := h.asks r hr t ht
    obtain ⟨x', hx', heq⟩ := hthere t x hx
    refine ⟨h0, htZ, x', hx', ?_⟩
    by_cases hne : t = p
    · subst hne
      rw [htask, update_self, Option.some.injEq] at hx'
      exact hx' ▸ hfits r hr ht
    · rw [heq hne]
      exact hfit
  · intro q z hz hqZ
    rw [hkids]
    show z.finishTaskCount + (kids st Z q).card + st.dropped.count q + (if q = p then m' else 0) =
      z.created
    rcases live_written htask hz with ⟨rfl, rfl⟩ | ⟨hne, hz⟩
    · have hold := h.count q y hy hqZ
      rw [if_pos rfl] at hold ⊢
      omega
    · have hold := h.count q z hz hqZ
      rw [if_neg hne] at hold ⊢
      exact hold
  · intro t x' ht htZ h0
    rcases live_written htask ht with ⟨rfl, rfl⟩ | ⟨-, ht⟩
    · exact hsound h0
    · exact (h.sound t x' ht htZ h0).of_asked Iff.rfl id

--
-- Tasks that leave and enter
--

theorem kids_leave (hx : st.task t = some x) (htZ : t ∉ Z) (hlt : t < st.next)
    (hp : x.parent = some p) (hsame : SamePlace x x')
    (htask : st'.task = update st.task t (some x')) (hnext : st'.next = st.next) (q : Nat) :
    (kids st Z q).card = (kids st' (t :: Z) q).card + if q = p then 1 else 0 := by
  have herase : kids st' (t :: Z) q = (kids st Z q).erase t := by
    ext t'
    rw [Finset.mem_erase, ← kids_update (Z := Z) hx hsame htask hnext, mem_kids, mem_kids,
      mem_cons, not_or]
    exact ⟨fun ⟨h₁, ⟨h₂, h₃⟩, h₄⟩ => ⟨h₂, h₁, h₃, h₄⟩, fun ⟨h₂, h₁, h₃, h₄⟩ => ⟨h₁, ⟨h₂, h₃⟩, h₄⟩⟩
  rw [herase]
  by_cases hq : q = p
  · have hmem : t ∈ kids st Z q := mem_kids.mpr ⟨hlt, htZ, x, hx, by rw [hp, hq]⟩
    rw [if_pos hq, Finset.card_erase_of_mem hmem]
    have hpos := Finset.card_pos.mpr ⟨t, hmem⟩
    omega
  · have hmem : t ∉ kids st Z q := by
      intro hmem
      obtain ⟨-, -, x₁, hx₁, hq₁⟩ := mem_kids.mp hmem
      rw [hx, Option.some.injEq] at hx₁
      rw [← hx₁, hp, Option.some.injEq] at hq₁
      exact hq hq₁.symm
    rw [if_neg hq, Finset.erase_eq_of_notMem hmem, Nat.add_zero]

/-- **A task is done**: what was asked for it was answered, or its last child has
reported. Its parent is owed a count. -/
theorem Core.leave (h : Core st Z o m) (hx : st.task t = some x) (htZ : t ∉ Z) (h0 : t ≠ 0)
    (hp : x.parent = some p) (hsame : SamePlace x x')
    (htask : st'.task = update st.task t (some x')) (hnext : st'.next = st.next)
    (hquit : st'.quit = st.quit) (hdropped : st'.dropped = st.dropped)
    (hsub : st'.pending.Sublist st.pending)
    (hpending : ∀ r ∈ st.pending, r ∈ st'.pending ↔ r.task ≠ some t) (hdone : x'.Done)
    (hfull : x.totalTaskCount ≤ x.finishTaskCount + if t = o then m else 0)
    (howed : t ≠ o → m = 0) : Core st' (t :: Z) p 1 := by
  have hlt : t < st.next := h.fresh t x hx
  have hcard := kids_leave hx htZ hlt hp hsame htask hnext
  have hcount := h.count t x hx htZ
  have hle := (h.sound t x hx htZ h0).created_le
  have hnokids : kids st Z t = ∅ := by
    refine Finset.card_eq_zero.mp ?_
    omega
  have hnodrop : t ∉ st.dropped := by
    refine count_eq_zero.mp ?_
    omega
  have hother : ∀ t', t' ≠ t → st'.task t' = st.task t' := fun t' hne => by
    rw [htask, update_of_ne hne]
  have hself : st'.task t = some x' := by rw [htask, update_self]
  have hasked : ∀ t', t' ≠ t → (asked st' t' ↔ asked st t') := by
    intro t' hne
    constructor
    · rintro ⟨r, hr, ht⟩
      exact ⟨r, hsub.subset hr, ht⟩
    · rintro ⟨r, hr, ht⟩
      refine ⟨r, (hpending r hr).mpr fun heq => hne ?_, ht⟩
      rw [ht, Option.some.injEq] at heq
      exact heq
  constructor
  case root =>
    obtain ⟨r, hr, hrest⟩ := h.root
    exact ⟨r, (hother 0 h0.symm).trans hr, hrest⟩
  case fresh => exact h.fresh_written hx htask hnext
  case placed => exact h.placed_written hx hsame htask
  case held =>
    intro t' x₁ q ht ht'Z hq
    rw [mem_cons, not_or] at ht'Z
    rw [hother t' ht'Z.1] at ht
    obtain ⟨hqZ, z, hz⟩ := h.held t' x₁ q ht ht'Z.2 hq
    -- it had no children left
    have hqt : q ≠ t := by
      rintro rfl
      have hmem : t' ∈ kids st Z q := mem_kids.mpr ⟨h.fresh t' x₁ ht, ht'Z.2, x₁, ht, hq⟩
      rw [hnokids] at hmem
      exact Finset.notMem_empty t' hmem
    rw [mem_cons, not_or]
    exact ⟨⟨hqt, hqZ⟩, z, (hother q hqt).trans hz⟩
  case gone =>
    intro z hz
    rw [hdropped]
    rcases mem_cons.mp hz with rfl | hz
    · exact ⟨h0, hnodrop, x', hself, hdone⟩
    · obtain ⟨hz0, hzd, z', hz', hfin⟩ := h.gone z hz
      have hne : z ≠ t := fun heq => htZ (heq ▸ hz)
      exact ⟨hz0, hzd, z', (hother z hne).trans hz', hfin⟩
  case asks =>
    intro r hr t' ht
    have hr₀ := hsub.subset hr
    have hne : t' ≠ t := by
      rintro rfl
      exact (hpending r hr₀).mp hr ht
    obtain ⟨h0', hZ', x₁, hx₁, hfit⟩ := h.asks r hr₀ t' ht
    rw [mem_cons, not_or]
    exact ⟨h0', ⟨hne, hZ'⟩, x₁, (hother t' hne).trans hx₁, hfit⟩
  case once => exact (hsub.map Request.task).nodup h.once
  case count =>
    intro q z hz hqZ
    rw [mem_cons, not_or] at hqZ
    rw [hother q hqZ.1] at hz
    have hold := h.count q z hz hqZ.2
    rw [hcard q] at hold
    rw [hdropped]
    by_cases hqo : q = o
    · have hto : t ≠ o := fun heq => hqZ.1 (hqo.trans heq.symm)
      rw [if_pos hqo, howed hto] at hold
      omega
    · rw [if_neg hqo] at hold
      omega
  case sound =>
    intro t' x₁ ht ht'Z h0'
    rw [mem_cons, not_or] at ht'Z
    rw [hother t' ht'Z.1] at ht
    exact (h.sound t' x₁ ht ht'Z.2 h0').of_asked (hasked t' ht'Z.1) hquit.trans
  case dropped =>
    rw [hdropped, hnext]
    exact h.dropped

/-- **A task goes on**: something is asked for it, or it has children to wait
for. -/
theorem Core.enter (h : Core st (t :: Z) p 1) (hx : st.task t = some x) (htZ : t ∉ Z)
    (hp : x.parent = some p) (hpZ : p ∉ t :: Z) (hpl : ∃ y, st.task p = some y)
    (hsame : SamePlace x x') (htask : st'.task = update st.task t (some x'))
    (hnext : st'.next = st.next) (hquit : st.quit = true → st'.quit = true)
    (hdropped : st'.dropped = st.dropped) {rs : List Request}
    (hpending : st'.pending = st.pending ++ rs) (hrs : (rs.map Request.task).Nodup)
    (hmine : ∀ r ∈ rs, r.task = some t ∧ r.fits x') (hsound : Sound st' t x')
    (hcount : x'.finishTaskCount + m = x'.created) : Core st' Z t m := by
  have hlt : t < st.next := h.fresh t x hx
  obtain ⟨h0, hnodrop, -⟩ := h.gone t (.head _)
  have hother : ∀ t', t' ≠ t → st'.task t' = st.task t' := fun t' hne => by
    rw [htask, update_of_ne hne]
  have hself : st'.task t = some x' := by rw [htask, update_self]
  have hcard : ∀ q, (kids st' Z q).card = (kids st (t :: Z) q).card + if q = p then 1 else 0 := by
    intro q
    have hback : st.task = update st'.task t (some x) := by
      rw [htask, update_idem, ← hx, update_eq_self]
    have hsame' : SamePlace x' x := ⟨hsame.1.symm, hsame.2.1.symm, hsame.2.2.symm⟩
    exact kids_leave hself htZ (hnext ▸ hlt) (hsame.1.trans hp) hsame' hback hnext.symm q
  have hnokids : kids st' Z t = ∅ := by
    refine Finset.eq_empty_of_forall_notMem fun t' hmem => ?_
    obtain ⟨-, ht'Z, x₁, hx₁, hq⟩ := mem_kids.mp hmem
    rcases live_written htask hx₁ with ⟨rfl, rfl⟩ | ⟨hne, hx₁⟩
    · rw [hsame.1, hp, Option.some.injEq] at hq
      exact hpZ (hq ▸ .head _)
    · refine (h.held t' x₁ t hx₁ ?_ hq).1 (.head _)
      rw [mem_cons, not_or]
      exact ⟨hne, ht'Z⟩
  constructor
  case root =>
    obtain ⟨r, hr, hrest⟩ := h.root
    exact ⟨r, (hother 0 h0.symm).trans hr, hrest⟩
  case fresh => exact h.fresh_written hx htask hnext
  case placed => exact h.placed_written hx hsame htask
  case held =>
    intro t' x₁ q ht ht'Z hq
    have hold : q ∉ t :: Z ∧ ∃ y, st.task q = some y := by
      rcases live_written htask ht with ⟨rfl, rfl⟩ | ⟨hne, ht⟩
      · rw [hsame.1, hp, Option.some.injEq] at hq
        subst hq
        exact ⟨hpZ, hpl⟩
      · refine h.held t' x₁ q ht ?_ hq
        rw [mem_cons, not_or]
        exact ⟨hne, ht'Z⟩
    obtain ⟨hqZ, z, hz⟩ := hold
    rw [mem_cons, not_or] at hqZ
    exact ⟨hqZ.2, z, (hother q hqZ.1).trans hz⟩
  case gone =>
    intro z hz
    obtain ⟨hz0, hzd, z', hz', hfin⟩ := h.gone z (.tail _ hz)
    have hne : z ≠ t := fun heq => htZ (heq ▸ hz)
    rw [hdropped]
    exact ⟨hz0, hzd, z', (hother z hne).trans hz', hfin⟩
  case asks =>
    intro r hr t' ht
    rw [hpending] at hr
    rcases mem_append.mp hr with hr | hr
    · obtain ⟨h0', hZ', x₁, hx₁, hfit⟩ := h.asks r hr t' ht
      rw [mem_cons, not_or] at hZ'
      exact ⟨h0', hZ'.2, x₁, (hother t' hZ'.1).trans hx₁, hfit⟩
    · obtain ⟨ht₁, hfit⟩ := hmine r hr
      rw [ht₁, Option.some.injEq] at ht
      subst ht
      exact ⟨h0, htZ, x', hself, hfit⟩
  case once =>
    rw [hpending, map_append]
    refine h.once.append hrs fun q hq hq' => ?_
    obtain ⟨r, hr, rfl⟩ := mem_map.mp hq
    obtain ⟨r', hr', heq⟩ := mem_map.mp hq'
    rw [(hmine r' hr').1] at heq
    exact (h.asks r hr t heq.symm).2.1 (.head _)
  case count =>
    intro q z hz hqZ
    rw [hdropped]
    rcases live_written htask hz with ⟨rfl, rfl⟩ | ⟨hne, hz⟩
    · rw [hnokids, Finset.card_empty, count_eq_zero.mpr hnodrop, if_pos rfl]
      omega
    · have hold := h.count q z hz (by rw [mem_cons, not_or]; exact ⟨hne, hqZ⟩)
      rw [hcard q, if_neg hne]
      omega
  case sound =>
    intro t' x₁ ht ht'Z h0'
    rcases live_written htask ht with ⟨rfl, rfl⟩ | ⟨hne, ht⟩
    · exact hsound
    · have hold := h.sound t' x₁ ht (by rw [mem_cons, not_or]; exact ⟨hne, ht'Z⟩) h0'
      exact hold.of_asked (asked_append hpending (fun r hr => (hmine r hr).1) hne) hquit
  case dropped =>
    rw [hdropped, hnext]
    exact h.dropped

/-- **A task that is done is freed**; what its parent is still owed counts as
dropped. -/
theorem Core.free (h : Core st (t :: Z) o m) (htZ : t ∉ Z)
    (htask : st'.task = update st.task t none) (hnext : st'.next = st.next)
    (hquit : st'.quit = st.quit) (hpending : st'.pending = st.pending) (ds : List Nat)
    (hdropped : st'.dropped = st.dropped ++ ds)
    (hds : ∀ q, ds.count q = if q = o then m else 0)
    (hmem : ∀ q ∈ ds, q ≠ 0 ∧ q < st.next ∧ q ∉ Z) : Core st' Z o 0 := by
  obtain ⟨h0, -⟩ := h.gone t (.head _)
  have hother : ∀ t', t' ≠ t → st'.task t' = st.task t' := fun t' hne => by
    rw [htask, update_of_ne hne]
  have hcons : ∀ {t'}, t' ≠ t → t' ∉ Z → t' ∉ t :: Z := fun hne hZ => by
    rw [mem_cons, not_or]
    exact ⟨hne, hZ⟩
  have hkids : ∀ q, kids st' Z q = kids st (t :: Z) q := by
    intro q
    ext t'
    rw [mem_kids, mem_kids, hnext, mem_cons, not_or]
    constructor
    · rintro ⟨hlt, hZ, x₁, hx₁, hq⟩
      obtain ⟨hne, hx₁⟩ := live_freed htask hx₁
      exact ⟨hlt, ⟨hne, hZ⟩, x₁, hx₁, hq⟩
    · rintro ⟨hlt, ⟨hne, hZ⟩, x₁, hx₁, hq⟩
      exact ⟨hlt, hZ, x₁, (hother t' hne).trans hx₁, hq⟩
  have hasked : ∀ t', asked st' t' ↔ asked st t' := fun t' => by
    unfold asked
    rw [hpending]
  constructor
  case root =>
    obtain ⟨r, hr, hrest⟩ := h.root
    exact ⟨r, (hother 0 h0.symm).trans hr, hrest⟩
  case fresh =>
    intro t' x₁ ht
    rw [hnext]
    exact h.fresh t' x₁ (live_freed htask ht).2
  case placed =>
    intro t' x₁ ht
    exact h.placed t' x₁ (live_freed htask ht).2
  case held =>
    intro t' x₁ q ht ht'Z hq
    obtain ⟨hne, ht⟩ := live_freed htask ht
    obtain ⟨hqZ, z, hz⟩ := h.held t' x₁ q ht (hcons hne ht'Z) hq
    rw [mem_cons, not_or] at hqZ
    exact ⟨hqZ.2, z, (hother q hqZ.1).trans hz⟩
  case gone =>
    intro z hz
    obtain ⟨hz0, hzd, z', hz', hfin⟩ := h.gone z (.tail _ hz)
    have hne : z ≠ t := fun heq => htZ (heq ▸ hz)
    refine ⟨hz0, ?_, z', (hother z hne).trans hz', hfin⟩
    rw [hdropped, mem_append, not_or]
    exact ⟨hzd, fun hzds => (hmem z hzds).2.2 hz⟩
  case asks =>
    intro r hr t' ht
    rw [hpending] at hr
    obtain ⟨h0', hZ', x₁, hx₁, hfit⟩ := h.asks r hr t' ht
    rw [mem_cons, not_or] at hZ'
    exact ⟨h0', hZ'.2, x₁, (hother t' hZ'.1).trans hx₁, hfit⟩
  case once =>
    rw [hpending]
    exact h.once
  case count =>
    intro q z hz hqZ
    obtain ⟨hne, hz⟩ := live_freed htask hz
    have hold := h.count q z hz (hcons hne hqZ)
    rw [hkids, hdropped, count_append, hds, ite_self]
    omega
  case sound =>
    intro t' x₁ ht ht'Z h0'
    obtain ⟨hne, ht⟩ := live_freed htask ht
    exact (h.sound t' x₁ ht (hcons hne ht'Z) h0').of_asked (hasked t') hquit.trans
  case dropped =>
    intro q hq
    rw [hdropped] at hq
    rw [hnext]
    rcases mem_append.mp hq with hq | hq
    · exact h.dropped q hq
    · exact ⟨(hmem q hq).1, (hmem q hq).2.1⟩

--
-- New tasks
--

theorem Core.fresh_notMem (h : Core st Z o m) (ht : st.next ≤ t) : t ∉ Z := by
  intro hmem
  obtain ⟨-, -, z, hz, -⟩ := h.gone t hmem
  have := h.fresh t z hz
  omega

theorem Core.fresh_count (h : Core st Z o m) (ht : st.next ≤ t) : st.dropped.count t = 0 := by
  refine count_eq_zero.mpr fun hmem => ?_
  have := (h.dropped t hmem).2
  omega

theorem Core.kids_fresh (h : Core st Z o m) {q : Nat} (hq : st.next ≤ q) : kids st Z q = ∅ := by
  refine Finset.eq_empty_of_forall_notMem fun t hin => ?_
  obtain ⟨-, hZ, x, hx, hp⟩ := mem_kids.mp hin
  obtain ⟨-, y, hy⟩ := h.held t x q hx hZ hp
  have := h.fresh q y hy
  omega

theorem getHandleCb_task (type : KeyType) (t : Nat) : (getHandleCb type t).task = some t := by
  cases type <;> rfl

theorem getHandleCb_fits {type : KeyType} (hlink : x.rdsLink ≠ none)
    (hnext : x.nextTaskCount = 0) : (getHandleCb type t).fits x :=
  ⟨hlink, fun _ _ => hnext⟩

theorem Core.kids_spawn (h : Core st Z o m) (t idx : Nat) (a : Bytes × TKey) (q : Nat) :
    (kids (spawn t idx st a) Z q).card = (kids st Z q).card + if q = t then 1 else 0 := by
  have hmem : ∀ t', t' ∈ kids (spawn t idx st a) Z q ↔
      t' ∈ kids st Z q ∨ t' = st.next ∧ q = t := by
    intro t'
    rw [mem_kids, mem_kids]
    constructor
    · rintro ⟨-, hZ, x₁, hx₁, hq⟩
      rcases live_written rfl hx₁ with ⟨rfl, rfl⟩ | ⟨-, hx₁⟩
      · exact .inr ⟨rfl, (Option.some.inj hq).symm⟩
      · exact .inl ⟨h.fresh t' x₁ hx₁, hZ, x₁, hx₁, hq⟩
    · rintro (⟨hlt, hZ, x₁, hx₁, hq⟩ | ⟨rfl, rfl⟩)
      · refine ⟨Nat.lt_succ_of_lt hlt, hZ, x₁, ?_, hq⟩
        exact (update_of_ne hlt.ne _ _).trans hx₁
      · exact ⟨Nat.lt_succ_self _, h.fresh_notMem le_rfl, _, update_self .., rfl⟩
  by_cases hq : q = t
  · have hinsert : kids (spawn t idx st a) Z q = insert st.next (kids st Z q) := by
      ext t'
      rw [hmem, Finset.mem_insert]
      simp [hq, or_comm]
    have hnew : st.next ∉ kids st Z q := fun hin => (mem_kids.mp hin).1.ne rfl
    rw [hinsert, Finset.card_insert_of_notMem hnew, if_pos hq]
  · have hsame : kids (spawn t idx st a) Z q = kids st Z q := by
      ext t'
      rw [hmem]
      simp [hq]
    rw [hsame, if_neg hq, Nat.add_zero]

theorem Core.spawn (h : Core st Z t (m + 1)) (hx : st.task t = some x) (htZ : t ∉ Z) (h0 : t ≠ 0)
    (idx : Nat) {a : Bytes × TKey} (hloaded : a.2.Loaded) :
    Core (spawn t idx st a) Z t m := by
  let n := st.next
  let child : Task := { Task.zero with
    tkey := some a.2, rdsLink := some idx, param := some a.1, parent := some t }
  have htask : (Timport.spawn t idx st a).task = update st.task n (some child) := rfl
  have hpending : (Timport.spawn t idx st a).pending =
      st.pending ++ [getHandleCb a.2.type n] := rfl
  have hlt : t < n := h.fresh t x hx
  have hold : ∀ t' x₁, st.task t' = some x₁ → (Timport.spawn t idx st a).task t' = some x₁ := by
    intro t' x₁ ht
    have hne : t' ≠ n := (h.fresh t' x₁ ht).ne
    rw [htask, update_of_ne hne]
    exact ht
  have hself : (Timport.spawn t idx st a).task n = some child := by
    rw [htask, update_self]
  have hnZ : n ∉ Z := h.fresh_notMem le_rfl
  have hmine : ∀ r ∈ [getHandleCb a.2.type n], r.task = some n := fun r hr => by
    rw [mem_singleton.mp hr, getHandleCb_task]
  constructor
  case root =>
    obtain ⟨r, hr, hrest⟩ := h.root
    exact ⟨r, hold 0 r hr, hrest⟩
  case fresh =>
    intro t' x₁ ht
    rcases live_written htask ht with ⟨rfl, -⟩ | ⟨-, ht⟩
    · exact Nat.lt_succ_self _
    · exact Nat.lt_succ_of_lt (h.fresh t' x₁ ht)
  case placed =>
    intro t' x₁ ht h0'
    rcases live_written htask ht with ⟨rfl, rfl⟩ | ⟨-, ht⟩
    · exact ⟨t, a.2, rfl, hlt, iff_of_false nofun h0, rfl, hloaded⟩
    · exact h.placed t' x₁ ht h0'
  case held =>
    intro t' x₁ q ht ht'Z hq
    rcases live_written htask ht with ⟨rfl, rfl⟩ | ⟨-, ht⟩
    · obtain rfl : t = q := Option.some.inj hq
      exact ⟨htZ, x, hold t x hx⟩
    · obtain ⟨hqZ, z, hz⟩ := h.held t' x₁ q ht ht'Z hq
      exact ⟨hqZ, z, hold q z hz⟩
  case gone =>
    intro z hz
    obtain ⟨hz0, hzd, z', hz', hfin⟩ := h.gone z hz
    exact ⟨hz0, hzd, z', hold z z' hz', hfin⟩
  case asks =>
    intro r hr t' ht
    rw [hpending] at hr
    rcases mem_append.mp hr with hr | hr
    · obtain ⟨h0', hZ', x₁, hx₁, hfit⟩ := h.asks r hr t' ht
      exact ⟨h0', hZ', x₁, hold t' x₁ hx₁, hfit⟩
    · rw [mem_singleton.mp hr] at ht ⊢
      rw [getHandleCb_task, Option.some.injEq] at ht
      subst ht
      exact ⟨by omega, hnZ, child, hself, getHandleCb_fits nofun rfl⟩
  case once =>
    rw [hpending, map_append]
    refine h.once.append (nodup_singleton _) fun q hq hq' => ?_
    obtain ⟨r, hr, rfl⟩ := mem_map.mp hq
    rw [map_cons, map_nil, mem_singleton, getHandleCb_task] at hq'
    obtain ⟨-, -, z, hz, -⟩ := h.asks r hr n hq'
    exact (h.fresh n z hz).ne rfl
  case count =>
    intro q z hz hqZ
    show z.finishTaskCount + _ + st.dropped.count q + _ = _
    rw [h.kids_spawn t idx a q]
    rcases live_written htask hz with ⟨rfl, rfl⟩ | ⟨-, hz⟩
    · rw [h.kids_fresh le_rfl, h.fresh_count le_rfl, if_neg hlt.ne', if_neg hlt.ne']
      rfl
    · have hcount := h.count q z hz hqZ
      by_cases hq : q = t
      · rw [if_pos hq] at hcount ⊢
        rw [if_pos hq]
        omega
      · rw [if_neg hq] at hcount ⊢
        rw [if_neg hq]
        omega
  case sound =>
    intro t' x₁ ht ht'Z h0'
    rcases live_written htask ht with ⟨rfl, rfl⟩ | ⟨hne, ht⟩
    · refine ⟨Nat.le_refl _, fun _ => rfl, fun _ => .inl ?_, fun _ hlt' => ?_, fun _ => rfl⟩
      · exact ⟨_, by rw [hpending]; exact mem_append_right _ (.head _),
          getHandleCb_task ..⟩
      · exact absurd hlt' (Nat.lt_irrefl 0)
    · exact (h.sound t' x₁ ht ht'Z h0').of_asked (asked_append hpending hmine hne) id
  case dropped =>
    intro q hq
    exact ⟨(h.dropped q hq).1, Nat.lt_succ_of_lt (h.dropped q hq).2⟩

theorem Core.spawns {l : List (Bytes × TKey)} (h : Core st Z t l.length) (hx : st.task t = some x)
    (htZ : t ∉ Z) (h0 : t ≠ 0) (idx : Nat) (hloaded : ∀ a ∈ l, a.2.Loaded) :
    Core (l.foldl (Timport.spawn t idx) st) Z t 0 := by
  induction l generalizing st with
  | nil => exact h
  | cons a l ih =>
    have hne : t ≠ st.next := (h.fresh t x hx).ne
    refine ih (h.spawn hx htZ h0 idx (hloaded a (.head _))) ?_
      fun b hb => hloaded b (.tail _ hb)
    exact (update_of_ne hne ..).trans hx

end Supex.Timport
