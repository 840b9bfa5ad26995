import Supex.Lib.Run
import Supex.Timport.Zk

/-!
# timport — the copy of the routes

A list of children that is copied to an empty key set is there: every node once,
with the others of its data set. A child event fills the key set without marking
it as synced, and the next lookup copies the same list behind it.

* `addNodes_spec` — the copy of a list.

Main results: `routed_of_ready`, `event_then_lookup`.
-/

namespace Supex.Timport.Zk

open List

open Lib (run Along run_of_along ok_bind bind_eq_ok exists_ok_of_any)
open Function (update update_of_ne update_self)

variable {cfg : Config} {st st' : Sys} {e k n : Nat} {zok : Bool} {ks ks' : KeySet}
  {ds : DataSet} {d : DataNode} {names : List Bytes} {arr : List DataSet}

--
-- Lists of children
--

/-- What the names say. -/
def Parses (names : List Bytes) (recs : List (DataSet × DataNode)) : Prop :=
  List.Forall₂ (fun node r => parserDatanode node = .ok (some r)) names recs

/-- At most `MAX_DS_PER_KEY` data sets with at most `DN_PER_DS` nodes. -/
structure Room (recs : List (DataSet × DataNode)) : Prop where
  sets : (recs.map fun r => r.1.id).dedup.length ≤ MAX_DS_PER_KEY
  nodes : ∀ id, (recs.filter fun r => decide (r.1.id = id)).length ≤ DN_PER_DS

/-- A list of well-formed names that fits. -/
def Fits (names : List Bytes) : Prop := ∃ recs, Parses names recs ∧ Room recs

/-- The nodes of data sets, each with the number of its set. -/
def nodesOf (c : List DataSet) : List (Nat × DataNode) :=
  c.flatMap fun s => s.dataNode.map fun d => (s.id, d)

/-- The key set holds every node of the list once, in one data set for each number,
and the hook was called once for each. -/
structure Holds (names : List Bytes) (ks : KeySet) : Prop where
  nodes : ∃ recs, Parses names recs ∧
    (nodesOf ks.cached).Perm (recs.map fun r => (r.1.id, r.2.alloc))
  grouped : (ks.cached.map DataSet.id).Nodup
  allocs : ∀ s ∈ ks.cached, ∀ d ∈ s.dataNode, d.allocs = 1

--
-- One node
--

theorem addNode_known (hmem : ds.id ∈ (arr.take n).map DataSet.id) :
    ∃ l₁ s l₂, arr = l₁ ++ s :: l₂ ∧ l₁.length < n ∧ s.id = ds.id ∧ addNode ds d n arr =
      if s.dataNode.length < DN_PER_DS then
        some (l₁ ++ { s with dataNode := s.dataNode ++ [d.alloc] } :: l₂, false)
      else none := by
  induction n generalizing arr with
  | zero => cases hmem
  | succ n ih =>
    cases arr with
    | nil => cases hmem
    | cons s rest =>
      rw [addNode]
      by_cases hid : ds.id = s.id
      · rw [if_pos hid]
        exact ⟨[], s, rest, rfl, Nat.zero_lt_succ n, hid.symm, rfl⟩
      · rw [if_neg hid]
        rw [take_succ_cons, map_cons, mem_cons] at hmem
        obtain ⟨l₁, s', l₂, rfl, hlt, hid', heq⟩ := ih (hmem.resolve_left hid)
        refine ⟨s :: l₁, s', l₂, rfl, Nat.succ_lt_succ hlt, hid', ?_⟩
        rw [heq]
        by_cases hroom : s'.dataNode.length < DN_PER_DS
        · rw [if_pos hroom, if_pos hroom]
          rfl
        · rw [if_neg hroom, if_neg hroom]

theorem addNode_new (hmem : ds.id ∉ (arr.take n).map DataSet.id) (hlt : n < arr.length) :
    ∃ l₁ s l₂, arr = l₁ ++ s :: l₂ ∧ l₁.length = n ∧ addNode ds d n arr =
      some (l₁ ++ { ds with dataNode := [d.alloc] } :: l₂, true) := by
  induction n generalizing arr with
  | zero =>
    cases arr with
    | nil => cases hlt
    | cons s rest => exact ⟨[], s, rest, rfl, rfl, rfl⟩
  | succ n ih =>
    cases arr with
    | nil => cases hlt
    | cons s rest =>
      rw [take_succ_cons, map_cons, mem_cons, not_or] at hmem
      obtain ⟨l₁, s', l₂, rfl, hlen, heq⟩ := ih hmem.2 (Nat.lt_of_succ_lt_succ hlt)
      refine ⟨s :: l₁, s', l₂, rfl, congrArg (· + 1) hlen, ?_⟩
      rw [addNode, if_neg hmem.1, heq]
      rfl

--
-- A list
--

/-- The nodes of `recs` were copied. -/
structure Copied (recs : List (DataSet × DataNode)) (ks : KeySet) : Prop where
  size : ks.dataSet.length = MAX_DS_PER_KEY
  cnt : ks.dsCnt ≤ MAX_DS_PER_KEY
  nodes : (nodesOf ks.cached).Perm (recs.map fun r => (r.1.id, r.2.alloc))
  ids : (ks.cached.map DataSet.id).Nodup
  full : ∀ s ∈ ks.cached, s.dataNode ≠ []

theorem nodesOf_append (c₁ c₂ : List DataSet) :
    nodesOf (c₁ ++ c₂) = nodesOf c₁ ++ nodesOf c₂ := flatMap_append ..

theorem nodesOf_cons (s : DataSet) (c : List DataSet) :
    nodesOf (s :: c) = (s.dataNode.map fun d => (s.id, d)) ++ nodesOf c := flatMap_cons ..

theorem mem_nodesOf {c : List DataSet} {a : Nat × DataNode} (h : a ∈ nodesOf c) :
    a.1 ∈ c.map DataSet.id := by
  obtain ⟨s, hs, ha⟩ := mem_flatMap.mp h
  obtain ⟨d, -, rfl⟩ := mem_map.mp ha
  exact mem_map_of_mem hs

theorem filter_nodesOf_of_notMem {c : List DataSet} {id : Nat} (h : id ∉ c.map DataSet.id) :
    (nodesOf c).filter (fun a => decide (a.1 = id)) = [] := by
  refine filter_eq_nil_iff.mpr fun a ha => ?_
  rw [decide_eq_true_iff]
  rintro rfl
  exact h (mem_nodesOf ha)

variable {key : Nat} {recs : List (DataSet × DataNode)}

theorem Copied.mem_ids (h : Copied recs ks) {id : Nat} (hid : id ∈ ks.cached.map DataSet.id) :
    id ∈ recs.map fun r => r.1.id := by
  obtain ⟨s, hs, rfl⟩ := mem_map.mp hid
  obtain ⟨d, hd⟩ := exists_mem_of_ne_nil _ (h.full s hs)
  have hmem : (s.id, d) ∈ nodesOf ks.cached :=
    mem_flatMap.mpr ⟨s, hs, mem_map_of_mem hd⟩
  obtain ⟨r, hr, heq⟩ := mem_map.mp (h.nodes.mem_iff.mp hmem)
  refine mem_map.mpr ⟨r, hr, ?_⟩
  exact congrArg Prod.fst heq

theorem Copied.length (h : Copied recs ks) {c₁ c₂ : List DataSet} {s : DataSet}
    (hc : ks.cached = c₁ ++ s :: c₂) :
    s.dataNode.length = (recs.filter fun r => decide (r.1.id = s.id)).length := by
  have hids := h.ids
  rw [hc, map_append, map_cons, nodup_append, nodup_cons] at hids
  obtain ⟨-, ⟨h₂, -⟩, hdisj⟩ := hids
  have h₁ : s.id ∉ c₁.map DataSet.id := fun hmem => hdisj s.id hmem s.id (.head _) rfl
  have hfilter := (h.nodes.filter fun a => decide (a.1 = s.id)).length_eq
  rw [hc, nodesOf_append, nodesOf_cons, filter_append, filter_append,
    filter_nodesOf_of_notMem h₁, filter_nodesOf_of_notMem h₂, nil_append, append_nil,
    filter_map, filter_map, length_map, length_map] at hfilter
  have hall : s.dataNode.filter ((fun a : Nat × DataNode => decide (a.1 = s.id)) ∘
      fun d => (s.id, d)) = s.dataNode :=
    filter_eq_self.mpr fun d _ => decide_eq_true rfl
  rw [hall] at hfilter
  exact hfilter

theorem take_append_cons {α : Type} {l₁ : List α} (h : l₁.length < n) (a : α) (l₂ : List α) :
    (l₁ ++ a :: l₂).take n = l₁ ++ a :: l₂.take (n - l₁.length - 1) := by
  rw [take_append, take_of_length_le h.le]
  obtain ⟨m, hm⟩ : ∃ m, n - l₁.length = m + 1 := ⟨n - l₁.length - 1, by omega⟩
  rw [hm, take_succ_cons, Nat.add_sub_cancel]

theorem Copied.add {rest : List (DataSet × DataNode)} (h : Copied recs ks)
    (hroom : Room (recs ++ (ds, d) :: rest)) :
    ∃ dataSet new, addNode ds d ks.dsCnt ks.dataSet = some (dataSet, new) ∧
      Copied (recs ++ [(ds, d)]) { ks with
        dataSet := dataSet
        dsCnt := if new then ks.dsCnt + 1 else ks.dsCnt } := by
  have hsize := h.size
  have hnodes := h.nodes
  have hids := h.ids
  by_cases hmem : ds.id ∈ ks.cached.map DataSet.id
  · -- there is a data set with the number
    obtain ⟨l₁, s, l₂, harr, hlt, hid, hadd⟩ := addNode_known (d := d) hmem
    have hcached : ks.cached = l₁ ++ s :: l₂.take (ks.dsCnt - l₁.length - 1) := by
      unfold KeySet.cached
      rw [harr, take_append_cons hlt]
    have hlen := h.length hcached
    have hnodesRoom := hroom.nodes s.id
    have hcount : 0 < (((ds, d) :: rest).filter fun r => decide (r.1.id = s.id)).length := by
      refine length_pos_of_mem (mem_filter.mpr ⟨.head _, ?_⟩)
      exact decide_eq_true hid.symm
    rw [filter_append, length_append] at hnodesRoom
    rw [if_pos (by omega)] at hadd
    let s' : DataSet := { s with dataNode := s.dataNode ++ [d.alloc] }
    let c₂ := l₂.take (ks.dsCnt - l₁.length - 1)
    have hcached' : (l₁ ++ s' :: l₂).take ks.dsCnt = l₁ ++ s' :: c₂ := take_append_cons hlt ..
    refine ⟨_, false, hadd, ?_, h.cnt, ?_, ?_, ?_⟩
    · rw [← hsize, harr, length_append, length_append]
      rfl
    · show (nodesOf ((l₁ ++ s' :: l₂).take ks.dsCnt)).Perm _
      rw [hcached, nodesOf_append, nodesOf_cons] at hnodes
      have hs' : nodesOf (s' :: c₂) =
          (s.dataNode.map fun d => (s.id, d)) ++ (s.id, d.alloc) :: nodesOf c₂ := by
        rw [nodesOf_cons]
        rw [map_append, append_assoc]
        rfl
      rw [hcached', nodesOf_append, hs', map_append, ← append_assoc]
      refine perm_middle.trans ?_
      rw [append_assoc, hid]
      rw [hid] at hnodes
      exact (hnodes.cons _).trans (perm_append_singleton ..).symm
    · show (((l₁ ++ s' :: l₂).take ks.dsCnt).map DataSet.id).Nodup
      rw [hcached, map_append, map_cons] at hids
      rw [hcached', map_append, map_cons]
      exact hids
    · intro s₁ hs₁
      change s₁ ∈ (l₁ ++ s' :: l₂).take ks.dsCnt at hs₁
      have hfull := h.full
      rw [hcached] at hfull
      rw [hcached'] at hs₁
      rcases mem_append.mp hs₁ with hs₁ | hs₁
      · exact hfull s₁ (mem_append_left _ hs₁)
      · rcases mem_cons.mp hs₁ with rfl | hs₁
        · exact append_ne_nil_of_right_ne_nil _ (cons_ne_nil _ _)
        · exact hfull s₁ (mem_append_right _ (.tail _ hs₁))
  · -- the number is new
    have hlt : ks.dsCnt < ks.dataSet.length := by
      have hnodup : (ds.id :: ks.cached.map DataSet.id).Nodup := nodup_cons.mpr ⟨hmem, hids⟩
      have hsub : ds.id :: ks.cached.map DataSet.id ⊆
          ((recs ++ (ds, d) :: rest).map fun r => r.1.id).dedup := by
        intro id hid
        rw [mem_dedup, map_append, mem_append, map_cons, mem_cons]
        rcases mem_cons.mp hid with rfl | hid
        · exact .inr (.inl rfl)
        · exact .inl (h.mem_ids hid)
      have hle := (hnodup.subperm hsub).length_le
      have hsets := hroom.sets
      have hlen : ks.cached.length = ks.dsCnt := by
        unfold KeySet.cached
        have hcnt := h.cnt
        rw [length_take]
        omega
      rw [length_cons, length_map, hlen] at hle
      omega
    obtain ⟨l₁, s, l₂, harr, hlen, hadd⟩ := addNode_new (d := d) hmem hlt
    let s' : DataSet := { ds with dataNode := [d.alloc] }
    have hcached : ks.cached = l₁ := by
      unfold KeySet.cached
      rw [harr, ← hlen, take_left]
    have hcached' : (l₁ ++ s' :: l₂).take (ks.dsCnt + 1) = l₁ ++ [s'] := by
      rw [take_append_cons (by omega), show ks.dsCnt + 1 - l₁.length - 1 = 0 by omega,
        take_zero]
    refine ⟨_, true, hadd, ?_, ?_, ?_, ?_, ?_⟩
    · rw [← hsize, harr, length_append, length_append]
      rfl
    · show ks.dsCnt + 1 ≤ _
      omega
    · show (nodesOf ((l₁ ++ s' :: l₂).take (ks.dsCnt + 1))).Perm _
      rw [hcached', nodesOf_append, map_append, ← hcached]
      exact hnodes.append (List.Perm.refl _)
    · show (((l₁ ++ s' :: l₂).take (ks.dsCnt + 1)).map DataSet.id).Nodup
      rw [hcached', map_append, ← hcached]
      refine hids.append (nodup_singleton _) fun id hid hid' => ?_
      rw [map_cons, map_nil, mem_singleton] at hid'
      exact hmem (hid' ▸ hid)
    · intro s₁ hs₁
      change s₁ ∈ (l₁ ++ s' :: l₂).take (ks.dsCnt + 1) at hs₁
      rw [hcached', ← hcached] at hs₁
      rcases mem_append.mp hs₁ with hs₁ | hs₁
      · exact h.full s₁ hs₁
      · rw [mem_singleton.mp hs₁]
        exact cons_ne_nil _ _

theorem addNodes_spec {rest : List (DataSet × DataNode)} (hparse : Parses names rest)
    (h : Copied recs ks) (hroom : Room (recs ++ rest)) :
    ∃ ks', addNodes ks names = .ok (ks', true) ∧ Copied (recs ++ rest) ks' ∧
      ks'.isSynced = ks.isSynced := by
  induction hparse generalizing recs ks with
  | nil =>
    rw [append_nil]
    exact ⟨ks, rfl, h, rfl⟩
  | @cons node r names rest hnode _ ih =>
    obtain ⟨ds, d⟩ := r
    obtain ⟨dataSet, new, hadd, hcopied⟩ := h.add hroom
    rw [append_cons] at hroom
    obtain ⟨ks', hok, hcopied', hsynced⟩ := ih hcopied hroom
    refine ⟨ks', ?_, by rw [append_cons]; exact hcopied', hsynced⟩
    rw [addNodes, hnode, ok_bind]
    dsimp only
    rw [hadd]
    exact hok

theorem Copied.nil (hsize : ks.dataSet.length = MAX_DS_PER_KEY) (hcnt : ks.dsCnt = 0) :
    Copied [] ks := by
  have hcached : ks.cached = [] := by
    unfold KeySet.cached
    rw [hcnt, take_zero]
  refine ⟨hsize, by rw [hcnt]; exact Nat.zero_le _, ?_, ?_, ?_⟩
  · rw [hcached]
    exact List.Perm.refl _
  · rw [hcached]
    exact nodup_nil
  · rw [hcached]
    exact nofun

theorem parserDatanode_allocs {node : Bytes} {r : DataSet × DataNode}
    (h : parserDatanode node = .ok (some r)) : r.2.allocs = 0 := by
  unfold parserDatanode at h
  split at h
  · cases h
  · obtain ⟨⟨_, _⟩, -, h⟩ := bind_eq_ok.mp h
    obtain ⟨⟨_, _⟩, -, h⟩ := bind_eq_ok.mp h
    obtain ⟨⟨_, ip⟩, -, h⟩ := bind_eq_ok.mp h
    dsimp only at h
    by_cases hlong : 16 ≤ ip.length
    · rw [if_pos hlong] at h
      cases h
    · rw [if_neg hlong] at h
      obtain ⟨⟨_, _⟩, -, h⟩ := bind_eq_ok.mp h
      obtain ⟨⟨_, _⟩, -, h⟩ := bind_eq_ok.mp h
      obtain ⟨⟨_, _⟩, -, h⟩ := bind_eq_ok.mp h
      obtain ⟨⟨_, _⟩, -, h⟩ := bind_eq_ok.mp h
      cases h
      rfl

theorem Parses.allocs (h : Parses names recs) : ∀ r ∈ recs, r.2.allocs = 0 := by
  induction h with
  | nil => exact nofun
  | cons hnode _ ih =>
    intro r hr
    rcases mem_cons.mp hr with rfl | hr
    · exact parserDatanode_allocs hnode
    · exact ih r hr

theorem Copied.holds (h : Copied recs ks) (hparse : Parses names recs) : Holds names ks := by
  refine ⟨⟨recs, hparse, h.nodes⟩, h.ids, fun s hs d hd => ?_⟩
  have hmem : (s.id, d) ∈ nodesOf ks.cached :=
    mem_flatMap.mpr ⟨s, hs, mem_map_of_mem hd⟩
  obtain ⟨r, hr, heq⟩ := mem_map.mp (h.nodes.mem_iff.mp hmem)
  have hd' : r.2.alloc = d := congrArg Prod.snd heq
  rw [← hd']
  show r.2.allocs + 1 = 1
  rw [hparse.allocs r hr]

--
-- Steps
--

/-- The copies are right: the list that was copied last is held, and a lookup that
returns 0 has found a data set of a range with the key. -/
structure Routed (cfg : Config) (st : Sys) : Prop where
  copied : ∀ e k, st.refreshed = some (e, k) → Holds (st.children e k) (st.keySet e k)
  found : ∀ a, st.answer = some a → a.ok = true → ∃ e k i es range, a.ds = some (e, k, i) ∧
    cfg.expansionSet[e]? = some es ∧ es.keySet[k]? = some range ∧ inRange a.key range = true ∧
    i < (st.keySet e k).dsCnt

/-- The arrays have their size, and the lists fit. -/
structure Inv (st : Sys) : Prop where
  size : ∀ e k, (st.keySet e k).dataSet.length = MAX_DS_PER_KEY
  fits : ∀ e k, Fits (st.children e k)

/-- A lookup finds a key set that is synced, or empty. A read finds ZooKeeper too,
and a write does not find an empty list behind which there is a data set. -/
def ready (cfg : Config) (st : Sys) : Act → Bool
  | .write key zok =>
    match cfg.writeKeySet key with
    | none => true
    | some (e, k) =>
      let ks := st.keySet e k
      let left := ks.dataSet.head?.map DataSet.mode
      if ks.isSynced then decide (ks.dsCnt ≠ 0) || decide (left ≠ some .rw)
      else !zok || decide (ks.dsCnt = 0) &&
        (!(st.children e k).isEmpty || decide (left ≠ some .rw))
  | .read key time zok =>
    match cfg.readKeySet key time with
    | none => true
    | some (e, k) => (st.keySet e k).isSynced || decide ((st.keySet e k).dsCnt = 0) && zok
  | _ => true

theorem Sys.setKeySet_self (st : Sys) (e k : Nat) (ks : KeySet) :
    (st.setKeySet e k ks).keySet e k = ks := by
  unfold Sys.setKeySet
  dsimp only
  rw [update_self, update_self]

theorem Sys.setKeySet_other (st : Sys) {e k e' k' : Nat} (ks : KeySet) (h : (e', k') ≠ (e, k)) :
    (st.setKeySet e k ks).keySet e' k' = st.keySet e' k' := by
  unfold Sys.setKeySet
  dsimp only
  by_cases he : e' = e
  · subst he
    rw [update_self, update_of_ne fun hk => h (by rw [hk])]
  · rw [update_of_ne he]

theorem Inv.setKeySet (h : Inv st) (hsize : ks.dataSet.length = MAX_DS_PER_KEY) :
    Inv (st.setKeySet e k ks) := by
  refine ⟨fun e' k' => ?_, h.fits⟩
  by_cases heq : (e', k') = (e, k)
  · rw [Prod.mk.injEq] at heq
    rw [heq.1, heq.2, Sys.setKeySet_self]
    exact hsize
  · rw [Sys.setKeySet_other st ks heq]
    exact h.size e' k'

/-- What a refresh of an empty key set leaves. -/
structure Refreshed (st st' : Sys) (e k : Nat) (zok : Bool) (ks : KeySet) : Prop where
  inv : Inv st'
  children : st'.children = st.children
  answer : st'.answer = st.answer
  refreshed : st'.refreshed = if zok then some (e, k) else none
  holds : zok = true → Holds (st.children e k) (st'.keySet e k)
  empty : st.children e k = [] → (st'.keySet e k).dataSet = ks.dataSet

theorem refresh_spec (e k : Nat) (zok : Bool) (h : Inv st)
    (hsize : ks.dataSet.length = MAX_DS_PER_KEY) (hcnt : ks.dsCnt = 0)
    (hsynced : ks.isSynced = false) :
    ∃ st', st.refresh e k zok ks = .ok (st', zok) ∧ Refreshed st st' e k zok ks := by
  unfold Sys.refresh registerKeysetZkcache
  rw [hsynced, if_neg (by decide)]
  cases zok with
  | false =>
    refine ⟨_, rfl, ⟨(h.setKeySet hsize).size, h.fits⟩, rfl, rfl, rfl, nofun, fun _ => ?_⟩
    rw [Sys.setKeySet_self]
  | true =>
    rw [if_pos rfl]
    obtain ⟨recs, hparse, hroom⟩ := h.fits e k
    obtain ⟨ks', hok, hcopied, -⟩ := addNodes_spec hparse (.nil hsize hcnt) hroom
    rw [hok]
    refine ⟨_, rfl, ⟨(h.setKeySet hcopied.size).size, h.fits⟩, rfl, rfl, rfl, fun _ => ?_,
      fun hnil => ?_⟩
    · rw [Sys.setKeySet_self]
      exact hcopied.holds hparse
    · rw [hnil, addNodes, Except.ok.injEq, Prod.mk.injEq] at hok
      rw [Sys.setKeySet_self, hok.1]

theorem Holds.congr (h : Holds names ks) (hcached : ks'.cached = ks.cached) : Holds names ks' := by
  refine ⟨?_, ?_, ?_⟩
  · rw [hcached]
    exact h.nodes
  · rw [hcached]
    exact h.grouped
  · rw [hcached]
    exact h.allocs

theorem Holds.dsCnt_ne_zero (h : Holds names ks) (hne : names ≠ []) : ks.dsCnt ≠ 0 := by
  intro hcnt
  obtain ⟨recs, hparse, hperm⟩ := h.nodes
  have hcached : ks.cached = [] := by
    unfold KeySet.cached
    rw [hcnt, take_zero]
  rw [hcached] at hperm
  have hnil : recs = [] := map_eq_nil_iff.mp hperm.symm.eq_nil
  subst hnil
  cases hparse
  exact hne rfl

theorem Refreshed.sync (h : Refreshed st st' e k zok ks) :
    Refreshed st (st'.setKeySet e k { st'.keySet e k with isSynced := true }) e k zok ks := by
  refine ⟨h.inv.setKeySet (h.inv.size e k), h.children, h.answer, h.refreshed, fun hz => ?_,
    fun hnil => ?_⟩
  · rw [Sys.setKeySet_self]
    exact (h.holds hz).congr rfl
  · rw [Sys.setKeySet_self]
    exact h.empty hnil

theorem sync_down (e k : Nat) (h : Inv st) (hsynced : (st.keySet e k).isSynced = false) :
    ∃ st', st.sync e k false = .ok (st', false) ∧ Inv st' ∧ st'.refreshed = none := by
  have hok : st.refresh e k false (st.keySet e k) =
      .ok ({ st.setKeySet e k (st.keySet e k) with refreshed := none }, false) := by
    unfold Sys.refresh registerKeysetZkcache
    rw [hsynced, if_neg (by decide), if_neg (by decide)]
    rfl
  unfold Sys.sync
  rw [if_neg (by rw [hsynced]; decide), hok, ok_bind]
  exact ⟨_, rfl, ⟨(h.setKeySet (h.size e k)).size, h.fits⟩, rfl⟩

theorem sync_spec (e k : Nat) (zok : Bool) (h : Inv st) (hcnt : (st.keySet e k).dsCnt = 0)
    (hsynced : (st.keySet e k).isSynced = false) :
    ∃ st', st.sync e k zok = .ok (st', zok) ∧ Refreshed st st' e k zok (st.keySet e k) := by
  obtain ⟨st₁, hok, hr⟩ := refresh_spec e k zok h (h.size e k) hcnt hsynced
  unfold Sys.sync
  rw [if_neg (by rw [hsynced]; decide), hok, ok_bind]
  cases zok with
  | false => exact ⟨st₁, rfl, hr⟩
  | true => exact ⟨_, rfl, hr.sync⟩

--
-- Lookups
--

/-- The range of a key set has the key. -/
def Config.Covers (cfg : Config) (e k key : Nat) : Prop :=
  ∃ es range, cfg.expansionSet[e]? = some es ∧ es.keySet[k]? = some range ∧
    inRange key range = true

theorem findIdx_covers {es : ExpansionSet} (h : es.keySet.findIdx? (inRange key) = some k) :
    ∃ range, es.keySet[k]? = some range ∧ inRange key range = true := by
  rw [findIdx?_eq_some_iff_getElem] at h
  obtain ⟨hlt, hin, -⟩ := h
  exact ⟨_, getElem?_eq_getElem hlt, hin⟩

theorem writeKeySet_covers (h : cfg.writeKeySet key = some (e, k)) : cfg.Covers e k key := by
  unfold Config.writeKeySet at h
  split at h
  · cases h
  · next es hes =>
    split at h
    · cases h
    · rw [Option.map_eq_some_iff] at h
      obtain ⟨k', hfind, heq⟩ := h
      rw [Prod.mk.injEq] at heq
      obtain ⟨rfl, rfl⟩ := heq
      obtain ⟨range, hrange, hin⟩ := findIdx_covers hfind
      exact ⟨es, range, hes, hrange, hin⟩

theorem readKeySet_covers {time : Nat} (h : cfg.readKeySet key time = some (e, k)) :
    cfg.Covers e k key := by
  unfold Config.readKeySet at h
  split at h
  · cases h
  · split at h
    · cases h
    · next es hes =>
      rw [Option.map_eq_some_iff] at h
      obtain ⟨k', hfind, heq⟩ := h
      rw [Prod.mk.injEq] at heq
      obtain ⟨rfl, rfl⟩ := heq
      obtain ⟨range, hrange, hin⟩ := findIdx_covers hfind
      exact ⟨es, range, hes, hrange, hin⟩

/-- The list that was copied last is held. -/
def Sys.Current (st : Sys) : Prop :=
  ∀ e k, st.refreshed = some (e, k) → Holds (st.children e k) (st.keySet e k)

theorem Sys.Current.of_none (h : st.refreshed = none) : st.Current := by
  intro e k hr
  rw [h] at hr
  cases hr

theorem Refreshed.current (h : Refreshed st st' e k zok ks) : st'.Current := by
  intro e' k' hr
  rw [h.refreshed] at hr
  cases zok with
  | false => cases hr
  | true =>
    rw [if_pos rfl, Option.some.injEq, Prod.mk.injEq] at hr
    rw [← hr.1, ← hr.2, h.children]
    exact h.holds rfl

theorem Sys.Current.miss (h : st.Current) (key : Nat) (ds : Option (Nat × Nat × Nat)) :
    Routed cfg (st.reply key false ds) := by
  refine ⟨h, fun a ha hok => ?_⟩
  rw [← Option.some.inj ha] at hok
  cases hok

theorem Sys.Current.hit (h : st.Current) (hcovers : cfg.Covers e k key)
    (hcnt : (st.keySet e k).dsCnt ≠ 0) : Routed cfg (st.reply key true (some (e, k, 0))) := by
  obtain ⟨es, range, hes, hrange, hin⟩ := hcovers
  refine ⟨h, fun a ha _ => ?_⟩
  rw [← Option.some.inj ha]
  exact ⟨e, k, 0, es, range, rfl, hes, hrange, hin, Nat.pos_of_ne_zero hcnt⟩

theorem write_synced (hinv : Inv st) (h : st.Current) (hcovers : cfg.Covers e k key)
    (hleft : (st.keySet e k).dsCnt ≠ 0 ∨
      (st.keySet e k).dataSet.head?.map DataSet.mode ≠ some .rw) :
    ∃ st', (if (st.keySet e k).dataSet.head?.map DataSet.mode = some .rw then
        (Except.ok (st.reply key true (some (e, k, 0))) : Except Fault Sys)
      else .ok (st.reply key false none)) = .ok st' ∧ Inv st' ∧ Routed cfg st' := by
  split
  · next hrw =>
    exact ⟨_, rfl, ⟨hinv.size, hinv.fits⟩, h.hit hcovers (hleft.resolve_right fun hne => hne hrw)⟩
  · exact ⟨_, rfl, ⟨hinv.size, hinv.fits⟩, h.miss ..⟩

theorem getWriteDataset_spec (hinv : Inv st) (hquiet : st.refreshed = none)
    (hready : ready cfg st (.write key zok) = true) :
    ∃ st', getWriteDataset cfg st key zok = .ok st' ∧ Inv st' ∧ Routed cfg st' := by
  have hcurrent : st.Current := .of_none hquiet
  unfold getWriteDataset
  unfold ready at hready
  dsimp only at hready
  rcases hsome : cfg.writeKeySet key with _ | ⟨e, k⟩
  · exact ⟨_, rfl, ⟨hinv.size, hinv.fits⟩, hcurrent.miss ..⟩
  · have hcovers := writeKeySet_covers hsome
    rw [hsome] at hready
    dsimp only at hready ⊢
    cases hsynced : (st.keySet e k).isSynced with
    | true =>
      rw [hsynced, if_pos rfl, Bool.or_eq_true] at hready
      have hsync : st.sync e k zok = .ok (st, true) := by
        unfold Sys.sync
        rw [if_pos hsynced]
        rfl
      rw [hsync, ok_bind]
      exact write_synced hinv hcurrent hcovers
        (hready.imp of_decide_eq_true of_decide_eq_true)
    | false =>
      rw [hsynced, if_neg (by decide)] at hready
      cases zok with
      | false =>
        obtain ⟨st', hok, hinv', hnone⟩ := sync_down e k hinv hsynced
        rw [hok, ok_bind]
        exact ⟨_, rfl, ⟨hinv'.size, hinv'.fits⟩, (Sys.Current.of_none hnone).miss ..⟩
      | true =>
        rw [Bool.not_true, Bool.false_or, Bool.and_eq_true, Bool.or_eq_true] at hready
        obtain ⟨hcnt, hleft⟩ := hready
        obtain ⟨st', hok, hr⟩ := sync_spec e k true hinv (of_decide_eq_true hcnt) hsynced
        rw [hok, ok_bind]
        refine write_synced hr.inv hr.current hcovers ?_
        by_cases hnil : st.children e k = []
        · rw [hnil] at hleft
          rw [hr.empty hnil]
          exact .inr (of_decide_eq_true (hleft.resolve_left (by decide)))
        · exact .inl ((hr.holds rfl).dsCnt_ne_zero hnil)

theorem read_synced (hinv : Inv st) (h : st.Current) (hcovers : cfg.Covers e k key) :
    ∃ st', (match (st.keySet e k).cached with
      | [] => (Except.ok (st.reply key false none) : Except Fault Sys)
      | ds :: _ =>
        if ds.mode ≠ Mode.na then .ok (st.reply key true (some (e, k, 0)))
        else .ok (st.reply key false none)) = .ok st' ∧ Inv st' ∧ Routed cfg st' := by
  split
  · exact ⟨_, rfl, ⟨hinv.size, hinv.fits⟩, h.miss ..⟩
  · next ds rest hcached =>
    have hcnt : (st.keySet e k).dsCnt ≠ 0 := by
      intro hcnt
      unfold KeySet.cached at hcached
      rw [hcnt, take_zero] at hcached
      cases hcached
    split
    · exact ⟨_, rfl, ⟨hinv.size, hinv.fits⟩, h.hit hcovers hcnt⟩
    · exact ⟨_, rfl, ⟨hinv.size, hinv.fits⟩, h.miss ..⟩

theorem getReadDataset_spec {time : Nat} (hinv : Inv st) (hquiet : st.refreshed = none)
    (hready : ready cfg st (.read key time zok) = true) :
    ∃ st', getReadDataset cfg st key time zok = .ok st' ∧ Inv st' ∧ Routed cfg st' := by
  have hcurrent : st.Current := .of_none hquiet
  unfold getReadDataset
  unfold ready at hready
  dsimp only at hready
  rcases hsome : cfg.readKeySet key time with _ | ⟨e, k⟩
  · exact ⟨_, rfl, ⟨hinv.size, hinv.fits⟩, hcurrent.miss ..⟩
  · have hcovers := readKeySet_covers hsome
    rw [hsome] at hready
    dsimp only at hready ⊢
    cases hsynced : (st.keySet e k).isSynced with
    | true =>
      have hsync : st.sync e k zok = .ok (st, true) := by
        unfold Sys.sync
        rw [if_pos hsynced]
        rfl
      rw [hsync, ok_bind]
      exact read_synced hinv hcurrent hcovers
    | false =>
      rw [hsynced, Bool.false_or, Bool.and_eq_true] at hready
      obtain ⟨hcnt, rfl⟩ := hready
      obtain ⟨st', hok, hr⟩ := sync_spec e k true hinv (of_decide_eq_true hcnt) hsynced
      rw [hok, ok_bind]
      exact read_synced hr.inv hr.current hcovers

--
-- Runs
--

theorem Sys.Current.routed (h : st.Current) (hanswer : st.answer = none) : Routed cfg st := by
  refine ⟨h, fun a ha => ?_⟩
  rw [hanswer] at ha
  cases ha

theorem step_routed (hinv : Inv st) {a : Act}
    (hlisted : ∀ e k names, a = .change e k names → Fits names)
    (hready : ready cfg st a = true) :
    ∃ st', step cfg st a = .ok st' ∧ Inv st' ∧ Routed cfg st' := by
  let st₀ : Sys := { st with refreshed := none, answer := none }
  have hinv₀ : Inv st₀ := ⟨hinv.size, hinv.fits⟩
  have hcurrent : st₀.Current := .of_none rfl
  cases a with
  | change e k names =>
    refine ⟨_, rfl, ⟨hinv.size, fun e' k' => ?_⟩, Sys.Current.routed (.of_none rfl) rfl⟩
    show Fits (update st.children e (update (st.children e) k names) e' k')
    by_cases he : e' = e
    · subst he
      rw [update_self]
      by_cases hk : k' = k
      · rw [hk, update_self]
        exact hlisted e' k names rfl
      · rw [update_of_ne hk]
        exact hinv.fits e' k'
    · rw [update_of_ne he]
      exact hinv.fits e' k'
  | opens e k zok =>
    have hsize : KeySet.zero.dataSet.length = MAX_DS_PER_KEY := rfl
    obtain ⟨st₁, hok, hr⟩ := refresh_spec e k zok hinv₀ hsize rfl rfl
    show ∃ st', openKeySet st₀ e k zok = .ok st' ∧ _
    unfold openKeySet
    rw [hok, ok_bind]
    cases zok with
    | false => exact ⟨st₁, rfl, hr.inv, hr.current.routed hr.answer⟩
    | true => exact ⟨_, rfl, hr.sync.inv, hr.sync.current.routed hr.answer⟩
  | event e k connected childEvent zok =>
    show ∃ st', keysetWatcher st₀ e k connected childEvent zok = .ok st' ∧ _
    unfold keysetWatcher
    split
    · have hsize : (unregisterKeysetZkcache (st₀.keySet e k)).dataSet.length = MAX_DS_PER_KEY :=
        hinv.size e k
      obtain ⟨st₁, hok, hr⟩ := refresh_spec e k zok hinv₀ hsize rfl rfl
      rw [hok, ok_bind]
      exact ⟨st₁, rfl, hr.inv, hr.current.routed hr.answer⟩
    · exact ⟨st₀, rfl, hinv₀, hcurrent.routed rfl⟩
  | write key zok => exact getWriteDataset_spec hinv₀ rfl hready
  | read key time zok => exact getReadDataset_spec hinv₀ rfl hready

/-- **The copies are right** in a run whose lookups find key sets that are synced or
empty. -/
theorem routed_of_ready (cfg : Config) (children : Nat → Nat → List Bytes)
    (hfits : ∀ e k, Fits (children e k)) (acts : List Act)
    (hlisted : ∀ e k names, Act.change e k names ∈ acts → Fits names)
    (hready : Along (step cfg) (fun st a => ready cfg st a = true) (Sys.start children) acts) :
    ∃ st, run (step cfg) (Sys.start children) acts = .ok st ∧ Routed cfg st := by
  have hlisted' : Along (step cfg) (fun _ a => ∀ e k names, a = .change e k names → Fits names)
      (Sys.start children) acts :=
    Along.of_forall fun a ha _ e k names heq => hlisted e k names (heq ▸ ha)
  have hstep : ∀ st a, Inv st ∧ Routed cfg st →
      (∀ e k names, a = .change e k names → Fits names) ∧ ready cfg st a = true →
      ∃ st', step cfg st a = .ok st' ∧ Inv st' ∧ Routed cfg st' :=
    fun st a hst ha => step_routed hst.1 ha.1 ha.2
  have hstart : Inv (Sys.start children) ∧ Routed cfg (Sys.start children) :=
    ⟨⟨fun _ _ => rfl, hfits⟩, Sys.Current.routed (.of_none rfl) rfl⟩
  obtain ⟨st, hrun, -, hrouted⟩ := run_of_along hstep hstart (hlisted'.and hready)
  exact ⟨st, hrun, hrouted⟩

/-- One range of keys. -/
def sampleConfig : Config := ⟨[⟨.rw, 0, 100, [(0, 1024)]⟩], 0⟩

/-- One node. -/
def sampleNode : Bytes := ascii "RW:1:MASTER:10.0.0.1:7503:7504:20140101000000:-1"

theorem fits_sample : Fits [sampleNode] := by
  have hparse : parserDatanode sampleNode = .ok (some
      (⟨1, .rw, 20140101000000, 18446744073709551615, []⟩,
        ⟨ascii "10.0.0.1", 7503, 7504, .master, 0⟩)) := by decide +kernel
  refine ⟨_, .cons hparse .nil, by decide, fun id => ?_⟩
  exact (length_filter_le _ _).trans (by decide)

/-- The node is looked up, goes away, and is looked up again. -/
def nodeLeaves : List Act :=
  [.opens 0 0 true, .write 5 true, .change 0 0 [], .event 0 0 true true true, .read 5 50 true]

theorem routed_nodeLeaves :
    ∃ st, run (step sampleConfig) (Sys.start fun _ _ => [sampleNode]) nodeLeaves = .ok st ∧
      Routed sampleConfig st := by
  refine routed_of_ready sampleConfig _ (fun _ _ => fits_sample) nodeLeaves (fun e k names h => ?_)
    (by decide +kernel)
  have hnil : names = [] := by
    simp [nodeLeaves] at h
    exact h.2.2
  rw [hnil]
  exact ⟨[], .nil, by decide, fun _ => Nat.zero_le _⟩

/-- An event, and a lookup after it. -/
def lookupAfterEvent : List Act :=
  [.opens 0 0 true, .event 0 0 true true true, .write 5 true]

/-- The node is there twice. -/
theorem event_then_lookup :
    ∃ st, run (step sampleConfig) (Sys.start fun _ _ => [sampleNode]) lookupAfterEvent = .ok st ∧
      st.refreshed = some (0, 0) ∧ st.children 0 0 = [sampleNode] ∧
      (nodesOf (st.keySet 0 0).cached).length = 2 ∧ ¬ Routed sampleConfig st := by
  obtain ⟨st, hrun, hstate⟩ := exists_ok_of_any
    (x := run (step sampleConfig) (Sys.start fun _ _ => [sampleNode]) lookupAfterEvent)
    (p := fun (st : Sys) => decide (st.refreshed = some (0, 0)) &&
      decide (st.children 0 0 = [sampleNode]) &&
      decide ((nodesOf (st.keySet 0 0).cached).length = 2)) (by decide +kernel)
  rw [Bool.and_eq_true, Bool.and_eq_true, decide_eq_true_iff, decide_eq_true_iff,
    decide_eq_true_iff] at hstate
  obtain ⟨⟨hrefreshed, hchildren⟩, htwo⟩ := hstate
  refine ⟨st, hrun, hrefreshed, hchildren, htwo, fun hrouted => ?_⟩
  obtain ⟨recs, hparse, hperm⟩ := (hrouted.copied 0 0 hrefreshed).nodes
  have hlen := hperm.length_eq
  rw [length_map, ← hparse.length_eq, hchildren, htwo] at hlen
  cases hlen

end Supex.Timport.Zk
