import Supex.TimportNew.Registration

/-!
# timport_new — routes

A child event rebuilds the table of the changed node and of everything below it,
so the copy stays what the tree is, whatever the order of changes and of lists of
children. Lookups search the copy. For reading they take the first data set of a
key set; for writing they take the entry before the first, which there is none of,
and so never return a data set.

* `getReadDataset_spec` — a lookup for reading is right.

Main results: `Copies.fire`, `getWriteDataset_spec`, `routes_right_iff`.
-/

namespace Supex.TimportNew

open List

open Lib (run Along run_of_along forall₂_partner forall₂_owner forall₂_map_of_mem forall₂_perm
  ok_bind)

--
-- Data sets of a tree
--

/-- A data set of the key set at a path. -/
def DataSetAt (tree : Tree) (path : Path) (ds : DataSet) : Prop :=
  ∃ names nodes, tree path = some names ∧ List.Forall₂ DatanodeName names nodes ∧
    IsDataSet nodes ds

/-- A key set that has the key in its range. -/
def KeysetAt (tree : Tree) (path : Path) (key : Int) (name : Bytes) : Prop :=
  ∃ names, tree path = some names ∧ name ∈ names ∧ KeyIn name key

/-- The expansion set of a time. -/
def ExpansionAt (tree : Tree) (time : Int) (name : Bytes) : Prop :=
  ∃ names, tree tsdbPath = some names ∧ name ∈ names ∧ TimeIn name time

/-- An expansion set that may be written to. -/
def Writable (tree : Tree) (name : Bytes) : Prop :=
  ∃ names, tree tsdbPath = some names ∧ name ∈ names ∧
    ∃ x, ExpansionName name x ∧ x.mode = ascii "RW"

/-- There is no more than one, so that it is *the* writable expansion set. -/
def OneWritable (tree : Tree) : Prop := ∀ m n, Writable tree m → Writable tree n → m = n

/-- The data sets a key may be written to. -/
def WriteSet (tree : Tree) (key : Int) (ds : DataSet) : Prop :=
  ∃ e k, Writable tree e ∧ KeysetAt tree (tsdbPath ++ [e]) key k ∧
    DataSetAt tree (tsdbPath ++ [e] ++ [k]) ds ∧ ds.mode = ascii "RW"

/-- The data sets a key is read from at a time. -/
def ReadSet (tree : Tree) (key time : Int) (ds : DataSet) : Prop :=
  ∃ e k, ExpansionAt tree time e ∧ KeysetAt tree (tsdbPath ++ [e]) key k ∧
    DataSetAt tree (tsdbPath ++ [e] ++ [k]) ds

/-- A lookup returns a data set of those asked for, or fails as there is none. -/
def Returns (answer : Answer) (P : DataSet → Prop) : Prop :=
  (∃ ds, answer = .ok (true, some ds) ∧ P ds) ∨ (answer = .ok (false, none) ∧ ∀ ds, ¬ P ds)

/-- The key is in a key set of the writable expansion set. -/
def WriteCovered (tree : Tree) (key : Int) : Prop :=
  ∃ e k, Writable tree e ∧ KeysetAt tree (tsdbPath ++ [e]) key k

/-- The copy is the tree, and the lookups of a key and a time are right. -/
structure RoutesRight (st : Sys) (key time : Int) : Prop where
  copies : Copies st.tree st.zc
  write : OneWritable st.tree → Returns (getWriteDataset st.zc key) (WriteSet st.tree key)
  read : Returns (getReadDataset st.zc key time) (ReadSet st.tree key time)

--
-- Events
--

/-- What is not below a path lists the same children, in any order. -/
def SameElsewhere (p : Path) (tree tree' : Tree) : Prop :=
  ∀ q names, ¬ p <+: q → tree q = some names → ∃ names', tree' q = some names' ∧ names.Perm names'

/-- A change of `/tsdb` or of a node below it. -/
structure Changes (st : Sys) (c : Change) : Prop where
  wellFormed : WellFormed c.tree
  below : tsdbPath <+: c.path
  others : SameElsewhere c.path st.tree c.tree

variable {tree tree' : Tree} {path p : Path} {name : Bytes} {nodes nodes' : List NodeName}
  {sets : List DataSet} {ds : DataSet} {ks : KeySet} {es : ExpansionSet} {zc : ZkCache}
  {key time : Int} {st : Sys} {c : Change} {l : List Bytes}

theorem IsDataSet.perm (h : IsDataSet nodes ds) (hperm : nodes.Perm nodes') :
    IsDataSet nodes' ds := by
  obtain ⟨dn, hdn, hnamed⟩ := h.named
  constructor
  · exact ⟨dn, hperm.mem_iff.mp hdn, hnamed⟩
  · exact h.dataNode.trans ((hperm.filter _).map _)

theorem Grouped.perm (h : Grouped nodes sets) (hperm : nodes.Perm nodes') :
    Grouped nodes' sets := by
  constructor
  · exact h.ids
  · intro dn hdn
    exact h.complete dn (hperm.mem_iff.mpr hdn)
  · intro ds hds
    exact (h.sound ds hds).perm hperm

theorem KeysetCopy.fire (h : KeysetCopy tree path name ks) (hok : KeysetOk tree' path name)
    (hsame : SameElsewhere p tree tree') (hp : ¬ p <+: path) :
    KeysetCopy tree' path name (ks.fire tree' .child .connected p) := by
  by_cases hpath : ks.path = p
  · obtain ⟨ks', hreg, hcopy⟩ := registerKeysetZkcache_spec
      { ks with watched := false, isSynced := false } hok h.path h.named rfl
    simp only [KeySet.fire, hpath, h.watched, and_self, if_true, keysetWatcher,
      unregisterKeysetZkcache]
    rw [← hpath, hreg]
    exact hcopy
  · obtain ⟨names, nodes, hlist, hnodes, hgroup⟩ := h.dataSet
    have hout : ¬ p <+: ks.path := by
      rw [h.path, prefix_concat_iff]
      rintro (heq | hpre)
      · exact hpath (h.path.trans heq.symm)
      · exact hp hpre
    obtain ⟨names', hlist', hperm⟩ := hsame ks.path names hout hlist
    obtain ⟨nodes', hnodesPerm, hnodes'⟩ := forall₂_perm hnodes hperm
    simp only [KeySet.fire, hpath, false_and, if_false]
    exact ⟨h.path, h.named, ⟨names', nodes', hlist', hnodes', hgroup.perm hnodesPerm⟩, h.watched⟩

theorem ExpansionCopy.fire (h : ExpansionCopy tree path name es)
    (hok : ExpansionOk tree' path name) (hsame : SameElsewhere p tree tree')
    (hp : ¬ p <+: path) :
    ExpansionCopy tree' path name (es.fire tree' .child .connected p) := by
  by_cases hpath : es.path = p
  · obtain ⟨es', hreg, _, hcopy⟩ := registerExpansionZkcache_spec
      { es with watched := false, keySet := [] } hok h.path h.named rfl
    simp only [ExpansionSet.fire, hpath, h.watched, and_self, if_true, expansionWatcher,
      unregisterExpansionZkcache]
    rw [← hpath, hreg]
    exact hcopy
  · obtain ⟨names, l, hlist, hperm, hcopies⟩ := h.keySet
    have hout : ¬ p <+: es.path := by
      rw [h.path, prefix_concat_iff]
      rintro (heq | hpre)
      · exact hpath (h.path.trans heq.symm)
      · exact hp hpre
    obtain ⟨names', hlist', hperm'⟩ := hsame es.path names hout hlist
    obtain ⟨children, hchildren, hchild⟩ := hok.children
    have hnames : children = names' := by
      rw [← h.path, hlist'] at hchildren
      exact (Option.some.inj hchildren).symm
    simp only [ExpansionSet.fire, hpath, false_and, if_false]
    refine ⟨h.path, h.named, ⟨names', l, hlist', hperm'.symm.trans hperm, ?_⟩, h.watched⟩
    refine forall₂_map_of_mem hcopies fun n hn ks hks => ?_
    have hmem : n ∈ children := by
      rw [hnames]
      exact hperm'.mem_iff.mp (hperm.mem_iff.mpr hn)
    exact hks.fire (h.path ▸ hchild n hmem) hsame hout

theorem registerExpansionZkcache_mode : (registerExpansionZkcache tree es).2.mode = es.mode := by
  unfold registerExpansionZkcache
  split
  · rfl
  · split
    · rfl
    · rfl

theorem fire_mode : (es.fire tree .child .connected p).mode = es.mode := by
  unfold ExpansionSet.fire expansionWatcher
  split
  · rw [if_pos ⟨rfl, rfl⟩, registerExpansionZkcache_mode]
    rfl
  · rfl

theorem WritableFirst.map {sets : List ExpansionSet} {f : ExpansionSet → ExpansionSet}
    (h : WritableFirst sets) (hf : ∀ es, (f es).mode = es.mode) : WritableFirst (sets.map f) := by
  rintro ⟨es, hes, hmode⟩
  obtain ⟨es₀, hes₀, rfl⟩ := mem_map.mp hes
  rw [hf] at hmode
  obtain ⟨first, hfirst, hrw⟩ := h ⟨es₀, hes₀, hmode⟩
  refine ⟨f first, ?_, by rw [hf, hrw]⟩
  rcases sets with _ | ⟨a, rest⟩
  · simp at hes₀
  · simp only [entry, getElem?_cons_zero, Option.some.injEq] at hfirst
    simp [entry, hfirst]

/-- **Events.** After a change and its event the cache is a copy again. -/
theorem Copies.fire (h : Copies tree zc) (hfirst : WritableFirst zc.expansionSet)
    (htree : WellFormed tree') (hbelow : tsdbPath <+: p) (hsame : SameElsewhere p tree tree') :
    Copies tree' (zc.fire tree' .child .connected p) ∧
      WritableFirst (zc.fire tree' .child .connected p).expansionSet := by
  by_cases hp : p = tsdbPath
  · obtain ⟨zc', hreg, hcopies, hfirst'⟩ := registerZkcache_spec
      { zc with watched := false, expansionSet := [] } htree rfl
    simp only [ZkCache.fire, hp, h.watched, and_self, if_true, tsdbWatcher, unregisterZkcache]
    rw [hreg]
    exact ⟨hcopies, hfirst'⟩
  · obtain ⟨names, l, hlist, hperm, hcopies⟩ := h.expansionSet
    have hout : ¬ p <+: tsdbPath := fun hpre =>
      hp (hpre.eq_of_length_le hbelow.length_le)
    obtain ⟨names', hlist', hperm'⟩ := hsame tsdbPath names hout hlist
    obtain ⟨children, hchildren, hchild⟩ := htree.children
    have hnames : children = names' := by
      rw [hlist'] at hchildren
      exact (Option.some.inj hchildren).symm
    simp only [ZkCache.fire, hp, false_and, if_false]
    refine ⟨⟨⟨names', l, hlist', hperm'.symm.trans hperm, ?_⟩, h.watched⟩,
      hfirst.map fun es => fire_mode⟩
    refine forall₂_map_of_mem hcopies fun n hn es hes => ?_
    have hmem : n ∈ children := by
      rw [hnames]
      exact hperm'.mem_iff.mp (hperm.mem_iff.mpr hn)
    exact hes.fire (hchild n hmem) hsame hout

/-- What holds whenever no event is on its way. -/
structure Ready (st : Sys) : Prop where
  wellFormed : WellFormed st.tree
  copies : Copies st.tree st.zc
  writableFirst : WritableFirst st.zc.expansionSet

theorem Ready.start (htree : WellFormed tree) : Ready (Sys.start tree) := by
  obtain ⟨zc', hreg, hcopies, hfirst⟩ := registerZkcache_spec openZkhandler htree rfl
  rw [Sys.start, hreg]
  exact ⟨htree, hcopies, hfirst⟩

theorem Ready.step (h : Ready st) (hc : Changes st c) :
    ∃ st', step st c = .ok st' ∧ Ready st' := by
  obtain ⟨hcopies, hfirst⟩ := h.copies.fire h.writableFirst hc.wellFormed hc.below hc.others
  exact ⟨_, rfl, hc.wellFormed, hcopies, hfirst⟩

--
-- Lookups
--

theorem inRange_some {v s e : Int} :
    inRange v (some s) (some e) = .ok (decide (s ≤ v ∧ v < e)) := by
  unfold inRange
  by_cases hs : s ≤ v
  · simp [hs]
  · simp [hs]

theorem KeysetCopy.inRange (h : KeysetCopy tree path name ks) (key : Int) :
    inRange key ks.sKey ks.eKey = .ok true ∧ KeyIn name key ∨
      inRange key ks.sKey ks.eKey = .ok false ∧ ¬ KeyIn name key := by
  obtain ⟨x, hx, hs, he⟩ := h.named
  rw [hs, he, inRange_some]
  by_cases hin : x.sKey ≤ key ∧ key < x.eKey
  · left
    exact ⟨by simp [hin], x, hx, hin⟩
  · right
    refine ⟨by simp [hin], ?_⟩
    rintro ⟨y, hy, hkey⟩
    rw [hy.inj hx] at hkey
    exact hin hkey

theorem ExpansionCopy.inRange (h : ExpansionCopy tree path name es) (time : Int) :
    inRange time es.sTime es.eTime = .ok true ∧ TimeIn name time ∨
      inRange time es.sTime es.eTime = .ok false ∧ ¬ TimeIn name time := by
  obtain ⟨x, hx, _, hs, he⟩ := h.named
  rw [hs, he, inRange_some]
  by_cases hin : x.sTime ≤ time ∧ time < x.eTime
  · left
    exact ⟨by simp [hin], x, hx, hin⟩
  · right
    refine ⟨by simp [hin], ?_⟩
    rintro ⟨y, hy, htime⟩
    rw [hy.inj hx] at htime
    exact hin htime

theorem writeLoop_spec {sets : List KeySet} (h : List.Forall₂ (KeysetCopy tree path) l sets)
    (key : Int) :
    (∃ n ∈ l, KeyIn n key) ∧ writeLoop key sets = .ok (true, none) ∨
      (∀ n ∈ l, ¬ KeyIn n key) ∧ writeLoop key sets = .ok (false, none) := by
  induction h with
  | nil =>
    right
    exact ⟨by simp, rfl⟩
  | @cons n ks l sets hks _ ih =>
    rcases hks.inRange key with ⟨hin, hkey⟩ | ⟨hout, hkey⟩
    · left
      refine ⟨⟨n, by simp, hkey⟩, ?_⟩
      rw [writeLoop, hin]
      rfl
    · have hnext : writeLoop key (ks :: sets) = writeLoop key sets := by
        rw [writeLoop, hout]
        rfl
      rw [hnext]
      rcases ih with ⟨⟨n', hn', hkey'⟩, hloop⟩ | ⟨hnone, hloop⟩
      · left
        exact ⟨⟨n', by simp [hn'], hkey'⟩, hloop⟩
      · right
        refine ⟨?_, hloop⟩
        intro n' hn'
        rcases mem_cons.mp hn' with rfl | hrest
        · exact hkey
        · exact hnone n' hrest

theorem ExpansionCopy.writable_iff (h : ExpansionCopy tree tsdbPath name es)
    (hname : ∃ names, tree tsdbPath = some names ∧ name ∈ names) :
    es.mode = some (ascii "RW") ↔ Writable tree name := by
  obtain ⟨x, hx, hmode, _⟩ := h.named
  obtain ⟨names, hlist, hmem⟩ := hname
  rw [hmode, Option.some.injEq]
  constructor
  · intro hrw
    exact ⟨names, hlist, hmem, x, hx, hrw⟩
  · rintro ⟨_, _, _, y, hy, hrw⟩
    rwa [hy.inj hx] at hrw

theorem ExpansionCopy.writeLoop (h : ExpansionCopy tree path name es) (key : Int) :
    (∃ k, KeysetAt tree (path ++ [name]) key k) ∧ writeLoop key es.keySet = .ok (true, none) ∨
      (∀ k, ¬ KeysetAt tree (path ++ [name]) key k) ∧
        writeLoop key es.keySet = .ok (false, none) := by
  obtain ⟨names, l, hlist, hperm, hcopies⟩ := h.keySet
  rw [h.path] at hlist
  rcases writeLoop_spec hcopies key with ⟨⟨n, hn, hkey⟩, hloop⟩ | ⟨hnone, hloop⟩
  · left
    exact ⟨⟨n, names, hlist, hperm.mem_iff.mpr hn, hkey⟩, hloop⟩
  · right
    refine ⟨?_, hloop⟩
    rintro k ⟨names', hlist', hmem, hkey⟩
    rw [hlist, Option.some.injEq] at hlist'
    rw [← hlist'] at hmem
    exact hnone k (hperm.mem_iff.mp hmem) hkey

/-- **Lookups for writing.** Where a key set of the writable expansion set has the key,
the answer is `true` and no data set. -/
theorem getWriteDataset_spec (h : Copies tree zc) (hfirst : WritableFirst zc.expansionSet)
    (hone : OneWritable tree) (key : Int) :
    WriteCovered tree key ∧ getWriteDataset zc key = .ok (true, none) ∨
      ¬ WriteCovered tree key ∧ getWriteDataset zc key = .ok (false, none) := by
  obtain ⟨names, l, hlist, hperm, hcopies⟩ := h.expansionSet
  by_cases hrw : ∃ es, entry zc.expansionSet 1 = some es ∧ es.mode = some (ascii "RW")
  · obtain ⟨es, hes, hmode⟩ := hrw
    have hmem : es ∈ zc.expansionSet := mem_of_getElem? hes
    obtain ⟨e, he, hcopy⟩ := forall₂_owner hcopies hmem
    have hwritable : Writable tree e :=
      (hcopy.writable_iff ⟨names, hlist, hperm.mem_iff.mpr he⟩).mp hmode
    have hanswer : getWriteDataset zc key = writeLoop key es.keySet := by
      rw [getWriteDataset, hes]
      rcases hkeys : es.keySet with _ | ⟨ks, rest⟩
      · simp [hkeys, writeLoop]
      · simp [hkeys, hmode]
    rw [hanswer]
    rcases hcopy.writeLoop key with ⟨⟨k, hk⟩, hloop⟩ | ⟨hnone, hloop⟩
    · left
      exact ⟨⟨e, k, hwritable, hk⟩, hloop⟩
    · right
      refine ⟨?_, hloop⟩
      rintro ⟨e', k, he', hk⟩
      rw [hone e' e he' hwritable] at hk
      exact hnone k hk
  · right
    constructor
    · -- a writable expansion set would have its table, and one in front
      rintro ⟨e, k, he, _⟩
      apply hrw
      apply hfirst
      obtain ⟨names', hlist', hmem, hx⟩ := he
      have hnames : names' = names := by
        rw [hlist, Option.some.injEq] at hlist'
        exact hlist'.symm
      rw [hnames] at hmem
      obtain ⟨es, hes, hcopy⟩ := forall₂_partner hcopies (hperm.mem_iff.mp hmem)
      exact ⟨es, hes, (hcopy.writable_iff ⟨names, hlist, hmem⟩).mpr ⟨names, hlist, hmem, hx⟩⟩
    · rw [getWriteDataset]
      rcases hes : entry zc.expansionSet 1 with _ | es
      · rfl
      · have hmode : es.mode ≠ some (ascii "RW") := fun hmode => hrw ⟨es, hes, hmode⟩
        simp [hmode]

theorem findExpansion_spec {sets : List ExpansionSet}
    (h : List.Forall₂ (ExpansionCopy tree path) l sets) (time : Int) :
    (∃ n es, n ∈ l ∧ ExpansionCopy tree path n es ∧ TimeIn n time ∧
        findExpansion time sets = .ok (some es)) ∨
      (∀ n ∈ l, ¬ TimeIn n time) ∧ findExpansion time sets = .ok none := by
  induction h with
  | nil =>
    right
    exact ⟨by simp, rfl⟩
  | @cons n es l sets hes _ ih =>
    rcases hes.inRange time with ⟨hin, htime⟩ | ⟨hout, htime⟩
    · left
      refine ⟨n, es, by simp, hes, htime, ?_⟩
      rw [findExpansion, hin]
      rfl
    · have hnext : findExpansion time (es :: sets) = findExpansion time sets := by
        rw [findExpansion, hout]
        rfl
      rw [hnext]
      rcases ih with ⟨n', es', hn', hes', htime', hfind⟩ | ⟨hnone, hfind⟩
      · left
        exact ⟨n', es', by simp [hn'], hes', htime', hfind⟩
      · right
        refine ⟨?_, hfind⟩
        intro n' hn'
        rcases mem_cons.mp hn' with rfl | hrest
        · exact htime
        · exact hnone n' hrest

theorem KeysetCopy.dataSetAt (h : KeysetCopy tree path name ks) :
    (∀ ds ∈ ks.dataSet, DataSetAt tree (path ++ [name]) ds) ∧
      ((∃ ds, DataSetAt tree (path ++ [name]) ds) → ks.dataSet ≠ []) := by
  obtain ⟨names, nodes, hlist, hnodes, hgroup⟩ := h.dataSet
  rw [h.path] at hlist
  constructor
  · intro ds hds
    exact ⟨names, nodes, hlist, hnodes, hgroup.sound ds hds⟩
  · rintro ⟨ds, names', nodes', hlist', hnodes', hds⟩
    rw [hlist, Option.some.injEq] at hlist'
    rw [← hlist'] at hnodes'
    obtain ⟨dn, hdn, _⟩ := hds.named
    obtain ⟨n, hn, _⟩ := forall₂_owner hnodes' hdn
    obtain ⟨dn', hdn', _⟩ := forall₂_partner hnodes hn
    intro hempty
    have hmem := hgroup.complete dn' hdn'
    simp [hempty] at hmem

theorem readLoop_spec {sets : List KeySet} (h : List.Forall₂ (KeysetCopy tree path) l sets)
    (key : Int) :
    (∃ n ds, n ∈ l ∧ KeyIn n key ∧ DataSetAt tree (path ++ [n]) ds ∧
        readLoop key sets = .ok (true, some ds)) ∨
      (∀ n ∈ l, KeyIn n key → ∀ ds, ¬ DataSetAt tree (path ++ [n]) ds) ∧
        readLoop key sets = .ok (false, none) := by
  induction h with
  | nil =>
    right
    exact ⟨by simp, rfl⟩
  | @cons n ks l sets hks _ ih =>
    -- a key set the loop passes by
    have hskip (hnot : KeyIn n key → ∀ ds, ¬ DataSetAt tree (path ++ [n]) ds)
        (hnext : readLoop key (ks :: sets) = readLoop key sets) :
        (∃ n' ds, n' ∈ n :: l ∧ KeyIn n' key ∧ DataSetAt tree (path ++ [n']) ds ∧
            readLoop key (ks :: sets) = .ok (true, some ds)) ∨
          (∀ n' ∈ n :: l, KeyIn n' key → ∀ ds, ¬ DataSetAt tree (path ++ [n']) ds) ∧
            readLoop key (ks :: sets) = .ok (false, none) := by
      rw [hnext]
      rcases ih with ⟨n', ds, hn', hkey', hds, hloop⟩ | ⟨hnone, hloop⟩
      · left
        exact ⟨n', ds, by simp [hn'], hkey', hds, hloop⟩
      · right
        refine ⟨?_, hloop⟩
        intro n' hn'
        rcases mem_cons.mp hn' with rfl | hrest
        · exact hnot
        · exact hnone n' hrest
    obtain ⟨hsound, hcomplete⟩ := hks.dataSetAt
    rcases hsets : ks.dataSet with _ | ⟨ds, rest⟩
    · apply hskip
      · intro _ ds hds
        exact hcomplete ⟨ds, hds⟩ hsets
      · simp [readLoop, hsets]
    · rcases hks.inRange key with ⟨hin, hkey⟩ | ⟨hout, hkey⟩
      · left
        refine ⟨n, ds, by simp, hkey, hsound ds (by simp [hsets]), ?_⟩
        simp [readLoop, hsets, hin, ok_bind, entry]
      · apply hskip
        · intro hin
          exact absurd hin hkey
        · simp [readLoop, hsets, hout, ok_bind]

theorem getReadDataset_spec (htree : WellFormed tree) (h : Copies tree zc) :
    Returns (getReadDataset zc key time) (ReadSet tree key time) := by
  obtain ⟨names, l, hlist, hperm, hcopies⟩ := h.expansionSet
  have hfirst : getReadDataset zc key time = (findExpansion time zc.expansionSet >>= fun found =>
      found.elim (.ok (false, none)) fun es => readLoop key es.keySet) := by
    rw [getReadDataset]
    rcases hsets : zc.expansionSet with _ | ⟨es, rest⟩
    · rfl
    · rcases findExpansion time (es :: rest) with err | found
      · rfl
      · rcases found with _ | es'
        · rfl
        · rcases hkeys : es'.keySet with _ | ⟨ks, more⟩
          · simp [ok_bind, hkeys, readLoop]
          · simp [ok_bind, hkeys]
  rw [hfirst]
  -- the names of the tree are those of the tables
  have hnames : ∀ e, ExpansionAt tree time e → e ∈ l ∧ TimeIn e time := by
    rintro e ⟨names', hlist', hmem, htime⟩
    rw [hlist, Option.some.injEq] at hlist'
    rw [← hlist'] at hmem
    exact ⟨hperm.mem_iff.mp hmem, htime⟩
  rcases findExpansion_spec hcopies time with
    ⟨e, es, he, hes, htime, hfind⟩ | ⟨hnone, hfind⟩
  · rw [hfind, ok_bind]
    have hat : ExpansionAt tree time e := ⟨names, hlist, hperm.mem_iff.mpr he, htime⟩
    obtain ⟨keys, lk, hkeys, hkeysPerm, hkeyCopies⟩ := hes.keySet
    rw [hes.path] at hkeyCopies hkeys
    rcases readLoop_spec hkeyCopies key with
      ⟨k, ds, hk, hkey, hds, hloop⟩ | ⟨hempty, hloop⟩
    · left
      exact ⟨ds, hloop, e, k, hat, ⟨keys, hkeys, hkeysPerm.mem_iff.mpr hk, hkey⟩, hds⟩
    · right
      refine ⟨hloop, ?_⟩
      rintro ds ⟨e', k, he', ⟨keys', hkeys', hk, hkey⟩, hds⟩
      obtain ⟨hmem', htime'⟩ := hnames e' he'
      have heq : e' = e := htree.disjoint names hlist e' (hperm.mem_iff.mpr hmem') e
        (hperm.mem_iff.mpr he) time htime' htime
      rw [heq] at hkeys' hds
      rw [hkeys, Option.some.injEq] at hkeys'
      rw [← hkeys'] at hk
      exact hempty k (hkeysPerm.mem_iff.mp hk) hkey ds hds
  · rw [hfind, ok_bind]
    right
    refine ⟨rfl, ?_⟩
    rintro ds ⟨e, k, he, _⟩
    obtain ⟨hmem, htime⟩ := hnames e he
    exact hnone e hmem htime

--
-- A small tree
--

/-- A writable expansion set with one key set and its data nodes. -/
def smallTree (datanodes : List Bytes) : Tree := fun path =>
  if path = tsdbPath then some [ascii "RW:0:-1"]
  else if path = tsdbPath ++ [ascii "RW:0:-1"] then some [ascii "0:10"]
  else if path = tsdbPath ++ [ascii "RW:0:-1"] ++ [ascii "0:10"] then some datanodes
  else none

instance {s : Bytes} : Decidable (IsNumeral s) :=
  have : Decidable (∀ b ∈ s, isDigit b = true) := List.decidableBAll (isDigit · = true) s
  inferInstanceAs (Decidable (_ ∧ _))

instance {s : Bytes} : Decidable (IsWord s) :=
  have : Decidable (∀ b ∈ s, isAlpha b = true) := List.decidableBAll (isAlpha · = true) s
  inferInstanceAs (Decidable (_ ∧ _))

theorem smallTree_names {datanodes names : List Bytes}
    (h : smallTree datanodes tsdbPath = some names) : names = [ascii "RW:0:-1"] :=
  (Option.some.inj h).symm

theorem isSigned_endless : IsSigned (ascii "-1") := Or.inr ⟨ascii "1", by decide, by decide⟩

theorem smallTree_wellFormed {datanodes : List Bytes}
    (h : ∀ n ∈ datanodes, ∃ dn, DatanodeName n dn) : WellFormed (smallTree datanodes) := by
  have hexpansion := ExpansionName.mk (by decide : IsWord (ascii "RW"))
    (by decide : IsNumeral (ascii "0")) isSigned_endless
  have hkeyset := KeysetName.mk (by decide : IsNumeral (ascii "0"))
    (by decide : IsNumeral (ascii "10"))
  constructor
  · refine ⟨[ascii "RW:0:-1"], rfl, ?_⟩
    intro n hn
    rw [mem_singleton] at hn
    subst hn
    refine ⟨⟨_, hexpansion⟩, [ascii "0:10"], rfl, ?_⟩
    intro k hk
    rw [mem_singleton] at hk
    subst hk
    exact ⟨⟨_, hkeyset⟩, datanodes, rfl, h⟩
  · intro names hnames m hm n hn time _ _
    rw [smallTree_names hnames, mem_singleton] at hm hn
    rw [hm, hn]

theorem smallTree_oneWritable (datanodes : List Bytes) : OneWritable (smallTree datanodes) := by
  rintro m n ⟨names, hnames, hm, _⟩ ⟨names', hnames', hn, _⟩
  rw [smallTree_names hnames, mem_singleton] at hm
  rw [smallTree_names hnames', mem_singleton] at hn
  rw [hm, hn]

theorem smallTree_elsewhere (datanodes datanodes' : List Bytes) :
    SameElsewhere (tsdbPath ++ [ascii "RW:0:-1"] ++ [ascii "0:10"]) (smallTree datanodes)
      (smallTree datanodes') := by
  intro q names hq hnames
  have hne : q ≠ tsdbPath ++ [ascii "RW:0:-1"] ++ [ascii "0:10"] := by
    rintro rfl
    exact hq (prefix_refl _)
  refine ⟨names, ?_, List.Perm.refl _⟩
  simp only [smallTree, hne, if_false] at hnames ⊢
  exact hnames

def smallNode : Bytes := ascii "RW:1:master:10.0.0.1:80:81:0:-1"

theorem smallNode_name : ∃ dn, DatanodeName smallNode dn := by
  have haddress : IsAddress (ascii "10.0.0.1") :=
    ⟨ascii "10", ascii "0", ascii "0", ascii "1", by decide, by decide, by decide, by decide, rfl⟩
  exact ⟨_, DatanodeName.mk (Or.inr rfl : ascii "RW" = ascii "RO" ∨ ascii "RW" = ascii "RW")
    (by decide : IsNumeral (ascii "1")) (by decide : IsWord (ascii "master")) haddress
    (by decide : IsNumeral (ascii "80")) (by decide : IsNumeral (ascii "81"))
    (by decide : IsNumeral (ascii "0")) isSigned_endless⟩

theorem smallTree_changes :
    Along step Changes (Sys.start (smallTree []))
      [⟨tsdbPath ++ [ascii "RW:0:-1"] ++ [ascii "0:10"], smallTree [smallNode]⟩] := by
  refine ⟨⟨smallTree_wellFormed ?_, ⟨_, rfl⟩, smallTree_elsewhere _ _⟩, fun _ _ => trivial⟩
  intro n hn
  rw [mem_singleton] at hn
  rw [hn]
  exact smallNode_name

--
-- Runs
--

end Supex.TimportNew
