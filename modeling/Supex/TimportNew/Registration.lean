import Supex.Lib.Aligned
import Supex.TimportNew.Names

/-!
# timport_new — registration

Every registration makes tables from lists of children. What a table says about a
node is stated by one structure for each level of the tree; the order in which
the children are listed does not matter.

* `registerKeysetZkcache_spec`, `registerExpansionZkcache_spec`,
  `registerZkcache_spec` — a registration copies a well-formed node.
-/

namespace Supex.TimportNew

open List

open Lib (exists_forall₂)

--
-- Copies
--

/-- A data set of some data nodes: all those with its id, and what one of them says
about the set. -/
structure IsDataSet (nodes : List NodeName) (ds : DataSet) : Prop where
  named : ∃ dn ∈ nodes,
    dn.id = ds.id ∧ dn.mode = ds.mode ∧ dn.sTime = ds.sTime ∧ dn.eTime = ds.eTime
  dataNode : ds.dataNode.Perm
    ((nodes.filter fun dn => decide (dn.id = ds.id)).map NodeName.node)

/-- One data set for each id. -/
structure Grouped (nodes : List NodeName) (sets : List DataSet) : Prop where
  ids : (sets.map DataSet.id).Nodup
  complete : ∀ dn ∈ nodes, dn.id ∈ sets.map DataSet.id
  sound : ∀ ds ∈ sets, IsDataSet nodes ds

/-- The table of a key set. -/
structure KeysetCopy (tree : Tree) (path : Path) (name : Bytes) (ks : KeySet) : Prop where
  path : ks.path = path ++ [name]
  named : ∃ x, KeysetName name x ∧ ks.sKey = some x.sKey ∧ ks.eKey = some x.eKey
  dataSet : ∃ names nodes, tree ks.path = some names ∧ List.Forall₂ DatanodeName names nodes ∧
    Grouped nodes ks.dataSet
  watched : ks.watched = true

/-- The table of an expansion set: one table for each key set. -/
structure ExpansionCopy (tree : Tree) (path : Path) (name : Bytes) (es : ExpansionSet) :
    Prop where
  path : es.path = path ++ [name]
  named : ∃ x, ExpansionName name x ∧ es.mode = some x.mode ∧ es.sTime = some x.sTime ∧
    es.eTime = some x.eTime
  keySet : ∃ names l, tree es.path = some names ∧ names.Perm l ∧
    List.Forall₂ (KeysetCopy tree es.path) l es.keySet
  watched : es.watched = true

/-- The cache: one table for each expansion set. -/
structure Copies (tree : Tree) (zc : ZkCache) : Prop where
  expansionSet : ∃ names l, tree tsdbPath = some names ∧ names.Perm l ∧
    List.Forall₂ (ExpansionCopy tree tsdbPath) l zc.expansionSet
  watched : zc.watched = true

/-- If an expansion set may be written to, so may the first one. -/
def WritableFirst (sets : List ExpansionSet) : Prop :=
  (∃ es ∈ sets, es.mode = some (ascii "RW")) →
    ∃ es, entry sets 1 = some es ∧ es.mode = some (ascii "RW")

--
-- Well-formed trees
--

/-- A key set whose data nodes have well-formed names. -/
structure KeysetOk (tree : Tree) (path : Path) (name : Bytes) : Prop where
  named : ∃ x, KeysetName name x
  children : ∃ names, tree (path ++ [name]) = some names ∧ ∀ n ∈ names, ∃ dn, DatanodeName n dn

structure ExpansionOk (tree : Tree) (path : Path) (name : Bytes) : Prop where
  named : ∃ x, ExpansionName name x
  children : ∃ names, tree (path ++ [name]) = some names ∧
    ∀ n ∈ names, KeysetOk tree (path ++ [name]) n

/-- The key set of this name has the key in its range. -/
def KeyIn (name : Bytes) (key : Int) : Prop := ∃ x, KeysetName name x ∧ x.sKey ≤ key ∧ key < x.eKey

def TimeIn (name : Bytes) (time : Int) : Prop :=
  ∃ x, ExpansionName name x ∧ x.sTime ≤ time ∧ time < x.eTime

/-- A tree of well-formed names where no two expansion sets have a time in common.
The ranges of keys may overlap. -/
structure WellFormed (tree : Tree) : Prop where
  children : ∃ names, tree tsdbPath = some names ∧ ∀ n ∈ names, ExpansionOk tree tsdbPath n
  disjoint : ∀ names, tree tsdbPath = some names → ∀ m ∈ names, ∀ n ∈ names, ∀ time,
    TimeIn m time → TimeIn n time → m = n

--
-- Data sets
--

variable {tree : Tree} {path : Path} {nodes : List NodeName} {dn : NodeName} {ds : DataSet}
  {sets : List DataSet} {ks : KeySet} {es : ExpansionSet} {zc : ZkCache}

theorem addDatanode_cases (dn : NodeName) (sets : List DataSet) :
    (∃ l₁ ds l₂, sets = l₁ ++ ds :: l₂ ∧ ds.id = dn.id ∧ addDatanode dn sets =
      l₁ ++ { ds with dataNode := ds.dataNode ++ [dn.node] } :: l₂) ∨
    (dn.id ∉ sets.map DataSet.id ∧ addDatanode dn sets =
      sets ++ [⟨dn.id, dn.mode, dn.sTime, dn.eTime, 1, [dn.node]⟩]) := by
  induction sets with
  | nil => right; simp [addDatanode]
  | cons ds rest ih =>
    by_cases hid : dn.id = ds.id
    · left
      refine ⟨[], ds, rest, rfl, hid.symm, ?_⟩
      simp [addDatanode, hid]
    · rcases ih with ⟨l₁, ds', l₂, rfl, hds', hadd⟩ | ⟨hnone, hadd⟩
      · left
        refine ⟨ds :: l₁, ds', l₂, rfl, hds', ?_⟩
        simp [addDatanode, hid, hadd]
      · right
        constructor
        · simpa [hid] using hnone
        · simp [addDatanode, hid, hadd]

theorem IsDataSet.skip (h : IsDataSet nodes ds) (hid : dn.id ≠ ds.id) :
    IsDataSet (nodes ++ [dn]) ds := by
  obtain ⟨dn', hdn', hnamed⟩ := h.named
  constructor
  · exact ⟨dn', by simp [hdn'], hnamed⟩
  · simpa [filter_append, hid] using h.dataNode

theorem IsDataSet.join (h : IsDataSet nodes ds) (hid : ds.id = dn.id) :
    IsDataSet (nodes ++ [dn]) { ds with dataNode := ds.dataNode ++ [dn.node] } := by
  obtain ⟨dn', hdn', hnamed⟩ := h.named
  constructor
  · exact ⟨dn', by simp [hdn'], hnamed⟩
  · have hperm := h.dataNode.append_right [dn.node]
    simpa [filter_append, hid] using hperm

theorem IsDataSet.start (hnone : ∀ dn' ∈ nodes, dn'.id ≠ dn.id) :
    IsDataSet (nodes ++ [dn]) ⟨dn.id, dn.mode, dn.sTime, dn.eTime, 1, [dn.node]⟩ := by
  constructor
  · exact ⟨dn, by simp, rfl, rfl, rfl, rfl⟩
  · have hempty : nodes.filter (fun dn' => decide (dn'.id = dn.id)) = [] := by
      rw [filter_eq_nil_iff]
      intro dn' hdn'
      simpa using hnone dn' hdn'
    simp [filter_append, hempty]

theorem Grouped.addDatanode (h : Grouped nodes sets) (dn : NodeName) :
    Grouped (nodes ++ [dn]) (addDatanode dn sets) := by
  rcases addDatanode_cases dn sets with ⟨l₁, ds, l₂, rfl, hid, hadd⟩ | ⟨hnone, hadd⟩
  · rw [hadd]
    have hids := h.ids
    constructor
    · simpa using hids
    · intro dn' hdn'
      rcases mem_append.mp hdn' with hold | hnew
      · simpa using h.complete dn' hold
      · rw [mem_singleton] at hnew
        simp [hnew, hid]
    · -- the other sets have other ids
      intro ds' hds'
      simp only [map_append, map_cons, nodup_append, nodup_cons] at hids
      obtain ⟨_, ⟨hafter, _⟩, hbefore⟩ := hids
      simp only [mem_append, mem_cons] at hds'
      rcases hds' with hl₁ | rfl | hl₂
      · apply (h.sound ds' (by simp [hl₁])).skip
        intro hsame
        exact hbefore ds'.id (mem_map_of_mem hl₁) ds.id (by simp) (by rw [hid, hsame])
      · exact (h.sound ds (by simp)).join hid
      · apply (h.sound ds' (by simp [hl₂])).skip
        intro hsame
        apply hafter
        rw [hid, hsame]
        exact mem_map_of_mem hl₂
  · rw [hadd]
    constructor
    · rw [map_append, map_singleton, nodup_append]
      refine ⟨h.ids, by simp, ?_⟩
      intro a ha b hb hab
      rw [mem_singleton] at hb
      rw [hab, hb] at ha
      exact hnone ha
    · intro dn' hdn'
      rcases mem_append.mp hdn' with hold | hnew
      · have hmem := h.complete dn' hold
        rw [map_append]
        exact mem_append_left _ hmem
      · rw [mem_singleton] at hnew
        simp [hnew]
    · intro ds' hds'
      rcases mem_append.mp hds' with hold | hnew
      · apply (h.sound ds' hold).skip
        intro hsame
        exact hnone (hsame ▸ mem_map_of_mem hold)
      · rw [mem_singleton] at hnew
        rw [hnew]
        apply IsDataSet.start
        intro dn' hdn' hsame
        exact hnone (hsame ▸ h.complete dn' hdn')

theorem addDatanodes_spec {names : List Bytes} {done more : List NodeName}
    (hnames : List.Forall₂ DatanodeName names more) (h : Grouped done sets) :
    ∃ sets', addDatanodes names sets = (true, sets') ∧ Grouped (done ++ more) sets' := by
  induction hnames generalizing done sets with
  | nil => exact ⟨sets, rfl, by simpa using h⟩
  | @cons name dn names more hname _ ih =>
    obtain ⟨sets', hadd, hgroup⟩ := ih (h.addDatanode dn)
    refine ⟨sets', ?_, by simpa using hgroup⟩
    rw [addDatanodes, parseDatanode_name hname]
    exact hadd

theorem Grouped.nil : Grouped [] [] := by
  constructor
  · simp
  · simp
  · simp

--
-- Key sets
--

theorem registerKeysetZkcache_spec (ks : KeySet) {name : Bytes} (hok : KeysetOk tree path name)
    (hpath : ks.path = path ++ [name])
    (hnamed : ∃ x, KeysetName name x ∧ ks.sKey = some x.sKey ∧ ks.eKey = some x.eKey)
    (hsynced : ks.isSynced = false) :
    ∃ ks', registerKeysetZkcache tree ks.path ks = (true, ks') ∧ KeysetCopy tree path name ks' := by
  obtain ⟨names, htree, hnames⟩ := hok.children
  obtain ⟨nodes, hnodes⟩ := exists_forall₂ hnames
  obtain ⟨sets', hadd, hgroup⟩ := addDatanodes_spec hnodes Grouped.nil
  have hlist : tree ks.path = some names := by rw [hpath, htree]
  refine ⟨{ ks with dataSet := sets', watched := true }, ?_, ?_⟩
  · simp [registerKeysetZkcache, hsynced, hlist, hadd]
  · exact ⟨hpath, hnamed, ⟨names, nodes, hlist, hnodes, hgroup⟩, rfl⟩

theorem KeysetCopy.synced {name : Bytes} (h : KeysetCopy tree path name ks) :
    KeysetCopy tree path name { ks with isSynced := true } :=
  ⟨h.path, h.named, h.dataSet, h.watched⟩

theorem addKeysets_spec (sets : List KeySet) {names : List Bytes}
    (h : ∀ n ∈ names, KeysetOk tree path n) :
    ∃ more, addKeysets tree path names sets = (true, sets ++ more) ∧
      List.Forall₂ (KeysetCopy tree path) names more := by
  induction names generalizing sets with
  | nil => exact ⟨[], by simp [addKeysets], List.Forall₂.nil⟩
  | cons name names ih =>
    have hok := h name (by simp)
    obtain ⟨x, hx⟩ := hok.named
    obtain ⟨ks, hreg, hcopy⟩ := registerKeysetZkcache_spec
      ⟨path ++ [name], some x.sKey, some x.eKey, false, [], false⟩ hok rfl
      ⟨x, hx, rfl, rfl⟩ rfl
    obtain ⟨more, hmore, hcopies⟩ := ih (sets ++ [{ ks with isSynced := true }])
      fun n hn => h n (by simp [hn])
    refine ⟨{ ks with isSynced := true } :: more, ?_, List.Forall₂.cons hcopy.synced hcopies⟩
    rw [addKeysets, parseKeysetNode_name _ hx]
    simp only at hreg ⊢
    rw [hreg]
    simpa using hmore

--
-- Expansion sets
--

theorem registerExpansionZkcache_spec (es : ExpansionSet) {name : Bytes}
    (hok : ExpansionOk tree path name)
    (hpath : es.path = path ++ [name])
    (hnamed : ∃ x, ExpansionName name x ∧ es.mode = some x.mode ∧ es.sTime = some x.sTime ∧
      es.eTime = some x.eTime) (hempty : es.keySet = []) :
    ∃ es', registerExpansionZkcache tree es = (true, es') ∧ es'.mode = es.mode ∧
      ExpansionCopy tree path name es' := by
  obtain ⟨names, htree, hnames⟩ := hok.children
  rw [← hpath] at htree hnames
  obtain ⟨more, hadd, hcopies⟩ := addKeysets_spec [] hnames
  rw [nil_append] at hadd
  refine ⟨{ es with keySet := more, watched := true }, ?_, rfl, ?_⟩
  · simp [registerExpansionZkcache, hempty, htree, hadd]
  · exact ⟨hpath, hnamed, ⟨names, names, htree, List.Perm.refl _, hcopies⟩, rfl⟩

theorem swapFirst_last (es : ExpansionSet) {sets : List ExpansionSet} (hne : sets ≠ []) :
    ∃ first rest, sets = first :: rest ∧
      swapFirst (sets ++ [es]) (sets.length + 1) = es :: rest ++ [first] := by
  obtain ⟨first, rest, rfl⟩ := exists_cons_of_ne_nil hne
  refine ⟨first, rest, rfl, ?_⟩
  have hlast : entry (first :: rest ++ [es]) ((first :: rest).length + 1) = some es := by
    simp [entry]
  simp only [swapFirst, hlast]
  simp [entry]

theorem WritableFirst.nil : WritableFirst [] := by
  rintro ⟨es, hes, _⟩
  simp at hes

theorem WritableFirst.add {sets : List ExpansionSet} (h : WritableFirst sets)
    (hes : es.mode ≠ some (ascii "RW")) : WritableFirst (sets ++ [es]) := by
  rintro ⟨es', hes', hmode⟩
  have hold : es' ∈ sets := by
    rcases mem_append.mp hes' with hold | hnew
    · exact hold
    · rw [mem_singleton] at hnew
      rw [hnew] at hmode
      exact absurd hmode hes
  obtain ⟨first, hfirst, hrw⟩ := h ⟨es', hold, hmode⟩
  refine ⟨first, ?_, hrw⟩
  rcases sets with _ | ⟨a, rest⟩
  · simp at hold
  · simpa [entry] using hfirst

theorem WritableFirst.cons {rest : List ExpansionSet} (hes : es.mode = some (ascii "RW")) :
    WritableFirst (es :: rest) := by
  intro _
  exact ⟨es, by simp [entry], hes⟩

/-- The loop adds a table for each name, in some order, and keeps one that may be
written to in front. -/
theorem addExpansions_spec {names : List Bytes} {sets : List ExpansionSet}
    (h : ∀ n ∈ names, ExpansionOk tree path n) (hfirst : WritableFirst sets) :
    ∃ more sets', addExpansions tree path names sets = (true, sets') ∧
      List.Forall₂ (ExpansionCopy tree path) names more ∧ (sets ++ more).Perm sets' ∧
      WritableFirst sets' := by
  induction names generalizing sets with
  | nil => exact ⟨[], sets, by simp [addExpansions], List.Forall₂.nil, by simp, hfirst⟩
  | cons name names ih =>
    have hok := h name (by simp)
    have hrest : ∀ n ∈ names, ExpansionOk tree path n := fun n hn => h n (by simp [hn])
    obtain ⟨x, hx⟩ := hok.named
    obtain ⟨es, hreg, hmode, hcopy⟩ := registerExpansionZkcache_spec
      ⟨path ++ [name], some x.mode, some x.sTime, some x.eTime, [], false⟩ hok rfl
      ⟨x, hx, rfl, rfl, rfl⟩ rfl
    -- what the loop goes on with
    have hnext : ∃ next, addExpansions tree path (name :: names) sets =
        addExpansions tree path names next ∧ (sets ++ [es]).Perm next ∧ WritableFirst next := by
      rw [addExpansions, parseExpansionNode_name _ hx]
      simp only at hreg ⊢
      rw [hreg]
      by_cases hrw : es.mode = some (ascii "RW")
      · by_cases hne : sets = []
        · refine ⟨[es], by simp [hne], by simp [hne], WritableFirst.cons hrw⟩
        · obtain ⟨first, rest, hsets, hswap⟩ := swapFirst_last es hne
          refine ⟨es :: rest ++ [first], ?_, ?_, WritableFirst.cons hrw⟩
          · have hlt : 1 < sets.length + 1 := by simp [hsets]
            simp [hrw, hlt, hswap]
          · rw [hsets]
            have hlast : (first :: (rest ++ [es])).Perm (first :: es :: rest) :=
              (perm_append_singleton es rest).cons first
            have hfront : (es :: first :: rest).Perm (es :: (rest ++ [first])) :=
              (perm_append_singleton first rest).symm.cons es
            simpa using hlast.trans ((List.Perm.swap es first rest).trans hfront)
      · exact ⟨sets ++ [es], by simp [hrw], List.Perm.refl _, hfirst.add hrw⟩
    obtain ⟨next, hadd, hperm, hnextFirst⟩ := hnext
    obtain ⟨more, sets', hmore, hcopies, hall, hsets'⟩ := ih hrest hnextFirst
    refine ⟨es :: more, sets', by rw [hadd, hmore], List.Forall₂.cons hcopy hcopies, ?_, hsets'⟩
    have hjoin := (hperm.append_right more).trans hall
    simpa using hjoin

theorem registerZkcache_spec (zc : ZkCache) (htree : WellFormed tree)
    (hempty : zc.expansionSet = []) :
    ∃ zc', registerZkcache tree zc = (true, zc') ∧ Copies tree zc' ∧
      WritableFirst zc'.expansionSet := by
  obtain ⟨names, hlist, hnames⟩ := htree.children
  obtain ⟨more, sets', hadd, hcopies, hperm, hfirst⟩ := addExpansions_spec hnames WritableFirst.nil
  rw [nil_append] at hperm
  obtain ⟨l, hl, hl'⟩ : Relation.Comp List.Perm (List.Forall₂ (ExpansionCopy tree tsdbPath))
      names sets' := by
    rw [← forall₂_comp_perm_eq_perm_comp_forall₂]
    exact ⟨more, hcopies, hperm⟩
  refine ⟨{ zc with expansionSet := sets', watched := true }, ?_, ?_, hfirst⟩
  · simp [registerZkcache, hempty, hlist, hadd]
  · exact ⟨⟨names, l, hlist, hl, hl'⟩, rfl⟩

end Supex.TimportNew
