import Supex.Mixmq.Capacity

/-!
# libmixmq — the stored lists

The names of the queues, and of the producers and consumers of each queue, are
stored as one string, every name followed by a comma. A list grows by appending
to this string and is read back by `csv_parse`.

* `csvParse_joinFields`, `loadStringList_exec` — reading it back gives the list.
* `append_stored` — appending a name gives the list with that name at its end.
* `queueActive_closed`, `openQueue_reopen`, `openQueue_create` — opening a queue
  whose lists are stored.
-/

namespace Supex.Mixmq

open List Lib.KvProgram

open Lib (KvProgram putAll)
open Xmq (comma joinFields joinFields_cons joinFields_append)

variable {usable : Nat → Nat} {s : Store}

--
-- Lists of names
--

/-- A name that can be stored in a list and copied to its array. -/
structure Name (u : Bytes) : Prop where
  ne_nil : u ≠ []
  noComma : comma ∉ u
  noZero : (0 : UInt8) ∉ u
  short : u.length ≤ 255

/-- The string under the key is the list, every name followed by a comma; the
record of an empty list is missing. -/
structure StoredList (s : Store) (key : Bytes) (names : List Bytes) : Prop where
  record : s key = if names = [] then none else some (joinFields names ++ [0])
  named : ∀ u ∈ names, Name u
  bounded : (joinFields names).length < 2 ^ 32

variable {names : List Bytes}

theorem joinFields_noZero (h : ∀ u ∈ names, Name u) : (0 : UInt8) ∉ joinFields names := by
  induction names with
  | nil => exact not_mem_nil
  | cons u names ih =>
    rw [joinFields_cons]
    intro hmem
    rcases mem_append.mp hmem with hmem | hmem
    · exact (h u (.head _)).noZero hmem
    · rcases mem_cons.mp hmem with hcomma | hmem
      · exact absurd hcomma (by decide)
      · exact ih (fun v hv => h v (.tail _ hv)) hmem

theorem joinFields_length (h : ∀ u ∈ names, Name u) :
    2 * names.length ≤ (joinFields names).length := by
  induction names with
  | nil => exact Nat.zero_le _
  | cons u names ih =>
    have hpos : 0 < u.length := length_pos_iff.mpr (h u (.head _)).ne_nil
    have := ih fun v hv => h v (.tail _ hv)
    rw [joinFields_cons, length_append, length_cons, length_cons]
    omega

theorem csvFieldsLoop_joinFields (hne : names ≠ []) (h : ∀ u ∈ names, Name u) {fuel : Nat}
    (hfuel : names.length ≤ fuel) :
    csvFieldsLoop fuel (joinFields names) = some (names.map some) := by
  induction names generalizing fuel with
  | nil => exact absurd rfl hne
  | cons u names ih =>
    have hu := h u (.head _)
    have hmax : FIELD_MAX_LEN = 256 := rfl
    obtain ⟨fuel, rfl⟩ : ∃ k, fuel = k + 1 := ⟨fuel - 1, by rw [length_cons] at hfuel; omega⟩
    have htake : (u ++ comma :: joinFields names).takeWhile (· ≠ comma) = u :=
      takeWhile_append_stop (fun b hb => by
        simp only [decide_eq_true_eq]
        exact fun heq => hu.noComma (heq ▸ hb)) (by simp)
    have hlen : u32 u.length = u.length := Nat.mod_eq_of_lt (by have := hu.short; omega)
    rw [joinFields_cons, csvFieldsLoop, htake, drop_left]
    dsimp only
    rw [hlen, if_neg (by have := hu.short; omega), if_neg hu.ne_nil, take_length]
    cases names with
    | nil => rfl
    | cons v names =>
      have hrest : joinFields (v :: names) ≠ [] := by
        rw [joinFields_cons]
        simp
      rw [if_neg hrest, ih (cons_ne_nil _ _) (fun w hw => h w (.tail _ hw))
        (by simp only [length_cons] at hfuel ⊢; omega)]
      rfl

theorem csvParse_joinFields (hne : names ≠ []) (h : ∀ u ∈ names, Name u) :
    csvParse (joinFields names) = some (names.map some) := by
  refine csvFieldsLoop_joinFields hne h ?_
  have := joinFields_length h
  omega

theorem mapM_map_some (names : List Bytes) :
    ((names.map some).mapM fun field => field) = some names := by
  induction names with
  | nil => rfl
  | cons u names ih =>
    rw [map_cons, mapM_cons, ih]
    rfl

theorem StoredList.length_lt {key : Bytes} (h : StoredList s key names) :
    names.length < 2 ^ 31 := by
  have := joinFields_length h.named
  have := h.bounded
  omega

theorem StoredList.congr {t : Store} {key : Bytes} (h : StoredList s key names)
    (heq : t key = s key) : StoredList t key names :=
  ⟨heq.trans h.record, h.named, h.bounded⟩

theorem StoredList.string {key : Bytes} (h : StoredList s key names) :
    storedString s key = joinFields names := by
  unfold storedString
  rw [h.record]
  by_cases hnil : names = []
  · rw [if_pos hnil, hnil]
    rfl
  · rw [if_neg hnil]
    exact cstr_append_nul (joinFields_noZero h.named)

theorem loadStringList_exec {key : Bytes} (h : StoredList s key names) :
    (loadStringList key).exec s = .ok (some (names.length, names), []) := by
  have hload : (loadStringString key).exec s = .ok (some ((s key).map cstr), []) := rfl
  show KvProgram.exec (KvProgram.bind (loadStringString key) _) s = _
  rw [exec_bind, hload, h.record]
  by_cases hnil : names = []
  · rw [if_pos hnil, hnil]
    rfl
  · have hstr : cstr (joinFields names ++ [0]) = joinFields names :=
      cstr_append_nul (joinFields_noZero h.named)
    have hint : toInt32 (names.map some).length = names.length := by
      rw [length_map]
      exact toInt32_of_lt h.length_lt
    rw [if_neg hnil]
    dsimp only [Option.map_some]
    rw [hstr, csvParse_joinFields hnil h.named]
    dsimp only
    rw [hint, if_neg (by omega), mapM_map_some]
    rfl

theorem append_stored (hheap : ∀ n, n ≤ usable n) {key : Bytes} {u : Bytes}
    (h : StoredList s key names) (hu : Name u)
    (hlt : (joinFields names).length + u.length + 2 < 2 ^ 32) :
    (writeBackAppend usable key u [comma]).exec s =
        .ok (true, [(key, joinFields (names ++ [u]) ++ [0])]) ∧
      StoredList (Function.update s key (some (joinFields (names ++ [u]) ++ [0]))) key
        (names ++ [u]) := by
  have hjoin : joinFields (names ++ [u]) = joinFields names ++ u ++ [comma] := by
    rw [joinFields_append, joinFields_cons, append_assoc]
    rfl
  refine ⟨?_, ?_, fun v hv => ?_, ?_⟩
  · rw [writeBackAppend_exec hheap (by rw [h.string]; exact hlt), h.string, hjoin]
  · rw [Function.update_self, if_neg (by simp)]
  · rcases mem_append.mp hv with hv | hv
    · exact h.named v hv
    · rw [mem_singleton.mp hv]
      exact hu
  · rw [hjoin, length_append, length_append, length_singleton]
    omega

--
-- Opening
--

/-- A queue without producers and consumers, as it is before it is opened. -/
structure Closed (queue : Queue) : Prop where
  active_eq : queue.active = false
  activeProducers_eq : queue.activeProducers = []
  activeConsumers_eq : queue.activeConsumers = []
  deadProducers_eq : queue.deadProducers = []
  deadConsumers_eq : queue.deadConsumers = []

/-- The queue when it is open, with the lists that were stored. -/
def openedQueue (queue : Queue) (capacity : Nat) (ps cs : List Bytes) : Queue :=
  { queue with
    active := true
    msgCapacity := capacity
    producerAmount := ps.length
    deadProducers := ps.map fun u => ⟨u⟩
    consumerAmount := cs.length
    deadConsumers := loadedConsumers cs }

theorem listsLoad_exec (hheap : ∀ n, n ≤ usable n) {queue : Queue} (hclosed : Closed queue)
    {ps cs : List Bytes} (hps : StoredList s (producersKey queue.name) ps)
    (hcs : StoredList s (consumersKey queue.name) cs) :
    (listsLoad usable queue).exec s =
      .ok ((true, openedQueue queue queue.msgCapacity ps cs), []) := by
  have hkey₁ : getKeyOfProducers usable queue.name = .ok (producersKey queue.name) :=
    stringAppend3rd_two hheap ..
  have hkey₂ : getKeyOfConsumers usable queue.name = .ok (consumersKey queue.name) :=
    stringAppend3rd_two hheap ..
  have hproducers : (producersLoadEmpty usable queue).exec s = .ok ((true, { queue with
      producerAmount := ps.length, deadProducers := ps.map fun u => ⟨u⟩ }), []) := by
    unfold producersLoadEmpty producersLoad
    rw [if_pos hclosed.deadProducers_eq, hkey₁]
    show KvProgram.exec (KvProgram.bind (loadStringList _) _) s = _
    rw [exec_bind, loadStringList_exec hps]
    rfl
  have hconsumers : ∀ queue' : Queue, queue'.name = queue.name → queue'.deadConsumers = [] →
      (consumersLoadEmpty usable queue').exec s = .ok ((true, { queue' with
        consumerAmount := cs.length, deadConsumers := loadedConsumers cs }), []) := by
    intro queue' hname hdead
    unfold consumersLoadEmpty consumersLoad
    rw [if_pos hdead, hname, hkey₂]
    show KvProgram.exec (KvProgram.bind (loadStringList _) _) s = _
    rw [exec_bind, loadStringList_exec hcs]
    rfl
  show KvProgram.exec (KvProgram.bind (producersLoadEmpty usable queue) _) s = _
  rw [exec_bind, hproducers]
  show Except.map _ (KvProgram.exec (KvProgram.bind (consumersLoadEmpty usable _) _) s) = _
  rw [exec_bind, hconsumers { queue with
    producerAmount := ps.length, deadProducers := ps.map fun u => ⟨u⟩ } rfl
      hclosed.deadConsumers_eq]
  rfl

theorem queueActive_closed (hheap : ∀ n, n ≤ usable n) {queue : Queue} (hclosed : Closed queue)
    {ps cs : List Bytes} (hps : StoredList s (producersKey queue.name) ps)
    (hcs : StoredList s (consumersKey queue.name) cs)
    (hcap : s (capacityKey queue.name) = none ∨ s (capacityKey queue.name) = some (le64 0)) :
    ∃ writes, (∀ p ∈ writes, p = (capacityKey queue.name, le64 0)) ∧
      (queueActive usable queue).exec s = .ok ((true, openedQueue queue 0 ps cs), writes) := by
  have hkey : getKeyOfCapacity usable queue.name = .ok (capacityKey queue.name) :=
    stringAppend3rd_two hheap ..
  have hload : ∀ t : Store, t (producersKey queue.name) = s (producersKey queue.name) →
      t (consumersKey queue.name) = s (consumersKey queue.name) →
      (listsLoad usable { queue with msgCapacity := 0 }).exec t =
        .ok ((true, openedQueue queue 0 ps cs), []) := by
    intro t h₁ h₂
    have hclosed' : Closed { queue with msgCapacity := 0 } :=
      ⟨hclosed.active_eq, hclosed.activeProducers_eq, hclosed.activeConsumers_eq,
        hclosed.deadProducers_eq, hclosed.deadConsumers_eq⟩
    exact listsLoad_exec hheap hclosed' (hps.congr h₁) (hcs.congr h₂)
  unfold queueActive
  rw [hkey]
  show ∃ writes, _ ∧ KvProgram.exec (KvProgram.bind (uint64TestInit _ _ 0) _) s = _
  simp only [exec_bind, uint64TestInit_exec]
  rcases hcap with hcap | hcap
  · refine ⟨[(capacityKey queue.name, le64 0)], fun p hp => mem_singleton.mp hp, ?_⟩
    rw [hcap]
    dsimp only
    rw [if_neg (show ¬ (!true) = true by decide), hload]
    · rfl
    · refine Function.update_of_ne (key_ne ?_) ..
      rw [keyKind_capacity, keyKind_producers]
      decide
    · refine Function.update_of_ne (key_ne ?_) ..
      rw [keyKind_capacity, keyKind_consumers]
      decide
  · refine ⟨[], by simp, ?_⟩
    rw [hcap]
    dsimp only
    rw [if_pos (le64_length 0), leVal_le64 (by decide)]
    rw [if_neg (show ¬ (!true) = true by decide), hload (putAll s []) rfl rfl]
    rfl

theorem openQueue_reopen (hheap : ∀ n, n ≤ usable n) {queue : Queue} (hclosed : Closed queue)
    {q : Bytes} (hname : queue.name = q) (hq : Name q) {ps cs : List Bytes}
    (hps : StoredList s (producersKey q) ps) (hcs : StoredList s (consumersKey q) cs)
    (hcap : s (capacityKey q) = none ∨ s (capacityKey q) = some (le64 0)) (flag : Nat) :
    ∃ writes, (∀ p ∈ writes, p = (capacityKey q, le64 0)) ∧
      (localStep usable (some queue) (.openQueue q flag)).exec s =
        .ok ((.done true, some { openedQueue queue 0 ps cs with flag := flag }), writes) := by
  subst hname
  obtain ⟨writes, hwrites, hact⟩ := queueActive_closed hheap hclosed hps hcs hcap
  refine ⟨writes, hwrites, ?_⟩
  show KvProgram.exec (KvProgram.bind (xmqQueueOpen usable (some queue) queue.name flag) _) s = _
  unfold xmqQueueOpen
  rw [if_neg (by have := hq.short; omega)]
  dsimp only
  rw [hclosed.active_eq, if_neg (by decide)]
  exact exec_map (exec_map hact rfl) rfl

theorem openQueue_create (hheap : ∀ n, n ≤ usable n) {q : Bytes} (hq : Name q)
    {qs ps cs : List Bytes} (hqs : StoredList s queuesKey qs)
    (hlt : (joinFields qs).length + q.length + 2 < 2 ^ 32)
    (hps : StoredList s (producersKey q) ps) (hcs : StoredList s (consumersKey q) cs)
    (hcap : s (capacityKey q) = none ∨ s (capacityKey q) = some (le64 0)) (flag : Nat) :
    ∃ writes, (∀ p ∈ writes, p = (capacityKey q, le64 0)) ∧
      (localStep usable none (.openQueue q flag)).exec s =
        .ok ((.done true, some { openedQueue (freshQueue q) 0 ps cs with flag := flag }),
          writes ++ [(queuesKey, joinFields (qs ++ [q]) ++ [0])]) := by
  have hclosed : Closed (freshQueue q) := ⟨rfl, rfl, rfl, rfl, rfl⟩
  obtain ⟨writes, hwrites, hact⟩ := queueActive_closed hheap hclosed hps hcs hcap
  refine ⟨writes, hwrites, ?_⟩
  have hjoin : joinFields qs ++ (q ++ [comma] ++ [0]) = joinFields (qs ++ [q]) ++ [0] := by
    rw [joinFields_append, joinFields_cons]
    simp only [append_assoc]
    rfl
  rw [openQueue_new hheap (by rw [hqs.string]; exact hlt), if_neg (by have := hq.short; omega),
    hact]
  rw [hqs.string, hjoin]

end Supex.Mixmq
