import Supex.Mixmq.System

/-!
# libmixmq — what a call can reach

The store of a context is flat: all queues share it. Here are the keys a call
on one queue may read and write, and the keys of two queues that can coincide.

Main results: `localStep_within`, `notMem_ownKeys`.
-/

namespace Supex.Mixmq

open List

--
-- Keys
--

/-- The keys of the records, as strings. -/
def queuesKey : Bytes := appended XMQ SEP (ascii "QUEUES") none none
def producersKey (q : Bytes) : Bytes := appended XMQ SEP q (some (ascii "PRODUCERS")) none
def consumersKey (q : Bytes) : Bytes := appended XMQ SEP q (some (ascii "CONSUMERS")) none
def capacityKey (q : Bytes) : Bytes := appended XMQ SEP q (some (ascii "CAPACITY")) none
def fetchposKey (q u : Bytes) : Bytes := appended XMQ SEP q (some u) (some (ascii "FETCHPOS"))
def markposKey (q u : Bytes) : Bytes := appended XMQ SEP q (some u) (some (ascii "MARKPOS"))

theorem stringAppend3rd_ok {usable : Nat → Nat} {prfix sep first a : Bytes}
    {second three : Option Bytes}
    (h : stringAppend3rd usable prfix sep first second three = .ok a) :
    a = appended prfix sep first second three := by
  unfold stringAppend3rd at h
  split at h
  · exact (Except.ok.inj h).symm
  · cases h

theorem stringAppend3rd_two {usable : Nat → Nat} (hheap : ∀ n, n ≤ usable n)
    (prfix sep first : Bytes) (second : Option Bytes) :
    stringAppend3rd usable prfix sep first second none =
      .ok (appended prfix sep first second none) := by
  apply if_pos
  refine le_trans ?_ (hheap _)
  cases second with
  | none => simp [appended, appendTotal]; omega
  | some second => simp [appended, appendTotal]; omega

/-- The lists of a queue, with the positions of the consumers in `U`. -/
def userKeys (q : Bytes) (U : Set Bytes) : Set Bytes :=
  {key | key = producersKey q ∨ key = consumersKey q ∨
    ∃ u ∈ U, key = fetchposKey q u ∨ key = markposKey q u}

/-- The records of a queue. -/
def ownKeys (q : Bytes) (U : Set Bytes) : Set Bytes :=
  {key | key = capacityKey q ∨ key ∈ userKeys q U}

/-- The first `n` message records. -/
def messageKeys (n : Nat) : Set Bytes := {key | ∃ i, 1 ≤ i ∧ i ≤ n ∧ key = le64 i}

--
-- Which keys coincide
--

/-- The last seven bytes of a key, from its end: they tell the kind of record. -/
def keyKind (key : Bytes) : Bytes := key.reverse.take 7

theorem key_ne {a b : Bytes} (h : keyKind a ≠ keyKind b) : a ≠ b := fun heq => h (heq ▸ rfl)

theorem keyKind_append {a b : Bytes} (h : 7 ≤ b.length) : keyKind (a ++ b) = keyKind b := by
  unfold keyKind
  rw [reverse_append, take_append_of_le_length (by rwa [length_reverse])]

@[simp] theorem keyKind_capacity (q : Bytes) : keyKind (capacityKey q) = ascii "__YTICA" :=
  keyKind_append (a := XMQ ++ q ++ SEP) (b := ascii "CAPACITY__") (by decide)

@[simp] theorem keyKind_producers (q : Bytes) : keyKind (producersKey q) = ascii "__SRECU" :=
  keyKind_append (a := XMQ ++ q ++ SEP) (b := ascii "PRODUCERS__") (by decide)

@[simp] theorem keyKind_consumers (q : Bytes) : keyKind (consumersKey q) = ascii "__SREMU" :=
  keyKind_append (a := XMQ ++ q ++ SEP) (b := ascii "CONSUMERS__") (by decide)

theorem fetchposKey_eq (q u : Bytes) :
    fetchposKey q u = XMQ ++ (q ++ SEP ++ u) ++ ascii "__FETCHPOS__" := by
  have h : ascii "__FETCHPOS__" = SEP ++ (ascii "FETCHPOS" ++ SEP) := rfl
  rw [h]
  simp only [fetchposKey, appended, append_assoc]

theorem markposKey_eq (q u : Bytes) :
    markposKey q u = XMQ ++ (q ++ SEP ++ u) ++ ascii "__MARKPOS__" := by
  have h : ascii "__MARKPOS__" = SEP ++ (ascii "MARKPOS" ++ SEP) := rfl
  rw [h]
  simp only [markposKey, appended, append_assoc]

@[simp] theorem keyKind_fetchpos (q u : Bytes) : keyKind (fetchposKey q u) = ascii "__SOPHC" := by
  rw [fetchposKey_eq, keyKind_append (by decide)]
  rfl

@[simp] theorem keyKind_markpos (q u : Bytes) : keyKind (markposKey q u) = ascii "__SOPKR" := by
  rw [markposKey_eq, keyKind_append (by decide)]
  rfl

@[simp] theorem keyKind_queues : keyKind queuesKey = ascii "__SEUEU" := rfl

variable {key : Bytes}

theorem ownKeys_length {q : Bytes} {U : Set Bytes} (h : key ∈ ownKeys q U) : 8 < key.length := by
  have hlen : ∀ (prfix sep first second : Bytes) (three : Option Bytes),
      prfix.length + 2 * sep.length ≤
        (appended prfix sep first (some second) three).length := by
    intro prfix sep first second three
    simp only [appended, length_append]
    omega
  have hbase : XMQ.length + 2 * SEP.length = 11 := rfl
  rcases h with rfl | rfl | rfl | ⟨u, -, rfl | rfl⟩
  all_goals exact lt_of_lt_of_le (by decide) (hbase ▸ hlen ..)

theorem messageKey_notMem_ownKeys (q : Bytes) (U : Set Bytes) (i : Nat) :
    le64 i ∉ ownKeys q U := by
  intro h
  have hlen := ownKeys_length h
  rw [le64_length] at hlen
  omega

theorem messageKey_ne_queuesKey (i : Nat) : le64 i ≠ queuesKey := by
  intro h
  have hlen := congrArg List.length h
  rw [le64_length] at hlen
  exact absurd hlen (by decide)

theorem queuesKey_notMem_ownKeys (q : Bytes) (U : Set Bytes) : queuesKey ∉ ownKeys q U := by
  intro h
  have hne : ∀ key, keyKind key ≠ ascii "__SEUEU" → queuesKey ≠ key := by
    rintro key hkey rfl
    exact hkey keyKind_queues
  rcases h with h | h | h | ⟨u, -, h | h⟩
  all_goals exact absurd h (hne _ (by simp only [keyKind_capacity, keyKind_producers,
    keyKind_consumers, keyKind_fetchpos, keyKind_markpos]; decide))

theorem producersKey_inj {p q : Bytes} (h : producersKey p = producersKey q) : p = q := by
  simp only [producersKey, appended, append_assoc] at h
  exact append_cancel_right (append_cancel_left h)

theorem consumersKey_inj {p q : Bytes} (h : consumersKey p = consumersKey q) : p = q := by
  simp only [consumersKey, appended, append_assoc] at h
  exact append_cancel_right (append_cancel_left h)

theorem capacityKey_notMem_userKeys (p q : Bytes) (U : Set Bytes) :
    capacityKey p ∉ userKeys q U := by
  intro h
  rcases h with h | h | ⟨u, -, h | h⟩
  all_goals exact absurd (congrArg keyKind h) (by simp only [keyKind_capacity,
    keyKind_producers, keyKind_consumers, keyKind_fetchpos, keyKind_markpos]; decide)

/-- **Disjointness.** Two queues share a record only when the name of one of
them with a consumer reads like the name of the other with another consumer. -/
theorem notMem_ownKeys {p q : Bytes} (hpq : p ≠ q) {U V : Set Bytes}
    (hUV : ∀ u ∈ U, ∀ v ∈ V, q ++ SEP ++ u ≠ p ++ SEP ++ v) (h : key ∈ ownKeys q U) :
    key ∉ ownKeys p V := by
  intro h'
  rcases h with rfl | rfl | rfl | ⟨u, hu, rfl | rfl⟩ <;>
    rcases h' with h' | h' | h' | ⟨v, hv, h' | h'⟩
  -- keys of different kinds end in different words
  all_goals try exact absurd (congrArg keyKind h') (by simp only [keyKind_capacity,
    keyKind_producers, keyKind_consumers, keyKind_fetchpos, keyKind_markpos]; decide)
  · simp only [capacityKey, appended, append_assoc] at h'
    exact hpq (append_cancel_right (append_cancel_left h')).symm
  · exact hpq (producersKey_inj h').symm
  · exact hpq (consumersKey_inj h').symm
  · rw [fetchposKey_eq, fetchposKey_eq] at h'
    exact hUV u hu v hv (append_cancel_left (append_cancel_right h'))
  · rw [markposKey_eq, markposKey_eq] at h'
    exact hUV u hu v hv (append_cancel_left (append_cancel_right h'))

--
-- Footprints of the records
--

section Footprint

open Lib (KvProgram)

variable {usable : Nat → Nat} {R K : Set Bytes}

theorem loadStringString_within (hR : key ∈ R) : (loadStringString key).Within R K fun _ => True :=
  KvProgram.Within.bind (P := fun _ => True) ⟨hR, fun _ => trivial⟩ fun _ _ => trivial

theorem writeStringBin_within {value : Bytes} (hK : key ∈ K) :
    (writeStringBin key value).Within R K fun _ => True := by
  unfold writeStringBin
  split
  · trivial
  · refine ⟨fun p hp => ?_, fun _ => trivial⟩
    rw [mem_singleton.mp hp]
    exact hK

theorem writeBackAppend_within {more sep : Bytes} (hR : key ∈ R) (hK : key ∈ K) :
    (writeBackAppend usable key more sep).Within R K fun _ => True := by
  refine KvProgram.Within.bind (loadStringString_within hR) fun r _ => ?_
  cases r with
  | none => trivial
  | some old => exact KvProgram.Within.lift_bind fun value _ => writeStringBin_within hK

theorem uint64TestInit_within {cur init : Nat} (hR : key ∈ R) (hK : key ∈ K) :
    (uint64TestInit key cur init).Within R K fun _ => True := by
  have hread : (uint64Read key).Within R K fun _ => True := by
    refine KvProgram.Within.bind (P := fun _ => True) ⟨hR, fun _ => trivial⟩ fun r _ => ?_
    rcases r with _ | _ | value <;> trivial
  refine KvProgram.Within.bind hread fun r _ => ?_
  rcases r with _ | _ | value
  · trivial
  · exact KvProgram.Within.bind (writeStringBin_within hK) fun _ _ => trivial
  · trivial

--
-- What calls keep of a queue
--

/-- The queue is the one under its name with the given capacity, its consumers
have identities that fit their arrays, and the active ones have a key that fits
its block. -/
structure QueueOk (usable : Nat → Nat) (q : Bytes) (n : Nat) (queue : Queue) : Prop where
  name_eq : queue.name = q
  capacity_eq : queue.msgCapacity = n
  short : ∀ c ∈ queue.activeConsumers ++ queue.deadConsumers, c.identity.length ≤ 255
  fits : ∀ c ∈ queue.activeConsumers,
    getKeyOfFetchpos usable q c.identity = .ok (fetchposKey q c.identity)

theorem queueOk_fresh (q : Bytes) : QueueOk usable q 0 (freshQueue q) := ⟨rfl, rfl, nofun, nofun⟩

theorem csvFieldsLoop_short {fuel : Nat} {s : Bytes} {fields : List (Option Bytes)}
    (h : csvFieldsLoop fuel s = some fields) : ∀ u, some u ∈ fields → u.length ≤ 255 := by
  induction fuel generalizing s fields with
  | zero => cases h
  | succ fuel ih =>
    rw [csvFieldsLoop] at h
    set field := s.takeWhile (· ≠ Xmq.comma) with hfield
    have hentry : ∀ u,
        some u = (if field = [] then none else some (field.take (u32 field.length))) →
        u32 field.length < FIELD_MAX_LEN → u.length ≤ 255 := by
      intro u hu hlt
      split at hu
      · cases hu
      · rw [Option.some.injEq] at hu
        have hmax : FIELD_MAX_LEN = 256 := rfl
        rw [hu, length_take]
        omega
    cases hdrop : s.drop field.length with
    | nil =>
      rw [hdrop] at h
      cases h
    | cons c rest =>
      rw [hdrop] at h
      dsimp only at h
      split at h
      · cases h
      · next hlt =>
        intro u hu
        split at h
        · rw [Option.some.injEq] at h
          rw [← h, mem_singleton] at hu
          exact hentry u hu (by omega)
        · rw [Option.map_eq_some_iff] at h
          obtain ⟨more, hmore, rfl⟩ := h
          rcases mem_cons.mp hu with hu | hu
          · exact hentry u hu (by omega)
          · exact ih hmore u hu

theorem mapM_eq_map_some {fields : List (Option Bytes)} {names : List Bytes}
    (h : (fields.mapM fun field => field) = some names) : fields = names.map some := by
  induction fields generalizing names with
  | nil =>
    rw [mapM_nil] at h
    cases h
    rfl
  | cons field fields ih =>
    rw [mapM_cons] at h
    simp only [Option.bind_eq_bind, Option.bind_eq_some_iff] at h
    obtain ⟨u, rfl, rest, hrest, hnames⟩ := h
    cases hnames
    rw [map_cons, ih hrest]

theorem loadStringList_within (hR : key ∈ R) :
    (loadStringList key).Within R K fun r => ∀ n names, r = some (n, names) →
      ∀ u ∈ names, u.length ≤ 255 := by
  refine KvProgram.Within.bind (loadStringString_within hR) fun r _ => ?_
  rcases r with _ | _ | value
  · exact nofun
  · intro n names h
    rw [Option.some.injEq, Prod.mk.injEq] at h
    rw [← h.2]
    exact nofun
  · dsimp only
    cases hparse : csvParse value with
    | none => exact nofun
    | some fields =>
      dsimp only
      split
      · exact nofun
      · cases hnames : fields.mapM fun field => field with
        | none => trivial
        | some names =>
          intro n names' h u hu
          rw [Option.some.injEq, Prod.mk.injEq] at h
          rw [← h.2] at hu
          refine csvFieldsLoop_short hparse u ?_
          rw [mapM_eq_map_some hnames]
          exact mem_map_of_mem hu

--
-- Footprints of the calls
--

variable {q : Bytes} {n : Nat} {queue : Queue} {U : Set Bytes}

theorem producersLoadEmpty_within (h : QueueOk usable q n queue)
    (hR : producersKey q ∈ R) :
    (producersLoadEmpty usable queue).Within R K fun r => QueueOk usable q n r.2 := by
  unfold producersLoadEmpty
  split
  · refine KvProgram.Within.lift_bind fun key hkey => ?_
    obtain rfl : key = producersKey queue.name := stringAppend3rd_ok hkey
    rw [← h.name_eq] at hR
    refine KvProgram.Within.bind (loadStringList_within hR) fun r _ => ?_
    cases r with
    | none => exact ⟨h.name_eq, h.capacity_eq, h.short, h.fits⟩
    | some r => exact ⟨h.name_eq, h.capacity_eq, h.short, h.fits⟩
  · exact h

theorem consumersLoadEmpty_within (h : QueueOk usable q n queue)
    (hR : consumersKey q ∈ R) :
    (consumersLoadEmpty usable queue).Within R K fun r => QueueOk usable q n r.2 := by
  unfold consumersLoadEmpty
  split
  · refine KvProgram.Within.lift_bind fun key hkey => ?_
    obtain rfl : key = consumersKey queue.name := stringAppend3rd_ok hkey
    rw [← h.name_eq] at hR
    refine KvProgram.Within.bind (loadStringList_within hR) fun r hr => ?_
    cases r with
    | none => exact ⟨h.name_eq, h.capacity_eq, h.short, h.fits⟩
    | some r =>
      refine ⟨h.name_eq, h.capacity_eq, fun c hc => ?_, h.fits⟩
      rcases mem_append.mp hc with hc | hc
      · exact h.short c (mem_append_left _ hc)
      · -- a loaded consumer has a loaded name
        obtain ⟨p, hp, rfl⟩ := mem_map.mp hc
        exact hr r.1 r.2 rfl p.1 (fst_mem_of_mem_zipIdx hp)
  · exact h

theorem listsLoad_within (h : QueueOk usable q n queue)
    (hR : userKeys q U ⊆ R) :
    (listsLoad usable queue).Within R K fun r => QueueOk usable q n r.2 := by
  refine KvProgram.Within.bind (producersLoadEmpty_within h (hR (.inl rfl))) fun r₂ h₂ => ?_
  dsimp only
  split
  · exact h₂
  · refine KvProgram.Within.bind (consumersLoadEmpty_within h₂ (hR (.inr (.inl rfl))))
      fun r₃ h₃ => ?_
    split
    · exact ⟨h₃.name_eq, h₃.capacity_eq, h₃.short, h₃.fits⟩
    · exact h₃

theorem queueActive_within (h : QueueOk usable q n queue)
    (hR : ownKeys q U ⊆ R) (hK : capacityKey q ∈ K) :
    (queueActive usable queue).Within R K fun r => QueueOk usable q r.2.msgCapacity r.2 := by
  refine KvProgram.Within.lift_bind fun key hkey => ?_
  obtain rfl : key = capacityKey queue.name := stringAppend3rd_ok hkey
  have hcap : capacityKey queue.name ∈ ownKeys q U := .inl (by rw [h.name_eq])
  rw [← h.name_eq] at hK
  refine KvProgram.Within.bind (uint64TestInit_within (hR hcap) hK) fun r _ => ?_
  have h₁ : QueueOk usable q r.2 { queue with msgCapacity := r.2 } :=
    ⟨h.name_eq, rfl, h.short, h.fits⟩
  dsimp only
  split
  · exact h₁
  · refine KvProgram.Within.mono (listsLoad_within h₁ fun key hkey => hR (.inr hkey))
      fun r₂ h₂ => ?_
    exact ⟨h₂.name_eq, rfl, h₂.short, h₂.fits⟩

/-- What is found under the name `q` is a queue of that name. -/
def FoundOk (usable : Nat → Nat) (q : Bytes) (found : Option Queue) : Prop :=
  ∀ queue, found = some queue → QueueOk usable q queue.msgCapacity queue

theorem FoundOk.some (h : QueueOk usable q n queue) :
    FoundOk usable q (some queue) := by
  intro queue' h'
  rw [Option.some.injEq] at h'
  rw [← h', h.capacity_eq]
  exact h

variable {u : Bytes} {found : Option Queue} {consumer : Consumer}

theorem xmqQueueOpen_within {q : Bytes} (h : FoundOk usable q found) {U : Set Bytes}
    (hR : ownKeys q U ⊆ R) (hK : capacityKey q ∈ K)
    (hqueues : found = none → queuesKey ∈ R ∧ queuesKey ∈ K) (flag : Nat) :
    (xmqQueueOpen usable found q flag).Within R K fun r => FoundOk usable q r.2 := by
  unfold xmqQueueOpen
  split
  · exact h
  · rcases found with _ | queue
    · refine KvProgram.Within.bind (P := fun r => FoundOk usable q r) ?_ fun r hr => ?_
      · refine KvProgram.Within.bind (queueActive_within (queueOk_fresh q) hR hK) fun r hr => ?_
        dsimp only
        split
        · trivial
        · refine KvProgram.Within.lift_bind fun key hkey => ?_
          obtain rfl : key = queuesKey := stringAppend3rd_ok hkey
          refine KvProgram.Within.bind (writeBackAppend_within (hqueues rfl).1 (hqueues rfl).2)
            fun ok _ => ?_
          cases ok with
          | false => exact nofun
          | true => exact FoundOk.some hr
      · rcases r with _ | queue
        · exact nofun
        · exact FoundOk.some ⟨(hr queue rfl).name_eq, rfl, (hr queue rfl).short,
            (hr queue rfl).fits⟩
    · have hq := h queue rfl
      dsimp only
      split
      · exact FoundOk.some ⟨hq.name_eq, rfl, hq.short, hq.fits⟩
      · refine KvProgram.Within.bind (queueActive_within hq hR hK) fun r hr => ?_
        split
        · exact FoundOk.some ⟨hr.name_eq, rfl, hr.short, hr.fits⟩
        · exact FoundOk.some hr

theorem xmqRegisterAsProducer_within (h : QueueOk usable q n queue)
    (hR : userKeys q U ⊆ R) (hK : userKeys q U ⊆ K) (identity : Bytes) :
    (xmqRegisterAsProducer usable queue identity).Within R K fun r => QueueOk usable q n r.2 := by
  unfold xmqRegisterAsProducer
  split
  · exact h
  · split
    · exact h
    · split
      · exact ⟨h.name_eq, h.capacity_eq, h.short, h.fits⟩
      · refine KvProgram.Within.lift_bind fun key hkey => ?_
        obtain rfl : key = producersKey queue.name := stringAppend3rd_ok hkey
        have hps : producersKey queue.name ∈ userKeys q U := .inl (by rw [h.name_eq])
        refine KvProgram.Within.bind (writeBackAppend_within (hR hps) (hK hps)) fun ok _ => ?_
        cases ok with
        | false => exact h
        | true => exact ⟨h.name_eq, h.capacity_eq, h.short, h.fits⟩

theorem find_dead_short (h : QueueOk usable q n queue)
    (hfind : queue.deadConsumers.find? (·.identity = u) = some consumer) :
    consumer.identity = u ∧ u.take 255 = u := by
  have hid : consumer.identity = u := by simpa using find?_some hfind
  refine ⟨hid, take_of_length_le ?_⟩
  rw [← hid]
  exact h.short consumer (mem_append_right _ (mem_of_find?_eq_some hfind))

theorem xmqConsumerExist_short (h : QueueOk usable q n queue)
    (hfind : xmqConsumerExist queue u = some consumer) :
    consumer.identity = u ∧ u.take 255 = u := by
  rcases Option.or_eq_some_iff.mp hfind with hfind | ⟨-, hfind⟩
  · have hid : consumer.identity = u := by simpa using find?_some hfind
    refine ⟨hid, take_of_length_le ?_⟩
    rw [← hid]
    exact h.short consumer (mem_append_left _ (mem_of_find?_eq_some hfind))
  · exact find_dead_short h hfind

theorem consumerActive_within (h : QueueOk usable q n queue) (hR : userKeys q U ⊆ R)
    (hK : userKeys q U ⊆ K) (hu : u.take 255 ∈ U)
    (hfind : queue.deadConsumers.find? (·.identity = u) = some consumer) :
    (consumerActive usable queue u consumer).Within R K fun r => QueueOk usable q n r.2 := by
  obtain ⟨hid, htake⟩ := find_dead_short h hfind
  have hlen : consumer.identity.length ≤ 255 :=
    h.short consumer (mem_append_right _ (mem_of_find?_eq_some hfind))
  have hmem : consumer.identity ∈ U := by rwa [hid, ← htake]
  -- a failed attempt leaves the consumer, with what was read, where it was
  have hset : ∀ i f m, QueueOk usable q n { queue with
      deadConsumers := queue.deadConsumers.set i ⟨consumer.identity, consumer.slot, f, m⟩ } := by
    intro i f m
    refine ⟨h.name_eq, h.capacity_eq, fun c hc => ?_, h.fits⟩
    rcases mem_append.mp hc with hc | hc
    · exact h.short c (mem_append_left _ hc)
    · rcases mem_or_eq_of_mem_set hc with hc | rfl
      · exact h.short c (mem_append_right _ hc)
      · exact hlen
  refine KvProgram.Within.lift_bind fun key hfits => ?_
  obtain rfl : key = fetchposKey queue.name consumer.identity := stringAppend3rd_ok hfits
  rw [h.name_eq] at hfits
  have hkey₁ : fetchposKey queue.name consumer.identity ∈ userKeys q U :=
    .inr (.inr ⟨_, hmem, .inl (by rw [h.name_eq])⟩)
  refine KvProgram.Within.bind (uint64TestInit_within (hR hkey₁) (hK hkey₁)) fun r _ => ?_
  dsimp only
  split
  · exact hset _ _ _
  · refine KvProgram.Within.lift_bind fun key hkey => ?_
    obtain rfl : key = markposKey queue.name consumer.identity := stringAppend3rd_ok hkey
    have hkey₂ : markposKey queue.name consumer.identity ∈ userKeys q U :=
      .inr (.inr ⟨_, hmem, .inr (by rw [h.name_eq])⟩)
    refine KvProgram.Within.bind (uint64TestInit_within (hR hkey₂) (hK hkey₂)) fun r' _ => ?_
    split
    · exact hset _ _ _
    · refine ⟨h.name_eq, h.capacity_eq, fun c hc => ?_, fun c hc => ?_⟩
      · rw [append_assoc] at hc
        rcases mem_append.mp hc with hc | hc
        · exact h.short c (mem_append_left _ hc)
        · rcases mem_cons.mp hc with rfl | hc
          · exact hlen
          · exact h.short c (mem_append_right _ (mem_of_mem_eraseP hc))
      · rcases mem_append.mp hc with hc | hc
        · exact h.fits c hc
        · rw [mem_singleton.mp hc]
          exact hfits

theorem consumerNewActive_within (h : QueueOk usable q n queue) (hR : userKeys q U ⊆ R)
    (hK : userKeys q U ⊆ K) (hu : u.take 255 ∈ U) :
    (consumerNewActive usable queue u).Within R K fun r => QueueOk usable q n r.2 := by
  refine KvProgram.Within.lift_bind fun key hkey => ?_
  obtain rfl : key = consumersKey queue.name := stringAppend3rd_ok hkey
  have hcs : consumersKey queue.name ∈ userKeys q U := .inr (.inl (by rw [h.name_eq]))
  refine KvProgram.Within.bind (writeBackAppend_within (hR hcs) (hK hcs)) fun ok _ => ?_
  cases ok with
  | false => exact h
  | true =>
    refine KvProgram.Within.lift_bind fun key hfits => ?_
    obtain rfl : key = fetchposKey queue.name (u.take 255) := stringAppend3rd_ok hfits
    rw [h.name_eq] at hfits
    have hkey₁ : fetchposKey queue.name (u.take 255) ∈ userKeys q U :=
      .inr (.inr ⟨_, hu, .inl (by rw [h.name_eq])⟩)
    refine KvProgram.Within.bind (writeStringBin_within (hK hkey₁)) fun ok _ => ?_
    cases ok with
    | false => exact h
    | true =>
      refine KvProgram.Within.lift_bind fun key hkey => ?_
      obtain rfl : key = markposKey queue.name (u.take 255) := stringAppend3rd_ok hkey
      have hkey₂ : markposKey queue.name (u.take 255) ∈ userKeys q U :=
        .inr (.inr ⟨_, hu, .inr (by rw [h.name_eq])⟩)
      refine KvProgram.Within.bind (writeStringBin_within (hK hkey₂)) fun ok _ => ?_
      cases ok with
      | false => exact h
      | true =>
        refine ⟨h.name_eq, h.capacity_eq, fun c hc => ?_, fun c hc => ?_⟩
        · change c ∈ (queue.activeConsumers ++ [_]) ++ queue.deadConsumers at hc
          rw [append_assoc] at hc
          rcases mem_append.mp hc with hc | hc
          · exact h.short c (mem_append_left _ hc)
          · rcases mem_cons.mp hc with rfl | hc
            · exact length_take_le ..
            · exact h.short c (mem_append_right _ hc)
        · rcases mem_append.mp hc with hc | hc
          · exact h.fits c hc
          · rw [mem_singleton.mp hc]
            exact hfits

theorem xmqRegisterAsConsumer_within (h : QueueOk usable q n queue) (hR : userKeys q U ⊆ R)
    (hK : userKeys q U ⊆ K) (hu : u.take 255 ∈ U) :
    (xmqRegisterAsConsumer usable queue u).Within R K fun r => QueueOk usable q n r.2 := by
  unfold xmqRegisterAsConsumer
  split
  · exact h
  · split
    · exact h
    · split
      · next hfind => exact consumerActive_within h hR hK hu hfind
      · exact consumerNewActive_within h hR hK hu

theorem queuePushTail_within (h : QueueOk usable q n queue)
    (hR : capacityKey q ∈ R) (hK : capacityKey q ∈ K) {pid : Bytes} (msg : Msg)
    (hmsg : xmqProducerExist queue pid ≠ none → ∀ i, le64 i ∈ K) :
    (queuePushTail usable queue pid msg).Within R K fun r =>
      QueueOk usable q r.2.msgCapacity r.2 := by
  unfold queuePushTail
  split
  · exact ⟨h.name_eq, rfl, h.short, h.fits⟩
  · next hexist =>
    refine KvProgram.Within.lift_bind fun key hkey => ?_
    obtain rfl : key = capacityKey queue.name := stringAppend3rd_ok hkey
    rw [← h.name_eq] at hR hK
    refine KvProgram.Within.bind (P := fun _ => True) ?_ fun r _ => ?_
    · unfold reloadCapacity
      split
      · exact uint64TestInit_within hR hK
      · trivial
    · dsimp only
      split
      · exact ⟨h.name_eq, rfl, h.short, h.fits⟩
      · refine KvProgram.Within.bind (P := fun _ => True) ⟨?_, fun _ => trivial⟩ fun ok _ => ?_
        · intro p hp
          rcases mem_pair.mp hp with rfl | rfl
          · exact hmsg hexist _
          · exact hK
        · split
          · exact ⟨h.name_eq, rfl, h.short, h.fits⟩
          · exact ⟨h.name_eq, rfl, h.short, h.fits⟩

theorem msgFetch_within {queue : Queue} (hR : messageKeys queue.msgCapacity ⊆ R) (index : Nat) :
    (msgFetch queue index).Within R K fun _ => True := by
  unfold msgFetch
  split
  · trivial
  · next hindex =>
    have hkey : le64 index ∈ R := hR ⟨index, by omega, by omega, rfl⟩
    refine KvProgram.Within.bind (P := fun _ => True) ⟨hkey, fun _ => trivial⟩ fun r _ => ?_
    rcases r with _ | _ | value
    · trivial
    · trivial
    · dsimp only
      split
      · trivial
      · split <;> trivial

theorem setConsumer_ok (h : QueueOk usable q n queue) (hlen : consumer.identity.length ≤ 255)
    (hfits : getKeyOfFetchpos usable q consumer.identity = .ok (fetchposKey q consumer.identity)) :
    QueueOk usable q n (setConsumer queue u consumer) := by
  unfold setConsumer
  split
  · refine ⟨h.name_eq, h.capacity_eq, fun c hc => ?_, fun c hc => ?_⟩
    · rcases mem_append.mp hc with hc | hc
      · rcases mem_or_eq_of_mem_set hc with hc | rfl
        · exact h.short c (mem_append_left _ hc)
        · exact hlen
      · exact h.short c (mem_append_right _ hc)
    · rcases mem_or_eq_of_mem_set hc with hc | rfl
      · exact h.fits c hc
      · exact hfits
  · refine ⟨h.name_eq, h.capacity_eq, fun c hc => ?_, h.fits⟩
    rcases mem_append.mp hc with hc | hc
    · exact h.short c (mem_append_left _ hc)
    · rcases mem_or_eq_of_mem_set hc with hc | rfl
      · exact h.short c (mem_append_right _ hc)
      · exact hlen

theorem queueFetchNth_within (h : QueueOk usable q n queue) (hK : userKeys q U ⊆ K)
    (hmsg : messageKeys queue.msgCapacity ⊆ R) (hu : u.take 255 ∈ U) (index millis : Nat) :
    (queueFetchNth usable queue u index millis).Within R K fun r => QueueOk usable q n r.2 := by
  unfold queueFetchNth
  cases hfind : xmqConsumerExist queue u with
  | none => exact h
  | some consumer =>
    obtain ⟨hid, htake⟩ := xmqConsumerExist_short h hfind
    have hmem : consumer.identity ∈ U := by rwa [hid, ← htake]
    have hlen : consumer.identity.length ≤ 255 := by
      rw [hid, ← htake]
      exact length_take_le ..
    dsimp only
    split
    · split
      · trivial
      · exact h
    · refine KvProgram.Within.bind (msgFetch_within hmsg index) fun r _ => ?_
      refine KvProgram.Within.lift_bind fun key hfits => ?_
      obtain rfl : key = fetchposKey queue.name consumer.identity := stringAppend3rd_ok hfits
      rw [h.name_eq] at hfits
      have hkey : fetchposKey queue.name consumer.identity ∈ userKeys q U :=
        .inr (.inr ⟨_, hmem, .inl (by rw [h.name_eq])⟩)
      refine KvProgram.Within.bind (writeStringBin_within (hK hkey)) fun ok _ => ?_
      split
      · exact setConsumer_ok h hlen hfits
      · split
        · trivial
        · exact h

theorem queueFetchNext_within (h : QueueOk usable q n queue) (hK : userKeys q U ⊆ K)
    (hmsg : messageKeys queue.msgCapacity ⊆ R) (hu : u.take 255 ∈ U) (millis : Nat) :
    (queueFetchNext usable queue u millis).Within R K fun r => QueueOk usable q n r.2 := by
  unfold queueFetchNext
  split
  · trivial
  · exact queueFetchNth_within h hK hmsg hu _ millis

theorem queueMarkNth_within (h : QueueOk usable q n queue) (hK : userKeys q U ⊆ K)
    (hu : u.take 255 ∈ U) (index : Nat) :
    (queueMarkNth usable queue u index).Within R K fun _ => True := by
  unfold queueMarkNth
  cases hfind : xmqConsumerExist queue u with
  | none => trivial
  | some consumer =>
    obtain ⟨hid, htake⟩ := xmqConsumerExist_short h hfind
    have hmem : consumer.identity ∈ U := by rwa [hid, ← htake]
    dsimp only
    split
    · trivial
    · refine KvProgram.Within.lift_bind fun key hkey => ?_
      obtain rfl : key = markposKey queue.name consumer.identity := stringAppend3rd_ok hkey
      have hkey : markposKey queue.name consumer.identity ∈ userKeys q U :=
        .inr (.inr ⟨_, hmem, .inr (by rw [h.name_eq])⟩)
      refine ⟨fun p hp => ?_, fun _ => trivial⟩
      rw [mem_singleton.mp hp]
      exact hK hkey

theorem queueMarkNext_within (h : QueueOk usable q n queue) (hK : userKeys q U ⊆ K)
    (hu : u.take 255 ∈ U) : (queueMarkNext usable queue u).Within R K fun _ => True := by
  unfold queueMarkNext
  split
  · trivial
  · exact queueMarkNth_within h hK hu _

--
-- The footprint of a call
--

/-- The call is a push that gets past its producer. -/
def Call.lands (found : Option Queue) : Call → Prop
  | .pushTail _ pid _ => ∃ queue, found = some queue ∧ xmqProducerExist queue pid ≠ none
  | _ => False

/-- The call may change the capacity of its queue. -/
def Call.moves : Call → Prop
  | .openQueue _ _ => True
  | .pushTail _ _ _ => True
  | _ => False

/-- The call adds a queue to the list of queues. -/
def Call.creates (found : Option Queue) : Call → Prop
  | .openQueue _ _ => found = none
  | _ => False

instance (found : Option Queue) : (call : Call) → Decidable (call.lands found)
  | .pushTail _ pid _ =>
    decidable_of_iff (∃ queue ∈ found, xmqProducerExist queue pid ≠ none) Iff.rfl
  | .openQueue .. | .closeQueue .. | .registerAsProducer .. | .unregisterProducer ..
  | .registerAsConsumer .. | .unregisterConsumer .. | .fetchNth .. | .fetchNext ..
  | .fetchPos .. | .markNth .. | .markNext .. | .markPos .. | .lists .. => isFalse id

instance (found : Option Queue) : (call : Call) → Decidable (call.creates found)
  | .openQueue .. => decidable_of_iff (found.isNone = true) Option.isNone_iff_eq_none
  | .pushTail .. | .closeQueue .. | .registerAsProducer .. | .unregisterProducer ..
  | .registerAsConsumer .. | .unregisterConsumer .. | .fetchNth .. | .fetchNext ..
  | .fetchPos .. | .markNth .. | .markNext .. | .markPos .. | .lists .. => isFalse id

theorem Call.moves_of_lands {call : Call} (h : call.lands found) : call.moves := by
  cases call with
  | pushTail => trivial
  | _ => cases h

theorem withQueue_within {q : Bytes} {P : Prop} (h : FoundOk usable q found) {absent : Prog Out}
    {f : Queue → Prog (Out × Queue)} (habsent : absent.Within R K fun _ => True)
    (hf : ∀ queue, found = some queue → QueueOk usable q queue.msgCapacity queue →
      (f queue).Within R K fun r => QueueOk usable q queue.msgCapacity r.2) :
    (withQueue found absent f).Within R K fun r => FoundOk usable q r.2 ∧
      (P → r.2.map (·.msgCapacity) = found.map (·.msgCapacity)) := by
  cases found with
  | none => exact KvProgram.Within.bind habsent fun _ _ => ⟨nofun, fun _ => rfl⟩
  | some queue =>
    refine KvProgram.Within.bind (hf queue rfl (h queue rfl)) fun r hr =>
      ⟨FoundOk.some hr, fun _ => ?_⟩
    exact congrArg some hr.capacity_eq

/-- **Footprint.** What a call on `q` may read and write: the records of `q`
with the positions of the consumer it names, the messages up to the capacity in
memory, any message when it is a push, and the list of queues when it creates
the queue. Only opening and pushing move the capacity. -/
theorem localStep_within {call : Call} (h : FoundOk usable call.queue found) {U : Set Bytes}
    (hU : ∀ u, call.user = some u → u ∈ U) (hR : ownKeys call.queue U ⊆ R)
    (hK : userKeys call.queue U ⊆ K)
    (hread : ∀ queue, found = some queue → messageKeys queue.msgCapacity ⊆ R)
    (hmoves : call.moves → capacityKey call.queue ∈ K) (hpush : call.lands found → ∀ i, le64 i ∈ K)
    (hqueues : call.creates found → queuesKey ∈ R ∧ queuesKey ∈ K) :
    (localStep usable found call).Within R K fun r => FoundOk usable call.queue r.2 ∧
      (¬ call.moves → r.2.map (·.msgCapacity) = found.map (·.msgCapacity)) := by
  have hR' : userKeys call.queue U ⊆ R := fun key hkey => hR (.inr hkey)
  cases call with
  | openQueue q flag =>
    exact KvProgram.Within.bind (xmqQueueOpen_within h hR (hmoves trivial) hqueues flag)
      fun r hr => ⟨hr, fun hsteady => absurd trivial hsteady⟩
  | pushTail q pid msg =>
    cases found with
    | none => exact ⟨nofun, fun _ => rfl⟩
    | some queue =>
      refine KvProgram.Within.bind (P := fun r : Out × Queue => FoundOk usable q (some r.2)) ?_
        fun r hr => ⟨hr, fun hsteady => absurd trivial hsteady⟩
      refine KvProgram.Within.bind (queuePushTail_within (h queue rfl) (hR (.inl rfl))
        (hmoves trivial) msg fun hexist => hpush ⟨queue, rfl, hexist⟩) fun r hr => ?_
      exact FoundOk.some hr
  | closeQueue q =>
    refine withQueue_within h trivial fun queue hf hq => ?_
    unfold xmqQueueClose
    split
    · exact hq
    · split
      · exact hq
      · split
        · exact hq
        · refine ⟨hq.name_eq, hq.capacity_eq, fun c hc => hq.short c ?_, hq.fits⟩
          exact mem_append_left _ (by simpa using hc)
  | registerAsProducer q identity =>
    refine withQueue_within h trivial fun queue hf hq => ?_
    exact KvProgram.Within.bind (xmqRegisterAsProducer_within hq hR' hK identity)
      fun r hr => hr
  | unregisterProducer q identity =>
    refine withQueue_within h trivial fun queue hf hq => ?_
    unfold xmqUnregisterProducer
    split
    · exact hq
    · split
      · exact hq
      · exact ⟨hq.name_eq, hq.capacity_eq, hq.short, hq.fits⟩
  | registerAsConsumer q identity =>
    refine withQueue_within h trivial fun queue hf hq => ?_
    exact KvProgram.Within.bind (xmqRegisterAsConsumer_within hq hR' hK (hU _ rfl))
      fun r hr => hr
  | unregisterConsumer q identity =>
    refine withQueue_within h trivial fun queue hf hq => ?_
    unfold xmqUnregisterConsumer
    split
    · exact hq
    · split
      · exact hq
      · next consumer hfind =>
        refine ⟨hq.name_eq, hq.capacity_eq, fun c hc => hq.short c ?_,
          fun c hc => hq.fits c (mem_of_mem_eraseP hc)⟩
        rcases mem_append.mp hc with hc | hc
        · exact mem_append_left _ (mem_of_mem_eraseP hc)
        · rcases mem_append.mp hc with hc | hc
          · exact mem_append_right _ hc
          · rw [mem_singleton.mp hc]
            exact mem_append_left _ (mem_of_find?_eq_some hfind)
  | fetchNth q u index millis =>
    refine withQueue_within h trivial fun queue hf hq => ?_
    exact KvProgram.Within.bind
      (queueFetchNth_within hq hK (hread queue hf) (hU _ rfl) index millis)
      fun r hr => hr
  | fetchNext q u millis =>
    refine withQueue_within h trivial fun queue hf hq => ?_
    exact KvProgram.Within.bind
      (queueFetchNext_within hq hK (hread queue hf) (hU _ rfl) millis) fun r hr => hr
  | fetchPos q u => exact withQueue_within h trivial fun queue hf hq => hq
  | markNth q u index =>
    refine withQueue_within h trivial fun queue hf hq => ?_
    exact KvProgram.Within.bind (queueMarkNth_within hq hK (hU _ rfl) index)
      fun _ _ => hq
  | markNext q u =>
    refine withQueue_within h trivial fun queue hf hq => ?_
    exact KvProgram.Within.bind (queueMarkNext_within hq hK (hU _ rfl))
      fun _ _ => hq
  | markPos q u => exact withQueue_within h trivial fun queue hf hq => hq
  | lists q => exact withQueue_within h trivial fun queue hf hq => hq

end Footprint

end Supex.Mixmq
