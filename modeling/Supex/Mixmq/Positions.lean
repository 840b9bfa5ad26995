import Supex.Mixmq.Capacity

/-!
# libmixmq — the positions of a consumer

A consumer has a fetch position and a mark, each kept twice: in the consumer
and under a key of the store.

`queue_fetch_nth` hands the result of `__msg_fetch` on when it is `NULL`, but
takes its other error, `(xmq_msg_t *)-1`, for a message: it writes the position
and moves it. `queue_mark_nth` writes the mark and returns the one in memory,
which it never moves.

Main results: `fetch_atomic_iff`, `register_coherent`, `marks_right_iff`.
-/

namespace Supex.Mixmq

open List Lib.KvProgram

open Lib (KvProgram FaithfulMedium LawfulMedium putAll)

section Positions

variable {W : Type} {m : Medium W} {view : W → Store} {usable : Nat → Nat}

--
-- Runs
--

theorem run_uint64Write (key : Bytes) (n : Nat) (w : W) :
    (uint64Write key n).run m w = .ok (m.putKVs [(key, le64 n)] w) := by
  have hu : u32 (le64 n).length = 8 := by
    rw [le64_length]
    rfl
  have htake : (le64 n).take 8 = le64 n := take_of_length_le (le64_length n).le
  rw [uint64Write, writeStringBin, hu, if_neg (by decide), htake]
  rfl

theorem view_put (hm : FaithfulMedium m view) {key value : Bytes} {w : W}
    (hput : (m.putKVs [(key, value)] w).1 = true) :
    view (m.putKVs [(key, value)] w).2 key = some value := by
  rw [hm.put_ok _ _ hput]
  exact Function.update_self ..

--
-- The consumer of a call
--

variable {queue : Queue} {cid : Bytes} {consumer : Consumer}

theorem identity_of_exist (h : xmqConsumerExist queue cid = some consumer) :
    consumer.identity = cid := by
  rw [xmqConsumerExist, Option.or_eq_some_iff] at h
  rcases h with h | ⟨-, h⟩
  · simpa using find?_some h
  · simpa using find?_some h

theorem find?_set_findIdx {l : List Consumer} (hsome : (l.find? (·.identity = cid)).isSome)
    (hid : consumer.identity = cid) :
    (l.set (l.findIdx (·.identity = cid)) consumer).find? (·.identity = cid) = some consumer := by
  induction l with
  | nil => simp at hsome
  | cons c l ih =>
    by_cases hc : c.identity = cid
    · rw [findIdx_cons, decide_eq_true hc]
      simp [hid]
    · rw [find?_cons, decide_eq_false hc] at hsome
      rw [findIdx_cons, decide_eq_false hc]
      simp only [cond_false, set_cons_succ, find?_cons, hc, decide_false]
      exact ih hsome

theorem exist_setConsumer {consumer' : Consumer} (h : xmqConsumerExist queue cid = some consumer)
    (hid : consumer'.identity = cid) :
    xmqConsumerExist (setConsumer queue cid consumer') cid = some consumer' := by
  unfold setConsumer
  by_cases hactive : (queue.activeConsumers.find? (·.identity = cid)).isSome
  · rw [if_pos hactive, xmqConsumerExist, find?_set_findIdx hactive hid]
    rfl
  · have hnone : queue.activeConsumers.find? (·.identity = cid) = none := by
      simpa using hactive
    rw [xmqConsumerExist, hnone, Option.none_or] at h
    rw [if_neg hactive, xmqConsumerExist, hnone, Option.none_or,
      find?_set_findIdx (by rw [h]; rfl) hid]

--
-- Fetching
--

/-- `__msg_fetch` fails: there is no message 0, the record cannot be read, or
its length field does not fit it. -/
def Unreadable (m : Medium W) (index : Nat) (w : W) : Prop :=
  index = 0 ∨ m.getKVs (le64 index) w = none ∨
    ∃ value, m.getKVs (le64 index) w = some (some value) ∧ 16 ≤ value.length ∧
      (16 + leVal ((value.drop 8).take 8)) % u64Size ≠ value.length

theorem msgFetch_run {index : Nat} (hle : index ≤ queue.msgCapacity) (w : W) :
    ((msgFetch queue index).run m w = .ok (.error, w) ∧ Unreadable m index w) ∨
      (((msgFetch queue index).run m w = .error .memory ∨
        ∃ bytes, (msgFetch queue index).run m w = .ok (.msg bytes, w)) ∧
          ¬Unreadable m index w) := by
  unfold msgFetch
  by_cases hzero : index = 0
  · left
    rw [if_pos (.inl hzero)]
    exact ⟨rfl, .inl hzero⟩
  rw [if_neg (by omega)]
  have hget : ∀ r, m.getKVs (le64 index) w = r →
      (Lib.KvProgram.get (le64 index) .ret : Prog _).run m w = .ok (r, w) := by
    rintro r rfl
    rfl
  rcases hr : m.getKVs (le64 index) w with - | - | value
  · left
    rw [run_do, hget _ hr]
    exact ⟨rfl, .inr (.inl hr)⟩
  · right
    rw [run_do, hget _ hr]
    refine ⟨.inl rfl, ?_⟩
    rintro (h | h | ⟨v, h, -⟩)
    · exact hzero h
    · rw [hr] at h
      exact nomatch h
    · rw [hr] at h
      exact nomatch h
  · rw [run_do, hget _ hr]
    dsimp only
    have hgood : value.length < 16 ∨
        (16 + leVal ((value.drop 8).take 8)) % u64Size = value.length → ¬Unreadable m index w := by
      rintro hvalue (h | h | ⟨v, h, hlong, hne⟩)
      · exact hzero h
      · rw [hr] at h
        exact nomatch h
      · rw [hr, Option.some.injEq, Option.some.injEq] at h
        subst h
        rcases hvalue with hshort | hsize
        · omega
        · exact hne hsize
    by_cases hshort : value.length < 16
    · right
      rw [if_pos hshort]
      exact ⟨.inl rfl, hgood (.inl hshort)⟩
    · rw [if_neg hshort]
      by_cases hsize : (16 + leVal ((value.drop 8).take 8)) % u64Size = value.length
      · right
        rw [if_neg (not_not.mpr hsize)]
        exact ⟨.inr ⟨value, rfl⟩, hgood (.inr hsize)⟩
      · left
        rw [if_pos hsize]
        exact ⟨rfl, .inr (.inr ⟨value, hr, by omega, hsize⟩)⟩

/-- A fetch that returns the message with the given number has moved both
positions to it; a fetch that returns `NULL` or `-1` has moved neither. -/
def FetchAtomic (m : Medium W) (view : W → Store) (usable : Nat → Nat) (queue : Queue)
    (cid : Bytes) (index millis : Nat) (w : W) : Prop :=
  ∀ r queue' w', (queueFetchNth usable queue cid index millis).run m w = .ok ((r, queue'), w') →
    match r with
    | .msg _ => view w' (fetchposKey queue.name cid) = some (le64 index) ∧
        queueFetchPos queue' cid = index
    | _ => view w' (fetchposKey queue.name cid) = view w (fetchposKey queue.name cid) ∧
        queueFetchPos queue' cid = queueFetchPos queue cid

/-- The position is not written behind an unreadable record, or both positions
are at it already. -/
def FetchClean (m : Medium W) (view : W → Store) (usable : Nat → Nat) (queue : Queue)
    (cid : Bytes) (index : Nat) (w : W) : Prop :=
  ∀ consumer, xmqConsumerExist queue cid = some consumer → index ≤ queue.msgCapacity →
    Unreadable m index w →
    getKeyOfFetchpos usable queue.name cid = .ok (fetchposKey queue.name cid) →
    (m.putKVs [(fetchposKey queue.name cid, le64 index)] w).1 = true →
    view w (fetchposKey queue.name cid) = some (le64 index) ∧ consumer.lastFetchIndex = index

theorem queueFetchNth_run {index : Nat} (hexist : xmqConsumerExist queue cid = some consumer)
    (hle : index ≤ queue.msgCapacity) (millis : Nat) {w : W} {r : Fetched}
    (hfetch : (msgFetch queue index).run m w = .ok (r, w)) :
    (queueFetchNth usable queue cid index millis).run m w =
      match getKeyOfFetchpos usable queue.name cid with
      | .error e => .error e
      | .ok key =>
        if (m.putKVs [(key, le64 index)] w).1 then
          .ok ((r, setConsumer queue cid { consumer with lastFetchIndex := index }),
            (m.putKVs [(key, le64 index)] w).2)
        else if r = .error then .error .memory
        else .ok ((.error, queue), (m.putKVs [(key, le64 index)] w).2) := by
  unfold queueFetchNth
  rw [hexist]
  dsimp only
  rw [if_neg (by omega), run_do, hfetch]
  rw [identity_of_exist hexist]
  cases getKeyOfFetchpos usable queue.name cid with
  | error e => rfl
  | ok key =>
    show ((uint64Write key index >>= _ : Prog _)).run m w = _
    rw [run_do, run_uint64Write]
    dsimp only
    split
    · rfl
    · split <;> rfl

/-- **Fetching.** A fetch is atomic if and only if it does not write the
position behind an unreadable record, or does not move it there. -/
theorem fetch_atomic_iff (hm : FaithfulMedium m view) (usable : Nat → Nat) (queue : Queue)
    (cid : Bytes) (index millis : Nat) (w : W) :
    FetchAtomic m view usable queue cid index millis w ↔
      FetchClean m view usable queue cid index w := by
  rcases hexist : xmqConsumerExist queue cid with - | consumer
  · -- there is no such consumer
    constructor
    · intro _ consumer hsome
      rw [hexist] at hsome
      exact nomatch hsome
    · intro _ r queue' w' hrun
      unfold queueFetchNth at hrun
      rw [hexist] at hrun
      obtain ⟨rfl, rfl, rfl⟩ := ok_inj hrun
      exact ⟨rfl, rfl⟩
  have hpos : ∀ c, xmqConsumerExist queue cid = some c →
      queueFetchPos queue cid = c.lastFetchIndex := by
    intro c hc
    rw [queueFetchPos, hc]
  by_cases hle : index ≤ queue.msgCapacity
  · have hmoved : queueFetchPos (setConsumer queue cid { consumer with lastFetchIndex := index })
        cid = index := by
      have hid : ({ consumer with lastFetchIndex := index } : Consumer).identity = cid := by
        dsimp only
        exact identity_of_exist hexist
      rw [queueFetchPos, exist_setConsumer hexist hid]
    have hkey : ∀ key, getKeyOfFetchpos usable queue.name cid = .ok key →
        key = fetchposKey queue.name cid := fun key h => stringAppend3rd_ok h
    rcases @msgFetch_run W m queue index hle w with ⟨hfetch, hbad⟩ | ⟨hfetch, hgood⟩
    · -- the record is unreadable, and its error taken for a message
      have hrun := @queueFetchNth_run W m usable queue cid consumer index hexist hle millis w _
        hfetch
      constructor
      · intro hatomic c hc _ _ hfits hput
        obtain rfl : consumer = c := Option.some.inj (hexist.symm.trans hc)
        rw [hfits] at hrun
        dsimp only at hrun
        rw [if_pos hput] at hrun
        obtain ⟨hstored, hmem⟩ := hatomic _ _ _ hrun
        rw [view_put hm hput] at hstored
        rw [hmoved, hpos _ hexist] at hmem
        exact ⟨hstored.symm, hmem.symm⟩
      · intro hclean r queue' w' hrun'
        rw [hrun] at hrun'
        rcases hfits : getKeyOfFetchpos usable queue.name cid with e | key
        · rw [hfits] at hrun'
          exact nomatch hrun'
        · obtain rfl := hkey key hfits
          rw [hfits] at hrun'
          dsimp only at hrun'
          rcases hput : (m.putKVs [(fetchposKey queue.name cid, le64 index)] w).1 with - | -
          · rw [hput, if_neg (by decide), if_pos rfl] at hrun'
            exact nomatch hrun'
          · rw [hput, if_pos rfl] at hrun'
            obtain ⟨rfl, rfl, rfl⟩ := ok_inj hrun'
            obtain ⟨hstored, hmem⟩ := hclean consumer hexist hle hbad hfits hput
            refine ⟨?_, ?_⟩
            · rw [view_put hm hput, hstored]
            · rw [hmoved, hpos _ hexist, hmem]
    · constructor
      · intro _ c _ _ hbad
        exact absurd hbad hgood
      · intro _ r queue' w' hrun
        rcases hfetch with hfetch | ⟨bytes, hfetch⟩
        · -- the call does not return
          unfold queueFetchNth at hrun
          rw [hexist] at hrun
          dsimp only at hrun
          rw [if_neg (by omega), run_do, hfetch] at hrun
          exact nomatch hrun
        · rw [queueFetchNth_run hexist hle millis hfetch] at hrun
          rcases hfits : getKeyOfFetchpos usable queue.name cid with e | key
          · rw [hfits] at hrun
            exact nomatch hrun
          · obtain rfl := hkey key hfits
            rw [hfits] at hrun
            dsimp only at hrun
            rcases hput : (m.putKVs [(fetchposKey queue.name cid, le64 index)] w).1 with - | -
            · rw [hput, if_neg (by decide), if_neg (by nofun)] at hrun
              obtain ⟨rfl, rfl, rfl⟩ := ok_inj hrun
              exact ⟨by rw [hm.put_fail _ _ hput], rfl⟩
            · rw [hput, if_pos rfl] at hrun
              obtain ⟨rfl, rfl, rfl⟩ := ok_inj hrun
              exact ⟨view_put hm hput, hmoved⟩
  · -- the message is not there yet
    constructor
    · intro _ c _ hle'
      exact absurd hle' hle
    · intro _ r queue' w' hrun
      unfold queueFetchNth at hrun
      rw [hexist] at hrun
      dsimp only at hrun
      rw [if_pos (by omega)] at hrun
      split at hrun
      · exact nomatch hrun
      · obtain ⟨rfl, rfl, rfl⟩ := ok_inj hrun
        exact ⟨rfl, rfl⟩

--
-- Marking
--

/-- A mark of a consumer. -/
inductive MarkCall where
  | nth (index : Fin u64Size)
  | next

/-- The message a call is to mark, if the mark is at `pos`. -/
def MarkCall.index (pos : Nat) : MarkCall → Nat
  | .nth index => index
  | .next => (pos + 1) % u64Size

/-- The call as the code makes it; it returns a number, and no other queue. -/
def markCall (usable : Nat → Nat) (queue : Queue) (cid : Bytes) : MarkCall → Prog Nat
  | .nth index => queueMarkNth usable queue cid index
  | .next => queueMarkNext usable queue cid

/-- From the mark `pos` on, before and after every call: `queue_mark_pos` and
the record in the store are the last mark; and every call within the capacity
returns the mark before it, every other one `(uint64_t)-1`. -/
def MarksRight (m : Medium W) (view : W → Store) (usable : Nat → Nat) (queue : Queue)
    (cid : Bytes) : W → Nat → List MarkCall → Prop
  | w, pos, [] =>
    queueMarkPos queue cid = pos ∧ view w (markposKey queue.name cid) = some (le64 pos)
  | w, pos, call :: calls =>
    (queueMarkPos queue cid = pos ∧ view w (markposKey queue.name cid) = some (le64 pos)) ∧
      ∃ n w', (markCall usable queue cid call).run m w = .ok (n, w') ∧
        if call.index pos ≤ queue.msgCapacity then
          n = pos ∧ MarksRight m view usable queue cid w' (call.index pos) calls
        else n = u64Size - 1 ∧ MarksRight m view usable queue cid w' pos calls

/-- Every call within the capacity marks the position the consumer was loaded
with, under a key that fits its block. -/
def MarksStay (usable : Nat → Nat) (queue : Queue) (cid : Bytes) (pos : Nat)
    (calls : List MarkCall) : Prop :=
  ∀ call ∈ calls, call.index pos ≤ queue.msgCapacity → call.index pos = pos ∧
    getKeyOfMarkpos usable queue.name cid = .ok (markposKey queue.name cid)

/-- **One mark.** It writes the position and returns the one in memory. -/
theorem markCall_run (hm : LawfulMedium m view)
    (hexist : xmqConsumerExist queue cid = some consumer) (call : MarkCall) (w : W) :
    if call.index consumer.lastMarkIndex ≤ queue.msgCapacity then
      match getKeyOfMarkpos usable queue.name cid with
      | .error e => (markCall usable queue cid call).run m w = .error e
      | .ok _ => ∃ w',
          (markCall usable queue cid call).run m w = .ok (consumer.lastMarkIndex, w') ∧
          view w' (markposKey queue.name cid) =
            some (le64 (call.index consumer.lastMarkIndex))
    else (markCall usable queue cid call).run m w = .ok (u64Size - 1, w) := by
  have hnth : ∀ index, markCall usable queue cid call = queueMarkNth usable queue cid index →
      call.index consumer.lastMarkIndex = index →
      if call.index consumer.lastMarkIndex ≤ queue.msgCapacity then
        match getKeyOfMarkpos usable queue.name cid with
        | .error e => (markCall usable queue cid call).run m w = .error e
        | .ok _ => ∃ w',
            (markCall usable queue cid call).run m w = .ok (consumer.lastMarkIndex, w') ∧
            view w' (markposKey queue.name cid) =
              some (le64 (call.index consumer.lastMarkIndex))
      else (markCall usable queue cid call).run m w = .ok (u64Size - 1, w) := by
    intro index hcall hindex
    rw [hcall, hindex]
    unfold queueMarkNth
    rw [hexist]
    dsimp only
    split
    · next hle =>
      rw [if_neg (by omega), identity_of_exist hexist]
      rcases hkey : getKeyOfMarkpos usable queue.name cid with e | key
      · rfl
      · obtain rfl : key = markposKey queue.name cid := stringAppend3rd_ok hkey
        obtain ⟨w', hput, hview⟩ := hm.put [(markposKey queue.name cid, le64 index)] w
        refine ⟨w', ?_, ?_⟩
        · show ((KvProgram.put [(markposKey queue.name cid, le64 index)] .ret >>= _ : Prog _)).run
            m w = _
          rw [run_do]
          have hrun : (KvProgram.put [(markposKey queue.name cid, le64 index)] .ret :
              Prog Bool).run m w = .ok (true, w') := by
            rw [KvProgram.run, hput]
            rfl
          rw [hrun]
          rfl
        · rw [hview]
          exact Function.update_self ..
    · next hgt =>
      rw [if_pos (by omega)]
      rfl
  cases call with
  | nth index => exact hnth index rfl rfl
  | next =>
    apply hnth ((consumer.lastMarkIndex + 1) % u64Size) _ rfl
    rw [markCall, queueMarkNext, hexist]

/-- **Marking.** A run of marks is right if and only if the record is the mark
in memory to begin with, and every call within the capacity marks just that. -/
theorem marks_right_iff (hm : LawfulMedium m view) (usable : Nat → Nat) (queue : Queue)
    (cid : Bytes) (consumer : Consumer) (hexist : xmqConsumerExist queue cid = some consumer)
    (calls : List MarkCall) (w : W) :
    MarksRight m view usable queue cid w consumer.lastMarkIndex calls ↔
      view w (markposKey queue.name cid) = some (le64 consumer.lastMarkIndex) ∧
        MarksStay usable queue cid consumer.lastMarkIndex calls := by
  have hpos : queueMarkPos queue cid = consumer.lastMarkIndex := by
    rw [queueMarkPos, hexist]
  induction calls generalizing w with
  | nil =>
    rw [MarksRight, hpos]
    constructor
    · rintro ⟨-, hview⟩
      exact ⟨hview, nofun⟩
    · rintro ⟨hview, -⟩
      exact ⟨rfl, hview⟩
  | cons call calls ih =>
    have hcall := @markCall_run W m view usable queue cid consumer hm hexist call w
    rw [MarksRight, hpos]
    by_cases hle : call.index consumer.lastMarkIndex ≤ queue.msgCapacity
    · rw [if_pos hle] at hcall
      constructor
      · rintro ⟨⟨-, hview⟩, n, w', hrun, hrest⟩
        rw [if_pos hle] at hrest
        -- the mark in memory has not moved, so the next one is where it was
        have hstays : call.index consumer.lastMarkIndex = consumer.lastMarkIndex := by
          have hagain : queueMarkPos queue cid = call.index consumer.lastMarkIndex := by
            rcases calls with - | ⟨call', calls⟩
            · exact hrest.2.1
            · exact hrest.2.1.1
          rw [← hagain, hpos]
        rw [hstays] at hrest
        have hlater := (ih w').mp hrest.2
        refine ⟨hview, ?_⟩
        intro call' hmem hle'
        rcases mem_cons.mp hmem with rfl | hmem
        · refine ⟨hstays, ?_⟩
          rcases hkey : getKeyOfMarkpos usable queue.name cid with e | key
          · rw [hkey] at hcall
            rw [hcall] at hrun
            exact nomatch hrun
          · rw [← show key = markposKey queue.name cid from stringAppend3rd_ok hkey]
        · exact hlater.2 call' hmem hle'
      · rintro ⟨hview, hstay⟩
        obtain ⟨hstays, hkey⟩ := hstay call (.head _) hle
        rw [hkey] at hcall
        obtain ⟨w', hrun, hview'⟩ := hcall
        refine ⟨⟨rfl, hview⟩, _, w', hrun, ?_⟩
        rw [if_pos hle, hstays]
        rw [hstays] at hview'
        have hlater := fun call' hmem => hstay call' (.tail _ hmem)
        exact ⟨rfl, (ih w').mpr ⟨hview', hlater⟩⟩
    · rw [if_neg hle] at hcall
      constructor
      · rintro ⟨⟨-, hview⟩, n, w', hrun, hrest⟩
        rw [if_neg hle] at hrest
        have hlater := (ih w').mp hrest.2
        refine ⟨hview, ?_⟩
        intro call' hmem hle'
        rcases mem_cons.mp hmem with rfl | hmem
        · exact absurd hle' hle
        · exact hlater.2 call' hmem hle'
      · rintro ⟨hview, hstay⟩
        refine ⟨⟨rfl, hview⟩, _, w, hcall, ?_⟩
        rw [if_neg hle]
        have hlater := fun call' hmem => hstay call' (.tail _ hmem)
        exact ⟨rfl, (ih w).mpr ⟨hview, hlater⟩⟩

--
-- Registration
--

theorem run_uint64TestInit (key : Bytes) (cur : Nat) (w : W) :
    (uint64TestInit key cur 0).run m w =
      match m.getKVs key w with
      | none => .ok ((false, cur), w)
      | some none => .ok (((m.putKVs [(key, le64 0)] w).1, 0), (m.putKVs [(key, le64 0)] w).2)
      | some (some value) =>
        if value.length = 8 then .ok ((true, leVal value), w) else .ok ((false, cur), w) := by
  have hread : (uint64Read key).run m w =
      .ok (match m.getKVs key w with
        | none => none
        | some none => some none
        | some (some value) =>
          if value.length = 8 then some (some (leVal value)) else none, w) := by
    unfold uint64Read loadStringBin
    rw [run_do, KvProgram.run]
    rcases m.getKVs key w with - | - | value <;> rfl
  unfold uint64TestInit
  rw [run_do, hread]
  rcases m.getKVs key w with - | - | value
  · rfl
  · dsimp only
    rw [run_do, run_uint64Write]
    rfl
  · dsimp only
    by_cases hlen : value.length = 8
    · rw [if_pos hlen, if_pos hlen]
      rfl
    · rw [if_neg hlen, if_neg hlen]
      rfl

theorem uint64TestInit_stored (hm : FaithfulMedium m view) {key : Bytes} {cur n : Nat} {w w' : W}
    (h : (uint64TestInit key cur 0).run m w = .ok ((true, n), w')) :
    view w' key = some (le64 n) := by
  rw [run_uint64TestInit] at h
  rcases hr : m.getKVs key w with - | - | value
  · rw [hr] at h
    exact nomatch h
  · rw [hr] at h
    obtain ⟨hput, rfl, rfl⟩ := ok_inj h
    exact view_put hm hput
  · rw [hr] at h
    dsimp only at h
    by_cases hlen : value.length = 8
    · rw [if_pos hlen] at h
      obtain ⟨-, rfl, rfl⟩ := ok_inj h
      rw [le64_leVal hlen]
      exact (hm.get _ _ _ hr).symm
    · rw [if_neg hlen] at h
      exact nomatch h

/-- **Registration.** A consumer that becomes active has its mark loaded: the
one in memory is the one in the store. -/
theorem register_coherent (hm : FaithfulMedium m view) {queue' : Queue} (hshort : cid.length ≤ 255)
    (hidle : queue.activeConsumers.find? (·.identity = cid) = none) {w w' : W}
    (h : (xmqRegisterAsConsumer usable queue cid).run m w = .ok ((true, queue'), w')) :
    ∃ consumer, xmqConsumerExist queue' cid = some consumer ∧
      view w' (markposKey queue'.name cid) = some (le64 consumer.lastMarkIndex) := by
  have hexist : ∀ q : Queue, ∀ consumer : Consumer,
      q.activeConsumers = queue.activeConsumers ++ [consumer] → consumer.identity = cid →
      xmqConsumerExist q cid = some consumer := by
    intro q consumer hq hid
    rw [xmqConsumerExist, hq, find?_append, hidle]
    simp [hid]
  unfold xmqRegisterAsConsumer at h
  split at h
  · exact nomatch h
  · rw [if_neg (by rw [hidle]; decide)] at h
    split at h
    · next consumer hdead =>
      have hid : consumer.identity = cid := by simpa using find?_some hdead
      obtain ⟨fetchKey, w₁, -, h⟩ := run_do_ok h
      obtain ⟨⟨ok, fetchIndex⟩, w₂, -, h⟩ := run_do_ok h
      cases ok with
      | false => exact nomatch h
      | true =>
        obtain ⟨markKey, w₃, hkey, h⟩ := run_do_ok h
        obtain ⟨⟨ok, markIndex⟩, w₄, hmark, h⟩ := run_do_ok h
        cases ok with
        | false => exact nomatch h
        | true =>
          obtain ⟨-, rfl, rfl⟩ := ok_inj h
          have hmarkKey : markKey = markposKey queue.name cid := by
            rw [← hid]
            exact stringAppend3rd_ok (run_lift_ok hkey).1
          rw [hmarkKey] at hmark
          exact ⟨_, hexist _ _ rfl hid, uint64TestInit_stored hm hmark⟩
    · obtain ⟨key, w₁, -, h⟩ := run_do_ok h
      obtain ⟨ok, w₂, -, h⟩ := run_do_ok h
      cases ok with
      | false => exact nomatch h
      | true =>
        obtain ⟨fetchKey, w₃, -, h⟩ := run_do_ok h
        obtain ⟨ok, w₄, -, h⟩ := run_do_ok h
        cases ok with
        | false => exact nomatch h
        | true =>
          obtain ⟨markKey, w₅, hkey, h⟩ := run_do_ok h
          obtain ⟨ok, w₆, hmark, h⟩ := run_do_ok h
          cases ok with
          | false => exact nomatch h
          | true =>
            obtain ⟨-, rfl, rfl⟩ := ok_inj h
            have htake : cid.take 255 = cid := take_of_length_le hshort
            have hmarkKey : markKey = markposKey queue.name cid := by
              have hbuilt := stringAppend3rd_ok (run_lift_ok hkey).1
              rw [htake] at hbuilt
              exact hbuilt
            rw [hmarkKey, run_uint64Write] at hmark
            obtain ⟨hput, hw⟩ := Prod.mk.inj (Except.ok.inj hmark)
            refine ⟨_, hexist _ _ rfl htake, ?_⟩
            rw [← hw]
            exact view_put hm hput

end Positions

--
-- A consumer at its first message
--

/-- An open queue of one message, with a consumer that has read and marked it. -/
def readQueue : Queue :=
  ⟨ascii "q", true, 1, 0, [], [⟨ascii "c", 0, 1, 1⟩], [], [], 0, 1⟩

/-- Its store. -/
def readStore : List (Bytes × Bytes) :=
  [(fetchposKey (ascii "q") (ascii "c"), le64 1), (markposKey (ascii "q") (ascii "c"), le64 1),
    (le64 1, (sampleMsg 7).bytes 1)]

theorem register_coherent_fresh : ∃ w consumer queue',
    xmqConsumerExist queue' [100] = some consumer ∧
      Lib.pairsView w (markposKey queue'.name [100]) = some (le64 consumer.lastMarkIndex) :=
  have h : (xmqRegisterAsConsumer glibcUsable readQueue [100]).run Lib.pairsMedium readStore = _ :=
    rfl
  ⟨_, (register_coherent Lib.pairsMedium_lawful.faithful (by decide) (by decide) h).imp
    fun _ h => ⟨_, h⟩⟩

/-- It reads its message again. -/
theorem fetch_atomic_read :
    FetchAtomic Lib.pairsMedium Lib.pairsView glibcUsable readQueue (ascii "c") 1 0 readStore := by
  refine (fetch_atomic_iff Lib.pairsMedium_lawful.faithful glibcUsable readQueue (ascii "c") 1 0
    readStore).mpr ?_
  intro consumer _ _ hbad
  have hget : Lib.pairsMedium.getKVs (le64 1) readStore = some (some ((sampleMsg 7).bytes 1)) := by
    decide
  rcases hbad with h | h | ⟨value, h, -, hsize⟩
  · exact nomatch h
  · rw [hget] at h
    exact nomatch h
  · rw [hget, Option.some.injEq, Option.some.injEq] at h
    subst h
    exact absurd (by decide) hsize

/-- Asked for the message 0, it fails, and moves to it. -/
theorem not_fetch_atomic_zero :
    ¬FetchAtomic Lib.pairsMedium Lib.pairsView glibcUsable readQueue (ascii "c") 0 0 readStore := by
  intro h
  have hrun : (queueFetchNth glibcUsable readQueue (ascii "c") 0 0).run Lib.pairsMedium readStore =
      .ok ((.error, setConsumer readQueue (ascii "c") ⟨ascii "c", 0, 0, 1⟩),
        (fetchposKey (ascii "q") (ascii "c"), le64 0) :: readStore) := rfl
  obtain ⟨-, hmem⟩ := h _ _ _ hrun
  revert hmem
  decide

/-- It marks its message again, and one behind the capacity. -/
theorem marks_right_again :
    MarksRight Lib.pairsMedium Lib.pairsView glibcUsable readQueue (ascii "c") readStore 1
      [.nth ⟨1, by decide⟩, .next] := by
  have hexist : xmqConsumerExist readQueue (ascii "c") = some ⟨ascii "c", 0, 1, 1⟩ := by decide
  refine (marks_right_iff Lib.pairsMedium_lawful glibcUsable readQueue (ascii "c")
    ⟨ascii "c", 0, 1, 1⟩ hexist [.nth ⟨1, by decide⟩, .next] readStore).mpr ⟨by decide, ?_⟩
  intro call hmem hle
  rcases mem_cons.mp hmem with rfl | hmem
  · exact ⟨rfl, by decide⟩
  · obtain rfl := mem_singleton.mp hmem
    exact absurd hle (by decide)

/-- It goes back to 0: the call succeeds, but the mark stays at 1. -/
theorem not_marks_right_moved :
    ¬MarksRight Lib.pairsMedium Lib.pairsView glibcUsable readQueue (ascii "c") readStore 1
      [.nth ⟨0, by decide⟩] := by
  rintro ⟨-, n, w', -, hrest⟩
  have hle : MarkCall.index 1 (.nth ⟨0, by decide⟩) ≤ readQueue.msgCapacity := by decide
  rw [if_pos hle] at hrest
  have hpos : queueMarkPos readQueue (ascii "c") = 0 := hrest.2.1
  revert hpos
  decide

end Supex.Mixmq
