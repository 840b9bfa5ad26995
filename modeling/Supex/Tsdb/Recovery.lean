import Supex.Tsdb.Binlog

/-!
# TSDB — opening the binlog

`binlog_open` has to find the pending records again: it seeks to the first
possible record key for `min_seq`, and goes to the last key of the whole store
for `last_seq`, and decodes whatever key is there. The store is shared with
the user data, so what it finds depends on how the user keys sort around the
records.

`RecoveryOk` says what the rest of the server relies on, `RecoveryFits` when
the store lets `binlog_open` establish it.

Main result: `recoveryOk_iff`.
-/

namespace Supex.Tsdb

open Supex.Lib

/-- A key of the form of a record key: `0xff` and eight bytes. -/
def isRecordKey (key : Bytes) : Bool := key.length = 9 && key.head? = some 0xff

/-- `key` is stored, and is not a record key. -/
def UserKey (db : Ldb) (key : Bytes) : Prop :=
  (db.get key).isSome = true ∧ isRecordKey key = false

/-- The pending records of the store are those of `c .. b`; with `b < c` there
are none. -/
def Pending (db : Ldb) (c b : Nat) : Prop :=
  ∀ s, s < u64Size → ((db.get (encodeSeqKey s)).isSome = true ↔ c ≤ s ∧ s ≤ b)

/-- What a restart has to establish: the counters enclose the pending records,
so that the slave thread, which runs from `min_seq` to `last_seq`, visits every
one of them, and no number behind `last_seq` is taken. -/
structure RecoveryOk (db : Ldb) (c b : Nat) : Prop where
  counters : if c ≤ b then (binlogOpen db).minSeq = c ∧ (binlogOpen db).lastSeq = b
    else (binlogOpen db).minSeq = (binlogOpen db).lastSeq + 1
  visits : ∀ s, s < u64Size → (db.get (encodeSeqKey s)).isSome = true →
    (binlogOpen db).minSeq ≤ s ∧ s ≤ (binlogOpen db).lastSeq
  fresh : ∀ s, s < u64Size → (binlogOpen db).lastSeq < s → db.get (encodeSeqKey s) = none

/-- With pending records, no user key may sort between the first possible
record and the first pending one (unless that is 1, the default), none behind
the last pending one (unless that is 0, the default), and neither end may be
`-1`. Without, a greatest key of nine bytes must decode to a default. -/
def RecoveryFits (db : Ldb) (c b : Nat) : Prop :=
  if c ≤ b then
    c ≠ u64Size - 1 ∧
    (c = 1 ∨ ∀ key, UserKey db key → ¬(encodeSeqKey 0 ≤ key ∧ key < encodeSeqKey c)) ∧
    (b = 0 ∨ b ≠ u64Size - 1 ∧ ∀ key, UserKey db key → ¬encodeSeqKey b < key)
  else
    ∀ key, UserKey db key → (∀ key', UserKey db key' → key' ≤ key) → key.length = 9 →
      key.drop 1 = List.replicate 8 0 ∨ key.drop 1 = List.replicate 8 0xff

/-! ## Keys around the records -/

theorem isRecordKey_encodeSeqKey (s : Nat) : isRecordKey (encodeSeqKey s) = true := by
  simp [isRecordKey, encodeSeqKey]

variable {key : Bytes}

theorem userKey_or_record {db : Ldb} (h : (db.get key).isSome = true) :
    UserKey db key ∨ ∃ s, s < u64Size ∧ key = encodeSeqKey s := by
  cases hr : isRecordKey key with
  | false => exact .inl ⟨h, hr⟩
  | true =>
    rw [isRecordKey, Bool.and_eq_true, decide_eq_true_iff, decide_eq_true_iff] at hr
    exact .inr (eq_encodeSeqKey_of_shape hr.1 hr.2)

theorem head_of_ge_first (h : encodeSeqKey 0 ≤ key) : key.head? = some 0xff := by
  cases key with
  | nil => exact absurd h (by decide)
  | cons a rest =>
    have hge : ¬a < 0xff := by
      intro ha
      apply not_lt.mpr h
      rw [encodeSeqKey, List.cons_lt_cons_iff]
      exact .inl ha
    have ha : a = 0xff := by
      apply UInt8.toNat_inj.mp
      rw [UInt8.lt_iff_toNat_lt] at hge
      have := a.toNat_lt
      have h255 : (0xff : UInt8).toNat = 255 := rfl
      omega
    rw [ha]
    rfl

theorem decodeSeqKey_user_of_ge_first {db : Ldb} (hu : UserKey db key) (h : encodeSeqKey 0 ≤ key) :
    decodeSeqKey key = u64Size - 1 := by
  have hlen : key.length ≠ 9 := by
    intro hlen
    have hr := hu.2
    rw [isRecordKey, head_of_ge_first h, hlen] at hr
    simp at hr
  rw [decodeSeqKey, if_pos hlen]

theorem exists_of_isSome {db : Ldb} (h : (db.get key).isSome = true) :
    ∃ value, db.get key = some value := Option.isSome_iff_exists.mp h

/-! ## With pending records -/

section Pending

variable {db : Ldb} {c b : Nat}

theorem minSeq_of_free (h : Pending db c b) (hcb : c ≤ b) (hb : b < u64Size)
    (hfree : ∀ key, UserKey db key → ¬(encodeSeqKey 0 ≤ key ∧ key < encodeSeqKey c)) :
    (binlogOpen db).minSeq = if c = u64Size - 1 then 1 else c := by
  have hc : c < u64Size := by omega
  obtain ⟨value, hvalue⟩ := exists_of_isSome ((h c hc).mpr ⟨le_rfl, hcb⟩)
  have hseek : db.seek (encodeSeqKey 0) = some (encodeSeqKey c, value) := by
    rw [OrdMap.seek_eq_some_iff]
    refine ⟨hvalue, (encodeSeqKey_le_iff (by decide) hc).mpr (Nat.zero_le _), ?_⟩
    intro key value' hget hge
    have hsome : (db.get key).isSome = true := by rw [hget]; rfl
    rcases userKey_or_record hsome with hu | ⟨s, hs, rfl⟩
    · by_contra hlt
      exact hfree key hu ⟨hge, not_le.mp hlt⟩
    · exact (encodeSeqKey_le_iff hc hs).mpr ((h s hs).mp hsome).1
  simp only [binlogOpen, hseek, decodeSeqKey_encodeSeqKey hc]

theorem minSeq_of_taken (h : Pending db c b) (hcb : c ≤ b) (hb : b < u64Size) (hu : UserKey db key)
    (hge : encodeSeqKey 0 ≤ key) (hlt : key < encodeSeqKey c) : (binlogOpen db).minSeq = 1 := by
  cases hseek : db.seek (encodeSeqKey 0) with
  | none => simp [binlogOpen, hseek]
  | some entry =>
    obtain ⟨key', value'⟩ := entry
    obtain ⟨hget', hge', hmin⟩ := OrdMap.seek_eq_some_iff.mp hseek
    obtain ⟨value, hget⟩ := exists_of_isSome hu.1
    have hlt' : key' < encodeSeqKey c := lt_of_le_of_lt (hmin key value hget hge) hlt
    have hsome' : (db.get key').isSome = true := by rw [hget']; rfl
    have hu' : UserKey db key' := by
      rcases userKey_or_record hsome' with hu' | ⟨s, hs, rfl⟩
      · exact hu'
      · -- a record in front of the first pending one
        have hcs := ((h s hs).mp hsome').1
        exact absurd ((encodeSeqKey_lt_iff hs (by omega)).mp hlt') (by omega)
    simp [binlogOpen, hseek, decodeSeqKey_user_of_ge_first hu' hge']

theorem lastSeq_of_free (h : Pending db c b) (hcb : c ≤ b) (hb : b < u64Size)
    (hfree : ∀ key, UserKey db key → ¬encodeSeqKey b < key) :
    (binlogOpen db).lastSeq = if b = u64Size - 1 then 0 else b := by
  obtain ⟨value, hvalue⟩ := exists_of_isSome ((h b hb).mpr ⟨hcb, le_rfl⟩)
  have hlast : db.last = some (encodeSeqKey b, value) := by
    rw [OrdMap.last_eq_some_iff]
    refine ⟨hvalue, ?_⟩
    intro key value' hget
    have hsome : (db.get key).isSome = true := by rw [hget]; rfl
    rcases userKey_or_record hsome with hu | ⟨s, hs, rfl⟩
    · exact not_lt.mp (hfree key hu)
    · exact (encodeSeqKey_le_iff hs hb).mpr ((h s hs).mp hsome).2
  simp only [binlogOpen, hlast, decodeSeqKey_encodeSeqKey hb]

theorem lastSeq_of_taken (h : Pending db c b) (hb : b < u64Size) (hu : UserKey db key)
    (hgt : encodeSeqKey b < key) : (binlogOpen db).lastSeq = 0 := by
  cases hlast : db.last with
  | none => simp [binlogOpen, hlast]
  | some entry =>
    obtain ⟨key', value'⟩ := entry
    obtain ⟨hget', hmax⟩ := OrdMap.last_eq_some_iff.mp hlast
    obtain ⟨value, hget⟩ := exists_of_isSome hu.1
    have hgt' : encodeSeqKey b < key' := lt_of_lt_of_le hgt (hmax key value hget)
    have hsome' : (db.get key').isSome = true := by rw [hget']; rfl
    have hu' : UserKey db key' := by
      rcases userKey_or_record hsome' with hu' | ⟨s, hs, rfl⟩
      · exact hu'
      · have hsb := ((h s hs).mp hsome').2
        exact absurd ((encodeSeqKey_lt_iff hb hs).mp hgt') (by omega)
    have hge' : encodeSeqKey 0 ≤ key' :=
      le_trans ((encodeSeqKey_le_iff (by decide) hb).mpr (Nat.zero_le _)) hgt'.le
    simp [binlogOpen, hlast, decodeSeqKey_user_of_ge_first hu' hge']

theorem minSeq_eq_iff (h : Pending db c b) (hcb : c ≤ b) (hb : b < u64Size) :
    (binlogOpen db).minSeq = c ↔ c ≠ u64Size - 1 ∧
      (c = 1 ∨ ∀ key, UserKey db key → ¬(encodeSeqKey 0 ≤ key ∧ key < encodeSeqKey c)) := by
  by_cases hfree : ∀ key, UserKey db key → ¬(encodeSeqKey 0 ≤ key ∧ key < encodeSeqKey c)
  · rw [minSeq_of_free h hcb hb hfree]
    by_cases hmax : c = u64Size - 1
    · have hone : ¬1 = c := by
        rw [hmax]
        decide
      simp only [hmax, if_true, ne_eq, not_true, false_and, iff_false]
      rwa [← hmax]
    · rw [if_neg hmax]
      exact iff_of_true rfl ⟨hmax, .inr hfree⟩
  · obtain ⟨key, hu, hge, hlt⟩ : ∃ key, UserKey db key ∧ encodeSeqKey 0 ≤ key ∧
        key < encodeSeqKey c := by
      by_contra hcon
      exact hfree fun key hu hr => hcon ⟨key, hu, hr⟩
    rw [minSeq_of_taken h hcb hb hu hge hlt]
    constructor
    · intro hc
      refine ⟨?_, .inl hc.symm⟩
      rw [← hc]
      decide
    · rintro ⟨-, hc | hcon⟩
      · exact hc.symm
      · exact absurd hcon hfree

theorem lastSeq_eq_iff (h : Pending db c b) (hcb : c ≤ b) (hb : b < u64Size) :
    (binlogOpen db).lastSeq = b ↔
      b = 0 ∨ b ≠ u64Size - 1 ∧ ∀ key, UserKey db key → ¬encodeSeqKey b < key := by
  by_cases hfree : ∀ key, UserKey db key → ¬encodeSeqKey b < key
  · rw [lastSeq_of_free h hcb hb hfree]
    by_cases hmax : b = u64Size - 1
    · have hzero : ¬u64Size - 1 = 0 := by decide
      simp [hmax, hzero, Ne.symm hzero]
    · rw [if_neg hmax]
      exact iff_of_true rfl (.inr ⟨hmax, hfree⟩)
  · obtain ⟨key, hu, hgt⟩ : ∃ key, UserKey db key ∧ encodeSeqKey b < key := by
      by_contra hcon
      exact hfree fun key hu hr => hcon ⟨key, hu, hr⟩
    rw [lastSeq_of_taken h hb hu hgt]
    constructor
    · intro hb0
      exact .inl hb0.symm
    · rintro (hb0 | ⟨-, hcon⟩)
      · exact hb0.symm
      · exact absurd hcon hfree

end Pending

/-! ## Without pending records -/

section Drained

variable {db : Ldb}

theorem userKey_of_isSome {c b : Nat} (h : Pending db c b) (hcb : b < c)
    (hsome : (db.get key).isSome = true) : UserKey db key := by
  rcases userKey_or_record hsome with hu | ⟨s, hs, rfl⟩
  · exact hu
  · have := (h s hs).mp hsome
    omega

theorem minSeq_of_drained {c b : Nat} (h : Pending db c b) (hcb : b < c) :
    (binlogOpen db).minSeq = 1 := by
  cases hseek : db.seek (encodeSeqKey 0) with
  | none => simp [binlogOpen, hseek]
  | some entry =>
    obtain ⟨key, value⟩ := entry
    obtain ⟨hget, hge, -⟩ := OrdMap.seek_eq_some_iff.mp hseek
    have hsome : (db.get key).isSome = true := by rw [hget]; rfl
    have hu := userKey_of_isSome h hcb hsome
    simp [binlogOpen, hseek, decodeSeqKey_user_of_ge_first hu hge]

/-- A key of nine bytes decodes to 0 or to `-1` exactly when the number in it is
0 or `-1`. -/
theorem decodeSeqKey_default_iff (hlen : key.length = 9) :
    decodeSeqKey key = 0 ∨ decodeSeqKey key = u64Size - 1 ↔
      key.drop 1 = List.replicate 8 0 ∨ key.drop 1 = List.replicate 8 0xff := by
  obtain ⟨-, himage⟩ := decodeSeqKey_of_length hlen
  have hdecode : decodeSeqKey key = bigEndianU64 (leVal (key.drop 1)) := by
    rw [decodeSeqKey, if_neg (by simp [hlen])]
  constructor
  · rintro (h | h)
    · left
      rw [← himage, h]
      decide
    · right
      rw [← himage, h]
      decide
  · rintro (h | h)
    · left
      rw [hdecode, h]
      decide
    · right
      rw [hdecode, h]
      decide

theorem lastSeq_of_drained {c b : Nat} (h : Pending db c b) (hcb : b < c) :
    (binlogOpen db).lastSeq = 0 ↔
      ∀ key, UserKey db key → (∀ key', UserKey db key' → key' ≤ key) → key.length = 9 →
        key.drop 1 = List.replicate 8 0 ∨ key.drop 1 = List.replicate 8 0xff := by
  cases hlast : db.last with
  | none =>
    have hempty := OrdMap.last_eq_none_iff.mp hlast
    refine iff_of_true (by simp [binlogOpen, hlast]) ?_
    intro key hu
    have := hu.1
    rw [hempty key] at this
    cases this
  | some entry =>
    obtain ⟨key, value⟩ := entry
    obtain ⟨hget, hmax⟩ := OrdMap.last_eq_some_iff.mp hlast
    have hsome : (db.get key).isSome = true := by rw [hget]; rfl
    have hu := userKey_of_isSome h hcb hsome
    have hge : ∀ key', UserKey db key' → key' ≤ key := by
      intro key' hu'
      obtain ⟨value', hget'⟩ := exists_of_isSome hu'.1
      exact hmax key' value' hget'
    have hzero : (binlogOpen db).lastSeq = 0 ↔
        decodeSeqKey key = 0 ∨ decodeSeqKey key = u64Size - 1 := by
      simp only [binlogOpen, hlast]
      split
      · next hminus => simp [hminus]
      · next hminus => simp [hminus]
    rw [hzero]
    constructor
    · intro hdefault key' hu' hgreatest hlen
      have heq : key' = key := le_antisymm (hge key' hu') (hgreatest key hu)
      subst heq
      exact (decodeSeqKey_default_iff hlen).mp hdefault
    · intro hfits
      by_cases hlen : key.length = 9
      · exact (decodeSeqKey_default_iff hlen).mpr (hfits key hu hge hlen)
      · exact .inr (by rw [decodeSeqKey, if_pos hlen])

end Drained

/-! ## Recovery -/

/-- The counters decide: once they are right, every pending record is visited
and no later number is taken. -/
theorem recoveryOk_of_counters {db : Ldb} {c b : Nat} (h : Pending db c b)
    (hcounters : if c ≤ b then (binlogOpen db).minSeq = c ∧ (binlogOpen db).lastSeq = b
      else (binlogOpen db).minSeq = (binlogOpen db).lastSeq + 1) : RecoveryOk db c b := by
  refine ⟨hcounters, ?_, ?_⟩
  · intro s hs hsome
    obtain ⟨hcs, hsb⟩ := (h s hs).mp hsome
    rw [if_pos (by omega)] at hcounters
    omega
  · intro s hs hlt
    by_contra hcon
    have hsome : (db.get (encodeSeqKey s)).isSome = true := Option.isSome_iff_ne_none.mpr hcon
    obtain ⟨hcs, hsb⟩ := (h s hs).mp hsome
    rw [if_pos (by omega)] at hcounters
    omega

/-- **Recovery.** Over every store whose pending records are those of `c .. b`,
`binlog_open` recovers them if and only if the user keys leave it room. -/
theorem recoveryOk_iff (db : Ldb) (c b : Nat) (hb : b < u64Size) (h : Pending db c b) :
    RecoveryOk db c b ↔ RecoveryFits db c b := by
  have hiff : RecoveryOk db c b ↔
      if c ≤ b then (binlogOpen db).minSeq = c ∧ (binlogOpen db).lastSeq = b
      else (binlogOpen db).minSeq = (binlogOpen db).lastSeq + 1 :=
    ⟨RecoveryOk.counters, recoveryOk_of_counters h⟩
  rw [hiff, RecoveryFits]
  by_cases hcb : c ≤ b
  · rw [if_pos hcb, if_pos hcb, minSeq_eq_iff h hcb hb, lastSeq_eq_iff h hcb hb, and_assoc]
  · rw [if_neg hcb, if_neg hcb, ← lastSeq_of_drained h (by omega),
      minSeq_of_drained h (by omega)]
    omega

/-- A user key and the records of 3 and 4. -/
def twoPending : Ldb :=
  ((OrdMap.empty.insert (ascii "a") [1]).insert (encodeSeqKey 3) [1, 97]).insert
    (encodeSeqKey 4) [1, 97]

theorem twoPending_pending : Pending twoPending 3 4 := by
  intro s hs
  have hkey : encodeSeqKey s ≠ ascii "a" := by
    intro h
    have hlen := congrArg List.length h
    rw [encodeSeqKey_length] at hlen
    revert hlen
    decide
  rw [twoPending, OrdMap.get_insert, OrdMap.get_insert, OrdMap.get_insert, if_neg hkey]
  by_cases h4 : s = 4
  · simp [h4]
  · by_cases h3 : s = 3
    · simp [h3]
    · have hne4 : encodeSeqKey s ≠ encodeSeqKey 4 := fun h =>
        h4 (encodeSeqKey_inj hs (by decide) h)
      have hne3 : encodeSeqKey s ≠ encodeSeqKey 3 := fun h =>
        h3 (encodeSeqKey_inj hs (by decide) h)
      rw [if_neg hne4, if_neg hne3, OrdMap.get_empty]
      simp
      omega

theorem userKey_twoPending (hu : UserKey twoPending key) : key = ascii "a" := by
  obtain ⟨hsome, hrecord⟩ := hu
  by_contra hne
  have h4 : key ≠ encodeSeqKey 4 := by
    rintro rfl
    rw [isRecordKey_encodeSeqKey] at hrecord
    cases hrecord
  have h3 : key ≠ encodeSeqKey 3 := by
    rintro rfl
    rw [isRecordKey_encodeSeqKey] at hrecord
    cases hrecord
  rw [twoPending, OrdMap.get_insert, OrdMap.get_insert, OrdMap.get_insert, if_neg h4, if_neg h3,
    if_neg hne, OrdMap.get_empty] at hsome
  cases hsome

theorem recoveryOk_twoPending : RecoveryOk twoPending 3 4 := by
  refine (recoveryOk_iff twoPending 3 4 (by decide) twoPending_pending).mpr ?_
  rw [RecoveryFits, if_pos (by decide)]
  refine ⟨by decide, .inr ?_, .inr ⟨by decide, ?_⟩⟩
  · intro key hu
    rw [userKey_twoPending hu]
    decide
  · intro key hu
    rw [userKey_twoPending hu]
    decide

/-- One user key of nine bytes and no record: `last_seq` becomes the number in
the last eight bytes of the user key. -/
def nineByteKey : Ldb := OrdMap.empty.insert (ascii "gps:00001") [1]

theorem nineByteKey_not_recovered :
    Pending nineByteKey 1 0 ∧ ¬RecoveryOk nineByteKey 1 0 := by
  constructor
  · intro s _
    have hkey : encodeSeqKey s ≠ ascii "gps:00001" := by
      intro h
      have hhead := congrArg List.head? h
      rw [encodeSeqKey, List.head?_cons] at hhead
      revert hhead
      decide
    rw [nineByteKey, OrdMap.get_insert, if_neg hkey, OrdMap.get_empty]
    simp
    omega
  · intro h
    have := h.counters
    revert this
    decide

end Supex.Tsdb
