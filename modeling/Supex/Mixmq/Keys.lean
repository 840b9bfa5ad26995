import Supex.Mixmq.Footprint

/-!
# libmixmq — the keys of the records

Every record but the messages has a string for its key, built by
`__string_append_3rd` from the names of the queue and of the user. The kinds of
records end in different words, and all string keys are longer than the 8 bytes
of a message key. Two things go wrong with the positions of a consumer: names
that hold the separator can be read in two ways, and the block asked for has
room for two separators where three are written.

Main result: `keys_unambiguous_iff`.
-/

namespace Supex.Mixmq

open List

/-- A record with a string key: its kind, and the names the kind takes. -/
inductive RecordKey where
  | queues
  | producers (q : Bytes)
  | consumers (q : Bytes)
  | capacity (q : Bytes)
  | fetchpos (q u : Bytes)
  | markpos (q u : Bytes)
  deriving DecidableEq

namespace RecordKey

/-- The key as its macro builds it. -/
def build (usable : Nat → Nat) : RecordKey → Except Fault Bytes
  | .queues => getKeyOfQueues usable
  | .producers q => getKeyOfProducers usable q
  | .consumers q => getKeyOfConsumers usable q
  | .capacity q => getKeyOfCapacity usable q
  | .fetchpos q u => getKeyOfFetchpos usable q u
  | .markpos q u => getKeyOfMarkpos usable q u

/-- The string the key is. -/
def bytes : RecordKey → Bytes
  | .queues => queuesKey
  | .producers q => producersKey q
  | .consumers q => consumersKey q
  | .capacity q => capacityKey q
  | .fetchpos q u => fetchposKey q u
  | .markpos q u => markposKey q u

/-- The record is a position of a consumer. -/
def IsPosition : RecordKey → Prop
  | .fetchpos _ _ => True
  | .markpos _ _ => True
  | _ => False

instance : DecidablePred IsPosition
  | .queues => .isFalse id
  | .producers _ => .isFalse id
  | .consumers _ => .isFalse id
  | .capacity _ => .isFalse id
  | .fetchpos _ _ => .isTrue trivial
  | .markpos _ _ => .isTrue trivial

/-- The records are the same position of two consumers whose names read alike
once they are joined to the names of their queues. -/
def SamePosition : RecordKey → RecordKey → Prop
  | .fetchpos q u, .fetchpos p v => q ++ SEP ++ u = p ++ SEP ++ v
  | .markpos q u, .markpos p v => q ++ SEP ++ u = p ++ SEP ++ v
  | _, _ => False

--
-- Equal keys
--

theorem capacityKey_inj {p q : Bytes} (h : capacityKey p = capacityKey q) : p = q := by
  simp only [capacityKey, appended, append_assoc] at h
  exact append_cancel_right (append_cancel_left h)

theorem fetchposKey_eq_iff {p q u v : Bytes} :
    fetchposKey q u = fetchposKey p v ↔ q ++ SEP ++ u = p ++ SEP ++ v := by
  rw [fetchposKey_eq, fetchposKey_eq, append_left_inj, append_right_inj]

theorem markposKey_eq_iff {p q u v : Bytes} :
    markposKey q u = markposKey p v ↔ q ++ SEP ++ u = p ++ SEP ++ v := by
  rw [markposKey_eq, markposKey_eq, append_left_inj, append_right_inj]

/-- **Ambiguity.** Two records have one key only as the same position of
consumers whose names read alike. -/
theorem bytes_eq_iff {a b : RecordKey} (h : a ≠ b) : a.bytes = b.bytes ↔ a.SamePosition b := by
  cases a <;> cases b
  -- keys of different kinds end in different words
  all_goals try exact ⟨fun heq => absurd (congrArg keyKind heq)
    (by simp only [bytes, keyKind_queues, keyKind_capacity, keyKind_producers, keyKind_consumers,
      keyKind_fetchpos, keyKind_markpos]; decide), False.elim⟩
  case queues.queues => exact absurd rfl h
  case producers.producers q p =>
    exact ⟨fun heq => absurd (congrArg RecordKey.producers (producersKey_inj heq)) h, False.elim⟩
  case consumers.consumers q p =>
    exact ⟨fun heq => absurd (congrArg RecordKey.consumers (consumersKey_inj heq)) h, False.elim⟩
  case capacity.capacity q p =>
    exact ⟨fun heq => absurd (congrArg RecordKey.capacity (capacityKey_inj heq)) h, False.elim⟩
  case fetchpos.fetchpos q u p v => exact fetchposKey_eq_iff
  case markpos.markpos q u p v => exact markposKey_eq_iff

theorem length_bytes (a : RecordKey) : 8 < a.bytes.length := by
  cases a with
  | queues => decide
  | producers q => exact ownKeys_length (U := ∅) (.inr (.inl rfl))
  | consumers q => exact ownKeys_length (U := ∅) (.inr (.inr (.inl rfl)))
  | capacity q => exact ownKeys_length (U := ∅) (.inl rfl)
  | fetchpos q u => exact ownKeys_length (U := {u}) (.inr (.inr (.inr ⟨u, rfl, .inl rfl⟩)))
  | markpos q u => exact ownKeys_length (U := {u}) (.inr (.inr (.inr ⟨u, rfl, .inr rfl⟩)))

--
-- Blocks
--

theorem stringAppend3rd_three (usable : Nat → Nat) (prfix sep first second three : Bytes) :
    stringAppend3rd usable prfix sep first (some second) (some three) =
      if appendTotal prfix sep first (some second) (some three) + sep.length ≤
          usable (appendTotal prfix sep first (some second) (some three)) then
        .ok (appended prfix sep first (some second) (some three))
      else .error .memory := by
  have hlen : (appended prfix sep first (some second) (some three)).length + 1 =
      appendTotal prfix sep first (some second) (some three) + sep.length := by
    simp only [appended, appendTotal, length_append]
    omega
  rw [stringAppend3rd, hlen]

/-- **Blocks.** In the block it asks for a key fits, unless it is a position. -/
theorem build_exact (a : RecordKey) :
    a.build id = if a.IsPosition then .error .memory else .ok a.bytes := by
  have hheap : ∀ n : Nat, n ≤ id n := fun n => Nat.le_refl n
  have hover : ∀ n : Nat, ¬n + SEP.length ≤ id n := by
    intro n
    have hsep : SEP.length = 2 := rfl
    rw [hsep, id]
    omega
  cases a with
  | queues => exact stringAppend3rd_two hheap XMQ SEP (ascii "QUEUES") none
  | producers q => exact stringAppend3rd_two hheap _ _ _ _
  | consumers q => exact stringAppend3rd_two hheap _ _ _ _
  | capacity q => exact stringAppend3rd_two hheap _ _ _ _
  | fetchpos q u => exact (stringAppend3rd_three ..).trans (if_neg (hover _))
  | markpos q u => exact (stringAppend3rd_three ..).trans (if_neg (hover _))

end RecordKey

/-- The keys of the two records fit the blocks they ask for, and differ from
each other and from the keys of messages. -/
def Unambiguous (a b : RecordKey) : Prop :=
  ∃ key key', a.build id = .ok key ∧ b.build id = .ok key' ∧ key ≠ key' ∧
    ∀ message : Bytes, message.length = 8 → key ≠ message ∧ key' ≠ message

/-- **Keys.** Two records have different keys that are built within their
blocks, and are no message keys, if and only if neither of them is a position
of a consumer. The keys alone coincide if and only if the records are the same
position of two consumers whose names, joined to the names of their queues by
the separator, read alike. -/
theorem keys_unambiguous_iff (a b : RecordKey) (h : a ≠ b) :
    (Unambiguous a b ↔ ¬a.IsPosition ∧ ¬b.IsPosition) ∧
      (a.bytes = b.bytes ↔ a.SamePosition b) := by
  refine ⟨?_, RecordKey.bytes_eq_iff h⟩
  constructor
  · rintro ⟨key, key', ha, hb, -⟩
    rw [RecordKey.build_exact] at ha hb
    constructor
    · intro hpos
      rw [if_pos hpos] at ha
      exact nomatch ha
    · intro hpos
      rw [if_pos hpos] at hb
      exact nomatch hb
  · rintro ⟨ha, hb⟩
    refine ⟨a.bytes, b.bytes, ?_, ?_, ?_, ?_⟩
    · rw [RecordKey.build_exact, if_neg ha]
    · rw [RecordKey.build_exact, if_neg hb]
    · rw [Ne, RecordKey.bytes_eq_iff h]
      cases a <;> simp_all [RecordKey.SamePosition, RecordKey.IsPosition]
    · intro message hmessage
      have hlong : ∀ c : RecordKey, c.bytes ≠ message := by
        rintro c rfl
        have := c.length_bytes
        omega
      exact ⟨hlong a, hlong b⟩

/-- The lists of producers and consumers of one queue. -/
theorem keys_unambiguous_lists :
    Unambiguous (.producers (ascii "orders")) (.consumers (ascii "orders")) :=
  (keys_unambiguous_iff (.producers (ascii "orders")) (.consumers (ascii "orders"))
    (by decide)).1.mpr ⟨by decide, by decide⟩

/-- The position of `c` in `a__b` and that of `b__c` in `a` have one key, which
is written behind its block. -/
theorem not_unambiguous_separator :
    ¬Unambiguous (.fetchpos (ascii "a__b") (ascii "c")) (.fetchpos (ascii "a") (ascii "b__c")) ∧
      fetchposKey (ascii "a__b") (ascii "c") = fetchposKey (ascii "a") (ascii "b__c") := by
  refine ⟨?_, by decide⟩
  rintro ⟨key, -, hkey, -⟩
  have hover : getKeyOfFetchpos id (ascii "a__b") (ascii "c") = .error .memory := by decide
  rw [RecordKey.build, hover] at hkey
  exact nomatch hkey

end Supex.Mixmq
