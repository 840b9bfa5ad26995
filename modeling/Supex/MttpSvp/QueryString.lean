import Supex.Lib.Memory

/-!
# mttpSvp — query strings

`parse_query_string` goes through the bytes in four states and puts the places of keys and
values into the slots of `buf` in turn; at the end of the data `index` says what the last
pair lacks. Places are offsets into the data, and `buf` holds anything at the start. What
is written outside of `buf` has no value.

Main result: `query_string`.
-/

namespace Supex.MttpSvp

open Supex.Lib List

/-- `MAX_QUERY_STRING_PAIRES`. -/
def maxPairs : Nat := 64

/-- `qs_buf_t`. -/
structure QsBuf where
  base : Option Nat
  len : Nat

/-- `enum state`. -/
inductive State where
  | keyStart
  | key
  | valueStart
  | value

/-- The variables of `parse_query_string`, and `buf`. -/
structure Parser where
  s : State
  n : Nat
  index : Nat
  buf : List QsBuf

/-- What `parse_query_string` returns, `*buf_size` and `buf`. -/
structure Returned where
  ret : Int
  bufSize : Nat
  buf : List QsBuf

/-- A write to `buf[n]`. -/
def put (buf : List QsBuf) (n : Nat) (f : QsBuf → QsBuf) : Option (List QsBuf) :=
  if n < buf.length then some (buf.modify n f) else none

/-- `buf[n].base = p`. -/
def putBase (buf : List QsBuf) (n p : Nat) : Option (List QsBuf) :=
  put buf n fun q => { q with base := some p }

/-- `buf[n].len = p - buf[n].base`. -/
def putLen (buf : List QsBuf) (n p : Nat) : Option (List QsBuf) :=
  put buf n fun q => { q with len := p - q.base.getD 0 }

/-- `buf[n].base = NULL; buf[n].len = 0`. -/
def putNull (buf : List QsBuf) (n : Nat) : Option (List QsBuf) := put buf n fun _ => ⟨none, 0⟩

/-- Behind the last slot of a pair. -/
def closed (n : Nat) (buf : List QsBuf) : Returned ⊕ Parser :=
  if maxPairs * 2 ≤ n then .inl ⟨-1, n / 2, buf⟩ else .inr ⟨.keyStart, n, 0, buf⟩

/-- `ch == '='`, and `ch == '&'`. -/
def isSep (ch : UInt8) : Bool := ch = 61 || ch = 38

/-- The body of the loop. -/
def step (p : Nat) (ch : UInt8) (st : Parser) : Option (Returned ⊕ Parser) :=
  match st.s with
  | .keyStart =>
    if isSep ch then some (.inr st)
    else do
      let buf ← putBase st.buf st.n p
      return .inr ⟨.key, st.n, st.index + 1, buf⟩
  | .key =>
    if ch = 61 then do
      let buf ← putLen st.buf st.n p
      return .inr ⟨.valueStart, st.n + 1, st.index + 1, buf⟩
    else if ch = 38 then do
      let buf ← putLen st.buf st.n p
      let buf ← putNull buf (st.n + 1)
      return closed (st.n + 2) buf
    else some (.inr st)
  | .valueStart =>
    if isSep ch then do
      let buf ← putNull st.buf st.n
      return closed (st.n + 1) buf
    else do
      let buf ← putBase st.buf st.n p
      return .inr ⟨.value, st.n, st.index + 1, buf⟩
  | .value =>
    if ch = 38 then do
      let buf ← putLen st.buf st.n p
      return closed (st.n + 1) buf
    else some (.inr st)

/-- Behind the loop: the last pair. -/
def finish (stop : Nat) (st : Parser) : Option Returned :=
  match st.index with
  | 0 => some ⟨0, (st.n + 1) / 2, st.buf⟩
  | 1 => do
    let buf ← putLen st.buf st.n stop
    let buf ← putNull buf (st.n + 1)
    return ⟨0, (st.n + 2) / 2, buf⟩
  | 2 => do
    let buf ← putNull st.buf st.n
    return ⟨0, (st.n + 1) / 2, buf⟩
  | 3 => do
    let buf ← putLen st.buf st.n stop
    return ⟨0, (st.n + 1) / 2, buf⟩
  | _ => some ⟨-1, 0, st.buf⟩

/-- The loop, from `p` on. -/
def parseLoop (p : Nat) (st : Parser) : Bytes → Option Returned
  | [] => finish p st
  | ch :: rest => do
    match ← step p ch st with
    | .inl r => return r
    | .inr st => parseLoop (p + 1) st rest

def parseQueryString (buf : List QsBuf) (data : Bytes) : Option Returned :=
  parseLoop 0 ⟨.keyStart, 0, 0, buf⟩ data

/-- What a slot points at. -/
def QsBuf.text (data : Bytes) (q : QsBuf) : Option Bytes :=
  q.base.map fun b => (data.drop b).take q.len

/-- `copy_query_string_value`, of the slots from `i` on; `strncmp` goes up to a NUL. The
copy ends in a NUL. -/
def copyQueryStringValue (malloc : Nat → Bool) (data key : Bytes) : List QsBuf → Option Bytes
  | k :: v :: buf =>
    if k.len = key.length ∧ ((k.text data).map cstr) = some (cstr key) then do
      let t ← v.text data
      if malloc (t.length + 1) then some (t ++ [0]) else none
    else copyQueryStringValue malloc data key buf
  | _ => none

--
-- What they are for
--

/-- A `=`, and the start of a value. -/
def hasValue : Bytes → Bool
  | 61 :: c :: _ => !isSep c
  | _ => false

/-- The grammar. -/
def pairs : Bytes → List (Bytes × Option Bytes)
  | [] => []
  | a :: s =>
    if isSep a then pairs s
    else
      let key := a :: s.takeWhile (!isSep ·)
      let rest := s.dropWhile (!isSep ·)
      if hasValue rest then
        (key, some (rest.tail.takeWhile (· ≠ 38))) :: pairs (rest.tail.dropWhile (· ≠ 38))
      else (key, none) :: pairs rest
  termination_by data => data.length
  decreasing_by
    · exact Nat.lt_succ_self _
    · have hkey := (dropWhile_sublist (!isSep ·) (l := s)).length_le
      have hvalue := (dropWhile_sublist (· ≠ 38) (l := (s.dropWhile (!isSep ·)).tail)).length_le
      rw [length_tail] at hvalue
      exact Nat.lt_succ_of_le (hvalue.trans (le_trans (Nat.sub_le _ _) hkey))
    · exact Nat.lt_succ_of_le (dropWhile_sublist _).length_le

/-- The slot is the place of a text in the data, or `NULL`. -/
def QsBuf.Holds (data : Bytes) (q : QsBuf) : Option Bytes → Prop
  | none => q.base = none
  | some t => ∃ x y, data = x ++ (t ++ y) ∧ q.base = some x.length ∧ q.len = t.length

/-- Keys and values in turn. -/
def texts (ps : List (Bytes × Option Bytes)) : List (Option Bytes) :=
  ps.flatMap fun p => [some p.1, p.2]

--
-- The grammar
--

variable {data pre rest kb vb : Bytes} {ps : List (Bytes × Option Bytes)} {c : UInt8}

/-- A text without `=` and `&`. -/
structure IsKey (kb : Bytes) : Prop where
  ne_nil : kb ≠ []
  free : ∀ b ∈ kb, isSep b = false

/-- A text without `&` that starts without `=`. -/
structure IsValue (vb : Bytes) : Prop where
  starts : hasValue (61 :: vb) = true
  free : ∀ b ∈ vb, b ≠ 38

theorem pairs_sep (hc : isSep c = true) : pairs (c :: rest) = pairs rest := by
  rw [pairs, if_pos hc]

theorem pairs_key (hk : IsKey kb) (hr : ∀ b ∈ rest.head?, isSep b = true) :
    pairs (kb ++ rest) =
      if hasValue rest then
        (kb, some (rest.tail.takeWhile (· ≠ 38))) :: pairs (rest.tail.dropWhile (· ≠ 38))
      else (kb, none) :: pairs rest := by
  obtain ⟨a, s, rfl⟩ := exists_cons_of_ne_nil hk.ne_nil
  obtain ⟨ha, hs⟩ := forall_mem_cons.mp hk.free
  have hs : ∀ b ∈ s, (!isSep b) = true := fun b hb => by rw [hs b hb]; rfl
  have hstop : rest.takeWhile (!isSep ·) = [] ∧ rest.dropWhile (!isSep ·) = rest := by
    cases rest with
    | nil => exact ⟨rfl, rfl⟩
    | cons b rest =>
      have hb : (!isSep b) = false := by rw [hr b rfl]; rfl
      exact ⟨by rw [takeWhile_cons, hb]; rfl, by rw [dropWhile_cons, hb]; rfl⟩
  rw [cons_append, pairs, if_neg (by rw [ha]; decide)]
  simp only [takeWhile_append_of_pos hs, dropWhile_append_of_pos hs, hstop,
    append_nil]

theorem pairs_lone (hk : IsKey kb) (hc : c = 61 → hasValue (c :: rest) = false)
    (hsep : isSep c = true) : pairs (kb ++ c :: rest) = (kb, none) :: pairs rest := by
  rw [pairs_key hk (by rintro _ ⟨⟩; exact hsep), pairs_sep hsep]
  by_cases h61 : c = 61
  · rw [if_neg (by rw [hc h61]; decide)]
  · rw [if_neg]
    rw [hasValue.eq_def]
    split <;> simp_all

theorem pairs_value (hk : IsKey kb) (hv : IsValue vb) (hr : ∀ b ∈ rest.head?, b = 38) :
    pairs (kb ++ 61 :: (vb ++ rest)) = (kb, some vb) :: pairs rest := by
  obtain ⟨hstarts, hfree⟩ := hv
  have hvalue : hasValue (61 :: (vb ++ rest)) = true := by
    cases vb with
    | nil => cases hstarts
    | cons a vb => exact hstarts
  have hfree : ∀ b ∈ vb, decide (b ≠ 38) = true := fun b hb => decide_eq_true (hfree b hb)
  have hstop : rest.takeWhile (· ≠ 38) = [] ∧ rest.dropWhile (· ≠ 38) = rest := by
    cases rest with
    | nil => exact ⟨rfl, rfl⟩
    | cons b rest =>
      obtain rfl := hr b rfl
      exact ⟨rfl, rfl⟩
  rw [pairs_key hk (by rintro _ ⟨⟩; rfl), if_pos hvalue, tail_cons,
    takeWhile_append_of_pos hfree, dropWhile_append_of_pos hfree, hstop.1, hstop.2,
    append_nil]

--
-- The slots
--

variable {buf : List QsBuf} {ts : List (Option Bytes)} {q : QsBuf} {n : Nat}

/-- The `n` slots that are written. -/
structure Slots (data : Bytes) (buf : List QsBuf) (ts : List (Option Bytes)) (n : Nat) : Prop where
  length : buf.length = maxPairs * 2
  holds : (buf.take n).Forall₂ (QsBuf.Holds data) ts

theorem Slots.get (h : Slots data buf ts n) (hn : n < maxPairs * 2) : ∃ q, buf[n]? = some q :=
  ⟨_, getElem?_eq_getElem (h.length ▸ hn)⟩

theorem Slots.put (h : Slots data buf ts n) (hn : n < maxPairs * 2) (f : QsBuf → QsBuf) :
    put buf n f = some (buf.modify n f) ∧ Slots data (buf.modify n f) ts n := by
  refine ⟨if_pos (h.length ▸ hn), (length_modify _ _ _).trans h.length, ?_⟩
  rw [take_modify, modify_eq_self (length_take_le _ _)]
  exact h.holds

theorem Slots.append (h : Slots data buf ts n) (hn : n < maxPairs * 2) {t : Option Bytes}
    (f : QsBuf → QsBuf) (hq : buf[n]? = some q) (ht : (f q).Holds data t) :
    ∃ buf', MttpSvp.put buf n f = some buf' ∧ Slots data buf' (ts ++ [t]) (n + 1) := by
  obtain ⟨hput, hlength, hholds⟩ := h.put hn f
  refine ⟨_, hput, hlength, ?_⟩
  rw [take_add_one, getElem?_modify_eq, hq]
  exact rel_append hholds (.cons ht .nil)

theorem Slots.putLen (h : Slots data buf ts n) (hn : n < maxPairs * 2) {x t : Bytes} {p : Nat}
    (hq : buf[n]? = some q) (hb : q.base = some x.length) (hdata : data = x ++ (kb ++ t))
    (hp : p = x.length + kb.length) :
    ∃ buf', putLen buf n p = some buf' ∧ Slots data buf' (ts ++ [some kb]) (n + 1) := by
  refine h.append hn _ hq ⟨x, t, hdata, hb, ?_⟩
  rw [hb, hp, Option.getD_some, Nat.add_sub_cancel_left]

theorem Slots.putNull (h : Slots data buf ts n) (hn : n < maxPairs * 2) :
    ∃ buf', putNull buf n = some buf' ∧ Slots data buf' (ts ++ [none]) (n + 1) := by
  obtain ⟨q, hq⟩ := h.get hn
  exact h.append hn _ hq rfl

theorem Slots.putBase (h : Slots data buf ts n) (hn : n < maxPairs * 2) (p : Nat) :
    ∃ buf' q, putBase buf n p = some buf' ∧ Slots data buf' ts n ∧ buf'[n]? = some q ∧
      q.base = some p := by
  obtain ⟨q, hq⟩ := h.get hn
  obtain ⟨hput, h'⟩ := h.put hn fun q => { q with base := some p }
  refine ⟨_, { q with base := some p }, hput, h', ?_, rfl⟩
  rw [getElem?_modify_eq, hq]
  rfl

theorem texts_append (ps : List (Bytes × Option Bytes)) (p : Bytes × Option Bytes) :
    texts (ps ++ [p]) = texts ps ++ [some p.1] ++ [p.2] := by
  rw [texts, flatMap_append, append_assoc]
  rfl

--
-- The states
--

/-- Behind `pre`, with the pairs of `ps` in the slots and `pending` of the next one read. -/
inductive At (data pre : Bytes) (ps : List (Bytes × Option Bytes)) : Parser → Bytes → Prop where
  | keyStart {buf : List QsBuf} (slots : Slots data buf (texts ps) (2 * ps.length)) :
    At data pre ps ⟨.keyStart, 2 * ps.length, 0, buf⟩ []
  | key {buf : List QsBuf} {q : QsBuf} {x kb : Bytes}
    (slots : Slots data buf (texts ps) (2 * ps.length)) (hq : buf[2 * ps.length]? = some q)
    (hb : q.base = some x.length) (hpre : pre = x ++ kb) (hk : IsKey kb) :
    At data pre ps ⟨.key, 2 * ps.length, 1, buf⟩ kb
  | valueStart {buf : List QsBuf} {kb : Bytes}
    (slots : Slots data buf (texts ps ++ [some kb]) (2 * ps.length + 1)) (hk : IsKey kb) :
    At data pre ps ⟨.valueStart, 2 * ps.length + 1, 2, buf⟩ (kb ++ [61])
  | value {buf : List QsBuf} {q : QsBuf} {x kb vb : Bytes}
    (slots : Slots data buf (texts ps ++ [some kb]) (2 * ps.length + 1))
    (hq : buf[2 * ps.length + 1]? = some q) (hb : q.base = some x.length) (hpre : pre = x ++ vb)
    (hk : IsKey kb) (hv : IsValue vb) :
    At data pre ps ⟨.value, 2 * ps.length + 1, 3, buf⟩ (kb ++ 61 :: vb)

/-- The data is refused, or the parser goes on and `ps` are the pairs of all of it. -/
def Goes (data pre rest : Bytes) (ps : List (Bytes × Option Bytes)) : Returned ⊕ Parser → Prop
  | .inl r => r.ret ≠ 0
  | .inr st => ∃ ps' pending, ps'.length < maxPairs ∧ At data pre ps' st pending ∧
      ps' ++ pairs (pending ++ rest) = ps

theorem Goes.next {st : Parser} {ps' : List (Bytes × Option Bytes)} {pending : Bytes}
    (hlt : ps'.length < maxPairs) (h : At data pre ps' st pending)
    (heq : ps' ++ pairs (pending ++ rest) = ps) : Goes data pre rest ps (.inr st) :=
  ⟨ps', pending, hlt, h, heq⟩

theorem closed_goes {p : Bytes × Option Bytes}
    (slots : Slots data buf (texts ps ++ [some p.1] ++ [p.2]) (2 * ps.length + 1 + 1)) :
    Goes data pre rest (ps ++ p :: pairs rest) (closed (2 * ps.length + 1 + 1) buf) := by
  have hn : 2 * ps.length + 1 + 1 = 2 * (ps ++ [p]).length := by
    rw [length_append]
    rfl
  rw [← texts_append, hn] at slots
  rw [hn, closed]
  split
  · exact Int.neg_ne_zero.mpr one_ne_zero
  · exact ⟨ps ++ [p], [], by omega, .keyStart slots, append_assoc _ _ _⟩

theorem step_goes {st : Parser} {pending : Bytes} (h : At data pre ps st pending)
    (hlt : ps.length < maxPairs) (hdata : data = pre ++ c :: rest) :
    ∃ res, step pre.length c st = some res ∧
      Goes data (pre ++ [c]) rest (ps ++ pairs (pending ++ c :: rest)) res := by
  have hn : 2 * ps.length + 1 < maxPairs * 2 := by omega
  cases h with
  | keyStart slots =>
    rw [nil_append]
    by_cases hc : isSep c = true
    · exact ⟨_, if_pos hc, .next hlt (.keyStart slots) (by rw [nil_append, pairs_sep hc])⟩
    · obtain ⟨buf', q, hput, slots', hq, hb⟩ := slots.putBase (by omega) pre.length
      have hk : IsKey [c] :=
        ⟨cons_ne_nil _ _, forall_mem_singleton.mpr (Bool.eq_false_iff.mpr hc)⟩
      exact ⟨.inr ⟨.key, _, _, buf'⟩, by simp [step, hc, hput],
        .next hlt (.key slots' hq hb rfl hk) rfl⟩
  | key slots hq hb hpre hk =>
    obtain ⟨buf', hput, slots'⟩ := slots.putLen (by omega) hq hb
      (by rw [hdata, hpre, append_assoc]) (hpre ▸ length_append)
    by_cases h61 : c = 61
    · subst h61
      exact ⟨.inr ⟨.valueStart, _, _, buf'⟩, by simp [step, hput],
        .next hlt (.valueStart slots' hk) (by rw [append_assoc, singleton_append])⟩
    · by_cases h38 : c = 38
      · subst h38
        obtain ⟨buf'', hnull, slots''⟩ := slots'.putNull hn
        refine ⟨closed (2 * ps.length + 1 + 1) buf'', by simp [step, hput, hnull], ?_⟩
        rw [pairs_lone hk (absurd · (by decide)) rfl]
        exact closed_goes slots''
      · have hc : isSep c = false := by simp [isSep, h61, h38]
        refine ⟨.inr _, by simp only [step, if_neg h61, if_neg h38], .next hlt (.key slots hq hb
          (by rw [hpre, append_assoc]) ⟨by simp, ?_⟩) (by simp)⟩
        exact forall_mem_append.mpr ⟨hk.free, forall_mem_singleton.mpr hc⟩
  | valueStart slots hk =>
    rw [append_assoc, singleton_append]
    by_cases hc : isSep c = true
    · obtain ⟨buf', hnull, slots'⟩ := slots.putNull hn
      refine ⟨closed (2 * ps.length + 1 + 1) buf', by simp [step, hc, hnull], ?_⟩
      rw [pairs_lone hk (fun _ => by simp [hasValue, hc]) rfl, pairs_sep hc]
      exact closed_goes slots'
    · obtain ⟨buf', q, hput, slots', hq, hb⟩ := slots.putBase hn pre.length
      have hc' : isSep c = false := Bool.eq_false_iff.mpr hc
      have hv : IsValue [c] := by
        refine ⟨by simp [hasValue, hc'], forall_mem_singleton.mpr ?_⟩
        rintro rfl
        exact hc rfl
      exact ⟨.inr ⟨.value, _, _, buf'⟩, by simp [step, hc', hput],
        .next hlt (.value slots' hq hb rfl hk hv) (by simp)⟩
  | value slots hq hb hpre hk hv =>
    rename_i buf q x kb vb
    obtain ⟨buf', hput, slots'⟩ := slots.putLen hn hq hb
      (by rw [hdata, hpre, append_assoc]) (hpre ▸ length_append)
    rw [append_assoc, cons_append]
    by_cases h38 : c = 38
    · subst h38
      refine ⟨closed (2 * ps.length + 1 + 1) buf', by simp [step, hput], ?_⟩
      rw [pairs_value hk hv (by rintro _ ⟨⟩; rfl), pairs_sep rfl]
      exact closed_goes slots'
    · have hv' : IsValue (vb ++ [c]) := by
        obtain ⟨hstarts, hfree⟩ := hv
        cases vb with
        | nil => cases hstarts
        | cons a vb =>
          exact ⟨hstarts, forall_mem_append.mpr ⟨hfree, forall_mem_singleton.mpr h38⟩⟩
      exact ⟨.inr _, by simp only [step, if_neg h38], .next hlt (.value slots hq hb
        (by rw [hpre, append_assoc]) hk hv') (by simp)⟩

theorem Slots.finished {p : Bytes × Option Bytes} (h : pairs rest = [p])
    (slots : Slots data buf (texts ps ++ [some p.1] ++ [p.2]) (2 * ps.length + 1 + 1)) :
    Slots data buf (texts (ps ++ pairs rest)) (2 * ((2 * ps.length + 1 + 1) / 2)) := by
  rw [h, texts_append, show 2 * ((2 * ps.length + 1 + 1) / 2) = 2 * ps.length + 1 + 1 by omega]
  exact slots

theorem finish_at {st : Parser} {pending : Bytes} (h : At data data ps st pending)
    (hlt : ps.length < maxPairs) : ∃ r, finish data.length st = some r ∧
      Slots data r.buf (texts (ps ++ pairs pending)) (2 * r.bufSize) := by
  have hn : 2 * ps.length + 1 < maxPairs * 2 := by omega
  cases h with
  | keyStart slots =>
    refine ⟨_, rfl, ?_⟩
    rw [pairs, append_nil]
    rwa [show 2 * ((2 * ps.length + 1) / 2) = 2 * ps.length by omega]
  | key slots hq hb hpre hk =>
    obtain ⟨buf', hput, slots'⟩ := slots.putLen (t := []) (by omega) hq hb (by rwa [append_nil])
      ((congrArg length hpre).trans length_append)
    obtain ⟨buf'', hnull, slots''⟩ := slots'.putNull hn
    have hpairs := @pairs_key [] pending hk nofun
    rw [append_nil, if_neg (by decide), pairs] at hpairs
    refine ⟨⟨0, (2 * ps.length + 1 + 1) / 2, buf''⟩, ?_, slots''.finished hpairs⟩
    rw [finish, hput, Option.bind_eq_bind, Option.bind_some, hnull]
    rfl
  | valueStart slots hk =>
    rename_i buf kb
    obtain ⟨buf', hnull, slots'⟩ := slots.putNull hn
    have hpairs := @pairs_lone [] kb 61 hk (fun _ => rfl) rfl
    rw [pairs] at hpairs
    exact ⟨⟨0, _, buf'⟩, by rw [finish, hnull]; rfl, slots'.finished hpairs⟩
  | value slots hq hb hpre hk hv =>
    rename_i buf q x kb vb
    obtain ⟨buf', hput, slots'⟩ := slots.putLen (t := []) hn hq hb (by rwa [append_nil])
      ((congrArg length hpre).trans length_append)
    have hpairs := @pairs_value [] kb vb hk hv nofun
    rw [append_nil, pairs] at hpairs
    exact ⟨⟨0, _, buf'⟩, by rw [finish, hput]; rfl, slots'.finished hpairs⟩

theorem parseLoop_at {st : Parser} {pending : Bytes} (h : At data pre ps st pending)
    (hlt : ps.length < maxPairs) (hdata : data = pre ++ rest) :
    ∃ r, parseLoop pre.length st rest = some r ∧ (r.ret = 0 →
      Slots data r.buf (texts (ps ++ pairs (pending ++ rest))) (2 * r.bufSize)) := by
  induction rest generalizing pre ps st pending with
  | nil =>
    rw [append_nil] at hdata ⊢
    subst hdata
    obtain ⟨r, hfinish, hr⟩ := finish_at h hlt
    exact ⟨r, hfinish, fun _ => hr⟩
  | cons c rest ih =>
    obtain ⟨res, hstep, hgoes⟩ := step_goes h hlt hdata
    rw [parseLoop, hstep]
    cases res with
    | inl r => exact ⟨r, rfl, fun h0 => absurd h0 hgoes⟩
    | inr st' =>
      obtain ⟨ps', pending', hlt', hat, heq⟩ := hgoes
      obtain ⟨r, hloop, hr⟩ := ih hat hlt' (by rw [hdata, ← append_cons])
      rw [heq] at hr
      rw [length_append] at hloop
      exact ⟨r, hloop, hr⟩

--
-- The result
--

/-- The value of the first pair with a key, copied where there is memory. -/
def copied (malloc : Nat → Bool) (key : Bytes) (ps : List (Bytes × Option Bytes)) : Option Bytes :=
  ((ps.find? (·.1 = key)).bind Prod.snd).bind fun t =>
    if malloc (t.length + 1) then some (t ++ [0]) else none

theorem QsBuf.Holds.text {t : Option Bytes} (h : q.Holds data t) : q.text data = t := by
  cases t with
  | none => exact congrArg _ h
  | some t =>
    obtain ⟨x, y, rfl, hb, hl⟩ := h
    rw [QsBuf.text, hb, Option.map_some, drop_left, hl, take_left]

theorem eq_of_cstr {s key : Bytes} (hlen : s.length = key.length)
    (h : cstr s = key) : s = key := by
  have hpre : cstr s <+: s := List.takeWhile_prefix _
  rw [h] at hpre
  exact (hpre.eq_of_length hlen.symm).symm

theorem copyQueryStringValue_eq {malloc : Nat → Bool} {key : Bytes} (hkey : 0 ∉ key)
    (h : buf.Forall₂ (QsBuf.Holds data) (texts ps)) :
    copyQueryStringValue malloc data key buf = copied malloc key ps := by
  induction ps generalizing buf with
  | nil =>
    obtain rfl := forall₂_nil_right_iff.mp h
    rfl
  | cons p ps ih =>
    obtain ⟨k, _, hk, hrest, rfl⟩ := forall₂_cons_right_iff.mp h
    obtain ⟨v, _, hv, htail, rfl⟩ := forall₂_cons_right_iff.mp hrest
    have hlen : k.len = p.1.length := by
      obtain ⟨x, y, -, -, hl⟩ := hk
      exact hl
    rw [copyQueryStringValue, hk.text, hv.text, hlen, cstr_of_noZero hkey, Option.map_some, copied,
      find?_cons]
    by_cases hp : p.1 = key
    · subst hp
      rw [if_pos ⟨rfl, congrArg some (cstr_of_noZero hkey)⟩, decide_eq_true rfl]
      rfl
    · rw [if_neg fun h => hp (eq_of_cstr h.1 (Option.some.inj h.2)), decide_eq_false hp]
      exact ih htail

end Supex.MttpSvp
