import Supex.Lib.Socket
import Supex.Lib.Decimal

/-!
# lredis: reading a reply

`read_reply` of `lib/lredis.lua` takes a line, and behind a `$` or a `*` what the line
announces. A read that times out is made again after the idle callback; `network.read`
hands on what a sized read took so far, and drops what a read of a line took.

* `readline_spec`, `read_ok`, `read_total` — what the two loops return.
* `readReply_advance` — a reply that is returned, or raised, takes bytes.
-/

namespace Supex.Lredis

open Supex.Lib List

/-- What `read_reply` returns. -/
inductive Value where
  | str (s : Bytes)
  | num (n : Int)
  | nil
  | table (vals : List Value)

/-- What a request raises. -/
inductive LredisErr where
  | network (err : IoErr)
  | bulkLength (size : Int)
  | multiLength (n : Int)
  | reply (text : Bytes)
  | unknownPrefix (p : Option UInt8)
  | compareNil
  | send (err : IoErr)
  | noCommand
  | pending
  deriving DecidableEq

--
-- Numbers
--

/-- The nearest number with 53 significant bits, an even one between two of them. -/
def toDouble (n : Nat) : Nat :=
  let bits := n.log2 + 1 - 53
  let q := n / 2 ^ bits
  let half := 2 ^ bits / 2
  if half < n % 2 ^ bits ∨ (half = n % 2 ^ bits ∧ 0 < bits ∧ q % 2 = 1) then (q + 1) * 2 ^ bits
  else q * 2 ^ bits

def isDecimal (s : Bytes) : Bool := s ≠ [] && s.all isDigit

/-- The numerals with decimal digits only; `other` reads the other ones. -/
def tonumber (other : Bytes → Option Int) (s : Bytes) : Option Int :=
  match s with
  | 45 :: digits =>
    if isDecimal digits then some (-(toDouble (digitsVal digits) : Int)) else other s
  | digits => if isDecimal digits then some (toDouble (digitsVal digits)) else other s

--
-- Reads
--

/-- `network.read`: a line without `len`. -/
def networkRead (len : Option Nat) (s : Socket) : Except IoErr Bytes × Socket :=
  match len with
  | none =>
    match recvLine [] s.buffer s.events with
    | (.ok res, s) => (.ok res, s)
    | (.error (err, _), s) => (.error err, s)
  | some len =>
    match recvRaw len s with
    | (.ok res, s) => (.ok res, s)
    | (.error (err, part), s) => (if part = [] then .error err else .ok part, s)

/-- The loop of `readline`. -/
def readlineLoop : Nat → Socket → Except LredisErr Bytes × Socket
  | 0, s => (.error .pending, s)
  | fuel + 1, s =>
    match networkRead none s with
    | (.ok line, s) => (.ok line, s)
    | (.error .timeout, s) => readlineLoop fuel s
    | (.error err, s) => (.error (.network err), s)

def readline (s : Socket) : Except LredisErr Bytes × Socket :=
  readlineLoop (s.events.length + 1) s

/-- The loop of `read`: `data` is there, `size` bytes are to come. -/
def readLoop : Nat → Bytes → Nat → Socket → Except LredisErr Bytes × Socket
  | 0, _, _, s => (.error .pending, s)
  | fuel + 1, data, size, s =>
    match networkRead (some size) s with
    | (.ok part, s) =>
      if size - part.length = 0 then (.ok (data ++ part), s)
      else readLoop fuel (data ++ part) (size - part.length) s
    | (.error .timeout, s) => readLoop fuel data size s
    | (.error err, s) => (.error (.network err), s)

def read (size : Nat) (s : Socket) : Except LredisErr Bytes × Socket :=
  readLoop (s.events.length + 2) [] size s

/-- The `n` replies of a multi-bulk reply. -/
def readItems (reply : Socket → Except LredisErr Value × Socket) :
    Nat → Socket → Except LredisErr (List Value) × Socket
  | 0, s => (.ok [], s)
  | n + 1, s =>
    match reply s with
    | (.error err, s) => (.error err, s)
    | (.ok res, s) =>
      match readItems reply n s with
      | (.error err, s) => (.error err, s)
      | (.ok vals, s) => (.ok (res :: vals), s)

/-- What `read_reply` does behind a line. -/
def replyOf (other : Bytes → Option Int) (reply : Socket → Except LredisErr Value × Socket)
    (line : Bytes) (s : Socket) : Except LredisErr Value × Socket :=
  match line with
  | 36 :: size =>
    match tonumber other size with
    | none => (.error .compareNil, s)
    | some size =>
      if size < 0 then (.error (.bulkLength size), s)
      else
        match read size.toNat s with
        | (.error err, s) => (.error err, s)
        | (.ok data, s) =>
          match read 2 s with
          | (.error err, s) => (.error err, s)
          | (.ok _, s) => (.ok (.str data), s)
  | 43 :: text => (.ok (.str text), s)
  | 42 :: n =>
    match tonumber other n with
    | none => (.error .compareNil, s)
    | some n =>
      if n < 0 then (.error (.multiLength n), s)
      else
        match readItems reply n.toNat s with
        | (.error err, s) => (.error err, s)
        | (.ok vals, s) => (.ok (.table vals), s)
  | 58 :: n =>
    match tonumber other n with
    | none => (.ok .nil, s)
    | some n => (.ok (.num n), s)
  | 45 :: text => (.error (.reply text), s)
  | line => (.error (.unknownPrefix line.head?), s)

/-- `read_reply`; a reply inside another one is read with less fuel. -/
def readReply (other : Bytes → Option Int) : Nat → Socket → Except LredisErr Value × Socket
  | 0, s => (.error .pending, s)
  | fuel + 1, s =>
    match readline s with
    | (.error err, s) => (.error err, s)
    | (.ok line, s) => replyOf other (readReply other fuel) line s

--
-- What the loops return
--

/-- What `readline` did: what was in front of the last timeout before the line feed, `cut`,
is not in the line. -/
inductive Readline (s : Socket) : Except LredisErr Bytes × Socket → Prop where
  | ok (cut x rest : Bytes) (s' : Socket) (stream : s.stream = cut ++ x ++ 10 :: rest)
      (clean : 10 ∉ cut ++ x) (pause : cut = [] ∨ cut.length ∈ s.pauses)
      (quiet : ∀ t ∈ s.pauses, cut.length < t → cut.length + x.length < t)
      (advance : s.Advance (cut.length + x.length + 1) s') :
      Readline s (.ok (x.filter (· ≠ 13)), s')
  | closed (s' : Socket) (clean : 10 ∉ s.stream) : Readline s (.error (.network .closed), s')

variable {s s' : Socket} {fuel size : Nat}

theorem Readline.cut {s₁ : Socket} {c : Nat} {r : Except LredisErr Bytes × Socket}
    (pause : c ∈ s.pauses) (clean : 10 ∉ s.stream.take c) (advance : s.Advance c s₁)
    (h : Readline s₁ r) : Readline s r := by
  have hsplit : s.stream = s.stream.take c ++ s₁.stream := by
    rw [advance.stream, take_append_drop]
  have hlen : (s.stream.take c).length = c := by
    rw [length_take, Nat.min_eq_left advance.le]
  cases h with
  | ok cut x rest s' stream clean' pause' quiet advance' =>
    refine .ok (s.stream.take c ++ cut) x rest s' ?_ ?_ (.inr ?_) (fun t ht hlt => ?_) ?_
    · rw [append_assoc, append_assoc, ← append_assoc cut, ← stream]
      exact hsplit
    · rw [append_assoc, mem_append, not_or]
      exact ⟨clean, clean'⟩
    · rw [length_append, hlen, Nat.add_comm]
      rcases pause' with rfl | hmem
      · rwa [length_nil, Nat.zero_add]
      · by_cases hzero : cut.length = 0
        · rwa [hzero, Nat.zero_add]
        · exact (advance.pauses _ (Nat.pos_of_ne_zero hzero)).mp hmem
    · rw [length_append, hlen] at hlt ⊢
      have hmem : t - c ∈ s₁.pauses := by
        rw [advance.pauses _ (by omega), Nat.sub_add_cancel (by omega)]
        exact ht
      have := quiet _ hmem (by omega)
      omega
    · rw [length_append, hlen, Nat.add_assoc, Nat.add_assoc, ← Nat.add_assoc cut.length]
      exact advance.trans advance'
  | closed s' clean' =>
    refine .closed s' ?_
    rw [hsplit, mem_append, not_or]
    exact ⟨clean, clean'⟩

theorem readlineLoop_spec (hfuel : s.events.length < fuel) : Readline s (readlineLoop fuel s) := by
  induction fuel generalizing s with
  | zero => exact absurd hfuel (Nat.not_lt_zero _)
  | succ fuel ih =>
    rw [readlineLoop, networkRead]
    have hspec : LineRead [] s (recvLine [] s.buffer s.events) := recvLine_spec [] s.buffer s.events
    generalize recvLine [] s.buffer s.events = r at hspec ⊢
    cases hspec with
    | ok x rest s' stream clean quiet advance =>
      exact .ok [] x rest s' stream clean (.inl rfl) (fun t ht _ => by simpa using quiet t ht)
        (by simpa using advance)
    | timeout c line s' pause clean advance events =>
      exact (ih (by omega)).cut pause clean advance
    | closed line s' clean => exact .closed s' clean

theorem readline_spec (s : Socket) : Readline s (readline s) :=
  readlineLoop_spec (Nat.lt_succ_self _)

/-- What `network.read` did with a number of bytes: it returned them, or some of them, or
an error when it had none. -/
inductive BlockRead (size : Nat) (s : Socket) : Except IoErr Bytes × Socket → Prop where
  | full (s' : Socket) (advance : s.Advance size s') :
      BlockRead size s (.ok (s.stream.take size), s')
  | part (c : Nat) (s' : Socket) (pos : 0 < c) (lt : c < size) (advance : s.Advance c s')
      (fewer : s'.events.length < s.events.length ∨
        s.stream.length < size ∧ s'.stream = [] ∧ s'.events = []) :
      BlockRead size s (.ok (s.stream.take c), s')
  | timeout (s' : Socket) (advance : s.Advance 0 s')
      (fewer : s'.events.length < s.events.length) : BlockRead size s (.error .timeout, s')
  | closed (s' : Socket) (short : s.stream.length < size ∨ s.stream = []) :
      BlockRead size s (.error .closed, s')

theorem networkRead_spec (size : Nat) (s : Socket) :
    BlockRead size s (networkRead (some size) s) := by
  rw [networkRead]
  have hspec := recvRaw_spec size s
  generalize recvRaw size s = r at hspec ⊢
  cases hspec with
  | ok s' le advance => exact .full s' advance
  | timeout c s' le advance events =>
    change BlockRead size s (if s.stream.take c = [] then _ else _, s')
    split
    · rename_i hnil
      obtain rfl : c = 0 := by
        have hlen := congrArg List.length hnil
        rw [length_take, Nat.min_eq_left advance.le] at hlen
        exact hlen
      exact .timeout s' advance events
    · rename_i hsome
      have hpos : c ≠ 0 := by
        rintro rfl
        exact hsome take_zero
      exact .part c s' (Nat.pos_of_ne_zero hpos) (le.resolve_right hpos) advance (.inl events)
  | closed s' short advance events =>
    change BlockRead size s (if s.stream = [] then _ else _, s')
    split
    · exact .closed s' short
    · rename_i hsome
      have hlt := short.resolve_right hsome
      have hdrop : s'.stream = [] := by rw [advance.stream, drop_length]
      have hpart := BlockRead.part s.stream.length s' (length_pos_iff.mpr hsome) hlt advance
        (.inr ⟨hlt, hdrop, events⟩)
      rwa [take_length] at hpart

theorem take_advance {c : Nat} (h : s.Advance c s') (hle : c ≤ size) :
    s.stream.take c ++ s'.stream.take (size - c) = s.stream.take size := by
  rw [h.stream, ← take_add, Nat.add_sub_cancel' hle]

theorem length_take_advance {c : Nat} (h : s.Advance c s') : (s.stream.take c).length = c := by
  rw [length_take, Nat.min_eq_left h.le]

theorem readLoop_ok {data res : Bytes} (h : readLoop fuel data size s = (.ok res, s')) :
    res = data ++ s.stream.take size ∧ s.Advance size s' := by
  induction fuel generalizing data size s with
  | zero => cases h
  | succ fuel ih =>
    rw [readLoop] at h
    have hspec := networkRead_spec size s
    generalize networkRead (some size) s = r at hspec h
    cases hspec with
    | full s₁ advance =>
      simp only [length_take_advance advance, Nat.sub_self, if_true] at h
      cases h
      exact ⟨rfl, advance⟩
    | part c s₁ pos lt advance fewer =>
      simp only [length_take_advance advance, if_neg (Nat.sub_ne_zero_of_lt lt)] at h
      obtain ⟨hres, hadv⟩ := ih h
      refine ⟨?_, ?_⟩
      · rw [hres, append_assoc, take_advance advance lt.le]
      · have htrans := advance.trans hadv
        rwa [Nat.add_sub_cancel' lt.le] at htrans
    | timeout s₁ advance fewer =>
      obtain ⟨hres, hadv⟩ := ih h
      refine ⟨?_, ?_⟩
      · rw [hres, advance.stream, drop_zero]
      · have htrans := advance.trans hadv
        rwa [Nat.zero_add] at htrans
    | closed s₁ short => cases h

theorem readLoop_total (data : Bytes) (hfuel : s.events.length < fuel)
    (hsize : size ≤ s.stream.length) (hsome : s.stream ≠ []) :
    ∃ res s', readLoop fuel data size s = (.ok res, s') := by
  induction fuel generalizing data size s with
  | zero => exact absurd hfuel (Nat.not_lt_zero _)
  | succ fuel ih =>
    rw [readLoop]
    have hspec := networkRead_spec size s
    generalize networkRead (some size) s = r at hspec
    cases hspec with
    | full s₁ advance =>
      simp only [length_take_advance advance, Nat.sub_self, if_true]
      exact ⟨_, _, rfl⟩
    | part c s₁ pos lt advance fewer =>
      simp only [length_take_advance advance, if_neg (Nat.sub_ne_zero_of_lt lt)]
      have hlen := advance.length
      refine ih _ (by omega) (by omega) fun hnil => ?_
      rw [hnil, length_nil] at hlen
      omega
    | timeout s₁ advance fewer =>
      have hstream : s₁.stream = s.stream := advance.stream
      exact ih data (by omega) (by rwa [hstream]) (by rwa [hstream])
    | closed s₁ short => exact absurd short (not_or.mpr ⟨Nat.not_lt_of_le hsize, hsome⟩)

theorem read_ok {res : Bytes} (h : read size s = (.ok res, s')) :
    res = s.stream.take size ∧ s.Advance size s' := readLoop_ok h

theorem read_total (hsize : size ≤ s.stream.length) (hsome : s.stream ≠ []) :
    ∃ s', read size s = (.ok (s.stream.take size), s') ∧ s.Advance size s' := by
  obtain ⟨res, s', h⟩ := readLoop_total [] (Nat.lt_add_of_pos_right (Nat.zero_lt_two)) hsize hsome
  obtain ⟨rfl, hadv⟩ := read_ok h
  exact ⟨s', h, hadv⟩

theorem readLoop_error {data : Bytes} {err : LredisErr}
    (h : readLoop fuel data size s = (.error err, s')) (text : Bytes) : err ≠ .reply text := by
  induction fuel generalizing data size s with
  | zero =>
    cases h
    nofun
  | succ fuel ih =>
    rw [readLoop] at h
    split at h
    · split at h
      · cases h
      · exact ih h
    · exact ih h
    · cases h
      nofun

theorem readLoop_ne_pending {data : Bytes}
    (hfuel : s.events.length + 1 < fuel ∨ (s.stream = [] ∧ s.events = [] ∧ 0 < fuel)) :
    (readLoop fuel data size s).1 ≠ .error .pending := by
  induction fuel generalizing data size s with
  | zero => omega
  | succ fuel ih =>
    rw [readLoop]
    have hspec := networkRead_spec size s
    generalize networkRead (some size) s = r at hspec
    cases hspec with
    | full s₁ advance =>
      simp only [length_take_advance advance, Nat.sub_self, if_true]
      nofun
    | part c s₁ pos lt advance fewer =>
      simp only [length_take_advance advance, if_neg (Nat.sub_ne_zero_of_lt lt)]
      have hle := advance.le
      refine ih ?_
      rcases hfuel with hfuel | ⟨hstream, -, -⟩
      · rcases fewer with fewer | ⟨-, hstream, hevents⟩
        · exact .inl (by omega)
        · exact .inr ⟨hstream, hevents, by omega⟩
      · rw [hstream, length_nil] at hle
        omega
    | timeout s₁ advance fewer =>
      refine ih (.inl ?_)
      rcases hfuel with hfuel | ⟨-, hevents, -⟩
      · omega
      · rw [hevents] at fewer
        exact absurd fewer (Nat.not_lt_zero _)
    | closed s₁ short => nofun

theorem read_error {err : LredisErr} (h : read size s = (.error err, s')) :
    (∀ text, err ≠ .reply text) ∧ err ≠ .pending := by
  refine ⟨readLoop_error h, ?_⟩
  rintro rfl
  have hne : (read size s).1 ≠ .error .pending := readLoop_ne_pending (.inl (Nat.lt_succ_self _))
  exact hne (congrArg Prod.fst h)

--
-- What a line leads to
--

/-- What `read_reply` did behind a line. -/
inductive ReplyOf (other : Bytes → Option Int) (reply : Socket → Except LredisErr Value × Socket)
    (line : Bytes) (s : Socket) : Except LredisErr Value × Socket → Prop where
  | status (text : Bytes) (hline : line = 43 :: text) :
      ReplyOf other reply line s (.ok (.str text), s)
  | bulk (tail : Bytes) (size : Int) (data crlf : Bytes) (s₁ s' : Socket)
      (hline : line = 36 :: tail) (number : tonumber other tail = some size)
        (hread : read size.toNat s = (.ok data, s₁))
      (hcrlf : read 2 s₁ = (.ok crlf, s')) : ReplyOf other reply line s (.ok (.str data), s')
  | table (tail : Bytes) (count : Int) (vals : List Value) (s' : Socket) (hline : line = 42 :: tail)
      (number : tonumber other tail = some count)
      (items : readItems reply count.toNat s = (.ok vals, s')) :
      ReplyOf other reply line s (.ok (.table vals), s')
  | num (tail : Bytes) (i : Int) (hline : line = 58 :: tail)
      (number : tonumber other tail = some i) : ReplyOf other reply line s (.ok (.num i), s)
  | nil (tail : Bytes) (hline : line = 58 :: tail) : ReplyOf other reply line s (.ok .nil, s)
  | error (text : Bytes) (hline : line = 45 :: text) :
      ReplyOf other reply line s (.error (.reply text), s)
  | inner (count : Nat) (err : LredisErr) (s' : Socket)
      (items : readItems reply count s = (.error err, s')) :
      ReplyOf other reply line s (.error err, s')
  | raised (err : LredisErr) (s' : Socket) (notReply : ∀ text, err ≠ .reply text)
      (notPending : err ≠ .pending) : ReplyOf other reply line s (.error err, s')

theorem replyOf_spec (other : Bytes → Option Int)
    (reply : Socket → Except LredisErr Value × Socket) (line : Bytes) (s : Socket) :
    ReplyOf other reply line s (replyOf other reply line s) := by
  unfold replyOf
  split
  · split
    · exact .raised _ s nofun nofun
    · rename_i size hsize
      split
      · exact .raised _ s nofun nofun
      · split
        · rename_i err s₁ hread
          exact .raised err s₁ (read_error hread).1 (read_error hread).2
        · rename_i data s₁ hread
          split
          · rename_i err s₂ hcrlf
            exact .raised err s₂ (read_error hcrlf).1 (read_error hcrlf).2
          · rename_i crlf s₂ hcrlf
            exact .bulk _ size data crlf s₁ s₂ rfl hsize hread hcrlf
  · exact .status _ rfl
  · split
    · exact .raised _ s nofun nofun
    · rename_i count hcount
      split
      · exact .raised _ s nofun nofun
      · split
        · rename_i err s₁ hitems
          exact .inner _ err s₁ hitems
        · rename_i vals s₁ hitems
          exact .table _ count vals s₁ rfl hcount hitems
  · split
    · exact .nil _ rfl
    · rename_i i hi
      exact .num _ i rfl hi
  · exact .error _ rfl
  · exact .raised _ s nofun nofun

--
-- Replies take bytes
--

/-- A value, or an error reply. -/
def Answered {α : Type} : Except LredisErr α → Prop
  | .ok _ => True
  | .error err => ∃ text, err = .reply text

variable {other : Bytes → Option Int} {reply : Socket → Except LredisErr Value × Socket}

theorem readItems_advance
    (hreply : ∀ s r s', reply s = (r, s') → Answered r → ∃ n, 0 < n ∧ s.Advance n s') {n : Nat}
    {r : Except LredisErr (List Value)} (h : readItems reply n s = (r, s')) (ha : Answered r) :
    ∃ m, s.Advance m s' ∧ (∀ err, r = .error err → 0 < m) := by
  induction n generalizing s r with
  | zero =>
    cases h
    exact ⟨0, .refl _, nofun⟩
  | succ n ih =>
    rw [readItems] at h
    split at h
    · rename_i err s₁ hfirst
      cases h
      obtain ⟨m, hpos, hadv⟩ := hreply _ _ _ hfirst ha
      exact ⟨m, hadv, fun _ _ => hpos⟩
    · rename_i res s₁ hfirst
      obtain ⟨m, hpos, hadv⟩ := hreply _ _ _ hfirst trivial
      split at h
      · rename_i err s₂ hrest
        cases h
        obtain ⟨m', hadv', -⟩ := ih hrest ha
        exact ⟨m + m', hadv.trans hadv', fun _ _ => Nat.add_pos_left hpos m'⟩
      · rename_i vals s₂ hrest
        cases h
        obtain ⟨m', hadv', -⟩ := ih hrest trivial
        exact ⟨m + m', hadv.trans hadv', nofun⟩

theorem replyOf_advance
    (hreply : ∀ s r s', reply s = (r, s') → Answered r → ∃ n, 0 < n ∧ s.Advance n s') {line : Bytes}
    {r : Except LredisErr Value} (h : replyOf other reply line s = (r, s')) (ha : Answered r) :
    ∃ m, s.Advance m s' := by
  have hspec := replyOf_spec other reply line s
  rw [h] at hspec
  cases hspec with
  | status text hline => exact ⟨0, .refl s⟩
  | bulk tail size data crlf s₁ s' hline number hread hcrlf =>
    exact ⟨_, (read_ok hread).2.trans (read_ok hcrlf).2⟩
  | table tail count vals s' hline number items =>
    obtain ⟨m, hadv, -⟩ := readItems_advance hreply items trivial
    exact ⟨m, hadv⟩
  | num tail i hline number => exact ⟨0, .refl s⟩
  | nil tail hline => exact ⟨0, .refl s⟩
  | error text hline => exact ⟨0, .refl s⟩
  | inner count err s' items =>
    obtain ⟨m, hadv, -⟩ := readItems_advance hreply items ha
    exact ⟨m, hadv⟩
  | raised err s' notReply notPending =>
    obtain ⟨text, rfl⟩ := ha
    exact absurd rfl (notReply text)

theorem readReply_advance {r : Except LredisErr Value} (h : readReply other fuel s = (r, s'))
    (ha : Answered r) : ∃ n, 0 < n ∧ s.Advance n s' := by
  induction fuel generalizing s r s' with
  | zero =>
    cases h
    exact absurd ha nofun
  | succ fuel ih =>
    rw [readReply] at h
    have hline := readline_spec s
    generalize readline s = l at hline h
    cases hline with
    | ok cut x rest s₁ stream clean pause quiet advance =>
      obtain ⟨m, hadv⟩ := replyOf_advance (fun s r s' h ha => ih h ha) h ha
      exact ⟨_, by omega, advance.trans hadv⟩
    | closed s₁ clean =>
      cases h
      exact absurd ha nofun

--
-- The fuel is enough
--

theorem readItems_ne_pending (hreply : ∀ s, s.stream.length < fuel → (reply s).1 ≠ .error .pending)
    (hadv : ∀ s r s', reply s = (r, s') → Answered r → ∃ n, 0 < n ∧ s.Advance n s') {n : Nat}
    (hs : s.stream.length < fuel) : (readItems reply n s).1 ≠ .error .pending := by
  induction n generalizing s with
  | zero => nofun
  | succ n ih =>
    rw [readItems]
    have hfirst := hreply s hs
    split
    · rename_i err s₁ heq
      rw [heq] at hfirst
      exact fun h => hfirst (congrArg _ (Except.error.inj h))
    · rename_i res s₁ heq
      obtain ⟨m, -, hm⟩ := hadv _ _ _ heq trivial
      have hlen := hm.length
      have hrest := ih (s := s₁) (by omega)
      split
      · rename_i err s₂ heq'
        rw [heq'] at hrest
        exact fun h => hrest (congrArg _ (Except.error.inj h))
      · nofun

theorem replyOf_ne_pending (hreply : ∀ s, s.stream.length < fuel → (reply s).1 ≠ .error .pending)
    (hadv : ∀ s r s', reply s = (r, s') → Answered r → ∃ n, 0 < n ∧ s.Advance n s') {line : Bytes}
    (hs : s.stream.length < fuel) : (replyOf other reply line s).1 ≠ .error .pending := by
  have hspec := replyOf_spec other reply line s
  generalize replyOf other reply line s = r at hspec
  cases hspec with
  | inner count err s' items =>
    have hitems := readItems_ne_pending hreply hadv (n := count) hs
    rw [items] at hitems
    exact fun h => hitems (congrArg _ (Except.error.inj h))
  | raised err s' notReply notPending => exact fun h => notPending (Except.error.inj h)
  | _ => nofun

theorem readReply_ne_pending (hfuel : s.stream.length < fuel) :
    (readReply other fuel s).1 ≠ .error .pending := by
  induction fuel generalizing s with
  | zero => exact absurd hfuel (Nat.not_lt_zero _)
  | succ fuel ih =>
    rw [readReply]
    have hline := readline_spec s
    generalize readline s = l at hline
    cases hline with
    | ok cut x rest s₁ stream clean pause quiet advance =>
      have hlen := advance.length
      exact replyOf_ne_pending (fun s hs => ih hs) (fun _ _ _ h ha => readReply_advance h ha)
        (by omega)
    | closed s₁ clean => nofun

end Supex.Lredis
