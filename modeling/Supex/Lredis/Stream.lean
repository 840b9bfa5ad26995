import Supex.Lredis.Reply
import Supex.Lib.Delimited

/-!
# lredis: the stream of replies

`custom_request` of `lib/lredis.lua` sends a request and reads one reply, so that the k-th
request takes the k-th reply of the stream as long as every read takes exactly one. What a
timeout takes out of a line is lost, and a number of more than 53 bits is rounded.

* `readReply_whole` — a reply whose lines are not cut is read as it was sent.

Main result: `readReply_late`.
-/

namespace Supex.Lredis

open Supex.Lib List

--
-- Requests
--

def decimal (n : Nat) : Bytes := decDigits (n + 1) n

def onLine (line : Bytes) : Bytes := line ++ [13, 10]

def genReq (args : List Bytes) : Bytes :=
  onLine (42 :: decimal args.length) ++
    (args.map fun arg => onLine (36 :: decimal arg.length) ++ onLine arg).flatten

/-- What the `send` of the socket returns. -/
inductive Send where
  | sent (out : Nat)
  | failed (err : IoErr)
  deriving DecidableEq

/-- The loop that writes a request. -/
def writeLoop : List Send → Bytes → Except LredisErr Unit
  | [], _ => .error .pending
  | .failed err :: _, _ => .error (.send err)
  | .sent out :: sends, req =>
    if req.drop out = [] then .ok () else writeLoop sends (req.drop out)

structure Call where
  args : List Bytes
  sends : List Send

/-- `custom_request`, an idle callback being registered: the socket does not block. -/
def customRequest (other : Bytes → Option Int) (c : Call) (s : Socket) :
    Except LredisErr Value × Socket :=
  if c.args = [] then (.error .noCommand, s)
  else
    match writeLoop c.sends (genReq c.args) with
    | .error err => (.error err, s)
    | .ok () => readReply other (s.stream.length + 1) s

/-- Requests one after the other: what each of them returns, and what is left then. -/
def requests (other : Bytes → Option Int) :
    List Call → Socket → List (Except LredisErr Value × Socket)
  | [], _ => []
  | c :: calls, s =>
    let r := customRequest other c s
    r :: requests other calls r.2

/-- The request goes out. -/
def Call.Sent (c : Call) : Prop := c.args ≠ [] ∧ writeLoop c.sends (genReq c.args) = .ok ()

--
-- Replies
--

/-- The text of a status or of an error. -/
structure Line where
  bytes : Bytes
  noCr : 13 ∉ bytes
  noLf : 10 ∉ bytes

inductive Reply where
  | status (text : Line)
  | int (i : Int)
  | bulk (bs : Bytes)
  | array (items : List Reply)

inductive Answer where
  | reply (r : Reply)
  | error (text : Line)

def intText (i : Int) : Bytes := if i < 0 then 45 :: decimal i.natAbs else decimal i.natAbs

mutual

/-- The bytes that are sent. -/
def Reply.encode : Reply → Bytes
  | .status text => onLine (43 :: text.bytes)
  | .int i => onLine (58 :: intText i)
  | .bulk bs => onLine (36 :: decimal bs.length) ++ onLine bs
  | .array items => onLine (42 :: decimal items.length) ++ encodeAll items

def encodeAll : List Reply → Bytes
  | [] => []
  | r :: items => r.encode ++ encodeAll items

end

mutual

def Reply.value : Reply → Value
  | .status text => .str text.bytes
  | .int i => .num i
  | .bulk bs => .str bs
  | .array items => .table (valueAll items)

def valueAll : List Reply → List Value
  | [] => []
  | r :: items => r.value :: valueAll items

end

def Answer.encode : Answer → Bytes
  | .reply r => r.encode
  | .error text => onLine (45 :: text.bytes)

/-- What a request has to return, or to raise. -/
def Answer.result : Answer → Except LredisErr Value
  | .reply r => .ok r.value
  | .error text => .error (.reply text.bytes)

def encodeAnswers (answers : List Answer) : Bytes := (answers.map Answer.encode).flatten

--
-- Lines that are not cut
--

/-- No timeout inside of the `len` bytes from `start` on. -/
def Uncut (pauses : List Nat) (start len : Nat) : Prop :=
  ∀ t ∈ pauses, ¬(start < t ∧ t < start + len)

instance (pauses : List Nat) (start len : Nat) : Decidable (Uncut pauses start len) :=
  inferInstanceAs (Decidable (∀ t ∈ pauses, ¬(start < t ∧ t < start + len)))

/-- The number has 53 significant bits. -/
def Exact (n : Nat) : Prop := toDouble n = n

mutual

/-- No line of the reply at `start` is cut by a timeout, and its numbers are exact. -/
def Reply.Whole (pauses : List Nat) : Nat → Reply → Prop
  | start, .status text => Uncut pauses start (onLine (43 :: text.bytes)).length
  | start, .int i => Uncut pauses start (onLine (58 :: intText i)).length ∧ Exact i.natAbs
  | start, .bulk bs =>
    Uncut pauses start (onLine (36 :: decimal bs.length)).length ∧ Exact bs.length
  | start, .array items =>
    let head := onLine (42 :: decimal items.length)
    Uncut pauses start head.length ∧ Exact items.length ∧
      wholeAll pauses (start + head.length) items

def wholeAll (pauses : List Nat) : Nat → List Reply → Prop
  | _, [] => True
  | start, r :: items =>
    r.Whole pauses start ∧ wholeAll pauses (start + r.encode.length) items

end

def Answer.Whole (pauses : List Nat) (start : Nat) : Answer → Prop
  | .reply r => r.Whole pauses start
  | .error text => Uncut pauses start (onLine (45 :: text.bytes)).length

def AnswersWhole (pauses : List Nat) : Nat → List Answer → Prop
  | _, [] => True
  | start, a :: answers =>
    a.Whole pauses start ∧ AnswersWhole pauses (start + a.encode.length) answers

--
-- Numerals
--

theorem exact_of_le {n : Nat} (h : n ≤ 2 ^ 53) : Exact n := by
  rcases h.eq_or_lt with rfl | hlt
  · rfl
  · have hbits : n.log2 + 1 - 53 = 0 := by
      by_cases hzero : n = 0
      · rw [hzero]
        rfl
      · have := (Nat.log2_lt hzero).mpr hlt
        omega
    simp [Exact, toDouble, hbits, Nat.mod_one]

theorem isDecimal_decimal (n : Nat) : isDecimal (decimal n) = true := by
  rw [isDecimal, Bool.and_eq_true, decide_eq_true_eq, all_eq_true]
  exact ⟨decDigits_ne_nil n n, decDigits_isDigit _ _⟩

theorem digitsVal_decimal (n : Nat) : digitsVal (decimal n) = n :=
  digitsVal_decDigits ((Nat.lt_pow_self (by decide)).trans (Nat.pow_lt_pow_succ (by decide)))

variable {other : Bytes → Option Int} {reply : Socket → Except LredisErr Value × Socket}

theorem tonumber_decimal (n : Nat) : tonumber other (decimal n) = some (toDouble n : Int) := by
  unfold tonumber
  split
  · rename_i digits heq
    have hmem : 45 ∈ decimal n := by
      rw [heq]
      exact .head _
    exact absurd (decDigits_isDigit _ _ _ hmem) (by decide)
  · rw [if_pos (isDecimal_decimal n), digitsVal_decimal]

theorem tonumber_intText (i : Int) :
    tonumber other (intText i) =
      some (if i < 0 then -(toDouble i.natAbs : Int) else toDouble i.natAbs) := by
  unfold intText
  split
  · simp only [tonumber, isDecimal_decimal, digitsVal_decimal, if_true]
  · exact tonumber_decimal i.natAbs

/-- What numerals are made of. -/
def Numeral (s : Bytes) : Prop := ∀ b ∈ s, isDigit b = true ∨ b = 45

theorem numeral_decimal (n : Nat) : Numeral (decimal n) :=
  fun b hb => .inl (decDigits_isDigit _ _ b hb)

theorem numeral_intText (i : Int) : Numeral (intText i) := by
  unfold intText
  split
  · intro b hb
    rcases mem_cons.mp hb with rfl | hb
    · exact .inr rfl
    · exact numeral_decimal _ b hb
  · exact numeral_decimal _

theorem Numeral.notMem {s : Bytes} (h : Numeral s) {b : UInt8} (hb : b < 45) : b ∉ s := by
  intro hmem
  rcases h b hmem with hdigit | rfl
  · have := (isDigit_bounds hdigit).1
    exact absurd (UInt8.lt_iff_toNat_lt.mp hb) (by simp; omega)
  · exact absurd hb (by decide)

theorem Numeral.header {b : UInt8} {tail : Bytes} (h : Numeral tail)
    (hb : b = 58 ∨ b = 36 ∨ b = 42) : 13 ∉ b :: tail ∧ 10 ∉ b :: tail := by
  constructor <;>
  · intro hmem
    rcases mem_cons.mp hmem with rfl | hmem
    · exact absurd hb (by decide)
    · exact h.notMem (by decide) hmem

--
-- Replies that are not cut
--

variable {s₀ s s₁ s' : Socket} {n : Nat}

variable {x : Bytes} {fuel : Nat} {r : Reply} {items : List Reply}

theorem filter_cr (hcr : 13 ∉ x) : (x ++ [13]).filter (· ≠ 13) = x := by
  have hx : x.filter (· ≠ 13) = x :=
    filter_eq_self.mpr fun b hb => decide_eq_true fun h : b = 13 => hcr (h ▸ hb)
  rw [filter_append, hx]
  exact append_nil x

theorem length_onLine (x : Bytes) : (onLine x).length = x.length + 2 := length_append

theorem stream_of_advance {e rest : Bytes} (h : s₀.Advance n s) (hs : s.stream = e ++ rest)
    (h' : s₀.Advance (n + e.length) s') : s'.stream = rest := by
  rw [h'.stream, ← drop_drop, ← h.stream, hs, drop_left]

theorem readline_onLine {rest : Bytes} (hadv : s₀.Advance n s) (hs : s.stream = onLine x ++ rest)
    (hlf : 10 ∉ x) :
    ∃ cut y s₁, readline s = (.ok (y.filter (· ≠ 13)), s₁) ∧ cut ++ y = x ++ [13] ∧
      s₀.Advance (n + (onLine x).length) s₁ ∧
      (cut = [] ↔ Uncut s₀.pauses n (onLine x).length) := by
  have hline : s.stream = (x ++ [13]) ++ 10 :: rest := by
    rw [hs, onLine, append_assoc, append_assoc]
    rfl
  have hspec := readline_spec s
  generalize readline s = r at hspec
  cases hspec with
  | ok cut y rest' s₁ stream clean pause quiet advance =>
    have hclean : 10 ∉ x ++ [13] := by simpa using hlf
    obtain ⟨hcut, -⟩ := append_cons_inj clean hclean (stream.symm.trans hline)
    have hlen : cut.length + y.length = x.length + 1 := by
      simpa using congrArg List.length hcut
    refine ⟨cut, y, s₁, rfl, hcut, ?_, ?_, ?_⟩
    · rw [hlen] at advance
      rw [length_onLine]
      exact hadv.trans advance
    · rintro rfl t ht ⟨hlo, hhi⟩
      have hmem : t - n ∈ s.pauses := by
        rw [hadv.pauses _ (by omega), Nat.sub_add_cancel hlo.le]
        exact ht
      have := quiet _ hmem (Nat.sub_pos_of_lt hlo)
      rw [length_onLine] at hhi
      omega
    · intro huncut
      by_contra hne
      have hpos : 0 < cut.length := length_pos_iff.mpr hne
      have hmem := (hadv.pauses _ hpos).mp (pause.resolve_left hne)
      refine huncut _ hmem ⟨by omega, ?_⟩
      rw [length_onLine]
      omega
  | closed s₁ clean =>
    rw [hline] at clean
    simp at clean

theorem readline_uncut {rest : Bytes} (hadv : s₀.Advance n s) (hs : s.stream = onLine x ++ rest)
    (hcr : 13 ∉ x) (hlf : 10 ∉ x) (huncut : Uncut s₀.pauses n (onLine x).length) :
    ∃ s₁, readline s = (.ok x, s₁) ∧ s₁.stream = rest ∧ s₀.Advance (n + (onLine x).length) s₁ := by
  obtain ⟨cut, y, s₁, hread, hcut, hadv₁, hiff⟩ := readline_onLine hadv hs hlf
  obtain rfl := hiff.mpr huncut
  obtain rfl : y = x ++ [13] := hcut
  rw [filter_cr hcr] at hread
  exact ⟨s₁, hread, stream_of_advance hadv hs hadv₁, hadv₁⟩

theorem readItems_whole {rest : Bytes} (hadv : s₀.Advance n s)
    (hs : s.stream = encodeAll items ++ rest) (hwhole : wholeAll s₀.pauses n items)
    (hreply : ∀ r ∈ items, ∀ {n s rest}, s₀.Advance n s → s.stream = r.encode ++ rest →
      r.Whole s₀.pauses n →
      ∃ s', reply s = (.ok r.value, s') ∧ s₀.Advance (n + r.encode.length) s') :
    ∃ s', readItems reply items.length s = (.ok (valueAll items), s') ∧
      s₀.Advance (n + (encodeAll items).length) s' := by
  induction items generalizing n s with
  | nil => exact ⟨s, rfl, hadv⟩
  | cons r items ih =>
    rw [encodeAll, append_assoc] at hs
    obtain ⟨hr, hitems⟩ := hwhole
    obtain ⟨s₁, hread, hadv₁⟩ := hreply r (.head _) hadv hs hr
    obtain ⟨s', hrest, hadv'⟩ := ih hadv₁ (stream_of_advance hadv hs hadv₁) hitems
      fun r' hr' => hreply r' (.tail _ hr')
    refine ⟨s', ?_, ?_⟩
    · rw [length_cons, readItems, hread]
      simp only [hrest]
      rfl
    · rw [encodeAll, length_append, ← Nat.add_assoc]
      exact hadv'

theorem length_encode_pos (r : Reply) : 0 < r.encode.length := by
  cases r <;> simp [Reply.encode, onLine]

theorem length_encode_le (h : r ∈ items) : r.encode.length ≤ (encodeAll items).length := by
  induction items with
  | nil => cases h
  | cons r' items ih =>
    rw [encodeAll, length_append]
    rcases mem_cons.mp h with rfl | h
    · omega
    · have := ih h
      omega

theorem readReply_whole {rest : Bytes} (hadv : s₀.Advance n s) (hs : s.stream = r.encode ++ rest)
    (hwhole : r.Whole s₀.pauses n) (hfuel : r.encode.length ≤ fuel) :
    ∃ s', readReply other fuel s = (.ok r.value, s') ∧ s₀.Advance (n + r.encode.length) s' := by
  induction fuel generalizing r n s rest with
  | zero => exact absurd (length_encode_pos r) (Nat.not_lt_of_le hfuel)
  | succ fuel ih =>
    cases r with
    | status text =>
      obtain ⟨s₁, hline, -, hadv₁⟩ := readline_uncut hadv hs
        (by simpa using text.noCr) (by simpa using text.noLf) hwhole
      refine ⟨s₁, ?_, hadv₁⟩
      rw [readReply, hline]
      rfl
    | int i =>
      obtain ⟨hcr, hlf⟩ := (numeral_intText i).header (.inl rfl)
      obtain ⟨s₁, hline, -, hadv₁⟩ := readline_uncut hadv hs hcr hlf hwhole.1
      refine ⟨s₁, ?_, hadv₁⟩
      have hval : (if i < 0 then -(toDouble i.natAbs : Int) else toDouble i.natAbs) = i := by
        rw [hwhole.2]
        omega
      rw [readReply, hline]
      simp only [replyOf, tonumber_intText, hval]
      rfl
    | bulk bs =>
      obtain ⟨hcr, hlf⟩ := (numeral_decimal bs.length).header (.inr (.inl rfl))
      rw [Reply.encode, append_assoc] at hs
      obtain ⟨s₁, hline, hs₁, hadv₁⟩ := readline_uncut hadv hs hcr hlf hwhole.1
      rw [onLine, append_assoc] at hs₁
      have hsize₁ : bs.length ≤ s₁.stream.length := by simp [hs₁]
      obtain ⟨s₂, hread, hadv₂⟩ := read_total hsize₁ (by simp [hs₁])
      have hs₂ : s₂.stream = [13, 10] ++ rest := by
        rw [hadv₂.stream, hs₁, drop_left]
      have hsize₂ : 2 ≤ s₂.stream.length := by simp [hs₂]
      obtain ⟨s₃, hcrlf, hadv₃⟩ := read_total hsize₂ (by simp [hs₂])
      refine ⟨s₃, ?_, ?_⟩
      · have hdata : s₁.stream.take bs.length = bs := by rw [hs₁, take_left]
        have hsize : ¬((toDouble bs.length : Nat) : Int) < 0 := by omega
        rw [hdata] at hread
        rw [readReply, hline]
        simp only [replyOf, tonumber_decimal, if_neg hsize]
        rw [hwhole.2, Int.toNat_natCast, hread]
        simp only [hcrlf]
        rfl
      · rw [Reply.encode, length_append, length_onLine bs, ← Nat.add_assoc, ← Nat.add_assoc]
        exact (hadv₁.trans hadv₂).trans hadv₃
    | array items =>
      obtain ⟨hcr, hlf⟩ := (numeral_decimal items.length).header (.inr (.inr rfl))
      rw [Reply.encode, append_assoc] at hs
      rw [Reply.encode, length_append, length_onLine] at hfuel
      obtain ⟨huncut, hexact, hitems⟩ := hwhole
      obtain ⟨s₁, hline, hs₁, hadv₁⟩ := readline_uncut hadv hs hcr hlf huncut
      obtain ⟨s', hread, hadv'⟩ := readItems_whole hadv₁ hs₁ hitems
        fun r hr _ _ _ hadv hs hwhole => ih hadv hs hwhole (by have := length_encode_le hr; omega)
      refine ⟨s', ?_, ?_⟩
      · have hcount : ¬((toDouble items.length : Nat) : Int) < 0 := by omega
        rw [readReply, hline]
        simp only [replyOf, tonumber_decimal, if_neg hcount]
        rw [hexact, Int.toNat_natCast, hread]
        rfl
      · rw [Reply.encode, length_append, ← Nat.add_assoc]
        exact hadv'

--
-- What a line leads to
--

theorem replyOf_str {line t : Bytes} (h : replyOf other reply line s = (.ok (.str t), s')) :
    (line = 43 :: t ∧ s' = s) ∨ ∃ tail size, line = 36 :: tail ∧ tonumber other tail = some size ∧
      size.toNat = t.length ∧ s.Advance (t.length + 2) s' := by
  have hspec := replyOf_spec other reply line s
  rw [h] at hspec
  cases hspec with
  | status text hline => exact .inl ⟨hline, rfl⟩
  | bulk tail size data crlf s₁ s' hline number hread hcrlf =>
    obtain ⟨rfl, hadv⟩ := read_ok hread
    have hlen := length_take_advance hadv
    refine .inr ⟨tail, size, hline, number, hlen.symm, ?_⟩
    rw [hlen]
    exact hadv.trans (read_ok hcrlf).2

theorem replyOf_num {line : Bytes} {i : Int} (h : replyOf other reply line s = (.ok (.num i), s')) :
    ∃ tail, line = 58 :: tail ∧ tonumber other tail = some i := by
  have hspec := replyOf_spec other reply line s
  rw [h] at hspec
  cases hspec with
  | num tail i hline number => exact ⟨tail, hline, number⟩

theorem replyOf_table {line : Bytes} {vals : List Value}
    (h : replyOf other reply line s = (.ok (.table vals), s')) :
    ∃ tail count, line = 42 :: tail ∧ tonumber other tail = some count ∧
      readItems reply count.toNat s = (.ok vals, s') := by
  have hspec := replyOf_spec other reply line s
  rw [h] at hspec
  cases hspec with
  | table tail count vals s' hline number items => exact ⟨tail, count, hline, number, items⟩

theorem replyOf_reply {line text : Bytes}
    (h : replyOf other reply line s = (.error (.reply text), s')) :
    line = 45 :: text ∨ ∃ count, readItems reply count s = (.error (.reply text), s') := by
  have hspec := replyOf_spec other reply line s
  rw [h] at hspec
  cases hspec with
  | error text hline => exact .inl hline
  | inner count err s' items => exact .inr ⟨count, items⟩
  | raised err s' notReply notPending => exact absurd rfl (notReply text)

theorem replyOf_numeral {line : Bytes} {v : Value} (hnum : Numeral line) :
    replyOf other reply line s ≠ (.ok v, s') := by
  have hhead {b : UInt8} (hb : ¬(isDigit b = true ∨ b = 45)) {tail : Bytes} : line ≠ b :: tail := by
    rintro rfl
    exact hb (hnum b (.head _))
  intro h
  have hspec := replyOf_spec other reply line s
  rw [h] at hspec
  cases hspec with
  | status text hline => exact hhead (by decide) hline
  | bulk tail size data crlf s₁ s' hline number hread hcrlf => exact hhead (by decide) hline
  | table tail count vals s' hline number items => exact hhead (by decide) hline
  | num tail i hline number => exact hhead (by decide) hline
  | nil tail hline => exact hhead (by decide) hline

--
-- A reader that lost bytes
--

/-- What is left of the text is less than all of it. -/
def Late (s : Socket) (text : Bytes) : Prop := ∃ p, p ≠ [] ∧ text = p ++ s.stream

theorem Late.advance {text : Bytes} (h : Late s text) (hadv : s.Advance n s') : Late s' text := by
  obtain ⟨p, hp, rfl⟩ := h
  refine ⟨p ++ s.stream.take n, append_ne_nil_of_left_ne_nil hp _, ?_⟩
  rw [hadv.stream, append_assoc, take_append_drop]

theorem Late.of_advance (hadv : s.Advance n s') (hpos : 0 < n) : Late s' s.stream := by
  refine ⟨s.stream.take n, fun hnil => ?_, ?_⟩
  · have hlen := length_take_advance hadv
    rw [hnil, length_nil] at hlen
    omega
  · rw [hadv.stream, take_append_drop]

theorem Late.rest {e rest : Bytes} (h : Late s (e ++ rest)) (hlt : s.stream.length < rest.length) :
    Late s rest := by
  obtain ⟨p, hp, heq⟩ := h
  rcases append_eq_append_iff.mp heq with ⟨as, rfl, hrest⟩ | ⟨bs, rfl, hrest⟩
  · refine ⟨as, ?_, hrest⟩
    rintro rfl
    rw [hrest, nil_append] at hlt
    exact absurd hlt (Nat.lt_irrefl _)
  · rw [hrest, length_append] at hlt
    omega

theorem line_late {b : UInt8} {tail p : Bytes} (hcr : 13 ∉ tail) (hp : p ≠ [])
    (h : p ++ x = b :: tail ++ [13]) : ∃ u, tail = u ++ x.filter (· ≠ 13) := by
  obtain ⟨c, p, rfl⟩ := exists_cons_of_ne_nil hp
  have htail : p ++ x = tail ++ [13] := (List.cons.inj h).2
  refine ⟨p.filter (· ≠ 13), ?_⟩
  rw [← filter_append, htail, filter_cr hcr]

theorem header_late {b : UInt8} {tail body p q : Bytes} (hnum : Numeral tail) (hp : p ≠ [])
    (hx : 10 ∉ x) (hb : b ≠ 10) (h : onLine (b :: tail) ++ body = p ++ x ++ 10 :: q) :
    Numeral (x.filter (· ≠ 13)) ∨ ∃ w, body = w ++ x ++ 10 :: q := by
  have hclean : 10 ∉ b :: tail ++ [13] := by
    have htail := hnum.notMem (b := 10) (by decide)
    simp [htail, hb.symm]
  have hsplit : (b :: tail ++ [13]) ++ 10 :: body = p ++ x ++ 10 :: q := by
    rw [← h, onLine, append_assoc, append_assoc]
    rfl
  rcases append_cons_cases hclean hsplit with ⟨hline, -⟩ | ⟨z, hz, hbody⟩
  · obtain ⟨u, rfl⟩ := line_late (hnum.notMem (by decide)) hp hline.symm
    exact .inl fun c hc => hnum c (mem_append_right u hc)
  · obtain ⟨w, rfl⟩ := suffix_of_notMem hx hz
    exact .inr ⟨w, hbody⟩

theorem readItems_late {rest : Bytes}
    (hreply : ∀ r ∈ items, ∀ {s s' rest}, Late s (r.encode ++ rest) →
      reply s = (.ok r.value, s') → Late s' rest) (hlate : Late s (encodeAll items ++ rest))
    {count : Nat} (hread : readItems reply count s = (.ok (valueAll items), s')) :
    Late s' rest := by
  induction items generalizing s count with
  | nil =>
    cases count with
    | zero =>
      cases hread
      exact hlate
    | succ count =>
      rw [readItems] at hread
      split at hread
      · cases hread
      · split at hread <;> cases hread
  | cons r items ih =>
    cases count with
    | zero => cases hread
    | succ count =>
      rw [readItems] at hread
      split at hread
      · cases hread
      · rename_i res s₁ hfirst
        split at hread
        · cases hread
        · rename_i vals s₂ hrest
          cases hread
          rw [encodeAll, append_assoc] at hlate
          exact ih (fun r' hr' => hreply r' (.tail _ hr'))
            (hreply r (.head _) hlate hfirst) hrest

theorem replyOf_late {p q rest : Bytes} (he : r.encode = p ++ x ++ 10 :: q) (hp : p ≠ [])
    (hx : 10 ∉ x) (hs : s.stream = q ++ rest)
    (hreply : ∀ (r : Reply) s s' rest, Late s (r.encode ++ rest) →
      reply s = (.ok r.value, s') → Late s' rest)
    (hread : replyOf other reply (x.filter (· ≠ 13)) s = (.ok r.value, s')) : Late s' rest := by
  cases r with
  | status text =>
    have hclean : 10 ∉ 43 :: text.bytes ++ [13] := by simpa using text.noLf
    have hsplit : (43 :: text.bytes ++ [13]) ++ 10 :: [] = p ++ x ++ 10 :: q := by
      rw [← he, Reply.encode, onLine, append_assoc]
      rfl
    rcases append_cons_cases hclean hsplit with ⟨hline, hq⟩ | ⟨w, -, hw⟩
    · obtain ⟨u, hu⟩ := line_late text.noCr hp hline.symm
      rcases replyOf_str hread with ⟨htext, -⟩ | ⟨_, _, -, -, -, hadv⟩
      · have hlen := congrArg List.length hu
        rw [htext, length_append, length_cons] at hlen
        omega
      · rw [← hq, nil_append] at hs
        exact hs ▸ Late.of_advance hadv (by omega)
    · simp at hw
  | int i =>
    rw [Reply.encode, ← append_nil (onLine _)] at he
    rcases header_late (numeral_intText i) hp hx (by decide) he with hnum | ⟨w, hw⟩
    · exact absurd hread (replyOf_numeral hnum)
    · simp at hw
  | bulk bs =>
    rcases header_late (numeral_decimal _) hp hx (by decide) he with hnum | ⟨w, hw⟩
    · exact absurd hread (replyOf_numeral hnum)
    · have hlen : bs.length + 2 = w.length + (x.length + (q.length + 1)) := by
        simpa [onLine] using congrArg List.length hw
      have hline : (x.filter (· ≠ 13)).length ≤ bs.length := by
        have hfilter := congrArg (fun l => (l.filter (· ≠ 13)).length) hw
        have hle := length_filter_le (· ≠ (13 : UInt8)) bs
        simp only [onLine, filter_append, length_append] at hfilter
        simp at hfilter hle ⊢
        omega
      rcases replyOf_str hread with ⟨htext, -⟩ | ⟨_, _, hsome, -, -, hadv⟩
      · rw [htext, length_cons] at hline
        omega
      · have hlate : Late s' (q ++ rest) := hs ▸ Late.of_advance hadv (by omega)
        refine hlate.rest ?_
        have hadvlen := hadv.length
        rw [hs, length_append] at hadvlen
        omega
  | array items =>
    rcases header_late (numeral_decimal _) hp hx (by decide) he with hnum | ⟨w, hw⟩
    · exact absurd hread (replyOf_numeral hnum)
    · obtain ⟨tail, count, -, -, hitems⟩ := replyOf_table hread
      refine readItems_late (fun r _ _ _ _ => hreply r _ _ _) ⟨w ++ x ++ [10], by simp, ?_⟩ hitems
      rw [hw, hs]
      simp

theorem late_line {e rest p rest' : Bytes} (h : e ++ rest = p ++ x ++ 10 :: rest')
    (hs : s.stream = rest') :
    (∃ q, e = p ++ x ++ 10 :: q ∧ s.stream = q ++ rest) ∨ Late s rest := by
  rcases append_eq_append_iff.mp h with ⟨as, hpx, hrest⟩ | ⟨bs, he, hbs⟩
  · refine .inr ⟨as ++ [10], by simp, ?_⟩
    rw [hrest, hs]
    simp
  · rcases bs with _ | ⟨b, q⟩
    · refine .inr ⟨[10], by simp, ?_⟩
      rw [hs]
      exact hbs.symm
    · obtain ⟨rfl, hq⟩ := List.cons.inj hbs
      exact .inl ⟨q, he, hs.trans hq⟩

/-- **A reader that lost bytes of a reply, and returns it, lost bytes of what is behind it.** -/
theorem readReply_late {rest : Bytes} (hlate : Late s (r.encode ++ rest))
    (hread : readReply other fuel s = (.ok r.value, s')) : Late s' rest := by
  induction fuel generalizing r s s' rest with
  | zero => cases hread
  | succ fuel ih =>
    rw [readReply] at hread
    have hspec := readline_spec s
    generalize readline s = l at hspec hread
    cases hspec with
    | ok cut x rest' s₁ stream clean pause quiet advance =>
      obtain ⟨p, hp, hsplit⟩ := hlate
      have hs₁ : s₁.stream = rest' := by
        have hstream : s.stream = (cut ++ x ++ [10]) ++ rest' := by
          rw [stream, append_assoc _ [10]]
          rfl
        rw [advance.stream, hstream]
        exact drop_left' (by rw [length_append, length_append]; rfl)
      have htext : r.encode ++ rest = (p ++ cut) ++ x ++ 10 :: rest' := by
        rw [hsplit, stream]
        simp
      rcases late_line htext hs₁ with ⟨q, he, hq⟩ | hlate
      · exact replyOf_late he (append_ne_nil_of_left_ne_nil hp _)
          (fun hmem => clean (mem_append_right cut hmem)) hq
          (fun r s s' rest h => ih h) hread
      · obtain ⟨m, hadv⟩ := replyOf_advance (fun _ _ _ h ha => readReply_advance h ha) hread trivial
        exact hlate.advance hadv
    | closed s₁ clean => cases hread

theorem late_of_cut {b : UInt8} {tail body rest : Bytes} (hadv : s₀.Advance n s)
    (he : r.encode = onLine (b :: tail) ++ body) (hs : s.stream = r.encode ++ rest)
    (hclean : 10 ∉ b :: tail) (hcut : ¬Uncut s₀.pauses n (onLine (b :: tail)).length)
    (hread : readReply other (fuel + 1) s = (.ok r.value, s')) : Late s' rest := by
  have hline : s.stream = onLine (b :: tail) ++ (body ++ rest) := by
    rw [hs, he, append_assoc]
  obtain ⟨cut, y, s₁, hfirst, hsplit, hadv₁, hiff⟩ := readline_onLine hadv hline hclean
  have hs₁ := stream_of_advance hadv hline hadv₁
  rw [readReply, hfirst] at hread
  refine replyOf_late (q := body) ?_ (mt hiff.mp hcut) ?_ hs₁
    (fun _ _ _ _ h => readReply_late h) hread
  · rw [hsplit, he, onLine]
    simp
  · intro hmem
    have hmem : 10 ∈ b :: tail ++ [13] := hsplit ▸ mem_append_right cut hmem
    rcases mem_append.mp hmem with hmem | hmem
    · exact hclean hmem
    · exact absurd hmem (by decide)

theorem length_readItems {count : Nat} {vals : List Value}
    (h : readItems reply count s = (.ok vals, s')) : vals.length = count := by
  induction count generalizing s vals with
  | zero =>
    cases h
    rfl
  | succ count ih =>
    rw [readItems] at h
    split at h
    · cases h
    · split at h
      · cases h
      · rename_i hrest
        cases h
        rw [length_cons, ih hrest]

theorem length_valueAll (items : List Reply) : (valueAll items).length = items.length := by
  induction items with
  | nil => rfl
  | cons r items ih => rw [valueAll, length_cons, length_cons, ih]

theorem readItems_notWhole {rest : Bytes} (hadv : s₀.Advance n s)
    (hs : s.stream = encodeAll items ++ rest) (hnot : ¬wholeAll s₀.pauses n items)
    (hfuel : (encodeAll items).length ≤ fuel)
    (hreply : ∀ (r : Reply) {n s s' rest}, s₀.Advance n s → s.stream = r.encode ++ rest →
      ¬r.Whole s₀.pauses n → r.encode.length ≤ fuel →
      readReply other fuel s = (.ok r.value, s') → Late s' rest) {count : Nat}
    (hread : readItems (readReply other fuel) count s = (.ok (valueAll items), s')) :
    Late s' rest := by
  induction items generalizing n s count with
  | nil => exact absurd trivial hnot
  | cons r items ih =>
    cases count with
    | zero => cases hread
    | succ count =>
      rw [readItems] at hread
      split at hread
      · cases hread
      · rename_i res s₁ hfirst
        split at hread
        · cases hread
        · rename_i vals s₂ hrest
          cases hread
          rw [encodeAll, append_assoc] at hs
          rw [encodeAll, length_append] at hfuel
          have hlen : r.encode.length ≤ fuel := by omega
          by_cases hr : r.Whole s₀.pauses n
          · obtain ⟨s₁', hfirst', hadv₁⟩ := readReply_whole hadv hs hr hlen
            obtain ⟨-, rfl⟩ := Prod.mk.inj (hfirst'.symm.trans hfirst)
            exact ih hadv₁ (stream_of_advance hadv hs hadv₁) (fun hall => hnot ⟨hr, hall⟩)
              (by omega) hrest
          · exact readItems_late (fun _ _ _ _ _ h => readReply_late h)
              (hreply r hadv hs hr hlen hfirst) hrest

/-- **A reply that is cut is not read as it was sent**, or bytes behind it are lost. -/
theorem readReply_notWhole {rest : Bytes} (hadv : s₀.Advance n s) (hs : s.stream = r.encode ++ rest)
    (hnot : ¬r.Whole s₀.pauses n) (hfuel : r.encode.length ≤ fuel)
    (hread : readReply other fuel s = (.ok r.value, s')) : Late s' rest := by
  induction fuel generalizing r n s s' rest with
  | zero => cases hread
  | succ fuel ih =>
    cases r with
    | status text =>
      have he : (Reply.status text).encode = onLine (43 :: text.bytes) ++ [] :=
        (append_nil _).symm
      exact late_of_cut hadv he hs (by simpa using text.noLf) hnot hread
    | int i =>
      obtain ⟨hcr, hlf⟩ := (numeral_intText i).header (.inl rfl)
      by_cases huncut : Uncut s₀.pauses n (onLine (58 :: intText i)).length
      · obtain ⟨s₁, hline, -, -⟩ := readline_uncut hadv hs hcr hlf huncut
        rw [readReply, hline] at hread
        obtain ⟨tail, htail, hval⟩ := replyOf_num hread
        obtain rfl := (List.cons.inj htail).2
        rw [tonumber_intText] at hval
        refine absurd ⟨huncut, ?_⟩ hnot
        have hval := Option.some.inj hval
        change toDouble i.natAbs = i.natAbs
        split at hval <;> omega
      · have he : (Reply.int i).encode = onLine (58 :: intText i) ++ [] := (append_nil _).symm
        exact late_of_cut hadv he hs hlf huncut hread
    | bulk bs =>
      obtain ⟨hcr, hlf⟩ := (numeral_decimal bs.length).header (.inr (.inl rfl))
      by_cases huncut : Uncut s₀.pauses n (onLine (36 :: decimal bs.length)).length
      · rw [Reply.encode, append_assoc] at hs
        obtain ⟨s₁, hline, -, -⟩ := readline_uncut hadv hs hcr hlf huncut
        rw [readReply, hline] at hread
        rcases replyOf_str hread with ⟨hplus, -⟩ | ⟨tail, size, htail, hnum, hsize, -⟩
        · cases hplus
        · obtain rfl := (List.cons.inj htail).2
          rw [tonumber_decimal] at hnum
          have hnum := Option.some.inj hnum
          refine absurd ⟨huncut, ?_⟩ hnot
          change toDouble bs.length = bs.length
          omega
      · exact late_of_cut hadv rfl hs hlf huncut hread
    | array items =>
      obtain ⟨hcr, hlf⟩ := (numeral_decimal items.length).header (.inr (.inr rfl))
      by_cases huncut : Uncut s₀.pauses n (onLine (42 :: decimal items.length)).length
      · rw [Reply.encode, append_assoc] at hs
        rw [Reply.encode, length_append, length_onLine] at hfuel
        obtain ⟨s₁, hline, hs₁, hadv₁⟩ := readline_uncut hadv hs hcr hlf huncut
        rw [readReply, hline] at hread
        obtain ⟨tail, count, htail, hnum, hitems⟩ := replyOf_table hread
        obtain rfl := (List.cons.inj htail).2
        rw [tonumber_decimal] at hnum
        have hnum := Option.some.inj hnum
        have hlen := (length_valueAll items).symm.trans (length_readItems hitems)
        have hexact : Exact items.length := by
          change toDouble items.length = items.length
          omega
        exact readItems_notWhole hadv₁ hs₁ (fun hall => hnot ⟨huncut, hexact, hall⟩) (by omega)
          (fun _ _ _ _ _ hadv hs hnot hfuel hread => ih hadv hs hnot hfuel hread) hitems
      · exact late_of_cut hadv rfl hs hlf huncut hread

--
-- Request after request
--

variable {a : Answer}

theorem answer_whole {rest : Bytes} (hadv : s₀.Advance n s) (hs : s.stream = a.encode ++ rest)
    (hwhole : a.Whole s₀.pauses n) (hfuel : a.encode.length ≤ fuel) :
    ∃ s', readReply other fuel s = (a.result, s') ∧ s₀.Advance (n + a.encode.length) s' := by
  cases a with
  | reply r => exact readReply_whole hadv hs hwhole hfuel
  | error text =>
    obtain ⟨s₁, hline, -, hadv₁⟩ := readline_uncut hadv hs
      (by simpa using text.noCr) (by simpa using text.noLf) hwhole
    cases fuel with
    | zero => simp [Answer.encode, onLine] at hfuel
    | succ fuel =>
      refine ⟨s₁, ?_, hadv₁⟩
      rw [readReply, hline]
      rfl

theorem answer_notWhole {rest : Bytes} (hadv : s₀.Advance n s) (hs : s.stream = a.encode ++ rest)
    (hnot : ¬a.Whole s₀.pauses n) (hfuel : a.encode.length ≤ fuel)
    (hread : readReply other fuel s = (a.result, s')) : Late s' rest := by
  cases a with
  | reply r => exact readReply_notWhole hadv hs hnot hfuel hread
  | error text =>
    obtain ⟨cut, y, s₁, hfirst, hsplit, hadv₁, hiff⟩ :=
      readline_onLine hadv hs (by simpa using text.noLf)
    obtain ⟨u, hu⟩ := line_late text.noCr (mt hiff.mp hnot) hsplit
    cases fuel with
    | zero => cases hread
    | succ fuel =>
      rw [readReply, hfirst] at hread
      rcases replyOf_reply hread with hline | ⟨count, hitems⟩
      · have hlen := congrArg List.length hu
        rw [hline, length_append, length_cons] at hlen
        omega
      · obtain ⟨m, hadv', hpos⟩ :=
          readItems_advance (fun _ _ _ h ha => readReply_advance h ha) hitems ⟨_, rfl⟩
        exact stream_of_advance hadv hs hadv₁ ▸ Late.of_advance hadv' (hpos _ rfl)

theorem not_late_self : ¬Late s s.stream := by
  rintro ⟨p, hp, h⟩
  exact hp (append_left_eq_self.mp h.symm)

theorem customRequest_sent {c : Call} (h : c.Sent) (s : Socket) :
    customRequest other c s = readReply other (s.stream.length + 1) s := by
  rw [customRequest, if_neg h.1, h.2]

theorem requests_iff {calls : List Call} {answers : List Answer} (hadv : s₀.Advance n s)
    (hlen : calls.length = answers.length) (hsent : ∀ c ∈ calls, c.Sent)
    (hs : s.stream = encodeAnswers answers) :
    (∀ k a, answers[k]? = some a → ∃ s', (requests other calls s)[k]? = some (a.result, s') ∧
      s'.stream = encodeAnswers (answers.drop (k + 1))) ↔ AnswersWhole s₀.pauses n answers := by
  induction answers generalizing calls n s with
  | nil => exact iff_of_true nofun trivial
  | cons a answers ih =>
    obtain ⟨c, calls, rfl⟩ := exists_cons_of_length_eq_add_one hlen
    have hs : s.stream = a.encode ++ encodeAnswers answers := hs
    have hfuel : a.encode.length ≤ s.stream.length + 1 := by
      rw [hs, length_append]
      omega
    have hcall : customRequest other c s = readReply other (s.stream.length + 1) s :=
      customRequest_sent (hsent c (.head _)) s
    have hcons {r : Except LredisErr Value} {s₁ : Socket}
        (hread : readReply other (s.stream.length + 1) s = (r, s₁)) :
        requests other (c :: calls) s = (r, s₁) :: requests other calls s₁ := by
      rw [requests, hcall, hread]
    have hrest {s₁ : Socket} (hadv₁ : s₀.Advance (n + a.encode.length) s₁) :=
      ih hadv₁ (Nat.succ.inj hlen) (fun c hc => hsent c (.tail _ hc))
        (stream_of_advance hadv hs hadv₁)
    constructor
    · intro h
      obtain ⟨s₁, hfirst, hs₁⟩ := h 0 a rfl
      have hread : readReply other (s.stream.length + 1) s = (a.result, s₁) :=
        hcall.symm.trans (Option.some.inj hfirst)
      have hwhole : a.Whole s₀.pauses n := by
        by_contra hnot
        have hlate := answer_notWhole hadv hs hnot hfuel hread
        have hs₁ : s₁.stream = encodeAnswers answers := hs₁
        rw [← hs₁] at hlate
        exact not_late_self hlate
      obtain ⟨s₁', hread', hadv₁⟩ := answer_whole hadv hs hwhole hfuel
      obtain ⟨-, rfl⟩ := Prod.mk.inj (hread'.symm.trans hread)
      refine ⟨hwhole, (hrest hadv₁).mp fun k b hb => ?_⟩
      have htail := h (k + 1) b hb
      rw [hcons hread] at htail
      exact htail
    · rintro ⟨hwhole, hall⟩ k b hb
      obtain ⟨s₁, hread, hadv₁⟩ := answer_whole hadv hs hwhole hfuel
      rw [hcons hread]
      cases k with
      | zero =>
        obtain rfl : a = b := Option.some.inj hb
        exact ⟨s₁, rfl, stream_of_advance hadv hs hadv₁⟩
      | succ k => exact (hrest hadv₁).mpr hall k b hb

/-- **The k-th request takes the k-th reply** exactly if no timeout cuts a line of a reply
and the numbers of the replies have 53 significant bits. -/
theorem requests_take_replies (other : Bytes → Option Int) (calls : List Call)
    (answers : List Answer) (s : Socket) (hlen : calls.length = answers.length)
    (hsent : ∀ c ∈ calls, c.Sent) (hs : s.stream = encodeAnswers answers) :
    (∀ k a, answers[k]? = some a → ∃ s', (requests other calls s)[k]? = some (a.result, s') ∧
      s'.stream = encodeAnswers (answers.drop (k + 1))) ↔ AnswersWhole s.pauses 0 answers :=
  requests_iff (.refl s) hlen hsent hs

def okLine : Line := ⟨ascii "OK", by decide, by decide⟩

/-- `SET k v`, sent in two pieces. -/
def setCall : Call := ⟨[ascii "SET", ascii "k", ascii "v"], [.sent 20, .sent 100]⟩

def smembersCall : Call := ⟨[ascii "SMEMBERS", ascii "s"], [.sent 100]⟩

/-- The timeouts are in front of a line and inside of a bulk string. -/
theorem requests_take_replies_twoReplies :
    let answers := [Answer.reply (.status okLine), .reply (.array [.bulk [1, 13, 10], .int (-7)])]
    let s : Socket := ⟨ascii "+OK\r\n", [.timeout, .data (ascii "*2\r\n"), .timeout,
      .data (ascii "$3\r\n" ++ [1, 13]), .timeout, .data (10 :: ascii "\r\n:-"),
      .data (ascii "7\r\n")]⟩
    ∀ k a, answers[k]? = some a → ∃ s', (requests (fun _ => none) [setCall, smembersCall] s)[k]? =
      some (a.result, s') ∧ s'.stream = encodeAnswers (answers.drop (k + 1)) := by
  refine (requests_take_replies (fun _ => none) [setCall, smembersCall]
    [.reply (.status okLine), .reply (.array [.bulk [1, 13, 10], .int (-7)])]
    ⟨ascii "+OK\r\n", [.timeout, .data (ascii "*2\r\n"), .timeout,
      .data (ascii "$3\r\n" ++ [1, 13]), .timeout, .data (10 :: ascii "\r\n:-"),
      .data (ascii "7\r\n")]⟩ rfl (fun c hc => ?_) (by decide)).mpr ?_
  · rcases mem_pair.mp hc with rfl | rfl
    · exact ⟨by decide, by decide⟩
    · exact ⟨by decide, by decide⟩
  · refine ⟨?_, ⟨?_, exact_of_le (by decide), ⟨?_, exact_of_le (by decide)⟩,
      ⟨?_, exact_of_le (by decide)⟩, trivial⟩, trivial⟩
    · change Uncut _ _ _
      decide
    · decide
    · decide
    · decide

/-- The timeout takes `+O` out of the line `+OK`. -/
theorem not_reply_cutLine : ¬∀ (other : Bytes → Option Int) (calls : List Call)
    (answers : List Answer) (s : Socket), calls.length = answers.length → (∀ c ∈ calls, c.Sent) →
    s.stream = encodeAnswers answers → ∀ k a, answers[k]? = some a →
      ∃ s', (requests other calls s)[k]? = some (a.result, s') ∧
        s'.stream = encodeAnswers (answers.drop (k + 1)) := by
  intro h
  obtain ⟨s', hfirst, -⟩ := h (fun _ => none) [setCall] [.reply (.status okLine)]
    ⟨[], [.data (ascii "+O"), .timeout, .data (ascii "K\r\n")]⟩ rfl
    (fun c hc => mem_singleton.mp hc ▸ ⟨by decide, by decide⟩) (by decide) 0 _ rfl
  have hread : (requests (fun _ => none) [setCall]
      ⟨[], [.data (ascii "+O"), .timeout, .data (ascii "K\r\n")]⟩)[0]? =
      some (.error (.unknownPrefix (some 75)), ⟨[], []⟩) := by rfl
  rw [hread] at hfirst
  cases hfirst

end Supex.Lredis
