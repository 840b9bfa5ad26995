import Mathlib.Data.List.TakeWhile
import Supex.Tsdb.Replication

/-!
# TSDB — scanning the store

`KEYS`, `VALUES` and `LRANGE` of `ldb_priv.c` walk the keys in order, and so do the
records of the binlog lie in their way. Each stops in its own manner: `KEYS` at
the first key without the prefix, `LRANGE` behind the end key, `VALUES` nowhere.

`strncmp` reads on behind a key that is too short, and `string_match_len` behind
the pattern and the value. What lies there is part of a query.

* `stringMatchLen`, `prefixMatchLen`, `strncmp` — how the walks compare.
* `entries_eq_append` — the records of the binlog lie behind the data of the users.

Main result: `hidden_iff`.
-/

namespace Supex.Tsdb

open Supex.Lib List

--
-- Comparing
--

/-- `strncmp`; behind the end of the memory that is modelled stands a NUL. -/
def strncmp : Nat → Bytes → Bytes → Int
  | 0, _, _ => 0
  | n + 1, s, t =>
    if s.headD 0 ≠ t.headD 0 then ((s.headD 0).toNat : Int) - (t.headD 0).toNat
    else if s.headD 0 = 0 then 0
    else strncmp n s.tail t.tail

def prefixMatchLen (pre string : Bytes) : Bool :=
  pre.length ≤ string.length && strncmp pre.length pre string = 0

/-- The byte at a pointer, given the memory from there on. -/
def byteAt (mem : Bytes) : Except Fault UInt8 :=
  match mem with
  | [] => .error .memory
  | b :: _ => .ok b

/-- A `char` converted to `int`. -/
def charInt (b : UInt8) : Int := (b.toNat : Int).bmod 256

/-- `while (*pattern == '*')`. -/
def skipStars : Bytes → Int → Bytes × Int
  | 42 :: pattern, patternLen => skipStars pattern (patternLen - 1)
  | pattern, patternLen => (pattern, patternLen)

/-- The inner loop of `case '['`, and the increment of the pattern behind it. At the
end of the pattern the loop steps back first. -/
def classLoop (string : Bytes) : Bytes → Int → Bool → Except Fault (Bytes × Int × Bool)
  | 92 :: b :: pattern, patternLen, found => do
    let c ← byteAt string
    classLoop string pattern (patternLen - 2) (found || b = c)
  | 93 :: pattern, patternLen, found => .ok (pattern, patternLen - 1, found)
  | a :: 45 :: b :: pattern, patternLen, found =>
    if patternLen = 0 then .ok (a :: 45 :: b :: pattern, 0, found)
    else if patternLen ≥ 3 then do
      let c ← byteAt string
      let start := min (charInt a) (charInt b)
      let stop := max (charInt a) (charInt b)
      classLoop string pattern (patternLen - 3) (found || (start ≤ charInt c ∧ charInt c ≤ stop))
    else do
      let c ← byteAt string
      classLoop string (45 :: b :: pattern) (patternLen - 1) (found || a = c)
  | a :: b :: pattern, patternLen, found =>
    if patternLen = 0 then .ok (a :: b :: pattern, 0, found)
    else do
      let c ← byteAt string
      classLoop string (b :: pattern) (patternLen - 1) (found || a = c)
  | [a], patternLen, found =>
    if a ≠ 92 ∧ patternLen = 0 then .ok ([a], 0, found) else .error .memory
  | [], _, _ => .error .memory

/-- `while (stringLen)` of `case '*'`. -/
def starLoop (rest : Bytes → Int → Except Fault Bool) : Bytes → Int → Except Fault Bool
  | _, 0 => .ok false
  | [], stringLen => do
    if ← rest [] stringLen then pure true else .error .memory
  | b :: string, stringLen => do
    if ← rest (b :: string) stringLen then pure true else starLoop rest string (stringLen - 1)

/-- `string_match_len` with `nocase` 0. The arguments are the memory from the
pointers on and the lengths; every turn of the loop passes one byte of the pattern
at least. -/
def stringMatchLoop : Nat → Bytes → Int → Bytes → Int → Except Fault Bool
  | 0, _, _, _, _ => .error .memory
  | fuel + 1, pattern, patternLen, string, stringLen =>
    if patternLen = 0 then .ok (stringLen = 0)
    else
      -- behind the `switch`: the rest of the pattern, the string behind its first byte
      let next (pattern : Bytes) (patternLen : Int) : Except Fault Bool :=
        if stringLen - 1 = 0 then .ok ((skipStars pattern patternLen).2 = 0)
        else stringMatchLoop fuel pattern patternLen string.tail (stringLen - 1)
      let literal (pattern : Bytes) (patternLen : Int) : Except Fault Bool := do
        if (← byteAt pattern) ≠ (← byteAt string) then pure false
        else next pattern.tail (patternLen - 1)
      match pattern with
      | [] => .error .memory
      | 42 :: behind =>
        let (behind, patternLen) := skipStars behind (patternLen - 1)
        if patternLen = 0 then .ok true
        else starLoop (stringMatchLoop fuel behind patternLen) string stringLen
      | 63 :: behind => if stringLen = 0 then .ok false else next behind (patternLen - 1)
      | 91 :: behind => do
        let negated := (← byteAt behind) = 94
        let (behind, patternLen) :=
          if negated then (behind.tail, patternLen - 2) else (behind, patternLen - 1)
        let (behind, patternLen, found) ← classLoop string behind patternLen false
        if found = decide negated then pure false else next behind patternLen
      | 92 :: behind =>
        if patternLen ≥ 2 then literal behind (patternLen - 1) else literal pattern patternLen
      | _ => literal pattern patternLen

def stringMatchLen (pattern patternBehind string stringBehind : Bytes) : Except Fault Bool :=
  stringMatchLoop (pattern.length + patternBehind.length + 1) (pattern ++ patternBehind)
    pattern.length (string ++ stringBehind) string.length

example : stringMatchLen (ascii "h[a-f]*?o") crlf (ascii "hello") [] = .ok true := by decide

--
-- The walks
--

/-- A query, with what lies in memory behind its arguments, and behind the keys and
values of the store. -/
inductive Query where
  | keys (ptn : Bytes)
  | values (ptn ptnBehind : Bytes) (valueBehind : Bytes → Bytes)
  | lrange (preKey stTime edTime stBehind : Bytes) (keyBehind : Bytes → Bytes)

/-- `leveldb_iter_seek` and the entries from there on. -/
def fromKey (db : Ldb) (key : Bytes) : List (Bytes × Bytes) :=
  db.entries.dropWhile fun e => e.1 < key

/-- The loop of `ldb_values`. -/
def valuesLoop (holds : Bytes → Bytes → Except Fault Bool) :
    List (Bytes × Bytes) → Except Fault (List (Bytes × Bytes))
  | [] => .ok []
  | e :: es => do
    let found ← holds e.1 e.2
    let rest ← valuesLoop holds es
    pure (if found then e :: rest else rest)

/-- The entries a query lists. -/
def Query.scan (db : Ldb) : Query → Except Fault (List (Bytes × Bytes))
  | .keys ptn => .ok ((fromKey db ptn).takeWhile fun e => prefixMatchLen ptn e.1)
  | .values ptn ptnBehind valueBehind =>
    valuesLoop (fun key value => stringMatchLen ptn ptnBehind value (valueBehind key)) db.entries
  | .lrange preKey stTime edTime stBehind keyBehind =>
    let stKey := preKey ++ stTime
    let edKey := preKey ++ edTime
    if 0 ≤ strncmp edKey.length edKey (stKey ++ stBehind) then
      .ok ((fromKey db stKey).takeWhile fun e =>
        ¬0 > strncmp edKey.length edKey (e.1 ++ keyBehind e.1))
    else .ok []

/-- `*<n>` and the bulks. -/
def multiBulk (fields : List Bytes) : Bytes :=
  42 :: fmtU64 fields.length ++ crlf ++ (fields.map setBulk).flatten

/-- The reply: `LRANGE` sends keys and values, the others keys. -/
def Query.reply (db : Ldb) (q : Query) : Except Fault Bytes := do
  let es ← q.scan db
  match q with
  | .lrange .. => pure (multiBulk (es.flatMap fun e => [e.1, e.2]))
  | _ => pure (multiBulk (es.map Prod.fst))

/-- The arguments. -/
def Query.args : Query → List Bytes
  | .keys ptn => [ptn]
  | .values ptn _ _ => [ptn]
  | .lrange preKey stTime edTime _ _ => [preKey, stTime, edTime]

--
-- Where the records lie
--

/-- The keys of records, and no others of a master, start with `0xff`. -/
def inBinlog (key : Bytes) : Bool := key.head? = some 0xff

def userEntries (db : Ldb) : List (Bytes × Bytes) := db.entries.filter fun e => !inBinlog e.1

def recordEntries (db : Ldb) : List (Bytes × Bytes) := db.entries.filter fun e => inBinlog e.1

variable {db db₀ : Ldb} {t t' : Server} {key : Bytes} {holds : Bytes → Bytes → Except Fault Bool}
  {es : List (Bytes × Bytes)}

theorem lt_of_inBinlog {record : Bytes} (hkey : inBinlog key = false)
    (hrecord : inBinlog record = true) : key < record := by
  rcases record with _ | ⟨r, record⟩
  · exact absurd hrecord (by decide)
  · have hr : r = 0xff := by simpa [inBinlog] using hrecord
    rcases key with _ | ⟨b, key⟩
    · exact nil_lt_cons r record
    · have hb : b ≠ 0xff := by simpa [inBinlog] using hkey
      have hlt : b < r := by
        rw [hr, UInt8.lt_iff_toNat_lt]
        have hle := b.toNat_lt
        have hne : b.toNat ≠ 255 := fun h => hb (UInt8.toNat_inj.mp h)
        show b.toNat < 255
        omega
      exact List.Lex.rel hlt

theorem entries_eq_append (db : Ldb) : db.entries = userEntries db ++ recordEntries db := by
  obtain ⟨es, hsorted⟩ := db
  unfold userEntries recordEntries
  induction es with
  | nil => rfl
  | cons e es ih =>
    obtain ⟨hhead, htail⟩ := pairwise_cons.mp hsorted
    by_cases he : inBinlog e.1 = true
    · -- behind a record there are only records
      have hall : ∀ e' ∈ es, inBinlog e'.1 = true := by
        intro e' he'
        by_contra huser
        exact absurd (hhead e' he') (lt_asymm (lt_of_inBinlog (Bool.not_eq_true _ ▸ huser) he))
      have husers : (e :: es).filter (fun e => !inBinlog e.1) = [] := by
        rw [filter_eq_nil_iff]
        intro e' he'
        rcases mem_cons.mp he' with rfl | he'
        · simp [he]
        · simp [hall e' he']
      have hrecords : (e :: es).filter (fun e => inBinlog e.1) = e :: es := by
        rw [filter_eq_self]
        intro e' he'
        rcases mem_cons.mp he' with rfl | he'
        · exact he
        · exact hall e' he'
      rw [husers, hrecords, nil_append]
    · rw [filter_cons_of_pos (by simpa using he), cons_append,
        filter_cons_of_neg (p := fun e : Bytes × Bytes => inBinlog e.1) he, ← ih htail]

theorem mem_recordEntries {e : Bytes × Bytes} (h : e ∈ recordEntries db) :
    e ∈ db.entries ∧ inBinlog e.1 = true := mem_filter.mp h

theorem mem_userEntries {e : Bytes × Bytes} (h : e ∈ userEntries db) :
    e ∈ db.entries ∧ inBinlog e.1 = false := by
  obtain ⟨hmem, huser⟩ := mem_filter.mp h
  exact ⟨hmem, by simpa using huser⟩

/-- The same store without a binlog. -/
def SameUserData (db db₀ : Ldb) : Prop :=
  ∀ key, db₀.get key = if inBinlog key then none else db.get key

theorem SameUserData.entries (h : SameUserData db db₀) : db₀.entries = userEntries db := by
  refine OrdMap.entries_eq_of_mem_iff (db.sorted.filter _) fun e => ?_
  have hmem : e ∈ userEntries db ↔ e ∈ db.entries ∧ inBinlog e.1 = false := by
    unfold userEntries
    rw [mem_filter, Bool.not_eq_true']
  rw [hmem, OrdMap.mem_entries_iff (m := db₀) (k := e.1), h e.1]
  by_cases he : inBinlog e.1 = true
  · simp [he]
  · rw [if_neg he, ← OrdMap.mem_entries_iff]
    simp [he]

--
-- Where the walks stop
--

theorem fromKey_eq (db : Ldb) (hkey : inBinlog key = false) :
    fromKey db key = (userEntries db).dropWhile (fun e => e.1 < key) ++ recordEntries db := by
  have hrecords :
      (recordEntries db).dropWhile (fun e => decide (e.1 < key)) = recordEntries db := by
    rw [dropWhile_eq_self_iff]
    intro hpos hlt
    have hmem := (mem_recordEntries (getElem_mem hpos)).2
    exact absurd (lt_of_inBinlog hkey hmem) (lt_asymm (of_decide_eq_true hlt))
  unfold fromKey
  rw [entries_eq_append db, dropWhile_append, hrecords]
  split
  · next hempty =>
    rw [List.isEmpty_iff.mp hempty, nil_append]
  · rfl

theorem takeWhile_append_of_not {α : Type} {p : α → Bool} {l₁ l₂ : List α}
    (h : ∀ a ∈ l₂, p a = false) : (l₁ ++ l₂).takeWhile p = l₁.takeWhile p := by
  rw [takeWhile_append]
  split
  · next hall =>
    have hnil : l₂.takeWhile p = [] := by
      rw [takeWhile_eq_nil_iff]
      intro hpos
      simp [h _ (getElem_mem hpos)]
    rw [hnil, append_nil]
    refine (List.IsPrefix.eq_of_length (List.takeWhile_prefix p) ?_).symm
    exact hall
  · rfl

theorem strncmp_neg {record : Bytes} (hkey : inBinlog key = false) (hne : key ≠ [])
    (hrecord : inBinlog record = true) : strncmp key.length key record < 0 := by
  rcases key with _ | ⟨b, key⟩
  · exact absurd rfl hne
  · rcases record with _ | ⟨r, record⟩
    · exact absurd hrecord (by decide)
    · have hr : r = 0xff := by simpa [inBinlog] using hrecord
      have hb : b ≠ 0xff := by simpa [inBinlog] using hkey
      have hlt := b.toNat_lt
      have hne : b.toNat ≠ 255 := fun h => hb (UInt8.toNat_inj.mp h)
      subst hr
      show (if b ≠ 0xff then (b.toNat : Int) - 255 else _) < 0
      rw [if_pos hb]
      omega

theorem inBinlog_append (h : inBinlog key = true) (behind : Bytes) :
    inBinlog (key ++ behind) = true := by
  rcases key with _ | ⟨b, key⟩
  · exact absurd h (by decide)
  · exact h

theorem not_inBinlog_append {s t : Bytes} (hs : inBinlog s = false) (ht : inBinlog t = false) :
    inBinlog (s ++ t) = false := by
  rcases s with _ | ⟨b, s⟩
  · exact ht
  · exact hs

theorem prefixMatchLen_record {ptn : Bytes} (hptn : inBinlog ptn = false) (hne : ptn ≠ [])
    (hkey : inBinlog key = true) : prefixMatchLen ptn key = false := by
  unfold prefixMatchLen
  have hneg := strncmp_neg hptn hne hkey
  rw [Bool.and_eq_false_iff]
  right
  exact decide_eq_false (by omega)

theorem valuesLoop_append (es₁ es₂ : List (Bytes × Bytes)) :
    valuesLoop holds (es₁ ++ es₂) = (do
      let found₁ ← valuesLoop holds es₁
      let found₂ ← valuesLoop holds es₂
      pure (found₁ ++ found₂)) := by
  induction es₁ with
  | nil =>
    rw [nil_append, valuesLoop, ok_bind]
    rcases valuesLoop holds es₂ with f | found₂ <;> rfl
  | cons e es₁ ih =>
    rw [cons_append, valuesLoop, valuesLoop, ih]
    rcases holds e.1 e.2 with f | found
    · rfl
    · rcases valuesLoop holds es₁ with f | found₁
      · rfl
      · rcases valuesLoop holds es₂ with f | found₂
        · rfl
        · cases found <;> rfl

theorem valuesLoop_eq_nil_iff :
    valuesLoop holds es = .ok [] ↔ ∀ e ∈ es, holds e.1 e.2 = .ok false := by
  induction es with
  | nil => simp [valuesLoop]
  | cons e es ih =>
    rw [valuesLoop, forall_mem_cons, ← ih]
    rcases holds e.1 e.2 with f | found
    · exact iff_of_false nofun (fun h => nomatch h.1)
    · rcases valuesLoop holds es with f | rest
      · exact iff_of_false nofun (fun h => nomatch h.2)
      · cases found
        · simp [ok_bind, pure, Except.pure]
        · simp [ok_bind, pure, Except.pure]

theorem valuesLoop_subset {found : List (Bytes × Bytes)} (h : valuesLoop holds es = .ok found) :
    found ⊆ es := by
  induction es generalizing found with
  | nil =>
    cases h
    exact List.Subset.refl _
  | cons e es ih =>
    rw [valuesLoop] at h
    obtain ⟨here, -, h⟩ := bind_eq_ok.mp h
    obtain ⟨rest, hrest, h⟩ := bind_eq_ok.mp h
    have hsub := ih hrest
    cases here with
    | true =>
      cases h
      exact cons_subset_cons e hsub
    | false =>
      cases h
      exact subset_cons_of_subset e hsub

--
-- What a query shows
--

/-- A query lists no record, and is answered as without a binlog. -/
structure Hidden (db db₀ : Ldb) (q : Query) : Prop where
  listed : ∀ es, q.scan db = .ok es → ∀ e ∈ es, ∀ seq, e.1 ≠ encodeSeqKey seq
  reply : q.reply db = q.reply db₀

/-- The walk of a query stops before the records, passes them over, or does not get
to them. -/
def QueryClean (db : Ldb) (q : Query) : Prop :=
  recordEntries db = [] ∨
  match q with
  | .keys ptn => ptn ≠ []
  | .lrange preKey _ edTime _ _ => preKey ++ edTime ≠ []
  | .values ptn ptnBehind valueBehind =>
    let holds := fun key value => stringMatchLen ptn ptnBehind value (valueBehind key)
    (∃ f, valuesLoop holds (userEntries db) = .error f) ∨
      ∀ e ∈ recordEntries db, holds e.1 e.2 = .ok false

theorem SameUserData.eq_of_no_record (h₀ : SameUserData db db₀) (hnone : recordEntries db = []) :
    db₀ = db := by
  have hsame : db₀.entries = db.entries := by
    rw [h₀.entries, entries_eq_append db, hnone, append_nil]
  obtain ⟨es, hes⟩ := db
  obtain ⟨es₀, hes₀⟩ := db₀
  obtain rfl : es₀ = es := hsame
  rfl

theorem lrange_keys {preKey stTime edTime : Bytes}
    (h : ∀ arg ∈ [preKey, stTime, edTime], inBinlog arg = false) :
    inBinlog (preKey ++ stTime) = false ∧ inBinlog (preKey ++ edTime) = false := by
  have hpre := h preKey (by simp)
  exact ⟨not_inBinlog_append hpre (h stTime (by simp)),
    not_inBinlog_append hpre (h edTime (by simp))⟩

theorem scan_of_clean {q : Query} (h₀ : SameUserData db db₀)
    (hargs : ∀ arg ∈ q.args, inBinlog arg = false) (hclean : QueryClean db q) :
    q.scan db = q.scan db₀ := by
  have hfrom (key : Bytes) :
      fromKey db₀ key = (userEntries db).dropWhile fun e => e.1 < key := by
    rw [fromKey, h₀.entries]
  rcases hclean with hnone | hclean
  · rw [h₀.eq_of_no_record hnone]
  · rcases q with ptn | ⟨ptn, ptnBehind, valueBehind⟩ |
      ⟨preKey, stTime, edTime, stBehind, keyBehind⟩
    · have hptn := hargs ptn (.head _)
      unfold Query.scan
      dsimp only
      rw [fromKey_eq db hptn, hfrom, takeWhile_append_of_not]
      exact fun e he => prefixMatchLen_record hptn hclean (mem_recordEntries he).2
    · unfold Query.scan
      dsimp only at hclean ⊢
      rw [h₀.entries, entries_eq_append db, valuesLoop_append]
      rcases hclean with ⟨f, hf⟩ | hnone
      · rw [hf]
        rfl
      · have hnil : valuesLoop
            (fun key value => stringMatchLen ptn ptnBehind value (valueBehind key))
            (recordEntries db) = .ok [] := valuesLoop_eq_nil_iff.mpr hnone
        rw [hnil]
        rcases valuesLoop _ (userEntries db) with f | found
        · rfl
        · show Except.ok (found ++ []) = _
          rw [append_nil]
    · obtain ⟨hst, hed⟩ := lrange_keys hargs
      unfold Query.scan
      dsimp only
      rw [fromKey_eq db hst, hfrom, takeWhile_append_of_not]
      intro e he
      have hneg := strncmp_neg hed hclean
        (inBinlog_append (mem_recordEntries he).2 (keyBehind e.1))
      exact decide_eq_false (fun hge => hge hneg)

theorem scan_subset {q : Query} (h : q.scan db = .ok es) : es ⊆ db.entries := by
  have hfrom (key : Bytes) (p : Bytes × Bytes → Bool) :
      (fromKey db key).takeWhile p ⊆ db.entries :=
    ((takeWhile_sublist p).trans (dropWhile_sublist _)).subset
  rcases q with ptn | ⟨ptn, ptnBehind, valueBehind⟩ |
      ⟨preKey, stTime, edTime, stBehind, keyBehind⟩
  · cases h
    exact hfrom _ _
  · exact valuesLoop_subset h
  · unfold Query.scan at h
    dsimp only at h
    split at h
    · cases h
      exact hfrom _ _
    · cases h
      exact nil_subset _

theorem inBinlog_encodeSeqKey (seq : Nat) : inBinlog (encodeSeqKey seq) = true := rfl

theorem hidden_of_clean {q : Query} (h₀ : SameUserData db db₀)
    (hargs : ∀ arg ∈ q.args, inBinlog arg = false) (hclean : QueryClean db q) :
    Hidden db db₀ q := by
  have hscan := scan_of_clean h₀ hargs hclean
  refine ⟨fun es hes e he seq heq => ?_, ?_⟩
  · rw [hscan] at hes
    have hmem := scan_subset hes he
    rw [h₀.entries] at hmem
    have huser := (mem_userEntries hmem).2
    rw [heq, inBinlog_encodeSeqKey] at huser
    cases huser
  · unfold Query.reply
    rw [hscan]

/-- The keys in the binlog's part of the store are those of records. -/
def RecordsOnly (db : Ldb) : Prop :=
  ∀ key value, db.get key = some value → inBinlog key = true → ∃ seq, key = encodeSeqKey seq

theorem RecordsOnly.key_eq (h : RecordsOnly db) {e : Bytes × Bytes} (he : e ∈ recordEntries db) :
    ∃ seq, e.1 = encodeSeqKey seq := by
  obtain ⟨hmem, hin⟩ := mem_recordEntries he
  exact h e.1 e.2 (OrdMap.mem_entries_iff.mp hmem) hin

theorem clean_of_hidden {q : Query} (h₀ : SameUserData db db₀) (hrecords : RecordsOnly db)
    (hargs : ∀ arg ∈ q.args, inBinlog arg = false) (h : Hidden db db₀ q) : QueryClean db q := by
  unfold QueryClean
  rw [or_iff_not_imp_left]
  intro hne
  obtain ⟨e, he⟩ := exists_mem_of_ne_nil _ hne
  obtain ⟨seq, hseq⟩ := hrecords.key_eq he
  rcases q with ptn | ⟨ptn, ptnBehind, valueBehind⟩ |
      ⟨preKey, stTime, edTime, stBehind, keyBehind⟩
  · rintro rfl
    refine h.listed _ rfl e ?_ seq hseq
    rw [fromKey_eq db rfl,
      (takeWhile_eq_self_iff (p := fun e : Bytes × Bytes => prefixMatchLen [] e.1)).mpr
        fun _ _ => rfl]
    exact mem_append_right _ he
  · dsimp only
    rcases husers : valuesLoop
      (fun key value => stringMatchLen ptn ptnBehind value (valueBehind key)) (userEntries db)
      with f | found
    · exact .inl ⟨f, rfl⟩
    · right
      have hscan : (Query.values ptn ptnBehind valueBehind).scan db =
          valuesLoop (fun key value => stringMatchLen ptn ptnBehind value (valueBehind key))
            (recordEntries db) >>= fun more => .ok (found ++ more) := by
        unfold Query.scan
        dsimp only
        rw [entries_eq_append db, valuesLoop_append, husers]
        rfl
      rcases hloop : valuesLoop _ (recordEntries db) with f | more
      · -- the walk goes wrong at a record, and without a binlog it does not
        have hreply := h.reply
        unfold Query.reply at hreply
        rw [hscan, hloop, show (Query.values ptn ptnBehind valueBehind).scan db₀ = .ok found from
          (congrArg (valuesLoop _) h₀.entries).trans husers] at hreply
        cases hreply
      · rw [hloop] at hscan
        have hnil : more = [] := by
          refine eq_nil_iff_forall_not_mem.mpr fun e' he' => ?_
          obtain ⟨seq', hseq'⟩ := hrecords.key_eq (valuesLoop_subset hloop he')
          exact h.listed _ hscan e' (mem_append_right _ he') seq' hseq'
        exact valuesLoop_eq_nil_iff.mp (hnil ▸ hloop)
  · intro hnil
    obtain ⟨hst, -⟩ := lrange_keys hargs
    refine h.listed ((fromKey db (preKey ++ stTime)).takeWhile fun _ => true) ?_ e ?_ seq hseq
    · unfold Query.scan
      dsimp only
      rw [hnil]
      rfl
    · rw [fromKey_eq db hst, takeWhile_eq_self_iff.mpr (fun _ _ => rfl)]
      exact mem_append_right _ he

--
-- Masters
--

/-- The batch, once written, leaves only records in the binlog's part of the store. -/
def RecordsPending (t : Server) : Prop := RecordsOnly (leveldbWrite t.db t.wbatch)

/-- What holds between commands. -/
structure Recorded (t : Server) : Prop where
  wbatch : t.wbatch = []
  records : RecordsOnly t.db

theorem Recorded.pending (h : Recorded t) : RecordsPending t := by
  unfold RecordsPending
  rw [h.wbatch]
  exact h.records

theorem RecordsPending.commit (h : RecordsPending t) : Recorded (binlogBatchCommit t) := ⟨rfl, h⟩

theorem binlogBatchLog_records {u : Update} (h : RecordsPending t) (hu : inBinlog u.key = false)
    (hlog : binlogBatchLog t u.key u.cmd u.op = .ok t') : RecordsPending t' := by
  have hop (db : Ldb) (hdb : RecordsOnly db) : RecordsOnly (u.op.apply db) := by
    intro key value hget hin
    rw [apply_op_get, if_neg (fun heq => by rw [heq, hu] at hin; cases hin)] at hget
    exact hdb key value hget hin
  unfold binlogBatchLog at hlog
  rcases hbl : t.binlog with _ | bl
  · rw [hbl] at hlog
    cases hlog
    show RecordsOnly (leveldbWrite t.db (t.wbatch ++ [u.op]))
    rw [leveldbWrite_append]
    exact hop _ h
  · rw [hbl] at hlog
    rcases hval : encodeSeqValue u.key u.cmd with f | val
    · rw [hval] at hlog
      cases hlog
    · rw [hval] at hlog
      cases hlog
      show RecordsOnly (leveldbWrite t.db (t.wbatch ++ [.put _ val, u.op]))
      rw [leveldbWrite_append]
      refine hop _ fun key value hget hin => ?_
      replace hget : ((leveldbWrite t.db t.wbatch).insert _ val).get key = some value := hget
      rw [OrdMap.get_insert] at hget
      split at hget
      · next hkey => exact ⟨_, hkey⟩
      · exact h key value hget hin

theorem binlogPut_records {value : Bytes} (h : Recorded t) (hkey : inBinlog key = false)
    (hput : binlogPut t key value = .ok t') : Recorded t' := by
  rw [binlogPut_eq] at hput
  rcases hlog : binlogBatchPut t key value with f | t₁
  · rw [hlog] at hput
    cases hput
  · rw [hlog] at hput
    cases hput
    exact (binlogBatchLog_records (u := .set key value) h.pending hkey hlog).commit

theorem delLoop_records {fields : List Bytes} (h : RecordsPending t)
    (hkeys : ∀ key ∈ fields, inBinlog key = false) (hloop : delLoop t fields = .ok t') :
    RecordsPending t' := by
  induction fields generalizing t with
  | nil =>
    cases hloop
    exact h
  | cons key fields ih =>
    obtain ⟨hkey, hrest⟩ := forall_mem_cons.mp hkeys
    unfold delLoop at hloop
    rcases hlog : binlogBatchDelete t key with f | t₁
    · rw [hlog] at hloop
      cases hloop
    · rw [hlog] at hloop
      exact ih (binlogBatchLog_records (u := .del key) h hkey hlog) hrest hloop

theorem msetLoop_records {fields : List Bytes} (h : RecordsPending t)
    (hkeys : ∀ u ∈ msetUpdates fields, inBinlog u.key = false)
    (hloop : msetLoop t fields = .ok t') : RecordsPending t' := by
  fun_induction msetLoop t fields with
  | case1 t key value fields f hlog => cases hloop
  | case2 t key value fields t₁ hlog ih =>
    obtain ⟨hkey, hrest⟩ := forall_mem_cons.mp hkeys
    exact ih (binlogBatchLog_records (u := .set key value) h hkey hlog) hrest hloop
  | case3 fields t hnot =>
    cases hloop
    exact h

theorem saddLoop_records {heap : Nat → Bytes} {i : Nat} {members : List Bytes} (h : Recorded t)
    (hkey : inBinlog key = false) (hloop : saddLoop key heap t i members = .ok t') :
    Recorded t' := by
  induction members generalizing t i with
  | nil =>
    cases hloop
    exact h
  | cons target members ih =>
    unfold saddLoop at hloop
    rcases hval : saddValue (seenValue (t.db.get key) (heap i)) (cstr target) with f | _ | value
    · rw [hval] at hloop
      cases hloop
    · rw [hval] at hloop
      exact ih h hloop
    · rw [hval] at hloop
      dsimp only at hloop
      rcases hput : binlogPut t key value with f | t₁
      · rw [hput] at hloop
        cases hloop
      · rw [hput] at hloop
        exact ih (binlogPut_records h hkey hput) hloop

theorem Cmd.exec_records {c : Cmd} {reply : Bytes} (h : Recorded t)
    (hkeys : ∀ key ∈ c.keys, inBinlog key = false) (hexec : c.exec t = .ok (reply, t')) :
    Recorded t' := by
  rcases c with fields | fields | fields | ⟨fields, heap⟩
  · simp only [Cmd.exec, tsdbLdbSet] at hexec
    split at hexec
    · next key value =>
      split at hexec
      · cases hexec
        exact h
      · rcases hput : binlogPut t key value with f | t₁
        · rw [hput] at hexec
          cases hexec
        · rw [hput] at hexec
          cases hexec
          exact binlogPut_records h (hkeys key (.head _)) hput
    · cases hexec
      exact h
  · simp only [Cmd.exec, tsdbLdbMset] at hexec
    split at hexec
    · cases hexec
      exact h
    · rcases hloop : msetLoop t fields with f | t₁
      · rw [hloop] at hexec
        cases hexec
      · rw [hloop] at hexec
        cases hexec
        exact (msetLoop_records h.pending
          (fun u hu => hkeys u.key (mem_map_of_mem hu)) hloop).commit
  · simp only [Cmd.exec, tsdbLdbDel] at hexec
    split at hexec
    · cases hexec
      exact h
    · rcases hloop : delLoop t fields with f | t₁
      · rw [hloop] at hexec
        cases hexec
      · rw [hloop] at hexec
        cases hexec
        exact (delLoop_records h.pending hkeys hloop).commit
  · simp only [Cmd.exec, tsdbLdbSadd] at hexec
    split at hexec
    · next key member members =>
      split at hexec
      · cases hexec
        exact h
      · rcases hloop : saddLoop key heap t 0 (member :: members) with f | t₁
        · rw [hloop] at hexec
          cases hexec
        · rw [hloop] at hexec
          cases hexec
          exact saddLoop_records h (hkeys key (.head _)) hloop
    · cases hexec
      exact h

/-- One command on a server. -/
def cmdStep (t : Server) (c : Cmd) : Except Fault Server := do
  let (_, t) ← c.exec t
  pure t

/-- A server with a slave, and so with a binlog, and an empty store. -/
def masterInit (readonly : Bool) : Server where
  db := .empty
  wbatch := []
  binlog := some (binlogOpen .empty)
  readonly := readonly

theorem masterInit_recorded (readonly : Bool) : Recorded (masterInit readonly) :=
  ⟨rfl, fun _ _ h => nomatch h⟩

theorem run_recorded {readonly : Bool} {cs : List Cmd}
    (hkeys : ∀ c ∈ cs, ∀ key ∈ c.keys, inBinlog key = false)
    (hrun : run cmdStep (masterInit readonly) cs = .ok t) : Recorded t := by
  refine run_inv_along (I := Recorded) (P := fun _ c => ∀ key ∈ c.keys, inBinlog key = false) ?_
    (masterInit_recorded readonly) (Along.of_forall fun c hc _ => hkeys c hc) hrun
  intro t c t' h hc hstep
  obtain ⟨⟨reply, t₁⟩, hexec, hpure⟩ := bind_eq_ok.mp hstep
  cases hpure
  exact Cmd.exec_records h hc hexec

/-- **Queries.** On every master, a query whose arguments do not start with `0xff`
shows no record, and is answered as without a binlog, exactly when it is clean. -/
theorem hidden_iff {readonly : Bool} {cs : List Cmd} {t : Server}
    (hkeys : ∀ c ∈ cs, ∀ key ∈ c.keys, inBinlog key = false)
    (hrun : run cmdStep (masterInit readonly) cs = .ok t) {db₀ : Ldb}
    (h₀ : SameUserData t.db db₀) {q : Query} (hargs : ∀ arg ∈ q.args, inBinlog arg = false) :
    Hidden t.db db₀ q ↔ QueryClean t.db q :=
  ⟨clean_of_hidden h₀ (run_recorded hkeys hrun).records hargs, hidden_of_clean h₀ hargs⟩

def setA : List Cmd := [.set [ascii "a", ascii "x"]]

/-- The store after `SET a x`, without a binlog. -/
def dbA : Ldb := OrdMap.empty.insert (ascii "a") (ascii "x")

theorem setA_run : ∃ t, run cmdStep (masterInit false) setA = .ok t ∧ SameUserData t.db dbA ∧
    recordEntries t.db ≠ [] := by
  refine ⟨_, rfl, fun key => ?_, by decide⟩
  show dbA.get key = if inBinlog key then none else
    ((OrdMap.empty.insert (encodeSeqKey 1) (CMD_SET :: ascii "a")).insert (ascii "a")
      (ascii "x")).get key
  rw [OrdMap.get_insert, OrdMap.get_insert]
  by_cases hin : inBinlog key = true
  · have hne : key ≠ ascii "a" := by
      rintro rfl
      exact absurd hin (by decide)
    rw [if_pos hin, dbA, OrdMap.get_insert, if_neg hne]
    rfl
  · have hne : key ≠ encodeSeqKey 1 := by
      rintro rfl
      exact hin rfl
    rw [if_neg hin, dbA, OrdMap.get_insert, if_neg hne]

theorem setA_keys : ∀ c ∈ setA, ∀ key ∈ c.keys, inBinlog key = false := by
  intro c hc key hkey
  obtain rfl := mem_singleton.mp hc
  obtain rfl := mem_singleton.mp hkey
  rfl

theorem hidden_setA : ∃ t, run cmdStep (masterInit false) setA = .ok t ∧
    Hidden t.db dbA (.keys (ascii "a")) := by
  obtain ⟨t, hrun, hsame, -⟩ := setA_run
  have hne : ascii "a" ≠ [] := by decide
  exact ⟨t, hrun, (hidden_iff setA_keys hrun hsame (by decide)).mpr (.inr hne)⟩

/-- `KEYS` with an empty prefix lists the record of the `SET`. -/
theorem not_hidden_setA : ∃ t, run cmdStep (masterInit false) setA = .ok t ∧
    SameUserData t.db dbA ∧ ¬Hidden t.db dbA (.keys []) := by
  obtain ⟨t, hrun, hsame, hrecord⟩ := setA_run
  refine ⟨t, hrun, hsame, fun h => ?_⟩
  have hrecorded := run_recorded setA_keys hrun
  rcases clean_of_hidden hsame hrecorded.records (by decide) h with hnone | hne
  · exact hrecord hnone
  · exact hne rfl

end Supex.Tsdb
