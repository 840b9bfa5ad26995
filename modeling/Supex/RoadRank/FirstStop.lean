import Supex.Lib.Bytes
import Supex.Lib.Run

/-!
# The filter of the first stop

`gps_decode` keeps the first stop of a tokenCode away from the road ranks: a package that
has a part of it is answered with -3. Where the vehicle stands is kept under its IMEI, as
the tokenCode and a sign, and the code that moves it on is there twice, for a tokenCode
that is stored and for a new one.

The speeds of the packages are one sequence. `Phase` is where the sequence stands before,
inside or behind its first stop, without any packages; the record that is stored follows
it, however the sequence is cut. The two copies differ in one case: inside the stop only
the copy for a new tokenCode filters a package of zeros.

Main result: `filter_iff`.
-/

namespace Supex.RoadRank

open Supex.Lib List

--
-- The stored record
--

def imeiLen : Nat := 36

structure KvSpeed where
  tokenCode : Bytes
  sign : Int
  deriving DecidableEq

/-- What is stored under the IMEIs. -/
abbrev SpeedKv := Bytes → Option KvSpeed

/-- `get_speed_from_kv`; the caller's record is empty before. -/
def getSpeedFromKv (kv : SpeedKv) (imei : Bytes) : KvSpeed := (kv imei).getD ⟨[], 0⟩

/-- `set_speed_to_kv`, of a write that succeeds. -/
def setSpeedToKv (kv : SpeedKv) (imei : Bytes) (r : KvSpeed) : SpeedKv :=
  Function.update kv imei (some r)

/-- `strncpy(dst, src, strlen(src))`, which leaves what stands behind. -/
def strncpyOver (dst src : Bytes) : Bytes := src ++ dst.drop src.length

/-- `strncpy(dst, src, strlen(src))` into a zeroed field of `IMEI_LEN + 1` bytes that is
read as a string. -/
def strncpyField (src : Bytes) : Except Fault Bytes :=
  if imeiLen < src.length then .error .memory else .ok src

--
-- The package
--

/-- The members of a package; `D` are the doubles. -/
structure Message (D : Type) where
  imei : Option Bytes
  mirrtalkID : Option Bytes
  tokenCode : Option Bytes
  speed : Option (List Int)
  gpsTime : Option (List Int)
  longitude : Option (List D)
  latitude : Option (List D)
  direction : Option (List Int)
  altitude : Option (List Int)

/-- `gps_info_t` without its two strings. -/
structure GpsInfo (D : Type) where
  maxSpeed : Int
  minSpeed : Int
  avgSpeed : Int
  startTime : Int
  endTime : Int
  longitude : D
  latitude : D
  direction : Int
  altitude : Int

/-- What `gps_decode` returns. -/
inductive Decoded (D : Type) where
  | success (info : GpsInfo D)
  /-- -1 -/
  | failed
  /-- -2 -/
  | forwarded
  /-- -3 -/
  | filtered

/-- The check of an array: one to fifteen elements. -/
def arrayItem {α : Type} : Option (List α) → Option (List α)
  | none => none
  | some a => if a.length = 0 ∨ 15 < a.length then none else some a

/-- The value of an `unsigned short`. -/
def ushort (v : Int) : Int := v % 65536

/-- The value of a `short`. -/
def short (v : Int) : Int := v.bmod 65536

/-- The fields behind the filter. -/
def decodeRest {D : Type} (m : Message D) (speeds : List Int) : Option (GpsInfo D) := do
  let first ← speeds.head?
  let maxSpeed := speeds.foldl (fun a v => if v > a then ushort v else a) (ushort first)
  let minSpeed := speeds.foldl (fun a v => if v < a then ushort v else a) (ushort first)
  let sum := speeds.foldl (fun a v => ushort (a + v)) 0
  let gpsTime ← arrayItem m.gpsTime
  let longitude ← arrayItem m.longitude
  let latitude ← arrayItem m.latitude
  let direction ← arrayItem m.direction
  let altitude ← arrayItem m.altitude
  some {
    maxSpeed
    minSpeed
    avgSpeed := sum / speeds.length
    startTime := ← gpsTime.getLast?
    endTime := ← gpsTime.head?
    longitude := ← longitude.head?
    latitude := ← latitude.head?
    direction := short (← direction.head?)
    altitude := short (← altitude.head?) }

--
-- The two copies of the filter
--

/-- The loop for a tokenCode that is stored: the record, `flag` and the store. -/
def knownLoop (imei token : Bytes) : KvSpeed → Nat → SpeedKv → List Int → Nat × SpeedKv
  | _, flag, kv, [] => (flag, kv)
  | ex, flag, kv, speed :: rest =>
    if ex.sign = 1 then
      if speed > 0 ∧ flag = 0 then
        let ex : KvSpeed := ⟨strncpyOver ex.tokenCode token, 2⟩
        knownLoop imei token ex 1 (setSpeedToKv kv imei ex) rest
      else knownLoop imei token ex flag kv rest
    else if ex.sign = 0 then
      if speed = 0 ∧ flag = 0 then
        let ex : KvSpeed := ⟨strncpyOver ex.tokenCode token, 1⟩
        knownLoop imei token ex 1 (setSpeedToKv kv imei ex) rest
      else if flag = 1 then
        let ex : KvSpeed := ⟨strncpyOver ex.tokenCode token, 2⟩
        knownLoop imei token ex 2 (setSpeedToKv kv imei ex) rest
      else knownLoop imei token ex flag kv rest
    else if ex.sign = 2 then (flag, kv)
    else knownLoop imei token ex flag kv rest

/-- The loop for a new tokenCode: `i`, the record, `flag`, `flag_se` and the store. -/
def newLoop (imei token : Bytes) :
    Nat → KvSpeed → Nat → Nat → SpeedKv → List Int → Nat × SpeedKv
  | _, _, flag, _, kv, [] => (flag, kv)
  | i, ex, flag, flagSe, kv, speed :: rest =>
    if speed = 0 ∧ flagSe = 0 then
      let ex : KvSpeed := ⟨strncpyOver ex.tokenCode token, 1⟩
      newLoop imei token (i + 1) ex i flagSe (setSpeedToKv kv imei ex) rest
    else if flag < i ∧ flagSe = 0 then
      let ex : KvSpeed := ⟨strncpyOver ex.tokenCode token, 2⟩
      newLoop imei token (i + 1) ex flag 1 (setSpeedToKv kv imei ex) rest
    else newLoop imei token (i + 1) ex flag flagSe kv rest

/-- Whether the package is filtered, and the store behind it. -/
def filterSpeeds (imei token : Bytes) (kv : SpeedKv) (speeds : List Int) : Bool × SpeedKv :=
  let ex := getSpeedFromKv kv imei
  if token = ex.tokenCode then
    let (flag, kv) := knownLoop imei token ex 0 kv speeds
    (decide (flag > 0), kv)
  else
    let (flag, kv) := newLoop imei token 0 ex speeds.length 0 kv speeds
    (decide (flag ≠ speeds.length), kv)

/-- `gps_decode`; `forwardImeiCheck`: the IMEIs of the tests. -/
def gpsDecode {D : Type} (forwardImeiCheck : Bytes → Bool) (kv : SpeedKv) (m : Message D) :
    Except Fault (Decoded D × SpeedKv) := do
  match m.imei.or m.mirrtalkID with
  | none => .ok (.failed, kv)
  | some imei =>
    let imei ← strncpyField imei
    if forwardImeiCheck imei then .ok (.forwarded, kv)
    else
      match m.tokenCode with
      | none => .ok (.failed, kv)
      | some token =>
        let token ← strncpyField token
        match arrayItem m.speed with
        | none => .ok (.failed, kv)
        | some speeds =>
          match filterSpeeds imei token kv speeds with
          | (true, kv) => .ok (.filtered, kv)
          | (false, kv) =>
            match decodeRest m speeds with
            | none => .ok (.failed, kv)
            | some info => .ok (.success info, kv)

/-- The packages one after the other: what is returned for each, and the store. -/
def gpsDecodeAll {D : Type} (forwardImeiCheck : Bytes → Bool) :
    SpeedKv → List (Message D) → Except Fault (List (Decoded D) × SpeedKv)
  | kv, [] => .ok ([], kv)
  | kv, m :: ms => do
    let (d, kv) ← gpsDecode forwardImeiCheck kv m
    let (ds, kv) ← gpsDecodeAll forwardImeiCheck kv ms
    .ok (d :: ds, kv)

--
-- The first stop of a sequence
--

/-- The number of speeds before the first stop. -/
def stopStart (s : List Int) : Nat := (s.takeWhile (· ≠ 0)).length

/-- The number of speeds up to the end of the first stop. -/
def stopEnd (s : List Int) : Nat :=
  stopStart s + ((s.drop (stopStart s)).takeWhile (· = 0)).length

/-- Where a sequence stands. -/
inductive Phase where
  | before
  | stopped
  | behind
  deriving DecidableEq

def Phase.next : Phase → Int → Phase
  | .before, v => if v = 0 then .stopped else .before
  | .stopped, v => if v = 0 then .stopped else .behind
  | .behind, _ => .behind

def Phase.after (p : Phase) (s : List Int) : Phase := s.foldl Phase.next p

/-- What is stored for a vehicle in a phase, if `r` was stored before. -/
def Phase.record (r : Option KvSpeed) (token : Bytes) : Phase → Option KvSpeed
  | .before => r
  | .stopped => some ⟨token, 1⟩
  | .behind => some ⟨token, 2⟩

@[simp] theorem Phase.after_nil (p : Phase) : p.after [] = p := rfl

@[simp] theorem Phase.after_cons (p : Phase) (v : Int) (s : List Int) :
    p.after (v :: s) = (p.next v).after s := rfl

theorem Phase.after_append (p : Phase) (s t : List Int) :
    p.after (s ++ t) = (p.after s).after t := by
  simp [Phase.after]

theorem Phase.behind_after (s : List Int) : Phase.behind.after s = .behind := by
  induction s with
  | nil => rfl
  | cons v s ih => exact ih

theorem Phase.stopped_after (s : List Int) :
    Phase.stopped.after s = if ∀ v ∈ s, v = 0 then .stopped else .behind := by
  induction s with
  | nil => rfl
  | cons v s ih =>
    by_cases hv : v = 0
    · simp [Phase.next, hv, ih]
    · simp [Phase.next, hv, Phase.behind_after]

theorem zeros_take (s : List Int) (n : Nat) (hn : n ≤ s.length) :
    (∀ v ∈ s.take n, v = 0) ↔ n ≤ (s.takeWhile (· = 0)).length := by
  induction s generalizing n with
  | nil => simp_all
  | cons v s ih =>
    cases n with
    | zero => simp
    | succ n =>
      rw [length_cons, Nat.add_le_add_iff_right] at hn
      by_cases hv : v = 0
      · simp [hv, ih n hn]
      · simp [hv]

theorem phase_take (s : List Int) (n : Nat) (hn : n ≤ s.length) :
    Phase.before.after (s.take n) =
      if n ≤ stopStart s then .before else if n ≤ stopEnd s then .stopped else .behind := by
  induction s generalizing n with
  | nil => simp_all [stopStart]
  | cons v s ih =>
    cases n with
    | zero => simp
    | succ n =>
      rw [length_cons, Nat.add_le_add_iff_right] at hn
      by_cases hv : v = 0
      · have hstart : stopStart (v :: s) = 0 := by simp [stopStart, hv]
        have hend : stopEnd (v :: s) = (s.takeWhile (· = 0)).length + 1 := by
          rw [stopEnd, hstart]
          simp [hv]
        rw [take_succ_cons, Phase.after_cons, Phase.next, if_pos hv, Phase.stopped_after,
          hstart, hend, if_neg (by omega : ¬n + 1 ≤ 0)]
        simp only [zeros_take s n hn, Nat.add_le_add_iff_right]
      · have hstart : stopStart (v :: s) = stopStart s + 1 := by simp [stopStart, hv]
        have hend : stopEnd (v :: s) = stopEnd s + 1 := by
          simp [stopEnd, hstart]
          omega
        rw [take_succ_cons, Phase.after_cons, Phase.next, if_neg hv, ih n hn, hstart, hend]
        simp only [Nat.add_le_add_iff_right]

--
-- One package
--

section

variable (imei token : Bytes) (r : Option KvSpeed) (kv : SpeedKv)

/-- The store for a vehicle in a phase. -/
def Phase.put (p : Phase) : SpeedKv := Function.update kv imei (p.record r token)

theorem Phase.put_stored {p : Phase} {sign : Int} (h : p.record r token = some ⟨token, sign⟩) :
    getSpeedFromKv (p.put imei token r kv) imei = ⟨token, sign⟩ := by
  simp [getSpeedFromKv, Phase.put, h]

theorem setSpeedToKv_put (p q : Phase) {sign : Int} (h : q.record r token = some ⟨token, sign⟩) :
    setSpeedToKv (p.put imei token r kv) imei ⟨token, sign⟩ = q.put imei token r kv := by
  simp [setSpeedToKv, Phase.put, h]

theorem strncpyOver_self : strncpyOver token token = token := by simp [strncpyOver]

/-- The copy for a stored tokenCode, inside the stop: it looks for the first speed above
zero. -/
theorem knownLoop_stopped (s : List Int) (hpos : ∀ v ∈ s, 0 ≤ v) :
    knownLoop imei token ⟨token, 1⟩ 0 (Phase.stopped.put imei token r kv) s =
      (if Phase.stopped.after s = .stopped then 0 else 1,
        (Phase.stopped.after s).put imei token r kv) := by
  induction s with
  | nil => rfl
  | cons v s ih =>
    have hs : ∀ w ∈ s, 0 ≤ w := fun w hw => hpos w (.tail _ hw)
    by_cases hv : v = 0
    · rw [knownLoop, if_pos rfl, if_neg (by omega), ih hs, Phase.after_cons, Phase.next, if_pos hv]
    · have hgt : v > 0 := by have := hpos v (.head _); omega
      have hlast : ∀ kv', knownLoop imei token ⟨token, 2⟩ 1 kv' s = (1, kv') := by
        intro kv'
        cases s with
        | nil => rfl
        | cons w s => simp [knownLoop]
      rw [knownLoop, if_pos rfl, if_pos ⟨hgt, rfl⟩]
      simp only [strncpyOver_self]
      rw [hlast, setSpeedToKv_put imei token r kv _ .behind rfl, Phase.after_cons, Phase.next,
        if_neg hv, Phase.behind_after, if_neg (by decide)]

theorem knownLoop_behind (s : List Int) :
    knownLoop imei token ⟨token, 2⟩ 0 (Phase.behind.put imei token r kv) s =
      (0, Phase.behind.put imei token r kv) := by
  cases s with
  | nil => rfl
  | cons v s => simp [knownLoop]

theorem newLoop_behind (i : Nat) (ex : KvSpeed) (flag : Nat) (kv' : SpeedKv) (s : List Int) :
    newLoop imei token i ex flag 1 kv' s = (flag, kv') := by
  induction s generalizing i with
  | nil => rfl
  | cons v s ih => simp [newLoop, ih]

theorem newLoop_stopped (i flag : Nat) (s : List Int) (hi : flag < i) :
    ∃ f, f < i + s.length ∧
      newLoop imei token i ⟨token, 1⟩ flag 0 (Phase.stopped.put imei token r kv) s =
        (f, (Phase.stopped.after s).put imei token r kv) := by
  induction s generalizing i flag with
  | nil => exact ⟨flag, by simpa using hi, rfl⟩
  | cons v s ih =>
    by_cases hv : v = 0
    · obtain ⟨f, hf, heq⟩ := ih (i + 1) i (by omega)
      refine ⟨f, by simp only [length_cons]; omega, ?_⟩
      rw [newLoop, if_pos ⟨hv, rfl⟩]
      simp only [strncpyOver_self]
      rw [setSpeedToKv_put imei token r kv _ .stopped rfl, heq, Phase.after_cons, Phase.next,
        if_pos hv]
    · refine ⟨flag, by simp only [length_cons]; omega, ?_⟩
      rw [newLoop, if_neg (by tauto), if_pos ⟨hi, rfl⟩]
      simp only [strncpyOver_self]
      rw [setSpeedToKv_put imei token r kv _ .behind rfl, newLoop_behind, Phase.after_cons,
        Phase.next, if_neg hv, Phase.behind_after]

theorem newLoop_before (i : Nat) (ex : KvSpeed) (hex : ex.tokenCode.length ≤ token.length)
    (s : List Int) :
    ∃ f, (f ≠ i + s.length ↔ Phase.before.after s ≠ .before) ∧
      newLoop imei token i ex (i + s.length) 0 (Phase.before.put imei token r kv) s =
        (f, (Phase.before.after s).put imei token r kv) := by
  induction s generalizing i with
  | nil => exact ⟨i, by simp, rfl⟩
  | cons v s ih =>
    by_cases hv : v = 0
    · obtain ⟨f, hf, heq⟩ := newLoop_stopped imei token r kv (i + 1) i s (by omega)
      refine ⟨f, ?_, ?_⟩
      · have : Phase.stopped.after s ≠ .before := by
          rw [Phase.stopped_after]
          split <;> decide
        simp only [Phase.after_cons, Phase.next, if_pos hv, length_cons, ne_eq, this,
          not_false_eq_true, iff_true]
        omega
      · have hover : strncpyOver ex.tokenCode token = token := by
          simp [strncpyOver, drop_eq_nil_of_le hex]
        rw [newLoop, if_pos ⟨hv, rfl⟩]
        simp only [hover]
        rw [setSpeedToKv_put imei token r kv _ .stopped rfl, heq, Phase.after_cons, Phase.next,
          if_pos hv]
    · obtain ⟨f, hf, heq⟩ := ih (i + 1)
      have hlen : i + 1 + s.length = i + (v :: s).length := by simp only [length_cons]; omega
      rw [hlen] at hf heq
      refine ⟨f, ?_, ?_⟩
      · rw [hf, Phase.after_cons, Phase.next, if_neg hv]
      · rw [newLoop, if_neg (by tauto), if_neg (by simp only [length_cons]; omega), heq,
          Phase.after_cons, Phase.next, if_neg hv]

end

/-- **One package.** The record follows the phase, and the package is filtered if it
changes the phase. -/
theorem filterSpeeds_eq (imei token : Bytes) (r : Option KvSpeed) (kv : SpeedKv)
    (hnew : (r.getD ⟨[], 0⟩).tokenCode ≠ token)
    (hlen : (r.getD ⟨[], 0⟩).tokenCode.length ≤ token.length)
    (p : Phase) (s : List Int) (hpos : ∀ v ∈ s, 0 ≤ v) :
    filterSpeeds imei token (p.put imei token r kv) s =
      (decide (p.after s ≠ p), (p.after s).put imei token r kv) := by
  cases p with
  | before =>
    have hread : getSpeedFromKv (Phase.before.put imei token r kv) imei = r.getD ⟨[], 0⟩ := by
      simp [getSpeedFromKv, Phase.put, Phase.record]
    obtain ⟨f, hf, heq⟩ := newLoop_before imei token r kv 0 (r.getD ⟨[], 0⟩) hlen s
    rw [Nat.zero_add] at hf heq
    simp only [filterSpeeds, hread, if_neg (Ne.symm hnew), heq, hf]
  | stopped =>
    simp only [filterSpeeds, Phase.put_stored imei token r kv (p := .stopped) rfl, ite_true,
      knownLoop_stopped imei token r kv s hpos]
    by_cases h : Phase.stopped.after s = .stopped
    · simp [h]
    · simp [h]
  | behind =>
    simp only [filterSpeeds, Phase.put_stored imei token r kv (p := .behind) rfl, ite_true,
      knownLoop_behind, Phase.behind_after]
    simp

--
-- All packages
--

section

variable {D : Type} (check : Bytes → Bool) (imei token : Bytes)

/-- A package of the vehicle, with the tokenCode and one to fifteen speeds. -/
structure Message.Of (m : Message D) : Prop where
  imei_eq : m.imei.or m.mirrtalkID = some imei
  token_eq : m.tokenCode = some token
  speeds : ∃ s, m.speed = some s ∧ 1 ≤ s.length ∧ s.length ≤ 15 ∧ ∀ v ∈ s, 0 ≤ v

/-- The speeds of a package. -/
def Message.speeds (m : Message D) : List Int := m.speed.getD []

/-- The speeds of the packages, one after the other. -/
def allSpeeds (ms : List (Message D)) : List Int := ms.flatMap Message.speeds

/-- The number of speeds before the `k`-th package. -/
def offset (ms : List (Message D)) (k : Nat) : Nat := (allSpeeds (ms.take k)).length

/-- Both strings fit into their fields. -/
def Fits : Prop := imei.length ≤ imeiLen ∧ token.length ≤ imeiLen

theorem gpsDecode_fault {m : Message D} (hm : m.Of imei token) (kv : SpeedKv)
    (hcheck : check imei = false) (h : ¬Fits imei token) :
    gpsDecode check kv m = .error .memory := by
  unfold gpsDecode
  simp only [hm.imei_eq, hm.token_eq, strncpyField]
  by_cases hi : imeiLen < imei.length
  · simp only [if_pos hi]
    rfl
  · have ht : imeiLen < token.length := by
      unfold Fits at h
      omega
    simp only [if_neg hi, ok_bind, hcheck, Bool.false_eq_true, if_false, if_pos ht]
    rfl

theorem gpsDecode_ok {m : Message D} (hm : m.Of imei token) (hcheck : check imei = false)
    (hfits : Fits imei token) (r : Option KvSpeed) (kv : SpeedKv)
    (hnew : (r.getD ⟨[], 0⟩).tokenCode ≠ token)
    (hlen : (r.getD ⟨[], 0⟩).tokenCode.length ≤ token.length) (p : Phase) :
    ∃ d, (d = .filtered ↔ p.after m.speeds ≠ p) ∧
      gpsDecode check (p.put imei token r kv) m =
        .ok (d, (p.after m.speeds).put imei token r kv) := by
  obtain ⟨hi, ht⟩ := hfits
  obtain ⟨s, hs, hlo, hhi, hpos⟩ := hm.speeds
  have hitem : arrayItem m.speed = some s := by
    rw [hs, arrayItem, if_neg (by omega)]
  have hspeeds : m.speeds = s := by rw [Message.speeds, hs, Option.getD_some]
  have hfilter := filterSpeeds_eq imei token r kv hnew hlen p s hpos
  unfold gpsDecode
  simp only [hm.imei_eq, hm.token_eq, strncpyField, if_neg (Nat.not_lt.mpr hi),
    if_neg (Nat.not_lt.mpr ht), ok_bind, hcheck, Bool.false_eq_true, if_false, hitem, hfilter,
    hspeeds]
  by_cases hp : p.after s = p
  · simp only [hp, ne_eq, not_true_eq_false, decide_false, iff_false]
    cases decodeRest m s with
    | none => exact ⟨.failed, by simp, rfl⟩
    | some info => exact ⟨.success info, by simp, rfl⟩
  · simp only [ne_eq, hp, not_false_eq_true, decide_true, iff_true]
    exact ⟨.filtered, rfl, rfl⟩

theorem allSpeeds_cons (m : Message D) (ms : List (Message D)) :
    allSpeeds (m :: ms) = m.speeds ++ allSpeeds ms := rfl

theorem gpsDecodeAll_ok (hcheck : check imei = false) (hfits : Fits imei token)
    (r : Option KvSpeed) (kv : SpeedKv) (hnew : (r.getD ⟨[], 0⟩).tokenCode ≠ token)
    (hlen : (r.getD ⟨[], 0⟩).tokenCode.length ≤ token.length) (ms : List (Message D))
    (hms : ∀ m ∈ ms, m.Of imei token) (p : Phase) :
    ∃ ds, gpsDecodeAll check (p.put imei token r kv) ms =
        .ok (ds, (p.after (allSpeeds ms)).put imei token r kv) ∧
      ∀ k < ms.length, (ds[k]? = some .filtered ↔
        p.after (allSpeeds (ms.take (k + 1))) ≠ p.after (allSpeeds (ms.take k))) := by
  induction ms generalizing p with
  | nil => exact ⟨[], rfl, by simp⟩
  | cons m ms ih =>
    obtain ⟨d, hd, heq⟩ := gpsDecode_ok check imei token (hms m (.head _)) hcheck hfits
      r kv hnew hlen p
    obtain ⟨ds, hrun, hds⟩ := ih (fun x hx => hms x (.tail _ hx))
      (p.after m.speeds)
    refine ⟨d :: ds, ?_, ?_⟩
    · rw [gpsDecodeAll, heq]
      simp only [ok_bind, hrun, allSpeeds_cons, Phase.after_append]
    · intro k hk
      cases k with
      | zero => simpa [allSpeeds] using hd
      | succ k =>
        rw [length_cons, Nat.add_lt_add_iff_right] at hk
        simpa only [getElem?_cons_succ, take_succ_cons, allSpeeds_cons,
          Phase.after_append] using hds k hk

theorem gpsDecodeAll_fault (hcheck : check imei = false) (hfits : ¬Fits imei token)
    (kv : SpeedKv) {ms : List (Message D)} (hne : ms ≠ []) (hms : ∀ m ∈ ms, m.Of imei token) :
    gpsDecodeAll check kv ms = .error .memory := by
  cases ms with
  | nil => exact absurd rfl hne
  | cons m ms =>
    rw [gpsDecodeAll, gpsDecode_fault check imei token (hms m (.head _)) kv hcheck hfits]
    rfl

--
-- The filter and the cut
--

/-- The record that belongs to a sequence: `r` if there is no zero, sign 1 if all is zero
from the first zero on, sign 2 otherwise. -/
def recordOf (r : Option KvSpeed) (s : List Int) : Option KvSpeed :=
  if 0 ∉ s then r
  else if ∀ v ∈ s.drop (stopStart s), v = 0 then some ⟨token, 1⟩
  else some ⟨token, 2⟩

/-- The store depends on the sequence alone, and a package is filtered if and only if it
has a speed of the first stop or the one behind it. -/
def CutIndependent (kv : SpeedKv) (ms : List (Message D)) : Prop :=
  ∃ ds kv', gpsDecodeAll check kv ms = .ok (ds, kv') ∧
    kv' imei = recordOf token (kv imei) (allSpeeds ms) ∧
    ∀ k < ms.length, (ds[k]? = some .filtered ↔
      ∃ i, offset ms k ≤ i ∧ i < offset ms (k + 1) ∧
        stopStart (allSpeeds ms) ≤ i ∧ i ≤ stopEnd (allSpeeds ms))

theorem stopStart_le_stopEnd (s : List Int) : stopStart s ≤ stopEnd s := Nat.le_add_right _ _

theorem record_after (r : Option KvSpeed) (s : List Int) :
    (Phase.before.after s).record r token = recordOf token r s := by
  induction s with
  | nil => rfl
  | cons v s ih =>
    by_cases hv : v = 0
    · have hstart : stopStart (v :: s) = 0 := by simp [stopStart, hv]
      have hmem : ¬0 ∉ v :: s := by simp [hv]
      have hall : (∀ w ∈ v :: s, w = 0) ↔ ∀ w ∈ s, w = 0 := by simp [hv]
      rw [Phase.after_cons, Phase.next, if_pos hv, Phase.stopped_after, recordOf, hstart,
        drop_zero, if_neg hmem]
      simp only [hall]
      split <;> rfl
    · have hstart : stopStart (v :: s) = stopStart s + 1 := by simp [stopStart, hv]
      rw [Phase.after_cons, Phase.next, if_neg hv, ih, recordOf, recordOf, hstart,
        drop_succ_cons]
      simp [Ne.symm hv]

theorem allSpeeds_take (ms : List (Message D)) (k : Nat) :
    allSpeeds (ms.take k) = (allSpeeds ms).take (offset ms k) := by
  have h : allSpeeds ms = allSpeeds (ms.take k) ++ allSpeeds (ms.drop k) := by
    rw [allSpeeds, allSpeeds, allSpeeds, ← flatMap_append, take_append_drop]
  rw [h, offset, take_left]

theorem offset_lt {ms : List (Message D)} (hms : ∀ m ∈ ms, m.Of imei token) {k : Nat}
    (hk : k < ms.length) : offset ms k < offset ms (k + 1) := by
  obtain ⟨s, hs, hlo, -⟩ := (hms ms[k] (getElem_mem hk)).speeds
  have hspeeds : (ms[k]).speeds = s := by rw [Message.speeds, hs, Option.getD_some]
  rw [offset, offset, take_succ_eq_append_getElem hk, allSpeeds, allSpeeds,
    flatMap_append, length_append, flatMap_singleton, hspeeds]
  omega

theorem offset_le (ms : List (Message D)) (k : Nat) :
    offset ms k ≤ (allSpeeds ms).length := by
  have h := congrArg List.length (allSpeeds_take ms k)
  rw [length_take] at h
  change offset ms k = _ at h
  omega

/-- The phases at the two ends of a package that lies between `a` and `b` differ if and
only if the stop begins or ends between them. -/
theorem phase_changes_iff (s : List Int) {a b : Nat} (hab : a < b) (hb : b ≤ s.length) :
    Phase.before.after (s.take b) ≠ Phase.before.after (s.take a) ↔
      (∃ i, a ≤ i ∧ i < b ∧ stopStart s ≤ i ∧ i ≤ stopEnd s) ∧
        ¬(stopStart s < a ∧ b ≤ stopEnd s) := by
  have hle := stopStart_le_stopEnd s
  rw [phase_take s b hb, phase_take s a (by omega)]
  by_cases ha : a ≤ stopStart s
  · rw [if_pos ha]
    by_cases hb' : b ≤ stopStart s
    · rw [if_pos hb']
      constructor
      · exact fun h => absurd rfl h
      · rintro ⟨⟨i, -, hi, hi', -⟩, -⟩
        omega
    · rw [if_neg hb']
      refine iff_of_true (by split <;> decide) ⟨⟨stopStart s, ha, by omega, Nat.le_refl _, hle⟩, ?_⟩
      omega
  · rw [if_neg ha, if_neg (by omega : ¬b ≤ stopStart s)]
    by_cases ha' : a ≤ stopEnd s
    · rw [if_pos ha']
      by_cases hb' : b ≤ stopEnd s
      · rw [if_pos hb']
        exact iff_of_false (fun h => h rfl) (fun h => h.2 ⟨by omega, hb'⟩)
      · rw [if_neg hb']
        exact iff_of_true (by decide) ⟨⟨a, Nat.le_refl _, hab, by omega, ha'⟩, by omega⟩
    · rw [if_neg ha', if_neg (by omega : ¬b ≤ stopEnd s)]
      refine iff_of_false (fun h => h rfl) ?_
      rintro ⟨⟨i, hi, -, -, hi'⟩, -⟩
      omega

/-- **The filter.** It follows its rule if both strings fit into their fields and no
package lies inside the first stop, behind its first zero. -/
theorem filter_iff (hcheck : check imei = false) (kv : SpeedKv)
    (hnew : (getSpeedFromKv kv imei).tokenCode ≠ token)
    (hlen : ∀ r, kv imei = some r → r.tokenCode.length = token.length)
    (ms : List (Message D)) (hms : ∀ m ∈ ms, m.Of imei token) :
    CutIndependent check imei token kv ms ↔
      (ms = [] ∨ Fits imei token) ∧
        ∀ k < ms.length, ¬(stopStart (allSpeeds ms) < offset ms k ∧
          offset ms (k + 1) ≤ stopEnd (allSpeeds ms)) := by
  have hput : kv = Phase.before.put imei token (kv imei) kv := by
    simp [Phase.put, Phase.record]
  by_cases hfits : Fits imei token
  · have hlen' : ((kv imei).getD ⟨[], 0⟩).tokenCode.length ≤ token.length := by
      cases hr : kv imei with
      | none => simp
      | some r => exact (hlen r hr).le
    obtain ⟨ds, hrun, hds⟩ := gpsDecodeAll_ok check imei token hcheck hfits (kv imei) kv hnew hlen'
      ms hms .before
    rw [← hput] at hrun
    have hstore : (Phase.before.after (allSpeeds ms)).put imei token (kv imei) kv imei =
        recordOf token (kv imei) (allSpeeds ms) := by
      rw [Phase.put, Function.update_self, record_after]
    have hpackage : ∀ k < ms.length, (ds[k]? = some .filtered ↔
        (∃ i, offset ms k ≤ i ∧ i < offset ms (k + 1) ∧
          stopStart (allSpeeds ms) ≤ i ∧ i ≤ stopEnd (allSpeeds ms)) ∧
        ¬(stopStart (allSpeeds ms) < offset ms k ∧
          offset ms (k + 1) ≤ stopEnd (allSpeeds ms))) := by
      intro k hk
      rw [hds k hk, allSpeeds_take, allSpeeds_take,
        phase_changes_iff _ (offset_lt imei token hms hk) (offset_le ms (k + 1))]
    constructor
    · rintro ⟨ds', kv', hrun', -, hrule⟩
      obtain ⟨rfl, rfl⟩ : ds = ds' ∧ _ = kv' := by
        simpa using hrun.symm.trans hrun'
      refine ⟨.inr hfits, fun k hk hinside => ?_⟩
      -- the package lies inside the stop, so the rule filters it and the code does not
      have hlt := offset_lt imei token hms hk
      have hrule' := (hrule k hk).mpr ⟨offset ms k, Nat.le_refl _, hlt, by omega, by omega⟩
      exact ((hpackage k hk).mp hrule').2 hinside
    · rintro ⟨-, hinside⟩
      refine ⟨ds, _, hrun, hstore, fun k hk => ?_⟩
      rw [hpackage k hk, and_iff_left (hinside k hk)]
  · by_cases hne : ms = []
    · subst hne
      exact iff_of_true ⟨[], kv, rfl, rfl, by simp⟩ ⟨.inl rfl, by simp⟩
    · refine iff_of_false ?_ ?_
      · rintro ⟨ds, kv', hrun, -⟩
        rw [gpsDecodeAll_fault check imei token hcheck hfits kv hne hms] at hrun
        cases hrun
      · rintro ⟨hor, -⟩
        exact hor.elim hne hfits

end

/-- A package of the vehicle `I` with the tokenCode `T`. -/
def package (speeds : List Int) : Message Unit where
  imei := some (ascii "I")
  mirrtalkID := none
  tokenCode := some (ascii "T")
  speed := some speeds
  gpsTime := some [1]
  longitude := some [()]
  latitude := some [()]
  direction := some [0]
  altitude := some [0]

theorem package_of {speeds : List Int} (hlo : 1 ≤ speeds.length) (hhi : speeds.length ≤ 15)
    (hpos : ∀ v ∈ speeds, 0 ≤ v) : (package speeds).Of (ascii "I") (ascii "T") :=
  ⟨rfl, rfl, speeds, rfl, hlo, hhi, hpos⟩

theorem packages_of : ∀ m ∈ [package [0], package [0], package [5]],
    m.Of (ascii "I") (ascii "T") := by
  intro m hm
  simp only [mem_cons, not_mem_nil, or_false] at hm
  rcases hm with rfl | rfl | rfl
  all_goals exact package_of (by decide) (by decide) (by decide)

theorem filter_iff_two_zeros :
    CutIndependent (fun _ => false) (ascii "I") (ascii "T") (fun _ => none)
        [package [0], package [0], package [5]] ↔
      ([package [0], package [0], package [5]] = [] ∨ Fits (ascii "I") (ascii "T")) ∧
        ∀ k < 3, ¬(stopStart [0, 0, 5] < offset [package [0], package [0], package [5]] k ∧
          offset [package [0], package [0], package [5]] (k + 1) ≤ stopEnd [0, 0, 5]) :=
  filter_iff (fun _ => false) (ascii "I") (ascii "T") rfl (fun _ => none) (by decide)
    (by simp) [package [0], package [0], package [5]] packages_of

/-- A stop of two packages and the start behind it: the second package is let through. -/
theorem not_cutIndependent_two_zeros :
    (∀ m ∈ [package [0], package [0], package [5]], m.Of (ascii "I") (ascii "T")) ∧
      ¬CutIndependent (fun _ => false) (ascii "I") (ascii "T") (fun _ => none)
        [package [0], package [0], package [5]] := by
  refine ⟨packages_of, ?_⟩
  rintro ⟨ds, kv, hrun, -, hrule⟩
  have hds : ds = [.filtered, .success ⟨0, 0, 0, 1, 1, (), (), 0, 0⟩, .filtered] :=
    (congrArg Prod.fst (Except.ok.inj hrun)).symm
  have h := (hrule 1 (by decide)).mpr ⟨1, by decide, by decide, by decide, by decide⟩
  rw [hds] at h
  cases h

end Supex.RoadRank
