import Supex.Brm.Tasks
import Supex.Lib.Delimited
import Supex.Lib.Json
import Mathlib.Data.List.TakeWhile

/-!
# The merged request body

`_route_make_rtdata` merges the source of a task with the results of the calculation
hosts into one JSON text: what stands between the outer braces of each, joined with
commas. The text goes to every route host behind a header with its length.

The texts are in caches. A cache is a part of the library, which may have no room left
for what is appended; `_route_make_rtdata` does not look whether the source and the body
of a request were appended. `Cache` is what it relies on.

An object without members leaves nothing between the commas, so there is one comma too
many.

Main result: `merged_iff`.
-/

namespace Supex.Brm

open Supex.Lib List Option

--
-- The requests
--

/-- The calls of `cache_append` and `cache_appendf`. -/
inductive Site where
  | opening
  | source
  | result (i : Nat)
  | closing
  | header (k : Nat)
  | body (k : Nat)
  deriving DecidableEq

def cacheMaxsize : Nat := 10485760

/-- The library: whether there is room for so many bytes at a call. A cache has at most
`maxsize` bytes. -/
structure Cache where
  room : Site → Nat → Bool
  bounded : ∀ site n, room site n = true → n ≤ cacheMaxsize

/-- An append to a cache with this contents; -1 is `none`. -/
def Cache.append (lib : Cache) (site : Site) (cache data : Bytes) : Option Bytes :=
  if lib.room site (cache.length + data.length) then some (cache ++ data) else none

/-- An append whose result is not looked at. -/
def Cache.appendQuiet (lib : Cache) (site : Site) (cache data : Bytes) : Bytes :=
  (lib.append site cache data).getD cache

/-- The header of `RTDATA_TEMPLATE`, which prints the length with `%d`. -/
def rtdataHeader (h : Host) (length : Int) : Bytes :=
  ascii "POST " ++ h.url.getD (ascii "/publicentry") ++ ascii " HTTP/1.1\r\n" ++
    ascii "User-Agent: curl/7.33.0\r\n" ++
    ascii "Host: " ++ h.ip ++ ascii ":" ++ fmtLong h.port ++ ascii "\r\n" ++
    ascii "Content-Type: application/json; charset=utf-8\r\n" ++
    ascii "Connection:Keep-Alive\r\n" ++
    ascii "Content-Length:" ++ (fmtLong length ++ 13 :: ascii "\nAccept: */*\r\n\r\n")

/-- The results, from the `i`-th one on. -/
def appendResults (lib : Cache) : Nat → Bytes → List Bytes → Option Bytes
  | _, json, [] => some json
  | i, json, d :: ds => do
    let inner ← between d
    let json ← lib.append (.result i) json (44 :: inner)
    appendResults lib (i + 1) json ds

/-- The merged text. -/
def makeJson (lib : Cache) (t : TaskData) : Option Bytes := do
  let json ← lib.append .opening [] [123]
  let json ←
    if t.src = [] then some json
    else do
      let inner ← between t.src
      some (lib.appendQuiet .source json inner)
  let json ← appendResults lib 0 json (t.caldata.map NetData.cache)
  lib.append .closing json [125]

/-- The requests to the route hosts, from the `k`-th one on. -/
def makeRequests (lib : Cache) (cfg : Config) (json : Bytes) :
    Nat → List (Option Nat) → Option (List (Option NetData))
  | _, [] => some []
  | k, none :: hosts => (makeRequests lib cfg json (k + 1) hosts).map (none :: ·)
  | k, some h :: hosts =>
    match (cfg.routehost h).proto with
    | .http => do
      let cache ← lib.append (.header k) [] (rtdataHeader (cfg.routehost h) (toInt32 json.length))
      let cache := lib.appendQuiet (.body k) cache json
      (makeRequests lib cfg json (k + 1) hosts).map (some ⟨h, .http, cache⟩ :: ·)
    | .other => none

/-- `_route_make_rtdata`. -/
def makeRtdata (lib : Cache) (cfg : Config) (t : TaskData) : Option (List (Option NetData)) :=
  if t.rthost = [] then none
  else do
    let json ← makeJson lib t
    makeRequests lib cfg json 0 t.rthost

--
-- What is asked of the requests
--

/-- A request has one object with these members behind its header, and the header prints
its length. -/
def Carries (h : Host) (ms : List (Bytes × Json)) (request : Bytes) : Prop :=
  ∃ length body, request = rtdataHeader h length ++ body ∧ length = body.length ∧
    ObjectText ms body

/-- Every request carries the members of the source and those of the results, in order. -/
def Merged (cfg : Config) (t : TaskData) (src : List (Bytes × Json))
    (results : List (List (Bytes × Json))) (rtdata : List (Option NetData)) : Prop :=
  ∀ k h : Nat, t.rthost[k]? = some (some h) →
    ∃ d : NetData, rtdata[k]? = some (some d) ∧
      Carries (cfg.routehost h) (src ++ results.flatten) d.cache

/-- The texts of the source and of the results are objects with these members. -/
structure Objects (t : TaskData) (src : List (Bytes × Json))
    (results : List (List (Bytes × Json))) : Prop where
  src : ObjectText src t.src
  results : List.Forall₂ (fun ms (d : NetData) => ObjectText ms d.cache) results t.caldata

--
-- The texts between the braces
--

theorem between_eq {w inner w' : Bytes} (hw : (123 : UInt8) ∉ w) (hw' : (125 : UInt8) ∉ w')
    (h0 : (0 : UInt8) ∉ inner) :
    between (w ++ 123 :: (inner ++ 125 :: w')) = if inner = [] then none else some inner := by
  have hopen : (w ++ 123 :: (inner ++ 125 :: w')).dropWhile (· ≠ 123) =
      123 :: (inner ++ 125 :: w') := by
    rw [dropWhile_append_of_pos fun b hb => by
      simpa using fun (e : b = 123) => hw (e ▸ hb)]
    simp
  have hclose : (inner ++ 125 :: w').reverse.dropWhile (· ≠ 125) = 125 :: inner.reverse := by
    rw [reverse_append, reverse_cons, append_assoc,
      dropWhile_append_of_pos fun b hb => by
        simpa using fun (e : b = 125) => hw' (e ▸ mem_reverse.mp hb)]
    simp
  have hcstr : cstr inner = inner := by
    rw [cstr, takeWhile_eq_self_iff]
    intro b hb
    simpa using fun (e : b = 0) => h0 (e ▸ hb)
  rw [between, hopen]
  simp only [hclose, drop_succ_cons, drop_zero, reverse_reverse, hcstr,
    ne_eq, reverse_eq_nil_iff]
  by_cases hi : inner = []
  · simp [hi]
  · simp [hi]

variable {lib : Cache} {ms : List (Bytes × Json)} {rtdata : List (Option NetData)}

theorem between_object {t : Bytes} (h : ObjectText ms t) :
    ∃ inner, Text (.members ms) inner ∧ between t = if inner = [] then none else some inner := by
  obtain ⟨w, inner, w', hw, hinner, hw', rfl⟩ := objectText_iff.mp h
  refine ⟨inner, hinner, between_eq ?_ ?_ hinner.zero_notMem⟩
  · exact hw.ne (by decide) (by decide) (by decide) (by decide)
  · exact hw'.ne (by decide) (by decide) (by decide) (by decide)

theorem between_members {t inner : Bytes} (h : ObjectText ms t) (hb : between t = some inner) :
    Text (.members ms) inner := by
  obtain ⟨inner', htext, heq⟩ := between_object h
  rw [heq] at hb
  split at hb
  · cases hb
  · exact Option.some.inj hb ▸ htext

--
-- The merged text
--

/-- What stands behind the source in the merged text. -/
def tail (inners : List Bytes) : Bytes := inners.flatMap (44 :: ·) ++ [125]

/-- The merged text. -/
def mergedBody (src : Bytes) (inners : List Bytes) : Bytes := 123 :: (src ++ tail inners)

section

variable {src : List (Bytes × Json)} {results : List (List (Bytes × Json))} {s : Bytes}
  {inners : List Bytes}

theorem scan_tail_cons (last : UInt8) (inner : Bytes) (inners : List Bytes) :
    scan (.out last) (tail (inner :: inners)) =
      ((Scan.out last).next 44).bind fun s =>
        (scan s inner).bind fun s => scan s (tail inners) := by
  have : tail (inner :: inners) = 44 :: (inner ++ tail inners) := by simp [tail]
  rw [this, scan]
  exact congrArg _ (funext fun s => scan_append s inner (tail inners))

theorem scan_tail_bare {last : UInt8} (h : last = 44 ∨ last = 123) (hne : inners ≠ []) :
    scan (.out last) (tail inners) = none := by
  obtain ⟨inner, inners, rfl⟩ := exists_cons_of_ne_nil hne
  rw [scan_tail_cons]
  rcases h with rfl | rfl <;> rfl

theorem scan_tail_none (h : List.Forall₂ (fun ms t => Text (.members ms) t) results inners)
    (hempty : ∃ ms ∈ results, ms = []) (last : UInt8) : scan (.out last) (tail inners) = none := by
  induction h generalizing last with
  | nil => simp at hempty
  | @cons ms inner results inners htext hrest ih =>
    rw [scan_tail_cons]
    cases hnext : (Scan.out last).next 44 with
    | none => rfl
    | some s =>
      have hs : s = .out 44 := by
        simp only [Scan.next, isBlank] at hnext
        split at hnext
        · simp at *
        · split at hnext
          · simp at *
          · split at hnext
            · cases hnext
            · exact (Option.some.inj hnext).symm
      subst hs
      obtain ⟨last', heq, hbare, -⟩ := htext.scan_ok 44
      rw [bind_some, heq, bind_some]
      by_cases hms : ms = []
      · subst hms
        rw [hbare trivial]
        cases hrest with
        | nil => rfl
        | cons _ _ => exact scan_tail_bare (.inl rfl) (by simp)
      · obtain ⟨ms', hms', hnil⟩ := hempty
        refine ih ⟨ms', ?_, hnil⟩ last'
        exact (mem_cons.mp hms').resolve_left fun e => hms (e ▸ hnil)

theorem join_results (h : List.Forall₂ (fun ms t => Text (.members ms) t) results inners)
    (hall : ∀ ms ∈ results, ms ≠ []) (hsrc : Text (.members src) s) (hne : src ≠ []) :
    Text (.members (src ++ results.flatten)) (s ++ inners.flatMap (44 :: ·)) := by
  induction h generalizing src s with
  | nil => simpa using hsrc
  | @cons ms inner results inners htext hrest ih =>
    have hjoin := hsrc.join hne htext (hall ms (.head _))
    have := ih (fun x hx => hall x (.tail _ hx)) hjoin (by simp [hne])
    simpa using this

theorem not_objectText_of_scan {t : Bytes} (h : scan (.out 0) t = none) : ¬ObjectText ms t := by
  intro htext
  obtain ⟨last, heq, -⟩ := htext.scan_ok 0
  rw [heq] at h
  cases h

/-- **The merged text.** It is the object of all members if there are no results, or if
there are members everywhere. -/
theorem mergedBody_iff (h : List.Forall₂ (fun ms t => Text (.members ms) t) results inners)
    (hsrc : Text (.members src) s) :
    ObjectText (src ++ results.flatten) (mergedBody s inners) ↔
      results = [] ∨ src ≠ [] ∧ ∀ ms ∈ results, ms ≠ [] := by
  have hopen : scan (.out 0) (mergedBody s inners) =
      (scan (.out 123) s).bind fun s => scan s (tail inners) := by
    rw [mergedBody, scan]
    exact scan_append (.out 123) s (tail inners)
  constructor
  · intro hobj
    by_contra hnot
    rw [not_or, not_and_or, not_not] at hnot
    obtain ⟨last, heq, hbare, -⟩ := hsrc.scan_ok 123
    refine not_objectText_of_scan ?_ hobj
    rw [hopen, heq, bind_some]
    by_cases hnil : src = []
    · subst hnil
      have hinners : inners ≠ [] := by
        rintro rfl
        exact hnot.1 (forall₂_nil_right_iff.mp h)
      exact scan_tail_bare (.inr (hbare trivial)) hinners
    · refine scan_tail_none h ?_ last
      have := hnot.2.resolve_left hnil
      simpa using this
  · intro hright
    have hmembers : Text (.members (src ++ results.flatten)) (s ++ inners.flatMap (44 :: ·)) := by
      rcases hright with hnil | ⟨hne, hall⟩
      · subst hnil
        cases h
        simpa using hsrc
      · exact join_results h hall hsrc hne
    have := Text.item (show IsWs [] by simp [IsWs]) (.obj hmembers)
      (show IsWs [] by simp [IsWs])
    rw [ObjectText]
    simpa [mergedBody, tail] using this

/-- Without the source, there is one object only if it has no members and there are no
results. -/
theorem mergedBody_nil_iff (h : List.Forall₂ (fun ms t => Text (.members ms) t) results inners) :
    ObjectText (src ++ results.flatten) (mergedBody [] inners) ↔ results = [] ∧ src = [] := by
  constructor
  · intro hobj
    have hnil : results = [] := by
      by_contra hne
      have hinners : inners ≠ [] := by
        rintro rfl
        exact hne (forall₂_nil_right_iff.mp h)
      have hscan : scan (.out 0) (mergedBody [] inners) = none :=
        scan_tail_bare (.inr rfl) hinners
      exact not_objectText_of_scan hscan hobj
    subst hnil
    cases h
    refine ⟨rfl, ?_⟩
    rw [flatten_nil, append_nil] at hobj
    obtain ⟨w, inner, w', -, htext, -, heq⟩ := objectText_iff.mp hobj
    have hlen := congrArg List.length heq
    simp only [mergedBody, tail, flatMap_nil, nil_append, length_cons,
      length_append, length_nil] at hlen
    obtain rfl : inner = [] := length_eq_zero_iff.mp (by omega)
    by_contra hne
    obtain ⟨last, hscan, -, hfull⟩ := htext.scan_ok 44
    cases hscan
    refine (hfull ?_).1 rfl
    cases src with
    | nil => exact absurd rfl hne
    | cons m ms => exact id
  · rintro ⟨rfl, rfl⟩
    cases h
    exact (mergedBody_iff .nil (.noMembers (by simp [IsWs]))).mpr (.inl rfl)

end

--
-- What is sent
--

theorem Cache.append_eq {site : Site} {cache data new : Bytes}
    (h : lib.append site cache data = some new) :
    new = cache ++ data ∧ lib.room site (cache.length + data.length) = true := by
  rw [Cache.append] at h
  split at h
  · rename_i hroom
    exact ⟨(Option.some.inj h).symm, hroom⟩
  · cases h

theorem appendResults_eq {i : Nat} {json new : Bytes} {ds : List Bytes}
    (h : appendResults lib i json ds = some new) :
    ∃ inners, List.Forall₂ (fun d inner => between d = some inner) ds inners ∧
      new = json ++ inners.flatMap (44 :: ·) := by
  induction ds generalizing i json with
  | nil => exact ⟨[], .nil, by simpa [appendResults] using h.symm⟩
  | cons d ds ih =>
    rw [appendResults] at h
    obtain ⟨inner, hinner, h⟩ := bind_eq_some_iff.mp h
    obtain ⟨json', happend, h⟩ := bind_eq_some_iff.mp h
    obtain ⟨inners, hall, rfl⟩ := ih h
    obtain ⟨rfl, -⟩ := Cache.append_eq happend
    exact ⟨inner :: inners, .cons hinner hall, by simp⟩

/-- There is room for what the source has between its braces. -/
def SourceRoom (lib : Cache) (t : TaskData) : Prop :=
  ∀ inner, between t.src = some inner → lib.room .source (1 + inner.length) = true

theorem makeJson_eq {t : TaskData} {json : Bytes} (hne : t.src ≠ [])
    (h : makeJson lib t = some json) :
    ∃ inner inners, between t.src = some inner ∧
      List.Forall₂ (fun (d : NetData) inner => between d.cache = some inner) t.caldata inners ∧
      (SourceRoom lib t → json = mergedBody inner inners) ∧
      (¬SourceRoom lib t → json = mergedBody [] inners) ∧ json.length ≤ cacheMaxsize := by
  rw [makeJson] at h
  obtain ⟨json₁, hopen, h⟩ := bind_eq_some_iff.mp h
  rw [if_neg hne] at h
  obtain ⟨inner, hinner, h⟩ := bind_eq_some_iff.mp h
  obtain ⟨json₂, hsource, h⟩ := bind_eq_some_iff.mp h
  obtain ⟨json₃, hresults, h⟩ := bind_eq_some_iff.mp h
  obtain ⟨rfl, -⟩ := Cache.append_eq hopen
  obtain ⟨inners, hall, rfl⟩ := appendResults_eq hresults
  obtain ⟨rfl, hroom⟩ := Cache.append_eq h
  rw [forall₂_map_left_iff] at hall
  have hroom_iff : SourceRoom lib t ↔ lib.room .source (1 + inner.length) = true := by
    constructor
    · exact fun hs => hs inner hinner
    · intro hr inner' hinner'
      rw [hinner] at hinner'
      exact Option.some.inj hinner' ▸ hr
  refine ⟨inner, inners, hinner, hall, ?_, ?_, ?_⟩
  · intro hs
    have := hroom_iff.mp hs
    simp [← Option.some.inj hsource, Cache.appendQuiet, Cache.append, this, mergedBody, tail]
  · intro hs
    have := mt hroom_iff.mpr hs
    simp [← Option.some.inj hsource, Cache.appendQuiet, Cache.append, this, mergedBody, tail]
  · rw [length_append]
    exact lib.bounded _ _ hroom

theorem results_members {results : List (List (Bytes × Json))} {ds : List NetData}
    {inners : List Bytes}
    (hobj : List.Forall₂ (fun ms (d : NetData) => ObjectText ms d.cache) results ds)
    (hall : List.Forall₂ (fun (d : NetData) inner => between d.cache = some inner) ds inners) :
    List.Forall₂ (fun ms t => Text (.members ms) t) results inners := by
  induction hobj generalizing inners with
  | nil =>
    cases hall
    exact .nil
  | cons hms _ ih =>
    cases hall with
    | cons hinner hrest => exact .cons (between_members hms hinner) (ih hrest)

theorem makeRequests_get {cfg : Config} {json : Bytes} {k : Nat} {hosts : List (Option Nat)}
    (hrun : makeRequests lib cfg json k hosts = some rtdata) {i h : Nat}
    (hi : hosts[i]? = some (some h)) :
    ∃ d, rtdata[i]? = some (some d) ∧
      d.cache = lib.appendQuiet (.body (k + i))
        (rtdataHeader (cfg.routehost h) (toInt32 json.length)) json := by
  induction hosts generalizing k rtdata i with
  | nil => simp at hi
  | cons host hosts ih =>
    cases host with
    | none =>
      rw [makeRequests] at hrun
      obtain ⟨rest, hrest, rfl⟩ := map_eq_some_iff.mp hrun
      cases i with
      | zero => simp at hi
      | succ i =>
        obtain ⟨d, hd, hcache⟩ := ih hrest (by simpa using hi)
        exact ⟨d, by simpa using hd, by rw [hcache, Nat.add_right_comm, Nat.add_assoc]⟩
    | some h' =>
      rw [makeRequests] at hrun
      split at hrun
      · obtain ⟨cache, hheader, hrun⟩ := bind_eq_some_iff.mp hrun
        obtain ⟨rest, hrest, rfl⟩ := map_eq_some_iff.mp hrun
        obtain ⟨rfl, -⟩ := Cache.append_eq hheader
        cases i with
        | zero =>
          obtain rfl : h' = h := by simpa using hi
          exact ⟨_, rfl, by simp⟩
        | succ i =>
          obtain ⟨d, hd, hcache⟩ := ih hrest (by simpa using hi)
          exact ⟨d, by simpa using hd, by rw [hcache, Nat.add_right_comm, Nat.add_assoc]⟩
      · cases hrun

theorem notMem_fmtLong (i : Int) : (13 : UInt8) ∉ fmtLong i := by
  have hdigits : (13 : UInt8) ∉ fmtU64 i.natAbs := by
    intro h
    exact absurd (decDigits_isDigit 20 i.natAbs 13 h) (by decide)
  rw [fmtLong]
  split
  · simp [hdigits]
  · exact hdigits

theorem carries_iff (h : Host) (ms : List (Bytes × Json)) {n : Nat} {body : Bytes}
    (hn : n ≤ cacheMaxsize) (hbody : body.length ≤ cacheMaxsize) :
    Carries h ms (rtdataHeader h (toInt32 n) ++ body) ↔ n = body.length ∧ ObjectText ms body := by
  have hmax : cacheMaxsize < 2 ^ 31 := by decide
  rw [toInt32_of_lt (by omega)]
  constructor
  · rintro ⟨length, body', heq, hlen, hobj⟩
    simp only [rtdataHeader, append_assoc, append_cancel_left_eq,
      cons_append] at heq
    obtain ⟨hprint, htail⟩ := append_cons_inj (notMem_fmtLong _) (notMem_fmtLong _) heq
    obtain rfl : body = body' := append_cancel_left htail
    have hval := congrArg strtol hprint
    rw [strtol_fmtLong (by omega) (by omega), hlen, strtol_fmtLong (by omega) (by omega)] at hval
    exact ⟨by omega, hobj⟩
  · rintro ⟨rfl, hobj⟩
    exact ⟨body.length, body, rfl, rfl, hobj⟩

/-- There is room for the body of a request. -/
def BodyRoom (lib : Cache) (cfg : Config) (t : TaskData) (k h : Nat) : Prop :=
  ∀ json, makeJson lib t = some json →
    lib.room (.body k)
      ((rtdataHeader (cfg.routehost h) (toInt32 json.length)).length + json.length) = true

/-- **The requests.** They carry all members if and only if there is room for the source
and the bodies, and there are members everywhere or no results. -/
theorem merged_iff (lib : Cache) (cfg : Config) (t : TaskData) (src : List (Bytes × Json))
    (results : List (List (Bytes × Json))) (hobj : Objects t src results)
    (rtdata : List (Option NetData)) (hrun : makeRtdata lib cfg t = some rtdata) :
    Merged cfg t src results rtdata ↔
      ∀ k h, t.rthost[k]? = some (some h) → BodyRoom lib cfg t k h ∧
        (results = [] ∧ (SourceRoom lib t ∨ src = []) ∨
          SourceRoom lib t ∧ src ≠ [] ∧ ∀ ms ∈ results, ms ≠ []) := by
  have hne : t.src ≠ [] := by
    obtain ⟨w, inner, w', -, -, -, heq⟩ := objectText_iff.mp hobj.src
    simp [heq]
  rw [makeRtdata] at hrun
  split at hrun
  · cases hrun
  obtain ⟨json, hjson, hrun⟩ := bind_eq_some_iff.mp hrun
  obtain ⟨inner, inners, hinner, hall, hstored, hdropped, hmax⟩ := makeJson_eq hne hjson
  have hsrc := between_members hobj.src hinner
  have htexts := results_members hobj.results hall
  -- the merged text has all members in the same cases for all requests
  have hright : ObjectText (src ++ results.flatten) json ↔
      results = [] ∧ (SourceRoom lib t ∨ src = []) ∨
        SourceRoom lib t ∧ src ≠ [] ∧ ∀ ms ∈ results, ms ≠ [] := by
    by_cases hroom : SourceRoom lib t
    · rw [hstored hroom, mergedBody_iff htexts hsrc]
      simp [hroom]
    · rw [hdropped hroom, mergedBody_nil_iff htexts]
      simp [hroom]
  have hbody : ∀ k h, BodyRoom lib cfg t k h ↔ lib.room (.body k)
      ((rtdataHeader (cfg.routehost h) (toInt32 json.length)).length + json.length) = true := by
    intro k h
    constructor
    · exact fun hb => hb json hjson
    · intro hr json' hjson'
      rw [hjson] at hjson'
      exact Option.some.inj hjson' ▸ hr
  rw [Merged]
  refine forall_congr' fun k => forall_congr' fun h => forall_congr' fun hk => ?_
  obtain ⟨d, hd, hcache⟩ := makeRequests_get hrun hk
  rw [Nat.zero_add] at hcache
  have hcarries : (∃ d : NetData, rtdata[k]? = some (some d) ∧
      Carries (cfg.routehost h) (src ++ results.flatten) d.cache) ↔
      Carries (cfg.routehost h) (src ++ results.flatten) d.cache := by
    simp [hd]
  rw [hcarries, hcache, ← hright, hbody, Cache.appendQuiet, Cache.append]
  by_cases hroom : lib.room (.body k)
      ((rtdataHeader (cfg.routehost h) (toInt32 json.length)).length + json.length) = true
  · rw [if_pos hroom, getD_some, carries_iff _ _ hmax hmax]
    simp [hroom]
  · -- the request ends with its header, and nothing is no object
    rw [if_neg hroom, getD_none]
    refine iff_of_false ?_ fun hb => hroom hb.1
    intro hc
    rw [← append_nil (rtdataHeader (cfg.routehost h) (toInt32 json.length)),
      carries_iff _ _ hmax (by simp)] at hc
    obtain ⟨w, inner, w', -, -, -, heq⟩ := objectText_iff.mp hc.2
    simp at heq

--
-- Without a lack of room
--

theorem mapM_between {ds : List NetData} {inners : List Bytes}
    (h : List.Forall₂ (fun (d : NetData) inner => between d.cache = some inner) ds inners) :
    (ds.mapM fun d => between d.cache) = some inners := by
  induction h with
  | nil => rfl
  | cons hd _ ih => simp [mapM_cons, hd, ih]

theorem rtdataHeader_post (h : Host) {json : Bytes} (hmax : json.length ≤ cacheMaxsize) :
    rtdataHeader h (toInt32 json.length) ++ json = post h json := by
  have hlt : json.length < 2 ^ 31 := lt_of_le_of_lt hmax (by decide)
  have hend : (13 : UInt8) :: ascii "\nAccept: */*\r\n\r\n" =
      ascii "\r\n" ++ ascii "Accept: */*\r\n\r\n" := by decide
  rw [toInt32_of_lt hlt, rtdataHeader, post, hend]
  simp only [append_assoc]

theorem makeRequests_routeRequests {cfg : Config} {json : Bytes} (hmax : json.length ≤ cacheMaxsize)
    {k : Nat} {hosts : List (Option Nat)} (hrun : makeRequests lib cfg json k hosts = some rtdata)
    (hroom : ∀ i h : Nat, hosts[i]? = some (some h) → lib.room (.body (k + i))
      ((rtdataHeader (cfg.routehost h) (toInt32 json.length)).length + json.length) = true) :
    routeRequests cfg json hosts = some rtdata := by
  induction hosts generalizing k rtdata with
  | nil => exact hrun
  | cons host hosts ih =>
    have hroom' : ∀ i h : Nat, hosts[i]? = some (some h) → lib.room (.body (k + 1 + i))
        ((rtdataHeader (cfg.routehost h) (toInt32 json.length)).length + json.length) = true := by
      intro i h hi
      have := hroom (i + 1) h (by simpa using hi)
      rwa [Nat.add_right_comm k 1 i, Nat.add_assoc]
    cases host with
    | none =>
      rw [makeRequests] at hrun
      obtain ⟨rest, hrest, rfl⟩ := map_eq_some_iff.mp hrun
      rw [routeRequests, ih hrest hroom', map_some]
    | some h =>
      have hbody := hroom 0 h rfl
      rw [Nat.add_zero] at hbody
      rw [makeRequests] at hrun
      rw [routeRequests]
      split at hrun
      · rename_i hhttp
        obtain ⟨cache, hheader, hrun⟩ := bind_eq_some_iff.mp hrun
        obtain ⟨rest, hrest, rfl⟩ := map_eq_some_iff.mp hrun
        obtain ⟨rfl, -⟩ := Cache.append_eq hheader
        simp only [hhttp, ih hrest hroom', map_some, nil_append, Cache.appendQuiet,
          Cache.append]
        rw [if_pos hbody, getD_some, rtdataHeader_post _ hmax]
      · cases hrun

theorem makeRtdata_routeMakeRtdata {cfg : Config} {t : TaskData} {out : Outside} (hne : t.src ≠ [])
    (hmemory : out.memory = true) (hrun : makeRtdata lib cfg t = some rtdata)
    (hsource : SourceRoom lib t)
    (hbody : ∀ k h : Nat, t.rthost[k]? = some (some h) → BodyRoom lib cfg t k h) :
    routeMakeRtdata cfg out t = some rtdata := by
  rw [makeRtdata] at hrun
  split at hrun
  · cases hrun
  · rename_i hhost
    obtain ⟨json, hjson, hrun⟩ := bind_eq_some_iff.mp hrun
    obtain ⟨inner, inners, hinner, hall, hstored, -, hmax⟩ := makeJson_eq hne hjson
    have hroute : routeJson t = some json := by
      rw [routeJson, if_neg hne, hinner, mapM_between hall, hstored hsource]
      simp [mergedBody, tail, List.flatMap]
    rw [routeMakeRtdata, if_neg (by simp [hhost, hmemory]), hroute]
    refine makeRequests_routeRequests hmax hrun fun k h hk => ?_
    rw [Nat.zero_add]
    exact hbody k h hk json hjson

--
-- One host and one result
--

/-- A library with room up to the maximum. -/
def roomy : Cache where
  room _ n := decide (n ≤ cacheMaxsize)
  bounded _ _ h := of_decide_eq_true h

/-- One calculation host and one route host. -/
def oneHost : Config where
  paralleltasks := 1
  calculate := true
  calhost := []
  routehost _ := ⟨none, ascii "ip", 80, .http⟩

/-- A task with a source and one result. -/
def oneResult (src result : Bytes) : TaskData where
  src := src
  rthost := [some 0]
  caldata := [⟨0, .http, result⟩]
  rtdata := []
  needcts := 1
  acounter := 1

/-- The object with the member `"": null`. -/
def nullObject : Bytes := 123 :: 34 :: 34 :: 58 :: (ascii "null" ++ [125])

def nullMembers : List (Bytes × Json) := [([], .null)]

theorem nullObject_text : ObjectText nullMembers nullObject := by
  have hnil : IsWs [] := by simp [IsWs]
  exact .item hnil (.obj (.lastMember (.member hnil .nil hnil (.item hnil .null hnil)))) hnil

theorem blankObject_text : ObjectText [] [123, 32, 125] := by
  have hnil : IsWs [] := by simp [IsWs]
  have hblank : IsWs [32] := by simp [IsWs]
  exact .item hnil (.obj (.noMembers hblank)) hnil

set_option maxRecDepth 8000 in
theorem merged_iff_null : ∃ rtdata,
    makeRtdata roomy oneHost (oneResult nullObject nullObject) = some rtdata ∧
      (Merged oneHost (oneResult nullObject nullObject) nullMembers [nullMembers] rtdata ↔
        ∀ k h : Nat, [some 0][k]? = some (some h) →
          BodyRoom roomy oneHost (oneResult nullObject nullObject) k h ∧
            ([nullMembers] = [] ∧
              (SourceRoom roomy (oneResult nullObject nullObject) ∨ nullMembers = []) ∨
            SourceRoom roomy (oneResult nullObject nullObject) ∧ nullMembers ≠ [] ∧
              ∀ ms ∈ [nullMembers], ms ≠ [])) :=
  ⟨_, rfl, merged_iff roomy oneHost (oneResult nullObject nullObject) nullMembers
    [nullMembers] ⟨nullObject_text, .cons nullObject_text .nil⟩ _ rfl⟩

set_option maxRecDepth 8000 in
/-- A result without members: there is a comma in front of the closing brace. -/
theorem not_merged_blank : ∃ rtdata,
    Objects (oneResult nullObject [123, 32, 125]) nullMembers [[]] ∧
      makeRtdata roomy oneHost (oneResult nullObject [123, 32, 125]) = some rtdata ∧
      ¬Merged oneHost (oneResult nullObject [123, 32, 125]) nullMembers [[]] rtdata := by
  refine ⟨_, ⟨nullObject_text, .cons blankObject_text .nil⟩, rfl, fun hmerged => ?_⟩
  obtain ⟨d, hd, hcarries⟩ := hmerged 0 0 rfl
  obtain rfl := Option.some.inj (Option.some.inj hd)
  change Carries _ _ (rtdataHeader _ (toInt32 11) ++ mergedBody (nullObject.tail.dropLast) [[32]])
    at hcarries
  rw [carries_iff _ _ (by decide) (by decide)] at hcarries
  have hscan : scan (.out 0) (mergedBody (nullObject.tail.dropLast) [[32]]) = none := by decide
  exact not_objectText_of_scan hscan hcarries.2

end Supex.Brm
