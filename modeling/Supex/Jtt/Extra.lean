import Supex.Jtt.Wire

/-!
# releaseServer — what a history upload says

`jtt_extra_send` sends the points of a vehicle in packages of up to five. This
module reads the packages back, as a peer does: `pkg_decode`, the head
`BODY_GPS_EXTRA_HEAD` and `count` times a `BODY_GPS_BODY`.

The loop of `body_extra_gps_set` takes every field of a point from `gps[i]`, and
the state from `gps->state`, which is the first point's.

* `jttExtraSend_bodies` — the packages of an upload, read back.

Main result: `history_uploaded_iff`.
-/

namespace Supex.Jtt

open Supex.Lib
open List (length_append length_cons length_nil flatMap_cons map_cons append_nil length_drop
  length_map getElem?_drop)

--
-- Reading packages
--

/-- What a `BODY_GPS_BODY` says of a point. -/
structure Point where
  date : Bytes
  time : Bytes
  lon : UInt32
  lat : UInt32
  vec1 : UInt16
  direction : UInt16
  altitude : UInt16
  state : UInt32
  deriving DecidableEq, Repr

/-- What a point of the caller says. -/
def BodyGps.point (g : BodyGps) : Point where
  date := g.date.toList
  time := g.time.toList
  lon := g.lon
  lat := g.lat
  vec1 := g.vec1
  direction := g.direction
  altitude := g.altitude
  state := g.state

/-- A `BODY_GPS_BODY` at `a`. -/
def readPoint (m : Mem) (a : Int) : Point where
  date := m.load (a + 1) 4
  time := m.load (a + 5) 3
  lon := UInt32.ofNat (beVal (m.load (a + 8) 4))
  lat := UInt32.ofNat (beVal (m.load (a + 12) 4))
  vec1 := UInt16.ofNat (beVal (m.load (a + 16) 2))
  direction := UInt16.ofNat (beVal (m.load (a + 24) 2))
  altitude := UInt16.ofNat (beVal (m.load (a + 26) 2))
  state := UInt32.ofNat (beVal (m.load (a + 28) 4))

/-- `n` of them behind each other. -/
def readPoints (m : Mem) : Nat → Int → List Point
  | 0, _ => []
  | n + 1, a => readPoint m a :: readPoints m n (a + GPS_BODY_SIZE)

/-- A history body: the vehicle, the type and the length of the data, the count
and the points. -/
structure ExtraBody where
  vehicleNo : Bytes
  dataType : Nat
  dataLen : Nat
  count : Nat
  points : List Point
  deriving DecidableEq, Repr

/-- `sizeof(BODY_GPS_EXTRA_HEAD)`. -/
def EXTRA_HEAD_SIZE : Nat := 29

/-- A history body at `a`, `len` bytes long: the count has to agree with the
length. -/
def readExtra (m : Mem) (a : Int) (len : Int) : Option ExtraBody :=
  let count := (m (a + 28)).toNat
  if len = EXTRA_HEAD_SIZE + count * GPS_BODY_SIZE then
    some {
      vehicleNo := (m.load a 21).takeWhile (· ≠ 0)
      dataType := beVal (m.load (a + 22) 2)
      dataLen := beVal (m.load (a + 24) 4)
      count := count
      points := readPoints m count (a + EXTRA_HEAD_SIZE) }
  else none

/-- A package from the wire, decoded and its body read. -/
def readPackage (user : PkgUser) (p : Bytes) : Option ExtraBody :=
  let r := pkgDecode user (Mem.store (fun _ => 0) 0 p) p.length
  if r.1 = 0 then readExtra r.2.1 JTT_HEAD_SIZE (r.2.2 - JTT_HEAD_SIZE - 3) else none

/-- The packages an upload hands to `jtt_send`. -/
def emitted (env : Nat → Sending) (extra : List BodyGps) (c : Conn) : List Bytes :=
  (jttExtraSend env extra c).2.frames.drop c.frames.length

/-- The upload of `extra` says what it was given: a package for every five points,
and the bodies list every point once, in order and as it is, each with the
vehicle, and with the count and the length of what is in it. -/
structure HistoryUploaded (env : Nat → Sending) (vehicle : Bytes) (extra : List BodyGps)
    (c : Conn) : Prop where
  ok : (jttExtraSend env extra c).1 = 0
  packages : (emitted env extra c).length = (extra.length + 4) / 5
  bodies : ∃ bodies : List ExtraBody,
    (emitted env extra c).map (readPackage c.user) = bodies.map some ∧
      bodies.flatMap ExtraBody.points = extra.map BodyGps.point ∧
      ∀ b ∈ bodies, b.vehicleNo = vehicle ∧ b.dataType = UP_EXG_MSG_HISTORY_LOCATION ∧
        b.count = b.points.length ∧ b.dataLen = 1 + b.points.length * GPS_BODY_SIZE

--
-- A body
--

/-- The body sent for a group of points. -/
def groupBody (g : BodyGps) (group : List BodyGps) : ExtraBody where
  vehicleNo := g.imei.1
  dataType := UP_EXG_MSG_HISTORY_LOCATION
  dataLen := 1 + group.length * GPS_BODY_SIZE
  count := group.length
  points := group.map fun p => { p.point with state := g.state }

theorem load_of_holds {m : Mem} {a b : Int} {bs : Bytes} {n : Nat} (h : m.Holds b bs) (hb : b = a)
    (hn : bs.length = n) : m.load a n = bs := by
  subst hb hn
  exact h

theorem beVal_u32 (x : UInt32) : UInt32.ofNat (beVal (beBytes 4 x.toNat)) = x := by
  rw [beVal_beBytes (by have := x.toNat_lt; omega), UInt32.ofNat_toNat]

theorem beVal_u16 (x : UInt16) : UInt16.ofNat (beVal (beBytes 2 x.toNat)) = x := by
  rw [beVal_beBytes (by have := x.toNat_lt; omega), UInt16.ofNat_toNat]

theorem readPoint_gpsBody {m : Mem} {a : Int} {g : BodyGps} {state : UInt32}
    (h : m.Holds a (gpsBody g state)) : readPoint m a = { g.point with state := state } := by
  unfold gpsBody at h
  simp only [Mem.holds_append, length_append, length_cons, length_nil,
    beBytes_length, Vector.length_toList] at h
  obtain ⟨⟨⟨⟨⟨⟨⟨⟨⟨⟨⟨-, hdate⟩, htime⟩, hlon⟩, hlat⟩, hvec1⟩, -⟩, -⟩, hdirection⟩, haltitude⟩,
    hstate⟩, -⟩ := h
  unfold readPoint BodyGps.point
  rw [load_of_holds hdate (by push_cast; ring) (Vector.length_toList),
    load_of_holds htime (by push_cast; ring) (Vector.length_toList),
    load_of_holds hlon (by push_cast; ring) (beBytes_length _ _),
    load_of_holds hlat (by push_cast; ring) (beBytes_length _ _),
    load_of_holds hvec1 (by push_cast; ring) (beBytes_length _ _),
    load_of_holds hdirection (by push_cast; ring) (beBytes_length _ _),
    load_of_holds haltitude (by push_cast; ring) (beBytes_length _ _),
    load_of_holds hstate (by push_cast; ring) (beBytes_length _ _)]
  simp only [beVal_u32, beVal_u16]

theorem flatMap_gpsBody_length (group : List BodyGps) (state : UInt32) :
    (group.flatMap fun p => gpsBody p state).length = group.length * GPS_BODY_SIZE := by
  induction group with
  | nil => rfl
  | cons p group ih =>
    rw [flatMap_cons, length_append, gpsBody_length, ih, length_cons]
    unfold GPS_BODY_SIZE
    ring

theorem readPoints_gpsBody {m : Mem} {a : Int} {state : UInt32} (group : List BodyGps)
    (h : m.Holds a (group.flatMap fun p => gpsBody p state)) :
    readPoints m group.length a = group.map fun p => { p.point with state := state } := by
  induction group generalizing a with
  | nil => rfl
  | cons p group ih =>
    rw [flatMap_cons, Mem.holds_append, gpsBody_length] at h
    rw [length_cons, readPoints, map_cons, readPoint_gpsBody h.1]
    exact congrArg _ (ih h.2)

theorem takeWhile_vehicleNo (g : BodyGps) : (vehicleNo g).takeWhile (· ≠ 0) = g.imei.1 := by
  unfold vehicleNo
  rw [List.takeWhile_append_of_pos fun b hb => by
    rw [decide_eq_true_eq]
    rintro rfl
    exact g.imei.2.2 hb]
  have hzeros : (List.replicate (21 - g.imei.1.length) (0 : UInt8)).takeWhile (· ≠ 0) = [] := by
    cases 21 - g.imei.1.length with
    | zero => rfl
    | succ k =>
      rw [List.replicate_succ, List.takeWhile_cons_of_neg]
      decide
  rw [hzeros, append_nil]

theorem bodyExtraGpsSet_some (hlen : Nat) (g : BodyGps) (gps : List BodyGps)
    (hfive : (g :: gps).length ≤ 5) (hfits : 29 + (g :: gps).length * GPS_BODY_SIZE ≤ hlen) :
    ∃ data, bodyExtraGpsSet hlen (g :: gps) = some data ∧
      data.length = 29 + (g :: gps).length * GPS_BODY_SIZE := by
  refine ⟨_, if_neg (by omega), ?_⟩
  simp only [length_append, flatMap_gpsBody_length, vehicleNo_length, beBytes_length,
    length_cons, length_nil]

theorem readExtra_set {m : Mem} {a : Int} {hlen : Nat} {g : BodyGps} {gps : List BodyGps}
    {data : Bytes} (hset : bodyExtraGpsSet hlen (g :: gps) = some data) (h : m.Holds a data) :
    readExtra m a data.length = some (groupBody g (g :: gps)) := by
  rw [bodyExtraGpsSet] at hset
  split at hset
  · cases hset
  · next hfits =>
    obtain rfl := Option.some.inj hset
    have hn : (g :: gps).length ≤ 5 := by omega
    simp only [length_append, flatMap_gpsBody_length, Mem.holds_append, vehicleNo_length,
      beBytes_length, length_cons, length_nil] at h ⊢
    obtain ⟨⟨⟨⟨⟨hvehicle, -⟩, htype⟩, hlen⟩, hcount⟩, hpoints⟩ := h
    have hcountByte : (m (a + 28)).toNat = gps.length + 1 := by
      have hbyte := (Mem.holds_cons.mp hcount).1
      rw [show a + 28 = a + ((21 + (0 + 1) + 2 + 4 : Nat) : Int) by norm_num, hbyte,
        UInt8.toNat_ofNat']
      rw [length_cons] at hn
      omega
    rw [length_cons] at hn
    unfold readExtra
    rw [hcountByte, if_pos (by unfold EXTRA_HEAD_SIZE GPS_BODY_SIZE; push_cast; ring),
      load_of_holds hvehicle rfl (vehicleNo_length g),
      load_of_holds htype (by norm_num) (beBytes_length _ _),
      load_of_holds hlen (by norm_num) (beBytes_length _ _), takeWhile_vehicleNo,
      beVal_beBytes (by decide), beVal_beBytes (by unfold GPS_BODY_SIZE; omega)]
    have hread := readPoints_gpsBody (g :: gps) hpoints
    rw [length_cons] at hread
    unfold groupBody
    rw [length_cons, ← hread]
    congr 2

--
-- The packages of an upload
--

/-- The bodies of an upload: the points five by five. -/
def historyBodies : List BodyGps → List ExtraBody
  | [] => []
  | g :: gps => groupBody g ((g :: gps).take 5) :: historyBodies ((g :: gps).drop 5)
termination_by gps => gps.length
decreasing_by
  rw [length_drop, length_cons]
  omega

/-- The socket fails for no frame: attempts may time out, but none is an error. -/
def SendsSucceed (env : Nat → Sending) : Prop :=
  ∀ k, ∀ t ∈ (env k).tries, t ≠ .selectError ∧ t ≠ .sendError

theorem readPackage_congr {u v : PkgUser} (hhead : u.headFlag = v.headFlag)
    (hend : u.endFlag = v.endFlag) (p : Bytes) : readPackage u p = readPackage v p := by
  unfold readPackage pkgDecode
  rw [hhead, hend]

theorem sendPkg_user (env : Nat → Sending) (c : Conn) (body : PkgBody) :
    (sendPkg env c body).2.user = { c.user with msgSz := c.user.msgSz + 1 } := by
  have huser := pkgEncode_user (env c.frames.length).key c.user (fun _ => 0) GPS_PKG_LEN body
  unfold sendPkg
  dsimp only
  split
  · exact huser
  · split
    · exact huser
    · exact huser

theorem readPackage_frame {key : UInt32} {user : PkgUser} {body : PkgBody} {b : ExtraBody}
    (hread : ∀ m : Mem, m.Holds JTT_HEAD_SIZE body.data →
      readExtra m JTT_HEAD_SIZE body.data.length = some b) :
    readPackage user (frame key user body) = some b := by
  obtain ⟨out, hdecode, hholds⟩ := pkgDecode_frame (u := user) rfl rfl
    (Mem.holds_store (fun _ => 0) 0 (frame key user body))
  have hbytes : (bigHead key user body).bytes.length = JTT_HEAD_SIZE := by
    rw [JttHead.bytes, length_cons, JttHead.fields_length]
    rfl
  rw [Mem.holds_append, hbytes, Int.zero_add] at hholds
  have hlen : ((JTT_HEAD_SIZE + body.data.length + 3 : Nat) : Int) - JTT_HEAD_SIZE - 3 =
      body.data.length := by
    push_cast
    ring
  unfold readPackage
  rw [hdecode]
  rw [if_pos rfl, hlen]
  exact hread out hholds.2

variable {env : Nat → Sending}

theorem sendPkg_group (hsend : SendsSucceed env) (c : Conn) {hlen : Nat} {g : BodyGps}
    {gps : List BodyGps} {data : Bytes} (hset : bodyExtraGpsSet hlen (g :: gps) = some data)
    (hlt : data.length < 2 ^ 32) :
    ∃ c' p, sendPkg env c ⟨UP_EXG_MSG, data, hlt⟩ = (0, c') ∧ c'.frames = c.frames ++ [p] ∧
      readPackage c.user p = some (groupBody g (g :: gps)) ∧
      readPackage c'.user = readPackage c.user := by
  obtain ⟨c', hrun, hframes⟩ := sendPkg_ok env c ⟨UP_EXG_MSG, data, hlt⟩
    (bodyExtraGpsSet_length hset) (hsend _)
  have huser := sendPkg_user env c ⟨UP_EXG_MSG, data, hlt⟩
  rw [hrun] at huser
  refine ⟨c', _, hrun, hframes, readPackage_frame fun m hm => readExtra_set hset hm, ?_⟩
  funext p
  exact readPackage_congr (by rw [huser]) (by rw [huser]) p

theorem extraLoop_bodies (hsend : SendsSucceed env) (fuel dlen : Nat) (extra : List BodyGps)
    (c : Conn) (hfuel : extra.length ≤ fuel)
    (hdlen : 29 + min 5 extra.length * GPS_BODY_SIZE ≤ dlen) :
    (extraLoop env fuel dlen extra c).1 = 0 ∧
      ∃ ps, (extraLoop env fuel dlen extra c).2.frames = c.frames ++ ps ∧
        ps.map (readPackage c.user) = (historyBodies extra).map some := by
  induction fuel generalizing dlen extra c with
  | zero =>
    obtain rfl := List.length_eq_zero_iff.mp (Nat.le_zero.mp hfuel)
    exact ⟨rfl, [], (append_nil _).symm, by rw [historyBodies]; rfl⟩
  | succ fuel ih =>
    cases extra with
    | nil => exact ⟨rfl, [], (append_nil _).symm, by rw [historyBodies]; rfl⟩
    | cons g gps =>
      have hsize : GPS_BODY_SIZE = 36 := rfl
      have htake : (g :: gps).take 5 = g :: gps.take 4 := rfl
      have htaken : (g :: gps.take 4).length = min 5 (g :: gps).length := by
        rw [← htake, List.length_take]
      obtain ⟨data, hset, hlen⟩ := bodyExtraGpsSet_some dlen g (gps.take 4)
        (by rw [htaken]; exact Nat.min_le_left _ _) (by rw [htaken]; exact hdlen)
      rw [htaken] at hlen
      rw [extraLoop]
      split
      · next hnone =>
        rw [htake, hset] at hnone
        cases hnone
      · next data' hsome =>
        obtain rfl : data' = data := by
          rw [htake, hset] at hsome
          exact (Option.some.inj hsome).symm
        obtain ⟨c', p, hrun, hframes, hfirst, huser⟩ := sendPkg_group hsend c hset
          (lt_of_le_of_lt (bodyExtraGpsSet_length hsome) (by decide))
        obtain ⟨hok, ps, hps, hread⟩ := ih data'.length ((g :: gps).drop 5) c'
          (by rw [length_drop, length_cons]; rw [length_cons] at hfuel; omega)
          (by rw [length_drop, hlen, hsize]; omega)
        rw [hrun]
        dsimp only
        rw [if_neg (by decide)]
        refine ⟨hok, p :: ps, ?_, ?_⟩
        · rw [hps, hframes, List.append_assoc]
          rfl
        · rw [historyBodies, map_cons, map_cons, htake, hfirst, ← hread, huser]

theorem jttExtraSend_bodies (hsend : SendsSucceed env) (extra : List BodyGps) (c : Conn) :
    (jttExtraSend env extra c).1 = 0 ∧
      (emitted env extra c).map (readPackage c.user) = (historyBodies extra).map some := by
  have hlimit : GPS_PKG_LEN.toNat = 5120 := rfl
  have hsize : GPS_BODY_SIZE = 36 := rfl
  obtain ⟨hok, ps, hframes, hread⟩ := extraLoop_bodies hsend extra.length GPS_PKG_LEN.toNat extra c
    le_rfl (by rw [hlimit, hsize]; omega)
  refine ⟨hok, ?_⟩
  unfold emitted jttExtraSend
  rw [hframes, List.drop_left]
  exact hread

--
-- What the bodies say
--

theorem historyBodies_length (extra : List BodyGps) :
    (historyBodies extra).length = (extra.length + 4) / 5 := by
  fun_induction historyBodies extra with
  | case1 => rfl
  | case2 g gps ih =>
    rw [length_cons, ih, length_drop, length_cons]
    omega

theorem historyBodies_fields {vehicle : Bytes} {extra : List BodyGps}
    (hone : ∀ g ∈ extra, g.imei.1 = vehicle) :
    ∀ b ∈ historyBodies extra, b.vehicleNo = vehicle ∧ b.dataType = UP_EXG_MSG_HISTORY_LOCATION ∧
      b.count = b.points.length ∧ b.dataLen = 1 + b.points.length * GPS_BODY_SIZE := by
  fun_induction historyBodies extra with
  | case1 => nofun
  | case2 g gps ih =>
    refine List.forall_mem_cons.mpr ⟨⟨hone g (.head _), rfl, ?_, ?_⟩,
      ih fun p hp => hone p (List.mem_of_mem_drop hp)⟩
    · unfold groupBody
      rw [length_map]
    · unfold groupBody
      rw [length_map]

/-- The states of the points agree within every five. -/
def StatesAgree (extra : List BodyGps) : Prop :=
  ∀ (i : Nat) (g first : BodyGps), extra[i]? = some g → extra[5 * (i / 5)]? = some first →
    g.state = first.state

theorem statesAgree_cons_iff (g : BodyGps) (gps : List BodyGps) :
    StatesAgree (g :: gps) ↔
      (∀ p ∈ (g :: gps).take 5, p.state = g.state) ∧ StatesAgree ((g :: gps).drop 5) := by
  constructor
  · intro h
    constructor
    · intro p hp
      obtain ⟨i, hi⟩ := List.mem_iff_getElem?.mp hp
      rw [List.getElem?_take] at hi
      split at hi
      · next hlt => exact h i p g hi (by rw [show 5 * (i / 5) = 0 by omega]; rfl)
      · cases hi
    · intro i p first hp hfirst
      rw [getElem?_drop] at hp hfirst
      have hplace : 5 * ((5 + i) / 5) = 5 + 5 * (i / 5) := by omega
      exact h (5 + i) p first hp (hplace ▸ hfirst)
  · rintro ⟨hfive, hrest⟩ i p first hp hfirst
    rcases Nat.lt_or_ge i 5 with hlt | hge
    · rw [show 5 * (i / 5) = 0 by omega] at hfirst
      obtain rfl := Option.some.inj hfirst
      refine hfive p (List.mem_iff_getElem?.mpr ⟨i, ?_⟩)
      rw [List.getElem?_take, if_pos hlt, hp]
    · obtain ⟨j, rfl⟩ := Nat.exists_eq_add_of_le hge
      refine hrest j p first ?_ ?_
      · rw [getElem?_drop, hp]
      · rw [getElem?_drop, ← hfirst]
        congr 1
        omega

theorem groupBody_points_iff (g : BodyGps) (group : List BodyGps) :
    (groupBody g group).points = group.map BodyGps.point ↔ ∀ p ∈ group, p.state = g.state := by
  unfold groupBody
  rw [List.map_inj_left]
  refine forall₂_congr fun p _ => ?_
  rw [Point.mk.injEq]
  simp only [true_and]
  exact eq_comm

theorem historyBodies_points_iff (extra : List BodyGps) :
    (historyBodies extra).flatMap ExtraBody.points = extra.map BodyGps.point ↔
      StatesAgree extra := by
  fun_induction historyBodies extra with
  | case1 => exact iff_of_true rfl nofun
  | case2 g gps ih =>
    rw [statesAgree_cons_iff, ← ih, ← groupBody_points_iff, flatMap_cons]
    conv_lhs => rhs; rw [← List.take_append_drop 5 (g :: gps), List.map_append]
    constructor
    · intro h
      exact List.append_inj h (by unfold groupBody; rw [length_map, length_map])
    · rintro ⟨hfive, hrest⟩
      rw [hfive, hrest]

/-- **History upload.** With sends that succeed, the upload of a vehicle's points
says what it was given exactly when the points of every package have the state of
the package's first point. -/
theorem history_uploaded_iff (env : Nat → Sending) (hsend : SendsSucceed env) (vehicle : Bytes)
    (extra : List BodyGps) (hone : ∀ g ∈ extra, g.imei.1 = vehicle) (c : Conn) :
    HistoryUploaded env vehicle extra c ↔ StatesAgree extra := by
  obtain ⟨hok, hread⟩ := jttExtraSend_bodies hsend extra c
  rw [← historyBodies_points_iff]
  constructor
  · rintro ⟨-, -, bodies, hbodies, hpoints, -⟩
    rw [hread] at hbodies
    rw [List.map_injective_iff.mpr (Option.some_injective _) hbodies]
    exact hpoints
  · intro hpoints
    refine ⟨hok, ?_, historyBodies extra, hread, hpoints, historyBodies_fields hone⟩
    rw [← historyBodies_length, ← length_map (f := readPackage c.user), hread,
      length_map]

/-- A point of the vehicle `1` with a state. -/
def pointWith (state : UInt32) : BodyGps where
  imei := ⟨[0x31], by decide⟩
  date := #v[1, 2, 20, 16]
  time := #v[3, 4, 5]
  lon := 116000000
  lat := 39000000
  vec1 := 60
  direction := 90
  altitude := 50
  state := state

theorem history_uploaded_iff_same :
    HistoryUploaded (fun _ => ⟨7, []⟩) [0x31] [pointWith 3, pointWith 3] (newConn delimiterUser) :=
  (history_uploaded_iff (fun _ => ⟨7, []⟩) (fun _ => nofun) [0x31] [pointWith 3, pointWith 3]
    (by decide) (newConn delimiterUser)).mpr
    ((statesAgree_cons_iff _ _).mpr ⟨by decide, fun _ _ _ h => by cases h⟩)

/-- Two points with different states: the second one is sent with the state of
the first. -/
theorem history_state_lost :
    ¬∀ (env : Nat → Sending) (vehicle : Bytes) (extra : List BodyGps) (c : Conn),
      SendsSucceed env → (∀ g ∈ extra, g.imei.1 = vehicle) →
      HistoryUploaded env vehicle extra c := by
  intro h
  obtain ⟨-, -, bodies, hbodies, hpoints, -⟩ := h (fun _ => ⟨7, []⟩) [0x31]
    [pointWith 1, pointWith 2] (newConn delimiterUser) (fun _ => nofun) (by decide)
  have hsend : SendsSucceed fun _ => ⟨7, []⟩ := fun _ => nofun
  rw [(jttExtraSend_bodies hsend _ _).2] at hbodies
  obtain rfl := List.map_injective_iff.mpr (Option.some_injective _) hbodies
  have hagree := (historyBodies_points_iff _).mp hpoints
  exact absurd (hagree 1 (pointWith 2) (pointWith 1) rfl rfl) (by decide)

end Supex.Jtt
