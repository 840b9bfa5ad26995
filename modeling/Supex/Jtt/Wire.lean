import Supex.Jtt.Framing

/-!
# releaseServer — what goes over a connection

A faithful model of `sendn` and `jtt_send` (`jtt_client.c`), of the bodies
(`jtt_body.c`) and of `jtt_real_send`, `jtt_extra_send` and `jtt_heart`
(`jtt_comm.c`). A frame is tried three times; what the socket has taken by then
stays taken, and the senders count a frame that ran out of attempts as sent.

What the outside does is a parameter: for every frame on the connection the
random key and the results of `select` and `send` (`Sending`).

Main result: `wire_whole_iff`.
-/

namespace Supex.Jtt

open Supex.Lib

--
-- Sending bytes
--

def OUT_WR_TRY_TIMES : Nat := 3

/-- The results of `select` and `send` in one turn of `sendn`. `sent n` stands
for a call that takes `n` bytes, or all that are left. -/
inductive Attempt where
  | selectError
  | timeout
  | again
  | sendError
  | sent (n : Nat)
  deriving DecidableEq, Repr

/-- The loop of `sendn` with `tms` turns left: the value returned and the bytes
written. Where `tries` says nothing, `select` times out. -/
def sendnLoop : Nat → List Attempt → Bytes → Int × Bytes
  | _, _, [] => (0, [])
  | 0, _, _ :: _ => (-2, [])
  | tms + 1, tries, b :: left =>
    match tries.headD .timeout with
    | .selectError => (-1, [])
    | .timeout => sendnLoop tms tries.tail (b :: left)
    | .again => sendnLoop tms tries.tail (b :: left)
    | .sendError => (-1, [])
    | .sent n =>
      let r := sendnLoop tms tries.tail ((b :: left).drop n)
      (r.1, (b :: left).take n ++ r.2)

def sendn (tries : List Attempt) (buf : Bytes) : Int × Bytes :=
  sendnLoop OUT_WR_TRY_TIMES tries buf

def jttSend (tries : List Attempt) (buf : Bytes) : Int × Bytes :=
  let r := sendn tries buf
  if r.1 = -1 then (-1, r.2) else if r.1 = -2 then (-2, r.2) else (0, r.2)

/-- The number of bytes of a frame with `left` bytes that the socket takes in
`tms` attempts. -/
def accepted : Nat → List Attempt → Nat → Nat
  | 0, _, _ => 0
  | _, [], _ => 0
  | tms + 1, .sent n :: tries, left => min n left + accepted tms tries (left - n)
  | tms + 1, .timeout :: tries, left => accepted tms tries left
  | tms + 1, .again :: tries, left => accepted tms tries left
  | _ + 1, .selectError :: _, _ => 0
  | _ + 1, .sendError :: _, _ => 0

--
-- Bodies
--

def UP_LINKTEST_REQ : UInt32 := 0x1005

def UP_EXG_MSG : UInt32 := 0x1200

def UP_EXG_MSG_REAL_LOCATION : Nat := 0x1202

def UP_EXG_MSG_HISTORY_LOCATION : Nat := 0x1203

def GPS_PKG_LEN : Int := 1024 * 5

/-- `BODY_GPS`. The imei is a string in sixteen bytes. -/
structure BodyGps where
  imei : { s : Bytes // s.length ≤ 15 ∧ 0 ∉ s }
  date : Vector UInt8 4
  time : Vector UInt8 3
  lon : UInt32
  lat : UInt32
  vec1 : UInt16
  direction : UInt16
  altitude : UInt16
  state : UInt32

/-- `sizeof(BODY_GPS_BODY)`. -/
def GPS_BODY_SIZE : Nat := 36

/-- `vehicle_no`: the imei, filled up with zeros. -/
def vehicleNo (gps : BodyGps) : Bytes := gps.imei.1 ++ List.replicate (21 - gps.imei.1.length) 0

/-- `BODY_GPS_BODY` in memory, with the state `state`. -/
def gpsBody (gps : BodyGps) (state : UInt32) : Bytes :=
  [0] ++ gps.date.toList ++ gps.time.toList ++ beBytes 4 gps.lon.toNat ++ beBytes 4 gps.lat.toNat ++
    beBytes 2 gps.vec1.toNat ++ beBytes 2 0 ++ beBytes 4 0 ++ beBytes 2 gps.direction.toNat ++
    beBytes 2 gps.altitude.toNat ++ beBytes 4 state.toNat ++ beBytes 4 0

def bodyGpsSet (gps : BodyGps) : Bytes :=
  vehicleNo gps ++ [0] ++ beBytes 2 UP_EXG_MSG_REAL_LOCATION ++ beBytes 4 GPS_BODY_SIZE ++
    gpsBody gps gps.state

/-- `body_extra_gps_set`: the points behind each other, all with the state of the
first one. `hlen` is the space there is. -/
def bodyExtraGpsSet (hlen : Nat) : List BodyGps → Option Bytes
  | [] => none
  | g :: gps =>
    let n := (g :: gps).length
    if 5 < n ∨ hlen < 29 + n * GPS_BODY_SIZE then none
    else
      some (vehicleNo g ++ [0] ++ beBytes 2 UP_EXG_MSG_HISTORY_LOCATION ++
        beBytes 4 (1 + n * GPS_BODY_SIZE) ++ [UInt8.ofNat n] ++
        (g :: gps).flatMap fun p => gpsBody p g.state)

theorem vehicleNo_length (gps : BodyGps) : (vehicleNo gps).length = 21 := by
  have := gps.imei.2.1
  rw [vehicleNo, List.length_append, List.length_replicate]
  omega

theorem gpsBody_length (gps : BodyGps) (state : UInt32) : (gpsBody gps state).length = 36 := by
  simp [gpsBody]

theorem bodyGpsSet_length (gps : BodyGps) : (bodyGpsSet gps).length = 64 := by
  simp [bodyGpsSet, vehicleNo_length, gpsBody_length]

theorem bodyExtraGpsSet_length {hlen : Nat} {gps : List BodyGps} {data : Bytes}
    (h : bodyExtraGpsSet hlen gps = some data) : data.length ≤ 209 := by
  cases gps with
  | nil => cases h
  | cons g gps =>
    rw [bodyExtraGpsSet] at h
    split at h
    · cases h
    · next hfits =>
      rw [← Option.some.inj h]
      have hbody : ((g :: gps).flatMap fun p => gpsBody p g.state).length =
          (g :: gps).length * 36 := by
        rw [List.length_flatMap]
        simp [gpsBody_length]
        ring
      simp only [List.length_append, vehicleNo_length, beBytes_length, hbody, List.length_cons,
        List.length_nil] at hfits ⊢
      omega

--
-- The senders
--

/-- What the outside does to one frame: the key, and the results of the attempts
to send it. -/
structure Sending where
  key : UInt32
  tries : List Attempt

/-- A connection: its user, the count of missing heartbeat answers, the bytes
written to the socket, and every frame that was handed to `jtt_send`. -/
structure Conn where
  user : PkgUser
  heartCnt : Int
  wire : Bytes
  frames : List Bytes

/-- A package is encoded and sent; only an error counts as failure. The frames of
a connection are numbered, and `env` says what happens to each. -/
def sendPkg (env : Nat → Sending) (c : Conn) (body : PkgBody) : Int × Conn :=
  let sending := env c.frames.length
  let r := pkgEncode sending.key c.user (fun _ => 0) GPS_PKG_LEN body
  if r.1 = -1 then (-1, { c with user := r.2.1 })
  else
    let buf := r.2.2.1.load 0 r.2.2.2.toNat
    let sent := jttSend sending.tries buf
    let c := { c with user := r.2.1, wire := c.wire ++ sent.2, frames := c.frames ++ [buf] }
    if sent.1 = -1 then (-1, c) else (0, c)

def jttRealSend (env : Nat → Sending) : List BodyGps → Conn → Int × Conn
  | [], c => (0, c)
  | g :: gps, c =>
    let r := sendPkg env c ⟨UP_EXG_MSG, bodyGpsSet g, by rw [bodyGpsSet_length]; decide⟩
    if r.1 = -1 then (-1, r.2) else jttRealSend env gps r.2

/-- The loop of `jtt_extra_send`: five points a package, so as many turns as
points are enough. `dlen` is the length of the last package. -/
def extraLoop (env : Nat → Sending) : Nat → Nat → List BodyGps → Conn → Int × Conn
  | _, _, [], c => (0, c)
  | 0, _, _ :: _, c => (0, c)
  | fuel + 1, dlen, g :: gps, c =>
    match h : bodyExtraGpsSet dlen ((g :: gps).take 5) with
    | none => (-1, c)
    | some data =>
      let r := sendPkg env c
        ⟨UP_EXG_MSG, data, lt_of_le_of_lt (bodyExtraGpsSet_length h) (by decide)⟩
      if r.1 = -1 then (-1, r.2) else extraLoop env fuel data.length ((g :: gps).drop 5) r.2

def jttExtraSend (env : Nat → Sending) (extra : List BodyGps) (c : Conn) : Int × Conn :=
  extraLoop env extra.length GPS_PKG_LEN.toNat extra c

def HEART_COUNT : Int := 3

/-- The heartbeat answer is waited for, unless this is the first heartbeat:
`recvOk` says whether something was received. -/
def heartCheck (recvOk : Bool) (c : Conn) : Int × Conn :=
  if c.heartCnt = 0 then (0, { c with heartCnt := 1 })
  else if recvOk then (0, { c with heartCnt := 1 })
  else if HEART_COUNT = c.heartCnt then (-1, { c with heartCnt := 0 })
  else (0, { c with heartCnt := c.heartCnt + 1 })

def jttHeart (env : Nat → Sending) (recvOk : Bool) (c : Conn) : Int × Conn :=
  let check := heartCheck recvOk c
  if check.1 = -1 then (-1, check.2)
  else
    let r := sendPkg env check.2 ⟨UP_LINKTEST_REQ, [], by decide⟩
    if r.1 = -1 then (-1, { r.2 with heartCnt := 0 }) else (0, r.2)

/-- A call on the connection. -/
inductive Call where
  | real (gps : List BodyGps)
  | extra (gps : List BodyGps)
  | heart (recvOk : Bool)

def Call.exec (env : Nat → Sending) : Call → Conn → Int × Conn
  | .real gps => jttRealSend env gps
  | .extra gps => jttExtraSend env gps
  | .heart recvOk => jttHeart env recvOk

/-- A sequence of calls that all return 0. -/
def runCalls (env : Nat → Sending) : List Call → Conn → Option Conn
  | [], c => some c
  | call :: calls, c =>
    match call.exec env c with
    | (0, c) => runCalls env calls c
    | _ => none

/-- A new connection. -/
def newConn (user : PkgUser) : Conn where
  user := user
  heartCnt := 0
  wire := []
  frames := []

/-- The bytes written are whole frames, in the order of the calls. -/
def WholeFrames (c : Conn) : Prop :=
  ∃ ps : List Bytes, ps.Sublist c.frames ∧ c.wire = ps.flatten

--
-- What is written
--

theorem accepted_le (tms : Nat) (tries : List Attempt) (left : Nat) :
    accepted tms tries left ≤ left := by
  fun_induction accepted tms tries left with
  | case1 => exact Nat.zero_le _
  | case2 => exact Nat.zero_le _
  | case3 tms n tries left ih => omega
  | case4 tms tries left ih => exact ih
  | case5 tms tries left ih => exact ih
  | case6 => exact Nat.zero_le _
  | case7 => exact Nat.zero_le _

theorem sendnLoop_written (tms : Nat) (tries : List Attempt) (buf : Bytes) :
    (sendnLoop tms tries buf).2 = buf.take (accepted tms tries buf.length) := by
  induction tms generalizing tries buf with
  | zero =>
    rw [accepted, List.take_zero]
    cases buf <;> rfl
  | succ tms ih =>
    cases buf with
    | nil => rw [sendnLoop, List.take_nil]
    | cons b left =>
      rcases tries with _ | ⟨t, tries⟩
      · -- nothing but timeouts
        rw [sendnLoop]
        dsimp only [List.headD_nil, List.tail_nil]
        rw [ih]
        cases tms <;> rfl
      · rw [sendnLoop]
        rcases t with _ | _ | _ | _ | n
        · rfl
        · exact ih tries (b :: left)
        · exact ih tries (b :: left)
        · rfl
        · show (b :: left).take n ++ (sendnLoop tms tries ((b :: left).drop n)).2 = _
          rw [ih, accepted, List.length_drop]
          rcases Nat.le_total n (b :: left).length with hn | hn
          · rw [Nat.min_eq_left hn, List.take_add]
          · rw [Nat.min_eq_right hn, List.drop_of_length_le hn, List.take_nil, List.append_nil,
              List.take_of_length_le hn, List.take_of_length_le (Nat.le_add_right _ _)]

theorem jttSend_written (tries : List Attempt) (buf : Bytes) :
    (jttSend tries buf).2 = buf.take (accepted OUT_WR_TRY_TIMES tries buf.length) := by
  rw [← sendnLoop_written]
  unfold jttSend sendn
  dsimp only
  split_ifs <;> rfl

--
-- The frames of a connection
--

/-- The frames of a connection, each with the number of its bytes the socket
takes. -/
def taken (env : Nat → Sending) (frames : List Bytes) : List (Bytes × Nat) :=
  frames.mapIdx fun k p => (p, accepted OUT_WR_TRY_TIMES (env k).tries p.length)

/-- The flags are those of the protocol, every frame is delimited, and of every
frame the bytes the socket takes were written. -/
structure Consistent (env : Nat → Sending) (c : Conn) : Prop where
  head_flag : c.user.headFlag = HEAD_FLAG
  end_flag : c.user.endFlag = END_FLAG
  delimited : ∀ p ∈ c.frames, Delimited HEAD_FLAG END_FLAG p
  wire : c.wire = ((taken env c.frames).map fun q => q.1.take q.2).flatten

theorem pkgEncode_user (key : UInt32) (user : PkgUser) (pkg : Mem) (plen : Int) (body : PkgBody) :
    (pkgEncode key user pkg plen body).2.1 = { user with msgSz := user.msgSz + 1 } := by
  unfold pkgEncode
  split <;> rfl

theorem pkgEncode_code (key : UInt32) (user : PkgUser) (pkg : Mem) (plen : Int) (body : PkgBody) :
    (pkgEncode key user pkg plen body).1 = -1 ∨ (pkgEncode key user pkg plen body).1 = 0 := by
  unfold pkgEncode
  split
  · exact .inl rfl
  · exact .inr rfl

theorem taken_concat (env : Nat → Sending) (frames : List Bytes) (p : Bytes) :
    taken env (frames ++ [p]) = taken env frames ++
      [(p, accepted OUT_WR_TRY_TIMES (env frames.length).tries p.length)] :=
  List.mapIdx_concat

variable {env : Nat → Sending} {c : Conn}

theorem Consistent.sendPkg (h : Consistent env c) (body : PkgBody) :
    Consistent env (sendPkg env c body).2 := by
  have huser := pkgEncode_user (env c.frames.length).key c.user (fun _ => 0) GPS_PKG_LEN body
  have hcode := pkgEncode_code (env c.frames.length).key c.user (fun _ => 0) GPS_PKG_LEN body
  obtain ⟨r, hr⟩ : ∃ r,
      pkgEncode (env c.frames.length).key c.user (fun _ => 0) GPS_PKG_LEN body = r :=
    ⟨_, rfl⟩
  rw [hr] at huser hcode
  have hhead : r.2.1.headFlag = HEAD_FLAG := by
    rw [huser]
    exact h.head_flag
  have hend : r.2.1.endFlag = END_FLAG := by
    rw [huser]
    exact h.end_flag
  unfold Jtt.sendPkg
  dsimp only
  rw [hr]
  split
  · exact ⟨hhead, hend, h.delimited, h.wire⟩
  · next hne =>
    have hbuf : Delimited HEAD_FLAG END_FLAG (r.2.2.1.load 0 r.2.2.2.toNat) := by
      have hdelimited := Encoded.delimited ⟨(env c.frames.length).key, c.user, fun _ => 0,
        GPS_PKG_LEN,
        body, h.head_flag, h.end_flag, by rw [hr]; exact hcode.resolve_left hne⟩
      unfold Encoded.bytes at hdelimited
      dsimp only at hdelimited
      rwa [hr] at hdelimited
    generalize r.2.2.1.load 0 r.2.2.2.toNat = buf at hbuf
    have hresult : Consistent env
        { c with
          user := r.2.1
          wire := c.wire ++ (jttSend (env c.frames.length).tries buf).2
          frames := c.frames ++ [buf] } := by
      refine ⟨hhead, hend, fun p hp => ?_, ?_⟩
      · rcases List.mem_append.mp hp with hp | hp
        · exact h.delimited p hp
        · rw [List.mem_singleton.mp hp]
          exact hbuf
      · rw [taken_concat, List.map_append, List.flatten_append, ← h.wire, jttSend_written]
        simp
    split
    · exact hresult
    · exact hresult

theorem Consistent.jttRealSend (gps : List BodyGps) (h : Consistent env c) :
    Consistent env (jttRealSend env gps c).2 := by
  induction gps generalizing c with
  | nil => exact h
  | cons g gps ih =>
    have hsend := h.sendPkg ⟨UP_EXG_MSG, bodyGpsSet g, by rw [bodyGpsSet_length]; decide⟩
    rw [Jtt.jttRealSend]
    generalize Jtt.sendPkg env c _ = r at hsend ⊢
    split
    · exact hsend
    · exact ih hsend

theorem Consistent.extraLoop (fuel dlen : Nat) (gps : List BodyGps) (h : Consistent env c) :
    Consistent env (extraLoop env fuel dlen gps c).2 := by
  induction fuel generalizing dlen gps c with
  | zero => cases gps <;> exact h
  | succ fuel ih =>
    cases gps with
    | nil => exact h
    | cons g gps =>
      rw [Jtt.extraLoop]
      split
      · exact h
      · next data hdata =>
        have hsend := h.sendPkg
          ⟨UP_EXG_MSG, data, lt_of_le_of_lt (bodyExtraGpsSet_length hdata) (by decide)⟩
        generalize Jtt.sendPkg env c _ = r at hsend ⊢
        dsimp only
        split
        · exact hsend
        · exact ih _ _ hsend

theorem Consistent.heartCheck (recvOk : Bool) (h : Consistent env c) :
    Consistent env (heartCheck recvOk c).2 := by
  unfold Jtt.heartCheck
  split_ifs <;> exact ⟨h.head_flag, h.end_flag, h.delimited, h.wire⟩

theorem Consistent.jttHeart (recvOk : Bool) (h : Consistent env c) :
    Consistent env (jttHeart env recvOk c).2 := by
  have hcheck := h.heartCheck recvOk
  have hsend := hcheck.sendPkg ⟨UP_LINKTEST_REQ, [], by decide⟩
  unfold Jtt.jttHeart
  dsimp only
  generalize Jtt.sendPkg env _ _ = r at hsend ⊢
  split
  · exact hcheck
  · split
    · exact ⟨hsend.head_flag, hsend.end_flag, hsend.delimited, hsend.wire⟩
    · exact hsend

theorem Consistent.exec (call : Call) (h : Consistent env c) :
    Consistent env (call.exec env c).2 := by
  rcases call with gps | gps | recvOk
  · exact h.jttRealSend gps
  · exact h.extraLoop _ _ gps
  · exact h.jttHeart recvOk

theorem Consistent.runCalls {calls : List Call} {c' : Conn} (h : Consistent env c)
    (hrun : runCalls env calls c = some c') : Consistent env c' := by
  induction calls generalizing c with
  | nil =>
    obtain rfl := Option.some.inj hrun
    exact h
  | cons call calls ih =>
    have hcall := h.exec call
    rw [Jtt.runCalls] at hrun
    split at hrun
    · next c₁ heq =>
      rw [heq] at hcall
      exact ih hcall hrun
    · cases hrun

theorem consistent_newConn (env : Nat → Sending) {user : PkgUser}
    (hhead : user.headFlag = HEAD_FLAG)
    (hend : user.endFlag = END_FLAG) : Consistent env (newConn user) :=
  ⟨hhead, hend, nofun, rfl⟩

theorem Consistent.whole_iff (h : Consistent env c) :
    WholeFrames c ↔ ∀ k p, c.frames[k]? = some p →
      accepted OUT_WR_TRY_TIMES (env k).tries p.length = 0 ∨
        accepted OUT_WR_TRY_TIMES (env k).tries p.length = p.length := by
  have hmem : ∀ q, q ∈ taken env c.frames ↔ ∃ k, c.frames[k]? = some q.1 ∧
      q.2 = accepted OUT_WR_TRY_TIMES (env k).tries q.1.length := by
    intro q
    unfold taken
    rw [List.mem_mapIdx]
    constructor
    · rintro ⟨k, hk, rfl⟩
      exact ⟨k, List.getElem?_eq_getElem hk, rfl⟩
    · rintro ⟨k, hk, hq⟩
      obtain ⟨hlt, heq⟩ := List.getElem?_eq_some_iff.mp hk
      refine ⟨k, hlt, ?_⟩
      rw [heq, ← hq]
  have hpieces : ∀ q ∈ taken env c.frames, Delimited HEAD_FLAG END_FLAG q.1 ∧ q.2 ≤ q.1.length := by
    intro q hq
    obtain ⟨k, hk, hn⟩ := (hmem q).mp hq
    refine ⟨h.delimited q.1 (List.mem_of_getElem? hk), ?_⟩
    rw [hn]
    exact accepted_le _ _ _
  have hfst : (taken env c.frames).map Prod.fst = c.frames := by
    apply List.ext_getElem?
    intro k
    unfold taken
    rw [List.getElem?_map, List.getElem?_mapIdx]
    cases c.frames[k]? <;> rfl
  have hwhole := cut_pieces_iff flags_ne hpieces
  rw [hfst, ← h.wire] at hwhole
  refine hwhole.trans ?_
  constructor
  · intro hall k p hp
    exact hall (p, _) ((hmem (p, _)).mpr ⟨k, hp, rfl⟩)
  · intro hall q hq
    obtain ⟨k, hk, hn⟩ := (hmem q).mp hq
    rw [hn]
    exact hall k q.1 hk

--
-- Without errors
--

/-- Without an error of `select` or `send`, `sendn` succeeds or runs out of
attempts. -/
theorem sendnLoop_code (tms : Nat) {tries : List Attempt} (buf : Bytes)
    (h : ∀ t ∈ tries, t ≠ .selectError ∧ t ≠ .sendError) : (sendnLoop tms tries buf).1 ≠ -1 := by
  induction tms generalizing tries buf with
  | zero =>
    cases buf with
    | nil => exact (by decide : (0 : Int) ≠ -1)
    | cons b left => exact (by decide : (-2 : Int) ≠ -1)
  | succ tms ih =>
    cases buf with
    | nil => exact (by decide : (0 : Int) ≠ -1)
    | cons b left =>
      rcases tries with _ | ⟨t, tries⟩
      · exact ih _ nofun
      · obtain ⟨⟨hselect, hsend⟩, hrest⟩ := List.forall_mem_cons.mp h
        rcases t with _ | _ | _ | _ | n
        · exact absurd rfl hselect
        · exact ih _ hrest
        · exact ih _ hrest
        · exact absurd rfl hsend
        · exact ih _ hrest

theorem sendPkg_ok (env : Nat → Sending) (c : Conn) (body : PkgBody)
    (hbody : body.data.length ≤ 209)
    (htries : ∀ t ∈ (env c.frames.length).tries, t ≠ .selectError ∧ t ≠ .sendError) :
    ∃ c', sendPkg env c body = (0, c') ∧
      c'.frames = c.frames ++ [frame (env c.frames.length).key c.user body] := by
  have hlen := escaped_length_le (tmpPkg (env c.frames.length).key c.user body)
  rw [tmpPkg_length] at hlen
  have hlimit : GPS_PKG_LEN = 5120 := rfl
  have hzero := pkgEncode_fits (env c.frames.length).key c.user (fun _ => 0) GPS_PKG_LEN body
    (by omega)
  have hcode := sendnLoop_code OUT_WR_TRY_TIMES
    (frame (env c.frames.length).key c.user body) htries
  obtain ⟨r, hr⟩ : ∃ r,
      pkgEncode (env c.frames.length).key c.user (fun _ => 0) GPS_PKG_LEN body = r :=
    ⟨_, rfl⟩
  rw [hr] at hzero
  obtain ⟨code, user', pkg', plen'⟩ := r
  obtain rfl : code = 0 := hzero
  obtain ⟨-, rfl, rfl⟩ := pkgEncode_ok hr
  have hload : (Mem.store (fun _ => 0) 0 (frame (env c.frames.length).key c.user body)).load 0
      (frame (env c.frames.length).key c.user body).length =
        frame (env c.frames.length).key c.user body := Mem.holds_store _ _ _
  unfold sendPkg
  dsimp only
  rw [hr]
  dsimp only
  rw [if_neg (by decide), Int.toNat_natCast, hload]
  have hsent : (jttSend (env c.frames.length).tries
      (frame (env c.frames.length).key c.user body)).1 ≠ -1 := by
    unfold jttSend sendn
    rw [if_neg hcode]
    split
    · exact (by decide : (-2 : Int) ≠ -1)
    · exact (by decide : (0 : Int) ≠ -1)
  rw [if_neg hsent]
  exact ⟨_, rfl, rfl⟩

theorem heart_run (n : Nat) :
    ∃ c, runCalls (fun _ => ⟨7, [.sent n]⟩) [.heart true] (newConn delimiterUser) = some c ∧
      ∃ p, c.frames = [p] ∧ 26 ≤ p.length := by
  obtain ⟨c, hsend, hframes⟩ := sendPkg_ok (fun _ => ⟨7, [.sent n]⟩)
    { newConn delimiterUser with heartCnt := 1 } ⟨UP_LINKTEST_REQ, [], by decide⟩ (by decide) (by
      intro t ht
      rw [List.mem_singleton.mp ht]
      exact ⟨nofun, nofun⟩)
  refine ⟨c, ?_, _, hframes, ?_⟩
  · have hcheck : heartCheck true (newConn delimiterUser) =
        (0, { newConn delimiterUser with heartCnt := 1 }) := rfl
    rw [runCalls, Call.exec, jttHeart, hcheck]
    rw [if_neg (by decide), hsend]
    rfl
  · have hge := escaped_length_ge (tmpPkg 7 delimiterUser ⟨UP_LINKTEST_REQ, [], by decide⟩)
    rw [tmpPkg_length] at hge
    rw [frame_length]
    exact Nat.add_le_add_right hge 2

end Supex.Jtt
