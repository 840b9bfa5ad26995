import Supex.Imx.Clients
import Supex.Imx.Gateways

/-!
# IMX exchange — messages for users

`UID_CID` gives the descriptor of a user and `CID_UID` the user of a descriptor.
A `uidmap` command sets both, and a client that ends has the entry of the user
in `CID_UID` deleted from `UID_CID`, whoever that entry is for. So a user that
has moved to another connection is lost when the first one ends, and an entry of
a connection that was bound to a second user stays for whoever gets the
descriptor next.

Main results: `routed_iff_usersLeft`, `moved_user_lost`.
-/

namespace Supex.Imx

open Lib (run Along Throughout)
open Function (update update_apply update_of_ne update_self)
open Tsdb (fmtInt atoi)

variable {st st' : Sys}

--
-- Users
--

/-- A user: a string without spaces that fits its array. -/
structure UidOk (uid : Bytes) : Prop where
  short : uid.length < MAX_UID_SIZE
  noSpace : space ∉ uid
  noZero : (0 : UInt8) ∉ uid

/-- The connection that was bound to the user last. -/
def lastBound (uid : Bytes) (log : List Happened) : Option Nat :=
  log.foldl (fun r x =>
    match x with
    | .bound k uid' => if uid' = uid then some k else r
    | _ => r) none

/-- A message for a user reaches the connection that was bound to the user last,
once, if it is open, and nobody otherwise. -/
def Routed (st : Sys) : Prop :=
  ∀ uid, UidOk uid → ∀ payload, ∃ (said : List Send) (r : Option Nat),
    dispatchStream st.exc (uidMessage uid payload) = .ok said ∧
      reached st.conns said = r.toList.map (fun k => (k, payload)) ∧
      ∀ k, r = some k ↔ lastBound uid st.log = some k ∧ st.Open k

/-- The descriptor of the new connection is no user's, and the user of a client
that ends is not at another connection. -/
def UsersLeft (st : Sys) (act : Act) : Prop :=
  (∀ kind fd uuid, act = .connect kind fd uuid → st.conns fd = none →
    ∀ uid, UidOk uid → st.exc.uidCid uid ≠ some (fmtInt fd)) ∧
  ∀ fd c, act.Ends fd c → st.conns fd = some c → c.kind = .client →
    ∀ fd' : Nat, st.exc.uidCid (erasedUid st.exc fd) = some (fmtInt fd') →
      fd' = fd ∨ st.conns fd' = none

/-- Binds, connects, ends, and messages that are no commands; users are users. -/
def OfUsers (st : Sys) (act : Act) : Prop :=
  act.Plain st ∧ ∀ via fd uid, act = .uidmap via fd uid → UidOk uid

theorem lastBound_concat (uid : Bytes) (log : List Happened) (x : Happened) :
    lastBound uid (log ++ [x]) =
      match x with
      | .bound k uid' => if uid' = uid then some k else lastBound uid log
      | _ => lastBound uid log := by
  unfold lastBound
  rw [List.foldl_append]
  rfl

theorem lastBound_joined (uid : Bytes) (log : List Happened) (k : Nat) (gids : List Bytes) :
    lastBound uid (log ++ gids.map (.joined k)) = lastBound uid log := by
  unfold lastBound
  rw [List.foldl_append]
  induction gids with
  | nil => rfl
  | cons gid gids ih => exact ih

--
-- The maps
--

/-- What the maps hold: descriptors of the table, and users. -/
structure UsersOk (st : Sys) : Prop where
  steady : Steady st
  host : HostOk st.exc.host st.exc.port
  fds : ∀ uid cid, st.exc.uidCid uid = some cid → ∃ fd : Nat, fd < FD_CAPACITY ∧ cid = fmtInt fd
  users : ∀ cid uid, st.exc.cidUid cid = some uid → UidOk uid
  bound_lt : ∀ uid k, lastBound uid st.log = some k → k < st.next

/-- The connection that a message for the user reaches. -/
def target (st : Sys) (uid : Bytes) : Option Nat :=
  (st.exc.uidCid uid).bind fun cid => (connAt st.conns (atoi cid)).map Conn.number

theorem connAt_natCast (conns : Nat → Option Conn) (fd : Nat) : connAt conns fd = conns fd := by
  unfold connAt
  rw [if_neg (by omega), Int.toNat_natCast]

variable {fd : Nat} {uid : Bytes}

theorem atoi_fmtInt (h : fd < FD_CAPACITY) : atoi (fmtInt fd) = fd := by
  rw [fmtInt_natCast]
  exact atoi_fmtU64 (fd_lt_int h)

theorem fmtInt_inj {fd' : Nat} (h : fd < FD_CAPACITY) (h' : fd' < FD_CAPACITY)
    (heq : fmtInt fd = fmtInt fd') : fd = fd' := by
  rw [fmtInt_natCast, fmtInt_natCast] at heq
  exact fmtU64_inj (fd_lt_u64 h) (fd_lt_u64 h') heq

theorem space_notMem_fmtInt (fd : Nat) : space ∉ fmtInt fd := by
  rw [fmtInt_natCast]
  exact notMem_fmtU64 (by decide) fd

theorem fmtInt_ne_nil (fd : Nat) : fmtInt fd ≠ [] := by
  rw [fmtInt_natCast]
  exact fmtU64_ne_nil fd

theorem copied_fmtInt (fd : Nat) : copied MAX_CID_SIZE (fmtInt fd) = fmtInt fd := by
  have hlen : (fmtU64 fd).length ≤ 20 := decDigits_length_le 20 fd
  have hmax : MAX_CID_SIZE = 128 := rfl
  unfold copied
  rw [fmtInt_natCast, cstr_of_noZero (notMem_fmtU64 (by decide) fd)]
  exact List.take_of_length_le (by omega)

theorem copied_uid (h : UidOk uid) : copied MAX_UID_SIZE uid = uid := by
  have hshort := h.short
  unfold copied
  rw [cstr_of_noZero h.noZero]
  exact List.take_of_length_le (by omega)

theorem target_of_some (hfd : fd < FD_CAPACITY) (h : st.exc.uidCid uid = some (fmtInt fd)) :
    target st uid = (st.conns fd).map Conn.number := by
  unfold target
  rw [h, Option.bind_some, atoi_fmtInt hfd, connAt_natCast]

theorem target_of_none (h : st.exc.uidCid uid = none) : target st uid = none := by
  unfold target
  rw [h, Option.bind_none]

theorem UsersOk.delivers (h : UsersOk st) (huid : UidOk uid) (payload : List Bytes) :
    ∃ said, dispatchStream st.exc (uidMessage uid payload) = .ok said ∧
      reached st.conns said = (target st uid).toList.map (fun k => (k, payload)) := by
  refine ⟨_, dispatchStream_uid huid.short huid.noZero payload, ?_⟩
  unfold kvGet
  rw [if_neg huid.noSpace]
  cases hcid : st.exc.uidCid uid with
  | none =>
    rw [target_of_none hcid]
    rfl
  | some cid =>
    obtain ⟨fd, hfd, rfl⟩ := h.fds uid cid hcid
    dsimp only
    rw [target_of_some hfd hcid, copied_fmtInt, atoi_fmtInt hfd, if_pos (by omega)]
    unfold reached
    rw [List.filterMap_cons, connAt_natCast, List.filterMap_nil]
    cases st.conns fd <;> rfl

theorem UsersOk.routed_target (h : UsersOk st) :
    Routed st ↔ ∀ uid, UidOk uid → ∀ k,
      target st uid = some k ↔ lastBound uid st.log = some k ∧ st.Open k := by
  constructor
  · intro hrouted uid huid k
    obtain ⟨said, r, hsaid, hreached, hr⟩ := hrouted uid huid []
    obtain ⟨said', hsaid', hreached'⟩ := h.delivers huid []
    rw [hsaid', Except.ok.injEq] at hsaid
    rw [← hsaid, hreached'] at hreached
    have heq : target st uid = r := by
      cases htarget : target st uid <;> cases r <;> simp_all
    rw [heq]
    exact hr k
  · intro hall uid huid payload
    obtain ⟨said, hsaid, hreached⟩ := h.delivers huid payload
    exact ⟨said, target st uid, hsaid, hreached, hall uid huid⟩

theorem UsersOk.target_eq_some (h : UsersOk st) {k : Nat} :
    target st uid = some k ↔
      ∃ (fd : Nat) (c : Conn), fd < FD_CAPACITY ∧ st.exc.uidCid uid = some (fmtInt fd) ∧
        st.conns fd = some c ∧ c.number = k := by
  constructor
  · intro htarget
    cases hcid : st.exc.uidCid uid with
    | none =>
      rw [target_of_none hcid] at htarget
      cases htarget
    | some cid =>
      obtain ⟨fd, hfd, rfl⟩ := h.fds uid cid hcid
      rw [target_of_some hfd hcid, Option.map_eq_some_iff] at htarget
      obtain ⟨c, hc, hk⟩ := htarget
      exact ⟨fd, c, hfd, rfl, hc, hk⟩
  · rintro ⟨fd, c, hfd, hcid, hc, hk⟩
    rw [target_of_some hfd hcid, hc, Option.map_some, hk]

--
-- Steps
--

theorem kvSet_self {m : Bytes → Option Bytes} {key value : Bytes} (hkey : space ∉ key)
    (hvalue : space ∉ value) (hne : value ≠ []) (key' : Bytes) :
    kvSet m key value key' = if key' = key then some value else m key' := by
  unfold kvSet
  rw [if_neg (by rintro (h | h | h) <;> contradiction)]
  exact update_apply ..

theorem UsersOk.erasedUid_ok (h : UsersOk st) (fd : Nat) : UidOk (erasedUid st.exc fd) := by
  unfold erasedUid kvGet
  rw [if_neg (space_notMem_fmtInt fd)]
  cases huid : st.exc.cidUid (fmtInt fd) with
  | none => exact ⟨by decide, nofun, nofun⟩
  | some uid =>
    dsimp only
    rw [copied_uid (h.users _ _ huid)]
    exact h.users _ _ huid

theorem UsersOk.closed_maps (h : UsersOk st) (fd : Nat) :
    (st.exc.closed .client fd).uidCid =
        update st.exc.uidCid (erasedUid st.exc fd) none ∧
      (st.exc.closed .client fd).cidUid = update st.exc.cidUid (fmtInt fd) none := by
  obtain ⟨-, -, -, -, -, huid, hcid⟩ :=
    eraseClient_frame { st.exc with slot := update st.exc.slot fd .zero } fd
  have herased : erasedUid { st.exc with slot := update st.exc.slot fd .zero } fd =
      erasedUid st.exc fd := rfl
  rw [Exchange.closed_client, huid, hcid, herased]
  unfold kvDel
  rw [if_neg (h.erasedUid_ok fd).noSpace, if_neg (space_notMem_fmtInt fd)]
  exact ⟨rfl, rfl⟩

theorem closed_gateway_maps (exc : Exchange) {kind : RouterType} (hkind : kind ≠ .client)
    (fd : Nat) :
    (exc.closed kind fd).uidCid = exc.uidCid ∧ (exc.closed kind fd).cidUid = exc.cidUid := by
  rw [Exchange.closed_gateway exc fd hkind]
  split <;> exact ⟨rfl, rfl⟩

theorem UsersOk.closed (h : UsersOk st) (fd : Nat) (c : Conn) : UsersOk (st.closed fd c) := by
  obtain ⟨hhost, hport, -⟩ := Exchange.closed_frame st.exc c.kind fd
  -- entries are only deleted
  have hmaps : (∀ uid cid, (st.exc.closed c.kind fd).uidCid uid = some cid →
      st.exc.uidCid uid = some cid) ∧ ∀ cid uid, (st.exc.closed c.kind fd).cidUid cid = some uid →
      st.exc.cidUid cid = some uid := by
    by_cases hkind : c.kind = .client
    · obtain ⟨huid, hcid⟩ := h.closed_maps fd
      rw [hkind, huid, hcid]
      constructor <;> intro x y hxy <;> rw [update_apply] at hxy <;> split at hxy
      · cases hxy
      · exact hxy
      · cases hxy
      · exact hxy
    · obtain ⟨huid, hcid⟩ := closed_gateway_maps st.exc hkind fd
      rw [huid, hcid]
      exact ⟨fun _ _ hxy => hxy, fun _ _ hxy => hxy⟩
  refine ⟨h.steady.closed fd c, ?_, ?_, ?_, ?_⟩
  · show HostOk (st.exc.closed c.kind fd).host (st.exc.closed c.kind fd).port
    rw [hhost, hport]
    exact h.host
  · exact fun uid cid hcid => h.fds uid cid (hmaps.1 uid cid hcid)
  · exact fun cid uid huid => h.users cid uid (hmaps.2 cid uid huid)
  · intro uid k hk
    change lastBound uid (st.log ++ [_]) = _ at hk
    rw [lastBound_concat] at hk
    exact h.bound_lt uid k hk

theorem UsersOk.moved (h : UsersOk st) {act : Act} (hact : OfUsers st act)
    (hmoved : Moved st act st') : UsersOk st' := by
  have hsteady := h.steady.moved hmoved
  have hhost : HostOk st'.exc.host st'.exc.port := by
    rw [hmoved.config.1, hmoved.config.2]
    exact h.host
  cases hmoved with
  | idle _ => exact h
  | opened hfree hlt =>
    refine ⟨hsteady, hhost, ?_, ?_, ?_⟩
    · intro uid cid hcid
      exact h.fds uid cid ((congrFun (Exchange.opened_uidCid ..) uid).symm.trans hcid)
    · intro cid uid huid
      exact h.users cid uid ((congrFun (Exchange.opened_cidUid ..) cid).symm.trans huid)
    · intro uid k hk
      change lastBound uid (st.log ++ [_]) = _ at hk
      rw [lastBound_concat] at hk
      exact Nat.lt_succ_of_lt (h.bound_lt uid k hk)
  | closed _ _ => exact h.closed _ _
  | @bound via fd k uid cid exc hc hcid hcmd hquiet =>
    have huid := hact.2 via fd uid rfl
    have hexc := bound_exc h.steady h.host hc hcid huid.short huid.noZero hcmd
    have hfd := h.steady.fd_lt fd _ hc
    refine ⟨hsteady, hhost, ?_, ?_, ?_⟩
    · intro uid' cid' hcid'
      rw [hexc] at hcid'
      change kvSet st.exc.uidCid uid (fmtInt fd) uid' = _ at hcid'
      rw [kvSet_self huid.noSpace (space_notMem_fmtInt fd) (fmtInt_ne_nil fd)] at hcid'
      split at hcid'
      · exact ⟨fd, hfd, (Option.some.inj hcid').symm⟩
      · exact h.fds uid' cid' hcid'
    · intro cid' uid' huid'
      rw [hexc] at huid'
      change kvSet st.exc.cidUid (fmtInt fd) uid cid' = _ at huid'
      unfold kvSet at huid'
      split at huid'
      · exact h.users cid' uid' huid'
      · rw [update_apply] at huid'
        split at huid'
        · exact Option.some.inj huid' ▸ huid
        · exact h.users cid' uid' huid'
    · intro uid' k' hk'
      rw [lastBound_concat] at hk'
      dsimp only at hk'
      split at hk'
      · exact Option.some.inj hk' ▸ h.steady.number_lt fd _ hc
      · exact h.bound_lt uid' k' hk'
  | @joined via fd k gids cid exc hc hcid hcmd hquiet =>
    obtain ⟨-, -, -, -, -, huidCid, hcidUid⟩ :=
      gidMapLoop_frame (joined_exc h.steady h.host hc hcid hcmd)
    refine ⟨hsteady, hhost, ?_, ?_, ?_⟩
    · intro uid cid' hcid'
      exact h.fds uid cid' ((congrFun huidCid uid).symm.trans hcid')
    · intro cid' uid huid
      exact h.users cid' uid ((congrFun hcidUid cid').symm.trans huid)
    · intro uid k' hk'
      rw [lastBound_joined] at hk'
      exact h.bound_lt uid k' hk'
  | commanded hvia _ => exact absurd rfl (hact.1 _ _ rfl _ hvia)
  | relayed said => exact ⟨hsteady, h.host, h.fds, h.users, h.bound_lt⟩

/-- Who is reached does not change with what leaves `UID_CID`, the connections
and the binds. -/
theorem routed_congr (h : UsersOk st) (h' : UsersOk st') (huidCid : st'.exc.uidCid = st.exc.uidCid)
    (hconns : st'.conns = st.conns)
    (hlog : ∀ uid, lastBound uid st'.log = lastBound uid st.log) (hrouted : Routed st) :
    Routed st' := by
  rw [h.routed_target] at hrouted
  rw [h'.routed_target]
  intro uid huid k
  have hopen : st'.Open k ↔ st.Open k := by
    unfold Sys.Open
    rw [hconns]
  have htarget : target st' uid = target st uid := by
    unfold target
    rw [huidCid, hconns]
  rw [htarget, hlog, hopen]
  exact hrouted uid huid k

/-- **Accepting** a connection keeps the routes if and only if no user has its
descriptor. -/
theorem routed_opened_iff (h : UsersOk st) (hrouted : Routed st) {kind : RouterType} {uuid : Uuid}
    (h' : UsersOk (st.opened kind fd uuid)) (hfree : st.conns fd = none) (hlt : fd < FD_CAPACITY) :
    Routed (st.opened kind fd uuid) ↔
      ∀ uid, UidOk uid → st.exc.uidCid uid ≠ some (fmtInt fd) := by
  have huidCid : (st.opened kind fd uuid).exc.uidCid = st.exc.uidCid := Exchange.opened_uidCid ..
  have hlog : ∀ uid, lastBound uid (st.opened kind fd uuid).log = lastBound uid st.log :=
    fun uid => lastBound_concat ..
  rw [h.routed_target] at hrouted
  rw [h'.routed_target]
  constructor
  · intro hall uid huid hcid
    -- the user's messages would reach the new connection
    have htarget : target (st.opened kind fd uuid) uid = some st.next := by
      refine h'.target_eq_some.mpr ⟨fd, ⟨st.next, kind⟩, hlt, ?_, ?_, rfl⟩
      · rw [huidCid]
        exact hcid
      · exact opened_conns.mpr (.inl ⟨rfl, rfl⟩)
    have hlast := ((hall uid huid st.next).mp htarget).1
    rw [hlog] at hlast
    exact absurd (h.bound_lt uid st.next hlast) (Nat.lt_irrefl _)
  · intro hno uid huid k
    have htarget : target (st.opened kind fd uuid) uid = some k ↔ target st uid = some k := by
      rw [h'.target_eq_some, h.target_eq_some, huidCid]
      refine exists_congr fun fd' => exists_congr fun c => and_congr_right fun _ =>
        and_congr_right fun hcid => and_congr_left fun _ => ?_
      have hne : fd' ≠ fd := by
        rintro rfl
        exact hno uid huid hcid
      rw [opened_conns]
      simp [hne]
    rw [htarget, hlog, open_opened hfree, hrouted uid huid k]
    refine and_congr_right fun hlast => ⟨.inl, fun hopen => hopen.resolve_right ?_⟩
    exact (h.bound_lt uid k hlast).ne

theorem routed_closed_of_entry (h : UsersOk st) {c : Conn} (h' : UsersOk (st.closed fd c))
    (hc : st.conns fd = some c)
    (hrouted : ∀ k, target st uid = some k ↔ lastBound uid st.log = some k ∧ st.Open k)
    (hentry : (st.closed fd c).exc.uidCid uid = st.exc.uidCid uid) (k : Nat) :
    target (st.closed fd c) uid = some k ↔
      lastBound uid st.log = some k ∧ (st.closed fd c).Open k := by
  rw [open_closed h.steady hc, ← and_assoc, ← hrouted k, h'.target_eq_some, h.target_eq_some,
    hentry]
  constructor
  · rintro ⟨fd', c', hfd', hcid, hc', rfl⟩
    obtain ⟨hne, hc'⟩ := closed_conns.mp hc'
    exact ⟨⟨fd', c', hfd', hcid, hc', rfl⟩, fun heq => hne (h.steady.number_inj _ _ _ _ hc' hc heq)⟩
  · rintro ⟨⟨fd', c', hfd', hcid, hc', rfl⟩, hne⟩
    have hfd : fd' ≠ fd := by
      rintro rfl
      rw [hc, Option.some.injEq] at hc'
      exact hne (by rw [hc'])
    exact ⟨fd', c', hfd', hcid, closed_conns.mpr ⟨hfd, hc'⟩, rfl⟩

/-- **The end** of a connection keeps the routes if and only if the user that a
client has is not at another open connection. -/
theorem routed_closed_iff (h : UsersOk st) (hrouted : Routed st) {c : Conn}
    (hc : st.conns fd = some c) :
    Routed (st.closed fd c) ↔ (c.kind = .client →
      ∀ fd' : Nat, st.exc.uidCid (erasedUid st.exc fd) = some (fmtInt fd') →
        fd' = fd ∨ st.conns fd' = none) := by
  have h' := h.closed fd c
  have hlog : ∀ uid, lastBound uid (st.closed fd c).log = lastBound uid st.log :=
    fun uid => lastBound_concat ..
  have huidCid : (st.closed fd c).exc.uidCid = (st.exc.closed c.kind fd).uidCid := rfl
  rw [h.routed_target] at hrouted
  rw [h'.routed_target]
  by_cases hkind : c.kind = .client
  swap
  · rw [(closed_gateway_maps st.exc hkind fd).1] at huidCid
    refine iff_of_true (fun uid huid k => ?_) fun hclient => absurd hclient hkind
    rw [hlog]
    exact routed_closed_of_entry h h' hc (hrouted uid huid) (congrFun huidCid uid) k
  rw [hkind, (h.closed_maps fd).1] at huidCid
  have hok := h.erasedUid_ok fd
  have hnone : ∀ k, target (st.closed fd c) (erasedUid st.exc fd) ≠ some k := by
    intro k htarget
    obtain ⟨fd', c', -, hcid, -⟩ := h'.target_eq_some.mp htarget
    rw [huidCid, update_self] at hcid
    cases hcid
  constructor
  · intro hall _ fd' hcid
    by_contra hother
    rw [not_or] at hother
    obtain ⟨c', hc'⟩ := Option.ne_none_iff_exists'.mp hother.2
    -- the user is at another connection, which is not reached any more
    obtain ⟨hlast, hopen⟩ := (hrouted _ hok c'.number).mp
      (h.target_eq_some.mpr ⟨fd', c', h.steady.fd_lt fd' c' hc', hcid, hc', rfl⟩)
    refine hnone c'.number ((hall _ hok c'.number).mpr ⟨?_, ?_⟩)
    · rw [hlog]
      exact hlast
    · refine (open_closed h.steady hc _).mpr ⟨hopen, fun heq => ?_⟩
      exact hother.1 (h.steady.number_inj _ _ _ _ hc' hc heq)
  · intro hcond uid huid k
    rw [hlog]
    by_cases hne : uid = erasedUid st.exc fd
    swap
    · refine routed_closed_of_entry h h' hc (hrouted uid huid) ?_ k
      rw [huidCid, update_of_ne hne]
    · subst hne
      refine iff_of_false (hnone k) fun ⟨hlast, hopen⟩ => ?_
      obtain ⟨hopen, hother⟩ := (open_closed h.steady hc k).mp hopen
      obtain ⟨fd', c', -, hcid, hc', rfl⟩ :=
        h.target_eq_some.mp ((hrouted _ hok k).mpr ⟨hlast, hopen⟩)
      rcases hcond hkind fd' hcid with rfl | hfree
      · rw [hc, Option.some.injEq] at hc'
        exact hother (by rw [hc'])
      · rw [hfree] at hc'
        cases hc'

theorem routed_bound (h : UsersOk st) (hrouted : Routed st) {k : Nat} (huid : UidOk uid)
    (hc : st.conns fd = some ⟨k, .client⟩)
    (h' : UsersOk { st with exc := setUid st.exc fd uid, log := st.log ++ [.bound k uid] }) :
    Routed { st with exc := setUid st.exc fd uid, log := st.log ++ [.bound k uid] } := by
  rw [h.routed_target] at hrouted
  rw [h'.routed_target]
  intro uid' huid' k'
  have hentry : (setUid st.exc fd uid).uidCid uid' =
      if uid' = uid then some (fmtInt fd) else st.exc.uidCid uid' :=
    kvSet_self huid.noSpace (space_notMem_fmtInt fd) (fmtInt_ne_nil fd) uid'
  have hopen : Sys.Open { st with
      exc := setUid st.exc fd uid, log := st.log ++ [.bound k uid] } k' ↔ st.Open k' := Iff.rfl
  rw [hopen, lastBound_concat]
  dsimp only
  by_cases heq : uid' = uid
  · rw [if_pos heq] at hentry
    rw [if_pos heq.symm, target_of_some (h.steady.fd_lt fd _ hc) hentry, hc]
    show some k = some k' ↔ _
    rw [Option.some.injEq]
    refine ⟨fun hk => ⟨hk, ?_⟩, fun hand => hand.1⟩
    exact hk ▸ ⟨fd, .client, hc⟩
  · rw [if_neg heq] at hentry
    have htarget : target { st with
        exc := setUid st.exc fd uid, log := st.log ++ [.bound k uid] } uid' = target st uid' := by
      unfold target
      rw [← hentry]
    rw [if_neg (Ne.symm heq), htarget]
    exact hrouted uid' huid' k'

theorem routed_step_iff (h : UsersOk st) (hrouted : Routed st) {act : Act} (hact : OfUsers st act)
    (hmoved : Moved st act st') : Routed st' ↔ UsersLeft st act := by
  have h' := h.moved hact hmoved
  cases hmoved with
  | idle hidle => exact iff_of_true hrouted (Act.keeps_of_not_live hidle)
  | opened hfree hlt =>
    rw [routed_opened_iff h hrouted h' hfree hlt]
    symm
    exact Act.keeps_connect hfree
  | closed hends hc =>
    rw [routed_closed_iff h hrouted hc]
    symm
    exact Act.keeps_ends hends hc
  | @bound via fd k uid cid exc hc hcid hcmd _ =>
    have huid := hact.2 via fd uid rfl
    obtain rfl := bound_exc h.steady h.host hc hcid huid.short huid.noZero hcmd
    refine iff_of_true (routed_bound h hrouted huid hc h') (Act.keeps_of_other nofun ?_)
    rintro fd' c' (hends | ⟨hends, -⟩) <;> cases hends
  | @joined via fd k gids cid exc hc hcid hcmd _ =>
    obtain ⟨-, -, -, -, -, huidCid, -⟩ :=
      gidMapLoop_frame (joined_exc h.steady h.host hc hcid hcmd)
    refine iff_of_true (routed_congr h h' huidCid rfl (fun uid => lastBound_joined ..) hrouted)
      (Act.keeps_of_other nofun ?_)
    rintro fd' c' (hends | ⟨hends, -⟩) <;> cases hends
  | commanded hvia _ => exact absurd rfl (hact.1 _ _ rfl _ hvia)
  | relayed said =>
    refine iff_of_true (routed_congr h h' rfl rfl (fun _ => rfl) hrouted)
      (Act.keeps_of_other nofun ?_)
    rintro fd' c' (hends | ⟨hends, -⟩) <;> cases hends

--
-- Runs
--

theorem UsersOk.start {host : Bytes} {port : Nat} (hhost : HostOk host port) :
    UsersOk (Sys.start host port) :=
  ⟨Steady.start host port, hhost, nofun, nofun, nofun⟩

theorem Routed.start {host : Bytes} {port : Nat} (hhost : HostOk host port) :
    Routed (Sys.start host port) := by
  rw [(UsersOk.start hhost).routed_target]
  exact fun uid huid k => iff_of_false nofun fun hlast => nomatch hlast.1

/-- **The messages for users** reach whom they are for throughout a run if and
only if no client ends whose user is at another connection, and no connection
gets a descriptor that is still a user's. -/
theorem routed_iff_usersLeft {host : Bytes} {port : Nat} (hhost : HostOk host port) {l : List Act}
    (hl : Along step OfUsers (Sys.start host port) l)
    (hrun : run step (Sys.start host port) l = .ok st') :
    Throughout step Routed (Sys.start host port) l ↔
      Along step UsersLeft (Sys.start host port) l :=
  Lib.throughout_iff_along (I := UsersOk)
    (fun _ _ _ hs hact hstep => hs.moved hact (step_cases hs.steady hstep))
    (fun _ _ _ hs hr hact hstep => routed_step_iff hs hr hact (step_cases hs.steady hstep))
    (UsersOk.start hhost) (Routed.start hhost) hl hrun

def sampleUid : Bytes := ascii "u"

theorem sampleUid_ok : UidOk sampleUid := ⟨by decide, by decide, by decide⟩

/-- A user on a connection, which ends; the next client gets its descriptor. -/
def userLeaves : List Act :=
  [.connect .manage 4 sampleUuid, .connect .client 5 sampleUuid, .uidmap 4 5 sampleUid,
    .disconnect 5, .connect .client 5 sampleUuid, .uidmap 4 5 sampleUid]

theorem ofUsers_of_command {act : Act} (hreceive : ∀ via frames, act ≠ .receive via frames)
    (huid : ∀ via fd uid, act = .uidmap via fd uid → UidOk uid) (st : Sys) : OfUsers st act :=
  ⟨fun via frames h => absurd h (hreceive via frames), huid⟩

theorem routed_userLeaves :
    ∃ st, run step (Sys.start sampleHost 80) userLeaves = .ok st ∧
      (Throughout step Routed (Sys.start sampleHost 80) userLeaves ↔
        Along step UsersLeft (Sys.start sampleHost 80) userLeaves) := by
  have hok : (run step (Sys.start sampleHost 80) userLeaves).isOk = true := by decide +kernel
  have hl : Along step OfUsers (Sys.start sampleHost 80) userLeaves := by
    refine Along.of_forall fun act hact st => ofUsers_of_command ?_ ?_ st
    · rintro via frames rfl
      simp [userLeaves] at hact
    · rintro via fd uid rfl
      have huid : uid = sampleUid := by
        simp only [userLeaves, List.mem_cons, Act.uidmap.injEq, reduceCtorEq, List.not_mem_nil,
          false_or, or_false] at hact
        rcases hact with ⟨-, -, h⟩ | ⟨-, -, h⟩ <;> exact h
      exact huid ▸ sampleUid_ok
  cases hrun : run step (Sys.start sampleHost 80) userLeaves with
  | error e =>
    rw [hrun] at hok
    cases hok
  | ok st => exact ⟨st, rfl, routed_iff_usersLeft sampleHost_ok hl hrun⟩

/-- A user on one connection and then on another; the first one ends. -/
def userMoves : List Act :=
  [.connect .manage 4 sampleUuid, .connect .client 5 sampleUuid, .connect .client 6 sampleUuid,
    .uidmap 4 5 sampleUid, .uidmap 4 6 sampleUid, .disconnect 5]

/-- The messages of the user reach nobody, although the connection that was
bound last is open. -/
theorem moved_user_lost :
    ∃ st, run step (Sys.start sampleHost 80) userMoves = .ok st ∧
      lastBound sampleUid st.log = some 2 ∧ st.Open 2 ∧
      dispatchStream st.exc (uidMessage sampleUid []) = .ok [] ∧ ¬ Routed st := by
  have hstate : (run step (Sys.start sampleHost 80) userMoves).toOption.map
      (fun st => (lastBound sampleUid st.log, st.conns 6,
        (dispatchStream st.exc (uidMessage sampleUid [])).toOption.map List.length)) =
      some (some 2, some ⟨2, .client⟩, some 0) := by decide +kernel
  cases hrun : run step (Sys.start sampleHost 80) userMoves with
  | error e =>
    rw [hrun] at hstate
    cases hstate
  | ok st =>
    rw [hrun] at hstate
    have heq : (lastBound sampleUid st.log, st.conns 6,
        (dispatchStream st.exc (uidMessage sampleUid [])).toOption.map List.length) =
        (some 2, some ⟨2, .client⟩, some 0) := Option.some.inj hstate
    rw [Prod.mk.injEq, Prod.mk.injEq] at heq
    obtain ⟨hlast, hconn, hsaid⟩ := heq
    have hopen : st.Open 2 := ⟨6, .client, hconn⟩
    have hok : dispatchStream st.exc (uidMessage sampleUid []) = .ok [] := by
      cases hd : dispatchStream st.exc (uidMessage sampleUid []) with
      | error e =>
        rw [hd] at hsaid
        cases hsaid
      | ok said =>
        rw [hd] at hsaid
        rw [List.eq_nil_of_length_eq_zero (Option.some.inj hsaid)]
    refine ⟨st, rfl, hlast, hopen, hok, fun hrouted => ?_⟩
    obtain ⟨said, r, hsaid', hreached, hr⟩ := hrouted sampleUid sampleUid_ok []
    rw [hok, Except.ok.injEq] at hsaid'
    rw [(hr 2).mpr ⟨hlast, hopen⟩, ← hsaid'] at hreached
    cases hreached

end Supex.Imx
