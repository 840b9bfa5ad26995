import Supex.Lib.Run
import Supex.Imx.System

/-!
# IMX exchange — what a step can do

* `step_cases` — everything a step can do; `Steady.step` follows.

Main result: `dispatchManage_cases`.
-/

namespace Supex.Imx

open Lib (bind_eq_ok bind_eq_error)
open Function (update update_of_ne update_self)
open Tsdb (fmtInt)

--
-- Callbacks
--

/-- The globals when a connection has been accepted. -/
def Exchange.opened (exc : Exchange) (kind : RouterType) (fd : Nat) (uuid : Bytes) : Exchange :=
  let exc := { exc with slot := Function.update exc.slot fd ⟨1, kind, uuid⟩ }
  match kind with
  | .client => exc
  | kind => { exc with
      list := Function.update exc.list kind (exc.list kind ++ [(fd : Int)])
      gatewayFd := Function.update exc.gatewayFd kind fd }

/-- The globals when a connection has ended. -/
def Exchange.closed (exc : Exchange) (kind : RouterType) (fd : Nat) : Exchange :=
  let exc := { exc with slot := Function.update exc.slot fd .zero }
  match kind with
  | .client => eraseClient exc fd
  | kind =>
    if exc.gatewayFd kind = fd then { exc with
        gatewayFd := Function.update exc.gatewayFd kind 0
        list := Function.update exc.list kind ((exc.list kind).erase (fd : Int)) }
    else exc

/-- The status message of a client; gateways send none. -/
def Exchange.status (exc : Exchange) (kind : RouterType) (fd : Nat) (status uuid : Bytes) :
    List Send :=
  if kind = .client ∧ 0 < exc.gatewayFd .status then
    [(exc.gatewayFd .status, [ascii "status", status,
      (cidText uuid exc.host exc.port fd).take (MAX_CID_SIZE - 1)])]
  else []

variable {exc : Exchange} {st st' : Sys}

theorem fdmanSlotGet_of_lt {fd : Nat} (h : fd < FD_CAPACITY) :
    fdmanSlotGet exc fd = .ok (exc.slot fd) := by
  unfold fdmanSlotGet
  rw [if_pos ⟨Int.natCast_nonneg fd, by exact_mod_cast h⟩, Int.toNat_natCast]

variable {c : Conn} {r : Exchange × List Send} {e : Abort} {frames : List Bytes} {via : Nat}
  {exc' : Exchange}

theorem fdmanSlotSet_ok {fd : Nat} {des : FdInfo} (h : fdmanSlotSet exc fd des = .ok exc') :
    fd < FD_CAPACITY ∧ exc' = { exc with slot := update exc.slot fd des } := by
  unfold fdmanSlotSet at h
  split at h
  · cases h
  · split at h
    · next hlt =>
      cases h
      exact ⟨by exact_mod_cast hlt.2, by rw [Int.toNat_natCast]⟩
    · cases h

theorem fdmanSlotDel_ok {fd : Nat} (h : fdmanSlotDel exc fd = .ok exc') :
    fd < FD_CAPACITY ∧ (exc.slot fd).status = 1 ∧
      exc' = { exc with slot := update exc.slot fd .zero } := by
  unfold fdmanSlotDel fdmanSlotGet at h
  by_cases hlt : fd < FD_CAPACITY
  · rw [if_pos ⟨Int.natCast_nonneg fd, by exact_mod_cast hlt⟩, Int.toNat_natCast] at h
    by_cases hstatus : (exc.slot fd).status = 1
    · change (if (exc.slot fd).status ≠ 1 then _ else _) = _ at h
      rw [if_neg (not_not.mpr hstatus)] at h
      cases h
      exact ⟨hlt, hstatus, rfl⟩
    · change (if (exc.slot fd).status ≠ 1 then _ else _) = _ at h
      rw [if_pos hstatus] at h
      cases h
  · rw [if_neg (fun hrange => hlt (by exact_mod_cast hrange.2))] at h
    cases h

theorem foldl_eachGidFcb (cid : Bytes) (gids : List Bytes) (exc : Exchange) :
    (gids.foldl (eachGidFcb cid) exc).host = exc.host ∧
      (gids.foldl (eachGidFcb cid) exc).port = exc.port ∧
      (gids.foldl (eachGidFcb cid) exc).slot = exc.slot ∧
      (gids.foldl (eachGidFcb cid) exc).list = exc.list ∧
      (gids.foldl (eachGidFcb cid) exc).gatewayFd = exc.gatewayFd ∧
      (gids.foldl (eachGidFcb cid) exc).uidCid = exc.uidCid ∧
      (gids.foldl (eachGidFcb cid) exc).cidUid = exc.cidUid := by
  induction gids generalizing exc with
  | nil => exact ⟨rfl, rfl, rfl, rfl, rfl, rfl, rfl⟩
  | cons gid gids ih => exact ih (eachGidFcb cid exc gid)

theorem eraseClient_frame (exc : Exchange) (fd : Int) :
    (eraseClient exc fd).host = exc.host ∧ (eraseClient exc fd).port = exc.port ∧
      (eraseClient exc fd).slot = exc.slot ∧ (eraseClient exc fd).list = exc.list ∧
      (eraseClient exc fd).gatewayFd = exc.gatewayFd ∧
      (eraseClient exc fd).uidCid = kvDel exc.uidCid (erasedUid exc fd) ∧
      (eraseClient exc fd).cidUid = kvDel exc.cidUid (fmtInt fd) := by
  exact foldl_eachGidFcb ..

theorem sendStatusMsg_of_lt (exc : Exchange) {fd : Nat} (hfd : fd < FD_CAPACITY) (status : Bytes) :
    sendStatusMsg exc fd status = .ok (exc.status .client fd status (exc.slot fd).uuid) := by
  unfold sendStatusMsg Exchange.status
  rw [getCid_of_lt hfd]
  show Except.ok (if 0 < exc.gatewayFd .status then _ else _) = _
  by_cases hgw : 0 < exc.gatewayFd .status
  · rw [if_pos hgw, if_pos ⟨rfl, hgw⟩]
  · rw [if_neg hgw, if_neg fun hand => hgw hand.2]

theorem Exchange.status_congr (hhost : exc'.host = exc.host) (hport : exc'.port = exc.port)
    (hgateway : exc'.gatewayFd = exc.gatewayFd) (kind : RouterType) (fd : Nat)
    (status uuid : Bytes) :
    exc'.status kind fd status uuid =
      exc.status kind fd status uuid := by
  unfold Exchange.status
  rw [hhost, hport, hgateway]

theorem Exchange.status_gateway {kind : RouterType} (h : kind ≠ .client) (fd : Nat)
    (status uuid : Bytes) : exc.status kind fd status uuid = [] := if_neg fun hand => h hand.1

theorem clientInit_ok {fd : Nat} {uuid : Bytes} (h : clientInit exc fd uuid = .ok r) :
    fd < FD_CAPACITY ∧ r = (exc.opened .client fd uuid,
      exc.status .client fd (ascii "connected") uuid) := by
  obtain ⟨exc', hset, h⟩ := bind_eq_ok.mp h
  obtain ⟨said, hsaid, h⟩ := bind_eq_ok.mp h
  obtain ⟨hlt, hexc'⟩ := fdmanSlotSet_ok hset
  have hslot : (exc'.slot fd).uuid = uuid := by
    rw [hexc']
    show (update exc.slot fd _ fd).uuid = _
    rw [update_self]
  rw [sendStatusMsg_of_lt _ hlt, hslot, Except.ok.injEq] at hsaid
  have hsame : exc'.status .client fd (ascii "connected") uuid =
      exc.status .client fd (ascii "connected") uuid := by
    rw [hexc']
    exact Exchange.status_congr rfl rfl rfl ..
  refine ⟨hlt, (Except.ok.inj h).symm.trans ?_⟩
  rw [← hsaid, hsame, hexc']
  rfl

theorem gatewayInit_ok {kind : RouterType} (hkind : kind ≠ .client) {fd : Nat} {uuid : Bytes}
    (h : gatewayInit kind exc fd uuid = .ok r) :
    fd < FD_CAPACITY ∧ r = (exc.opened kind fd uuid, []) := by
  obtain ⟨exc', hset, h⟩ := bind_eq_ok.mp h
  obtain ⟨hlt, rfl⟩ := fdmanSlotSet_ok hset
  refine ⟨hlt, (Except.ok.inj h).symm.trans ?_⟩
  cases kind with
  | client => exact absurd rfl hkind
  | status => rfl
  | stream => rfl
  | manage => rfl

theorem excEventNotifyInit_ok {kind : RouterType} {fd : Nat} {uuid : Bytes}
    (h : excEventNotifyInit kind exc fd uuid = .ok r) :
    fd < FD_CAPACITY ∧ r = (exc.opened kind fd uuid,
      exc.status kind fd (ascii "connected") uuid) := by
  by_cases hkind : kind = .client
  · subst hkind
    exact clientInit_ok h
  · rw [Exchange.status_gateway hkind]
    refine gatewayInit_ok hkind ?_
    cases kind with
    | client => exact absurd rfl hkind
    | status => exact h
    | stream => exact h
    | manage => exact h

theorem Exchange.closed_client (exc : Exchange) (fd : Nat) :
    exc.closed .client fd = eraseClient { exc with slot := update exc.slot fd .zero } fd :=
  rfl

theorem Exchange.closed_gateway (exc : Exchange) (fd : Nat) {kind : RouterType}
    (hkind : kind ≠ .client) :
    exc.closed kind fd = if exc.gatewayFd kind = fd then { exc with
        slot := update exc.slot fd .zero
        gatewayFd := update exc.gatewayFd kind 0
        list := update exc.list kind ((exc.list kind).erase (fd : Int)) }
      else { exc with slot := update exc.slot fd .zero } := by
  cases kind with
  | client => exact absurd rfl hkind
  | status => rfl
  | stream => rfl
  | manage => rfl

theorem clientStop_ok {fd : Nat} (h : clientStop exc fd = .ok r) :
    fd < FD_CAPACITY ∧ (exc.slot fd).status = 1 ∧
      r = (exc.closed .client fd, exc.status .client fd (ascii "closed") []) := by
  obtain ⟨exc', hdel, h⟩ := bind_eq_ok.mp h
  obtain ⟨said, hsaid, h⟩ := bind_eq_ok.mp h
  obtain ⟨hlt, hstatus, hexc'⟩ := fdmanSlotDel_ok hdel
  obtain ⟨hh, hp, hs, -, hg, -, -⟩ := eraseClient_frame exc' fd
  have hslot : ((eraseClient exc' fd).slot fd).uuid = [] := by
    rw [hs, hexc']
    show (update exc.slot fd .zero fd).uuid = _
    rw [update_self]
    rfl
  rw [sendStatusMsg_of_lt _ hlt, hslot, Except.ok.injEq] at hsaid
  have hsame : (eraseClient exc' fd).status .client fd (ascii "closed") [] =
      exc.status .client fd (ascii "closed") [] := by
    refine (Exchange.status_congr hh hp hg ..).trans ?_
    rw [hexc']
    exact Exchange.status_congr rfl rfl rfl ..
  refine ⟨hlt, hstatus, (Except.ok.inj h).symm.trans ?_⟩
  rw [← hsaid, hsame, hexc']
  rfl

theorem gatewayStop_ok {kind : RouterType} (hkind : kind ≠ .client) {fd : Nat}
    (h : gatewayStop kind exc fd = .ok r) :
    fd < FD_CAPACITY ∧ (exc.slot fd).status = 1 ∧ r = (exc.closed kind fd, []) := by
  obtain ⟨exc', hdel, h⟩ := bind_eq_ok.mp h
  obtain ⟨hlt, hstatus, rfl⟩ := fdmanSlotDel_ok hdel
  refine ⟨hlt, hstatus, ?_⟩
  rw [Exchange.closed_gateway exc fd hkind]
  by_cases hcur : exc.gatewayFd kind = fd
  · rw [if_pos hcur] at h ⊢
    exact (Except.ok.inj h).symm
  · rw [if_neg hcur] at h ⊢
    exact (Except.ok.inj h).symm

theorem excEventNotifyStop_ok {kind : RouterType} {fd : Nat}
    (h : excEventNotifyStop kind exc fd = .ok r) :
    fd < FD_CAPACITY ∧ (exc.slot fd).status = 1 ∧
      r = (exc.closed kind fd, exc.status kind fd (ascii "closed") []) := by
  by_cases hkind : kind = .client
  · subst hkind
    exact clientStop_ok h
  · rw [Exchange.status_gateway hkind]
    refine gatewayStop_ok hkind ?_
    cases kind with
    | client => exact absurd rfl hkind
    | status => exact h
    | stream => exact h
    | manage => exact h

section Fields

variable (exc : Exchange) (kind : RouterType) (fd : Nat) (uuid : Bytes)

@[simp] theorem Exchange.opened_host : (exc.opened kind fd uuid).host = exc.host := by
  cases kind <;> rfl

@[simp] theorem Exchange.opened_port : (exc.opened kind fd uuid).port = exc.port := by
  cases kind <;> rfl

@[simp] theorem Exchange.opened_slot :
    (exc.opened kind fd uuid).slot = update exc.slot fd ⟨1, kind, uuid⟩ := by
  cases kind <;> rfl

@[simp] theorem Exchange.opened_uidCid : (exc.opened kind fd uuid).uidCid = exc.uidCid := by
  cases kind <;> rfl

@[simp] theorem Exchange.opened_cidUid : (exc.opened kind fd uuid).cidUid = exc.cidUid := by
  cases kind <;> rfl

@[simp] theorem Exchange.opened_gidCid : (exc.opened kind fd uuid).gidCid = exc.gidCid := by
  cases kind <;> rfl

@[simp] theorem Exchange.opened_cidGid : (exc.opened kind fd uuid).cidGid = exc.cidGid := by
  cases kind <;> rfl

theorem Exchange.opened_client : exc.opened .client fd uuid =
    { exc with slot := update exc.slot fd ⟨1, .client, uuid⟩ } := rfl

theorem Exchange.opened_gateway {kind : RouterType} (hkind : kind ≠ .client) :
    exc.opened kind fd uuid = { exc with
      slot := update exc.slot fd ⟨1, kind, uuid⟩
      list := update exc.list kind (exc.list kind ++ [(fd : Int)])
      gatewayFd := update exc.gatewayFd kind fd } := by
  cases kind with
  | client => exact absurd rfl hkind
  | status => rfl
  | stream => rfl
  | manage => rfl

theorem Exchange.closed_frame :
    (exc.closed kind fd).host = exc.host ∧ (exc.closed kind fd).port = exc.port ∧
      (exc.closed kind fd).slot = update exc.slot fd .zero := by
  by_cases hkind : kind = .client
  · subst hkind
    rw [closed_client]
    obtain ⟨hh, hp, hs, -⟩ :=
      eraseClient_frame { exc with slot := update exc.slot fd .zero } fd
    exact ⟨hh, hp, hs⟩
  · rw [closed_gateway exc fd hkind]
    split <;> exact ⟨rfl, rfl, rfl⟩

end Fields

theorem gidMapLoop_frame {cid gid frame : Bytes} {exc : Exchange}
    (h : gidMapLoop cid exc gid frame = .ok exc') :
    exc'.host = exc.host ∧ exc'.port = exc.port ∧ exc'.slot = exc.slot ∧ exc'.list = exc.list ∧
      exc'.gatewayFd = exc.gatewayFd ∧ exc'.uidCid = exc.uidCid ∧ exc'.cidUid = exc.cidUid := by
  have hadd : ∀ {exc exc' : Exchange} {gid : Bytes}, addGid exc cid gid = .ok exc' →
      exc'.host = exc.host ∧ exc'.port = exc.port ∧ exc'.slot = exc.slot ∧ exc'.list = exc.list ∧
      exc'.gatewayFd = exc.gatewayFd ∧ exc'.uidCid = exc.uidCid ∧ exc'.cidUid = exc.cidUid := by
    intro exc exc' gid h
    unfold addGid at h
    split at h
    · cases h
    · cases h
      exact ⟨rfl, rfl, rfl, rfl, rfl, rfl, rfl⟩
  induction frame generalizing exc gid with
  | nil => exact hadd h
  | cons b rest ih =>
    unfold gidMapLoop at h
    split at h
    · obtain ⟨exc₁, h₁, h₂⟩ := bind_eq_ok.mp h
      obtain ⟨a₁, a₂, a₃, a₄, a₅, a₆, a₇⟩ := hadd h₁
      obtain ⟨b₁, b₂, b₃, b₄, b₅, b₆, b₇⟩ := ih h₂
      exact ⟨b₁.trans a₁, b₂.trans a₂, b₃.trans a₃, b₄.trans a₄, b₅.trans a₅, b₆.trans a₆,
        b₇.trans a₇⟩
    · split at h
      · cases h
      · exact ih h

--
-- Commands
--

/-- A slot outside the table, or one that was released before. -/
def Abort.OfSlot (e : Abort) : Prop := e = .index ∨ e = .released

/-- The descriptor that a command `status … closed` for this server names. -/
def closesFd (exc : Exchange) (frames : List Bytes) : Option Int :=
  match frames[0]?, frames[1]?, frames[2]?, frames[3]? with
  | some manage, some cmd, some cid, some status =>
    if startsWith manage (ascii "manage") ∧ startsWith cmd (ascii "status") ∧
        startsWith status (ascii "closed") then
      match cidFd exc cid with
      | .ok fd => fd
      | .error _ => none
    else none
  | _, _, _, _ => none

theorem cidFd_not_ofSlot {frame : Bytes} (h : cidFd exc frame = .error e) : ¬ e.OfSlot := by
  unfold cidFd at h
  repeat' split at h
  all_goals first
    | cases h
      rintro (h | h) <;> cases h
    | cases h

theorem dispatchStream_not_ofSlot (h : dispatchStream exc frames = .error e) : ¬ e.OfSlot := by
  have hnull : ¬ Abort.OfSlot .null := by
    rintro (h | h) <;> cases h
  have hsize : ¬ Abort.OfSlot .oversize := by
    rintro (h | h) <;> cases h
  unfold dispatchStream at h
  split at h
  · cases h
    exact hnull
  split at h
  · unfold downstreamMsg at h
    split at h
    · cases h
    split at h
    · unfold handleCidMessage at h
      split at h
      · cases h
        exact hnull
      · next frame _ =>
        cases hfd : cidFd exc frame with
        | error e' =>
          rw [hfd] at h
          cases h
          exact cidFd_not_ofSlot hfd
        | ok r =>
          rw [hfd] at h
          cases r <;> cases h
    split at h
    · unfold handleUidMessage at h
      split at h
      · cases h
        exact hnull
      split at h
      · cases h
        exact hsize
      split at h <;> cases h
    split at h
    · unfold handleGidMessage at h
      split at h
      · cases h
        exact hnull
      split at h
      · cases h
        exact hsize
      · cases h
    · cases h
  · cases h

theorem gidMapLoop_not_ofSlot {cid gid frame : Bytes}
    (h : gidMapLoop cid exc gid frame = .error e) : ¬ e.OfSlot := by
  have hoverflow : ¬ Abort.OfSlot .overflow := by
    rintro (h | h) <;> cases h
  have hadd : ∀ {exc : Exchange} {gid : Bytes} {e : Abort}, addGid exc cid gid = .error e →
      ¬ e.OfSlot := by
    intro exc gid e h
    unfold addGid at h
    split at h
    · cases h
      exact hoverflow
    · cases h
  induction frame generalizing exc gid with
  | nil => exact hadd h
  | cons b rest ih =>
    unfold gidMapLoop at h
    split at h
    · cases hgid : addGid exc cid gid with
      | error e' =>
        rw [hgid] at h
        cases h
        exact hadd hgid
      | ok exc' =>
        rw [hgid] at h
        exact ih h
    · split at h
      · cases h
        exact hoverflow
      · exact ih h

/-- The command leaves everything but the maps and closes nothing. -/
structure Quiet (exc : Exchange) (x : Except Abort Commanded) : Prop where
  error : ∀ e, x = .error e → ¬ e.OfSlot
  closes : ∀ r, x = .ok r → r.2 = none
  host : ∀ r, x = .ok r → r.1.host = exc.host
  port : ∀ r, x = .ok r → r.1.port = exc.port
  slot : ∀ r, x = .ok r → r.1.slot = exc.slot
  list : ∀ r, x = .ok r → r.1.list = exc.list
  gatewayFd : ∀ r, x = .ok r → r.1.gatewayFd = exc.gatewayFd

theorem Quiet.of_ok (hhost : exc'.host = exc.host) (hport : exc'.port = exc.port)
    (hslot : exc'.slot = exc.slot) (hlist : exc'.list = exc.list)
    (hgateway : exc'.gatewayFd = exc.gatewayFd) : Quiet exc (.ok (exc', none)) := by
  constructor
  · exact nofun
  all_goals
    intro r h
    rw [← Except.ok.inj h]
  · exact hhost
  · exact hport
  · exact hslot
  · exact hlist
  · exact hgateway

theorem Quiet.refl (exc : Exchange) : Quiet exc (.ok (exc, none)) := .of_ok rfl rfl rfl rfl rfl

theorem Quiet.of_error (he : ¬ e.OfSlot) : Quiet exc (.error e) where
  error e' h := by
    cases h
    exact he
  closes := nofun
  host := nofun
  port := nofun
  slot := nofun
  list := nofun
  gatewayFd := nofun

theorem Abort.null_not_ofSlot : ¬ Abort.OfSlot .null := by
  rintro (h | h) <;> cases h

theorem Abort.oversize_not_ofSlot : ¬ Abort.OfSlot .oversize := by
  rintro (h | h) <;> cases h

theorem quiet_of_cid (exc : Exchange) (frames : List Bytes) {k : Int → Bytes → Except Abort Commanded}
    (hk : ∀ fd x, Quiet exc (k fd x)) :
    Quiet exc (match frames[2]? with
      | none => .error .null
      | some frame => do
        match ← cidFd exc frame with
        | none => return (exc, none)
        | some fd => match frames[3]? with
          | none => throw .null
          | some x => k fd x) := by
  cases frames[2]? with
  | none => exact .of_error Abort.null_not_ofSlot
  | some frame =>
    dsimp only
    cases hfd : cidFd exc frame with
    | error e => exact .of_error (cidFd_not_ofSlot hfd)
    | ok r =>
      cases r with
      | none => exact .refl exc
      | some fd =>
        cases frames[3]? with
        | none => exact .of_error Abort.null_not_ofSlot
        | some x => exact hk fd x

theorem handleUidMap_quiet (exc : Exchange) (frames : List Bytes) :
    Quiet exc (handleUidMap exc frames) := by
  refine quiet_of_cid exc frames fun fd uid => ?_
  split
  · exact .of_error Abort.oversize_not_ofSlot
  · exact .of_ok rfl rfl rfl rfl rfl

theorem handleGidMap_quiet (exc : Exchange) (frames : List Bytes) :
    Quiet exc (handleGidMap exc frames) := by
  refine quiet_of_cid exc frames fun fd gids => ?_
  cases hloop : gidMapLoop (fmtInt fd) exc [] gids with
  | error e => exact .of_error (gidMapLoop_not_ofSlot hloop)
  | ok exc' =>
    obtain ⟨hhost, hport, hslot, hlist, hgateway, -, -⟩ := gidMapLoop_frame hloop
    exact .of_ok hhost hport hslot hlist hgateway

/-- **A command** either has a client closed or leaves everything but the maps. -/
theorem dispatchManage_cases (exc : Exchange) (frames : List Bytes) :
    (∃ fd, closesFd exc frames = some fd ∧ dispatchManage exc frames = eraseAndClose exc fd) ∨
      closesFd exc frames = none ∧ Quiet exc (dispatchManage exc frames) := by
  unfold dispatchManage closesFd
  cases frames[0]? with
  | none => exact .inr ⟨rfl, .of_error Abort.null_not_ofSlot⟩
  | some manage =>
    dsimp only
    by_cases hmanage : startsWith manage (ascii "manage") = true
    swap
    · rw [if_neg hmanage]
      refine .inr ⟨?_, .refl exc⟩
      split
      · next heq _ _ _ =>
        obtain rfl := Option.some.inj heq
        exact if_neg fun hand => hmanage hand.1
      · rfl
    rw [if_pos hmanage]
    cases frames[1]? with
    | none =>
      refine .inr ⟨?_, .of_error Abort.null_not_ofSlot⟩
      split
      · next heq _ _ => cases heq
      · rfl
    | some cmd =>
      dsimp only
      by_cases hstatus : startsWith cmd (ascii "status") = true
      swap
      · rw [if_neg hstatus]
        refine .inr ⟨?_, ?_⟩
        · split
          · next heq _ _ =>
            obtain rfl := Option.some.inj heq
            exact if_neg fun hand => hstatus hand.2.1
          · rfl
        · split
          · exact handleUidMap_quiet exc frames
          · split
            · exact handleGidMap_quiet exc frames
            · exact .refl exc
      rw [if_pos hstatus]
      unfold handleStatus erasedClient
      cases frames[3]? with
      | none =>
        refine .inr ⟨?_, .refl exc⟩
        split
        · next heq => cases heq
        · rfl
      | some status =>
        dsimp only
        by_cases hclosed : startsWith status (ascii "closed") = true
        swap
        · rw [if_neg hclosed]
          refine .inr ⟨?_, .refl exc⟩
          split
          · next heq =>
            obtain rfl := Option.some.inj heq
            exact if_neg fun hand => hclosed hand.2.2
          · rfl
        rw [if_pos hclosed]
        cases frames[2]? with
        | none => exact .inr ⟨rfl, .of_error Abort.null_not_ofSlot⟩
        | some cid =>
          dsimp only
          rw [if_pos ⟨hmanage, hstatus, hclosed⟩]
          cases hfd : cidFd exc cid with
          | error e => exact .inr ⟨rfl, .of_error (cidFd_not_ofSlot hfd)⟩
          | ok r =>
            cases r with
            | none => exact .inr ⟨rfl, .refl exc⟩
            | some fd => exact .inl ⟨fd, rfl, rfl⟩

--
-- Failing callbacks
--

theorem fdmanSlotSet_error {fd : Nat} {des : FdInfo} (h : fdmanSlotSet exc fd des = .error e) :
    fd = FD_CAPACITY ∧ e = .index ∨ FD_CAPACITY < fd ∧ e = .capacity := by
  unfold fdmanSlotSet at h
  split at h
  · next hlt =>
    cases h
    exact .inr ⟨by exact_mod_cast hlt, rfl⟩
  · next hle =>
    split at h
    · cases h
    · next hrange =>
      cases h
      left
      refine ⟨?_, rfl⟩
      omega

theorem excEventNotifyInit_error {kind : RouterType} {fd : Nat} {uuid : Bytes}
    (h : excEventNotifyInit kind exc fd uuid = .error e) :
    fd = FD_CAPACITY ∧ e = .index ∨ FD_CAPACITY < fd ∧ e = .capacity := by
  have hgateway : ∀ kind, gatewayInit kind exc fd uuid = .error e →
      fd = FD_CAPACITY ∧ e = .index ∨ FD_CAPACITY < fd ∧ e = .capacity := by
    intro kind h
    rcases bind_eq_error.mp h with h | ⟨exc', -, h⟩
    · exact fdmanSlotSet_error h
    · cases h
  cases kind with
  | client =>
    rcases bind_eq_error.mp h with h | ⟨exc', hset, h⟩
    · exact fdmanSlotSet_error h
    · rcases bind_eq_error.mp h with h | ⟨said, -, h⟩
      · rw [sendStatusMsg_of_lt _ (fdmanSlotSet_ok hset).1] at h
        cases h
      · cases h
  | status => exact hgateway .status h
  | stream => exact hgateway .stream h
  | manage => exact hgateway .manage h

theorem fdmanSlotDel_of_status {fd : Nat} (hlt : fd < FD_CAPACITY)
    (hstatus : (exc.slot fd).status = 1) : fdmanSlotDel exc fd =
      .ok { exc with slot := update exc.slot fd .zero } := by
  unfold fdmanSlotDel
  rw [fdmanSlotGet_of_lt hlt]
  show (if (exc.slot fd).status ≠ 1 then _ else _) = _
  rw [if_neg (not_not.mpr hstatus), Int.toNat_natCast]
  rfl

theorem fdmanSlotDel_released {fd : Nat} (hlt : fd < FD_CAPACITY)
    (hstatus : (exc.slot fd).status ≠ 1) : fdmanSlotDel exc fd = .error .released := by
  unfold fdmanSlotDel
  rw [fdmanSlotGet_of_lt hlt]
  show (if (exc.slot fd).status ≠ 1 then _ else _) = _
  rw [if_pos hstatus]
  rfl

theorem excEventNotifyStop_total (kind : RouterType) {fd : Nat}
    (hlt : fd < FD_CAPACITY) (hstatus : (exc.slot fd).status = 1) :
    ∃ r, excEventNotifyStop kind exc fd = .ok r := by
  have hdel := fdmanSlotDel_of_status hlt hstatus
  have hgateway : ∀ kind, ∃ r, gatewayStop kind exc fd = .ok r := by
    intro kind
    unfold gatewayStop
    rw [hdel]
    show ∃ r, (if exc.gatewayFd kind = fd then _ else _) = _
    split
    · exact ⟨_, rfl⟩
    · exact ⟨_, rfl⟩
  cases kind with
  | client =>
    have hsaid := sendStatusMsg_of_lt (exc.closed .client fd) hlt (ascii "closed")
    exact ⟨_, bind_eq_ok.mpr ⟨_, hdel, bind_eq_ok.mpr ⟨_, hsaid, rfl⟩⟩⟩
  | status => exact hgateway .status
  | stream => exact hgateway .stream
  | manage => exact hgateway .manage

theorem excEventNotifyStop_released (kind : RouterType) {fd : Nat} (hlt : fd < FD_CAPACITY)
    (hstatus : (exc.slot fd).status ≠ 1) :
    excEventNotifyStop kind exc fd = .error .released := by
  have hdel := fdmanSlotDel_released hlt hstatus
  cases kind with
  | client => exact bind_eq_error.mpr (.inl hdel)
  | status => exact bind_eq_error.mpr (.inl hdel)
  | stream => exact bind_eq_error.mpr (.inl hdel)
  | manage => exact bind_eq_error.mpr (.inl hdel)

--
-- Slots and connections
--

/-- The slots are those of the open connections, and no two connections have the
same number. -/
structure Steady (st : Sys) : Prop where
  fd_lt : ∀ fd c, st.conns fd = some c → fd < FD_CAPACITY
  slot : ∀ fd c, st.conns fd = some c → (st.exc.slot fd).status = 1 ∧
    (st.exc.slot fd).type = c.kind ∧ ∃ uuid : Uuid, (st.exc.slot fd).uuid = uuid.text
  free : ∀ fd, st.conns fd = none → (st.exc.slot fd).status = 0
  number_lt : ∀ fd c, st.conns fd = some c → c.number < st.next
  number_inj : ∀ fd fd' c c', st.conns fd = some c → st.conns fd' = some c' →
    c.number = c'.number → fd = fd'

/-- The event is one that does something. -/
def Act.Live (st : Sys) : Act → Prop
  | .connect _ fd _ => st.conns fd = none
  | .disconnect fd => st.conns fd ≠ none
  | .error fd => ∃ k, st.conns fd = some ⟨k, .client⟩
  | .uidmap via fd _ =>
    (∃ k, st.conns via = some ⟨k, .manage⟩) ∧ ∃ k, st.conns fd = some ⟨k, .client⟩
  | .gidmap via fd _ =>
    (∃ k, st.conns via = some ⟨k, .manage⟩) ∧ ∃ k, st.conns fd = some ⟨k, .client⟩
  | .receive via _ => st.conns via ≠ none

/-- The event ends the connection `c` under `fd`. -/
def Act.Ends (act : Act) (fd : Nat) (c : Conn) : Prop :=
  act = .disconnect fd ∨ act = .error fd ∧ c.kind = .client

theorem Act.Ends.fd_eq {act : Act} {fd fd' : Nat} {c' : Conn} (h : act.Ends fd c)
    (h' : act.Ends fd' c') : fd = fd' := by
  rcases h with rfl | ⟨rfl, -⟩ <;> rcases h' with heq | ⟨heq, -⟩ <;> cases heq <;> rfl

/-- The system with one more connection. -/
def Sys.opened (st : Sys) (kind : RouterType) (fd : Nat) (uuid : Uuid) : Sys :=
  let conns := Function.update st.conns fd (some ⟨st.next, kind⟩)
  let said := st.exc.status kind fd (ascii "connected") uuid.text
  ⟨st.exc.opened kind fd uuid.text, conns, st.next + 1, st.delivered ++ reached conns said,
    st.log ++ [.connected st.next fd said]⟩

/-- The system when a connection has ended. -/
def Sys.closed (st : Sys) (fd : Nat) (c : Conn) : Sys :=
  let conns := Function.update st.conns fd none
  let said := st.exc.status c.kind fd (ascii "closed") []
  ⟨st.exc.closed c.kind fd, conns, st.next, st.delivered ++ reached conns said,
    st.log ++ [.closed c.number said]⟩

/-- Everything a step can do. -/
inductive Moved (st : Sys) : Act → Sys → Prop where
  | idle {act : Act} (h : ¬ act.Live st) : Moved st act st
  | opened {kind : RouterType} {fd : Nat} {uuid : Uuid} (hfree : st.conns fd = none)
      (hlt : fd < FD_CAPACITY) : Moved st (.connect kind fd uuid) (st.opened kind fd uuid)
  | closed {act : Act} {fd : Nat} {c : Conn} (hends : act.Ends fd c) (hc : st.conns fd = some c) :
      Moved st act (st.closed fd c)
  | bound {via fd k : Nat} {uid cid : Bytes} {exc : Exchange}
      (hc : st.conns fd = some ⟨k, .client⟩) (hcid : getCid st.exc fd = .ok cid)
      (hcmd : dispatchManage st.exc (uidmapCommand cid uid) = .ok (exc, none))
      (hquiet : Quiet st.exc (.ok (exc, none))) :
      Moved st (.uidmap via fd uid) { st with exc := exc, log := st.log ++ [.bound k uid] }
  | joined {via fd k : Nat} {gids : List Bytes} {cid : Bytes} {exc : Exchange}
      (hc : st.conns fd = some ⟨k, .client⟩) (hcid : getCid st.exc fd = .ok cid)
      (hcmd : dispatchManage st.exc (gidmapCommand cid ([comma].intercalate gids)) =
        .ok (exc, none)) (hquiet : Quiet st.exc (.ok (exc, none))) :
      Moved st (.gidmap via fd gids)
        { st with exc := exc, log := st.log ++ gids.map (.joined k) }
  | commanded {via k : Nat} {frames : List Bytes} {exc : Exchange}
      (hvia : st.conns via = some ⟨k, .manage⟩) (hquiet : Quiet st.exc (.ok (exc, none))) :
      Moved st (.receive via frames) { st with exc := exc }
  | relayed {via : Nat} {frames : List Bytes} (said : List Send) :
      Moved st (.receive via frames) { st with delivered := st.delivered ++ reached st.conns said }

/-- What an event has to keep: `P` where it opens a connection, `Q` where a client ends. -/
def Act.Keeps (st : Sys) (P : Nat → Prop) (Q : Nat → Conn → Prop) (act : Act) : Prop :=
  (∀ kind fd uuid, act = .connect kind fd uuid → st.conns fd = none → P fd) ∧
  ∀ fd c, act.Ends fd c → st.conns fd = some c → c.kind = .client → Q fd c

section Keeps

variable {P : Nat → Prop} {Q : Nat → Conn → Prop} {act : Act} {fd : Nat}

theorem Act.keeps_of_not_live (hidle : ¬ act.Live st) : act.Keeps st P Q := by
  constructor
  · rintro kind fd uuid rfl hfree
    exact absurd hfree hidle
  · rintro fd c hends hc hkind
    rcases hends with rfl | ⟨rfl, -⟩
    · exact absurd (fun hnone => by rw [hc] at hnone; cases hnone) hidle
    · exact absurd ⟨c.number, by rw [hc, ← hkind]⟩ hidle

theorem Act.keeps_of_other (hconnect : ∀ kind fd uuid, act ≠ .connect kind fd uuid)
    (hends : ∀ fd c, ¬ act.Ends fd c) : act.Keeps st P Q :=
  ⟨fun kind fd uuid h => absurd h (hconnect kind fd uuid), fun fd c h => absurd h (hends fd c)⟩

theorem Act.keeps_connect {kind : RouterType} {uuid : Uuid} (hfree : st.conns fd = none) :
    (Act.connect kind fd uuid).Keeps st P Q ↔ P fd := by
  refine ⟨fun hkeeps => hkeeps.1 kind fd uuid rfl hfree, fun hP => ⟨?_, ?_⟩⟩
  · rintro kind' fd' uuid' heq -
    cases heq
    exact hP
  · rintro fd' c' (hends | ⟨hends, -⟩) <;> cases hends

theorem Act.keeps_ends (hends : act.Ends fd c) (hc : st.conns fd = some c) :
    act.Keeps st P Q ↔ (c.kind = .client → Q fd c) := by
  refine ⟨fun hkeeps => hkeeps.2 fd c hends hc, fun hQ => ⟨?_, ?_⟩⟩
  · rintro kind' fd' uuid' rfl
    rcases hends with hends | ⟨hends, -⟩ <;> cases hends
  · intro fd' c' hends' hc' hkind'
    obtain rfl := hends.fd_eq hends'
    rw [hc, Option.some.injEq] at hc'
    exact hc' ▸ hQ (hc' ▸ hkind')

end Keeps

theorem Steady.messageDispatch (h : Steady st) (hc : st.conns via = some c) (frames : List Bytes) :
    excMessageDispatch st.exc via frames =
      match c.kind with
      | .client => (dispatchClient st.exc via frames).map fun said => ⟨st.exc, said, none⟩
      | .stream => (dispatchStream st.exc frames).map fun said => ⟨st.exc, said, none⟩
      | .manage => (dispatchManage st.exc frames).map fun r => ⟨r.1, [], r.2⟩
      | .status => .ok ⟨st.exc, [], none⟩ := by
  unfold excMessageDispatch
  rw [fdmanSlotGet_of_lt (h.fd_lt via c hc)]
  show (match (st.exc.slot via).type with
    | .client => _ | .stream => _ | .manage => _ | .status => _) = _
  rw [(h.slot via c hc).2.1]
  cases c.kind with
  | client => cases dispatchClient st.exc via frames <;> rfl
  | stream => cases dispatchStream st.exc frames <;> rfl
  | manage => cases dispatchManage st.exc frames <;> rfl
  | status => rfl

theorem Sys.close_eq (h : Steady st) {fd : Nat} (hc : st.conns fd = some c) :
    st.close fd c = .ok (st.closed fd c) := by
  obtain ⟨r, hr⟩ := excEventNotifyStop_total c.kind (h.fd_lt fd c hc) (h.slot fd c hc).1
  obtain ⟨-, -, rfl⟩ := excEventNotifyStop_ok hr
  exact bind_eq_ok.mpr ⟨_, hr, rfl⟩

theorem commapiClose_of_some {fd : Nat} (hc : st.conns fd = some c) :
    st.commapiClose fd = st.close fd c := by
  unfold Sys.commapiClose connAt
  rw [if_neg (by omega), Int.toNat_natCast, hc]

theorem messageDispatch_relays (h : Steady st) (hvia : st.conns via = some c)
    (hkind : c.kind ≠ .manage) {d : Dispatched}
    (hd : excMessageDispatch st.exc via frames = .ok d) : ∃ said, d = ⟨st.exc, said, none⟩ := by
  rw [h.messageDispatch hvia] at hd
  cases hk : c.kind with
  | client =>
    rw [hk] at hd
    cases hsaid : dispatchClient st.exc via frames with
    | error e =>
      rw [hsaid] at hd
      cases hd
    | ok said =>
      rw [hsaid] at hd
      exact ⟨said, (Except.ok.inj hd).symm⟩
  | stream =>
    rw [hk] at hd
    cases hsaid : dispatchStream st.exc frames with
    | error e =>
      rw [hsaid] at hd
      cases hd
    | ok said =>
      rw [hsaid] at hd
      exact ⟨said, (Except.ok.inj hd).symm⟩
  | manage => exact absurd hk hkind
  | status =>
    rw [hk] at hd
    exact ⟨[], (Except.ok.inj hd).symm⟩

theorem dispatch_relays (h : Steady st) (hvia : st.conns via = some c) (hkind : c.kind ≠ .manage)
    (hstep : st.dispatch via frames = .ok st') :
    ∃ said, st' = { st with delivered := st.delivered ++ reached st.conns said } := by
  obtain ⟨d, hd, hstep⟩ := bind_eq_ok.mp hstep
  obtain ⟨said, rfl⟩ := messageDispatch_relays h hvia hkind hd
  exact ⟨said, (Except.ok.inj hstep).symm⟩

theorem dispatch_quiet (h : Steady st) {k : Nat} (hvia : st.conns via = some ⟨k, .manage⟩)
    (hquiet : Quiet st.exc (dispatchManage st.exc frames)) :
    st.dispatch via frames =
      (dispatchManage st.exc frames).map fun r => { st with exc := r.1 } := by
  have hdisp := h.messageDispatch hvia frames
  cases hcmd : dispatchManage st.exc frames with
  | error e =>
    refine bind_eq_error.mpr (.inl ?_)
    rw [hdisp, hcmd]
    rfl
  | ok r =>
    have hnone := hquiet.closes r hcmd
    unfold Sys.dispatch
    rw [hdisp, hcmd]
    show (match r.2 with
      | none => Except.ok { st with exc := r.1, delivered := st.delivered ++ [] }
      | some fd => _) = _
    rw [hnone, List.append_nil]
    rfl

theorem dispatch_closes (h : Steady st) {k : Nat} (hvia : st.conns via = some ⟨k, .manage⟩)
    {fd : Int} (hcmd : dispatchManage st.exc frames = eraseAndClose st.exc fd) :
    ∃ e, st.dispatch via frames = .error e ∧ e.OfSlot := by
  have hdisp := h.messageDispatch hvia frames
  rw [hcmd] at hdisp
  by_cases hrange : 0 ≤ fd ∧ fd < FD_CAPACITY
  swap
  · refine ⟨.index, bind_eq_error.mpr (.inl ?_), .inl rfl⟩
    have herase : eraseAndClose st.exc fd = .error .index := by
      refine bind_eq_error.mpr (.inl (bind_eq_error.mpr (.inl ?_)))
      exact if_neg hrange
    rw [hdisp, herase]
    rfl
  obtain ⟨n, rfl⟩ := Int.eq_ofNat_of_zero_le hrange.1
  have hlt : n < FD_CAPACITY := by exact_mod_cast hrange.2
  refine ⟨.released, ?_, .inr rfl⟩
  by_cases hstatus : (st.exc.slot n).status = 1
  swap
  · have herase : eraseAndClose st.exc n = .error .released :=
      bind_eq_error.mpr (.inl (fdmanSlotDel_released hlt hstatus))
    refine bind_eq_error.mpr (.inl ?_)
    rw [hdisp, herase]
    rfl
  -- the slot is in use, so there is a connection, and its callback finds it released
  have hconn : ∃ c, st.conns n = some c := by
    cases hc : st.conns n with
    | none =>
      have := h.free n hc
      rw [hstatus] at this
      cases this
    | some c => exact ⟨c, rfl⟩
  obtain ⟨c, hc⟩ := hconn
  have herase : eraseAndClose st.exc n = .ok (st.exc.closed .client n, some (n : Int)) :=
    bind_eq_ok.mpr ⟨_, fdmanSlotDel_of_status hlt hstatus, rfl⟩
  refine bind_eq_error.mpr (.inr ⟨⟨st.exc.closed .client n, [], some n⟩, ?_, ?_⟩)
  · rw [hdisp, herase]
    rfl
  · have hclosed : ((st.exc.closed .client n).slot n).status ≠ 1 := by
      rw [(Exchange.closed_frame st.exc .client n).2.2, update_self]
      exact nofun
    refine (commapiClose_of_some (c := c) ?_).trans (bind_eq_error.mpr (.inl ?_))
    · exact hc
    · exact excEventNotifyStop_released c.kind hlt hclosed

--
-- Steps
--

theorem dispatch_manage_ok (h : Steady st) {k : Nat} (hvia : st.conns via = some ⟨k, .manage⟩)
    (hstep : st.dispatch via frames = .ok st') :
    ∃ exc, dispatchManage st.exc frames = .ok (exc, none) ∧ Quiet st.exc (.ok (exc, none)) ∧
      st' = { st with exc := exc } := by
  rcases dispatchManage_cases st.exc frames with ⟨fd, -, hcmd⟩ | ⟨-, hquiet⟩
  · obtain ⟨e, he, -⟩ := dispatch_closes h hvia hcmd
    rw [hstep] at he
    cases he
  · rw [dispatch_quiet h hvia hquiet] at hstep
    cases hcmd : dispatchManage st.exc frames with
    | error e =>
      rw [hcmd] at hstep
      cases hstep
    | ok r =>
      rw [hcmd] at hstep hquiet
      obtain ⟨exc, closes⟩ := r
      obtain rfl : closes = none := hquiet.closes _ rfl
      exact ⟨exc, rfl, hquiet, (Except.ok.inj hstep).symm⟩

theorem step_cases (h : Steady st) {act : Act} (hstep : step st act = .ok st') :
    Moved st act st' := by
  cases act with
  | connect kind fd uuid =>
    unfold step at hstep
    dsimp only at hstep
    cases hfd : st.conns fd with
    | some c =>
      rw [hfd] at hstep
      cases hstep
      exact .idle fun hlive => by rw [Act.Live, hfd] at hlive; cases hlive
    | none =>
      rw [hfd] at hstep
      obtain ⟨r, hinit, hstep⟩ := bind_eq_ok.mp hstep
      obtain ⟨hlt, rfl⟩ := excEventNotifyInit_ok hinit
      rw [← Except.ok.inj hstep]
      exact .opened hfd hlt
  | disconnect fd =>
    unfold step at hstep
    dsimp only at hstep
    cases hfd : st.conns fd with
    | none =>
      rw [hfd] at hstep
      cases hstep
      exact .idle fun hlive => hlive hfd
    | some c =>
      rw [hfd] at hstep
      dsimp only at hstep
      rw [Sys.close_eq h hfd] at hstep
      rw [← Except.ok.inj hstep]
      exact .closed (.inl rfl) hfd
  | error fd =>
    unfold step at hstep
    dsimp only at hstep
    split at hstep
    · next k hfd =>
      rw [commapiClose_of_some hfd, Sys.close_eq h hfd] at hstep
      rw [← Except.ok.inj hstep]
      exact .closed (.inr ⟨rfl, rfl⟩) hfd
    · next hother =>
      cases hstep
      exact .idle fun ⟨k, hfd⟩ => hother k hfd
  | uidmap via fd uid =>
    unfold step at hstep
    dsimp only at hstep
    split at hstep
    · next k' k hvia hfd =>
      obtain ⟨cid, hcid, hstep⟩ := bind_eq_ok.mp hstep
      obtain ⟨st₁, hdisp, hstep⟩ := bind_eq_ok.mp hstep
      obtain ⟨exc, hcmd, hquiet, rfl⟩ := dispatch_manage_ok h hvia hdisp
      rw [← Except.ok.inj hstep]
      exact .bound hfd hcid hcmd hquiet
    · next hother =>
      cases hstep
      exact .idle fun ⟨⟨k', hvia⟩, k, hfd⟩ => hother k' k hvia hfd
  | gidmap via fd gids =>
    unfold step at hstep
    dsimp only at hstep
    split at hstep
    · next k' k hvia hfd =>
      obtain ⟨cid, hcid, hstep⟩ := bind_eq_ok.mp hstep
      obtain ⟨st₁, hdisp, hstep⟩ := bind_eq_ok.mp hstep
      obtain ⟨exc, hcmd, hquiet, rfl⟩ := dispatch_manage_ok h hvia hdisp
      rw [← Except.ok.inj hstep]
      exact .joined hfd hcid hcmd hquiet
    · next hother =>
      cases hstep
      exact .idle fun ⟨⟨k', hvia⟩, k, hfd⟩ => hother k' k hvia hfd
  | receive via frames =>
    unfold step at hstep
    dsimp only at hstep
    cases hvia : st.conns via with
    | none =>
      rw [hvia] at hstep
      cases hstep
      exact .idle fun hlive => hlive hvia
    | some c =>
      rw [hvia] at hstep
      by_cases hkind : c.kind = .manage
      · obtain ⟨k, rfl⟩ : ∃ k, c = ⟨k, .manage⟩ := ⟨c.number, by rw [← hkind]⟩
        obtain ⟨exc, -, hquiet, rfl⟩ := dispatch_manage_ok h hvia hstep
        exact .commanded hvia hquiet
      · obtain ⟨said, rfl⟩ := dispatch_relays h hvia hkind hstep
        exact .relayed said

theorem Steady.congr (h : Steady st) (hconns : st'.conns = st.conns) (hnext : st'.next = st.next)
    (hslot : st'.exc.slot = st.exc.slot) : Steady st' := by
  refine ⟨?_, ?_, ?_, ?_, ?_⟩
  · rw [hconns]
    exact h.fd_lt
  · rw [hconns, hslot]
    exact h.slot
  · rw [hconns, hslot]
    exact h.free
  · rw [hconns, hnext]
    exact h.number_lt
  · rw [hconns]
    exact h.number_inj

theorem opened_conns {kind : RouterType} {fd fd' : Nat} {uuid : Uuid} :
    (st.opened kind fd uuid).conns fd' = some c ↔
      fd' = fd ∧ c = ⟨st.next, kind⟩ ∨ fd' ≠ fd ∧ st.conns fd' = some c := by
  show update st.conns fd (some ⟨st.next, kind⟩) fd' = some c ↔ _
  by_cases hfd : fd' = fd
  · rw [hfd, update_self, Option.some.injEq]
    simp [eq_comm]
  · rw [update_of_ne hfd]
    simp [hfd]

theorem closed_conns {fd fd' : Nat} {c' : Conn} :
    (st.closed fd c).conns fd' = some c' ↔ fd' ≠ fd ∧ st.conns fd' = some c' := by
  show update st.conns fd none fd' = some c' ↔ _
  by_cases hfd : fd' = fd
  · rw [hfd, update_self]
    simp
  · rw [update_of_ne hfd]
    simp [hfd]

theorem Steady.opened (h : Steady st) {kind : RouterType} {fd : Nat} {uuid : Uuid}
    (hlt : fd < FD_CAPACITY) : Steady (st.opened kind fd uuid) := by
  have hslot : (st.opened kind fd uuid).exc.slot =
      update st.exc.slot fd ⟨1, kind, uuid.text⟩ := Exchange.opened_slot ..
  refine ⟨?_, ?_, ?_, ?_, ?_⟩
  · intro fd' c hc
    rcases opened_conns.mp hc with ⟨rfl, rfl⟩ | ⟨-, hc⟩
    · exact hlt
    · exact h.fd_lt fd' c hc
  · intro fd' c hc
    rw [hslot]
    rcases opened_conns.mp hc with ⟨rfl, rfl⟩ | ⟨hne, hc⟩
    · rw [update_self]
      exact ⟨rfl, rfl, uuid, rfl⟩
    · rw [update_of_ne hne]
      exact h.slot fd' c hc
  · intro fd' hc
    have hne : fd' ≠ fd := by
      rintro rfl
      change update st.conns fd' (some ⟨st.next, kind⟩) fd' = none at hc
      rw [update_self] at hc
      cases hc
    rw [hslot, update_of_ne hne]
    exact h.free fd' ((update_of_ne hne ..).symm.trans hc)
  · intro fd' c hc
    rcases opened_conns.mp hc with ⟨-, rfl⟩ | ⟨-, hc⟩
    · exact Nat.lt_succ_self _
    · exact Nat.lt_succ_of_lt (h.number_lt fd' c hc)
  · intro fd₁ fd₂ c₁ c₂ h₁ h₂ heq
    rcases opened_conns.mp h₁ with ⟨rfl, rfl⟩ | ⟨-, h₁⟩
    · rcases opened_conns.mp h₂ with ⟨rfl, -⟩ | ⟨-, h₂⟩
      · rfl
      · exact absurd heq (h.number_lt fd₂ c₂ h₂).ne'
    · rcases opened_conns.mp h₂ with ⟨-, rfl⟩ | ⟨-, h₂⟩
      · exact absurd heq (h.number_lt fd₁ c₁ h₁).ne
      · exact h.number_inj fd₁ fd₂ c₁ c₂ h₁ h₂ heq

theorem Steady.closed (h : Steady st) (fd : Nat) (c : Conn) : Steady (st.closed fd c) := by
  have hslot : (st.closed fd c).exc.slot = update st.exc.slot fd .zero :=
    (Exchange.closed_frame st.exc c.kind fd).2.2
  refine ⟨?_, ?_, ?_, ?_, ?_⟩
  · intro fd' c' hc
    exact h.fd_lt fd' c' (closed_conns.mp hc).2
  · intro fd' c' hc
    obtain ⟨hne, hc⟩ := closed_conns.mp hc
    rw [hslot, update_of_ne hne]
    exact h.slot fd' c' hc
  · intro fd' hc
    rw [hslot]
    by_cases hfd : fd' = fd
    · rw [hfd, update_self]
      rfl
    · rw [update_of_ne hfd]
      exact h.free fd' ((update_of_ne hfd ..).symm.trans hc)
  · intro fd' c' hc
    exact h.number_lt fd' c' (closed_conns.mp hc).2
  · intro fd₁ fd₂ c₁ c₂ h₁ h₂
    exact h.number_inj fd₁ fd₂ c₁ c₂ (closed_conns.mp h₁).2 (closed_conns.mp h₂).2

theorem Steady.moved (h : Steady st) {act : Act} (hmoved : Moved st act st') : Steady st' := by
  cases hmoved with
  | idle _ => exact h
  | opened _ hlt => exact h.opened hlt
  | closed _ _ => exact h.closed _ _
  | bound _ _ _ hquiet => exact h.congr rfl rfl (hquiet.slot _ rfl)
  | joined _ _ _ hquiet => exact h.congr rfl rfl (hquiet.slot _ rfl)
  | commanded _ hquiet => exact h.congr rfl rfl (hquiet.slot _ rfl)
  | relayed _ => exact h.congr rfl rfl rfl

theorem Steady.start (host : Bytes) (port : Nat) : Steady (Sys.start host port) :=
  ⟨nofun, nofun, fun _ _ => rfl, nofun, nofun⟩

end Supex.Imx
