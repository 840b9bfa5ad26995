import Supex.Imx.Steps

/-!
# IMX exchange — commands for open clients

A command names a client by its cid. Read back, the cid is the descriptor that
the client is open under, so a command for an open client changes the maps under
that descriptor.

* `bound_exc`, `joined_exc` — what the commands leave.
-/

namespace Supex.Imx

open Tsdb (fmtInt)

variable {st st' : Sys}

/-- The connection is open. -/
def Sys.Open (st : Sys) (k : Nat) : Prop := ∃ fd kind, st.conns fd = some ⟨k, kind⟩

/-- Who sends a message is no manage gateway; commands are `uidmap` and `gidmap`. -/
def Act.Plain (st : Sys) (act : Act) : Prop :=
  ∀ via frames, act = .receive via frames → ∀ c, st.conns via = some c → c.kind ≠ .manage

variable {fd : Nat}

theorem open_opened {kind : RouterType} {uuid : Uuid} (hfree : st.conns fd = none) (k : Nat) :
    (st.opened kind fd uuid).Open k ↔ st.Open k ∨ k = st.next := by
  constructor
  · rintro ⟨fd', kind', hc⟩
    rcases opened_conns.mp hc with ⟨-, heq⟩ | ⟨-, hc⟩
    · exact .inr (Conn.mk.inj heq).1
    · exact .inl ⟨fd', kind', hc⟩
  · rintro (⟨fd', kind', hc⟩ | rfl)
    · have hne : fd' ≠ fd := by
        rintro rfl
        rw [hfree] at hc
        cases hc
      exact ⟨fd', kind', opened_conns.mpr (.inr ⟨hne, hc⟩)⟩
    · exact ⟨fd, kind, opened_conns.mpr (.inl ⟨rfl, rfl⟩)⟩

theorem open_closed (h : Steady st) {c : Conn} (hc : st.conns fd = some c) (k : Nat) :
    (st.closed fd c).Open k ↔ st.Open k ∧ k ≠ c.number := by
  constructor
  · rintro ⟨fd', kind, hc'⟩
    obtain ⟨hne, hc'⟩ := closed_conns.mp hc'
    exact ⟨⟨fd', kind, hc'⟩, fun heq => hne (h.number_inj fd' fd _ _ hc' hc heq)⟩
  · rintro ⟨⟨fd', kind, hc'⟩, hne⟩
    have hfd : fd' ≠ fd := by
      rintro rfl
      rw [hc, Option.some.injEq] at hc'
      rw [hc'] at hne
      exact hne rfl
    exact ⟨fd', kind, closed_conns.mpr ⟨hfd, hc'⟩⟩

theorem Moved.config {act : Act} (h : Moved st act st') :
    st'.exc.host = st.exc.host ∧ st'.exc.port = st.exc.port := by
  cases h with
  | idle _ => exact ⟨rfl, rfl⟩
  | opened _ _ => exact ⟨Exchange.opened_host .., Exchange.opened_port ..⟩
  | closed _ _ =>
    obtain ⟨hhost, hport, -⟩ := Exchange.closed_frame st.exc _ _
    exact ⟨hhost, hport⟩
  | bound _ _ _ hquiet => exact ⟨hquiet.host _ rfl, hquiet.port _ rfl⟩
  | joined _ _ _ hquiet => exact ⟨hquiet.host _ rfl, hquiet.port _ rfl⟩
  | commanded _ hquiet => exact ⟨hquiet.host _ rfl, hquiet.port _ rfl⟩
  | relayed _ => exact ⟨rfl, rfl⟩

theorem fd_lt_int (h : fd < FD_CAPACITY) : fd < 2 ^ 31 :=
  lt_trans h (by decide)

theorem fd_lt_u64 (h : fd < FD_CAPACITY) : fd < u64Size :=
  lt_trans h (by decide)

theorem Steady.cidFd (h : Steady st) (hhost : HostOk st.exc.host st.exc.port) {c : Conn}
    (hc : st.conns fd = some c) {cid : Bytes} (hcid : getCid st.exc fd = .ok cid) :
    cidFd st.exc cid = .ok (some fd) := by
  obtain ⟨-, -, uuid, huuid⟩ := h.slot fd c hc
  rw [getCid_of_lt (h.fd_lt fd c hc), huuid, take_cidText uuid.length_eq.le hhost.short,
    Except.ok.injEq] at hcid
  rw [← hcid]
  exact cidFd_cidText hhost uuid (fd_lt_int (h.fd_lt fd c hc))

theorem bound_exc (h : Steady st) (hhost : HostOk st.exc.host st.exc.port) {c : Conn}
    (hc : st.conns fd = some c) {cid uid : Bytes} (hcid : getCid st.exc fd = .ok cid)
    (hlen : uid.length < MAX_UID_SIZE) (hzero : (0 : UInt8) ∉ uid) {exc : Exchange}
    (hcmd : dispatchManage st.exc (uidmapCommand cid uid) = .ok (exc, none)) :
    exc = setUid st.exc fd uid := by
  rw [dispatchManage_uidmap (h.cidFd hhost hc hcid) hlen, cstr_of_noZero hzero,
    Except.ok.injEq, Prod.mk.injEq] at hcmd
  exact hcmd.1.symm

theorem joined_exc (h : Steady st) (hhost : HostOk st.exc.host st.exc.port) {c : Conn}
    (hc : st.conns fd = some c) {cid gids : Bytes} (hcid : getCid st.exc fd = .ok cid)
    {exc : Exchange} (hcmd : dispatchManage st.exc (gidmapCommand cid gids) = .ok (exc, none)) :
    gidMapLoop (fmtInt fd) st.exc [] gids = .ok exc := by
  rw [dispatchManage_gidmap (h.cidFd hhost hc hcid)] at hcmd
  cases hloop : gidMapLoop (fmtInt fd) st.exc [] gids with
  | error e =>
    rw [hloop] at hcmd
    cases hcmd
  | ok exc' =>
    rw [hloop] at hcmd
    cases hcmd
    rfl

end Supex.Imx
