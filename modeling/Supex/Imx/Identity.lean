import Supex.Imx.Groups

/-!
# IMX exchange — the identity of a connection

A cid begins with a uuid, which makes it the name of one connection. No handler
looks at the uuid: a cid is read as its descriptor, whoever has that now. And the
slot with the uuid is released before the closed message is printed from it, so
that message names nobody.

Main results: `identified_iff`, `cid_reused`.
-/

namespace Supex.Imx

open List

open Lib (run Along Throughout)
open Tsdb (fmtInt)

variable {st st' : Sys} {exc : Exchange}

--
-- Cids
--

/-- The cid in a status message. -/
def sentCid : List Send → Option Bytes
  | [(_, [_, _, cid])] => some cid
  | _ => none

/-- The descriptor that the messages and commands with a cid act on. -/
structure ActsOn (exc : Exchange) (cid : Bytes) (fd : Nat) : Prop where
  message : ∀ payload, dispatchStream exc (cidMessage cid payload) = .ok [((fd : Int), payload)]
  uidmap : ∀ uid, uid.length < MAX_UID_SIZE →
    dispatchManage exc (uidmapCommand cid uid) = .ok (setUid exc fd (cstr uid), none)
  gidmap : ∀ gids, dispatchManage exc (gidmapCommand cid gids) =
    (gidMapLoop (fmtInt fd) exc [] gids).map fun exc => (exc, none)
  closed : dispatchManage exc (closedCommand cid) = eraseAndClose exc fd

/-- A cid that was sent stands for its connection while it is open, and for none
afterwards; the closed message has the cid of the connected one. -/
structure Identified (st : Sys) : Prop where
  acts : ∀ k fd said cid, .connected k fd said ∈ st.log → sentCid said = some cid →
    ∃ fd' : Nat, ActsOn st.exc cid fd' ∧
      ∀ k', (∃ kind, st.conns fd' = some ⟨k', kind⟩) ↔ k' = k ∧ st.Open k
  closed : ∀ k fd said said' cid cid', .connected k fd said ∈ st.log → .closed k said' ∈ st.log →
    sentCid said = some cid → sentCid said' = some cid' → cid' = cid

/-- A new connection does not get the descriptor of one whose cid was sent, and a
client whose cid was sent does not end while there is a status gateway. -/
def IdentityKept (st : Sys) (act : Act) : Prop :=
  (∀ kind fd uuid, act = .connect kind fd uuid → st.conns fd = none →
    ∀ k said, .connected k fd said ∈ st.log → sentCid said = none) ∧
  ∀ fd c, act.Ends fd c → st.conns fd = some c → c.kind = .client →
    ∀ said, .connected c.number fd said ∈ st.log → sentCid said = none ∨
      st.exc.gatewayFd .status ≤ 0

theorem actsOn_cidText (hhost : HostOk exc.host exc.port) (uuid : Uuid) {fd : Nat}
    (hfd : fd < FD_CAPACITY) : ActsOn exc (cidText uuid.text exc.host exc.port fd) fd := by
  have hread := cidFd_cidText hhost uuid (fd_lt_int hfd)
  refine ⟨fun payload => ?_, fun uid => dispatchManage_uidmap hread,
    fun gids => dispatchManage_gidmap hread, dispatchManage_closed hread⟩
  rw [dispatchStream_cid, hread]
  rfl

theorem ActsOn.unique {cid : Bytes} {fd fd' : Nat} (h : ActsOn exc cid fd)
    (h' : ActsOn exc cid fd') : fd = fd' := by
  have heq := (h.message []).symm.trans (h'.message [])
  rw [Except.ok.injEq, List.cons.injEq, Prod.mk.injEq] at heq
  exact_mod_cast heq.1.1

theorem cidText_nil_ne (uuid : Uuid) (host host' : Bytes) (port port' fd fd' : Nat) :
    cidText [] host port fd ≠ cidText uuid.text host' port' fd' := by
  intro heq
  obtain ⟨b, text, htext⟩ : ∃ b text, uuid.text = b :: text := by
    refine exists_cons_of_ne_nil fun hnil => ?_
    have := uuid.length_eq
    rw [hnil] at this
    cases this
  have hbar := uuid.noBar
  unfold cidText at heq
  rw [htext, nil_append, cons_append, List.cons.injEq] at heq
  rw [htext, ← heq.1] at hbar
  exact hbar (.head _)

theorem sentCid_status (hhost : HostOk exc.host exc.port) {uuid : Bytes} (huuid : uuid.length ≤ 36)
    (kind : RouterType) (fd : Nat) (status : Bytes) :
    sentCid (exc.status kind fd status uuid) =
      if kind = .client ∧ 0 < exc.gatewayFd .status then
        some (cidText uuid exc.host exc.port fd) else none := by
  unfold Exchange.status
  rw [take_cidText huuid hhost.short]
  split <;> rfl

--
-- The record
--

/-- What was sent, and for which descriptor. -/
structure Recorded (st : Sys) : Prop where
  steady : Steady st
  host : HostOk st.exc.host st.exc.port
  connected : ∀ k fd said, .connected k fd said ∈ st.log → k < st.next ∧ fd < FD_CAPACITY ∧
    ∀ cid, sentCid said = some cid →
      ∃ uuid : Uuid, cid = cidText uuid.text st.exc.host st.exc.port fd
  open_fd : ∀ k fd said fd' kind, .connected k fd said ∈ st.log → st.conns fd' = some ⟨k, kind⟩ →
    fd' = fd
  ended : ∀ k said, .closed k said ∈ st.log → k < st.next ∧ ∀ cid, sentCid said = some cid →
    ∃ fd, cid = cidText [] st.exc.host st.exc.port fd

/-- In other words: no other connection has the descriptor, and not both messages
were sent. -/
theorem Recorded.identified_simple (h : Recorded st) :
    Identified st ↔
      (∀ k fd said, .connected k fd said ∈ st.log → sentCid said ≠ none →
        ∀ c, st.conns fd = some c → c.number = k) ∧
      ∀ k fd said said', .connected k fd said ∈ st.log → .closed k said' ∈ st.log →
        sentCid said ≠ none → sentCid said' = none := by
  constructor
  · intro hid
    refine ⟨fun k fd said hmem hsent c hc => ?_, fun k fd said said' hmem hmem' hsent => ?_⟩
    · obtain ⟨cid, hcid⟩ := Option.ne_none_iff_exists'.mp hsent
      obtain ⟨-, hlt, htext⟩ := h.connected k fd said hmem
      obtain ⟨uuid, rfl⟩ := htext cid hcid
      obtain ⟨fd', hacts, hiff⟩ := hid.acts k fd said _ hmem hcid
      obtain rfl := hacts.unique (actsOn_cidText h.host uuid hlt)
      exact ((hiff c.number).mp ⟨c.kind, hc⟩).1
    · by_contra hsent'
      obtain ⟨cid, hcid⟩ := Option.ne_none_iff_exists'.mp hsent
      obtain ⟨cid', hcid'⟩ := Option.ne_none_iff_exists'.mp hsent'
      obtain ⟨uuid, rfl⟩ := (h.connected k fd said hmem).2.2 cid hcid
      obtain ⟨fd', rfl⟩ := (h.ended k said' hmem').2 cid' hcid'
      exact cidText_nil_ne uuid _ _ _ _ _ _ (hid.closed k fd said said' _ _ hmem hmem' hcid hcid')
  · rintro ⟨hown, hone⟩
    refine ⟨fun k fd said cid hmem hcid => ?_, fun k fd said said' cid cid' hmem hmem' hcid hcid' =>
      ?_⟩
    · have hsent : sentCid said ≠ none := by
        rw [hcid]
        exact nofun
      obtain ⟨-, hlt, htext⟩ := h.connected k fd said hmem
      obtain ⟨uuid, rfl⟩ := htext cid hcid
      refine ⟨fd, actsOn_cidText h.host uuid hlt, fun k' => ⟨?_, ?_⟩⟩
      · rintro ⟨kind, hc⟩
        obtain rfl : k' = k := hown k fd said hmem hsent _ hc
        exact ⟨rfl, fd, kind, hc⟩
      · rintro ⟨rfl, fd', kind, hc⟩
        exact ⟨kind, h.open_fd k' fd said fd' kind hmem hc ▸ hc⟩
    · have hnone := hone k fd said said' hmem hmem' (by rw [hcid]; exact nofun)
      rw [hcid'] at hnone
      cases hnone

--
-- Steps
--

/-- What is recorded as connected or closed is the same. -/
def SameEnds (log log' : List Happened) : Prop :=
  (∀ k fd said, .connected k fd said ∈ log' ↔ .connected k fd said ∈ log) ∧
    ∀ k said, .closed k said ∈ log' ↔ .closed k said ∈ log

theorem sameEnds_append {log ext : List Happened}
    (h : ∀ x ∈ ext, (∀ k fd said, x ≠ .connected k fd said) ∧ ∀ k said, x ≠ .closed k said) :
    SameEnds log (log ++ ext) := by
  refine ⟨fun k fd said => ?_, fun k said => ?_⟩
  · rw [mem_append]
    exact or_iff_left fun hmem => (h _ hmem).1 k fd said rfl
  · rw [mem_append]
    exact or_iff_left fun hmem => (h _ hmem).2 k said rfl

theorem Recorded.congr (h : Recorded st) (hsteady : Steady st') (hconns : st'.conns = st.conns)
    (hnext : st'.next = st.next) (hhost : st'.exc.host = st.exc.host)
    (hport : st'.exc.port = st.exc.port) (hlog : SameEnds st.log st'.log) : Recorded st' := by
  refine ⟨hsteady, ?_, ?_, ?_, ?_⟩
  · rw [hhost, hport]
    exact h.host
  · intro k fd said hmem
    rw [hnext, hhost, hport]
    exact h.connected k fd said ((hlog.1 k fd said).mp hmem)
  · intro k fd said fd' kind hmem hc
    rw [hconns] at hc
    exact h.open_fd k fd said fd' kind ((hlog.1 k fd said).mp hmem) hc
  · intro k said hmem
    rw [hnext, hhost, hport]
    exact h.ended k said ((hlog.2 k said).mp hmem)

theorem Recorded.identified_congr (h : Recorded st) (h' : Recorded st')
    (hconns : st'.conns = st.conns) (hlog : SameEnds st.log st'.log) (hid : Identified st) :
    Identified st' := by
  rw [h.identified_simple] at hid
  rw [h'.identified_simple, hconns]
  obtain ⟨hown, hone⟩ := hid
  refine ⟨fun k fd said hmem => hown k fd said ((hlog.1 k fd said).mp hmem), ?_⟩
  intro k fd said said' hmem hmem'
  exact hone k fd said said' ((hlog.1 k fd said).mp hmem) ((hlog.2 k said').mp hmem')

variable {said : List Send}

section Opened

variable {kind : RouterType} {fd : Nat} {uuid : Uuid}

theorem connected_mem_opened {k fd' : Nat} :
    .connected k fd' said ∈ (st.opened kind fd uuid).log ↔ .connected k fd' said ∈ st.log ∨
      k = st.next ∧ fd' = fd ∧ said = st.exc.status kind fd (ascii "connected") uuid.text := by
  show _ ∈ st.log ++ [_] ↔ _
  rw [mem_append, mem_singleton, Happened.connected.injEq]

theorem closed_mem_opened {k : Nat} :
    .closed k said ∈ (st.opened kind fd uuid).log ↔ .closed k said ∈ st.log := by
  show _ ∈ st.log ++ [_] ↔ _
  rw [mem_append, mem_singleton]
  exact or_iff_left nofun

theorem Recorded.opened (h : Recorded st) (hsteady : Steady (st.opened kind fd uuid))
    (hlt : fd < FD_CAPACITY) : Recorded (st.opened kind fd uuid) := by
  have hhost : (st.opened kind fd uuid).exc.host = st.exc.host := Exchange.opened_host ..
  have hport : (st.opened kind fd uuid).exc.port = st.exc.port := Exchange.opened_port ..
  refine ⟨hsteady, ?_, ?_, ?_, ?_⟩
  · rw [hhost, hport]
    exact h.host
  · intro k fd' said hmem
    rw [hhost, hport]
    rcases connected_mem_opened.mp hmem with hmem | ⟨rfl, rfl, rfl⟩
    · obtain ⟨hk, hrest⟩ := h.connected k fd' said hmem
      exact ⟨Nat.lt_succ_of_lt hk, hrest⟩
    · refine ⟨Nat.lt_succ_self _, hlt, fun cid hcid => ?_⟩
      rw [sentCid_status h.host uuid.length_eq.le] at hcid
      split at hcid
      · exact ⟨uuid, (Option.some.inj hcid).symm⟩
      · cases hcid
  · intro k fd' said fd'' kind' hmem hc
    rcases connected_mem_opened.mp hmem with hold | ⟨rfl, rfl, -⟩ <;>
      rcases opened_conns.mp hc with ⟨hfd, heq⟩ | ⟨-, hc⟩
    · have hk : k = st.next := (Conn.mk.inj heq).1
      exact absurd (h.connected k fd' said hold).1 (hk ▸ Nat.lt_irrefl _)
    · exact h.open_fd k fd' said fd'' kind' hold hc
    · exact hfd
    · exact absurd (h.steady.number_lt fd'' _ hc) (Nat.lt_irrefl _)
  · intro k said hmem
    rw [hhost, hport]
    obtain ⟨hk, hrest⟩ := h.ended k said (closed_mem_opened.mp hmem)
    exact ⟨Nat.lt_succ_of_lt hk, hrest⟩

/-- **Accepting** a connection keeps the identities if and only if its descriptor
was not that of a connection whose cid was sent. -/
theorem identified_opened_iff (h : Recorded st) (hid : Identified st)
    (h' : Recorded (st.opened kind fd uuid)) :
    Identified (st.opened kind fd uuid) ↔
      ∀ k said, .connected k fd said ∈ st.log → sentCid said = none := by
  rw [h.identified_simple] at hid
  rw [h'.identified_simple]
  obtain ⟨hown, hone⟩ := hid
  constructor
  · rintro ⟨hown', -⟩ k said hmem
    by_contra hsent
    have hk := hown' k fd said (connected_mem_opened.mpr (.inl hmem)) hsent ⟨st.next, kind⟩
      (opened_conns.mpr (.inl ⟨rfl, rfl⟩))
    exact absurd (h.connected k fd said hmem).1 (hk ▸ Nat.lt_irrefl _)
  · intro hfresh
    refine ⟨fun k fd' said hmem hsent c hc => ?_, fun k fd' said said' hmem hmem' hsent => ?_⟩
    · rcases connected_mem_opened.mp hmem with hold | ⟨rfl, rfl, -⟩ <;>
        rcases opened_conns.mp hc with ⟨hfd, heq⟩ | ⟨hne, hc⟩
      · exact absurd (hfresh k said (hfd ▸ hold)) hsent
      · exact hown k fd' said hold hsent c hc
      · rw [heq]
      · exact absurd rfl hne
    · have hmem' := closed_mem_opened.mp hmem'
      rcases connected_mem_opened.mp hmem with hmem | ⟨rfl, -, -⟩
      · exact hone k fd' said said' hmem hmem' hsent
      · exact absurd (h.ended _ said' hmem').1 (Nat.lt_irrefl _)

end Opened

section Closed

variable {fd : Nat} {c : Conn}

theorem connected_mem_closed {k fd' : Nat} :
    .connected k fd' said ∈ (st.closed fd c).log ↔ .connected k fd' said ∈ st.log := by
  show _ ∈ st.log ++ [_] ↔ _
  rw [mem_append, mem_singleton]
  exact or_iff_left nofun

theorem closed_mem_closed {k : Nat} :
    .closed k said ∈ (st.closed fd c).log ↔ .closed k said ∈ st.log ∨
      k = c.number ∧ said = st.exc.status c.kind fd (ascii "closed") [] := by
  show _ ∈ st.log ++ [_] ↔ _
  rw [mem_append, mem_singleton, Happened.closed.injEq]

theorem Recorded.closed (h : Recorded st) (hc : st.conns fd = some c) :
    Recorded (st.closed fd c) := by
  obtain ⟨hhost, hport, -⟩ := Exchange.closed_frame st.exc c.kind fd
  change (st.closed fd c).exc.host = _ at hhost
  change (st.closed fd c).exc.port = _ at hport
  refine ⟨h.steady.closed fd c, ?_, ?_, ?_, ?_⟩
  · rw [hhost, hport]
    exact h.host
  · intro k fd' said hmem
    rw [hhost, hport]
    exact h.connected k fd' said (connected_mem_closed.mp hmem)
  · intro k fd' said fd'' kind hmem hc'
    exact h.open_fd k fd' said fd'' kind (connected_mem_closed.mp hmem) (closed_conns.mp hc').2
  · intro k said hmem
    rw [hhost, hport]
    rcases closed_mem_closed.mp hmem with hmem | ⟨rfl, rfl⟩
    · exact h.ended k said hmem
    · refine ⟨h.steady.number_lt fd c hc, fun cid hcid => ?_⟩
      rw [sentCid_status h.host (Nat.zero_le _)] at hcid
      split at hcid
      · exact ⟨fd, (Option.some.inj hcid).symm⟩
      · cases hcid

/-- **The end** of a connection keeps the identities if and only if not both its
messages are sent. -/
theorem identified_closed_iff (h : Recorded st) (hid : Identified st)
    (hc : st.conns fd = some c) :
    Identified (st.closed fd c) ↔ (c.kind = .client →
      ∀ said, .connected c.number fd said ∈ st.log → sentCid said = none ∨
        st.exc.gatewayFd .status ≤ 0) := by
  have hsent' : sentCid (st.exc.status c.kind fd (ascii "closed") []) = none ↔
      (c.kind = .client → st.exc.gatewayFd .status ≤ 0) := by
    rw [sentCid_status h.host (Nat.zero_le _)]
    by_cases hcond : c.kind = .client ∧ 0 < st.exc.gatewayFd .status
    · rw [if_pos hcond]
      exact iff_of_false nofun fun hle => absurd (hle hcond.1) (by omega)
    · rw [if_neg hcond]
      refine iff_of_true rfl fun hkind => ?_
      by_contra hgw
      exact hcond ⟨hkind, by omega⟩
  rw [h.identified_simple] at hid
  rw [(h.closed hc).identified_simple]
  obtain ⟨hown, hone⟩ := hid
  constructor
  · rintro ⟨-, hone'⟩ hkind said hmem
    by_cases hsent : sentCid said = none
    · exact .inl hsent
    · refine .inr (hsent'.mp (hone' c.number fd said _ (connected_mem_closed.mpr hmem)
        (closed_mem_closed.mpr (.inr ⟨rfl, rfl⟩)) hsent) hkind)
  · intro hcond
    refine ⟨fun k fd' said hmem hsent c' hc' => ?_, fun k fd' said said' hmem hmem' hsent => ?_⟩
    · exact hown k fd' said (connected_mem_closed.mp hmem) hsent c' (closed_conns.mp hc').2
    · have hmem := connected_mem_closed.mp hmem
      rcases closed_mem_closed.mp hmem' with hmem' | ⟨rfl, rfl⟩
      · exact hone k fd' said said' hmem hmem' hsent
      · obtain rfl : fd = fd' := h.open_fd c.number fd' said fd c.kind hmem hc
        exact hsent'.mpr fun hkind => (hcond hkind said hmem).resolve_left hsent

end Closed

theorem Moved.others {act : Act} (hmoved : Moved st act st')
    (hconnect : ∀ kind fd uuid, act ≠ .connect kind fd uuid) (hends : ∀ fd c, ¬ act.Ends fd c) :
    st'.conns = st.conns ∧ st'.next = st.next ∧ SameEnds st.log st'.log := by
  have hself : SameEnds st.log st.log := ⟨fun _ _ _ => Iff.rfl, fun _ _ => Iff.rfl⟩
  cases hmoved with
  | idle _ => exact ⟨rfl, rfl, hself⟩
  | opened _ _ => exact absurd rfl (hconnect _ _ _)
  | closed h _ => exact absurd h (hends _ _)
  | bound _ _ _ _ =>
    refine ⟨rfl, rfl, sameEnds_append fun x hx => ?_⟩
    obtain rfl := mem_singleton.mp hx
    exact ⟨nofun, nofun⟩
  | joined _ _ _ _ =>
    refine ⟨rfl, rfl, sameEnds_append fun x hx => ?_⟩
    obtain ⟨gid, -, rfl⟩ := mem_map.mp hx
    exact ⟨nofun, nofun⟩
  | commanded _ _ => exact ⟨rfl, rfl, hself⟩
  | relayed _ => exact ⟨rfl, rfl, hself⟩

theorem Recorded.moved (h : Recorded st) {act : Act} (hmoved : Moved st act st') :
    Recorded st' := by
  have hsteady := h.steady.moved hmoved
  have hothers := hmoved.others
  have hconfig := hmoved.config
  cases hmoved with
  | idle _ => exact h
  | opened _ hlt => exact h.opened hsteady hlt
  | closed _ hc => exact h.closed hc
  | bound _ _ _ _ | joined _ _ _ _ | commanded _ _ | relayed _ =>
    obtain ⟨hconns, hnext, hlog⟩ := hothers nofun (by
      rintro fd c (hends | ⟨hends, -⟩) <;> cases hends)
    exact h.congr hsteady hconns hnext hconfig.1 hconfig.2 hlog

theorem identified_step_iff (h : Recorded st) (hid : Identified st) {act : Act}
    (hmoved : Moved st act st') : Identified st' ↔ IdentityKept st act := by
  have h' := h.moved hmoved
  have hothers := hmoved.others
  cases hmoved with
  | idle hidle => exact iff_of_true hid (Act.keeps_of_not_live hidle)
  | opened hfree hlt =>
    rw [identified_opened_iff h hid h']
    symm
    exact Act.keeps_connect hfree
  | closed hends hc =>
    rw [identified_closed_iff h hid hc]
    symm
    exact Act.keeps_ends hends hc
  | bound _ _ _ _ | joined _ _ _ _ | commanded _ _ | relayed _ =>
    obtain ⟨hconns, -, hlog⟩ := hothers nofun (by
      rintro fd c (hends | ⟨hends, -⟩) <;> cases hends)
    refine iff_of_true (h.identified_congr h' hconns hlog hid) (Act.keeps_of_other nofun ?_)
    rintro fd c (hends | ⟨hends, -⟩) <;> cases hends

--
-- Runs
--

theorem Recorded.start {host : Bytes} {port : Nat} (hhost : HostOk host port) :
    Recorded (Sys.start host port) :=
  ⟨Steady.start host port, hhost, nofun, nofun, nofun⟩

theorem Identified.start (host : Bytes) (port : Nat) : Identified (Sys.start host port) :=
  ⟨nofun, nofun⟩

/-- **A cid stands for its connection** throughout a run if and only if no
descriptor of a connection whose cid was sent is given away again, and no client
whose cid was sent ends while there is a status gateway. -/
theorem identified_iff {host : Bytes} {port : Nat} (hhost : HostOk host port) {l : List Act}
    (hrun : run step (Sys.start host port) l = .ok st') :
    Throughout step Identified (Sys.start host port) l ↔
      Along step IdentityKept (Sys.start host port) l :=
  Lib.throughout_iff_along (I := Recorded) (D := fun _ _ => True)
    (fun _ _ _ hs _ hstep => hs.moved (step_cases hs.steady hstep))
    (fun _ _ _ hs hid _ hstep => identified_step_iff hs hid (step_cases hs.steady hstep))
    (Recorded.start hhost) (Identified.start host port) (Along.of_forall fun _ _ _ => trivial) hrun

/-- Other uuids, for runs on fixed inputs. -/
def otherUuid (b : UInt8) (hbar : b ≠ bar) (hzero : b ≠ 0) : Uuid where
  text := List.replicate 36 b
  length_eq := length_replicate
  noBar hmem := hbar (eq_of_mem_replicate hmem).symm
  noZero hmem := hzero (eq_of_mem_replicate hmem).symm

/-- A status gateway and a client; the gateway ends before the client does. -/
def statusLeaves : List Act :=
  [.connect .status 4 sampleUuid, .connect .client 5 (otherUuid 98 (by decide) (by decide)),
    .disconnect 4, .disconnect 5]

theorem identified_statusLeaves :
    ∃ st, run step (Sys.start sampleHost 80) statusLeaves = .ok st ∧
      (Throughout step Identified (Sys.start sampleHost 80) statusLeaves ↔
        Along step IdentityKept (Sys.start sampleHost 80) statusLeaves) := by
  have hok : (run step (Sys.start sampleHost 80) statusLeaves).isOk = true := by decide +kernel
  cases hrun : run step (Sys.start sampleHost 80) statusLeaves with
  | error e =>
    rw [hrun] at hok
    cases hok
  | ok st => exact ⟨st, rfl, identified_iff sampleHost_ok hrun⟩

/-- With a status gateway, a client ends and another one gets its descriptor. -/
def fdReused : List Act :=
  [.connect .status 4 sampleUuid, .connect .client 5 (otherUuid 98 (by decide) (by decide)),
    .disconnect 5, .connect .client 5 (otherUuid 99 (by decide) (by decide))]

/-- The cid that was sent for the first client. -/
def firstCid : Bytes := cidText (List.replicate 36 98) sampleHost 80 5

/-- A message that names the first client reaches the second, and the closed
message of the first has another cid than its connected one. -/
theorem cid_reused :
    ∃ st, run step (Sys.start sampleHost 80) fdReused = .ok st ∧
      .connected 1 5 [(4, [ascii "status", ascii "connected", firstCid])] ∈ st.log ∧
      .closed 1 [(4, [ascii "status", ascii "closed", cidText [] sampleHost 80 5])] ∈ st.log ∧
      (dispatchStream st.exc (cidMessage firstCid [])).map (reached st.conns) = .ok [(2, [])] ∧
      ¬ Identified st := by
  have hstate : (run step (Sys.start sampleHost 80) fdReused).toOption.map (fun st =>
      (decide (.connected 1 5 [(4, [ascii "status", ascii "connected", firstCid])] ∈ st.log),
        decide (.closed 1 [(4, [ascii "status", ascii "closed", cidText [] sampleHost 80 5])] ∈
          st.log),
        decide ((dispatchStream st.exc (cidMessage firstCid [])).toOption.map
          (reached st.conns) = some [(2, [])]))) =
      some (true, true, true) := by decide +kernel
  cases hrun : run step (Sys.start sampleHost 80) fdReused with
  | error e =>
    rw [hrun] at hstate
    cases hstate
  | ok st =>
    rw [hrun] at hstate
    have heq := Option.some.inj hstate
    rw [Prod.mk.injEq, Prod.mk.injEq, decide_eq_true_eq, decide_eq_true_eq,
      decide_eq_true_eq] at heq
    obtain ⟨hconnected, hclosed, hreached⟩ := heq
    refine ⟨st, rfl, hconnected, hclosed, ?_, fun hid => ?_⟩
    · cases hsaid : dispatchStream st.exc (cidMessage firstCid []) with
      | error e =>
        rw [hsaid] at hreached
        cases hreached
      | ok said =>
        rw [hsaid] at hreached
        exact congrArg Except.ok (Option.some.inj hreached)
    · have hsame := hid.closed 1 5 _ _ _ _ hconnected hclosed rfl rfl
      exact absurd hsame (by decide)

end Supex.Imx
