import Supex.Lib.Relation
import Supex.Imx.Users

/-!
# IMX exchange — groups

`GID_CID` gives the descriptors in a group and `CID_GID` the groups of a
descriptor. A `gidmap` command adds to both, and a client that ends is taken from
both, group by group of a snapshot of `CID_GID`.

* `gidMapLoop_intercalate` — the loop adds to each group of the frame.

Main result: `grouped_reachable`.
-/

namespace Supex.Imx

open List

open Lib (run Along Represents)
open Tsdb (fmtInt atoi)

variable {st st' : Sys} {exc exc' : Exchange}

--
-- Groups
--

/-- A group: a string of 1 to 127 bytes without commas and spaces. -/
structure GidOk (gid : Bytes) : Prop where
  ne_nil : gid ≠ []
  short : gid.length < MAX_GID_SIZE
  noComma : comma ∉ gid
  noSpace : space ∉ gid
  noZero : (0 : UInt8) ∉ gid

/-- The descriptor is that of an open client which has joined the group. -/
def Member (st : Sys) (gid cid : Bytes) : Prop :=
  ∃ fd k : Nat, cid = fmtInt fd ∧ st.conns fd = some ⟨k, .client⟩ ∧ .joined k gid ∈ st.log

/-- A message for a group is delivered once to each open client that has joined
it, and to nobody else. -/
def GroupServed (st : Sys) (gid : Bytes) : Prop :=
  ∀ payload, ∃ said, dispatchStream st.exc (gidMessage gid payload) = .ok said ∧
    (reached st.conns said).Nodup ∧
    ∀ k p, (k, p) ∈ reached st.conns said ↔ p = payload ∧ st.Open k ∧ .joined k gid ∈ st.log

/-- Joins, binds, connects, ends, and messages that are no commands; groups and
users are such. -/
def OfGroups (st : Sys) (act : Act) : Prop :=
  act.Plain st ∧ (∀ via fd uid, act = .uidmap via fd uid → UidOk uid) ∧
    ∀ via fd gids, act = .gidmap via fd gids → gids ≠ [] ∧ ∀ gid ∈ gids, GidOk gid

theorem kvSadd_eq {m : Bytes → List Bytes} {key member : Bytes} (hkey : space ∉ key)
    (hmember : space ∉ member) (hne : member ≠ []) :
    kvSadd m key member = Lib.insertAt m key member := by
  unfold kvSadd
  rw [if_neg (by rintro (h | h | h) <;> contradiction)]
  rfl

theorem kvSrem_eq {m : Bytes → List Bytes} {key member : Bytes} (hkey : space ∉ key)
    (hmember : space ∉ member) (hne : member ≠ []) :
    kvSrem m key member = Lib.eraseAt m key member := by
  unfold kvSrem
  rw [if_neg (by rintro (h | h | h) <;> contradiction)]
  rfl

--
-- Joining
--

/-- The globals with one more member of a group. -/
def Exchange.join (exc : Exchange) (cid gid : Bytes) : Exchange :=
  { exc with gidCid := Lib.insertAt exc.gidCid gid cid, cidGid := Lib.insertAt exc.cidGid cid gid }

theorem gidMapLoop_append {cid : Bytes} (gid pre rest : Bytes) (hcomma : comma ∉ gid)
    (hlen : pre.length + gid.length ≤ MAX_GID_SIZE) :
    gidMapLoop cid exc pre (gid ++ rest) = gidMapLoop cid exc (pre ++ gid) rest := by
  induction gid generalizing pre with
  | nil => rw [nil_append, append_nil]
  | cons b gid ih =>
    rw [length_cons] at hlen
    rw [mem_cons, not_or] at hcomma
    rw [cons_append, gidMapLoop, if_neg (Ne.symm hcomma.1), if_neg (by omega),
      ih (pre ++ [b]) hcomma.2 (by rw [length_append, length_singleton]; omega),
      append_assoc, singleton_append]

/-- The globals with what `sadd` makes of the group. -/
def Exchange.added (cid : Bytes) (exc : Exchange) (gid : Bytes) : Exchange :=
  { exc with
    gidCid := kvSadd exc.gidCid (cstr gid) cid
    cidGid := kvSadd exc.cidGid cid (cstr gid) }

variable {gid : Bytes} {r : Bytes → Bytes → Prop}

theorem addGid_of_short {cid : Bytes} (h : gid.length < MAX_GID_SIZE) :
    addGid exc cid gid = .ok (exc.added cid gid) :=
  if_neg fun hlong => Nat.not_le.mpr h hlong.1

theorem gidMapLoop_pieces (cid : Bytes) {gids : List Bytes} (hne : gids ≠ [])
    (hgids : ∀ gid ∈ gids, comma ∉ gid ∧ gid.length < MAX_GID_SIZE) :
    gidMapLoop cid exc [] ([comma].intercalate gids) = .ok (gids.foldl (·.added cid) exc) := by
  induction gids generalizing exc with
  | nil => exact absurd rfl hne
  | cons gid gids ih =>
    obtain ⟨hcomma, hshort⟩ := hgids gid (.head _)
    have hlen : ([] : Bytes).length + gid.length ≤ MAX_GID_SIZE := by
      rw [length_nil]
      omega
    cases gids with
    | nil =>
      have hframe : [comma].intercalate [gid] = gid ++ [] := by
        rw [append_nil, intercalate_singleton]
      rw [hframe, gidMapLoop_append gid [] [] hcomma hlen, nil_append, gidMapLoop,
        addGid_of_short hshort]
      rfl
    | cons gid' gids =>
      have hframe : [comma].intercalate (gid :: gid' :: gids) =
          gid ++ comma :: [comma].intercalate (gid' :: gids) := by
        rw [intercalate_cons_cons, append_assoc, singleton_append]
      rw [hframe, gidMapLoop_append gid [] _ hcomma hlen, nil_append, gidMapLoop,
        if_pos rfl, addGid_of_short hshort]
      exact ih (cons_ne_nil _ _) fun g hg => hgids g (.tail _ hg)

theorem GidOk.added (hgid : GidOk gid) (fd : Nat) (exc : Exchange) :
    exc.added (fmtInt fd) gid = exc.join (fmtInt fd) gid := by
  unfold Exchange.added
  rw [cstr_of_noZero hgid.noZero,
    kvSadd_eq hgid.noSpace (space_notMem_fmtInt fd) (fmtInt_ne_nil fd),
    kvSadd_eq (space_notMem_fmtInt fd) hgid.noSpace hgid.ne_nil]
  rfl

theorem gidMapLoop_intercalate (fd : Nat) {gids : List Bytes} (hne : gids ≠ [])
    (hgids : ∀ gid ∈ gids, GidOk gid) :
    gidMapLoop (fmtInt fd) exc [] ([comma].intercalate gids) =
      .ok (gids.foldl (fun exc gid => exc.join (fmtInt fd) gid) exc) := by
  rw [gidMapLoop_pieces (fmtInt fd) hne fun gid hgid => ⟨(hgids gid hgid).noComma,
    (hgids gid hgid).short⟩]
  congr 1
  refine foldl_ext _ _ _ fun exc gid hgid => (hgids gid hgid).added fd exc

--
-- The two maps
--

/-- Both maps are the relation. -/
def BothWays (r : Bytes → Bytes → Prop) (exc : Exchange) : Prop :=
  Represents r exc.gidCid ∧ Represents (fun cid gid => r gid cid) exc.cidGid

theorem BothWays.congr {r' : Bytes → Bytes → Prop} (h : BothWays r exc)
    (hr : ∀ gid cid, r gid cid ↔ r' gid cid) : BothWays r' exc :=
  ⟨h.1.congr hr, h.2.congr fun cid gid => hr gid cid⟩

theorem BothWays.join (h : BothWays r exc) (cid gid : Bytes) :
    BothWays (fun gid' cid' => r gid' cid' ∨ gid' = gid ∧ cid' = cid) (exc.join cid gid) :=
  ⟨h.1.insertAt, h.2.insertAt.congr fun _ _ => or_congr_right and_comm⟩

theorem BothWays.joins (h : BothWays r exc) (cid : Bytes) (gids : List Bytes) :
    BothWays (fun gid' cid' => r gid' cid' ∨ gid' ∈ gids ∧ cid' = cid)
      (gids.foldl (fun exc gid => exc.join cid gid) exc) := by
  induction gids generalizing exc r with
  | nil => exact h.congr fun gid' cid' => by simp
  | cons gid gids ih =>
    refine (ih (h.join cid gid)).congr fun gid' cid' => ?_
    rw [mem_cons, or_assoc, or_and_right]

theorem cstr_take_gid (hgid : GidOk gid) : cstr (gid.take MAX_GID_SIZE) = gid := by
  rw [take_of_length_le hgid.short.le, cstr_of_noZero hgid.noZero]

theorem BothWays.eachGidFcb (h : BothWays r exc) (fd : Nat) (hgid : GidOk gid) :
    BothWays (fun gid' cid' => r gid' cid' ∧ ¬ (gid' = gid ∧ cid' = fmtInt fd))
      (eachGidFcb (fmtInt fd) exc gid) := by
  unfold Imx.eachGidFcb
  dsimp only
  rw [cstr_take_gid hgid,
    kvSrem_eq (space_notMem_fmtInt fd) hgid.noSpace hgid.ne_nil,
    kvSrem_eq hgid.noSpace (space_notMem_fmtInt fd) (fmtInt_ne_nil fd)]
  exact ⟨h.1.eraseAt, h.2.eraseAt.congr fun _ _ => and_congr_right fun _ => not_congr and_comm⟩

theorem BothWays.eachGids (h : BothWays r exc) (fd : Nat) {gids : List Bytes}
    (hgids : ∀ gid ∈ gids, GidOk gid) :
    BothWays (fun gid' cid' => r gid' cid' ∧ ¬ (gid' ∈ gids ∧ cid' = fmtInt fd))
      (gids.foldl (Imx.eachGidFcb (fmtInt fd)) exc) := by
  induction gids generalizing exc r with
  | nil => exact h.congr fun gid' cid' => by simp
  | cons gid gids ih =>
    have hhead := h.eachGidFcb fd (hgids gid (.head _))
    refine (ih hhead fun g hg => hgids g (.tail _ hg)).congr fun gid' cid' => ?_
    rw [mem_cons, and_assoc, or_and_right, not_or]

theorem BothWays.eraseClient (h : BothWays r exc) (hr : ∀ gid cid, r gid cid → GidOk gid)
    (fd : Nat) : BothWays (fun gid cid => r gid cid ∧ cid ≠ fmtInt fd) (eraseClient exc fd) := by
  have hmem : ∀ gid, gid ∈ kvGet exc.cidGid [] (fmtInt fd) ↔ r gid (fmtInt fd) := by
    intro gid
    unfold kvGet
    rw [if_neg (space_notMem_fmtInt fd)]
    exact h.2.mem (fmtInt fd) gid
  have h' : BothWays r { exc with
      uidCid := kvDel exc.uidCid (erasedUid exc fd), cidUid := kvDel exc.cidUid (fmtInt fd) } := h
  refine (h'.eachGids fd fun gid hgid => hr gid _ ((hmem gid).mp hgid)).congr fun gid cid => ?_
  refine and_congr_right fun hgid => not_congr ?_
  rw [hmem gid]
  exact ⟨fun hand => hand.2, fun heq => ⟨heq ▸ hgid, heq⟩⟩

--
-- Steps
--

/-- Both maps are the open clients and the groups they have joined. -/
structure Grouped (st : Sys) : Prop where
  steady : Steady st
  host : HostOk st.exc.host st.exc.port
  both : BothWays (Member st) st.exc
  gids : ∀ k gid, .joined k gid ∈ st.log → GidOk gid ∧ k < st.next
  clients : ∀ k gid, .joined k gid ∈ st.log → ∀ fd kind, st.conns fd = some ⟨k, kind⟩ →
    kind = .client

theorem Grouped.member_ok (h : Grouped st) {cid : Bytes} (hmember : Member st gid cid) :
    GidOk gid := by
  obtain ⟨fd, k, -, -, hjoined⟩ := hmember
  exact (h.gids k gid hjoined).1

theorem joined_mem_concat {k : Nat} {log : List Happened} {x : Happened}
    (hx : ∀ k gid, x ≠ .joined k gid) : .joined k gid ∈ log ++ [x] ↔ .joined k gid ∈ log := by
  rw [mem_append, mem_singleton]
  exact or_iff_left (Ne.symm (hx k gid))

theorem Grouped.opened (h : Grouped st) {kind : RouterType} {fd : Nat} {uuid : Uuid}
    (hfree : st.conns fd = none) (hsteady : Steady (st.opened kind fd uuid)) :
    Grouped (st.opened kind fd uuid) := by
  have hlog : ∀ k gid, .joined k gid ∈ (st.opened kind fd uuid).log ↔ .joined k gid ∈ st.log :=
    fun k gid => joined_mem_concat nofun
  have hmaps : (st.opened kind fd uuid).exc.gidCid = st.exc.gidCid ∧
      (st.opened kind fd uuid).exc.cidGid = st.exc.cidGid :=
    ⟨Exchange.opened_gidCid .., Exchange.opened_cidGid ..⟩
  refine ⟨hsteady, ?_, ?_, ?_, ?_⟩
  · show HostOk (st.exc.opened kind fd uuid.text).host (st.exc.opened kind fd uuid.text).port
    rw [Exchange.opened_host, Exchange.opened_port]
    exact h.host
  · unfold BothWays
    rw [hmaps.1, hmaps.2]
    refine BothWays.congr h.both fun gid cid => ?_
    refine exists_congr fun fd' => exists_congr fun k => and_congr_right fun _ => ?_
    rw [hlog]
    refine and_congr_left fun hjoined => ?_
    -- the new connection has joined nothing
    rw [opened_conns]
    constructor
    · intro hc
      have hne : fd' ≠ fd := by
        rintro rfl
        rw [hfree] at hc
        cases hc
      exact .inr ⟨hne, hc⟩
    · rintro (⟨-, heq⟩ | ⟨-, hc⟩)
      · have hk : k = st.next := (Conn.mk.inj heq).1
        exact absurd (h.gids k gid hjoined).2 (hk ▸ Nat.lt_irrefl _)
      · exact hc
  · intro k gid hjoined
    obtain ⟨hgid, hk⟩ := h.gids k gid ((hlog k gid).mp hjoined)
    exact ⟨hgid, Nat.lt_succ_of_lt hk⟩
  · intro k gid hjoined fd' kind' hc
    have hjoined := (hlog k gid).mp hjoined
    rcases opened_conns.mp hc with ⟨-, heq⟩ | ⟨-, hc⟩
    · have hk : k = st.next := (Conn.mk.inj heq).1
      exact absurd (h.gids k gid hjoined).2 (hk ▸ Nat.lt_irrefl _)
    · exact h.clients k gid hjoined fd' kind' hc

theorem Grouped.closed (h : Grouped st) {fd : Nat} {c : Conn} (hc : st.conns fd = some c) :
    Grouped (st.closed fd c) := by
  have hlog : ∀ k gid, .joined k gid ∈ (st.closed fd c).log ↔ .joined k gid ∈ st.log :=
    fun k gid => joined_mem_concat nofun
  obtain ⟨hhost, hport, -⟩ := Exchange.closed_frame st.exc c.kind fd
  have hmember : ∀ gid cid, Member (st.closed fd c) gid cid ↔
      Member st gid cid ∧ cid ≠ fmtInt fd := by
    intro gid cid
    constructor
    · rintro ⟨fd', k, rfl, hc', hjoined⟩
      obtain ⟨hne, hc'⟩ := closed_conns.mp hc'
      refine ⟨⟨fd', k, rfl, hc', (hlog k gid).mp hjoined⟩, fun heq => hne ?_⟩
      exact fmtInt_inj (h.steady.fd_lt _ _ hc') (h.steady.fd_lt _ _ hc) heq
    · rintro ⟨⟨fd', k, rfl, hc', hjoined⟩, hne⟩
      refine ⟨fd', k, rfl, closed_conns.mpr ⟨fun heq => hne (by rw [heq]), hc'⟩, ?_⟩
      exact (hlog k gid).mpr hjoined
  have hboth : BothWays (Member (st.closed fd c)) (st.exc.closed c.kind fd) := by
    by_cases hkind : c.kind = .client
    · rw [hkind, Exchange.closed_client]
      refine BothWays.congr (BothWays.eraseClient (r := Member st) ?_
        (fun gid cid => h.member_ok) fd)
        fun gid cid => (hmember gid cid).symm
      exact h.both
    · have hmaps : (st.exc.closed c.kind fd).gidCid = st.exc.gidCid ∧
          (st.exc.closed c.kind fd).cidGid = st.exc.cidGid := by
        rw [Exchange.closed_gateway st.exc fd hkind]
        split <;> exact ⟨rfl, rfl⟩
      unfold BothWays
      rw [hmaps.1, hmaps.2]
      refine BothWays.congr h.both fun gid cid => ?_
      rw [hmember]
      -- a gateway is in no group
      refine (and_iff_left_of_imp ?_).symm
      rintro ⟨fd', k, rfl, hc', -⟩ heq
      obtain rfl := fmtInt_inj (h.steady.fd_lt _ _ hc') (h.steady.fd_lt _ _ hc) heq
      rw [hc, Option.some.injEq] at hc'
      exact hkind (by rw [hc'])
  refine ⟨h.steady.closed fd c, ?_, hboth, ?_, ?_⟩
  · show HostOk (st.exc.closed c.kind fd).host (st.exc.closed c.kind fd).port
    rw [hhost, hport]
    exact h.host
  · exact fun k gid hjoined => h.gids k gid ((hlog k gid).mp hjoined)
  · intro k gid hjoined fd' kind hc'
    exact h.clients k gid ((hlog k gid).mp hjoined) fd' kind (closed_conns.mp hc').2

theorem Grouped.joins (h : Grouped st) {fd k : Nat} {gids : List Bytes}
    (hgids : ∀ gid ∈ gids, GidOk gid) (hc : st.conns fd = some ⟨k, .client⟩)
    (hexc : exc = gids.foldl (fun exc gid => exc.join (fmtInt fd) gid) st.exc)
    (hhost : HostOk exc.host exc.port)
    (hsteady : Steady { st with exc := exc, log := st.log ++ gids.map (.joined k) }) :
    Grouped { st with exc := exc, log := st.log ++ gids.map (.joined k) } := by
  have hlog : ∀ k' gid, Happened.joined k' gid ∈ st.log ++ gids.map (.joined k) ↔
      .joined k' gid ∈ st.log ∨ k' = k ∧ gid ∈ gids := by
    intro k' gid
    rw [mem_append, mem_map]
    refine or_congr_right ⟨?_, ?_⟩
    · rintro ⟨gid', hgid', heq⟩
      cases heq
      exact ⟨rfl, hgid'⟩
    · rintro ⟨rfl, hgid⟩
      exact ⟨gid, hgid, rfl⟩
  refine ⟨hsteady, hhost, ?_, ?_, ?_⟩
  · rw [hexc]
    refine (h.both.joins (fmtInt fd) gids).congr fun gid cid => ?_
    constructor
    · rintro (⟨fd', k', rfl, hc', hjoined⟩ | ⟨hgid, rfl⟩)
      · exact ⟨fd', k', rfl, hc', (hlog k' gid).mpr (.inl hjoined)⟩
      · exact ⟨fd, k, rfl, hc, (hlog k gid).mpr (.inr ⟨rfl, hgid⟩)⟩
    · rintro ⟨fd', k', rfl, hc', hjoined⟩
      rcases (hlog k' gid).mp hjoined with hjoined | ⟨rfl, hgid⟩
      · exact .inl ⟨fd', k', rfl, hc', hjoined⟩
      · exact .inr ⟨hgid, by rw [h.steady.number_inj fd' fd _ _ hc' hc rfl]⟩
  · intro k' gid hjoined
    rcases (hlog k' gid).mp hjoined with hjoined | ⟨rfl, hgid⟩
    · exact h.gids k' gid hjoined
    · exact ⟨hgids gid hgid, h.steady.number_lt fd _ hc⟩
  · intro k' gid hjoined fd' kind hc'
    rcases (hlog k' gid).mp hjoined with hjoined | ⟨rfl, -⟩
    · exact h.clients k' gid hjoined fd' kind hc'
    · obtain rfl := h.steady.number_inj fd' fd _ _ hc' hc rfl
      rw [hc, Option.some.injEq, Conn.mk.injEq] at hc'
      exact hc'.2.symm

theorem Grouped.moved (h : Grouped st) {act : Act} (hact : OfGroups st act)
    (hmoved : Moved st act st') : Grouped st' := by
  have hsteady := h.steady.moved hmoved
  have hhost : HostOk st'.exc.host st'.exc.port := by
    rw [hmoved.config.1, hmoved.config.2]
    exact h.host
  cases hmoved with
  | idle _ => exact h
  | opened hfree _ => exact h.opened hfree hsteady
  | closed _ hc => exact h.closed hc
  | @bound via fd k uid cid exc hc hcid hcmd _ =>
    have huid := hact.2.1 via fd uid rfl
    obtain rfl := bound_exc h.steady h.host hc hcid huid.short huid.noZero hcmd
    have hlog : ∀ k' gid, .joined k' gid ∈ st.log ++ [Happened.bound k uid] ↔
        .joined k' gid ∈ st.log := fun k' gid => joined_mem_concat nofun
    refine ⟨hsteady, hhost, BothWays.congr h.both fun gid cid' => ?_, ?_, ?_⟩
    · exact exists_congr fun fd' => exists_congr fun k' => and_congr_right fun _ =>
        and_congr_right fun _ => (hlog k' gid).symm
    · exact fun k' gid hjoined => h.gids k' gid ((hlog k' gid).mp hjoined)
    · exact fun k' gid hjoined => h.clients k' gid ((hlog k' gid).mp hjoined)
  | @joined via fd k gids cid exc hc hcid hcmd _ =>
    obtain ⟨hne, hgids⟩ := hact.2.2 via fd gids rfl
    have hloop := joined_exc h.steady h.host hc hcid hcmd
    rw [gidMapLoop_intercalate fd hne hgids, Except.ok.injEq] at hloop
    exact h.joins hgids hc hloop.symm hhost hsteady
  | commanded hvia _ => exact absurd rfl (hact.1 _ _ rfl _ hvia)
  | relayed said => exact ⟨hsteady, h.host, h.both, h.gids, h.clients⟩

theorem Grouped.served (h : Grouped st) (hgid : GidOk gid) : GroupServed st gid := by
  intro payload
  refine ⟨_, dispatchStream_gid hgid.short hgid.noZero payload, ?_⟩
  have hget : kvGet st.exc.gidCid [] gid = st.exc.gidCid gid := if_neg hgid.noSpace
  -- every descriptor of the group is copied and read back
  have hreach : ∀ cid ∈ st.exc.gidCid gid, ∃ fd k : Nat, cid = fmtInt fd ∧
      st.conns fd = some ⟨k, .client⟩ ∧ .joined k gid ∈ st.log ∧
      (connAt st.conns (atoi (cstr (cid.take MAX_CID_SIZE)))).map
        (fun c => (c.number, payload)) = some (k, payload) := by
    intro cid hcid
    obtain ⟨fd, k, rfl, hc, hjoined⟩ := (h.both.1.mem gid cid).mp hcid
    refine ⟨fd, k, rfl, hc, hjoined, ?_⟩
    have hlen : (fmtU64 fd).length ≤ 20 := decDigits_length_le 20 fd
    have hmax : MAX_CID_SIZE = 128 := rfl
    have hcopy : cstr ((fmtInt fd).take MAX_CID_SIZE) = fmtInt fd := by
      rw [fmtInt_natCast, take_of_length_le (by omega),
        cstr_of_noZero (notMem_fmtU64 (by decide) fd)]
    rw [hcopy, atoi_fmtInt (h.steady.fd_lt fd _ hc), connAt_natCast, hc]
    rfl
  rw [hget]
  unfold reached
  rw [filterMap_map]
  refine ⟨?_, ?_⟩
  · refine pairwise_filterMap.mpr ((h.both.1.nodup gid).imp_of_mem ?_)
    intro cid cid' hcid hcid' hne x hx x' hx' heq
    obtain ⟨fd, k, rfl, hc, -, hsome⟩ := hreach cid hcid
    obtain ⟨fd', k', rfl, hc', -, hsome'⟩ := hreach cid' hcid'
    have hx := hsome.symm.trans hx
    have hx' := hsome'.symm.trans hx'
    rw [← heq, ← hx, Option.some.injEq, Prod.mk.injEq] at hx'
    exact hne (by rw [h.steady.number_inj fd fd' _ _ hc hc' hx'.1.symm])
  · intro k p
    rw [mem_filterMap]
    constructor
    · rintro ⟨cid, hcid, hsome⟩
      obtain ⟨fd, k', rfl, hc, hjoined, hsome'⟩ := hreach cid hcid
      have heq := hsome'.symm.trans hsome
      rw [Option.some.injEq, Prod.mk.injEq] at heq
      obtain ⟨rfl, rfl⟩ := heq
      exact ⟨rfl, ⟨fd, .client, hc⟩, hjoined⟩
    · rintro ⟨rfl, ⟨fd, kind, hc⟩, hjoined⟩
      obtain rfl := h.clients k gid hjoined fd kind hc
      have hmem : fmtInt fd ∈ st.exc.gidCid gid :=
        (h.both.1.mem gid _).mpr ⟨fd, k, rfl, hc, hjoined⟩
      obtain ⟨fd', k', heq, hc', -, hsome⟩ := hreach _ hmem
      obtain rfl := fmtInt_inj (h.steady.fd_lt _ _ hc) (h.steady.fd_lt _ _ hc') heq
      rw [hc, Option.some.injEq, Conn.mk.injEq] at hc'
      obtain ⟨rfl, -⟩ := hc'
      exact ⟨fmtInt fd, hmem, hsome⟩

--
-- Runs
--

theorem Grouped.start {host : Bytes} {port : Nat} (hhost : HostOk host port) :
    Grouped (Sys.start host port) := by
  refine ⟨Steady.start host port, hhost, ⟨⟨?_, ?_⟩, ⟨?_, ?_⟩⟩, nofun, nofun⟩
  · exact fun _ => nodup_nil
  · exact fun gid cid => iff_of_false not_mem_nil fun ⟨fd, k, _, hc, _⟩ => nomatch hc
  · exact fun _ => nodup_nil
  · exact fun cid gid => iff_of_false not_mem_nil fun ⟨fd, k, _, hc, _⟩ => nomatch hc

/-- **Groups.** In every state of every run the two maps agree, only open clients
that have joined a group are in it, and a message for a group is delivered once
to each of them. -/
theorem grouped_reachable {host : Bytes} {port : Nat} (hhost : HostOk host port) {l : List Act}
    (hl : Along step OfGroups (Sys.start host port) l)
    (hrun : run step (Sys.start host port) l = .ok st) :
    (∀ gid cid, cid ∈ st.exc.gidCid gid ↔ gid ∈ st.exc.cidGid cid) ∧
      (∀ gid cid, cid ∈ st.exc.gidCid gid ↔ Member st gid cid) ∧
      ∀ gid, GidOk gid → GroupServed st gid := by
  have h : Grouped st := Lib.run_inv_along
    (fun _ _ _ hs hact hstep => hs.moved hact (step_cases hs.steady hstep))
    (Grouped.start hhost) hl hrun
  refine ⟨fun gid cid => ?_, fun gid cid => h.both.1.mem gid cid, fun gid => h.served⟩
  exact (h.both.1.mem gid cid).trans (h.both.2.mem cid gid).symm

def sampleGid : Bytes := ascii "g"

theorem sampleGid_ok : GidOk sampleGid :=
  ⟨by decide, by decide, by decide, by decide, by decide⟩

/-- Two clients join a group; one ends, and the next client gets its descriptor. -/
def groupLeft : List Act :=
  [.connect .manage 4 sampleUuid, .connect .client 5 sampleUuid, .connect .client 6 sampleUuid,
    .gidmap 4 5 [sampleGid], .gidmap 4 6 [sampleGid], .disconnect 5,
    .connect .client 5 sampleUuid]

theorem grouped_groupLeft :
    ∃ st, run step (Sys.start sampleHost 80) groupLeft = .ok st ∧
      (∀ gid cid, cid ∈ st.exc.gidCid gid ↔ gid ∈ st.exc.cidGid cid) ∧
      (∀ gid cid, cid ∈ st.exc.gidCid gid ↔ Member st gid cid) ∧
      ∀ gid, GidOk gid → GroupServed st gid := by
  have hok : (run step (Sys.start sampleHost 80) groupLeft).isOk = true := by decide +kernel
  have hl : Along step OfGroups (Sys.start sampleHost 80) groupLeft := by
    refine Along.of_forall fun act hact st => ⟨?_, ?_, ?_⟩
    · rintro via frames rfl
      simp [groupLeft] at hact
    · rintro via fd uid rfl
      simp [groupLeft] at hact
    · rintro via fd gids rfl
      have hgids : gids = [sampleGid] := by
        simp only [groupLeft, mem_cons, Act.gidmap.injEq, reduceCtorEq, not_mem_nil,
          false_or, or_false] at hact
        rcases hact with ⟨-, -, h⟩ | ⟨-, -, h⟩ <;> exact h
      rw [hgids]
      refine ⟨cons_ne_nil _ _, fun gid hgid => ?_⟩
      rw [mem_singleton] at hgid
      exact hgid ▸ sampleGid_ok
  cases hrun : run step (Sys.start sampleHost 80) groupLeft with
  | error e =>
    rw [hrun] at hok
    cases hok
  | ok st => exact ⟨st, rfl, grouped_reachable sampleHost_ok hl hrun⟩

end Supex.Imx
