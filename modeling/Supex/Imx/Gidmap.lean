import Supex.Lib.Delimited
import Supex.Imx.Groups
import Mathlib.Data.List.TakeWhile

/-!
# IMX exchange — the frame of a gidmap command

`_handle_gid_map` cuts its frame at the commas, into an array of `MAX_GID_SIZE` bytes
whose index is not checked, and adds the client to whatever it has cut.

Main result: `gidmap_iff`.
-/

namespace Supex.Imx

open List

open Lib (run bind_eq_ok)
open Tsdb (fmtInt)

variable {st st' : Sys} {exc exc' : Exchange}

--
-- The rule
--

/-- `gid_index` at each comma and at the end: the bytes written to `gid`. -/
def gidWritten : Nat → Bytes → List Nat
  | index, [] => [index]
  | index, b :: rest =>
    if b = comma then index :: gidWritten 0 rest else gidWritten (index + 1) rest

/-- The array has room for what is written and a NUL, and the client is afterwards in the
groups it was in and in the non-empty ones of the frame. -/
def JoinsPieces (exc : Exchange) (cid : Bytes) (fd : Nat) (frame : Bytes) : Prop :=
  ∃ exc', dispatchManage exc (gidmapCommand cid frame) = .ok (exc', none) ∧
    (∀ n ∈ gidWritten 0 frame, n ≤ MAX_GID_SIZE - 1) ∧
    (∀ gid, gid ∈ exc'.cidGid (fmtInt fd) ↔
      gid ∈ exc.cidGid (fmtInt fd) ∨ gid ∈ frame.splitOn comma ∧ gid ≠ []) ∧
    ∀ gid, fmtInt fd ∈ exc'.gidCid gid ↔
      fmtInt fd ∈ exc.gidCid gid ∨ gid ∈ frame.splitOn comma ∧ gid ≠ []

/-- Every piece fits and is a name, and an empty one is a group the client is in. -/
def NamesFit (exc : Exchange) (fd : Nat) (frame : Bytes) : Prop :=
  (∀ gid ∈ frame.splitOn comma, gid.length < MAX_GID_SIZE ∧ (0 : UInt8) ∉ gid ∧ space ∉ gid) ∧
    ([] ∈ frame.splitOn comma → fmtInt fd ∈ exc.gidCid [])

--
-- The groups in the maps
--

/-- What `sadd` has put into the maps. -/
structure NamesOk (exc : Exchange) : Prop where
  groups : ∀ cid gid, gid ∈ exc.cidGid cid → gid ≠ [] ∧ (0 : UInt8) ∉ gid ∧ space ∉ gid
  keys : ∀ gid cid, cid ∈ exc.gidCid gid → (0 : UInt8) ∉ gid ∧ space ∉ gid

theorem mem_kvSadd {m : Bytes → List Bytes} {key member k x : Bytes} :
    x ∈ kvSadd m key member k ↔
      x ∈ m k ∨ k = key ∧ x = member ∧ space ∉ key ∧ space ∉ member ∧ member ≠ [] := by
  unfold kvSadd
  by_cases hok : space ∈ key ∨ space ∈ member ∨ member = []
  · rw [if_pos hok, or_iff_left]
    rintro ⟨-, -, hkey, hmember, hne⟩
    rcases hok with h | h | h <;> contradiction
  · rw [if_neg hok, Function.update_apply]
    rw [not_or, not_or] at hok
    by_cases hk : k = key
    · subst hk
      rw [if_pos rfl]
      split
      · rename_i hmem
        constructor
        · exact .inl
        · rintro (h | ⟨-, rfl, -⟩)
          · exact h
          · exact hmem
      · rw [mem_append, mem_singleton]
        exact or_congr_right ⟨fun h => ⟨rfl, h, hok⟩, fun h => h.2.1⟩
    · rw [if_neg hk, or_iff_left fun h => hk h.1]

theorem mem_of_mem_kvSrem {m : Bytes → List Bytes} {key member k x : Bytes}
    (h : x ∈ kvSrem m key member k) : x ∈ m k := by
  unfold kvSrem at h
  split at h
  · exact h
  · rw [Function.update_apply] at h
    split at h
    · rename_i hk
      rw [hk]
      exact mem_of_mem_erase h
    · exact h

theorem zero_notMem_cstr (s : Bytes) : (0 : UInt8) ∉ cstr s := fun h => by
  simpa using mem_takeWhile_imp h

theorem NamesOk.congr (h : NamesOk exc) (hgid : exc'.gidCid = exc.gidCid)
    (hcid : exc'.cidGid = exc.cidGid) : NamesOk exc' :=
  ⟨by rw [hcid]; exact h.groups, by rw [hgid]; exact h.keys⟩

theorem NamesOk.added (h : NamesOk exc) (cid gid : Bytes) : NamesOk (exc.added cid gid) := by
  constructor
  · intro cid' gid' hmem
    rcases mem_kvSadd.mp hmem with hmem | ⟨-, rfl, -, hspace, hne⟩
    · exact h.groups cid' gid' hmem
    · exact ⟨hne, zero_notMem_cstr gid, hspace⟩
  · intro gid' cid' hmem
    rcases mem_kvSadd.mp hmem with hmem | ⟨rfl, -, hspace, -⟩
    · exact h.keys gid' cid' hmem
    · exact ⟨zero_notMem_cstr gid, hspace⟩

theorem NamesOk.gidMapLoop (h : NamesOk exc) {cid gid frame : Bytes}
    (hloop : gidMapLoop cid exc gid frame = .ok exc') : NamesOk exc' := by
  have hadd : ∀ {exc exc' : Exchange} {gid : Bytes}, NamesOk exc → addGid exc cid gid = .ok exc' →
      NamesOk exc' := by
    intro exc exc' gid h hadd
    unfold addGid at hadd
    split at hadd
    · cases hadd
    · cases hadd
      exact h.added cid gid
  induction frame generalizing exc gid with
  | nil => exact hadd h hloop
  | cons b rest ih =>
    rw [Imx.gidMapLoop] at hloop
    split at hloop
    · obtain ⟨exc₁, h₁, h₂⟩ := bind_eq_ok.mp hloop
      exact ih (hadd h h₁) h₂
    · split at hloop
      · cases hloop
      · exact ih h hloop

theorem NamesOk.eraseClient (h : NamesOk exc) (fd : Int) : NamesOk (eraseClient exc fd) := by
  have hfold : ∀ (gids : List Bytes) (exc : Exchange), NamesOk exc →
      NamesOk (gids.foldl (eachGidFcb (fmtInt fd)) exc) := by
    intro gids
    induction gids with
    | nil => exact fun _ h => h
    | cons gid gids ih =>
      refine fun exc h => ih _ ⟨fun cid' gid' hmem => ?_, fun gid' cid' hmem => ?_⟩
      · exact h.groups cid' gid' (mem_of_mem_kvSrem hmem)
      · exact h.keys gid' cid' (mem_of_mem_kvSrem hmem)
  exact hfold _ _ (h.congr rfl rfl)

theorem NamesOk.eraseAndClose (h : NamesOk exc) {fd : Int} {r : Commanded}
    (hcmd : eraseAndClose exc fd = .ok r) : NamesOk r.1 := by
  obtain ⟨exc₁, hdel, herase⟩ := bind_eq_ok.mp hcmd
  cases herase
  obtain ⟨des, -, hdel⟩ := bind_eq_ok.mp hdel
  split at hdel
  · cases hdel
  · cases hdel
    apply NamesOk.eraseClient
    exact h.congr rfl rfl

theorem NamesOk.dispatchManage (h : NamesOk exc) {frames : List Bytes} {r : Commanded}
    (hcmd : dispatchManage exc frames = .ok r) : NamesOk r.1 := by
  unfold Imx.dispatchManage at hcmd
  split at hcmd
  · cases hcmd
  split at hcmd
  swap
  · cases hcmd
    exact h
  split at hcmd
  · cases hcmd
  split at hcmd
  · -- `status`
    unfold handleStatus erasedClient at hcmd
    split at hcmd
    · cases hcmd
      exact h
    split at hcmd
    swap
    · cases hcmd
      exact h
    split at hcmd
    · cases hcmd
    obtain ⟨fd, -, hcmd⟩ := bind_eq_ok.mp hcmd
    split at hcmd
    · cases hcmd
      exact h
    · exact h.eraseAndClose hcmd
  split at hcmd
  · -- `uidmap`
    unfold handleUidMap at hcmd
    split at hcmd
    · cases hcmd
    obtain ⟨fd, -, hcmd⟩ := bind_eq_ok.mp hcmd
    split at hcmd
    · cases hcmd
      exact h
    split at hcmd
    · cases hcmd
    split at hcmd
    · cases hcmd
    · cases hcmd
      exact h.congr rfl rfl
  split at hcmd
  · -- `gidmap`
    unfold handleGidMap at hcmd
    split at hcmd
    · cases hcmd
    obtain ⟨fd, -, hcmd⟩ := bind_eq_ok.mp hcmd
    split at hcmd
    · cases hcmd
      exact h
    split at hcmd
    · cases hcmd
    obtain ⟨exc₁, hloop, hcmd⟩ := bind_eq_ok.mp hcmd
    cases hcmd
    exact h.gidMapLoop hloop
  · cases hcmd
    exact h

theorem NamesOk.closed (h : NamesOk exc) (kind : RouterType) (fd : Nat) :
    NamesOk (exc.closed kind fd) := by
  by_cases hkind : kind = .client
  · rw [hkind, Exchange.closed_client]
    apply NamesOk.eraseClient
    exact h.congr rfl rfl
  · rw [Exchange.closed_gateway exc fd hkind]
    split
    · exact h.congr rfl rfl
    · exact h.congr rfl rfl

theorem NamesOk.step (hs : Steady st) (h : NamesOk st.exc) {act : Act}
    (hstep : step st act = .ok st') : NamesOk st'.exc := by
  have hmoved := step_cases hs hstep
  cases hmoved with
  | idle _ => exact h
  | opened _ _ => exact h.congr (Exchange.opened_gidCid ..) (Exchange.opened_cidGid ..)
  | closed _ _ => exact h.closed _ _
  | bound _ _ hcmd _ => exact h.dispatchManage hcmd
  | joined _ _ hcmd _ => exact h.dispatchManage hcmd
  | relayed _ => exact h
  | commanded hvia _ =>
    -- what the command was is in the step
    unfold Imx.step at hstep
    simp only [hvia] at hstep
    obtain ⟨exc', hcmd, -, hst⟩ := dispatch_manage_ok hs hvia hstep
    exact (congrArg Sys.exc hst).symm ▸ h.dispatchManage hcmd

theorem names_reachable {host : Bytes} {port : Nat} {l : List Act}
    (hrun : run step (Sys.start host port) l = .ok st) : Steady st ∧ NamesOk st.exc :=
  Lib.run_inv (I := fun st => Steady st ∧ NamesOk st.exc)
    (fun _ _ _ hs hstep => ⟨hs.1.moved (step_cases hs.1 hstep), NamesOk.step hs.1 hs.2 hstep⟩)
    ⟨Steady.start host port, ⟨fun _ _ h => (not_mem_nil h).elim,
      fun _ _ h => (not_mem_nil h).elim⟩⟩ hrun

--
-- The frame
--

theorem gidWritten_append {gid : Bytes} (hcomma : comma ∉ gid) (index : Nat) (rest : Bytes) :
    gidWritten index (gid ++ rest) = gidWritten (index + gid.length) rest := by
  induction gid generalizing index with
  | nil => rfl
  | cons b gid ih =>
    rw [mem_cons, not_or] at hcomma
    rw [cons_append, gidWritten, if_neg (Ne.symm hcomma.1), ih hcomma.2, length_cons,
      Nat.add_right_comm, Nat.add_assoc]

theorem gidWritten_intercalate {gids : List Bytes} (hne : gids ≠ [])
    (hgids : ∀ gid ∈ gids, comma ∉ gid) :
    gidWritten 0 ([comma].intercalate gids) = gids.map List.length := by
  induction gids with
  | nil => exact absurd rfl hne
  | cons gid gids ih =>
    have hgid := hgids gid (.head _)
    cases gids with
    | nil =>
      have h := gidWritten_append hgid 0 []
      rw [append_nil, Nat.zero_add] at h
      rw [intercalate_singleton, h]
      rfl
    | cons gid' gids =>
      rw [intercalate_cons_cons, append_assoc, gidWritten_append hgid,
        singleton_append, gidWritten, if_pos rfl,
        ih (cons_ne_nil _ _) fun g hg => hgids g (.tail _ hg), Nat.zero_add]
      rfl

theorem mem_foldl_added (cid : Bytes) (gids : List Bytes) (exc : Exchange) (gid : Bytes) :
    (gid ∈ (gids.foldl (·.added cid) exc).cidGid cid ↔ gid ∈ exc.cidGid cid ∨
      ∃ p ∈ gids, gid = cstr p ∧ space ∉ cid ∧ space ∉ cstr p ∧ cstr p ≠ []) ∧
    (cid ∈ (gids.foldl (·.added cid) exc).gidCid gid ↔ cid ∈ exc.gidCid gid ∨
      ∃ p ∈ gids, gid = cstr p ∧ space ∉ cstr p ∧ space ∉ cid ∧ cid ≠ []) := by
  induction gids generalizing exc with
  | nil => simp
  | cons p gids ih =>
    obtain ⟨hcid, hgid⟩ := ih (exc.added cid p)
    have hcid' := @mem_kvSadd exc.cidGid cid (cstr p) cid gid
    have hgid' := @mem_kvSadd exc.gidCid (cstr p) cid gid cid
    constructor
    · rw [foldl_cons, hcid]
      show gid ∈ kvSadd exc.cidGid cid (cstr p) cid ∨ _ ↔ _
      rw [hcid', or_assoc]
      simp only [mem_cons, exists_eq_or_imp, true_and]
    · rw [foldl_cons, hgid]
      show cid ∈ kvSadd exc.gidCid (cstr p) cid gid ∨ _ ↔ _
      rw [hgid', or_assoc]
      simp only [mem_cons, exists_eq_or_imp, true_and]

theorem sample_client : ∃ st, run step (Sys.start sampleHost 80) [.connect .client 5 sampleUuid] =
    .ok st ∧ st.exc.host = sampleHost ∧ st.exc.port = 80 ∧ st.conns 5 = some ⟨0, .client⟩ :=
  ⟨_, rfl, rfl, rfl, rfl⟩

/-- The cid of the client. -/
def sampleCid : Bytes := cidText sampleUuid.text sampleHost 80 5

end Supex.Imx
