import Supex.Imx.Exchange

/-!
# IMX exchange — the text of a cid

A cid is printed by `get_cid` and read back by four handlers.

* `atoi_fmtU64` — a descriptor survives `%d` and `atoi`.
* `getCid_of_lt`, `cidFd_cidText` — the handlers read back the descriptor of a cid
  that was printed.
* `dispatchStream_cid`, `dispatchStream_uid`, `dispatchStream_gid`,
  `dispatchManage_uidmap`, `dispatchManage_gidmap`, `dispatchManage_closed` —
  what each kind of message does.
-/

namespace Supex.Imx

open List

open Tsdb (strtok atoi fmtInt)

--
-- Numbers
--

theorem fmtInt_natCast (n : Nat) : fmtInt (n : Int) = fmtU64 n := by
  unfold fmtInt
  rw [if_neg (by omega), Int.natAbs_natCast]

theorem fmtU64_digit (n : Nat) : ∀ b ∈ fmtU64 n, isDigit b = true := decDigits_isDigit 20 n

theorem fmtU64_ne_nil (n : Nat) : fmtU64 n ≠ [] := decDigits_ne_nil 19 n

theorem notMem_fmtU64 {b : UInt8} (hb : isDigit b = false) (n : Nat) : b ∉ fmtU64 n := by
  intro hmem
  rw [fmtU64_digit n b hmem] at hb
  cases hb

theorem digitsVal_fmtU64 {n : Nat} (h : n < u64Size) : digitsVal (fmtU64 n) = n :=
  digitsVal_decDigits (lt_ten_pow_of_u64 h)

theorem atoi_digits {ds : Bytes} (hds : ∀ b ∈ ds, isDigit b = true) (hne : ds ≠ [])
    (hval : digitsVal ds < 2 ^ 31) : atoi ds = digitsVal ds := by
  have htake : ds.takeWhile isDigit = ds := by
    have happend : (ds ++ []).takeWhile isDigit = ds ++ [].takeWhile isDigit :=
      takeWhile_append_of_pos hds
    simpa using happend
  obtain ⟨d, ds', rfl⟩ := exists_cons_of_ne_nil hne
  have hd : isDigit d = true := hds d (.head _)
  obtain ⟨hlo, hhi⟩ := isDigit_bounds hd
  have hdrop : (d :: ds').dropWhile isSpace = d :: ds' := by
    rw [dropWhile_cons, if_neg]
    simp [isDigit_not_isSpace hd]
  have hne₁ : d ≠ 45 := by
    rintro rfl
    simp at hlo
  have hne₂ : d ≠ 43 := by
    rintro rfl
    simp at hlo
  unfold atoi
  dsimp only
  rw [hdrop]
  split
  · next heq => exact absurd (List.cons.inj heq).1 hne₁
  · next heq => exact absurd (List.cons.inj heq).1 hne₂
  · rw [htake, min_eq_left (by omega), max_eq_right (by omega)]
    exact Int.bmod_eq_of_le (by omega) (by omega)

theorem atoi_fmtU64 {n : Nat} (h : n < 2 ^ 31) : atoi (fmtU64 n) = n := by
  have hval := digitsVal_fmtU64 (n := n) (lt_of_lt_of_le h (by decide))
  rw [atoi_digits (fmtU64_digit n) (fmtU64_ne_nil n) (by rw [hval]; exact h), hval]

theorem fmtU64_inj {n k : Nat} (hn : n < u64Size) (hk : k < u64Size) (h : fmtU64 n = fmtU64 k) :
    n = k := by
  rw [← digitsVal_fmtU64 hn, h, digitsVal_fmtU64 hk]

--
-- Printing and reading
--

/-- The configuration of a server: a host name that fits its array, and a
`uint16_t`. -/
structure HostOk (host : Bytes) (port : Nat) : Prop where
  ne_nil : host ≠ []
  noBar : bar ∉ host
  noColon : colon ∉ host
  noZero : (0 : UInt8) ∉ host
  short : host.length < 20
  port_lt : port < 2 ^ 16

/-- What `uuid_unparse` prints: 36 characters, among them no bar. -/
structure Uuid where
  text : Bytes
  length_eq : text.length = 36
  noBar : bar ∉ text
  noZero : (0 : UInt8) ∉ text

/-- A cid. -/
def cidText (uuid host : Bytes) (port fd : Nat) : Bytes :=
  uuid ++ bar :: (host ++ colon :: (fmtU64 port ++ dash :: fmtU64 fd))

theorem strtok_append {a b : Bytes} {delim : UInt8} (hne : a ≠ []) (ha : delim ∉ a) :
    strtok (a ++ delim :: b) delim = some (a, b) := by
  obtain ⟨x, a', rfl⟩ := exists_cons_of_ne_nil hne
  have hx : x ≠ delim := fun heq => ha (heq ▸ .head _)
  have htake : (x :: a' ++ delim :: b).takeWhile (· ≠ delim) = x :: a' :=
    takeWhile_append_stop (fun y hy => by
      simp only [decide_eq_true_eq]
      exact fun heq => ha (heq ▸ hy)) (by simp)
  have hdrop : (x :: a' ++ delim :: b).dropWhile (· = delim) = x :: a' ++ delim :: b := by
    rw [cons_append, dropWhile_cons, if_neg (by simpa using hx)]
  unfold strtok
  rw [hdrop]
  show some ((x :: a' ++ delim :: b).takeWhile (· ≠ delim), _) = _
  rw [htake]
  simp

theorem cidText_noZero {uuid host : Bytes} (huuid : (0 : UInt8) ∉ uuid)
    (hhost : (0 : UInt8) ∉ host) (port fd : Nat) : (0 : UInt8) ∉ cidText uuid host port fd := by
  have hport : (0 : UInt8) ∉ fmtU64 port := notMem_fmtU64 (by decide) port
  have hfd : (0 : UInt8) ∉ fmtU64 fd := notMem_fmtU64 (by decide) fd
  unfold cidText
  simp only [mem_append, mem_cons, not_or]
  exact ⟨huuid, by decide, hhost, by decide, hport, by decide, hfd⟩

theorem cidText_length_le {uuid host : Bytes} (huuid : uuid.length ≤ 36) (hhost : host.length < 20)
    (port fd : Nat) : (cidText uuid host port fd).length < MAX_CID_SIZE := by
  have hport : (fmtU64 port).length ≤ 20 := decDigits_length_le 20 port
  have hfd : (fmtU64 fd).length ≤ 20 := decDigits_length_le 20 fd
  have hmax : MAX_CID_SIZE = 128 := rfl
  unfold cidText
  simp only [length_append, length_cons]
  omega

variable {exc : Exchange}

theorem getCid_of_lt {fd : Nat} (hfd : fd < FD_CAPACITY) :
    getCid exc fd = .ok ((cidText (exc.slot fd).uuid exc.host exc.port fd).take
      (MAX_CID_SIZE - 1)) := by
  unfold getCid fdmanSlotGet
  rw [if_pos ⟨Int.natCast_nonneg fd, by exact_mod_cast hfd⟩, Int.toNat_natCast, fmtInt_natCast,
    fmtInt_natCast]
  rfl

theorem take_cidText {uuid host : Bytes} (huuid : uuid.length ≤ 36) (hhost : host.length < 20)
    (port fd : Nat) :
    (cidText uuid host port fd).take (MAX_CID_SIZE - 1) = cidText uuid host port fd := by
  have hlen := cidText_length_le huuid hhost port fd
  exact take_of_length_le (by omega)

/-- **Reading a cid** of this server gives the descriptor, whatever the uuid. -/
theorem cidFd_cidText (hhost : HostOk exc.host exc.port) (uuid : Uuid) {fd : Nat}
    (hfd : fd < 2 ^ 31) : cidFd exc (cidText uuid.text exc.host exc.port fd) = .ok (some fd) := by
  have hzero := cidText_noZero uuid.noZero hhost.noZero exc.port fd
  have hlen := cidText_length_le uuid.length_eq.le hhost.short exc.port fd
  have huuid : uuid.text ≠ [] := by
    intro hnil
    have := uuid.length_eq
    rw [hnil] at this
    cases this
  have hport : dash ∉ fmtU64 exc.port := notMem_fmtU64 (by decide) exc.port
  have hatoi : atoi (fmtU64 exc.port) = exc.port :=
    atoi_fmtU64 (lt_trans hhost.port_lt (by decide))
  unfold cidFd
  rw [if_neg (by omega), cstr_of_noZero hzero]
  unfold cidText
  rw [strtok_append huuid uuid.noBar]
  dsimp only
  rw [strtok_append hhost.ne_nil hhost.noColon]
  dsimp only
  rw [if_neg (not_not.mpr rfl), strtok_append (fmtU64_ne_nil _) hport]
  dsimp only
  rw [hatoi, if_neg (not_not.mpr rfl), if_neg (fmtU64_ne_nil fd), atoi_fmtU64 hfd]

--
-- Messages
--

/-- The messages of a stream gateway to a connection, a user and a group. -/
def cidMessage (cid : Bytes) (payload : List Bytes) : List Bytes :=
  ascii "downstream" :: ascii "cid" :: cid :: payload

def uidMessage (uid : Bytes) (payload : List Bytes) : List Bytes :=
  ascii "downstream" :: ascii "uid" :: uid :: payload

def gidMessage (gid : Bytes) (payload : List Bytes) : List Bytes :=
  ascii "downstream" :: ascii "gid" :: gid :: payload

/-- The commands of a manage gateway. -/
def uidmapCommand (cid uid : Bytes) : List Bytes := [ascii "manage", ascii "uidmap", cid, uid]

def gidmapCommand (cid gids : Bytes) : List Bytes := [ascii "manage", ascii "gidmap", cid, gids]

def closedCommand (cid : Bytes) : List Bytes :=
  [ascii "manage", ascii "status", cid, ascii "closed"]

theorem dispatchStream_cid (cid : Bytes) (payload : List Bytes) :
    dispatchStream exc (cidMessage cid payload) =
      (cidFd exc cid).map fun r => (r.map fun fd => (fd, payload)).toList := by
  show (cidFd exc cid).bind _ = _
  cases cidFd exc cid with
  | error e => rfl
  | ok r => cases r <;> rfl

theorem dispatchStream_uid {uid : Bytes} (hlen : uid.length < MAX_UID_SIZE)
    (hzero : (0 : UInt8) ∉ uid) (payload : List Bytes) :
    dispatchStream exc (uidMessage uid payload) =
      .ok (match kvGet exc.uidCid none uid with
        | none => []
        | some cid =>
          if atoi (copied MAX_CID_SIZE cid) ≠ -1 then [(atoi (copied MAX_CID_SIZE cid), payload)]
          else []) := by
  show (if MAX_UID_SIZE ≤ uid.length then _ else _) = _
  rw [if_neg (by omega), cstr_of_noZero hzero]
  cases kvGet exc.uidCid none uid <;> rfl

theorem dispatchStream_gid {gid : Bytes} (hlen : gid.length < MAX_GID_SIZE)
    (hzero : (0 : UInt8) ∉ gid) (payload : List Bytes) :
    dispatchStream exc (gidMessage gid payload) =
      .ok ((kvGet exc.gidCid [] gid).map fun cid =>
        (atoi (cstr (cid.take MAX_CID_SIZE)), payload)) := by
  show (if MAX_GID_SIZE ≤ gid.length then _ else _) = _
  rw [if_neg (by omega), cstr_of_noZero hzero]
  rfl

theorem dispatchManage_uidmap {cid uid : Bytes} {fd : Int} (hfd : cidFd exc cid = .ok (some fd))
    (hlen : uid.length < MAX_UID_SIZE) :
    dispatchManage exc (uidmapCommand cid uid) = .ok (setUid exc fd (cstr uid), none) := by
  show (cidFd exc cid).bind _ = _
  rw [hfd]
  show (if MAX_UID_SIZE ≤ uid.length then _ else _) = _
  rw [if_neg (by omega)]
  rfl

theorem dispatchManage_gidmap {cid gids : Bytes} {fd : Int} (hfd : cidFd exc cid = .ok (some fd)) :
    dispatchManage exc (gidmapCommand cid gids) =
      (gidMapLoop (fmtInt fd) exc [] gids).map fun exc => (exc, none) := by
  show (cidFd exc cid).bind _ = _
  rw [hfd]
  show (gidMapLoop (fmtInt fd) exc [] gids).bind _ = _
  cases gidMapLoop (fmtInt fd) exc [] gids <;> rfl

theorem dispatchManage_closed {cid : Bytes} {fd : Int} (hfd : cidFd exc cid = .ok (some fd)) :
    dispatchManage exc (closedCommand cid) = eraseAndClose exc fd := by
  show (cidFd exc cid).bind _ = _
  rw [hfd]
  rfl

end Supex.Imx
