import Supex.Lib.Decimal
import Supex.Lib.Lines
import Supex.Lib.Run

/-!
# The backup files

`backup_set` appends a value to the value file and a line `offset|length|key` to
the index file of the same number; when the value file would get too large it
goes on with the next number. `backup_open` goes on with the largest number in
the directory. Both files are opened to append, but the offset is counted in
memory.

A directory is modelled by the numbers and contents of its index files `KIX_n`
and value files `VAL_n`; `kix_file.pos`, which nothing reads, is left out.

* `writeFile_spec` — a write that fails leaves a beginning of what it was given.
* `writeItem_sound`, `openNewBackupFile_ok`, `backupOpen_ok` — what the parts of a
  call keep.

Main result: `backup_sound`.
-/

namespace Supex.Timport

open Supex.Lib List Option

/-- Files of one kind, by number, in the order of the directory. -/
abbrev Files := List (Nat × Bytes)

structure BackupDir where
  kix : Files
  val : Files
  deriving DecidableEq

/-- `backup_t`; a descriptor is the number of the file it is open on, `none` if it
is closed or the open failed. -/
structure Backup where
  curIdx : Nat
  kixFd : Option Nat
  valFd : Option Nat
  valPos : Nat
  deriving DecidableEq

/-- Whether the two `open` of a call succeed, and what its `write` calls return: a
number of bytes, or an error. -/
structure BackupIo where
  kixOpens : Bool
  valOpens : Bool
  valWrites : List (Option Nat)
  kixWrites : List (Option Nat)
  deriving DecidableEq

/-- The arguments of `backup_set`: a C string and a value with an `int32_t` length. -/
structure BackupItem where
  key : Bytes
  val : Bytes
  key_nul : (0 : UInt8) ∉ key
  val_lt : val.length < 2 ^ 31
  deriving DecidableEq

inductive BackupCall where
  | open (io : BackupIo)
  | set (item : BackupItem) (io : BackupIo)

structure BackupState where
  dir : BackupDir
  handle : Option Backup
  deriving DecidableEq

def KEY_BUF_SIZE : Nat := 128

def KIX_ITEM_LEN : Nat := 33

def FILE_CONTENT_MAX_SIZE : Nat := 10 * 1024 * 1024 * 1024

--
-- Files
--

def Files.content (files : Files) (n : Nat) : Bytes := (files.lookup n).getD []

/-- `open` with `O_CREAT`. -/
def Files.create (files : Files) (n : Nat) : Files :=
  if (files.lookup n).isSome then files else files ++ [(n, [])]

/-- `write` with `O_APPEND`. -/
def Files.append (files : Files) (n : Nat) (w : Bytes) : Files :=
  files.map fun f => if f.1 = n then (f.1, f.2 ++ w) else f

/-- The largest number, as `backup_open` looks for it. -/
def Files.last (files : Files) : Nat := files.foldl (fun i f => if f.1 ≥ i then f.1 else i) 1

/-- `write_file`: the bytes written and whether all of them were. A `write` behind
the end of the list writes everything. -/
def writeFile : List (Option Nat) → Bytes → Bytes × Bool
  | _, [] => ([], true)
  | [], buf => (buf, true)
  | none :: _, _ => ([], false)
  | some size :: writes, buf =>
    (buf.take size ++ (writeFile writes (buf.drop size)).1, (writeFile writes (buf.drop size)).2)

/-- `write_file` on a descriptor; on one that is not open the first `write` fails. -/
def writeFd (files : Files) (fd : Option Nat) (writes : List (Option Nat)) (buf : Bytes) :
    Files × Bool :=
  match fd with
  | none => (files, false)
  | some n => (files.append n (writeFile writes buf).1, (writeFile writes buf).2)

--
-- The calls
--

/-- `none` is `NULL`. -/
def backupOpen (dir : BackupDir) (io : BackupIo) : Except Fault (BackupDir × Option Backup) :=
  let i := dir.kix.last
  let j := dir.val.last
  if i = j then
    if io.kixOpens then
      let dir := { dir with kix := dir.kix.create i }
      if io.valOpens then
        let dir := { dir with val := dir.val.create i }
        .ok (dir, some
          { curIdx := i, kixFd := some i, valFd := some i, valPos := (dir.val.content i).length })
      else .ok (dir, none)
    else .ok (dir, none)
  else .error .assertion

/-- The old descriptors are closed first. -/
def openNewBackupFile (dir : BackupDir) (backup : Backup) (io : BackupIo) :
    Int × BackupDir × Backup :=
  let backup := { backup with curIdx := backup.curIdx + 1, kixFd := none, valFd := none }
  if io.kixOpens then
    let dir := { dir with kix := dir.kix.create backup.curIdx }
    let backup := { backup with kixFd := some backup.curIdx }
    if io.valOpens then
      let dir := { dir with val := dir.val.create backup.curIdx }
      (0, dir, { backup with valFd := some backup.curIdx, valPos := 0 })
    else (-1, dir, backup)
  else (-1, dir, backup)

/-- `"%020ld|%010d|%s"`. -/
def indexEntry (pos vlen : Nat) (key : Bytes) : Bytes :=
  fmtPad 20 pos ++ ascii "|" ++ fmtPad 10 vlen ++ ascii "|" ++ key

/-- The part behind the look at the size of the value file. `line` has room for
the key and what stands before and behind it. -/
def writeItem (dir : BackupDir) (backup : Backup) (item : BackupItem) (io : BackupIo) :
    Except Fault (Int × BackupDir × Backup) :=
  let (val, ok) := writeFd dir.val backup.valFd io.valWrites item.val
  let dir := { dir with val := val }
  if ok then
    let line := indexEntry backup.valPos item.val.length item.key ++ [10]
    if line.length < KEY_BUF_SIZE + KIX_ITEM_LEN + 1 then
      let (kix, ok) := writeFd dir.kix backup.kixFd io.kixWrites
        (line.take (item.key.length + KIX_ITEM_LEN))
      let dir := { dir with kix := kix }
      if ok then .ok (0, dir, { backup with valPos := backup.valPos + item.val.length })
      else .ok (-1, dir, backup)
    else .error .memory
  else .ok (-1, dir, backup)

def backupSet (dir : BackupDir) (backup : Backup) (item : BackupItem) (io : BackupIo) :
    Except Fault (Int × BackupDir × Backup) :=
  if item.val.length = 0 then .ok (0, dir, backup)
  else if backup.valPos + item.val.length > FILE_CONTENT_MAX_SIZE then
    let (ret, dir, backup) := openNewBackupFile dir backup io
    if ret ≠ 0 then .ok (-1, dir, backup) else writeItem dir backup item io
  else writeItem dir backup item io

/-- One call; without a backup `timport` does not call `backup_set`. -/
def backupStep (s : BackupState) : BackupCall → Except Fault BackupState
  | .open io => do
    let (dir, handle) ← backupOpen s.dir io
    pure ⟨dir, handle⟩
  | .set item io =>
    match s.handle with
    | none => .ok s
    | some backup => do
      let (_, dir, backup) ← backupSet s.dir backup item io
      pure ⟨dir, some backup⟩

def backupInit : BackupState := ⟨⟨[], []⟩, none⟩

--
-- What is written
--

theorem lookup_create (files : Files) (m n : Nat) :
    (files.create m).lookup n = if n = m then some (files.content m) else files.lookup n := by
  unfold Files.create Files.content
  rcases hm : files.lookup m with _ | bytes
  · rw [isSome_none, if_neg Bool.false_ne_true, List.lookup_append]
    by_cases hn : n = m
    · simp [hn, hm, List.lookup_cons]
    · rw [if_neg hn, lookup_cons, beq_false_of_ne hn]
      simp
  · rw [isSome_some, if_pos rfl]
    split
    · next hn => rw [hn, hm, getD_some]
    · rfl

theorem content_create (files : Files) (m n : Nat) :
    (files.create m).content n = files.content n := by
  unfold Files.content
  rw [lookup_create]
  split
  · next hn => rw [hn]; rfl
  · rfl

theorem lookup_append (files : Files) (m n : Nat) (w : Bytes) :
    (files.append m w).lookup n =
      if n = m then (files.lookup n).map (· ++ w) else files.lookup n := by
  unfold Files.append
  induction files with
  | nil => simp
  | cons f files ih =>
    obtain ⟨k, bytes⟩ := f
    rw [map_cons, lookup_cons, lookup_cons, ih]
    by_cases hkm : k = m
    · subst hkm
      rw [if_pos rfl]
      rcases hnk : n == k with _ | _
      · rfl
      · simp [eq_of_beq hnk]
    · rw [if_neg hkm]
      rcases hnk : n == k with _ | _
      · rfl
      · simp [eq_of_beq hnk, hkm]

theorem content_append {files : Files} {m : Nat} (w : Bytes) (hm : (files.lookup m).isSome)
    (n : Nat) :
    (files.append m w).content n =
      if n = m then files.content n ++ w else files.content n := by
  unfold Files.content
  rw [lookup_append]
  split
  · next hn =>
    rw [hn]
    obtain ⟨bytes, hbytes⟩ := isSome_iff_exists.mp hm
    rw [hbytes]
    rfl
  · rfl

theorem writeFile_spec (writes : List (Option Nat)) (buf : Bytes) :
    ∃ rest, buf = (writeFile writes buf).1 ++ rest ∧
      ((writeFile writes buf).2 = true ↔ rest = []) := by
  fun_induction writeFile writes buf with
  | case1 writes => exact ⟨[], rfl, by simp⟩
  | case2 buf hne => exact ⟨[], by simp, by simp⟩
  | case3 writes buf hne => exact ⟨buf, rfl, by simpa using hne⟩
  | case4 buf size writes hne ih =>
    obtain ⟨rest, hbuf, hok⟩ := ih
    refine ⟨rest, ?_, hok⟩
    rw [append_assoc, ← hbuf, take_append_drop]

theorem lookup_of_last_lt {files : Files} {n : Nat} (h : files.last < n) :
    files.lookup n = none := by
  have hfold (files : Files) (i : Nat)
      (h : files.foldl (fun i f => if f.1 ≥ i then f.1 else i) i < n) :
      i < n ∧ files.lookup n = none := by
    induction files generalizing i with
    | nil => exact ⟨h, rfl⟩
    | cons f files ih =>
      rw [foldl_cons] at h
      obtain ⟨hlt, hnone⟩ := ih _ h
      have hne : n ≠ f.1 := by
        split at hlt <;> omega
      refine ⟨?_, ?_⟩
      · split at hlt <;> omega
      · rw [lookup_cons, beq_false_of_ne hne]
        exact hnone
  exact (hfold files 1 h).2

theorem indexEntry_length (pos : Nat) {vlen : Nat} (h : vlen < 2 ^ 31) (key : Bytes) :
    (indexEntry pos vlen key).length + 1 = key.length + KIX_ITEM_LEN := by
  have hlen : (fmtPad 10 vlen).length = 10 := by
    have := decDigits_length_le_of_lt 20 (k := 10) (by decide) (Nat.lt_trans h (by decide))
    unfold fmtPad fmtU64
    rw [length_append, length_replicate]
    omega
  unfold indexEntry
  simp only [length_append, fmtPad_length, hlen]
  show 20 + 1 + 10 + 1 + key.length + 1 = key.length + 33
  omega

theorem stop_notMem_indexEntry (pos vlen : Nat) {key : Bytes} (h : (10 : UInt8) ∉ key) :
    (10 : UInt8) ∉ indexEntry pos vlen key := by
  have hpad (w n : Nat) : (10 : UInt8) ∉ fmtPad w n := fun hmem =>
    absurd (fmtPad_isDigit w n 10 hmem) (by decide)
  unfold indexEntry
  simp only [mem_append, not_or]
  exact ⟨⟨⟨⟨hpad 20 pos, by decide⟩, hpad 10 vlen⟩, by decide⟩, h⟩

--
-- Sound indexes
--

/-- What a call names is there: the value of an item, at an offset of a value file. -/
def NamedIn (val : Bytes) (off : Nat) (item : BackupItem) : Prop :=
  (val.drop off).take item.val.length = item.val

/-- Every complete line of an index file is the line of an item that was given,
and names its value in the value file of the same number. -/
def LinesSound (given : BackupItem → Prop) (dir : BackupDir) : Prop :=
  ∀ n line, HasLine 10 (dir.kix.content n) line → ∃ item off, given item ∧
    line = indexEntry off item.val.length item.key ∧ NamedIn (dir.val.content n) off item

/-- The descriptors are open on the files with the current number, the largest. -/
structure HandleOk (dir : BackupDir) (backup : Backup) : Prop where
  kixFd : ∀ n, backup.kixFd = some n → n = backup.curIdx ∧ (dir.kix.lookup n).isSome
  valFd : ∀ n, backup.valFd = some n → n = backup.curIdx ∧ (dir.val.lookup n).isSome
  above : ∀ n, backup.curIdx < n → dir.kix.lookup n = none ∧ dir.val.lookup n = none

/-- The offset is the size of the value file, and the index file is at the start
of a line. -/
def InStep (dir : BackupDir) (backup : Backup) : Prop :=
  backup.valPos = (dir.val.content backup.curIdx).length ∧
    AtLineStart 10 (dir.kix.content backup.curIdx)

variable {dir dir' : BackupDir} {backup backup' : Backup} {item : BackupItem} {io : BackupIo}
  {given : BackupItem → Prop}

theorem NamedIn.append {val : Bytes} {off : Nat} (h : NamedIn val off item) (w : Bytes) :
    NamedIn (val ++ w) off item := by
  unfold NamedIn at h ⊢
  have hlen := congrArg List.length h
  rw [length_take] at hlen
  rw [drop_append, take_append_of_le_length (by omega), h]

theorem namedIn_self (val : Bytes) (item : BackupItem) :
    NamedIn (val ++ item.val) val.length item := by
  unfold NamedIn
  rw [drop_left, take_length]

theorem LinesSound.val_append {m : Nat} {w : Bytes} (h : LinesSound given dir)
    (hm : (dir.val.lookup m).isSome) :
    LinesSound given { dir with val := dir.val.append m w } := by
  intro n line hline
  obtain ⟨item, off, hgiven, rfl, hnamed⟩ := h n line hline
  refine ⟨item, off, hgiven, rfl, ?_⟩
  rw [content_append w hm]
  split
  · exact hnamed.append w
  · exact hnamed

/-- The index grows by the line of an item whose value is where it says, at the
start of a line, or by less than a line. -/
theorem LinesSound.kix_append {m off : Nat} {w : Bytes} (h : LinesSound given dir)
    (hm : (dir.kix.lookup m).isSome) (hitem : given item) (hkey : (10 : UInt8) ∉ item.key)
    (hw : (10 : UInt8) ∉ w ∨ w = indexEntry off item.val.length item.key ++ [10] ∧
      AtLineStart 10 (dir.kix.content m) ∧ NamedIn (dir.val.content m) off item) :
    LinesSound given { dir with kix := dir.kix.append m w } := by
  intro n line hline
  replace hline : HasLine 10 ((dir.kix.append m w).content n) line := hline
  rw [content_append w hm] at hline
  split at hline
  · next hn =>
    subst hn
    rcases hw with hw | ⟨rfl, hstart, hnamed⟩
    · exact h n line (hline.of_append hw)
    · rcases hline.append_line hstart (stop_notMem_indexEntry _ _ hkey) with hold | rfl
      · exact h n line hold
      · exact ⟨item, off, hitem, rfl, hnamed⟩
  · exact h n line hline

--
-- What a call keeps
--

/-- The value and the line of an item are written completely. -/
def WritesAll (backup : Backup) (item : BackupItem) (io : BackupIo) : Prop :=
  (writeFile io.valWrites item.val).2 = true ∧
    (writeFile io.kixWrites (indexEntry backup.valPos item.val.length item.key ++ [10])).2 = true

theorem HandleOk.val_append (h : HandleOk dir backup) (m : Nat) (w : Bytes) :
    HandleOk { dir with val := dir.val.append m w } backup := by
  refine ⟨h.kixFd, fun n hn => ?_, fun n hn => ?_⟩
  · obtain ⟨rfl, hsome⟩ := h.valFd n hn
    refine ⟨rfl, ?_⟩
    rw [lookup_append]
    split
    · rwa [isSome_map]
    · exact hsome
  · refine ⟨(h.above n hn).1, ?_⟩
    rw [lookup_append, (h.above n hn).2]
    simp

theorem HandleOk.kix_append (h : HandleOk dir backup) (m : Nat) (w : Bytes) :
    HandleOk { dir with kix := dir.kix.append m w } backup := by
  refine ⟨fun n hn => ?_, h.valFd, fun n hn => ?_⟩
  · obtain ⟨rfl, hsome⟩ := h.kixFd n hn
    refine ⟨rfl, ?_⟩
    rw [lookup_append]
    split
    · rwa [isSome_map]
    · exact hsome
  · refine ⟨?_, (h.above n hn).2⟩
    rw [lookup_append, (h.above n hn).1]
    simp

theorem writeItem_sound {ret : Int} (hok : HandleOk dir backup) (hsound : LinesSound given dir)
    (hitem : given item) (hkey : (10 : UInt8) ∉ item.key)
    (hstep : WritesAll backup item io → InStep dir backup)
    (h : writeItem dir backup item io = .ok (ret, dir', backup')) :
    HandleOk dir' backup' ∧ LinesSound given dir' := by
  unfold writeItem writeFd at h
  rcases hval : backup.valFd with _ | m
  · rw [hval] at h
    cases h
    exact ⟨hok, hsound⟩
  rw [hval] at h
  obtain ⟨rfl, hm⟩ := hok.valFd m hval
  obtain ⟨vrest, hvbuf, hvall⟩ := writeFile_spec io.valWrites item.val
  have hok₁ := hok.val_append backup.curIdx (writeFile io.valWrites item.val).1
  have hsound₁ := hsound.val_append (w := (writeFile io.valWrites item.val).1) hm
  dsimp only at h
  split at h
  · next hvalOk =>
    split at h
    · next hroom =>
      -- the whole line is in the buffer
      rw [take_of_length_le (by
        rw [length_append, length_singleton, indexEntry_length _ item.val_lt])] at h
      generalize hline : indexEntry backup.valPos item.val.length item.key ++ [10] = line at h
      rcases hkix : backup.kixFd with _ | k
      · rw [hkix] at h
        cases h
        exact ⟨hok₁, hsound₁⟩
      rw [hkix] at h
      obtain ⟨rfl, hk⟩ := hok.kixFd k hkix
      have hok₂ := hok₁.kix_append backup.curIdx (writeFile io.kixWrites line).1
      have hsound₂ := @hsound₁.kix_append _ _ _ backup.curIdx backup.valPos
        (writeFile io.kixWrites line).1 hk hitem hkey
      obtain ⟨rest, hbuf, hall⟩ := writeFile_spec io.kixWrites line
      dsimp only at h
      split at h
      · next hkixOk =>
        cases h
        obtain ⟨hpos, hstart⟩ := hstep ⟨hvalOk, hline ▸ hkixOk⟩
        refine ⟨⟨fun n hn => hok₂.kixFd n (hkix.trans hn),
          fun n hn => hok₂.valFd n (hval.trans hn), hok₂.above⟩, hsound₂ (.inr ⟨?_, hstart, ?_⟩)⟩
        · rw [hall.mp hkixOk, append_nil] at hbuf
          rw [← hbuf, hline]
        · rw [hvall.mp hvalOk, append_nil] at hvbuf
          rw [content_append _ hm, if_pos rfl, hpos, ← hvbuf]
          exact namedIn_self _ item
      · next hkixFail =>
        cases h
        refine ⟨hok₂, hsound₂ (.inl fun hmem => ?_)⟩
        -- what is missing ends with the end of the line
        rcases eq_nil_or_concat rest with hnil | ⟨front, x, rfl⟩
        · exact hkixFail (hall.mpr hnil)
        · rw [← hline, concat_eq_append, ← append_assoc] at hbuf
          obtain ⟨hentry, -⟩ := append_inj' hbuf rfl
          refine stop_notMem_indexEntry backup.valPos item.val.length hkey ?_
          rw [hentry, hline]
          exact mem_append_left _ hmem
    · cases h
  · cases h
    exact ⟨hok₁, hsound₁⟩

theorem openNewBackupFile_ok {ret : Int} (hok : HandleOk dir backup) (hsound : LinesSound given dir)
    (h : openNewBackupFile dir backup io = (ret, dir', backup')) :
    HandleOk dir' backup' ∧ LinesSound given dir' ∧ (ret = 0 → InStep dir' backup') := by
  have habove (n : Nat) (hn : backup.curIdx + 1 < n) := hok.above n (by omega)
  have hcreate (files : Files) {m n : Nat} (hn : m < n) (hnone : files.lookup n = none) :
      (files.create m).lookup n = none := by
    rw [lookup_create, if_neg (by omega), hnone]
  have hself (files : Files) (m : Nat) : ((files.create m).lookup m).isSome := by
    rw [lookup_create, if_pos rfl]
    rfl
  unfold openNewBackupFile at h
  split at h
  · split at h
    · cases h
      refine ⟨⟨?_, ?_, fun n hn => ⟨hcreate _ hn (habove n hn).1, hcreate _ hn (habove n hn).2⟩⟩,
        fun n line hline => ?_, fun _ => ⟨?_, .inl ?_⟩⟩
      · rintro n ⟨⟩
        exact ⟨rfl, hself _ _⟩
      · rintro n ⟨⟩
        exact ⟨rfl, hself _ _⟩
      · rw [content_create] at hline ⊢
        exact hsound n line hline
      · rw [content_create, Files.content, (hok.above _ (Nat.lt_succ_self _)).2]
        rfl
      · rw [content_create, Files.content, (hok.above _ (Nat.lt_succ_self _)).1]
        rfl
    · cases h
      refine ⟨⟨?_, nofun, fun n hn => ⟨hcreate _ hn (habove n hn).1, (habove n hn).2⟩⟩,
        fun n line hline => ?_, nofun⟩
      · rintro n ⟨⟩
        exact ⟨rfl, hself _ _⟩
      · rw [content_create] at hline
        exact hsound n line hline
  · cases h
    exact ⟨⟨nofun, nofun, habove⟩, hsound, nofun⟩

/-- Whenever a call writes its value and its line completely, and without a new
file, the handle is in step; keys have no end of line. -/
def backupClean (s : BackupState) : BackupCall → Prop
  | .open _ => True
  | .set item io => (10 : UInt8) ∉ item.key ∧ ∀ backup, s.handle = some backup →
      item.val.length ≠ 0 → backup.valPos + item.val.length ≤ FILE_CONTENT_MAX_SIZE →
      WritesAll backup item io → InStep s.dir backup

/-- What holds between calls. -/
structure BackupOk (given : BackupItem → Prop) (s : BackupState) : Prop where
  lines : LinesSound given s.dir
  handle : ∀ backup, s.handle = some backup → HandleOk s.dir backup

theorem backupOpen_ok {handle : Option Backup} (hsound : LinesSound given dir)
    (h : backupOpen dir io = .ok (dir', handle)) : BackupOk given ⟨dir', handle⟩ := by
  have hself (files : Files) (m : Nat) : ((files.create m).lookup m).isSome := by
    rw [lookup_create, if_pos rfl]
    rfl
  unfold backupOpen at h
  dsimp only at h
  split at h
  · next hsame =>
    split at h
    · split at h
      · cases h
        refine ⟨fun n line hline => ?_, ?_⟩
        · rw [content_create] at hline ⊢
          exact hsound n line hline
        · rintro backup ⟨⟩
          refine ⟨?_, ?_, fun n hn => ⟨?_, ?_⟩⟩
          · rintro n ⟨⟩
            exact ⟨rfl, hself _ _⟩
          · rintro n ⟨⟩
            exact ⟨rfl, hself _ _⟩
          · dsimp only at hn ⊢
            rw [lookup_create, if_neg (by omega), lookup_of_last_lt hn]
          · dsimp only at hn ⊢
            rw [lookup_create, if_neg (by omega), lookup_of_last_lt (hsame ▸ hn)]
      · cases h
        refine ⟨fun n line hline => ?_, nofun⟩
        rw [content_create] at hline
        exact hsound n line hline
    · cases h
      exact ⟨hsound, nofun⟩
  · cases h

theorem backupStep_ok {s s' : BackupState} {call : BackupCall} (h : BackupOk given s)
    (hgiven : ∀ item io, call = .set item io → given item) (hclean : backupClean s call)
    (hs : backupStep s call = .ok s') : BackupOk given s' := by
  rcases call with io | ⟨item, io⟩
  · obtain ⟨⟨dir, handle⟩, hopen, hs⟩ := bind_eq_ok.mp hs
    cases hs
    exact backupOpen_ok h.lines hopen
  · rcases hhandle : s.handle with _ | backup
    · unfold backupStep at hs
      rw [hhandle] at hs
      cases hs
      exact h
    · unfold backupStep at hs
      rw [hhandle] at hs
      obtain ⟨⟨ret, dir', backup'⟩, hset, hs⟩ := bind_eq_ok.mp hs
      cases hs
      obtain ⟨hkey, hclean⟩ := hclean
      have hok := h.handle backup hhandle
      have hboth : HandleOk dir' backup' ∧ LinesSound given dir' := by
        unfold backupSet at hset
        split at hset
        · cases hset
          exact ⟨hok, h.lines⟩
        · next hne =>
          split at hset
          · -- a new file is in step
            rcases hnew : openNewBackupFile s.dir backup io with ⟨r, dir₁, backup₁⟩
            obtain ⟨hok₁, hsound₁, hstep₁⟩ := openNewBackupFile_ok hok h.lines hnew
            rw [hnew] at hset
            dsimp only at hset
            split at hset
            · cases hset
              exact ⟨hok₁, hsound₁⟩
            · next hzero =>
              exact writeItem_sound hok₁ hsound₁ (hgiven item io rfl) hkey
                (fun _ => hstep₁ (not_not.mp hzero)) hset
          · next hsmall =>
            exact writeItem_sound hok h.lines (hgiven item io rfl) hkey
              (hclean backup hhandle hne (Nat.not_lt.mp hsmall)) hset
      refine ⟨hboth.2, ?_⟩
      rintro _ ⟨⟩
      exact hboth.1

/-- **The index is sound** after every run of calls that are clean. -/
theorem backup_sound {calls : List BackupCall} {s : BackupState}
    (hclean : Along backupStep backupClean backupInit calls)
    (hrun : run backupStep backupInit calls = .ok s) :
    LinesSound (fun item => ∃ io, BackupCall.set item io ∈ calls) s.dir := by
  have hmem : Along backupStep (fun _ call => call ∈ calls) backupInit calls :=
    Along.of_forall fun call hcall _ => hcall
  refine (run_inv_along (I := BackupOk fun item => ∃ io, BackupCall.set item io ∈ calls) ?_ ?_
    (hclean.and hmem) hrun).lines
  · rintro s call s' hs ⟨hcall, hin⟩ hstep
    refine backupStep_ok hs ?_ hcall hstep
    rintro item io rfl
    exact ⟨io, hin⟩
  · refine ⟨fun n line hline => ?_, nofun⟩
    exact absurd hline not_hasLine_nil

/-- Everything is opened, and every `write` writes what it is given. -/
def allGoesWell : BackupIo := ⟨true, true, [], []⟩

/-- The second `write` of the value fails, after one byte. -/
def oneByte : BackupIo := ⟨true, true, [some 1, none], []⟩

def itemA : BackupItem := ⟨ascii "a", ascii "xyz", by decide, by decide⟩

def itemB : BackupItem := ⟨ascii "b", ascii "pq", by decide, by decide⟩

theorem backup_sound_afterA : ∃ s,
    run backupStep backupInit [.open allGoesWell, .set itemA allGoesWell] = .ok s ∧
    HasLine 10 (s.dir.kix.content 1) (indexEntry 0 3 (ascii "a")) ∧
    LinesSound (fun item => ∃ io, BackupCall.set item io ∈
      [BackupCall.open allGoesWell, .set itemA allGoesWell]) s.dir := by
  refine ⟨_, rfl, ⟨by decide, [], [], by decide, .inl rfl⟩, backup_sound ?_ rfl⟩
  refine Along.cons rfl trivial (Along.cons rfl ⟨by decide, ?_⟩ trivial)
  rintro backup ⟨⟩ - - -
  exact ⟨by decide, .inl (by decide)⟩

def shortWrite : List BackupCall :=
  [.open allGoesWell, .set itemA oneByte, .set itemB allGoesWell]

/-- The byte that was written moves the next value, whose line says offset 0. -/
theorem not_linesSound_shortWrite : ∃ s, run backupStep backupInit shortWrite = .ok s ∧
    ¬LinesSound (fun item => ∃ io, BackupCall.set item io ∈ shortWrite) s.dir := by
  refine ⟨⟨⟨[(1, indexEntry 0 2 (ascii "b") ++ [10])], [(1, ascii "xpq")]⟩,
    some ⟨1, some 1, some 1, 2⟩⟩, by decide, fun hsound => ?_⟩
  obtain ⟨item, off, ⟨io, hitem⟩, hline, hnamed⟩ :=
    hsound 1 (indexEntry 0 2 (ascii "b")) ⟨by decide, [], [], by decide, .inl rfl⟩
  unfold NamedIn at hnamed
  have hlen := congrArg List.length hnamed
  rw [length_take, length_drop] at hlen
  replace hlen : min item.val.length (3 - off) = item.val.length := hlen
  obtain rfl | rfl : item = itemA ∨ item = itemB := by
    rcases hitem with _ | ⟨_, _ | ⟨_, _ | ⟨_, hnil⟩⟩⟩
    · exact .inl rfl
    · exact .inr rfl
    · cases hnil
  · have hoff : off = 0 := by
      rw [show itemA.val.length = 3 from rfl] at hlen
      omega
    subst hoff
    exact absurd hnamed (by decide)
  · rw [show itemB.val.length = 2 from rfl] at hlen
    obtain rfl | rfl : off = 0 ∨ off = 1 := by omega
    · exact absurd hnamed (by decide)
    · exact absurd hline (by decide)

end Supex.Timport
