import Supex.Lib.Memory
import Supex.Lib.Run

/-!
# Log forwarding

`loghit` polls a path: a `stat`, the record of the path from its LevelDB store, and
`file_watch`, which sends what the file has behind `sn_done`, at most
`MAX_TRANSIT_SIZE` bytes a call. Files grow and are rotated between any two of these
steps, and `loghit` may be restarted, which forgets a `stat` but not the store.

The record has the inode number of the file, but `file_watch` takes a file for a new
one only when it is smaller than the record says.

Main result: `watch_forwarded`.
-/

namespace Supex.Loghit

open Supex.Lib List

def MAX_TRANSIT_SIZE : Int := 1024 * 4

/-- `struct stat`, the fields that are used. -/
structure Stat where
  ino : Nat
  size : Int
  atime : Int
  mtime : Int
  ctime : Int
  deriving DecidableEq

/-- `struct store_node`. -/
structure StoreNode where
  ino : Nat
  size : Int
  atime : Int
  mtime : Int
  ctime : Int
  done : Int
  deriving DecidableEq

def StoreNode.zero : StoreNode := ⟨0, 0, 0, 0, 0, 0⟩

/-- `loghit` and its path. -/
structure Watched where
  /-- the file that the path names now -/
  ino : Nat
  content : Bytes
  /-- the inode numbers of all files so far -/
  used : List Nat
  /-- the record in the store -/
  store : Option StoreNode
  /-- `f_stat`, until `file_watch` has used it -/
  stat : Option Stat
  /-- what was sent since the last rotation: the offset and the bytes -/
  sent : List (Int × Bytes)
  /-- the lengths that `file_flows` was called with -/
  counts : List Int

/-- Before the first poll. -/
def Watched.init (ino : Nat) (content : Bytes) : Watched :=
    ⟨ino, content, [ino], none, none, [], []⟩

/-- `memset` and `ldb_pull`. -/
def Watched.node (s : Watched) : StoreNode := s.store.getD .zero

inductive HitAct where
  | append (bs : Bytes)
  | rotate (ino : Nat)
  | stat (atime mtime ctime : Int)
  | watch
  | restart

/-- The first half of `file_watch`: the record brought up to date, and whether it
changed. -/
def refresh (st : Stat) (node : StoreNode) : StoreNode × Bool :=
  if node.ino ≠ st.ino ∨ node.size ≠ st.size ∨ node.atime ≠ st.atime ∨ node.mtime ≠ st.mtime ∨
      node.ctime ≠ st.ctime then
    let node := if node.size > st.size then .zero else node
    ({ node with
        ino := st.ino, size := st.size, atime := st.atime, mtime := st.mtime, ctime := st.ctime },
      true)
  else (node, false)

/-- `file_flows`: what it reads and sends. A negative length is more than `calloc` has,
a negative offset no offset for `pread`. -/
def fileFlows (content : Bytes) (offset count : Int) : Except Fault Bytes :=
  if count < 0 ∨ offset < 0 then .error .assertion
  else .ok ((content.drop offset.toNat).take count.toNat)

def needsz (node : StoreNode) : Int :=
  let moresz := wrap32 (node.size - node.done)
  if moresz > MAX_TRANSIT_SIZE then MAX_TRANSIT_SIZE else moresz

def fileWatch (s : Watched) (st : Stat) : Except Fault Watched :=
  let (node, flag) := refresh st s.node
  if node.done ≠ node.size then do
    let bytes ← fileFlows s.content node.done (needsz node)
    let flag := flag || decide (0 < bytes.length)
    pure { s with
      store := if flag then some { node with done := node.done + bytes.length } else s.store
      sent := s.sent ++ [(node.done, bytes)]
      counts := s.counts ++ [needsz node] }
  else pure { s with store := if flag then some node else s.store }

def Watched.step (s : Watched) : HitAct → Except Fault Watched
  | .append bs => .ok { s with content := s.content ++ bs }
  | .rotate ino => .ok { s with ino := ino, content := [], used := ino :: s.used, sent := [] }
  | .stat atime mtime ctime =>
    .ok { s with stat := some ⟨s.ino, s.content.length, atime, mtime, ctime⟩ }
  | .watch =>
    match s.stat with
    | none => .ok s
    | some st => fileWatch { s with stat := none } st
  | .restart => .ok { s with stat := none }

/-- Every file has an inode number of its own. -/
def Named (s : Watched) : HitAct → Prop
  | .rotate ino => ino ∉ s.used
  | _ => True

/-- What a call of `file_watch` needs: a positive `int` for a length; of the file that
`stat` saw, a record, or a smaller size than that of the record of an earlier file
which has bytes sent; of a file that came after `stat`, nothing behind the offset. -/
def Kept (s : Watched) : HitAct → Prop
  | .watch =>
    match s.stat with
    | none => True
    | some st =>
      let next := (refresh st s.node).1
      (next.done ≠ next.size → 0 < wrap32 (next.size - next.done)) ∧
        if st.ino = s.ino then s.node.ino = st.ino ∨ s.node.done = 0 ∨ st.size < s.node.size
        else next.done = next.size ∨ (s.content.length : Int) ≤ next.done
  | _ => True

/-- The chunks are those of `content` from an offset on, one behind the other. -/
def Contiguous (content : Bytes) : Nat → List (Int × Bytes) → Prop
  | _, [] => True
  | start, (offset, bytes) :: rest =>
    (bytes ≠ [] → offset = start) ∧ bytes <+: content.drop start ∧
      Contiguous content (start + bytes.length) rest

/-- What was sent of the current file. -/
def Watched.taken (s : Watched) : Bytes := (s.sent.map Prod.snd).flatten

structure Forwarded (s : Watched) : Prop where
  sent : Contiguous s.content 0 s.sent
  taken : s.taken <+: s.content
  counts : ∀ count ∈ s.counts, 0 < count ∧ count ≤ MAX_TRANSIT_SIZE

--
-- Chunks
--

theorem wrap32_le {x : Int} (h : 0 ≤ x) : wrap32 x ≤ x := by
  unfold wrap32
  rw [Int.bmod_def]
  split <;> omega

variable {sent : List (Int × Bytes)}

theorem Contiguous.append {content : Bytes} {start : Nat} {offset : Int} {bytes : Bytes}
    (h : Contiguous content start sent)
    (hoffset : bytes ≠ [] → offset = start + (sent.map Prod.snd).flatten.length)
    (hbytes : bytes <+: content.drop (start + (sent.map Prod.snd).flatten.length)) :
    Contiguous content start (sent ++ [(offset, bytes)]) := by
  induction sent generalizing start with
  | nil => exact ⟨by simpa using hoffset, by simpa using hbytes, trivial⟩
  | cons c rest ih =>
    obtain ⟨hc, hpre, hrest⟩ := h
    refine ⟨hc, hpre, ih hrest ?_ ?_⟩
    · intro hne
      rw [hoffset hne, map_cons, flatten_cons, length_append]
      push_cast
      ring
    · rwa [map_cons, flatten_cons, length_append, ← Nat.add_assoc] at hbytes

theorem Contiguous.grow {content : Bytes} {start : Nat} (h : Contiguous content start sent)
    (bs : Bytes) : Contiguous (content ++ bs) start sent := by
  induction sent generalizing start with
  | nil => trivial
  | cons c rest ih =>
    obtain ⟨hc, hpre, hrest⟩ := h
    refine ⟨hc, hpre.trans ?_, ih hrest⟩
    rw [drop_append]
    exact prefix_append _ _

theorem Contiguous.flatten {content : Bytes} {start : Nat} (h : Contiguous content start sent) :
    (sent.map Prod.snd).flatten <+: content.drop start := by
  induction sent generalizing start with
  | nil => exact nil_prefix
  | cons c rest ih =>
    obtain ⟨-, ⟨after, hafter⟩, hrest⟩ := h
    have hih := ih hrest
    rw [← drop_drop, ← hafter, drop_left] at hih
    rw [map_cons, flatten_cons, ← hafter]
    exact (prefix_append_right_inj _).mpr hih

--
-- The invariant
--

/-- What the record and a pending `stat` say of the current file. -/
structure Inv (s : Watched) : Prop where
  sent : Contiguous s.content 0 s.sent
  counts : ∀ count ∈ s.counts, 0 < count ∧ count ≤ MAX_TRANSIT_SIZE
  done : 0 ≤ s.node.done ∧ s.node.done ≤ s.node.size
  current : s.node.ino = s.ino → s.node.done = s.taken.length ∧ s.node.size ≤ s.content.length
  stale : s.node.ino ≠ s.ino → s.taken = []
  known : s.node.ino ∈ s.used ∨ s.node.done = 0 ∧ s.node.size = 0
  used : s.ino ∈ s.used
  stat : ∀ st ∈ s.stat, st.ino ∈ s.used ∧ 0 ≤ st.size ∧
    (st.ino = s.ino → st.size ≤ s.content.length ∧ (s.node.ino = s.ino → s.node.size ≤ st.size)) ∧
    (st.ino ≠ s.ino → s.taken = [])

theorem Inv.forwarded {s : Watched} (h : Inv s) : Forwarded s where
  sent := h.sent
  taken := by
    have hflat := h.sent.flatten
    rwa [drop_zero] at hflat
  counts := h.counts

theorem inv_init (ino : Nat) (content : Bytes) : Inv (.init ino content) where
  sent := trivial
  counts := nofun
  done := ⟨le_rfl, le_rfl⟩
  current _ := ⟨rfl, Int.natCast_nonneg _⟩
  stale _ := rfl
  known := Or.inr ⟨rfl, rfl⟩
  used := .head _
  stat := nofun

theorem refresh_spec (st : Stat) (node : StoreNode) :
    (refresh st node).1.ino = st.ino ∧ (refresh st node).1.size = st.size ∧
      (refresh st node).1.done = (if node.size > st.size then 0 else node.done) ∧
      ((refresh st node).2 = false → (refresh st node).1 = node) := by
  unfold refresh
  split
  · by_cases h : node.size > st.size
    · rw [if_pos h, if_pos h]
      exact ⟨rfl, rfl, rfl, nofun⟩
    · rw [if_neg h, if_neg h]
      exact ⟨rfl, rfl, rfl, nofun⟩
  · next h =>
    rw [not_or, not_or] at h
    obtain ⟨hino, hsize, -⟩ := h
    rw [not_not] at hino hsize
    refine ⟨hino, hsize, ?_, fun _ => rfl⟩
    rw [if_neg (by omega)]

theorem node_of_store (s : Watched) (flag : Bool) (node : StoreNode)
    (h : flag = false → node = s.node) :
    (if flag then some node else s.store).getD .zero = node := by
  rcases flag with - | -
  · exact (h rfl).symm
  · rfl

theorem Inv.refresh {s : Watched} (h : Inv s) {st : Stat} (hst : s.stat = some st)
    (hkept : if st.ino = s.ino then s.node.ino = st.ino ∨ s.node.done = 0 ∨ st.size < s.node.size
      else (refresh st s.node).1.done = (refresh st s.node).1.size ∨
        (s.content.length : Int) ≤ (refresh st s.node).1.done) :
    (0 ≤ (refresh st s.node).1.done ∧ (refresh st s.node).1.done ≤ (refresh st s.node).1.size) ∧
      (st.ino = s.ino → (refresh st s.node).1.done = s.taken.length ∧
        (refresh st s.node).1.size ≤ s.content.length) ∧
      (st.ino ≠ s.ino → s.taken = []) := by
  obtain ⟨-, hsize, hdone, -⟩ := refresh_spec st s.node
  obtain ⟨-, hst0, hsame, hother⟩ := h.stat st hst
  have hnode := h.done
  rw [hsize, hdone]
  refine ⟨?_, fun hino => ⟨?_, (hsame hino).1⟩, hother⟩
  · split <;> omega
  · rw [if_pos hino] at hkept
    by_cases hrec : s.node.ino = s.ino
    · rw [if_neg (by omega)]
      exact (h.current hrec).1
    · rw [h.stale hrec]
      have hz := hkept.resolve_left fun heq => hrec (heq.trans hino)
      split
      · rfl
      · exact hz.resolve_right (by omega)

theorem fileWatch_inv {s : Watched} (h : Inv s) {st : Stat} (hst : s.stat = some st)
    (hkept : Kept s .watch) : ∃ s', fileWatch { s with stat := none } st = .ok s' ∧ Inv s' := by
  unfold Kept at hkept
  rw [hst] at hkept
  obtain ⟨hshort, hkept⟩ := hkept
  obtain ⟨hbounds, hcurrent, hstale⟩ := h.refresh hst hkept
  obtain ⟨hino, -, -, hflag⟩ := refresh_spec st s.node
  have hknown := (h.stat st hst).1
  have hnode : ({ s with stat := none } : Watched).node = s.node := rfl
  unfold fileWatch
  rw [hnode]
  generalize Loghit.refresh st s.node = r at hshort hbounds hcurrent hkept hino hflag
  obtain ⟨node, flag⟩ := r
  dsimp only at hshort hbounds hcurrent hkept hino hflag ⊢
  by_cases hread : node.done = node.size
  · rw [if_neg (not_not.mpr hread)]
    have hstore := node_of_store s flag node hflag
    refine ⟨_, rfl, h.sent, h.counts, ?_, ?_, ?_, ?_, h.used, nofun⟩ <;>
      (unfold Watched.node; dsimp only; rw [hstore])
    · exact hbounds
    · exact fun heq => hcurrent (hino.symm.trans heq)
    · exact fun hne => hstale fun heq => hne (hino.trans heq)
    · exact Or.inl (hino ▸ hknown)
  · have hle := wrap32_le (x := node.size - node.done) (by omega)
    have hneed : 0 < needsz node ∧ needsz node ≤ MAX_TRANSIT_SIZE ∧
        needsz node ≤ node.size - node.done := by
      unfold needsz MAX_TRANSIT_SIZE
      dsimp only
      split <;> omega
    have hflows : fileFlows s.content node.done (needsz node) =
        .ok ((s.content.drop node.done.toNat).take (needsz node).toNat) :=
      if_neg (by omega)
    rw [if_pos hread, hflows, ok_bind]
    generalize hbytes : (s.content.drop node.done.toNat).take (needsz node).toNat = bytes
    have hlen : (bytes.length : Int) ≤ node.size - node.done := by
      rw [← hbytes, length_take]
      omega
    have hpre : bytes <+: s.content.drop node.done.toNat := hbytes ▸ take_prefix _ _
    have hstore := node_of_store s (flag || decide (0 < bytes.length))
      { node with done := node.done + bytes.length } fun hfalse => by
        obtain ⟨hf, hb⟩ := Bool.or_eq_false_iff.mp hfalse
        have hzero : bytes.length = 0 := by
          have := of_decide_eq_false hb
          omega
        rw [hzero, ← hflag hf]
        simp
    -- what is read follows what was sent, or is nothing
    have htaken : (bytes ≠ [] → node.done = s.taken.length) ∧
        bytes <+: s.content.drop s.taken.length := by
      by_cases hcur : st.ino = s.ino
      · have hdone := (hcurrent hcur).1
        refine ⟨fun _ => hdone, ?_⟩
        rwa [hdone, Int.toNat_natCast] at hpre
      · rw [if_neg hcur] at hkept
        have hnil : bytes = [] := by
          rw [drop_eq_nil_of_le (by omega)] at hpre
          exact prefix_nil.mp hpre
        rw [hnil]
        exact ⟨absurd rfl, nil_prefix⟩
    have hflat : ((s.sent ++ [(node.done, bytes)]).map Prod.snd).flatten = s.taken ++ bytes := by
      simp [Watched.taken]
    refine ⟨_, rfl, h.sent.append ?_ ?_, ?_, ?_, ?_, ?_, ?_, h.used, nofun⟩
    · intro hne
      rw [htaken.1 hne]
      exact (zero_add _).symm
    · rw [Nat.zero_add]
      exact htaken.2
    · intro count hcount
      rcases mem_append.mp hcount with hcount | hcount
      · exact h.counts count hcount
      · rw [mem_singleton.mp hcount]
        exact ⟨hneed.1, hneed.2.1⟩
    · unfold Watched.node
      rw [hstore]
      dsimp only
      omega
    · unfold Watched.node Watched.taken
      rw [hstore, hflat]
      intro heq
      have hcur := hcurrent (hino.symm.trans heq)
      rw [length_append, hcur.1]
      exact ⟨rfl, hcur.2⟩
    · unfold Watched.node Watched.taken
      rw [hstore, hflat]
      intro hne
      have hcur : st.ino ≠ s.ino := fun heq => hne (hino.trans heq)
      have hnil : bytes = [] := by
        by_contra hb
        rw [if_neg hcur] at hkept
        rw [drop_eq_nil_of_le (by omega)] at hpre
        exact hb (prefix_nil.mp hpre)
      rw [hstale hcur, hnil]
      rfl
    · unfold Watched.node
      rw [hstore]
      exact Or.inl (hino ▸ hknown)

theorem step_inv {s : Watched} {a : HitAct} (h : Inv s) (hnamed : Named s a) (hkept : Kept s a) :
    ∃ s', s.step a = .ok s' ∧ Inv s' := by
  rcases a with bs | ino | ⟨atime, mtime, ctime⟩ | - | -
  · refine ⟨_, rfl, h.sent.grow bs, h.counts, h.done, fun heq => ?_, h.stale, h.known, h.used,
      fun st hst => ?_⟩
    · obtain ⟨hdone, hsize⟩ := h.current heq
      refine ⟨hdone, hsize.trans ?_⟩
      rw [length_append]
      omega
    · obtain ⟨hino, h0, hsame, hother⟩ := h.stat st hst
      refine ⟨hino, h0, fun heq => ⟨(hsame heq).1.trans ?_, (hsame heq).2⟩, hother⟩
      rw [length_append]
      omega
  · have hne : ∀ i ∈ s.used, i ≠ ino := fun i hi heq => hnamed (heq ▸ hi)
    refine ⟨_, rfl, trivial, h.counts, h.done, fun heq => ?_, fun _ => rfl, ?_, .head _,
      fun st hst => ?_⟩
    · obtain ⟨hdone, hsize⟩ := h.known.resolve_left fun hused => hne _ hused heq
      exact ⟨hdone, hsize.le⟩
    · exact h.known.imp_left fun hused => .tail _ hused
    · obtain ⟨hino, h0, -, -⟩ := h.stat st hst
      exact ⟨.tail _ hino, h0, fun heq => absurd heq (hne _ hino), fun _ => rfl⟩
  · refine ⟨_, rfl, h.sent, h.counts, h.done, h.current, h.stale, h.known, h.used, fun st hst => ?_⟩
    obtain rfl := Option.some.inj hst
    exact ⟨h.used, Int.natCast_nonneg _, fun _ => ⟨le_rfl, fun heq => (h.current heq).2⟩,
      fun hne => absurd rfl hne⟩
  · unfold Watched.step
    rcases hst : s.stat with - | st
    · exact ⟨s, rfl, h⟩
    · exact fileWatch_inv h hst hkept
  · exact ⟨_, rfl, h.sent, h.counts, h.done, h.current, h.stale, h.known, h.used, nofun⟩

/-- **Log forwarding**, in every state that a run reaches. -/
theorem watch_forwarded {ino : Nat} {content : Bytes} {acts : List HitAct}
    (h : Along Watched.step (fun s a => Named s a ∧ Kept s a) (.init ino content) acts) :
    ∃ s, run Watched.step (.init ino content) acts = .ok s ∧ Forwarded s := by
  obtain ⟨s, hrun, hinv⟩ := run_of_along (fun s a hs ha => step_inv hs ha.1 ha.2)
    (inv_init ino content) h
  exact ⟨s, hrun, hinv.forwarded⟩

instance (s : Watched) (a : HitAct) : Decidable (Named s a) := by
  unfold Named
  split <;> infer_instance

instance (s : Watched) (a : HitAct) : Decidable (Kept s a) := by
  unfold Kept
  split <;> try infer_instance
  split <;> infer_instance

/-- A file in two pieces, a restart, and a new file that is still smaller. -/
def smallerFile : List HitAct :=
  [.stat 1 1 1, .watch, .append [99], .stat 1 2 2, .restart, .stat 1 2 2, .watch, .rotate 2,
    .append [120, 121], .stat 3 3 3, .watch]

theorem watch_forwarded_smallerFile :
    ∃ s, run Watched.step (.init 1 [97, 98]) smallerFile = .ok s ∧ Forwarded s :=
  watch_forwarded (by decide +kernel)

/-- The new file has grown to the size of the old one before the next poll. -/
def grownFile : List HitAct :=
  [.stat 1 1 1, .watch, .rotate 2, .append [120, 121, 122], .stat 3 3 3, .watch]

theorem not_forwarded_grownFile : Along Watched.step Named (.init 1 [97, 98]) grownFile ∧
    ∃ s, run Watched.step (.init 1 [97, 98]) grownFile = .ok s ∧ ¬ Forwarded s := by
  refine ⟨by decide +kernel, ?_⟩
  obtain ⟨s, hrun, hskip⟩ := exists_ok_of_any (x := run Watched.step (.init 1 [97, 98]) grownFile)
    (p := fun s => !s.taken.isPrefixOf s.content) (by decide +kernel)
  refine ⟨s, hrun, fun h => ?_⟩
  rw [List.isPrefixOf_iff_prefix.mpr h.taken] at hskip
  cases hskip

end Supex.Loghit
