import Supex.Cachekv.Commands
import Supex.Lib.Run

/-!
# cachekv — coherence

Strings and fields of hashes are whole in the local store or not there, so what is
pulled is what redis holds. A set may be there in part: members added to a set
that was never read are all that is pulled from then on, and a set that is read is
kept as one member, its members with blanks between them. A push of a command
other than `set`, `sadd` and `hset` does not return `true`.

* `Agree.step` — strings and hashes, in every run.

Main results: `kept_afterAll_iff`, `coherent_iff`, `push_true_iff`.
-/

namespace Supex.Cachekv

open Lib (run Along Throughout throughout_iff_along)

--
-- What is right
--

def Args.cmds : Args → List Cmd
  | .one c => [c]
  | .list cs => cs

/-- Commands of reading are pulled one by one, commands of writing are pushed. -/
def Supported : Op → Prop
  | .pull (.one c) => c.isRead = true
  | .pull (.list _) => False
  | .push args => args.cmds ≠ [] ∧ ∀ c ∈ args.cmds, c.isRead = false

/-- The reply is what redis holds; a set in any order. -/
def Holds (redis : Store) : Cmd → Reply → Prop
  | .get key, reply => reply = .ofOption (redis.str key)
  | .smembers key, reply => ∃ l, reply = .list l ∧ ∀ m, m ∈ l ↔ m ∈ redis.set key
  | .hget key field, reply => reply = .ofOption (redis.hash key field)
  | _, _ => False

/-- Every pull that could be made now returns `true` and what redis holds. -/
def PullsRight (st : Sys) : Prop :=
  ∀ c : Cmd, c.isRead = true →
    (answer st (.pull (.one c))).1 = some true ∧ Holds st.redis c (answer st (.pull (.one c))).2

/-- A push returns `true`. -/
def PushRight (st : Sys) (op : Op) : Prop := ∀ args, op = .push args → (answer st op).1 = some true

--
-- Conditions
--

def Cmd.adds : Cmd → Bool
  | .set _ _ => true
  | .sadd _ _ => true
  | .hset _ _ _ => true
  | _ => false

/-- The command names the member of the set, or the whole set. -/
def Cmd.Touches (key m : Bytes) : Cmd → Prop
  | .sadd key' members => key' = key ∧ m ∈ members
  | .srem key' members => key' = key ∧ m ∈ members
  | .del keys => key ∈ keys
  | _ => False

def Touched (cmds : List Cmd) (key m : Bytes) : Prop := ∃ c ∈ cmds, c.Touches key m

/-- What commands make of the set of a key. -/
def afterAll (cmds : List Cmd) (key : Bytes) (l : List Bytes) : List Bytes :=
  cmds.foldl (Cmd.onSet key) l

/-- The call does not leave part of a set in the local store: a set read into it has
one member, and members are added to a set that is not there only together with
all that redis has. -/
def SetsKept (st : Sys) : Op → Prop
  | .pull (.one (.smembers key)) => st.kv.set key ≠ [] ∨ (st.redis.set key).length ≤ 1
  | .pull _ => True
  | .push args => ∀ key, st.kv.set key = [] → afterAll args.cmds key [] ≠ [] →
      ∀ m ∈ st.redis.set key, Touched args.cmds key m

/-- A push is made of commands that add. -/
def Adds (op : Op) : Prop := ∀ args, op = .push args → ∀ c ∈ args.cmds, c.adds = true

/-- The condition of a call. -/
def Met (st : Sys) (op : Op) : Prop := SetsKept st op ∧ Adds op

variable {key field m : Bytes} {l l' r : List Bytes} {c : Cmd} {cmds : List Cmd} {st st' : Sys}
  {op : Op} {redis : Store} {args : Args} {ops : List Op}

--
-- Sets
--

theorem mem_onSet_of_not_touches (h : ¬ c.Touches key m) : m ∈ c.onSet key l ↔ m ∈ l := by
  rcases c with _ | _ | _ | _ | ⟨key', members⟩ | _ | keys | ⟨key', members⟩ | _
  case sadd =>
    by_cases hkey : key' = key
    · have hm : m ∉ members := fun hm => h ⟨hkey, hm⟩
      simp [Cmd.onSet, hkey, hm]
    · simp [Cmd.onSet, hkey]
  case srem =>
    by_cases hkey : key' = key
    · have hm : m ∉ members := fun hm => h ⟨hkey, hm⟩
      simp [Cmd.onSet, hkey, hm]
    · simp [Cmd.onSet, hkey]
  case del =>
    have hkey : key ∉ keys := h
    simp [Cmd.onSet, hkey]
  all_goals rfl

theorem mem_onSet_of_touches (h : c.Touches key m) :
    m ∈ c.onSet key l ↔ m ∈ c.onSet key l' := by
  rcases c with _ | _ | _ | _ | ⟨key', members⟩ | _ | keys | ⟨key', members⟩ | _
  case sadd =>
    obtain ⟨hkey, hm⟩ := h
    simp [Cmd.onSet, hkey, hm]
  case srem =>
    obtain ⟨hkey, hm⟩ := h
    simp [Cmd.onSet, hkey, hm]
  case del =>
    have hkey : key ∈ keys := h
    simp [Cmd.onSet, hkey]
  all_goals exact h.elim

theorem mem_afterAll_of_not_touched (h : ¬ Touched cmds key m) :
    m ∈ afterAll cmds key l ↔ m ∈ l := by
  induction cmds generalizing l with
  | nil => rfl
  | cons c rest ih =>
    have hc : ¬ c.Touches key m := fun hc => h ⟨c, by simp, hc⟩
    have hrest : ¬ Touched rest key m := by
      rintro ⟨c', hc', htouch⟩
      exact h ⟨c', by simp [hc'], htouch⟩
    calc m ∈ afterAll (c :: rest) key l ↔ m ∈ c.onSet key l := ih hrest
      _ ↔ m ∈ l := mem_onSet_of_not_touches hc

theorem mem_afterAll_of_touched (h : Touched cmds key m) :
    m ∈ afterAll cmds key l ↔ m ∈ afterAll cmds key l' := by
  induction cmds generalizing l l' with
  | nil =>
    obtain ⟨c, hc, _⟩ := h
    simp at hc
  | cons c rest ih =>
    by_cases hrest : Touched rest key m
    · exact ih hrest
    · -- the last command that names the member is the first one
      have hc : c.Touches key m := by
        obtain ⟨c', hc', htouch⟩ := h
        rcases List.mem_cons.mp hc' with rfl | hmem
        · exact htouch
        · exact absurd ⟨c', hmem, htouch⟩ hrest
      calc m ∈ afterAll (c :: rest) key l ↔ m ∈ c.onSet key l := mem_afterAll_of_not_touched hrest
        _ ↔ m ∈ c.onSet key l' := mem_onSet_of_touches hc
        _ ↔ m ∈ afterAll (c :: rest) key l' := (mem_afterAll_of_not_touched hrest).symm

/-- A local set is not there, or it is whole. -/
def Kept (l r : List Bytes) : Prop := l = [] ∨ ∀ m, m ∈ l ↔ m ∈ r

/-- **Sets.** Commands keep a local set whole if and only if they leave nothing in one
that was not there, or name all its members. -/
theorem kept_afterAll_iff (h : Kept l r) :
    Kept (afterAll cmds key l) (afterAll cmds key r) ↔
      (l = [] → afterAll cmds key [] ≠ [] → ∀ m ∈ r, Touched cmds key m) := by
  constructor
  · rintro hkept rfl hne m hm
    by_contra hun
    rcases hkept with hempty | hsame
    · exact hne hempty
    · have hin : m ∈ afterAll cmds key r := (mem_afterAll_of_not_touched hun).mpr hm
      have hnone := (mem_afterAll_of_not_touched hun).mp ((hsame m).mpr hin)
      simp at hnone
  · intro hnamed
    by_cases hne : afterAll cmds key l = []
    · exact Or.inl hne
    · right
      intro m
      by_cases htouch : Touched cmds key m
      · exact mem_afterAll_of_touched htouch
      · rw [mem_afterAll_of_not_touched htouch, mem_afterAll_of_not_touched htouch]
        rcases h with rfl | hsame
        · have hm : m ∉ r := fun hm => htouch (hnamed rfl hne m hm)
          simp [hm]
        · exact hsame m

theorem kept_joined_iff (hr : r.Nodup) (hne : r ≠ []) :
    Kept [List.intercalate [32] r] r ↔ r.length ≤ 1 := by
  rcases r with _ | ⟨a, _ | ⟨b, rest⟩⟩
  · exact absurd rfl hne
  · have hkept : Kept [List.intercalate [32] [a]] [a] := Or.inr fun m => by simp
    exact iff_of_true hkept (by simp)
  · constructor
    · rintro (hempty | hsame)
      · simp at hempty
      · have ha := (hsame a).mpr (by simp)
        have hb := (hsame b).mpr (by simp)
        rw [List.mem_singleton] at ha hb
        have hsame : a = b := ha.trans hb.symm
        simp [hsame] at hr
    · intro hlen
      simp at hlen

--
-- Stores
--

theorem foldl_exec_set (s : Store) (cmds : List Cmd) (key : Bytes) :
    (cmds.foldl Store.exec s).set key = afterAll cmds key (s.set key) := by
  induction cmds generalizing s with
  | nil => rfl
  | cons c rest ih =>
    rw [List.foldl_cons, ih]
    rfl

/-- Strings and fields of the local store are those of redis. -/
structure Agree (st : Sys) : Prop where
  str : ∀ key v, st.kv.str key = some v → st.redis.str key = some v
  hash : ∀ key field v, st.kv.hash key field = some v → st.redis.hash key field = some v

theorem onStr_agree {v w : Option Bytes} (h : ∀ x, v = some x → w = some x) :
    ∀ x, c.onStr key v = some x → c.onStr key w = some x := by
  intro x
  unfold Cmd.onStr
  split
  · split
    · exact id
    · exact h x
  · split
    · exact id
    · exact h x
  · exact h x

theorem onHash_agree {v w : Option Bytes} (h : ∀ x, v = some x → w = some x) :
    ∀ x, c.onHash key field v = some x → c.onHash key field w = some x := by
  intro x
  unfold Cmd.onHash
  split
  · split
    · exact id
    · exact h x
  · split
    · exact id
    · exact h x
  · split
    · exact id
    · exact h x
  · exact h x

theorem Agree.exec (h : Agree st) (c : Cmd) : Agree ⟨st.redis.exec c, st.kv.exec c⟩ := by
  constructor
  · intro key
    exact onStr_agree (h.str key)
  · intro key field
    exact onHash_agree (h.hash key field)

theorem Agree.execAll (h : Agree st) (cmds : List Cmd) :
    Agree ⟨cmds.foldl Store.exec st.redis, cmds.foldl Store.exec st.kv⟩ := by
  induction cmds generalizing st with
  | nil => exact h
  | cons c rest ih => exact ih (h.exec c)

theorem Agree.fill (h : Agree st) (c : Cmd) :
    Agree { st with kv := fill st.kv c (st.redis.reply c) } := by
  rcases c with key | key | ⟨key, field⟩ | _ | _ | _ | _ | _ | _
  case get =>
    rcases hv : st.redis.str key with _ | v
    · simpa [Cachekv.fill, Store.reply, Reply.ofOption, hv] using h
    · constructor
      · intro key' x hx
        by_cases hkey : key = key'
        · subst hkey
          have hxv : v = x := by
            simpa [Cachekv.fill, Store.reply, Reply.ofOption, hv, Store.exec, Cmd.onStr] using hx
          rw [← hxv]
          exact hv
        · apply h.str
          simpa [Cachekv.fill, Store.reply, Reply.ofOption, hv, Store.exec, Cmd.onStr, hkey]
            using hx
      · intro key' field x hx
        apply h.hash
        simpa [Cachekv.fill, Store.reply, Reply.ofOption, hv, Store.exec, Cmd.onHash] using hx
  case hget =>
    rcases hv : st.redis.hash key field with _ | v
    · simpa [Cachekv.fill, Store.reply, Reply.ofOption, hv] using h
    · constructor
      · intro key' x hx
        apply h.str
        simpa [Cachekv.fill, Store.reply, Reply.ofOption, hv, Store.exec, Cmd.onStr] using hx
      · intro key' field' x hx
        by_cases hkey : key = key' ∧ field = field'
        · obtain ⟨rfl, rfl⟩ := hkey
          have hxv : v = x := by
            simpa [Cachekv.fill, Store.reply, Reply.ofOption, hv, Store.exec, Cmd.onHash] using hx
          rw [← hxv]
          exact hv
        · apply h.hash
          simpa [Cachekv.fill, Store.reply, Reply.ofOption, hv, Store.exec, Cmd.onHash, hkey]
            using hx
  case smembers =>
    exact ⟨h.str, h.hash⟩
  all_goals exact h

theorem Agree.step (h : Agree st) (hstep : step st op = .ok st') : Agree st' := by
  rcases op with (c | cs) | (c | (_ | ⟨c, cs⟩))
  · simp only [Cachekv.step, getcachekv, Except.ok.injEq] at hstep
    rw [← hstep]
    split
    · exact h
    · split
      · split
        · exact h
        · exact h.fill c
      · exact h
  · simp only [Cachekv.step, getcachekv, Except.ok.injEq] at hstep
    rw [← hstep]
    exact h
  · simp only [Cachekv.step, setcachekv, Except.ok.injEq] at hstep
    rw [← hstep]
    exact h.exec c
  · simp only [Cachekv.step, setcachekv, Except.ok.injEq] at hstep
    rw [← hstep]
    exact h
  · simp only [Cachekv.step, setcachekv, Except.ok.injEq] at hstep
    rw [← hstep]
    exact h.execAll (c :: cs)

theorem Agree.start (redis : Store) : Agree (start redis) := by
  constructor
  · intro key v hv
    simp [Cachekv.start, Store.empty] at hv
  · intro key field v hv
    simp [Cachekv.start, Store.empty] at hv

--
-- Answers
--

theorem pull_answer (h : c.isRead = true) :
    answer st (.pull (.one c)) =
      (some true, if (st.kv.reply c).isEmpty then st.redis.reply c else st.kv.reply c) := by
  unfold answer getcachekv
  by_cases hempty : (st.kv.reply c).isEmpty = true
  · by_cases hredis : (st.redis.reply c).isEmpty = true
    · simp [h, hempty, hredis]
    · simp [h, hempty, hredis]
  · simp [h, hempty]

theorem ofOption_agree {v w : Option Bytes} (h : ∀ x, v = some x → w = some x) :
    (if (Reply.ofOption v).isEmpty then Reply.ofOption w else Reply.ofOption v) =
      Reply.ofOption w := by
  rcases v with _ | x
  · simp [Reply.ofOption, Reply.isEmpty]
  · rw [h x rfl]
    simp

theorem pullsRight_iff (h : Agree st) :
    PullsRight st ↔ ∀ key, Kept (st.kv.set key) (st.redis.set key) := by
  constructor
  · intro hright key
    obtain ⟨_, l, hl, hsame⟩ := hright (.smembers key) rfl
    rw [pull_answer rfl] at hl
    by_cases hempty : st.kv.set key = []
    · exact Or.inl hempty
    · right
      have hlist : st.kv.set key = l := by
        simpa [Store.reply, Reply.isEmpty, hempty] using hl
      rw [hlist]
      exact hsame
  · intro hkept c hc
    rw [pull_answer hc]
    refine ⟨rfl, ?_⟩
    rcases c with key | key | ⟨key, field⟩ | _ | _ | _ | _ | _ | _
    case get => exact ofOption_agree (h.str key)
    case hget => exact ofOption_agree (h.hash key field)
    case smembers =>
      rcases hkept key with hempty | hsame
      · exact ⟨st.redis.set key, by simp [Store.reply, Reply.isEmpty, hempty], fun m => Iff.rfl⟩
      · by_cases hempty : st.kv.set key = []
        · exact ⟨st.redis.set key, by simp [Store.reply, Reply.isEmpty, hempty], fun m => Iff.rfl⟩
        · exact ⟨st.kv.set key, by simp [Store.reply, Reply.isEmpty, hempty], hsame⟩
    all_goals simp [Cmd.isRead] at hc

theorem pull_state (h : c.isRead = true) (hstep : step st (.pull (.one c)) = .ok st') :
    st' = Sys.mk st.redis (if (st.kv.reply c).isEmpty = true ∧ ¬ (st.redis.reply c).isEmpty = true
      then Cachekv.fill st.kv c (st.redis.reply c) else st.kv) := by
  simp only [step, getcachekv, h, Bool.true_eq_false, if_false, Except.ok.injEq] at hstep
  rw [← hstep]
  by_cases hempty : (st.kv.reply c).isEmpty = true
  · by_cases hredis : (st.redis.reply c).isEmpty = true
    · simp [hempty, hredis]
    · simp [hempty, hredis]
  · simp [hempty]

theorem fill_set (kv : Store) (reply : Reply) (h : ∀ key, c ≠ .smembers key) :
    (fill kv c reply).set = kv.set := by
  unfold fill
  split
  · rfl
  · exact absurd rfl (h _)
  · rfl
  · rfl

theorem pull_sets (h : c.isRead = true) (hstep : step st (.pull (.one c)) = .ok st') :
    st'.redis = st.redis ∧ ∀ key, st'.kv.set key =
      if c = .smembers key ∧ st.kv.set key = [] ∧ st.redis.set key ≠ [] then
        [List.intercalate [32] (st.redis.set key)]
      else st.kv.set key := by
  rw [pull_state h hstep]
  refine ⟨rfl, fun key => ?_⟩
  by_cases hset : ∃ key', c = .smembers key'
  · obtain ⟨key', rfl⟩ := hset
    have hiff : ((st.kv.reply (.smembers key')).isEmpty = true ∧
        ¬ (st.redis.reply (.smembers key')).isEmpty = true) ↔
        st.kv.set key' = [] ∧ st.redis.set key' ≠ [] := by
      simp [Store.reply, Reply.isEmpty]
    by_cases hfill : st.kv.set key' = [] ∧ st.redis.set key' ≠ []
    · rw [if_pos (hiff.mpr hfill)]
      by_cases hkey : key' = key
      · subst hkey
        rw [if_pos ⟨rfl, hfill⟩]
        simp [fill, Store.reply, Store.exec, Cmd.onSet, hfill.1]
      · rw [if_neg fun hthis => hkey (Cmd.smembers.inj hthis.1)]
        simp [fill, Store.reply, Store.exec, Cmd.onSet, hkey]
    · rw [if_neg fun hthis => hfill (hiff.mp hthis), if_neg]
      rintro ⟨heq, hthis⟩
      rw [← Cmd.smembers.inj heq] at hthis
      exact hfill hthis
  · have hne : ∀ key', c ≠ .smembers key' := fun key' heq => hset ⟨key', heq⟩
    simp only [hne key, false_and, if_false]
    split
    · rw [fill_set _ _ hne]
    · rfl

theorem push_sets (hstep : step st (.push args) = .ok st') (key : Bytes) :
    st'.kv.set key = afterAll args.cmds key (st.kv.set key) ∧
      st'.redis.set key = afterAll args.cmds key (st.redis.set key) := by
  rcases args with c | (_ | ⟨c, cs⟩)
  · simp only [step, setcachekv, Except.ok.injEq] at hstep
    rw [← hstep]
    exact ⟨rfl, rfl⟩
  · simp only [step, setcachekv, Except.ok.injEq] at hstep
    rw [← hstep]
    exact ⟨rfl, rfl⟩
  · simp only [step, setcachekv, Except.ok.injEq] at hstep
    rw [← hstep]
    exact ⟨foldl_exec_set _ _ _, foldl_exec_set _ _ _⟩

/-- **Calls.** A call keeps pulls right if and only if it leaves no part of a set. -/
theorem pullsRight_step (h : Agree st) (hright : PullsRight st) (hop : Supported op)
    (hstep : step st op = .ok st') : PullsRight st' ↔ SetsKept st op := by
  have hkept := (pullsRight_iff h).mp hright
  rw [pullsRight_iff (h.step hstep)]
  rcases op with (c | cs) | args
  · obtain ⟨hredis, hsets⟩ := pull_sets hop hstep
    have hother : ∀ key, ¬ (c = .smembers key ∧ st.kv.set key = [] ∧ st.redis.set key ≠ []) →
        Kept (st'.kv.set key) (st'.redis.set key) := by
      intro key hnot
      rw [hsets key, hredis, if_neg hnot]
      exact hkept key
    by_cases hfill : ∃ key, c = .smembers key ∧ st.kv.set key = [] ∧ st.redis.set key ≠ []
    · obtain ⟨key, rfl, hempty, hne⟩ := hfill
      have hiff := kept_joined_iff (st.redis.nodup key) hne
      have hkey : st'.kv.set key = [List.intercalate [32] (st.redis.set key)] := by
        rw [hsets key, if_pos ⟨rfl, hempty, hne⟩]
      constructor
      · intro hall
        have hthis := hall key
        rw [hkey, hredis] at hthis
        exact Or.inr (hiff.mp hthis)
      · rintro (hthere | hlen) key'
        · exact absurd hempty hthere
        · by_cases hsame : key = key'
          · subst hsame
            rw [hkey, hredis]
            exact hiff.mpr hlen
          · apply hother
            rintro ⟨heq, _⟩
            exact hsame (Cmd.smembers.inj heq)
    · refine iff_of_true (fun key => hother key fun hthis => hfill ⟨key, hthis⟩) ?_
      rcases c with _ | key | _ | _ | _ | _ | _ | _ | _
      case smembers =>
        by_cases hempty : st.kv.set key = []
        · right
          have hnone : st.redis.set key = [] := by
            by_contra hne
            exact hfill ⟨key, rfl, hempty, hne⟩
          simp [hnone]
        · exact Or.inl hempty
      all_goals trivial
  · exact hop.elim
  · constructor
    · intro hall key
      have hthis := hall key
      rw [(push_sets hstep key).1, (push_sets hstep key).2] at hthis
      exact (kept_afterAll_iff (hkept key)).mp hthis
    · intro hnamed key
      rw [(push_sets hstep key).1, (push_sets hstep key).2]
      exact (kept_afterAll_iff (hkept key)).mpr (hnamed key)

--
-- Pushes
--

theorem setexptm_true_iff : (setexptm c).1 = some true ↔ c.adds = true := by
  rcases c with _ | _ | _ | _ | _ | _ | _ | _ | _
  all_goals simp [setexptm, setexpiretime, Cmd.adds]

theorem setexptmAll_true_iff {a : Answer} (ha : a.1 = some true) :
    (setexptmAll a cmds).1 = some true ↔ ∀ c ∈ cmds, c.adds = true := by
  induction cmds generalizing a with
  | nil => simp [setexptmAll, ha]
  | cons c rest ih =>
    by_cases hc : (setexptm c).1 = some true
    · have hadds := setexptm_true_iff.mp hc
      rw [setexptmAll]
      simp only [hc, if_true]
      rw [ih hc]
      simp [hadds]
    · have hadds : ¬ c.adds = true := fun hadds => hc (setexptm_true_iff.mpr hadds)
      simp [setexptmAll, hc, hadds]

/-- **Pushes.** What a push returns depends on its commands alone. -/
theorem push_true_iff (hne : args.cmds ≠ []) :
    (answer st (.push args)).1 = some true ↔ ∀ c ∈ args.cmds, c.adds = true := by
  rcases args with c | (_ | ⟨c, cs⟩)
  · simpa [answer, setcachekv, Args.cmds] using setexptm_true_iff
  · exact absurd rfl hne
  · exact setexptmAll_true_iff rfl

theorem pushRight_iff (hop : Supported op) : PushRight st op ↔ Adds op := by
  constructor
  · rintro hright args rfl
    exact (push_true_iff hop.1).mp (hright args rfl)
  · rintro hadds args rfl
    exact (push_true_iff hop.1).mpr (hadds args rfl)

--
-- Runs
--

theorem run_total (st : Sys) (ops : List Op) : ∃ st', run step st ops = .ok st' := by
  induction ops generalizing st with
  | nil => exact ⟨st, rfl⟩
  | cons op rest ih =>
    rcases op with args | args
    · exact ih (getcachekv st args).2
    · exact ih (setcachekv st args).2

theorem pullsRight_start (redis : Store) : PullsRight (start redis) := by
  rw [pullsRight_iff (Agree.start redis)]
  intro key
  exact Or.inl rfl

/-- **Coherence.** From any content of redis and an empty local store: in every state of a
run every pull is right and every push of it returns `true`, if and only if every
call leaves no part of a set and pushes commands that add. -/
theorem coherent_iff (redis : Store) (ops : List Op) (hops : ∀ op ∈ ops, Supported op) :
    (Throughout step PullsRight (start redis) ops ∧ Along step PushRight (start redis) ops) ↔
      Along step Met (start redis) ops := by
  have hsupported : Along step (fun _ op => Supported op) (start redis) ops :=
    Along.of_forall fun op hop _ => hops op hop
  obtain ⟨st', hrun⟩ := run_total (start redis) ops
  have hpulls : Throughout step PullsRight (start redis) ops ↔
      Along step SetsKept (start redis) ops :=
    throughout_iff_along (fun s op s' hs _ hstep => Agree.step hs hstep)
      (fun s op s' hs hP hop hstep => pullsRight_step hs hP hop hstep) (Agree.start redis)
      (pullsRight_start redis) hsupported hrun
  rw [hpulls]
  constructor
  · rintro ⟨hkept, hpush⟩
    refine Along.of_inv (I := fun _ => True) (fun _ _ _ _ _ _ => trivial) ?_ trivial
      ((hkept.and hpush).and hsupported)
    rintro s op - ⟨⟨hs, hp⟩, hop⟩
    exact ⟨hs, (pushRight_iff hop).mp hp⟩
  · intro hmet
    have hsplit := hmet.and hsupported
    constructor
    · exact Along.of_inv (I := fun _ => True) (fun _ _ _ _ _ _ => trivial)
        (fun s op _ h => h.1.1) trivial hsplit
    · exact Along.of_inv (I := fun _ => True) (fun _ _ _ _ _ _ => trivial)
        (fun s op _ h => (pushRight_iff h.2).mpr h.1.2) trivial hsplit

/-- Redis with one set of one member. -/
def oneMember : Store where
  str _ := none
  set key := if key = ascii "cities" then [ascii "oslo"] else []
  nodup key := by split <;> simp
  hash _ _ := none

/-- The set is read before a member is added to it. -/
theorem coherent_read_first :
    (Throughout step PullsRight (start oneMember) [.pull (.one (.smembers (ascii "cities"))),
        .push (.one (.sadd (ascii "cities") [ascii "rome"]))] ∧
      Along step PushRight (start oneMember) [.pull (.one (.smembers (ascii "cities"))),
        .push (.one (.sadd (ascii "cities") [ascii "rome"]))]) ↔
      Along step Met (start oneMember) [.pull (.one (.smembers (ascii "cities"))),
        .push (.one (.sadd (ascii "cities") [ascii "rome"]))] :=
  coherent_iff oneMember _ (by simp [Supported, Args.cmds, Cmd.isRead])

/-- A member is added to a set that was not read, and is all that is pulled then. -/
theorem not_coherent_unread :
    ¬ ∀ (redis : Store) (ops : List Op), (∀ op ∈ ops, Supported op) →
      Throughout step PullsRight (start redis) ops ∧ Along step PushRight (start redis) ops := by
  intro hall
  obtain ⟨hpulls, _⟩ := hall oneMember [.push (.one (.sadd (ascii "cities") [ascii "rome"]))]
    (by simp [Supported, Args.cmds, Cmd.isRead])
  obtain ⟨_, l, hl, hsame⟩ := hpulls.2 _ rfl (.smembers (ascii "cities")) rfl
  have hpulled : l = [ascii "rome"] := (Reply.list.inj hl).symm
  have hmem : ascii "oslo" ∈ l := (hsame (ascii "oslo")).mpr (by decide)
  rw [hpulled] at hmem
  exact absurd hmem (by decide)

end Supex.Cachekv
