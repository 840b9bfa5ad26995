import Supex.Lib.Chain
import Supex.Mapdata.Topo

/-!
# Road connectivity

`map_topo_isconnect` says how one road segment is connected to another: by a
connection of the table, by a chain of at most `deep` connections, or not at
all. It looks at the connections of the first segment and then searches along
them, to the given depth (`is_connected`).

Main results: `isConnected_spec`, `answered_iff`.
-/

namespace Supex.Mapdata

open Supex.Lib List

variable {δ : Type}

/-- A segment: road id and number on the road. -/
abbrev Seg := Nat × Nat

def TopoConn.seg (c : TopoConn δ) : Seg := (c.rrid, c.sgid)

/-- The search; the depth counts down. -/
def isConnected (m : MapTopoManager δ) (second : Seg) : Nat → Seg → Except Fault Bool
  | 0, _ => .ok false
  | deep + 1, first => do
    match ← mapTopoGetConn m first.1 first.2 with
    | none => pure false
    | some topo =>
      topo.conns.anyM fun c =>
        if c.rrid = second.1 ∨ c.sgid = second.2 then .ok true
        else isConnected m second deep c.seg

/-- The connection found, if there is one. -/
def mapTopoIsDirectConnect (m : MapTopoManager δ) (first second : Seg) :
    Except Fault (Option (TopoConn δ)) := do
  match ← mapTopoGetConn m first.1 first.2 with
  | none => pure none
  | some topo => pure (topo.conns.find? fun c => c.rrid = second.1 ∧ c.sgid = second.2)

/-- The return value, and what is written to `*p_node`, if anything is. -/
def mapTopoIsconnect (m : MapTopoManager δ) (first second : Seg) (deep : Nat) :
    Except Fault (ConnType × Option (TopoNode δ)) := do
  let search : Except Fault (ConnType × Option (TopoNode δ)) := do
    if ← isConnected m second deep first then pure (.indirect, none) else pure (.no, none)
  match ← mapTopoIsDirectConnect m first second with
  | some c =>
    match c.connType with
    | .direct => pure (.direct, none)
    | .byroad =>
      let node := c.connNode
      pure (.byroad, some { b1 := node.b1, l1 := node.l2, b2 := node.b2, l2 := node.l2 })
    | _ => search
  | none => search

--
-- A loaded table
--

/-- What is loaded: segments whose connections can be looked up, with their
connections, which lead to such segments again. -/
structure TopoTable (m : MapTopoManager δ) (known : Seg → Prop) (conns : Seg → List (TopoConn δ)) :
    Prop where
  lookup : ∀ s, known s → ∃ t, mapTopoGetConn m s.1 s.2 = .ok t ∧
    (t.map TopoInfo.conns).getD [] = conns s
  closed : ∀ s, known s → ∀ c ∈ conns s, known c.seg
  types : ∀ s, known s → ∀ c ∈ conns s, c.connType = .direct ∨ c.connType = .byroad

/-- There is a connection from one segment to the other. -/
def Conn (conns : Seg → List (TopoConn δ)) (s t : Seg) : Prop := ∃ c ∈ conns s, c.seg = t

variable {m : MapTopoManager δ} {known : Seg → Prop} {conns : Seg → List (TopoConn δ)}
  {first second : Seg} {deep : Nat}

/-- The connections of a segment after the lines. -/
def loadedConns [Zero δ] (lines : List (TopoFileLine δ)) (s : Seg) : List (TopoConn δ) :=
  if s.2 ≤ (roadInfo lines s.1).sgCount then (segInfo lines s.1 s.2).conns else []

/-- A segment that can be looked up: its road has a place in the buffer. -/
def MapTopoManager.InRange (m : MapTopoManager δ) (s : Seg) : Prop :=
  s.1 / m.rridIndexLen < m.rridBuffLen ∧ 0 < s.2

theorem Buffered.topoTable [Zero δ] {lines : List (TopoFileLine δ)} (h : Buffered lines m)
    (hseg : ∀ line ∈ lines, m.InRange (line.rrid2, line.sgid2))
    (htype : ∀ line ∈ lines, line.connType = .direct ∨ line.connType = .byroad) :
    TopoTable m m.InRange (loadedConns lines) := by
  have hmem (s : Seg) (c : TopoConn δ) (hc : c ∈ loadedConns lines s) :
      ∃ line ∈ lines, c = lineConn line := by
    unfold loadedConns at hc
    split at hc
    · rw [segInfo_conns] at hc
      obtain ⟨line, hline, rfl⟩ := mem_map.mp hc
      exact ⟨line, mem_of_mem_filter (mem_of_mem_take hline), rfl⟩
    · cases hc
  refine ⟨fun s hs => ⟨_, h.getConn hs.2 hs.1, ?_⟩, fun s _ c hc => ?_, fun s _ c hc => ?_⟩
  · unfold loadedConns
    split <;> rfl
  · obtain ⟨line, hline, rfl⟩ := hmem s c hc
    exact hseg line hline
  · obtain ⟨line, hline, rfl⟩ := hmem s c hc
    exact htype line hline

--
-- What the search finds
--

theorem anyM_spec {α : Type} {f : α → Except Fault Bool} {p : α → Prop} {l : List α}
    (h : ∀ a ∈ l, ∃ b, f a = .ok b ∧ (b = true ↔ p a)) :
    ∃ b, l.anyM f = .ok b ∧ (b = true ↔ ∃ a ∈ l, p a) := by
  induction l with
  | nil => exact ⟨false, rfl, by simp⟩
  | cons a l ih =>
    obtain ⟨⟨b, hb, hpa⟩, hl⟩ := forall_mem_cons.mp h
    obtain ⟨b', hb', hp⟩ := ih hl
    rw [anyM_cons, hb, ok_bind]
    cases b with
    | true => exact ⟨true, rfl, by simp [hpa.mp rfl]⟩
    | false =>
      have hna : ¬p a := fun ha => Bool.noConfusion (hpa.mpr ha)
      refine ⟨b', hb', hp.trans ?_⟩
      simp [hna]

/-- **The search** finds a chain to a segment with the road id or the segment
number of the second. -/
theorem isConnected_spec (h : TopoTable m known conns) (second : Seg) (deep : Nat) {first : Seg}
    (hfirst : known first) :
    ∃ b, isConnected m second deep first = .ok b ∧
      (b = true ↔ ∃ t : Seg, (t.1 = second.1 ∨ t.2 = second.2) ∧
        ChainWithin (Conn conns) deep first t) := by
  induction deep generalizing first with
  | zero =>
    refine ⟨false, rfl, ⟨nofun, ?_⟩⟩
    rintro ⟨t, -, hchain⟩
    exact absurd hchain not_chainWithin_zero
  | succ deep ih =>
    have hany : ∃ b, (conns first).anyM (fun c =>
        if c.rrid = second.1 ∨ c.sgid = second.2 then .ok true
        else isConnected m second deep c.seg) = .ok b ∧
        (b = true ↔ ∃ c ∈ conns first, (c.rrid = second.1 ∨ c.sgid = second.2) ∨
          ∃ t : Seg, (t.1 = second.1 ∨ t.2 = second.2) ∧
            ChainWithin (Conn conns) deep c.seg t) := by
      refine anyM_spec fun c hc => ?_
      split
      · next hhalf => exact ⟨true, rfl, by simp [hhalf]⟩
      · next hneither =>
        obtain ⟨b, hb, hp⟩ := ih (h.closed first hfirst c hc)
        exact ⟨b, hb, hp.trans (by simp [hneither])⟩
    obtain ⟨b, hb, hp⟩ := hany
    refine ⟨b, ?_, hp.trans ?_⟩
    · obtain ⟨t, ht, hconns⟩ := h.lookup first hfirst
      unfold isConnected
      rw [ht, ok_bind]
      rw [← hconns] at hb
      rcases t with _ | topo
      · exact hb
      · exact hb
    · -- the last connection of a chain leads to a segment with one of the numbers
      constructor
      · rintro ⟨c, hc, hhalf | ⟨t, ht, hchain⟩⟩
        · exact ⟨c.seg, hhalf, chainWithin_succ.mpr ⟨c.seg, ⟨c, hc, rfl⟩, .inl rfl⟩⟩
        · exact ⟨t, ht, chainWithin_succ.mpr ⟨c.seg, ⟨c, hc, rfl⟩, .inr hchain⟩⟩
      · rintro ⟨t, ht, hchain⟩
        obtain ⟨-, ⟨c, hc, rfl⟩, rfl | hrest⟩ := chainWithin_succ.mp hchain
        · exact ⟨c, hc, .inl ht⟩
        · exact ⟨c, hc, .inr ⟨t, ht, hrest⟩⟩

--
-- The answer
--

/-- The connection of the table from the first segment to the second. -/
def direct (conns : Seg → List (TopoConn δ)) (first second : Seg) : Option (TopoConn δ) :=
  (conns first).find? fun c => c.seg = second

/-- A right answer: the type of the connection of the table, with its node if it
is by road; without one, whether there is a chain of at most `deep` connections. -/
structure Answered (conns : Seg → List (TopoConn δ)) (first second : Seg) (deep : Nat)
    (answer : ConnType × Option (TopoNode δ)) : Prop where
  connected : (answer.1 = .direct ∨ answer.1 = .byroad) ↔ Conn conns first second
  node : ∀ c, direct conns first second = some c →
    answer.1 = c.connType ∧ (c.connType = .byroad → answer.2 = some c.connNode)
  indirect : ¬Conn conns first second →
    (answer.1 = .indirect ↔ ChainWithin (Conn conns) deep first second) ∧
    (answer.1 = .no ↔ ¬ChainWithin (Conn conns) deep first second)

theorem conn_iff_direct : Conn conns first second ↔ ∃ c, direct conns first second = some c := by
  unfold direct
  rw [← Option.isSome_iff_exists, find?_isSome]
  simp [Conn]

theorem isDirectConnect_eq (h : TopoTable m known conns) (hfirst : known first) (second : Seg) :
    mapTopoIsDirectConnect m first second = .ok (direct conns first second) := by
  obtain ⟨t, ht, hconns⟩ := h.lookup first hfirst
  unfold mapTopoIsDirectConnect direct
  rw [ht, ok_bind, ← hconns]
  have hseg : (fun c : TopoConn δ => decide (c.rrid = second.1 ∧ c.sgid = second.2)) =
      fun c => decide (c.seg = second) := by
    funext c
    rw [decide_eq_decide, Prod.ext_iff]
    rfl
  rcases t with _ | topo
  · rfl
  · rw [hseg]
    rfl

/-- The node written for a by-road connection. -/
def copiedNode (node : TopoNode δ) : TopoNode δ :=
  { b1 := node.b1, l1 := node.l2, b2 := node.b2, l2 := node.l2 }

theorem copiedNode_eq_iff (node : TopoNode δ) : copiedNode node = node ↔ node.l1 = node.l2 := by
  obtain ⟨l1, b1, l2, b2⟩ := node
  unfold copiedNode
  simp only [TopoNode.mk.injEq, and_true]
  exact eq_comm

theorem isconnect_of_direct (h : TopoTable m known conns) (hfirst : known first) {second : Seg}
    (deep : Nat) {c : TopoConn δ} (hc : direct conns first second = some c) :
    mapTopoIsconnect m first second deep =
      .ok (c.connType, if c.connType = .byroad then some (copiedNode c.connNode) else none) := by
  unfold mapTopoIsconnect
  rw [isDirectConnect_eq h hfirst, hc, ok_bind]
  rcases h.types first hfirst c (mem_of_find?_eq_some hc) with htype | htype
  · simp only [htype]
    rfl
  · simp only [htype]
    rfl

theorem isconnect_of_not_direct (h : TopoTable m known conns) (hfirst : known first)
    {second : Seg} {deep : Nat} (hnone : direct conns first second = none) {found : Bool}
    (hfound : isConnected m second deep first = .ok found) :
    mapTopoIsconnect m first second deep =
      .ok (if found then .indirect else .no, none) := by
  unfold mapTopoIsconnect
  rw [isDirectConnect_eq h hfirst, hnone, ok_bind, hfound]
  rcases found with _ | _
  · rfl
  · rfl

/-- The tests of the two functions do no harm: a by-road connection to the second
segment has one longitude for both ends; and without a connection, a chain to a
segment that shares the road id or the number of the second is there only if one
to the second is. -/
structure Unmistakable (conns : Seg → List (TopoConn δ)) (first second : Seg) (deep : Nat) :
    Prop where
  longitude : ∀ c, direct conns first second = some c → c.connType = .byroad →
    c.connNode.l1 = c.connNode.l2
  chain : ¬Conn conns first second →
    (∃ t : Seg, (t.1 = second.1 ∨ t.2 = second.2) ∧ ChainWithin (Conn conns) deep first t) →
      ChainWithin (Conn conns) deep first second

theorem TopoTable.answered (h : TopoTable m known conns) (hfirst : known first) (second : Seg)
    (deep : Nat) :
    ∃ answer, mapTopoIsconnect m first second deep = .ok answer ∧
      (Answered conns first second deep answer ↔ Unmistakable conns first second deep) := by
  rcases hdirect : direct conns first second with _ | c
  · have hno : ¬Conn conns first second := by
      rw [conn_iff_direct, hdirect]
      simp
    obtain ⟨found, hfound, hchain⟩ := isConnected_spec h second deep hfirst
    refine ⟨_, isconnect_of_not_direct h hfirst hdirect hfound, ?_⟩
    constructor
    · intro hans
      refine ⟨fun c hc => by simp [hdirect] at hc, fun _ hother => ?_⟩
      exact (hans.indirect hno).1.mp (by rw [if_pos (hchain.mpr hother)])
    · rintro ⟨-, honly⟩
      -- a chain to the second segment is one that the search finds
      have hiff : found = true ↔ ChainWithin (Conn conns) deep first second :=
        ⟨fun hf => honly hno (hchain.mp hf), fun hsec => hchain.mpr ⟨second, .inl rfl, hsec⟩⟩
      refine ⟨?_, fun c hc => by simp [hdirect] at hc, fun _ => ?_⟩
      · simp only [hno, iff_false]
        split <;> simp
      · rw [← hiff]
        cases found <;> simp
  · have hconn : Conn conns first second := conn_iff_direct.mpr ⟨c, hdirect⟩
    have htype := h.types first hfirst c (mem_of_find?_eq_some hdirect)
    refine ⟨_, isconnect_of_direct h hfirst deep hdirect, ?_⟩
    constructor
    · intro hans
      refine ⟨fun c' hc' hbyroad => ?_, fun hno => absurd hconn hno⟩
      obtain rfl := Option.some.inj (hdirect.symm.trans hc')
      have hnode := (hans.node c hdirect).2 hbyroad
      rw [if_pos hbyroad] at hnode
      exact (copiedNode_eq_iff _).mp (Option.some.inj hnode)
    · rintro ⟨hsame, -⟩
      refine ⟨⟨fun _ => hconn, fun _ => htype⟩, fun c' hc' => ⟨?_, fun hbyroad => ?_⟩,
        fun hno => absurd hconn hno⟩
      · rw [Option.some.inj (hdirect.symm.trans hc')]
      · obtain rfl := Option.some.inj (hdirect.symm.trans hc')
        rw [if_pos hbyroad, (copiedNode_eq_iff _).mpr (hsame c hdirect hbyroad)]

/-- **Connectivity.** In every loaded table, the answer for two segments and a depth
is right exactly when the tests do no harm there. -/
theorem answered_iff [Zero δ] {lines : List (TopoFileLine δ)} (h : Buffered lines m)
    (hseg : ∀ line ∈ lines, m.InRange (line.rrid2, line.sgid2))
    (htype : ∀ line ∈ lines, line.connType = .direct ∨ line.connType = .byroad)
    (hfirst : m.InRange first) (second : Seg) (deep : Nat) :
    ∃ answer, mapTopoIsconnect m first second deep = .ok answer ∧
      (Answered (loadedConns lines) first second deep answer ↔
        Unmistakable (loadedConns lines) first second deep) :=
  (h.topoTable hseg htype).answered hfirst second deep

/-- From segment 1 of road 1 there is one way on, to segment 1 of road 2. -/
def oneWayOn : TopoFile Int where
  maxId := 1
  maxRrId := 2
  loadOnce := 2
  lines := [⟨1, 1, 1, 1, 1, .direct, 1, 1, 2, 0, 0, 0, 0⟩, .zero]

theorem oneWayOn_buffered : ∃ m, topoFileLoad 10 oneWayOn = .ok (some m) ∧
    Buffered (keptLines oneWayOn.lines) m ∧ (∀ s : Seg, s.1 < 10 ∧ 0 < s.2 → m.InRange s) ∧
    ∀ line ∈ keptLines oneWayOn.lines, m.InRange (line.rrid2, line.sgid2) := by
  let m₀ : MapTopoManager Int := ⟨2, 2, 1, 10, fun _ _ => .zero⟩
  have hinit : Buffered ([] : List (TopoFileLine Int)) m₀ :=
    ⟨by decide, by decide, by decide, fun _ _ => rfl⟩
  have hplaces : ∀ line ∈ oneWayOn.lines, line.rrid1 / m₀.rridIndexLen < 2 ^ 16 := by decide
  obtain ⟨m, hm, hbuf, hindexLen, hbuffLen⟩ := (hinit.foldlM hplaces).2 (by decide)
  have hrange (s : Seg) (hs : s.1 < 10 ∧ 0 < s.2) : m.InRange s := by
    refine ⟨?_, hs.2⟩
    rw [hindexLen, hbuffLen]
    exact Nat.div_lt_of_lt_mul hs.1
  have hseg : ∀ line ∈ keptLines oneWayOn.lines, line.rrid2 < 10 ∧ 0 < line.sgid2 := by decide
  refine ⟨m, ?_, hbuf, hrange, fun line hline => hrange _ (hseg line hline)⟩
  have hread : readLines (stepLens 2 2) oneWayOn.lines = .ok oneWayOn.lines := rfl
  show readLines (stepLens 2 2) oneWayOn.lines >>= _ = _
  rw [hread, ok_bind]
  exact bind_eq_ok.mpr ⟨m, hm, rfl⟩

theorem answered_oneWayOn : ∃ m answer, topoFileLoad 10 oneWayOn = .ok (some m) ∧
    mapTopoIsconnect m (1, 1) (2, 1) 1 = .ok answer ∧
    Answered (loadedConns (keptLines oneWayOn.lines)) (1, 1) (2, 1) 1 answer := by
  obtain ⟨m, hload, hbuf, hrange, hseg⟩ := oneWayOn_buffered
  obtain ⟨answer, hanswer, hiff⟩ :=
    answered_iff hbuf hseg (by decide) (hrange (1, 1) (by decide)) (2, 1) 1
  refine ⟨m, answer, hload, hanswer, hiff.mpr ⟨fun c hc hbyroad => ?_, fun hno => ?_⟩⟩
  · have htype : c.connType = .direct :=
      congrArg TopoConn.connType (Option.some.inj hc).symm
    rw [htype] at hbyroad
    cases hbyroad
  · exact absurd (conn_iff_direct.mpr ⟨_, rfl⟩) hno

/-- There is no way from road 1 to road 9, but the way on leads to a segment with
the same number. -/
theorem not_answered_sameNumber : ∃ m answer, topoFileLoad 10 oneWayOn = .ok (some m) ∧
    m.InRange (1, 1) ∧ m.InRange (9, 1) ∧
    mapTopoIsconnect m (1, 1) (9, 1) 1 = .ok answer ∧
    ¬Answered (loadedConns (keptLines oneWayOn.lines)) (1, 1) (9, 1) 1 answer := by
  obtain ⟨m, hload, hbuf, hrange, hseg⟩ := oneWayOn_buffered
  obtain ⟨answer, hanswer, hiff⟩ :=
    (hbuf.topoTable hseg (by decide)).answered (hrange (1, 1) (by decide)) (9, 1) 1
  refine ⟨m, answer, hload, hrange _ (by decide), hrange _ (by decide), hanswer, fun hright => ?_⟩
  have hstep (t : Seg) : Conn (loadedConns (keptLines oneWayOn.lines)) (1, 1) t ↔ t = (2, 1) := by
    have hconns : loadedConns (keptLines oneWayOn.lines) (1, 1) =
      [⟨2, 1, .direct, .zero⟩] := rfl
    unfold Conn
    rw [hconns]
    simp [TopoConn.seg, eq_comm]
  have hno : ¬Conn (loadedConns (keptLines oneWayOn.lines)) (1, 1) (9, 1) := by simp [hstep]
  have hchain := (hiff.mp hright).chain hno
    ⟨(2, 1), .inr rfl, chainWithin_succ.mpr ⟨(2, 1), (hstep _).mpr rfl, .inl rfl⟩⟩
  obtain ⟨c, hc, rfl | hrest⟩ := chainWithin_succ.mp hchain
  · exact hno hc
  · exact not_chainWithin_zero hrest

end Supex.Mapdata
