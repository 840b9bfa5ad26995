import Supex.Imx.Cid

/-!
# IMX exchange — the connections

The exchange with the connections that libcomm has open. A descriptor that was
closed may be given to a later connection, so connections are numbered in the
order in which they were accepted. libcomm delivers a message to the connection
that is open under the descriptor, and raises `STEP_STOP` for what is closed.

* `Sys`, `Act`, `step` — the system and its events.
-/

namespace Supex.Imx

--
-- Connections
--

structure Conn where
  number : Nat
  kind : RouterType
  deriving DecidableEq

/-- What has happened, for the record; `said` are the messages that a callback
has sent. -/
inductive Happened where
  | connected (k fd : Nat) (said : List Send)
  | closed (k : Nat) (said : List Send)
  | bound (k : Nat) (uid : Bytes)
  | joined (k : Nat) (gid : Bytes)
  deriving DecidableEq

structure Sys where
  exc : Exchange
  conns : Nat → Option Conn
  next : Nat
  delivered : List (Nat × List Bytes)
  log : List Happened

/-- The connection that is open under a descriptor. -/
def connAt (conns : Nat → Option Conn) (fd : Int) : Option Conn :=
  if fd < 0 then none else conns fd.toNat

/-- The connections that messages reach. -/
def reached (conns : Nat → Option Conn) (said : List Send) : List (Nat × List Bytes) :=
  said.filterMap fun s => (connAt conns s.1).map fun c => (c.number, s.2)

/-- A connection that ends. -/
def Sys.close (st : Sys) (fd : Nat) (c : Conn) : Except Abort Sys := do
  let (exc, said) ← excEventNotifyStop c.kind st.exc fd
  let conns := Function.update st.conns fd none
  return { st with
    exc := exc
    conns := conns
    delivered := st.delivered ++ reached conns said
    log := st.log ++ [.closed c.number said] }

def Sys.commapiClose (st : Sys) (fd : Int) : Except Abort Sys :=
  match connAt st.conns fd with
  | none => .ok st
  | some c => st.close fd.toNat c

/-- A message that comes in from an open connection. -/
def Sys.dispatch (st : Sys) (via : Nat) (frames : List Bytes) : Except Abort Sys := do
  let d ← excMessageDispatch st.exc via frames
  let st := { st with exc := d.exc, delivered := st.delivered ++ reached st.conns d.said }
  match d.closes with
  | none => return st
  | some fd => st.commapiClose fd

/-- A connection is accepted, ends, or fails; a manage gateway binds an open
client to a user or adds it to groups; any other message. -/
inductive Act where
  | connect (kind : RouterType) (fd : Nat) (uuid : Uuid)
  | disconnect (fd : Nat)
  | error (fd : Nat)
  | uidmap (via fd : Nat) (uid : Bytes)
  | gidmap (via fd : Nat) (gids : List Bytes)
  | receive (via : Nat) (frames : List Bytes)

/-- One event. What libcomm does not raise (a descriptor that is open is not
given away, one that is not open neither ends nor sends) changes nothing, and
neither do commands for who is no open client. -/
def step (st : Sys) : Act → Except Abort Sys
  | .connect kind fd uuid =>
    match st.conns fd with
    | some _ => .ok st
    | none => do
      let (exc, said) ← excEventNotifyInit kind st.exc fd uuid.text
      let conns := Function.update st.conns fd (some ⟨st.next, kind⟩)
      return ⟨exc, conns, st.next + 1, st.delivered ++ reached conns said,
        st.log ++ [.connected st.next fd said]⟩
  | .disconnect fd =>
    match st.conns fd with
    | none => .ok st
    | some c => st.close fd c
  | .error fd =>
    match st.conns fd with
    | some ⟨_, .client⟩ => st.commapiClose fd
    | _ => .ok st
  | .uidmap via fd uid =>
    match st.conns via, st.conns fd with
    | some ⟨_, .manage⟩, some ⟨k, .client⟩ => do
      let cid ← getCid st.exc fd
      let st ← st.dispatch via (uidmapCommand cid uid)
      return { st with log := st.log ++ [.bound k uid] }
    | _, _ => .ok st
  | .gidmap via fd gids =>
    match st.conns via, st.conns fd with
    | some ⟨_, .manage⟩, some ⟨k, .client⟩ => do
      let cid ← getCid st.exc fd
      let st ← st.dispatch via (gidmapCommand cid ([comma].intercalate gids))
      return { st with log := st.log ++ gids.map (.joined k) }
    | _, _ => .ok st
  | .receive via frames =>
    match st.conns via with
    | none => .ok st
    | some _ => st.dispatch via frames

/-- A server without connections. -/
def Sys.start (host : Bytes) (port : Nat) : Sys :=
  ⟨Exchange.start host port, fun _ => none, 0, [], []⟩

end Supex.Imx
