import Supex.Tsdb.Commands

/-!
# IMX exchange — the server

The exchange of openChat passes messages between its clients and three kinds of
gateways. It keeps a table of slots indexed by file descriptor, a list of
connected gateways of each kind, and, in libkv, who is bound to which
descriptor:

* `UID_CID`, `CID_UID` — the descriptor of a user, and the user of a descriptor;
* `GID_CID`, `CID_GID` — the descriptors in a group, and the groups of one.

A message is the list of its frames. What a handler hands to libcomm is
returned: the messages it sends, and the descriptor it closes.
-/

namespace Supex.Imx

open Tsdb (strtok atoi fmtInt)
open Function (update)

--
-- Data
--

def FD_CAPACITY : Nat := 1024 * 100
def MAX_CID_SIZE : Nat := 128
def MAX_UID_SIZE : Nat := 128
def MAX_GID_SIZE : Nat := 128

/-- `enum router_type`. -/
inductive RouterType where
  | client
  | status
  | stream
  | manage
  deriving DecidableEq

/-- `struct fd_info`, without the address, which nothing reads. -/
structure FdInfo where
  status : Nat
  type : RouterType
  uuid : Bytes
  deriving DecidableEq

/-- A slot that was zeroed. -/
def FdInfo.zero : FdInfo := ⟨0, .client, []⟩

/-- Why the process stops. -/
inductive Abort where
  /-- a slot outside the table -/
  | index
  /-- `assert(des->status == 1)` -/
  | released
  /-- `assert(0)` on a descriptor above the capacity -/
  | capacity
  /-- `assert(fsz < ...)` on a frame -/
  | oversize
  /-- a write or read behind a buffer -/
  | overflow
  /-- a null pointer -/
  | null
  deriving DecidableEq

/-- A message handed to `commapi_send`: where to, and its frames. -/
abbrev Send := Int × List Bytes

/-- The globals of the server. `gatewayFd` is `stream_gateway_fd`,
`manage_gateway_fd` and `status_gateway_fd` of `g_serv_info`. -/
structure Exchange where
  host : Bytes
  port : Nat
  slot : Nat → FdInfo
  list : RouterType → List Int
  gatewayFd : RouterType → Int
  uidCid : Bytes → Option Bytes
  cidUid : Bytes → Option Bytes
  gidCid : Bytes → List Bytes
  cidGid : Bytes → List Bytes

--
-- libkv
--

def space : UInt8 := 32

/-- A command is split at its spaces; with a word too many or too few it fails
and changes nothing. -/
def kvGet {α : Type} (m : Bytes → α) (missing : α) (key : Bytes) : α :=
  if space ∈ key then missing else m key

def kvSet (m : Bytes → Option Bytes) (key value : Bytes) : Bytes → Option Bytes :=
  if space ∈ key ∨ space ∈ value ∨ value = [] then m else update m key (some value)

def kvDel (m : Bytes → Option Bytes) (key : Bytes) : Bytes → Option Bytes :=
  if space ∈ key then m else update m key none

def kvSadd (m : Bytes → List Bytes) (key member : Bytes) : Bytes → List Bytes :=
  if space ∈ key ∨ space ∈ member ∨ member = [] then m
  else update m key (if member ∈ m key then m key else m key ++ [member])

def kvSrem (m : Bytes → List Bytes) (key member : Bytes) : Bytes → List Bytes :=
  if space ∈ key ∨ space ∈ member ∨ member = [] then m
  else update m key ((m key).erase member)

/-- A value copied to an array of the given size with `snprintf`. -/
def copied (size : Nat) (value : Bytes) : Bytes := (cstr value).take (size - 1)

--
-- Slots and lists
--

def fdmanSlotSet (exc : Exchange) (fd : Int) (des : FdInfo) : Except Abort Exchange :=
  if (FD_CAPACITY : Int) < fd then .error .capacity
  else if 0 ≤ fd ∧ fd < FD_CAPACITY then
    .ok { exc with slot := update exc.slot fd.toNat des }
  else .error .index

def fdmanSlotGet (exc : Exchange) (fd : Int) : Except Abort FdInfo :=
  if 0 ≤ fd ∧ fd < FD_CAPACITY then .ok (exc.slot fd.toNat) else .error .index

def fdmanSlotDel (exc : Exchange) (fd : Int) : Except Abort Exchange := do
  let des ← fdmanSlotGet exc fd
  if des.status ≠ 1 then throw .released
  else return { exc with slot := update exc.slot fd.toNat .zero }

/-- `fdman_list_add`: at the end. -/
def fdmanListAdd (exc : Exchange) (type : RouterType) (fd : Int) : Exchange :=
  { exc with list := update exc.list type (exc.list type ++ [fd]) }

/-- `fdman_list_del`: the first node with the descriptor. -/
def fdmanListDel (exc : Exchange) (type : RouterType) (fd : Int) : Exchange :=
  { exc with list := update exc.list type ((exc.list type).erase fd) }

def fdmanListTop (exc : Exchange) (type : RouterType) : Option Int := (exc.list type).head?

--
-- Identities of connections
--

def bar : UInt8 := 124
def colon : UInt8 := 58
def dash : UInt8 := 45
def comma : UInt8 := 44

def getCid (exc : Exchange) (fd : Int) : Except Abort Bytes := do
  let des ← fdmanSlotGet exc fd
  return (des.uuid ++ bar :: (exc.host ++ colon :: (fmtInt exc.port ++ dash :: fmtInt fd))).take
    (MAX_CID_SIZE - 1)

/-- How `_handle_cid_message`, `_erased_client`, `_handle_uid_map` and
`_handle_gid_map` read the frame with a cid: the descriptor, when the host and
the port are those of this server. The uuid is not looked at. -/
def cidFd (exc : Exchange) (frame : Bytes) : Except Abort (Option Int) :=
  if MAX_CID_SIZE ≤ frame.length then .error .oversize
  else
    match strtok (cstr frame) bar with
    | none => .error .null
    | some (_, rest) =>
      match strtok rest colon with
      | none => .error .null
      | some (host, rest) =>
        if host ≠ exc.host then .ok none
        else
          match strtok rest dash with
          | none => .error .null
          | some (port, rest) =>
            if (exc.port : Int) ≠ atoi port then .ok none
            else if rest = [] then .error .null
            else .ok (some (atoi rest))

--
-- Status messages
--

/-- `each_gid_fcb`. A group that is copied from a set fills its array. -/
def eachGidFcb (cid : Bytes) (exc : Exchange) (gid : Bytes) : Exchange :=
  let gid := cstr (gid.take MAX_GID_SIZE)
  { exc with cidGid := kvSrem exc.cidGid cid gid, gidCid := kvSrem exc.gidCid gid cid }

/-- The user that `erase_client` looks up; the array stays empty when there is
none. -/
def erasedUid (exc : Exchange) (fd : Int) : Bytes :=
  match kvGet exc.cidUid none (fmtInt fd) with
  | none => []
  | some uid => copied MAX_UID_SIZE uid

def eraseClient (exc : Exchange) (fd : Int) : Exchange :=
  let cid := fmtInt fd
  let exc := { exc with
    uidCid := kvDel exc.uidCid (erasedUid exc fd)
    cidUid := kvDel exc.cidUid cid }
  (kvGet exc.cidGid [] cid).foldl (eachGidFcb cid) exc

def sendStatusMsg (exc : Exchange) (fd : Int) (status : Bytes) : Except Abort (List Send) := do
  let cid ← getCid exc fd
  return if 0 < exc.gatewayFd .status then
    [(exc.gatewayFd .status, [ascii "status", status, cid])] else []

--
-- Messages
--

/-- `memcmp` of a frame with a word. A frame that is too short is compared with
what lies behind it; it counts as different. -/
def startsWith (frame word : Bytes) : Bool := word.isPrefixOf frame

/-- `find_best_gateway`: what `*fd` is afterwards, when it was 0. -/
def findBestGateway (exc : Exchange) : Int :=
  if 0 < exc.gatewayFd .stream then exc.gatewayFd .stream
  else (fdmanListTop exc .stream).getD 0

def dispatchClient (exc : Exchange) (fd : Int) (frames : List Bytes) :
    Except Abort (List Send) := do
  if 0 < findBestGateway exc then
    let cid ← getCid exc fd
    return [(findBestGateway exc, ascii "upstream" :: cid :: frames)]
  else return []

def handleCidMessage (exc : Exchange) (frames : List Bytes) : Except Abort (List Send) :=
  match frames[2]? with
  | none => .error .null
  | some frame => do
    match ← cidFd exc frame with
    | none => return []
    | some fd => return [(fd, frames.drop 3)]

def handleUidMessage (exc : Exchange) (frames : List Bytes) : Except Abort (List Send) :=
  match frames[2]? with
  | none => .error .null
  | some frame =>
    if MAX_UID_SIZE ≤ frame.length then .error .oversize
    else
      match kvGet exc.uidCid none (cstr frame) with
      | none => .ok []
      | some cid =>
        let cfd := atoi (copied MAX_CID_SIZE cid)
        .ok (if cfd ≠ -1 then [(cfd, frames.drop 3)] else [])

/-- `_handle_gid_message` with `each_cid_fcb`. -/
def handleGidMessage (exc : Exchange) (frames : List Bytes) : Except Abort (List Send) :=
  match frames[2]? with
  | none => .error .null
  | some frame =>
    if MAX_GID_SIZE ≤ frame.length then .error .oversize
    else .ok ((kvGet exc.gidCid [] (cstr frame)).map fun cid =>
      (atoi (cstr (cid.take MAX_CID_SIZE)), frames.drop 3))

def downstreamMsg (exc : Exchange) (frames : List Bytes) : Except Abort (List Send) :=
  match frames[1]? with
  | none => .ok []
  | some frame =>
    if startsWith frame (ascii "cid") then handleCidMessage exc frames
    else if startsWith frame (ascii "uid") then handleUidMessage exc frames
    else if startsWith frame (ascii "gid") then handleGidMessage exc frames
    else .ok []

def dispatchStream (exc : Exchange) (frames : List Bytes) : Except Abort (List Send) :=
  match frames[0]? with
  | none => .error .null
  | some frame =>
    if startsWith frame (ascii "downstream") then downstreamMsg exc frames else .ok []

--
-- Commands
--

/-- What a command does to the globals, and the descriptor it closes. -/
abbrev Commanded := Exchange × Option Int

/-- The part of `_erased_client` behind the checks. -/
def eraseAndClose (exc : Exchange) (fd : Int) : Except Abort Commanded := do
  let exc ← fdmanSlotDel exc fd
  return (eraseClient exc fd, some fd)

def erasedClient (exc : Exchange) (frames : List Bytes) : Except Abort Commanded :=
  match frames[2]? with
  | none => .error .null
  | some frame => do
    match ← cidFd exc frame with
    | none => return (exc, none)
    | some fd => eraseAndClose exc fd

def handleStatus (exc : Exchange) (frames : List Bytes) : Except Abort Commanded :=
  match frames[3]? with
  | none => .ok (exc, none)
  | some frame =>
    if startsWith frame (ascii "closed") then erasedClient exc frames else .ok (exc, none)

/-- The two maps of a user. -/
def setUid (exc : Exchange) (fd : Int) (uid : Bytes) : Exchange :=
  { exc with
    uidCid := kvSet exc.uidCid uid (fmtInt fd)
    cidUid := kvSet exc.cidUid (fmtInt fd) uid }

def handleUidMap (exc : Exchange) (frames : List Bytes) : Except Abort Commanded :=
  match frames[2]? with
  | none => .error .null
  | some frame => do
    match ← cidFd exc frame with
    | none => return (exc, none)
    | some fd =>
      match frames[3]? with
      | none => throw .null
      | some uid =>
        if MAX_UID_SIZE ≤ uid.length then throw .oversize
        else return (setUid exc fd (cstr uid), none)

/-- The two sets of a group. The array has to hold the NUL of the group. -/
def addGid (exc : Exchange) (cid gid : Bytes) : Except Abort Exchange :=
  if MAX_GID_SIZE ≤ gid.length ∧ (0 : UInt8) ∉ gid then .error .overflow
  else .ok { exc with
    gidCid := kvSadd exc.gidCid (cstr gid) cid
    cidGid := kvSadd exc.cidGid cid (cstr gid) }

/-- The loop of `_handle_gid_map` over its frame, with the group read so far. -/
def gidMapLoop (cid : Bytes) : Exchange → Bytes → Bytes → Except Abort Exchange
  | exc, gid, [] => addGid exc cid gid
  | exc, gid, b :: rest =>
    if b = comma then do
      let exc ← addGid exc cid gid
      gidMapLoop cid exc [] rest
    else if MAX_GID_SIZE ≤ gid.length then .error .overflow
    else gidMapLoop cid exc (gid ++ [b]) rest

def handleGidMap (exc : Exchange) (frames : List Bytes) : Except Abort Commanded :=
  match frames[2]? with
  | none => .error .null
  | some frame => do
    match ← cidFd exc frame with
    | none => return (exc, none)
    | some fd =>
      match frames[3]? with
      | none => throw .null
      | some gids =>
        let exc ← gidMapLoop (fmtInt fd) exc [] gids
        return (exc, none)

def dispatchManage (exc : Exchange) (frames : List Bytes) : Except Abort Commanded :=
  match frames[0]? with
  | none => .error .null
  | some frame =>
    if startsWith frame (ascii "manage") then
      match frames[1]? with
      | none => .error .null
      | some cmd =>
        if startsWith cmd (ascii "status") then handleStatus exc frames
        else if startsWith cmd (ascii "uidmap") then handleUidMap exc frames
        else if startsWith cmd (ascii "gidmap") then handleGidMap exc frames
        else .ok (exc, none)
    else .ok (exc, none)

--
-- Events
--

/-- `STEP_INIT` of `exc_event_notify_from_client`. -/
def clientInit (exc : Exchange) (fd : Int) (uuid : Bytes) :
    Except Abort (Exchange × List Send) := do
  let exc ← fdmanSlotSet exc fd ⟨1, .client, uuid⟩
  let said ← sendStatusMsg exc fd (ascii "connected")
  return (exc, said)

/-- `STEP_STOP` of `exc_event_notify_from_client`: the slot goes first. -/
def clientStop (exc : Exchange) (fd : Int) : Except Abort (Exchange × List Send) := do
  let exc ← fdmanSlotDel exc fd
  let exc := eraseClient exc fd
  let said ← sendStatusMsg exc fd (ascii "closed")
  return (exc, said)

/-- `STEP_INIT` of a gateway. -/
def gatewayInit (kind : RouterType) (exc : Exchange) (fd : Int) (uuid : Bytes) :
    Except Abort (Exchange × List Send) := do
  let exc ← fdmanSlotSet exc fd ⟨1, kind, uuid⟩
  let exc := fdmanListAdd exc kind fd
  return ({ exc with gatewayFd := update exc.gatewayFd kind fd }, [])

/-- `STEP_STOP` of a gateway: only the current one leaves the list. -/
def gatewayStop (kind : RouterType) (exc : Exchange) (fd : Int) :
    Except Abort (Exchange × List Send) := do
  let exc ← fdmanSlotDel exc fd
  if exc.gatewayFd kind = fd then
    let exc := { exc with gatewayFd := update exc.gatewayFd kind 0 }
    return (fdmanListDel exc kind fd, [])
  else return (exc, [])

/-- `STEP_INIT` of the four callbacks: `exc_event_notify_from_client`,
`..._stream`, `..._manage` and `..._status`. -/
def excEventNotifyInit : RouterType → Exchange → Int → Bytes → Except Abort (Exchange × List Send)
  | .client => clientInit
  | .stream => gatewayInit .stream
  | .manage => gatewayInit .manage
  | .status => gatewayInit .status

/-- `STEP_STOP` of the four callbacks. -/
def excEventNotifyStop : RouterType → Exchange → Int → Except Abort (Exchange × List Send)
  | .client => clientStop
  | .stream => gatewayStop .stream
  | .manage => gatewayStop .manage
  | .status => gatewayStop .status

/-- What `exc_message_dispatch` leads to. -/
structure Dispatched where
  exc : Exchange
  said : List Send
  closes : Option Int

/-- `exc_message_dispatch`: the slot says what kind of connection it is from. -/
def excMessageDispatch (exc : Exchange) (fd : Int) (frames : List Bytes) :
    Except Abort Dispatched := do
  let des ← fdmanSlotGet exc fd
  match des.type with
  | .client =>
    let said ← dispatchClient exc fd frames
    return ⟨exc, said, none⟩
  | .stream =>
    let said ← dispatchStream exc frames
    return ⟨exc, said, none⟩
  | .manage =>
    let (exc, closes) ← dispatchManage exc frames
    return ⟨exc, [], closes⟩
  | .status => return ⟨exc, [], none⟩

/-- The globals after `_do_init`, before the first event. -/
def Exchange.start (host : Bytes) (port : Nat) : Exchange where
  host := host
  port := port
  slot _ := .zero
  list _ := []
  gatewayFd _ := 0
  uidCid _ := none
  cidUid _ := none
  gidCid _ := []
  cidGid _ := []

end Supex.Imx
