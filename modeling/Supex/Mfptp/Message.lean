import Supex.Mfptp.Parser

/-!
# libmfptp — the wire format

What a message is, independent of who wrote it: frames as the protocol allows
them (any length width that holds the length, any high bits in the control
byte), packages of up to thirteen frames, and a header. The packer writes some
of these messages, the parser has to take all of them.

* `Message.bytes` — the bytes on the wire.
* `Message.cut` — the bytes before, of and behind one frame of a message.
-/

namespace Supex.Mfptp

open Supex.Lib List

--
-- Frames
--

/-- A frame: a control byte whose two flags are known and whose width holds the
length of the data. -/
structure WireFrame where
  ctrl : UInt8
  data : Bytes
  complete_le : low23Bits ctrl ≤ 1
  fits : data.length < 256 ^ sizeFSize ctrl

namespace WireFrame

/-- The number of bytes of the length. -/
def width (f : WireFrame) : Nat := sizeFSize f.ctrl

/-- The control byte and the length. -/
def head (f : WireFrame) : Bytes := f.ctrl :: beBytes f.width f.data.length

def bytes (f : WireFrame) : Bytes := f.head ++ f.data

/-- The last frame of its package. -/
def last (f : WireFrame) : Bool := low23Bits f.ctrl = 0

theorem head_length (f : WireFrame) : f.head.length = 1 + f.width := by
  rw [head, length_cons, beBytes_length]
  omega

theorem bytes_length (f : WireFrame) : f.bytes.length = 1 + f.width + f.data.length := by
  rw [bytes, length_append, head_length]

theorem width_pos (f : WireFrame) : 1 ≤ f.width := Nat.le_add_left ..

/-- The part of a frame the callback is told about. -/
def content (f : WireFrame) : Int × Bytes := (f.data.length, f.data)

end WireFrame

/-- The bytes of a sequence of frames. -/
def body (fs : List WireFrame) : Bytes := fs.flatMap WireFrame.bytes

@[simp] theorem body_nil : body [] = [] := rfl

theorem body_cons (f : WireFrame) (fs : List WireFrame) : body (f :: fs) = f.bytes ++ body fs :=
  flatMap_cons

theorem body_append (fs gs : List WireFrame) : body (fs ++ gs) = body fs ++ body gs :=
  flatMap_append

--
-- Messages
--

/-- A package: frames that announce a further one, and one that does not. -/
structure IsPackage (fs : List WireFrame) : Prop where
  length : fs.length ≤ MAX_FRAMES_PER_PACKAGE
  ne_nil : fs ≠ []
  last : ∀ xs f ys, fs = xs ++ f :: ys → (f.last = true ↔ ys = [])

/-- A message that is no heartbeat. -/
structure Message where
  version : UInt8
  coding : UInt8
  method : UInt8
  packages : List (List WireFrame)
  method_ne : method ≠ HEARTBEAT_METHOD
  count_pos : packages ≠ []
  count_le : packages.length ≤ 255
  isPackage : ∀ fs ∈ packages, IsPackage fs

namespace Message

/-- The header. -/
def header (m : Message) : Bytes :=
  magic ++ [m.version, m.coding, m.method, UInt8.ofNat m.packages.length]

def bytes (m : Message) : Bytes := m.header ++ body m.packages.flatten

theorem header_length (m : Message) : m.header.length = 10 := rfl

theorem count_toNat (m : Message) :
    (UInt8.ofNat m.packages.length).toNat = m.packages.length := by
  rw [UInt8.toNat_ofNat']
  have := m.count_le
  omega

end Message

/-- Where a frame begins that stands behind the packages `done` and the frames
`cur` of its own package. -/
def place (done : List (List WireFrame)) (cur : List WireFrame) : Nat :=
  10 + (body (done.flatten ++ cur)).length

theorem place_snoc (done : List (List WireFrame)) (cur : List WireFrame) (f : WireFrame) :
    place done (cur ++ [f]) = place done cur + f.bytes.length := by
  unfold place
  rw [← append_assoc, body_append, length_append, body_cons, body_nil, append_nil]
  omega

theorem place_done (done : List (List WireFrame)) (fs : List WireFrame) :
    place (done ++ [fs]) [] = place done fs := by
  unfold place
  rw [flatten_append, append_nil, flatten_cons, flatten_nil, append_nil]

variable {done later : List (List WireFrame)}

theorem Message.split {m : Message} {fs : List WireFrame} (h : m.packages = done ++ fs :: later) :
    m.bytes = (m.header ++ body done.flatten) ++ (body fs ++ body later.flatten) := by
  unfold Message.bytes
  rw [h, flatten_append, flatten_cons, body_append, body_append, append_assoc]

theorem Message.split_length (m : Message) (done : List (List WireFrame)) :
    (m.header ++ body done.flatten).length = place done [] := by
  rw [length_append, m.header_length]
  unfold place
  rw [append_nil]

theorem Message.cut {m : Message} {cur todo : List WireFrame} {f : WireFrame}
    (h : m.packages = done ++ (cur ++ f :: todo) :: later) :
    ∃ before behind, m.bytes = before ++ f.bytes ++ behind ∧ before.length = place done cur := by
  refine ⟨m.header ++ body (done.flatten ++ cur), body (todo ++ later.flatten), ?_, ?_⟩
  · rw [m.split h, body_append, body_append, body_append, body_cons]
    simp only [append_assoc]
  · rw [length_append, m.header_length]
    rfl

theorem Message.place_le {m : Message} {cur todo : List WireFrame} {f : WireFrame}
    (h : m.packages = done ++ (cur ++ f :: todo) :: later) :
    place done cur + f.bytes.length ≤ m.bytes.length := by
  obtain ⟨before, behind, hbytes, hlen⟩ := m.cut h
  rw [hbytes, length_append, length_append, hlen]
  omega

end Supex.Mfptp
