import Supex.Jtt.Package
import Supex.Lib.Delimited

/-!
# releaseServer — packages on a stream

With the flags of the protocol, `[` and `]`, the packages on a connection delimit
themselves: everything between the two flags is escaped.

Main result: `packages_delimited`.
-/

namespace Supex.Jtt

open Supex.Lib

def HEAD_FLAG : UInt8 := 0x5B

def END_FLAG : UInt8 := 0x5D

/-- A call of `pkg_encode` that returned 0, with the flags of the protocol. -/
structure Encoded where
  key : UInt32
  user : PkgUser
  pkg : Mem
  plen : Int
  body : PkgBody
  head_flag : user.headFlag = HEAD_FLAG
  end_flag : user.endFlag = END_FLAG
  ok : (pkgEncode key user pkg plen body).1 = 0

namespace Encoded

/-- The bytes it produced: `*plen` bytes of `pkg`. -/
def bytes (c : Encoded) : Bytes :=
  let r := pkgEncode c.key c.user c.pkg c.plen c.body
  r.2.2.1.load 0 r.2.2.2.toNat

theorem bytes_eq (c : Encoded) : c.bytes = frame c.key c.user c.body := by
  have hok := c.ok
  unfold bytes
  obtain ⟨r, hr⟩ : ∃ r, pkgEncode c.key c.user c.pkg c.plen c.body = r := ⟨_, rfl⟩
  rw [hr] at hok ⊢
  obtain ⟨code, user', pkg', plen'⟩ := r
  obtain rfl : code = 0 := hok
  obtain ⟨-, rfl, rfl⟩ := pkgEncode_ok hr
  dsimp only
  rw [Int.toNat_natCast]
  exact Mem.holds_store _ _ _

theorem delimited (c : Encoded) : Delimited HEAD_FLAG END_FLAG c.bytes := by
  refine ⟨escaped (tmpPkg c.key c.user c.body), ?_, not_mem_escaped (.inl rfl),
    not_mem_escaped (.inr rfl)⟩
  rw [bytes_eq, frame, c.head_flag, c.end_flag]

theorem decodes (c : Encoded) {m : Mem} (h : m.Holds 0 c.bytes) :
    ∃ out, pkgDecode c.user m c.bytes.length =
        (0, out, ((JTT_HEAD_SIZE + c.body.data.length + 3 : Nat) : Int)) ∧
      out.Holds 0 ((bigHead c.key c.user c.body).bytes ++ c.body.data) := by
  rw [bytes_eq] at h ⊢
  exact pkgDecode_frame rfl rfl h

end Encoded

theorem flags_ne : HEAD_FLAG ≠ END_FLAG := by decide

theorem delimited_of_mem {cs : List Encoded} {p : Bytes} (h : p ∈ cs.map Encoded.bytes) :
    Delimited HEAD_FLAG END_FLAG p := by
  obtain ⟨c, -, rfl⟩ := List.mem_map.mp h
  exact c.delimited

/-- A package with delimiters everywhere. -/
def delimiterCall : Encoded where
  key := 7
  user := delimiterUser
  pkg := fun _ => 0
  plen := 5120
  body := delimiterBody
  head_flag := rfl
  end_flag := rfl
  ok := by
    have hle := escaped_length_le (tmpPkg 7 delimiterUser delimiterBody)
    rw [tmpPkg_length, show delimiterBody.data.length = 3 from rfl] at hle
    exact pkgEncode_fits 7 delimiterUser (fun _ => 0) 5120 delimiterBody (by omega)

end Supex.Jtt
