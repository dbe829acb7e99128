import DualBank.Common.MemoryMap
import DualBank.Lib.Bytes

/-!
# Firmware header

`FirmwareHeader_t` of `common/firmware_format.h`: a packed record over the first
512 bytes of a slot.  The record is kept as its bytes, and the fields are views
of them at the documented offsets.
-/

namespace DualBank

open Lib

/-- The little-endian word at an offset of a packed record. -/
def u32At (bs : List UInt8) (off : Nat) : UInt32 :=
  le32 (bs.getD off 0) (bs.getD (off + 1) 0) (bs.getD (off + 2) 0) (bs.getD (off + 3) 0)

/-- The first word of a packed record. -/
theorem u32At_bytes32 (w : UInt32) (bs : List UInt8) : u32At (bytes32 w ++ bs) 0 = w :=
  le32_bytes w

/-- The words behind the first one. -/
theorem u32At_bytes32_append (w : UInt32) (bs : List UInt8) (off : Nat) :
    u32At (bytes32 w ++ bs) (off + 4) = u32At bs off := rfl

/-- The 512 bytes of a `FirmwareHeader_t`. -/
structure FirmwareHeader where
  bytes : List UInt8
  length_bytes : bytes.length = firmwareHeaderSize

namespace FirmwareHeader

def magic (h : FirmwareHeader) : UInt32 := u32At h.bytes 0
def version (h : FirmwareHeader) : UInt32 := u32At h.bytes 4
def imageSize (h : FirmwareHeader) : UInt32 := u32At h.bytes 8
def crc32 (h : FirmwareHeader) : UInt32 := u32At h.bytes 16

/-- The `signature` field at offset 20: `r` then `s`, big-endian. -/
def signature (h : FirmwareHeader) : List UInt8 := (h.bytes.drop 20).take firmwareSignatureSize

@[ext] theorem ext {h h' : FirmwareHeader} (e : h.bytes = h'.bytes) : h = h' := by
  cases h; cases h'; cases e; rfl

/-- The header a slot base holds in a memory. -/
def ofMem (m : Mem) (addr : Nat) : FirmwareHeader :=
  ⟨m.read addr firmwareHeaderSize, by simp⟩

@[simp] theorem bytes_ofMem (m : Mem) (addr : Nat) :
    (ofMem m addr).bytes = m.read addr firmwareHeaderSize := rfl

theorem ofMem_congr {m m' : Mem} {addr : Nat}
    (h : Set.EqOn m m' (Set.Ico addr (addr + firmwareHeaderSize))) :
    ofMem m addr = ofMem m' addr := ext (Mem.read_congr h)

/-- The checks on a header that do not look at the payload: the magic and the
payload size, which must be positive and fit the slot. -/
def admissible (h : FirmwareHeader) : Bool :=
  h.magic == firmwareMagic && (0 < h.imageSize.toNat && h.imageSize.toNat ≤ firmwareMaxPayloadSize)

theorem admissible_iff {h : FirmwareHeader} :
    h.admissible = true ↔ h.magic = firmwareMagic ∧
      0 < h.imageSize.toNat ∧ h.imageSize.toNat ≤ firmwareMaxPayloadSize := by
  simp [admissible]

/-- The header of an erased slot. -/
def erased : FirmwareHeader := ⟨List.replicate firmwareHeaderSize 0xFF, by simp⟩

@[simp] theorem magic_erased : erased.magic = 0xFFFFFFFF := by decide

@[simp] theorem admissible_erased : erased.admissible = false := by decide

theorem ofMem_eq_erased {m : Mem} {addr : Nat}
    (h : ∀ x, addr ≤ x → x < addr + firmwareHeaderSize → m x = 0xFF) :
    ofMem m addr = erased := ext (Mem.read_eq_replicate h)

end FirmwareHeader

end DualBank
