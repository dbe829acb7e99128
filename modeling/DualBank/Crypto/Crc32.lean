import Mathlib.Logic.Basic

/-!
# CRC-32

The table-free CRC of `bootloader/src/crc32.c`.
-/

namespace DualBank

def crc32Init : UInt32 := 0xFFFFFFFF

/-- One turn of the inner loop. -/
def crc32Bit (crc : UInt32) : UInt32 :=
  let mask := 0 - (crc &&& 1)
  (crc >>> 1) ^^^ (0xEDB88320 &&& mask)

/-- One turn of the outer loop: eight turns of the inner one. -/
def crc32Byte (crc : UInt32) (b : UInt8) : UInt32 :=
  Nat.repeat crc32Bit 8 (crc ^^^ b.toUInt32)

def crc32Update (crc : UInt32) : List UInt8 → UInt32
  | [] => crc
  | b :: bs => crc32Update (crc32Byte crc b) bs

def crc32Finalize (crc : UInt32) : UInt32 := crc ^^^ 0xFFFFFFFF

def crc32 (data : List UInt8) : UInt32 := crc32Finalize (crc32Update crc32Init data)

/-- The check value of the polynomial. -/
example : crc32 [0x31, 0x32, 0x33, 0x34, 0x35, 0x36, 0x37, 0x38, 0x39] = 0xCBF43926 := by
  decide +kernel

/-- Feeding a message in two pieces is feeding it whole. -/
theorem crc32Update_append (crc : UInt32) (xs ys : List UInt8) :
    crc32Update crc (xs ++ ys) = crc32Update (crc32Update crc xs) ys := by
  induction xs generalizing crc with
  | nil => rfl
  | cons x xs ih => exact ih (crc32Byte crc x)

end DualBank
