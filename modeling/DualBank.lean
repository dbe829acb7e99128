import DualBank.Lib.Run
import DualBank.Lib.Calls
import DualBank.Common.Firmware
import DualBank.Common.SharedMemory
import DualBank.Flash.Backend
import DualBank.Flash.Cut
import DualBank.Flash.Agreement
import DualBank.Flash.Parallelism
import DualBank.Flash.Erase
import DualBank.Crypto.Crc32
import DualBank.Crypto.Burst
import DualBank.Crypto.Sha256
import DualBank.Crypto.Verify
import DualBank.Crypto.Digest
import DualBank.Crypto.LowS
import DualBank.Crypto.OneShot
import DualBank.Config.Record
import DualBank.Config.Store
import DualBank.Config.Torn
import DualBank.Config.ExactFloor
import DualBank.Boot.Platform
import DualBank.Boot.Main
import DualBank.Boot.Slots
import DualBank.Boot.Pass
import DualBank.Boot.Revert
import DualBank.Boot.Reconstruct
import DualBank.Tools.FlashLayout
import DualBank.Tools.Signing
import DualBank.Tools.Malleability
import DualBank.Boot.JumpTarget
import DualBank.Boot.FixedSlots
import DualBank.Boot.Attempts
import DualBank.Boot.Confirmed
import DualBank.Boot.ColdBoot
import DualBank.Boot.Factory
import DualBank.Boot.Floor
import DualBank.Ota.Delta
import DualBank.Tools.DeltaCommon
import DualBank.Boot.Saves
import DualBank.Boot.Locked
import DualBank.Ota.InPlace
import DualBank.Patch.Malformed
import DualBank.Ota.Frame
import DualBank.Ota.Uart
import DualBank.Ota.Session
import DualBank.Ota.Loss
import DualBank.Ota.Atomic
import DualBank.Ota.Delivery
import DualBank.Ota.Admission
import DualBank.System.Integrity
import DualBank.System.Recovery
import DualBank.System.Downgrade
import DualBank.System.FloorRuns
import DualBank.Patch.Rebuilt
import DualBank.System.DeltaTransfer
import DualBank.System.Authentic
