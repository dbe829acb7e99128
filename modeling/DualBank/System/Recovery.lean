import DualBank.Boot.Main
import DualBank.Ota.Atomic

/-!
# The recovery menu

`bootloader/src/recovery.c`, and with it the whole bootloader as one system: a pass of
`main` ends in an application or in the menu, the menu starts the receiver, and the
receiver and the menu reset the system.  What comes from outside is an event: a byte at
the menu, what `read_frame` returns in the receiver, and a soft reset, which keeps the
flash and the shared block.  Applications only run until the next reset.
-/

namespace DualBank

open Lib FlashBackend

/-- Where the device is between two events. -/
inductive Phase (σ : Type) where
  /-- The application of the slot at this address. -/
  | application (slotAddr : Nat) (m : Machine σ)
  | halted (m : Machine σ)
  | menu (m : Machine σ)
  | receiving (r : Receiver σ)
  /-- After `bootloader_system_reset`. -/
  | resetting (m : Machine σ)

/-- What a reset leaves in place. -/
def Phase.machine {σ : Type} : Phase σ → Machine σ
  | .application _ m => m
  | .halted m => m
  | .menu m => m
  | .receiving r => ⟨r.client.dev, r.client.shared⟩
  | .resetting m => m

inductive SystemEvent where
  | command (cmd : UInt8)
  | frame (s : FrameStatus)
  | softReset

/-- `'U'`, `'V'` and `'R'`, in either case. -/
def isUpload (cmd : UInt8) : Bool := cmd == 85 || cmd == 117
def isVerify (cmd : UInt8) : Bool := cmd == 86 || cmd == 118
def isReboot (cmd : UInt8) : Bool := cmd == 82 || cmd == 114

/-- A turn of the loop of `recovery_mode_run`; `verify_and_report` only prints. -/
def recoveryCommand {σ : Type} (cmd : UInt8) (m : Machine σ) : Phase σ :=
  if isUpload cmd then .receiving (.enter m.dev m.shared)
  else if isVerify cmd then .menu m
  else if isReboot cmd then .resetting m
  else .menu m

/-- Where a turn of the receive loop leads. -/
def Receiver.phase {σ : Type} (r : Receiver σ) : Phase σ :=
  match r.status with
  | .receiving => .receiving r
  | .returned => .menu ⟨r.client.dev, r.client.shared⟩
  | .reset => .resetting ⟨r.client.dev, r.client.shared⟩

/-- The device, and the slots that transfers have been opened to since the start. -/
structure System (σ : Type) where
  phase : Phase σ
  staged : List Nat

section

variable {σ : Type} [FlashBackend σ] (E : PatchEngine) (K : KeyStore)

/-- Where a pass of `main` leads. -/
def bootPhase (m : Machine σ) : Phase σ :=
  let r := main (onFlash σ K) m
  match r.1 with
  | .jump slotAddr => .application slotAddr r.2
  | .halted => .halted r.2
  | .recovery => .menu r.2

/-- The slot that a turn of the receiver opens a transfer to, if it does. -/
def openedSlot (r : Receiver σ) : FrameStatus → Option Nat
  | .ok f => (opening K f r.client).map Opening.addr
  | _ => none

def System.step (d : System σ) : SystemEvent → System σ
  | .command cmd =>
    match d.phase with
    | .menu m => { d with phase := recoveryCommand cmd m }
    | _ => d
  | .frame s =>
    match d.phase with
    | .receiving r => ⟨(receive E K r s).phase, (openedSlot K r s).toList ++ d.staged⟩
    | _ => d
  | .softReset => { d with phase := bootPhase K d.phase.machine }

end

section

variable {σ : Type}

@[simp] theorem machine_phase (r : Receiver σ) :
    r.phase.machine = ⟨r.client.dev, r.client.shared⟩ := by
  unfold Receiver.phase
  cases r.status <;> rfl

theorem phase_eq_receiving {r r' : Receiver σ} (h : r.phase = .receiving r') :
    r' = r ∧ r.status = .receiving := by
  unfold Receiver.phase at h
  cases hs : r.status with
  | receiving => rw [hs] at h; cases h; exact ⟨rfl, rfl⟩
  | returned => rw [hs] at h; cases h
  | reset => rw [hs] at h; cases h

/-- A frame after which the receiver goes on. -/
theorem step_receiving [FlashBackend σ] {E : PatchEngine} {K : KeyStore} {r : Receiver σ}
    {staged : List Nat} {s : FrameStatus} (h : (receive E K r s).status = .receiving) :
    System.step E K ⟨.receiving r, staged⟩ (.frame s) =
      ⟨.receiving (receive E K r s), (openedSlot K r s).toList ++ staged⟩ := by
  unfold System.step Receiver.phase
  dsimp only
  rw [h]

@[simp] theorem machine_recoveryCommand (cmd : UInt8) (m : Machine σ) :
    (recoveryCommand cmd m).machine = m := by
  unfold recoveryCommand
  split_ifs <;> rfl

/-- The menu starts the receiver afresh. -/
theorem recoveryCommand_eq_receiving {cmd : UInt8} {m : Machine σ} {r : Receiver σ}
    (h : recoveryCommand cmd m = .receiving r) : r = .enter m.dev m.shared := by
  unfold recoveryCommand at h
  split_ifs at h
  cases h
  rfl

@[simp] theorem machine_bootPhase [FlashBackend σ] (K : KeyStore) (m : Machine σ) :
    (bootPhase K m).machine = (main (onFlash σ K) m).2 := by
  unfold bootPhase
  dsimp only
  split <;> rfl

theorem bootPhase_ne_receiving [FlashBackend σ] (K : KeyStore) (m : Machine σ) (r : Receiver σ) :
    bootPhase K m ≠ .receiving r := by
  unfold bootPhase
  dsimp only
  split <;> exact nofun

end

end DualBank
