import DualBank.Boot.Slots

/-!
# The provisioned flash image

`tools/flash_layout.py`: the script that lays the bootloader, a default record and
the slot images out in one flash image.  The image is kept as a memory at the flash
base address.  `zlib.crc32` is the same CRC as the bootloader's.
-/

namespace DualBank

open Lib BootConfig

/-- `make_default_config`. -/
def makeDefaultConfig (active bootAttempts : UInt8) : List UInt8 :=
  let body := bytes32 0 ++ bytes32 0 ++ [active, bootAttempts, 0, 0] ++ bytes32 0 ++
    bytes32 bootConfigMagic
  body ++ bytes32 (crc32 body)

/-- `slot_image_or_blank`, which stops the script on an image that is too large. -/
def slotImageOrBlank (path : Option (List UInt8)) : Option (List UInt8) :=
  match path with
  | none => some (List.replicate slotSize 0xFF)
  | some data =>
    if data.length > slotSize then none
    else some (data ++ List.replicate (slotSize - data.length) 0xFF)

/-- The regions of `--corrupt`. -/
inductive CorruptRegion where
  | bootloader
  | config
  | slotA
  | slotB
deriving DecidableEq, Repr

def CorruptRegion.addr : CorruptRegion → Nat
  | .bootloader => bootloaderAddr
  | .config => bootConfigAddr
  | .slotA => slotAAddr
  | .slotB => slotBAddr

/-- The arguments of `build`. -/
structure LayoutArgs where
  bootloader : List UInt8
  slotA : Option (List UInt8)
  slotB : Option (List UInt8)
  /-- `--active`: `A` unless it is `B`. -/
  activeB : Bool
  bootAttempts : UInt8
  noConfig : Bool
  corrupt : Option CorruptRegion

/-- `SLOT_A_ID if args.active == "A" else SLOT_B_ID`. -/
def LayoutArgs.active (args : LayoutArgs) : UInt8 :=
  if args.activeB then DualBank.slotB else DualBank.slotA

theorem LayoutArgs.isSlot_active (args : LayoutArgs) : IsSlot args.active := by
  unfold LayoutArgs.active
  split_ifs
  · exact .inr rfl
  · exact .inl rfl

def build (args : LayoutArgs) : Option Mem :=
  if args.bootloader.length > bootloaderSize then none
  else
    let out : Mem := fun _ ↦ 0xFF
    let out := out.write bootloaderAddr args.bootloader
    let out :=
      if args.noConfig then out
      else out.write bootConfigAddr (makeDefaultConfig args.active args.bootAttempts)
    match slotImageOrBlank args.slotA, slotImageOrBlank args.slotB with
    | some a, some b =>
      let out := out.write slotAAddr a
      let out := out.write slotBAddr b
      match args.corrupt with
      | none => some out
      | some r => some (Function.update out r.addr (out r.addr ^^^ 0xFF))
    | _, _ => none

/-! ## What the image holds -/

/-- The record the script writes, as the bootloader reads it. -/
def provisionedConfig (active bootAttempts : UInt8) : BootConfig :=
  bootConfigStampCrc
    { bootConfigDefault with activeSlot := active, bootAttempts := bootAttempts }

/-- The script and the bootloader encode the record alike. -/
theorem makeDefaultConfig_eq (active bootAttempts : UInt8) :
    makeDefaultConfig active bootAttempts = (provisionedConfig active bootAttempts).toBytes := rfl

@[simp] theorem provisionedConfig_validate (active bootAttempts : UInt8) :
    bootConfigValidate (provisionedConfig active bootAttempts) = true := by
  rw [provisionedConfig, bootConfigValidate_stampCrc]; rfl

/-- The floor of a provisioned record is zero, whatever the slots hold. -/
theorem provisionedConfig_floor (active bootAttempts : UInt8) :
    bootConfigAntidowngradeFloor (provisionedConfig active bootAttempts) = 0 := by
  have : bootConfigAntidowngradeFloor (provisionedConfig active bootAttempts) =
      bootConfigAntidowngradeFloor bootConfigDefault := floor_congr rfl rfl rfl
  rw [this]
  decide

theorem length_slotImageOrBlank {path : Option (List UInt8)} {bs : List UInt8}
    (h : slotImageOrBlank path = some bs) : bs.length = slotSize := by
  cases path with
  | none => cases h; exact List.length_replicate
  | some data =>
      unfold slotImageOrBlank at h
      dsimp only at h
      split_ifs at h with hlt
      cases h
      rw [List.length_append, List.length_replicate]
      omega

/-- The slot of a built image starts with the file that was put there. -/
theorem read_slotImage {data bs : List UInt8} (h : slotImageOrBlank (some data) = some bs)
    {m : Mem} {slotAddr : Nat} (hm : m.read slotAddr bs.length = bs) :
    m.read slotAddr data.length = data := by
  unfold slotImageOrBlank at h
  dsimp only at h
  split_ifs at h with hlt
  cases h
  rw [List.length_append, Mem.read_add] at hm
  exact (List.append_inj hm (by simp)).1

variable {args : LayoutArgs} {m : Mem}

/-- The memory of a build that leaves the record in and corrupts nothing. -/
def LayoutArgs.image (args : LayoutArgs) (a b : List UInt8) : Mem :=
  (((Mem.write (fun _ ↦ 0xFF) bootloaderAddr args.bootloader).write bootConfigAddr
    (makeDefaultConfig args.active args.bootAttempts)).write slotAAddr a).write slotBAddr b

theorem build_eq (hb : args.bootloader.length ≤ bootloaderSize) (hc : args.noConfig = false)
    (hr : args.corrupt = none) {a b : List UInt8} (ha : slotImageOrBlank args.slotA = some a)
    (hb' : slotImageOrBlank args.slotB = some b) : build args = some (args.image a b) := by
  unfold build
  rw [if_neg (by omega), ha, hb', hc, hr]
  rfl

theorem exists_image_of_build (h : build args = some m) (hc : args.noConfig = false)
    (hr : args.corrupt = none) : ∃ a b, slotImageOrBlank args.slotA = some a ∧
      slotImageOrBlank args.slotB = some b ∧ m = args.image a b := by
  have hb : args.bootloader.length ≤ bootloaderSize := by
    refine Nat.le_of_not_lt fun hlt ↦ ?_
    rw [build, if_pos hlt] at h
    cases h
  cases ha : slotImageOrBlank args.slotA with
  | none =>
      unfold build at h
      rw [if_neg (by omega), ha] at h
      cases h
  | some a =>
      cases hb' : slotImageOrBlank args.slotB with
      | none =>
          unfold build at h
          rw [if_neg (by omega), ha, hb'] at h
          cases h
      | some b =>
          rw [build_eq hb hc hr ha hb'] at h
          exact ⟨a, b, rfl, rfl, (Option.some.inj h).symm⟩

/-- A build that leaves the record in and corrupts nothing holds the provisioned
record and the slot files. -/
theorem build_spec (h : build args = some m) (hc : args.noConfig = false)
    (hr : args.corrupt = none) :
    BootConfig.ofMem m = provisionedConfig args.active args.bootAttempts ∧
      (∀ data, args.slotA = some data → m.read slotAAddr data.length = data) ∧
      (∀ data, args.slotB = some data → m.read slotBAddr data.length = data) := by
  obtain ⟨a, b, ha, hb, rfl⟩ := exists_image_of_build h hc hr
  have hla := length_slotImageOrBlank ha
  have hcfg : (makeDefaultConfig args.active args.bootAttempts).length = bootConfigRecordSize := rfl
  have hra : (args.image a b).read slotAAddr a.length = a := by
    rw [LayoutArgs.image, Mem.read_write_of_disjoint _ (.inl (hla ▸ slotA_before_slotB)),
      Mem.read_write]
  refine ⟨ofMem_of_read ?_, fun data hd ↦ ?_, fun data hd ↦ ?_⟩
  · rw [LayoutArgs.image, Mem.read_write_of_disjoint _ (.inl (by decide)),
      Mem.read_write_of_disjoint _ (.inl (by decide)), ← hcfg, Mem.read_write,
      makeDefaultConfig_eq]
  · rw [hd] at ha
    exact read_slotImage ha hra
  · rw [hd] at hb
    exact read_slotImage hb (Mem.read_write _ _ _)

/-- A slot without a file is blank. -/
theorem blank_of_build (h : build args = some m) (hc : args.noConfig = false)
    (hr : args.corrupt = none) (hn : args.slotB = none) {x : Nat} (h₁ : slotBAddr ≤ x)
    (h₂ : x < slotBAddr + slotSize) : m x = 0xFF := by
  obtain ⟨a, b, -, hb, rfl⟩ := exists_image_of_build h hc hr
  rw [hn] at hb
  cases hb
  have hlen : (List.replicate slotSize (0xFF : UInt8)).length = slotSize := List.length_replicate
  have hx := Mem.write_getElem (((Mem.write (fun _ ↦ 0xFF) bootloaderAddr args.bootloader).write
    bootConfigAddr (makeDefaultConfig args.active args.bootAttempts)).write slotAAddr a) slotBAddr
    (List.replicate slotSize 0xFF) (x - slotBAddr) (by omega)
  rw [Nat.add_sub_cancel' h₁, List.getElem_replicate] at hx
  exact hx

/-- The slots of a build that leaves the record in and corrupts nothing. -/
theorem slots_of_build {K : KeyStore} (h : build args = some m) (hc : args.noConfig = false)
    (hr : args.corrupt = none) {a : SignedImage K} (ha : args.slotA = some a.bytes)
    {b : Option (SignedImage K)} (hb : args.slotB = b.map SignedImage.bytes) :
    Slots.ofMem K m = ⟨.ofSigned a, b.elim .erased .ofSigned⟩ := by
  obtain ⟨-, hra, hrb⟩ := build_spec h hc hr
  have ha' := SlotImage.ofMem_eq_ofSigned (hra _ ha)
  have hb' : SlotImage.ofMem K m slotBAddr = b.elim .erased .ofSigned := by
    cases b with
    | none =>
        refine SlotImage.ofMem_eq_erased K fun x h₁ h₂ ↦ blank_of_build h hc hr hb h₁ ?_
        exact Nat.lt_of_lt_of_le h₂ (Nat.add_le_add_left (by decide) _)
    | some img => exact SlotImage.ofMem_eq_ofSigned (hrb _ hb)
  rw [Slots.ofMem, ha', hb']

/-- The arguments that put signed images in the slots, without a bootloader. -/
def factoryArgs {K : KeyStore} (a : SignedImage K) (b : Option (SignedImage K)) (activeB : Bool)
    (bootAttempts : UInt8) : LayoutArgs where
  bootloader := []
  slotA := some a.bytes
  slotB := b.map SignedImage.bytes
  activeB := activeB
  bootAttempts := bootAttempts
  noConfig := false
  corrupt := none

/-- Every pair of signed images can be provisioned. -/
theorem exists_factory {K : KeyStore} (a : SignedImage K) (b : Option (SignedImage K))
    (activeB : Bool) (bootAttempts : UInt8) :
    ∃ m, build (factoryArgs a b activeB bootAttempts) = some m ∧
      BootConfig.ofMem m =
        provisionedConfig (if activeB then DualBank.slotB else DualBank.slotA) bootAttempts ∧
      Slots.ofMem K m = ⟨.ofSigned a, b.elim .erased .ofSigned⟩ := by
  have key : ∀ img : SignedImage K, ∃ bs, slotImageOrBlank (some img.bytes) = some bs :=
    fun img ↦ by
    unfold slotImageOrBlank
    dsimp only
    rw [if_neg (Nat.not_lt.2 img.length_bytes_le)]
    exact ⟨_, rfl⟩
  obtain ⟨abs, ha⟩ := key a
  obtain ⟨bbs, hb⟩ : ∃ bs, slotImageOrBlank (b.map SignedImage.bytes) = some bs := by
    cases b with
    | none => exact ⟨_, rfl⟩
    | some img => exact key img
  have hm : build (factoryArgs a b activeB bootAttempts) = some _ :=
    build_eq (by simp [factoryArgs]) rfl rfl ha hb
  exact ⟨_, hm, (build_spec hm rfl rfl).1, slots_of_build hm rfl rfl rfl rfl⟩

end DualBank
