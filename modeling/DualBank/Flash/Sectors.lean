import Mathlib.Algebra.Group.Nat.Defs
import Mathlib.Tactic.SplitIfs
import DualBank.Common.MemoryMap

/-!
# Flash sectors

The status codes, the sector table and the range erase of
`bootloader/src/flash_driver.c`, as far as the two backends of the driver share
them.  `flash_erase_range` has the same body in both, over each backend's own
`flash_erase_sector`, so it is one definition with that function as parameter.
-/

namespace DualBank

/-- `flash_status_t`. -/
inductive FlashStatus where
  | ok
  | errBusy
  | errVerify
  | errRange
  | errLocked
  | errProg
  | errWriteProtected
deriving DecidableEq, Repr

/-! ## Sector table -/

def flashNumSectors : Nat := 12

/-- Sector start addresses of the 1 MB part. -/
def kSectorStart : Nat → Nat := fun i ↦
  [0x08000000, 0x08004000, 0x08008000, 0x0800C000, 0x08010000, 0x08020000, 0x08040000,
    0x08060000, 0x08080000, 0x080A0000, 0x080C0000, 0x080E0000].getD i 0

def kSectorSize : Nat → Nat := fun i ↦
  [16 * 1024, 16 * 1024, 16 * 1024, 16 * 1024, 64 * 1024, 128 * 1024, 128 * 1024,
    128 * 1024, 128 * 1024, 128 * 1024, 128 * 1024, 128 * 1024].getD i 0

/-- The scan of `sector_index_for_addr` over the sectors below `i`, highest first. -/
def sectorIndexBelow (addr : Nat) : Nat → Option Nat
  | 0 => none
  | i + 1 => if kSectorStart i ≤ addr then some i else sectorIndexBelow addr i

/-- The last sector that starts at or below `addr`; `none` stands for `-1`. -/
def sectorIndexForAddr (addr : Nat) : Option Nat := sectorIndexBelow addr flashNumSectors

def flashSectorStart (addr : Nat) : Nat :=
  match sectorIndexForAddr addr with
  | none => 0
  | some i => kSectorStart i

def flashSectorSize (addr : Nat) : Nat :=
  match sectorIndexForAddr addr with
  | none => 0
  | some i => kSectorSize i

theorem sectorIndexBelow_lt {addr n i : Nat} (h : sectorIndexBelow addr n = some i) : i < n := by
  induction n with
  | zero => simp [sectorIndexBelow] at h
  | succ n ih =>
      unfold sectorIndexBelow at h
      split_ifs at h
      · cases h; omega
      · have := ih h; omega

theorem sectorIndexForAddr_lt {addr i : Nat} (h : sectorIndexForAddr addr = some i) : i < 12 :=
  sectorIndexBelow_lt h

theorem sectorIndexBelow_start_le {addr n i : Nat} (h : sectorIndexBelow addr n = some i) :
    kSectorStart i ≤ addr := by
  induction n with
  | zero => simp [sectorIndexBelow] at h
  | succ n ih =>
      unfold sectorIndexBelow at h
      split_ifs at h with hn
      · cases h; exact hn
      · exact ih h

theorem sectorIndexBelow_lt_next {addr n i j : Nat} (h : sectorIndexBelow addr n = some i)
    (hij : i < j) (hj : j < n) : addr < kSectorStart j := by
  induction n with
  | zero => omega
  | succ n ih =>
      unfold sectorIndexBelow at h
      split_ifs at h with hn
      · cases h; omega
      · by_cases e : j = n
        · subst e; omega
        · exact ih h (by omega)

/-- Consecutive sectors are adjacent, and the last one ends with the flash. -/
theorem kSectorStart_add_size {i : Nat} (h : i < 12) :
    kSectorStart i + kSectorSize i =
      if i = 11 then flashBaseAddr + flashTotalSize else kSectorStart (i + 1) := by
  revert i; decide

theorem kSectorStart_mem {i : Nat} (h : i < 12) :
    flashBaseAddr ≤ kSectorStart i ∧
      kSectorStart i + kSectorSize i ≤ flashBaseAddr + flashTotalSize ∧ 0 < kSectorSize i := by
  revert i; decide

/-- A sector start lies in its own sector. -/
theorem sectorIndexForAddr_kSectorStart {i : Nat} (h : i < 12) :
    sectorIndexForAddr (kSectorStart i) = some i := by
  revert i; decide

/-- An address of the flash lies inside the sector it is mapped to. -/
theorem sectorIndexForAddr_mem {addr i : Nat} (h : sectorIndexForAddr addr = some i)
    (hlt : addr < flashBaseAddr + flashTotalSize) :
    kSectorStart i ≤ addr ∧ addr < kSectorStart i + kSectorSize i := by
  have hi := sectorIndexForAddr_lt h
  refine ⟨sectorIndexBelow_start_le h, ?_⟩
  rw [kSectorStart_add_size hi]
  split_ifs with e
  · exact hlt
  · exact sectorIndexBelow_lt_next h (Nat.lt_succ_self i) (by simp only [flashNumSectors]; omega)

/-- Every address of the flash has a sector. -/
theorem exists_sectorIndexForAddr {addr : Nat} (h : flashBaseAddr ≤ addr) :
    ∃ i, sectorIndexForAddr addr = some i := by
  have key : ∀ n, ∃ i, sectorIndexBelow addr (n + 1) = some i := by
    intro n
    induction n with
    | zero => exact ⟨0, if_pos h⟩
    | succ n ih =>
        unfold sectorIndexBelow
        split_ifs
        · exact ⟨_, rfl⟩
        · exact ih
  exact key 11

/-- An address inside a sector is mapped to it. -/
theorem sectorIndexForAddr_of_mem {addr i : Nat} (hi : i < 12) (h₁ : kSectorStart i ≤ addr)
    (h₂ : addr < kSectorStart i + kSectorSize i) : sectorIndexForAddr addr = some i := by
  have hlast := (kSectorStart_mem hi).2.1
  obtain ⟨j, hj⟩ := exists_sectorIndexForAddr
    (Nat.le_trans (kSectorStart_mem hi).1 h₁)
  have hj' := sectorIndexForAddr_mem hj (by omega)
  have hj12 := sectorIndexForAddr_lt hj
  have hmono : ∀ a < 12, ∀ b < 12, a < b → kSectorStart a + kSectorSize a ≤ kSectorStart b := by
    decide
  rcases Nat.lt_trichotomy i j with hlt | rfl | hlt
  · have := hmono i hi j hj12 hlt; omega
  · exact hj
  · have := hmono j hj12 i hi hlt; omega

/-- Where sector `i` starts; the twelfth boundary is the end of the flash. -/
def sectorBoundary (i : Nat) : Nat :=
  if i < flashNumSectors then kSectorStart i else flashBaseAddr + flashTotalSize

theorem sectorBoundary_of_lt {i : Nat} (h : i < 12) : sectorBoundary i = kSectorStart i := if_pos h

theorem sectorBoundary_twelve : sectorBoundary 12 = flashBaseAddr + flashTotalSize := rfl

theorem sectorBoundary_succ :
    ∀ i < 12, sectorBoundary (i + 1) = kSectorStart i + kSectorSize i := by
  decide

/-- The step of the erase loop moves to the next boundary. -/
theorem next_sectorBoundary {i : Nat} (h : i < 12) :
    (kSectorStart i + flashSectorSize (kSectorStart i)) % 2 ^ 32 = sectorBoundary (i + 1) := by
  revert i; decide

theorem kSectorStart_ne_flashEnd : ∀ i < 12, kSectorStart i ≠ flashBaseAddr + flashTotalSize := by
  decide

/-- The sector start of a flash address is a boundary. -/
theorem exists_flashSectorStart {addr : Nat} (h : flashBaseAddr ≤ addr) :
    ∃ i < 12, sectorIndexForAddr addr = some i ∧ flashSectorStart addr = sectorBoundary i := by
  obtain ⟨i, hi⟩ := exists_sectorIndexForAddr h
  have hlt := sectorIndexForAddr_lt hi
  exact ⟨i, hlt, hi, by simp only [flashSectorStart, hi, sectorBoundary_of_lt hlt]⟩

theorem flashSectorStart_of_lt {addr : Nat} (h : addr < flashBaseAddr) :
    flashSectorStart addr = 0 := by
  have key : sectorIndexForAddr addr = none := by
    cases hs : sectorIndexForAddr addr with
    | none => rfl
    | some i =>
        have h₁ := sectorIndexBelow_start_le hs
        have h₂ := (kSectorStart_mem (sectorIndexForAddr_lt hs)).1
        omega
  simp only [flashSectorStart, key]

theorem flashSectorStart_of_mem {addr i : Nat} (hi : i < 12) (h₁ : kSectorStart i ≤ addr)
    (h₂ : addr < kSectorStart i + kSectorSize i) : flashSectorStart addr = kSectorStart i := by
  simp only [flashSectorStart, sectorIndexForAddr_of_mem hi h₁ h₂]

theorem flashSectorStart_le (addr : Nat) : flashSectorStart addr ≤ addr := by
  unfold flashSectorStart
  cases h : sectorIndexForAddr addr with
  | none => exact Nat.zero_le _
  | some i => exact sectorIndexBelow_start_le h

/-! ## Range erase -/

section EraseRange

variable {σ : Type}

/-- The loop of `flash_erase_range`.  `fuel` bounds the number of iterations; the
loop takes at most one per sector and one more that finds it is past the flash,
see `eraseLoop_fuel`. -/
def eraseLoop (eraseSector : Nat → σ → FlashStatus × σ) :
    Nat → Nat → Nat → σ → FlashStatus × σ
  | 0, _, _, s => (.errRange, s)
  | fuel + 1, start, stop, s =>
      if start < stop then
        match eraseSector start s with
        | (.ok, s') =>
            eraseLoop eraseSector fuel ((start + flashSectorSize start) % 2 ^ 32) stop s'
        | (e, s') => (e, s')
      else (.ok, s)

/-- `flash_erase_range` over a backend's `flash_erase_sector`. -/
def eraseRangeWith (eraseSector : Nat → σ → FlashStatus × σ) (addr size : Nat) (s : σ) :
    FlashStatus × σ :=
  if size = 0 then (.ok, s)
  else eraseLoop eraseSector (flashNumSectors + 1) (flashSectorStart addr)
    ((addr + size) % 2 ^ 32) s

/-- A range erase may touch `x`: the sector of `x` starts before the end of the
range, and `x` is not below the first sector of the range. -/
def Covered (addr size x : Nat) : Prop :=
  flashSectorStart addr ≤ x ∧ flashSectorStart x < addr + size

instance (addr size x : Nat) : Decidable (Covered addr size x) :=
  inferInstanceAs (Decidable (_ ∧ _))

theorem covered_of_mem {addr size x : Nat} (h₁ : addr ≤ x) (h₂ : x < addr + size) :
    Covered addr size x :=
  ⟨Nat.le_trans (flashSectorStart_le addr) h₁, Nat.lt_of_le_of_lt (flashSectorStart_le x) h₂⟩

/-- What the range erase relies on: an address that is no sector start is refused
and changes nothing. -/
def RefusesUnaligned (eraseSector : Nat → σ → FlashStatus × σ) : Prop :=
  ∀ a s, (∀ i < 12, kSectorStart i ≠ a) → eraseSector a s = (.errRange, s)

variable {eraseSector : Nat → σ → FlashStatus × σ} {stop : Nat}

theorem eraseLoop_succ_of_lt {i fuel : Nat} (hi : i < 12) (s : σ) (h : kSectorStart i < stop) :
    eraseLoop eraseSector (fuel + 1) (sectorBoundary i) stop s =
      if (eraseSector (kSectorStart i) s).1 = .ok then
        eraseLoop eraseSector fuel (sectorBoundary (i + 1)) stop (eraseSector (kSectorStart i) s).2
      else eraseSector (kSectorStart i) s := by
  rw [sectorBoundary_of_lt hi, eraseLoop, if_pos h, next_sectorBoundary hi]
  cases hr : eraseSector (kSectorStart i) s with
  | mk st s' => cases st <;> rfl

theorem eraseLoop_succ_of_ge {i fuel : Nat} (s : σ) (h : ¬sectorBoundary i < stop) :
    eraseLoop eraseSector (fuel + 1) (sectorBoundary i) stop s = (.ok, s) := by
  rw [eraseLoop, if_neg h]

/-- Past the last sector the loop is refused and stops. -/
theorem eraseLoop_succ_end (hr : RefusesUnaligned eraseSector) {fuel : Nat} (s : σ)
    (h : sectorBoundary 12 < stop) :
    eraseLoop eraseSector (fuel + 1) (sectorBoundary 12) stop s = (.errRange, s) := by
  rw [eraseLoop, if_pos h, sectorBoundary_twelve, hr _ s kSectorStart_ne_flashEnd]

/-- The fuel of the loop is never exhausted: any two amounts that cover the
sectors still ahead give the same result. -/
theorem eraseLoop_fuel (hr : RefusesUnaligned eraseSector) {fuel fuel' i : Nat} (s : σ)
    (hi : i ≤ 12) (hf : 12 - i < fuel) (hf' : 12 - i < fuel') :
    eraseLoop eraseSector fuel (sectorBoundary i) stop s =
      eraseLoop eraseSector fuel' (sectorBoundary i) stop s := by
  induction fuel generalizing fuel' i s with
  | zero => omega
  | succ n ih =>
      obtain ⟨n', rfl⟩ : ∃ n', fuel' = n' + 1 := ⟨fuel' - 1, by omega⟩
      by_cases hlt : sectorBoundary i < stop
      · rcases Nat.lt_or_eq_of_le hi with h12 | rfl
        · rw [sectorBoundary_of_lt h12] at hlt
          rw [eraseLoop_succ_of_lt h12 s hlt, eraseLoop_succ_of_lt h12 s hlt,
            ih _ (by omega) (by omega) (by omega : 12 - (i + 1) < n')]
        · rw [eraseLoop_succ_end hr s hlt, eraseLoop_succ_end hr s hlt]
      · rw [eraseLoop_succ_of_ge s hlt, eraseLoop_succ_of_ge s hlt]

/-- A property that erasing any sector from `j` on and below `stop` preserves is
preserved by the loop, whatever the statuses are. -/
theorem eraseLoop_inv (hr : RefusesUnaligned eraseSector) {I : σ → Prop} {j : Nat}
    (hI : ∀ i < 12, j ≤ i → kSectorStart i < stop → ∀ s, I s →
      I (eraseSector (kSectorStart i) s).2)
    {fuel i : Nat} {s : σ} (hj : j ≤ i) (hi : i ≤ 12) (hs : I s) :
    I (eraseLoop eraseSector fuel (sectorBoundary i) stop s).2 := by
  induction fuel generalizing i s with
  | zero => exact hs
  | succ n ih =>
      by_cases hlt : sectorBoundary i < stop
      · rcases Nat.lt_or_eq_of_le hi with h12 | rfl
        · rw [sectorBoundary_of_lt h12] at hlt
          have h := hI i h12 hj hlt s hs
          rw [eraseLoop_succ_of_lt h12 s hlt]
          split_ifs
          · exact ih (by omega) (by omega) h
          · exact h
        · rw [eraseLoop_succ_end hr s hlt]; exact hs
      · rw [eraseLoop_succ_of_ge s hlt]; exact hs

/-- Where every sector below `stop` can be erased, the loop ends with `FLASH_OK`
after the first boundary at or above `stop`, and `I` has advanced with it. -/
theorem eraseLoop_ok {I : Nat → σ → Prop}
    (hI : ∀ i < 12, kSectorStart i < stop → ∀ s, I i s →
      (eraseSector (kSectorStart i) s).1 = .ok ∧ I (i + 1) (eraseSector (kSectorStart i) s).2)
    (hstop : stop ≤ flashBaseAddr + flashTotalSize)
    (fuel : Nat) {i : Nat} {s : σ} (hf : 12 - i < fuel) (hi : i ≤ 12) (hs : I i s) :
    ∃ k ≤ 12, stop ≤ sectorBoundary k ∧
      (eraseLoop eraseSector fuel (sectorBoundary i) stop s).1 = .ok ∧
      I k (eraseLoop eraseSector fuel (sectorBoundary i) stop s).2 := by
  induction fuel generalizing i s with
  | zero => omega
  | succ n ih =>
      by_cases hlt : sectorBoundary i < stop
      · have h12 : i < 12 := by
          rcases Nat.lt_or_eq_of_le hi with h | rfl
          · exact h
          · rw [sectorBoundary_twelve] at hlt; omega
        rw [sectorBoundary_of_lt h12] at hlt
        obtain ⟨h₁, h₂⟩ := hI i h12 hlt s hs
        rw [eraseLoop_succ_of_lt h12 s hlt, if_pos h₁]
        exact ih (by omega) (by omega) h₂
      · rw [eraseLoop_succ_of_ge s hlt]
        exact ⟨i, hi, by omega, rfl, hs⟩

/-- The range erase preserves what erasing each of its sectors preserves. -/
theorem eraseRangeWith_inv (hr : RefusesUnaligned eraseSector) {I : σ → Prop} {addr size : Nat}
    (hI : ∀ i < 12, flashSectorStart addr ≤ kSectorStart i → kSectorStart i < addr + size →
      ∀ s, I s → I (eraseSector (kSectorStart i) s).2)
    {s : σ} (hs : I s) : I (eraseRangeWith eraseSector addr size s).2 := by
  unfold eraseRangeWith
  split_ifs with h0
  · exact hs
  · have hle : (addr + size) % 2 ^ 32 ≤ addr + size := Nat.mod_le _ _
    rcases Nat.lt_or_ge addr flashBaseAddr with hlt | hge
    · -- below the flash the first sector erase is refused
      rw [flashSectorStart_of_lt hlt, eraseLoop]
      split_ifs
      · rw [hr 0 s (by decide)]; exact hs
      · exact hs
    · obtain ⟨j, hj, -, hb⟩ := exists_flashSectorStart hge
      have hmono : ∀ a < 12, ∀ b < 12, a ≤ b → kSectorStart a ≤ kSectorStart b := by decide
      rw [hb]
      refine eraseLoop_inv hr (j := j) (fun i hi hji hlt s hs ↦ hI i hi ?_ (by omega) s hs)
        (Nat.le_refl j) (by omega) hs
      rw [hb, sectorBoundary_of_lt hj]
      exact hmono j hj i hi hji

/-- Over an address range inside the flash, where every sector can be erased, the
range erase ends with `FLASH_OK`, and `I` has advanced past every covered address. -/
theorem eraseRangeWith_ok (eraseSector : Nat → σ → FlashStatus × σ) {I : Nat → σ → Prop}
    {addr size i : Nat}
    (hI : ∀ i < 12, kSectorStart i < addr + size → ∀ s, I i s →
      (eraseSector (kSectorStart i) s).1 = .ok ∧ I (i + 1) (eraseSector (kSectorStart i) s).2)
    (hi : i < 12) (hstart : flashSectorStart addr = sectorBoundary i)
    (hsize : 0 < size) (hend : addr + size ≤ flashBaseAddr + flashTotalSize) {s : σ} (hs : I i s) :
    (eraseRangeWith eraseSector addr size s).1 = .ok ∧
      ∃ k ≤ 12, I k (eraseRangeWith eraseSector addr size s).2 ∧
        ∀ x, Covered addr size x → x < flashBaseAddr + flashTotalSize → x < sectorBoundary k := by
  have hmod : (addr + size) % 2 ^ 32 = addr + size :=
    Nat.mod_eq_of_lt (by simp only [flashBaseAddr, flashTotalSize] at hend; omega)
  unfold eraseRangeWith
  rw [if_neg (by omega), hmod, hstart]
  obtain ⟨k, hk, hstop, hok, hIk⟩ := eraseLoop_ok hI hend (flashNumSectors + 1)
    (by simp only [flashNumSectors]; omega) (by omega) hs
  refine ⟨hok, k, hk, hIk, fun x hx hlt ↦ ?_⟩
  -- the sector of `x` starts below `boundary k`, so it also ends at or below it
  have hx₁ : flashBaseAddr ≤ x := by
    have := hx.1
    rw [hstart, sectorBoundary_of_lt hi] at this
    exact Nat.le_trans (kSectorStart_mem hi).1 this
  obtain ⟨j, hj, hjx, hb⟩ := exists_flashSectorStart hx₁
  have hj' := hx.2
  rw [hb, sectorBoundary_of_lt hj] at hj'
  have hjk : j < k := by
    refine Nat.lt_of_not_le fun hge ↦ ?_
    have hmono : ∀ a < 12, ∀ b < 12, b ≤ a → sectorBoundary b ≤ kSectorStart a := by decide
    have := hmono j hj k (by omega) (by omega)
    omega
  have hnext : ∀ a < 12, ∀ b ≤ 12, a < b → kSectorStart a + kSectorSize a ≤ sectorBoundary b := by
    decide
  exact Nat.lt_of_lt_of_le (sectorIndexForAddr_mem hjx hlt).2 (hnext j hj k hk hjk)

/-- A range inside one sector is erased by one sector erase. -/
theorem eraseRangeWith_sector {addr size i : Nat} (hi : i < 12) (h₁ : kSectorStart i ≤ addr)
    (h₂ : addr + size ≤ kSectorStart i + kSectorSize i) (hsize : 0 < size) (s : σ) :
    eraseRangeWith eraseSector addr size s = eraseSector (kSectorStart i) s := by
  have hend : ∀ j < 12, kSectorStart j + kSectorSize j < 2 ^ 32 := by decide
  have hstart : flashSectorStart addr = sectorBoundary i := by
    rw [sectorBoundary_of_lt hi]
    exact flashSectorStart_of_mem hi h₁ (by omega)
  have hstop : (addr + size) % 2 ^ 32 = addr + size :=
    Nat.mod_eq_of_lt (Nat.lt_of_le_of_lt h₂ (hend i hi))
  have hge : ¬sectorBoundary (i + 1) < addr + size := by
    rw [sectorBoundary_succ i hi]; omega
  rw [eraseRangeWith, if_neg (by omega), hstart, hstop, flashNumSectors,
    eraseLoop_succ_of_lt hi s (by omega)]
  split_ifs with h
  · rw [eraseLoop_succ_of_ge _ hge]
    exact Prod.ext h.symm rfl
  · rfl

/-- Two sector erases that go the same way make two range erases that do. -/
theorem eraseRangeWith_sim {τ : Type} {eraseSector' : Nat → τ → FlashStatus × τ} {R : σ → τ → Prop}
    (hR : ∀ a s t, R s t → (eraseSector a s).1 = (eraseSector' a t).1 ∧
      R (eraseSector a s).2 (eraseSector' a t).2)
    (addr size : Nat) {s : σ} {t : τ} (h : R s t) :
    (eraseRangeWith eraseSector addr size s).1 = (eraseRangeWith eraseSector' addr size t).1 ∧
      R (eraseRangeWith eraseSector addr size s).2 (eraseRangeWith eraseSector' addr size t).2 := by
  have hloop : ∀ fuel start stop s t, R s t →
      (eraseLoop eraseSector fuel start stop s).1 = (eraseLoop eraseSector' fuel start stop t).1 ∧
        R (eraseLoop eraseSector fuel start stop s).2
          (eraseLoop eraseSector' fuel start stop t).2 := by
    intro fuel
    induction fuel with
    | zero => exact fun _ _ s t h ↦ ⟨rfl, h⟩
    | succ n ih =>
        intro start stop s t h
        obtain ⟨hst, hr⟩ := hR start s t h
        rw [eraseLoop, eraseLoop]
        split_ifs
        · cases hs : eraseSector start s with
          | mk st s' =>
              cases ht : eraseSector' start t with
              | mk st' t' =>
                  rw [hs, ht] at hst hr
                  cases hst
                  cases st with
                  | ok => exact ih _ _ _ _ hr
                  | _ => exact ⟨rfl, hr⟩
        · exact ⟨rfl, h⟩
  unfold eraseRangeWith
  split_ifs
  · exact ⟨rfl, h⟩
  · exact hloop _ _ _ s t h

end EraseRange

/-- The sector that holds the boot configuration. -/
theorem flashSectorStart_bootConfigAddr : flashSectorStart bootConfigAddr = 0x08010000 := by decide

/-- Slot A starts inside the sector of the boot configuration. -/
theorem flashSectorStart_slotAAddr : flashSectorStart slotAAddr = bootConfigAddr := by decide

/-- Slot B starts inside the sector that holds the last 16 KB of slot A. -/
theorem flashSectorStart_slotBAddr : flashSectorStart slotBAddr = 0x08080000 := by decide

/-- The erase of slot B leaves everything below that sector. -/
theorem not_covered_below_slotB {size x : Nat} (hx : x < 0x08080000) :
    ¬Covered slotBAddr size x := by
  rintro ⟨hge, -⟩
  rw [flashSectorStart_slotBAddr] at hge
  exact Nat.not_le.2 hx hge

/-- And it takes what the sector holds in front of the slot. -/
theorem covered_before_slotB {size x : Nat} (h₁ : 0x08080000 ≤ x) (h₂ : x < slotBAddr + size) :
    Covered slotBAddr size x :=
  ⟨flashSectorStart_slotBAddr ▸ h₁, Nat.lt_of_le_of_lt (flashSectorStart_le x) h₂⟩

/-- The addresses a configuration save may erase: the sector that starts with the
record. -/
theorem covered_bootConfig_iff {x : Nat} :
    Covered bootConfigAddr 24 x ↔ bootConfigAddr ≤ x ∧ x < bootConfigAddr + 0x10000 := by
  have h4 : kSectorStart 4 = bootConfigAddr := by decide
  have h5 : kSectorStart 5 = bootConfigAddr + 0x10000 := by decide
  have h45 : kSectorStart 4 + kSectorSize 4 = bootConfigAddr + 0x10000 := by decide
  rw [Covered, flashSectorStart_bootConfigAddr]
  constructor
  · rintro ⟨h₁, h₂⟩
    obtain ⟨j, hj, hjx, hb⟩ :=
      exists_flashSectorStart (show flashBaseAddr ≤ x from Nat.le_trans (by decide) h₁)
    rw [hb, sectorBoundary_of_lt hj] at h₂
    have hj4 : ∀ a < 12, kSectorStart a < bootConfigAddr + 24 → a < 5 := by decide
    have hlt := sectorIndexBelow_lt_next hjx (hj4 j hj h₂) (by decide)
    rw [h5] at hlt
    exact ⟨h₁, hlt⟩
  · rintro ⟨h₁, h₂⟩
    refine ⟨h₁, ?_⟩
    rw [flashSectorStart_of_mem (i := 4) (by omega) (h4 ▸ h₁) (h45 ▸ h₂), h4]
    exact Nat.lt_add_of_pos_right (by decide)

end DualBank
