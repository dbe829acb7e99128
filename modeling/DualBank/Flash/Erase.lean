import DualBank.Flash.Hardware

/-!
# The covering sectors

`flash_erase_range` as the loop it is, without a bound on its turns: a run is a finite
sequence of calls of `flash_erase_sector`.  Every run walks the sectors of its range in
ascending order and ends in one of three ways: behind the last one, at the end of the
flash, or at the first call that fails.
-/

namespace DualBank

open Lib

/-! ## Runs -/

/-- The calls of `flash_erase_sector`, each with the address it is given and its status. -/
abbrev EraseCalls := List (Nat × FlashStatus)

section Run

variable {σ : Type} {eraseSector : Nat → σ → FlashStatus × σ} {stop : Nat}

/-- A run of the loop of `flash_erase_range` from an address and a state, with its calls
and its result. -/
inductive EraseRun (eraseSector : Nat → σ → FlashStatus × σ) (stop : Nat) :
    Nat → σ → EraseCalls → FlashStatus × σ → Prop
  | done {start : Nat} {s : σ} (h : ¬start < stop) : EraseRun eraseSector stop start s [] (.ok, s)
  | fail {start : Nat} {s : σ} (h : start < stop) (he : (eraseSector start s).1 ≠ .ok) :
      EraseRun eraseSector stop start s [(start, (eraseSector start s).1)] (eraseSector start s)
  | next {start : Nat} {s : σ} {calls : EraseCalls} {r : FlashStatus × σ} (h : start < stop)
      (he : (eraseSector start s).1 = .ok)
      (hrest : EraseRun eraseSector stop ((start + flashSectorSize start) % 2 ^ 32)
        (eraseSector start s).2 calls r) :
      EraseRun eraseSector stop start s ((start, .ok) :: calls) r

/-- A state and an address determine the run. -/
theorem EraseRun.unique {start : Nat} {s : σ} {calls calls' : EraseCalls} {r r' : FlashStatus × σ}
    (h : EraseRun eraseSector stop start s calls r)
    (h' : EraseRun eraseSector stop start s calls' r') : calls = calls' ∧ r = r' := by
  induction h generalizing calls' r' with
  | done hge =>
      cases h' with
      | done => exact ⟨rfl, rfl⟩
      | fail hlt => exact absurd hlt hge
      | next hlt => exact absurd hlt hge
  | fail hlt he =>
      cases h' with
      | done hge => exact absurd hlt hge
      | fail => exact ⟨rfl, rfl⟩
      | next _ hok => exact absurd hok he
  | next hlt hok _ ih =>
      cases h' with
      | done hge => exact absurd hlt hge
      | fail _ he => exact absurd hok he
      | next _ _ hrest =>
          obtain ⟨rfl, rfl⟩ := ih hrest
          exact ⟨rfl, rfl⟩

theorem EraseRun.next_sector {i : Nat} (hi : i < 12) {s : σ} {calls : EraseCalls}
    {r : FlashStatus × σ} (h : kSectorStart i < stop)
    (he : (eraseSector (kSectorStart i) s).1 = .ok)
    (hrest : EraseRun eraseSector stop (sectorBoundary (i + 1)) (eraseSector (kSectorStart i) s).2
      calls r) :
    EraseRun eraseSector stop (sectorBoundary i) s ((kSectorStart i, .ok) :: calls) r := by
  rw [sectorBoundary_of_lt hi]
  exact .next h he (by rwa [next_sectorBoundary hi])

/-- Behind the last sector the run ends with a call that is refused. -/
theorem eraseRun_end (hr : RefusesUnaligned eraseSector) (s : σ)
    (h : flashBaseAddr + flashTotalSize < stop) :
    EraseRun eraseSector stop (sectorBoundary 12) s
      [(flashBaseAddr + flashTotalSize, .errRange)] (.errRange, s) := by
  have hend := hr _ s kSectorStart_ne_flashEnd
  have hrun : EraseRun eraseSector stop _ s _ _ := .fail h (by rw [hend]; exact nofun)
  rw [hend] at hrun
  exact hrun

/-- The loop ends: from a sector boundary it makes a run, to the result of the loop on
fuel. -/
theorem exists_eraseRun (hr : RefusesUnaligned eraseSector) {fuel i : Nat} (s : σ) (hi : i ≤ 12)
    (hf : 12 - i < fuel) :
    ∃ calls, EraseRun eraseSector stop (sectorBoundary i) s calls
      (eraseLoop eraseSector fuel (sectorBoundary i) stop s) := by
  induction fuel generalizing i s with
  | zero => omega
  | succ n ih =>
      by_cases hlt : sectorBoundary i < stop
      · rcases Nat.lt_or_eq_of_le hi with h12 | rfl
        · have hlt' : kSectorStart i < stop := sectorBoundary_of_lt h12 ▸ hlt
          rw [eraseLoop_succ_of_lt h12 s hlt']
          split_ifs with hok
          · obtain ⟨calls, hrun⟩ :=
              ih (i := i + 1) (eraseSector (kSectorStart i) s).2 (by omega) (by omega)
            exact ⟨_, hrun.next_sector h12 hlt' hok⟩
          · rw [sectorBoundary_of_lt h12]
            exact ⟨_, .fail hlt' hok⟩
        · rw [eraseLoop_succ_end hr s hlt]
          exact ⟨_, eraseRun_end hr s hlt⟩
      · rw [eraseLoop_succ_of_ge s hlt]
        exact ⟨[], .done hlt⟩

/-! ## The sectors of a run -/

/-- The sectors from `i` on that start below `stop`. -/
def sectorsAhead (stop i : Nat) : List Nat :=
  (List.range' i (flashNumSectors - i)).filter fun j ↦ kSectorStart j < stop

theorem sectorsAhead_of_lt {i : Nat} (hi : i < 12) (h : kSectorStart i < stop) :
    sectorsAhead stop i = i :: sectorsAhead stop (i + 1) := by
  have hrange : List.range' i (flashNumSectors - i) =
      i :: List.range' (i + 1) (flashNumSectors - (i + 1)) := by
    rw [flashNumSectors, show 12 - i = (12 - (i + 1)) + 1 by omega, List.range'_succ]
  rw [sectorsAhead, hrange, List.filter_cons, if_pos (decide_eq_true h), sectorsAhead]

theorem sectorsAhead_of_ge {i : Nat} (h : ¬sectorBoundary i < stop) : sectorsAhead stop i = [] := by
  have hmono : ∀ a < 12, ∀ b < 12, a ≤ b → sectorBoundary a ≤ kSectorStart b := by decide
  refine List.filter_eq_nil_iff.2 fun j hj ↦ ?_
  rw [List.mem_range'_1, flashNumSectors] at hj
  have := hmono i (by omega) j (by omega) hj.1
  rw [decide_eq_true_iff]
  omega

/-- The calls that erase some sectors one after the other. -/
def okCalls (sectors : List Nat) : EraseCalls := sectors.map fun j ↦ (kSectorStart j, .ok)

/-- The three ways in which a range erase ends. -/
inductive Ends (stop i : Nat) (calls : EraseCalls) (status : FlashStatus) : Prop
  /-- Every sector is erased, and the range ends in the flash. -/
  | inside (hstop : stop ≤ flashBaseAddr + flashTotalSize)
      (hcalls : calls = okCalls (sectorsAhead stop i)) (hstatus : status = .ok)
  /-- Every sector is erased, and the range goes on behind the flash. -/
  | beyond (hstop : flashBaseAddr + flashTotalSize < stop)
      (hcalls : calls = okCalls (sectorsAhead stop i) ++
        [(flashBaseAddr + flashTotalSize, .errRange)]) (hstatus : status = .errRange)
  /-- The erase of sector `j` fails, and the sectors of the range below it are erased. -/
  | failed (j : Nat) (hj : j < 12) (hij : i ≤ j) (hstop : kSectorStart j < stop)
      (hcalls : calls = okCalls ((sectorsAhead stop i).filter (· < j)) ++
        [(kSectorStart j, status)])
      (hstatus : status ≠ .ok)

theorem Ends.cons {i : Nat} (hi : i < 12) (h : kSectorStart i < stop) {calls : EraseCalls}
    {status : FlashStatus} (hends : Ends stop (i + 1) calls status) :
    Ends stop i ((kSectorStart i, .ok) :: calls) status := by
  have hahead := sectorsAhead_of_lt hi h
  cases hends with
  | inside hstop hcalls hstatus =>
      refine .inside hstop ?_ hstatus
      rw [hahead, hcalls]
      rfl
  | beyond hstop hcalls hstatus =>
      refine .beyond hstop ?_ hstatus
      rw [hahead, hcalls]
      rfl
  | failed j hj hij hstop hcalls hstatus =>
      refine .failed j hj (by omega) hstop ?_ hstatus
      have hlt : i < j := hij
      rw [hahead, hcalls, List.filter_cons, if_pos (decide_eq_true hlt)]
      rfl

/-- Every run from a sector boundary ends in one of the three ways. -/
theorem EraseRun.ends (hr : RefusesUnaligned eraseSector) {start : Nat} {s : σ}
    {calls : EraseCalls} {r : FlashStatus × σ} (h : EraseRun eraseSector stop start s calls r)
    {i : Nat} (hi : i ≤ 12) (hstart : start = sectorBoundary i) : Ends stop i calls r.1 := by
  induction h generalizing i with
  | done hge =>
      rw [hstart] at hge
      refine .inside ?_ ?_ rfl
      · have hmax : ∀ a ≤ 12, sectorBoundary a ≤ flashBaseAddr + flashTotalSize := by decide
        have := hmax i hi
        omega
      · rw [sectorsAhead_of_ge hge]
        rfl
  | @fail _ s hlt he =>
      subst hstart
      rcases Nat.lt_or_eq_of_le hi with h12 | rfl
      · rw [sectorBoundary_of_lt h12] at hlt he ⊢
        refine .failed i h12 (Nat.le_refl i) hlt ?_ he
        have hnone : (sectorsAhead stop i).filter (· < i) = [] := by
          refine List.filter_eq_nil_iff.2 fun j hj ↦ ?_
          have hle := (List.mem_range'_1.1 (List.mem_of_mem_filter hj)).1
          rw [decide_eq_true_iff]
          omega
        rw [hnone]
        rfl
      · have hend := hr _ s kSectorStart_ne_flashEnd
        rw [sectorBoundary_twelve] at hlt ⊢
        rw [hend]
        exact .beyond hlt rfl rfl
  | @next _ s calls r hlt hok hrest ih =>
      subst hstart
      rcases Nat.lt_or_eq_of_le hi with h12 | rfl
      · have hb := sectorBoundary_of_lt h12
        rw [hb] at hlt ⊢
        exact (ih (i := i + 1) (by omega) (by rw [hb, next_sectorBoundary h12])).cons h12 hlt
      · rw [sectorBoundary_twelve, hr _ s kSectorStart_ne_flashEnd] at hok
        cases hok

theorem mem_sectorsAhead {i j : Nat} (h : j ∈ sectorsAhead stop i) : j < 12 := by
  have := List.mem_range'_1.1 (List.mem_of_mem_filter h)
  rw [flashNumSectors] at this
  omega

end Run

/-! ## Covering a range -/

/-- The sectors that meet `[addr, addr + size)`, in ascending order. -/
def sectorsMeeting (addr size : Nat) : List Nat :=
  (List.range flashNumSectors).filter fun j ↦
    kSectorStart j < addr + size ∧ addr < kSectorStart j + kSectorSize j

/-- The sectors that a run erases, in the order of its calls. -/
def erasedSectors (calls : EraseCalls) : List Nat :=
  calls.filterMap fun call ↦ if call.2 = .ok then sectorIndexForAddr call.1 else none

/-- An address lies in sector `j`. -/
def InSector (j x : Nat) : Prop := kSectorStart j ≤ x ∧ x < kSectorStart j + kSectorSize j

theorem mem_sectorsMeeting {addr size j : Nat} (hsize : 0 < size) :
    j ∈ sectorsMeeting addr size ↔ j < 12 ∧ ∃ x, addr ≤ x ∧ x < addr + size ∧ InSector j x := by
  unfold sectorsMeeting InSector
  rw [List.mem_filter, List.mem_range, decide_eq_true_iff]
  refine and_congr_right fun hj ↦ ⟨fun ⟨h₁, h₂⟩ ↦ ?_, fun ⟨x, h₁, h₂, h₃, h₄⟩ ↦ by omega⟩
  have hpos := (kSectorStart_mem hj).2.2
  exact ⟨max addr (kSectorStart j), by omega, by omega, by omega, by omega⟩

theorem sectorsMeeting_pairwise (addr size : Nat) :
    (sectorsMeeting addr size).Pairwise (· < ·) := List.pairwise_lt_range.filter _

theorem sectorsMeeting_eq {addr size i : Nat} (hi : i < 12) (h : InSector i addr) :
    sectorsMeeting addr size = sectorsAhead (addr + size) i := by
  have hsplit : List.range flashNumSectors =
      List.range i ++ List.range' i (flashNumSectors - i) := by
    rw [List.range_eq_range', List.range_eq_range', flashNumSectors]
    have hj := @List.range'_append_1 0 i (12 - i)
    rw [Nat.zero_add, Nat.add_sub_cancel' (Nat.le_of_lt hi)] at hj
    exact hj.symm
  have hbelow : ∀ a < 12, ∀ b < 12, a < b → kSectorStart a + kSectorSize a ≤ kSectorStart b := by
    decide
  have hmono : ∀ a < 12, ∀ b < 12, a ≤ b →
      kSectorStart a + kSectorSize a ≤ kSectorStart b + kSectorSize b := by decide
  rw [sectorsMeeting, hsplit, List.filter_append, List.filter_eq_nil_iff.2, List.nil_append,
    sectorsAhead]
  · refine List.filter_congr fun j hj ↦ ?_
    rw [List.mem_range'_1, flashNumSectors] at hj
    have := hmono i hi j (by omega) hj.1
    have := h.2
    exact decide_eq_decide.2 (and_iff_left (by omega))
  · intro j hj
    rw [List.mem_range] at hj
    have := hbelow j (by omega) i hi hj
    have := h.1
    rw [decide_eq_true_iff]
    omega

theorem erasedSectors_append (calls calls' : EraseCalls) :
    erasedSectors (calls ++ calls') = erasedSectors calls ++ erasedSectors calls' :=
  List.filterMap_append

theorem erasedSectors_of_ne {a : Nat} {e : FlashStatus} (h : e ≠ .ok) :
    erasedSectors [(a, e)] = [] := by
  rw [erasedSectors, List.filterMap_cons, if_neg h]
  rfl

theorem erasedSectors_okCalls {sectors : List Nat} (h : ∀ j ∈ sectors, j < 12) :
    erasedSectors (okCalls sectors) = sectors := by
  induction sectors with
  | nil => rfl
  | cons j sectors ih =>
      rw [List.forall_mem_cons] at h
      have hstart := sectorIndexForAddr_kSectorStart h.1
      rw [okCalls, List.map_cons, erasedSectors, List.filterMap_cons, if_pos rfl, hstart]
      exact congrArg (j :: ·) (ih h.2)

theorem mem_okCalls {sectors : List Nat} {call : Nat × FlashStatus} :
    call ∈ okCalls sectors ↔ ∃ j ∈ sectors, (kSectorStart j, .ok) = call := List.mem_map

theorem status_of_mem_okCalls {sectors : List Nat} {a : Nat} {e : FlashStatus}
    (h : (a, e) ∈ okCalls sectors) : e = .ok := by
  obtain ⟨j, _, heq⟩ := mem_okCalls.1 h
  exact (Prod.mk.inj heq).2.symm

theorem kSectorStart_injective {i j : Nat} (hi : i < 12) (hj : j < 12)
    (h : kSectorStart i = kSectorStart j) : i = j := by
  have key : ∀ a < 12, ∀ b < 12, kSectorStart a = kSectorStart b → a = b := by decide
  exact key i hi j hj h

namespace Hw

/-! ## Runs over the device -/

/-- A sector erase that reports success has left the sector blank. -/
theorem flashEraseSector_blank {i : Nat} (hi : i < 12) {s : Hw}
    (h : (flashEraseSector (kSectorStart i) s).1 = .ok) {x : Nat} (hx : InSector i x) :
    (flashEraseSector (kSectorStart i) s).2.mem x = 0xFF := by
  rw [flashEraseSector_eq hi] at h ⊢
  split_ifs at h ⊢ with hbusy
  · unfold finishErase at h ⊢
    dsimp only at h ⊢
    split_ifs at h ⊢ with hok hblank
    · exact isErased_iff.1 hblank x hx.1 hx.2
    · exact absurd h hok
  · exact absurd h hbusy

/-- No sector erase changes a byte of another sector. -/
theorem flashEraseSector_outside {a x : Nat} (s : Hw)
    (hx : ∀ j < 12, kSectorStart j = a → ¬InSector j x) :
    (flashEraseSector a s).2.mem x = s.mem x := by
  by_cases ha : ∃ j < 12, kSectorStart j = a
  · obtain ⟨j, hj, rfl⟩ := ha
    have hout := hx j hj rfl
    unfold InSector at hout
    exact flashEraseSector_frame hj s x (by omega)
  · rw [flashEraseSector_refuses a s fun j hj e ↦ ha ⟨j, hj, e⟩]

/-- A blank byte stays blank. -/
theorem flashEraseSector_keeps {a x : Nat} {s : Hw} (h : s.mem x = 0xFF) :
    (flashEraseSector a s).2.mem x = 0xFF := by
  by_cases ha : ∃ j < 12, kSectorStart j = a ∧ InSector j x
  · obtain ⟨j, hj, rfl, hx⟩ := ha
    rw [flashEraseSector_eq hj]
    split_ifs
    · rw [finishErase_mem, waitBusy_mem, startErase, pulse_modifyCr_mem]
      unfold pulse
      split
      · exact Mem.fill_of_mem _ _ hx.1 hx.2
      · rw [← h]
        exact congrFun (waitBusy_mem s) x
      · exact Mem.fill_of_mem _ _ hx.1 hx.2
    · rw [waitBusy_mem, h]
  · rw [flashEraseSector_outside s fun j hj e hx ↦ ha ⟨j, hj, e, hx⟩, h]

variable {stop start : Nat} {s : Hw} {calls : EraseCalls} {r : FlashStatus × Hw}

/-- A run changes only the sectors it calls an erase for. -/
theorem eraseRun_outside (h : EraseRun flashEraseSector stop start s calls r) {x : Nat}
    (hx : ∀ j < 12, ∀ e, (kSectorStart j, e) ∈ calls → ¬InSector j x) : r.2.mem x = s.mem x := by
  induction h with
  | done => rfl
  | fail =>
      refine flashEraseSector_outside _ ?_
      rintro j hj rfl
      exact hx j hj _ (List.mem_singleton_self _)
  | next _ _ _ ih =>
      rw [ih fun j hj e hmem ↦ hx j hj e (List.mem_cons_of_mem _ hmem)]
      refine flashEraseSector_outside _ ?_
      rintro j hj rfl
      exact hx j hj _ (List.mem_cons_self ..)

theorem eraseRun_keeps (h : EraseRun flashEraseSector stop start s calls r) {x : Nat}
    (hx : s.mem x = 0xFF) : r.2.mem x = 0xFF := by
  induction h with
  | done => exact hx
  | fail => exact flashEraseSector_keeps hx
  | next _ _ _ ih => exact ih (flashEraseSector_keeps hx)

/-- A run leaves the sectors blank whose erase succeeds. -/
theorem eraseRun_blank (h : EraseRun flashEraseSector stop start s calls r) {j x : Nat}
    (hj : j < 12) (hmem : (kSectorStart j, .ok) ∈ calls) (hx : InSector j x) :
    r.2.mem x = 0xFF := by
  induction h with
  | done => cases hmem
  | fail _ he =>
      rw [List.mem_singleton, Prod.mk.injEq] at hmem
      exact absurd hmem.2.symm he
  | next _ hok hrest ih =>
      rcases List.mem_cons.1 hmem with heq | htail
      · rw [Prod.mk.injEq] at heq
        rw [← heq.1] at hok hrest
        exact eraseRun_keeps hrest (flashEraseSector_blank hj hok hx)
      · exact ih htail

/-! ## The range erase -/

/-- What a range erase leaves where every erase of a sector succeeds. -/
structure Covers (addr size : Nat) (s : Hw) (calls : EraseCalls) (r : FlashStatus × Hw) : Prop where
  sectors : erasedSectors calls = sectorsMeeting addr size
  ascending : (erasedSectors calls).Pairwise (· < ·)
  meets : ∀ j, j ∈ erasedSectors calls ↔
    j < 12 ∧ ∃ x, addr ≤ x ∧ x < addr + size ∧ InSector j x
  outside : ∀ x, (∀ j ∈ sectorsMeeting addr size, ¬InSector j x) → r.2.mem x = s.mem x
  blank : ∀ x, addr ≤ x → x < addr + size → x < flashBaseAddr + flashTotalSize → r.2.mem x = 0xFF
  status : r.1 = if addr + size ≤ flashBaseAddr + flashTotalSize then .ok else .errRange

/-- What a range erase leaves where the erase of sector `j` ends in `e`. -/
structure StopsAt (j : Nat) (e : FlashStatus) (addr size : Nat) (s : Hw) (calls : EraseCalls)
    (r : FlashStatus × Hw) : Prop where
  status : r.1 = e
  sectors : erasedSectors calls = (sectorsMeeting addr size).filter (· < j)
  last : ∀ call ∈ calls, call.1 ≤ kSectorStart j
  untouched : ∀ x, kSectorStart j + kSectorSize j ≤ x → r.2.mem x = s.mem x

variable {addr size i : Nat}

/-- The calls of a run that erases everything. -/
theorem covers_of_calls (hi : i < 12) (haddr : InSector i addr) (hsize : 0 < size)
    (h : EraseRun flashEraseSector stop start s calls r) {refused : EraseCalls}
    (hcalls : calls = okCalls (sectorsMeeting addr size) ++ refused)
    (hrefused : ∀ call ∈ refused, call = (flashBaseAddr + flashTotalSize, .errRange))
    (hstatus : r.1 = if addr + size ≤ flashBaseAddr + flashTotalSize then .ok else .errRange) :
    Covers addr size s calls r := by
  have hlt : ∀ j ∈ sectorsMeeting addr size, j < 12 := by
    rw [sectorsMeeting_eq hi haddr]
    exact fun j ↦ mem_sectorsAhead
  have hcall : ∀ j < 12, ∀ e, (kSectorStart j, e) ∈ calls → j ∈ sectorsMeeting addr size := by
    intro j hj e hmem
    rw [hcalls, List.mem_append, mem_okCalls] at hmem
    rcases hmem with ⟨k, hk, heq⟩ | hmem
    · rw [Prod.mk.injEq] at heq
      rwa [← kSectorStart_injective (hlt k hk) hj heq.1]
    · have heq := hrefused _ hmem
      rw [Prod.mk.injEq] at heq
      exact absurd heq.1 (kSectorStart_ne_flashEnd j hj)
  have hsectors : erasedSectors calls = sectorsMeeting addr size := by
    have hnone : erasedSectors refused = [] := by
      refine List.filterMap_eq_nil_iff.2 fun call hmem ↦ ?_
      rw [hrefused call hmem]
      rfl
    rw [hcalls, erasedSectors_append, erasedSectors_okCalls hlt, hnone, List.append_nil]
  refine ⟨hsectors, ?_, ?_, ?_, ?_, hstatus⟩
  · rw [hsectors]
    exact sectorsMeeting_pairwise addr size
  · intro j
    rw [hsectors, mem_sectorsMeeting hsize]
  · intro x hx
    exact eraseRun_outside h fun j hj e hmem ↦ hx j (hcall j hj e hmem)
  · intro x h₁ h₂ h₃
    obtain ⟨j, hj⟩ := exists_sectorIndexForAddr
      (Nat.le_trans (Nat.le_trans (kSectorStart_mem hi).1 haddr.1) h₁)
    have hx : InSector j x := sectorIndexForAddr_mem hj h₃
    have hmeet : j ∈ sectorsMeeting addr size :=
      (mem_sectorsMeeting hsize).2 ⟨sectorIndexForAddr_lt hj, x, h₁, h₂, hx⟩
    refine eraseRun_blank h (sectorIndexForAddr_lt hj) ?_ hx
    rw [hcalls]
    exact List.mem_append_left _ (mem_okCalls.2 ⟨j, hmeet, rfl⟩)

/-- The calls of a run that fails. -/
theorem stopsAt_of_calls {k : Nat} (hk : k < 12)
    (hmeet : ∀ j ∈ sectorsMeeting addr size, j < 12)
    (h : EraseRun flashEraseSector stop start s calls r)
    (hcalls : calls = okCalls ((sectorsMeeting addr size).filter (· < k)) ++
      [(kSectorStart k, r.1)])
    (hstatus : r.1 ≠ .ok) : StopsAt k r.1 addr size s calls r := by
  have hmono : ∀ a < 12, ∀ b < 12, a ≤ b → kSectorStart a ≤ kSectorStart b ∧
      kSectorStart a + kSectorSize a ≤ kSectorStart b + kSectorSize b := by decide
  have hlt : ∀ j ∈ (sectorsMeeting addr size).filter (· < k), j < 12 ∧ j < k := by
    intro j hj
    rw [List.mem_filter, decide_eq_true_iff] at hj
    exact ⟨hmeet j hj.1, hj.2⟩
  have hcall : ∀ call ∈ calls, ∃ j < 12, j ≤ k ∧ kSectorStart j = call.1 := by
    intro call hmem
    rw [hcalls, List.mem_append, mem_okCalls, List.mem_singleton] at hmem
    rcases hmem with ⟨j, hj, rfl⟩ | rfl
    · exact ⟨j, (hlt j hj).1, Nat.le_of_lt (hlt j hj).2, rfl⟩
    · exact ⟨k, hk, Nat.le_refl k, rfl⟩
  refine ⟨rfl, ?_, ?_, ?_⟩
  · rw [hcalls, erasedSectors_append, erasedSectors_okCalls fun j hj ↦ (hlt j hj).1,
      erasedSectors_of_ne hstatus, List.append_nil]
  · intro call hmem
    obtain ⟨j, hj, hjk, heq⟩ := hcall call hmem
    rw [← heq]
    exact (hmono j hj k hk hjk).1
  · intro x hx
    refine eraseRun_outside h ?_
    intro j hj e hmem hin
    obtain ⟨j', hj', hjk, heq⟩ := hcall _ hmem
    have := (hmono j' hj' k hk hjk).2
    have := hin.2
    rw [kSectorStart_injective hj' hj heq] at *
    omega

/-- **Exact cover.**  From an address of the flash, and over a range that does not wrap, the
range erase ends.  Where every erase of a sector succeeds, it has erased the sectors that
meet the range, and it returns `FLASH_OK` if the range ends in the flash and
`FLASH_ERR_RANGE` otherwise.  Where one fails, it ends there with that status. -/
theorem flashEraseRange_exact (haddr : flashBaseAddr ≤ addr)
    (hlt : addr < flashBaseAddr + flashTotalSize) (hsize : 0 < size) (hwrap : addr + size < 2 ^ 32)
    (s : Hw) :
    (∃ calls r, EraseRun flashEraseSector ((addr + size) % 2 ^ 32) (flashSectorStart addr) s
      calls r) ∧
    ∀ calls r, EraseRun flashEraseSector ((addr + size) % 2 ^ 32) (flashSectorStart addr) s
        calls r →
      flashEraseRange addr size s = r ∧
      ((∀ j < 12, ∀ e, (kSectorStart j, e) ∈ calls → e = .ok) → Covers addr size s calls r) ∧
      ∀ j < 12, ∀ e, (kSectorStart j, e) ∈ calls → e ≠ .ok →
        StopsAt j e addr size s calls r := by
  obtain ⟨i, hi, hidx, hstart⟩ := exists_flashSectorStart haddr
  have hin : InSector i addr := sectorIndexForAddr_mem hidx hlt
  have hmeet := @sectorsMeeting_eq addr size i hi hin
  have hresult : flashEraseRange addr size s = eraseLoop flashEraseSector (flashNumSectors + 1)
      (sectorBoundary i) ((addr + size) % 2 ^ 32) s := by
    rw [flashEraseRange, eraseRangeWith, if_neg (by omega), hstart]
  obtain ⟨calls₀, hrun₀⟩ := @exists_eraseRun _ _ ((addr + size) % 2 ^ 32) flashEraseSector_refuses
    (flashNumSectors + 1) i s (Nat.le_of_lt hi) (by rw [flashNumSectors]; omega)
  rw [← hresult, ← hstart] at hrun₀
  refine ⟨⟨_, _, hrun₀⟩, fun calls r h ↦ ⟨(hrun₀.unique h).2, ?_⟩⟩
  rw [Nat.mod_eq_of_lt hwrap] at h
  cases h.ends flashEraseSector_refuses (Nat.le_of_lt hi) hstart with
  | inside hstop hcalls hstatus =>
      rw [← hmeet] at hcalls
      have hcalls' : calls = okCalls (sectorsMeeting addr size) ++ [] := by
        rw [hcalls, List.append_nil]
      constructor
      · intro _
        refine covers_of_calls hi hin hsize h hcalls' (fun _ hmem ↦ by cases hmem) ?_
        rw [hstatus, if_pos hstop]
      · intro j hj e hmem he
        rw [hcalls] at hmem
        exact absurd (status_of_mem_okCalls hmem) he
  | beyond hstop hcalls hstatus =>
      rw [← hmeet] at hcalls
      constructor
      · intro _
        refine covers_of_calls hi hin hsize h hcalls (fun _ hmem ↦ List.mem_singleton.1 hmem) ?_
        rw [hstatus, if_neg (by omega)]
      · intro j hj e hmem he
        rw [hcalls, List.mem_append, List.mem_singleton] at hmem
        rcases hmem with hmem | heq
        · exact absurd (status_of_mem_okCalls hmem) he
        · exact absurd (Prod.mk.inj heq).1 (kSectorStart_ne_flashEnd j hj)
  | failed k hk hik hstop hcalls hstatus =>
      rw [← hmeet] at hcalls
      constructor
      · intro hall
        refine absurd (hall k hk r.1 ?_) hstatus
        rw [hcalls]
        exact List.mem_append_right _ (List.mem_singleton_self _)
      · intro j hj e hmem he
        rw [hcalls, List.mem_append, List.mem_singleton] at hmem
        rcases hmem with hmem | heq
        · exact absurd (status_of_mem_okCalls hmem) he
        · obtain ⟨hstart', rfl⟩ := Prod.mk.inj heq
          obtain rfl := kSectorStart_injective hj hk hstart'
          refine stopsAt_of_calls hk ?_ h hcalls hstatus
          rw [hmeet]
          exact fun j ↦ mem_sectorsAhead

/-- Without faults every erase of a sector succeeds. -/
theorem eraseRun_of_healthy (h : EraseRun flashEraseSector stop start s calls r) (hs : s.Healthy)
    {j : Nat} (hj : j < 12) {e : FlashStatus} (hmem : (kSectorStart j, e) ∈ calls) : e = .ok := by
  induction h with
  | done => cases hmem
  | fail =>
      rw [List.mem_singleton, Prod.mk.injEq] at hmem
      obtain ⟨rfl, rfl⟩ := hmem
      exact (flashEraseSector_of_healthy hj hs).1
  | @next start s _ _ _ _ _ ih =>
      rcases List.mem_cons.1 hmem with heq | htail
      · exact (Prod.mk.inj heq).2
      · refine ih ?_ htail
        by_cases ha : ∃ k < 12, kSectorStart k = start
        · obtain ⟨k, hk, rfl⟩ := ha
          exact (flashEraseSector_of_healthy hk hs).2.1
        · rw [flashEraseSector_refuses start s fun k hk he ↦ ha ⟨k, hk, he⟩]
          exact hs

/-- A device out of reset whose flash is all zeros. -/
def zeroDevice : Hw := reset fun _ ↦ 0

/-- Over a range that starts inside the second sector and ends inside the fifth, these and the
two between them are erased. -/
theorem flashEraseRange_exact_zero :
    ∃ calls, EraseRun flashEraseSector 0x08014001 0x08004000 zeroDevice calls
        (flashEraseRange 0x08004001 0x10000 zeroDevice) ∧
      erasedSectors calls = [1, 2, 3, 4] ∧
      (flashEraseRange 0x08004001 0x10000 zeroDevice).1 = .ok := by
  obtain ⟨⟨calls, r, hrun⟩, hall⟩ := @flashEraseRange_exact 0x08004001 0x10000 (by decide)
    (by decide) (by decide) (by decide) zeroDevice
  obtain ⟨hresult, hcovers, -⟩ := hall calls r hrun
  have hc := hcovers fun j hj e hmem ↦ eraseRun_of_healthy hrun (healthy_reset _) hj hmem
  rw [hresult]
  refine ⟨calls, hrun, hc.sectors.trans (by decide), ?_⟩
  rw [hc.status]
  rfl

end Hw

end DualBank
