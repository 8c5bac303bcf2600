import ArcFirmware.PpiAtomicity
import ArcFirmware.PpiDatabase

/-!
# Published PPIs

What clients of the database hold on to are the installed descriptors, the GUIDs
and interfaces they point to and the entry fields.  An install that relocates
none of these leaves every earlier answer of `PeiLocatePpi` as it is.
-/

set_option autoImplicit false

namespace ArcFirmware.PpiStability

open ArcFirmware.Memory ArcFirmware.Loop ArcFirmware.Edk2 ArcFirmware.UtilsLib
  ArcFirmware.FileChain ArcFirmware.PpiServices ArcFirmware.PpiInstall ArcFirmware.PpiDatabase

/-- Bus addresses of the visible descriptors, their GUIDs and their entry fields. -/
def Published (state : PeiState) (addr : Nat) : Prop :=
  ∃ desc ∈ visibleEntries state.ppiList,
    (∃ i < 12, addr = bus (desc + i)) ∨
    (∃ i < 16, addr = bus (descGuid state.mem desc + i)) ∨
    (∃ i < 4, addr = bus (descPpi state.mem desc + i))

/-- A call that relocates nothing of a region. -/
def Avoids (pcdBootFvBase : Nat) (region : Nat → Prop) (before : PeiState) (desc : Nat) : Prop :=
  ∀ fixup, IsFixup pcdBootFvBase before.mem fixup → fixup ≠ 0 →
    ∀ moved ∈ relocated before.mem (callList before desc), ∀ addr, region (bus addr) →
      Spares before.mem moved fixup addr

/-- Install calls that avoid a region, with other code in between that does not
write to it. -/
inductive LaterRun (pcdBootFvBase : Nat) (region : Nat → Prop) (start : PeiState) :
    PeiState → Prop where
  | refl : LaterRun pcdBootFvBase region start start
  | call {before after : PeiState} {desc : Nat} {status : EfiStatus}
      (prior : LaterRun pcdBootFvBase region start before)
      (separate : Separate pcdBootFvBase before.mem (callList before desc) desc)
      (avoids : Avoids pcdBootFvBase region before desc)
      (returned : InstallPpiReturns pcdBootFvBase before desc status after) :
      LaterRun pcdBootFvBase region start after
  | other {before : PeiState} {mem : Mem}
      (prior : LaterRun pcdBootFvBase region start before)
      (agree : AgreeOn region before.mem mem) :
      LaterRun pcdBootFvBase region start ⟨mem, before.ppiList⟩

structure Kept (region : Nat → Prop) (start state : PeiState) : Prop where
  count : start.ppiList.currentCount ≤ state.ppiList.currentCount
  max : state.ppiList.maxCount = start.ppiList.maxCount
  slots : ∀ slot < start.ppiList.currentCount,
    state.ppiList.ppiPtrs slot = start.ppiList.ppiPtrs slot
  bytes : AgreeOn region start.mem state.mem

section Calls

variable {pcdBootFvBase : Nat} {region : Nat → Prop} {start before after : PeiState}

theorem kept_of_call {desc : Nat} {status : EfiStatus} (small : before.ppiList.maxCount < 2 ^ 32)
    (separate : Separate pcdBootFvBase before.mem (callList before desc) desc)
    (avoids : Avoids pcdBootFvBase region before desc)
    (returned : InstallPpiReturns pcdBootFvBase before desc status after) :
    Kept region before after := by
  by_cases early : desc = null ∨ before.ppiList.maxCount ≤ before.ppiList.currentCount
  · obtain ⟨_, rfl⟩ := installPpi_early returned early
    exact ⟨le_rfl, rfl, fun _ _ => rfl, fun _ _ => rfl⟩
  · rw [not_or, Nat.not_le] at early
    obtain ⟨given, room⟩ := early
    obtain ⟨done, _, _, moved, pool⟩ := installPpi_outcome returned separate small given room
    have bytes : AgreeOn region before.mem after.mem := by
      intro addr inside
      symm
      apply moved.frame
      intro fixup found nonzero other _ selected
      exact avoids fixup found nonzero other selected addr inside
    rcases pool with ⟨_, _, entered, _⟩ | ⟨_, restored, _⟩
    · refine ⟨?_, entered.max, fun slot below => entered.kept slot (Or.inl below), bytes⟩
      have count := entered.count
      omega
    · exact ⟨restored.count.ge, restored.max, fun slot below => restored.kept slot (Or.inl below),
        bytes⟩

theorem Kept.trans (first : Kept region start before) (second : Kept region before after) :
    Kept region start after := by
  have count := first.count
  refine ⟨count.trans second.count, second.max.trans first.max, ?_, ?_⟩
  · intro slot below
    exact (second.slots slot (by omega)).trans (first.slots slot below)
  · intro addr inside
    exact (first.bytes addr inside).trans (second.bytes addr inside)

theorem LaterRun.kept (reached : LaterRun pcdBootFvBase region start after)
    (small : start.ppiList.maxCount < 2 ^ 32) : Kept region start after := by
  induction reached with
  | refl => exact ⟨le_rfl, rfl, fun _ _ => rfl, fun _ _ => rfl⟩
  | call _ separate avoids returned ih =>
      exact ih.trans (kept_of_call (ih.max ▸ small) separate avoids returned)
  | other _ agree ih => exact ih.trans ⟨le_rfl, rfl, fun _ _ => rfl, agree⟩

end Calls

/-! ## Earlier answers -/

section Answers

variable {start state : PeiState}

theorem Kept.entry (kept : Kept (Published start) start state) (slot : Nat)
    (below : slot < start.ppiList.currentCount) :
    descGuid state.mem (start.ppiList.ppiPtrs slot) = descGuid start.mem (start.ppiList.ppiPtrs slot) ∧
      descPpi state.mem (start.ppiList.ppiPtrs slot) =
        descPpi start.mem (start.ppiList.ppiPtrs slot) ∧
      guidAt state.mem (descGuid start.mem (start.ppiList.ppiPtrs slot)) =
        guidAt start.mem (descGuid start.mem (start.ppiList.ppiPtrs slot)) ∧
      ppiEntry state.mem (descPpi start.mem (start.ppiList.ppiPtrs slot)) =
        ppiEntry start.mem (descPpi start.mem (start.ppiList.ppiPtrs slot)) := by
  have member : start.ppiList.ppiPtrs slot ∈ visibleEntries start.ppiList :=
    List.mem_map_of_mem (List.mem_range.mpr below)
  have word (offset : Nat) (room : offset + 4 ≤ 12) :
      leAt state.mem (start.ppiList.ppiPtrs slot + offset) 4 =
        leAt start.mem (start.ppiList.ppiPtrs slot + offset) 4 := by
    symm
    apply leAt_agree kept.bytes
    intro i bound
    exact ⟨_, member, Or.inl ⟨offset + i, by omega, by rw [Nat.add_assoc]⟩⟩
  refine ⟨word 4 (by omega), word 8 (by omega), ?_, ?_⟩
  · apply guidAt_congr
    intro i bound
    symm
    exact kept.bytes _ ⟨_, member, Or.inr (Or.inl ⟨i, bound, rfl⟩)⟩
  · symm
    apply leAt_agree kept.bytes
    intro i bound
    exact ⟨_, member, Or.inr (Or.inr ⟨i, bound, rfl⟩)⟩

theorem Kept.locateStep_eq (kept : Kept (Published start) start state) (guid : EfiGuid)
    (instance_ : Nat) (wantsDescriptor : Bool) (idx tmpInstance : Nat)
    (below : idx < start.ppiList.currentCount) :
    locateStep state guid instance_ wantsDescriptor (idx, tmpInstance) =
      locateStep start guid instance_ wantsDescriptor (idx, tmpInstance) := by
  obtain ⟨guidPtr, ppiPtr, guidBytes, _⟩ := kept.entry idx below
  have later : idx < state.ppiList.currentCount := lt_of_lt_of_le below kept.count
  simp only [locateStep, if_pos below, if_pos later, kept.slots idx below, guidPtr, ppiPtr,
    guidBytes]

/-- A successful search ends at an entry of the start, so its run is the same. -/
theorem locate_kept (kept : Kept (Published start) start state) (guid : EfiGuid)
    (instance_ : Nat) (wantsDescriptor : Bool) (fuel : Nat) (vars : Nat × Nat)
    (result : LocateResult)
    (success : run (locateStep start guid instance_ wantsDescriptor) fuel vars = some result)
    (found : result.status = .success) :
    run (locateStep state guid instance_ wantsDescriptor) fuel vars = some result ∧
      ∃ slot < start.ppiList.currentCount,
        result.ppi = some (descPpi start.mem (start.ppiList.ppiPtrs slot)) := by
  induction fuel generalizing vars with
  | zero => cases success
  | succ fuel ih =>
      obtain ⟨idx, tmpInstance⟩ := vars
      by_cases below : idx < start.ppiList.currentCount
      · have same := kept.locateStep_eq guid instance_ wantsDescriptor idx tmpInstance below
        cases outcome : locateStep start guid instance_ wantsDescriptor (idx, tmpInstance) with
        | next later =>
            rw [run_next _ _ _ _ outcome] at success
            rw [run_next _ _ _ _ (same.trans outcome)]
            exact ih later success
        | done answer =>
            rw [run_done _ _ _ _ outcome] at success
            cases success
            refine ⟨run_done _ _ _ _ (same.trans outcome), idx, below, ?_⟩
            simp only [locateStep, if_pos below] at outcome
            split_ifs at outcome
            all_goals
              cases outcome
              rfl
      · have missed : locateStep start guid instance_ wantsDescriptor (idx, tmpInstance) =
            .done ⟨.notFound, none, none⟩ := by
          simp only [locateStep, if_neg below]
        rw [run_done _ _ _ _ missed] at success
        cases success
        cases found

end Answers

/-- What clients rely on: the answers they have been given, and in general every
entry that was visible. -/
structure StaysValid (start after : PeiState) : Prop where
  located : ∀ guid instance_ wantsDescriptor result,
    LocatePpiReturns start (some guid) instance_ wantsDescriptor true result →
      result.status = .success →
        LocatePpiReturns after (some guid) instance_ wantsDescriptor true result ∧
          ∃ ppi, result.ppi = some ppi ∧ ppiEntry after.mem ppi = ppiEntry start.mem ppi
  entries : ∀ slot < start.ppiList.currentCount,
    slot < after.ppiList.currentCount ∧
      after.ppiList.ppiPtrs slot = start.ppiList.ppiPtrs slot ∧
      descGuid after.mem (start.ppiList.ppiPtrs slot) =
        descGuid start.mem (start.ppiList.ppiPtrs slot) ∧
      descPpi after.mem (start.ppiList.ppiPtrs slot) =
        descPpi start.mem (start.ppiList.ppiPtrs slot) ∧
      ppiEntry after.mem (descPpi start.mem (start.ppiList.ppiPtrs slot)) =
        ppiEntry start.mem (descPpi start.mem (start.ppiList.ppiPtrs slot))

/-- Installs that relocate nothing published leave what is published valid. -/
theorem publishedPpis_stay (pcdBootFvBase : Nat) (start after : PeiState)
    (small : start.ppiList.maxCount < 2 ^ 32)
    (reached : LaterRun pcdBootFvBase (Published start) start after) :
    StaysValid start after := by
  have kept := reached.kept small
  refine ⟨?_, ?_⟩
  · intro guid instance_ wantsDescriptor result returned found
    obtain ⟨fuel, success⟩ := returned
    obtain ⟨again, slot, below, ppi⟩ :=
      locate_kept kept guid instance_ wantsDescriptor fuel (0, 0) result success found
    obtain ⟨_, _, _, entry⟩ := kept.entry slot below
    exact ⟨⟨fuel, again⟩, _, ppi, entry⟩
  · intro slot below
    obtain ⟨guidPtr, ppiPtr, _, entry⟩ := kept.entry slot below
    exact ⟨lt_of_lt_of_le below kept.count, kept.slots slot below, guidPtr, ppiPtr, entry⟩

def onePublished : PeiState := ⟨threeLists, ⟨1, 256, fun _ => 0x2030⟩⟩

theorem onePublished_region {addr : Nat} (published : Published onePublished addr) :
    (0x2030 ≤ addr ∧ addr < 0x203c) ∨ (0x3000 ≤ addr ∧ addr < 0x3010) ∨
      0x3020 ≤ addr ∧ addr < 0x3024 := by
  obtain ⟨desc, member, parts⟩ := published
  obtain rfl : desc = 0x2030 := List.mem_singleton.mp member
  have guid : descGuid onePublished.mem 0x2030 = 0x3000 := by decide +kernel
  have ppi : descPpi onePublished.mem 0x2030 = 0x3020 := by decide +kernel
  rw [guid, ppi] at parts
  obtain ⟨i, bound, rfl⟩ | ⟨i, bound, rfl⟩ | ⟨i, bound, rfl⟩ := parts
  · rw [bus_of_lt (by omega)]
    omega
  · rw [bus_of_lt (by omega)]
    omega
  · rw [bus_of_lt (by omega)]
    omega

theorem onePublished_list : callList onePublished 0x2000 = [0x2000, 0x200c] := by decide +kernel

theorem onePublished_relocated :
    relocated onePublished.mem (callList onePublished 0x2000) = [0x2000, 0x200c] := by
  rw [onePublished_list]
  decide +kernel

theorem onePublished_avoids :
    Avoids 0x1000 (Published onePublished) onePublished 0x2000 := by
  intro fixup found _ moved member addr published
  obtain rfl := found.unique threeLists_fixup
  rw [onePublished_relocated] at member
  have region := onePublished_region published
  have first : descPpi onePublished.mem 0x2000 = 0x3020 := by decide +kernel
  have second : descPpi onePublished.mem 0x200c = 0x3060 := by decide +kernel
  rcases List.mem_cons.mp member with rfl | member
  · refine ⟨fun i bound => ?_, fun i bound => ?_⟩
    · rw [bus_of_lt (by omega)]
      omega
    · rw [first, bus_of_lt (by omega)]
      omega
  · obtain rfl := List.mem_singleton.mp member
    refine ⟨fun i bound => ?_, fun i bound => ?_⟩
    · rw [bus_of_lt (by omega)]
      omega
    · rw [second, bus_of_lt (by omega)]
      omega

theorem onePublished_separate :
    Separate 0x1000 onePublished.mem (callList onePublished 0x2000) 0x2000 := by
  rw [onePublished_list]
  exact first_admissible.2

/-- Another list is installed and relocated. -/
theorem publishedPpis_stay_onePublished :
    ∃ after, LaterRun 0x1000 (Published onePublished) onePublished after ∧
      after.ppiList.currentCount = 3 ∧ descPpi after.mem 0x2000 = 0x4080 ∧
        StaysValid onePublished after := by
  have evaluated : (peiInstallPpi 0x1000 onePublished 0x2000 9).map
      (fun result => (result.2.ppiList.currentCount, descPpi result.2.mem 0x2000)) =
        some (3, 0x4080) := by
    decide +kernel
  obtain ⟨⟨status, after⟩, returned, same⟩ := Option.map_eq_some_iff.mp evaluated
  obtain ⟨count, moved⟩ := Prod.mk.inj same
  have reached : LaterRun 0x1000 (Published onePublished) onePublished after :=
    .call .refl onePublished_separate onePublished_avoids ⟨9, returned⟩
  exact ⟨after, reached, count, moved,
    publishedPpis_stay 0x1000 onePublished after (by decide) reached⟩

def picList : PeiState :=
  ⟨fun addr =>
    if 0x2000 ≤ addr then
      place 0x2000 [0x11, 0, 0, 0x80, 0, 0x30, 0, 0, 0x20, 0x30, 0, 0] addr
    else PpiAtomicity.halfGoodMem addr, emptyPool⟩

/-- Installed twice, the list is relocated twice, and the second install moves the
interface that the first one has published. -/
theorem second_install_moves_published :
    ∃ first second,
      InstallPpiReturns 0x1000 picList 0x2000 .success first ∧
      InstallPpiReturns 0x1000 first 0x2000 .success second ∧
      LocatePpiReturns first (some ⟨0, 0, 0, Vector.replicate 8 0⟩) 0 true true
        ⟨.success, some 0x2000, some 0x4080⟩ ∧
      LocatePpiReturns second (some ⟨0, 0, 0, Vector.replicate 8 0⟩) 0 true true
        ⟨.success, some 0x2000, some 0x50e0⟩ ∧
      ¬ StaysValid first second := by
  have evaluated : ((peiInstallPpi 0x1000 picList 0x2000 9).bind fun first =>
      (peiInstallPpi 0x1000 first.2 0x2000 9).map fun second =>
        (first.1, second.1,
          peiLocatePpi first.2 (some ⟨0, 0, 0, Vector.replicate 8 0⟩) 0 true true 3,
          peiLocatePpi second.2 (some ⟨0, 0, 0, Vector.replicate 8 0⟩) 0 true true 3)) =
      some (.success, .success, some ⟨.success, some 0x2000, some 0x4080⟩,
        some ⟨.success, some 0x2000, some 0x50e0⟩) := by
    decide +kernel
  obtain ⟨⟨firstStatus, first⟩, firstReturned, later⟩ := Option.bind_eq_some_iff.mp evaluated
  obtain ⟨⟨secondStatus, second⟩, secondReturned, same⟩ := Option.map_eq_some_iff.mp later
  simp only [Prod.mk.injEq] at same
  obtain ⟨rfl, rfl, firstLocated, secondLocated⟩ := same
  refine ⟨first, second, ⟨9, firstReturned⟩, ⟨9, secondReturned⟩, ⟨3, firstLocated⟩,
    ⟨3, secondLocated⟩, ?_⟩
  intro valid
  obtain ⟨fuel, again⟩ := (valid.located _ _ _ _ ⟨3, firstLocated⟩ rfl).1
  have alike := Returns.unique ⟨fuel, again⟩ ⟨3, secondLocated⟩
  cases alike

end ArcFirmware.PpiStability
