import ArcFirmware.PpiInstall

/-!
# Failing installs

A rejected list is taken out of the database by restoring the counter.  The
relocations made on the way are not undone, so a failing call is without effect
exactly when it fails before anything is relocated.
-/

set_option autoImplicit false

namespace ArcFirmware.PpiAtomicity

open ArcFirmware.Memory ArcFirmware.Loop ArcFirmware.Edk2 ArcFirmware.UtilsLib
  ArcFirmware.FileChain ArcFirmware.PpiServices ArcFirmware.PpiInstall

/-! ## Retrying -/

/-- Databases that differ at most in slots that are not visible. -/
structure Alike (left right : PpiList) : Prop where
  count : left.currentCount = right.currentCount
  max : left.maxCount = right.maxCount
  slots : ∀ slot < left.currentCount, left.ppiPtrs slot = right.ppiPtrs slot

theorem Alike.visible {left right : PpiList} (alike : Alike left right) :
    visibleEntries left = visibleEntries right := by
  rw [visibleEntries, visibleEntries, ← alike.count]
  apply List.map_congr_left
  intro slot member
  exact alike.slots slot (List.mem_range.mp member)

def SameResult (left right : EfiStatus × PeiState) : Prop :=
  left.1 = right.1 ∧ left.2.mem = right.2.mem ∧ Alike left.2.ppiList right.2.ppiList

abbrev SameOutcome : Option (EfiStatus × PeiState) → Option (EfiStatus × PeiState) → Prop :=
  Option.Rel SameResult

structure LoopsAlike (lastCount : Nat) (left right : InstallLoop) : Prop where
  mem : left.state.mem = right.state.mem
  desc : left.desc = right.desc
  idx : left.idx = right.idx
  fixup : left.peimFixup = right.peimFixup
  pool : Alike left.state.ppiList right.state.ppiList
  count : left.state.ppiList.currentCount = left.idx
  later : lastCount ≤ left.idx
  room : left.idx < left.state.ppiList.maxCount
  small : left.state.ppiList.maxCount < 2 ^ 32

theorem Alike.push {left right : PpiList} (alike : Alike left right) (desc : Nat)
    (small : left.currentCount + 1 < 2 ^ 32) :
    Alike (left.push left.currentCount desc) (right.push left.currentCount desc) := by
  have kept : u32 (left.currentCount + 1) = left.currentCount + 1 := Nat.mod_eq_of_lt small
  refine ⟨?_, alike.max, ?_⟩
  · simp only [PpiList.push, alike.count]
  · intro slot below
    simp only [PpiList.push, kept] at below ⊢
    by_cases here : slot = left.currentCount
    · rw [here, Function.update_self, Function.update_self]
    · rw [Function.update_of_ne here, Function.update_of_ne here]
      exact alike.slots slot (by omega)

theorem Alike.lower {left right : PpiList} (alike : Alike left right) (count : Nat)
    (below : count ≤ left.currentCount) :
    Alike { left with currentCount := count } { right with currentCount := count } :=
  ⟨rfl, alike.max, fun slot inside => alike.slots slot (lt_of_lt_of_le inside below)⟩

abbrev StepsAlike (lastCount : Nat) : InstallStep → InstallStep → Prop :=
  Step.Related (LoopsAlike lastCount) SameOutcome

theorem rejectList_alike {lastCount : Nat} (status : EfiStatus) (left right : PeiState)
    (mem : left.mem = right.mem) (pool : Alike left.ppiList right.ppiList)
    (later : lastCount ≤ left.ppiList.currentCount) :
    StepsAlike lastCount (rejectList lastCount status left) (rejectList lastCount status right) :=
  .some ⟨rfl, mem, pool.lower lastCount later⟩

theorem acceptPpi_alike {lastCount : Nat} (fixup : Nat) {left right : InstallLoop}
    (alike : LoopsAlike lastCount left right) :
    StepsAlike lastCount (acceptPpi lastCount fixup left) (acceptPpi lastCount fixup right) := by
  have room := alike.room
  have small := alike.small
  have count := alike.count
  have later := alike.later
  have pool := alike.pool.push left.desc (by omega)
  have kept : u32 (left.state.ppiList.currentCount + 1) = left.idx + 1 := by
    rw [count]
    exact Nat.mod_eq_of_lt (by omega)
  have stepped : u32 (left.idx + 1) = left.idx + 1 := Nat.mod_eq_of_lt (by omega)
  rw [count] at pool
  have pushed (list : PpiList) : (list.push left.idx left.desc).ppiPtrs left.idx = left.desc :=
    Function.update_self ..
  have max : (left.state.ppiList.push left.idx left.desc).maxCount =
      (right.state.ppiList.push left.idx left.desc).maxCount := pool.max
  unfold acceptPpi
  rw [← alike.mem, ← alike.desc, ← alike.idx]
  simp only [pushed, stepped, ← max]
  by_cases last : isLastPpi (fixupPpi left.state.mem left.desc fixup) left.desc = true
  · rw [if_pos last, if_pos last]
    exact .some ⟨rfl, rfl, pool⟩
  · rw [if_neg last, if_neg last]
    by_cases full : left.idx + 1 ≥ (left.state.ppiList.push left.idx left.desc).maxCount
    · rw [if_pos full, if_pos full]
      have counted : lastCount ≤ (left.state.ppiList.push left.idx left.desc).currentCount := by
        simp only [PpiList.push, kept]
        omega
      exact rejectList_alike .notFound ⟨_, _⟩ ⟨_, _⟩ rfl pool counted
    · rw [if_neg full, if_neg full]
      refine ⟨rfl, rfl, rfl, rfl, pool, kept, ?_, ?_, small⟩
      · simp only
        omega
      · simpa using full

theorem installStep_alike (pcdBootFvBase fuel : Nat) {lastCount : Nat} {left right : InstallLoop}
    (alike : LoopsAlike lastCount left right) :
    StepsAlike lastCount (installStep pcdBootFvBase fuel lastCount left)
      (installStep pcdBootFvBase fuel lastCount right) := by
  have enough : lastCount ≤ left.state.ppiList.currentCount := by
    rw [alike.count]
    exact alike.later
  unfold installStep
  rw [← alike.mem, ← alike.desc, ← alike.fixup]
  by_cases flag : hasPpiFlag left.state.mem left.desc = false
  · rw [if_pos flag, if_pos flag]
    exact rejectList_alike _ _ _ alike.mem alike.pool enough
  rw [if_neg flag, if_neg flag]
  by_cases lookup : left.peimFixup = 0 ∧ isPicPpi left.state.mem left.desc = true
  · rw [if_pos lookup, if_pos lookup]
    cases outcome : calcPeimFixup left.state.mem pcdBootFvBase fuel with
    | none => exact .none
    | some result =>
        obtain ⟨fixup, status⟩ := result
        by_cases success : status ≠ .success
        · simp only [if_pos success]
          exact rejectList_alike _ _ _ alike.mem alike.pool enough
        · simp only [if_neg success]
          exact acceptPpi_alike fixup alike
  · rw [if_neg lookup, if_neg lookup]
    exact acceptPpi_alike left.peimFixup alike

theorem join_alike {left right : Option (Option (EfiStatus × PeiState))}
    (same : Option.Rel SameOutcome left right) : SameOutcome left.join right.join := by
  cases same with
  | none => exact .none
  | some inner => exact inner

/-- A call does not see the slots behind the visible ones. -/
theorem peiInstallPpi_alike {left right : PpiList} (alike : Alike left right)
    (small : left.maxCount < 2 ^ 32) (pcdBootFvBase : Nat) (mem : Mem) (desc fuel : Nat) :
    SameOutcome (peiInstallPpi pcdBootFvBase ⟨mem, left⟩ desc fuel)
      (peiInstallPpi pcdBootFvBase ⟨mem, right⟩ desc fuel) := by
  unfold peiInstallPpi
  by_cases missing : desc = null
  · rw [if_pos missing, if_pos missing]
    exact .some ⟨rfl, rfl, alike⟩
  rw [if_neg missing, if_neg missing]
  simp only [← alike.count, ← alike.max]
  by_cases full : left.currentCount ≥ left.maxCount
  · rw [if_pos full, if_pos full]
    exact .some ⟨rfl, rfl, alike⟩
  rw [if_neg full, if_neg full]
  have start : LoopsAlike left.currentCount ⟨⟨mem, left⟩, desc, left.currentCount, 0⟩
      ⟨⟨mem, right⟩, desc, left.currentCount, 0⟩ :=
    ⟨rfl, rfl, rfl, rfl, alike, rfl, le_rfl, by simpa using full, small⟩
  have runs : Option.Rel SameOutcome
      (run (installStep pcdBootFvBase fuel left.currentCount) fuel
        ⟨⟨mem, left⟩, desc, left.currentCount, 0⟩)
      (run (installStep pcdBootFvBase fuel left.currentCount) fuel
        ⟨⟨mem, right⟩, desc, left.currentCount, 0⟩) :=
    run_related (fun _ _ here => installStep_alike pcdBootFvBase fuel here) fuel start
  exact join_alike runs

/-! ## What a failing call leaves behind -/

/-- The descriptors of the caller's list, also those a call does not get to. -/
def InList (mem : Mem) (desc other : Nat) : Prop := ∃ limit, other ∈ descriptors mem limit desc

/-- The database, the caller's descriptors and the interfaces are as before the
call, and a retry in memory that the caller has corrected goes as a first call. -/
structure Untouched (pcdBootFvBase : Nat) (before : PeiState) (desc : Nat) (after : PeiState) :
    Prop where
  count : after.ppiList.currentCount = before.ppiList.currentCount
  visible : visibleEntries after.ppiList = visibleEntries before.ppiList
  descriptor : ∀ other, InList before.mem desc other →
    descPpi after.mem other = descPpi before.mem other ∧
      descGuid after.mem other = descGuid before.mem other ∧
      ppiEntry after.mem (descPpi before.mem other) = ppiEntry before.mem (descPpi before.mem other)
  retry : ∀ (correct : Mem → Mem) fuel,
    SameOutcome (peiInstallPpi pcdBootFvBase ⟨correct after.mem, after.ppiList⟩ desc fuel)
      (peiInstallPpi pcdBootFvBase ⟨correct before.mem, before.ppiList⟩ desc fuel)

def Relocates (pcdBootFvBase : Nat) (before : PeiState) (desc : Nat) : Prop :=
  desc ≠ null ∧ (∃ fixup, IsFixup pcdBootFvBase before.mem fixup ∧ fixup ≠ 0) ∧
    relocated before.mem (callList before desc) ≠ []

section Failing

variable {pcdBootFvBase desc : Nat} {before after : PeiState} {status : EfiStatus}

theorem exists_pic_of_relocated {mem : Mem} {list : List Nat} (moved : relocated mem list ≠ []) :
    ∃ desc ∈ relocated mem list, isPicPpi mem desc = true := by
  unfold relocated at moved ⊢
  refine ⟨_, List.head_mem moved, ?_⟩
  have stopped := List.head_dropWhile_not (fun desc => !isPicPpi mem desc) moved
  simpa using stopped

theorem mem_of_not_relocates
    (returned : InstallPpiReturns pcdBootFvBase before desc status after) (error : status ≠ .success)
    (small : before.ppiList.maxCount < 2 ^ 32) (still : ¬ Relocates pcdBootFvBase before desc) :
    after.mem = before.mem ∧ Restored before.ppiList after.ppiList := by
  by_cases early : desc = null ∨ before.ppiList.maxCount ≤ before.ppiList.currentCount
  · obtain ⟨_, rfl⟩ := installPpi_early returned early
    exact ⟨rfl, Restored.refl _⟩
  · rw [not_or, Nat.not_le] at early
    obtain ⟨given, room⟩ := early
    have separate : Separate pcdBootFvBase before.mem (callList before desc) desc := by
      intro fixup found nonzero moved member
      exact absurd ⟨given, ⟨fixup, found, nonzero⟩, List.ne_nil_of_mem member⟩ still
    obtain ⟨done, peimFixup, ⟨rest, split⟩, moved, success | failure⟩ :=
      installPpi_outcome returned separate small given room
    · exact absurd success.1 error
    · refine ⟨?_, failure.2.1⟩
      rcases moved.fixup with ⟨_, same, _⟩ | ⟨nonzero, found, other, member, pic, _⟩
      · exact same
      · obtain ⟨first, last, rfl⟩ := List.append_of_mem member
        have selected : other ∈ relocated before.mem (callList before desc) := by
          rw [split, List.append_assoc, List.cons_append]
          apply mem_relocated
          · intro earlier inside
            apply moved.accepted
            rcases List.mem_append.mp inside with inFirst | here
            · exact List.mem_append_left _ inFirst
            · rw [List.mem_singleton.mp here]
              exact List.mem_append_right _ (List.mem_cons_self ..)
          · exact ⟨other, by simp, pic⟩
        exact absurd ⟨given, ⟨peimFixup, found, nonzero⟩, List.ne_nil_of_mem selected⟩ still

theorem changed_of_relocates
    (returned : InstallPpiReturns pcdBootFvBase before desc status after) (error : status ≠ .success)
    (small : before.ppiList.maxCount < 2 ^ 32)
    (separate : Separate pcdBootFvBase before.mem (callList before desc) desc)
    (relocates : Relocates pcdBootFvBase before desc) :
    ∃ other ∈ callList before desc, descPpi after.mem other ≠ descPpi before.mem other := by
  obtain ⟨given, ⟨fixup, found, nonzero⟩, some_⟩ := relocates
  obtain ⟨first, firstMoved, firstPic⟩ := exists_pic_of_relocated some_
  have room : before.ppiList.currentCount < before.ppiList.maxCount := by
    by_contra full
    have empty : callList before desc = [] := by
      rw [callList, Nat.sub_eq_zero_of_le (by omega)]
      rfl
    rw [empty] at some_
    exact some_ rfl
  obtain ⟨done, peimFixup, ⟨rest, split⟩, moved, success | failure⟩ :=
    installPpi_outcome returned separate small given room
  · exact absurd success.1 error
  · have accepted := failure.2.2 fixup found first firstMoved
    rcases moved.fixup with ⟨_, _, zero⟩ | ⟨_, _, other, member, _, changed⟩
    · exact absurd (found.unique (zero first accepted firstPic)) nonzero
    · refine ⟨other, ?_, changed⟩
      rw [split]
      exact List.mem_append_left _ member

end Failing

/-- A failing call is without effect if it relocates nothing, and, for a list that
its own interfaces do not overlap, only then. -/
theorem failedInstall_untouched_iff (pcdBootFvBase desc : Nat) (before after : PeiState)
    (status : EfiStatus) (small : before.ppiList.maxCount < 2 ^ 32)
    (returned : InstallPpiReturns pcdBootFvBase before desc status after)
    (error : status ≠ .success) :
    (¬ Relocates pcdBootFvBase before desc → Untouched pcdBootFvBase before desc after) ∧
      (Separate pcdBootFvBase before.mem (callList before desc) desc →
        Untouched pcdBootFvBase before desc after → ¬ Relocates pcdBootFvBase before desc) := by
  refine ⟨?_, ?_⟩
  · intro still
    obtain ⟨sameMem, restored⟩ := mem_of_not_relocates returned error small still
    have alike : Alike after.ppiList before.ppiList := by
      refine ⟨restored.count, restored.max, ?_⟩
      intro slot below
      rw [restored.count] at below
      exact restored.kept slot (Or.inl below)
    refine ⟨restored.count, restored.visible, ?_, ?_⟩
    · intro other _
      rw [sameMem]
      exact ⟨rfl, rfl, rfl⟩
    · intro correct fuel
      rw [sameMem]
      exact peiInstallPpi_alike alike (by rw [restored.max]; exact small) _ _ _ _
  · intro separate untouched relocates
    obtain ⟨other, member, changed⟩ :=
      changed_of_relocates returned error small separate relocates
    exact changed (untouched.descriptor other ⟨_, member⟩).1

/-- A boot volume with one PEIM, whose only section is the fixup section at 0x1060,
and a list of a position-independent PPI and a descriptor without flags. -/
def halfGoodMem : Mem :=
  fun addr =>
    if 0x2000 ≤ addr then
      place 0x2000 [0x11, 0, 0, 0, 0, 0x30, 0, 0, 0x20, 0x30, 0, 0] addr
    else
      place 0x1000 (List.replicate 32 0 ++ [0x64, 0, 0, 0, 0, 0, 0, 0, 0x5f, 0x46, 0x56, 0x48] ++
        [0, 0, 0, 0, 0x48, 0] ++ List.replicate 40 0 ++
        [0x06, 0, 0x1c, 0, 0, 0, 0x04, 0, 0, 0x18]) addr

def halfGood : PeiState := ⟨halfGoodMem, ⟨0, 256, fun _ => 0⟩⟩

theorem halfGood_rejected :
    ∃ after, InstallPpiReturns 0x1000 halfGood 0x2000 .invalidParameter after ∧
      after.ppiList.currentCount = 0 ∧ descPpi after.mem 0x2000 = 0x4080 := by
  have evaluated : (peiInstallPpi 0x1000 halfGood 0x2000 9).map
      (fun result => (result.1, result.2.ppiList.currentCount, descPpi result.2.mem 0x2000)) =
      some (.invalidParameter, 0, 0x4080) := by decide +kernel
  obtain ⟨⟨status, after⟩, returned, same⟩ := Option.map_eq_some_iff.mp evaluated
  simp only [Prod.mk.injEq] at same
  obtain ⟨rfl, count, moved⟩ := same
  exact ⟨after, ⟨9, returned⟩, count, moved⟩

theorem failedInstall_untouched_iff_halfGood :
    ∃ after, InstallPpiReturns 0x1000 halfGood 0x2000 .invalidParameter after ∧
      (¬ Relocates 0x1000 halfGood 0x2000 → Untouched 0x1000 halfGood 0x2000 after) ∧
      (Separate 0x1000 halfGood.mem (callList halfGood 0x2000) 0x2000 →
        Untouched 0x1000 halfGood 0x2000 after → ¬ Relocates 0x1000 halfGood 0x2000) := by
  obtain ⟨after, returned, _⟩ := halfGood_rejected
  exact ⟨after, returned, failedInstall_untouched_iff 0x1000 0x2000 halfGood after
    .invalidParameter (by decide) returned (by decide)⟩

theorem rejected_list_stays_relocated :
    ∃ after, InstallPpiReturns 0x1000 halfGood 0x2000 .invalidParameter after ∧
      after.ppiList.currentCount = 0 ∧ descPpi halfGood.mem 0x2000 = 0x3020 ∧
      descPpi after.mem 0x2000 = 0x4080 ∧ ¬ Untouched 0x1000 halfGood 0x2000 after := by
  obtain ⟨after, returned, count, moved⟩ := halfGood_rejected
  have original : descPpi halfGood.mem 0x2000 = 0x3020 := by decide +kernel
  refine ⟨after, returned, count, original, moved, ?_⟩
  intro untouched
  have listed : InList halfGood.mem 0x2000 0x2000 := ⟨1, List.mem_cons_self ..⟩
  have same := (untouched.descriptor 0x2000 listed).1
  rw [moved, original] at same
  cases same

end ArcFirmware.PpiAtomicity
