import ArcFirmware.PpiAtomicity
import ArcFirmware.PpiInstall

/-!
# The PPI database over whole runs

A run is any sequence of install calls, each in whatever memory there is when it
is made.  The database is then the concatenation of the lists of its successful
calls, and `PeiLocatePpi` is the lookup of the n-th match in it.
-/

set_option autoImplicit false

namespace ArcFirmware.PpiDatabase

open ArcFirmware.Memory ArcFirmware.Loop ArcFirmware.Edk2 ArcFirmware.UtilsLib
  ArcFirmware.FileChain ArcFirmware.PpiServices ArcFirmware.PpiInstall

/-! ## Every call ends -/

section Calls

variable {before : PeiState} {done : List Nat} {vars : InstallLoop}

theorem head_pass (pcdBootFvBase fuel : Nat) (head : Head before.ppiList done vars)
    (small : before.ppiList.maxCount < 2 ^ 32) :
    match installStep pcdBootFvBase fuel before.ppiList.currentCount vars with
    | .next after => Head before.ppiList (done ++ [vars.desc]) after ∧ after.idx = vars.idx + 1
    | .done none => True
    | .done (some (status, after)) =>
        (status = .success ∧ Entered before.ppiList (done ++ [vars.desc]) after.ppiList) ∨
          (status ≠ .success ∧ Restored before.ppiList after.ppiList) := by
  rcases installStep_cases pcdBootFvBase fuel before.ppiList.currentCount vars with
    ⟨_, step⟩ | ⟨_, _, step⟩ | ⟨fixup, status, _, _, error, step⟩ | ⟨_, fixup, _, step⟩
  · rw [step]
    exact Or.inr ⟨by decide, head.entered.reject⟩
  · rw [step]
    trivial
  · rw [step]
    exact Or.inr ⟨error, head.entered.reject⟩
  · rw [step]
    obtain ⟨pool, entered, ends | full | next⟩ := acceptPpi_cases head small fixup
    · rw [ends.2]
      exact Or.inl ⟨rfl, entered⟩
    · rw [full.2.2]
      exact Or.inr ⟨by decide, entered.reject⟩
    · obtain ⟨_, after, accepted, _, _, sameIdx, _, afterHead⟩ := next
      rw [accepted]
      exact ⟨afterHead, sameIdx⟩

theorem head_first (desc : Nat)
    (room : before.ppiList.currentCount < before.ppiList.maxCount) :
    Head before.ppiList [] ⟨before, desc, before.ppiList.currentCount, 0⟩ :=
  ⟨Entered.nothing _, rfl, room⟩

theorem next_pass {pcdBootFvBase fuel : Nat} {later : InstallLoop}
    (head : Head before.ppiList done vars) (small : before.ppiList.maxCount < 2 ^ 32)
    (passed : installStep pcdBootFvBase fuel before.ppiList.currentCount vars = .next later) :
    Head before.ppiList (done ++ [vars.desc]) later ∧
      PassFixup pcdBootFvBase fuel vars later.peimFixup ∧
      later.state.mem = fixupPpi vars.state.mem vars.desc later.peimFixup ∧
      later.desc = u32 (vars.desc + sizeofPpiDescriptor) := by
  rcases installStep_cases pcdBootFvBase fuel before.ppiList.currentCount vars with
    ⟨_, step⟩ | ⟨_, _, step⟩ | ⟨_, _, _, _, _, step⟩ | ⟨_, fixup, applied, step⟩
  · rw [step] at passed
    cases passed
  · rw [step] at passed
    cases passed
  · rw [step] at passed
    cases passed
  · rw [step] at passed
    obtain ⟨pool, _, ends | full | next⟩ := acceptPpi_cases head small fixup
    · rw [ends.2] at passed
      cases passed
    · rw [full.2.2] at passed
      cases passed
    · obtain ⟨_, after, accepted, sameMem, sameDesc, _, sameFixup, afterHead⟩ := next
      rw [accepted] at passed
      cases passed
      subst sameFixup
      exact ⟨afterHead, applied, sameMem, sameDesc⟩

theorem head_of_reaches (before : PeiState) {pcdBootFvBase desc fuel : Nat}
    (small : before.ppiList.maxCount < 2 ^ 32)
    (room : before.ppiList.currentCount < before.ppiList.maxCount)
    (reached : Reaches (installStep pcdBootFvBase fuel before.ppiList.currentCount)
      ⟨before, desc, before.ppiList.currentCount, 0⟩ vars) :
    ∃ done, Head before.ppiList done vars := by
  refine reached.invariant (fun vars => ∃ done, Head before.ppiList done vars) ?_
    ⟨[], head_first desc room⟩
  intro state later head passed
  obtain ⟨done, head⟩ := head
  have pass := head_pass pcdBootFvBase fuel head small
  rw [passed] at pass
  exact ⟨_, pass.1⟩

theorem installLoop_bound (before : PeiState) (pcdBootFvBase desc fuel : Nat)
    (small : before.ppiList.maxCount < 2 ^ 32)
    (room : before.ppiList.currentCount < before.ppiList.maxCount) :
    ∃ result, run (installStep pcdBootFvBase fuel before.ppiList.currentCount)
      (before.ppiList.maxCount - before.ppiList.currentCount)
      ⟨before, desc, before.ppiList.currentCount, 0⟩ = some result := by
  have bounded : ∃ result, run (installStep pcdBootFvBase fuel before.ppiList.currentCount)
      (before.ppiList.maxCount - before.ppiList.currentCount)
      ⟨before, desc, before.ppiList.currentCount, 0⟩ = some result ∧ True := by
    refine run_of_measure (fun vars => ∃ done, Head before.ppiList done vars) (fun _ => True)
      (fun vars => before.ppiList.maxCount - 1 - vars.idx) ?_ ⟨[], head_first desc room⟩ ?_
    · intro state head
      obtain ⟨done, head⟩ := head
      have pass := head_pass pcdBootFvBase fuel head small
      have inside := head.room
      cases outcome : installStep pcdBootFvBase fuel before.ppiList.currentCount state with
      | next later =>
          rw [outcome] at pass
          have next := pass.1.room
          have stepped := pass.2
          exact ⟨⟨_, pass.1⟩, by omega⟩
      | done result => trivial
    · simp only
      omega
  obtain ⟨result, success, _⟩ := bounded
  exact ⟨result, success⟩

/-- A call that is not the success of a whole list restores the database. -/
theorem installPpi_pool {pcdBootFvBase desc : Nat} {after : PeiState} {status : EfiStatus}
    (returned : InstallPpiReturns pcdBootFvBase before desc status after)
    (small : before.ppiList.maxCount < 2 ^ 32) :
    (status = .success ∧ desc ≠ null ∧
        before.ppiList.currentCount < before.ppiList.maxCount ∧
        ∃ done, Entered before.ppiList done after.ppiList ∧
          before.ppiList.currentCount + done.length ≤ before.ppiList.maxCount) ∨
      (status ≠ .success ∧ Restored before.ppiList after.ppiList) := by
  by_cases early : desc = null ∨ before.ppiList.maxCount ≤ before.ppiList.currentCount
  · obtain ⟨error, rfl⟩ := installPpi_early returned early
    exact Or.inr ⟨error, Restored.refl _⟩
  · rw [not_or, Nat.not_le] at early
    obtain ⟨given, room⟩ := early
    obtain ⟨fuel, finished⟩ := installLoop_of_returns returned given room
    obtain ⟨vars, reached, left⟩ := finished.exit
    obtain ⟨done, head⟩ := head_of_reaches before small room reached
    have pass := head_pass pcdBootFvBase fuel head small
    rw [left] at pass
    rcases pass with ⟨rfl, entered⟩ | failure
    · refine Or.inl ⟨rfl, given, room, _, entered, ?_⟩
      have count := head.entered.count
      have idx := head.idx
      have inside := head.room
      rw [List.length_append, List.length_singleton]
      omega
    · exact Or.inr failure

/-- The lookup is always made in the memory the call started in. -/
theorem fresh_of_reaches {pcdBootFvBase desc fuel : Nat}
    (small : before.ppiList.maxCount < 2 ^ 32)
    (room : before.ppiList.currentCount < before.ppiList.maxCount)
    (reached : Reaches (installStep pcdBootFvBase fuel before.ppiList.currentCount)
      ⟨before, desc, before.ppiList.currentCount, 0⟩ vars) :
    vars.peimFixup = 0 → vars.state.mem = before.mem := by
  induction reached with
  | refl => exact fun _ => rfl
  | @tail state later prior passed ih =>
      intro zero
      obtain ⟨done, head⟩ := head_of_reaches before small room prior
      obtain ⟨_, applied, sameMem, _⟩ := next_pass head small passed
      rw [sameMem, zero, fixupPpi_zero]
      rw [zero] at applied
      rcases applied with ⟨fresh, _⟩ | ⟨_, carried⟩
      · exact ih fresh
      · exact ih carried.symm

theorem installPpi_returns {pcdBootFvBase : Nat} (desc : Nat)
    (small : before.ppiList.maxCount < 2 ^ 32)
    (lookup : ∃ result, GetFileSectionReturns before.mem pcdBootFvBase
      efiSectionFreeformSubtypeGuid efiFvFiletypePeim none result) :
    ∃ status after, InstallPpiReturns pcdBootFvBase before desc status after := by
  by_cases missing : desc = null
  · exact ⟨_, _, 0, by rw [peiInstallPpi, if_pos missing]⟩
  by_cases full : before.ppiList.currentCount ≥ before.ppiList.maxCount
  · exact ⟨_, _, 0, by rw [peiInstallPpi, if_neg missing, if_pos full]⟩
  have room := Nat.not_le.mp full
  obtain ⟨result, fuel, found⟩ := lookup
  generalize enough : max fuel (before.ppiList.maxCount - before.ppiList.currentCount) = passes
  have known : calcPeimFixup before.mem pcdBootFvBase passes =
      some (u32 result.1, result.2.status) := by
    rw [calcPeimFixup, getFileSection_mono found (by omega)]
    rfl
  obtain ⟨leaving, success⟩ := installLoop_bound before pcdBootFvBase desc passes small room
  have finished := run_mono _ _ passes _ _ success (by omega)
  cases leaving with
  | some outcome =>
      refine ⟨outcome.1, outcome.2, passes, ?_⟩
      rw [peiInstallPpi, if_neg missing, if_neg full, finished]
      rfl
  | none =>
      have ends : Returns (installStep pcdBootFvBase passes before.ppiList.currentCount)
          ⟨before, desc, before.ppiList.currentCount, 0⟩ none := ⟨_, finished⟩
      obtain ⟨vars, reached, left⟩ := ends.exit
      obtain ⟨done, head⟩ := head_of_reaches before small room reached
      rcases installStep_cases pcdBootFvBase passes before.ppiList.currentCount vars with
        ⟨_, step⟩ | ⟨unknown, zero, _⟩ | ⟨_, _, _, _, _, step⟩ | ⟨_, fixup, _, step⟩
      · rw [step] at left
        cases left
      · rw [fresh_of_reaches small room reached zero, known] at unknown
        cases unknown
      · rw [step] at left
        cases left
      · rw [step] at left
        obtain ⟨pool, _, ends | full | next⟩ := acceptPpi_cases head small fixup
        · rw [ends.2] at left
          cases left
        · rw [full.2.2] at left
          cases left
        · obtain ⟨_, after, accepted, _⟩ := next
          rw [accepted] at left
          cases left

end Calls

/-! ## Locating -/

def hasGuid (mem : Mem) (guid : EfiGuid) (desc : Nat) : Bool :=
  guidAt mem (descGuid mem desc) = guid

/-- The visible entries whose GUID is the one asked for, in database order. -/
def matching (state : PeiState) (guid : EfiGuid) : List Nat :=
  (visibleEntries state.ppiList).filter (hasGuid state.mem guid)

/-- What a search for the n-th match of a list is to report. -/
def locateAnswer (mem : Mem) (wantsDescriptor : Bool) (found : List Nat) (instance_ : Nat) :
    LocateResult :=
  match found[instance_]? with
  | some desc =>
      ⟨.success, if wantsDescriptor then some desc else none, some (descPpi mem desc)⟩
  | none => ⟨.notFound, none, none⟩

theorem compareGuids_eq_hasGuid (mem : Mem) (guid : EfiGuid) (desc : Nat) :
    compareGuids guid (guidAt mem (descGuid mem desc)) = hasGuid mem guid desc := by
  rw [Bool.eq_iff_iff, compareGuids_iff, hasGuid, decide_eq_true_iff, eq_comm]

section Locate

variable {state : PeiState} {guid : EfiGuid} {instance_ : Nat} {wantsDescriptor : Bool}

theorem visibleEntries_drop (ppiList : PpiList) (idx : Nat) (below : idx < ppiList.currentCount) :
    (visibleEntries ppiList).drop idx =
      ppiList.ppiPtrs idx :: (visibleEntries ppiList).drop (idx + 1) := by
  have inside : idx < (visibleEntries ppiList).length := by simpa [visibleEntries] using below
  rw [List.drop_eq_getElem_cons inside]
  simp [visibleEntries]

theorem locate_returns (small : state.ppiList.currentCount < 2 ^ 32)
    (real : ∀ desc ∈ visibleEntries state.ppiList, desc ≠ null) (left idx tmpInstance : Nat)
    (rest : idx + left = state.ppiList.currentCount) (early : tmpInstance ≤ idx)
    (missing : tmpInstance ≤ instance_) :
    Returns (locateStep state guid instance_ wantsDescriptor) (idx, tmpInstance)
      (locateAnswer state.mem wantsDescriptor
        (((visibleEntries state.ppiList).drop idx).filter (hasGuid state.mem guid))
        (instance_ - tmpInstance)) := by
  induction left generalizing idx tmpInstance with
  | zero =>
      have past : (visibleEntries state.ppiList).drop idx = [] := by
        apply List.drop_eq_nil_of_le
        simp only [visibleEntries, List.length_map, List.length_range]
        omega
      rw [past]
      apply returns_done
      simp only [locateStep]
      rw [if_neg (by omega)]
      rfl
  | succ left ih =>
      have below : idx < state.ppiList.currentCount := by omega
      have next : u32 (idx + 1) = idx + 1 := Nat.mod_eq_of_lt (by omega)
      have counted : u32 (tmpInstance + 1) = tmpInstance + 1 := Nat.mod_eq_of_lt (by omega)
      have member : state.ppiList.ppiPtrs idx ∈ visibleEntries state.ppiList :=
        List.mem_map_of_mem (List.mem_range.mpr below)
      have nonnull := real _ member
      rw [visibleEntries_drop _ _ below]
      by_cases same : hasGuid state.mem guid (state.ppiList.ppiPtrs idx) = true
      · rw [List.filter_cons_of_pos same]
        by_cases here : tmpInstance = instance_
        · subst here
          apply returns_done
          simp [locateStep, compareGuids_eq_hasGuid, below, nonnull, same, locateAnswer]
        · have passed : locateStep state guid instance_ wantsDescriptor (idx, tmpInstance) =
              .next (idx + 1, tmpInstance + 1) := by
            simp [locateStep, compareGuids_eq_hasGuid, below, nonnull, same, here, next, counted]
          rw [returns_next_iff passed]
          have later := ih (idx + 1) (tmpInstance + 1) (by omega) (by omega) (by omega)
          obtain ⟨more, moreEq⟩ : ∃ more, instance_ - tmpInstance = more + 1 :=
            ⟨instance_ - tmpInstance - 1, by omega⟩
          have shifted : instance_ - (tmpInstance + 1) = more := by omega
          rw [shifted] at later
          rw [moreEq]
          exact later
      · have passed : locateStep state guid instance_ wantsDescriptor (idx, tmpInstance) =
            .next (idx + 1, tmpInstance) := by
          simp [locateStep, compareGuids_eq_hasGuid, below, nonnull, same, next]
        rw [List.filter_cons_of_neg same, returns_next_iff passed]
        exact ih (idx + 1) tmpInstance (by omega) (by omega) missing

/-- `PeiLocatePpi` comes back with the n-th match, and with nothing else. -/
theorem locatePpi_iff (small : state.ppiList.currentCount < 2 ^ 32)
    (real : ∀ desc ∈ visibleEntries state.ppiList, desc ≠ null) (result : LocateResult) :
    LocatePpiReturns state (some guid) instance_ wantsDescriptor true result ↔
      result = locateAnswer state.mem wantsDescriptor (matching state guid) instance_ := by
  have returns : Returns (locateStep state guid instance_ wantsDescriptor) (0, 0)
      (locateAnswer state.mem wantsDescriptor (matching state guid) instance_) :=
    locate_returns small real state.ppiList.currentCount 0 0 (by omega) le_rfl (Nat.zero_le _)
  constructor
  · intro success
    obtain ⟨fuel, success⟩ := success
    exact Returns.unique ⟨fuel, success⟩ returns
  · intro same
    obtain ⟨fuel, success⟩ := returns
    exact ⟨fuel, by rw [same]; exact success⟩

end Locate

/-! ## Runs -/

/-- A list in memory, up to and with its terminator. -/
inductive ListAt (mem : Mem) : Nat → List Nat → Prop where
  | last {desc : Nat} (terminated : isLastPpi mem desc = true) : ListAt mem desc [desc]
  | more {desc : Nat} {rest : List Nat} (open_ : isLastPpi mem desc = false)
      (tail : ListAt mem (u32 (desc + sizeofPpiDescriptor)) rest) : ListAt mem desc (desc :: rest)

/-- What is assumed of a list that gets installed: it is an array, and the entry
fields that its installation relocates are not in it. -/
def Admissible (pcdBootFvBase : Nat) (before : PeiState) (desc : Nat) : Prop :=
  ListFits (callList before desc) desc ∧
    Separate pcdBootFvBase before.mem (callList before desc) desc

/-- Install calls one after the other, each in a memory of its own, with the lists
of the successful ones. -/
inductive DbRun (pcdBootFvBase : Nat) (pool : PpiList) : PpiList → List (List Nat) → Prop where
  | start : DbRun pcdBootFvBase pool pool []
  | installed {ppiList : PpiList} {lists : List (List Nat)}
      (prior : DbRun pcdBootFvBase pool ppiList lists) {mem : Mem} {desc : Nat} {after : PeiState}
      (admissible : Admissible pcdBootFvBase ⟨mem, ppiList⟩ desc)
      (returned : InstallPpiReturns pcdBootFvBase ⟨mem, ppiList⟩ desc .success after) :
      DbRun pcdBootFvBase pool after.ppiList (lists ++ [callList ⟨mem, ppiList⟩ desc])
  | rejected {ppiList : PpiList} {lists : List (List Nat)}
      (prior : DbRun pcdBootFvBase pool ppiList lists) {mem : Mem} {desc : Nat} {after : PeiState}
      {status : EfiStatus} (error : status ≠ .success)
      (returned : InstallPpiReturns pcdBootFvBase ⟨mem, ppiList⟩ desc status after) :
      DbRun pcdBootFvBase pool after.ppiList lists

structure DatabaseLaw (pcdBootFvBase : Nat) (pool ppiList : PpiList) (lists : List (List Nat)) :
    Prop where
  visible : visibleEntries ppiList = lists.flatten
  count : ppiList.currentCount ≤ ppiList.maxCount
  max : ppiList.maxCount = pool.maxCount
  outside : ∀ slot, pool.maxCount ≤ slot → ppiList.ppiPtrs slot = pool.ppiPtrs slot
  /-- A successful call has installed the caller's list. -/
  whole : ∀ mem desc after, Admissible pcdBootFvBase ⟨mem, ppiList⟩ desc →
    InstallPpiReturns pcdBootFvBase ⟨mem, ppiList⟩ desc .success after →
      ListAt mem desc (callList ⟨mem, ppiList⟩ desc)
  /-- At every head of the loop the slot to be written is inside the pool. -/
  heads : ∀ mem desc fuel vars, ppiList.currentCount < ppiList.maxCount →
    Reaches (installStep pcdBootFvBase fuel ppiList.currentCount)
      ⟨⟨mem, ppiList⟩, desc, ppiList.currentCount, 0⟩ vars →
      vars.state.ppiList.currentCount = vars.idx ∧ vars.idx < pool.maxCount ∧
        ∀ slot, pool.maxCount ≤ slot → vars.state.ppiList.ppiPtrs slot = pool.ppiPtrs slot
  passes : ∀ mem desc fuel, ppiList.currentCount < ppiList.maxCount →
    ∃ result, run (installStep pcdBootFvBase fuel ppiList.currentCount)
      (ppiList.maxCount - ppiList.currentCount)
      ⟨⟨mem, ppiList⟩, desc, ppiList.currentCount, 0⟩ = some result
  ends : ∀ mem desc, (∃ result, GetFileSectionReturns mem pcdBootFvBase
      efiSectionFreeformSubtypeGuid efiFvFiletypePeim none result) →
    ∃ status after, InstallPpiReturns pcdBootFvBase ⟨mem, ppiList⟩ desc status after
  locate : ∀ mem guid instance_ wantsDescriptor result,
    LocatePpiReturns ⟨mem, ppiList⟩ (some guid) instance_ wantsDescriptor true result ↔
      result = locateAnswer mem wantsDescriptor (matching ⟨mem, ppiList⟩ guid) instance_

section Run

variable {pcdBootFvBase : Nat} {pool ppiList : PpiList} {lists : List (List Nat)}

structure DatabaseInv (pool ppiList : PpiList) (lists : List (List Nat)) : Prop where
  visible : visibleEntries ppiList = lists.flatten
  count : ppiList.currentCount ≤ pool.maxCount
  max : ppiList.maxCount = pool.maxCount
  outside : ∀ slot, pool.maxCount ≤ slot → ppiList.ppiPtrs slot = pool.ppiPtrs slot
  real : ∀ desc ∈ lists.flatten, desc ≠ null

theorem callList_real {before : PeiState} {desc : Nat} (given : desc ≠ null)
    (fits : ListFits (callList before desc) desc) :
    ∀ other ∈ callList before desc, other ≠ null := by
  intro other member
  have low := ((descriptors_bounds _ _ fits).1 other member).1
  unfold null at given ⊢
  omega

theorem DbRun.inv (empty : pool.currentCount = 0) (small : pool.maxCount < 2 ^ 32)
    (reached : DbRun pcdBootFvBase pool ppiList lists) : DatabaseInv pool ppiList lists := by
  induction reached with
  | start =>
      refine ⟨?_, by omega, rfl, fun _ _ => rfl, by simp⟩
      simp [visibleEntries, empty]
  | @installed ppiList lists _ mem desc after admissible returned ih =>
      have below : ppiList.maxCount < 2 ^ 32 := ih.max ▸ small
      rcases installPpi_pool returned below with ⟨_, given, room, done, entered, fits⟩ | failure
      · obtain ⟨_, _, _, _, success | failure⟩ :=
          installPpi_outcome returned admissible.2 below given room
        · obtain ⟨_, _, whole, _⟩ := success
          have entries : after.ppiList.currentCount = ppiList.currentCount + done.length :=
            entered.count
          have room : ppiList.currentCount + done.length ≤ ppiList.maxCount := fits
          have max := ih.max
          refine ⟨?_, ?_, whole.max.trans ih.max, ?_, ?_⟩
          · rw [whole.visible, ih.visible]
            simp
          · omega
          · intro slot past
            rw [whole.kept slot (Or.inr (by simp only; omega)), ih.outside slot past]
          · intro other member
            rw [List.flatten_append, List.mem_append] at member
            rcases member with earlier | new
            · exact ih.real other earlier
            · exact callList_real given admissible.1 other (by simpa using new)
        · exact absurd rfl failure.1
      · exact absurd rfl failure.1
  | @rejected ppiList lists _ mem desc after status error returned ih =>
      have below : ppiList.maxCount < 2 ^ 32 := ih.max ▸ small
      rcases installPpi_pool returned below with success | ⟨_, restored⟩
      · exact absurd success.1 error
      · have max := ih.max
        refine ⟨restored.visible.trans ih.visible, restored.count ▸ ih.count,
          restored.max.trans ih.max, ?_, ih.real⟩
        intro slot past
        rw [restored.kept slot (Or.inr (by simp only; omega)), ih.outside slot past]

theorem listAt_descriptors {mem : Mem} {final : Nat} (limit desc : Nat)
    (member : final ∈ descriptors mem limit desc) (terminated : isLastPpi mem final = true) :
    ListAt mem desc (descriptors mem limit desc) := by
  induction limit generalizing desc with
  | zero => cases member
  | succ limit ih =>
      rw [descriptors_succ] at member ⊢
      by_cases last : isLastPpi mem desc = true
      · rw [if_pos last]
        exact .last last
      · rw [if_neg last] at member ⊢
        rcases List.mem_cons.mp member with rfl | later
        · exact absurd terminated last
        · exact .more (by simpa using last) (ih _ later)

theorem listAt_of_success {before after : PeiState} {desc : Nat}
    (separate : Separate pcdBootFvBase before.mem (callList before desc) desc)
    (small : before.ppiList.maxCount < 2 ^ 32)
    (returned : InstallPpiReturns pcdBootFvBase before desc .success after) :
    ListAt before.mem desc (callList before desc) := by
  rcases installPpi_pool returned small with ⟨_, given, room, _⟩ | failure
  · obtain ⟨_, _, _, _, success | failure⟩ :=
      installPpi_outcome returned separate small given room
    · obtain ⟨_, _, _, final, member, terminated⟩ := success
      exact listAt_descriptors _ _ member terminated
    · exact absurd rfl failure.1
  · exact absurd rfl failure.1

end Run

/-- The law of the database, for every run from an empty one. -/
theorem ppiDatabase_law (pcdBootFvBase : Nat) (pool ppiList : PpiList) (lists : List (List Nat))
    (empty : pool.currentCount = 0) (small : pool.maxCount < 2 ^ 32)
    (reached : DbRun pcdBootFvBase pool ppiList lists) :
    DatabaseLaw pcdBootFvBase pool ppiList lists := by
  have inv := reached.inv empty small
  have below : ppiList.maxCount < 2 ^ 32 := inv.max ▸ small
  have count : ppiList.currentCount ≤ ppiList.maxCount := inv.max ▸ inv.count
  refine ⟨inv.visible, count, inv.max, inv.outside, ?_, ?_, ?_, ?_, ?_⟩
  · intro mem desc after admissible returned
    exact listAt_of_success admissible.2 below returned
  · intro mem desc fuel vars room reached
    obtain ⟨done, head⟩ := head_of_reaches ⟨mem, ppiList⟩ below room reached
    have inside : vars.idx < ppiList.maxCount := head.room
    refine ⟨head.idx.symm, inv.max ▸ inside, ?_⟩
    intro slot past
    have kept : vars.state.ppiList.ppiPtrs slot = ppiList.ppiPtrs slot :=
      head.entered.kept slot (Or.inr (inv.max ▸ past))
    rw [kept, inv.outside slot past]
  · intro mem desc fuel room
    exact installLoop_bound ⟨mem, ppiList⟩ pcdBootFvBase desc fuel below room
  · intro mem desc lookup
    exact installPpi_returns desc below lookup
  · intro mem guid instance_ wantsDescriptor result
    apply locatePpi_iff
    · exact lt_of_le_of_lt count below
    · rw [inv.visible]
      exact inv.real

def singleMem : Mem :=
  place 0x2000 [0x10, 0, 0, 0x80, 0, 0x30, 0, 0, 0x20, 0x30, 0, 0]

def emptyPool : PpiList := ⟨0, 256, fun _ => 0⟩

/-- The boot volume with the fixup section at 0x1060, and three lists: a position-independent
descriptor and a plain one, one that is spoilt by its second descriptor, and a plain descriptor. -/
def threeLists : Mem := fun addr =>
  if 0x2000 ≤ addr then
    place 0x2000 ([0x11, 0, 0, 0, 0, 0x30, 0, 0, 0x20, 0x30, 0, 0] ++
      [0x10, 0, 0, 0x80, 0x40, 0x30, 0, 0, 0x60, 0x30, 0, 0] ++
      [0x11, 0, 0, 0, 0, 0x30, 0, 0, 0x80, 0x30, 0, 0] ++ List.replicate 12 0 ++
      [0x10, 0, 0, 0x80, 0, 0x30, 0, 0, 0x20, 0x30, 0, 0]) addr
  else PpiAtomicity.halfGoodMem addr

def afterInstall (before : PeiState) (desc : Nat) : PeiState :=
  ((peiInstallPpi 0x1000 before desc 9).map Prod.snd).getD before

theorem returns_afterInstall {before : PeiState} {desc : Nat} {status : EfiStatus}
    (evaluated : (peiInstallPpi 0x1000 before desc 9).map Prod.fst = some status) :
    InstallPpiReturns 0x1000 before desc status (afterInstall before desc) := by
  obtain ⟨⟨_, after⟩, returned, rfl⟩ := Option.map_eq_some_iff.mp evaluated
  refine ⟨9, ?_⟩
  rw [afterInstall, returned]
  rfl

def firstDone : PeiState := afterInstall ⟨threeLists, emptyPool⟩ 0x2000

def secondDone : PeiState := afterInstall firstDone 0x2018

def thirdDone : PeiState := afterInstall secondDone 0x2030

theorem threeLists_fixup : IsFixup 0x1000 threeLists 0x1060 :=
  ⟨0x1060, ⟨.success, 183⟩, ⟨9, by decide +kernel⟩, rfl, rfl⟩

theorem first_list : callList ⟨threeLists, emptyPool⟩ 0x2000 = [0x2000, 0x200c] := by
  decide +kernel

theorem first_admissible : Admissible 0x1000 ⟨threeLists, emptyPool⟩ 0x2000 := by
  rw [Admissible, first_list]
  have fits : ListFits [0x2000, 0x200c] 0x2000 := by unfold ListFits; decide
  refine ⟨fits, fun fixup found _ moved member => ⟨fits, ?_⟩⟩
  obtain rfl := found.unique threeLists_fixup
  have spread : ∀ moved ∈ relocated threeLists [0x2000, 0x200c], ∀ other ∈ [0x2000, 0x200c],
      descPpi threeLists moved + 0x1060 + 4 ≤ 2 ^ 32 ∧ other + 12 ≤ descPpi threeLists moved + 0x1060 := by
    decide +kernel
  intro other inside
  obtain ⟨top, below⟩ := spread moved member other inside
  exact (apart_of_below below top).symm

theorem third_list : callList secondDone 0x2030 = [0x2030] := by decide +kernel

theorem third_admissible : Admissible 0x1000 secondDone 0x2030 := by
  have plain : relocated secondDone.mem [0x2030] = [] := by decide +kernel
  rw [Admissible, third_list]
  refine ⟨by unfold ListFits; decide, fun _ _ _ moved member => ?_⟩
  rw [plain] at member
  cases member

/-- The first list is relocated, the second one rolled back, and the third one follows. -/
theorem ppiDatabase_law_threeLists :
    DbRun 0x1000 emptyPool thirdDone.ppiList [[0x2000, 0x200c], [0x2030]] ∧
      DatabaseLaw 0x1000 emptyPool thirdDone.ppiList [[0x2000, 0x200c], [0x2030]] := by
  have installed : InstallPpiReturns 0x1000 ⟨threeLists, emptyPool⟩ 0x2000 .success firstDone :=
    returns_afterInstall (by decide +kernel)
  have rejected : InstallPpiReturns 0x1000 firstDone 0x2018 .invalidParameter secondDone :=
    returns_afterInstall (by decide +kernel)
  have last : InstallPpiReturns 0x1000 secondDone 0x2030 .success thirdDone :=
    returns_afterInstall (by decide +kernel)
  have first : DbRun 0x1000 emptyPool firstDone.ppiList [[0x2000, 0x200c]] :=
    first_list ▸ .installed .start first_admissible installed
  have second : DbRun 0x1000 emptyPool secondDone.ppiList [[0x2000, 0x200c]] :=
    @DbRun.rejected _ _ firstDone.ppiList _ first firstDone.mem _ _ _ (by decide) rejected
  have reached : DbRun 0x1000 emptyPool thirdDone.ppiList [[0x2000, 0x200c], [0x2030]] :=
    third_list ▸ @DbRun.installed _ _ secondDone.ppiList _ second secondDone.mem _ _ third_admissible
      last
  exact ⟨reached, ppiDatabase_law 0x1000 emptyPool thirdDone.ppiList _ (by decide) (by decide)
    reached⟩

end ArcFirmware.PpiDatabase
