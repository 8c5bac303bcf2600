import ArcFirmware.PpiDatabase

/-!
# PeiCoreMain: dispatching the PPIs

`DispatchPeims` compares its index with a counter that the functions it calls
change.  An install only appends behind the visible slots and a rejected one
only takes its own entries back, so the loop meets every slot once and calls the
descriptor that was installed there.  What an install appends is what its own
passes come to; for an admissible list that is the caller's.
-/

set_option autoImplicit false

namespace ArcFirmware.DispatchPeims

open ArcFirmware.Memory ArcFirmware.Loop ArcFirmware.Edk2 ArcFirmware.PpiServices
  ArcFirmware.PpiInstall ArcFirmware.PpiDatabase

/-! ## The called functions -/

/-- The descriptors that an install call comes to, in the order of its passes. -/
def callReads (pcdBootFvBase : Nat) (state : PeiState) (desc fuel : Nat) : List Nat :=
  (visited (installStep pcdBootFvBase fuel state.ppiList.currentCount) fuel
    ⟨state, desc, state.ppiList.currentCount, 0⟩).map InstallLoop.desc

/-- What a called function may do before it returns: write memory, locate and
install, with the lists of its successful install calls. -/
inductive EntryRun (pcdBootFvBase : Nat) (start : PeiState) :
    List (List Nat) → PeiState → Prop where
  | entered : EntryRun pcdBootFvBase start [] start
  | wrote {lists : List (List Nat)} {state : PeiState}
      (prior : EntryRun pcdBootFvBase start lists state) (mem : Mem) :
      EntryRun pcdBootFvBase start lists { state with mem := mem }
  | located {lists : List (List Nat)} {state : PeiState}
      (prior : EntryRun pcdBootFvBase start lists state) {guid : Option EfiGuid} {instance_ : Nat}
      {wantsDescriptor wantsPpi : Bool} {result : LocateResult}
      (returned : LocatePpiReturns state guid instance_ wantsDescriptor wantsPpi result) :
      EntryRun pcdBootFvBase start lists state
  | installed {lists : List (List Nat)} {state : PeiState}
      (prior : EntryRun pcdBootFvBase start lists state) {desc fuel : Nat} {after : PeiState}
      (returned : peiInstallPpi pcdBootFvBase state desc fuel = some (.success, after)) :
      EntryRun pcdBootFvBase start (lists ++ [callReads pcdBootFvBase state desc fuel]) after
  | rejected {lists : List (List Nat)} {state : PeiState}
      (prior : EntryRun pcdBootFvBase start lists state) {desc : Nat} {status : EfiStatus}
      {after : PeiState} (error : status ≠ .success)
      (returned : InstallPpiReturns pcdBootFvBase state desc status after) :
      EntryRun pcdBootFvBase start lists after

/-- The behaviour of the functions behind the PPIs, call by call: each call
returns, and what it has done to the core is one of the runs above. -/
structure EntryFunctions (pcdBootFvBase : Nat) where
  call : Nat → PeiState → PeiState
  installs : Nat → PeiState → List (List Nat)
  runs : ∀ idx state, EntryRun pcdBootFvBase state (installs idx state) (call idx state)

/-! ## The dispatch loop -/

structure EntryCall where
  idx : Nat
  ppiDesc : Nat
  ppi : Nat
  entry : Nat
  state : PeiState

structure DispatchLoop where
  state : PeiState
  idx : Nat
  calls : List EntryCall

section Dispatch

variable {pcdBootFvBase : Nat} (functions : EntryFunctions pcdBootFvBase)

def dispatchStep (vars : DispatchLoop) : Step DispatchLoop (PeiState × List EntryCall) :=
  if vars.idx < vars.state.ppiList.currentCount then
    let tmpPpiDesc := vars.state.ppiList.ppiPtrs vars.idx
    let ppi := descPpi vars.state.mem tmpPpiDesc
    .next ⟨functions.call vars.idx vars.state, u32 (vars.idx + 1),
      vars.calls ++ [⟨vars.idx, tmpPpiDesc, ppi, ppiEntry vars.state.mem ppi, vars.state⟩]⟩
  else .done (vars.state, vars.calls)

def dispatchPeims (state : PeiState) (fuel : Nat) : Option (PeiState × List EntryCall) :=
  run (dispatchStep functions) fuel ⟨state, 0, []⟩

def installedBy (calls : List EntryCall) : List Nat :=
  calls.flatMap fun call => (functions.installs call.idx call.state).flatten

end Dispatch

/-! ## What an install appends -/

section Install

variable {pcdBootFvBase desc fuel : Nat} {before after : PeiState}

theorem entered_of_success (small : before.ppiList.maxCount < 2 ^ 32)
    (returned : peiInstallPpi pcdBootFvBase before desc fuel = some (.success, after)) :
    Entered before.ppiList (callReads pcdBootFvBase before desc fuel) after.ppiList := by
  rcases installPpi_pool ⟨fuel, returned⟩ small with ⟨_, given, room, _⟩ | ⟨error, _⟩
  · rw [peiInstallPpi, if_neg given, if_neg (Nat.not_le.mpr room)] at returned
    have first : Head before.ppiList (([] : List InstallLoop).map InstallLoop.desc)
        ⟨before, desc, before.ppiList.currentCount, 0⟩ := head_first desc room
    refine run_visited (fun done vars => Head before.ppiList (done.map InstallLoop.desc) vars)
      (fun done result => ∀ after, result = some (.success, after) →
        Entered before.ppiList (done.map InstallLoop.desc) after.ppiList)
      ?_ first (Option.join_eq_some_iff.mp returned) after rfl
    intro done vars head
    have pass := head_pass pcdBootFvBase fuel head small
    cases outcome : installStep pcdBootFvBase fuel before.ppiList.currentCount vars with
    | next later =>
        rw [outcome] at pass
        rw [List.map_append]
        exact pass.1
    | done result =>
        rw [outcome] at pass
        rintro after rfl
        rw [List.map_append]
        exact pass.resolve_right (fun failure => failure.1 rfl) |>.2
  · exact absurd rfl error

/-- A call comes to the list that it was given, if that is an array without the interfaces that
it relocates. -/
theorem callReads_eq_callList (small : before.ppiList.maxCount < 2 ^ 32)
    (admissible : Admissible pcdBootFvBase before desc)
    (returned : peiInstallPpi pcdBootFvBase before desc fuel = some (.success, after)) :
    callReads pcdBootFvBase before desc fuel = callList before desc := by
  have entered := entered_of_success small returned
  rcases installPpi_pool ⟨fuel, returned⟩ small with ⟨_, given, room, _⟩ | ⟨error, _⟩
  · obtain ⟨_, _, _, _, success | failure⟩ :=
      installPpi_outcome ⟨fuel, returned⟩ admissible.2 small given room
    · obtain ⟨_, _, whole, _⟩ := success
      exact List.append_cancel_left (entered.visible.symm.trans whole.visible)
    · exact absurd rfl failure.1
  · exact absurd rfl error

theorem listAt_callReads (small : before.ppiList.maxCount < 2 ^ 32)
    (admissible : Admissible pcdBootFvBase before desc)
    (returned : peiInstallPpi pcdBootFvBase before desc fuel = some (.success, after)) :
    ListAt before.mem desc (callReads pcdBootFvBase before desc fuel) := by
  rw [callReads_eq_callList small admissible returned]
  exact listAt_of_success admissible.2 small ⟨fuel, returned⟩

end Install

/-! ## What a called function leaves -/

section Entry

variable {pcdBootFvBase : Nat} {start state : PeiState} {lists : List (List Nat)}

structure Appended (before after : PpiList) (new : List Nat) : Prop where
  visible : visibleEntries after = visibleEntries before ++ new
  max : after.maxCount = before.maxCount
  count : after.currentCount ≤ before.maxCount

theorem EntryRun.appended (small : start.ppiList.maxCount < 2 ^ 32)
    (count : start.ppiList.currentCount ≤ start.ppiList.maxCount)
    (entry : EntryRun pcdBootFvBase start lists state) :
    Appended start.ppiList state.ppiList lists.flatten := by
  induction entry with
  | entered => exact ⟨(List.append_nil _).symm, rfl, count⟩
  | wrote _ _ ih => exact ih
  | located _ _ ih => exact ih
  | @installed lists state _ desc fuel after returned ih =>
      have below : state.ppiList.maxCount < 2 ^ 32 := ih.max ▸ small
      have entered := entered_of_success below returned
      rcases installPpi_pool ⟨fuel, returned⟩ below with ⟨_, _, _, done, same, fits⟩ | failure
      · refine ⟨?_, entered.max.trans ih.max, ?_⟩
        · rw [entered.visible, ih.visible]
          simp
        · rw [same.count, ← ih.max]
          exact fits
      · exact absurd rfl failure.1
  | @rejected lists state _ desc status after error returned ih =>
      have below : state.ppiList.maxCount < 2 ^ 32 := ih.max ▸ small
      rcases installPpi_pool returned below with success | ⟨_, restored⟩
      · exact absurd success.1 error
      · exact ⟨restored.visible.trans ih.visible, restored.max.trans ih.max,
          restored.count ▸ ih.count⟩

end Entry

/-! ## The dispatch -/

section Law

variable {pcdBootFvBase : Nat} (functions : EntryFunctions pcdBootFvBase)

/-- The entry of the interface that the descriptor in the slot points to at that time. -/
structure CallOfSlot (call : EntryCall) : Prop where
  visible : call.idx < call.state.ppiList.currentCount
  ppiDesc : call.ppiDesc = call.state.ppiList.ppiPtrs call.idx
  ppi : call.ppi = descPpi call.state.mem call.ppiDesc
  entry : call.entry = ppiEntry call.state.mem call.ppi

/-- At a head of the loop one call has been made for each slot below the index. -/
structure Dispatched (before : PeiState) (vars : DispatchLoop) : Prop where
  reached : vars.idx ≤ vars.state.ppiList.currentCount
  called : ∀ call ∈ vars.calls, CallOfSlot call
  slots : vars.calls.map EntryCall.idx = List.range vars.idx
  descriptors : vars.calls.map EntryCall.ppiDesc =
    (visibleEntries vars.state.ppiList).take vars.idx
  appended : Appended before.ppiList vars.state.ppiList (installedBy functions vars.calls)

structure DispatchLaw (before after : PeiState) (calls : List EntryCall) : Prop where
  bounded : calls.length ≤ before.ppiList.maxCount
  called : ∀ call ∈ calls, CallOfSlot call
  slots : calls.map EntryCall.idx = List.range after.ppiList.currentCount
  descriptors : calls.map EntryCall.ppiDesc = visibleEntries after.ppiList
  installed : visibleEntries after.ppiList =
    visibleEntries before.ppiList ++ installedBy functions calls
  /-- A successful call for an admissible list has installed the caller's list. -/
  whole : ∀ state desc fuel later, state.ppiList.maxCount = before.ppiList.maxCount →
    Admissible pcdBootFvBase state desc →
    peiInstallPpi pcdBootFvBase state desc fuel = some (.success, later) →
      ListAt state.mem desc (callReads pcdBootFvBase state desc fuel)

theorem length_visibleEntries (ppiList : PpiList) :
    (visibleEntries ppiList).length = ppiList.currentCount := by
  simp [visibleEntries]

variable {functions} {before : PeiState} {vars : DispatchLoop}

theorem dispatched_first (count : before.ppiList.currentCount ≤ before.ppiList.maxCount) :
    Dispatched functions before ⟨before, 0, []⟩ :=
  ⟨Nat.zero_le _, fun _ among => (nomatch among), rfl, rfl, (List.append_nil _).symm, rfl, count⟩

theorem Dispatched.next (here : Dispatched functions before vars)
    (small : before.ppiList.maxCount < 2 ^ 32)
    (inside : vars.idx < vars.state.ppiList.currentCount) :
    Dispatched functions before ⟨functions.call vars.idx vars.state, vars.idx + 1,
      vars.calls ++ [⟨vars.idx, vars.state.ppiList.ppiPtrs vars.idx,
        descPpi vars.state.mem (vars.state.ppiList.ppiPtrs vars.idx),
        ppiEntry vars.state.mem (descPpi vars.state.mem (vars.state.ppiList.ppiPtrs vars.idx)),
        vars.state⟩]⟩ := by
  have max := here.appended.max
  have count := here.appended.count
  have entry := (functions.runs vars.idx vars.state).appended (by omega) (by omega)
  have old : vars.idx < (visibleEntries vars.state.ppiList).length := by
    rwa [length_visibleEntries]
  have total := congrArg List.length entry.visible
  rw [List.length_append, length_visibleEntries, length_visibleEntries] at total
  have kept (upto : Nat) (within : upto ≤ (visibleEntries vars.state.ppiList).length) :
      (visibleEntries (functions.call vars.idx vars.state).ppiList).take upto =
        (visibleEntries vars.state.ppiList).take upto := by
    rw [entry.visible, List.take_append_of_le_length within]
  refine ⟨?_, ?_, ?_, ?_, ?_, entry.max.trans max, max ▸ entry.count⟩
  · simp only
    omega
  · intro call among
    rcases List.mem_append.mp among with earlier | last
    · exact here.called call earlier
    · obtain rfl := List.mem_singleton.mp last
      exact ⟨inside, rfl, rfl, rfl⟩
  · simp [here.slots, List.range_succ]
  · simp only [List.map_append, List.map_singleton, here.descriptors]
    rw [kept (vars.idx + 1) (by omega), List.take_succ_eq_append_getElem old]
    simp [visibleEntries]
  · simp only
    rw [entry.visible, here.appended.visible]
    simp [installedBy]

theorem Dispatched.law (here : Dispatched functions before vars)
    (small : before.ppiList.maxCount < 2 ^ 32)
    (all : vars.idx = vars.state.ppiList.currentCount) :
    DispatchLaw functions before vars.state vars.calls := by
  have bound := here.appended.count
  have slots := here.slots
  have descriptors := here.descriptors
  have length := congrArg List.length slots
  rw [all] at slots descriptors
  rw [← length_visibleEntries, List.take_length] at descriptors
  rw [List.length_map, List.length_range] at length
  refine ⟨by omega, here.called, slots, descriptors, here.appended.visible, ?_⟩
  intro state desc fuel later max admissible returned
  exact listAt_callReads (max ▸ small) admissible returned

theorem dispatched_pass {vars : DispatchLoop} (here : Dispatched functions before vars)
    (small : before.ppiList.maxCount < 2 ^ 32) :
    (∃ later, dispatchStep functions vars = .next later ∧ Dispatched functions before later ∧
        before.ppiList.maxCount - later.idx < before.ppiList.maxCount - vars.idx) ∨
      ∃ after calls, dispatchStep functions vars = .done (after, calls) ∧
        DispatchLaw functions before after calls := by
  have bound := here.appended.count
  unfold dispatchStep
  by_cases inside : vars.idx < vars.state.ppiList.currentCount
  · have kept : u32 (vars.idx + 1) = vars.idx + 1 := Nat.mod_eq_of_lt (by omega)
    have next := here.next small inside
    simp only [if_pos inside, kept]
    exact .inl ⟨_, rfl, next, by simp only; omega⟩
  · rw [if_neg inside]
    exact .inr ⟨_, _, rfl, here.law small (Nat.le_antisymm here.reached (Nat.not_lt.mp inside))⟩

/-- With a pass for each slot the loop comes to its end. -/
theorem dispatch_ends (small : before.ppiList.maxCount < 2 ^ 32)
    (count : before.ppiList.currentCount ≤ before.ppiList.maxCount) {fuel : Nat}
    (enough : before.ppiList.maxCount < fuel) :
    ∃ after calls, dispatchPeims functions before fuel = some (after, calls) ∧
      DispatchLaw functions before after calls := by
  have ends : ∃ result, run (dispatchStep functions) fuel ⟨before, 0, []⟩ = some result ∧
      DispatchLaw functions before result.1 result.2 := by
    refine run_of_measure (Dispatched functions before)
      (fun result : PeiState × List EntryCall => DispatchLaw functions before result.1 result.2)
      (fun vars => before.ppiList.maxCount - vars.idx) ?_ (dispatched_first count)
      (Nat.lt_of_le_of_lt (Nat.sub_le _ _) enough)
    intro vars here
    obtain ⟨later, passed, next⟩ | ⟨after, calls, left, law⟩ := dispatched_pass here small
    · rw [passed]
      exact next
    · rw [left]
      exact law
  obtain ⟨⟨after, calls⟩, success, law⟩ := ends
  exact ⟨after, calls, success, law⟩

/-- The loop ends, has called one function for each slot of the final database and
no other, and the slots hold what was installed there. -/
theorem dispatchPeims_law (pcdBootFvBase : Nat) (functions : EntryFunctions pcdBootFvBase)
    (before : PeiState) (small : before.ppiList.maxCount < 2 ^ 32)
    (count : before.ppiList.currentCount ≤ before.ppiList.maxCount) :
    ∃ after calls, dispatchPeims functions before (before.ppiList.maxCount + 1) =
      some (after, calls) ∧ DispatchLaw functions before after calls :=
  dispatch_ends small count (Nat.lt_succ_self _)

end Law

/-! ## Functions that install -/

def installOf (pcdBootFvBase desc fuel : Nat) (state : PeiState) : List (List Nat) :=
  match peiInstallPpi pcdBootFvBase state desc fuel with
  | none => []
  | some (status, _) =>
      if status = .success then [callReads pcdBootFvBase state desc fuel] else []

/-- The state after an install call. -/
def stateOf (pcdBootFvBase desc fuel : Nat) (state : PeiState) : PeiState :=
  match peiInstallPpi pcdBootFvBase state desc fuel with
  | some (_, after) => after
  | none => state

theorem entryRun_stateOf (pcdBootFvBase desc fuel : Nat) (state : PeiState) :
    EntryRun pcdBootFvBase state (installOf pcdBootFvBase desc fuel state)
      (stateOf pcdBootFvBase desc fuel state) := by
  unfold installOf stateOf
  cases outcome : peiInstallPpi pcdBootFvBase state desc fuel with
  | none => exact .entered
  | some result =>
      obtain ⟨status, after⟩ := result
      by_cases success : status = .success
      · subst success
        exact .installed .entered outcome
      · simp only [if_neg success]
        exact .rejected .entered success ⟨fuel, outcome⟩

def installingFunctions (pcdBootFvBase desc fuel : Nat) : EntryFunctions pcdBootFvBase where
  call _ := stateOf pcdBootFvBase desc fuel
  installs _ := installOf pcdBootFvBase desc fuel
  runs _ := entryRun_stateOf pcdBootFvBase desc fuel

def onePpi : PeiState := ⟨singleMem, ⟨1, 3, fun _ => 0x2000⟩⟩

theorem dispatchPeims_law_onePpi :
    ∃ after calls, dispatchPeims (installingFunctions 0x1000 0x2000 9) onePpi
      (onePpi.ppiList.maxCount + 1) = some (after, calls) ∧
        DispatchLaw (installingFunctions 0x1000 0x2000 9) onePpi after calls :=
  dispatchPeims_law 0x1000 (installingFunctions 0x1000 0x2000 9) onePpi (by decide) (by decide)

end ArcFirmware.DispatchPeims
