import ArcFirmware.PpiServices
import Mathlib.Data.List.Pairwise

/-!
# What an install does

The descriptors a call examines are known from the memory it starts in: the list
up to its terminator, or as much of it as the pool has room for.  The loop
relocates the accepted descriptors from the first position-independent one on,
by one and the same fixup, and everything else in memory keeps its value.
-/

set_option autoImplicit false

namespace ArcFirmware.PpiInstall

open ArcFirmware.Memory ArcFirmware.Loop ArcFirmware.Edk2 ArcFirmware.UtilsLib
  ArcFirmware.FileChain ArcFirmware.PpiServices

/-! ## Relocating one descriptor -/

section Fixup

variable (mem : Mem) (desc peimFixup : Nat)

theorem u32_word (addr : Nat) : u32 (leAt mem addr 4) = leAt mem addr 4 :=
  Nat.mod_eq_of_lt (leAt_lt mem addr 4)

@[simp] theorem fixupPpi_zero : fixupPpi mem desc 0 = mem := by
  simp only [fixupPpi, Nat.add_zero, descPpi, descGuid, ppiEntry, u32_word, storeLe_leAt]

theorem byteAt_fixupPpi (addr : Nat) (pointers : ∀ i < 8, bus (desc + 4 + i) ≠ bus addr)
    (entry : ∀ i < 4, bus (descPpi mem desc + peimFixup + i) ≠ bus addr) :
    byteAt (fixupPpi mem desc peimFixup) addr = byteAt mem addr := by
  have guid : ∀ i < 4, bus (desc + 4 + i) ≠ bus addr := fun i bound => pointers i (by omega)
  have ppi : ∀ i < 4, bus (desc + 8 + i) ≠ bus addr := by
    intro i bound
    have shifted := pointers (4 + i) (by omega)
    rwa [← Nat.add_assoc] at shifted
  have relocated : ∀ i < 4, bus (u32 (descPpi mem desc + peimFixup) + i) ≠ bus addr := by
    intro i bound
    have wrapped : bus (u32 (descPpi mem desc + peimFixup) + i) =
        bus (descPpi mem desc + peimFixup + i) := bus_bus_add _ i
    rw [wrapped]
    exact entry i bound
  rw [fixupPpi, byteAt_storeLe_of_apart _ _ _ _ _ guid, byteAt_storeLe_of_apart _ _ _ _ _ relocated,
    byteAt_storeLe_of_apart _ _ _ _ _ ppi]

theorem descPpi_fixupPpi (apart : Apart (descPpi mem desc + peimFixup) 4 desc 12) :
    descPpi (fixupPpi mem desc peimFixup) desc = u32 (descPpi mem desc + peimFixup) := by
  have stored : ∀ value, leAt (storeLe mem (desc + 8) 4 value) (desc + 8) 4 = u32 value :=
    fun value => leAt_storeLe_self mem (desc + 8) 4 value (by norm_num)
  have entry : Apart (u32 (descPpi mem desc + peimFixup)) 4 (desc + 8) 4 := by
    intro i iBound j jBound
    have wrapped : bus (u32 (descPpi mem desc + peimFixup) + i) =
        bus (descPpi mem desc + peimFixup + i) := bus_bus_add _ i
    rw [wrapped, Nat.add_assoc desc]
    exact apart i iBound (8 + j) (by omega)
  have guid : Apart (desc + 4) 4 (desc + 8) 4 := by
    intro i iBound j jBound same
    unfold bus at same
    omega
  rw [descPpi, fixupPpi, leAt_storeLe_of_apart _ _ _ _ _ _ guid,
    leAt_storeLe_of_apart _ _ _ _ _ _ entry, stored]
  exact Nat.mod_mod _ _

theorem u32_add_ne (value : Nat) (fixup : peimFixup < 2 ^ 32) (nonzero : peimFixup ≠ 0) :
    u32 (value + peimFixup) ≠ value := by
  unfold u32
  omega

end Fixup

/-! ## The list a call is given -/

/-- Addresses of the descriptors up to the terminator, at most `limit` of them. -/
def descriptors (mem : Mem) : Nat → Nat → List Nat
  | 0, _ => []
  | limit + 1, desc =>
      desc :: if isLastPpi mem desc then []
        else descriptors mem limit (u32 (desc + sizeofPpiDescriptor))

/-- The descriptors that a nonzero fixup applies to: those before the first one
without the PPI flag, from the first position-independent one on. -/
def relocated (mem : Mem) (list : List Nat) : List Nat :=
  (list.takeWhile (hasPpiFlag mem)).dropWhile fun desc => !isPicPpi mem desc

/-- The value that the fixup lookup comes back with. -/
def IsFixup (pcdBootFvBase : Nat) (mem : Mem) (fixup : Nat) : Prop :=
  ∃ ptr info, GetFileSectionReturns mem pcdBootFvBase efiSectionFreeformSubtypeGuid
    efiFvFiletypePeim none (ptr, info) ∧ info.status = .success ∧ fixup = u32 ptr

/-- The list is an array of descriptors below the top of memory. -/
def ListFits (list : List Nat) (desc : Nat) : Prop :=
  desc + sizeofPpiDescriptor * list.length ≤ 2 ^ 32

/-- If a call relocates anything, then its descriptors form an array and no entry
field that it relocates overlaps one of them. -/
def Separate (pcdBootFvBase : Nat) (mem : Mem) (list : List Nat) (desc : Nat) : Prop :=
  ∀ fixup, IsFixup pcdBootFvBase mem fixup → fixup ≠ 0 → ∀ moved ∈ relocated mem list,
    ListFits list desc ∧ ∀ other ∈ list, Apart (descPpi mem moved + fixup) 4 other 12

section List

variable {mem : Mem} {limit desc : Nat}

theorem descriptors_succ : descriptors mem (limit + 1) desc =
    desc :: if isLastPpi mem desc then []
      else descriptors mem limit (u32 (desc + sizeofPpiDescriptor)) := rfl

theorem descriptors_bounds (limit desc : Nat) (fits : ListFits (descriptors mem limit desc) desc) :
    (∀ other ∈ descriptors mem limit desc, desc ≤ other ∧ other + 12 ≤ 2 ^ 32) ∧
      (descriptors mem limit desc).Pairwise fun first second => first + 12 ≤ second := by
  induction limit generalizing desc with
  | zero => exact ⟨fun other member => (List.not_mem_nil member).elim, List.Pairwise.nil⟩
  | succ limit ih =>
      unfold ListFits sizeofPpiDescriptor at fits
      rw [descriptors_succ] at fits ⊢
      rw [List.length_cons] at fits
      by_cases last : isLastPpi mem desc
      · rw [if_pos last] at fits ⊢
        refine ⟨?_, List.pairwise_singleton _ _⟩
        intro other member
        cases List.mem_singleton.mp member
        omega
      · rw [if_neg last] at fits ⊢
        cases limit with
        | zero =>
            refine ⟨?_, List.pairwise_singleton _ _⟩
            intro other member
            cases List.mem_singleton.mp member
            omega
        | succ limit =>
            have positive : 0 < (descriptors mem (limit + 1)
                (u32 (desc + sizeofPpiDescriptor))).length := by
              rw [descriptors_succ]
              exact Nat.succ_pos _
            have kept : u32 (desc + sizeofPpiDescriptor) = desc + 12 :=
              Nat.mod_eq_of_lt (by unfold sizeofPpiDescriptor; omega)
            rw [kept] at fits positive ⊢
            have later := ih (desc + 12) (by unfold ListFits sizeofPpiDescriptor; omega)
            refine ⟨?_, List.Pairwise.cons ?_ later.2⟩
            · intro other member
              rcases List.mem_cons.mp member with rfl | member
              · omega
              · have bounds := later.1 other member
                omega
            · intro other member
              exact (later.1 other member).1

theorem descriptors_apart (fits : ListFits (descriptors mem limit desc) desc) :
    (descriptors mem limit desc).Pairwise fun first second => Apart first 12 second 12 := by
  obtain ⟨bounds, ordered⟩ := descriptors_bounds limit desc fits
  apply ordered.imp_of_mem
  intro first second _ member before
  exact apart_of_below before (bounds second member).2

theorem descriptors_eq_or_apart (fits : ListFits (descriptors mem limit desc) desc)
    {first second : Nat} (firstMember : first ∈ descriptors mem limit desc)
    (secondMember : second ∈ descriptors mem limit desc) :
    first = second ∨ Apart first 12 second 12 := by
  by_cases same : first = second
  · exact Or.inl same
  · have symmetric : Std.Symm fun first second => Apart first 12 second 12 :=
      ⟨fun _ _ => Apart.symm⟩
    exact Or.inr ((descriptors_apart fits).forall firstMember secondMember same)

theorem mem_relocated {before rest : List Nat} {moved : Nat}
    (flags : ∀ other ∈ before ++ [moved], hasPpiFlag mem other = true)
    (pic : ∃ other ∈ before ++ [moved], isPicPpi mem other = true) :
    moved ∈ relocated mem (before ++ moved :: rest) := by
  have shape : before ++ moved :: rest = (before ++ [moved]) ++ rest := by simp
  rw [relocated, shape, List.takeWhile_append_of_pos flags]
  clear flags shape
  induction before with
  | nil =>
      obtain ⟨other, member, isPic⟩ := pic
      cases List.mem_singleton.mp member
      simp [isPic]
  | cons first others ih =>
      rw [List.cons_append, List.cons_append]
      by_cases firstPic : isPicPpi mem first
      · rw [List.dropWhile_cons_of_neg (by simp [firstPic])]
        simp
      · rw [List.dropWhile_cons_of_pos (by simp [firstPic])]
        obtain ⟨other, member, isPic⟩ := pic
        rcases List.mem_cons.mp member with rfl | later
        · exact absurd isPic firstPic
        · exact ih ⟨other, later, isPic⟩

end List

/-! ## One pass -/

/-- The fixup a pass applies: looked up, or the one in hand. -/
def PassFixup (pcdBootFvBase fuel : Nat) (vars : InstallLoop) (peimFixup : Nat) : Prop :=
  (vars.peimFixup = 0 ∧ isPicPpi vars.state.mem vars.desc = true ∧
    calcPeimFixup vars.state.mem pcdBootFvBase fuel = some (peimFixup, .success)) ∨
  (¬ (vars.peimFixup = 0 ∧ isPicPpi vars.state.mem vars.desc = true) ∧
    peimFixup = vars.peimFixup)

/-- Everything a pass can do. -/
theorem installStep_cases (pcdBootFvBase fuel lastCount : Nat) (vars : InstallLoop) :
    (hasPpiFlag vars.state.mem vars.desc = false ∧
      installStep pcdBootFvBase fuel lastCount vars =
        rejectList lastCount .invalidParameter vars.state) ∨
    (calcPeimFixup vars.state.mem pcdBootFvBase fuel = none ∧ vars.peimFixup = 0 ∧
      installStep pcdBootFvBase fuel lastCount vars = .done none) ∨
    (∃ fixup status, calcPeimFixup vars.state.mem pcdBootFvBase fuel = some (fixup, status) ∧
      vars.peimFixup = 0 ∧ status ≠ .success ∧
      installStep pcdBootFvBase fuel lastCount vars = rejectList lastCount status vars.state) ∨
    (hasPpiFlag vars.state.mem vars.desc = true ∧ ∃ fixup,
      PassFixup pcdBootFvBase fuel vars fixup ∧
      installStep pcdBootFvBase fuel lastCount vars = acceptPpi lastCount fixup vars) := by
  unfold installStep
  by_cases flag : hasPpiFlag vars.state.mem vars.desc = false
  · exact Or.inl ⟨flag, if_pos flag⟩
  rw [if_neg flag]
  have present : hasPpiFlag vars.state.mem vars.desc = true := by simpa using flag
  by_cases lookup : vars.peimFixup = 0 ∧ isPicPpi vars.state.mem vars.desc = true
  · rw [if_pos lookup]
    cases outcome : calcPeimFixup vars.state.mem pcdBootFvBase fuel with
    | none => exact Or.inr (Or.inl ⟨rfl, lookup.1, rfl⟩)
    | some result =>
        obtain ⟨fixup, status⟩ := result
        by_cases success : status = .success
        · subst success
          refine Or.inr (Or.inr (Or.inr ⟨present, fixup, ?_, ?_⟩))
          · exact Or.inl ⟨lookup.1, lookup.2, outcome⟩
          · simp
        · exact Or.inr (Or.inr (Or.inl ⟨fixup, status, rfl, lookup.1, success, by simp [success]⟩))
  · rw [if_neg lookup]
    exact Or.inr (Or.inr (Or.inr ⟨present, vars.peimFixup, Or.inr ⟨lookup, rfl⟩, rfl⟩))

theorem isFixup_of_calc {pcdBootFvBase fuel fixup : Nat} {mem : Mem}
    (success : calcPeimFixup mem pcdBootFvBase fuel = some (fixup, .success)) :
    IsFixup pcdBootFvBase mem fixup := by
  obtain ⟨⟨ptr, info⟩, found, same⟩ := Option.map_eq_some_iff.mp success
  simp only [Prod.mk.injEq] at same
  exact ⟨ptr, info, ⟨fuel, found⟩, same.2, same.1.symm⟩

theorem IsFixup.unique {pcdBootFvBase first second : Nat} {mem : Mem}
    (left : IsFixup pcdBootFvBase mem first) (right : IsFixup pcdBootFvBase mem second) :
    first = second := by
  obtain ⟨leftPtr, leftInfo, leftFound, _, rfl⟩ := left
  obtain ⟨rightPtr, rightInfo, rightFound, _, rfl⟩ := right
  have same := congrArg Prod.fst (getFileSectionReturns_unique leftFound rightFound)
  exact congrArg u32 same

theorem IsFixup.lt {pcdBootFvBase fixup : Nat} {mem : Mem}
    (found : IsFixup pcdBootFvBase mem fixup) : fixup < 2 ^ 32 := by
  obtain ⟨ptr, _, _, _, rfl⟩ := found
  exact Nat.mod_lt _ (by norm_num)

theorem not_isFixup_of_calc {pcdBootFvBase fuel fixup other : Nat} {mem : Mem} {status : EfiStatus}
    (failed : calcPeimFixup mem pcdBootFvBase fuel = some (fixup, status))
    (error : status ≠ .success) : ¬ IsFixup pcdBootFvBase mem other := by
  intro found
  obtain ⟨⟨ptr, info⟩, returned, same⟩ := Option.map_eq_some_iff.mp failed
  obtain ⟨otherPtr, otherInfo, otherReturned, success, _⟩ := found
  simp only [Prod.mk.injEq] at same
  have agree : info = otherInfo :=
    congrArg Prod.snd (getFileSectionReturns_unique ⟨fuel, returned⟩ otherReturned)
  exact error (same.2.symm.trans ((congrArg StatusInfo.status agree).trans success))

/-! ## The pool -/

def visibleEntries (ppiList : PpiList) : List Nat :=
  (List.range ppiList.currentCount).map ppiList.ppiPtrs

structure Restored (before after : PpiList) : Prop where
  count : after.currentCount = before.currentCount
  max : after.maxCount = before.maxCount
  kept : ∀ slot, slot < before.currentCount ∨ before.maxCount ≤ slot →
    after.ppiPtrs slot = before.ppiPtrs slot

theorem Restored.visible {before after : PpiList} (restored : Restored before after) :
    visibleEntries after = visibleEntries before := by
  rw [visibleEntries, visibleEntries, restored.count]
  apply List.map_congr_left
  intro slot member
  exact restored.kept slot (Or.inl (List.mem_range.mp member))

/-- The pool after `done` has been entered behind the entries of `before`. -/
structure Entered (before : PpiList) (done : List Nat) (after : PpiList) : Prop where
  visible : visibleEntries after = visibleEntries before ++ done
  count : after.currentCount = before.currentCount + done.length
  max : after.maxCount = before.maxCount
  kept : ∀ slot, slot < before.currentCount ∨ before.maxCount ≤ slot →
    after.ppiPtrs slot = before.ppiPtrs slot

theorem Entered.nothing (ppiList : PpiList) : Entered ppiList [] ppiList :=
  ⟨(List.append_nil _).symm, rfl, rfl, fun _ _ => rfl⟩

theorem Entered.push {before after : PpiList} {done : List Nat} (entered : Entered before done after)
    (desc : Nat) (room : after.currentCount < before.maxCount) (small : before.maxCount < 2 ^ 32) :
    Entered before (done ++ [desc]) (after.push after.currentCount desc) := by
  have kept : u32 (after.currentCount + 1) = after.currentCount + 1 :=
    Nat.mod_eq_of_lt (by omega)
  have count := entered.count
  refine ⟨?_, ?_, entered.max, ?_⟩
  · rw [← List.append_assoc, ← entered.visible]
    simp only [visibleEntries, PpiList.push, kept, List.range_succ, List.map_append,
      List.map_singleton, Function.update_self]
    congr 1
    apply List.map_congr_left
    intro slot member
    have below := List.mem_range.mp member
    exact Function.update_of_ne (by omega) _ _
  · simp only [PpiList.push, kept, List.length_append, List.length_singleton]
    omega
  · intro slot outside
    have other : slot ≠ after.currentCount := by omega
    simp only [PpiList.push, Function.update_of_ne other]
    exact entered.kept slot outside

theorem Entered.reject {before after : PpiList} {done : List Nat}
    (entered : Entered before done after) :
    Restored before { after with currentCount := before.currentCount } :=
  ⟨rfl, entered.max, entered.kept⟩

structure Head (before : PpiList) (done : List Nat) (vars : InstallLoop) : Prop where
  entered : Entered before done vars.state.ppiList
  idx : vars.idx = vars.state.ppiList.currentCount
  room : vars.idx < before.maxCount

/-- What is left after the flags are accepted: the terminator, a full pool or the
next descriptor. -/
theorem acceptPpi_cases {before : PpiList} {done : List Nat} {vars : InstallLoop}
    (head : Head before done vars) (small : before.maxCount < 2 ^ 32) (fixup : Nat) :
    ∃ pool, Entered before (done ++ [vars.desc]) pool ∧
      ((isLastPpi (fixupPpi vars.state.mem vars.desc fixup) vars.desc = true ∧
        acceptPpi before.currentCount fixup vars =
          .done (some (.success, ⟨fixupPpi vars.state.mem vars.desc fixup, pool⟩))) ∨
      (isLastPpi (fixupPpi vars.state.mem vars.desc fixup) vars.desc = false ∧
        before.maxCount ≤ vars.idx + 1 ∧
        acceptPpi before.currentCount fixup vars = rejectList before.currentCount .notFound
          ⟨fixupPpi vars.state.mem vars.desc fixup, pool⟩) ∨
      (isLastPpi (fixupPpi vars.state.mem vars.desc fixup) vars.desc = false ∧
        ∃ after, acceptPpi before.currentCount fixup vars = .next after ∧
          after.state.mem = fixupPpi vars.state.mem vars.desc fixup ∧
          after.desc = u32 (vars.desc + sizeofPpiDescriptor) ∧ after.idx = vars.idx + 1 ∧
          after.peimFixup = fixup ∧ Head before (done ++ [vars.desc]) after)) := by
  have room := head.room
  have idx := head.idx
  have entered := head.entered.push vars.desc (by omega) small
  have stepped : u32 (vars.idx + 1) = vars.idx + 1 := Nat.mod_eq_of_lt (by omega)
  have pushed : (vars.state.ppiList.push vars.idx vars.desc).ppiPtrs vars.idx = vars.desc :=
    Function.update_self ..
  rw [← idx] at entered
  refine ⟨_, entered, ?_⟩
  have max := entered.max
  simp only [acceptPpi, pushed, stepped, max]
  by_cases last : isLastPpi (fixupPpi vars.state.mem vars.desc fixup) vars.desc = true
  · exact Or.inl ⟨last, if_pos last⟩
  · rw [if_neg last]
    have more : isLastPpi (fixupPpi vars.state.mem vars.desc fixup) vars.desc = false := by
      simpa using last
    by_cases full : vars.idx + 1 ≥ before.maxCount
    · exact Or.inr (Or.inl ⟨more, full, if_pos full⟩)
    · rw [if_neg full]
      refine Or.inr (Or.inr ⟨more, _, rfl, rfl, rfl, rfl, rfl, entered, ?_, by simpa using full⟩)
      have count := entered.count
      have before := head.entered.count
      simp only [List.length_append, List.length_singleton] at count
      simp only
      omega

/-! ## The memory -/

def Spares (mem : Mem) (moved fixup addr : Nat) : Prop :=
  (∀ i < 8, bus (moved + 4 + i) ≠ bus addr) ∧
    ∀ i < 4, bus (descPpi mem moved + fixup + i) ≠ bus addr

/-- The memory after the descriptors `done` of a list have been accepted: the one
the call started in as long as nothing is relocated, and otherwise the same
outside of what has been relocated. -/
structure Moved (pcdBootFvBase : Nat) (start : Mem) (list done : List Nat) (peimFixup : Nat)
    (mem : Mem) : Prop where
  accepted : ∀ desc ∈ done, hasPpiFlag start desc = true
  fixup : (peimFixup = 0 ∧ mem = start ∧
      ∀ desc ∈ done, isPicPpi start desc = true → IsFixup pcdBootFvBase start 0) ∨
    (peimFixup ≠ 0 ∧ IsFixup pcdBootFvBase start peimFixup ∧
      ∃ desc ∈ done, isPicPpi start desc = true ∧ descPpi mem desc ≠ descPpi start desc)
  frame : ∀ addr, (∀ fixup, IsFixup pcdBootFvBase start fixup → fixup ≠ 0 → ∀ moved ∈ done,
      moved ∈ relocated start list → Spares start moved fixup addr) →
    byteAt mem addr = byteAt start addr

theorem forall_mem_snoc {holds : Nat → Prop} {done : List Nat} {current : Nat}
    (earlier : ∀ other ∈ done, holds other) (here : holds current) :
    ∀ other ∈ done ++ [current], holds other :=
  List.forall_mem_append.mpr ⟨earlier, List.forall_mem_singleton.mpr here⟩

theorem Moved.nothing (pcdBootFvBase : Nat) (start : Mem) (list : List Nat) :
    Moved pcdBootFvBase start list [] 0 start :=
  ⟨fun _ member => (List.not_mem_nil member).elim,
    Or.inl ⟨rfl, rfl, fun _ member => (List.not_mem_nil member).elim⟩, fun _ _ => rfl⟩

section Memory

variable {pcdBootFvBase limit desc : Nat} {start mem : Mem} {done : List Nat} {peimFixup : Nat}

theorem mem_of_split {list done rest : List Nat} {current : Nat}
    (split : list = done ++ current :: rest) :
    (∀ other ∈ done, other ∈ list) ∧ current ∈ list := by
  rw [split]
  exact ⟨fun _ member => List.mem_append_left _ member,
    List.mem_append_right _ (List.mem_cons_self ..)⟩

theorem apart_of_split {list rest : List Nat} {current other : Nat}
    (pairs : list.Pairwise fun first second => Apart first 12 second 12)
    (split : list = done ++ current :: rest) (before : other ∈ done) :
    Apart other 12 current 12 := by
  rw [split] at pairs
  exact (List.pairwise_append.mp pairs).2.2 other before current (List.mem_cons_self ..)

theorem Moved.flagByte (moved : Moved pcdBootFvBase start (descriptors start limit desc) done
      peimFixup mem)
    (separate : Separate pcdBootFvBase start (descriptors start limit desc) desc)
    (inside : ∀ other ∈ done, other ∈ descriptors start limit desc)
    {other : Nat} (member : other ∈ descriptors start limit desc) (i : Nat) (bound : i < 4) :
    byteAt mem (other + i) = byteAt start (other + i) := by
  apply moved.frame
  intro fixup found nonzero first firstDone firstMoved
  obtain ⟨fits, entry⟩ := separate fixup found nonzero first firstMoved
  refine ⟨?_, fun j jBound => entry other member j jBound i (by omega)⟩
  intro j jBound
  rcases descriptors_eq_or_apart fits (inside first firstDone) member with rfl | apart
  · unfold bus
    omega
  · rw [Nat.add_assoc]
    exact apart (4 + j) (by omega) i (by omega)

theorem Moved.flags_eq (moved : Moved pcdBootFvBase start (descriptors start limit desc) done
      peimFixup mem)
    (separate : Separate pcdBootFvBase start (descriptors start limit desc) desc)
    (inside : ∀ other ∈ done, other ∈ descriptors start limit desc)
    {other : Nat} (member : other ∈ descriptors start limit desc) :
    descFlags mem other = descFlags start other :=
  leAt_congr mem start other other 4 fun i bound =>
    moved.flagByte separate inside member i bound

theorem Moved.ahead (moved : Moved pcdBootFvBase start (descriptors start limit desc) done
      peimFixup mem)
    (separate : Separate pcdBootFvBase start (descriptors start limit desc) desc)
    {current : Nat} {rest : List Nat}
    (split : descriptors start limit desc = done ++ current :: rest) (i : Nat) (bound : i < 12) :
    byteAt mem (current + i) = byteAt start (current + i) := by
  apply moved.frame
  intro fixup found nonzero first firstDone firstMoved
  obtain ⟨fits, entry⟩ := separate fixup found nonzero first firstMoved
  refine ⟨?_, fun j jBound => entry current (mem_of_split split).2 j jBound i bound⟩
  have apart := apart_of_split (descriptors_apart fits) split firstDone
  intro j jBound
  rw [Nat.add_assoc]
  exact apart (4 + j) (by omega) i bound

theorem Moved.ahead_ppi (moved : Moved pcdBootFvBase start (descriptors start limit desc) done
      peimFixup mem)
    (separate : Separate pcdBootFvBase start (descriptors start limit desc) desc)
    {current : Nat} {rest : List Nat}
    (split : descriptors start limit desc = done ++ current :: rest) :
    descPpi mem current = descPpi start current := by
  apply leAt_congr
  intro i bound
  rw [Nat.add_assoc]
  exact moved.ahead separate split (8 + i) (by omega)

theorem Moved.keep (moved : Moved pcdBootFvBase start (descriptors start limit desc) done
      peimFixup start) {current : Nat} (flag : hasPpiFlag start current = true)
    (pic : isPicPpi start current = true → IsFixup pcdBootFvBase start 0)
    (zero : peimFixup = 0) :
    Moved pcdBootFvBase start (descriptors start limit desc) (done ++ [current]) 0 start := by
  have earlier : ∀ other ∈ done, isPicPpi start other = true → IsFixup pcdBootFvBase start 0 := by
    rcases moved.fixup with ⟨_, _, zeroFound⟩ | ⟨nonzero, _⟩
    · exact zeroFound
    · exact absurd zero nonzero
  exact ⟨forall_mem_snoc moved.accepted flag, Or.inl ⟨rfl, rfl, forall_mem_snoc earlier pic⟩,
    fun _ _ => rfl⟩

theorem Moved.spared (moved : Moved pcdBootFvBase start (descriptors start limit desc) done
      peimFixup mem)
    (separate : Separate pcdBootFvBase start (descriptors start limit desc) desc)
    {current fixup : Nat} {rest : List Nat}
    (split : descriptors start limit desc = done ++ current :: rest) (addr : Nat)
    (outside : Spares start current fixup addr) :
    byteAt (fixupPpi mem current fixup) addr = byteAt mem addr := by
  apply byteAt_fixupPpi
  · exact outside.1
  · rw [moved.ahead_ppi separate split]
    exact outside.2

theorem Moved.changed (moved : Moved pcdBootFvBase start (descriptors start limit desc) done
      peimFixup mem)
    (separate : Separate pcdBootFvBase start (descriptors start limit desc) desc)
    {current fixup : Nat} {rest : List Nat}
    (split : descriptors start limit desc = done ++ current :: rest)
    (found : IsFixup pcdBootFvBase start fixup) (nonzero : fixup ≠ 0)
    (fits : ListFits (descriptors start limit desc) desc)
    (entry : ∀ other ∈ descriptors start limit desc,
      Apart (descPpi start current + fixup) 4 other 12)
    (origin : (peimFixup = 0 ∧ isPicPpi start current = true) ∨ peimFixup = fixup) :
    ∃ other ∈ done ++ [current], isPicPpi start other = true ∧
      descPpi (fixupPpi mem current fixup) other ≠ descPpi start other := by
  obtain ⟨inside, member⟩ := mem_of_split split
  have ppi := moved.ahead_ppi separate split
  rcases origin with ⟨_, pic⟩ | same
  · refine ⟨current, List.mem_append_right _ (List.mem_singleton_self _), pic, ?_⟩
    rw [descPpi_fixupPpi _ _ _ (by rw [ppi]; exact entry current member), ppi]
    exact u32_add_ne fixup _ found.lt nonzero
  · rcases moved.fixup with ⟨zero, _⟩ | ⟨_, _, other, before, pic, changed⟩
    · omega
    · refine ⟨other, List.mem_append_left _ before, pic, ?_⟩
      have apart := apart_of_split (descriptors_apart fits) split before
      have still : descPpi (fixupPpi mem current fixup) other = descPpi mem other := by
        apply leAt_congr
        intro i bound
        apply moved.spared separate split
        refine ⟨?_, ?_⟩
        · intro j jBound same
          rw [Nat.add_assoc, Nat.add_assoc] at same
          exact apart (8 + i) (by omega) (4 + j) (by omega) same.symm
        · intro j jBound
          rw [Nat.add_assoc other]
          exact entry other (inside other before) j jBound (8 + i) (by omega)
      rw [still]
      exact changed

theorem Moved.relocate (moved : Moved pcdBootFvBase start (descriptors start limit desc) done
      peimFixup mem)
    (separate : Separate pcdBootFvBase start (descriptors start limit desc) desc)
    {current fixup : Nat} {rest : List Nat}
    (split : descriptors start limit desc = done ++ current :: rest)
    (flag : hasPpiFlag start current = true) (found : IsFixup pcdBootFvBase start fixup)
    (nonzero : fixup ≠ 0)
    (origin : (peimFixup = 0 ∧ isPicPpi start current = true) ∨ peimFixup = fixup) :
    Moved pcdBootFvBase start (descriptors start limit desc) (done ++ [current]) fixup
      (fixupPpi mem current fixup) := by
  have accepted : ∀ other ∈ done ++ [current], hasPpiFlag start other = true :=
    forall_mem_snoc moved.accepted flag
  have selected : current ∈ relocated start (descriptors start limit desc) := by
    rw [split]
    apply mem_relocated accepted
    rcases origin with ⟨_, pic⟩ | same
    · exact ⟨current, List.mem_append_right _ (List.mem_singleton_self _), pic⟩
    · rcases moved.fixup with ⟨zero, _⟩ | ⟨_, _, other, before, pic, _⟩
      · omega
      · exact ⟨other, List.mem_append_left _ before, pic⟩
  obtain ⟨fits, entry⟩ := separate fixup found nonzero current selected
  refine ⟨accepted, Or.inr ⟨nonzero, found,
    moved.changed separate split found nonzero fits entry origin⟩, ?_⟩
  intro addr outside
  have here := outside fixup found nonzero current
    (List.mem_append_right _ (List.mem_singleton_self _)) selected
  rw [moved.spared separate split addr here]
  apply moved.frame
  intro other otherFound otherNonzero first firstDone firstMoved
  exact outside other otherFound otherNonzero first (List.mem_append_left _ firstDone) firstMoved

theorem Moved.pass {fuel : Nat} {vars : InstallLoop} {rest : List Nat} {fixup : Nat}
    (moved : Moved pcdBootFvBase start (descriptors start limit desc) done vars.peimFixup
      vars.state.mem)
    (separate : Separate pcdBootFvBase start (descriptors start limit desc) desc)
    (split : descriptors start limit desc = done ++ vars.desc :: rest)
    (flag : hasPpiFlag vars.state.mem vars.desc = true)
    (applied : PassFixup pcdBootFvBase fuel vars fixup) :
    Moved pcdBootFvBase start (descriptors start limit desc) (done ++ [vars.desc]) fixup
      (fixupPpi vars.state.mem vars.desc fixup) := by
  obtain ⟨inside, member⟩ := mem_of_split split
  have flags := moved.flags_eq separate inside member
  have startFlag : hasPpiFlag start vars.desc = true := by
    rwa [hasPpiFlag, flags] at flag
  have samePic : isPicPpi vars.state.mem vars.desc = isPicPpi start vars.desc := by
    rw [isPicPpi, isPicPpi, flags]
  rcases applied with ⟨zero, pic, lookup⟩ | ⟨none, rfl⟩
  · rcases moved.fixup with ⟨_, same, _⟩ | ⟨nonzero, _⟩
    · have found : IsFixup pcdBootFvBase start fixup := by
        rw [← same]
        exact isFixup_of_calc lookup
      by_cases nonzero : fixup = 0
      · subst nonzero
        rw [same] at moved ⊢
        rw [fixupPpi_zero]
        exact moved.keep startFlag (fun _ => found) zero
      · exact moved.relocate separate split startFlag found nonzero
          (Or.inl ⟨zero, samePic ▸ pic⟩)
    · exact absurd zero nonzero
  · rcases moved.fixup with ⟨zero, same, _⟩ | ⟨nonzero, found, _⟩
    · rw [same] at moved ⊢
      rw [zero, fixupPpi_zero]
      refine moved.keep startFlag (fun pic => absurd ⟨zero, samePic.trans pic⟩ none) zero
    · exact moved.relocate separate split startFlag found nonzero (Or.inr rfl)

end Memory

/-! ## The loop -/

theorem relocated_unflagged {mem : Mem} {done rest : List Nat} {desc : Nat}
    (accepted : ∀ other ∈ done, hasPpiFlag mem other = true)
    (unflagged : hasPpiFlag mem desc = false) :
    ∀ moved ∈ relocated mem (done ++ desc :: rest), moved ∈ done := by
  intro moved member
  rw [relocated, List.takeWhile_append_of_pos accepted,
    List.takeWhile_cons_of_neg (by simp [unflagged]), List.append_nil] at member
  exact (List.dropWhile_sublist _).subset member

theorem relocated_subset (mem : Mem) (list : List Nat) :
    ∀ moved ∈ relocated mem list, moved ∈ list := by
  intro moved member
  exact (List.takeWhile_sublist _).subset ((List.dropWhile_sublist _).subset member)

/-- The descriptors a call examines in the state it starts from. -/
def callList (before : PeiState) (desc : Nat) : List Nat :=
  descriptors before.mem (before.ppiList.maxCount - before.ppiList.currentCount) desc

structure Installing (pcdBootFvBase : Nat) (before : PeiState) (desc : Nat) (done : List Nat)
    (vars : InstallLoop) : Prop where
  head : Head before.ppiList done vars
  moved : Moved pcdBootFvBase before.mem (callList before desc) done vars.peimFixup vars.state.mem
  split : callList before desc = done ++
    descriptors before.mem (before.ppiList.maxCount - vars.idx) vars.desc

/-- What a call leaves behind: the whole list entered, or the database restored
after some of the list has been accepted. -/
def Outcome (pcdBootFvBase : Nat) (before : PeiState) (desc : Nat) (status : EfiStatus)
    (after : PeiState) : Prop :=
  ∃ done peimFixup, (∃ rest, callList before desc = done ++ rest) ∧
    Moved pcdBootFvBase before.mem (callList before desc) done peimFixup after.mem ∧
    ((status = .success ∧ done = callList before desc ∧
        Entered before.ppiList (callList before desc) after.ppiList ∧
        ∃ final ∈ callList before desc, isLastPpi before.mem final = true) ∨
      (status ≠ .success ∧ Restored before.ppiList after.ppiList ∧
        ∀ fixup, IsFixup pcdBootFvBase before.mem fixup →
          ∀ moved ∈ relocated before.mem (callList before desc), moved ∈ done))

section Pass

variable {pcdBootFvBase desc : Nat} {before : PeiState} {done : List Nat} {vars : InstallLoop}

theorem Installing.reject (head : Installing pcdBootFvBase before desc done vars)
    {status : EfiStatus} (error : status ≠ .success) {rest : List Nat}
    (split : callList before desc = done ++ rest)
    (all : ∀ fixup, IsFixup pcdBootFvBase before.mem fixup →
      ∀ moved ∈ relocated before.mem (callList before desc), moved ∈ done) :
    match rejectList before.ppiList.currentCount status vars.state with
    | .next after => Installing pcdBootFvBase before desc (done ++ [vars.desc]) after
    | .done none => True
    | .done (some (status, after)) => Outcome pcdBootFvBase before desc status after :=
  ⟨done, vars.peimFixup, ⟨_, split⟩, head.moved, Or.inr ⟨error, head.head.entered.reject, all⟩⟩

theorem Installing.accept (head : Installing pcdBootFvBase before desc done vars)
    {fuel fixup left : Nat}
    (separate : Separate pcdBootFvBase before.mem (callList before desc) desc)
    (small : before.ppiList.maxCount < 2 ^ 32)
    (leftEq : before.ppiList.maxCount - vars.idx = left + 1)
    (flag : hasPpiFlag vars.state.mem vars.desc = true)
    (applied : PassFixup pcdBootFvBase fuel vars fixup) :
    match acceptPpi before.ppiList.currentCount fixup vars with
    | .next after => Installing pcdBootFvBase before desc (done ++ [vars.desc]) after
    | .done none => True
    | .done (some (status, after)) => Outcome pcdBootFvBase before desc status after := by
  have split := head.split
  rw [leftEq, descriptors_succ] at split
  obtain ⟨inside, member⟩ := mem_of_split split
  have moved := head.moved.pass separate split flag applied
  have last : isLastPpi (fixupPpi vars.state.mem vars.desc fixup) vars.desc =
      isLastPpi before.mem vars.desc := by
    rw [isLastPpi, isLastPpi, moved.flags_eq separate (forall_mem_snoc inside member) member]
  obtain ⟨pool, entered, ends | full | next⟩ := acceptPpi_cases head.head small fixup
  · obtain ⟨terminated, accepted⟩ := ends
    rw [accepted]
    rw [← last, if_pos terminated] at split
    refine ⟨_, _, ⟨[], by rw [split, List.append_nil]⟩, moved,
      Or.inl ⟨rfl, split.symm, ?_, vars.desc, member, last ▸ terminated⟩⟩
    rw [split]
    exact entered
  · obtain ⟨_, noRoom, accepted⟩ := full
    rw [accepted]
    have room := head.head.room
    have none_ : left = 0 := by omega
    subst none_
    refine ⟨_, _, ⟨_, by rw [split, List.append_assoc, List.singleton_append]⟩, moved,
      Or.inr ⟨by decide, entered.reject, ?_⟩⟩
    intro _ _ first firstMoved
    have listed := relocated_subset _ _ first firstMoved
    rw [split] at listed
    simpa [descriptors] using listed
  · obtain ⟨open_, after, accepted, sameMem, sameDesc, sameIdx, sameFixup, afterHead⟩ := next
    rw [accepted]
    refine ⟨afterHead, ?_, ?_⟩
    · rw [sameMem, sameFixup]
      exact moved
    · have rest : before.ppiList.maxCount - after.idx = left := by omega
      rw [← last, open_] at split
      rw [rest, sameDesc, split]
      simp

theorem Installing.pass (head : Installing pcdBootFvBase before desc done vars) (fuel : Nat)
    (separate : Separate pcdBootFvBase before.mem (callList before desc) desc)
    (small : before.ppiList.maxCount < 2 ^ 32) :
    match installStep pcdBootFvBase fuel before.ppiList.currentCount vars with
    | .next after => Installing pcdBootFvBase before desc (done ++ [vars.desc]) after
    | .done none => True
    | .done (some (status, after)) => Outcome pcdBootFvBase before desc status after := by
  obtain ⟨left, leftEq⟩ : ∃ left, before.ppiList.maxCount - vars.idx = left + 1 :=
    ⟨before.ppiList.maxCount - vars.idx - 1, by have room := head.head.room; omega⟩
  have split := head.split
  rw [leftEq, descriptors_succ] at split
  obtain ⟨inside, member⟩ := mem_of_split split
  have flags := head.moved.flags_eq separate inside member
  rcases installStep_cases pcdBootFvBase fuel before.ppiList.currentCount vars with
    ⟨unflagged, step⟩ | ⟨_, _, step⟩ | ⟨fixup, status, lookup, zero, error, step⟩ |
    ⟨flag, fixup, applied, step⟩
  · rw [step]
    refine head.reject (by decide) split ?_
    intro _ _
    rw [split]
    apply relocated_unflagged head.moved.accepted
    rwa [hasPpiFlag, flags] at unflagged
  · rw [step]
    trivial
  · rw [step]
    refine head.reject error split ?_
    intro other found
    rcases head.moved.fixup with ⟨_, same, _⟩ | ⟨nonzero, _⟩
    · rw [same] at lookup
      exact absurd found (not_isFixup_of_calc lookup error)
    · exact absurd zero nonzero
  · rw [step]
    exact head.accept separate small leftEq flag applied

end Pass

theorem installPpi_early {pcdBootFvBase desc : Nat} {before after : PeiState}
    {status : EfiStatus} (success : InstallPpiReturns pcdBootFvBase before desc status after)
    (early : desc = null ∨ before.ppiList.maxCount ≤ before.ppiList.currentCount) :
    status ≠ .success ∧ after = before := by
  obtain ⟨fuel, success⟩ := success
  unfold peiInstallPpi at success
  by_cases missing : desc = null
  · rw [if_pos missing] at success
    cases success
    exact ⟨by decide, rfl⟩
  · rw [if_neg missing, if_pos (early.resolve_left missing)] at success
    cases success
    exact ⟨by decide, rfl⟩

theorem installLoop_of_returns {pcdBootFvBase desc : Nat} {before after : PeiState}
    {status : EfiStatus} (success : InstallPpiReturns pcdBootFvBase before desc status after)
    (given : desc ≠ null) (room : before.ppiList.currentCount < before.ppiList.maxCount) :
    ∃ fuel, Returns (installStep pcdBootFvBase fuel before.ppiList.currentCount)
      ⟨before, desc, before.ppiList.currentCount, 0⟩ (some (status, after)) := by
  obtain ⟨fuel, success⟩ := success
  rw [peiInstallPpi, if_neg given, if_neg (by omega)] at success
  exact ⟨fuel, fuel, Option.join_eq_some_iff.mp success⟩

theorem Restored.refl (ppiList : PpiList) : Restored ppiList ppiList :=
  ⟨rfl, rfl, fun _ _ => rfl⟩

/-- Every call that gets as far as the loop ends in its outcome. -/
theorem installPpi_outcome {pcdBootFvBase desc : Nat} {before after : PeiState}
    {status : EfiStatus} (success : InstallPpiReturns pcdBootFvBase before desc status after)
    (separate : Separate pcdBootFvBase before.mem (callList before desc) desc)
    (small : before.ppiList.maxCount < 2 ^ 32) (given : desc ≠ null)
    (room : before.ppiList.currentCount < before.ppiList.maxCount) :
    Outcome pcdBootFvBase before desc status after := by
  obtain ⟨fuel, finished⟩ := installLoop_of_returns success given room
  refine returns_invariant (fun vars => ∃ done, Installing pcdBootFvBase before desc done vars)
    (fun result : Option (EfiStatus × PeiState) => ∀ status after, result = some (status, after) →
      Outcome pcdBootFvBase before desc status after) ?_ ?_ finished status after rfl
  · intro vars head
    obtain ⟨done, head⟩ := head
    have pass := head.pass fuel separate small
    cases outcome : installStep pcdBootFvBase fuel before.ppiList.currentCount vars with
    | next later =>
        rw [outcome] at pass
        exact ⟨_, pass⟩
    | done result =>
        rw [outcome] at pass
        intro status after same
        subst same
        exact pass
  · exact ⟨[], ⟨Entered.nothing _, rfl, room⟩, Moved.nothing .., rfl⟩

end ArcFirmware.PpiInstall
