import ArcFirmware.PpiAtomicity
import ArcFirmware.PpiDatabase
import Mathlib.Data.List.TakeWhile

/-!
# What a successful install has relocated

The fixup is a variable of the loop: the first position-independent descriptor
sets it and every descriptor from there on gets it.  The memory after a
successful call is therefore one relocation after the other, and a descriptor is
treated by its own flag exactly when no plain one comes after it has been set.
-/

set_option autoImplicit false

namespace ArcFirmware.PpiRelocation

open ArcFirmware.Memory ArcFirmware.Loop ArcFirmware.Edk2 ArcFirmware.UtilsLib
  ArcFirmware.FileChain ArcFirmware.PpiServices ArcFirmware.PpiInstall
  ArcFirmware.PpiAtomicity ArcFirmware.PpiDatabase

/-! ## One relocation -/

section One

variable {mem : Mem} {desc fixup : Nat}

theorem u32_leAt_storeLe (mem : Mem) (addr value : Nat) :
    leAt (storeLe mem addr 4 (u32 value)) addr 4 = u32 value := by
  rw [leAt_storeLe_self mem addr 4 (u32 value) (by norm_num)]
  exact Nat.mod_mod _ _

theorem apart_pointers {first second offset : Nat} (apart : Apart first 12 second 12)
    (inside : offset + 4 ≤ 12) : Apart (first + 4) 8 (second + offset) 4 :=
  ((apart.inner offset 4 inside).symm.inner 4 8 (by norm_num)).symm

theorem apart_entry {offset count : Nat} {other : Nat}
    (apart : Apart (descPpi mem desc + fixup) 4 other 12) (inside : offset + count ≤ 12) :
    Apart (u32 (descPpi mem desc + fixup)) 4 (other + offset) count :=
  apart_bus_left.mpr (apart.inner offset count inside)

theorem apart_fields (desc : Nat) : Apart (desc + 8) 4 (desc + 4) 4 := by
  intro i iBound j jBound same
  unfold bus at same
  omega

theorem descGuid_fixupPpi (apart : Apart (descPpi mem desc + fixup) 4 desc 12) :
    descGuid (fixupPpi mem desc fixup) desc = u32 (descGuid mem desc + fixup) := by
  have entry : Apart (u32 (descPpi mem desc + fixup)) 4 (desc + 4) 4 :=
    apart_entry apart (by norm_num)
  rw [descGuid, fixupPpi, u32_leAt_storeLe, descGuid, leAt_storeLe_of_apart _ _ _ _ _ _ entry,
    leAt_storeLe_of_apart _ _ _ _ _ _ (apart_fields desc)]
  rfl

theorem ppiEntry_fixupPpi (apart : Apart (descPpi mem desc + fixup) 4 desc 12) :
    ppiEntry (fixupPpi mem desc fixup) (u32 (descPpi mem desc + fixup)) =
      u32 (ppiEntry mem (u32 (descPpi mem desc + fixup)) + fixup) := by
  have guid : Apart (desc + 4) 4 (u32 (descPpi mem desc + fixup)) 4 :=
    (apart_entry apart (by norm_num)).symm
  have ppi : Apart (desc + 8) 4 (u32 (descPpi mem desc + fixup)) 4 :=
    (apart_entry apart (by norm_num)).symm
  rw [ppiEntry, fixupPpi, leAt_storeLe_of_apart _ _ _ _ _ _ guid, u32_leAt_storeLe, ppiEntry,
    leAt_storeLe_of_apart _ _ _ _ _ _ ppi]
  rfl

theorem byteAt_other_descriptor {other i : Nat} (descs : Apart desc 12 other 12)
    (entry : Apart (descPpi mem desc + fixup) 4 other 12) (bound : i < 12) :
    byteAt (fixupPpi mem desc fixup) (other + i) = byteAt mem (other + i) := by
  apply byteAt_fixupPpi
  · intro j jBound
    rw [Nat.add_assoc]
    exact descs (4 + j) (by omega) i bound
  · intro j jBound
    exact entry j jBound i bound

theorem descPpi_other {other : Nat} (descs : Apart desc 12 other 12)
    (entry : Apart (descPpi mem desc + fixup) 4 other 12) :
    descPpi (fixupPpi mem desc fixup) other = descPpi mem other := by
  apply leAt_congr
  intro i bound
  rw [Nat.add_assoc]
  exact byteAt_other_descriptor descs entry (by omega)

end One

/-! ## One relocation after the other -/

def relocateAll (fixup : Nat) (mem : Mem) (list : List Nat) : Mem :=
  list.foldl (fun mem desc => fixupPpi mem desc fixup) mem

/-- Descriptors that overlap neither one another nor the entry fields that their
relocation writes. -/
structure Spaced (fixup : Nat) (mem : Mem) (list : List Nat) : Prop where
  descs : list.Pairwise fun first second => Apart first 12 second 12
  entries : ∀ moved ∈ list, ∀ other ∈ list, Apart (descPpi mem moved + fixup) 4 other 12

section All

variable {fixup : Nat} {mem : Mem} {list : List Nat}

theorem Spaced.head {desc : Nat} {rest : List Nat} (spaced : Spaced fixup mem (desc :: rest)) :
    ∀ other ∈ rest, descPpi (fixupPpi mem desc fixup) other = descPpi mem other := by
  intro other member
  exact descPpi_other ((List.pairwise_cons.mp spaced.descs).1 other member)
    (spaced.entries desc (List.mem_cons_self ..) other (List.mem_cons_of_mem _ member))

theorem Spaced.tail {desc : Nat} {rest : List Nat} (spaced : Spaced fixup mem (desc :: rest)) :
    Spaced fixup (fixupPpi mem desc fixup) rest := by
  refine ⟨(List.pairwise_cons.mp spaced.descs).2, ?_⟩
  intro moved movedMember other otherMember
  rw [spaced.head moved movedMember]
  exact spaced.entries moved (List.mem_cons_of_mem _ movedMember) other
    (List.mem_cons_of_mem _ otherMember)

theorem Spaced.byteAt_relocateAll (spaced : Spaced fixup mem list) {addr : Nat}
    (outside : ∀ moved ∈ list, Spares mem moved fixup addr) :
    byteAt (relocateAll fixup mem list) addr = byteAt mem addr := by
  induction list generalizing mem with
  | nil => rfl
  | cons desc rest ih =>
      have here := outside desc (List.mem_cons_self ..)
      have later : ∀ moved ∈ rest, Spares (fixupPpi mem desc fixup) moved fixup addr := by
        intro moved member
        have spares := outside moved (List.mem_cons_of_mem _ member)
        unfold Spares
        rw [spaced.head moved member]
        exact spares
      exact (ih spaced.tail later).trans (byteAt_fixupPpi mem desc fixup addr here.1 here.2)

theorem Spaced.leAt_relocateAll (spaced : Spaced fixup mem list) {addr count : Nat}
    (fields : ∀ moved ∈ list, Apart (moved + 4) 8 addr count)
    (entries : ∀ moved ∈ list, Apart (descPpi mem moved + fixup) 4 addr count) :
    leAt (relocateAll fixup mem list) addr count = leAt mem addr count := by
  apply leAt_congr
  intro i bound
  apply spaced.byteAt_relocateAll
  intro moved member
  exact ⟨fun j jBound => fields moved member j jBound i bound,
    fun j jBound => entries moved member j jBound i bound⟩

theorem Spaced.append_left {first second : List Nat} (spaced : Spaced fixup mem (first ++ second)) :
    Spaced fixup mem first := by
  refine ⟨(List.pairwise_append.mp spaced.descs).1, ?_⟩
  intro moved movedMember other otherMember
  exact spaced.entries moved (List.mem_append_left _ movedMember) other
    (List.mem_append_left _ otherMember)

theorem Spaced.field_behind {first second : List Nat}
    (spaced : Spaced fixup mem (first ++ second)) {other offset : Nat} (member : other ∈ second)
    (inside : offset + 4 ≤ 12) :
    leAt (relocateAll fixup mem first) (other + offset) 4 = leAt mem (other + offset) 4 := by
  apply spaced.append_left.leAt_relocateAll
  · intro moved before
    have apart := (List.pairwise_append.mp spaced.descs).2.2 moved before other member
    exact apart_pointers apart inside
  · intro moved before
    exact (spaced.entries moved (List.mem_append_left _ before) other
      (List.mem_append_right _ member)).inner offset 4 inside

theorem Spaced.append_right {first second : List Nat}
    (spaced : Spaced fixup mem (first ++ second)) :
    Spaced fixup (relocateAll fixup mem first) second := by
  refine ⟨(List.pairwise_append.mp spaced.descs).2.1, ?_⟩
  intro moved movedMember other otherMember
  have same : descPpi (relocateAll fixup mem first) moved = descPpi mem moved :=
    spaced.field_behind movedMember (by norm_num)
  rw [same]
  exact spaced.entries moved (List.mem_append_right _ movedMember) other
    (List.mem_append_right _ otherMember)

theorem Spaced.field_before {first second : List Nat}
    (spaced : Spaced fixup mem (first ++ second)) {other offset : Nat} (member : other ∈ first)
    (inside : offset + 4 ≤ 12) :
    leAt (relocateAll fixup mem (first ++ second)) (other + offset) 4 =
      leAt (relocateAll fixup mem first) (other + offset) 4 := by
  rw [relocateAll, List.foldl_append]
  apply spaced.append_right.leAt_relocateAll
  · intro moved behind
    have apart := (List.pairwise_append.mp spaced.descs).2.2 other member moved behind
    exact apart_pointers apart.symm inside
  · intro moved behind
    have same : descPpi (relocateAll fixup mem first) moved = descPpi mem moved :=
      spaced.field_behind behind (by norm_num)
    rw [same]
    exact (spaced.entries moved (List.mem_append_right _ behind) other
      (List.mem_append_left _ member)).inner offset 4 inside

theorem relocateAll_snoc (fixup : Nat) (mem : Mem) (first : List Nat) (desc : Nat) :
    relocateAll fixup mem (first ++ [desc]) =
      fixupPpi (relocateAll fixup mem first) desc fixup := by
  simp [relocateAll]

theorem Spaced.pointers_relocateAll {first rest : List Nat} {desc : Nat}
    (spaced : Spaced fixup mem (first ++ [desc] ++ rest)) :
    descPpi (relocateAll fixup mem (first ++ [desc] ++ rest)) desc =
        u32 (descPpi mem desc + fixup) ∧
      descGuid (relocateAll fixup mem (first ++ [desc] ++ rest)) desc =
        u32 (descGuid mem desc + fixup) := by
  have member : desc ∈ first ++ [desc] := by simp
  have here : desc ∈ [desc] := List.mem_singleton_self desc
  have ppi : descPpi (relocateAll fixup mem first) desc = descPpi mem desc :=
    spaced.append_left.field_behind here (by norm_num)
  have guid : descGuid (relocateAll fixup mem first) desc = descGuid mem desc :=
    spaced.append_left.field_behind here (by norm_num)
  have entry : Apart (descPpi (relocateAll fixup mem first) desc + fixup) 4 desc 12 :=
    spaced.append_left.append_right.entries desc here desc here
  have ppiAfter : descPpi (relocateAll fixup mem (first ++ [desc] ++ rest)) desc =
      descPpi (relocateAll fixup mem (first ++ [desc])) desc :=
    spaced.field_before member (by norm_num)
  have guidAfter : descGuid (relocateAll fixup mem (first ++ [desc] ++ rest)) desc =
      descGuid (relocateAll fixup mem (first ++ [desc])) desc :=
    spaced.field_before member (by norm_num)
  rw [ppiAfter, guidAfter, relocateAll_snoc, descPpi_fixupPpi _ _ _ entry,
    descGuid_fixupPpi entry, ppi, guid]
  exact ⟨rfl, rfl⟩

theorem Spaced.entry_relocateAll {first rest : List Nat} {desc : Nat}
    (spaced : Spaced fixup mem (first ++ [desc] ++ rest))
    (own : ∀ moved, moved ∈ first ∨ moved ∈ rest →
      Apart (descPpi mem moved + fixup) 4 (descPpi mem desc + fixup) 4) :
    ppiEntry (relocateAll fixup mem (first ++ [desc] ++ rest)) (u32 (descPpi mem desc + fixup)) =
      u32 (ppiEntry mem (u32 (descPpi mem desc + fixup)) + fixup) := by
  have here : desc ∈ [desc] := List.mem_singleton_self desc
  have listed : desc ∈ first ++ [desc] ++ rest := by simp
  have ppi : descPpi (relocateAll fixup mem first) desc = descPpi mem desc :=
    spaced.append_left.field_behind here (by norm_num)
  have entry : Apart (descPpi (relocateAll fixup mem first) desc + fixup) 4 desc 12 :=
    spaced.append_left.append_right.entries desc here desc here
  have fields (moved : Nat) (member : moved ∈ first ++ [desc] ++ rest) :
      Apart (moved + 4) 8 (u32 (descPpi mem desc + fixup)) 4 :=
    (apart_entry (spaced.entries desc listed moved member) (by norm_num)).symm
  have others (moved : Nat) (member : moved ∈ first ∨ moved ∈ rest) :
      Apart (descPpi mem moved + fixup) 4 (u32 (descPpi mem desc + fixup)) 4 :=
    (apart_bus_left.mpr (own moved member).symm).symm
  have before : ppiEntry (relocateAll fixup mem first) (u32 (descPpi mem desc + fixup)) =
      ppiEntry mem (u32 (descPpi mem desc + fixup)) := by
    apply spaced.append_left.append_left.leAt_relocateAll
    · exact fun moved member => fields moved (by simp [member])
    · exact fun moved member => others moved (Or.inl member)
  have after : ppiEntry (relocateAll fixup mem (first ++ [desc] ++ rest))
        (u32 (descPpi mem desc + fixup)) =
      ppiEntry (relocateAll fixup mem (first ++ [desc])) (u32 (descPpi mem desc + fixup)) := by
    rw [relocateAll, List.foldl_append]
    apply spaced.append_right.leAt_relocateAll
    · exact fun moved member => fields moved (by simp [member])
    · intro moved member
      have same : descPpi (relocateAll fixup mem (first ++ [desc])) moved = descPpi mem moved :=
        spaced.field_behind member (by norm_num)
      exact same ▸ others moved (Or.inr member)
  have written := ppiEntry_fixupPpi entry
  rw [ppi] at written
  rw [after, relocateAll_snoc, written, before]

end All

/-! ## The memory after a successful call -/

/-- The descriptors from the first position-independent one on. -/
def fromFirstPic (mem : Mem) (list : List Nat) : List Nat :=
  list.dropWhile fun desc => !isPicPpi mem desc

section Success

variable {pcdBootFvBase desc fixup : Nat} {before : PeiState} {done : List Nat}
  {vars : InstallLoop}

structure Relocating (pcdBootFvBase fixup : Nat) (before : PeiState) (desc : Nat)
    (done : List Nat) (vars : InstallLoop) : Prop where
  installing : Installing pcdBootFvBase before desc done vars
  mem : vars.state.mem = relocateAll fixup before.mem (fromFirstPic before.mem done)

theorem Relocating.fixed {fuel applied : Nat} {rest : List Nat}
    (head : Relocating pcdBootFvBase fixup before desc done vars)
    (separate : Separate pcdBootFvBase before.mem (callList before desc) desc)
    (found : IsFixup pcdBootFvBase before.mem fixup) (nonzero : fixup ≠ 0)
    (split : callList before desc = done ++ vars.desc :: rest)
    (passFixup : PassFixup pcdBootFvBase fuel vars applied) :
    fixupPpi vars.state.mem vars.desc applied =
      relocateAll fixup before.mem (fromFirstPic before.mem (done ++ [vars.desc])) := by
  obtain ⟨inside, member⟩ := mem_of_split split
  have samePic : isPicPpi vars.state.mem vars.desc = isPicPpi before.mem vars.desc := by
    rw [isPicPpi, isPicPpi, head.installing.moved.flags_eq separate inside member]
  rcases head.installing.moved.fixup with ⟨zero, same, zeroFound⟩ | ⟨set_, setFound, pic⟩
  · have plain : fromFirstPic before.mem done = [] := by
      apply List.dropWhile_eq_nil_iff.mpr
      intro other otherDone
      cases flag : isPicPpi before.mem other with
      | false => rfl
      | true => exact absurd (found.unique (zeroFound other otherDone flag)) nonzero
    have snoc : fromFirstPic before.mem (done ++ [vars.desc]) =
        fromFirstPic before.mem [vars.desc] := by
      rw [fromFirstPic, List.dropWhile_append, ← fromFirstPic, plain]
      rfl
    rw [snoc, same]
    rcases passFixup with ⟨_, isPic, lookup⟩ | ⟨none, rfl⟩
    · have sameFixup : applied = fixup := by
        rw [same] at lookup
        exact (isFixup_of_calc lookup).unique found
      rw [samePic] at isPic
      simp [fromFirstPic, relocateAll, isPic, sameFixup]
    · have isPlain : isPicPpi before.mem vars.desc = false := by
        cases flag : isPicPpi before.mem vars.desc with
        | false => rfl
        | true => exact absurd ⟨zero, samePic.trans flag⟩ none
      rw [zero, fixupPpi_zero]
      simp [fromFirstPic, relocateAll, isPlain]
  · have some_ : fromFirstPic before.mem done ≠ [] := by
      intro empty
      obtain ⟨other, otherDone, flag, _⟩ := pic
      have plain := List.dropWhile_eq_nil_iff.mp empty other otherDone
      simp [flag] at plain
    have snoc : fromFirstPic before.mem (done ++ [vars.desc]) =
        fromFirstPic before.mem done ++ [vars.desc] := by
      rw [fromFirstPic, List.dropWhile_append, ← fromFirstPic, if_neg (by simpa using some_)]
    have sameFixup : vars.peimFixup = fixup := setFound.unique found
    rw [snoc, relocateAll_snoc, ← head.mem]
    rcases passFixup with ⟨zero, _⟩ | ⟨_, rfl⟩
    · exact absurd zero set_
    · rw [sameFixup]

theorem Relocating.pass (fuel : Nat)
    (head : Relocating pcdBootFvBase fixup before desc done vars)
    (separate : Separate pcdBootFvBase before.mem (callList before desc) desc)
    (small : before.ppiList.maxCount < 2 ^ 32)
    (found : IsFixup pcdBootFvBase before.mem fixup) (nonzero : fixup ≠ 0) :
    match installStep pcdBootFvBase fuel before.ppiList.currentCount vars with
    | .next after => Relocating pcdBootFvBase fixup before desc (done ++ [vars.desc]) after
    | .done none => True
    | .done (some (status, after)) => status = .success →
        after.mem = relocateAll fixup before.mem
          (fromFirstPic before.mem (callList before desc)) := by
  obtain ⟨left, leftEq⟩ : ∃ left, before.ppiList.maxCount - vars.idx = left + 1 :=
    ⟨before.ppiList.maxCount - vars.idx - 1, by have room := head.installing.head.room; omega⟩
  have split := head.installing.split
  rw [leftEq, descriptors_succ] at split
  obtain ⟨inside, member⟩ := mem_of_split split
  have installing := head.installing.pass fuel separate small
  rcases installStep_cases pcdBootFvBase fuel before.ppiList.currentCount vars with
    ⟨_, step⟩ | ⟨_, _, step⟩ | ⟨_, status, _, _, error, step⟩ | ⟨flag, applied, passFixup, step⟩
  · rw [step]
    intro success
    cases success
  · rw [step]
    trivial
  · rw [step]
    intro success
    exact absurd success error
  · rw [step] at installing ⊢
    have fixed := head.fixed separate found nonzero split passFixup
    have moved := head.installing.moved.pass separate split flag passFixup
    obtain ⟨pool, _, ends | full | next⟩ := acceptPpi_cases head.installing.head small applied
    · obtain ⟨terminated, accepted⟩ := ends
      rw [accepted]
      intro _
      have last : isLastPpi before.mem vars.desc = true := by
        rw [← terminated, isLastPpi, isLastPpi,
          moved.flags_eq separate (forall_mem_snoc inside member) member]
      rw [if_pos last] at split
      rw [split]
      exact fixed
    · rw [full.2.2]
      intro success
      cases success
    · obtain ⟨_, after, accepted, sameMem, _⟩ := next
      rw [accepted] at installing ⊢
      exact ⟨installing, sameMem.trans fixed⟩

/-- A successful call relocates the list from its first position-independent
descriptor on, and writes nothing else. -/
theorem mem_of_success {after : PeiState} (small : before.ppiList.maxCount < 2 ^ 32)
    (separate : Separate pcdBootFvBase before.mem (callList before desc) desc)
    (found : IsFixup pcdBootFvBase before.mem fixup) (nonzero : fixup ≠ 0)
    (returned : InstallPpiReturns pcdBootFvBase before desc .success after) :
    after.mem = relocateAll fixup before.mem
      (fromFirstPic before.mem (callList before desc)) := by
  rcases installPpi_pool returned small with ⟨_, given, room, _⟩ | failure
  · obtain ⟨fuel, finished⟩ := installLoop_of_returns returned given room
    refine returns_invariant
      (fun vars => ∃ done, Relocating pcdBootFvBase fixup before desc done vars)
      (fun result : Option (EfiStatus × PeiState) => ∀ after, result = some (.success, after) →
        after.mem = relocateAll fixup before.mem
          (fromFirstPic before.mem (callList before desc))) ?_ ?_ finished after rfl
    · intro vars head
      obtain ⟨done, head⟩ := head
      have pass := head.pass fuel separate small found nonzero
      cases outcome : installStep pcdBootFvBase fuel before.ppiList.currentCount vars with
      | next later =>
          rw [outcome] at pass
          exact ⟨_, pass⟩
      | done result =>
          rw [outcome] at pass
          intro after same
          subst same
          exact pass rfl
    · exact ⟨[], ⟨head_first desc room, Moved.nothing .., rfl⟩, rfl⟩
  · exact absurd rfl failure.1

end Success

/-! ## By the flag of each descriptor -/

/-- A descriptor has been treated as its own flag says. -/
structure TreatedByFlag (fixup : Nat) (before after : Mem) (desc : Nat) : Prop where
  pic : isPicPpi before desc = true →
    descPpi after desc = u32 (descPpi before desc + fixup) ∧
      descGuid after desc = u32 (descGuid before desc + fixup) ∧
      ppiEntry after (u32 (descPpi before desc + fixup)) =
        u32 (ppiEntry before (u32 (descPpi before desc + fixup)) + fixup)
  plain : isPicPpi before desc = false →
    descPpi after desc = descPpi before desc ∧ descGuid after desc = descGuid before desc ∧
      ppiEntry after (descPpi before desc) = ppiEntry before (descPpi before desc)

def interfaceAt (fixup : Nat) (mem : Mem) (desc : Nat) : Nat :=
  if isPicPpi mem desc then descPpi mem desc + fixup else descPpi mem desc

/-- An array of descriptors whose interfaces overlap neither one another nor the
descriptors. -/
structure SeparateInterfaces (fixup : Nat) (mem : Mem) (list : List Nat) (desc : Nat) : Prop where
  fits : ListFits list desc
  interfaces : list.Pairwise fun first second =>
    Apart (interfaceAt fixup mem first) 4 (interfaceAt fixup mem second) 4
  descs : ∀ first ∈ list, ∀ other ∈ list, Apart (interfaceAt fixup mem first) 4 other 12

def WritesApart (fixup : Nat) (mem : Mem) (list : List Nat) : Prop :=
  ∀ moved ∈ fromFirstPic mem list, ∀ other ∈ list, Apart (descPpi mem moved + fixup) 4 other 12

theorem split_at_pic (mem : Mem) (list : List Nat) :
    ∃ plain, list = plain ++ fromFirstPic mem list ∧
      ∀ desc ∈ plain, isPicPpi mem desc = false := by
  refine ⟨list.takeWhile fun desc => !isPicPpi mem desc,
    List.takeWhile_append_dropWhile.symm, ?_⟩
  intro desc member
  simpa using List.mem_takeWhile_imp member

section Flags

variable {pcdBootFvBase desc fixup : Nat} {before : PeiState}

theorem relocated_subset_fromFirstPic (mem : Mem) (list : List Nat) :
    ∀ moved ∈ relocated mem list, moved ∈ fromFirstPic mem list := by
  intro moved member
  have whole : list.takeWhile (hasPpiFlag mem) ++ list.dropWhile (hasPpiFlag mem) = list :=
    List.takeWhile_append_dropWhile
  have some_ : (relocated mem list).isEmpty = false := by
    rw [List.isEmpty_eq_false_iff]
    exact List.ne_nil_of_mem member
  rw [relocated] at some_
  rw [fromFirstPic, ← whole, List.dropWhile_append, some_]
  exact List.mem_append_left _ member

theorem WritesApart.separate (apart : WritesApart fixup before.mem (callList before desc))
    (fits : ListFits (callList before desc) desc)
    (found : IsFixup pcdBootFvBase before.mem fixup) :
    Separate pcdBootFvBase before.mem (callList before desc) desc := by
  intro other otherFound _ moved member
  cases otherFound.unique found
  exact ⟨fits, apart moved (relocated_subset_fromFirstPic _ _ moved member)⟩

theorem WritesApart.spaced (apart : WritesApart fixup before.mem (callList before desc))
    (fits : ListFits (callList before desc) desc) :
    Spaced fixup before.mem (fromFirstPic before.mem (callList before desc)) := by
  have sub : (fromFirstPic before.mem (callList before desc)).Sublist (callList before desc) :=
    List.dropWhile_sublist _
  refine ⟨(descriptors_apart fits).sublist sub, ?_⟩
  intro moved movedMember other otherMember
  exact apart moved movedMember other (sub.subset otherMember)

theorem SeparateInterfaces.writes
    (apart : SeparateInterfaces fixup before.mem (callList before desc) desc)
    (allPic : ∀ moved ∈ fromFirstPic before.mem (callList before desc),
      isPicPpi before.mem moved = true) :
    WritesApart fixup before.mem (callList before desc) := by
  intro moved member other otherMember
  have sub : (fromFirstPic before.mem (callList before desc)).Sublist (callList before desc) :=
    List.dropWhile_sublist _
  have entry := apart.descs moved (sub.subset member) other otherMember
  rwa [interfaceAt, if_pos (allPic moved member)] at entry

theorem treated_plain {plain : List Nat} {current : Nat}
    (apart : SeparateInterfaces fixup before.mem (callList before desc) desc)
    (split : callList before desc = plain ++ fromFirstPic before.mem (callList before desc))
    (member : current ∈ plain) (isPlain : isPicPpi before.mem current = false)
    (allPic : ∀ moved ∈ fromFirstPic before.mem (callList before desc),
      isPicPpi before.mem moved = true) :
    TreatedByFlag fixup before.mem
      (relocateAll fixup before.mem (fromFirstPic before.mem (callList before desc))) current := by
  have writes := apart.writes allPic
  have spaced := writes.spaced apart.fits
  have descs := descriptors_apart apart.fits
  have interfaces := apart.interfaces
  have listed : current ∈ callList before desc := by
    rw [split]
    exact List.mem_append_left _ member
  have behind (moved : Nat) (inside : moved ∈ fromFirstPic before.mem (callList before desc)) :
      moved ∈ callList before desc := by
    rw [split]
    exact List.mem_append_right _ inside
  rw [← callList, split] at descs
  rw [split] at interfaces
  unfold WritesApart at writes
  generalize fromFirstPic before.mem (callList before desc) = moves at *
  have field (offset : Nat) (inside : offset + 4 ≤ 12) :
      leAt (relocateAll fixup before.mem moves) (current + offset) 4 =
        leAt before.mem (current + offset) 4 := by
    apply spaced.leAt_relocateAll
    · intro moved isMoved
      have other := (List.pairwise_append.mp descs).2.2 current member moved isMoved
      exact apart_pointers other.symm inside
    · intro moved isMoved
      exact (writes moved isMoved current listed).inner offset 4 inside
  have here : interfaceAt fixup before.mem current = descPpi before.mem current :=
    if_neg (by simp [isPlain])
  refine ⟨fun pic => absurd (isPlain.symm.trans pic) (by decide), fun _ => ⟨field 8 (by norm_num),
    field 4 (by norm_num), ?_⟩⟩
  apply spaced.leAt_relocateAll
  · intro moved isMoved
    have desc := apart.descs current listed moved (behind moved isMoved)
    rw [here] at desc
    exact (desc.inner 4 8 (by norm_num)).symm
  · intro moved isMoved
    have other := (List.pairwise_append.mp interfaces).2.2 current member moved isMoved
    rw [here, interfaceAt, if_pos (allPic moved isMoved)] at other
    exact other.symm

theorem treated_pic {current : Nat}
    (apart : SeparateInterfaces fixup before.mem (callList before desc) desc)
    (member : current ∈ fromFirstPic before.mem (callList before desc))
    (allPic : ∀ moved ∈ fromFirstPic before.mem (callList before desc),
      isPicPpi before.mem moved = true) :
    TreatedByFlag fixup before.mem
      (relocateAll fixup before.mem (fromFirstPic before.mem (callList before desc))) current := by
  have spaced := (apart.writes allPic).spaced apart.fits
  have isPic := allPic current member
  have interfaces : (fromFirstPic before.mem (callList before desc)).Pairwise
      fun first second => Apart (interfaceAt fixup before.mem first) 4
        (interfaceAt fixup before.mem second) 4 :=
    apart.interfaces.sublist (List.dropWhile_sublist _)
  generalize fromFirstPic before.mem (callList before desc) = moves at *
  obtain ⟨first, rest, split⟩ := List.append_of_mem member
  have shape : moves = first ++ [current] ++ rest := by simp [split]
  rw [shape] at spaced interfaces allPic ⊢
  have moved (other : Nat) (inside : other ∈ first ++ [current] ++ rest) :
      interfaceAt fixup before.mem other = descPpi before.mem other + fixup :=
    if_pos (allPic other inside)
  have own : ∀ other, other ∈ first ∨ other ∈ rest →
      Apart (descPpi before.mem other + fixup) 4 (descPpi before.mem current + fixup) 4 := by
    obtain ⟨early, _, late⟩ := List.pairwise_append.mp interfaces
    intro other either
    have listed : other ∈ first ++ [current] ++ rest := by
      rcases either with before_ | behind
      · simp [before_]
      · simp [behind]
    rw [← moved other listed, ← moved current (by simp)]
    rcases either with before_ | behind
    · exact (List.pairwise_append.mp early).2.2 other before_ current
        (List.mem_singleton_self current)
    · exact (late current (by simp) other behind).symm
  obtain ⟨ppi, guid⟩ := spaced.pointers_relocateAll
  exact ⟨fun _ => ⟨ppi, guid, spaced.entry_relocateAll own⟩,
    fun plain => absurd (plain.symm.trans isPic) (by decide)⟩

end Flags

/-- Every descriptor is treated by its own flag if no plain one comes after a
position-independent one, and, for a list that the call's own writes do not
overlap, only then. -/
theorem relocated_by_flag_iff (pcdBootFvBase desc fixup : Nat) (before after : PeiState)
    (small : before.ppiList.maxCount < 2 ^ 32)
    (found : IsFixup pcdBootFvBase before.mem fixup) (nonzero : fixup ≠ 0)
    (apart : SeparateInterfaces fixup before.mem (callList before desc) desc)
    (returned : InstallPpiReturns pcdBootFvBase before desc .success after) :
    ((∀ current ∈ fromFirstPic before.mem (callList before desc),
        isPicPpi before.mem current = true) →
      ∀ current ∈ callList before desc, TreatedByFlag fixup before.mem after.mem current) ∧
    (WritesApart fixup before.mem (callList before desc) →
      (∀ current ∈ callList before desc, TreatedByFlag fixup before.mem after.mem current) →
      ∀ current ∈ fromFirstPic before.mem (callList before desc),
        isPicPpi before.mem current = true) := by
  obtain ⟨plain, split, plainFlags⟩ := split_at_pic before.mem (callList before desc)
  constructor
  · intro allPic current member
    have separate := (apart.writes allPic).separate apart.fits found
    rw [mem_of_success small separate found nonzero returned]
    rw [split] at member
    rcases List.mem_append.mp member with before_ | behind
    · exact treated_plain apart split before_ (plainFlags current before_) allPic
    · exact treated_pic apart behind allPic
  · intro writes treated current member
    have spaced := writes.spaced apart.fits
    cases flag : isPicPpi before.mem current with
    | true => rfl
    | false =>
        have listed : current ∈ callList before desc := by
          rw [split]
          exact List.mem_append_right _ member
        have kept := ((treated current listed).plain flag).1
        rw [mem_of_success small (writes.separate apart.fits found) found nonzero returned]
          at kept
        obtain ⟨first, rest, moves⟩ := List.append_of_mem member
        have shape : fromFirstPic before.mem (callList before desc) =
            first ++ [current] ++ rest := by simp [moves]
        rw [shape] at spaced kept
        rw [spaced.pointers_relocateAll.1] at kept
        exact absurd kept (u32_add_ne fixup _ found.lt nonzero)

/-- A list of a position-independent PPI and a plain one that ends it, with the
boot volume whose fixup section is at 0x1060. -/
def mixedMem : Mem :=
  fun addr =>
    if 0x2000 ≤ addr then
      place 0x2000 ([0x11, 0, 0, 0, 0, 0x30, 0, 0, 0x20, 0x30, 0, 0] ++
        [0x10, 0, 0, 0x80, 0x40, 0x30, 0, 0, 0x60, 0x30, 0, 0]) addr
    else halfGoodMem addr

def mixed : PeiState := ⟨mixedMem, ⟨0, 256, fun _ => 0⟩⟩

theorem mixed_list : callList mixed 0x2000 = [0x2000, 0x200c] := by decide +kernel

theorem mixed_fixup : IsFixup 0x1000 mixed.mem 0x1060 :=
  ⟨0x1060, ⟨.success, 183⟩, ⟨9, by decide +kernel⟩, rfl, rfl⟩

theorem mixed_separate :
    SeparateInterfaces 0x1060 mixed.mem (callList mixed 0x2000) 0x2000 := by
  rw [mixed_list]
  refine ⟨by unfold ListFits; decide, ?_, ?_⟩
  · unfold Apart
    decide +kernel
  · unfold Apart
    decide +kernel

theorem mixed_installed :
    ∃ after, InstallPpiReturns 0x1000 mixed 0x2000 .success after ∧
      descPpi after.mem 0x200c = 0x40c0 := by
  have evaluated : (peiInstallPpi 0x1000 mixed 0x2000 9).map
      (fun result => (result.1, descPpi result.2.mem 0x200c)) = some (.success, 0x40c0) := by
    decide +kernel
  obtain ⟨⟨status, after⟩, returned, same⟩ := Option.map_eq_some_iff.mp evaluated
  simp only [Prod.mk.injEq] at same
  obtain ⟨rfl, moved⟩ := same
  exact ⟨after, ⟨9, returned⟩, moved⟩

theorem relocated_by_flag_iff_mixed :
    ∃ after, InstallPpiReturns 0x1000 mixed 0x2000 .success after ∧
      ((∀ current ∈ fromFirstPic mixed.mem (callList mixed 0x2000),
          isPicPpi mixed.mem current = true) →
        ∀ current ∈ callList mixed 0x2000, TreatedByFlag 0x1060 mixed.mem after.mem current) ∧
      (WritesApart 0x1060 mixed.mem (callList mixed 0x2000) →
        (∀ current ∈ callList mixed 0x2000, TreatedByFlag 0x1060 mixed.mem after.mem current) →
        ∀ current ∈ fromFirstPic mixed.mem (callList mixed 0x2000),
          isPicPpi mixed.mem current = true) := by
  obtain ⟨after, returned, _⟩ := mixed_installed
  exact ⟨after, returned, relocated_by_flag_iff 0x1000 0x2000 0x1060 mixed after (by decide)
    mixed_fixup (by decide) mixed_separate returned⟩

theorem plain_descriptor_relocated :
    ∃ after, InstallPpiReturns 0x1000 mixed 0x2000 .success after ∧
      IsFixup 0x1000 mixed.mem 0x1060 ∧
      SeparateInterfaces 0x1060 mixed.mem (callList mixed 0x2000) 0x2000 ∧
      0x200c ∈ callList mixed 0x2000 ∧ isPicPpi mixed.mem 0x200c = false ∧
      descPpi mixed.mem 0x200c = 0x3060 ∧ descPpi after.mem 0x200c = 0x40c0 ∧
      ¬ ∀ current ∈ callList mixed 0x2000, TreatedByFlag 0x1060 mixed.mem after.mem current := by
  obtain ⟨after, returned, moved⟩ := mixed_installed
  have listed : 0x200c ∈ callList mixed 0x2000 := by simp [mixed_list]
  have plain : isPicPpi mixed.mem 0x200c = false := by decide +kernel
  have original : descPpi mixed.mem 0x200c = 0x3060 := by decide +kernel
  refine ⟨after, returned, mixed_fixup, mixed_separate, listed, plain, original, moved, ?_⟩
  intro treated
  have kept := ((treated 0x200c listed).plain plain).1
  rw [moved, original] at kept
  cases kept

end ArcFirmware.PpiRelocation
