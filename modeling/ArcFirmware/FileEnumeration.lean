import ArcFirmware.FfsVolume

/-!
# Enumerating the files of a volume

Repeated calls of `PeiFfsFindNextFile`, each with the handle that the last one
returned and with its own contents of the uninitialised local.  A call that is
given a handle computes its start from that local, so only an enumeration that
ends with its first call is a function of the volume.
-/

set_option autoImplicit false

namespace ArcFirmware.FileEnumeration

open ArcFirmware.Memory ArcFirmware.Loop ArcFirmware.Layout ArcFirmware.Edk2
  ArcFirmware.UtilsLib ArcFirmware.PeiServices ArcFirmware.FileChain ArcFirmware.FfsVolume

/-- From a handle on, the calls return the listed handles one after the other and
then `EFI_NOT_FOUND` with the handle unchanged, whatever the stack holds. -/
def YieldsExactly (mem : Mem) (type : UInt8) (fvHandle : Nat) : Nat → List Nat → Prop
  | handle, [] => ∀ stackAddr < 2 ^ 64, ∀ status after,
      FindNextFileReturns mem stackAddr type fvHandle handle status after ↔
        status = .notFound ∧ after = handle
  | handle, next :: rest => (∀ stackAddr < 2 ^ 64, ∀ status after,
      FindNextFileReturns mem stackAddr type fvHandle handle status after ↔
        status = .success ∧ after = next) ∧ YieldsExactly mem type fvHandle next rest

def filesOfType (volume : Volume) (type : UInt8) : List (Nat × FileHdr) :=
  volume.entries.filter fun entry => entry.2.type = type

section Enumeration

variable {mem : Mem} {volume : Volume} {type : UInt8}

theorem filesOfType_ascending (volume : Volume) (type : UInt8) :
    ((filesOfType volume type).map Prod.fst).Pairwise (· < ·) := by
  rw [List.pairwise_map]
  have packed : volume.entries.Pairwise fun first second =>
      first.1 + first.2.size ≤ second.1 := starts_pairwise (by norm_num) volume.files volume.first
  apply (packed.filter _).imp
  intro first second ordered
  have large := first.2.size_ge
  omega

theorem matches_none_iff (file : FileHdr) : file.Matches type none ↔ file.type = type := by
  simp [FileHdr.Matches]

theorem firstMatch_eq_head (volume : Volume) (type : UInt8) :
    firstMatch volume.first volume.files type none = (filesOfType volume type).head? := by
  rw [filesOfType, List.head?_filter, firstMatch, Volume.entries]
  congr 1
  funext entry
  simp only [matches_none_iff]

/-- With the local one file length behind the handle, the call examines the same
file again. -/
theorem resume_repeats (present : VolumeAt mem volume) (mapped : volume.base ≠ null)
    {entry : Nat × FileHdr} (member : entry ∈ filesOfType volume type) :
    ∃ stackAddr < 2 ^ 64,
      FindNextFileReturns mem stackAddr type volume.base entry.1 .success entry.1 := by
  obtain ⟨listed, typed⟩ := List.mem_filter.mp member
  obtain ⟨_, sameType, size⟩ := present.files entry listed
  have low := (starts_bounds (by norm_num) volume.files volume.first entry listed).1
  have high : entry.1 + entry.2.size ≤ volume.eov := volume.fits entry listed
  have aligned := starts_aligned volume.files volume.first volume.first_aligned entry listed
  have before := volume.header_before
  have below := volume.eov_le
  have large := entry.2.size_ge
  have small := entry.2.size_lt
  refine ⟨u64 (entry.1 + 2 ^ 64 - entry.2.size), Nat.mod_lt _ (by norm_num), ?_⟩
  have landed : alignAddr (u64 (u64 (entry.1 + 2 ^ 64 - entry.2.size) +
      fileSize mem entry.1)) 8 = entry.1 := by
    have back : u64 (u64 (entry.1 + 2 ^ 64 - entry.2.size) + fileSize mem entry.1) = entry.1 := by
      rw [size]
      unfold u64
      omega
    rw [back, alignAddr_eq_roundUp (by omega), roundUp_of_dvd (by norm_num) aligned]
  have selected : Selects mem type none entry.1 := by
    simp [Selects, sameType, of_decide_eq_true typed]
  have step : getFileSectionStep mem type none volume.eov entry.1 =
      .done (.found entry.1 (entry.1 + entry.2.size)) := by
    rw [getFileSectionStep_below below (by omega), size, if_neg (by omega), if_pos selected]
  rw [findNextFileReturns_iff _ _ _ _ _ _ _ mapped, present.endOfVolume_eq,
    if_neg (show entry.1 ≠ null by unfold null; omega), landed]
  exact ⟨_, returns_done step, rfl, rfl⟩

theorem first_call_notFound (present : VolumeAt mem volume) (mapped : volume.base ≠ null)
    (filled : volume.free = volume.eov) (absent : filesOfType volume type = [])
    (stackAddr : Nat) (status : EfiStatus) (after : Nat) :
    FindNextFileReturns mem stackAddr type volume.base null status after ↔
      status = .notFound ∧ after = null := by
  have walk := present.walk type none
  rw [firstMatch_eq_head, absent] at walk
  have ends : Returns (getFileSectionStep mem type none (endOfVolume mem volume.base))
      (firstFile mem volume.base) (.fail ⟨.notFound, 241⟩) := by
    rw [walk.returns_iff, present.endOfVolume_eq, filled]
    exact returns_done (getFileSectionStep_past le_rfl)
  exact findNextFileReturns_of_returns mapped status after ends

end Enumeration

/-- Over a volume that its files fill, the calls enumerate the files of a type
independently of the stack exactly when there are none. -/
theorem yieldsExactly_iff (mem : Mem) (volume : Volume) (type : UInt8)
    (present : VolumeAt mem volume) (filled : volume.free = volume.eov)
    (mapped : volume.base ≠ null) :
    YieldsExactly mem type volume.base null ((filesOfType volume type).map Prod.fst) ↔
      ∀ entry ∈ volume.entries, entry.2.type ≠ type := by
  have absent : filesOfType volume type = [] ↔ ∀ entry ∈ volume.entries, entry.2.type ≠ type := by
    simp [filesOfType, List.filter_eq_nil_iff]
  rw [← absent]
  constructor
  · intro yields
    cases listed : filesOfType volume type with
    | nil => rfl
    | cons entry rest =>
        have ascending := filesOfType_ascending volume type
        rw [listed] at yields ascending
        have later := yields.2
        have member : entry ∈ filesOfType volume type := by
          rw [listed]
          exact List.mem_cons_self ..
        obtain ⟨stackAddr, narrow, again⟩ := resume_repeats present mapped member
        cases rest with
        | nil =>
            have ended := (later stackAddr narrow .success entry.1).mp again
            cases ended.1
        | cons next rest =>
            have moved := (later.1 stackAddr narrow .success entry.1).mp again
            have ordered : entry.1 < next.1 :=
              (List.pairwise_cons.mp ascending).1 next.1 (List.mem_cons_self ..)
            omega
  · intro none
    rw [none]
    intro stackAddr _ status after
    exact first_call_notFound present mapped filled none stackAddr status after

def filledFlash : Mem :=
  place 0x1000 (List.replicate 32 0 ++ [0x60, 0, 0, 0, 0, 0, 0, 0, 0x5f, 0x46, 0x56, 0x48] ++
    [0, 0, 0, 0, 0x48, 0] ++ List.replicate 40 0 ++ [0x06, 0, 0x18, 0, 0, 0])

def filledVolume : Volume where
  base := 0x1000
  headerLength := 72
  length := 96
  files := peimVolume.files
  aligned := peimVolume.aligned
  header_ge := peimVolume.header_ge
  header_lt := peimVolume.header_lt
  header_le := by decide
  below := by decide
  fits := by decide

theorem filledVolume_at : VolumeAt filledFlash filledVolume := by
  refine ⟨by decide, by decide, ?_, ?_⟩
  · intro entry member
    cases List.mem_singleton.mp member
    exact ⟨(compareGuids_iff _ _).mp (by decide), by decide, by decide⟩
  · intro addr low high
    have filled : filledVolume.free = filledVolume.eov := by decide
    omega

theorem yieldsExactly_iff_filledVolume :
    YieldsExactly filledFlash efiFvFiletypePeim 0x1000 null
        ((filesOfType filledVolume efiFvFiletypePeim).map Prod.fst) ↔
      ∀ entry ∈ filledVolume.entries, entry.2.type ≠ efiFvFiletypePeim :=
  yieldsExactly_iff filledFlash filledVolume efiFvFiletypePeim filledVolume_at (by decide)
    (by decide)

/-- The second call reports the only PEIM once more or its end, as the stack has it. -/
theorem second_call_depends_on_stack :
    (filesOfType filledVolume efiFvFiletypePeim).map Prod.fst = [0x1048] ∧
      FindNextFileReturns filledFlash 0 efiFvFiletypePeim 0x1000 null .success 0x1048 ∧
      FindNextFileReturns filledFlash 0x1030 efiFvFiletypePeim 0x1000 0x1048 .success 0x1048 ∧
      FindNextFileReturns filledFlash 0x1048 efiFvFiletypePeim 0x1000 0x1048 .notFound 0x1048 ∧
      ¬ YieldsExactly filledFlash efiFvFiletypePeim 0x1000 null [0x1048] := by
  have again : FindNextFileReturns filledFlash 0x1030 efiFvFiletypePeim 0x1000 0x1048 .success
      0x1048 := ⟨1, by decide⟩
  refine ⟨by decide, ⟨1, by decide⟩, again, ⟨1, by decide⟩, ?_⟩
  intro yields
  have ended := (yields.2 0x1030 (by norm_num) .success 0x1048).mp again
  cases ended.1

end ArcFirmware.FileEnumeration
