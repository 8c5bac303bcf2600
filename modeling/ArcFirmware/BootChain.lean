import ArcFirmware.DxeIplMain
import ArcFirmware.PpiRelocation
import ArcFirmware.ReadBounds

/-!
# From reset to the DXE core

The modules of the flash image put together: SEC enters the PEI core, the core
calls `DxeIplInit`, the dispatch calls `DxeIplMain` at its relocated entry, and
that computes the entry point of the DXE core.  The only writes on the way are
the relocations of the PPI, so the DXE volume is found as it was flashed.
-/

set_option autoImplicit false

namespace ArcFirmware.BootChain

open ArcFirmware.Memory ArcFirmware.Loop ArcFirmware.Layout ArcFirmware.Reader ArcFirmware.Edk2
  ArcFirmware.UtilsLib ArcFirmware.FileChain ArcFirmware.FfsVolume ArcFirmware.ReadBounds
  ArcFirmware.PeiCoreMain ArcFirmware.PeiServices ArcFirmware.PpiServices ArcFirmware.PpiInstall
  ArcFirmware.PpiDatabase ArcFirmware.PpiRelocation ArcFirmware.DispatchPeims ArcFirmware.PeiPhase
  ArcFirmware.DxeIpl ArcFirmware.DxeIplMain ArcFirmware.SecMain ArcFirmware.BootDecision
  ArcFirmware.EntryPoints

/-! ## Memories with the same volume -/

section Frame

variable {left right : Mem} {volume : Volume}

/-- The bytes of a volume, and as many after it as a header at its end takes. -/
def NearVolume (volume : Volume) (addr : Nat) : Prop :=
  volume.base ≤ addr ∧ addr < volume.eov + 4

theorem near_of_range {addr : Nat} (top : volume.eov + 4 ≤ 2 ^ 32) (low : volume.base ≤ addr)
    (high : addr < volume.eov + 4) : NearVolume volume (bus addr) := by
  rw [bus_of_lt (by omega)]
  exact ⟨low, high⟩

theorem leAt_near (top : volume.eov + 4 ≤ 2 ^ 32) (agree : AgreeOn (NearVolume volume) left right)
    {addr count : Nat} (low : volume.base ≤ addr) (high : addr + count ≤ volume.eov + 4) :
    leAt left addr count = leAt right addr count :=
  leAt_congr left right addr addr count fun i bound =>
    agree (addr + i) (near_of_range top (by omega) (by omega))

theorem volumeAt_congr (top : volume.eov + 4 ≤ 2 ^ 32)
    (agree : AgreeOn (NearVolume volume) left right) (present : VolumeAt left volume) :
    VolumeAt right volume := by
  have before := volume.header_before
  have below := volume.header_below
  have byte {addr : Nat} (low : volume.base ≤ addr) (high : addr < volume.eov + 4) :
      byteAt right addr = byteAt left addr := (agree addr (near_of_range top low high)).symm
  refine ⟨?_, ?_, ?_, ?_⟩
  · rw [← present.length]
    exact (leAt_near top agree (by omega) (by omega)).symm
  · rw [← present.header]
    exact (leAt_near top agree (by omega) (by omega)).symm
  · intro entry member
    obtain ⟨sameName, sameType, size⟩ := present.files entry member
    have low := (starts_bounds (by norm_num) volume.files volume.first entry member).1
    have high : entry.1 + entry.2.size ≤ volume.eov := volume.fits entry member
    have large := entry.2.size_ge
    refine ⟨?_, ?_, ?_⟩
    · rw [← sameName]
      apply guidAt_congr
      intro i bound
      exact byte (by omega) (by omega)
    · rw [← sameType]
      exact byte (by omega) (by omega)
    · rw [← size]
      exact (leAt_near top agree (by omega) (by omega)).symm
  · intro addr low high
    have start : volume.first ≤ volume.free :=
      le_cursor (by norm_num) volume.files volume.first
    rw [byte (by omega) (by omega)]
    exact present.erased addr low high

structure HeadersInside (mem : Mem) (volume : Volume) (pe32Data : Nat) : Prop where
  dosLow : volume.base ≤ pe32Data
  dosHigh : pe32Data + sizeofDosHeader ≤ volume.eov
  ntLow : volume.base ≤ pe32Hdr mem pe32Data
  ntHigh : pe32Hdr mem pe32Data + sizeofNtHeaders32 ≤ volume.eov

theorem loadPe32_congr (top : volume.eov + 4 ≤ 2 ^ 32)
    (agree : AgreeOn (NearVolume volume) left right) {pe32Data : Nat}
    (inside : HeadersInside left volume pe32Data) :
    peiLoadPe32 left pe32Data = peiLoadPe32 right pe32Data := by
  obtain ⟨dosLow, dosHigh, ntLow, ntHigh⟩ := inside
  unfold sizeofDosHeader at dosHigh
  unfold sizeofNtHeaders32 at ntHigh
  have lfanew : dosLfanew left pe32Data = dosLfanew right pe32Data :=
    leAt_near top agree (by omega) (by omega)
  have header : pe32Hdr left pe32Data = pe32Hdr right pe32Data := by
    rw [pe32Hdr, pe32Hdr, lfanew]
  have magic : dosMagic left pe32Data = dosMagic right pe32Data :=
    leAt_near top agree (by omega) (by omega)
  have signature : ntSignature left (pe32Hdr left pe32Data) =
      ntSignature right (pe32Hdr left pe32Data) := leAt_near top agree (by omega) (by omega)
  have optional : ntMagic left (pe32Hdr left pe32Data) = ntMagic right (pe32Hdr left pe32Data) :=
    leAt_near top agree (by omega) (by omega)
  have entry : ntAddressOfEntryPoint left (pe32Hdr left pe32Data) =
      ntAddressOfEntryPoint right (pe32Hdr left pe32Data) :=
    leAt_near top agree (by omega) (by omega)
  have size : ntSizeOfImage left (pe32Hdr left pe32Data) =
      ntSizeOfImage right (pe32Hdr left pe32Data) := leAt_near top agree (by omega) (by omega)
  unfold peiLoadPe32
  rw [← header, magic, signature, optional, entry, size]

theorem findSection_congr (top : volume.eov + 4 ≤ 2 ^ 32)
    (agree : AgreeOn (NearVolume volume) left right) {file eof : Nat} (low : volume.base ≤ file)
    (high : file + sizeofFileHeader ≤ eof) (fits : eof ≤ volume.eov) (type : UInt8) (fuel : Nat) :
    findSection left type (u32 (file + sizeofFileHeader)) eof fuel =
      findSection right type (u32 (file + sizeofFileHeader)) eof fuel := by
  have small : u32 (file + sizeofFileHeader) = file + sizeofFileHeader :=
    Nat.mod_eq_of_lt (by omega)
  refine run_congr_of_reads left right (findSectionBody type eof) ?_ fuel
  intro addr reached target fetched
  rw [alignAddr_u32_four, small] at reached
  have start := ((reaches_iff_sectionScanned (by omega)).mp reached).start_le
  have aligned := le_roundUp (by norm_num : 0 < 4) (file + sizeofFileHeader)
  obtain ⟨inside, byte⟩ := mem_reads_findSectionBody fetched (by omega)
  have header : ∃ i < 4, target = bus (addr + i) := by
    rcases byte with ⟨i, bound, same⟩ | ⟨same, _⟩
    · exact ⟨i, by omega, same⟩
    · exact ⟨3, by omega, same⟩
  obtain ⟨i, bound, rfl⟩ := header
  exact agree (addr + i) (near_of_range top (by omega) (by omega))

theorem loadFile_congr (top : volume.eov + 4 ≤ 2 ^ 32)
    (agree : AgreeOn (NearVolume volume) left right) {file header : Nat} {image : LoadedImage}
    (low : volume.base ≤ file) (high : sizeofFileHeader ≤ fileSize left file)
    (fits : file + fileSize left file ≤ volume.eov)
    (found : FindSectionDataReturns left efiSectionPe32 file .success header)
    (inside : HeadersInside left volume (u32 (header + sizeofSectionHeader)))
    (loads : peiLoadPe32 left (u32 (header + sizeofSectionHeader)) = (.success, some image)) :
    LoadFileReturns right file true .success (some image) := by
  obtain ⟨fuel, found⟩ := found
  have field : sizeofFileHeader = 24 := rfl
  have size : fileSize left file = fileSize right file :=
    leAt_near top agree (by omega) (by omega)
  have eof : u64 (file + fileSize left file) = file + fileSize left file :=
    Nat.mod_eq_of_lt (by omega)
  have sections := findSection_congr top agree low (Nat.add_le_add_left high file) fits
    efiSectionPe32 fuel
  have data : peiFfsFindSectionData right efiSectionPe32 file true fuel =
      some (.success, some header) := by
    rw [← found]
    unfold peiFfsFindSectionData
    simp only [← size, eof, sections]
  refine ⟨fuel, ?_⟩
  unfold peiLoadFile
  simp only [data, Bool.true_eq_false, if_false, ne_eq, not_true_eq_false, Option.getD_some]
  rw [← loadPe32_congr top agree inside, loads]

end Frame

/-! ## The DXE IPL in the PEI phase -/

def dxeIplPpiFlags : Nat := ppiDescriptorPpi + ppiDescriptorPic + ppiDescriptorTerminateList

/-- The PEIM of the image: init is `DxeIplInit`, the PPI's function `DxeIplMain`,
which changes nothing in memory. -/
def dxeIplModules (pcdBootFvBase desc fuel : Nat) : PeiModules pcdBootFvBase where
  call _ state := state
  installs _ _ := []
  runs _ _ := .entered
  init _ := stateOf pcdBootFvBase desc fuel
  initInstalls _ := installOf pcdBootFvBase desc fuel
  initRuns _ := entryRun_stateOf pcdBootFvBase desc fuel

theorem dxeIplModules_init {pcdBootFvBase desc fuel : Nat} {state after : PeiState}
    {status : EfiStatus} (called : dxeIplInit pcdBootFvBase state desc fuel = some (status, after))
    (entry : Nat) : (dxeIplModules pcdBootFvBase desc fuel).init entry state = after := by
  change stateOf pcdBootFvBase desc fuel state = after
  rw [stateOf, show peiInstallPpi pcdBootFvBase state desc fuel = some (status, after) from called]

section Phase

variable {pcdBootFvBase desc fixup : Nat} {flash : Mem}

/-- The list in flash, and where the image that it belongs to lies. -/
structure IplListAt (pcdBootFvBase : Nat) (flash : Mem) (desc fixup : Nat) : Prop where
  real : desc ≠ null
  flags : descFlags flash desc = dxeIplPpiFlags
  relocation : IsFixup pcdBootFvBase flash fixup
  apart : Apart (descPpi flash desc + fixup) 4 desc 12

def iplState (flash : Mem) (desc fixup : Nat) : PeiState :=
  ⟨fixupPpi flash desc fixup, ⟨1, 256, Function.update (fun _ => 0) 0 desc⟩⟩

theorem IplListAt.flags_kept (list : IplListAt pcdBootFvBase flash desc fixup) :
    descFlags (fixupPpi flash desc fixup) desc = dxeIplPpiFlags := by
  rw [← list.flags]
  refine leAt_congr _ _ desc desc 4 fun i bound => byteAt_fixupPpi _ _ _ _ ?_ ?_
  · intro j small same
    unfold bus at same
    omega
  · intro j small
    exact list.apart j small i (by omega)

theorem IplListAt.install (list : IplListAt pcdBootFvBase flash desc fixup) :
    ∃ fuel, ∀ more, fuel ≤ more → peiInstallPpi pcdBootFvBase (coldState flash) desc more =
      some (.success, iplState flash desc fixup) := by
  obtain ⟨ptr, info, ⟨fuel, found⟩, success, rfl⟩ := list.relocation
  refine ⟨fuel + 1, fun more enough => ?_⟩
  have kept := list.flags_kept
  have lookup : calcPeimFixup flash pcdBootFvBase more = some (u32 ptr, .success) := by
    rw [calcPeimFixup, getFileSection_mono found (by omega), ← success]
    rfl
  have given : hasPpiFlag flash desc = true := by rw [hasPpiFlag, list.flags]; decide
  have pic : isPicPpi flash desc = true := by rw [isPicPpi, list.flags]; decide
  have last : isLastPpi (fixupPpi flash desc (u32 ptr)) desc = true := by
    rw [isLastPpi, kept]
    decide
  have step : installStep pcdBootFvBase more 0 ⟨coldState flash, desc, 0, 0⟩ =
      .done (some (.success, iplState flash desc (u32 ptr))) := by
    simp only [installStep, coldState, given, Bool.true_eq_false, if_false, pic, and_self, if_true,
      lookup, ne_eq, not_true_eq_false, acceptPpi, PpiList.push, Function.update_self, last]
    rfl
  obtain ⟨rest, rfl⟩ : ∃ rest, more = rest + 1 := ⟨more - 1, by omega⟩
  have room : ¬ (coldState flash).ppiList.currentCount ≥ (coldState flash).ppiList.maxCount :=
    Nat.not_le.mpr (show 0 < 256 by norm_num)
  have ends : run (installStep pcdBootFvBase (rest + 1) (coldState flash).ppiList.currentCount)
      (rest + 1) ⟨coldState flash, desc, (coldState flash).ppiList.currentCount, 0⟩ =
        some (some (.success, iplState flash desc (u32 ptr))) := run_done _ rest _ _ step
  rw [peiInstallPpi, if_neg list.real, if_neg room, ends]
  rfl

def iplCall (flash : Mem) (desc fixup : Nat) : EntryCall :=
  ⟨0, desc, u32 (descPpi flash desc + fixup),
    u32 (ppiEntry flash (u32 (descPpi flash desc + fixup)) + fixup), iplState flash desc fixup⟩

theorem IplListAt.dispatch (list : IplListAt pcdBootFvBase flash desc fixup) (fuel more : Nat) :
    dispatchPeims (dxeIplModules pcdBootFvBase desc fuel).toEntryFunctions
      (iplState flash desc fixup) (more + 2) =
        some (iplState flash desc fixup, [iplCall flash desc fixup]) := by
  have ppi : descPpi (fixupPpi flash desc fixup) desc = u32 (descPpi flash desc + fixup) :=
    descPpi_fixupPpi flash desc fixup list.apart
  have entry := ppiEntry_fixupPpi list.apart
  have first : dispatchStep (dxeIplModules pcdBootFvBase desc fuel).toEntryFunctions
      ⟨iplState flash desc fixup, 0, []⟩ =
        .next ⟨iplState flash desc fixup, 1, [iplCall flash desc fixup]⟩ := by
    simp only [dispatchStep, iplState, Nat.zero_lt_one, if_true, Function.update_self, ppi, entry,
      dxeIplModules, List.nil_append, iplCall]
    rfl
  have second : dispatchStep (dxeIplModules pcdBootFvBase desc fuel).toEntryFunctions
      ⟨iplState flash desc fixup, 1, [iplCall flash desc fixup]⟩ =
        .done (iplState flash desc fixup, [iplCall flash desc fixup]) := by
    simp only [dispatchStep, iplState, Nat.lt_irrefl, if_false]
  unfold dispatchPeims
  rw [run_next _ _ _ _ first, run_done _ _ _ _ second]

end Phase

/-! ## The whole boot -/

/-- A flash image that the firmware is built for: what its lookups find in it. -/
structure BootImage (flash : Mem) (bootFvBase : Nat) where
  services : Nat × StatusInfo
  peimInit : Nat
  desc : Nat
  fixup : Nat
  dxe : Volume
  core : Nat × FileHdr
  header : Nat
  image : LoadedImage
  servicesFound : GetFileSectionReturns flash bootFvBase efiSectionFreeformSubtypeGuid
    efiFvFiletypePeiCore none services
  initFound : InitPeimsCalls flash bootFvBase peimInit
  list : IplListAt bootFvBase flash desc fixup
  dxeAt : VolumeAt flash dxe
  dxeMapped : dxe.base ≠ null
  dxeTop : dxe.eov + 4 ≤ 2 ^ 32
  coreFirst : firstMatch dxe.first dxe.files efiFvFiletypeDxeCore none = some core
  coreSection : FindSectionDataReturns flash efiSectionPe32 core.1 .success header
  coreHeaders : HeadersInside flash dxe (u32 (header + sizeofSectionHeader))
  coreLoads : peiLoadPe32 flash (u32 (header + sizeofSectionHeader)) = (.success, some image)
  /-- The PPI and its descriptor are not part of the DXE volume. -/
  elsewhere : ∀ addr, NearVolume dxe (bus addr) → Spares flash desc fixup addr

/-- What a boot from the image does in the PEI phase.  The core is mapped unless the header that
the uninitialised local of `PeiFfsGetFileInfo` points to has the large-file bit. -/
structure BootLaw {flash : Mem} {bootFvBase : Nat} (image : BootImage flash bootFvBase)
    (phase : PhaseEnd) : Prop where
  init : phase.peimInit = some image.peimInit
  calls : phase.calls = [iplCall flash image.desc image.fixup]
  dxe : ∀ call ∈ phase.calls, ∀ stack result,
    DxeIplReturns call.state.mem phase.handles stack result ↔ result = ⟨.returned .loadError,
      if isFfsFile2 call.state.mem stack.file then none else some image.image⟩

section Boot

variable {flash : Mem} {bootFvBase : Nat} (image : BootImage flash bootFvBase)

theorem BootImage.agree : AgreeOn (NearVolume image.dxe) flash
    (fixupPpi flash image.desc image.fixup) := by
  intro addr near
  obtain ⟨pointers, entry⟩ := image.elsewhere addr near
  exact (byteAt_fixupPpi flash image.desc image.fixup addr pointers entry).symm

theorem loadFile_unique {mem : Mem} {file : Nat} {status other : EfiStatus}
    {first second : Option LoadedImage} (left : LoadFileReturns mem file true status first)
    (right : LoadFileReturns mem file true other second) : status = other ∧ first = second := by
  obtain ⟨fuel, left⟩ := left
  obtain ⟨more, right⟩ := right
  have same := (loadFile_mono left (le_max_left fuel more)).symm.trans
    (loadFile_mono right (le_max_right fuel more))
  exact Prod.mk.inj (Option.some.inj same)

theorem BootImage.loads : LoadFileReturns (fixupPpi flash image.desc image.fixup) image.core.1 true
    .success (some image.image) := by
  have listed := List.mem_of_find?_eq_some image.coreFirst
  have low := (starts_bounds (by norm_num) image.dxe.files image.dxe.first _ listed).1
  have high : image.core.1 + image.core.2.size ≤ image.dxe.eov := image.dxe.fits _ listed
  have before := image.dxe.header_before
  have large := image.core.2.size_ge
  have header : sizeofFileHeader = 24 := rfl
  obtain ⟨_, _, size⟩ := image.dxeAt.files _ listed
  exact loadFile_congr image.dxeTop image.agree (by omega) (by omega) (by omega)
    image.coreSection image.coreHeaders image.coreLoads

theorem BootImage.dxeIpl (handles : Fin maxCoreFv → Nat)
    (second : handles ⟨1, by decide⟩ = image.dxe.base) (stack : IplStack) (result : IplResult) :
    DxeIplReturns (fixupPpi flash image.desc image.fixup) handles stack result ↔
      result = ⟨.returned .loadError,
        if isFfsFile2 (fixupPpi flash image.desc image.fixup) stack.file then none
        else some image.image⟩ := by
  have present := volumeAt_congr image.dxeTop image.agree image.dxeAt
  have found := image.coreFirst
  rw [returns_iff_ends present image.dxeMapped second (.inl (by rw [found]; rfl)) result, found,
    IplEnds]
  by_cases large : isFfsFile2 (fixupPpi flash image.desc image.fixup) stack.file = true
  · rw [if_pos large, if_pos large]
  · rw [if_neg large, if_neg large]
    constructor
    · rintro ⟨status, loaded, load, rfl⟩
      obtain ⟨rfl, rfl⟩ := loadFile_unique load image.loads
      exact if_pos rfl
    · rintro rfl
      exact ⟨.success, some image.image, image.loads, (if_pos rfl).symm⟩

theorem BootImage.phase (ps : PeiServicesTable) :
    ∃ fuel phase, peiCoreMain (dxeIplModules bootFvBase image.desc fuel) image.dxe.base ps bootFvBase
      (coldState flash) fuel = some phase ∧ BootLaw image phase := by
  obtain ⟨first, install⟩ := image.list.install
  obtain ⟨second, services⟩ := image.servicesFound
  obtain ⟨third, init⟩ := image.initFound
  generalize enough : max (max first second) (max third 2) = fuel
  have fixup : calcPeiFixup flash bootFvBase fuel = some (u32 image.services.1) := by
    rw [calcPeiFixup, getFileSection_mono services (by omega)]
    rfl
  have called : initPeims flash bootFvBase fuel = some (some image.peimInit) :=
    initPeims_mono init (by omega)
  have installed : afterInit (dxeIplModules bootFvBase image.desc fuel) (some image.peimInit)
      (coldState flash) = iplState flash image.desc image.fixup := by
    exact dxeIplModules_init (install fuel (by omega)) image.peimInit
  obtain ⟨more, rfl⟩ : ∃ more, fuel = more + 2 := ⟨fuel - 2, by omega⟩
  have dispatch := image.list.dispatch (more + 2) more
  refine ⟨more + 2, ⟨ps.fixup (u32 image.services.1), fvHandles bootFvBase image.dxe.base,
    some image.peimInit, [iplCall flash image.desc image.fixup],
    iplState flash image.desc image.fixup⟩, ?_, rfl, rfl, ?_⟩
  · unfold peiCoreMain
    simp only [coldState] at installed ⊢
    simp only [fixup, called, installed, dispatch]
  · intro call made stack result
    obtain rfl := List.mem_singleton.mp made
    exact image.dxeIpl _ rfl stack result

end Boot

end ArcFirmware.BootChain
