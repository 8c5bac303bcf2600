import ArcFirmware.PeiServices

/-!
# DxeIpl: loading the DXE core

`PeiLoadPe32` and `PeiLoadFile`.  The headers are read in place: an image is
executed where its section lies.
-/

set_option autoImplicit false

namespace ArcFirmware.DxeIpl

open ArcFirmware.Memory ArcFirmware.Edk2 ArcFirmware.UtilsLib ArcFirmware.PeiServices

/-! ## PE32 headers -/

def efiImageDosSignature : Nat := 0x5a4d
def efiImageNtSignature : Nat := 0x00004550
def efiImageNtOptionalHdr32Magic : Nat := 0x10b

def sizeofDosHeader : Nat := 64

def sizeofNtHeaders32 : Nat := 248

def dosMagic (mem : Mem) (header : Nat) : Nat := leAt mem header 2

def dosLfanew (mem : Mem) (header : Nat) : Nat := leAt mem (header + 60) 4

def ntSignature (mem : Mem) (header : Nat) : Nat := leAt mem header 4

/-- `OptionalHeader.Magic`, after the signature and the 20 bytes of `FileHeader`. -/
def ntMagic (mem : Mem) (header : Nat) : Nat := leAt mem (header + 24) 2

def ntAddressOfEntryPoint (mem : Mem) (header : Nat) : Nat := leAt mem (header + 40) 4

def ntSizeOfImage (mem : Mem) (header : Nat) : Nat := leAt mem (header + 80) 4

/-! ## The functions -/

structure LoadedImage where
  imageAddress : Nat
  imageSize : Nat
  entryPoint : Nat
  deriving DecidableEq, Repr

def pe32Hdr (mem : Mem) (pe32Data : Nat) : Nat := u32 (pe32Data + dosLfanew mem pe32Data)

def peiLoadPe32 (mem : Mem) (pe32Data : Nat) : EfiStatus × Option LoadedImage :=
  if dosMagic mem pe32Data ≠ efiImageDosSignature then (.loadError, none)
  else if ntSignature mem (pe32Hdr mem pe32Data) ≠ efiImageNtSignature then (.loadError, none)
  else if ntMagic mem (pe32Hdr mem pe32Data) ≠ efiImageNtOptionalHdr32Magic then (.loadError, none)
  else
    (.success, some {
      imageAddress := pe32Data
      imageSize := ntSizeOfImage mem (pe32Hdr mem pe32Data)
      entryPoint := u32 (ntAddressOfEntryPoint mem (pe32Hdr mem pe32Data) + pe32Data) })

/-- `pointersGiven` is false when one of the four output pointers is `NULL`. -/
def peiLoadFile (mem : Mem) (fileHandle : Nat) (pointersGiven : Bool) (fuel : Nat) :
    Option (EfiStatus × Option LoadedImage) :=
  if pointersGiven = false then some (.invalidParameter, none)
  else
    match peiFfsFindSectionData mem efiSectionPe32 fileHandle true fuel with
    | none => none
    | some (status, pe32Data) =>
        if status ≠ .success then some (status, none)
        else some (peiLoadPe32 mem (u32 (pe32Data.getD null + sizeofSectionHeader)))

def LoadFileReturns (mem : Mem) (fileHandle : Nat) (pointersGiven : Bool) (status : EfiStatus)
    (image : Option LoadedImage) : Prop :=
  ∃ fuel, peiLoadFile mem fileHandle pointersGiven fuel = some (status, image)

def FindSectionDataReturns (mem : Mem) (sectionType : UInt8) (fileHandle : Nat)
    (status : EfiStatus) (sectionData : Nat) : Prop :=
  ∃ fuel, peiFfsFindSectionData mem sectionType fileHandle true fuel =
    some (status, some sectionData)

end ArcFirmware.DxeIpl
