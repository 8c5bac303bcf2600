import ArcFirmware.UtilsLib

/-!
# PeiCoreMain: starting the PEIMs

`InitPeims` up to the call of the PEIM that the apriori file names first.
-/

set_option autoImplicit false

namespace ArcFirmware.PeiCoreMain

open ArcFirmware.Memory ArcFirmware.Edk2 ArcFirmware.UtilsLib

/-- The entry point that is called, if any; `none` is a lookup that takes more
than `fuel` passes. -/
def initPeims (mem : Mem) (fvBase fuel : Nat) : Option (Option Nat) :=
  match getAprioriFile mem fvBase fuel with
  | none => none
  | some (aprioriFile, _) =>
      if aprioriFile = null then some none
      else
        let fileName := guidAt mem aprioriFile
        match getTeEntryPoint mem fvBase efiFvFiletypePeim (some fileName) fuel with
        | none => none
        | some (peimInit, _) => if peimInit = null then some none else some (some peimInit)

def InitPeimsCalls (mem : Mem) (fvBase peimInit : Nat) : Prop :=
  ∃ fuel, initPeims mem fvBase fuel = some (some peimInit)

end ArcFirmware.PeiCoreMain
