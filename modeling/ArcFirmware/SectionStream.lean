import ArcFirmware.Lib.Layout
import ArcFirmware.UtilsLib
import Mathlib.Tactic.NormNum

/-!
# Section lookup over well-formed section streams

A section stream is a list of section headers packed at 4-byte boundaries; the
bodies and the pad bytes between sections are whatever the memory holds.  The
loop of `FindSection` aligns its start only and then advances by the raw size,
so it follows the stream exactly as long as the sections it skips have sizes
that are multiples of four.
-/

set_option autoImplicit false

namespace ArcFirmware.SectionStream

open ArcFirmware.Memory ArcFirmware.Loop ArcFirmware.Layout ArcFirmware.Edk2
  ArcFirmware.UtilsLib

structure SectionHdr where
  size : Nat
  type : UInt8
  size_ge : 4 ≤ size
  size_lt : size < 2 ^ 24

abbrev sectionStarts : Nat → List SectionHdr → List (Nat × SectionHdr) :=
  starts 4 SectionHdr.size

abbrev streamEnd : Nat → List SectionHdr → Nat := finish 4 SectionHdr.size

def StreamAt (mem : Mem) (start : Nat) (stream : List SectionHdr) : Prop :=
  ∀ entry ∈ sectionStarts start stream,
    sectionSize mem entry.1 = entry.2.size ∧ sectionType mem entry.1 = entry.2.type

def firstOfType (start : Nat) (stream : List SectionHdr) (type : UInt8) : Option Nat :=
  ((sectionStarts start stream).find? fun entry => entry.2.type == type).map Prod.fst

/-- What the lookup is to report. -/
def lookupAnswer : Option Nat → Nat × EfiStatus
  | some addr => (addr, .success)
  | none => (null, .notFound)

/-- `FindSection` over the whole stream reports the first section of a type. -/
def DecodesStream (mem : Mem) (start : Nat) (stream : List SectionHdr) (type : UInt8) : Prop :=
  ∃ line, FindSectionReturns mem type start (streamEnd start stream)
    ((lookupAnswer (firstOfType start stream type)).1,
      ⟨(lookupAnswer (firstOfType start stream type)).2, line⟩)

/-- Every section that is skipped on the way to another one is a multiple of
four bytes long. -/
def SkippedWordSized (type : UInt8) : List SectionHdr → Prop
  | [] => True
  | [_] => True
  | header :: next :: rest =>
      header.type = type ∨ (header.size % 4 = 0 ∧ SkippedWordSized type (next :: rest))

theorem entry_bounds {start : Nat} {stream : List SectionHdr} {entry : Nat × SectionHdr}
    (member : entry ∈ sectionStarts start stream) :
    start ≤ entry.1 ∧ entry.1 + entry.2.size ≤ streamEnd start stream ∧ 4 ≤ entry.2.size := by
  obtain ⟨low, high⟩ := starts_bounds (by norm_num) stream start entry member
  exact ⟨low, high, entry.2.size_ge⟩

theorem head_bounds (start : Nat) (header : SectionHdr) (rest : List SectionHdr) :
    start + header.size ≤ streamEnd start (header :: rest) :=
  head_le_finish (by norm_num) header rest start

/-! ## The walk follows a stream of word-sized sections -/

theorem step_skips (mem : Mem) (type : UInt8) (sectionsEnd addr : Nat) (header : SectionHdr)
    (size : sectionSize mem addr = header.size) (other : sectionType mem addr ≠ type)
    (inside : addr + header.size ≤ sectionsEnd) (below : sectionsEnd < 2 ^ 32) :
    findSectionStep mem type sectionsEnd addr = .next (addr + header.size) := by
  have large := header.size_ge
  have kept : u64 (addr + header.size) = addr + header.size :=
    Nat.mod_eq_of_lt (by omega)
  rw [findSectionStep_eq, if_pos (by omega), size, if_neg (by omega), kept,
    if_neg (by omega), if_neg other]

theorem step_finds (mem : Mem) (type : UInt8) (sectionsEnd addr : Nat) (header : SectionHdr)
    (size : sectionSize mem addr = header.size) (found : sectionType mem addr = type)
    (inside : addr + header.size ≤ sectionsEnd) (below : sectionsEnd < 2 ^ 32) :
    findSectionStep mem type sectionsEnd addr = .done (addr, ⟨.success, 183⟩) := by
  have large := header.size_ge
  have kept : u64 (addr + header.size) = addr + header.size :=
    Nat.mod_eq_of_lt (by omega)
  have pointer : u32 addr = addr := Nat.mod_eq_of_lt (by omega)
  rw [findSectionStep_eq, if_pos (by omega), size, if_neg (by omega), kept,
    if_neg (by omega), if_pos found, pointer]

theorem step_ends (mem : Mem) (type : UInt8) (sectionsEnd addr : Nat)
    (past : sectionsEnd ≤ addr) :
    findSectionStep mem type sectionsEnd addr = .done (null, ⟨.notFound, 190⟩) := by
  rw [findSectionStep_eq, if_neg (by omega)]

theorem StreamAt.tail {mem : Mem} {start : Nat} {header : SectionHdr}
    {rest : List SectionHdr} (stream : StreamAt mem start (header :: rest)) :
    StreamAt mem (roundUp 4 (start + header.size)) rest :=
  fun entry member => stream entry (List.mem_cons_of_mem _ member)

theorem walk_decodes (mem : Mem) (type : UInt8) (stream : List SectionHdr) (start : Nat)
    (below : streamEnd start stream < 2 ^ 32) (holds : StreamAt mem start stream)
    (words : SkippedWordSized type stream) (aligned : 4 ∣ start) :
    ∃ line, Returns (findSectionStep mem type (streamEnd start stream)) start
      ((lookupAnswer (firstOfType start stream type)).1,
        ⟨(lookupAnswer (firstOfType start stream type)).2, line⟩) := by
  induction stream generalizing start with
  | nil => exact ⟨190, returns_done (step_ends mem type start start le_rfl)⟩
  | cons header rest ih =>
      obtain ⟨size, typeHere⟩ := holds (start, header) (List.mem_cons_self ..)
      have inside := head_bounds start header rest
      by_cases found : header.type = type
      · have answer : firstOfType start (header :: rest) type = some start := by
          simp [firstOfType, sectionStarts, starts, found]
        rw [answer]
        exact ⟨183, returns_done (step_finds mem type _ start header size
          (typeHere.trans found) inside below)⟩
      · have answer : firstOfType start (header :: rest) type =
            firstOfType (roundUp 4 (start + header.size)) rest type := by
          simp [firstOfType, sectionStarts, starts, found]
        have passed := step_skips mem type (streamEnd start (header :: rest)) start header size
          (fun same => found (typeHere.symm.trans same)) inside below
        rw [answer]
        cases rest with
        | nil =>
            refine ⟨190, (returns_next_iff passed _).mpr ?_⟩
            exact returns_done (step_ends mem type _ _ le_rfl)
        | cons next rest =>
            have tailWords := words.resolve_left found
            have landed : roundUp 4 (start + header.size) = start + header.size :=
              roundUp_of_dvd (by norm_num) (by omega)
            obtain ⟨line, success⟩ := ih (roundUp 4 (start + header.size)) below holds.tail
              tailWords.2 (dvd_roundUp _ _)
            refine ⟨line, (returns_next_iff passed _).mpr ?_⟩
            have ending : streamEnd start (header :: next :: rest) =
                streamEnd (roundUp 4 (start + header.size)) (next :: rest) := rfl
            rw [ending]
            rw [landed] at success ⊢
            exact success

/-! ## What goes wrong after a section that is not word-sized -/

/-- The walk reaches the raw end of the first skipped section whose size is not a
multiple of four, and the next section starts at the word boundary after it. -/
theorem exists_unaligned_head (type : UInt8) (stream : List SectionHdr) (start : Nat)
    (aligned : 4 ∣ start) (bad : ¬ SkippedWordSized type stream) :
    ∃ addr header next,
      (addr, header) ∈ sectionStarts start stream ∧ header.size % 4 ≠ 0 ∧
      (roundUp 4 (addr + header.size), next) ∈ sectionStarts start stream ∧
      ∀ (mem : Mem) (sectionsEnd : Nat), StreamAt mem start stream →
        streamEnd start stream ≤ sectionsEnd → sectionsEnd < 2 ^ 32 →
        Reaches (findSectionStep mem type sectionsEnd) start (addr + header.size) := by
  induction stream generalizing start with
  | nil => exact absurd trivial bad
  | cons header rest ih =>
      cases rest with
      | nil => exact absurd trivial bad
      | cons next rest =>
          simp only [SkippedWordSized, not_or, not_and] at bad
          obtain ⟨other, tailBad⟩ := bad
          have passes (mem : Mem) (sectionsEnd : Nat)
              (holds : StreamAt mem start (header :: next :: rest))
              (inside : streamEnd start (header :: next :: rest) ≤ sectionsEnd)
              (below : sectionsEnd < 2 ^ 32) :
              findSectionStep mem type sectionsEnd start = .next (start + header.size) := by
            obtain ⟨size, typeHere⟩ := holds (start, header) (List.mem_cons_self ..)
            have head := head_bounds start header (next :: rest)
            exact step_skips mem type sectionsEnd start header size
              (fun same => other (typeHere.symm.trans same)) (le_trans head inside) below
          by_cases word : header.size % 4 = 0
          · obtain ⟨addr, late, after, member, odd, afterMember, reaches⟩ :=
              ih (roundUp 4 (start + header.size)) (dvd_roundUp _ _) (tailBad word)
            refine ⟨addr, late, after, List.mem_cons_of_mem _ member, odd,
              List.mem_cons_of_mem _ afterMember, ?_⟩
            intro mem sectionsEnd holds inside below
            have landed : roundUp 4 (start + header.size) = start + header.size :=
              roundUp_of_dvd (by norm_num) (by omega)
            have later := reaches mem sectionsEnd holds.tail inside below
            rw [landed] at later
            exact later.head (passes mem sectionsEnd holds inside below)
          · refine ⟨start, header, next, List.mem_cons_self .., word,
              List.mem_cons_of_mem _ (List.mem_cons_self ..), ?_⟩
            intro mem sectionsEnd holds inside below
            exact .tail .refl (passes mem sectionsEnd holds inside below)

def InHeader (start : Nat) (stream : List SectionHdr) (addr : Nat) : Prop :=
  ∃ entry ∈ sectionStarts start stream, entry.1 ≤ addr ∧ addr < entry.1 + 4

instance (start : Nat) (stream : List SectionHdr) (addr : Nat) :
    Decidable (InHeader start stream addr) := by
  unfold InHeader
  infer_instance

/-- The headers of a stream over chosen body and pad bytes: the first byte of
each free word is the searched type, `pad` stands at one address, the rest is
zero. -/
def refill (mem : Mem) (start : Nat) (stream : List SectionHdr) (type : UInt8)
    (odd : Nat) (pad : UInt8) : Mem :=
  fun addr =>
    if InHeader start stream addr then mem addr
    else if addr = odd then pad
    else if addr % 4 = 0 then type
    else 0

section Refill

variable {mem : Mem} {start : Nat} {stream : List SectionHdr} {type pad : UInt8} {odd : Nat}

theorem byteAt_refill_header (addr : Nat) (small : addr < 2 ^ 32)
    (inside : InHeader start stream addr) :
    byteAt (refill mem start stream type odd pad) addr = byteAt mem addr := by
  simp only [byteAt, bus_of_lt small, refill, if_pos inside]

theorem byteAt_refill_free (addr : Nat) (small : addr < 2 ^ 32)
    (outside : ¬ InHeader start stream addr) (other : addr ≠ odd) :
    byteAt (refill mem start stream type odd pad) addr =
      if addr % 4 = 0 then type else 0 := by
  simp only [byteAt, bus_of_lt small, refill, if_neg outside, if_neg other]

theorem byteAt_refill_odd (small : odd < 2 ^ 32) (outside : ¬ InHeader start stream odd) :
    byteAt (refill mem start stream type odd pad) odd = pad := by
  simp only [byteAt, bus_of_lt small, refill, if_neg outside, if_true]

theorem streamAt_refill (holds : StreamAt mem start stream)
    (below : streamEnd start stream < 2 ^ 32) :
    StreamAt (refill mem start stream type odd pad) start stream := by
  intro entry member
  obtain ⟨low, high, large⟩ := entry_bounds member
  have kept (i : Nat) (bound : i < 4) :
      byteAt (refill mem start stream type odd pad) (entry.1 + i) = byteAt mem (entry.1 + i) :=
    byteAt_refill_header _ (by omega) ⟨entry, member, by omega, by omega⟩
  obtain ⟨size, typeHere⟩ := holds entry member
  constructor
  · rw [← size]
    exact leAt_congr _ _ _ _ 3 fun i bound => kept i (by omega)
  · rw [← typeHere]
    exact kept 3 (by omega)

theorem inHeader_iff_word (aligned : 4 ∣ start) (addr : Nat) :
    InHeader start stream addr ↔
      ∃ entry ∈ sectionStarts start stream, entry.1 = addr / 4 * 4 := by
  constructor
  · rintro ⟨entry, member, low, high⟩
    have dvd := starts_aligned stream start aligned entry member
    exact ⟨entry, member, by omega⟩
  · rintro ⟨entry, member, same⟩
    exact ⟨entry, member, by omega, by omega⟩

end Refill

/-! ## A walk off the word grid never answers correctly -/

/-- Not an answer for any stream: corrupted, or a header off the word grid. -/
def Misreads (result : Nat × StatusInfo) : Prop :=
  result.2.status = .volumeCorrupted ∨ (result.2.status = .success ∧ ¬ 4 ∣ result.1)

theorem sectionSize_bytes (mem : Mem) (addr : Nat) :
    sectionSize mem addr = (byteAt mem addr).toNat + 256 * (byteAt mem (addr + 1)).toNat +
      65536 * (byteAt mem (addr + 2)).toNat := by
  simp only [sectionSize, leAt]
  ring

theorem step_off_grid (mem : Mem) (type : UInt8) (sectionsEnd addr : Nat)
    (off : ¬ 4 ∣ addr) (inside : addr < sectionsEnd) (below : sectionsEnd < 2 ^ 32) :
    match findSectionStep mem type sectionsEnd addr with
    | .next after => after = addr + sectionSize mem addr ∧ after ≤ sectionsEnd ∧
        4 ≤ sectionSize mem addr ∧ sectionType mem addr ≠ type
    | .done result => Misreads result := by
  rcases findSectionStep_cases mem type addr below.le with
    ⟨past, _⟩ | ⟨_, line, step⟩ | ⟨_, _, _, _, step⟩ | ⟨_, large, fits, skipped, step⟩
  · omega
  · rw [step]
    exact Or.inl rfl
  · rw [step]
    exact Or.inr ⟨rfl, off⟩
  · rw [step]
    exact ⟨rfl, fits, large, skipped⟩

/-- One byte past a word boundary the walk reads a free word as a zero size, the
header of a section with a body as the searched type, and the header of an empty
section as a multiple of 65536. -/
theorem size_after_word (mem : Mem) (start : Nat) (stream : List SectionHdr) (type pad : UInt8)
    (odd addr : Nat) (aligned : 4 ∣ start) (holds : StreamAt mem start stream)
    (below : streamEnd start stream < 2 ^ 32) (phase : addr % 4 = 1) (later : odd < addr)
    (inside : addr < streamEnd start stream)
    (long : 4 ≤ sectionSize (refill mem start stream type odd pad) addr)
    (other : sectionType (refill mem start stream type odd pad) addr ≠ type) :
    ∃ jump, sectionSize (refill mem start stream type odd pad) addr = 65536 * jump := by
  rw [sectionSize_bytes] at long ⊢
  by_cases word : InHeader start stream addr
  · obtain ⟨entry, member, base⟩ := (inHeader_iff_word aligned addr).mp word
    obtain ⟨lowest, highest, large⟩ := entry_bounds member
    have kept (i : Nat) (bound : i < 3) :
        byteAt (refill mem start stream type odd pad) (addr + i) = byteAt mem (addr + i) :=
      byteAt_refill_header _ (by omega) ⟨entry, member, by omega, by omega⟩
    have size := (holds entry member).1
    rw [sectionSize_bytes] at size
    have first := kept 0 (by omega)
    have second := kept 1 (by omega)
    rw [Nat.add_zero] at first
    rw [show entry.1 + 1 = addr by omega, show entry.1 + 2 = addr + 1 by omega] at size
    have low := (byteAt mem entry.1).toNat_lt
    by_cases empty : entry.2.size = 4
    · refine ⟨(byteAt (refill mem start stream type odd pad) (addr + 2)).toNat, ?_⟩
      rw [first, second]
      omega
    · have free : ¬ InHeader start stream (addr + 3) := by
        intro next
        obtain ⟨other, otherMember, otherBase⟩ := (inHeader_iff_word aligned _).mp next
        rcases starts_separated (by norm_num)
          stream start entry other member otherMember with same | apart | apart
        · rw [← same] at otherBase
          omega
        · omega
        · omega
      have typeByte : byteAt (refill mem start stream type odd pad) (addr + 3) = type := by
        rw [byteAt_refill_free (addr + 3) (by omega) free (by omega), if_pos (by omega)]
      exact absurd typeByte other
  · have zero (i : Nat) (bound : i < 3) :
        byteAt (refill mem start stream type odd pad) (addr + i) = 0 := by
      have free : ¬ InHeader start stream (addr + i) := by
        rw [inHeader_iff_word aligned] at word ⊢
        rwa [show (addr + i) / 4 * 4 = addr / 4 * 4 by omega]
      rw [byteAt_refill_free _ (by omega) free (by omega), if_neg (by omega)]
    have first := zero 0 (by omega)
    rw [Nat.add_zero] at first
    rw [first, zero 1 (by omega), zero 2 (by omega)] at long
    simp at long

theorem end_not_inHeader {start : Nat} {stream : List SectionHdr} {entry : Nat × SectionHdr}
    (aligned : 4 ∣ start) (member : entry ∈ sectionStarts start stream)
    (off : entry.2.size % 4 ≠ 0) : ¬ InHeader start stream (entry.1 + entry.2.size) := by
  rintro ⟨other, otherMember, low, high⟩
  have large := (entry_bounds member).2.2
  have otherLarge := (entry_bounds otherMember).2.2
  have dvd := starts_aligned stream start aligned entry member
  have otherDvd := starts_aligned stream start aligned other otherMember
  rcases starts_separated (by norm_num) stream start entry other member otherMember
    with same | apart | apart
  · rw [← same] at high
    omega
  · omega
  · omega

/-- Some pad byte sends the walk to an address one past a word boundary from
which it cannot hit the end of the stream: later jumps are multiples of 65536,
and the two candidates are in different classes. -/
theorem exists_pad (mem : Mem) (start : Nat) (stream : List SectionHdr) (type : UInt8)
    (odd : Nat) (off : ¬ 4 ∣ odd) (inside : odd < streamEnd start stream)
    (below : streamEnd start stream < 2 ^ 32) (free : ¬ InHeader start stream odd) :
    ∃ pad, ∀ after,
      findSectionStep (refill mem start stream type odd pad) type (streamEnd start stream) odd =
          .next after →
        after % 4 = 1 ∧ after % 65536 ≠ streamEnd start stream % 65536 ∧ odd < after ∧
          after ≤ streamEnd start stream := by
  have indep (pad : UInt8) (i : Nat) (positive : 0 < i) (bound : i < 3) :
      byteAt (refill mem start stream type odd pad) (odd + i) =
        byteAt (refill mem start stream type odd 0) (odd + i) := by
    have small : bus (odd + i) ≠ odd := by
      simp only [bus]
      omega
    simp only [byteAt, refill, if_neg small]
  set tail := 256 * (byteAt (refill mem start stream type odd 0) (odd + 1)).toNat +
    65536 * (byteAt (refill mem start stream type odd 0) (odd + 2)).toNat with tailEq
  have sizeEq (pad : UInt8) :
      sectionSize (refill mem start stream type odd pad) odd = pad.toNat + tail := by
    rw [sectionSize_bytes, indep pad 1 (by omega) (by omega), indep pad 2 (by omega) (by omega),
      byteAt_refill_odd (by omega) free]
    omega
  have lands (pad : UInt8) (after : Nat) (phase : (odd + pad.toNat) % 4 = 1)
      (class_ : (odd + pad.toNat + tail) % 65536 ≠ streamEnd start stream % 65536)
      (passed : findSectionStep (refill mem start stream type odd pad) type
        (streamEnd start stream) odd = .next after) :
      after % 4 = 1 ∧ after % 65536 ≠ streamEnd start stream % 65536 ∧ odd < after ∧
        after ≤ streamEnd start stream := by
    have step := step_off_grid (refill mem start stream type odd pad) type
      (streamEnd start stream) odd off inside below
    rw [passed, sizeEq pad] at step
    obtain ⟨landed, kept, long, _⟩ := step
    refine ⟨by omega, ?_, by omega, kept⟩
    rw [landed, ← Nat.add_assoc]
    exact class_
  have narrow (count : Nat) (bound : count < 256) : (UInt8.ofNat count).toNat = count := by
    rw [UInt8.toNat_ofNat']
    exact Nat.mod_eq_of_lt bound
  have first := narrow (5 - odd % 4) (by omega)
  have second := narrow (9 - odd % 4) (by omega)
  by_cases clash : (odd + (5 - odd % 4) + tail) % 65536 = streamEnd start stream % 65536
  · refine ⟨UInt8.ofNat (9 - odd % 4), fun after passed => lands _ after ?_ ?_ passed⟩
    · rw [second]
      omega
    · rw [second]
      omega
  · refine ⟨UInt8.ofNat (5 - odd % 4), fun after passed => lands _ after ?_ ?_ passed⟩
    · rw [first]
      omega
    · rw [first]
      exact clash

theorem returns_misreads (mem : Mem) (start : Nat) (stream : List SectionHdr) (type : UInt8)
    (odd : Nat) (off : ¬ 4 ∣ odd) (aligned : 4 ∣ start) (holds : StreamAt mem start stream)
    (inside : odd < streamEnd start stream) (below : streamEnd start stream < 2 ^ 32)
    (free : ¬ InHeader start stream odd) :
    ∃ pad, ∀ result, Returns (findSectionStep (refill mem start stream type odd pad) type
      (streamEnd start stream)) odd result → Misreads result := by
  obtain ⟨pad, lands⟩ := exists_pad mem start stream type odd off inside below free
  refine ⟨pad, fun result success => ?_⟩
  refine returns_invariant (fun addr => addr = odd ∨ (addr % 4 = 1 ∧
    addr % 65536 ≠ streamEnd start stream % 65536 ∧ odd < addr ∧
    addr ≤ streamEnd start stream)) Misreads ?_ (Or.inl rfl) success
  rintro addr (rfl | ⟨phase, class_, later, before⟩)
  · have step := step_off_grid (refill mem start stream type addr pad) type
      (streamEnd start stream) addr off inside below
    cases outcome : findSectionStep (refill mem start stream type addr pad) type
        (streamEnd start stream) addr with
    | next after => exact Or.inr (lands after outcome)
    | done value => simpa only [outcome] using step
  · have strict : addr < streamEnd start stream := by
      rcases Nat.lt_or_ge addr (streamEnd start stream) with lt | ge
      · exact lt
      · exact absurd (congrArg (· % 65536) (le_antisymm before ge)) class_
    have step := step_off_grid (refill mem start stream type odd pad) type
      (streamEnd start stream) addr (by omega) strict below
    cases outcome : findSectionStep (refill mem start stream type odd pad) type
        (streamEnd start stream) addr with
    | next after =>
        simp only [outcome] at step
        obtain ⟨landed, kept, long, other⟩ := step
        obtain ⟨jump, size⟩ := size_after_word mem start stream type pad odd addr aligned holds
          below phase later strict long other
        rw [size] at landed
        exact Or.inr ⟨by omega, by omega, by omega, kept⟩
    | done value => simpa only [outcome] using step

theorem lookupAnswer_not_misread (start : Nat) (stream : List SectionHdr) (type : UInt8)
    (aligned : 4 ∣ start) (line : Nat) :
    ¬ Misreads ((lookupAnswer (firstOfType start stream type)).1,
      ⟨(lookupAnswer (firstOfType start stream type)).2, line⟩) := by
  unfold firstOfType
  cases found : (sectionStarts start stream).find? fun entry => entry.2.type == type with
  | none => simp [Misreads, lookupAnswer]
  | some entry =>
      have dvd := starts_aligned stream start aligned entry (List.mem_of_find?_eq_some found)
      simp [Misreads, lookupAnswer, dvd]

/-- `FindSection` decodes a stream, whatever its body and pad bytes are, exactly
when every section it skips on the way to another one is word-sized. -/
theorem decodesStream_iff (flash : Mem) (start : Nat) (stream : List SectionHdr) (type : UInt8)
    (aligned : 4 ∣ start) (below : streamEnd start stream < 2 ^ 32)
    (present : StreamAt flash start stream) :
    (∀ mem, StreamAt mem start stream → DecodesStream mem start stream type) ↔
      SkippedWordSized type stream := by
  have low : start ≤ streamEnd start stream := le_finish (by norm_num) stream start
  have kept : alignAddr start 4 = start := by
    rw [alignAddr_four start (by omega)]
    omega
  constructor
  · intro decodes
    by_contra bad
    obtain ⟨addr, header, next, member, odd, nextMember, reaches⟩ :=
      exists_unaligned_head type stream start aligned bad
    have dvd := starts_aligned stream start aligned _ member
    have free := end_not_inHeader aligned member odd
    have after := (entry_bounds nextMember).2
    have step : addr + header.size ≤ roundUp 4 (addr + header.size) :=
      le_roundUp (by norm_num) _
    obtain ⟨pad, misreads⟩ := returns_misreads flash start stream type (addr + header.size)
      (by omega) aligned present (by omega) below free
    have still : StreamAt (refill flash start stream type (addr + header.size) pad) start
        stream := streamAt_refill present below
    obtain ⟨line, fuel, success⟩ := decodes _ still
    rw [findSection, kept] at success
    have later := ((reaches _ _ still le_rfl below).returns_iff _).mp ⟨fuel, success⟩
    exact lookupAnswer_not_misread start stream type aligned line (misreads _ later)
  · intro words mem holds
    obtain ⟨line, fuel, success⟩ := walk_decodes mem type stream start below holds words aligned
    exact ⟨line, fuel, by rw [findSection, kept]; exact success⟩

/-- A RAW section with one body byte, three pad bytes, then an empty TE section. -/
def oddFlash : Mem :=
  place 0x1000 [0x05, 0x00, 0x00, 0x19, 0xaa, 0x00, 0x00, 0x00, 0x04, 0x00, 0x00, 0x12]

def oddStream : List SectionHdr :=
  [⟨5, efiSectionRaw, by decide, by decide⟩, ⟨4, efiSectionTe, by decide, by decide⟩]

theorem oddStream_at : StreamAt oddFlash 0x1000 oddStream := by
  unfold StreamAt
  decide

theorem decodesStream_iff_oddStream :
    (∀ mem, StreamAt mem 0x1000 oddStream → DecodesStream mem 0x1000 oddStream efiSectionTe) ↔
      SkippedWordSized efiSectionTe oddStream :=
  decodesStream_iff oddFlash 0x1000 oddStream efiSectionTe (by decide) (by decide) oddStream_at

/-- The pad bytes after the RAW section are read as a header of size zero, and the
TE section behind them is lost. -/
theorem findSection_loses_te_section :
    StreamAt oddFlash 0x1000 oddStream ∧ streamEnd 0x1000 oddStream = 0x100c ∧
      firstOfType 0x1000 oddStream efiSectionTe = some 0x1008 ∧
      FindSectionReturns oddFlash efiSectionTe 0x1000 0x100c (null, ⟨.volumeCorrupted, 173⟩) ∧
      ¬ DecodesStream oddFlash 0x1000 oddStream efiSectionTe := by
  have corrupted : FindSectionReturns oddFlash efiSectionTe 0x1000 0x100c
      (null, ⟨.volumeCorrupted, 173⟩) := ⟨2, by decide⟩
  refine ⟨oddStream_at, by decide, by decide, corrupted, ?_⟩
  rintro ⟨line, decoded⟩
  have status : EfiStatus.volumeCorrupted =
      (lookupAnswer (firstOfType 0x1000 oddStream efiSectionTe)).2 :=
    congrArg (fun result => result.2.status) (Returns.unique corrupted decoded)
  exact absurd status (by decide)

end ArcFirmware.SectionStream
