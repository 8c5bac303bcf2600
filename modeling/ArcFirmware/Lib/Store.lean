import ArcFirmware.Lib.Reader

/-!
# Programs that fill a buffer

A program that fetches and stores single bytes: the memory it leaves, the bus
addresses it fetches from and those it stores to, in order.  `Emits` says that a
program writes a text at consecutive addresses of a window and fetches from a
region outside it only; `emits_seq` joins the texts of two such programs.
-/

set_option autoImplicit false

namespace ArcFirmware.Store

open ArcFirmware.Memory ArcFirmware.Reader

inductive StoreProg (α : Type) where
  | ret (value : α)
  | fetch (addr : Nat) (rest : UInt8 → StoreProg α)
  | store (addr : Nat) (byte : UInt8) (rest : StoreProg α)

variable {α β : Type}

def StoreProg.bind : StoreProg α → (α → StoreProg β) → StoreProg β
  | .ret value, next => next value
  | .fetch addr rest, next => .fetch addr fun byte => (rest byte).bind next
  | .store addr byte rest, next => .store addr byte (rest.bind next)

instance : Monad StoreProg where
  pure := .ret
  bind := StoreProg.bind

def storeByte (addr : Nat) (byte : UInt8) : StoreProg Unit := .store addr byte (.ret ())

def reading : ReadProg α → StoreProg α
  | .ret value => .ret value
  | .fetch addr rest => .fetch addr fun byte => reading (rest byte)

def result (mem : Mem) : StoreProg α → α
  | .ret value => value
  | .fetch addr rest => result mem (rest (byteAt mem addr))
  | .store addr byte rest => result (Function.update mem (bus addr) byte) rest

def final (mem : Mem) : StoreProg α → Mem
  | .ret _ => mem
  | .fetch addr rest => final mem (rest (byteAt mem addr))
  | .store addr byte rest => final (Function.update mem (bus addr) byte) rest

def fetches (mem : Mem) : StoreProg α → List Nat
  | .ret _ => []
  | .fetch addr rest => bus addr :: fetches mem (rest (byteAt mem addr))
  | .store addr byte rest => fetches (Function.update mem (bus addr) byte) rest

def stores (mem : Mem) : StoreProg α → List Nat
  | .ret _ => []
  | .fetch addr rest => stores mem (rest (byteAt mem addr))
  | .store addr byte rest => bus addr :: stores (Function.update mem (bus addr) byte) rest

section Bind

variable (mem : Mem) (prog : StoreProg α) (next : α → StoreProg β)

@[simp] theorem final_bind :
    final mem (prog >>= next) = final (final mem prog) (next (result mem prog)) := by
  induction prog generalizing mem with
  | ret value => rfl
  | fetch addr rest ih => exact ih (byteAt mem addr) mem
  | store addr byte rest ih => exact ih _

@[simp] theorem fetches_bind : fetches mem (prog >>= next) =
    fetches mem prog ++ fetches (final mem prog) (next (result mem prog)) := by
  induction prog generalizing mem with
  | ret value => rfl
  | fetch addr rest ih => exact congrArg (bus addr :: ·) (ih (byteAt mem addr) mem)
  | store addr byte rest ih => exact ih _

@[simp] theorem stores_bind : stores mem (prog >>= next) =
    stores mem prog ++ stores (final mem prog) (next (result mem prog)) := by
  induction prog generalizing mem with
  | ret value => rfl
  | fetch addr rest ih => exact ih (byteAt mem addr) mem
  | store addr byte rest ih => exact congrArg (bus addr :: ·) (ih _)

end Bind

section Reading

variable (mem : Mem) (prog : ReadProg α)

@[simp] theorem result_reading : result mem (reading prog) = value mem prog := by
  induction prog with
  | ret value => rfl
  | fetch addr rest ih => exact ih (byteAt mem addr)

@[simp] theorem final_reading : final mem (reading prog) = mem := by
  induction prog with
  | ret value => rfl
  | fetch addr rest ih => exact ih (byteAt mem addr)

@[simp] theorem fetches_reading : fetches mem (reading prog) = reads mem prog := by
  induction prog with
  | ret value => rfl
  | fetch addr rest ih => exact congrArg (bus addr :: ·) (ih (byteAt mem addr))

@[simp] theorem stores_reading : stores mem (reading prog) = [] := by
  induction prog with
  | ret value => rfl
  | fetch addr rest ih => exact ih (byteAt mem addr)

end Reading

/-! ## Bytes stored in a row -/

def storeBytes (mem : Mem) (addr : Nat) : List UInt8 → Mem
  | [] => mem
  | byte :: rest => storeBytes (Function.update mem (bus addr) byte) (addr + 1) rest

def window (addr count : Nat) : List Nat := (List.range count).map fun i => bus (addr + i)

theorem mem_window {addr count target : Nat} :
    target ∈ window addr count ↔ ∃ i < count, target = bus (addr + i) := by
  simp only [window, List.mem_map, List.mem_range, eq_comm]

theorem window_add (addr first second : Nat) :
    window addr (first + second) = window addr first ++ window (addr + first) second := by
  simp only [window, List.range_add, List.map_append, List.map_map, Function.comp_def,
    Nat.add_assoc]

theorem storeBytes_append (mem : Mem) (addr : Nat) (first second : List UInt8) :
    storeBytes mem addr (first ++ second) =
      storeBytes (storeBytes mem addr first) (addr + first.length) second := by
  induction first generalizing mem addr with
  | nil => rfl
  | cons byte rest ih =>
      rw [List.cons_append, storeBytes, ih, storeBytes, List.length_cons, Nat.add_right_comm,
        Nat.add_assoc]

theorem byteAt_storeBytes_of_apart (mem : Mem) (addr : Nat) (bytes : List UInt8) (other : Nat)
    (apart : ∀ i < bytes.length, bus (addr + i) ≠ bus other) :
    byteAt (storeBytes mem addr bytes) other = byteAt mem other := by
  induction bytes generalizing mem addr with
  | nil => rfl
  | cons byte rest ih =>
      have head : bus addr ≠ bus other := apart 0 (Nat.zero_lt_succ _)
      rw [storeBytes, ih _ (addr + 1), byteAt_update_of_ne mem addr other byte head]
      intro i bound
      rw [Nat.add_assoc, Nat.add_comm 1 i]
      exact apart (i + 1) (Nat.succ_lt_succ bound)

theorem bytesAt_append (mem : Mem) (addr first second : Nat) :
    bytesAt mem addr (first + second) = bytesAt mem addr first ++ bytesAt mem (addr + first) second := by
  induction first generalizing addr with
  | zero => simp [bytesAt]
  | succ first ih =>
      rw [Nat.add_right_comm, bytesAt, ih, bytesAt, List.cons_append, Nat.add_assoc,
        Nat.add_comm 1 first]

theorem bytesAt_storeBytes_self (mem : Mem) (addr : Nat) (bytes : List UInt8)
    (fits : bytes.length ≤ 2 ^ 32) :
    bytesAt (storeBytes mem addr bytes) addr bytes.length = bytes := by
  induction bytes generalizing mem addr with
  | nil => rfl
  | cons byte rest ih =>
      rw [List.length_cons] at fits
      have fresh : ∀ i < rest.length, bus (addr + 1 + i) ≠ bus addr := by
        intro i bound same
        simp only [bus] at same
        omega
      rw [List.length_cons, bytesAt, storeBytes, ih _ (addr + 1) (by omega),
        byteAt_storeBytes_of_apart _ _ _ _ fresh, byteAt_update_self]

/-! ## Texts -/

/-- From every memory that holds the source's bytes in a region, a program fetches from that
region only and stores a text at an offset of a buffer, byte after byte. -/
structure Emits (region : Nat → Prop) (source : Mem) (base offset : Nat) (text : List UInt8)
    (prog : StoreProg Unit) : Prop where
  fetched : ∀ mem, AgreeOn region source mem → ∀ target ∈ fetches mem prog, region target
  stored : ∀ mem, AgreeOn region source mem →
    stores mem prog = window (base + offset) text.length
  left : ∀ mem, AgreeOn region source mem →
    final mem prog = storeBytes mem (base + offset) text

section Emits

variable {region : Nat → Prop} {source : Mem} {base offset : Nat}

theorem emits_store (byte : UInt8) :
    Emits region source base offset [byte] (storeByte (base + offset) byte) :=
  ⟨fun _ _ _ inside => (nomatch inside), fun _ _ => rfl, fun _ _ => rfl⟩

theorem emits_pure : Emits region source base offset [] (pure ()) :=
  ⟨fun _ _ _ inside => (nomatch inside), fun _ _ => rfl, fun _ _ => rfl⟩

theorem emits_reading {reader : ReadProg α} {next : α → StoreProg Unit} {text : List UInt8}
    (inside : ∀ target ∈ reads source reader, region target)
    (rest : Emits region source base offset text (next (value source reader))) :
    Emits region source base offset text (reading reader >>= next) := by
  have same (mem : Mem) (agree : AgreeOn region source mem) :
      ∀ addr ∈ reads source reader, source addr = mem addr := by
    intro addr member
    have held := agree addr
    rw [bus_of_mem_reads member, byteAt, byteAt, bus_of_mem_reads member] at held
    exact held (inside addr member)
  have known (mem : Mem) (agree : AgreeOn region source mem) :
      value mem reader = value source reader :=
    (value_congr source mem reader (same mem agree)).symm
  refine ⟨?_, ?_, ?_⟩
  · intro mem agree target member
    rw [fetches_bind, fetches_reading, final_reading, result_reading, known mem agree,
      List.mem_append, ← reads_congr source mem reader (same mem agree)] at member
    rcases member with here | later
    · exact inside target here
    · exact rest.fetched mem agree target later
  · intro mem agree
    rw [stores_bind, stores_reading, final_reading, result_reading, known mem agree]
    exact rest.stored mem agree
  · intro mem agree
    rw [final_bind, final_reading, result_reading, known mem agree]
    exact rest.left mem agree

theorem emits_seq {size : Nat} (free : ∀ i < size, ¬ region (bus (base + i)))
    {first second : List UInt8} {prog next : StoreProg Unit}
    (inside : offset + first.length ≤ size)
    (head : Emits region source base offset first prog)
    (rest : Emits region source base (offset + first.length) second next) :
    Emits region source base offset (first ++ second) (prog >>= fun _ => next) := by
  have kept (mem : Mem) (agree : AgreeOn region source mem) :
      AgreeOn region source (storeBytes mem (base + offset) first) := by
    intro addr within
    rw [agree addr within, byteAt_storeBytes_of_apart]
    intro i bound same
    rw [← same, Nat.add_assoc] at within
    exact free (offset + i) (by omega) within
  refine ⟨?_, ?_, ?_⟩
  · intro mem agree target member
    rw [fetches_bind, head.left mem agree, List.mem_append] at member
    rcases member with here | later
    · exact head.fetched mem agree target here
    · exact rest.fetched _ (kept mem agree) target later
  · intro mem agree
    rw [stores_bind, head.left mem agree, head.stored mem agree, rest.stored _ (kept mem agree),
      List.length_append, window_add, Nat.add_assoc]
  · intro mem agree
    rw [final_bind, head.left mem agree, rest.left _ (kept mem agree), storeBytes_append,
      Nat.add_assoc]

end Emits

end ArcFirmware.Store
