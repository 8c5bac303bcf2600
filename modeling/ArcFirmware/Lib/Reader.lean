import ArcFirmware.Lib.Loop
import ArcFirmware.Lib.Memory

/-!
# Programs that only read memory

A reader is a tree of single-byte fetches, so what it returns and which
addresses it touched are both functions of the tree.  The value of a reader
depends on nothing but the bytes it fetched (`value_congr`), and a loop of
readers depends on nothing but the bytes fetched at the heads it visits
(`run_congr_of_reads`).
-/

set_option autoImplicit false

namespace ArcFirmware.Reader

open ArcFirmware.Memory ArcFirmware.Loop

inductive ReadProg (α : Type) where
  | ret (value : α)
  | fetch (addr : Nat) (rest : UInt8 → ReadProg α)

variable {α β : Type}

def ReadProg.bind : ReadProg α → (α → ReadProg β) → ReadProg β
  | .ret value, next => next value
  | .fetch addr rest, next => .fetch addr fun byte => (rest byte).bind next

instance : Monad ReadProg where
  pure := .ret
  bind := ReadProg.bind

def readByte (addr : Nat) : ReadProg UInt8 := .fetch addr .ret

def readLe (addr : Nat) : Nat → ReadProg Nat
  | 0 => pure 0
  | count + 1 => do
      let low ← readByte addr
      let high ← readLe (addr + 1) count
      pure (low.toNat + 256 * high)

def readBytes (addr : Nat) : Nat → ReadProg (List UInt8)
  | 0 => pure []
  | count + 1 => do
      let head ← readByte addr
      let tail ← readBytes (addr + 1) count
      pure (head :: tail)

def value (mem : Mem) : ReadProg α → α
  | .ret result => result
  | .fetch addr rest => value mem (rest (byteAt mem addr))

def reads (mem : Mem) : ReadProg α → List Nat
  | .ret _ => []
  | .fetch addr rest => bus addr :: reads mem (rest (byteAt mem addr))

@[simp] theorem value_pure (mem : Mem) (result : α) :
    value mem (pure result : ReadProg α) = result := rfl

@[simp] theorem reads_pure (mem : Mem) (result : α) :
    reads mem (pure result : ReadProg α) = [] := rfl

@[simp] theorem value_bind (mem : Mem) (prog : ReadProg α) (next : α → ReadProg β) :
    value mem (prog >>= next) = value mem (next (value mem prog)) := by
  induction prog with
  | ret result => rfl
  | fetch addr rest ih => exact ih (byteAt mem addr)

@[simp] theorem reads_bind (mem : Mem) (prog : ReadProg α) (next : α → ReadProg β) :
    reads mem (prog >>= next) = reads mem prog ++ reads mem (next (value mem prog)) := by
  induction prog with
  | ret result => rfl
  | fetch addr rest ih => exact congrArg (bus addr :: ·) (ih (byteAt mem addr))

@[simp] theorem value_ite (mem : Mem) (test : Prop) [Decidable test]
    (yes no : ReadProg α) :
    value mem (if test then yes else no) = if test then value mem yes else value mem no :=
  apply_ite (value mem) test yes no

@[simp] theorem reads_ite (mem : Mem) (test : Prop) [Decidable test]
    (yes no : ReadProg α) :
    reads mem (if test then yes else no) = if test then reads mem yes else reads mem no :=
  apply_ite (reads mem) test yes no

@[simp] theorem value_readByte (mem : Mem) (addr : Nat) :
    value mem (readByte addr) = byteAt mem addr := rfl

@[simp] theorem reads_readByte (mem : Mem) (addr : Nat) :
    reads mem (readByte addr) = [bus addr] := rfl

@[simp] theorem value_readLe (mem : Mem) (addr count : Nat) :
    value mem (readLe addr count) = leAt mem addr count := by
  induction count generalizing addr with
  | zero => rfl
  | succ count ih => simp [readLe, leAt, ih]

theorem mem_reads_readLe (mem : Mem) (addr count target : Nat) :
    target ∈ reads mem (readLe addr count) ↔ ∃ i < count, target = bus (addr + i) := by
  induction count generalizing addr with
  | zero => simp [readLe]
  | succ count ih =>
      simp only [readLe, reads_bind, reads_readByte, reads_pure, List.append_nil,
        List.singleton_append, List.mem_cons, ih]
      constructor
      · rintro (rfl | ⟨i, bound, rfl⟩)
        · exact ⟨0, by omega, rfl⟩
        · exact ⟨i + 1, by omega, by rw [Nat.add_right_comm, Nat.add_assoc]⟩
      · rintro ⟨i, bound, rfl⟩
        cases i with
        | zero => exact Or.inl rfl
        | succ i => exact Or.inr ⟨i, by omega, by rw [Nat.add_right_comm, Nat.add_assoc]⟩

@[simp] theorem value_readBytes (mem : Mem) (addr count : Nat) :
    value mem (readBytes addr count) = bytesAt mem addr count := by
  induction count generalizing addr with
  | zero => rfl
  | succ count ih => simp [readBytes, bytesAt, ih]

theorem mem_reads_readBytes (mem : Mem) (addr count target : Nat) :
    target ∈ reads mem (readBytes addr count) ↔ ∃ i < count, target = bus (addr + i) := by
  rw [← mem_reads_readLe mem addr count target]
  induction count generalizing addr with
  | zero => rfl
  | succ count ih => simp [readBytes, readLe, ih]

/-- A reader sees only the bytes it fetched. -/
theorem value_congr (left right : Mem) (prog : ReadProg α)
    (same : ∀ addr ∈ reads left prog, left addr = right addr) :
    value left prog = value right prog := by
  induction prog with
  | ret result => rfl
  | fetch addr rest ih =>
      have here : byteAt left addr = byteAt right addr := same (bus addr) (by simp [reads])
      rw [value, value, ← here]
      exact ih (byteAt left addr) fun other member => same other (by simp [reads, member])

theorem reads_congr (left right : Mem) (prog : ReadProg α)
    (same : ∀ addr ∈ reads left prog, left addr = right addr) :
    reads left prog = reads right prog := by
  induction prog with
  | ret result => rfl
  | fetch addr rest ih =>
      have here : byteAt left addr = byteAt right addr := same (bus addr) (by simp [reads])
      rw [reads, reads, ← here,
        ih (byteAt left addr) fun other member => same other (by simp [reads, member])]

theorem bus_of_mem_reads {mem : Mem} {prog : ReadProg α} {target : Nat}
    (member : target ∈ reads mem prog) : bus target = target := by
  induction prog with
  | ret result => cases member
  | fetch addr rest ih =>
      rcases List.mem_cons.mp member with rfl | inside
      · exact bus_bus addr
      · exact ih (byteAt mem addr) inside

/-- A loop of readers sees only the bytes fetched at the heads it visits. -/
theorem run_congr_of_reads {σ ρ : Type} (left right : Mem) (body : σ → ReadProg (Step σ ρ))
    {start : σ}
    (same : ∀ state, Reaches (fun s => value left (body s)) start state →
      ∀ addr ∈ reads left (body state), left addr = right addr)
    (fuel : Nat) :
    run (fun s => value left (body s)) fuel start =
      run (fun s => value right (body s)) fuel start :=
  run_congr (fun state reached => value_congr left right (body state) (same state reached)) fuel

end ArcFirmware.Reader
