import ArcFirmware.Lib.Port

/-!
# Labelled code

Lines of instructions and local labels, a machine that fetches them by a program
counter, and jumps to the next label of a name.  Such jumps only go forward, so a
machine with as much fuel as there are lines left does what a reader does who
follows the lines from top to bottom; and a block that jumps to the label at its
end is a part of the code by itself.
-/

set_option autoImplicit false

namespace ArcFirmware.Assembly

open ArcFirmware.Port

inductive Line (label instr : Type) where
  | label (name : label)
  | instr (op : instr)
  deriving DecidableEq, Repr

inductive Flow (label symbol state : Type) where
  | next (after : state)
  /-- To the next label of a name. -/
  | jump (name : label) (after : state)
  | call (target : symbol) (after : state)
  | stop (after : state)

/-- How code is left; a call has the address to return to. -/
inductive Exit (symbol state : Type) where
  | call (target : symbol) (back : Nat) (after : state)
  | stop (after : state)
  | ranOff (after : state)
  deriving DecidableEq, Repr

variable {label instr symbol state port word : Type} [DecidableEq label]

def forward (name : label) : List (Line label instr) → Option Nat
  | [] => none
  | .label here :: rest => if here = name then some 0 else (forward name rest).map (· + 1)
  | .instr _ :: rest => (forward name rest).map (· + 1)

section Machine

variable (step : instr → state → PortProg port word (Flow label symbol state))

/-! ## The machine -/

def fetch (code : List (Line label instr)) :
    Nat × state → PortProg port word (Loop.Step (Nat × state) (Exit symbol state))
  | (pc, now) =>
    match code.drop pc with
    | [] => pure (.done (.ranOff now))
    | .label _ :: _ => pure (.next (pc + 1, now))
    | .instr op :: rest => do
        match ← step op now with
        | .next after => pure (.next (pc + 1, after))
        | .jump name after =>
            match forward name rest with
            | some ahead => pure (.next (pc + 1 + ahead, after))
            | none => .halt
        | .call target after => pure (.done (.call target (pc + 1) after))
        | .stop after => pure (.done (.stop after))

def execute (code : List (Line label instr)) (fuel pc : Nat) (now : state) :
    PortProg port word (Exit symbol state) :=
  loop (fetch step code) fuel (pc, now)

/-! ## From top to bottom -/

/-- The lines one after the other; after a jump, without effect up to its label. -/
def follow : List (Line label instr) → Nat → Option label → state →
    PortProg port word (Exit symbol state)
  | [], _, none, now => pure (.ranOff now)
  | [], _, some _, _ => .halt
  | .label _ :: rest, pc, none, now => follow rest (pc + 1) none now
  | .label here :: rest, pc, some name, now =>
      if here = name then follow rest (pc + 1) none now else follow rest (pc + 1) (some name) now
  | .instr _ :: rest, pc, some name, now => follow rest (pc + 1) (some name) now
  | .instr op :: rest, pc, none, now => do
      match ← step op now with
      | .next after => follow rest (pc + 1) none after
      | .jump name after => follow rest (pc + 1) (some name) after
      | .call target after => pure (.call target (pc + 1) after)
      | .stop after => pure (.stop after)

theorem follow_jump (name : label) (rest : List (Line label instr)) (pc : Nat) (now : state) :
    follow step rest pc (some name) now =
      match forward name rest with
      | some ahead => follow step (rest.drop ahead) (pc + ahead) none now
      | none => .halt := by
  induction rest generalizing pc with
  | nil => rfl
  | cons line rest ih =>
      have further : follow step rest (pc + 1) (some name) now =
          match (forward name rest).map (· + 1) with
          | some ahead => follow step ((line :: rest).drop ahead) (pc + ahead) none now
          | none => .halt := by
        rw [ih]
        cases forward name rest with
        | none => rfl
        | some ahead =>
            simp only [Option.map_some, List.drop_succ_cons, Nat.add_assoc, Nat.add_comm 1]
      cases line with
      | label here =>
          rw [follow, forward]
          by_cases same : here = name
          · rw [if_pos same, if_pos same]
            rfl
          · rw [if_neg same, if_neg same]
            exact further
      | instr op => exact further

/-- Where the fuel covers the lines that are left, the machine does what the lines say. -/
theorem execute_eq_follow (code : List (Line label instr)) (fuel pc : Nat) (now : state)
    (enough : code.length - pc < fuel) :
    execute step code fuel pc now = follow step (code.drop pc) pc none now := by
  induction fuel generalizing pc now with
  | zero => exact absurd enough (Nat.not_lt_zero _)
  | succ fuel ih =>
      cases left : code.drop pc with
      | nil =>
          rw [execute, loop, fetch, left]
          rfl
      | cons line rest =>
          have more : pc < code.length := by
            by_contra past
            rw [List.drop_eq_nil_of_le (Nat.not_lt.mp past)] at left
            cases left
          have next : code.drop (pc + 1) = rest := by
            rw [← List.tail_drop, left]
            rfl
          have straight (after : state) :
              execute step code fuel (pc + 1) after = follow step rest (pc + 1) none after := by
            rw [ih (pc + 1) after (by omega), next]
          rw [execute, loop, fetch, left]
          cases line with
          | label here => exact straight now
          | instr op =>
              rw [follow]
              change step op now >>= _ >>= _ = _
              rw [bind_assoc]
              congr 1
              funext flow
              cases flow with
              | next after => exact straight after
              | call target after => rfl
              | stop after => rfl
              | jump name after =>
                  change _ = follow step rest (pc + 1) (some name) after
                  rw [follow_jump]
                  dsimp only
                  cases forward name rest with
                  | none => rfl
                  | some ahead =>
                      change execute step code fuel (pc + 1 + ahead) after = _
                      rw [ih _ after (by omega), ← next]
                      dsimp only
                      rw [List.drop_drop]

/-! ## Blocks -/

/-- Instructions one after the other; a jump leaves them. -/
def block : List instr → state → PortProg port word state
  | [], now => pure now
  | op :: rest, now => do
      match ← step op now with
      | .next after => block rest after
      | .jump _ after => pure after
      | .call _ _ => .halt
      | .stop _ => .halt

def StaysIn (exit : label) : Flow label symbol state → Prop
  | .next _ => True
  | .jump name _ => name = exit
  | .call _ _ => False
  | .stop _ => False

theorem follow_skip (ops : List instr) (exit : label) (rest : List (Line label instr)) (pc : Nat)
    (now : state) :
    follow step (ops.map Line.instr ++ .label exit :: rest) pc (some exit) now =
      follow step rest (pc + ops.length + 1) none now := by
  induction ops generalizing pc with
  | nil =>
      rw [List.map_nil, List.nil_append, follow, if_pos rfl]
      rfl
  | cons op ops ih =>
      rw [List.map_cons, List.cons_append, follow, ih, List.length_cons, Nat.add_right_comm pc 1,
        Nat.add_assoc pc]

theorem follow_block (ops : List instr) (exit : label)
    (inside : ∀ op ∈ ops, ∀ now, Returns (StaysIn exit) (step op now))
    (rest : List (Line label instr)) (pc : Nat) (now : state) :
    follow step (ops.map Line.instr ++ .label exit :: rest) pc none now =
      block step ops now >>= fun after => follow step rest (pc + ops.length + 1) none after := by
  induction ops generalizing pc now with
  | nil => rfl
  | cons op ops ih =>
      have line : pc + 1 + ops.length + 1 = pc + (op :: ops).length + 1 := by
        rw [List.length_cons]
        omega
      rw [List.map_cons, List.cons_append, follow, block, bind_assoc]
      refine (inside op List.mem_cons_self now).bind_congr fun flow stays => ?_
      cases flow with
      | next after =>
          have later := ih (fun other more => inside other (List.mem_cons_of_mem _ more)) (pc + 1) after
          rw [line] at later
          exact later
      | jump name after =>
          obtain rfl : name = exit := stays
          have skipped := follow_skip step ops name rest (pc + 1) after
          rw [line] at skipped
          exact skipped
      | call target after => cases stays
      | stop after => cases stays

end Machine

end ArcFirmware.Assembly
