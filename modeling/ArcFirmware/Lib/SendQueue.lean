import Mathlib.Data.List.Basic

/-!
# A sender with a bounded queue

Values are pushed into a queue, moved one at a time into a shift stage and from
there onto a line, at whatever pace the environment chooses.  A push into a full
queue drops its value.  Nothing else is lost and the order is kept: what is on
the line, in the stage and in the queue is what was there before and the values
pushed since.
-/

set_option autoImplicit false

namespace ArcFirmware.SendQueue

structure Sender (α : Type) where
  /-- Head first. -/
  waiting : List α
  shift : Option α
  line : List α
  /-- Values pushed into a full queue. -/
  lost : List α
  deriving DecidableEq, Repr

variable {α : Type}

def Idle (sender : Sender α) : Prop := sender.waiting = [] ∧ sender.shift = none

def accepted (sender : Sender α) : List α :=
  sender.line ++ (sender.shift.toList ++ sender.waiting)

theorem accepted_of_idle {sender : Sender α} (idle : Idle sender) : accepted sender = sender.line := by
  rw [accepted, idle.1, idle.2]
  exact List.append_nil _

def push (depth : Nat) (value : α) (sender : Sender α) : Sender α :=
  if sender.waiting.length < depth then
    { sender with waiting := sender.waiting ++ [value] }
  else
    { sender with lost := sender.lost ++ [value] }

def pushAll (depth : Nat) (values : List α) (sender : Sender α) : Sender α :=
  values.foldl (fun now value => push depth value now) sender

/-- The stage takes the head of the queue, or puts its value on the line. -/
inductive Drains : Sender α → Sender α → Prop where
  | refl (sender : Sender α) : Drains sender sender
  | load {first sender : Sender α} {value : α} {rest : List α} (prior : Drains first sender)
      (head : sender.waiting = value :: rest) (free : sender.shift = none) :
      Drains first { sender with waiting := rest, shift := some value }
  | send {first sender : Sender α} {value : α} (prior : Drains first sender)
      (held : sender.shift = some value) :
      Drains first { sender with shift := none, line := sender.line ++ [value] }

/-! ## Pushing -/

theorem accepted_push {depth : Nat} {sender : Sender α} (value : α)
    (room : sender.waiting.length < depth) :
    accepted (push depth value sender) = accepted sender ++ [value] := by
  rw [push, if_pos room]
  simp only [accepted, List.append_assoc]

theorem lost_push {depth : Nat} {sender : Sender α} (value : α)
    (room : sender.waiting.length < depth) : (push depth value sender).lost = sender.lost := by
  rw [push, if_pos room]

theorem length_waiting_push_le (depth : Nat) (sender : Sender α) (value : α) :
    (push depth value sender).waiting.length ≤ sender.waiting.length + 1 := by
  rw [push]
  by_cases room : sender.waiting.length < depth
  · rw [if_pos room]
    exact Nat.le_of_eq List.length_append
  · rw [if_neg room]
    exact Nat.le_succ _

theorem length_push (depth : Nat) (sender : Sender α) (value : α) :
    (push depth value sender).waiting.length + (push depth value sender).lost.length =
      sender.waiting.length + sender.lost.length + 1 := by
  rw [push]
  by_cases room : sender.waiting.length < depth
  · simp only [if_pos room, List.length_append, List.length_singleton]
    omega
  · simp only [if_neg room, List.length_append, List.length_singleton]
    omega

theorem length_waiting_push_le_depth {depth : Nat} {sender : Sender α} (value : α)
    (fits : sender.waiting.length ≤ depth) : (push depth value sender).waiting.length ≤ depth := by
  rw [push]
  by_cases room : sender.waiting.length < depth
  · rw [if_pos room, List.length_append, List.length_singleton]
    exact room
  · rw [if_neg room]
    exact fits

theorem length_lost_pushAll (depth : Nat) (values : List α) (sender : Sender α)
    (fits : sender.waiting.length ≤ depth) :
    sender.waiting.length + sender.lost.length + values.length ≤
      depth + (pushAll depth values sender).lost.length := by
  induction values generalizing sender with
  | nil =>
      rw [pushAll, List.foldl_nil, List.length_nil]
      omega
  | cons value rest ih =>
      have pushed := length_push depth sender value
      have tail := ih (push depth value sender) (length_waiting_push_le_depth value fits)
      rw [pushAll, List.foldl_cons, ← pushAll, List.length_cons]
      omega

/-! ## Draining -/

theorem Drains.accepted {first last : Sender α} (drained : Drains first last) :
    accepted last = accepted first := by
  induction drained with
  | refl => rfl
  | load _ head free ih =>
      rw [← ih, SendQueue.accepted, SendQueue.accepted, head, free]
      rfl
  | send _ held ih =>
      rw [← ih, SendQueue.accepted, SendQueue.accepted, held, List.append_assoc]
      rfl

theorem Drains.lost {first last : Sender α} (drained : Drains first last) :
    last.lost = first.lost := by
  induction drained with
  | refl => rfl
  | load _ _ _ ih => exact ih
  | send _ _ ih => exact ih

theorem Drains.length_waiting_le {first last : Sender α} (drained : Drains first last) :
    last.waiting.length ≤ first.waiting.length := by
  induction drained with
  | refl => exact Nat.le_refl _
  | load _ head _ ih =>
      rw [head] at ih
      exact Nat.le_of_succ_le ih
  | send _ _ ih => exact ih

theorem Drains.eq_of_idle {first last : Sender α} (drained : Drains first last)
    (idle : Idle first) : last = first := by
  induction drained with
  | refl => rfl
  | load _ head _ ih =>
      rw [ih, idle.1] at head
      cases head
  | send _ held ih =>
      rw [ih, idle.2] at held
      cases held

end ArcFirmware.SendQueue
