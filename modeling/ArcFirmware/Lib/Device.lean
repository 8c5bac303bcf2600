import ArcFirmware.Lib.Port

/-!
# Programs on a device

A device answers a port from its state and takes what is written.  On such a
device a program has one run: `serve` computes it, and every run that the device
answers is a part of it.
-/

set_option autoImplicit false

namespace ArcFirmware.OnDevice

open ArcFirmware.Port

structure Device (port word σ : Type) where
  answer : σ → port → word
  write : σ → port → word → σ

variable {port word σ α β : Type} (device : Device port word σ)

def Device.step (now : σ) : Event port word → σ
  | .read _ _ => now
  | .write target value => device.write now target value

def Device.after (now : σ) (trace : List (Event port word)) : σ := trace.foldl device.step now

def Device.Answers : σ → List (Event port word) → Prop
  | _, [] => True
  | now, .read source answer :: rest => answer = device.answer now source ∧ Answers now rest
  | now, .write target value :: rest => Answers (device.write now target value) rest

/-- The run of a program on the device; the outcome is `none` where it halts. -/
def serve : PortProg port word α → σ → List (Event port word) × Option α
  | .ret value, _ => ([], some value)
  | .halt, _ => ([], none)
  | .input source next, now =>
      let rest := serve (next (device.answer now source)) now
      (.read source (device.answer now source) :: rest.1, rest.2)
  | .output target value next, now =>
      let rest := serve next (device.write now target value)
      (.write target value :: rest.1, rest.2)

theorem after_append (now : σ) (first second : List (Event port word)) :
    device.after now (first ++ second) = device.after (device.after now first) second :=
  List.foldl_append

theorem runs_serve (prog : PortProg port word α) (now : σ) :
    Runs prog (serve device prog now).1 (serve device prog now).2 ∧
      device.Answers now (serve device prog now).1 := by
  induction prog generalizing now with
  | ret value => exact ⟨.ret value, trivial⟩
  | halt => exact ⟨.stop _, trivial⟩
  | input source next ih =>
      obtain ⟨run, answered⟩ := ih (device.answer now source) now
      exact ⟨.input run, rfl, answered⟩
  | output target value next ih =>
      obtain ⟨run, answered⟩ := ih (device.write now target value)
      exact ⟨.output run, answered⟩

section Rules

variable {device}

theorem serve_bind {prog : PortProg port word α} {next : α → PortProg port word β} {now : σ}
    {trace : List (Event port word)} {value : α} (head : serve device prog now = (trace, some value)) :
    serve device (prog >>= next) now =
      (trace ++ (serve device (next value) (device.after now trace)).1,
        (serve device (next value) (device.after now trace)).2) := by
  induction prog generalizing now trace with
  | ret result =>
      cases head
      rfl
  | halt => cases head
  | input source rest ih =>
      obtain ⟨rfl, returned⟩ := Prod.mk.inj head
      have tail := ih (device.answer now source) (Prod.ext rfl returned)
      change (_ :: (serve device (rest (device.answer now source) >>= next) now).1,
        (serve device (rest (device.answer now source) >>= next) now).2) = _
      rw [tail]
      rfl
  | output target word rest ih =>
      obtain ⟨rfl, returned⟩ := Prod.mk.inj head
      have tail := ih (Prod.ext rfl returned)
      change (_ :: (serve device (rest >>= next) (device.write now target word)).1,
        (serve device (rest >>= next) (device.write now target word)).2) = _
      rw [tail]
      rfl

theorem serve_of_runs {prog : PortProg port word α} {now : σ} {trace : List (Event port word)}
    {outcome : Option α} (run : Runs prog trace outcome) (answered : device.Answers now trace) :
    trace <+: (serve device prog now).1 ∧
      ∀ value, outcome = some value → serve device prog now = (trace, some value) := by
  induction run generalizing now with
  | ret value =>
      refine ⟨List.nil_prefix, fun result same => ?_⟩
      cases same
      rfl
  | stop prog => exact ⟨List.nil_prefix, fun _ same => nomatch same⟩
  | input rest ih =>
      obtain ⟨rfl, answered⟩ := answered
      obtain ⟨inside, returned⟩ := ih answered
      refine ⟨List.cons_prefix_cons.mpr ⟨rfl, inside⟩, fun value same => ?_⟩
      rw [serve, returned value same]
  | output rest ih =>
      obtain ⟨inside, returned⟩ := ih answered
      refine ⟨List.cons_prefix_cons.mpr ⟨rfl, inside⟩, fun value same => ?_⟩
      rw [serve, returned value same]

end Rules

end ArcFirmware.OnDevice
