import Os161.Lib.Run

/-!
# Output on the console

`putch` of `kern/dev/generic/console.c` over the driver `kern/dev/lamebus/lser.c`. A thread waits at
`cs_wsem` before it writes. With interrupts off the kernel polls.
-/

open Os161.Lib

namespace Os161.Console

/-- `active` is the interrupt bit, `sending` what the device has, `line` what it has sent, and `writers`
what the threads behind `P(cs_wsem)` have. `written` is history. -/
structure State where
  wsem : Nat
  wbusy : Bool
  active : Bool
  sending : Option UInt8
  line : List UInt8
  writers : List UInt8
  written : List UInt8
  panicked : Bool

def start : State := ⟨1, false, false, none, [], [], [], false⟩

/-- What the device has not sent yet is lost. -/
def writeChar (s : State) (ch : UInt8) : State :=
  { s with sending := some ch, written := s.written ++ [ch] }

def lserWrite (s : State) (ch : UInt8) : State :=
  if s.wbusy then { s with panicked := true } else writeChar { s with wbusy := true } ch

def finish (s : State) (ch : UInt8) : State :=
  { s with line := s.line ++ [ch], sending := none, active := true }

def clear (s : State) : State := { s with active := false }

/-- `none` is a loop without end. -/
def lserSpinUntilWrite (s : State) : Option State :=
  if s.active then some s else s.sending.map (finish s)

def lserWritepolled (s : State) (ch : UInt8) : Option State := do
  let irqpending := s.wbusy
  let s ← if irqpending then (lserSpinUntilWrite s).map clear else some s
  let s ← lserSpinUntilWrite (writeChar s ch)
  some (if irqpending then s else clear s)

def conStart (s : State) : State := { s with wsem := s.wsem + 1 }

def lserIrq (s : State) : State := if s.active then conStart (clear { s with wbusy := false }) else s

inductive Label where
  | wait (ch : UInt8)
  | send (i : Nat)
  | polled (ch : UInt8)
  | finish
  | irq

/-- `putch_intr` is `wait` and `send`. -/
def step (s : State) : Label → Option State
  | .wait ch =>
    if 0 < s.wsem then some { s with wsem := s.wsem - 1, writers := ch :: s.writers } else none
  | .send i => s.writers[i]?.map (lserWrite { s with writers := s.writers.eraseIdx i })
  | .polled ch => lserWritepolled s ch
  | .finish => s.sending.map (finish s)
  | .irq => some (lserIrq s)

structure Right (s : State) : Prop where
  running : s.panicked = false
  order : s.line ++ s.sending.toList = s.written
  polls : ∀ ch, (lserWritepolled s ch).isSome
  /-- At the semaphore a thread waits for another one, the device or the interrupt. -/
  wakes : s.wsem = 0 → s.writers ≠ [] ∨ s.sending.isSome ∨ s.active = true

/-- One token is at the semaphore, with a thread or with the device. -/
structure Inv (s : State) : Prop where
  running : s.panicked = false
  order : s.line ++ s.sending.toList = s.written
  token : s.wsem + s.writers.length + s.wbusy.toNat = 1
  busy : s.wbusy = (s.sending.isSome || s.active)
  idle : s.active = true → s.sending = none

variable {s s' : State} {ch : UInt8}

/-- The interrupt that polling finds pending is still to come. -/
theorem Inv.lserWritepolled (h : Inv s) (ch : UInt8) : lserWritepolled s ch = some { s with
    line := s.line ++ s.sending.toList ++ [ch], sending := none, active := s.wbusy,
    written := s.written ++ [ch] } := by
  have hbusy := h.busy
  unfold Console.lserWritepolled lserSpinUntilWrite
  cases ha : s.active with
  | true => simp [hbusy, ha, h.idle ha, clear, writeChar, finish]
  | false => cases hs : s.sending <;> simp [hbusy, ha, hs, clear, writeChar, finish]

theorem Inv.right (h : Inv s) : Right s := by
  have htoken := h.token
  refine ⟨h.running, h.order, fun ch => by rw [h.lserWritepolled]; rfl, fun hw => ?_⟩
  cases hs : s.writers with
  | nil =>
    have hbusy : s.wbusy = true := by
      simpa [hw, hs, Bool.toNat_eq_one] using htoken
    simpa [hbusy] using h.busy.symm
  | cons ch rest => simp

theorem Inv.step (h : Inv s) (l : Label) (hs : Console.step s l = some s') : Inv s' := by
  have htoken := h.token
  cases l with
  | wait ch =>
    obtain ⟨hpos, rfl⟩ := Option.ite_some_none_eq_some.mp hs
    refine ⟨h.running, h.order, ?_, h.busy, h.idle⟩
    simp only [List.length_cons]
    omega
  | send i =>
    obtain ⟨ch, hch, rfl⟩ := Option.map_eq_some_iff.mp hs
    have hlt := (List.getElem?_eq_some_iff.mp hch).1
    -- the thread has the token, so the device does not
    have hbusy : s.wbusy = false := Bool.toNat_eq_zero.mp (by omega)
    obtain ⟨hsending, hactive⟩ : s.sending = none ∧ s.active = false := by
      simpa [hbusy] using h.busy.symm
    have horder := h.order
    rw [hsending] at horder
    simp only [lserWrite, hbusy, writeChar, Bool.false_eq_true, if_false]
    refine ⟨h.running, ?_, ?_, by simp, by simp [hactive]⟩
    · simpa using horder
    · simp only [List.length_eraseIdx_of_lt hlt, Bool.toNat_true]
      omega
  | polled ch =>
    rw [Console.step, h.lserWritepolled] at hs
    cases hs
    exact ⟨h.running, by simp [← h.order], htoken, by simp, fun _ => rfl⟩
  | finish =>
    obtain ⟨ch, hch, rfl⟩ := Option.map_eq_some_iff.mp hs
    have hbusy : s.wbusy = true := by simp [h.busy, hch]
    exact ⟨h.running, by simp [finish, ← h.order, hch], htoken, by simp [finish, hbusy], fun _ => rfl⟩
  | irq =>
    cases hs
    unfold lserIrq
    split
    · rename_i hactive
      have hbusy : s.wbusy = true := by simp [h.busy, hactive]
      refine ⟨h.running, h.order, ?_, by simp [conStart, clear, h.idle hactive], nofun⟩
      simp only [hbusy, Bool.toNat_true] at htoken
      simp only [conStart, clear, Bool.toNat_false]
      omega
    · exact h

theorem output_right (ls : List Label) : Always step Right start ls := by
  refine always_of_inv (I := Inv) (fun _ l _ h hs => h.step l hs) (fun _ h => h.right) ?_ ls
  exact ⟨rfl, rfl, rfl, rfl, fun _ => rfl⟩

end Os161.Console
