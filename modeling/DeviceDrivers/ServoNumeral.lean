import Mathlib.Data.List.TakeWhile
import Mathlib.Data.Nat.Digits.Defs
import DeviceDrivers.ServoAgreement

/-!
# Which arguments `set` takes

An angle on the command line is a decimal numeral from 0 to 255. `dev_set` judges
the argument by `atoi`, which reads a prefix, saturates at a `long` and is cut to
an `int`, so other strings pass for such a number too.
-/
namespace Servo

open Interaction

/-- The number that a string of digits spells, the first of them the most significant. -/
def numeralValue (s : List UInt8) : Nat := Nat.ofDigits 10 (s.reverse.map fun c => c.toNat - 48)

/-- The whole argument is a decimal numeral of a number from 0 to 255. -/
def Numeral (s : List UInt8) : Prop :=
  s ≠ [] ∧ (∀ c ∈ s, isdigit c = true) ∧ numeralValue s ≤ 255

instance (s : List UInt8) : Decidable (Numeral s) := inferInstanceAs (Decidable (_ ∧ _ ∧ _))

/-- What the loop of `strtol` adds up is the number its digits spell. -/
theorem digitsValue_eq (s : List UInt8) (h : ∀ c ∈ s, isdigit c = true) :
    digitsValue s = numeralValue s := by
  have hall : s.takeWhile isdigit = s := List.takeWhile_eq_self_iff.mpr h
  rw [digitsValue, hall]
  clear h hall
  induction s using List.reverseRecOn with
  | nil => rfl
  | append_singleton s c ih =>
    rw [List.foldl_append, List.foldl_cons, List.foldl_nil, ih, numeralValue, numeralValue,
      List.reverse_append, List.reverse_singleton, List.singleton_append, List.map_cons,
      Nat.ofDigits_cons, Nat.add_comm]

theorem isdigit_range (c : UInt8) (h : isdigit c = true) : 48 ≤ c.toNat ∧ c.toNat ≤ 57 := by
  simpa [isdigit, UInt8.le_iff_toNat_le] using h

theorem isdigit_not_isspace (c : UInt8) (h : isdigit c = true) : isspace c = false := by
  have hrange := isdigit_range c h
  have hblank : c ≠ 32 := by
    rintro rfl
    exact absurd hrange.1 (by decide)
  have hcontrol : ¬(c.toNat ≤ 13) := by omega
  simpa [isspace, hblank, UInt8.le_iff_toNat_le] using fun _ => Nat.lt_of_not_le hcontrol

/-- A numeral is read whole: no blank, no sign, nothing behind it. -/
theorem strtol_numeral (s : List UInt8) (h : Numeral s) : strtol s = numeralValue s := by
  obtain ⟨hne, hdigits, hvalue⟩ := h
  rw [← digitsValue_eq s hdigits] at hvalue ⊢
  cases s with
  | nil => exact absurd rfl hne
  | cons c cs =>
    have hc := hdigits c List.mem_cons_self
    have hrange := isdigit_range c hc
    have hminus : c ≠ 45 := by
      rintro rfl
      exact absurd hrange.1 (by decide)
    have hplus : c ≠ 43 := by
      rintro rfl
      exact absurd hrange.1 (by decide)
    have hword : (c :: cs).dropWhile isspace = c :: cs := by
      simp [isdigit_not_isspace c hc]
    simp only [strtol, hword, hminus, hplus, if_false, longMin, longMax]
    omega

/-- The check in `dev_set` sees the low 32 bits of what `strtol` returns. -/
theorem inRange_iff (s : List UInt8) : InRange s ↔ strtol s % 2 ^ 32 ≤ 255 := by
  have hmod := Int.emod_nonneg (strtol s) (by decide : (2 : Int) ^ 32 ≠ 0)
  have hlt := Int.emod_lt_of_pos (strtol s) (by decide : (0 : Int) < 2 ^ 32)
  simp only [InRange, atoi, BitVec.toInt_ofInt, Int.bmod]
  norm_num at hmod hlt ⊢
  split
  · omega
  · omega

theorem inRange_numeral (s : List UInt8) (h : Numeral s) : InRange s := by
  rw [inRange_iff, strtol_numeral s h]
  have hvalue := h.2.2
  omega

theorem lowByte_numeral (s : List UInt8) (h : Numeral s) :
    (lowByte s).toNat = numeralValue s := by
  have hvalue := h.2.2
  simp only [lowByte, atoi, strtol_numeral s h, UInt8.toNat_ofBitVec, BitVec.toNat_setWidth,
    BitVec.toNat_ofInt]
  omega

variable {δ : Type}

/-- `CMD_SET` goes out for numerals only and sets the angle they spell; any other
argument is refused with nothing sent. -/
def TakesNumerals (arg : List UInt8) (before after : Bus) (log : List (ControlMsg δ × Answer))
    (outcome : Outcome) : Prop :=
  ((∃ e ∈ log, e.1.request = cmdSet) ↔ Numeral arg) ∧
  (Numeral arg → after.fw.angle.toNat = numeralValue arg) ∧
  (¬Numeral arg → log = [] ∧ after.fw.angle = before.fw.angle ∧
    ∃ code, outcome.ended = .exited code ∧ code ≠ 0)

section Set

variable (handle : δ) (usbStrerror : Int → String) (retries : Nat)
variable (name command arg : List UInt8)

theorem trace_devSet_accepted (bus : Bus) (h : InRange arg) :
    (trace (transfer { retries := retries, failure := none })
      (devSet handle usbStrerror [name, command, arg]) bus).map (·.1.request) = [cmdSet] := by
  have hrange : ¬((atoi arg).toInt < 0 ∨ (atoi arg).toInt > 255) := by
    simp only [InRange] at h
    omega
  have hret := transfer_ret_nonneg retries bus
    (setMsg handle (UInt16.ofBitVec ((atoi arg).setWidth 16)))
  simp only [devSet, hrange, if_false, trace_call, not_lt.mpr hret, trace_done]
  rfl

/-- The tool takes exactly the numerals among the arguments whose low 32 bits are
a number up to 255, and refuses all others. -/
theorem devSet_takesNumerals_iff (bus : Bus) :
    let program := devSet handle usbStrerror [name, command, arg]
    let link := transfer { retries := retries, failure := none }
    TakesNumerals arg bus (exec link program bus).1 (trace link program bus)
        (exec link program bus).2 ↔
      Numeral arg ∨ strtol arg % 2 ^ 32 > 255 := by
  intro program link
  rw [gt_iff_lt, ← not_le, ← inRange_iff]
  by_cases hrange : InRange arg
  · have hsent : ∃ e ∈ trace link program bus, e.1.request = cmdSet := by
      have hone := trace_devSet_accepted handle usbStrerror retries name command arg bus hrange
      have hmem : cmdSet ∈ (trace link program bus).map (·.1.request) := by
        rw [hone]
        exact List.mem_singleton_self _
      simpa using hmem
    have hangle := (exec_devSet_accepted handle usbStrerror retries name command arg bus hrange.1
      hrange.2).2
    simp only [hrange, not_true_eq_false, or_false]
    constructor
    · intro htakes
      exact htakes.1.mp hsent
    · intro hnumeral
      refine ⟨iff_of_true hsent hnumeral, fun _ => ?_, fun hnot => absurd hnumeral hnot⟩
      rw [hangle]
      exact lowByte_numeral arg hnumeral
  · have hnumeral : ¬Numeral arg := fun h => hrange (inRange_numeral arg h)
    have hrefused : (atoi arg).toInt < 0 ∨ (atoi arg).toInt > 255 := by
      simp only [InRange] at hrange
      omega
    have hdone := devSet_refused handle usbStrerror name command arg hrefused
    simp only [hrange, not_false_eq_true, or_true, iff_true]
    refine ⟨?_, fun h => absurd h hnumeral, fun _ => ?_⟩
    · simp [program, hdone, hnumeral]
    · rw [show program = _ from hdone]
      exact ⟨rfl, rfl, 1, rfl, by decide⟩

end Set

/-- `set abc` moves the servo from 5 to 0. -/
theorem devSet_takes_abc :
    let bus : Bus := { fw := { angle := 5, replyBuffer := Vector.replicate 8 0 }, log := [] }
    let program := devSet () (fun _ => "") [[], setWord, [97, 98, 99]]
    let link := transfer { retries := 0, failure := none }
    ¬TakesNumerals [97, 98, 99] bus (exec link program bus).1 (trace link program bus)
      (exec link program bus).2 := by
  intro bus program link htakes
  have hsent : (trace link program bus).length = 1 := by decide
  have hnone := (htakes.2.2 (by decide)).1
  rw [hnone] at hsent
  exact absurd hsent (by decide)

end Servo
