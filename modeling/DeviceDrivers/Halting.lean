import Mathlib.Data.Stream.Init
import Mathlib.Logic.Function.Iterate

/-!
# Machines that run by themselves

A machine is a total step function, and a predicate says in which states it is
done. The rules below decide whether a run gets there, also for a machine that
takes its inputs from an endless stream and stops at the first bad one.
-/
namespace Halting

variable {σ α : Type*}

/-- After some number of steps the machine is done. -/
def Halts (step : σ → σ) (Done : σ → Prop) (s : σ) : Prop := ∃ n, Done (step^[n] s)

variable {step : σ → σ} {Done : σ → Prop}

theorem halts_of_done (s : σ) (h : Done s) : Halts step Done s := ⟨0, h⟩

theorem halts_of_step (s : σ) (h : Halts step Done (step s)) : Halts step Done s := by
  obtain ⟨n, hn⟩ := h
  exact ⟨n + 1, hn⟩

theorem halts_iff_step (s : σ) (h : ¬Done s) :
    Halts step Done s ↔ Halts step Done (step s) := by
  refine ⟨?_, halts_of_step s⟩
  rintro ⟨n, hn⟩
  cases n with
  | zero => exact absurd hn h
  | succ n => exact ⟨n, hn⟩

/-- What holds when the machine is done, and before a step when it holds behind it,
holds wherever the machine halts. -/
theorem halts_induction {P : σ → Prop} (hdone : ∀ s, Done s → P s)
    (hstep : ∀ s, ¬Done s → P (step s) → P s) (s : σ) (h : Halts step Done s) : P s := by
  obtain ⟨n, hn⟩ := h
  induction n generalizing s with
  | zero => exact hdone s hn
  | succ n ih =>
    by_cases hs : Done s
    · exact hdone s hs
    · exact hstep s hs (ih (step s) hn)

/-- An invariant without a done state is never left by halting. -/
theorem not_halts_of_invariant (Inv : σ → Prop) (hstep : ∀ s, Inv s → Inv (step s))
    (hdone : ∀ s, Inv s → ¬Done s) (s : σ) (hs : Inv s) : ¬Halts step Done s := by
  intro h
  refine halts_induction (P := fun s => ¬Inv s) ?_ ?_ s h hs
  · exact fun s hend hinv => hdone s hinv hend
  · exact fun s _ hnext hinv => hnext (hstep s hinv)

/-- A machine that takes one value of its stream a step, is done with a bad one and
goes on as it was with any other, halts exactly when a bad one comes. -/
theorem halts_iff_exists_bad (Inv : σ → Prop) (future : σ → Stream' α) (Bad : α → Prop)
    (hrunning : ∀ s, Inv s → ¬Done s) (hbad : ∀ s, Inv s → Bad (future s).head → Done (step s))
    (hgood : ∀ s, Inv s → ¬Bad (future s).head →
      Inv (step s) ∧ future (step s) = (future s).tail) (s : σ) (hs : Inv s) :
    Halts step Done s ↔ ∃ k, Bad ((future s).get k) := by
  constructor
  · intro h
    refine halts_induction (P := fun s => Inv s → ∃ k, Bad ((future s).get k)) ?_ ?_ s h hs
    · exact fun s hend hinv => absurd hend (hrunning s hinv)
    · intro s _ hnext hinv
      by_cases hhead : Bad (future s).head
      · exact ⟨0, hhead⟩
      · obtain ⟨hkept, htail⟩ := hgood s hinv hhead
        obtain ⟨k, hk⟩ := hnext hkept
        rw [htail] at hk
        exact ⟨k + 1, hk⟩
  · rintro ⟨k, hk⟩
    induction k generalizing s with
    | zero => exact halts_of_step s (halts_of_done _ (hbad s hs hk))
    | succ k ih =>
      by_cases hhead : Bad (future s).head
      · exact halts_of_step s (halts_of_done _ (hbad s hs hhead))
      · obtain ⟨hkept, htail⟩ := hgood s hs hhead
        refine halts_of_step s (ih (step s) hkept ?_)
        rw [htail]
        exact hk

end Halting
