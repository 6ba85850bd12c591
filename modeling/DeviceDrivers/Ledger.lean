import Mathlib.Data.List.Count
import Mathlib.Tactic

/-!
# Ledgers of acquired resources

A ledger lists what was acquired, released and used. Replaying it fails as soon
as something that is not held is released or used, and otherwise says what is
held at the end, latest first. Ledgers over different names of the same resources
replay alike.
-/
namespace Ledger

variable {ρ σ : Type*}

inductive Entry (ρ : Type*) where
  | acquire (r : ρ)
  | release (r : ρ)
  | use (r : ρ)
  deriving DecidableEq

/-- The entry of an attempt to acquire `r`. -/
def acquired (r : ρ) (success : Bool) : List (Entry ρ) :=
  if success then [.acquire r] else []

@[simp] theorem acquired_true (r : ρ) : acquired r true = [.acquire r] := rfl
@[simp] theorem acquired_false (r : ρ) : acquired r false = [] := rfl

def Entry.map (f : ρ → σ) : Entry ρ → Entry σ
  | .acquire r => .acquire (f r)
  | .release r => .release (f r)
  | .use r => .use (f r)

theorem map_acquired (f : ρ → σ) (r : ρ) (success : Bool) :
    (acquired r success).map (Entry.map f) = acquired (f r) success := by
  cases success with
  | true => rfl
  | false => rfl

variable [DecidableEq ρ] [DecidableEq σ]

def replay (held : List ρ) : List (Entry ρ) → Option (List ρ)
  | [] => some held
  | .acquire r :: log => replay (r :: held) log
  | .release r :: log => if r ∈ held then replay (held.erase r) log else none
  | .use r :: log => if r ∈ held then replay held log else none

@[simp] theorem replay_nil (held : List ρ) : replay held [] = some held := rfl
@[simp] theorem replay_acquire (held : List ρ) (r : ρ) (log : List (Entry ρ)) :
    replay held (.acquire r :: log) = replay (r :: held) log := rfl

theorem replay_release (held : List ρ) (r : ρ) (log : List (Entry ρ)) (h : r ∈ held) :
    replay held (.release r :: log) = replay (held.erase r) log := if_pos h

theorem replay_use (held : List ρ) (r : ρ) (log : List (Entry ρ)) (h : r ∈ held) :
    replay held (.use r :: log) = replay held log := if_pos h

theorem replay_append (held : List ρ) (xs ys : List (Entry ρ)) :
    replay held (xs ++ ys) = (replay held xs).bind fun kept => replay kept ys := by
  induction xs generalizing held with
  | nil => rfl
  | cons e xs ih =>
    cases e with
    | acquire r => exact ih (r :: held)
    | release r =>
      by_cases h : r ∈ held
      · rw [List.cons_append, replay_release held r _ h, replay_release held r _ h, ih]
      · simp only [List.cons_append, replay, h, if_false, Option.bind_none]
    | use r =>
      by_cases h : r ∈ held
      · rw [List.cons_append, replay_use held r _ h, replay_use held r _ h, ih]
      · simp only [List.cons_append, replay, h, if_false, Option.bind_none]

/-- Other names for the resources, no two of them alike, change nothing. -/
theorem replay_map (f : ρ → σ) (hf : Function.Injective f) (held : List ρ)
    (log : List (Entry ρ)) :
    replay (held.map f) (log.map (Entry.map f)) = (replay held log).map (List.map f) := by
  induction log generalizing held with
  | nil => rfl
  | cons e log ih =>
    have hmem : ∀ r, f r ∈ held.map f ↔ r ∈ held := fun r => List.mem_map_of_injective hf
    cases e with
    | acquire r => exact ih (r :: held)
    | release r =>
      simp only [List.map_cons, Entry.map, replay, hmem]
      split
      · rw [← List.map_erase hf, ih]
      · rfl
    | use r =>
      simp only [List.map_cons, Entry.map, replay, hmem]
      split
      · exact ih held
      · rfl

theorem replay_map_nil (f : ρ → σ) (hf : Function.Injective f) (log : List (Entry ρ)) :
    replay [] (log.map (Entry.map f)) = some [] ↔ replay [] log = some [] := by
  have hmap := replay_map f hf [] log
  rw [List.map_nil] at hmap
  rw [hmap]
  cases replay [] log with
  | none => simp
  | some kept => simp

def acquires (r : ρ) (log : List (Entry ρ)) : Nat := log.count (.acquire r)
def releases (r : ρ) (log : List (Entry ρ)) : Nat := log.count (.release r)

/-- A ledger that replays accounts for every acquisition: released or still held. -/
theorem replay_count (held kept : List ρ) (log : List (Entry ρ))
    (h : replay held log = some kept) (r : ρ) :
    held.count r + acquires r log = releases r log + kept.count r := by
  induction log generalizing held with
  | nil =>
    cases h
    simp [acquires, releases]
  | cons e log ih =>
    cases e with
    | acquire r' =>
      have htail := ih (r' :: held) h
      simp only [acquires, releases, List.count_cons, beq_iff_eq, Entry.acquire.injEq,
        reduceCtorEq, if_false, Nat.add_zero] at htail ⊢
      omega
    | release r' =>
      by_cases hmem : r' ∈ held
      · rw [replay_release held r' log hmem] at h
        have htail := ih (held.erase r') h
        have hperm := (List.perm_cons_erase hmem).count_eq r
        simp only [acquires, releases, List.count_cons, beq_iff_eq, Entry.release.injEq,
          reduceCtorEq, if_false, Nat.add_zero] at htail hperm ⊢
        omega
      · simp [replay, hmem] at h
    | use r' =>
      by_cases hmem : r' ∈ held
      · rw [replay_use held r' log hmem] at h
        have htail := ih held h
        simp only [acquires, releases, List.count_cons, beq_iff_eq, reduceCtorEq, if_false,
          Nat.add_zero] at htail ⊢
        omega
      · simp [replay, hmem] at h

end Ledger
