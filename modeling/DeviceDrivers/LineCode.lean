import DeviceDrivers.EventRun

/-!
# Levels and stuffed bits

A bit stream goes over a two-level line by changing the level at every clear bit.
After `limit` set bits in a row the sender stuffs a clear one, so that the level
changes often enough for the receiver to stay in step.
-/
namespace LineCode

open EventRun

/-- The level in each bit time: a set bit keeps it, a clear bit changes it. -/
def nrzi : Bool → List Bool → List Bool
  | _, [] => []
  | level, b :: word => (level == b) :: nrzi (level == b) word

def lastLevel (level : Bool) (word : List Bool) : Bool := run (· == ·) level word

def stuffBit (limit ones : Nat) (b : Bool) : List Bool :=
  if b = true ∧ ones + 1 = limit then [true, false] else [b]

/-- Set bits in a row once `b` and what is stuffed behind it are sent. -/
def nextOnes (limit ones : Nat) (b : Bool) : Nat :=
  if b = true ∧ ones + 1 ≠ limit then ones + 1 else 0

def stuff (limit : Nat) : Nat → List Bool → List Bool
  | _, [] => []
  | ones, b :: word => stuffBit limit ones b ++ stuff limit (nextOnes limit ones b) word

/-- The levels of a stream, after `ones` set bits and at the given level. -/
def encode (limit ones : Nat) (level : Bool) (word : List Bool) : List Bool :=
  nrzi level (stuff limit ones word)

@[simp] theorem nrzi_nil (level : Bool) : nrzi level [] = [] := rfl
@[simp] theorem nrzi_cons (level b : Bool) (word : List Bool) :
    nrzi level (b :: word) = (level == b) :: nrzi (level == b) word := rfl
@[simp] theorem stuff_nil (limit ones : Nat) : stuff limit ones [] = [] := rfl
theorem stuff_cons (limit ones : Nat) (b : Bool) (word : List Bool) :
    stuff limit ones (b :: word) =
      stuffBit limit ones b ++ stuff limit (nextOnes limit ones b) word := rfl

theorem nrzi_append (level : Bool) (xs ys : List Bool) :
    nrzi level (xs ++ ys) = nrzi level xs ++ nrzi (lastLevel level xs) ys := by
  induction xs generalizing level with
  | nil => rfl
  | cons b xs ih => rw [List.cons_append, nrzi_cons, ih, nrzi_cons, List.cons_append]; rfl

theorem encode_cons (limit ones : Nat) (level b : Bool) (word : List Bool) :
    encode limit ones level (b :: word) = nrzi level (stuffBit limit ones b) ++
      encode limit (nextOnes limit ones b) (lastLevel level (stuffBit limit ones b)) word := by
  rw [encode, stuff_cons, nrzi_append]
  rfl

theorem nextOnes_lt {limit ones : Nat} (b : Bool) (h : ones < limit) :
    nextOnes limit ones b < limit := by
  unfold nextOnes
  split <;> omega

/-- At most `left` set bits before the next clear one, and `limit` between any two. -/
def Spaced (limit : Nat) : Nat → List Bool → Prop
  | _, [] => True
  | _, false :: word => Spaced limit limit word
  | 0, true :: _ => False
  | left + 1, true :: word => Spaced limit left word

theorem stuff_spaced (limit ones : Nat) (word : List Bool) (h : ones < limit) :
    Spaced limit (limit - ones) (stuff limit ones word) := by
  induction word generalizing ones with
  | nil => trivial
  | cons b word ih =>
    obtain ⟨left, hleft⟩ : ∃ left, limit - ones = left + 1 := ⟨limit - ones - 1, by omega⟩
    have hnext := ih (nextOnes limit ones b) (nextOnes_lt b h)
    rw [stuff_cons, hleft]
    cases b with
    | false => simpa [stuffBit, nextOnes, Spaced] using hnext
    | true =>
      by_cases hfull : ones + 1 = limit
      · simpa [stuffBit, nextOnes, hfull, Spaced] using hnext
      · have hsub : limit - (ones + 1) = left := by omega
        simpa [stuffBit, nextOnes, hfull, Spaced, hsub] using hnext

theorem spaced_prefix (limit left : Nat) (level : Bool) (word w post : List Bool)
    (hleft : left ≤ limit) (h : Spaced limit left word) (hsplit : nrzi level word = w ++ post)
    (hconst : ∀ x ∈ w, x = level) : w.length ≤ left := by
  induction word generalizing left w with
  | nil =>
    have hnil := List.append_eq_nil_iff.mp hsplit.symm
    simp [hnil.1]
  | cons b word ih =>
    cases w with
    | nil => simp
    | cons x w =>
      rw [nrzi_cons, List.cons_append, List.cons.injEq] at hsplit
      have hx := hconst x (by simp)
      cases b with
      | false =>
        rw [hx] at hsplit
        cases level <;> simp at hsplit
      | true =>
        cases left with
        | zero => exact absurd h (by simp [Spaced])
        | succ left =>
          have hlevel : (level == true) = level := by cases level <;> rfl
          rw [hlevel] at hsplit
          have := ih left w (by omega) h hsplit.2 (fun y hy => hconst y (by simp [hy]))
          simp only [List.length_cons]
          omega

/-- The line rests on one level for at most `limit + 1` bit times. -/
theorem spaced_constant (limit left : Nat) (level c : Bool) (word pre w post : List Bool)
    (hleft : left ≤ limit) (h : Spaced limit left word)
    (hsplit : nrzi level word = pre ++ w ++ post) (hconst : ∀ x ∈ w, x = c) :
    w.length ≤ limit + 1 := by
  induction word generalizing left level pre with
  | nil =>
    have hnil := List.append_eq_nil_iff.mp hsplit.symm
    have hw := (List.append_eq_nil_iff.mp hnil.1).2
    simp [hw]
  | cons b word ih =>
    obtain ⟨rest, hrest, hspaced⟩ : ∃ rest, rest ≤ limit ∧ Spaced limit rest word := by
      cases b with
      | false => exact ⟨limit, Nat.le_refl _, h⟩
      | true =>
        cases left with
        | zero => exact absurd h (by simp [Spaced])
        | succ left => exact ⟨left, by omega, h⟩
    rw [nrzi_cons] at hsplit
    cases pre with
    | cons p pre =>
      rw [List.cons_append, List.cons_append, List.cons.injEq] at hsplit
      exact ih rest (level == b) pre hrest hspaced hsplit.2
    | nil =>
      cases w with
      | nil => simp
      | cons x w =>
        rw [List.nil_append, List.cons_append, List.cons.injEq] at hsplit
        have hx := hconst x (by simp)
        have hshort := spaced_prefix limit rest (level == b) word w post hrest hspaced hsplit.2
          (fun y hy => by rw [hconst y (by simp [hy]), hsplit.1, hx])
        simp only [List.length_cons]
        omega

theorem encode_constant (limit ones : Nat) (level c : Bool) (word pre w post : List Bool)
    (h : ones < limit) (hsplit : encode limit ones level word = pre ++ w ++ post)
    (hconst : ∀ x ∈ w, x = c) : w.length ≤ limit + 1 :=
  spaced_constant limit (limit - ones) level c _ pre w post (by omega)
    (stuff_spaced limit ones word h) hsplit hconst

end LineCode
