import DeviceDrivers.ByteMemory

/-!
# C strings in memory

A C string ends at its first NUL, so bytes behind it do not count. `strcmp` reads
both strings only as far as they agree.
-/
namespace ByteMemory

/-- The characters of a string, without the NUL that ends it. -/
structure CString where
  bytes : List UInt8
  no_nul : 0 ∉ bytes

/-- `strcmp(mem + a, s)` for the characters `s`. -/
def strcmp (mem : Nat → UInt8) (a : Nat) : List UInt8 → Int
  | [] => (mem a).toNat
  | c :: cs => if mem a = c then strcmp mem (a + 1) cs else (mem a).toNat - (c.toNat : Int)

/-- The characters of the C string that starts with `cells`, when a NUL follows them. -/
def cText (cells : List UInt8) : List UInt8 := cells.takeWhile (· ≠ 0)

@[simp] theorem cText_nil : cText [] = [] := rfl
@[simp] theorem cText_nul (cells : List UInt8) : cText (0 :: cells) = [] := rfl

theorem cText_cons (b : UInt8) (cells : List UInt8) (h : b ≠ 0) :
    cText (b :: cells) = b :: cText cells := by simp [cText, h]

theorem load_succ (mem : Nat → UInt8) (a n : Nat) :
    load mem a (n + 1) = mem a :: load mem (a + 1) n := by
  apply List.ext_getElem (by simp)
  intro i _ _
  cases i with
  | zero => simp
  | succ i => simp [Nat.add_comm, Nat.add_left_comm]

theorem toNat_sub_ne (b c : UInt8) (h : b ≠ c) : (b.toNat : Int) - c.toNat ≠ 0 := by
  intro hsub
  exact h (UInt8.toNat_inj.mp (by omega))

/-- A NUL in memory compares equal to the empty string only. -/
theorem strcmp_nul (mem : Nat → UInt8) (a : Nat) (s : List UInt8) (hs : 0 ∉ s) (h : mem a = 0) :
    strcmp mem a s = 0 ↔ [] = s := by
  cases s with
  | nil => simp [strcmp, h]
  | cons c cs =>
    have hc : mem a ≠ c := fun hmem => hs (by simp [← hmem, h])
    simp only [strcmp, hc, if_false]
    simp [toNat_sub_ne (mem a) c hc]

/-- Where NUL-terminated cells are stored, `strcmp` compares the string they spell. -/
theorem strcmp_eq_zero_iff (mem : Nat → UInt8) (a : Nat) (cells s : List UInt8) (hs : 0 ∉ s)
    (h : load mem a (cells.length + 1) = cells ++ [0]) :
    strcmp mem a s = 0 ↔ cText cells = s := by
  induction cells generalizing a s with
  | nil => exact strcmp_nul mem a s hs (by simpa [load] using h)
  | cons b cells ih =>
    rw [List.length_cons, load_succ, List.cons_append, List.cons.injEq] at h
    obtain ⟨hb, htail⟩ := h
    by_cases hnul : b = 0
    · subst hnul
      exact strcmp_nul mem a s hs hb
    · rw [cText_cons b cells hnul]
      cases s with
      | nil => simpa [strcmp, hb] using fun hz => hnul (UInt8.toNat_inj.mp hz)
      | cons c cs =>
        rw [List.mem_cons, not_or] at hs
        simp only [strcmp, hb, List.cons.injEq]
        by_cases hc : b = c
        · simpa [hc] using ih (a + 1) cs hs.2 htail
        · simp only [hc, if_false, false_and, iff_false]
          exact toNat_sub_ne b c hc

end ByteMemory
