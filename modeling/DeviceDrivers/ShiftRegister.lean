import DeviceDrivers.EventRun

/-!
# Feedback shift registers as error-detecting codes

A register shifts its low bit out against each message bit and adds `poly` where
the two differ. Runs are linear in the register and the message together, so what
a corrupted message leaves behind depends on the errors alone: a burst no longer
than the register, an odd number of errors under a polynomial of odd weight, and
a pair of errors closer than the order of the polynomial never cancel.
-/
namespace ShiftRegister

open EventRun

variable {n : Nat}

def feed (poly reg : BitVec n) (bit : Bool) : BitVec n :=
  if reg.getLsbD 0 ^^ bit then (reg >>> 1) ^^^ poly else reg >>> 1

/-- Rotation through a carry that enters at the top; the low bit is the next carry. -/
def ror (carry : Bool) (reg : BitVec n) : BitVec n := (BitVec.cons carry reg).extractLsb' 1 n

theorem getLsbD_ror (carry : Bool) (reg : BitVec n) (i : Nat) (hi : i < n) :
    (ror carry reg).getLsbD i = if i + 1 = n then carry else reg.getLsbD (i + 1) := by
  rw [ror, BitVec.getLsbD_extractLsb', BitVec.getLsbD_cons, Nat.add_comm]
  simp [hi]

/-- The lowest `k` bits, the first to be shifted out first. -/
def bits (reg : BitVec n) (k : Nat) : List Bool := (List.range k).map reg.getLsbD

@[simp] theorem bits_length (reg : BitVec n) (k : Nat) : (bits reg k).length = k := by simp [bits]

theorem bits_succ (reg : BitVec n) (k : Nat) :
    bits reg (k + 1) = bits reg k ++ [reg.getLsbD k] := by
  simp [bits, List.range_succ]

theorem bits_cons (reg : BitVec n) (k : Nat) :
    bits reg (k + 1) = reg.getLsbD 0 :: bits (reg >>> 1) k := by
  simp [bits, List.range_succ_eq_map, BitVec.getLsbD_ushiftRight, Nat.add_comm]

theorem bits_xor (a b : BitVec n) (k : Nat) :
    bits (a ^^^ b) k = List.zipWith xor (bits a k) (bits b k) := by
  apply List.ext_getElem (by simp)
  intro i _ _
  simp [bits]

theorem bits_zero (k : Nat) : bits 0#n k = List.replicate k false := by
  apply List.ext_getElem (by simp)
  intro i _ _
  simp [bits]

theorem bits_injective {a b : BitVec n} (h : bits a n = bits b n) : a = b := by
  apply BitVec.eq_of_getLsbD_eq
  intro i hi
  have hbit := congrArg (fun word => word[i]?) h
  simpa [bits, hi] using hbit

/-- Different words of one length differ somewhere. -/
theorem true_mem_differences {xs ys : List Bool} (hne : xs ≠ ys) (h : xs.length = ys.length) :
    true ∈ List.zipWith xor xs ys := by
  induction xs generalizing ys with
  | nil =>
    cases ys with
    | nil => exact absurd rfl hne
    | cons y ys => simp at h
  | cons x xs ih =>
    cases ys with
    | nil => simp at h
    | cons y ys =>
      rw [List.zipWith_cons_cons, List.mem_cons]
      by_cases hxy : x = y
      · subst hxy
        right
        exact ih (fun heq => hne (by rw [heq])) (by simpa using h)
      · left
        cases x <;> cases y <;> simp at hxy ⊢

/-- Every word that fits is what some register shifts out. -/
theorem exists_bits (word : List Bool) (h : word.length ≤ n) :
    ∃ reg : BitVec n, bits reg word.length = word ∧ reg >>> word.length = 0#n := by
  refine ⟨(BitVec.ofBoolListLE word).setWidth n, ?_, ?_⟩
  · apply List.ext_getElem (by simp)
    intro i _ hi
    have hbit : (BitVec.ofBoolListLE word).getLsbD i = word.getD i false :=
      BitVec.getLsbD_ofBoolListLE
    rw [List.getD_eq_getElem?_getD, List.getElem?_eq_getElem hi] at hbit
    simpa [bits, show i < n by omega] using hbit
  · apply BitVec.eq_of_getLsbD_eq
    intro i _
    simp

theorem feed_zero_false (poly : BitVec n) : feed poly 0#n false = 0#n := by simp [feed]
theorem feed_zero_true (poly : BitVec n) : feed poly 0#n true = poly := by simp [feed]

theorem feed_xor (poly a b : BitVec n) (x y : Bool) :
    feed poly (a ^^^ b) (x ^^ y) = feed poly a x ^^^ feed poly b y := by
  have hbit : ((a ^^^ b).getLsbD 0 ^^ (x ^^ y)) =
      ((a.getLsbD 0 ^^ x) ^^ (b.getLsbD 0 ^^ y)) := by
    rw [BitVec.getLsbD_xor, Bool.xor_assoc, Bool.xor_assoc, Bool.xor_left_comm x]
  unfold feed
  rw [hbit, BitVec.ushiftRight_xor_distrib]
  cases a.getLsbD 0 ^^ x <;> cases b.getLsbD 0 ^^ y
  · rfl
  · exact BitVec.xor_assoc _ _ _
  · simp only [Bool.bne_false, if_true, Bool.false_eq_true, if_false]
    rw [BitVec.xor_assoc, BitVec.xor_comm (b >>> 1), ← BitVec.xor_assoc]
  · simp only [bne_self_eq_false, Bool.false_eq_true, if_false, if_true]
    rw [BitVec.xor_comm (b >>> 1), BitVec.xor_assoc, ← BitVec.xor_assoc poly, BitVec.xor_self,
      BitVec.zero_xor]

theorem run_xor (poly a b : BitVec n) (xs ys : List Bool) (h : xs.length = ys.length) :
    run (feed poly) (a ^^^ b) (List.zipWith xor xs ys) =
      run (feed poly) a xs ^^^ run (feed poly) b ys := by
  induction xs generalizing a b ys with
  | nil =>
    cases ys with
    | nil => rfl
    | cons y ys => simp at h
  | cons x xs ih =>
    cases ys with
    | nil => simp at h
    | cons y ys =>
      simp only [List.zipWith_cons_cons, run_cons, feed_xor]
      exact ih _ _ ys (by simpa using h)

/-- Two messages leave the same register exactly when their differences leave nothing. -/
theorem run_eq_iff (poly reg : BitVec n) (xs ys : List Bool) (h : xs.length = ys.length) :
    run (feed poly) reg xs = run (feed poly) reg ys ↔
      run (feed poly) 0#n (List.zipWith xor xs ys) = 0#n := by
  have hxor := run_xor poly reg reg xs ys h
  rw [BitVec.xor_self] at hxor
  rw [hxor, BitVec.xor_eq_zero_iff]

/-- A register that meets its own bits only shifts. -/
theorem run_bits (poly reg : BitVec n) (k : Nat) :
    run (feed poly) reg (bits reg k) = reg >>> k := by
  induction k with
  | zero => simp [bits]
  | succ k ih =>
    rw [bits_succ, run_concat, ih]
    simp [feed, BitVec.shiftRight_add]

theorem run_own_bits (poly reg : BitVec n) : run (feed poly) reg (bits reg n) = 0#n := by
  rw [run_bits]
  exact BitVec.ushiftRight_eq_zero (Nat.le_refl n)

theorem run_zeros (poly : BitVec n) (k : Nat) :
    run (feed poly) 0#n (List.replicate k false) = 0#n := by
  induction k with
  | zero => rfl
  | succ k ih => rw [List.replicate_succ, run_cons, feed_zero_false, ih]

/-- Feeding a word into an empty register is feeding zeros into the word. -/
theorem run_word (poly reg : BitVec n) (k : Nat) (h : reg >>> k = 0#n) :
    run (feed poly) 0#n (bits reg k) = run (feed poly) reg (List.replicate k false) := by
  have hxor := run_xor poly reg 0#n (List.replicate k false) (bits reg k) (by simp)
  have hzip : List.zipWith xor (List.replicate k false) (bits reg k) = bits reg k := by
    apply List.ext_getElem (by simp)
    intro i _ _
    simp
  rw [hzip, BitVec.xor_zero, run_bits, h, eq_comm, BitVec.xor_eq_zero_iff] at hxor
  exact hxor.symm

theorem feed_false_ne_zero (poly reg : BitVec n) (hpoly : poly.msb = true) (h : reg ≠ 0#n) :
    feed poly reg false ≠ 0#n := by
  intro hfeed
  by_cases hlow : reg.getLsbD 0 = true
  · have hmsb := congrArg BitVec.msb hfeed
    simp [feed, hlow, hpoly] at hmsb
  · have hshift : reg >>> 1 = 0#n := by simpa [feed, hlow] using hfeed
    apply h
    apply BitVec.eq_of_getLsbD_eq
    intro i hi
    cases i with
    | zero => simpa using hlow
    | succ i =>
      have hbit := congrArg (fun r => r.getLsbD i) hshift
      simpa [Nat.add_comm] using hbit

theorem run_zeros_ne_zero (poly reg : BitVec n) (hpoly : poly.msb = true) (h : reg ≠ 0#n)
    (k : Nat) : run (feed poly) reg (List.replicate k false) ≠ 0#n := by
  induction k generalizing reg with
  | zero => exact h
  | succ k ih => exact ih (feed poly reg false) (feed_false_ne_zero poly reg hpoly h)

/-- Zeros around the errors neither hide nor make them. -/
theorem run_padded_ne_zero (poly : BitVec n) (hpoly : poly.msb = true) (a b : Nat)
    (word : List Bool) (h : run (feed poly) 0#n word ≠ 0#n) :
    run (feed poly) 0#n (List.replicate a false ++ word ++ List.replicate b false) ≠ 0#n := by
  rw [run_append, run_append, run_zeros]
  exact run_zeros_ne_zero poly _ hpoly h b

/-- No burst that fits into the register leaves it empty. -/
theorem burst_ne_zero (poly : BitVec n) (hpoly : poly.msb = true) (word : List Bool)
    (hlen : word.length ≤ n) (hword : true ∈ word) : run (feed poly) 0#n word ≠ 0#n := by
  obtain ⟨reg, hbits, hshift⟩ := exists_bits word hlen
  have hreg : reg ≠ 0#n := by
    rintro rfl
    rw [bits_zero] at hbits
    rw [← hbits] at hword
    simp at hword
  rw [← hbits, run_word poly reg word.length hshift]
  exact run_zeros_ne_zero poly reg hpoly hreg word.length

def oddOnes (word : List Bool) : Bool := word.foldr xor false

@[simp] theorem oddOnes_nil : oddOnes [] = false := rfl
@[simp] theorem oddOnes_cons (b : Bool) (word : List Bool) :
    oddOnes (b :: word) = (b ^^ oddOnes word) := rfl

theorem oddOnes_concat (word : List Bool) (b : Bool) :
    oddOnes (word ++ [b]) = (oddOnes word ^^ b) := by
  induction word with
  | nil => simp
  | cons c word ih => simp [ih]

theorem oddOnes_zipWith (xs ys : List Bool) (h : xs.length = ys.length) :
    oddOnes (List.zipWith xor xs ys) = (oddOnes xs ^^ oddOnes ys) := by
  induction xs generalizing ys with
  | nil =>
    cases ys with
    | nil => rfl
    | cons y ys => simp at h
  | cons x xs ih =>
    cases ys with
    | nil => simp at h
    | cons y ys =>
      rw [List.zipWith_cons_cons, oddOnes_cons, ih ys (by simpa using h), oddOnes_cons,
        oddOnes_cons]
      cases x <;> cases y <;> simp

theorem oddOnes_iff (word : List Bool) : oddOnes word = true ↔ word.count true % 2 = 1 := by
  induction word with
  | nil => simp
  | cons b word ih =>
    cases b with
    | false => simpa using ih
    | true =>
      cases hodd : oddOnes word with
      | false => simp [hodd] at ih ⊢; omega
      | true => simp [hodd] at ih ⊢; omega

theorem oddOnes_shift (reg : BitVec n) :
    oddOnes (bits (reg >>> 1) n) = (oddOnes (bits reg n) ^^ reg.getLsbD 0) := by
  have hlong : oddOnes (bits reg (n + 1)) = oddOnes (bits reg n) := by
    rw [bits_succ, oddOnes_concat, BitVec.getLsbD_of_ge reg n (Nat.le_refl n), Bool.xor_false]
  rw [← hlong, bits_cons, oddOnes_cons]
  cases reg.getLsbD 0 <;> simp

/-- Under a polynomial of odd weight the register keeps the parity of what it was fed. -/
theorem oddOnes_feed (poly reg : BitVec n) (bit : Bool) (hpoly : oddOnes (bits poly n) = true) :
    oddOnes (bits (feed poly reg bit) n) = (oddOnes (bits reg n) ^^ bit) := by
  unfold feed
  cases hlow : reg.getLsbD 0 <;> cases bit <;>
    simp [bits_xor, oddOnes_zipWith, oddOnes_shift, hpoly, hlow]

theorem oddOnes_run (poly reg : BitVec n) (word : List Bool)
    (hpoly : oddOnes (bits poly n) = true) :
    oddOnes (bits (run (feed poly) reg word) n) = (oddOnes (bits reg n) ^^ oddOnes word) := by
  induction word generalizing reg with
  | nil => simp
  | cons b word ih => rw [run_cons, ih, oddOnes_feed poly reg b hpoly, oddOnes_cons, Bool.xor_assoc]

theorem odd_ne_zero (poly : BitVec n) (hpoly : oddOnes (bits poly n) = true) (word : List Bool)
    (hword : word.count true % 2 = 1) : run (feed poly) 0#n word ≠ 0#n := by
  intro hzero
  have hparity := oddOnes_run poly 0#n word hpoly
  have hempty : oddOnes (bits 0#n n) = false := by
    rw [Bool.eq_false_iff, ne_eq, oddOnes_iff, bits_zero]
    simp [List.count_replicate]
  rw [hzero, hempty, (oddOnes_iff word).mpr hword] at hparity
  simp at hparity

theorem feed_true_eq_zero (poly reg : BitVec n) (hpoly : poly.msb = true)
    (h : feed poly reg true = 0#n) : reg = 1#n := by
  by_contra hne
  have hone : feed poly 1#n true = 0#n := by
    have hpos : 0 < n := by
      by_contra hzero
      have hn : n = 0 := by omega
      subst hn
      exact hne (Subsingleton.elim _ _)
    simp only [feed, BitVec.getLsbD_one, hpos, decide_true, Bool.true_and, bne_self_eq_false,
      Bool.false_eq_true, if_false]
    apply BitVec.eq_of_getLsbD_eq
    intro i _
    simp
  have hsum := feed_xor poly reg 1#n true true
  rw [h, hone, BitVec.xor_zero, Bool.xor_self] at hsum
  exact feed_false_ne_zero poly _ hpoly (fun hx => hne (BitVec.xor_eq_zero_iff.mp hx)) hsum

/-- Two errors cancel only as far apart as zeros take the polynomial to the unit. -/
theorem pair_ne_zero (poly : BitVec n) (hpoly : poly.msb = true) (d : Nat)
    (horder : run (feed poly) poly (List.replicate d false) ≠ 1#n) :
    run (feed poly) 0#n (true :: List.replicate d false ++ [true]) ≠ 0#n := by
  intro hzero
  rw [List.cons_append, run_cons, feed_zero_true, run_concat] at hzero
  exact horder (feed_true_eq_zero poly _ hpoly hzero)

/-- One error of `m + 1`, with the clear bits before it. -/
theorem exists_first_error (word : List Bool) (m : Nat) (h : word.count true = m + 1) :
    ∃ a rest, word = List.replicate a false ++ true :: rest ∧ rest.count true = m := by
  induction word with
  | nil => simp at h
  | cons b word ih =>
    cases b with
    | true => exact ⟨0, word, rfl, by simpa using h⟩
    | false =>
      obtain ⟨a, rest, hword, hrest⟩ := ih (by simpa using h)
      exact ⟨a + 1, rest, by rw [hword, List.replicate_succ, List.cons_append], hrest⟩

theorem exists_pair (word : List Bool) (h : word.count true = 2) :
    ∃ a d b, word = List.replicate a false ++ (true :: List.replicate d false ++ [true]) ++
      List.replicate b false := by
  obtain ⟨a, rest, hword, hrest⟩ := exists_first_error word 1 h
  obtain ⟨d, tail, htail, hnone⟩ := exists_first_error rest 0 hrest
  have hzero : tail = List.replicate tail.length false := by
    rw [List.eq_replicate_iff]
    refine ⟨rfl, fun b hb => ?_⟩
    cases b with
    | false => rfl
    | true => exact absurd hb (List.count_eq_zero.mp hnone)
  refine ⟨a, d, tail.length, ?_⟩
  rw [← hzero, hword, htail]
  simp

end ShiftRegister
