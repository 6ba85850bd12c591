import DeviceDrivers.AdxlDriver

/-!
# The read contract of the accelerometer

`read` answers with the number of bytes it delivered or with a negative error.
`scull_read` copies its four bytes whatever length was asked for, and answers the
wrong way round.
-/
namespace Adxl

open EventRun ByteMemory

/-- One call of `read`: the length asked for, the caller's memory and buffer, two
random bytes, and how many bytes `copy_to_user` could not copy. -/
structure Read where
  len : Nat
  user : Nat → UInt8
  buf : Nat
  random : UInt16
  notCopied : Nat
  notCopied_le : notCopied ≤ 4

def readCall (g : Globals) (e : Read) : Globals × (Nat → UInt8) × Int :=
  scullRead g e.user e.buf e.random e.notCopied

def readStep (g : Globals) (e : Read) : Globals := (readCall g e).1

/-- A fault is an error; otherwise `r` bytes of a sample were delivered, some if any
were asked for, and the memory from the length on is as before. -/
def ReadContract (g : Globals) (e : Read) : Prop :=
  let user := (readCall g e).2.1
  let ret := (readCall g e).2.2
  (e.notCopied ≠ 0 → ret < 0) ∧
  (e.notCopied = 0 → ∃ r sample : Nat, ret = r ∧ r ≤ e.len ∧ (0 < e.len → 0 < r) ∧
    sample < 1024 ∧ load user e.buf r = (leBytes 4 sample).take r ∧
    ∀ j ≥ e.len, user (e.buf + j) = e.user (e.buf + j))

/-- Only the random bytes survive the reduction: the kept half of `i` is a multiple
of 1024. -/
theorem sample_eq (i : UInt32) (random : UInt16) :
    ((i &&& 0xFFFF0000 ||| random.toUInt32) % 1024).toNat = random.toNat % 1024 := by
  have hhigh : (i.toNat &&& 0xFFFF0000) % 2 ^ 10 = 0 := by
    rw [Nat.and_mod_two_pow]
    simp
  have hor : (i.toNat &&& 0xFFFF0000 ||| random.toNat) % 2 ^ 10 = random.toNat % 2 ^ 10 := by
    rw [Nat.or_mod_two_pow, hhigh, Nat.zero_or]
  simpa using hor

/-- The bytes of the sample that the random numbers give. -/
def Read.sample (e : Read) : List UInt8 := leBytes 4 (e.random.toNat % 1024)

theorem readCall_user (g : Globals) (e : Read) :
    (readCall g e).2.1 = store e.user e.buf (e.sample.take (4 - e.notCopied)) := by
  simp only [readCall, scullRead, sample_eq, Read.sample]

theorem readCall_ret (g : Globals) (e : Read) :
    (readCall g e).2.2 = if e.notCopied ≠ 0 then 4 else 0 := rfl

/-- The result is 4 for a fault and 0 for a delivered sample, so the contract is kept
by reads of nothing whose four bytes were there before. -/
theorem readContract_iff (g : Globals) (e : Read) :
    ReadContract g e ↔
      e.notCopied = 0 ∧ e.len = 0 ∧ load e.user e.buf 4 = e.sample := by
  have hsample : e.sample.length = 4 := leBytes_length 4 _
  unfold ReadContract
  rw [readCall_ret, readCall_user]
  by_cases hfault : e.notCopied = 0
  · have htake : e.sample.take (4 - e.notCopied) = e.sample := by
      rw [hfault, Nat.sub_zero, ← hsample, List.take_length]
    rw [htake]
    simp only [hfault, ne_eq, not_true_eq_false, if_false, false_implies, true_and, true_implies]
    rw [load_eq_iff _ _ _ _ hsample]
    constructor
    · rintro ⟨r, sample, hret, hle, hsome, -, -, hkept⟩
      have hr : r = 0 := by omega
      have hlen : e.len = 0 := by omega
      refine ⟨hlen, fun i hi => ?_⟩
      have hbyte := hkept i (by omega)
      rw [store_inside _ _ _ _ hi] at hbyte
      exact hbyte.symm
    · rintro ⟨hlen, hsame⟩
      refine ⟨0, 0, rfl, by omega, by omega, by decide, rfl, fun j _ => ?_⟩
      by_cases hj : j < e.sample.length
      · rw [store_inside _ _ _ _ hj]
        exact (hsame j hj).symm
      · exact store_outside _ _ _ _ (Or.inr (by omega))
  · simp [hfault]

/-- A run of reads keeps the contract exactly when each of them asks for nothing, does
not fault and finds its sample in place. -/
theorem reads_contract_iff (g : Globals) (reads : List Read) :
    AtEach readStep ReadContract g reads ↔
      ∀ e ∈ reads, e.notCopied = 0 ∧ e.len = 0 ∧ load e.user e.buf 4 = e.sample := by
  rw [atEach_congr readContract_iff]
  exact atEach_mem (fun e : Read => e.notCopied = 0 ∧ e.len = 0 ∧ load e.user e.buf 4 = e.sample)
    g reads

/-- The client's read of ten bytes delivers a sample and returns 0, as at the end of
a file. -/
theorem scullRead_reports_end :
    let e : Read :=
      { len := 10, user := fun _ => 0, buf := 0, random := 777, notCopied := 0
        notCopied_le := Nat.zero_le 4 }
    ¬AtEach readStep ReadContract Globals.zero [e] := by
  intro e hrun
  have hlen := ((readContract_iff Globals.zero e).mp hrun.1).2.1
  exact absurd hlen (by decide)

end Adxl
