import DeviceDrivers.UsbdrvReceive

/-!
# What the receiver makes of a packet

Between two bits the registers hold the bits of the byte in hand, their changes of
level and the number of set bits seen last. One sample, or two where a bit is
stuffed, takes them to the next bit; so a packet of up to eleven bytes in the line
code is stored as it was sent, and what the transmitter sends is such a packet.
-/
namespace Usbdrv

open EventRun ShiftRegister LineCode

theorem getLsbD_bld (reg : BitVec 8) (k i : Nat) (t : Bool) (hk : k < 8) :
    (bld reg k t).getLsbD i = if i = k then t else reg.getLsbD i := by
  have hone : (1#8 <<< k).getLsbD i = decide (i = k) := by
    rw [BitVec.getLsbD_shiftLeft, BitVec.getLsbD_one]
    by_cases hik : i = k
    · simp [hik, hk]
    · by_cases hlt : i < k
      · simp [hlt, hik]
      · simp [hik, show i - k ≠ 0 by omega]
  by_cases hi : i < 8
  · cases t with
    | true =>
      rw [bld, if_pos rfl, BitVec.getLsbD_or, hone]
      by_cases hik : i = k <;> simp [hik]
    | false =>
      rw [bld, if_neg (by simp), BitVec.getLsbD_and, BitVec.getLsbD_not, hone]
      by_cases hik : i = k <;> simp [hik, hi]
  · have hik : i ≠ k := by omega
    rw [if_neg hik, BitVec.getLsbD_of_ge _ i (by omega), BitVec.getLsbD_of_ge _ i (by omega)]

/-- Bit `k` and the five before it show no change. -/
def Full (k : Nat) (shift : BitVec 8) : Prop := ∀ j < 6, shift.getLsbD ((k + 8 - j) % 8) = false

instance (k : Nat) (shift : BitVec 8) : Decidable (Full k shift) :=
  inferInstanceAs (Decidable (∀ j < 6, _))

/-- What `andi` behind bit `k` may clear: nothing read so far and nothing of the row. -/
structure MaskFor (k : Nat) (mask : BitVec 8) : Prop where
  keeps : ∀ i < 8, (i ≤ k ∨ ∃ j < 6, i = (k + 8 - j) % 8) → mask.getLsbD i = true
  clears : k = 5 → mask.getLsbD 7 = false

/-- The registers before bit `k`: `word` is read, `ones` set bits came last. -/
structure Receiving (k : Nat) (level : Bool) (ones : Nat) (word : List Bool) (r : RxRegs) :
    Prop where
  length : word.length = k
  line : r.last.getLsbD usbMinus = level
  few : ones < 6
  recent : ∀ j < ones, r.shift.getLsbD ((k + 7 - j) % 8) = false
  before : ones = 5 ∨ r.shift.getLsbD ((k + 7 - ones) % 8) = true
  decoded : ∀ i (hi : i < word.length), (r.x3 ^^^ r.shift).getLsbD i = word[i]
  fresh : ∀ i, k ≤ i → i < 8 → r.x3.getLsbD i = true
  top : k = 6 → r.shift.getLsbD 7 = false

/-- The registers after bit `k` and the test behind it. -/
def tested (k : Nat) (mask cnt x : BitVec 8) (r : RxRegs) : RxRegs :=
  { sampleBit k x r with shift := (sampleBit k x r).shift &&& mask, cnt := cnt }

variable {k ones : Nat} {level b : Bool} {word : List Bool} {r : RxRegs} {x mask : BitVec 8}

theorem Receiving.sampled (h : Receiving k level ones word r) (hk : k < 8)
    (hx : x.getLsbD usbMinus = (level == b)) (i : Nat) :
    (sampleBit k x r).shift.getLsbD i = if i = k then !b else r.shift.getLsbD i := by
  have hchange : (r.last ^^^ x).getLsbD usbMinus = !b := by
    rw [BitVec.getLsbD_xor, h.line, hx]
    cases level <;> cases b <;> rfl
  rw [sampleBit, getLsbD_bld _ _ _ _ hk, hchange]

/-- The row is full when a sixth set bit arrives, and only then. -/
theorem Receiving.full_iff (h : Receiving k level ones word r) (hk : k < 8)
    (hx : x.getLsbD usbMinus = (level == b)) :
    Full k (sampleBit k x r).shift ↔ b = true ∧ ones + 1 = 6 := by
  have hfew := h.few
  constructor
  · intro hfull
    have hnew := hfull 0 (by omega)
    rw [h.sampled hk hx, if_pos (by omega)] at hnew
    refine ⟨by simpa using hnew, ?_⟩
    rcases h.before with hfive | hgap
    · omega
    · by_contra hne
      have hold := hfull (ones + 1) (by omega)
      rw [h.sampled hk hx, if_neg (by omega), show k + 8 - (ones + 1) = k + 7 - ones by omega,
        hgap] at hold
      contradiction
  · rintro ⟨rfl, hones⟩ j hj
    rw [h.sampled hk hx]
    by_cases hzero : j = 0
    · rw [if_pos (by omega)]
      rfl
    · rw [if_neg (by omega), show k + 8 - j = k + 7 - (j - 1) by omega]
      exact h.recent (j - 1) (by omega)

theorem MaskFor.full_iff (hmask : MaskFor k mask) (shift : BitVec 8) :
    Full k (shift &&& mask) ↔ Full k shift := by
  apply forall₂_congr
  intro j hj
  rw [BitVec.getLsbD_and, hmask.keeps _ (by omega) (.inr ⟨j, hj, rfl⟩), Bool.and_true]

theorem tested_shift (h : Receiving k level ones word r) (hk : k < 8)
    (hx : x.getLsbD usbMinus = (level == b)) (hmask : MaskFor k mask) (cnt : BitVec 8) (i : Nat)
    (hi : i < 8) (hkept : i ≤ k ∨ ∃ j < 6, i = (k + 8 - j) % 8) :
    (tested k mask cnt x r).shift.getLsbD i = if i = k then !b else r.shift.getLsbD i := by
  rw [tested, BitVec.getLsbD_and, hmask.keeps i hi hkept, Bool.and_true, h.sampled hk hx]

theorem tested_top (hmask : MaskFor k mask) (cnt : BitVec 8) (hfive : k + 1 = 6) :
    (tested k mask cnt x r).shift.getLsbD 7 = false := by
  rw [tested, BitVec.getLsbD_and, hmask.clears (by omega), Bool.and_false]

/-- A bit that nothing is stuffed behind. -/
theorem Receiving.next (h : Receiving k level ones word r) (hk : k < 8)
    (hx : x.getLsbD usbMinus = (level == b)) (hmask : MaskFor k mask) (cnt : BitVec 8)
    (hfull : ¬(b = true ∧ ones + 1 = 6)) :
    Receiving (k + 1) (level == b) (nextOnes 6 ones b) (word ++ [b]) (tested k mask cnt x r) := by
  have hfew := h.few
  have hlength := h.length
  have hshift := tested_shift h hk hx hmask cnt
  refine ⟨by simp [hlength], hx, nextOnes_lt b hfew, ?_, ?_, ?_, ?_, ?_⟩
  · intro j hj
    cases b with
    | false => simp [nextOnes] at hj
    | true =>
      have hnext : nextOnes 6 ones true = ones + 1 := by
        have : ones + 1 ≠ 6 := fun h6 => hfull ⟨rfl, h6⟩
        simp [nextOnes, this]
      rw [hnext] at hj
      rw [hshift _ (by omega) (.inr ⟨j, by omega, by omega⟩)]
      by_cases hzero : j = 0
      · rw [if_pos (by omega)]
        rfl
      · rw [if_neg (by omega), show k + 1 + 7 - j = k + 7 - (j - 1) by omega]
        exact h.recent (j - 1) (by omega)
  · cases b with
    | false =>
      right
      have hnext : nextOnes 6 ones false = 0 := by simp [nextOnes]
      rw [hnext, hshift _ (by omega) (.inr ⟨0, by omega, by omega⟩), if_pos (by omega)]
      rfl
    | true =>
      have hne : ones + 1 ≠ 6 := fun h6 => hfull ⟨rfl, h6⟩
      have hnext : nextOnes 6 ones true = ones + 1 := by simp [nextOnes, hne]
      rw [hnext]
      right
      rw [hshift _ (by omega) (.inr ⟨ones + 1, by omega, by omega⟩), if_neg (by omega),
        show k + 1 + 7 - (ones + 1) = k + 7 - ones by omega]
      exact h.before.resolve_left (by omega)
  · intro i hi
    rw [BitVec.getLsbD_xor, hshift i (by simp at hi; omega) (.inl (by simp at hi; omega))]
    by_cases hik : i = k
    · subst hik
      have hfresh : (tested i mask cnt x r).x3.getLsbD i = true := h.fresh i (by omega) hk
      rw [if_pos rfl, hfresh]
      simp [← hlength]
    · have hlt : i < word.length := by simp at hi; omega
      rw [if_neg hik, List.getElem_append_left hlt, ← h.decoded i hlt, BitVec.getLsbD_xor]
      rfl
  · intro i hi hlt
    exact h.fresh i (by omega) hlt
  · exact tested_top hmask cnt

/-- `x3` and `shift` once the bit stuffed behind bit `k` is sampled. -/
def unstuffed (k : Nat) (y : BitVec 8) (r : RxRegs) : RxRegs :=
  { r with last := y, x3 := r.x3 &&& ~~~(1#8 <<< k), shift := r.shift ||| 1#8 <<< k }

/-- A sixth set bit and the clear one stuffed behind it. -/
theorem Receiving.stuffed (h : Receiving k level 5 word r) (hk : k < 8)
    (hx : x.getLsbD usbMinus = level) (hmask : MaskFor k mask) (cnt y : BitVec 8)
    (hy : y.getLsbD usbMinus = !level) :
    Receiving (k + 1) (!level) 0 (word ++ [true]) (unstuffed k y (tested k mask cnt x r)) := by
  have hlength := h.length
  have hx' : x.getLsbD usbMinus = (level == true) := by rw [hx]; cases level <;> rfl
  have hshift := tested_shift h hk hx' hmask cnt
  have hset : ∀ i, (unstuffed k y (tested k mask cnt x r)).shift.getLsbD i =
      if i = k then true else (tested k mask cnt x r).shift.getLsbD i :=
    fun i => getLsbD_bld (tested k mask cnt x r).shift k i true hk
  have hclear : ∀ i, (unstuffed k y (tested k mask cnt x r)).x3.getLsbD i =
      if i = k then false else r.x3.getLsbD i := fun i => getLsbD_bld r.x3 k i false hk
  refine ⟨by simp [hlength], hy, by omega, by simp, .inr ?_, ?_, ?_, ?_⟩
  · rw [hset, if_pos (by omega)]
  · intro i hi
    rw [BitVec.getLsbD_xor, hset, hclear]
    by_cases hik : i = k
    · subst hik
      rw [if_pos rfl, if_pos rfl]
      simp [← hlength]
    · have hlt : i < word.length := by simp at hi; omega
      rw [if_neg hik, if_neg hik, hshift i (by omega) (.inl (by omega)), if_neg hik,
        List.getElem_append_left hlt, ← h.decoded i hlt, BitVec.getLsbD_xor]
  · intro i hi hlt
    rw [hclear, if_neg (by omega)]
    exact h.fresh i (by omega) hlt
  · intro hsix
    rw [hset, if_neg (by omega)]
    exact tested_top hmask cnt hsix

/-- What `rxbit7` stores is the byte whose bits were read. -/
theorem Receiving.stored_byte (h : Receiving 7 level ones word r)
    (hx : x.getLsbD usbMinus = (level == b)) (byte : UInt8)
    (hword : word ++ [b] = bits byte.toBitVec 8) :
    r.x3 ^^^ (sampleBit 7 x r).shift = byte.toBitVec := by
  have hlength := h.length
  apply BitVec.eq_of_getLsbD_eq
  intro i hi
  have hbit : byte.toBitVec.getLsbD i = (word ++ [b]).get ⟨i, by simp; omega⟩ := by
    simp [hword, bits]
  rw [hbit, BitVec.getLsbD_xor, h.sampled (by omega) hx, List.get_eq_getElem]
  by_cases hseven : i = 7
  · subst hseven
    rw [if_pos rfl, h.fresh 7 (by omega) (by omega)]
    simp [← hlength]
  · have hlt : i < word.length := by omega
    rw [if_neg hseven, List.getElem_append_left hlt, ← h.decoded i hlt, BitVec.getLsbD_xor]

/-- The next byte starts with the row the last one ended with. -/
theorem Receiving.wrap (h : Receiving 8 level ones word r) (stored : List UInt8) :
    Receiving 0 level ones [] { r with x3 := 0xff, stored := stored } := by
  have hfew := h.few
  refine ⟨rfl, h.line, h.few, ?_, ?_, by simp, ?_, by omega⟩
  · intro j hj
    rw [show (0 + 7 - j) % 8 = (8 + 7 - j) % 8 by omega]
    exact h.recent j hj
  · rw [show (0 + 7 - ones) % 8 = (8 + 7 - ones) % 8 by omega]
    exact h.before
  · intro i _ hi
    have hall : ∀ i < 8, (0xff : BitVec 8).getLsbD i = true := by decide
    exact hall i hi

theorem pins_se0 (x : BitVec 8) : x &&& usbMask = 0 ↔ pins x = .se0 := by
  have hall : ∀ x : BitVec 8, x &&& usbMask = 0 ↔ pins x = .se0 := by decide +kernel
  exact hall x

theorem pins_minus (x : BitVec 8) (level : Bool) (h : pins x = .ofLevel level) :
    x.getLsbD usbMinus = level := by
  have hall : ∀ (x : BitVec 8) (level : Bool), pins x = .ofLevel level →
      x.getLsbD usbMinus = level := by decide +kernel
  exact hall x level h

theorem masked_minus (x : BitVec 8) : (x &&& usbMask).getLsbD usbMinus = x.getLsbD usbMinus := by
  have hset : usbMask.getLsbD usbMinus = true := by decide
  rw [BitVec.getLsbD_and, hset, Bool.and_true]

theorem unlessSE0_level (x : BitVec 8) (r : RxRegs) (next : BitVec 8 → RxState)
    (h : pins x ≠ .se0) : unlessSE0 x r next = next (x &&& usbMask) := by
  rw [unlessSE0, if_neg (fun hzero => h ((pins_se0 x).mp hzero))]

theorem unlessSE0_se0 (x : BitVec 8) (r : RxRegs) (next : BitVec 8 → RxState)
    (h : pins x = .se0) : unlessSE0 x r next = .se0 r.stored := by
  rw [unlessSE0, if_pos ((pins_se0 x).mpr h)]

/-- The masks of the six tests by `andi`. -/
def andiMask : Nat → BitVec 8
  | 0 => 0xf9
  | 1 => 0xf3
  | 2 => 0xe7
  | 3 => 0xcf
  | 4 => 0x9f
  | 5 => 0x3f
  | _ => 0xff

theorem andiMask_for (k : Nat) (hk : k < 7) : MaskFor k (andiMask k) := by
  have hkeeps : ∀ k < 7, ∀ i < 8, (i ≤ k ∨ ∃ j < 6, i = (k + 8 - j) % 8) →
      (andiMask k).getLsbD i = true := by decide
  exact ⟨hkeeps k hk, by rintro rfl; decide⟩

theorem andi_zero_iff (k : Nat) (hk : k < 6) (shift : BitVec 8) :
    shift &&& andiMask k = 0 ↔ Full k (shift &&& andiMask k) := by
  have hall : ∀ k < 6, ∀ shift : BitVec 8,
      shift &&& andiMask k = 0 ↔ Full k (shift &&& andiMask k) := by decide +kernel
  exact hall k hk shift

/-- `cpi` of bits 6 and 7 against the lowest value with a change in the row. -/
theorem cpi_lt_iff (shift : BitVec 8) :
    (shift.getLsbD 7 = false → (shift < 0x02 ↔ Full 6 shift)) ∧ (shift < 0x04 ↔ Full 7 shift) := by
  have hall : ∀ shift : BitVec 8, (shift.getLsbD 7 = false → (shift < 0x02 ↔ Full 6 shift)) ∧
      (shift < 0x04 ↔ Full 7 shift) := by decide +kernel
  exact hall shift

theorem testStuffed_eq (k : Fin 8) (hk : k.val < 6) (cnt x : BitVec 8) (r : RxRegs) :
    testStuffed k (andiMask k) { sampleBit k x r with cnt := cnt } =
      if Full k (tested k (andiMask k) cnt x r).shift then
        .running (.stuffed k) (tested k (andiMask k) cnt x r)
      else .running (.rxbit (k + 1)) (tested k (andiMask k) cnt x r) := by
  have hiff := andi_zero_iff k hk (sampleBit k x r).shift
  by_cases hfull : (sampleBit k x r).shift &&& andiMask k = 0
  · have hrow : Full k (tested k (andiMask k) cnt x r).shift := hiff.mp hfull
    rw [testStuffed, if_pos hfull, if_pos hrow]
    rfl
  · have hrow : ¬Full k (tested k (andiMask k) cnt x r).shift := fun h => hfull (hiff.mpr h)
    rw [testStuffed, if_neg hfull, if_neg hrow]
    rfl

/-- Where the loop waits for bit `k`; the first bit of a byte has a second entry
for when the bit stuffed behind the last byte came in between. -/
inductive Awaits : Fin 8 → RxRegs → RxState → Prop where
  | rxbit (k : Fin 8) (r : RxRegs) (h : k = 0 → ¬r.shift < 0x04) :
      Awaits k r (.running (.rxbit k) r)
  | unstuffed7 (r : RxRegs) : Awaits 0 r (.running (.stuffed 7) r)

def cntAfter (k : Fin 8) (cnt : BitVec 8) : BitVec 8 :=
  if k.val = 3 then cnt - 1 else cnt

/-- Bits 0 to 6 alike: sample, count at bit 3, test, and go on. -/
theorem rxStep_bit (k : Fin 8) (hk : k.val < 7) (r : RxRegs) (st : RxState) (x : BitVec 8)
    (hst : Awaits k r st) (hx : pins x ≠ .se0) (hcnt : k = 3 → r.cnt - 1 ≠ 0)
    (htop : k = 6 → r.shift.getLsbD 7 = false) :
    ∃ x', x'.getLsbD usbMinus = x.getLsbD usbMinus ∧
      rxStep st x = if Full k (tested k (andiMask k) (cntAfter k r.cnt) x' r).shift then
        .running (.stuffed k) (tested k (andiMask k) (cntAfter k r.cnt) x' r)
      else .running (.rxbit (k + 1)) (tested k (andiMask k) (cntAfter k r.cnt) x' r) := by
  have hmasked := masked_minus x
  cases hst with
  | unstuffed7 => exact ⟨x, rfl, testStuffed_eq 0 (by decide) r.cnt x r⟩
  | rxbit _ _ hdone =>
    match k with
    | 0 =>
      refine ⟨x, rfl, ?_⟩
      rw [← testStuffed_eq 0 (by decide)]
      simp only [rxStep, rxbit0, if_neg (hdone rfl)]
      rfl
    | 1 =>
      refine ⟨x &&& usbMask, hmasked, ?_⟩
      rw [← testStuffed_eq 1 (by decide), rxStep, rxbit1, unlessSE0_level x r _ hx]
      rfl
    | 2 =>
      refine ⟨x &&& usbMask, hmasked, ?_⟩
      rw [← testStuffed_eq 2 (by decide), rxStep, rxbit2, unlessSE0_level x r _ hx]
      rfl
    | 3 =>
      refine ⟨x, rfl, ?_⟩
      rw [← testStuffed_eq 3 (by decide)]
      simp only [rxStep, rxbit3, if_neg (hcnt rfl)]
      rfl
    | 4 =>
      refine ⟨x &&& usbMask, hmasked, ?_⟩
      rw [← testStuffed_eq 4 (by decide), rxStep, rxbit4, unlessSE0_level x r _ hx]
      rfl
    | 5 =>
      refine ⟨x, rfl, ?_⟩
      rw [← testStuffed_eq 5 (by decide)]
      rfl
    | 6 =>
      refine ⟨x &&& usbMask, hmasked, ?_⟩
      have hall : (tested 6 (andiMask 6) r.cnt (x &&& usbMask) r) =
          sampleBit 6 (x &&& usbMask) r := by
        have hones : andiMask 6 = BitVec.allOnes 8 := by decide
        rw [tested, hones, BitVec.and_allOnes]
        rfl
      have hkeep : (sampleBit 6 (x &&& usbMask) r).shift.getLsbD 7 = false := by
        rw [sampleBit, getLsbD_bld _ _ _ _ (by omega), if_neg (by omega)]
        exact htop rfl
      have hiff := (cpi_lt_iff (sampleBit 6 (x &&& usbMask) r).shift).1 hkeep
      have hstep : rxStep (.running (.rxbit 6) r) x =
          if (sampleBit 6 (x &&& usbMask) r).shift < 0x02 then
            .running (.stuffed 6) (sampleBit 6 (x &&& usbMask) r)
          else .running (.rxbit 7) (sampleBit 6 (x &&& usbMask) r) := by
        rw [rxStep, rxbit6, unlessSE0_level x r _ hx]
      change rxStep (.running (.rxbit 6) r) x =
        if Full 6 (tested 6 (andiMask 6) r.cnt (x &&& usbMask) r).shift then
          .running (.stuffed 6) (tested 6 (andiMask 6) r.cnt (x &&& usbMask) r)
        else .running (.rxbit 7) (tested 6 (andiMask 6) r.cnt (x &&& usbMask) r)
      rw [hstep, hall]
      by_cases hlt : (sampleBit 6 (x &&& usbMask) r).shift < 0x02
      · rw [if_pos hlt, if_pos (hiff.mp hlt)]
      · rw [if_neg hlt, if_neg (fun h => hlt (hiff.mpr h))]

theorem rxStep_stuffed (k : Fin 8) (hk : k.val < 7) (r : RxRegs) (y : BitVec 8)
    (hy : pins y ≠ .se0) :
    rxStep (.running (.stuffed k) r) y =
      .running (.rxbit (k + 1)) (unstuffed k (y &&& usbMask) r) := by
  have hbit : rxStep (.running (.stuffed k) r) y = stuffedBit k y r := by
    match k with
    | 0 | 1 | 2 | 3 | 4 | 5 | 6 => rfl
  rw [hbit, stuffedBit, unlessSE0_level y r _ hy]
  rfl

/-- The routine stands before bit `k` of the byte behind `bytes`, with `word` read of it. -/
def Ready (k : Fin 8) (level : Bool) (ones : Nat) (word : List Bool) (bytes : List UInt8)
    (st : RxState) : Prop :=
  ∃ r, Awaits k r st ∧ Receiving k level ones word r ∧ r.stored = bytes ∧
    r.cnt.toNat + bytes.length = if k.val < 4 then 12 else 11

variable {st : RxState} {bytes : List UInt8}

theorem cntAfter_room (k : Fin 8) (hk : k.val < 7) (cnt : BitVec 8) (n : Nat)
    (hroom : k = 3 → n ≤ 10) (h : cnt.toNat + n = if k.val < 4 then 12 else 11) :
    (cntAfter k cnt).toNat + n = if k.val + 1 < 4 then 12 else 11 := by
  unfold cntAfter
  by_cases hthree : k = 3
  · subst hthree
    have hcnt : cnt ≠ 0 := by
      rintro rfl
      simp at h
      have := hroom rfl
      omega
    rw [if_pos (show (3 : Fin 8).val = 3 from rfl), toNat_dec cnt hcnt]
    simp at h ⊢
    have := hroom rfl
    omega
  · have hval : k.val ≠ 3 := fun hv => hthree (Fin.ext hv)
    rw [if_neg hval, h]
    split <;> split <;> omega

theorem two_samples {samples : List (BitVec 8)}
    (h : samples.map pins = (nrzi level [true, false]).map .ofLevel) :
    ∃ x y, samples = [x, y] ∧ pins x = .ofLevel level ∧ pins y = .ofLevel (!level) := by
  have hkeep : (level == true) = level := by cases level <;> rfl
  have hflip : (level == false) = !level := by cases level <;> rfl
  simp only [nrzi_cons, nrzi_nil, hkeep, hflip, List.map_cons, List.map_nil] at h
  obtain ⟨x, rest, rfl, hx, hrest⟩ := List.map_eq_cons_iff.mp h
  obtain ⟨y, tail, rfl, hy, htail⟩ := List.map_eq_cons_iff.mp hrest
  exact ⟨x, y, by rw [List.map_eq_nil_iff.mp htail], hx, hy⟩

theorem one_sample {samples : List (BitVec 8)}
    (h : samples.map pins = (nrzi level [b]).map .ofLevel) :
    ∃ x, samples = [x] ∧ pins x = .ofLevel (level == b) := by
  simp only [nrzi_cons, nrzi_nil, List.map_cons, List.map_nil] at h
  obtain ⟨x, rest, rfl, hx, hrest⟩ := List.map_eq_cons_iff.mp h
  exact ⟨x, by rw [List.map_eq_nil_iff.mp hrest], hx⟩

theorem some_sample {samples : List (BitVec 8)}
    (h : samples.map pins = (nrzi level (stuffBit 6 ones b)).map .ofLevel) :
    ∃ x more, samples = x :: more := by
  by_cases hfull : b = true ∧ ones + 1 = 6
  · rw [stuffBit, if_pos hfull] at h
    obtain ⟨x, y, rfl, -, -⟩ := two_samples h
    exact ⟨x, [y], rfl⟩
  · rw [stuffBit, if_neg hfull] at h
    obtain ⟨x, rfl, -⟩ := one_sample h
    exact ⟨x, [], rfl⟩

theorem level_ne_se0 {x : BitVec 8} {level : Bool} (h : pins x = .ofLevel level) :
    pins x ≠ .se0 := by
  rw [h]
  exact ofLevel_ne_se0 level

theorem Ready.bit {k : Fin 8} (hk : k.val < 7) (h : Ready k level ones word bytes st)
    (hroom : k = 3 → bytes.length ≤ 10) (samples : List (BitVec 8))
    (hs : samples.map pins = (nrzi level (stuffBit 6 ones b)).map .ofLevel) :
    Ready (k + 1) (lastLevel level (stuffBit 6 ones b)) (nextOnes 6 ones b) (word ++ [b]) bytes
      (run rxStep st samples) := by
  obtain ⟨r, hst, hrec, hstored, hcnt⟩ := h
  have hnext : ∀ k : Fin 8, k.val < 7 → (k + 1).val = k.val + 1 ∧ k + 1 ≠ 0 := by decide
  obtain ⟨hval, hne⟩ := hnext k hk
  have hcnt' := cntAfter_room k hk r.cnt bytes.length hroom hcnt
  have hthree : k = 3 → r.cnt - 1 ≠ 0 := by
    rintro rfl hzero
    have hlen := hroom rfl
    have hafter : (0 : BitVec 8).toNat + bytes.length = 11 := by
      rw [← hzero]
      exact hcnt'
    simp at hafter
    omega
  have htop : k = 6 → r.shift.getLsbD 7 = false := by
    rintro rfl
    exact hrec.top rfl
  have hmask := andiMask_for k hk
  have hlt : k.val < 8 := k.isLt
  by_cases hfull : b = true ∧ ones + 1 = 6
  · obtain ⟨rfl, hones⟩ := hfull
    obtain rfl : ones = 5 := by omega
    have hs : samples.map pins = (nrzi level [true, false]).map .ofLevel := hs
    obtain ⟨x, y, rfl, hx, hy⟩ := two_samples hs
    obtain ⟨x', hx', hstep⟩ := rxStep_bit k hk r st x hst (level_ne_se0 hx) hthree htop
    rw [pins_minus x level hx] at hx'
    have hx'' : x'.getLsbD usbMinus = (level == true) := by rw [hx']; cases level <;> rfl
    have hrow : Full k (tested k (andiMask k) (cntAfter k r.cnt) x' r).shift :=
      (hmask.full_iff _).mpr ((hrec.full_iff hlt hx'').mpr ⟨rfl, rfl⟩)
    have hlast : lastLevel level (stuffBit 6 5 true) = !level := by cases level <;> rfl
    have hzero : nextOnes 6 5 true = 0 := rfl
    rw [run_cons, run_cons, run_nil, hstep, if_pos hrow, rxStep_stuffed k hk _ y (level_ne_se0 hy),
      hlast, hzero]
    refine ⟨_, .rxbit (k + 1) _ (fun h0 => absurd h0 hne), ?_, hstored, ?_⟩
    · rw [hval]
      exact hrec.stuffed hlt hx' hmask (cntAfter k r.cnt) (y &&& usbMask)
        ((masked_minus y).trans (pins_minus y _ hy))
    · rw [hval]
      exact hcnt'
  · have hone : stuffBit 6 ones b = [b] := by rw [stuffBit, if_neg hfull]
    rw [hone] at hs ⊢
    obtain ⟨x, rfl, hx⟩ := one_sample hs
    obtain ⟨x', hx', hstep⟩ := rxStep_bit k hk r st x hst (level_ne_se0 hx) hthree htop
    rw [pins_minus x _ hx] at hx'
    have hrow : ¬Full k (tested k (andiMask k) (cntAfter k r.cnt) x' r).shift :=
      fun hrow => hfull ((hrec.full_iff hlt hx').mp ((hmask.full_iff _).mp hrow))
    rw [run_cons, run_nil, hstep, if_neg hrow]
    refine ⟨_, .rxbit (k + 1) _ (fun h0 => absurd h0 hne), ?_, hstored, ?_⟩
    · rw [hval]
      exact hrec.next hlt hx' hmask (cntAfter k r.cnt) hfull
    · rw [hval]
      exact hcnt'

theorem maskFor_last : MaskFor 7 0xff := by
  have hkeeps : ∀ i < 8, (0xff : BitVec 8).getLsbD i = true := by decide
  exact ⟨fun i hi _ => hkeeps i hi, by omega⟩

theorem tested_last (x : BitVec 8) (r : RxRegs) : tested 7 0xff r.cnt x r = sampleBit 7 x r := by
  have hones : (0xff : BitVec 8) = BitVec.allOnes 8 := by decide
  rw [tested, hones, BitVec.and_allOnes]
  rfl

/-- The last bit of a byte stores it; what is stuffed behind it waits for `rxbit0`. -/
theorem Ready.last (h : Ready 7 level ones word bytes st) (byte : UInt8)
    (hword : word ++ [b] = bits byte.toBitVec 8) (samples : List (BitVec 8))
    (hs : samples.map pins = (nrzi level (stuffBit 6 ones b)).map .ofLevel) :
    Ready 0 (lastLevel level (stuffBit 6 ones b)) (nextOnes 6 ones b) [] (bytes ++ [byte])
      (run rxStep st samples) := by
  obtain ⟨r, hst, hrec, hstored, hcnt⟩ := h
  have hrec : Receiving 7 level ones word r := hrec
  have hcnt' : r.cnt.toNat + (bytes ++ [byte]).length = 12 := by
    have : r.cnt.toNat + bytes.length = 11 := hcnt
    rw [List.length_append, List.length_singleton]
    omega
  cases hst with
  | rxbit _ _ _ =>
    by_cases hfull : b = true ∧ ones + 1 = 6
    · obtain ⟨rfl, hones⟩ := hfull
      obtain rfl : ones = 5 := by omega
      have hs : samples.map pins = (nrzi level [true, false]).map .ofLevel := hs
      obtain ⟨x, y, rfl, hx, hy⟩ := two_samples hs
      have hx' : x.getLsbD usbMinus = (level == true) := by
        rw [pins_minus x level hx]
        cases level <;> rfl
      have hlt : (sampleBit 7 x r).shift < 0x04 :=
        (cpi_lt_iff _).2.mpr ((hrec.full_iff (by omega) hx').mpr ⟨rfl, rfl⟩)
      have hlast : lastLevel level (stuffBit 6 5 true) = !level := by cases level <;> rfl
      have hzero : nextOnes 6 5 true = 0 := rfl
      rw [run_cons, run_cons, run_nil, hlast, hzero]
      simp only [rxStep, rxbit7, rxbit0, if_pos hlt, unlessSE0_level y _ _ (level_ne_se0 hy)]
      refine ⟨_, .unstuffed7 _, ⟨rfl, ?_, by omega, by simp, .inr ?_, by simp, ?_, by omega⟩, ?_,
        hcnt'⟩
      · exact (masked_minus y).trans (pins_minus y _ hy)
      · have hset : (0x80#8).getLsbD 7 = true := by decide
        change ((sampleBit 7 x r).shift ||| 0x80#8).getLsbD 7 = true
        rw [BitVec.getLsbD_or, hset, Bool.or_true]
      · intro i _ hi
        have hall : ∀ i < 8, (0xff : BitVec 8).getLsbD i = true := by decide
        exact hall i hi
      · change r.stored ++ [UInt8.ofBitVec (r.x3 ^^^ (sampleBit 7 x r).shift)] = bytes ++ [byte]
        rw [hrec.stored_byte hx' byte hword, hstored]
    · have hone : stuffBit 6 ones b = [b] := by rw [stuffBit, if_neg hfull]
      rw [hone] at hs ⊢
      obtain ⟨x, rfl, hx⟩ := one_sample hs
      have hx' := pins_minus x _ hx
      have hrow : ¬(sampleBit 7 x r).shift < 0x04 := fun hlt =>
        hfull ((hrec.full_iff (by omega) hx').mp ((cpi_lt_iff _).2.mp hlt))
      have hnext := (hrec.next (by omega) hx' maskFor_last r.cnt hfull).wrap (bytes ++ [byte])
      rw [tested_last] at hnext
      rw [run_cons, run_nil]
      refine ⟨_, .rxbit 0 _ (fun _ => hrow), ?_, ?_, hcnt'⟩
      · have hbytes : r.stored ++ [UInt8.ofBitVec (r.x3 ^^^ (sampleBit 7 x r).shift)] =
            bytes ++ [byte] := by rw [hrec.stored_byte hx' byte hword, hstored]
        change Receiving 0 _ _ [] { sampleBit 7 x r with
          x3 := 0xff, stored := r.stored ++ [UInt8.ofBitVec (r.x3 ^^^ (sampleBit 7 x r).shift)] }
        rw [hbytes]
        exact hnext
      · change r.stored ++ [UInt8.ofBitVec (r.x3 ^^^ (sampleBit 7 x r).shift)] = bytes ++ [byte]
        rw [hrec.stored_byte hx' byte hword, hstored]

theorem lt_eight_eq (k : Fin 8) : k.val < 7 ∨ k = 7 := by omega

/-- `samples` start with those that take the routine to the end of `bytes`, and the
rest of them are the levels of `tail`. -/
def ReadyBehind (bytes : List UInt8) (tail : List Bool) (st : RxState)
    (samples : List (BitVec 8)) : Prop :=
  ∃ level ones now later, samples = now ++ later ∧
    Ready ⟨0, Nat.zero_lt_succ 7⟩ level ones [] bytes (run rxStep st now) ∧
    later.map pins = (encode 6 ones level tail).map .ofLevel

theorem ReadyBehind.prepend {bytes : List UInt8} {tail : List Bool} {st : RxState}
    {now later : List (BitVec 8)} (h : ReadyBehind bytes tail (run rxStep st now) later) :
    ReadyBehind bytes tail st (now ++ later) := by
  obtain ⟨level, ones, next, rest, rfl, hready, hrest⟩ := h
  refine ⟨level, ones, now ++ next, rest, by rw [List.append_assoc], ?_, hrest⟩
  rw [run_append]
  exact hready

/-- The rest of the byte in hand and the bytes behind it. -/
theorem Ready.run_bytes (rest : List Bool) (k : Fin 8) (level : Bool) (ones : Nat)
    (word : List Bool) (bytes data : List UInt8) (st : RxState) (tail : List Bool)
    (h : Ready k level ones word bytes st) (hword : word ++ rest = wireBits data)
    (hroom : bytes.length + data.length ≤ 11) (samples : List (BitVec 8))
    (hs : samples.map pins = (encode 6 ones level (rest ++ tail)).map .ofLevel) :
    ReadyBehind (bytes ++ data) tail st samples := by
  induction rest generalizing k level ones word bytes data st samples with
  | nil =>
    obtain ⟨r, -, hrec, -, -⟩ := id h
    have hlen := congrArg List.length hword
    have hk := k.isLt
    rw [List.append_nil, hrec.length, wireBits_length] at hlen
    obtain rfl : data = [] := List.length_eq_zero_iff.mp (by omega)
    obtain rfl : k = 0 := Fin.ext (by simpa using hlen)
    obtain rfl : word = [] := List.length_eq_zero_iff.mp hrec.length
    exact ⟨level, ones, [], samples, rfl, by rw [List.append_nil]; exact h, hs⟩
  | cons b rest ih =>
    rw [List.cons_append, encode_cons, List.map_append] at hs
    obtain ⟨now, later, rfl, hnow, hlater⟩ := List.map_eq_append_iff.mp hs
    apply ReadyBehind.prepend
    have hdata : data ≠ [] := by
      rintro rfl
      simp at hword
    have hpos : 0 < data.length := List.length_pos_iff.mpr hdata
    rcases lt_eight_eq k with hk | rfl
    · have hnext := h.bit hk (fun _ => by omega) now hnow
      exact ih (k + 1) _ _ (word ++ [b]) bytes data _ hnext (by simpa using hword) hroom later hlater
    · cases data with
      | nil => exact absurd rfl hdata
      | cons byte data =>
        obtain ⟨r, -, hrec, -, -⟩ := id h
        have hsplit : (word ++ [b]) ++ rest = bits byte.toBitVec 8 ++ wireBits data := by
          simpa using hword
        obtain ⟨hbyte, hrest⟩ := List.append_inj hsplit (by simp [hrec.length])
        have hnext := h.last byte hbyte now hnow
        have hrun := ih 0 _ _ [] (bytes ++ [byte]) data _ hnext (by simpa using hrest)
          (by simp at hroom ⊢; omega) later hlater
        simpa using hrun

/-- SE0 behind a whole byte ends the packet at its second sample at the latest. -/
theorem Ready.eop (h : Ready 0 level ones [] bytes st) (x y : BitVec 8)
    (hy : pins y = .se0) : run rxStep st [x, y] = .se0 bytes := by
  obtain ⟨r, hst, -, hstored, -⟩ := h
  have htest : rxStep (testStuffed 0 0xf9 (sampleBit 0 x r)) y = .se0 bytes := by
    unfold testStuffed
    split
    · change stuffedBit 0 y _ = _
      rw [stuffedBit, unlessSE0_se0 y _ _ hy]
      exact congrArg RxState.se0 hstored
    · change rxbit1 y _ = _
      rw [rxbit1, unlessSE0_se0 y _ _ hy]
      exact congrArg RxState.se0 hstored
  rw [run_cons, run_cons, run_nil]
  cases hst with
  | unstuffed7 => exact htest
  | rxbit _ _ hdone =>
    simp only [rxStep, rxbit0, if_neg (hdone rfl)]
    exact htest

/-- The line while the sync byte lasts, from the sample behind an edge to K. -/
def syncTail : Nat → List Pins
  | 0 => [.k]
  | m + 1 => .j :: .k :: syncTail m

theorem waitNoChange_changed (r : RxRegs) (x : BitVec 8)
    (h : (r.last ^^^ x).getLsbD usbMinus = true) :
    waitNoChange x r = .running .waitNoChange { r with last := x, cnt := 1 } := by
  have hcnt : (2 : BitVec 8) - 1 = 1 := by decide
  rw [waitNoChange, if_pos h, hcnt]
  rfl

theorem sync_ends (m : Nat) (r : RxRegs) (samples : List (BitVec 8))
    (hlast : r.last.getLsbD usbMinus = false) (hcnt : r.cnt = 1)
    (hs : samples.map pins = syncTail m) :
    ∃ r', r'.last.getLsbD usbMinus = false ∧
      run rxStep (.running .waitNoChange r) samples = .running (.start 0) r' := by
  induction m generalizing r samples with
  | zero =>
    obtain ⟨x, rest, rfl, hx, hrest⟩ := List.map_eq_cons_iff.mp hs
    obtain rfl := List.map_eq_nil_iff.mp hrest
    have hlow := pins_minus x false hx
    refine ⟨{ r with last := x, cnt := 0 }, hlow, ?_⟩
    have hsame : (r.last ^^^ x).getLsbD usbMinus = false := by
      rw [BitVec.getLsbD_xor, hlast, hlow]
      rfl
    simp only [run_cons, run_nil, rxStep, waitNoChange, hsame, hcnt, hlow]
    rfl
  | succ m ih =>
    obtain ⟨x, rest, rfl, hx, hrest⟩ := List.map_eq_cons_iff.mp hs
    obtain ⟨y, rest, rfl, hy, hrest⟩ := List.map_eq_cons_iff.mp hrest
    have hhigh := pins_minus x true hx
    have hlow := pins_minus y false hy
    have hup : (r.last ^^^ x).getLsbD usbMinus = true := by
      rw [BitVec.getLsbD_xor, hlast, hhigh]
      rfl
    have hdown : (x ^^^ y).getLsbD usbMinus = true := by
      rw [BitVec.getLsbD_xor, hhigh, hlow]
      rfl
    rw [run_cons, run_cons, rxStep, waitNoChange_changed r x hup, rxStep,
      waitNoChange_changed { r with last := x, cnt := 1 } y hdown]
    exact ih { r with last := y, cnt := 1 } rest hlow rfl hrest

/-- The four bits read while the registers are set up hold no stuffed bit, and the
set bit the sync byte ends with counts towards the first row. -/
theorem start_row : ∀ b0 b1 b2 b3 : Bool,
    let shift := bld (bld (bld (bld 0 0 !b0) 1 !b1) 2 !b2) 3 !b3
    let ones := nextOnes 6 (nextOnes 6 (nextOnes 6 (nextOnes 6 1 b0) b1) b2) b3
    ones < 6 ∧ (∀ j < ones, shift.getLsbD ((4 + 7 - j) % 8) = false) ∧
      (ones = 5 ∨ shift.getLsbD ((4 + 7 - ones) % 8) = true) ∧
      ∀ i (hi : i < 4), (0xff#8 ^^^ shift).getLsbD i = [b0, b1, b2, b3].get ⟨i, hi⟩ := by
  decide

theorem start_encode (b0 b1 b2 b3 : Bool) (rest : List Bool) :
    encode 6 1 false (b0 :: b1 :: b2 :: b3 :: rest) = nrzi false [b0, b1, b2, b3] ++
      encode 6 (nextOnes 6 (nextOnes 6 (nextOnes 6 (nextOnes 6 1 b0) b1) b2) b3)
        (lastLevel false [b0, b1, b2, b3]) rest := by
  rw [encode_cons, encode_cons, encode_cons, encode_cons]
  cases b0 <;> cases b1 <;> cases b2 <;> cases b3 <;> rfl

theorem Receiving.start (r : RxRegs) (b0 b1 b2 b3 : Bool) (x : BitVec 8)
    (hx : x.getLsbD usbMinus = lastLevel false [b0, b1, b2, b3]) (hlast : r.last = x)
    (hx3 : r.x3 = 0xff#8)
    (hshift : r.shift = bld (bld (bld (bld 0 0 !b0) 1 !b1) 2 !b2) 3 !b3) :
    Receiving 4 (lastLevel false [b0, b1, b2, b3])
      (nextOnes 6 (nextOnes 6 (nextOnes 6 (nextOnes 6 1 b0) b1) b2) b3) [b0, b1, b2, b3] r := by
  obtain ⟨hfew, hrecent, hbefore, hdecoded⟩ := start_row b0 b1 b2 b3
  refine ⟨rfl, by rw [hlast, hx], hfew, ?_, ?_, ?_, ?_, by omega⟩
  · rw [hshift]
    exact hrecent
  · rw [hshift]
    exact hbefore
  · rw [hshift, hx3]
    exact hdecoded
  · intro i _ hi
    have hall : ∀ i < 8, (0xff : BitVec 8).getLsbD i = true := by decide
    rw [hx3]
    exact hall i hi

theorem change_of_levels {x y : BitVec 8} {level b : Bool} (hx : x.getLsbD usbMinus = level)
    (hy : y.getLsbD usbMinus = (level == b)) : (x ^^^ y).getLsbD usbMinus = !b := by
  rw [BitVec.getLsbD_xor, hx, hy]
  cases level <;> cases b <;> rfl

theorem start_ready (r : RxRegs) (hlast : r.last.getLsbD usbMinus = false) (b0 b1 b2 b3 : Bool)
    (samples : List (BitVec 8))
    (hs : samples.map pins = (nrzi false [b0, b1, b2, b3]).map .ofLevel) :
    Ready 4 (lastLevel false [b0, b1, b2, b3])
      (nextOnes 6 (nextOnes 6 (nextOnes 6 (nextOnes 6 1 b0) b1) b2) b3) [b0, b1, b2, b3] []
      (run rxStep (.running (.start 0) r) samples) := by
  obtain ⟨x0, rest, rfl, h0, hrest⟩ := List.map_eq_cons_iff.mp hs
  obtain ⟨x1, rest, rfl, h1, hrest⟩ := List.map_eq_cons_iff.mp hrest
  obtain ⟨x2, rest, rfl, h2, hrest⟩ := List.map_eq_cons_iff.mp hrest
  obtain ⟨x3, rest, rfl, h3, hrest⟩ := List.map_eq_cons_iff.mp hrest
  obtain rfl := List.map_eq_nil_iff.mp hrest
  have h0 := pins_minus x0 _ h0
  have h1 := pins_minus x1 _ h1
  have h2 := pins_minus x2 _ h2
  have h3 := pins_minus x3 _ h3
  refine ⟨_, .rxbit 4 _ (by simp), Receiving.start _ b0 b1 b2 b3 x3 h3 rfl rfl ?_, rfl, rfl⟩
  rw [← change_of_levels hlast h0, ← change_of_levels h0 h1, ← change_of_levels h1 h2,
    ← change_of_levels h2 h3]
  rfl

theorem bits_four (byte : UInt8) :
    ∃ b0 b1 b2 b3 tail, bits byte.toBitVec 8 = b0 :: b1 :: b2 :: b3 :: tail := by
  refine ⟨byte.toBitVec.getLsbD 0, byte.toBitVec.getLsbD 1, byte.toBitVec.getLsbD 2,
    byte.toBitVec.getLsbD 3, (bits byte.toBitVec 8).drop 4, rfl⟩

/-- The bits `word` on the line behind a sync byte, from the sample behind an edge to K. -/
def Carries (samples : List (BitVec 8)) (m : Nat) (word : List Bool) : Prop :=
  samples.map pins = syncTail m ++ (encode 6 1 false word).map .ofLevel

instance (samples : List (BitVec 8)) (m : Nat) (word : List Bool) :
    Decidable (Carries samples m word) :=
  inferInstanceAs (Decidable (samples.map pins = _))

/-- From the edge to the last of some bytes that fit. -/
theorem receive_ready (r : RxRegs) (m : Nat) (data : List UInt8) (tail : List Bool)
    (samples : List (BitVec 8)) (hpos : data ≠ []) (hlen : data.length ≤ 11)
    (hs : Carries samples m (wireBits data ++ tail)) :
    ReadyBehind data tail (shortcutEntry r) samples := by
  obtain ⟨sync, packet, rfl, hsync, hpacket⟩ := List.map_eq_append_iff.mp hs
  have hlow : (1#8 <<< usbPlus).getLsbD usbMinus = false := by decide
  obtain ⟨r', hlast, hstart⟩ := sync_ends m { r with last := 1#8 <<< usbPlus, cnt := 1, stored := [] }
    sync hlow rfl hsync
  apply ReadyBehind.prepend
  rw [shortcutEntry, hstart]
  cases data with
  | nil => exact absurd rfl hpos
  | cons byte data =>
    obtain ⟨b0, b1, b2, b3, more, hbits⟩ := bits_four byte
    have hword : wireBits (byte :: data) = [b0, b1, b2, b3] ++ (more ++ wireBits data) := by
      rw [wireBits_cons, hbits]
      rfl
    have hstart4 := start_encode b0 b1 b2 b3 ((more ++ wireBits data) ++ tail)
    rw [hword, List.append_assoc] at hpacket
    rw [show [b0, b1, b2, b3] ++ ((more ++ wireBits data) ++ tail) =
      b0 :: b1 :: b2 :: b3 :: ((more ++ wireBits data) ++ tail) from rfl, hstart4,
      List.map_append] at hpacket
    obtain ⟨first, later, rfl, hfirst, hlater⟩ := List.map_eq_append_iff.mp hpacket
    apply ReadyBehind.prepend
    have hrun := (start_ready r' hlast b0 b1 b2 b3 first hfirst).run_bytes (more ++ wireBits data)
      _ _ _ _ [] (byte :: data) _ tail hword.symm (by simpa using hlen) later hlater
    simpa using hrun

theorem run_se0 (stored : List UInt8) (samples : List (BitVec 8)) :
    run rxStep (.se0 stored) samples = .se0 stored := by
  induction samples with
  | nil => rfl
  | cons x samples ih => exact ih

theorem run_overflow (stored : List UInt8) (samples : List (BitVec 8)) :
    run rxStep (.overflow stored) samples = .overflow stored := by
  induction samples with
  | nil => rfl
  | cons x samples ih => exact ih

/-- A packet that fits is stored as it was sent. -/
theorem receive_stores (r : RxRegs) (m : Nat) (data : List UInt8) (samples : List (BitVec 8))
    (hpos : data ≠ []) (hlen : data.length ≤ 11) (hs : Carries samples m (wireBits data))
    (x y : BitVec 8) (hy : pins y = .se0) (idle : List (BitVec 8)) :
    run rxStep (shortcutEntry r) (samples ++ x :: y :: idle) = .se0 data := by
  obtain ⟨level, ones, now, later, rfl, hready, hlater⟩ := receive_ready r m data [] samples hpos hlen
    (by rw [List.append_nil]; exact hs)
  obtain rfl : later = [] := List.map_eq_nil_iff.mp hlater
  have hsplit : now ++ [] ++ x :: y :: idle = now ++ [x, y] ++ idle := by simp
  rw [hsplit, run_append, run_append, hready.eop x y hy, run_se0]

theorem Ready.bit_three (h : Ready 3 level ones word bytes st) (hfull : bytes.length = 11)
    (x : BitVec 8) : rxStep st x = .overflow bytes := by
  obtain ⟨r, hst, -, hstored, hcnt⟩ := h
  have hone : r.cnt - 1 = 0 := by
    apply BitVec.eq_of_toNat_eq
    have hcnt : r.cnt.toNat + bytes.length = 12 := hcnt
    have hne : r.cnt ≠ 0 := by
      rintro hzero
      rw [hzero] at hcnt
      simp at hcnt
      omega
    rw [toNat_dec r.cnt hne]
    simp
    omega
  cases hst with
  | rxbit _ _ _ =>
    simp only [rxStep, rxbit3, if_pos hone]
    exact congrArg RxState.overflow hstored

theorem Ready.three_bits (h : Ready 0 level ones [] bytes st) (hfull : bytes.length = 11)
    (b0 b1 b2 b3 : Bool) (rest : List Bool) (samples : List (BitVec 8))
    (hs : samples.map pins = (encode 6 ones level (b0 :: b1 :: b2 :: b3 :: rest)).map .ofLevel) :
    run rxStep st samples = .overflow bytes := by
  rw [encode_cons, encode_cons, encode_cons, encode_cons, List.map_append, List.map_append,
    List.map_append, List.map_append] at hs
  obtain ⟨s0, samples, rfl, h0, hs⟩ := List.map_eq_append_iff.mp hs
  obtain ⟨s1, samples, rfl, h1, hs⟩ := List.map_eq_append_iff.mp hs
  obtain ⟨s2, samples, rfl, h2, hs⟩ := List.map_eq_append_iff.mp hs
  obtain ⟨s3, samples, rfl, h3, hs⟩ := List.map_eq_append_iff.mp hs
  have hready := ((h.bit (by decide) (by simp) s0 h0).bit (by decide) (by simp) s1 h1).bit
    (by decide) (by simp) s2 h2
  obtain ⟨x, more, rfl⟩ := some_sample h3
  rw [run_append, run_append, run_append, List.cons_append, run_cons,
    hready.bit_three hfull x, run_overflow]

/-- A longer packet is dropped in its twelfth byte, whatever follows. -/
theorem receive_drops (r : RxRegs) (m : Nat) (data : List UInt8) (samples : List (BitVec 8))
    (hlen : 11 < data.length) (hs : Carries samples m (wireBits data)) (rest : List (BitVec 8)) :
    run rxStep (shortcutEntry r) (samples ++ rest) = .overflow (data.take 11) := by
  obtain ⟨twelfth, more, hdrop⟩ := List.exists_cons_of_length_pos
    (show 0 < (data.drop 11).length by simp; omega)
  have hfirst : (data.take 11).length = 11 := by simp; omega
  have hbits : wireBits data = wireBits (data.take 11) ++ wireBits (twelfth :: more) := by
    rw [← wireBits_append, ← hdrop, List.take_append_drop]
  rw [hbits] at hs
  obtain ⟨level, ones, now, later, rfl, hready, hlater⟩ := receive_ready r m (data.take 11) _ samples
    (by intro hnil; rw [hnil] at hfirst; simp at hfirst) (by omega) hs
  obtain ⟨b0, b1, b2, b3, tail, hbits⟩ := bits_four twelfth
  rw [wireBits_cons, hbits] at hlater
  rw [run_append, run_append, hready.three_bits hfirst b0 b1 b2 b3 _ later hlater, run_overflow]

/-- Caught at any edge of its sync byte, a packet of up to eleven bytes is stored as
it was sent, and of a longer one nothing is handed on. -/
theorem receive_packet (r : RxRegs) (m : Nat) (data : List UInt8) (samples : List (BitVec 8))
    (hpos : data ≠ []) (hs : Carries samples m (wireBits data)) (x y : BitVec 8)
    (hy : pins y = .se0) (idle : List (BitVec 8)) :
    run rxStep (shortcutEntry r) (samples ++ x :: y :: idle) =
      if data.length ≤ 11 then .se0 data else .overflow (data.take 11) := by
  split
  · next hlen => exact receive_stores r m data samples hpos hlen hs x y hy idle
  · next hlen => exact receive_drops r m data samples (by omega) hs (x :: y :: idle)

def someRegs : RxRegs :=
  { last := 0x55#8, shift := 0xaa#8, x3 := 0x00#8, cnt := 0x07#8, stored := [1, 2, 3] }

/-- An IN token byte on a port whose other pins are high. -/
theorem receive_packet_in :
    run rxStep (shortcutEntry someRegs)
      ([0xfb#8, 0xef, 0xef, 0xef, 0xfb, 0xef, 0xef, 0xfb, 0xfb, 0xfb, 0xef] ++
        0xeb :: 0xeb :: [0xfb]) = .se0 [0x69] :=
  receive_packet someRegs 1 [0x69] _ (by decide) (show Carries _ _ _ by decide) 0xeb 0xeb
    (by decide) [0xfb]

theorem packetLevels_eq (y : List UInt8) : packetLevels y =
    [false, true, false, true, false, true, false, false] ++ encode 6 1 false (wireBits y) := by
  have hsync : wireBits (0x80 :: y) =
      false :: false :: false :: false :: false :: false :: false :: true :: wireBits y := by
    rw [wireBits_cons]
    have hbits : bits (0x80 : UInt8).toBitVec 8 =
        [false, false, false, false, false, false, false, true] := by decide
    rw [hbits]
    rfl
  rw [packetLevels, hsync, encode_cons, encode_cons, encode_cons, encode_cons, encode_cons,
    encode_cons, encode_cons, encode_cons]
  rfl

theorem packet_caught (y : List UInt8) (j : Nat) (hj : j < 4) :
    ((packetLevels y).map Pins.ofLevel).drop (2 * j + 1) =
      syncTail (3 - j) ++ (encode 6 1 false (wireBits y)).map .ofLevel := by
  rw [packetLevels_eq]
  match j with
  | 0 | 1 | 2 | 3 => rfl

/-- What the transmitter sends, from any falling edge of its sync byte on. -/
theorem transmitted_carries (port x2 : BitVec 8) (carry : Bool) (data : List UInt8) (j : Nat)
    (hport : port.getLsbD usbPlus = false) (hj : j < 4) :
    ∃ samples x y idle, (usbSendAndReti port x2 carry data).drop (2 * j + 1) =
      samples ++ x :: y :: idle ∧ Carries samples (3 - j) (wireBits data) ∧ pins y = .se0 := by
  have hshort : 2 * j + 1 ≤ ((packetLevels data).map Pins.ofLevel).length := by
    rw [packetLevels_eq]
    simp
    omega
  have hpins := congrArg (List.drop (2 * j + 1)) (transmit_pins port x2 carry data hport)
  rw [← List.map_drop, List.drop_append_of_le_length hshort, packet_caught data j hj] at hpins
  obtain ⟨samples, eop, hsplit, hsamples, heop⟩ := List.map_eq_append_iff.mp hpins
  obtain ⟨x, rest, rfl, -, hrest⟩ := List.map_eq_cons_iff.mp heop
  obtain ⟨y, idle, rfl, hy, -⟩ := List.map_eq_cons_iff.mp hrest
  exact ⟨samples, x, y, idle, hsplit, hsamples, hy⟩

/-- Whichever edge of the sync byte is caught, the receiver stores what the
transmitter was given, from whatever state either starts. -/
theorem receive_transmitted (port x2 : BitVec 8) (carry : Bool) (r : RxRegs) (data : List UInt8)
    (j : Nat) (hport : port.getLsbD usbPlus = false) (hpos : data ≠ []) (hlen : data.length ≤ 11)
    (hj : j < 4) :
    run rxStep (shortcutEntry r) ((usbSendAndReti port x2 carry data).drop (2 * j + 1)) =
      .se0 data := by
  obtain ⟨samples, x, y, idle, hsplit, hsamples, hy⟩ :=
    transmitted_carries port x2 carry data j hport hj
  rw [hsplit]
  exact receive_stores r (3 - j) data samples hpos hlen hsamples x y hy idle

/-- A token with its sum, caught at the third edge. -/
theorem receive_transmitted_token :
    run rxStep (shortcutEntry someRegs)
      ((usbSendAndReti 0xa9#8 0xff#8 true [0x2d, 0x00, 0x10]).drop (2 * 2 + 1)) =
        .se0 [0x2d, 0x00, 0x10] :=
  receive_transmitted 0xa9#8 0xff#8 true someRegs [0x2d, 0x00, 0x10] 2 (by decide) (by decide)
    (by decide) (by decide)

end Usbdrv
