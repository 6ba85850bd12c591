import DeviceDrivers.ShiftRegister

/-!
# The USB driver's checksum

`usbCrc16` keeps the sum in two byte registers and shifts it one message bit at a
time; `usbCrc16Append` stores the complement behind the data, low byte first. The
two registers are one feedback register of sixteen bits, and the errors such a
register notices in a data packet are those the appended sum notices.
-/
namespace Usbdrv

open EventRun ShiftRegister

structure CrcRegs where
  byte : BitVec 8
  resCrcL : BitVec 8
  resCrcH : BitVec 8

def crcPoly : BitVec 16 := 0xa001#16
def polyL : BitVec 8 := crcPoly.extractLsb' 0 8
def polyH : BitVec 8 := crcPoly.extractLsb' 8 8

/-- One pass of `crcBitLoop`: `lsr` of the high byte feeds its carry to `ror` of the low. -/
def crcBitStep (r : CrcRegs) : CrcRegs :=
  let scratch := r.byte ^^^ r.resCrcL
  let resCrcH := r.resCrcH >>> 1
  let resCrcL := ror (r.resCrcH.getLsbD 0) r.resCrcL
  if scratch.getLsbD 0 then
    { byte := r.byte >>> 1, resCrcL := resCrcL ^^^ polyL, resCrcH := resCrcH ^^^ polyH }
  else
    { byte := r.byte >>> 1, resCrcL := resCrcL, resCrcH := resCrcH }

def crcBitLoop : Nat → CrcRegs → CrcRegs
  | 0, r => r
  | bitCnt + 1, r => crcBitLoop bitCnt (crcBitStep r)

def crcByteLoop (r : CrcRegs) : List UInt8 → CrcRegs
  | [] => r
  | byte :: data => crcByteLoop (crcBitLoop 8 { r with byte := byte.toBitVec }) data

/-- The result registers, low byte first. -/
def usbCrc16 (data : List UInt8) : UInt8 × UInt8 :=
  let r := crcByteLoop { byte := 0, resCrcL := 0xff#8, resCrcH := 0xff#8 } data
  (UInt8.ofBitVec (~~~r.resCrcL), UInt8.ofBitVec (~~~r.resCrcH))

/-- The buffer from `data` on after the call. -/
def usbCrc16Append (data : List UInt8) : List UInt8 :=
  data ++ [(usbCrc16 data).1, (usbCrc16 data).2]

@[simp] theorem usbCrc16Append_length (data : List UInt8) :
    (usbCrc16Append data).length = data.length + 2 := by simp [usbCrc16Append]

/-- The bits of a packet in the order they go over the wire. -/
def wireBits (data : List UInt8) : List Bool := data.flatMap fun b => bits b.toBitVec 8

@[simp] theorem wireBits_nil : wireBits [] = [] := rfl
@[simp] theorem wireBits_cons (b : UInt8) (data : List UInt8) :
    wireBits (b :: data) = bits b.toBitVec 8 ++ wireBits data := rfl

theorem wireBits_append (xs ys : List UInt8) : wireBits (xs ++ ys) = wireBits xs ++ wireBits ys :=
  List.flatMap_append

@[simp] theorem wireBits_length (data : List UInt8) :
    (wireBits data).length = 8 * data.length := by
  induction data with
  | nil => rfl
  | cons b data ih =>
    simp only [wireBits_cons, List.length_append, bits_length, ih, List.length_cons]
    omega

def CrcRegs.sum (r : CrcRegs) : BitVec 16 := r.resCrcH ++ r.resCrcL

/-- The carry between the two byte registers makes them one. -/
theorem sum_shift (h l : BitVec 8) : (h >>> 1) ++ ror (h.getLsbD 0) l = (h ++ l) >>> 1 := by
  apply BitVec.eq_of_getLsbD_eq
  intro i hi
  simp only [BitVec.getLsbD_append, BitVec.getLsbD_ushiftRight]
  by_cases hlow : i < 8
  · rw [if_pos hlow, getLsbD_ror _ _ i hlow]
    by_cases htop : i + 1 = 8
    · simp [htop, Nat.add_comm 1 i]
    · rw [if_neg htop, if_pos (by omega), Nat.add_comm]
  · rw [if_neg hlow, if_neg (by omega)]
    congr 1
    omega

theorem crcBitStep_sum (r : CrcRegs) :
    (crcBitStep r).sum = feed crcPoly r.sum (r.byte.getLsbD 0) := by
  have hpoly : crcPoly = polyH ++ polyL := by decide
  have hlow : r.sum.getLsbD 0 = r.resCrcL.getLsbD 0 := by
    rw [CrcRegs.sum, BitVec.getLsbD_append, if_pos (by omega)]
  have hbit : (r.byte ^^^ r.resCrcL).getLsbD 0 = (r.sum.getLsbD 0 ^^ r.byte.getLsbD 0) := by
    rw [BitVec.getLsbD_xor, hlow, Bool.xor_comm]
  have hshift : r.sum >>> 1 = (r.resCrcH >>> 1) ++ ror (r.resCrcH.getLsbD 0) r.resCrcL :=
    (sum_shift r.resCrcH r.resCrcL).symm
  rw [feed, ← hbit, hshift, hpoly, CrcRegs.sum, crcBitStep]
  cases (r.byte ^^^ r.resCrcL).getLsbD 0
  · rfl
  · exact BitVec.xor_append.symm

theorem crcBitStep_byte (r : CrcRegs) : (crcBitStep r).byte = r.byte >>> 1 := by
  simp only [crcBitStep]
  split <;> rfl

theorem crcBitLoop_sum (bitCnt : Nat) (r : CrcRegs) :
    (crcBitLoop bitCnt r).sum = run (feed crcPoly) r.sum (bits r.byte bitCnt) := by
  induction bitCnt generalizing r with
  | zero => rfl
  | succ bitCnt ih => rw [crcBitLoop, ih, crcBitStep_byte, crcBitStep_sum, bits_cons, run_cons]

theorem crcByteLoop_sum (r : CrcRegs) (data : List UInt8) :
    (crcByteLoop r data).sum = run (feed crcPoly) r.sum (wireBits data) := by
  induction data generalizing r with
  | nil => rfl
  | cons b data ih =>
    rw [crcByteLoop, ih, crcBitLoop_sum, wireBits_cons, run_append]
    rfl

theorem result_sum (data : List UInt8) :
    (crcByteLoop { byte := 0, resCrcL := 0xff#8, resCrcH := 0xff#8 } data).sum =
      run (feed crcPoly) 0xffff#16 (wireBits data) := by
  have hinit : CrcRegs.sum { byte := 0, resCrcL := 0xff#8, resCrcH := 0xff#8 } = 0xffff#16 := by
    decide
  rw [crcByteLoop_sum, hinit]

/-- The routine returns the complement of a sixteen bit register run over the data; its
count of the bytes is one byte, so that it is called with at most 255. -/
theorem usbCrc16_register (data : List UInt8) :
    (usbCrc16 data).2.toBitVec ++ (usbCrc16 data).1.toBitVec =
      ~~~(run (feed crcPoly) 0xffff#16 (wireBits data)) := by
  rw [← result_sum]
  exact BitVec.not_append.symm

/-- The sixteen bits that follow the data on the wire. -/
theorem crc_wireBits (data : List UInt8) :
    wireBits [(usbCrc16 data).1, (usbCrc16 data).2] =
      bits (~~~(run (feed crcPoly) 0xffff#16 (wireBits data))) 16 := by
  rw [← result_sum]
  apply List.ext_getElem (by simp)
  intro i hi _
  have hlt : i < 16 := by simpa using hi
  simp only [wireBits_cons, wireBits_nil, List.append_nil, List.getElem_append, bits,
    List.getElem_map, List.getElem_range, usbCrc16, CrcRegs.sum, BitVec.getLsbD_not,
    BitVec.getLsbD_append]
  by_cases hlow : i < 8
  · simp [hlow, hlt]
  · simp [hlow, hlt, show i - 8 < 8 by omega]

/-- The sum a driver or host finds behind the data is the one it computes itself. -/
def CrcValid (packet : List UInt8) : Prop := ∃ data, packet = usbCrc16Append data

/-- What every valid packet leaves in the register. -/
def crcResidue : BitVec 16 := 0xb001#16

theorem residue_of_bits (reg : BitVec 16) :
    run (feed crcPoly) reg (bits (~~~reg) 16) = crcResidue := by
  have hxor := run_xor crcPoly reg 0#16 (bits reg 16) (bits (BitVec.allOnes 16) 16) (by simp)
  have hnot : List.zipWith xor (bits reg 16) (bits (BitVec.allOnes 16) 16) = bits (~~~reg) 16 := by
    rw [← bits_xor, BitVec.xor_allOnes]
  rw [hnot, BitVec.xor_zero, run_own_bits] at hxor
  rw [hxor]
  decide +kernel

theorem append_residue (data : List UInt8) :
    run (feed crcPoly) 0xffff#16 (wireBits (usbCrc16Append data)) = crcResidue := by
  rw [usbCrc16Append, wireBits_append, run_append, crc_wireBits, residue_of_bits]

theorem wireBits_injective {xs ys : List UInt8} (h : wireBits xs = wireBits ys) : xs = ys := by
  induction xs generalizing ys with
  | nil =>
    cases ys with
    | nil => rfl
    | cons y ys =>
      have hlen := congrArg List.length h
      simp only [wireBits_length, List.length_cons, List.length_nil] at hlen
      omega
  | cons x xs ih =>
    cases ys with
    | nil =>
      have hlen := congrArg List.length h
      simp only [wireBits_length, List.length_cons, List.length_nil] at hlen
      omega
    | cons y ys =>
      obtain ⟨hhead, htail⟩ := List.append_inj h (by simp)
      rw [ih htail, UInt8.toBitVec_inj.mp (bits_injective hhead)]

theorem exists_data_crc (packet : List UInt8) (hlen : 2 ≤ packet.length) :
    ∃ data low high, packet = data ++ [low, high] := by
  have hdrop : (packet.drop (packet.length - 2)).length = 2 := by simp; omega
  obtain ⟨low, high, hcrc⟩ := List.length_eq_two.mp hdrop
  exact ⟨packet.take (packet.length - 2), low, high, by rw [← hcrc, List.take_append_drop]⟩

/-- A packet of valid length passes exactly when it leaves the residue. -/
theorem crcValid_iff_residue (packet : List UInt8) (hlen : 2 ≤ packet.length) :
    CrcValid packet ↔ run (feed crcPoly) 0xffff#16 (wireBits packet) = crcResidue := by
  constructor
  · rintro ⟨data, rfl⟩
    exact append_residue data
  · intro hres
    obtain ⟨data, low, high, rfl⟩ := exists_data_crc packet hlen
    refine ⟨data, ?_⟩
    rw [← append_residue data, usbCrc16Append, wireBits_append, wireBits_append, run_append,
      run_append, run_eq_iff _ _ _ _ (by simp)] at hres
    have hsame : wireBits [low, high] = wireBits [(usbCrc16 data).1, (usbCrc16 data).2] := by
      by_contra hne
      exact burst_ne_zero crcPoly (by decide) _ (by simp) (true_mem_differences hne (by simp)) hres
    rw [usbCrc16Append, wireBits_injective hsame]

/-- Where a corrupted packet differs from the one sent, bit by bit. -/
def errors (sent received : List UInt8) : List Bool :=
  List.zipWith xor (wireBits sent) (wireBits received)

/-- Errors within sixteen consecutive bits, in an odd number of places, or in a
pair of places of a packet the driver's buffers hold. -/
inductive Noticed (errs : List Bool) : Prop where
  | burst (a b : Nat) (word : List Bool)
      (h : errs = List.replicate a false ++ word ++ List.replicate b false)
      (hlen : word.length ≤ 16) (hword : true ∈ word)
  | odd (h : errs.count true % 2 = 1)
  | pair (h : errs.count true = 2) (hlen : errs.length ≤ 80)

/-- The unit is not met within the longest packet. -/
theorem crcPoly_order : ∀ d < 80, run (feed crcPoly) crcPoly (List.replicate d false) ≠ 1#16 := by
  decide +kernel

theorem noticed_ne_zero (errs : List Bool) (h : Noticed errs) :
    run (feed crcPoly) 0#16 errs ≠ 0#16 := by
  cases h with
  | burst a b word h hlen hword =>
    rw [h]
    exact run_padded_ne_zero crcPoly (by decide) a b word
      (burst_ne_zero crcPoly (by decide) word hlen hword)
  | odd h => exact odd_ne_zero crcPoly (by decide) errs h
  | pair h hlen =>
    obtain ⟨a, d, b, hsplit⟩ := exists_pair errs h
    have hd : d < 80 := by
      have := congrArg List.length hsplit
      simp at this
      omega
    rw [hsplit]
    exact run_padded_ne_zero crcPoly (by decide) a b _
      (pair_ne_zero crcPoly (by decide) d (crcPoly_order d hd))

/-- A packet the driver built does not pass once noticeable errors hit it. -/
theorem usbCrc16_notices (data received : List UInt8) (hlen : received.length = data.length + 2)
    (h : Noticed (errors (usbCrc16Append data) received)) : ¬ CrcValid received := by
  rw [crcValid_iff_residue received (by omega), ← append_residue data, eq_comm,
    run_eq_iff _ _ _ _ (by simp [hlen])]
  exact noticed_ne_zero _ h

/-- A flipped bit in the data byte of a one-byte packet. -/
theorem usbCrc16_notices_flip :
    ¬ CrcValid [0x00, (usbCrc16 [0x01]).1, (usbCrc16 [0x01]).2] :=
  usbCrc16_notices [0x01] _ rfl (.odd (by decide))

end Usbdrv
