import DeviceDrivers.UsbdrvTransmit

/-!
# The USB driver's receiver

The interrupt routine samples the port once in each bit time. It waits for the end
of the sync byte, reads four bits without looking for stuffed ones, and then runs
the eight labels `rxbit0` to `rxbit7` round and round until both pins are low or
the buffer is full. `shift` holds the complement of the data: a set bit is a
change of level.
-/
namespace Usbdrv

open EventRun ShiftRegister LineCode

def usbBufsize : BitVec 8 := 11

structure RxRegs where
  /-- `x1` and `x2` take turns at holding the last sample. -/
  last : BitVec 8
  shift : BitVec 8
  x3 : BitVec 8
  cnt : BitVec 8
  /-- What `st y+` wrote since `y` pointed to the start of the buffer. -/
  stored : List UInt8

inductive RxLabel where
  | waitNoChange
  | start (k : Fin 4)
  | rxbit (k : Fin 8)
  | stuffed (k : Fin 8)
deriving DecidableEq

inductive RxState where
  | running (label : RxLabel) (r : RxRegs)
  | se0 (stored : List UInt8)
  | overflow (stored : List UInt8)
  | sofError

/-- `bst` of a bit and `bld` into bit `k`. -/
def bld (reg : BitVec 8) (k : Nat) (t : Bool) : BitVec 8 :=
  if t then reg ||| 1#8 <<< k else reg &&& ~~~(1#8 <<< k)

def sampleBit (k : Nat) (x : BitVec 8) (r : RxRegs) : RxRegs :=
  { r with last := x, shift := bld r.shift k ((r.last ^^^ x).getLsbD usbMinus) }

def unlessSE0 (x : BitVec 8) (r : RxRegs) (next : BitVec 8 → RxState) : RxState :=
  if x &&& usbMask = 0 then .se0 r.stored else next (x &&& usbMask)

/-- `andi` with the bits that matter, `breq` to the stuffed bit. -/
def testStuffed (k : Fin 8) (mask : BitVec 8) (r : RxRegs) : RxState :=
  if r.shift &&& mask = 0 then .running (.stuffed k) { r with shift := r.shift &&& mask }
  else .running (.rxbit (k + 1)) { r with shift := r.shift &&& mask }

/-- Two equal samples end the sync byte: low is its end, high an error. -/
def waitNoChange (x : BitVec 8) (r : RxRegs) : RxState :=
  let cnt := (if (r.last ^^^ x).getLsbD usbMinus then 2 else r.cnt) - 1
  if cnt ≠ 0 then .running .waitNoChange { r with last := x, cnt := cnt }
  else if x.getLsbD usbMinus then .sofError
  else .running (.start 0) { r with last := x, cnt := cnt }

def start0 (x : BitVec 8) (r : RxRegs) : RxState :=
  .running (.start 1) (sampleBit 0 x { r with shift := 0 })
def start1 (x : BitVec 8) (r : RxRegs) : RxState :=
  .running (.start 2) { sampleBit 1 x r with stored := [] }
def start2 (x : BitVec 8) (r : RxRegs) : RxState :=
  .running (.start 3) { sampleBit 2 x r with cnt := usbBufsize }
def start3 (x : BitVec 8) (r : RxRegs) : RxState :=
  .running (.rxbit 4) { sampleBit 3 x r with x3 := 0xff }

def unstuffed7 (x : BitVec 8) (r : RxRegs) : RxState := testStuffed 0 0xf9 (sampleBit 0 x r)

def rxbit0 (x : BitVec 8) (r : RxRegs) : RxState :=
  -- the bit stuffed behind bit 7 is noticed one sample late
  if r.shift < 0x04 then
    unlessSE0 x r fun x => .running (.stuffed 7) { r with last := x, shift := r.shift ||| 0x80 }
  else unstuffed7 x r

def rxbit1 (x : BitVec 8) (r : RxRegs) : RxState :=
  unlessSE0 x r fun x => testStuffed 1 0xf3 (sampleBit 1 x r)
def rxbit2 (x : BitVec 8) (r : RxRegs) : RxState :=
  unlessSE0 x r fun x => testStuffed 2 0xe7 (sampleBit 2 x r)

def rxbit3 (x : BitVec 8) (r : RxRegs) : RxState :=
  let r := { sampleBit 3 x r with cnt := r.cnt - 1 }
  if r.cnt = 0 then .overflow r.stored else testStuffed 3 0xcf r

def rxbit4 (x : BitVec 8) (r : RxRegs) : RxState :=
  unlessSE0 x r fun x => testStuffed 4 0x9f (sampleBit 4 x r)
def rxbit5 (x : BitVec 8) (r : RxRegs) : RxState := testStuffed 5 0x3f (sampleBit 5 x r)

def rxbit6 (x : BitVec 8) (r : RxRegs) : RxState :=
  unlessSE0 x r fun x =>
    let r := sampleBit 6 x r
    if r.shift < 0x02 then .running (.stuffed 6) r else .running (.rxbit 7) r

def rxbit7 (x : BitVec 8) (r : RxRegs) : RxState :=
  let r := sampleBit 7 x r
  .running (.rxbit 0) { r with stored := r.stored ++ [UInt8.ofBitVec (r.x3 ^^^ r.shift)], x3 := 0xff }

/-- The helpers `stuffed0` to `stuffed6`: mark bit `k` in `x3` and break the row of zeros. -/
def stuffedBit (k : Fin 8) (x : BitVec 8) (r : RxRegs) : RxState :=
  unlessSE0 x r fun x => .running (.rxbit (k + 1))
    { r with last := x, x3 := r.x3 &&& ~~~(1#8 <<< k.val), shift := r.shift ||| 1#8 <<< k.val }

def rxStep : RxState → BitVec 8 → RxState
  | .running .waitNoChange r, x => waitNoChange x r
  | .running (.start 0) r, x => start0 x r
  | .running (.start 1) r, x => start1 x r
  | .running (.start 2) r, x => start2 x r
  | .running (.start 3) r, x => start3 x r
  | .running (.rxbit 0) r, x => rxbit0 x r
  | .running (.rxbit 1) r, x => rxbit1 x r
  | .running (.rxbit 2) r, x => rxbit2 x r
  | .running (.rxbit 3) r, x => rxbit3 x r
  | .running (.rxbit 4) r, x => rxbit4 x r
  | .running (.rxbit 5) r, x => rxbit5 x r
  | .running (.rxbit 6) r, x => rxbit6 x r
  | .running (.rxbit 7) r, x => rxbit7 x r
  | .running (.stuffed 7) r, x => unstuffed7 x r
  | .running (.stuffed k) r, x => stuffedBit k x r
  | .se0 stored, _ => .se0 stored
  | .overflow stored, _ => .overflow stored
  | .sofError, _ => .sofError

/-- The registers at `shortcutEntry`, where an edge to K has just been found. -/
def shortcutEntry (r : RxRegs) : RxState :=
  .running .waitNoChange { r with last := 1#8 <<< usbPlus, cnt := 1, stored := [] }

def RxState.stored : RxState → List UInt8
  | .running _ r => r.stored
  | .se0 stored => stored
  | .overflow stored => stored
  | .sofError => []

/-- Samples at which the next overflow check is still to come for the byte in hand. -/
def beforeCheck : RxLabel → Bool
  | .rxbit k => k ≤ 3
  | .stuffed k => k < 3 || k = 7
  | _ => false

def Room : RxState → Prop
  | .running .waitNoChange r => r.stored = []
  | .running (.start 3) r => r.stored = [] ∧ r.cnt = usbBufsize
  | .running (.start _) r => r.stored = []
  | .running label r =>
    r.cnt ≠ 0 ∧ r.cnt.toNat + r.stored.length = if beforeCheck label then 12 else 11
  | .se0 stored => stored.length ≤ 11
  | .overflow stored => stored.length ≤ 11
  | .sofError => True

theorem unlessSE0_room (x : BitVec 8) (r : RxRegs) (next : BitVec 8 → RxState)
    (hstored : r.stored.length ≤ 11) (hnext : ∀ x, Room (next x)) : Room (unlessSE0 x r next) := by
  unfold unlessSE0
  split
  · exact hstored
  · exact hnext _

theorem testStuffed_room (k : Fin 8) (mask : BitVec 8) (r : RxRegs) (hcnt : r.cnt ≠ 0)
    (hk : k < 6) (h : r.cnt.toNat + r.stored.length = if k < 3 then 12 else 11) :
    Room (testStuffed k mask r) := by
  have hlabels : ∀ k : Fin 8, k < 6 → beforeCheck (.stuffed k) = (k < 3 : Bool) ∧
      beforeCheck (.rxbit (k + 1)) = (k < 3 : Bool) := by decide
  obtain ⟨hstuffed, hnext⟩ := hlabels k hk
  unfold testStuffed
  split
  · exact ⟨hcnt, by simpa [hstuffed] using h⟩
  · exact ⟨hcnt, by simpa [hnext] using h⟩

theorem toNat_dec (cnt : BitVec 8) (h : cnt ≠ 0) : (cnt - 1).toNat = cnt.toNat - 1 := by
  have hpos : cnt.toNat ≠ 0 := fun hzero => h (BitVec.eq_of_toNat_eq hzero)
  have hlt := cnt.isLt
  have hone : (1 : BitVec 8).toNat = 1 := rfl
  rw [BitVec.toNat_sub, hone]
  omega

theorem stored_le {cnt : BitVec 8} {stored : List UInt8} {total : Nat} (hcnt : cnt ≠ 0)
    (h : cnt.toNat + stored.length = total) (htotal : total ≤ 12) : stored.length ≤ 11 := by
  have hpos : cnt.toNat ≠ 0 := fun hzero => hcnt (BitVec.eq_of_toNat_eq hzero)
  omega

theorem unstuffed7_room (x : BitVec 8) (r : RxRegs) (hcnt : r.cnt ≠ 0)
    (h : r.cnt.toNat + r.stored.length = 12) : Room (unstuffed7 x r) :=
  testStuffed_room 0 0xf9 (sampleBit 0 x r) hcnt (by decide) h

theorem stuffedBit_room (k : Fin 8) (hk : k < 7) (x : BitVec 8) (r : RxRegs)
    (h : Room (.running (.stuffed k) r)) : Room (stuffedBit k x r) := by
  have hlabels : ∀ k : Fin 8, k < 7 →
      beforeCheck (.stuffed k) = beforeCheck (.rxbit (k + 1)) := by decide
  obtain ⟨hcnt, hsum⟩ := h
  refine unlessSE0_room x r _ (stored_le hcnt hsum (by split <;> omega)) fun x => ?_
  exact ⟨hcnt, by rw [← hlabels k hk]; exact hsum⟩

theorem checkedBit_room (k : Fin 8) (mask x : BitVec 8) (r : RxRegs) (hcnt : r.cnt ≠ 0)
    (hk : k < 6) (h : r.cnt.toNat + r.stored.length = if k < 3 then 12 else 11) :
    Room (unlessSE0 x r fun x => testStuffed k mask (sampleBit k x r)) :=
  unlessSE0_room x r _ (stored_le hcnt h (by split <;> omega)) fun x =>
    testStuffed_room k mask (sampleBit k x r) hcnt hk h

theorem rxbit_room (k : Fin 8) (x : BitVec 8) (r : RxRegs)
    (h : Room (.running (.rxbit k) r)) : Room (rxStep (.running (.rxbit k) r) x) := by
  obtain ⟨hcnt, hsum⟩ := h
  match k with
  | 0 =>
    simp only [rxStep, rxbit0]
    split
    · exact unlessSE0_room x r _ (stored_le hcnt hsum (by decide)) fun x => ⟨hcnt, hsum⟩
    · exact unstuffed7_room x r hcnt hsum
  | 1 => exact checkedBit_room 1 0xf3 x r hcnt (by decide) hsum
  | 2 => exact checkedBit_room 2 0xe7 x r hcnt (by decide) hsum
  | 3 =>
    have hpos : r.cnt.toNat ≠ 0 := fun hzero => hcnt (BitVec.eq_of_toNat_eq hzero)
    have hdec := toNat_dec r.cnt hcnt
    have hsum : r.cnt.toNat + r.stored.length = 12 := hsum
    simp only [rxStep, rxbit3]
    split
    · exact stored_le hcnt hsum (by decide)
    · next hmore =>
      refine testStuffed_room 3 0xcf _ hmore (by decide) ?_
      change (r.cnt - 1).toNat + r.stored.length = 11
      omega
  | 4 => exact checkedBit_room 4 0x9f x r hcnt (by decide) hsum
  | 5 => exact testStuffed_room 5 0x3f (sampleBit 5 x r) hcnt (by decide) hsum
  | 6 =>
    change Room (rxbit6 x r)
    refine unlessSE0_room x r _ (stored_le hcnt hsum (by decide)) fun x => ?_
    dsimp only
    split
    · exact ⟨hcnt, hsum⟩
    · exact ⟨hcnt, hsum⟩
  | 7 =>
    have hsum : r.cnt.toNat + r.stored.length = 11 := hsum
    refine ⟨hcnt, ?_⟩
    change r.cnt.toNat + (r.stored ++ [_]).length = 12
    rw [List.length_append, List.length_singleton]
    omega

theorem rxStep_room (st : RxState) (x : BitVec 8) (h : Room st) : Room (rxStep st x) := by
  match st, h with
  | .running .waitNoChange r, h =>
    simp only [rxStep, waitNoChange]
    generalize (if (r.last ^^^ x).getLsbD usbMinus then 2 else r.cnt) - 1 = cnt
    by_cases hcnt : cnt ≠ 0
    · rw [if_pos hcnt]
      exact h
    · rw [if_neg hcnt]
      split
      · trivial
      · exact h
  | .running (.start 0) r, h => exact h
  | .running (.start 1) r, h => exact rfl
  | .running (.start 2) r, h => exact ⟨h, rfl⟩
  | .running (.start 3) r, h =>
    obtain ⟨hstored, hcnt⟩ := h
    refine ⟨?_, ?_⟩
    · simp [sampleBit, hcnt, usbBufsize]
    · simp [sampleBit, hcnt, hstored, usbBufsize, beforeCheck]
  | .running (.rxbit k) r, h => exact rxbit_room k x r h
  | .running (.stuffed 0) r, h => exact stuffedBit_room 0 (by decide) x r h
  | .running (.stuffed 1) r, h => exact stuffedBit_room 1 (by decide) x r h
  | .running (.stuffed 2) r, h => exact stuffedBit_room 2 (by decide) x r h
  | .running (.stuffed 3) r, h => exact stuffedBit_room 3 (by decide) x r h
  | .running (.stuffed 4) r, h => exact stuffedBit_room 4 (by decide) x r h
  | .running (.stuffed 5) r, h => exact stuffedBit_room 5 (by decide) x r h
  | .running (.stuffed 6) r, h => exact stuffedBit_room 6 (by decide) x r h
  | .running (.stuffed 7) r, h => exact unstuffed7_room x r h.1 h.2
  | .se0 stored, h => exact h
  | .overflow stored, h => exact h
  | .sofError, h => trivial

theorem stored_of_room (st : RxState) (h : Room st) : st.stored.length ≤ 11 := by
  match st, h with
  | .running .waitNoChange r, h => simp [RxState.stored, show r.stored = [] from h]
  | .running (.start 0) r, h => simp [RxState.stored, show r.stored = [] from h]
  | .running (.start 1) r, h => simp [RxState.stored, show r.stored = [] from h]
  | .running (.start 2) r, h => simp [RxState.stored, show r.stored = [] from h]
  | .running (.start 3) r, h => simp [RxState.stored, h.1]
  | .running (.rxbit k) r, h => exact stored_le h.1 h.2 (by split <;> omega)
  | .running (.stuffed k) r, h => exact stored_le h.1 h.2 (by split <;> omega)
  | .se0 stored, h => exact h
  | .overflow stored, h => exact h
  | .sofError, h => simp [RxState.stored]

/-- Whatever the line does, the routine writes within its eleven bytes. -/
theorem receive_within_buffer (r : RxRegs) (samples : List (BitVec 8)) :
    (run rxStep (shortcutEntry r) samples).stored.length ≤ 11 := by
  apply stored_of_room
  induction samples using List.reverseRecOn with
  | nil => exact rfl
  | append_singleton samples x ih =>
    rw [run_concat]
    exact rxStep_room _ x ih

end Usbdrv
