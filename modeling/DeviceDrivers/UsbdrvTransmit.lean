import DeviceDrivers.LineCode
import DeviceDrivers.UsbdrvCrc

/-!
# The USB driver's transmitter

`txLoop` shifts one byte after the other out to the port. A clear bit exchanges
the two data pins, a history of the bits sent tells when six set ones in a row
call for a stuffed exchange, and the carry of that comparison is what the next
rotation takes in.
-/
namespace Usbdrv

open ShiftRegister LineCode

def usbMinus : Nat := 4
def usbPlus : Nat := 2
def usbIdle : BitVec 8 := 1#8 <<< usbMinus
def usbMask : BitVec 8 := (1#8 <<< usbPlus) ||| (1#8 <<< usbMinus)

inductive Pins where
  | j | k | se0 | se1
deriving DecidableEq, Repr

/-- What the two data pins of the port show, D- first. -/
def pins (port : BitVec 8) : Pins :=
  match port.getLsbD usbMinus, port.getLsbD usbPlus with
  | true, false => .j
  | false, true => .k
  | false, false => .se0
  | true, true => .se1

def Pins.ofLevel (level : Bool) : Pins := if level then .j else .k

structure TxRegs where
  x1 : BitVec 8
  x2 : BitVec 8
  shift : BitVec 8
  carry : Bool

/-- One bit and, where the history is full, the stuffed one; the eight copies in
the loop differ only in the order their cycles ask for. -/
def txBit (r : TxRegs) : TxRegs × List (BitVec 8) :=
  let x1 := if r.shift.getLsbD 0 then r.x1 else r.x1 ^^^ usbMask
  let x2 := ror (r.shift.getLsbD 0) r.x2
  let shift := ror r.carry r.shift
  -- below 0xfc the comparison leaves the carry set, a stuffed bit sets it again
  if 0xfc#8 ≤ x2 then
    ({ x1 := x1 ^^^ usbMask, x2 := 0, shift := shift, carry := true }, [x1, x1 ^^^ usbMask])
  else
    ({ x1 := x1, x2 := x2, shift := shift, carry := true }, [x1])

def txBits : Nat → TxRegs → TxRegs × List (BitVec 8)
  | 0, r => (r, [])
  | n + 1, r => ((txBits n (txBit r).1).1, (txBit r).2 ++ (txBits n (txBit r).1).2)

def TxRegs.load (r : TxRegs) (x3 : UInt8) : TxRegs := { r with shift := x3.toBitVec }

/-- The byte in `shift`, then those at `y`. -/
def txLoop (r : TxRegs) : List UInt8 → TxRegs × List (BitVec 8)
  | [] => txBits 8 r
  | x3 :: y =>
    let sent := txBits 8 r
    let rest := txLoop (sent.1.load x3) y
    (rest.1, sent.2 ++ rest.2)

/-- The port values of each bit time, from the first sync bit to the idle line. -/
def usbSendAndReti (port x2 : BitVec 8) (carry : Bool) (y : List UInt8) : List (BitVec 8) :=
  let sent := txLoop { x1 := port ||| usbIdle, x2 := x2, shift := 0x80#8, carry := carry } y
  let se0 := sent.1.x1 &&& ~~~usbMask
  sent.2 ++ [se0, se0, se0 ||| usbIdle]

/-- The value the port keeps once the bus is released. -/
def portAfter (port x2 : BitVec 8) (carry : Bool) (y : List UInt8) : BitVec 8 :=
  (txLoop { x1 := port ||| usbIdle, x2 := x2, shift := 0x80#8, carry := carry } y).1.x1 &&& ~~~usbMask

/-- The levels of a packet from the sync byte on, the line resting at J before it. -/
def packetLevels (y : List UInt8) : List Bool := encode 6 0 true (wireBits (0x80 :: y))

theorem pins_toggle (port : BitVec 8) (level : Bool) (h : pins port = .ofLevel level) :
    pins (port ^^^ usbMask) = .ofLevel (!level) := by
  have hall : ∀ (port : BitVec 8) (level : Bool), pins port = .ofLevel level →
      pins (port ^^^ usbMask) = .ofLevel (!level) := by decide +kernel
  exact hall port level h

theorem pins_eop (port : BitVec 8) :
    pins (port &&& ~~~usbMask) = .se0 ∧ pins (port &&& ~~~usbMask ||| usbIdle) = .j := by
  have hall : ∀ port : BitVec 8,
      pins (port &&& ~~~usbMask) = .se0 ∧ pins (port &&& ~~~usbMask ||| usbIdle) = .j := by
    decide +kernel
  exact hall port

/-- The history asks for a stuffed bit when its six newest bits are set. -/
theorem history_full (x2 : BitVec 8) : 0xfc#8 ≤ x2 ↔ ∀ j < 6, x2.getLsbD (7 - j) = true := by
  have hall : ∀ x2 : BitVec 8, 0xfc#8 ≤ x2 ↔ ∀ j < 6, x2.getLsbD (7 - j) = true := by
    decide +kernel
  exact hall x2

/-- The port shows the level and the history the number of set bits sent last. -/
structure Sending (level : Bool) (ones : Nat) (r : TxRegs) : Prop where
  port : pins r.x1 = .ofLevel level
  few : ones < 6
  recent : ∀ j < ones, r.x2.getLsbD (7 - j) = true
  before : ones = 5 ∨ r.x2.getLsbD (7 - ones) = false

theorem Sending.load {level : Bool} {ones : Nat} {r : TxRegs} (h : Sending level ones r)
    (x3 : UInt8) : Sending level ones (r.load x3) :=
  { port := h.port, few := h.few, recent := h.recent, before := h.before }

/-- A clear bit needs nothing of the history. -/
theorem txBit_clear (r : TxRegs) (level : Bool) (hport : pins r.x1 = .ofLevel level)
    (hbit : r.shift.getLsbD 0 = false) :
    Sending (!level) 0 (txBit r).1 ∧ (txBit r).2.map pins = [.ofLevel (!level)] := by
  have htop : (ror false r.x2).getLsbD 7 = false := getLsbD_ror false r.x2 7 (by omega)
  have hroom : ¬0xfc#8 ≤ ror false r.x2 := by
    rw [history_full]
    intro h
    rw [h 0 (by omega)] at htop
    contradiction
  have htoggle := pins_toggle r.x1 level hport
  simp only [txBit, hbit, Bool.false_eq_true, if_false, if_neg hroom, List.map_cons, List.map_nil,
    htoggle, and_true]
  exact { port := htoggle, few := by omega, recent := by simp, before := .inr htop }

theorem ror_set_recent (x2 : BitVec 8) (ones : Nat) (hfew : ones < 6)
    (h : ∀ j < ones, x2.getLsbD (7 - j) = true) (j : Nat) (hj : j < ones + 1) :
    (ror true x2).getLsbD (7 - j) = true := by
  rw [getLsbD_ror true x2 (7 - j) (by omega)]
  cases j with
  | zero => rfl
  | succ j =>
    rw [if_neg (by omega), show 7 - (j + 1) + 1 = 7 - j by omega]
    exact h j (by omega)

/-- One bit of the loop is one bit of the line code. -/
theorem txBit_sends (r : TxRegs) (level : Bool) (ones : Nat) (h : Sending level ones r) :
    Sending (lastLevel level (stuffBit 6 ones (r.shift.getLsbD 0)))
        (nextOnes 6 ones (r.shift.getLsbD 0)) (txBit r).1 ∧
      (txBit r).2.map pins = (nrzi level (stuffBit 6 ones (r.shift.getLsbD 0))).map .ofLevel := by
  have hfew := h.few
  cases hbit : r.shift.getLsbD 0 with
  | false =>
    have hclear := txBit_clear r level h.port hbit
    have hlevel : (level == false) = !level := by cases level <;> rfl
    simpa [stuffBit, nextOnes, lastLevel, hlevel] using hclear
  | true =>
    have hrecent := ror_set_recent r.x2 ones hfew h.recent
    have hlevel : (level == true) = level := by cases level <;> rfl
    by_cases hfull : ones = 5
    · subst hfull
      have hstuff : 0xfc#8 ≤ ror true r.x2 := (history_full _).mpr hrecent
      have htoggle := pins_toggle r.x1 level h.port
      have hnot : (level == false) = !level := by cases level <;> rfl
      simp only [txBit, hbit, if_true, if_pos hstuff, List.map_cons, List.map_nil, htoggle, h.port]
      refine ⟨?_, by simp [stuffBit, hlevel, hnot]⟩
      have hlast : lastLevel level (stuffBit 6 5 true) = !level := by cases level <;> rfl
      rw [hlast]
      exact { port := htoggle, few := by decide, recent := by simp [nextOnes]
              before := .inr (by simp [nextOnes]) }
    · have hbefore : r.x2.getLsbD (7 - ones) = false := h.before.resolve_left hfull
      have hgap : (ror true r.x2).getLsbD (7 - (ones + 1)) = false := by
        rw [getLsbD_ror true r.x2 _ (by omega), if_neg (by omega),
          show 7 - (ones + 1) + 1 = 7 - ones by omega]
        exact hbefore
      have hroom : ¬0xfc#8 ≤ ror true r.x2 := by
        rw [history_full]
        intro hall
        rw [hall (ones + 1) (by omega)] at hgap
        contradiction
      have hone : stuffBit 6 ones true = [true] := by simp [stuffBit, hfull]
      have hnext : nextOnes 6 ones true = ones + 1 := by simp [nextOnes, hfull]
      simp only [txBit, hbit, if_true, if_neg hroom, hone, hnext, List.map_cons, List.map_nil,
        nrzi_cons, nrzi_nil, hlevel, h.port, and_true]
      have hlast : lastLevel level [true] = level := by cases level <;> rfl
      rw [hlast]
      exact { port := h.port, few := by omega, recent := hrecent, before := .inr hgap }

theorem txBit_shift (r : TxRegs) : (txBit r).1.shift = ror r.carry r.shift := by
  simp only [txBit]
  split <;> rfl

/-- What is left to send once the levels `out` are on the line. -/
def Continues (level : Bool) (ones : Nat) (word out : List Bool) (level' : Bool) (ones' : Nat) :
    Prop :=
  ∀ rest, encode 6 ones level (word ++ rest) = out ++ encode 6 ones' level' rest

theorem txBits_sends (r : TxRegs) (level : Bool) (ones : Nat) (h : Sending level ones r)
    (word : List Bool) (hlen : word.length ≤ 8)
    (hword : ∀ i (hi : i < word.length), r.shift.getLsbD i = word[i]) :
    ∃ level' ones' out, Sending level' ones' (txBits word.length r).1 ∧
      (txBits word.length r).2.map pins = out.map .ofLevel ∧
      Continues level ones word out level' ones' := by
  induction word generalizing r level ones with
  | nil => exact ⟨level, ones, [], h, rfl, fun rest => rfl⟩
  | cons b word ih =>
    simp only [List.length_cons] at hlen
    obtain ⟨hnext, hout⟩ := txBit_sends r level ones h
    have hb : r.shift.getLsbD 0 = b := hword 0 (by simp)
    rw [hb] at hnext hout
    obtain ⟨level', ones', out, hsend, hrest, hcont⟩ := ih (txBit r).1 _ _ hnext (by omega) (by
      intro i hi
      rw [txBit_shift, getLsbD_ror _ _ i (by omega), if_neg (by omega)]
      exact hword (i + 1) (by simpa using hi))
    refine ⟨level', ones', nrzi level (stuffBit 6 ones b) ++ out, hsend, ?_, ?_⟩
    · simp only [List.length_cons, txBits, List.map_append, hout, hrest]
    · intro rest
      rw [List.cons_append, encode_cons, hcont rest, List.append_assoc]

theorem txByte_sends (r : TxRegs) (level : Bool) (ones : Nat) (h : Sending level ones r)
    (b : UInt8) (hb : r.shift = b.toBitVec) :
    ∃ level' ones' out, Sending level' ones' (txBits 8 r).1 ∧
      (txBits 8 r).2.map pins = out.map .ofLevel ∧
      Continues level ones (bits b.toBitVec 8) out level' ones' := by
  have hsend := txBits_sends r level ones h (bits b.toBitVec 8) (by simp) (by
    intro i hi
    simp [bits, hb])
  simpa using hsend

/-- The sync byte starts with a clear bit, so the history before it does not matter. -/
theorem txSync_sends (r : TxRegs) (hport : pins r.x1 = .ofLevel true) (hr : r.shift = 0x80#8) :
    ∃ level' ones' out, Sending level' ones' (txBits 8 r).1 ∧
      (txBits 8 r).2.map pins = out.map .ofLevel ∧
      Continues true 0 (bits 0x80#8 8) out level' ones' := by
  obtain ⟨hnext, hout⟩ := txBit_clear r true hport (by rw [hr]; decide)
  obtain ⟨level', ones', out, hsend, hrest, hcont⟩ := txBits_sends (txBit r).1 _ _ hnext
    (bits 0x80#8 8).tail (by simp) (by
      intro i hi
      have hlt : i < 7 := by simpa using hi
      rw [txBit_shift, hr, getLsbD_ror _ _ i (by omega), if_neg (by omega)]
      simp [bits])
  refine ⟨level', ones', false :: out, hsend, ?_, ?_⟩
  · have hsplit : (txBits 8 r).2 = (txBit r).2 ++ (txBits 7 (txBit r).1).2 := rfl
    have hseven : (txBits 7 (txBit r).1).2.map pins = out.map .ofLevel := by simpa using hrest
    rw [hsplit, List.map_append, hout, hseven]
    rfl
  · intro rest
    have hbits : bits 0x80#8 8 = false :: (bits 0x80#8 8).tail := by decide
    rw [hbits, List.cons_append, encode_cons]
    exact congrArg (false :: ·) (hcont rest)

/-- The bytes behind a byte whose levels are out and of which `Continues` holds. -/
theorem txLoop_continues (r : TxRegs) (level : Bool) (ones : Nat) (b : UInt8) (y : List UInt8)
    (h : ∃ level' ones' out, Sending level' ones' (txBits 8 r).1 ∧
      (txBits 8 r).2.map pins = out.map .ofLevel ∧
      Continues level ones (bits b.toBitVec 8) out level' ones') :
    ((txLoop r y).2.map pins = (encode 6 ones level (wireBits (b :: y))).map .ofLevel) ∧
      ∃ last, pins (txLoop r y).1.x1 = .ofLevel last := by
  induction y generalizing r level ones b with
  | nil =>
    obtain ⟨level', ones', out, hsend, hout, hcont⟩ := h
    refine ⟨?_, level', hsend.port⟩
    rw [txLoop, hout, wireBits_cons, hcont (wireBits [])]
    simp [encode]
  | cons x3 y ih =>
    obtain ⟨level', ones', out, hsend, hout, hcont⟩ := h
    have hloop := ih ((txBits 8 r).1.load x3) level' ones' x3
      (txByte_sends _ level' ones' (hsend.load x3) x3 rfl)
    refine ⟨?_, hloop.2⟩
    simp only [txLoop, List.map_append, hout, hloop.1]
    rw [wireBits_cons b, hcont, List.map_append]

theorem txLoop_packet (r : TxRegs) (y : List UInt8) (hport : pins r.x1 = .ofLevel true)
    (hr : r.shift = 0x80#8) :
    (txLoop r y).2.map pins = (packetLevels y).map .ofLevel :=
  (txLoop_continues r true 0 0x80 y (txSync_sends r hport hr)).1

theorem acquire_pins (port : BitVec 8) (h : port.getLsbD usbPlus = false) :
    pins (port ||| usbIdle) = .ofLevel true := by
  have hall : ∀ port : BitVec 8, port.getLsbD usbPlus = false →
      pins (port ||| usbIdle) = .ofLevel true := by decide +kernel
  exact hall port h

theorem transmit_pins (port x2 : BitVec 8) (carry : Bool) (y : List UInt8)
    (h : port.getLsbD usbPlus = false) :
    (usbSendAndReti port x2 carry y).map pins =
      (packetLevels y).map .ofLevel ++ [.se0, .se0, .j] := by
  have hloop := txLoop_packet
    { x1 := port ||| usbIdle, x2 := x2, shift := 0x80#8, carry := carry } y (acquire_pins port h) rfl
  simp only [usbSendAndReti, List.map_append, hloop, List.map_cons, List.map_nil, pins_eop]

theorem portAfter_plus (port x2 : BitVec 8) (carry : Bool) (y : List UInt8) :
    (portAfter port x2 carry y).getLsbD usbPlus = false := by
  have hclear : (~~~usbMask).getLsbD usbPlus = false := by decide
  rw [portAfter, BitVec.getLsbD_and, hclear, Bool.and_false]

/-- Whatever the history and the carry hold, the packet goes out in the line code
and the bus comes to rest, the pull-ups off again. -/
theorem usbSendAndReti_sends (port x2 : BitVec 8) (carry : Bool) (y : List UInt8)
    (h : port.getLsbD usbPlus = false) :
    (usbSendAndReti port x2 carry y).map pins =
        (packetLevels y).map .ofLevel ++ [.se0, .se0, .j] ∧
      (portAfter port x2 carry y).getLsbD usbPlus = false :=
  ⟨transmit_pins port x2 carry y h, portAfter_plus port x2 carry y⟩

/-- An ACK, from registers full of set bits. -/
theorem usbSendAndReti_sends_ack :
    (usbSendAndReti 0x00#8 0xff#8 true [0xd2]).map pins =
        (packetLevels [0xd2]).map .ofLevel ++ [.se0, .se0, .j] ∧
      (portAfter 0x00#8 0xff#8 true [0xd2]).getLsbD usbPlus = false :=
  usbSendAndReti_sends 0x00#8 0xff#8 true [0xd2] (by decide)

theorem ofLevel_ne_se0 (level : Bool) : Pins.ofLevel level ≠ .se0 := by
  cases level <;> decide

theorem ofLevel_injective {a b : Bool} (h : Pins.ofLevel a = .ofLevel b) : a = b := by
  cases a <;> cases b <;> first | rfl | exact absurd h (by decide)

theorem packetLevels_moves (y : List UInt8) (pre w post : List Bool) (c : Bool)
    (hsplit : packetLevels y = pre ++ w ++ post) (hconst : ∀ x ∈ w, x = c) : w.length ≤ 7 :=
  encode_constant 6 0 true c _ pre w post (by omega) hsplit hconst

theorem packetPins_moves (y : List UInt8) (pre w post : List Pins) (c : Bool)
    (hsplit : (packetLevels y).map Pins.ofLevel = pre ++ w ++ post)
    (hconst : ∀ p ∈ w, p = .ofLevel c) : w.length ≤ 7 := by
  obtain ⟨front, levels, hlevels, hfront, rfl⟩ := List.map_eq_append_iff.mp hsplit
  obtain ⟨before, middle, rfl, rfl, rfl⟩ := List.map_eq_append_iff.mp hfront
  rw [List.length_map]
  refine packetLevels_moves y before middle levels c hlevels fun x hx => ?_
  exact ofLevel_injective (hconst (.ofLevel x) (List.mem_map_of_mem hx))

/-- Whatever is sent, the line never rests on one level for eight bit times. -/
theorem usbSendAndReti_moves (port x2 : BitVec 8) (carry : Bool) (y : List UInt8)
    (h : port.getLsbD usbPlus = false) (pre w post : List Pins) (c : Bool)
    (hsplit : (usbSendAndReti port x2 carry y).map pins = pre ++ w ++ post)
    (hconst : ∀ p ∈ w, p = .ofLevel c) : w.length ≤ 7 := by
  rw [transmit_pins port x2 carry y h] at hsplit
  rcases List.append_eq_append_iff.mp hsplit with ⟨t, hfront, heop⟩ | ⟨t, hpacket, -⟩
  · rcases List.append_eq_append_iff.mp hfront with ⟨s, hpacket, hw⟩ | ⟨s, -, ht⟩
    · cases t with
      | nil =>
        rw [List.append_nil] at hw
        subst hw
        exact packetPins_moves y pre w [] c (by rw [List.append_nil]; exact hpacket) hconst
      | cons p t =>
        obtain ⟨rfl, -⟩ := List.cons.inj heop
        have hmem : Pins.se0 ∈ w := by rw [hw]; simp
        exact absurd (hconst .se0 hmem).symm (ofLevel_ne_se0 c)
    · have hlen := congrArg List.length heop
      rw [ht] at hlen
      simp only [List.length_append, List.length_cons, List.length_nil] at hlen
      omega
  · exact packetPins_moves y pre w t c hpacket hconst

/-- Seven bit times do occur, here in a byte of ones. -/
theorem usbSendAndReti_moves_ones : [Pins.k, .k, .k, .k, .k, .k, .k].length ≤ 7 :=
  usbSendAndReti_moves 0x00#8 0x00#8 false [0xff] (by decide) [.k, .j, .k, .j, .k, .j]
    [.k, .k, .k, .k, .k, .k, .k] [.j, .j, .j, .j, .se0, .se0, .j] false (by decide +kernel) (by decide)

end Usbdrv
