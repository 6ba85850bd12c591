import DeviceDrivers.UsbdrvDevice

/-!
# Messages and blocks

A processed packet leaves a message of up to 254 bytes somewhere in memory, and
each call of `usbBuildTxBlock` takes eight bytes of it into the transmit buffer.
`served` says what a request asks of the device without any of these buffers.
-/
namespace Usbdrv

open EventRun ByteMemory

theorem store_cons (m : Nat → UInt8) (a : Nat) (b : UInt8) (bs : List UInt8) :
    store (store m a [b]) (a + 1) bs = store m a (b :: bs) := by
  funext x
  simp only [store_apply, List.length_cons, List.length_nil]
  by_cases hx : x = a
  · subst hx
    simp
  · by_cases hin : a + 1 ≤ x ∧ x < a + 1 + bs.length
    · obtain ⟨i, rfl⟩ := Nat.exists_eq_add_of_le hin.1
      have hi : i < bs.length := by omega
      rw [dif_pos hin, dif_pos (by omega)]
      simp only [List.get_eq_getElem]
      have hsub : a + 1 + i - a = (a + 1 + i - (a + 1)) + 1 := by omega
      simp only [hsub, List.getElem_cons_succ]
    · rw [dif_neg hin, dif_neg (by omega), dif_neg (by omega)]

theorem MsgPtr.add_add (p : MsgPtr) (m n : Nat) : (p.add m).add n = p.add (m + n) := by
  simp [MsgPtr.add, Nat.add_assoc]

/-- What a pointer shows is settled by the object it points into and the flag. -/
theorem peek_congr (d d' : Driver) (p : MsgPtr) (hfw : d'.fw = d.fw)
    (hconf : d'.usbConfiguration = d.usbConfiguration)
    (hflag : d'.usbMsgFlags &&& usbFlgMsgptrIsRom = d.usbMsgFlags &&& usbFlgMsgptrIsRom)
    (hbuf : p.obj = .usbTxBuf → d'.usbTxBuf p.off = d.usbTxBuf p.off) : d'.peek p = d.peek p := by
  have hobj : (d'.objectBytes p.obj)[p.off]? = (d.objectBytes p.obj)[p.off]? := by
    cases hp : p.obj with
    | usbTxBuf =>
      by_cases hlt : p.off < 11
      · simp [Driver.objectBytes, hlt, hbuf hp, load]
      · simp [Driver.objectBytes, load, hlt]
    | usbConfiguration => simp [Driver.objectBytes, hconf]
    | replyBuffer => simp [Driver.objectBytes, hfw]
    | _ => rfl
  rw [Driver.peek, Driver.peek, hflag, hobj]

/-- Behind `n` blocks of a message, `rest` is still to be sent. -/
structure Message (d : Driver) (n : Nat) (rest : List UInt8) : Prop where
  len : d.usbMsgLen.toNat = rest.length
  readable : ∀ i (hi : i < rest.length), d.peek (d.usbMsgPtr.add i) = some rest[i]
  /-- Building a block writes below 9 before it has read to the end. -/
  apart : rest ≠ [] → d.usbMsgPtr.obj = .usbTxBuf → 9 ≤ d.usbMsgPtr.off
  blocks : d.usbMsgFlags.toNat % 64 = n
  room : 8 * n + rest.length < 255

/-- The transmit buffer holds `data` under `token`. -/
structure Block (d : Driver) (token : UInt8) (data : List UInt8) : Prop where
  short : data.length ≤ 8
  txLen : d.usbTxLen = UInt8.ofNat (data.length + 4)
  bytes : load d.usbTxBuf 0 (data.length + 3) = token :: usbCrc16Append data

def blockToken (n : Nat) : UInt8 := if n % 2 = 1 then usbpidData0 else usbpidData1

theorem usbRead_eq (d : Driver) (dst : Nat) (bs : List UInt8) (hdst : dst + bs.length ≤ 9)
    (hread : ∀ i (hi : i < bs.length), d.peek (d.usbMsgPtr.add i) = some bs[i])
    (hapart : bs ≠ [] → d.usbMsgPtr.obj = .usbTxBuf → 9 ≤ d.usbMsgPtr.off) :
    usbRead d dst bs.length =
      { d with usbTxBuf := store d.usbTxBuf dst bs, usbMsgPtr := d.usbMsgPtr.add bs.length } := by
  induction bs generalizing d dst with
  | nil => simp [usbRead, MsgPtr.add]
  | cons b bs ih =>
    simp only [List.length_cons] at hdst
    have hapart := hapart (by simp)
    have hb : d.peek d.usbMsgPtr = some b := hread 0 (by simp)
    have hbyte : d.readByte dst =
        { d with usbTxBuf := store d.usbTxBuf dst [b], usbMsgPtr := d.usbMsgPtr.add 1 } := by
      simp [Driver.readByte, hb]
    have hnext := ih (d.readByte dst) (dst + 1) (by omega) (by
      intro i hi
      have hlater := hread (i + 1) (by simpa using hi)
      rw [List.getElem_cons_succ] at hlater
      rw [← hlater, hbyte]
      change Driver.peek _ ((d.usbMsgPtr.add 1).add i) = d.peek (d.usbMsgPtr.add (i + 1))
      rw [MsgPtr.add_add, Nat.add_comm 1 i]
      apply peek_congr
      · rfl
      · rfl
      · rfl
      · intro hobj
        have := hapart hobj
        exact store_outside _ _ _ _ (by simp [MsgPtr.add]; omega)) (by
      rw [hbyte]
      intro _ hobj
      have := hapart hobj
      simp only [MsgPtr.add]
      omega)
    rw [List.length_cons, usbRead, hnext, hbyte]
    simp only [store_cons, MsgPtr.add_add, Nat.add_comm 1]

theorem flags_count : ∀ f : BitVec 8, f.toNat % 64 < 63 →
    (f + 1) &&& 0x40#8 = f &&& 0x40#8 ∧ (f + 1).toNat % 64 = f.toNat % 64 + 1 ∧
      (f &&& 1#8 ≠ 0#8 ↔ f.toNat % 64 % 2 = 1) := by
  decide +kernel

/-- Data, sum and token are stored one after the other and make one packet. -/
theorem store_block (m : Nat → UInt8) (token : UInt8) (data crc : List UInt8) :
    store (store (store m 1 data) (1 + data.length) crc) 0 [token] =
      store m 0 (token :: (data ++ crc)) := by
  funext x
  cases x with
  | zero => simp [store]
  | succ k =>
    have hinner : store m 1 data (k + 1) = data.getD k (m (k + 1)) := by simp [store]
    have hlhs : store (store (store m 1 data) (1 + data.length) crc) 0 [token] (k + 1) =
        store (store m 1 data) (1 + data.length) crc (k + 1) := by simp [store]
    have hrhs : store m 0 (token :: (data ++ crc)) (k + 1) = (data ++ crc).getD k (m (k + 1)) := by
      simp [store]
    rw [hlhs, hrhs]
    by_cases hk : k < data.length
    · rw [store_outside _ _ _ _ (by omega), hinner, List.getD_eq_getElem?_getD,
        List.getD_eq_getElem?_getD, List.getElem?_append_left hk]
    · have hpast : data[k]? = none := List.getElem?_eq_none (by omega)
      rw [List.getD_eq_getElem?_getD, List.getElem?_append_right (by omega)]
      simp only [store, if_pos (show 1 + data.length ≤ k + 1 by omega)]
      rw [show k + 1 - (1 + data.length) = k - data.length by omega]
      simp [hpast]

theorem Message.wantLen {d : Driver} {n : Nat} {rest : List UInt8} (h : Message d n rest) :
    d.wantLen.toNat = (rest.take 8).length := by
  have hlen := h.len
  have hlt : (d.usbMsgLen > 8) ↔ 8 < rest.length := by
    rw [gt_iff_lt, UInt8.lt_iff_toNat_lt, hlen]
    rfl
  rw [List.length_take, Driver.wantLen]
  by_cases hn : 8 < rest.length
  · rw [if_pos (hlt.mpr hn), Nat.min_eq_left (by omega)]
    rfl
  · rw [if_neg (fun hgt => hn (hlt.mp hgt)), hlen]
    omega

theorem Message.flags {d : Driver} {n : Nat} {rest : List UInt8} (h : Message d n rest) :
    (d.usbMsgFlags + 1) &&& usbFlgMsgptrIsRom = d.usbMsgFlags &&& usbFlgMsgptrIsRom ∧
      (d.usbMsgFlags + 1).toNat % 64 = n + 1 ∧ d.token = blockToken n := by
  have hroom := h.room
  have hblocks := h.blocks
  obtain ⟨hrom, hcount, hodd⟩ := flags_count d.usbMsgFlags.toBitVec (by
    change d.usbMsgFlags.toNat % 64 < 63
    omega)
  refine ⟨UInt8.toBitVec_inj.mp hrom, ?_, ?_⟩
  · change (d.usbMsgFlags.toBitVec + 1).toNat % 64 = n + 1
    rw [hcount]
    exact congrArg (· + 1) hblocks
  · have hiff : d.usbMsgFlags &&& usbFlgTxPacket ≠ 0 ↔ n % 2 = 1 := by
      rw [← hblocks, ne_eq, ← UInt8.toBitVec_inj]
      exact hodd
    rw [Driver.token, blockToken]
    by_cases hn : n % 2 = 1
    · rw [if_pos (hiff.mpr hn), if_pos hn]
    · rw [if_neg (fun h => hn (hiff.mp h)), if_neg hn]

theorem finishTxBlock_eq (d : Driver) (token len : UInt8) (data : List UInt8)
    (hlen : len.toNat = data.length) (hdata : load d.usbTxBuf 1 data.length = data)
    (m : Nat → UInt8) (hm : d.usbTxBuf = store m 1 data) :
    finishTxBlock d token len =
      { d with
        usbTxBuf := store m 0 (token :: usbCrc16Append data)
        usbMsgLen := if data.length < 8 then 0xff else d.usbMsgLen
        usbTxLen := UInt8.ofNat (data.length + 4) } := by
  have hpartial : len < 8 ↔ data.length < 8 := by
    rw [UInt8.lt_iff_toNat_lt, hlen]
    rfl
  have hfour : len + 4 = UInt8.ofNat (data.length + 4) := by
    apply UInt8.toNat_inj.mp
    rw [UInt8.toNat_add, hlen, UInt8.toNat_ofNat']
    rfl
  simp only [finishTxBlock, hlen, hdata, hpartial, hfour]
  rw [hm, store_block]
  rfl

/-- One call takes up to eight bytes of the message, under the token that is due. -/
theorem usbBuildTxBlock_eq (d : Driver) (n : Nat) (rest : List UInt8) (h : Message d n rest) :
    usbBuildTxBlock d =
      { d with
        usbMsgLen := if rest.length < 8 then 0xff else d.usbMsgLen - 8
        usbMsgFlags := d.usbMsgFlags + 1
        usbMsgPtr := d.usbMsgPtr.add (rest.take 8).length
        usbTxBuf := store d.usbTxBuf 0 (blockToken n :: usbCrc16Append (rest.take 8))
        usbTxLen := UInt8.ofNat ((rest.take 8).length + 4) } := by
  obtain ⟨hrom, -, htoken⟩ := h.flags
  have hwant := h.wantLen
  have hread := usbRead_eq
    { d with usbMsgLen := d.usbMsgLen - d.wantLen, usbMsgFlags := d.usbMsgFlags + 1 } 1
    (rest.take 8) (by simp; omega) (by
      intro i hi
      have hirest : i < rest.length := by simp at hi; omega
      have hbyte := h.readable i hirest
      rw [List.getElem_take, ← hbyte]
      exact peek_congr _ _ _ rfl rfl hrom fun _ => rfl) (fun htake => h.apart (fun hnil => htake (by rw [hnil]; rfl)))
  rw [usbBuildTxBlock, hwant, hread, htoken,
    finishTxBlock_eq _ (blockToken n) d.wantLen (rest.take 8) hwant (load_store_same _ _ _)
      d.usbTxBuf rfl]
  have hlen : (if (rest.take 8).length < 8 then 0xff else d.usbMsgLen - d.wantLen) =
      if rest.length < 8 then 0xff else d.usbMsgLen - 8 := by
    have htake : (rest.take 8).length = min 8 rest.length := by simp
    by_cases hshort : rest.length < 8
    · rw [if_pos (by omega), if_pos hshort]
    · have hwant8 : d.wantLen = 8 := by
        apply UInt8.toNat_inj.mp
        rw [hwant, htake]
        change min 8 rest.length = 8
        omega
      rw [if_neg (by omega), if_neg hshort, hwant8]
  simp only [hlen]

/-- The same message, seen in two states. -/
structure SameMessage (d d' : Driver) : Prop where
  fw : d'.fw = d.fw
  usbConfiguration : d'.usbConfiguration = d.usbConfiguration
  usbMsgLen : d'.usbMsgLen = d.usbMsgLen
  usbMsgFlags : d'.usbMsgFlags = d.usbMsgFlags
  usbMsgPtr : d'.usbMsgPtr = d.usbMsgPtr
  usbTxBuf : d'.usbTxBuf = d.usbTxBuf

theorem Message.congr {d d' : Driver} {n : Nat} {rest : List UInt8} (h : Message d n rest)
    (hsame : SameMessage d d') : Message d' n rest := by
  refine ⟨?_, ?_, ?_, ?_, h.room⟩
  · rw [hsame.usbMsgLen]
    exact h.len
  · intro i hi
    rw [← h.readable i hi, hsame.usbMsgPtr]
    apply peek_congr
    · exact hsame.fw
    · exact hsame.usbConfiguration
    · rw [hsame.usbMsgFlags]
    · rw [hsame.usbTxBuf]
      exact fun _ => rfl
  · rw [hsame.usbMsgPtr]
    exact h.apart
  · rw [hsame.usbMsgFlags]
    exact h.blocks

theorem Message.open {d : Driver} {n : Nat} {rest : List UInt8} (h : Message d n rest) :
    d.usbMsgLen ≠ 0xff := by
  intro hend
  have hlen := h.len
  have hroom := h.room
  rw [hend] at hlen
  change 255 = rest.length at hlen
  omega

theorem Message.block {d : Driver} {n : Nat} {rest : List UInt8} (h : Message d n rest) :
    Block (usbBuildTxBlock d) (blockToken n) (rest.take 8) := by
  rw [usbBuildTxBlock_eq d n rest h]
  refine ⟨by simp, rfl, ?_⟩
  have hsum : (blockToken n :: usbCrc16Append (rest.take 8)).length = (rest.take 8).length + 3 := by
    simp [usbCrc16Append]
  change load (store d.usbTxBuf 0 (blockToken n :: usbCrc16Append (rest.take 8))) 0 _ = _
  rw [← hsum, load_store_same]

theorem Message.ends {d : Driver} {n : Nat} {rest : List UInt8} (h : Message d n rest)
    (hshort : rest.length < 8) : (usbBuildTxBlock d).usbMsgLen = 0xff := by
  rw [usbBuildTxBlock_eq d n rest h]
  exact if_pos hshort

/-- A message that fills its block goes on behind it, if only with an empty block. -/
theorem Message.next {d : Driver} {n : Nat} {rest : List UInt8} (h : Message d n rest)
    (hfull : 8 ≤ rest.length) : Message (usbBuildTxBlock d) (n + 1) (rest.drop 8) := by
  obtain ⟨hrom, hcount, -⟩ := h.flags
  have hlen := h.len
  have hroom := h.room
  have htake : (rest.take 8).length = 8 := by simp [hfull]
  have hother : d.usbMsgPtr.obj ≠ .usbTxBuf := by
    -- only two bytes lie behind offset 9 of the buffer
    intro hobj
    have hnine := h.apart (List.ne_nil_of_length_pos (by omega)) hobj
    have hbyte := h.readable 2 (by omega)
    rw [Driver.peek] at hbyte
    split_ifs at hbyte
    have hpast : (d.objectBytes (d.usbMsgPtr.add 2).obj)[(d.usbMsgPtr.add 2).off]? = none := by
      apply List.getElem?_eq_none
      simp only [MsgPtr.add, hobj, Driver.objectBytes, load_length]
      omega
    rw [hpast] at hbyte
    exact absurd hbyte (by simp)
  rw [usbBuildTxBlock_eq d n rest h]
  refine ⟨?_, ?_, fun _ hobj => absurd hobj hother, hcount, ?_⟩
  · change (if rest.length < 8 then 0xff else d.usbMsgLen - 8).toNat = _
    have hle : (8 : UInt8) ≤ d.usbMsgLen := UInt8.le_iff_toNat_le.mpr (by rw [hlen]; exact hfull)
    rw [if_neg (by omega), UInt8.toNat_sub_of_le _ _ hle, hlen, List.length_drop]
    rfl
  · intro i hi
    rw [List.length_drop] at hi
    rw [List.getElem_drop, ← h.readable (8 + i) (by omega)]
    change Driver.peek _ ((d.usbMsgPtr.add (rest.take 8).length).add i) = _
    rw [MsgPtr.add_add, htake]
    exact peek_congr _ _ _ rfl rfl hrom fun hobj => absurd hobj hother
  · rw [List.length_drop]
    omega

/-- What requests read and change, the address apart. -/
structure Core where
  fw : Servo.Firmware
  usbConfiguration : UInt8
deriving DecidableEq

def Driver.core (d : Driver) : Core := { fw := d.fw, usbConfiguration := d.usbConfiguration }

def isStandard (data : Servo.Packet) : Bool :=
  data.bmRequestType &&& Servo.usbrqTypeMask = Servo.usbrqTypeStandard

/-- The descriptor asked for, empty where there is none. -/
def descriptor (data : Servo.Packet) : List UInt8 :=
  if data.wValueBytes.2 = usbdescrDevice then usbDescriptorDevice
  else if data.wValueBytes.2 = usbdescrConfig then usbDescriptorConfiguration
  else if data.wValueBytes.2 = usbdescrString then
    if data.wValueBytes.1 = 0 then usbDescriptorString0
    else if data.wValueBytes.1 = 1 then usbDescriptorStringVendor
    else if data.wValueBytes.1 = 2 then usbDescriptorStringDevice
    else []
  else []

/-- What a request makes of the device, and its whole reply. -/
def served (c : Core) (data : Servo.Packet) : Core × List UInt8 :=
  if isStandard data then
    if data.bRequest = usbrqGetStatus then
      (c, [if data.bmRequestType &&& usbrqRcptMask = usbrqRcptDevice then 1 else 0, 0])
    else if data.bRequest = usbrqGetDescriptor then (c, descriptor data)
    else if data.bRequest = usbrqGetConfiguration then (c, [c.usbConfiguration])
    else if data.bRequest = usbrqSetConfiguration then
      ({ c with usbConfiguration := data.wValueBytes.1 }, [])
    else if data.bRequest = usbrqGetInterface then (c, [0])
    else (c, [])
  else
    let setup := Servo.usbFunctionSetup c.fw data
    ({ c with fw := setup.1 }, setup.1.replyBuffer.toList.take setup.2.toNat)

def addressed (address : UInt8) (data : Servo.Packet) : UInt8 :=
  if isStandard data ∧ data.bRequest = usbrqSetAddress then data.wValueBytes.1 else address

/-- The part of a reply the host asked for. -/
def replyTo (c : Core) (data : Servo.Packet) : List UInt8 := (served c data).2.take data.wLength

/-- The handlers left a pointer to `bytes` and the flags to read them with. -/
structure Prepared (d : Driver) (reply : Reply) (bytes : List UInt8) : Prop where
  len : reply.replyLen.toNat = bytes.length
  short : bytes.length ≤ 40
  readable : ∀ i (hi : i < bytes.length),
    (d.objectBytes d.usbMsgPtr.obj)[d.usbMsgPtr.off + i]? = some bytes[i]
  rom : bytes ≠ [] → d.usbMsgPtr.obj.isRom = decide (reply.flags &&& usbFlgMsgptrIsRom ≠ 0)
  apart : bytes ≠ [] → d.usbMsgPtr.obj = .usbTxBuf → 9 ≤ d.usbMsgPtr.off
  flags : reply.flags.toNat % 64 = 0

/-- What processing does not touch, and of the transmit buffer nothing below 9. -/
structure Kept (d d' : Driver) : Prop where
  usbDeviceAddr : d'.usbDeviceAddr = d.usbDeviceAddr
  inputBuf : d'.inputBuf = d.inputBuf
  appBuf : d'.appBuf = d.appBuf
  usbCurrentTok : d'.usbCurrentTok = d.usbCurrentTok
  usbRxToken : d'.usbRxToken = d.usbRxToken
  usbTxLen : d'.usbTxLen = d.usbTxLen
  usbTxBuf : ∀ x, x < 9 ∨ 11 ≤ x → d'.usbTxBuf x = d.usbTxBuf x
  usbIsReset : d'.usbIsReset = d.usbIsReset
  stray : d'.stray = d.stray

theorem Kept.refl (d : Driver) : Kept d d :=
  ⟨rfl, rfl, rfl, rfl, rfl, rfl, fun _ _ => rfl, rfl, rfl⟩

theorem prepared_nil (d : Driver) (flags : UInt8) (hflags : flags.toNat % 64 = 0) :
    Prepared d { replyLen := 0, flags := flags } [] :=
  ⟨rfl, by simp, by simp, by simp, by simp, hflags⟩

/-- A reply that is a whole constant of program memory. -/
theorem prepared_rom (d : Driver) (obj : Object) (len flags : UInt8) (bytes : List UInt8)
    (hobj : d.objectBytes obj = bytes) (hrom : obj.isRom = true) (hlen : len.toNat = bytes.length)
    (hshort : bytes.length ≤ 40) (hflags : flags = usbFlgMsgptrIsRom ||| usbFlgUseDefaultRw) :
    Prepared (setReply d obj 0 len flags).1 (setReply d obj 0 len flags).2 bytes := by
  have hconst : (usbFlgMsgptrIsRom ||| usbFlgUseDefaultRw).toNat % 64 = 0 ∧
      (usbFlgMsgptrIsRom ||| usbFlgUseDefaultRw) &&& usbFlgMsgptrIsRom ≠ 0 := by decide
  subst hflags
  refine ⟨hlen, hshort, ?_, fun _ => ?_, fun _ hbuf => ?_, hconst.1⟩
  · intro i hi
    change (d.objectBytes obj)[0 + i]? = some bytes[i]
    rw [hobj, Nat.zero_add, List.getElem?_eq_getElem hi]
  · change obj.isRom = decide ((usbFlgMsgptrIsRom ||| usbFlgUseDefaultRw) &&& usbFlgMsgptrIsRom ≠ 0)
    rw [hrom, decide_eq_true hconst.2]
  · change obj = .usbTxBuf at hbuf
    rw [hbuf] at hrom
    exact absurd hrom Bool.false_ne_true

/-- A reply read from data memory, where it may be the start of what is there. -/
theorem prepared_ram (d : Driver) (obj : Object) (off : Nat) (len : UInt8) (bytes : List UInt8)
    (hram : obj.isRom = false) (hlen : len.toNat = bytes.length) (hshort : bytes.length ≤ 40)
    (hobj : ∀ i (hi : i < bytes.length), (d.objectBytes obj)[off + i]? = some bytes[i])
    (hoff : obj = .usbTxBuf → 9 ≤ off) :
    Prepared (setReply d obj off len usbFlgUseDefaultRw).1
      (setReply d obj off len usbFlgUseDefaultRw).2 bytes := by
  have hconst : usbFlgUseDefaultRw.toNat % 64 = 0 ∧
      ¬ (usbFlgUseDefaultRw &&& usbFlgMsgptrIsRom ≠ 0) := by decide
  refine ⟨hlen, hshort, hobj, fun _ => ?_, fun _ hbuf => hoff hbuf, hconst.1⟩
  change obj.isRom = decide (usbFlgUseDefaultRw &&& usbFlgMsgptrIsRom ≠ 0)
  rw [hram, decide_eq_false hconst.2]

/-- The handlers did what `served` says and left the rest alone. -/
structure Serves (d : Driver) (data : Servo.Packet) (result : Driver × Reply) : Prop where
  core : result.1.core = (served d.core data).1
  address : result.1.usbNewDeviceAddr = addressed d.usbNewDeviceAddr data
  prepared : Prepared result.1 result.2 (served d.core data).2
  kept : Kept d result.1

theorem getDescriptor_prepared (d : Driver) (data : Servo.Packet) :
    Prepared (getDescriptor d data).1 (getDescriptor d data).2 (descriptor data) := by
  have hnone := prepared_nil d (usbFlgMsgptrIsRom ||| usbFlgUseDefaultRw) (by decide)
  have hrom := fun obj len bytes hobj hrom hlen hshort =>
    prepared_rom d obj len _ bytes hobj hrom hlen hshort rfl
  unfold getDescriptor descriptor
  split_ifs
  · exact hrom .descriptorDevice 18 _ rfl rfl rfl (by decide)
  · exact hrom .descriptorConfiguration 18 _ rfl rfl rfl (by decide)
  · exact hrom .descriptorString0 4 _ rfl rfl rfl (by decide)
  · exact hrom .descriptorStringVendor 40 _ rfl rfl rfl (by decide)
  · exact hrom .descriptorStringDevice 20 _ rfl rfl rfl (by decide)
  · exact hnone
  · exact hnone

theorem getDescriptor_ptr (d : Driver) (data : Servo.Packet) :
    ∃ p, (getDescriptor d data).1 = { d with usbMsgPtr := p } := by
  unfold getDescriptor
  split_ifs <;> exact ⟨_, rfl⟩

/-- The two bytes behind a full block are free for a short reply. -/
theorem kept_store (d : Driver) (bytes : List UInt8) (h : bytes.length ≤ 2) :
    Kept d { d with usbTxBuf := store d.usbTxBuf 9 bytes } :=
  { Kept.refl d with usbTxBuf := fun x hx => store_outside _ _ _ _ (by omega) }

theorem serves_of {d : Driver} {data : Servo.Packet} {result : Driver × Reply} {c : Core}
    {bytes : List UInt8} (hserved : served d.core data = (c, bytes)) (hcore : result.1.core = c)
    (haddress : result.1.usbNewDeviceAddr = addressed d.usbNewDeviceAddr data)
    (hprepared : Prepared result.1 result.2 bytes) (hkept : Kept d result.1) :
    Serves d data result := by
  constructor
  · rw [hserved, hcore]
  · exact haddress
  · rw [hserved]
    exact hprepared
  · exact hkept

theorem standardRequest_serves (d : Driver) (data : Servo.Packet) (hstd : isStandard data = true) :
    Serves d data (standardRequest d data) := by
  have hkept := kept_store d [0] (by decide)
  have hnone := fun d' : Driver => prepared_nil d' usbFlgUseDefaultRw (by decide)
  have hsame : data.bRequest ≠ usbrqSetAddress →
      addressed d.usbNewDeviceAddr data = d.usbNewDeviceAddr :=
    fun h => if_neg (fun hand => h hand.2)
  by_cases hstatus : data.bRequest = usbrqGetStatus
  · simp only [standardRequest, hstatus, if_true]
    have hserved : served d.core data = (d.core,
        [if data.bmRequestType &&& usbrqRcptMask = usbrqRcptDevice then 1 else 0, 0]) := by
      simp only [served, hstd, hstatus, if_true]
    refine serves_of hserved rfl ?_ ?_ ?_
    · rw [hsame (by rw [hstatus]; decide)]
      rfl
    · refine prepared_ram _ .usbTxBuf 9 2 _ rfl rfl (by simp) ?_ fun _ => Nat.le_refl 9
      intro i hi
      have hcases : i = 0 ∨ i = 1 := by simp at hi; omega
      rcases hcases with rfl | rfl <;> simp [Driver.objectBytes, load, store]
    · refine { hkept with usbTxBuf := fun x hx => ?_ }
      change store (store d.usbTxBuf 9 [0]) 9 _ x = _
      rw [store_outside _ _ _ _ (by simp; omega), store_outside _ _ _ _ (by simp; omega)]
  by_cases haddress : data.bRequest = usbrqSetAddress
  · simp only [standardRequest, haddress, if_neg (show usbrqSetAddress ≠ usbrqGetStatus by decide),
      if_true]
    have hserved : served d.core data = (d.core, []) := by
      simp [served, hstd, haddress, usbrqSetAddress, usbrqGetStatus, usbrqGetDescriptor,
        usbrqGetConfiguration, usbrqSetConfiguration, usbrqGetInterface]
    exact serves_of hserved rfl (by simp [addressed, hstd, haddress]) (hnone _) { hkept with }
  have hsame := hsame haddress
  by_cases hdescriptor : data.bRequest = usbrqGetDescriptor
  · simp only [standardRequest, if_neg hstatus, if_neg haddress, if_pos hdescriptor]
    have hserved : served d.core data = (d.core, descriptor data) := by
      simp [served, hstd, hdescriptor, usbrqGetStatus, usbrqGetDescriptor]
    obtain ⟨p, hp⟩ := getDescriptor_ptr { d with usbTxBuf := store d.usbTxBuf 9 [0] } data
    refine serves_of hserved (by rw [hp]; rfl) (by rw [hsame, hp]) (getDescriptor_prepared _ data) ?_
    rw [hp]
    exact { hkept with }
  by_cases hgetConf : data.bRequest = usbrqGetConfiguration
  · simp only [standardRequest, if_neg hstatus, if_neg haddress, if_neg hdescriptor,
      if_pos hgetConf]
    have hserved : served d.core data = (d.core, [d.usbConfiguration]) := by
      simp [served, hstd, hgetConf, usbrqGetStatus, usbrqGetDescriptor, usbrqGetConfiguration,
        Driver.core]
    refine serves_of hserved rfl (by rw [hsame]; rfl) ?_ { hkept with }
    refine prepared_ram _ .usbConfiguration 0 1 _ rfl rfl (by simp) ?_ (by simp)
    intro i hi
    have hzero : i = 0 := by simp at hi; omega
    subst hzero
    rfl
  by_cases hsetConf : data.bRequest = usbrqSetConfiguration
  · simp only [standardRequest, if_neg hstatus, if_neg haddress, if_neg hdescriptor,
      if_neg hgetConf, if_pos hsetConf]
    have hserved : served d.core data =
        ({ d.core with usbConfiguration := data.wValueBytes.1 }, []) := by
      simp [served, hstd, hsetConf, usbrqGetStatus, usbrqGetDescriptor, usbrqGetConfiguration,
        usbrqSetConfiguration]
    exact serves_of hserved rfl (by rw [hsame]) (hnone _) { hkept with }
  by_cases hgetInt : data.bRequest = usbrqGetInterface
  · simp only [standardRequest, if_neg hstatus, if_neg haddress, if_neg hdescriptor,
      if_neg hgetConf, if_neg hsetConf, if_pos hgetInt]
    have hserved : served d.core data = (d.core, [0]) := by
      simp [served, hstd, hgetInt, usbrqGetStatus, usbrqGetDescriptor, usbrqGetConfiguration,
        usbrqSetConfiguration, usbrqGetInterface]
    refine serves_of hserved rfl (by rw [hsame]; rfl) ?_ { hkept with }
    refine prepared_ram _ .usbTxBuf 9 1 _ rfl rfl (by simp) ?_ fun _ => Nat.le_refl 9
    intro i hi
    have hzero : i = 0 := by simp at hi; omega
    subst hzero
    simp [Driver.objectBytes, load, store]
  -- every other standard request gets the default reply
  have hserved : served d.core data = (d.core, []) := by
    simp [served, hstd, hstatus, hdescriptor, hgetConf, hsetConf, hgetInt]
  simp only [standardRequest, if_neg hstatus, if_neg haddress, if_neg hdescriptor, if_neg hgetConf,
    if_neg hsetConf, if_neg hgetInt]
  exact serves_of hserved rfl (by rw [hsame]) (hnone _) hkept

theorem usbFunctionSetup_len (fw : Servo.Firmware) (data : Servo.Packet) :
    (Servo.usbFunctionSetup fw data).2.toNat ≤ 2 := by
  unfold Servo.usbFunctionSetup
  split_ifs
  · exact (by decide : (2 : UInt8).toNat ≤ 2)
  · exact (by decide : (1 : UInt8).toNat ≤ 2)
  · exact (by decide : (0 : UInt8).toNat ≤ 2)
  · exact (by decide : (1 : UInt8).toNat ≤ 2)

theorem setupRequest_serves (d : Driver) (data : Servo.Packet) :
    Serves d data (setupRequest d data) := by
  by_cases hstd : isStandard data = true
  · have htype := of_decide_eq_true hstd
    rw [setupRequest, if_pos htype]
    exact standardRequest_serves d data hstd
  · have htype : ¬ data.bmRequestType &&& Servo.usbrqTypeMask = Servo.usbrqTypeStandard :=
      fun h => hstd (decide_eq_true h)
    have hlen := usbFunctionSetup_len d.fw data
    rw [setupRequest, if_neg htype]
    have hserved : served d.core data =
        ({ d.core with fw := (Servo.usbFunctionSetup d.fw data).1 },
          (Servo.usbFunctionSetup d.fw data).1.replyBuffer.toList.take
            (Servo.usbFunctionSetup d.fw data).2.toNat) := by
      simp [served, hstd, Driver.core]
    refine serves_of hserved rfl ?_ ?_ { Kept.refl d with }
    · rw [addressed, if_neg (fun h => hstd h.1)]
      rfl
    · refine prepared_ram _ .replyBuffer 0 _ _ rfl ?_ ?_ ?_ (by simp)
      · rw [List.length_take, Vector.length_toList]
        omega
      · rw [List.length_take]
        omega
      · intro i hi
        rw [Nat.zero_add, List.getElem_take]
        exact List.getElem?_eq_getElem _

/-- Only a host length below 256 can be smaller than the reply. -/
theorem clamp_length (data : Servo.Packet) (len : UInt8) :
    (if data.wLengthBytes.2 = 0 ∧ len > data.wLengthBytes.1 then data.wLengthBytes.1
      else len).toNat = min len.toNat data.wLength := by
  have hlow := data.wLengthBytes.1.toNat_lt
  have hlen := len.toNat_lt
  have hword : data.wLength = data.wLengthBytes.1.toNat + 256 * data.wLengthBytes.2.toNat := by
    simp [Servo.Packet.wLength, Servo.Packet.wLengthBytes, leValue]
  by_cases hhigh : data.wLengthBytes.2 = 0
  · rw [hword, hhigh]
    simp only [true_and, gt_iff_lt, UInt8.lt_iff_toNat_lt, UInt8.toNat_zero]
    by_cases hlt : data.wLengthBytes.1.toNat < len.toNat
    · rw [if_pos hlt]
      omega
    · rw [if_neg hlt]
      omega
  · have hpos : data.wLengthBytes.2.toNat ≠ 0 := fun h => hhigh (UInt8.toNat_inj.mp h)
    rw [if_neg (fun h => hhigh h.1), hword]
    omega

/-- A processed SETUP packet leaves its whole reply as a message without blocks. -/
structure Answers (d : Driver) (data : Servo.Packet) (d' : Driver) : Prop where
  core : d'.core = (served d.core data).1
  address : d'.usbNewDeviceAddr = addressed d.usbNewDeviceAddr data
  message : Message d' 0 (replyTo d.core data)
  kept : Kept d d'

theorem usbProcessRx_answers (d : Driver) (data : Servo.Packet)
    (htok : d.usbRxToken = usbpidSetup) : Answers d data (usbProcessRx d data 8) := by
  obtain ⟨hcore, haddress, hprepared, hkept⟩ := setupRequest_serves d data
  rw [usbProcessRx, if_pos ⟨htok, rfl⟩]
  refine ⟨hcore, haddress, ?_, { hkept with }⟩
  have hshort := hprepared.short
  refine ⟨?_, ?_, fun hne => hprepared.apart (fun hnil => ?_), hprepared.flags, ?_⟩
  · simp only [clamp_length, hprepared.len, replyTo, List.length_take]
    omega
  · intro i hi
    have hi' : i < (served d.core data).2.length := by
      rw [replyTo, List.length_take] at hi
      omega
    have hne : (served d.core data).2 ≠ [] := List.ne_nil_of_length_pos (by omega)
    have hbyte := hprepared.readable i hi'
    simp only [replyTo, List.getElem_take]
    rw [Driver.peek]
    change (if (setupRequest d data).1.usbMsgPtr.obj.isRom = _ then _ else none) = _
    rw [if_pos (hprepared.rom hne)]
    exact hbyte
  · exact hne (by rw [replyTo, hnil, List.take_nil])
  · rw [replyTo, List.length_take]
    omega

/-- Anything else that is received asks for an empty message. -/
theorem usbProcessRx_other (d : Driver) (data : Servo.Packet) (len : UInt8)
    (h : ¬ (d.usbRxToken = usbpidSetup ∧ len = 8)) :
    usbProcessRx d data len = { d with usbMsgFlags := usbFlgUseDefaultRw, usbMsgLen := 0 } ∧
      Message (usbProcessRx d data len) 0 [] := by
  rw [usbProcessRx, if_neg h]
  exact ⟨rfl, rfl, by simp, by simp, (by decide : usbFlgUseDefaultRw.toNat % 64 = 0), by simp⟩

end Usbdrv
