import DeviceDrivers.ByteMemory
import DeviceDrivers.EventRun

/-!
# The servo's firmware behind the USB driver

`usbFunctionSetup` handles the class and vendor SETUP packets. The USB driver
hands it the eight bytes, clamps the returned length to the host's `wLength` and
transmits from the static reply buffer. A bus delivers each packet of a control
transfer once or more, and its log keeps what every delivery did.
-/
namespace Servo

open EventRun ByteMemory

def msgOK : UInt8 := 0
def msgErr : UInt8 := 1
def cmdEcho : UInt8 := 0
def cmdGet : UInt8 := 1
def cmdSet : UInt8 := 2

def usbrqTypeMask : UInt8 := 0x60
def usbrqTypeStandard : UInt8 := 0x00
def usbTypeVendor : UInt8 := 0x40
def usbDirIn : UInt8 := 0x80

/-- The eight bytes of a SETUP packet; its words are little-endian. -/
abbrev Packet := Vector UInt8 8

def Packet.bRequest (data : Packet) : UInt8 := data[1]
def Packet.wValue (data : Packet) : Nat := leValue [data[2], data[3]]
def Packet.wLength (data : Packet) : Nat := leValue [data[6], data[7]]

def Packet.bmRequestType (data : Packet) : UInt8 := data[0]
def Packet.wValueBytes (data : Packet) : UInt8 × UInt8 := (data[2], data[3])
def Packet.wLengthBytes (data : Packet) : UInt8 × UInt8 := (data[6], data[7])

structure Firmware where
  angle : UInt8
  replyBuffer : Vector UInt8 8
deriving DecidableEq, Repr

/-- The new state and the number of bytes to reply from `replyBuffer`. -/
def usbFunctionSetup (fw : Firmware) (data : Packet) : Firmware × UInt8 :=
  let buffer := fw.replyBuffer.set 0 msgOK
  if data[1] = cmdEcho then
    ({ fw with replyBuffer := (buffer.set 0 data[2]).set 1 data[3] }, 2)
  else if data[1] = cmdGet then
    ({ fw with replyBuffer := buffer.set 0 fw.angle }, 1)
  else if data[1] = cmdSet then
    ({ angle := data[2], replyBuffer := buffer }, 0)
  else
    ({ fw with replyBuffer := buffer.set 0 msgErr }, 1)

/-- The USB driver's handling of a class or vendor SETUP packet. -/
def usbProcessRx (fw : Firmware) (data : Packet) : Firmware × UInt8 :=
  let setup := usbFunctionSetup fw data
  let replyLen := setup.2
  -- only a host length below 256 can be smaller than the reply
  (setup.1, if data[7] = 0 ∧ replyLen > data[6] then data[6] else replyLen)

/-- The bytes transmitted to the host in answer to the packet. -/
def usbReply (fw : Firmware) (data : Packet) : List UInt8 :=
  (usbProcessRx fw data).1.replyBuffer.toList.take (usbProcessRx fw data).2.toNat

@[simp] theorem usbProcessRx_firmware (fw : Firmware) (data : Packet) :
    (usbProcessRx fw data).1 = (usbFunctionSetup fw data).1 := rfl

/-- The driver's clamp is the minimum with the host's length. -/
theorem usbProcessRx_length (fw : Firmware) (data : Packet) :
    (usbProcessRx fw data).2.toNat = min (usbFunctionSetup fw data).2.toNat data.wLength := by
  have hlow := data[6].toNat_lt
  have hlen := (usbFunctionSetup fw data).2.toNat_lt
  simp only [usbProcessRx, Packet.wLength, leValue, gt_iff_lt, UInt8.lt_iff_toNat_lt]
  by_cases hhigh : data[7] = 0
  · by_cases hlt : data[6].toNat < (usbFunctionSetup fw data).2.toNat
    · simp only [hhigh, hlt, and_self, if_true, UInt8.toNat_zero]
      omega
    · simp only [hhigh, hlt, and_false, if_false, UInt8.toNat_zero]
      omega
  · have hpos : data[7].toNat ≠ 0 := fun h => hhigh (UInt8.toNat_inj.mp h)
    simp only [hhigh, false_and, if_false]
    omega

theorem usbReply_eq (fw : Firmware) (data : Packet) :
    usbReply fw data = (usbFunctionSetup fw data).1.replyBuffer.toList.take
      (min (usbFunctionSetup fw data).2.toNat data.wLength) := by
  rw [usbReply, usbProcessRx_length, usbProcessRx_firmware]

/-- Only CMD_SET touches the angle, and it takes the low byte of `wValue`. -/
theorem usbFunctionSetup_angle (fw : Firmware) (data : Packet) :
    (usbFunctionSetup fw data).1.angle =
      if data.bRequest = cmdSet then UInt8.ofNat data.wValue else fw.angle := by
  have hlow : UInt8.ofNat data.wValue = data[2] := by
    apply UInt8.toNat_inj.mp
    have h2 := data[2].toNat_lt
    simp only [Packet.wValue, leValue, UInt8.toNat_ofNat']
    omega
  simp only [usbFunctionSetup, Packet.bRequest, hlow]
  by_cases hecho : data[1] = cmdEcho
  · simp [hecho, cmdEcho, cmdSet]
  · by_cases hget : data[1] = cmdGet
    · simp [hget, cmdEcho, cmdGet, cmdSet]
    · by_cases hset : data[1] = cmdSet
      · simp [hset, cmdEcho, cmdGet, cmdSet]
      · simp [hecho, hget, hset]

theorem usbFunctionSetup_get (fw : Firmware) (data : Packet) (h : data.bRequest = cmdGet) :
    usbFunctionSetup fw data =
      ({ fw with replyBuffer := (fw.replyBuffer.set 0 msgOK).set 0 fw.angle }, 1) := by
  simp only [Packet.bRequest] at h
  simp [usbFunctionSetup, h, cmdEcho, cmdGet]

theorem usbFunctionSetup_echo (fw : Firmware) (data : Packet) (h : data.bRequest = cmdEcho) :
    usbFunctionSetup fw data =
      ({ fw with
          replyBuffer := ((fw.replyBuffer.set 0 msgOK).set 0 data[2]).set 1 data[3] }, 2) := by
  simp only [Packet.bRequest] at h
  simp [usbFunctionSetup, h, cmdEcho]

theorem take_one (buffer : Vector UInt8 8) : buffer.toList.take 1 = [buffer[0]] := by
  apply List.ext_getElem
  · simp
  · intro i hi _
    have hzero : i = 0 := by simp at hi; omega
    subst hzero
    simp

theorem take_two (buffer : Vector UInt8 8) : buffer.toList.take 2 = [buffer[0], buffer[1]] := by
  apply List.ext_getElem
  · simp
  · intro i hi _
    have hcases : i = 0 ∨ i = 1 := by simp at hi; omega
    cases hcases with
    | inl h => subst h; simp
    | inr h => subst h; simp

theorem usbReply_get (fw : Firmware) (data : Packet) (h : data.bRequest = cmdGet)
    (hlen : 1 ≤ data.wLength) : usbReply fw data = [fw.angle] := by
  rw [usbReply_eq, usbFunctionSetup_get fw data h]
  have hmin : min (1 : UInt8).toNat data.wLength = 1 := by simpa using hlen
  rw [hmin, take_one]
  simp

theorem usbReply_echo (fw : Firmware) (data : Packet) (h : data.bRequest = cmdEcho)
    (hlen : 2 ≤ data.wLength) : usbReply fw data = [data[2], data[3]] := by
  rw [usbReply_eq, usbFunctionSetup_echo fw data h]
  have hmin : min (2 : UInt8).toNat data.wLength = 2 := by simpa using hlen
  rw [hmin, take_two]
  simp

theorem usbReply_set (fw : Firmware) (data : Packet) (h : data.bRequest = cmdSet) :
    usbReply fw data = [] := by
  simp only [Packet.bRequest] at h
  simp [usbReply_eq, usbFunctionSetup, h, cmdEcho, cmdGet, cmdSet]

/-- A class or vendor control message to the device `dev` points at. -/
structure ControlMsg (δ : Type) where
  dev : δ
  requesttype : UInt8
  request : UInt8
  value : UInt16
  index : UInt16
  size : UInt16
  timeout : Nat
  not_standard : requesttype &&& usbrqTypeMask ≠ usbrqTypeStandard

theorem vendor_out_not_standard : usbTypeVendor &&& usbrqTypeMask ≠ usbrqTypeStandard := by
  decide

theorem vendor_in_not_standard :
    (usbTypeVendor ||| usbDirIn) &&& usbrqTypeMask ≠ usbrqTypeStandard := by
  decide

variable {δ : Type}

/-- The SETUP packet the host controller sends for the message. -/
def ControlMsg.packet (msg : ControlMsg δ) : Packet :=
  let low (w : UInt16) := UInt8.ofNat w.toNat
  let high (w : UInt16) := UInt8.ofNat (w.toNat / 256)
  #v[msg.requesttype, msg.request, low msg.value, high msg.value, low msg.index, high msg.index,
    low msg.size, high msg.size]

@[simp] theorem packet_bRequest (msg : ControlMsg δ) : msg.packet.bRequest = msg.request := rfl

@[simp] theorem packet_wValue (msg : ControlMsg δ) : msg.packet.wValue = msg.value.toNat :=
  leValue_leBytes_of_lt 2 msg.value.toNat msg.value.toNat_lt

@[simp] theorem packet_wLength (msg : ControlMsg δ) : msg.packet.wLength = msg.size.toNat :=
  leValue_leBytes_of_lt 2 msg.size.toNat msg.size.toNat_lt

theorem low_word (b0 b1 : UInt8) :
    UInt8.ofNat (UInt16.ofNat (leValue [b0, b1])).toNat = b0 := by
  have h0 := b0.toNat_lt
  have h1 := b1.toNat_lt
  apply UInt8.toNat_inj.mp
  simp only [leValue, UInt8.toNat_ofNat', UInt16.toNat_ofNat']
  omega

theorem high_word (b0 b1 : UInt8) :
    UInt8.ofNat ((UInt16.ofNat (leValue [b0, b1])).toNat / 256) = b1 := by
  have h0 := b0.toNat_lt
  have h1 := b1.toNat_lt
  apply UInt8.toNat_inj.mp
  simp only [leValue, UInt8.toNat_ofNat', UInt16.toNat_ofNat']
  omega

/-- Any eight bytes that are not a standard request are the packet of a message. -/
theorem exists_packet_eq (dev : δ) (data : Packet)
    (h : data[0] &&& usbrqTypeMask ≠ usbrqTypeStandard) :
    ∃ msg : ControlMsg δ, msg.packet = data := by
  refine ⟨{ dev := dev, requesttype := data[0], request := data[1],
            value := UInt16.ofNat (leValue [data[2], data[3]]),
            index := UInt16.ofNat (leValue [data[4], data[5]]),
            size := UInt16.ofNat (leValue [data[6], data[7]]), timeout := 0,
            not_standard := h }, ?_⟩
  simp only [ControlMsg.packet, low_word, high_word]
  apply Vector.ext
  intro i hi
  interval_cases i <;> rfl

def ControlMsg.isIn (msg : ControlMsg δ) : Bool := msg.requesttype &&& usbDirIn ≠ 0

theorem isIn_vendor_in (msg : ControlMsg δ) (h : msg.requesttype = usbTypeVendor ||| usbDirIn) :
    msg.isIn = true := by
  rw [ControlMsg.isIn, h]
  decide

/-- What `usb_control_msg` gives its caller: the result and the bytes received. -/
structure Answer where
  ret : Int
  data : List UInt8
deriving DecidableEq

/-- How a transfer goes on the wire: extra deliveries of its SETUP packet, and
the error the host sees when it gives up. -/
structure Attempt where
  retries : Nat
  failure : Option Nat
deriving DecidableEq

structure Delivery where
  packet : Packet
  reply : List UInt8
  angle : UInt8

/-- The firmware and everything it was handed, oldest first. -/
structure Bus where
  fw : Firmware
  log : List Delivery

def deliver (bus : Bus) (data : Packet) : Bus :=
  let fw := (usbProcessRx bus.fw data).1
  { fw := fw
    log := bus.log ++ [{ packet := data, reply := usbReply bus.fw data, angle := fw.angle }] }

def transfer (attempt : Attempt) (bus : Bus) (msg : ControlMsg δ) : Bus × Answer :=
  let before := run deliver bus (List.replicate attempt.retries msg.packet)
  let reply := usbReply before.fw msg.packet
  (deliver before msg.packet,
    match attempt.failure with
    | some e => { ret := Int.negSucc e, data := [] }
    | none =>
      if msg.isIn then { ret := reply.length, data := reply }
      else { ret := msg.size.toNat, data := [] })

theorem transfer_bus (attempt : Attempt) (bus : Bus) (msg : ControlMsg δ) :
    (transfer attempt bus msg).1 =
      run deliver bus (List.replicate (attempt.retries + 1) msg.packet) := by
  rw [List.replicate_succ', run_concat]
  rfl

/-- However often it is delivered, the packet leaves the angle one delivery leaves. -/
theorem transfer_angle (attempt : Attempt) (bus : Bus) (msg : ControlMsg δ) :
    (transfer attempt bus msg).1.fw.angle =
      if msg.request = cmdSet then UInt8.ofNat msg.value.toNat else bus.fw.angle := by
  have hstep : ∀ b : Bus, (deliver b msg.packet).fw.angle =
      if msg.request = cmdSet then UInt8.ofNat msg.value.toNat else b.fw.angle := by
    intro b
    simp only [deliver, usbProcessRx_firmware, usbFunctionSetup_angle, packet_bRequest,
      packet_wValue]
  rw [transfer_bus]
  induction attempt.retries generalizing bus with
  | zero => exact hstep bus
  | succ n ih =>
    rw [List.replicate_succ, run_cons, ih, hstep]
    split <;> rfl

theorem transfer_keeps_angle (attempt : Attempt) (bus : Bus) (msg : ControlMsg δ)
    (h : msg.request ≠ cmdSet) : (transfer attempt bus msg).1.fw.angle = bus.fw.angle := by
  rw [transfer_angle, if_neg h]

theorem transfer_sets_angle (attempt : Attempt) (bus : Bus) (msg : ControlMsg δ)
    (h : msg.request = cmdSet) :
    (transfer attempt bus msg).1.fw.angle = UInt8.ofNat msg.value.toNat := by
  rw [transfer_angle, if_pos h]

theorem transfer_ret_nonneg (retries : Nat) (bus : Bus) (msg : ControlMsg δ) :
    0 ≤ (transfer { retries := retries, failure := none } bus msg).2.ret := by
  simp only [transfer]
  split
  · exact Int.natCast_nonneg _
  · exact Int.natCast_nonneg _

end Servo
