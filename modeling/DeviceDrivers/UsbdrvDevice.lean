import DeviceDrivers.ServoFirmware
import DeviceDrivers.UsbdrvCrc

/-!
# The USB driver between interrupt and main loop

The interrupt routine takes one received packet at a time: it remembers the last
token, answers IN from the transmit buffer and leaves data for the main loop.
`usbPoll` processes that data, builds the next block of the reply, and watches for
a bus reset. Each of these three parts is a step: a packet that arrives inside one
acts as it would just before or just after it, and only the end of a block that
waits while a standard request is processed can go out half overwritten.
-/
namespace Usbdrv

open EventRun ByteMemory

def usbpidSetup : UInt8 := 0x2d
def usbpidOut : UInt8 := 0xe1
def usbpidIn : UInt8 := 0x69
def usbpidData0 : UInt8 := 0xc3
def usbpidData1 : UInt8 := 0x4b
def usbpidAck : UInt8 := 0xd2
def usbpidNak : UInt8 := 0x5a

def usbFlgTxPacket : UInt8 := 1
def usbFlgMsgptrIsRom : UInt8 := 0x40
def usbFlgUseDefaultRw : UInt8 := 0x80

def usbrqGetStatus : UInt8 := 0
def usbrqSetAddress : UInt8 := 5
def usbrqGetDescriptor : UInt8 := 6
def usbrqGetConfiguration : UInt8 := 8
def usbrqSetConfiguration : UInt8 := 9
def usbrqGetInterface : UInt8 := 10

def usbrqRcptMask : UInt8 := 0x1f
def usbrqRcptDevice : UInt8 := 0

def usbdescrDevice : UInt8 := 1
def usbdescrConfig : UInt8 := 2
def usbdescrString : UInt8 := 3
def usbdescrInterface : UInt8 := 4
def usbattrSelfpower : UInt8 := 0x40

def usbDescriptorDevice : List UInt8 :=
  [18, usbdescrDevice, 0x01, 0x01, 0xff, 0, 0, 8, 0xc0, 0x16, 0xdc, 0x05, 0x00, 0x01, 1, 2, 0, 1]

def usbDescriptorConfiguration : List UInt8 :=
  [9, usbdescrConfig, 18, 0, 1, 1, 0, usbattrSelfpower, 20 / 2,
    9, usbdescrInterface, 0, 0, 0, 0, 0, 0, 0]

def usbDescriptorString0 : List UInt8 := [4, 3, 0x09, 0x04]

/-- An array of the chip's two-byte `int`, as its bytes lie in memory. -/
def intBytes (words : List Nat) : List UInt8 := words.flatMap (leBytes 2)

def usbStringDescriptorHeader (stringLength : Nat) : Nat := (2 * stringLength + 2) ||| (3 <<< 8)

def usbCfgVendorName : List Char :=
  ['w', 'w', 'w', '.', 's', 'c', 'h', 'a', 't', 'e', 'n', 's', 'e', 'i', 't', 'e', '.', 'd', 'e']
def usbCfgVendorNameLen : Nat := 19
def usbCfgDeviceName : List Char := ['U', 'S', 'B', '-', 'S', 'e', 'r', 'v', 'o']
def usbCfgDeviceNameLen : Nat := 9

def usbDescriptorStringVendor : List UInt8 :=
  intBytes (usbStringDescriptorHeader usbCfgVendorNameLen :: usbCfgVendorName.map Char.toNat)
def usbDescriptorStringDevice : List UInt8 :=
  intBytes (usbStringDescriptorHeader usbCfgDeviceNameLen :: usbCfgDeviceName.map Char.toNat)

/-- The objects `usbMsgPtr` may point into. -/
inductive Object where
  | descriptorDevice | descriptorConfiguration
  | descriptorString0 | descriptorStringVendor | descriptorStringDevice
  | usbTxBuf | usbConfiguration | replyBuffer
deriving DecidableEq

def Object.isRom : Object → Bool
  | .usbTxBuf | .usbConfiguration | .replyBuffer => false
  | _ => true

structure MsgPtr where
  obj : Object
  off : Nat

def MsgPtr.add (p : MsgPtr) (n : Nat) : MsgPtr := { p with off := p.off + n }

/-- A packet the receiver handed over: PID, data and sum within the buffer. -/
structure Received where
  bytes : List UInt8
  fits : bytes.length ≤ 11

structure Driver where
  fw : Servo.Firmware
  usbDeviceAddr : UInt8
  usbNewDeviceAddr : UInt8
  usbConfiguration : UInt8
  /-- The receive buffer `usbInputBuf` points to, and the one of `usbAppBuf`. -/
  inputBuf : Nat → UInt8
  appBuf : Nat → UInt8
  usbRxLen : UInt8
  usbCurrentTok : UInt8
  usbRxToken : UInt8
  usbMsgLen : UInt8
  usbMsgFlags : UInt8
  usbMsgPtr : MsgPtr
  usbTxLen : UInt8
  usbTxBuf : Nat → UInt8
  usbIsReset : Bool
  /-- Some byte was read from outside the object `usbMsgPtr` points into. -/
  stray : Bool

def isSetupOrOut (d : Driver) (x1 x2 : UInt8) : Driver :=
  if x2 ≠ d.usbDeviceAddr then { d with usbCurrentTok := 0 }
  else { d with usbCurrentTok := x1, usbTxLen := usbpidNak }

/-- A handshake waiting in `usbTxLen` is sent as it is; a block is sent once, and
only behind a block the new address is taken over. -/
def handleIn (d : Driver) (x2 : UInt8) : Driver × Option (List UInt8) :=
  if x2 ≠ d.usbDeviceAddr then (d, none)
  else if d.usbTxLen &&& 0x10 ≠ 0 then (d, some [d.usbTxLen])
  else
    ({ d with usbTxLen := usbpidNak, usbDeviceAddr := d.usbNewDeviceAddr },
      -- the length counts the sync byte
      some (load d.usbTxBuf 0 (d.usbTxLen.toNat - 1)))

def isData (d : Driver) (cnt : Nat) : Driver × Option (List UInt8) :=
  if d.usbCurrentTok = 0 then (d, none)
  else if d.usbRxLen ≠ 0 then (d, some [usbpidNak])
  else if cnt < 4 then (d, some [usbpidAck])
  else
    ({ d with usbRxLen := UInt8.ofNat cnt, usbRxToken := d.usbCurrentTok
              appBuf := d.inputBuf, inputBuf := d.appBuf }, some [usbpidAck])

def usbDataMask : UInt8 := ~~~(usbpidData0 ^^^ usbpidData1)

/-- The new state and the packet sent in answer. -/
def usbInterrupt (d : Driver) (packet : Received) : Driver × Option (List UInt8) :=
  let d := { d with inputBuf := store d.inputBuf 0 packet.bytes }
  let cnt := packet.bytes.length
  let x1 := d.inputBuf 0
  let x2 := d.inputBuf 1 &&& 0x7f
  if cnt < 3 then (d, none)
  else if x1 = usbpidSetup ∨ x1 = usbpidOut then (isSetupOrOut d x1 x2, none)
  else if x1 = usbpidIn then handleIn d x2
  else if x1 &&& usbDataMask = usbpidData0 &&& usbDataMask then isData d cnt
  else (d, none)

def Driver.objectBytes (d : Driver) : Object → List UInt8
  | .descriptorDevice => usbDescriptorDevice
  | .descriptorConfiguration => usbDescriptorConfiguration
  | .descriptorString0 => usbDescriptorString0
  | .descriptorStringVendor => usbDescriptorStringVendor
  | .descriptorStringDevice => usbDescriptorStringDevice
  | .usbTxBuf => load d.usbTxBuf 0 11
  | .usbConfiguration => [d.usbConfiguration]
  | .replyBuffer => d.fw.replyBuffer.toList

/-- A byte at `p`, if `p` is inside its object and the flag names the right memory. -/
def Driver.peek (d : Driver) (p : MsgPtr) : Option UInt8 :=
  if p.obj.isRom = decide (d.usbMsgFlags &&& usbFlgMsgptrIsRom ≠ 0) then
    (d.objectBytes p.obj)[p.off]?
  else none

def Driver.readByte (d : Driver) (dst : Nat) : Driver :=
  let c := d.peek d.usbMsgPtr
  { d with usbTxBuf := store d.usbTxBuf dst [c.getD 0], usbMsgPtr := d.usbMsgPtr.add 1
           stray := d.stray || c.isNone }

/-- `i` bytes of the message to the buffer from `dst` on. -/
def usbRead (d : Driver) (dst : Nat) : Nat → Driver
  | 0 => d
  | i + 1 => usbRead (d.readByte dst) (dst + 1) i

def Driver.wantLen (d : Driver) : UInt8 := if d.usbMsgLen > 8 then 8 else d.usbMsgLen
def Driver.token (d : Driver) : UInt8 :=
  if d.usbMsgFlags &&& usbFlgTxPacket ≠ 0 then usbpidData0 else usbpidData1

/-- The sum behind `len` bytes of data, the token before them. -/
def finishTxBlock (d : Driver) (token len : UInt8) : Driver :=
  let crc := usbCrc16 (load d.usbTxBuf 1 len.toNat)
  { d with
    usbTxBuf := store (store d.usbTxBuf (1 + len.toNat) [crc.1, crc.2]) 0 [token]
    -- a partial block ends the message
    usbMsgLen := if len < 8 then 0xff else d.usbMsgLen
    usbTxLen := len + 4 }

def usbBuildTxBlock (d : Driver) : Driver :=
  let taken := { d with usbMsgLen := d.usbMsgLen - d.wantLen, usbMsgFlags := d.usbMsgFlags + 1 }
  finishTxBlock (usbRead taken 1 d.wantLen.toNat) d.token d.wantLen

/-- What the request handlers leave besides the state. -/
structure Reply where
  replyLen : UInt8
  flags : UInt8

def setReply (d : Driver) (obj : Object) (off : Nat) (len flags : UInt8) : Driver × Reply :=
  ({ d with usbMsgPtr := { obj := obj, off := off } }, { replyLen := len, flags := flags })

/-- GET_DESCRIPTOR; the descriptors that are not configured get no reply. -/
def getDescriptor (d : Driver) (data : Servo.Packet) : Driver × Reply :=
  let flags := usbFlgMsgptrIsRom ||| usbFlgUseDefaultRw
  if data.wValueBytes.2 = usbdescrDevice then setReply d .descriptorDevice 0 18 flags
  else if data.wValueBytes.2 = usbdescrConfig then setReply d .descriptorConfiguration 0 18 flags
  else if data.wValueBytes.2 = usbdescrString then
    if data.wValueBytes.1 = 0 then setReply d .descriptorString0 0 4 flags
    else if data.wValueBytes.1 = 1 then setReply d .descriptorStringVendor 0 40 flags
    else if data.wValueBytes.1 = 2 then setReply d .descriptorStringDevice 0 20 flags
    else (d, { replyLen := 0, flags := flags })
  else (d, { replyLen := 0, flags := flags })

def standardRequest (d : Driver) (data : Servo.Packet) : Driver × Reply :=
  let flags := usbFlgUseDefaultRw
  let d := { d with usbTxBuf := store d.usbTxBuf 9 [0] }
  if data.bRequest = usbrqGetStatus then
    let self : UInt8 := if data.bmRequestType &&& usbrqRcptMask = usbrqRcptDevice then 1 else 0
    setReply { d with usbTxBuf := store d.usbTxBuf 9 [self, 0] } .usbTxBuf 9 2 flags
  else if data.bRequest = usbrqSetAddress then
    ({ d with usbNewDeviceAddr := data.wValueBytes.1 }, { replyLen := 0, flags := flags })
  else if data.bRequest = usbrqGetDescriptor then getDescriptor d data
  else if data.bRequest = usbrqGetConfiguration then setReply d .usbConfiguration 0 1 flags
  else if data.bRequest = usbrqSetConfiguration then
    ({ d with usbConfiguration := data.wValueBytes.1 }, { replyLen := 0, flags := flags })
  else if data.bRequest = usbrqGetInterface then setReply d .usbTxBuf 9 1 flags
  else (d, { replyLen := 0, flags := flags })

def setupRequest (d : Driver) (data : Servo.Packet) : Driver × Reply :=
  if data.bmRequestType &&& Servo.usbrqTypeMask = Servo.usbrqTypeStandard then standardRequest d data
  else
    let setup := Servo.usbFunctionSetup d.fw data
    setReply { d with fw := setup.1 } .replyBuffer 0 setup.2 usbFlgUseDefaultRw

/-- `len` bytes of data, of which a SETUP reads eight. -/
def usbProcessRx (d : Driver) (data : Servo.Packet) (len : UInt8) : Driver :=
  if d.usbRxToken = usbpidSetup ∧ len = 8 then
    let reply := setupRequest d data
    { reply.1 with
      usbMsgFlags := reply.2.flags
      usbMsgLen :=
        if data.wLengthBytes.2 = 0 ∧ reply.2.replyLen > data.wLengthBytes.1 then data.wLengthBytes.1
        else reply.2.replyLen }
  else { d with usbMsgFlags := usbFlgUseDefaultRw, usbMsgLen := 0 }

def Driver.appData (d : Driver) : Servo.Packet := Vector.ofFn fun i => d.appBuf (1 + i)

def usbPollRx (d : Driver) : Driver :=
  if d.usbRxLen = 0 then d
  else
    let len := d.usbRxLen - 3
    let d := if len < 128 then usbProcessRx d d.appData len else d
    { d with usbRxLen := 0 }

def usbPollTx (d : Driver) : Driver :=
  if d.usbMsgLen ≠ 0xff ∧ d.usbTxLen &&& 0x10 ≠ 0 then usbBuildTxBlock d else d

/-- `first` and the hundred samples `later`, each whether the line is not SE0. -/
def usbPollReset (d : Driver) (first : Bool) (later : Fin 100 → Bool) : Driver :=
  if first then { d with usbIsReset := false }
  else if d.usbIsReset then d
  else if ∃ i, later i = true then d
  else { d with usbIsReset := true, usbNewDeviceAddr := 0, usbDeviceAddr := 0 }

def usbPoll (d : Driver) (first : Bool) (later : Fin 100 → Bool) : Driver :=
  usbPollReset (usbPollTx (usbPollRx d)) first later

/-- The driver as it starts, its buffers and its message pointer holding anything. -/
def usbInit (fw : Servo.Firmware) (rx0 rx1 tx : Nat → UInt8) (ptr : MsgPtr) : Driver :=
  { fw := fw, usbDeviceAddr := 0, usbNewDeviceAddr := 0, usbConfiguration := 0
    inputBuf := rx0, appBuf := rx1, usbRxLen := 0, usbCurrentTok := 0, usbRxToken := 0
    usbMsgLen := 0xff, usbMsgFlags := 0, usbMsgPtr := ptr
    usbTxLen := usbpidNak, usbTxBuf := tx, usbIsReset := false, stray := false }

/-- An interrupt that the receiver leaves on overflow has filled the buffer only. -/
inductive Event where
  | packet (p : Received)
  | overflow (stored : Received)
  | pollRx
  | pollTx
  | pollReset (first : Bool) (later : Fin 100 → Bool)

def step (d : Driver) : Event → Driver
  | .packet p => (usbInterrupt d p).1
  | .overflow stored => { d with inputBuf := store d.inputBuf 0 stored.bytes }
  | .pollRx => usbPollRx d
  | .pollTx => usbPollTx d
  | .pollReset first later => usbPollReset d first later

/-- The packet a device sends within an event. -/
def sent (d : Driver) : Event → Option (List UInt8)
  | .packet p => (usbInterrupt d p).2
  | _ => none

end Usbdrv
