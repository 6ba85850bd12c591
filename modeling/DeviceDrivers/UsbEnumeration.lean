import Mathlib.Data.List.TakeWhile
import DeviceDrivers.UsbMatch
import DeviceDrivers.UsbdrvSession

/-!
# The search meets the firmware

The firmware keeps its two names as string descriptors, sends them in blocks of eight
bytes, and the tool reads them back into C strings. Whatever the other devices on the
bus answer, a search passes the servo only where it takes a device before it.
-/
namespace Usb

open Interaction ByteMemory Usbdrv

/-- What a transfer of these bytes leaves of `buffer`. -/
def answer (leftover : Nat → UInt8) (bytes : List UInt8) (h : bytes.length ≤ sizeofBuffer) :
    DescriptorReply :=
  { ret := bytes.length, buffer := store leftover 0 bytes, ret_le := short_reply_le _ h }

/-- `{ USB_STRING_DESCRIPTOR_HEADER(n), 'a', 'b', ... }`, an array of `int`. -/
def stringDescriptor (chars : List Nat) : List UInt8 :=
  intBytes (usbStringDescriptorHeader chars.length :: chars)

theorem intBytes_length (words : List Nat) : (intBytes words).length = 2 * words.length := by
  induction words with
  | nil => rfl
  | cons w words ih =>
    simp only [intBytes, List.flatMap_cons, List.length_append, leBytes_length,
      List.length_cons] at ih ⊢
    omega

/-- Word `i` lies at `2 * i`, its low byte first. -/
theorem load_intBytes (words : List Nat) (i : Nat) (h : i < words.length) :
    (intBytes words)[2 * i]? = some (UInt8.ofNat words[i]) ∧
      (intBytes words)[2 * i + 1]? = some (UInt8.ofNat (words[i] / 256)) := by
  induction words generalizing i with
  | nil => exact absurd h (Nat.not_lt_zero i)
  | cons w words ih =>
    cases i with
    | zero => exact ⟨rfl, rfl⟩
    | succ i =>
      obtain ⟨hlow, hhigh⟩ := ih i (Nat.lt_of_succ_lt_succ h)
      exact ⟨hlow, hhigh⟩

/-- The header word is the length of the descriptor, with the type above it. -/
theorem usbStringDescriptorHeader_eq (n : Nat) (h : n ≤ 126) :
    usbStringDescriptorHeader n = 256 * 3 + (2 * n + 2) := by
  have hor := Nat.two_pow_add_eq_or_of_lt (show 2 * n + 2 < 2 ^ 8 by omega) 3
  rw [usbStringDescriptorHeader, Nat.or_comm]
  exact hor.symm

section Name

variable (leftover : Nat → UInt8) (chars : List Nat)

theorem stringDescriptor_length : (stringDescriptor chars).length = 2 * chars.length + 2 :=
  intBytes_length (usbStringDescriptorHeader chars.length :: chars)

theorem stringDescriptor_fits (h : chars.length ≤ 126) :
    (stringDescriptor chars).length ≤ sizeofBuffer := by
  have hsize : sizeofBuffer = 256 := rfl
  rw [stringDescriptor_length]
  omega

/-- A unit of the code within Latin-1, or `?`. -/
def latin1Char (c : Nat) : UInt8 := if c < 256 then UInt8.ofNat c else unknown

variable (h : chars.length ≤ 126)

theorem answer_buffer (k : Nat) (b : UInt8) (hk : (stringDescriptor chars)[k]? = some b) :
    (answer leftover (stringDescriptor chars) (stringDescriptor_fits chars h)).buffer k = b := by
  obtain ⟨hlt, hb⟩ := List.getElem?_eq_some_iff.mp hk
  simp [answer, store_apply, hlt, hb]

theorem answer_header :
    let reply := answer leftover (stringDescriptor chars) (stringDescriptor_fits chars h)
    reply.buffer 1 = usbDtString ∧ reply.units = chars.length := by
  intro reply
  obtain ⟨hlow, hhigh⟩ := load_intBytes (usbStringDescriptorHeader chars.length :: chars) 0
    (Nat.succ_pos _)
  have hlow := answer_buffer leftover chars h _ _ hlow
  have hhigh := answer_buffer leftover chars h _ _ hhigh
  have hheader := usbStringDescriptorHeader_eq chars.length h
  rw [List.getElem_cons_zero, hheader] at hlow hhigh
  have htype : (256 * 3 + (2 * chars.length + 2)) / 256 = 3 := by omega
  rw [htype] at hhigh
  have hlen : (reply.buffer 0).toNat = 2 * chars.length + 2 := by
    rw [hlow, UInt8.toNat_ofNat']
    omega
  have hret : reply.ret.toNat = 2 * chars.length + 2 := by
    simp only [reply, answer, stringDescriptor_length]
    omega
  constructor
  · exact hhigh
  · rw [DescriptorReply.units, DescriptorReply.length, hlen, hret]
    omega

/-- The tool reads the characters the firmware was built with, one `?` for each outside
of Latin-1. -/
theorem latin1_answer (hunits : ∀ c ∈ chars, c < 65536) :
    (answer leftover (stringDescriptor chars) (stringDescriptor_fits chars h)).latin1 =
      chars.map latin1Char := by
  have hheader := answer_header leftover chars h
  apply List.ext_getElem
  · rw [latin1_length, hheader.2, List.length_map]
  · intro i hi _
    rw [latin1_length, hheader.2] at hi
    obtain ⟨hlow, hhigh⟩ := load_intBytes (usbStringDescriptorHeader chars.length :: chars) (i + 1)
      (Nat.succ_lt_succ hi)
    have hlow := answer_buffer leftover chars h _ _ hlow
    have hhigh := answer_buffer leftover chars h _ _ hhigh
    have hunit := hunits chars[i] (List.getElem_mem hi)
    simp only [DescriptorReply.latin1, List.getElem_map, List.getElem_range, latin1Unit, latin1Char,
      hlow, hhigh, List.getElem_cons_succ]
    have hzero : UInt8.ofNat (chars[i] / 256) = 0 ↔ chars[i] < 256 := by
      rw [← UInt8.toNat_inj, UInt8.toNat_ofNat']
      simp only [UInt8.toNat_zero]
      omega
    simp only [hzero]

end Name

/-- Whatever name of up to 126 units the firmware is configured with, and whatever lay in
the two buffers before, the tool reads that name in the reply to its request, one `?` for
each unit outside of Latin-1, and writes nothing behind its NUL. -/
theorem usbGetStringAscii_reads_name (usbControlMsg : ControlRequest → DescriptorReply)
    (index langid : Int) (leftover : Nat → UInt8) (chars : List Nat) (h : chars.length ≤ 126)
    (hunits : ∀ c ∈ chars, c < 65536)
    (hreply : usbControlMsg (stringRequest index langid) =
      answer leftover (stringDescriptor chars) (stringDescriptor_fits chars h))
    (buf : Nat → UInt8) (buflen : Int) (hlen : 128 ≤ buflen) :
    let got := usbGetStringAscii usbControlMsg index langid buf buflen
    got.2 = chars.length ∧ got.1.buf = store buf 0 (chars.map latin1Char ++ [0]) := by
  intro got
  obtain ⟨htype, hunits'⟩ := answer_header leftover chars h
  have hret : 0 ≤ (answer leftover (stringDescriptor chars) (stringDescriptor_fits chars h)).ret :=
    Int.natCast_nonneg _
  simp only [got, usbGetStringAscii, hreply]
  constructor
  · simp only [decode_string _ buf buflen hret htype, converted_stop_of_room _ buf buflen hlen,
      hunits']
    omega
  · rw [← latin1_answer leftover chars h hunits]
    exact decode_buf _ buf buflen hlen hret htype

/-- `A€` is read as `A?`. -/
theorem usbGetStringAscii_reads_name_euro :
    (usbGetStringAscii (fun _ => answer (fun _ => 7) (stringDescriptor [65, 0x20ac])
      (stringDescriptor_fits [65, 0x20ac] (by decide))) 1 0x0409 (fun _ => 0) 256).2 = 2 :=
  (usbGetStringAscii_reads_name _ 1 0x0409 (fun _ => 7) [65, 0x20ac] (by decide) (by simp) rfl
    (fun _ => 0) 256 (by decide)).1

theorem spells_answer (s : CString) (leftover : Nat → UInt8) (bytes : List UInt8)
    (hlen : s.bytes.length ≤ 126) (hbytes : bytes = stringDescriptor (s.bytes.map UInt8.toNat))
    (h : bytes.length ≤ sizeofBuffer) : (answer leftover bytes h).Spells s := by
  subst hbytes
  have hshort : (s.bytes.map UInt8.toNat).length ≤ 126 := by rwa [List.length_map]
  have hunits : ∀ c ∈ s.bytes.map UInt8.toNat, c < 65536 := by
    intro c hc
    obtain ⟨b, -, rfl⟩ := List.mem_map.mp hc
    have hb := b.toNat_lt
    omega
  have hsame : (s.bytes.map UInt8.toNat).map latin1Char = s.bytes := by
    rw [List.map_map]
    apply List.map_id''
    intro b
    simp [latin1Char, b.toNat_lt]
  have htext := latin1_answer leftover _ hshort hunits
  have hkept : cText s.bytes = s.bytes := by
    apply List.takeWhile_eq_self_iff.mpr
    intro b hb
    have hne : b ≠ 0 := fun hzero => s.no_nul (hzero ▸ hb)
    simpa using hne
  rw [hsame] at htext
  exact ⟨Int.natCast_nonneg _, (answer_header leftover _ hshort).1, by rw [htext, hkept]⟩

/-- The SETUP packet of a request: one byte, and then words with their low byte first. -/
def ControlRequest.packet (r : ControlRequest) : Servo.Packet :=
  let low (w : Int) := UInt8.ofNat (w % 256).toNat
  let high (w : Int) := UInt8.ofNat (w / 256 % 256).toNat
  #v[low r.requesttype, low r.request, low r.value, high r.value, low r.index, high r.index,
    low r.size, high r.size]

def deviceRequest : Servo.Packet :=
  #v[Servo.usbDirIn, usbrqGetDescriptor, 0, usbdescrDevice, 0, 0, 18, 0]

/-- The bytes the firmware once sent for a request, after any session. -/
def Sent (data : Servo.Packet) (bytes : List UInt8) : Prop :=
  ∃ d t, Rested d ∧ Scheduled d t ∧ t.data = data ∧ bytes = (perform d t).2.received

theorem Sent.reply {data : Servo.Packet} {bytes : List UInt8} (h : Sent data bytes) :
    ∃ c, bytes = replyTo c data := by
  obtain ⟨d, t, hd, ht, rfl, rfl⟩ := h
  exact ⟨d.core, (perform_serves d t hd ht).2.2.2.1⟩

/-- What the library keeps of a device descriptor. -/
def enumerated (address : Nat) (bytes : List UInt8) : UsbDevice :=
  let word (k : Nat) := UInt16.ofNat (leValue [bytes.getD k 0, bytes.getD (k + 1) 0])
  { address := address, idVendor := word 8, idProduct := word 10
    iManufacturer := bytes.getD 14 0, iProduct := bytes.getD 15 0 }

/-- The reply is what the firmware once sent for the request. -/
def FromFirmware (reply : DescriptorReply) (request : ControlRequest) : Prop :=
  ∃ bytes leftover h, Sent request.packet bytes ∧ reply = answer leftover bytes h

/-- A device of the bus that runs the firmware: all that is known of it was sent, and so
is every string that is asked for. -/
structure RunsFirmware (world : UsbDevice → Visit) (dev : UsbDevice) : Prop where
  enumerated : ∃ bytes, Sent deviceRequest bytes ∧ dev = enumerated dev.address bytes
  reply : ∀ (asked : Nat) (index : UInt8) (langid : UInt16),
    FromFirmware ((world dev).reply asked (stringRequest index.toNat langid.toNat))
      (stringRequest index.toNat langid.toNat)

theorem vendorString_descriptor :
    usbDescriptorStringVendor = stringDescriptor (vendorString.map UInt8.toNat) := rfl
theorem productString_descriptor :
    usbDescriptorStringDevice = stringDescriptor (productString.map UInt8.toNat) := rfl

theorem RunsFirmware.ids {world : UsbDevice → Visit} {dev : UsbDevice}
    (h : RunsFirmware world dev) :
    (dev.idVendor.toNat : Int) = usbdevSharedVendor ∧
      (dev.idProduct.toNat : Int) = usbdevSharedProduct ∧ dev.iManufacturer = 1 ∧
      dev.iProduct = 2 := by
  obtain ⟨bytes, hsent, hdev⟩ := h.enumerated
  obtain ⟨c, rfl⟩ := hsent.reply
  have hreply : replyTo c deviceRequest = usbDescriptorDevice := rfl
  rw [hdev, hreply]
  exact ⟨rfl, rfl, rfl, rfl⟩

theorem RunsFirmware.spells {world : UsbDevice → Visit} {dev : UsbDevice}
    (h : RunsFirmware world dev) :
    (manufacturer world dev).Spells servoNames.vendorName ∧
      (model world dev).Spells servoNames.productName := by
  obtain ⟨-, -, hone, htwo⟩ := h.ids
  obtain ⟨vendor, leftover, hvendor, hsent, hmaker⟩ := h.reply 0 dev.iManufacturer 0x0409
  obtain ⟨product, leftover', hproduct, hsent', hmodel⟩ := h.reply 1 dev.iProduct 0x0409
  obtain ⟨c, hc⟩ := hsent.reply
  obtain ⟨c', hc'⟩ := hsent'.reply
  have hv : replyTo c (stringRequest (1 : UInt8).toNat (0x0409 : UInt16).toNat).packet =
      usbDescriptorStringVendor := rfl
  have hp : replyTo c' (stringRequest (2 : UInt8).toNat (0x0409 : UInt16).toNat).packet =
      usbDescriptorStringDevice := rfl
  rw [hone, hv, vendorString_descriptor] at hc
  rw [htwo, hp, productString_descriptor] at hc'
  rw [manufacturer, model]
  constructor
  · exact hmaker ▸ spells_answer servoNames.vendorName leftover vendor (by decide) hc hvendor
  · exact hmodel ▸ spells_answer servoNames.productName leftover' product (by decide) hc' hproduct

theorem RunsFirmware.taken {world : UsbDevice → Visit} {dev : UsbDevice}
    (h : RunsFirmware world dev) (hopen : (world dev).pointer ≠ none) :
    Taken world usbdevSharedVendor usbdevSharedProduct servoNames dev := by
  obtain ⟨hvendor, hproduct, -⟩ := h.ids
  exact (taken_iff _ _ _ _ _).mpr (.inl ⟨⟨hvendor, hproduct, hopen⟩, h.spells⟩)

/-- Where a device that runs the firmware is attached and can be opened, and libusb answers
the requests for its strings with what the firmware replies, the search succeeds whatever
the rest of the bus is, and it ends at that device unless it takes one before it. -/
theorem usbOpenDevice_finds (world : UsbDevice → Visit) (didUsbInit : Bool)
    (device : Option Handle) (buses : List (List UsbDevice)) (asked : Nat)
    (before after : List UsbDevice) (dev : UsbDevice)
    (hbuses : buses.flatten = before ++ dev :: after) (hruns : RunsFirmware world dev)
    (hopen : (world dev).pointer ≠ none) :
    let result := (exec (libusb world) (usbOpenDevice didUsbInit device usbdevSharedVendor
      usbdevSharedProduct (some servoNames) buses) asked).2
    let taken := Taken world usbdevSharedVendor usbdevSharedProduct servoNames
    let found := (before.find? (taken ·)).getD dev
    result.errorCode = 0 ∧ ∃ p, (world found).pointer = some p ∧
      result.device = some { dev := found, pointer := p } := by
  intro result taken found
  obtain ⟨hdevice, hcode⟩ := usbOpenDevice_libusb world usbdevSharedVendor usbdevSharedProduct
    servoNames didUsbInit device buses asked
  have hdev : taken dev := hruns.taken hopen
  have hfound : taken found ∧ firstTaken world usbdevSharedVendor usbdevSharedProduct servoNames
      buses.flatten = handleOf world found := by
    rw [firstTaken, hbuses, List.find?_append]
    cases hbefore : before.find? (taken ·) with
    | none =>
      have hfound : found = dev := by simp [found, hbefore]
      simp [hfound, hdev, taken]
    | some other =>
      have hfound : found = other := by simp [found, hbefore]
      have hother := List.find?_some hbefore
      simp only [decide_eq_true_eq] at hother
      simp [hfound, hother]
  obtain ⟨p, hp, hhandle⟩ := handleOf_taken _ _ _ _ _ hfound.1
  rw [hfound.2, hhandle] at hdevice hcode
  exact ⟨hcode.mpr rfl, p, hp, hdevice⟩

theorem replyTo_length (c : Core) (data : Servo.Packet) : (replyTo c data).length ≤ 40 := by
  have hdescriptor : (descriptor data).length ≤ 40 := by
    unfold descriptor
    split_ifs <;> decide
  have hserved : (served c data).2.length ≤ 40 := by
    unfold served
    split_ifs <;> simp [hdescriptor]
  rw [replyTo, List.length_take]
  omega

theorem replyTo_fits (c : Core) (data : Servo.Packet) : (replyTo c data).length ≤ sizeofBuffer :=
  (replyTo_length c data).trans (by decide)

/-- A bus with one servo, which answers from its start on. -/
theorem usbOpenDevice_finds_alone :
    let dev := enumerated 0 usbDescriptorDevice
    let world : UsbDevice → Visit := fun _ =>
      { pointer := some 1, string := fun _ => 0
        reply := fun _ request =>
          answer (fun _ => 0) (replyTo cleared.core request.packet) (replyTo_fits _ _)
        strerror := "" }
    (exec (libusb world) (usbOpenDevice false none usbdevSharedVendor usbdevSharedProduct
      (some servoNames) [[], [dev]]) 0).2.device = some { dev := dev, pointer := 1 } := by
  intro dev world
  have hsent : ∀ data, Sent data (replyTo cleared.core data) := by
    intro data
    have hblocks : (replyTo cleared.core data).length / 8 + 1 ≤ 6 := by
      have hlen := replyTo_length cleared.core data
      omega
    have hscheduled := readTransfer_scheduled cleared 0 data 6 rfl rfl hblocks
    have hserves := perform_serves cleared _ cleared_rested hscheduled
    exact ⟨cleared, readTransfer 0 data 6, cleared_rested, hscheduled, rfl, hserves.2.2.2.1.symm⟩
  have hruns : RunsFirmware world dev :=
    ⟨⟨_, hsent deviceRequest, rfl⟩, fun _ _ _ =>
      ⟨_, fun _ => 0, replyTo_fits cleared.core _, hsent _, rfl⟩⟩
  obtain ⟨-, p, hp, hdevice⟩ := usbOpenDevice_finds world false none [[], [dev]] 0 [] [] dev rfl
    hruns (by simp [world])
  cases hp
  exact hdevice

end Usb
