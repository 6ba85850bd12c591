import DeviceDrivers.UsbOpen
import DeviceDrivers.UsbString

/-!
# Which device the search takes

Each visit of a device gets its own answer to `usb_open`, its own replies to the
requests behind it, and its own leftovers in the local array. A device is right when
it answers the requests for its manufacturer and product string with descriptors that
spell the names; the search also takes one whose malformed answer leaves a fitting
string behind.
-/
namespace Usb

open Interaction ByteMemory

/-- A handle knows its device. -/
structure Handle where
  dev : UsbDevice
  pointer : Nat
deriving DecidableEq

/-- What the search meets at one device: the result of `usb_open`, the array `string` as
it is found, and the reply to every request, which may depend on how many went before. -/
structure Visit where
  pointer : Option Nat
  string : Nat → UInt8
  reply : Nat → ControlRequest → DescriptorReply
  strerror : String

/-- libusb over such devices; the state counts the requests since the last open. -/
def libusb (world : UsbDevice → Visit) (asked : Nat) :
    UsbCall Handle → Nat × UsbReply Handle
  | .usbOpen dev =>
    (0, { handle := (world dev).pointer.map fun p => { dev := dev, pointer := p }, len := 0,
          string := (world dev).string, strerror := (world dev).strerror })
  | .usbGetStringAscii (some h) index langid string buflen =>
    let got := usbGetStringAscii ((world h.dev).reply asked) index.toNat langid.toNat string buflen
    (asked + 1,
      { handle := none, len := got.2, string := got.1.buf, strerror := (world h.dev).strerror })
  | _ => (asked, { handle := none, len := 0, string := fun _ => 0, strerror := "" })

/-- A string descriptor whose Latin-1 text is the C string `s`. -/
def DescriptorReply.Spells (reply : DescriptorReply) (s : CString) : Prop :=
  0 ≤ reply.ret ∧ reply.buffer 1 = usbDtString ∧ cText reply.latin1 = s.bytes

/-- An answer that is no string descriptor. -/
def DescriptorReply.Malformed (reply : DescriptorReply) : Prop :=
  0 ≤ reply.ret ∧ reply.buffer 1 ≠ usbDtString

/-- The query succeeds and the array then compares equal to `s`. -/
def Passes (reply : DescriptorReply) (string : Nat → UInt8) (s : CString) : Prop :=
  let got := reply.decode string sizeofString
  0 ≤ got.2 ∧ strcmp got.1.buf 0 s.bytes = 0

theorem strcmp_spells (reply : DescriptorReply) (string : Nat → UInt8) (s : CString)
    (hret : 0 ≤ reply.ret) (htype : reply.buffer 1 = usbDtString) :
    strcmp (reply.decode string sizeofString).1.buf 0 s.bytes = 0 ↔
      cText reply.latin1 = s.bytes := by
  apply strcmp_eq_zero_iff _ _ _ _ s.no_nul
  rw [decode_buf reply string sizeofString (by decide) hret htype]
  have hlen : reply.latin1.length + 1 = (reply.latin1 ++ [0]).length := by simp
  rw [hlen, load_store_same]

/-- A malformed answer passes on what the array held before. -/
theorem passes_iff (reply : DescriptorReply) (string : Nat → UInt8) (s : CString) :
    Passes reply string s ↔
      reply.Spells s ∨ reply.Malformed ∧ strcmp string 0 s.bytes = 0 := by
  unfold Passes DescriptorReply.Spells DescriptorReply.Malformed
  by_cases hret : reply.ret < 0
  · have hneg : ¬(0 ≤ reply.ret) := by omega
    rw [decode_failed reply string sizeofString hret]
    simp [hneg]
  · have hnonneg : 0 ≤ reply.ret := by omega
    by_cases htype : reply.buffer 1 = usbDtString
    · have hlen := converted_stop_of_room reply string sizeofString (by decide)
      have hcmp := strcmp_spells reply string s hnonneg htype
      have hpos : 0 ≤ (reply.decode string sizeofString).2 := by
        rw [decode_string reply string sizeofString hnonneg htype]
        omega
      simp [hnonneg, htype, hpos, hcmp]
    · rw [decode_malformed reply string sizeofString hnonneg htype]
      simp [hnonneg, htype]

section Search

variable (world : UsbDevice → Visit) (vendor product : Int) (names : Names)

/-- The reply to the request for the manufacturer's name, the first behind `usb_open`. -/
def manufacturer (dev : UsbDevice) : DescriptorReply :=
  (world dev).reply 0 (stringRequest dev.iManufacturer.toNat 0x0409)

/-- The reply to the request for the product's name, the second. -/
def model (dev : UsbDevice) : DescriptorReply :=
  (world dev).reply 1 (stringRequest dev.iProduct.toNat 0x0409)

def Candidate (dev : UsbDevice) : Prop :=
  (dev.idVendor.toNat : Int) = vendor ∧ (dev.idProduct.toNat : Int) = product ∧
    (world dev).pointer ≠ none

/-- The device both of whose names were asked for, read, and match. -/
def Right (dev : UsbDevice) : Prop :=
  Candidate world vendor product dev ∧ (manufacturer world dev).Spells names.vendorName ∧
    (model world dev).Spells names.productName

/-- A device that is taken on bytes it did not send. -/
def Stale (dev : UsbDevice) : Prop :=
  Candidate world vendor product dev ∧
    ((manufacturer world dev).Malformed ∧
        strcmp (world dev).string 0 names.vendorName.bytes = 0 ∧
        ((model world dev).Spells names.productName ∨
          (model world dev).Malformed ∧
            strcmp (world dev).string 0 names.productName.bytes = 0) ∨
      (manufacturer world dev).Spells names.vendorName ∧ (model world dev).Malformed ∧
        names.vendorName.bytes = names.productName.bytes)

/-- What the source tests, query after query on one array. -/
def Taken (dev : UsbDevice) : Prop :=
  Candidate world vendor product dev ∧
    Passes (manufacturer world dev) (world dev).string names.vendorName ∧
    Passes (model world dev) ((manufacturer world dev).decode (world dev).string sizeofString).1.buf
      names.productName

instance (reply : DescriptorReply) (s : CString) : Decidable (reply.Spells s) :=
  inferInstanceAs (Decidable (_ ∧ _ ∧ _))
instance (reply : DescriptorReply) : Decidable reply.Malformed :=
  inferInstanceAs (Decidable (_ ∧ _))
instance (reply : DescriptorReply) (string : Nat → UInt8) (s : CString) :
    Decidable (Passes reply string s) := inferInstanceAs (Decidable (_ ∧ _))
instance : DecidablePred (Candidate world vendor product) :=
  fun _ => inferInstanceAs (Decidable (_ ∧ _ ∧ _))
instance : DecidablePred (Right world vendor product names) :=
  fun _ => inferInstanceAs (Decidable (_ ∧ _ ∧ _))
instance : DecidablePred (Stale world vendor product names) :=
  fun _ => inferInstanceAs (Decidable (_ ∧ _))
instance : DecidablePred (Taken world vendor product names) :=
  fun _ => inferInstanceAs (Decidable (_ ∧ _ ∧ _))

theorem taken_iff (dev : UsbDevice) :
    Taken world vendor product names dev ↔
      Right world vendor product names dev ∨ Stale world vendor product names dev := by
  unfold Taken Right Stale
  rw [passes_iff, passes_iff]
  by_cases hspells : (manufacturer world dev).Spells names.vendorName
  · have hformed : ¬(manufacturer world dev).Malformed := fun h => h.2 hspells.2.1
    have hleft := strcmp_spells (manufacturer world dev) (world dev).string names.productName
      hspells.1 hspells.2.1
    rw [hspells.2.2] at hleft
    simp only [hspells, hformed, hleft, true_and, false_and, true_or, false_or, ← and_or_left]
  · by_cases hmalformed : (manufacturer world dev).Malformed
    · rw [decode_malformed _ _ _ hmalformed.1 hmalformed.2]
      simp only [hspells, hmalformed, true_and, false_and, and_false, false_or, or_false]
    · simp only [hspells, hmalformed, false_and, and_false, false_or]

/-- The handle `usb_open` gives for the device. -/
def handleOf (dev : UsbDevice) : Option Handle :=
  (world dev).pointer.map fun p => { dev := dev, pointer := p }

/-- One visit keeps the handle exactly when the device is taken. -/
theorem inspect_libusb (l : Locals Handle) (dev : UsbDevice) (asked : Nat)
    (hnull : l.handle = none) :
    let r := (exec (libusb world) (inspect vendor product (some names) l dev) asked).2
    r.1.handle =
        (if Taken world vendor product names dev then handleOf world dev else none) ∧
      r.2 = r.1.handle.isSome := by
  unfold inspect
  split
  · rename_i hid
    cases hopen : (world dev).pointer with
    | none =>
      have hnot : ¬Taken world vendor product names dev := fun h => h.1.2.2 hopen
      simp [libusb, hopen, hnot, Locals.warn]
    | some p =>
      have htaken : Taken world vendor product names dev ↔
          Passes (manufacturer world dev) (world dev).string names.vendorName ∧
          Passes (model world dev)
            ((manufacturer world dev).decode (world dev).string sizeofString).1.buf
            names.productName := by
        simp [Taken, Candidate, hid, hopen]
      have hfirst : ∀ string, usbGetStringAscii ((world dev).reply 0) dev.iManufacturer.toNat
          langidUsEnglish.toNat string sizeofString =
            (manufacturer world dev).decode string sizeofString := fun _ => rfl
      have hsecond : ∀ string, usbGetStringAscii ((world dev).reply (0 + 1)) dev.iProduct.toNat
          langidUsEnglish.toNat string sizeofString =
            (model world dev).decode string sizeofString := fun _ => rfl
      simp only [htaken, handleOf, hopen, Passes, exec_call, libusb, Option.map_some,
        Option.isNone_some, Bool.false_eq_true, if_false, ← not_lt, hfirst]
      generalize (manufacturer world dev).decode (world dev).string sizeofString = maker
      generalize hmodel : (model world dev).decode maker.1.buf sizeofString = answer
      by_cases hmaker : maker.2 < 0
      · simp [hmaker, closeAndReset]
      · by_cases hvendor : strcmp maker.1.buf 0 names.vendorName.bytes = 0
        · by_cases hmodelNeg : answer.2 < 0
          · simp [hmaker, hvendor, hsecond, hmodel, hmodelNeg, closeAndReset, libusb]
          · by_cases hproduct : strcmp answer.1.buf 0 names.productName.bytes = 0
            · simp [hmaker, hvendor, hsecond, hmodel, hmodelNeg, hproduct, libusb]
            · simp [hmaker, hvendor, hsecond, hmodel, hmodelNeg, hproduct, closeAndReset, libusb]
        · simp [hmaker, hvendor, closeAndReset]
  · rename_i hid
    have hnot : ¬Taken world vendor product names dev := fun h => hid ⟨h.1.1, h.1.2.1⟩
    simp [hnot, hnull]

theorem handleOf_taken (dev : UsbDevice) (h : Taken world vendor product names dev) :
    ∃ p, (world dev).pointer = some p ∧
      handleOf world dev = some { dev := dev, pointer := p } := by
  obtain ⟨p, hp⟩ := Option.ne_none_iff_exists'.mp h.1.2.2
  exact ⟨p, hp, by simp [handleOf, hp]⟩

/-- The first device in the list that is taken, by its handle. -/
def firstTaken (devices : List UsbDevice) : Option Handle :=
  (devices.find? (Taken world vendor product names ·)).bind (handleOf world)

theorem scanDevices_libusb (devices : List UsbDevice) (l : Locals Handle) (asked : Nat)
    (hnull : l.handle = none) :
    (exec (libusb world) (scanDevices vendor product (some names) l devices) asked).2.handle =
      firstTaken world vendor product names devices := by
  induction devices generalizing l asked with
  | nil => exact hnull
  | cons dev devices ih =>
    obtain ⟨hhandle, hbroke⟩ := inspect_libusb world vendor product names l dev asked hnull
    simp only [scanDevices, exec_bind, hbroke, firstTaken, List.find?_cons]
    by_cases htaken : Taken world vendor product names dev
    · obtain ⟨p, -, hp⟩ := handleOf_taken world vendor product names dev htaken
      rw [if_pos htaken, hp] at hhandle
      simp [hhandle, htaken, hp]
    · rw [if_neg htaken] at hhandle
      simp only [hhandle, htaken, decide_false, Option.isSome_none, Bool.false_eq_true, if_false]
      exact ih _ _ hhandle

theorem firstTaken_append (xs ys : List UsbDevice) :
    firstTaken world vendor product names (xs ++ ys) =
      if (firstTaken world vendor product names xs).isSome then
        firstTaken world vendor product names xs
      else firstTaken world vendor product names ys := by
  unfold firstTaken
  rw [List.find?_append]
  cases hxs : xs.find? (Taken world vendor product names ·) with
  | none => rfl
  | some dev =>
    have htaken : Taken world vendor product names dev := by
      simpa using List.find?_some hxs
    obtain ⟨p, -, hp⟩ := handleOf_taken world vendor product names dev htaken
    simp [hp]

theorem scanBusses_libusb (buses : List (List UsbDevice)) (l : Locals Handle) (asked : Nat)
    (hnull : l.handle = none) :
    (exec (libusb world) (scanBusses vendor product (some names) l buses) asked).2.handle =
      firstTaken world vendor product names buses.flatten := by
  induction buses generalizing l asked with
  | nil => exact hnull
  | cons bus buses ih =>
    have hbus := scanDevices_libusb world vendor product names bus l asked hnull
    simp only [scanBusses, exec_bind, List.flatten_cons, firstTaken_append, hbus]
    split
    · exact hbus
    · rename_i hnone
      exact ih _ _ (by simpa [hbus] using hnone)

end Search

/-- The search returns the handle of the first right device, and an error exactly
when there is none. -/
def OpensRight (world : UsbDevice → Visit) (vendor product : Int) (names : Names)
    (buses : List (List UsbDevice)) (result : OpenResult Handle) : Prop :=
  let firstRight := buses.flatten.find? (Right world vendor product names ·)
  (∀ dev, (result.errorCode = 0 ∧ ∃ p, (world dev).pointer = some p ∧
      result.device = some { dev := dev, pointer := p }) ↔ firstRight = some dev) ∧
    (result.errorCode ≠ 0 ↔ firstRight = none)

/-- Adding a test changes the first element found exactly when it admits one earlier. -/
theorem find_or_eq_iff {α : Type} (p q : α → Prop) [DecidablePred p] [DecidablePred q]
    (xs : List α) :
    xs.find? (fun x => decide (p x ∨ q x)) = xs.find? (fun x => decide (p x)) ↔
      ∀ x ∈ xs.takeWhile (fun x => decide ¬p x), ¬q x := by
  induction xs with
  | nil => simp
  | cons x xs ih =>
    by_cases hp : p x
    · simp [hp]
    · by_cases hq : q x
      · have hother : xs.find? (fun x => decide (p x)) ≠ some x := by
          intro hfound
          have hpx := List.find?_some hfound
          exact hp (by simpa using hpx)
        simpa [hp, hq] using fun h => hother h.symm
      · simpa [hp, hq] using ih

section Search

variable (world : UsbDevice → Visit) (vendor product : Int) (names : Names) (didUsbInit : Bool)
variable (device : Option Handle) (buses : List (List UsbDevice)) (asked : Nat)

theorem usbOpenDevice_libusb :
    let result := (exec (libusb world)
      (usbOpenDevice didUsbInit device vendor product (some names) buses) asked).2
    let first := firstTaken world vendor product names buses.flatten
    result.device = (if first.isSome then first else device) ∧
      (result.errorCode = 0 ↔ first.isSome) := by
  obtain ⟨asked', hsettled, hdevice, hcode⟩ :=
    usbOpenDevice_settled (libusb world) vendor product (some names) didUsbInit device buses asked
  have hfirst := scanBusses_libusb world vendor product names buses Locals.start asked' rfl
  rw [hfirst] at hdevice hcode
  refine ⟨hdevice, ?_⟩
  rw [hcode]
  cases hsettled with
  | inl hnone =>
    have hnull := hfirst.symm.trans hnone.1
    simpa [hnull] using failureCode_ne_zero _ hnone.2.1
  | inr hsome =>
    obtain ⟨h, -, -, hhandle, -⟩ := hsome
    have hfound := hfirst.symm.trans hhandle
    simp [hfound]

theorem opensRight_iff_find :
    OpensRight world vendor product names buses (exec (libusb world)
      (usbOpenDevice didUsbInit device vendor product (some names) buses) asked).2 ↔
      buses.flatten.find? (Taken world vendor product names ·) =
        buses.flatten.find? (Right world vendor product names ·) := by
  obtain ⟨hdevice, hcode⟩ :=
    usbOpenDevice_libusb world vendor product names didUsbInit device buses asked
  unfold OpensRight
  unfold firstTaken at hdevice hcode
  cases hfind : buses.flatten.find? (Taken world vendor product names ·) with
  | none =>
    rw [hfind] at hcode
    have hfailed : ¬((exec (libusb world)
      (usbOpenDevice didUsbInit device vendor product (some names) buses) asked).2.errorCode =
        0) := by simp [hcode]
    constructor
    · intro hright
      exact (hright.2.mp hfailed).symm
    · intro hright
      simp [hfailed, ← hright]
  | some dev =>
    have htaken : Taken world vendor product names dev := by
      simpa using List.find?_some hfind
    obtain ⟨p, hp, hhandle⟩ := handleOf_taken world vendor product names dev htaken
    rw [hfind, Option.bind_some, hhandle] at hdevice hcode
    simp only [Option.isSome_some, if_true, iff_true] at hdevice hcode
    constructor
    · intro hright
      exact ((hright.1 dev).mp ⟨hcode, p, hp, hdevice⟩).symm
    · intro hright
      rw [← hright, hcode, hdevice]
      refine ⟨fun other => ?_, by simp⟩
      simp only [true_and, Option.some.injEq, Handle.mk.injEq]
      constructor
      · rintro ⟨p', -, hdev, -⟩
        exact hdev
      · rintro rfl
        exact ⟨p, hp, rfl, rfl⟩

/-- The search opens the right device exactly when no device before it is taken on
stale bytes. -/
theorem usbOpenDevice_opensRight_iff :
    OpensRight world vendor product names buses (exec (libusb world)
      (usbOpenDevice didUsbInit device vendor product (some names) buses) asked).2 ↔
      ∀ dev ∈ buses.flatten.takeWhile (fun dev => decide ¬Right world vendor product names dev),
        ¬Stale world vendor product names dev := by
  rw [opensRight_iff_find, ← find_or_eq_iff]
  simp only [taken_iff]

end Search

def usbdevSharedVendor : Int := 0x16C0
def usbdevSharedProduct : Int := 0x05DC

/-- `www.schatenseite.de` -/
def vendorString : List UInt8 :=
  [119, 119, 119, 46, 115, 99, 104, 97, 116, 101, 110, 115, 101, 105, 116, 101, 46, 100, 101]

/-- `USB-Servo` -/
def productString : List UInt8 := [85, 83, 66, 45, 83, 101, 114, 118, 111]

theorem vendorString_no_nul : 0 ∉ vendorString := by decide
theorem productString_no_nul : 0 ∉ productString := by decide

def servoNames : Names :=
  { vendorName := { bytes := vendorString, no_nul := vendorString_no_nul }
    productName := { bytes := productString, no_nul := productString_no_nul } }

theorem short_reply_le (n : Nat) (h : n ≤ sizeofBuffer) : (n : Int) ≤ sizeofBuffer := by
  exact_mod_cast h

/-- A device of another maker answers the manufacturer request with a descriptor of
type 0, while the array still spells the maker of the servo. -/
theorem usbOpenDevice_opens_stale :
    let dev : UsbDevice :=
      { address := 0, idVendor := 0x16C0, idProduct := 0x05DC, iManufacturer := 1, iProduct := 2 }
    let maker : DescriptorReply :=
      { ret := 4, buffer := fun k => [4, 0, 88, 0].getD k 0
        ret_le := short_reply_le 4 (Nat.le_of_ble_eq_true rfl) }
    let servo : DescriptorReply :=
      { ret := 20
        buffer := fun k => (20 :: 3 :: productString.flatMap fun c => [c, 0]).getD k 0
        ret_le := short_reply_le 20 (Nat.le_of_ble_eq_true rfl) }
    let world : UsbDevice → Visit := fun _ =>
      { pointer := some 1, string := fun k => vendorString.getD k 0
        reply := fun _ request => if request = stringRequest 1 0x0409 then maker else servo
        strerror := "" }
    ¬OpensRight world usbdevSharedVendor usbdevSharedProduct servoNames [[dev]]
      (exec (libusb world) (usbOpenDevice true none usbdevSharedVendor usbdevSharedProduct
        (some servoNames) [[dev]]) 0).2 := by
  intro dev maker servo world
  rw [opensRight_iff_find]
  decide

end Usb
