import DeviceDrivers.Interaction
import DeviceDrivers.ServoFirmware

/-!
# The libusb command line tool

`dev_test`, `dev_set` and `dev_status` as programs of control messages: what they
send, how they check the result and what they print. `atoi` follows the C
library, with a 64-bit `long` cut to a 32-bit `int`.
-/
namespace Servo

open Interaction EventRun ByteMemory

def isspace (c : UInt8) : Bool := c = 32 || (9 ≤ c && c ≤ 13)
def isdigit (c : UInt8) : Bool := 48 ≤ c && c ≤ 57

def digitsValue (s : List UInt8) : Nat :=
  (s.takeWhile isdigit).foldl (fun n c => 10 * n + (c.toNat - 48)) 0

def longMin : Int := -(2 ^ 63)
def longMax : Int := 2 ^ 63 - 1

/-- `strtol(s, NULL, 10)`: out of range values saturate. -/
def strtol (s : List UInt8) : Int :=
  let value : Int := match s.dropWhile isspace with
    | [] => 0
    | c :: cs =>
      if c = 45 then -digitsValue cs else if c = 43 then digitsValue cs else digitsValue (c :: cs)
  max longMin (min longMax value)

def atoi (s : List UInt8) : BitVec 32 := BitVec.ofInt 32 (strtol s)

/-- `undefined` is what the C standard leaves open. -/
inductive Ended where
  | returned (code : Int)
  | exited (code : Int)
  | undefined
deriving DecidableEq

/-- How a client ended and what it wrote. -/
structure Outcome where
  ended : Ended
  out : String
  err : String
deriving DecidableEq

def hex (n : Nat) : String := "0x" ++ String.ofList (Nat.toDigits 16 n)

variable {δ : Type} (handle : δ) (usbStrerror : Int → String)

def sizeofBuffer : UInt16 := 8

/-- A message of the libusb tool; every one names the same eight-byte buffer. -/
def toolMsg (requesttype request : UInt8) (value : UInt16)
    (h : requesttype &&& usbrqTypeMask ≠ usbrqTypeStandard) : ControlMsg δ :=
  { dev := handle, requesttype := requesttype, request := request, value := value, index := 0,
    size := sizeofBuffer, timeout := 5000, not_standard := h }

def echoMsg (v : UInt16) : ControlMsg δ :=
  toolMsg handle (usbTypeVendor ||| usbDirIn) cmdEcho v vendor_in_not_standard
def setMsg (angle : UInt16) : ControlMsg δ :=
  toolMsg handle usbTypeVendor cmdSet angle vendor_out_not_standard
def getMsg : ControlMsg δ :=
  toolMsg handle (usbTypeVendor ||| usbDirIn) cmdGet 0 vendor_in_not_standard

/-- The rounds of `dev_test` from iteration `i` on. -/
def devTestLoop (rand : Nat → Nat) (buffer : Nat → UInt8) (i : Nat) :
    Nat → Program (ControlMsg δ) Answer Outcome
  | 0 => .done { ended := .returned 0, out := "test succeeded\n", err := "" }
  | rounds + 1 =>
    let v := UInt16.ofNat (rand i)
    .call (echoMsg handle v) fun answer =>
      if answer.ret < 2 then
        let usbError := if answer.ret < 0 then s!"USB error: {usbStrerror answer.ret}\n" else ""
        let short := s!"only {answer.ret} bytes received in iteration {i}\n"
        .done { ended := .exited 1, out := "", err := usbError ++ short }
      else
        let buffer := store buffer 0 answer.data
        let r := (buffer 0).toNat ||| (buffer 1).toNat <<< 8
        if r ≠ v.toNat then
          let got := s!"data error: received {hex r} instead of {hex v.toNat}"
          .done { ended := .exited 1, out := "", err := got ++ s!" in iteration {i}\n" }
        else devTestLoop rand buffer (i + 1) rounds

def devTest (rand : Nat → Nat) (buffer : Nat → UInt8) (argv : List (List UInt8)) :
    Program (ControlMsg δ) Answer Outcome :=
  if argv.length ≠ 2 then .done { ended := .returned 1, out := "", err := "" }
  else devTestLoop handle usbStrerror rand buffer 0 1000

def devSet (argv : List (List UInt8)) : Program (ControlMsg δ) Answer Outcome :=
  match argv with
  | [_, _, arg] =>
    let angle := atoi arg
    if angle.toInt < 0 ∨ angle.toInt > 255 then
      .done { ended := .exited 1, out := "", err := s!"invalid angle: {angle.toInt}\n" }
    else
      .call (setMsg handle (UInt16.ofBitVec (angle.setWidth 16))) fun answer =>
        if answer.ret < 0 then
          .done { ended := .exited 1, out := "", err := s!"USB error: {usbStrerror answer.ret}\n" }
        else .done { ended := .returned 0, out := "", err := "" }
  | _ => .done { ended := .returned 1, out := "", err := "" }

def devStatus (buffer : Nat → UInt8) (argv : List (List UInt8)) :
    Program (ControlMsg δ) Answer Outcome :=
  if argv.length ≠ 2 then .done { ended := .returned 1, out := "", err := "" }
  else
    .call (getMsg handle) fun answer =>
      if answer.ret < 0 then
        .done { ended := .exited 1, out := "", err := s!"USB error: {usbStrerror answer.ret}\n" }
      else if answer.ret < 1 then
        .done
          { ended := .exited 1, out := "", err := s!"only {answer.ret} bytes status received\n" }
      else
        let buffer := store buffer 0 answer.data
        .done
          { ended := .returned 0, out := s!"Current servo angle: {(buffer 0).toNat}\n", err := "" }

/-- The C expression `b0 | (b1 << 8)` reads a little-endian word. -/
theorem or_shift_eq_leValue (b0 b1 : UInt8) :
    b0.toNat ||| b1.toNat <<< 8 = leValue [b0, b1] := by
  have hadd := Nat.shiftLeft_add_eq_or_of_lt b0.toNat_lt b1.toNat
  rw [Nat.or_comm, ← hadd, Nat.shiftLeft_eq]
  simp only [leValue]
  omega

theorem transfer_echo (bus : Bus) (retries : Nat) (v : UInt16) :
    (transfer { retries := retries, failure := none } bus (echoMsg handle v)).2 =
      { ret := 2, data := leBytes 2 v.toNat } := by
  have hlen : 2 ≤ (echoMsg handle v).packet.wLength := by
    rw [packet_wLength]
    exact (by decide : 2 ≤ sizeofBuffer.toNat)
  have hin : (echoMsg handle v).isIn = true := isIn_vendor_in _ rfl
  simp only [transfer, usbReply_echo _ (echoMsg handle v).packet rfl hlen, hin, if_true]
  rfl

theorem transfer_get (bus : Bus) (retries : Nat) :
    (transfer { retries := retries, failure := none } bus (getMsg handle)).2 =
      { ret := 1, data := [bus.fw.angle] } := by
  have hkeep : ∀ n, (run deliver bus (List.replicate n (getMsg handle).packet)).fw.angle =
      bus.fw.angle := by
    intro n
    apply run_frame (fun b : Bus => b.fw.angle) (fun data => data = (getMsg handle).packet)
    · rintro b data rfl
      exact usbFunctionSetup_angle b.fw _
    · exact fun data h => List.eq_of_mem_replicate h
  have hlen : 1 ≤ (getMsg handle).packet.wLength := by
    rw [packet_wLength]
    exact (by decide : 1 ≤ sizeofBuffer.toNat)
  have hin : (getMsg handle).isIn = true := isIn_vendor_in _ rfl
  simp only [transfer, usbReply_get _ (getMsg handle).packet rfl hlen, hkeep, hin, if_true]
  rfl

/-- The echo test succeeds over a working link, whatever numbers it draws, and
moves nothing. -/
theorem exec_devTestLoop (rand : Nat → Nat) (retries rounds i : Nat) (buffer : Nat → UInt8)
    (bus : Bus) :
    let result := exec (transfer { retries := retries, failure := none })
      (devTestLoop handle usbStrerror rand buffer i rounds) bus
    result.1.fw.angle = bus.fw.angle ∧
      result.2 = { ended := .returned 0, out := "test succeeded\n", err := "" } := by
  induction rounds generalizing i buffer bus with
  | zero => exact ⟨rfl, rfl⟩
  | succ rounds ih =>
    have hword : leValue (leBytes 2 (UInt16.ofNat (rand i)).toNat) =
        (UInt16.ofNat (rand i)).toNat :=
      leValue_leBytes_of_lt 2 _ (UInt16.ofNat (rand i)).toNat_lt
    have hbuffer0 : ∀ b0 b1, store buffer 0 [b0, b1] 0 = b0 := fun b0 b1 => by simp [store_apply]
    have hbuffer1 : ∀ b0 b1, store buffer 0 [b0, b1] 1 = b1 := fun b0 b1 => by simp [store_apply]
    have hother : cmdEcho ≠ cmdSet := by decide
    have hangle := transfer_keeps_angle { retries := retries, failure := none } bus
      (echoMsg handle (UInt16.ofNat (rand i))) hother
    simp only [leBytes] at hword
    simp only [devTestLoop, exec_call, transfer_echo, leBytes, hbuffer0, hbuffer1,
      or_shift_eq_leValue, hword, lt_irrefl, ne_eq, not_true_eq_false, if_false]
    rw [← hangle]
    exact ih (i + 1) _ _

theorem exec_devTest (rand : Nat → Nat) (retries : Nat) (buffer : Nat → UInt8)
    (name command : List UInt8) (bus : Bus) :
    let result := exec (transfer { retries := retries, failure := none })
      (devTest handle usbStrerror rand buffer [name, command]) bus
    result.1.fw.angle = bus.fw.angle ∧
      result.2 = { ended := .returned 0, out := "test succeeded\n", err := "" } := by
  simp only [devTest, List.length_cons, List.length_nil, ne_eq, not_true_eq_false, if_false]
  exact exec_devTestLoop handle usbStrerror rand retries 1000 0 buffer bus

/-- `dev_status` prints the angle the servo stands at, and moves nothing. -/
theorem exec_devStatus (retries : Nat) (buffer : Nat → UInt8) (name command : List UInt8)
    (bus : Bus) :
    let result := exec (transfer { retries := retries, failure := none })
      (devStatus handle usbStrerror buffer [name, command]) bus
    result.1.fw.angle = bus.fw.angle ∧
      result.2 = { ended := .returned 0, out := s!"Current servo angle: {bus.fw.angle.toNat}\n",
                   err := "" } := by
  have hbuffer : ∀ b, store buffer 0 [b] 0 = b := fun b => by simp [store_apply]
  have hother : cmdGet ≠ cmdSet := by decide
  have hangle := transfer_keeps_angle { retries := retries, failure := none } bus
    (getMsg handle) hother
  constructor
  · simpa [devStatus, transfer_get] using hangle
  · simp [devStatus, transfer_get, hbuffer]

/-- An argument outside the range is refused before anything is sent. -/
theorem devSet_refused (name command arg : List UInt8)
    (h : (atoi arg).toInt < 0 ∨ (atoi arg).toInt > 255) :
    devSet handle usbStrerror [name, command, arg] =
      .done { ended := .exited 1, out := "", err := s!"invalid angle: {(atoi arg).toInt}\n" } := by
  simp only [devSet, h, if_true]

/-- Cut to sixteen bits for `wValue` and to eight in the firmware. -/
theorem low_byte {w : Nat} (n : BitVec w) :
    UInt8.ofNat (UInt16.ofBitVec (n.setWidth 16)).toNat = UInt8.ofBitVec (n.setWidth 8) := by
  apply UInt8.toNat_inj.mp
  have hword : (UInt16.ofBitVec (n.setWidth 16)).toNat = n.toNat % 65536 := by
    simp [UInt16.toNat_ofBitVec, BitVec.toNat_setWidth]
  have hbyte : (UInt8.ofBitVec (n.setWidth 8)).toNat = n.toNat % 256 := by
    simp [UInt8.toNat_ofBitVec, BitVec.toNat_setWidth]
  rw [UInt8.toNat_ofNat', hword, hbyte]
  omega

theorem exec_devSet_accepted (retries : Nat) (name command arg : List UInt8) (bus : Bus)
    (hlow : 0 ≤ (atoi arg).toInt) (hhigh : (atoi arg).toInt ≤ 255) :
    let result := exec (transfer { retries := retries, failure := none })
      (devSet handle usbStrerror [name, command, arg]) bus
    result.2.ended = .returned 0 ∧ result.1.fw.angle = UInt8.ofBitVec ((atoi arg).setWidth 8) := by
  have hrange : ¬((atoi arg).toInt < 0 ∨ (atoi arg).toInt > 255) := by omega
  have hret := transfer_ret_nonneg retries bus
    (setMsg handle (UInt16.ofBitVec ((atoi arg).setWidth 16)))
  simp only [devSet, hrange, if_false, exec_call, not_lt.mpr hret, exec_done, true_and]
  rw [transfer_sets_angle _ _ _ rfl]
  exact low_byte (atoi arg)

end Servo
