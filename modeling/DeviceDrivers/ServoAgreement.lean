import DeviceDrivers.ServoClient
import DeviceDrivers.ServoIoctl

/-!
# Two ways to set the angle

The argument of `set` reaches the firmware through the libusb tool, or through
`userapp`, the kernel driver and a word of another width at each step. Both run
here on the same bus, and their outcomes are compared.
-/
namespace Servo

open Interaction

inductive Syscall where
  | openServo
  | ioctl (fd : Int) (cmd : BitVec 32) (arg : BitVec 64)
  | close (fd : Int)

/-- The characters of `set`. -/
def setWord : List UInt8 := [115, 101, 116]

/-- `upper` is what the variadic call leaves above the 32 bits of the argument. -/
def userapp (upper : BitVec 32) (argv : List (List UInt8)) : Program Syscall Int Outcome :=
  match argv with
  | [] => .done { ended := .undefined, out := "", err := "" }
  | [_] =>
    .done { ended := .exited 1, out := "To set servo angle: $./usbservo set <0 to 255> \n",
            err := "" }
  | _ :: command :: rest =>
    if command = setWord then
      match rest with
      | [] => .done { ended := .undefined, out := "", err := "" }
      | arg :: _ =>
        let printed := s!"arg={(atoi arg).toInt}\n"
        .call .openServo fun fd =>
          if fd = -1 then
            .done
              { ended := .returned (-1),
                out := printed ++ "Give necessary permissions to file /dev/myadc\n", err := "" }
          else
            .call (.ioctl fd ioctlSet (upper ++ atoi arg)) fun retval =>
              .call (.close fd) fun _ =>
                .done { ended := .returned 0,
                        out := printed ++ s!"return value of IOCTL={retval}\n", err := "" }
    else .done { ended := .returned 0, out := "", err := "" }

variable {δ : Type}

/-- The kernel's side, with the device node of a bound servo. -/
def servoSyscall (driver : Driver δ) (user : BitVec 64 → UInt8) (fd : Nat) :
    Syscall → Program (ControlMsg (Option δ)) Answer Int
  | .openServo => .done fd
  | .ioctl _ cmd arg => (servoIoctl driver user cmd arg).bind fun result => .done result.ret
  | .close _ => .done 0

/-- What the runs depend on besides the argument and the bus. -/
structure Hosts (δ : Type) where
  handle : δ
  usbStrerror : Int → String
  driver : Driver δ
  user : BitVec 64 → UInt8
  fd : Nat
  upper : BitVec 32
  toolName : List UInt8
  appName : List UInt8
  toolRetries : Nat
  appRetries : Nat

def Hosts.toolRun (hosts : Hosts δ) (arg : List UInt8) (bus : Bus) : Bus × Outcome :=
  exec (transfer { retries := hosts.toolRetries, failure := none })
    (devSet hosts.handle hosts.usbStrerror [hosts.toolName, setWord, arg]) bus

def Hosts.appRun (hosts : Hosts δ) (arg : List UInt8) (bus : Bus) : Bus × Outcome :=
  exec (transfer { retries := hosts.appRetries, failure := none })
    ((userapp hosts.upper [hosts.appName, setWord, arg]).interpret
      (servoSyscall hosts.driver hosts.user hosts.fd)) bus

def Outcome.Rejects (outcome : Outcome) : Prop := outcome.ended ≠ .returned 0

/-- Both reject the argument and leave the angle, or both leave the same angle. -/
def SameOutcome (bus : Bus) (tool app : Bus × Outcome) : Prop :=
  (tool.2.Rejects ∧ app.2.Rejects ∧ tool.1.fw.angle = bus.fw.angle ∧
    app.1.fw.angle = bus.fw.angle) ∨
  tool.1.fw.angle = app.1.fw.angle

theorem sameOutcome_iff_angle (bus : Bus) (tool app : Bus × Outcome) :
    SameOutcome bus tool app ↔ tool.1.fw.angle = app.1.fw.angle := by
  constructor
  · intro h
    cases h with
    | inl hboth => exact hboth.2.2.1.trans hboth.2.2.2.symm
    | inr hsame => exact hsame
  · exact Or.inr

def InRange (arg : List UInt8) : Prop := 0 ≤ (atoi arg).toInt ∧ (atoi arg).toInt ≤ 255

def lowByte (arg : List UInt8) : UInt8 := UInt8.ofBitVec ((atoi arg).setWidth 8)

theorem toolRun_in_range (hosts : Hosts δ) (arg : List UInt8) (bus : Bus) (h : InRange arg) :
    (hosts.toolRun arg bus).1.fw.angle = lowByte arg :=
  (exec_devSet_accepted hosts.handle hosts.usbStrerror hosts.toolRetries hosts.toolName setWord arg
    bus h.1 h.2).2

theorem toolRun_out_of_range (hosts : Hosts δ) (arg : List UInt8) (bus : Bus)
    (h : ¬InRange arg) : (hosts.toolRun arg bus).1 = bus := by
  have hrange : (atoi arg).toInt < 0 ∨ (atoi arg).toInt > 255 := by
    simp only [InRange] at h
    omega
  rw [Hosts.toolRun, devSet_refused _ _ _ _ _ hrange, exec_done]

/-- The driver sends the low sixteen bits of whatever word it is given. -/
theorem exec_ioctlSet_angle (driver : Driver δ) (user : BitVec 64 → UInt8) (arg : BitVec 64)
    (attempt : Attempt) (bus : Bus) :
    (exec (transfer attempt) (servoIoctl driver user ioctlSet arg) bus).1.fw.angle =
      UInt8.ofBitVec (arg.setWidth 8) := by
  simp only [servoIoctl, if_true, exec_call, exec_done]
  rw [transfer_sets_angle _ _ _ rfl]
  exact low_byte arg

/-- No value is refused on the way through the driver. -/
theorem appRun_angle (hosts : Hosts δ) (arg : List UInt8) (bus : Bus) :
    (hosts.appRun arg bus).1.fw.angle = lowByte arg := by
  have hopen : ¬((hosts.fd : Int) = -1) := by omega
  have hlow : (hosts.upper ++ atoi arg).setWidth 8 = (atoi arg).setWidth 8 := by
    rw [BitVec.setWidth_append]
    simp
  simp only [Hosts.appRun, exec_interpret, userapp, if_true, exec_call, servoSyscall, exec_done,
    hopen, if_false, exec_bind, exec_ioctlSet_angle, hlow, lowByte]

/-- The clients agree on the arguments in range, and where the byte that slips
through the driver is the angle already. -/
theorem set_clients_agree_iff (hosts : Hosts δ) (arg : List UInt8) (bus : Bus) :
    SameOutcome bus (hosts.toolRun arg bus) (hosts.appRun arg bus) ↔
      InRange arg ∨ bus.fw.angle = lowByte arg := by
  rw [sameOutcome_iff_angle, appRun_angle]
  by_cases h : InRange arg
  · rw [toolRun_in_range hosts arg bus h]
    simp [h]
  · rw [toolRun_out_of_range hosts arg bus h]
    simp [h]

/-- `set 256`: the tool refuses it, the driver moves a servo from 5 to 0. -/
theorem set_clients_disagree_256 :
    let hosts : Hosts Unit :=
      { handle := (), usbStrerror := fun _ => "",
        driver := { device := some (), buffer := fun _ => 0 }, user := fun _ => 0, fd := 3,
        upper := 0, toolName := [], appName := [], toolRetries := 0, appRetries := 0 }
    let bus : Bus := { fw := { angle := 5, replyBuffer := Vector.replicate 8 0 }, log := [] }
    ¬SameOutcome bus (hosts.toolRun [50, 53, 54] bus) (hosts.appRun [50, 53, 54] bus) := by
  intro hosts bus h
  have hvalue : atoi [50, 53, 54] = 256 := by decide
  have hrange : ¬InRange [50, 53, 54] := by
    rw [InRange, hvalue]
    decide
  rw [sameOutcome_iff_angle, appRun_angle, toolRun_out_of_range hosts _ bus hrange, lowByte,
    hvalue] at h
  exact absurd h (by decide)

/-- The clients agree whatever the servo's angle exactly on the arguments in range. -/
theorem agree_always_iff_inRange (hosts : Hosts δ) (arg : List UInt8) :
    (∀ bus, SameOutcome bus (hosts.toolRun arg bus) (hosts.appRun arg bus)) ↔ InRange arg := by
  constructor
  · intro h
    by_contra hrange
    have hother := h
      { fw := { angle := lowByte arg + 1, replyBuffer := Vector.replicate 8 0 }, log := [] }
    rw [sameOutcome_iff_angle, appRun_angle, toolRun_out_of_range hosts arg _ hrange] at hother
    have hnat := congrArg UInt8.toNat hother
    simp only [UInt8.toNat_add] at hnat
    have hbyte := (lowByte arg).toNat_lt
    have hone : (1 : UInt8).toNat = 1 := rfl
    omega
  · intro hrange bus
    rw [sameOutcome_iff_angle, appRun_angle, toolRun_in_range hosts arg bus hrange]

end Servo
