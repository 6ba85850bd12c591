import DeviceDrivers.Interaction
import DeviceDrivers.ServoFirmware

/-!
# The servo's ioctl interface

`servo_ioctl` of the kernel driver, one call at a time: the control message it
sends for a command word, what it keeps of the answer and what it returns to the
caller. A run is any sequence of calls, each with its own caller, device and
transfer result.
-/
namespace Servo

open Interaction EventRun ByteMemory

def iocWrite : BitVec 32 := 1
def iocRead : BitVec 32 := 2

/-- `_IOC(dir, type, nr, size)` -/
def ioc (dir type nr size : BitVec 32) : BitVec 32 :=
  dir <<< 30 ||| size <<< 16 ||| type <<< 8 ||| nr

/-- The character `T`. -/
def magicNumber : BitVec 32 := 0x54
def sizeofChar : BitVec 32 := 1

def ioctlSet : BitVec 32 := ioc iocWrite magicNumber 0x02 sizeofChar
def ioctlStatus : BitVec 32 := ioc iocRead magicNumber 0x01 sizeofChar

@[simp] theorem ioctlStatus_ne_set : ioctlStatus ≠ ioctlSet := by decide

/-- The driver's globals: the device of every open file, and the bytes read from it. -/
structure Driver (δ : Type) where
  device : Option δ
  buffer : Nat → UInt8

/-- What a call leaves: the globals, the caller's memory and the result. -/
structure IoctlReturn (δ : Type) where
  driver : Driver δ
  user : BitVec 64 → UInt8
  ret : Int

variable {δ : Type}

def ioctlSetMsg (device : Option δ) (arg : BitVec 64) : ControlMsg (Option δ) :=
  { dev := device, requesttype := usbTypeVendor, request := cmdSet,
    value := UInt16.ofBitVec (arg.setWidth 16), index := 0, size := 0, timeout := 0,
    not_standard := vendor_out_not_standard }

def ioctlStatusMsg (device : Option δ) : ControlMsg (Option δ) :=
  { dev := device, requesttype := usbTypeVendor ||| usbDirIn, request := cmdGet, value := 0,
    index := 0, size := 2, timeout := 5000, not_standard := vendor_in_not_standard }

def servoIoctl (driver : Driver δ) (user : BitVec 64 → UInt8) (cmd : BitVec 32)
    (arg : BitVec 64) : Program (ControlMsg (Option δ)) Answer (IoctlReturn δ) :=
  if cmd = ioctlSet then
    -- the results `a` and `b` of the transfers are printed and dropped
    .call (ioctlSetMsg driver.device arg) fun _ =>
      .done { driver := driver, user := user, ret := 0 }
  else if cmd = ioctlStatus then
    .call (ioctlStatusMsg driver.device) fun answer =>
      .done
        { driver := { driver with buffer := store driver.buffer 0 answer.data }, user := user,
          ret := 0 }
  else .done { driver := driver, user := user, ret := 0 }

/-- Every message of a call goes to the device the globals name at its start. -/
theorem servoIoctl_allCalls (driver : Driver δ) (user : BitVec 64 → UInt8) (cmd : BitVec 32)
    (arg : BitVec 64) (P : ControlMsg (Option δ) → Prop) :
    (servoIoctl driver user cmd arg).AllCalls P ↔
      (cmd = ioctlSet → P (ioctlSetMsg driver.device arg)) ∧
      (cmd = ioctlStatus → P (ioctlStatusMsg driver.device)) := by
  simp only [servoIoctl]
  by_cases hset : cmd = ioctlSet
  · have hstatus : cmd ≠ ioctlStatus := fun h => ioctlStatus_ne_set (h.symm.trans hset)
    simp [hset, hset ▸ hstatus]
  · by_cases hstatus : cmd = ioctlStatus
    · simp [hstatus]
    · simp [hset, hstatus]

/-- One call: its arguments, the caller's memory, the firmware behind the link
and the result of the transfer, with what it carries past the firmware's reply. -/
structure IoctlCall where
  cmd : BitVec 32
  arg : BitVec 64
  user : BitVec 64 → UInt8
  fw : Firmware
  ret : Int
  excess : List UInt8

def IoctlCall.answer (call : IoctlCall) (msg : ControlMsg (Option δ)) : Answer :=
  { ret := call.ret
    data := if msg.isIn then (usbReply call.fw msg.packet ++ call.excess).take call.ret.toNat
      else [] }

def IoctlCall.exec (driver : Driver δ) (call : IoctlCall) : IoctlReturn δ :=
  (Interaction.exec (fun s msg => (s, call.answer msg))
    (servoIoctl driver call.user call.cmd call.arg) ()).2

def ioctlStep (driver : Driver δ) (call : IoctlCall) : Driver δ := (call.exec driver).driver

/-- What the call sends, and what it is answered. -/
def IoctlCall.trace (driver : Driver δ) (call : IoctlCall) :
    List (ControlMsg (Option δ) × Answer) :=
  Interaction.trace (fun s msg => (s, call.answer msg))
    (servoIoctl driver call.user call.cmd call.arg) ()

/-- The call sent one message, this request to its device, and no smaller result came back. -/
def SentOnce (driver : Driver δ) (call : IoctlCall) (request : UInt8) (least : Int) : Prop :=
  ∃ msg answer, call.trace driver = [(msg, answer)] ∧ msg.dev = driver.device ∧
    msg.request = request ∧ least ≤ answer.ret

/-- The command is known and its transfer did what was asked. -/
def Performed (driver : Driver δ) (call : IoctlCall) : Prop :=
  (call.cmd = ioctlSet ∧ SentOnce driver call cmdSet 0) ∨
    (call.cmd = ioctlStatus ∧ SentOnce driver call cmdGet 1)

/-- The call tells its caller the truth about what happened. -/
structure Honest (driver : Driver δ) (call : IoctlCall) : Prop where
  success : (call.exec driver).ret = 0 → Performed driver call
  failure : ¬Performed driver call → (call.exec driver).ret < 0
  status : call.cmd = ioctlStatus → (call.exec driver).ret = 0 →
    (call.exec driver).user call.arg = call.fw.angle

/-- The same, read off the command and the result of its transfer. -/
def IoctlCall.Succeeds (call : IoctlCall) : Prop :=
  (call.cmd = ioctlSet ∧ 0 ≤ call.ret) ∨ (call.cmd = ioctlStatus ∧ 1 ≤ call.ret)

/-- The transfer succeeds, and a caller who asks for the status holds it already. -/
def IoctlCall.Granted (call : IoctlCall) : Prop :=
  call.Succeeds ∧ (call.cmd = ioctlStatus → call.user call.arg = call.fw.angle)

/-- All a call can do: keep the bytes of a status answer, and return 0. -/
theorem exec_eq (driver : Driver δ) (call : IoctlCall) :
    call.exec driver =
      { driver :=
          if call.cmd = ioctlStatus then
            { driver with
              buffer := store driver.buffer 0 (call.answer (ioctlStatusMsg driver.device)).data }
          else driver
        user := call.user
        ret := 0 } := by
  simp only [IoctlCall.exec, servoIoctl]
  by_cases hset : call.cmd = ioctlSet
  · simp only [hset, if_true, exec_call, exec_done, ioctlStatus_ne_set.symm, if_false]
  · by_cases hstatus : call.cmd = ioctlStatus
    · simp only [hstatus, ioctlStatus_ne_set, if_false, if_true, exec_call, exec_done]
    · simp only [hset, hstatus, if_false, exec_done]

theorem exec_ret (driver : Driver δ) (call : IoctlCall) : (call.exec driver).ret = 0 := by
  rw [exec_eq]

theorem exec_user (driver : Driver δ) (call : IoctlCall) :
    (call.exec driver).user = call.user := by
  rw [exec_eq]

theorem ioctlStep_device (driver : Driver δ) (call : IoctlCall) :
    (ioctlStep driver call).device = driver.device := by
  rw [ioctlStep, exec_eq]
  by_cases hstatus : call.cmd = ioctlStatus
  · simp only [hstatus, if_true]
  · simp only [hstatus, if_false]

/-- The byte the caller asks for reaches the driver's buffer, one copy short of the caller. -/
theorem exec_status_buffer (driver : Driver δ) (call : IoctlCall)
    (hcmd : call.cmd = ioctlStatus) (hret : 1 ≤ call.ret) :
    (call.exec driver).driver.buffer 0 = call.fw.angle := by
  have hreply : usbReply call.fw (ioctlStatusMsg driver.device).packet = [call.fw.angle] := by
    apply usbReply_get _ _ rfl
    rw [packet_wLength]
    exact (by decide : 1 ≤ (2 : UInt16).toNat)
  have hin : (ioctlStatusMsg driver.device).isIn = true := isIn_vendor_in _ rfl
  obtain ⟨n, hn⟩ : ∃ n, call.ret.toNat = n + 1 := ⟨call.ret.toNat - 1, by omega⟩
  rw [exec_eq]
  simp [hcmd, IoctlCall.answer, hreply, hin, hn, store_apply]

theorem trace_set (driver : Driver δ) (call : IoctlCall) (hcmd : call.cmd = ioctlSet) :
    call.trace driver = [(ioctlSetMsg driver.device call.arg,
      call.answer (ioctlSetMsg driver.device call.arg))] := by
  simp only [IoctlCall.trace, servoIoctl, hcmd, if_true, trace_call, trace_done]

theorem trace_status (driver : Driver δ) (call : IoctlCall) (hcmd : call.cmd = ioctlStatus) :
    call.trace driver = [(ioctlStatusMsg driver.device,
      call.answer (ioctlStatusMsg driver.device))] := by
  simp only [IoctlCall.trace, servoIoctl, hcmd, ioctlStatus_ne_set, if_false, if_true, trace_call,
    trace_done]

theorem sentOnce_iff {driver : Driver δ} {call : IoctlCall} {msg : ControlMsg (Option δ)}
    (least : Int) (htrace : call.trace driver = [(msg, call.answer msg)])
    (hdev : msg.dev = driver.device) :
    SentOnce driver call msg.request least ↔ least ≤ call.ret := by
  rw [SentOnce, htrace]
  constructor
  · rintro ⟨_, _, heq, -, -, hret⟩
    cases heq
    exact hret
  · intro hret
    exact ⟨msg, call.answer msg, rfl, hdev, rfl, hret⟩

theorem performed_iff (driver : Driver δ) (call : IoctlCall) :
    Performed driver call ↔ call.Succeeds := by
  apply or_congr
  · exact and_congr_right fun hcmd => sentOnce_iff 0 (trace_set driver call hcmd) rfl
  · exact and_congr_right fun hcmd => sentOnce_iff 1 (trace_status driver call hcmd) rfl

theorem honest_iff_granted (driver : Driver δ) (call : IoctlCall) :
    Honest driver call ↔ call.Granted := by
  have hret := exec_ret driver call
  have huser := exec_user driver call
  constructor
  · intro h
    refine ⟨(performed_iff driver call).mp (h.success hret), fun hcmd => ?_⟩
    rw [← huser]
    exact h.status hcmd hret
  · intro h
    constructor
    · exact fun _ => (performed_iff driver call).mpr h.1
    · exact fun hfail => absurd ((performed_iff driver call).mpr h.1) hfail
    · intro hcmd _
      rw [huser]
      exact h.2 hcmd

/-- A run of calls reports truthfully exactly when every transfer succeeds and
no status request would change what its caller holds. -/
theorem ioctl_honest_iff (driver : Driver δ) (calls : List IoctlCall) :
    AtEach ioctlStep Honest driver calls ↔ ∀ call ∈ calls, call.Granted := by
  have hmem : AtEach ioctlStep (fun _ call => call.Granted) driver calls ↔
      ∀ call ∈ calls, call.Granted := atEach_mem IoctlCall.Granted driver calls
  rw [← hmem]
  exact atEach_congr honest_iff_granted driver calls

/-- An IOCTL_SET on an unplugged servo: the transfer ends with -ENODEV, the call with 0. -/
theorem ioctl_not_honest_unplugged :
    ¬AtEach ioctlStep Honest ({ device := some (), buffer := fun _ => 0 } : Driver Unit)
      [{ cmd := ioctlSet, arg := 90, user := fun _ => 0,
         fw := { angle := 0, replyBuffer := Vector.replicate 8 0 }, ret := -19, excess := [] }] := by
  intro h
  have hgranted := (honest_iff_granted _ _).mp h.1
  have hcases := hgranted.1
  simp [IoctlCall.Succeeds] at hcases

end Servo
