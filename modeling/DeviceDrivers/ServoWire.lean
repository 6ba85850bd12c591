import DeviceDrivers.ServoSharing
import DeviceDrivers.ServoTool
import DeviceDrivers.UsbdrvSession

/-!
# The clients over the wire

The commands of the tool and the calls of the kernel driver are programs of control
messages. Here each message is carried out on the wire, packet by packet against a
device that polls often enough, and no client can tell this from the bus of the
firmware.
-/
namespace Servo

open Interaction EventRun

variable {δ κ α : Type}

def etimedout : Nat := 110

/-- What the host adds to a message: the standard requests of its own that it makes before
it, and the transfer that carries the message. -/
structure Turn where
  standard : List Usbdrv.Transfer
  transfer : Usbdrv.Transfer

/-- `usb_control_msg`, from the first packet of the transfer to the result. -/
def wire (turn : Turn) (d : Usbdrv.Driver) (msg : ControlMsg δ) : Usbdrv.Driver × Answer :=
  let done := Usbdrv.perform (run Usbdrv.performed d turn.standard) turn.transfer
  (done.1,
    if done.2.finished = false ∨ done.2.failed = true then { ret := -etimedout, data := [] }
    else if msg.isIn then { ret := done.2.received.length, data := done.2.received }
    else { ret := msg.size.toNat, data := [] })

theorem wire_server (turn : Turn) (d : Usbdrv.Driver) (msg : ControlMsg δ) :
    (wire turn d msg).1 =
      Usbdrv.performed (run Usbdrv.performed d turn.standard) turn.transfer := rfl

/-- The stage that moves the data of the message: all of it in one packet, if it goes out. -/
def Suits (msg : ControlMsg δ) : Usbdrv.DataStage → Prop
  | .read _ => msg.isIn = true
  | .write chunk _ =>
    msg.isIn = false ∧ (chunk.elim 0 fun chunk => chunk.bytes.length) = msg.size.toNat

/-- The transfer is one of the message, and every transfer of the turn has polls enough. -/
structure Carries (turn : Turn) (d : Usbdrv.Driver) (msg : ControlMsg δ) : Prop where
  standard : ∀ t ∈ turn.standard, Usbdrv.isStandard t.data = true
  before : AtEach Usbdrv.performed Usbdrv.Scheduled d turn.standard
  packet : turn.transfer.data = msg.packet
  suits : Suits msg turn.transfer.stage
  scheduled : Usbdrv.Scheduled (run Usbdrv.performed d turn.standard) turn.transfer

theorem packet_isStandard (msg : ControlMsg δ) : Usbdrv.isStandard msg.packet = false :=
  decide_eq_false msg.not_standard

/-- One message over the wire, behind any standard requests, is one delivery to the
firmware, and its reply. -/
theorem wire_simulates :
    Simulates wire (transfer (δ := δ)) (fun _ => ⟨0, none⟩) Usbdrv.Attached Carries := by
  intro turn d bus msg hrel hgood
  have hbefore : Usbdrv.Attached (run Usbdrv.performed d turn.standard) bus := by
    obtain ⟨hend, -⟩ := Usbdrv.run_attached turn.standard hrel hgood.before
    rwa [Usbdrv.vendorRequests_standard turn.standard hgood.standard] at hend
  have hvendor : Usbdrv.isStandard turn.transfer.data = false := by
    rw [hgood.packet]
    exact packet_isStandard msg
  obtain ⟨-, -, -, -, hfinished, hfailed⟩ :=
    Usbdrv.perform_serves _ turn.transfer hbefore.rested hgood.scheduled
  obtain ⟨hattached, hreceived⟩ := Usbdrv.performed_vendor hbefore hgood.scheduled hvendor
  rw [hgood.packet] at hattached hreceived
  constructor
  · simp [wire, transfer, hfinished, hfailed, hreceived]
  · exact hattached

/-- Every session from the device's start on ends with the driver attached to a consistent
bus. -/
theorem session_attached (replyBuffer : Vector UInt8 8) (rx0 rx1 tx : Nat → UInt8)
    (ptr : Usbdrv.MsgPtr) (ts : List Usbdrv.Transfer)
    (hts : AtEach Usbdrv.performed Usbdrv.Scheduled
      (Usbdrv.usbInit ⟨0, replyBuffer⟩ rx0 rx1 tx ptr) ts) :
    let bus := run deliver (bootBus replyBuffer) (Usbdrv.vendorRequests ts)
    Usbdrv.Attached (run Usbdrv.performed (Usbdrv.usbInit ⟨0, replyBuffer⟩ rx0 rx1 tx ptr) ts) bus ∧
      Consistent bus := by
  intro bus
  constructor
  · exact (Usbdrv.run_attached ts (Usbdrv.usbInit_attached _ rx0 rx1 tx ptr) hts).1
  · exact run_invariant Consistent (fun bus data hbus _ => deliver_consistent bus data hbus)
      (bootBus replyBuffer) _ (bootBus_consistent replyBuffer) (atEach_true _ _)

section Clients

variable [DecidableEq κ] (clients : κ → Program (ControlMsg δ) Answer α)

/-- From any point between two transfers on, and with any standard requests of the host in
between: whatever clients share the servo and in whatever order their messages go over the
wire, those that go out without a reply and in one packet, and all with polls enough, each
client is where the bus of the firmware leaves it, and the servo stands at the angle set
last. -/
theorem clients_over_wire (d : Usbdrv.Driver) (bus : Bus) (turns : List (κ × Turn))
    (hattached : Usbdrv.Attached d bus) (hconsistent : Consistent bus)
    (h : AtEach (Pool.step wire) (Pool.Admits Carries) { server := d, clients := clients } turns) :
    let wired := run (Pool.step wire) { server := d, clients := clients } turns
    let direct := run (Pool.step transfer) { server := bus, clients := clients }
      (turns.map fun turn => (turn.1, ⟨0, none⟩))
    wired.clients = direct.clients ∧ wired.server.fw = direct.server.fw ∧
      wired.server.fw.angle = lastSet (direct.server.log.map Delivery.packet) := by
  intro wired direct
  have hstart : Pool.Related Usbdrv.Attached { server := d, clients := clients }
      { server := bus, clients := clients } := ⟨rfl, hattached⟩
  have hend := hstart.run wire_simulates turns h
  have hlog : Consistent direct.server :=
    Pool.run_server_invariant transfer Consistent
      (fun attempt bus msg hbus => transfer_consistent attempt bus msg hbus) _ _ hconsistent
  refine ⟨hend.clients, hend.server.fw, ?_⟩
  rw [hend.server.fw]
  exact hlog.angle

end Clients

/-- One client sets 90 and another reads it. -/
def setAndStatus (who : Bool) : Program (ControlMsg Unit) Answer Outcome :=
  if who then devStatus () (fun _ => "") (fun _ => 0) [[], statusWord]
  else devSet () (fun _ => "") [[], setWord, [57, 48]]

def setTransfer : Usbdrv.Transfer :=
  Usbdrv.writeTransfer 5 (Usbdrv.setPacket 90) Usbdrv.zeroChunk

def lookTransfer : Usbdrv.Transfer := Usbdrv.readTransfer 5 Usbdrv.devicePacket 3

/-- Between the two messages the host looks at the device descriptor. -/
def setAndStatusTurns : List (Bool × Turn) :=
  [(false, ⟨[], setTransfer⟩), (true, ⟨[lookTransfer], Usbdrv.readTransfer 5 Usbdrv.getPacket 1⟩)]

theorem setAndStatusTurns_admitted (d : Usbdrv.Driver) (hd : Usbdrv.Rested d)
    (haddr : d.usbDeviceAddr = 5) :
    AtEach (Pool.step wire) (Pool.Admits Carries) { server := d, clients := setAndStatus }
      setAndStatusTurns := by
  obtain ⟨next, hfirst⟩ : ∃ next, setAndStatus false = .call (setMsg () 90) next := ⟨_, rfl⟩
  have hset : Usbdrv.Scheduled d setTransfer := Usbdrv.setAngle_scheduled 5 90 haddr rfl
  obtain ⟨hd1, haddr1⟩ := Usbdrv.run_rested [setTransfer] hd ⟨hset, trivial⟩
  have hkept1 : run Usbdrv.addressed 5 [setTransfer.data] = 5 := by decide
  rw [run_cons, run_nil] at hd1
  rw [haddr, run_cons, run_nil, List.map_singleton, hkept1] at haddr1
  have hdescriptor : ∀ c, Usbdrv.replyTo c Usbdrv.devicePacket = Usbdrv.usbDescriptorDevice :=
    fun c => rfl
  have hlook : Usbdrv.Scheduled (Usbdrv.performed d setTransfer) lookTransfer :=
    Usbdrv.readTransfer_scheduled _ 5 Usbdrv.devicePacket 3 haddr1 rfl
      (by rw [hdescriptor]; decide)
  obtain ⟨-, haddr2⟩ := Usbdrv.run_rested [lookTransfer] hd1 ⟨hlook, trivial⟩
  have hkept2 : run Usbdrv.addressed 5 [lookTransfer.data] = 5 := by decide
  rw [haddr1, List.map_singleton, hkept2] at haddr2
  constructor
  · intro q next hq
    cases hq
    exact ⟨by simp, trivial, rfl, ⟨rfl, rfl⟩, hset⟩
  · rw [Pool.step_call wire _ false _ _ _ hfirst, wire_server]
    constructor
    · intro q next hq
      cases hq
      exact ⟨by simp [lookTransfer]; decide, ⟨hlook, trivial⟩, rfl, rfl,
        Usbdrv.getAngle_scheduled 5 haddr2 rfl⟩
    · trivial

/-- The clients at a servo that has been enumerated. -/
theorem clients_over_wire_status :
    (run (Pool.step wire)
        { server := run Usbdrv.performed Usbdrv.cleared Usbdrv.enumeration, clients := setAndStatus }
        setAndStatusTurns).clients true =
      .done { ended := .returned 0, out := "Current servo angle: 90\n", err := "" } := by
  obtain ⟨hrested, haddr⟩ := Usbdrv.enumeration_rested
  obtain ⟨hattached, hconsistent⟩ := session_attached (Vector.replicate 8 0) (fun _ => 0)
    (fun _ => 0) (fun _ => 0) ⟨.usbTxBuf, 0⟩ Usbdrv.enumeration Usbdrv.enumeration_scheduled
  rw [Usbdrv.vendorRequests_standard Usbdrv.enumeration (by simp [Usbdrv.enumeration]; decide)]
    at hattached hconsistent
  have hwire := clients_over_wire setAndStatus _ (bootBus (Vector.replicate 8 0))
    setAndStatusTurns hattached hconsistent (setAndStatusTurns_admitted _ hrested haddr)
  exact (congrFun hwire.1 true).trans rfl

end Servo
