import DeviceDrivers.ServoClient
import DeviceDrivers.ServoIoctl

/-!
# Many clients on one servo

Any number of clients share the firmware, one control transfer at a time in any
order and with any retries. The log of the bus is related to its own past: a
reply to CMD_GET is the angle set last, whoever set it.
-/
namespace Servo

open Interaction EventRun ByteMemory

/-- The low byte of the latest CMD_SET of a history, zero if there is none. -/
def lastSet (past : List Packet) : UInt8 :=
  match (past.filter fun data => data.bRequest = cmdSet).getLast? with
  | some data => UInt8.ofNat data.wValue
  | none => 0

theorem lastSet_concat (past : List Packet) (data : Packet) :
    lastSet (past ++ [data]) =
      if data.bRequest = cmdSet then UInt8.ofNat data.wValue else lastSet past := by
  simp only [lastSet, List.filter_append]
  by_cases hset : data.bRequest = cmdSet
  · simp [hset]
  · simp [hset]

/-- What a delivery has to do when the angle before it is `angle`. -/
structure Delivery.Follows (angle : UInt8) (d : Delivery) : Prop where
  get : d.packet.bRequest = cmdGet → 1 ≤ d.packet.wLength → d.reply = [angle]
  echo : d.packet.bRequest = cmdEcho → 2 ≤ d.packet.wLength →
    ∃ b0 b1, d.reply = [b0, b1] ∧ b0.toNat ||| b1.toNat <<< 8 = d.packet.wValue
  set : d.packet.bRequest = cmdSet → d.angle = UInt8.ofNat d.packet.wValue
  keep : d.packet.bRequest ≠ cmdSet → d.angle = angle

/-- Every delivery of the log follows the angle set last before it. -/
def LastSetWins (log : List Delivery) : Prop :=
  ∀ past d later, log = past ++ d :: later →
    d.Follows (lastSet (past.map Delivery.packet))

theorem lastSetWins_concat (log : List Delivery) (d : Delivery) (hlog : LastSetWins log)
    (hd : d.Follows (lastSet (log.map Delivery.packet))) : LastSetWins (log ++ [d]) := by
  intro past d' later h
  cases later using List.reverseRecOn with
  | nil =>
    obtain ⟨rfl, hlast⟩ := List.append_inj' h rfl
    cases hlast
    exact hd
  | append_singleton later last =>
    rw [← List.cons_append, ← List.append_assoc] at h
    obtain ⟨hinit, -⟩ := List.append_inj' h rfl
    exact hlog past d' later hinit

/-- The firmware stands where the log says, and the log is in order. -/
structure Consistent (bus : Bus) : Prop where
  angle : bus.fw.angle = lastSet (bus.log.map Delivery.packet)
  log : LastSetWins bus.log

theorem usbFunctionSetup_follows (fw : Firmware) (data : Packet) :
    Delivery.Follows fw.angle
      { packet := data, reply := usbReply fw data, angle := (usbFunctionSetup fw data).1.angle } := by
  constructor
  · exact usbReply_get fw data
  · intro h hlen
    exact ⟨data[2], data[3], usbReply_echo fw data h hlen, or_shift_eq_leValue data[2] data[3]⟩
  · intro h
    simp only [usbFunctionSetup_angle, h, if_true]
  · intro h
    simp only [usbFunctionSetup_angle, h, if_false]

theorem deliver_consistent (bus : Bus) (data : Packet) (h : Consistent bus) :
    Consistent (deliver bus data) := by
  constructor
  · simp only [deliver, usbProcessRx_firmware, List.map_append, List.map_cons, List.map_nil,
      lastSet_concat, usbFunctionSetup_angle, h.angle]
  · apply lastSetWins_concat bus.log _ h.log
    rw [← h.angle]
    exact usbFunctionSetup_follows bus.fw data

variable {δ : Type}

theorem transfer_consistent (attempt : Attempt) (bus : Bus) (msg : ControlMsg δ)
    (h : Consistent bus) : Consistent (transfer attempt bus msg).1 := by
  rw [transfer_bus]
  exact run_invariant Consistent (fun b data hb _ => deliver_consistent b data hb) bus _ h
    (atEach_true bus _)

/-- What an IN transfer gives its client is the reply the log ends with. -/
theorem transfer_answered (attempt : Attempt) (bus : Bus) (msg : ControlMsg δ)
    (hin : msg.isIn = true) (hdone : attempt.failure = none) :
    ∃ past d, (transfer attempt bus msg).1.log = past ++ [d] ∧ d.packet = msg.packet ∧
      (transfer attempt bus msg).2 = { ret := d.reply.length, data := d.reply } := by
  refine ⟨_, _, rfl, rfl, ?_⟩
  simp only [transfer, hdone, hin, if_true]

/-- The firmware when `main` enters its loop; the reply buffer is whatever it was. -/
def bootBus (replyBuffer : Vector UInt8 8) : Bus :=
  { fw := { angle := 0, replyBuffer := replyBuffer }, log := [] }

theorem bootBus_consistent (replyBuffer : Vector UInt8 8) : Consistent (bootBus replyBuffer) := by
  constructor
  · rfl
  · intro past d later h
    cases past <;> cases h

section Clients

variable {κ α : Type} [DecidableEq κ]

/-- A client whose IN message gets through goes on with the reply the log then ends with. -/
def Answered (pool : Pool Bus κ (ControlMsg δ) Answer α) (turn : κ × Attempt) : Prop :=
  ∀ msg next, pool.clients turn.1 = .call msg next → msg.isIn = true → turn.2.failure = none →
    ∃ past d, (pool.step transfer turn).server.log = past ++ [d] ∧ d.packet = msg.packet ∧
      (pool.step transfer turn).clients turn.1 = next { ret := d.reply.length, data := d.reply }

theorem step_answered (pool : Pool Bus κ (ControlMsg δ) Answer α) (turn : κ × Attempt) :
    Answered pool turn := by
  intro msg next hcall hin hdone
  obtain ⟨past, d, hlog, hpacket, hanswer⟩ := transfer_answered turn.2 pool.server msg hin hdone
  rw [Pool.step_call transfer pool turn.1 turn.2 msg next hcall]
  refine ⟨past, d, hlog, hpacket, ?_⟩
  simp only [Function.update_self, hanswer]

/-- In every interleaving of any clients the angle set last wins, and the clients are given
what the log holds. The commands of the tool and the calls of the driver are such clients,
and so is any sender of class or vendor packets. -/
theorem last_accepted_set_wins (clients : κ → Program (ControlMsg δ) Answer α)
    (replyBuffer : Vector UInt8 8) (schedule : List (κ × Attempt)) :
    LastSetWins (run (Pool.step transfer)
        { server := bootBus replyBuffer, clients := clients } schedule).server.log ∧
      AtEach (Pool.step transfer) Answered
        { server := bootBus replyBuffer, clients := clients } schedule := by
  constructor
  · have hrun := Pool.run_server_invariant (transfer (δ := δ)) Consistent
      (fun attempt bus msg h => transfer_consistent attempt bus msg h)
      { server := bootBus replyBuffer, clients := clients } schedule (bootBus_consistent replyBuffer)
    exact hrun.log
  · exact atEach_of_forall _ schedule fun turn _ pool => step_answered pool turn

end Clients

end Servo
