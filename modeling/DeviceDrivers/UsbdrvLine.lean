import DeviceDrivers.UsbdrvDelivery
import DeviceDrivers.UsbdrvLoopback

/-!
# The driver on the line

An interrupt samples the line until its packet ends, handles what it stored, and drives
the line with the answer. Over any run of packets and polls the driver does what it does
with whole packets, and a receiver at the other end stores its answers.
-/
namespace Usbdrv

open EventRun LineCode

/-- What an interrupt finds: the samples from the edge it caught on, and whatever the
registers of the receiver and of the transmitter hold. -/
structure Interrupt where
  regs : RxRegs
  samples : List (BitVec 8)
  x2 : BitVec 8
  carry : Bool

/-- The ways out of the receiver loop; an error in the sync byte is ignored. -/
def RxState.event : RxState → Option Event
  | .se0 stored => if h : stored.length ≤ 11 then some (.packet ⟨stored, h⟩) else none
  | .overflow stored => if h : stored.length ≤ 11 then some (.overflow ⟨stored, h⟩) else none
  | _ => none

def Interrupt.event (i : Interrupt) : Option Event :=
  (run rxStep (shortcutEntry i.regs) i.samples).event

/-- The driver and its port. -/
structure Line where
  driver : Driver
  port : BitVec 8

inductive LineEvent where
  | interrupt (i : Interrupt)
  | pollRx
  | pollTx
  | pollReset (first : Bool) (later : Fin 100 → Bool)

/-- `usbSendAndReti`, where there is something to send. -/
def Line.answer (s : Line) (i : Interrupt) (e : Event) : Line :=
  match sent s.driver e with
  | some y => { driver := step s.driver e, port := portAfter s.port i.x2 i.carry y }
  | none => { s with driver := step s.driver e }

def lineStep (s : Line) : LineEvent → Line
  | .interrupt i =>
    match i.event with
    | some e => s.answer i e
    | none => s
  | .pollRx => { s with driver := usbPollRx s.driver }
  | .pollTx => { s with driver := usbPollTx s.driver }
  | .pollReset first later => { s with driver := usbPollReset s.driver first later }

/-- What the driver puts on the line within an event. -/
def driven (s : Line) : LineEvent → List (BitVec 8)
  | .interrupt i =>
    match i.event.bind (sent s.driver) with
    | some y => usbSendAndReti s.port i.x2 i.carry y
    | none => []
  | _ => []

theorem take_fits (data : List UInt8) : (data.take 11).length ≤ 11 := List.length_take_le 11 data

/-- The event on the line, and the event it is to the driver. -/
inductive Frames : LineEvent → Event → Prop
  | packet (i : Interrupt) (m : Nat) (p : Received) (samples idle : List (BitVec 8))
      (x y : BitVec 8) (hpos : p.bytes ≠ []) (hline : Carries samples m (wireBits p.bytes))
      (hend : pins y = .se0) (hsamples : i.samples = samples ++ x :: y :: idle) :
      Frames (.interrupt i) (.packet p)
  | long (i : Interrupt) (m : Nat) (data : List UInt8) (samples rest : List (BitVec 8))
      (hlong : 11 < data.length) (hline : Carries samples m (wireBits data))
      (hsamples : i.samples = samples ++ rest) :
      Frames (.interrupt i) (.overflow ⟨data.take 11, take_fits data⟩)
  | pollRx : Frames .pollRx .pollRx
  | pollTx : Frames .pollTx .pollTx
  | pollReset (first : Bool) (later : Fin 100 → Bool) :
      Frames (.pollReset first later) (.pollReset first later)

/-- The samples are a packet in the line code that any receiver stores, whichever edge
of the sync byte it catches; without an answer the line is left alone. -/
def Hears (out : List (BitVec 8)) : Option (List UInt8) → Prop
  | none => out = []
  | some y => out.map pins = (packetLevels y).map .ofLevel ++ [.se0, .se0, .j] ∧
      ∀ r j, j < 4 → run rxStep (shortcutEntry r) (out.drop (2 * j + 1)) = .se0 y

theorem Frames.event {i : Interrupt} {e : Event} (h : Frames (.interrupt i) e) :
    i.event = some e := by
  rw [Interrupt.event]
  cases h with
  | packet _ m p samples idle x y hpos hline hend hsamples =>
    rw [hsamples, receive_stores i.regs m p.bytes samples hpos p.fits hline x y hend idle]
    exact dif_pos p.fits
  | long _ m data samples rest hlong hline hsamples =>
    rw [hsamples, receive_drops i.regs m data samples hlong hline rest]
    exact dif_pos (take_fits data)

/-- Every answer is a packet the buffers at the other end can hold. -/
theorem Sound.sent_fits {d : Driver} (h : Sound d) {e : Event} {y : List UInt8}
    (hsent : sent d e = some y) : y ≠ [] ∧ y.length ≤ 11 := by
  cases e with
  | packet p =>
    have hhandled := handled d p
    rw [sent] at hsent
    rw [hsent] at hhandled
    generalize (usbInterrupt d p).1 = d' at hhandled
    cases hhandled with
    | handshake => exact ⟨List.cons_ne_nil _ _, by simp⟩
    | refused => exact ⟨List.cons_ne_nil _ _, by simp⟩
    | empty => exact ⟨List.cons_ne_nil _ _, by simp⟩
    | stored => exact ⟨List.cons_ne_nil _ _, by simp⟩
    | block hin haddr hwait =>
      have hnak : usbpidNak &&& 0x10 ≠ 0 := by decide
      obtain ⟨hlow, hhigh⟩ := h.txLen.resolve_left fun heq => hnak (heq ▸ hwait)
      have hlen : (ByteMemory.load d.usbTxBuf 0 (d.usbTxLen.toNat - 1)).length =
          d.usbTxLen.toNat - 1 := ByteMemory.load_length _ _ _
      constructor
      · intro hnil
        rw [hnil, List.length_nil] at hlen
        omega
      · omega
  | overflow => cases hsent
  | pollRx => cases hsent
  | pollTx => cases hsent
  | pollReset => cases hsent

/-- The transmitter finds the pull-up off, and leaves it off. -/
structure Line.Ready (s : Line) (d : Driver) : Prop where
  driver : s.driver = d
  sound : Sound d
  plus : s.port.getLsbD usbPlus = false

theorem line_step {s : Line} {d : Driver} {l : LineEvent} {e : Event} (h : s.Ready d)
    (hframes : Frames l e) : (lineStep s l).Ready (step d e) ∧ Hears (driven s l) (sent d e) := by
  obtain ⟨rfl, hsound, hplus⟩ := h
  have hnext := step_sound s.driver e hsound
  cases l with
  | interrupt i =>
    have hevent := hframes.event
    simp only [lineStep, driven, hevent, Option.bind_some, Line.answer]
    cases hsent : sent s.driver e with
    | none => exact ⟨⟨rfl, hnext, hplus⟩, rfl⟩
    | some y =>
      obtain ⟨hpos, hlen⟩ := hsound.sent_fits hsent
      refine ⟨⟨rfl, hnext, portAfter_plus _ _ _ _⟩, transmit_pins _ _ _ _ hplus, fun r j hj => ?_⟩
      obtain ⟨samples, x, y', idle, hsplit, hsamples, hy⟩ :=
        transmitted_carries _ _ _ y j hplus hj
      rw [hsplit]
      exact receive_stores r (3 - j) y samples hpos hlen hsamples x y' hy idle
  | pollRx =>
    cases hframes
    exact ⟨⟨rfl, hnext, hplus⟩, rfl⟩
  | pollTx =>
    cases hframes
    exact ⟨⟨rfl, hnext, hplus⟩, rfl⟩
  | pollReset first later =>
    cases hframes
    exact ⟨⟨rfl, hnext, hplus⟩, rfl⟩

theorem line_run {s : Line} {d : Driver} {ls : List LineEvent} {es : List Event} (h : s.Ready d)
    (hframes : List.Forall₂ Frames ls es) :
    (run lineStep s ls).Ready (run step d es) ∧
      List.Forall₂ Hears (replies lineStep driven s ls) (replies step sent d es) := by
  induction hframes generalizing s d with
  | nil => exact ⟨h, .nil⟩
  | cons hhead _ ih =>
    obtain ⟨hnext, hhears⟩ := line_step h hhead
    obtain ⟨hend, hrest⟩ := ih hnext
    exact ⟨hend, .cons hhears hrest⟩

/-- From its start on and over every run of packets on the line, of any length and
caught at any edge, and of polls in between, the driver is where whole packets would
have brought it, and each answer is stored at the other end as it was given. -/
theorem line_refines (fw : Servo.Firmware) (rx0 rx1 tx : Nat → UInt8) (ptr : MsgPtr)
    (port : BitVec 8) (ls : List LineEvent) (es : List Event)
    (hport : port.getLsbD usbPlus = false) (hframes : List.Forall₂ Frames ls es) :
    (run lineStep ⟨usbInit fw rx0 rx1 tx ptr, port⟩ ls).driver =
        run step (usbInit fw rx0 rx1 tx ptr) es ∧
      List.Forall₂ Hears (replies lineStep driven ⟨usbInit fw rx0 rx1 tx ptr, port⟩ ls)
        (replies step sent (usbInit fw rx0 rx1 tx ptr) es) := by
  have hstart : Line.Ready ⟨usbInit fw rx0 rx1 tx ptr, port⟩ (usbInit fw rx0 rx1 tx ptr) :=
    ⟨rfl, usbInit_sound fw rx0 rx1 tx ptr, hport⟩
  obtain ⟨hend, hhears⟩ := line_run hstart hframes
  exact ⟨hend.driver, hhears⟩

/-- The interrupt that another transmitter's packet causes. -/
def transmission (p : Received) (j : Nat) : Interrupt where
  regs := someRegs
  samples := (usbSendAndReti 0xa9#8 0xff#8 true p.bytes).drop (2 * j + 1)
  x2 := 0x5a#8
  carry := false

theorem transmission_frames (p : Received) (j : Nat) (hpos : p.bytes ≠ []) (hj : j < 4) :
    Frames (.interrupt (transmission p j)) (.packet p) := by
  obtain ⟨samples, x, y, idle, hsplit, hsamples, hy⟩ :=
    transmitted_carries 0xa9#8 0xff#8 true p.bytes j (by decide) hj
  exact .packet _ (3 - j) p samples idle x y hpos hsamples hy hsplit

/-- An IN token on the line to a device that was never spoken to. -/
theorem line_refines_in :
    List.Forall₂ Hears (replies lineStep driven ⟨cleared, 0xa9#8⟩
      [.pollTx, .interrupt (transmission inToken 2)]) [none, some [usbpidNak]] := by
  have hframes : List.Forall₂ Frames [.pollTx, .interrupt (transmission inToken 2)]
      [.pollTx, .packet inToken] :=
    .cons .pollTx (.cons (transmission_frames inToken 2 (by decide) (by decide)) .nil)
  have hrefines := line_refines ⟨0, Vector.replicate 8 0⟩ (fun _ => 0) (fun _ => 0) (fun _ => 0)
    ⟨.usbTxBuf, 0⟩ 0xa9#8 _ _ (by decide) hframes
  have hreplies : replies step sent cleared [.pollTx, .packet inToken] =
      [none, some [usbpidNak]] := by decide
  rw [← hreplies]
  exact hrefines.2

end Usbdrv
