import DeviceDrivers.UsbdrvWrite

/-!
# Sessions of control transfers

One transfer follows another, with a poll in between. Seen through its core the driver
is then the abstract device that serves one request after the other, and its class
and vendor requests are those the bus of the firmware delivers.
-/
namespace Usbdrv

open EventRun ByteMemory

/-- The status stage of a read, an OUT token to the device with empty data behind it,
comes after the reply. -/
def between (address : UInt8) (deaf : Bool) : Event → Option Bool
  | .packet p =>
    if p.isSetupOrOut ∧ p.pid = usbpidOut ∧ p.address = address then some false
    else if p.isData ∧ p.bytes.length < 4 then some deaf
    else elsewhere address deaf (.packet p)
  | e => elsewhere address deaf e

def Between (address : UInt8) : Bool → List Event → Prop
  | _, [] => True
  | deaf, e :: es => ∃ deaf', between address deaf e = some deaf' ∧ Between address deaf' es

/-- What is left of a transfer, with the parts of a poll that clear it away: nothing, an
empty block, or the data of a write. -/
inductive Rest (d : Driver) : List Event → Prop
  | idle (hfree : d.usbRxLen = 0) (hend : d.usbMsgLen = 0xff) : Rest d []
  | message (n : Nat) (hfree : d.usbRxLen = 0) (hmsg : Message d n [])
      (htx : d.usbTxLen = usbpidNak) : Rest d [.pollTx]
  | data (hfull : d.usbRxLen ≠ 0) (htok : d.usbRxToken ≠ usbpidSetup) (hend : d.usbMsgLen = 0xff)
      (htx : d.usbTxLen = usbpidNak) : Rest d [.pollRx, .pollTx]

structure Rested (d : Driver) : Prop where
  sound : Sound d
  address : d.usbNewDeviceAddr = d.usbDeviceAddr
  rest : ∃ due, Rest d due ∧ due.Sublist [.pollRx, .pollTx]

theorem usbInit_rested (fw : Servo.Firmware) (rx0 rx1 tx : Nat → UInt8) (ptr : MsgPtr) :
    Rested (usbInit fw rx0 rx1 tx ptr) :=
  ⟨usbInit_sound fw rx0 rx1 tx ptr, rfl, [], .idle rfl rfl, List.nil_sublist _⟩

theorem cleared_rested : Rested cleared := usbInit_rested _ _ _ _ _

variable {d d' : Driver} {due : List Event}

/-- An own OUT token takes back a block that waits; there is none that would be missed. -/
theorem Rest.token (h : Rest d due) (p : Received) (tok : UInt8) :
    Rest { d.heard p with usbCurrentTok := tok, usbTxLen := usbpidNak } due := by
  cases h with
  | idle hfree hend => exact .idle hfree hend
  | message n hfree hmsg => exact .message n hfree (hmsg.congr ⟨rfl, rfl, rfl, rfl, rfl, rfl⟩) rfl
  | data hfull htok hend => exact .data hfull htok hend rfl

theorem Rest.bystander (h : Rest d due) (hstep : Bystander d d') : Rest d' due := by
  obtain ⟨_, _, _, rfl⟩ := hstep
  cases h with
  | idle hfree hend => exact .idle hfree hend
  | message n hfree hmsg htx =>
    exact .message n hfree (hmsg.congr ⟨rfl, rfl, rfl, rfl, rfl, rfl⟩) htx
  | data hfull htok hend htx => exact .data hfull htok hend htx

/-- Everything but the part of a poll that comes next leaves the rest as it is. -/
theorem Rest.poll {e : Event} (h : Rest d due) (hd : Sound d) (he : e = .pollRx ∨ e = .pollTx) :
    ((∃ due', due = e :: due' ∧ Rest (step d e) due') ∨
        (∀ due', due ≠ e :: due') ∧ Rest (step d e) due) ∧
      (step d e).core = d.core ∧ (step d e).usbNewDeviceAddr = d.usbNewDeviceAddr := by
  cases h with
  | idle hfree hend =>
    have hstay : step d e = d := by
      rcases he with rfl | rfl
      · rw [step, usbPollRx, if_pos hfree]
      · rw [step, usbPollTx, if_neg (fun hand => hand.1 hend)]
    rw [hstay]
    exact ⟨.inr ⟨by simp, .idle hfree hend⟩, rfl, rfl⟩
  | message n hfree hmsg htx =>
    rcases he with rfl | rfl
    · rw [step, usbPollRx, if_pos hfree]
      exact ⟨.inr ⟨by simp, .message n hfree hmsg htx⟩, rfl, rfl⟩
    · have hend := hmsg.ends (by decide)
      rw [step, usbPollTx, if_pos ⟨hmsg.open, by rw [htx]; exact nak_high⟩]
      rw [usbBuildTxBlock_eq d n [] hmsg] at hend ⊢
      exact ⟨.inl ⟨[], rfl, .idle hfree hend⟩, rfl, rfl⟩
  | data hfull htok hend htx =>
    rcases he with rfl | rfl
    · obtain ⟨heq, hmsg⟩ := usbPollRx_data hd hfull htok
      rw [step]
      rw [heq] at hmsg ⊢
      exact ⟨.inl ⟨[.pollTx], rfl, .message 0 rfl hmsg htx⟩, rfl, rfl⟩
    · rw [step, usbPollTx, if_neg (fun hand => hand.1 hend)]
      exact ⟨.inr ⟨by simp, .data hfull htok hend htx⟩, rfl, rfl⟩

theorem Rest.head {e : Event} {due' : List Event} (h : Rest d (e :: due')) :
    e = .pollRx ∨ e = .pollTx := by
  cases h with
  | message => exact .inr rfl
  | data => exact .inl rfl

theorem sublist_of_ne {e : Event} {es : List Event} (h : due.Sublist (e :: es))
    (hne : ∀ due', due ≠ e :: due') : due.Sublist es := by
  cases h with
  | cons _ h => exact h
  | cons_cons => exact absurd rfl (hne _)

theorem Handled.short {p : Received} {answer : Option (List UInt8)} (h : Handled d p d' answer)
    (hdata : p.isData) (hshort : p.bytes.length < 4) : d' = d.heard p := by
  cases h with
  | ignored => rfl
  | other htoken => exact absurd htoken (isData_not_token hdata)
  | token htoken => exact absurd htoken (isData_not_token hdata)
  | handshake => rfl
  | block hin => exact absurd hdata (isIn_not_data hin)
  | refused => rfl
  | empty => rfl
  | stored _ _ _ hlong => omega

/-- What one event between two transfers can be to the device. -/
theorem between_case {e : Event} {deaf deaf' : Bool} (hd : Sound d)
    (hdeaf : deaf = true → d.usbCurrentTok = 0)
    (h : between d.usbDeviceAddr deaf e = some deaf') :
    (deaf' = true → (step d e).usbCurrentTok = 0) ∧
      ((e = .pollRx ∨ e = .pollTx ∨ Bystander d (step d e)) ∨
        ∃ p tok, e = .packet p ∧
          step d e = { d.heard p with usbCurrentTok := tok, usbTxLen := usbpidNak }) := by
  have helse : elsewhere d.usbDeviceAddr deaf e = some deaf' →
      (deaf' = true → (step d e).usbCurrentTok = 0) ∧
      ((e = .pollRx ∨ e = .pollTx ∨ Bystander d (step d e)) ∨
        ∃ p tok, e = .packet p ∧
          step d e = { d.heard p with usbCurrentTok := tok, usbTxLen := usbpidNak }) :=
    fun h => (elsewhere_step hd hdeaf h).imp_right .inl
  cases e with
  | packet p =>
    simp only [between] at h
    split_ifs at h with htoken hshort
    · obtain rfl : false = deaf' := Option.some.inj h
      exact ⟨by simp, .inr ⟨p, p.pid, rfl, (handled d p).own htoken.1 htoken.2.2⟩⟩
    · obtain rfl : deaf = deaf' := Option.some.inj h
      have heq : step d (.packet p) = d.heard p := (handled d p).short hshort.1 hshort.2
      rw [heq]
      exact ⟨hdeaf, .inl (.inr (.inr ⟨_, _, _, rfl⟩))⟩
    · exact helse h
  | overflow stored => exact helse h
  | pollRx => exact helse h
  | pollTx => exact helse h
  | pollReset first later => exact helse h

/-- Between two transfers, `es` being still to come: nothing the device is has changed. -/
structure Waiting (d0 : Driver) (es : List Event) (d : Driver) (deaf : Bool) : Prop where
  sound : Sound d
  silent : deaf = true → d.usbCurrentTok = 0
  between : Between d0.usbDeviceAddr deaf es
  core : d.core = d0.core
  usbDeviceAddr : d.usbDeviceAddr = d0.usbDeviceAddr
  usbNewDeviceAddr : d.usbNewDeviceAddr = d0.usbNewDeviceAddr

theorem waiting_step {d0 : Driver} {e : Event} {es : List Event} {deaf : Bool}
    (h : Waiting d0 (e :: es) d deaf) (hrest : Rest d due) (hsub : due.Sublist (e :: es)) :
    ∃ deaf' due', Waiting d0 es (step d e) deaf' ∧ Rest (step d e) due' ∧ due'.Sublist es := by
  obtain ⟨deaf', hstep, hlater⟩ := h.between
  obtain ⟨hsilent, hcase⟩ := between_case h.sound h.silent (h.usbDeviceAddr.symm ▸ hstep)
  have hsound := step_sound d e h.sound
  by_cases he : e = .pollRx ∨ e = .pollTx
  · obtain ⟨hrest', hcore, hnew⟩ := hrest.poll h.sound he
    have haddr := (quiet_step h.sound (he.imp_right .inl)).1
    have hnext : Waiting d0 es (step d e) deaf' :=
      ⟨hsound, hsilent, hlater, hcore.trans h.core, haddr.trans h.usbDeviceAddr,
        hnew.trans h.usbNewDeviceAddr⟩
    rcases hrest' with ⟨due', rfl, hrest'⟩ | ⟨hne, hrest'⟩
    · exact ⟨deaf', due', hnext, hrest', List.cons_sublist_cons.mp hsub⟩
    · exact ⟨deaf', due, hnext, hrest', sublist_of_ne hsub hne⟩
  · have hsub' : due.Sublist es := by
      refine sublist_of_ne hsub fun due' heq => ?_
      subst heq
      exact he hrest.head
    rcases hcase with hquiet | ⟨p, tok, rfl, heq⟩
    · have hby : Bystander d (step d e) :=
        (hquiet.resolve_left fun h => he (.inl h)).resolve_left fun h => he (.inr h)
      have hrest' := hrest.bystander hby
      obtain ⟨_, _, _, heq⟩ := hby
      rw [heq] at hsound hsilent hrest' ⊢
      exact ⟨deaf', due, ⟨hsound, hsilent, hlater, h.core, h.usbDeviceAddr, h.usbNewDeviceAddr⟩,
        hrest', hsub'⟩
    · have hrest' := hrest.token p tok
      rw [heq] at hsound hsilent ⊢
      exact ⟨deaf', due, ⟨hsound, hsilent, hlater, h.core, h.usbDeviceAddr, h.usbNewDeviceAddr⟩,
        hrest', hsub'⟩

/-- One poll in between, and there is nothing left of the last transfer. -/
theorem run_between {d0 : Driver} {es : List Event} {deaf : Bool} (h : Waiting d0 es d deaf)
    (hrest : Rest d due) (hsub : due.Sublist es) :
    (∃ deaf', Waiting d0 [] (run step d es) deaf') ∧ (run step d es).usbRxLen = 0 ∧
      (run step d es).usbMsgLen = 0xff := by
  induction es generalizing d due deaf with
  | nil =>
    rw [List.sublist_nil] at hsub
    subst hsub
    cases hrest with
    | idle hfree hend => exact ⟨⟨deaf, h⟩, hfree, hend⟩
  | cons e es ih =>
    obtain ⟨deaf', due', hnext, hrest', hsub'⟩ := waiting_step h hrest hsub
    exact ih hnext hrest' hsub'

inductive DataStage where
  | read (slots : List Slot)
  | write (chunk : Option Chunk) (slots : List OutSlot)

/-- A request with everything that happens from the transfer before it to its end. -/
structure Transfer where
  data : Servo.Packet
  before : List Event
  token : Received
  outToken : Received
  inToken : Received
  inner : List Event
  stage : DataStage

def perform (d : Driver) (t : Transfer) : Driver × Host :=
  let setup := setupStage (run step d t.before) t.token t.inner t.data
  match t.stage with
  | .read slots => run (transferStep t.data.wLength t.inToken) (setup.1, .start) slots
  | .write chunk slots =>
    let s := run (writeStep t.outToken t.inToken) (setup.1, { chunk := chunk, status := .start }) slots
    (s.1, s.2.status)

/-- Enough polls for the request, in the slots of its data stage. -/
def DataStage.Polled (address : UInt8) (outToken : Received) (reply : List UInt8) :
    DataStage → Prop
  | .read slots =>
    Elsewhere address false slots ∧
      (List.replicate (reply.length / 8 + 1) pollRound).flatten.Sublist slots
  | .write chunk slots =>
    reply = [] ∧ outToken.isOutTo address ∧ Elsewhere address false (slots.map OutSlot.kind) ∧
      (∀ i, .attempt i ∈ slots → ∀ e ∈ i, Poll e) ∧
      (outRounds chunk).Sublist (slots.map OutSlot.kind)

/-- The host addresses the device, a poll lies between the transfer before and this one,
and there are polls enough within it. Only requests without a reply are writes. -/
structure Scheduled (d : Driver) (t : Transfer) : Prop where
  before : Between d.usbDeviceAddr false t.before
  polled : [.pollRx, .pollTx].Sublist t.before
  token : t.token.isSetupTo d.usbDeviceAddr
  inToken : t.inToken.isIn ∧ t.inToken.address = d.usbDeviceAddr
  inner : ∀ e ∈ t.inner, Poll e
  stage : t.stage.Polled d.usbDeviceAddr t.outToken (replyTo d.core t.data)

/-- A transfer does what the abstract device does, and the next one may follow. -/
theorem perform_serves (d : Driver) (t : Transfer) (hd : Rested d) (ht : Scheduled d t) :
    Rested (perform d t).1 ∧ (perform d t).1.core = (served d.core t.data).1 ∧
      (perform d t).1.usbDeviceAddr = addressed d.usbDeviceAddr t.data ∧
      (perform d t).2.received = replyTo d.core t.data ∧ (perform d t).2.finished = true ∧
      (perform d t).2.failed = false := by
  obtain ⟨due, hrest, hdue⟩ := hd.rest
  obtain ⟨⟨deaf, hwait⟩, hfree, hend⟩ := run_between
    (⟨hd.sound, by simp, ht.before, rfl, rfl, rfl⟩ : Waiting d t.before d false) hrest
    (hdue.trans ht.polled)
  have hnew : (run step d t.before).usbNewDeviceAddr = (run step d t.before).usbDeviceAddr := by
    rw [hwait.usbNewDeviceAddr, hwait.usbDeviceAddr]
    exact hd.address
  have htoken : t.token.isSetupTo (run step d t.before).usbDeviceAddr := by
    rw [hwait.usbDeviceAddr]
    exact ht.token
  have hin : t.inToken.isIn ∧ t.inToken.address = (run step d t.before).usbDeviceAddr := by
    rw [hwait.usbDeviceAddr]
    exact ht.inToken
  have hstage := ht.stage
  rw [← hwait.core, ← hwait.usbDeviceAddr] at hstage ⊢
  rw [perform]
  cases hcase : t.stage with
  | read slots =>
    rw [hcase] at hstage
    have hrun := transferred (run step d t.before) t.token t.inToken t.inner t.data slots
      hwait.sound hfree hnew htoken hin ht.inner hstage.1 (.inl hend)
    have hdone := hrun.whole (hrun.ends hstage.2)
    refine ⟨⟨hdone.sound, hdone.usbNewDeviceAddr.trans hdone.usbDeviceAddr.symm, ?_⟩, hdone.core,
      hdone.usbDeviceAddr, hdone.received, hdone.finished, hdone.fine⟩
    rcases hdone.rest with hlast | ⟨n, hmsg⟩
    · exact ⟨_, .idle hdone.free hlast, List.nil_sublist _⟩
    · exact ⟨_, .message n hdone.free hmsg hdone.idle, .cons _ (List.Sublist.refl _)⟩
  | write chunk slots =>
    rw [hcase] at hstage
    have hrun := wrote (run step d t.before) t.token t.outToken t.inToken t.inner t.data chunk slots
      hwait.sound hfree hend hnew htoken hstage.2.1 hin ht.inner hstage.2.2.1 hstage.2.2.2.1 hstage.1
    have hdone := hrun.whole (hrun.ends hstage.2.2.2.2)
    refine ⟨⟨hdone.sound, hdone.usbNewDeviceAddr.trans hdone.usbDeviceAddr.symm, ?_⟩, hdone.core,
      hdone.usbDeviceAddr, hdone.received.trans hstage.1.symm, hdone.finished, hdone.fine⟩
    by_cases hrx : (run (writeStep t.outToken t.inToken)
        ((setupStage (run step d t.before) t.token t.inner t.data).1,
          { chunk := chunk, status := .start }) slots).1.usbRxLen = 0
    · rcases hdone.rest with ⟨hlast, -⟩ | ⟨-, hmsg⟩
      · exact ⟨_, .idle hrx hlast, List.nil_sublist _⟩
      · exact ⟨_, .message 0 hrx hmsg hdone.idle, .cons _ (List.Sublist.refl _)⟩
    · rcases hdone.rest with ⟨hlast, htok⟩ | ⟨hzero, -⟩
      · exact ⟨_, .data hrx (htok.resolve_left hrx) hlast hdone.idle, List.Sublist.refl _⟩
      · exact absurd hzero hrx

def performed (d : Driver) (t : Transfer) : Driver := (perform d t).1

/-- From its start on, and through a session of reads, and of writes of one packet without a
reply, with a poll between any two and polls enough within each, the driver refines the
device that serves one request after the other: after each of them its state is the same,
and the host has received the same. -/
theorem session_refines (fw : Servo.Firmware) (rx0 rx1 tx : Nat → UInt8) (ptr : MsgPtr)
    (ts : List Transfer) (hts : AtEach performed Scheduled (usbInit fw rx0 rx1 tx ptr) ts) :
    Refines performed (fun d t => (perform d t).2.received) (fun c data => (served c data).1)
      replyTo Driver.core Transfer.data id (usbInit fw rx0 rx1 tx ptr) ts := by
  rw [refines_iff_atEach]
  apply atEach_of_invariant Rested _ _ ts (usbInit_rested fw rx0 rx1 tx ptr) hts
  intro d t hd ht
  obtain ⟨hrested, hcore, -, hreceived, -, -⟩ := perform_serves d t hd ht
  exact ⟨⟨hcore, hreceived⟩, hrested⟩

/-- A token of the host; the device does not look at the sum in its last byte. -/
def tokenTo (pid address : UInt8) : Received := { bytes := [pid, address, 0x10], fits := by simp }

theorem tokenTo_address (pid address : UInt8) (h : address &&& 0x7f = address) :
    (tokenTo pid address).address = address := h

def readTransfer (address : UInt8) (data : Servo.Packet) (n : Nat) : Transfer where
  data := data
  before := [.pollRx, .pollTx]
  token := tokenTo usbpidSetup address
  outToken := tokenTo usbpidOut address
  inToken := tokenTo usbpidIn address
  inner := []
  stage := .read (List.replicate n pollRound).flatten

def writeTransfer (address : UInt8) (data : Servo.Packet) (chunk : Chunk) : Transfer where
  data := data
  before := [.pollRx, .pollTx]
  token := tokenTo usbpidSetup address
  outToken := tokenTo usbpidOut address
  inToken := tokenTo usbpidIn address
  inner := []
  stage := .write (some chunk)
    [.event .pollRx, .attempt [], .event .pollRx, .event .pollTx, .attempt []]

theorem pollRounds_elsewhere (address : UInt8) (n : Nat) :
    Elsewhere address false (List.replicate n pollRound).flatten := by
  induction n with
  | zero => trivial
  | succ n ih =>
    rw [List.replicate_succ, List.flatten_cons]
    exact ⟨false, rfl, false, rfl, ih⟩

theorem readTransfer_scheduled (d : Driver) (address : UInt8) (data : Servo.Packet) (n : Nat)
    (h : d.usbDeviceAddr = address) (hseven : address &&& 0x7f = address)
    (hn : (replyTo d.core data).length / 8 + 1 ≤ n) :
    Scheduled d (readTransfer address data n) where
  before := by simp [readTransfer, Between, between, elsewhere]
  polled := List.Sublist.refl _
  token := ⟨le_refl 3, rfl, (tokenTo_address _ _ hseven).trans h.symm⟩
  inToken := ⟨⟨le_refl 3, rfl⟩, (tokenTo_address _ _ hseven).trans h.symm⟩
  inner := by simp [readTransfer]
  stage := by
    constructor
    · exact pollRounds_elsewhere _ n
    · exact (List.replicate_sublist_replicate pollRound |>.mpr hn).flatten

theorem writeTransfer_scheduled (d : Driver) (address : UInt8) (data : Servo.Packet)
    (chunk : Chunk) (h : d.usbDeviceAddr = address) (hseven : address &&& 0x7f = address)
    (hreply : replyTo d.core data = []) : Scheduled d (writeTransfer address data chunk) where
  before := by simp [writeTransfer, Between, between, elsewhere]
  polled := List.Sublist.refl _
  token := ⟨le_refl 3, rfl, (tokenTo_address _ _ hseven).trans h.symm⟩
  inToken := ⟨⟨le_refl 3, rfl⟩, (tokenTo_address _ _ hseven).trans h.symm⟩
  inner := by simp [writeTransfer]
  stage := ⟨hreply, ⟨le_refl 3, rfl, (tokenTo_address _ _ hseven).trans h.symm⟩,
    by simp [Elsewhere, elsewhere, OutSlot.kind], by simp, List.Sublist.refl _⟩

/-- The device descriptor, 18 bytes in three blocks. -/
theorem session_refines_descriptor :
    replies performed (fun d t => (perform d t).2.received) cleared
      [readTransfer 0 #v[0x80, 6, 0, 1, 0, 0, 18, 0] 3] = [usbDescriptorDevice] := by
  have hreply : replyTo cleared.core #v[0x80, 6, 0, 1, 0, 0, 18, 0] = usbDescriptorDevice := rfl
  have hrefines := session_refines _ _ _ _ _ [readTransfer 0 #v[0x80, 6, 0, 1, 0, 0, 18, 0] 3]
    ⟨readTransfer_scheduled cleared 0 _ 3 rfl rfl (by rw [hreply]; decide), trivial⟩
  have hreplies := hrefines.replies
  rw [List.map_id] at hreplies
  exact hreplies

/-- What a session leaves the device with, from any point between two transfers on. -/
theorem run_rested (ts : List Transfer) (hd : Rested d) (hts : AtEach performed Scheduled d ts) :
    Rested (run performed d ts) ∧ (run performed d ts).usbDeviceAddr =
      run addressed d.usbDeviceAddr (ts.map Transfer.data) := by
  induction ts generalizing d with
  | nil => exact ⟨hd, rfl⟩
  | cons t ts ih =>
    obtain ⟨hrested, -, haddr, -⟩ := perform_serves d t hd hts.1
    obtain ⟨hend, hlast⟩ := ih hrested hts.2
    rw [haddr] at hlast
    exact ⟨hend, hlast⟩

/-- Through a session of reads, and of writes of one packet without a reply, with a poll
between any two and polls enough within each, the device answers at the address of the
last SET_ADDRESS, taken over before the next transfer begins, and no other request moves
it. -/
theorem session_addresses (fw : Servo.Firmware) (rx0 rx1 tx : Nat → UInt8) (ptr : MsgPtr)
    (ts : List Transfer) (hts : AtEach performed Scheduled (usbInit fw rx0 rx1 tx ptr) ts) :
    (run performed (usbInit fw rx0 rx1 tx ptr) ts).usbDeviceAddr =
      run addressed 0 (ts.map Transfer.data) :=
  (run_rested ts (usbInit_rested fw rx0 rx1 tx ptr) hts).2

def devicePacket : Servo.Packet := #v[0x80, 6, 0, 1, 0, 0, 18, 0]
def addressPacket (address : UInt8) : Servo.Packet := #v[0, 5, address, 0, 0, 0, 0, 0]

/-- How a host begins: it reads the device descriptor, and sets the address. -/
def enumeration : List Transfer :=
  [readTransfer 0 devicePacket 3, readTransfer 0 (addressPacket 5) 1]

theorem enumeration_scheduled : AtEach performed Scheduled cleared enumeration := by
  have hreply : replyTo cleared.core devicePacket = usbDescriptorDevice := rfl
  have hfirst := readTransfer_scheduled cleared 0 devicePacket 3 rfl rfl (by rw [hreply]; decide)
  have hkept : addressed cleared.usbDeviceAddr (readTransfer 0 devicePacket 3).data = 0 := by decide
  have hserves := perform_serves cleared (readTransfer 0 devicePacket 3) cleared_rested hfirst
  have haddr : (performed cleared (readTransfer 0 devicePacket 3)).usbDeviceAddr = 0 := by
    rw [performed, hserves.2.2.1, hkept]
  have hempty : ∀ c, replyTo c (addressPacket 5) = [] := fun c => rfl
  have hsecond := readTransfer_scheduled (performed cleared (readTransfer 0 devicePacket 3)) 0
    (addressPacket 5) 1 haddr rfl (by rw [hempty]; decide)
  exact ⟨hfirst, hsecond, trivial⟩

/-- SET_ADDRESS 5, behind a read at address 0. -/
theorem session_addresses_five : (run performed cleared enumeration).usbDeviceAddr = 5 := by
  have hset : run addressed 0 [devicePacket, addressPacket 5] = 5 := by decide
  have hsession := session_addresses ⟨0, Vector.replicate 8 0⟩ (fun _ => 0) (fun _ => 0)
    (fun _ => 0) ⟨.usbTxBuf, 0⟩ enumeration enumeration_scheduled
  exact hsession.trans hset

/-- Nothing is left behind in the driver, and its firmware is that of the bus. -/
structure Attached (d : Driver) (bus : Servo.Bus) : Prop where
  rested : Rested d
  fw : d.fw = bus.fw

theorem usbInit_attached (fw : Servo.Firmware) (rx0 rx1 tx : Nat → UInt8) (ptr : MsgPtr) :
    Attached (usbInit fw rx0 rx1 tx ptr) ⟨fw, []⟩ :=
  ⟨usbInit_rested fw rx0 rx1 tx ptr, rfl⟩

theorem served_standard (c : Core) (data : Servo.Packet) (h : isStandard data = true) :
    (served c data).1.fw = c.fw := by
  rw [served, if_pos h]
  split_ifs <;> rfl

theorem served_vendor (c : Core) (data : Servo.Packet) (h : isStandard data = false) :
    (served c data).1 = { c with fw := (Servo.usbProcessRx c.fw data).1 } ∧
      replyTo c data = Servo.usbReply c.fw data := by
  have hserved : served c data =
      ({ c with fw := (Servo.usbFunctionSetup c.fw data).1 },
        (Servo.usbFunctionSetup c.fw data).1.replyBuffer.toList.take
          (Servo.usbFunctionSetup c.fw data).2.toNat) := by
    simp [served, h]
  constructor
  · rw [hserved]
    rfl
  · rw [replyTo, hserved, Servo.usbReply_eq, List.take_take, Nat.min_comm]

/-- The bus of the firmware does not see a standard request. -/
theorem performed_standard {bus : Servo.Bus} {t : Transfer} (h : Attached d bus)
    (ht : Scheduled d t) (hstd : isStandard t.data = true) : Attached (performed d t) bus := by
  obtain ⟨hrested, hcore, -⟩ := perform_serves d t h.rested ht
  refine ⟨hrested, ?_⟩
  have hfw := congrArg Core.fw hcore
  rw [served_standard d.core t.data hstd] at hfw
  exact hfw.trans h.fw

/-- Any other request is one delivery on that bus, and the host receives its reply. -/
theorem performed_vendor {bus : Servo.Bus} {t : Transfer} (h : Attached d bus)
    (ht : Scheduled d t) (hvendor : isStandard t.data = false) :
    Attached (performed d t) (Servo.deliver bus t.data) ∧
      (perform d t).2.received = Servo.usbReply bus.fw t.data := by
  obtain ⟨hrested, hcore, -, hreceived, -⟩ := perform_serves d t h.rested ht
  obtain ⟨hserved, hreply⟩ := served_vendor d.core t.data hvendor
  have hsame : d.core.fw = bus.fw := h.fw
  have hfw := congrArg Core.fw (hcore.trans hserved)
  rw [hsame] at hfw hreply
  exact ⟨⟨hrested, hfw⟩, hreceived.trans hreply⟩

/-- The class and vendor requests of a session, whatever stands between them. -/
def vendorRequests (ts : List Transfer) : List Servo.Packet :=
  (ts.map Transfer.data).filter fun data => !isStandard data

theorem vendorRequests_standard (ts : List Transfer) (h : ∀ t ∈ ts, isStandard t.data = true) :
    vendorRequests ts = [] := by
  rw [vendorRequests, List.filter_eq_nil_iff]
  intro data hdata
  obtain ⟨t, ht, rfl⟩ := List.mem_map.mp hdata
  simp [h t ht]

/-- A request with what its host received for it. -/
def exchanged (d : Driver) (t : Transfer) : Servo.Packet × List UInt8 :=
  (t.data, (perform d t).2.received)

theorem run_attached {bus : Servo.Bus} (ts : List Transfer) (h : Attached d bus)
    (hts : AtEach performed Scheduled d ts) :
    Attached (run performed d ts) (run Servo.deliver bus (vendorRequests ts)) ∧
      (run Servo.deliver bus (vendorRequests ts)).log.map (fun e => (e.packet, e.reply)) =
        bus.log.map (fun e => (e.packet, e.reply)) ++
          (replies performed exchanged d ts).filter fun e => !isStandard e.1 := by
  induction ts generalizing d bus with
  | nil => exact ⟨h, by simp [vendorRequests]⟩
  | cons t ts ih =>
    cases hstd : isStandard t.data with
    | true =>
      have hsame : vendorRequests (t :: ts) = vendorRequests ts := by simp [vendorRequests, hstd]
      obtain ⟨hend, hlog⟩ := ih (performed_standard h hts.1 hstd) hts.2
      rw [hsame]
      refine ⟨hend, hlog.trans ?_⟩
      simp [exchanged, hstd]
    | false =>
      have hnext : vendorRequests (t :: ts) = t.data :: vendorRequests ts := by
        simp [vendorRequests, hstd]
      obtain ⟨hattached, hreceived⟩ := performed_vendor h hts.1 hstd
      obtain ⟨hend, hlog⟩ := ih hattached hts.2
      rw [hnext]
      refine ⟨hend, hlog.trans ?_⟩
      simp [exchanged, hstd, hreceived, Servo.deliver]

/-- In a session of such transfers, with requests of every kind, those that are not standard
arrive at the firmware as its bus delivers them, one delivery each, and what the host
received for them are the replies in the log of that bus. -/
theorem session_delivers (fw : Servo.Firmware) (rx0 rx1 tx : Nat → UInt8) (ptr : MsgPtr)
    (ts : List Transfer) (hts : AtEach performed Scheduled (usbInit fw rx0 rx1 tx ptr) ts) :
    let bus := run Servo.deliver ⟨fw, []⟩ (vendorRequests ts)
    (run performed (usbInit fw rx0 rx1 tx ptr) ts).fw = bus.fw ∧
      (replies performed exchanged (usbInit fw rx0 rx1 tx ptr) ts).filter
          (fun e => !isStandard e.1) =
        bus.log.map fun e => (e.packet, e.reply) := by
  obtain ⟨hend, hlog⟩ := run_attached ts (usbInit_attached fw rx0 rx1 tx ptr) hts
  exact ⟨hend.fw, hlog.symm⟩

def setPacket (angle : UInt8) : Servo.Packet := #v[0x40, 2, angle, 0, 0, 0, 8, 0]
def getPacket : Servo.Packet := #v[0xc0, 1, 0, 0, 0, 0, 8, 0]

def zeroChunk : Chunk := ⟨[0, 0, 0, 0, 0, 0, 0, 0], by decide, by decide⟩

theorem setPacket_vendor (angle : UInt8) : isStandard (setPacket angle) = false := by
  have htype : (setPacket angle).bmRequestType = 0x40 := rfl
  rw [isStandard, htype]
  decide

theorem setAngle_scheduled (address angle : UInt8) (h : d.usbDeviceAddr = address)
    (hseven : address &&& 0x7f = address) :
    Scheduled d (writeTransfer address (setPacket angle) zeroChunk) := by
  apply writeTransfer_scheduled d address (setPacket angle) zeroChunk h hseven
  rw [(served_vendor _ (setPacket angle) (setPacket_vendor angle)).2]
  exact Servo.usbReply_set _ (setPacket angle) rfl

theorem getAngle_scheduled (address : UInt8) (h : d.usbDeviceAddr = address)
    (hseven : address &&& 0x7f = address) : Scheduled d (readTransfer address getPacket 1) := by
  apply readTransfer_scheduled d address getPacket 1 h hseven
  rw [(served_vendor _ getPacket rfl).2, Servo.usbReply_get _ getPacket rfl (by decide)]
  simp

def angleSession : List Transfer :=
  [writeTransfer 5 (setPacket 90) zeroChunk, readTransfer 5 getPacket 1]

theorem enumeration_rested :
    Rested (run performed cleared enumeration) ∧
      (run performed cleared enumeration).usbDeviceAddr = 5 := by
  obtain ⟨hrested, haddr⟩ := run_rested enumeration cleared_rested enumeration_scheduled
  have hset : run addressed cleared.usbDeviceAddr (enumeration.map Transfer.data) = 5 := by decide
  exact ⟨hrested, haddr.trans hset⟩

theorem angleSession_scheduled (hd : Rested d) (haddr : d.usbDeviceAddr = 5) :
    AtEach performed Scheduled d angleSession := by
  have hset := setAngle_scheduled 5 90 haddr rfl
  obtain ⟨-, hlast⟩ := run_rested [writeTransfer 5 (setPacket 90) zeroChunk] hd ⟨hset, trivial⟩
  have hkept : run addressed 5 [setPacket 90] = 5 := by decide
  rw [haddr] at hlast
  exact ⟨hset, getAngle_scheduled 5 (hlast.trans hkept) rfl, trivial⟩

/-- The servo is enumerated, its angle is set at its new address, and read back there. -/
theorem session_delivers_angle :
    (replies performed exchanged cleared (enumeration ++ angleSession)).filter
        (fun e => !isStandard e.1) = [(setPacket 90, []), (getPacket, [90])] := by
  have hscheduled : AtEach performed Scheduled cleared (enumeration ++ angleSession) :=
    (atEach_append Scheduled cleared enumeration angleSession).mpr ⟨enumeration_scheduled,
      angleSession_scheduled enumeration_rested.1 enumeration_rested.2⟩
  have hdelivers := session_delivers ⟨0, Vector.replicate 8 0⟩ (fun _ => 0) (fun _ => 0)
    (fun _ => 0) ⟨.usbTxBuf, 0⟩ (enumeration ++ angleSession) hscheduled
  exact hdelivers.2.trans (by decide)

end Usbdrv
