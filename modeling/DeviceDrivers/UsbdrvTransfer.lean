import DeviceDrivers.UsbdrvControl

/-!
# Control transfers, whole

The SETUP packet reaches the main loop, and the reply reaches the host whole in
whatever order packets and polls come, unless a block of an older message is built
between the SETUP token and its processing. Then the host is sent that block.
-/
namespace Usbdrv

open EventRun ByteMemory

/-- A SETUP packet as the host builds it. -/
def setupData (data : Servo.Packet) : Received :=
  { bytes := usbpidData0 :: usbCrc16Append data.toList, fits := by simp [usbCrc16Append] }

def setupStage (d : Driver) (token : Received) (inner : List Event) (data : Servo.Packet) :
    Driver × Option (List UInt8) :=
  usbInterrupt (run step (usbInterrupt d token).1 inner) (setupData data)

theorem setupData_length (data : Servo.Packet) : (setupData data).bytes.length = 11 := by
  simp [setupData, usbCrc16Append]

theorem setupData_isData (data : Servo.Packet) : (setupData data).isData :=
  ⟨by rw [setupData_length]; omega, rfl⟩

theorem setupData_setup (data : Servo.Packet) : (setupData data).setup = data := by
  apply Vector.ext
  intro i hi
  simp only [Received.setup, Vector.getElem_ofFn, setupData, usbCrc16Append, Nat.add_comm 1 i,
    List.getD_eq_getElem?_getD, List.getElem?_cons_succ]
  rw [List.getElem?_append_left (by simpa using hi)]
  simp [hi]

def Received.isSetupTo (p : Received) (address : UInt8) : Prop :=
  3 ≤ p.bytes.length ∧ p.pid = usbpidSetup ∧ p.address = address

/-- The token has been heard and the packet behind it not yet. -/
structure Listening (d0 d : Driver) : Prop where
  sound : Sound d
  free : d.usbRxLen = 0
  token : d.usbCurrentTok = usbpidSetup
  core : d.core = d0.core
  usbDeviceAddr : d.usbDeviceAddr = d0.usbDeviceAddr
  usbNewDeviceAddr : d.usbNewDeviceAddr = d0.usbNewDeviceAddr

theorem Handled.own {d d' : Driver} {p : Received} {answer : Option (List UInt8)}
    (h : Handled d p d' answer) (htoken : p.isSetupOrOut) (haddr : p.address = d.usbDeviceAddr) :
    d' = { d.heard p with usbCurrentTok := p.pid, usbTxLen := usbpidNak } := by
  cases h with
  | ignored hnot => exact absurd htoken hnot
  | other _ hother => exact absurd haddr hother
  | token => rfl
  | handshake hin => exact absurd htoken (isIn_not_token hin)
  | block hin => exact absurd htoken (isIn_not_token hin)
  | refused hdata => exact absurd htoken (isData_not_token hdata)
  | empty hdata => exact absurd htoken (isData_not_token hdata)
  | stored hdata => exact absurd htoken (isData_not_token hdata)

theorem Handled.stores {d d' : Driver} {p : Received} {answer : Option (List UInt8)}
    (h : Handled d p d' answer) (hdata : p.isData) (htok : d.usbCurrentTok ≠ 0)
    (hfree : d.usbRxLen = 0) (hlong : 4 ≤ p.bytes.length) :
    d' = { d with
        usbRxLen := UInt8.ofNat p.bytes.length, usbRxToken := d.usbCurrentTok
        appBuf := store d.inputBuf 0 p.bytes, inputBuf := d.appBuf } ∧
      answer = some [usbpidAck] := by
  cases h with
  | ignored _ _ hdeaf => exact absurd (hdeaf hdata) htok
  | other htoken => exact absurd htoken (isData_not_token hdata)
  | token htoken => exact absurd htoken (isData_not_token hdata)
  | handshake hin => exact absurd hdata (isIn_not_data hin)
  | block hin => exact absurd hdata (isIn_not_data hin)
  | refused _ _ hfull => exact absurd hfree hfull
  | empty _ _ _ hshort => omega
  | stored => exact ⟨rfl, rfl⟩

/-- Of a poll that finds nothing to process only the part that builds blocks does anything. -/
theorem poll_quiet {d : Driver} {e : Event} (he : Poll e) (hrx : e = .pollRx → d.usbRxLen = 0) :
    e = .pollTx ∨ Bystander d (step d e) := by
  cases e with
  | packet p => exact absurd he id
  | overflow stored => exact .inr ⟨_, _, _, rfl⟩
  | pollRx =>
    rw [step, usbPollRx, if_pos (hrx rfl)]
    exact .inr ⟨_, _, _, rfl⟩
  | pollTx => exact .inl rfl
  | pollReset first later => exact .inr (pollReset_bystander d first later he)

theorem poll_case {d : Driver} {e : Event} (he : Poll e) :
    e = .pollRx ∨ e = .pollTx ∨ Bystander d (step d e) := by
  by_cases hrx : e = .pollRx
  · exact .inl hrx
  · exact .inr (poll_quiet he fun h => absurd h hrx)

theorem poll_listening {d0 d : Driver} {e : Event} (h : Listening d0 d) (he : Poll e) :
    Listening d0 (step d e) := by
  have hsound := step_sound d e h.sound
  have htok := (poll_token e h.sound (fun p hp => by rw [hp] at he; exact he)).trans h.token
  rcases poll_quiet he fun _ => h.free with rfl | ⟨_, _, _, heq⟩
  · obtain ⟨_, _, _, _, _, heq⟩ := usbPollTx_frame h.sound
    rw [step, heq] at hsound htok ⊢
    exact ⟨hsound, h.free, htok, h.core, h.usbDeviceAddr, h.usbNewDeviceAddr⟩
  · rw [heq] at hsound htok ⊢
    exact ⟨hsound, h.free, htok, h.core, h.usbDeviceAddr, h.usbNewDeviceAddr⟩

theorem run_listening {d0 d : Driver} {inner : List Event} (h : Listening d0 d)
    (hpoll : ∀ e ∈ inner, Poll e) : Listening d0 (run step d inner) :=
  run_invariant (Listening d0) (fun _ _ => poll_listening) d inner h
    ((atEach_mem Poll d inner).mpr hpoll)

/-- With no message to send, or without the part of the poll that sends it, nothing is built. -/
theorem run_unbuilt {d0 d : Driver} {inner : List Event} (h : Listening d0 d)
    (hpoll : ∀ e ∈ inner, Poll e) (hfresh : d.usbMsgLen = 0xff ∨ .pollTx ∉ inner)
    (htx : d.usbTxLen = usbpidNak) :
    (run step d inner).usbTxLen = usbpidNak ∧ (run step d inner).usbMsgLen = d.usbMsgLen := by
  induction inner generalizing d with
  | nil => exact ⟨htx, rfl⟩
  | cons e inner ih =>
    have he := hpoll e List.mem_cons_self
    have hsame : (step d e).usbTxLen = usbpidNak ∧ (step d e).usbMsgLen = d.usbMsgLen := by
      rcases poll_quiet he fun _ => h.free with rfl | ⟨_, _, _, heq⟩
      · have hend := hfresh.resolve_right fun hnot => hnot List.mem_cons_self
        rw [step, usbPollTx, if_neg (fun h => h.1 hend)]
        exact ⟨htx, rfl⟩
      · rw [heq]
        exact ⟨htx, rfl⟩
    have hrest := ih (poll_listening h he) (fun e' he' => hpoll e' (List.mem_cons_of_mem e he'))
      (hfresh.imp (fun hend => hsame.2.trans hend) fun hnot hmem =>
        hnot (List.mem_cons_of_mem e hmem)) hsame.1
    exact ⟨hrest.1, hrest.2.trans hsame.2⟩

theorem setup_listening {d : Driver} (token : Received) (hd : Sound d) (hfree : d.usbRxLen = 0)
    (htoken : token.isSetupTo d.usbDeviceAddr) :
    Listening d (usbInterrupt d token).1 ∧
      (usbInterrupt d token).1 =
        { d.heard token with usbCurrentTok := usbpidSetup, usbTxLen := usbpidNak } := by
  have heq := (handled d token).own ⟨htoken.1, .inl htoken.2.1⟩ htoken.2.2
  rw [htoken.2.1] at heq
  have hsound := (handled d token).sound hd
  rw [heq] at hsound ⊢
  exact ⟨⟨hsound, hfree, rfl, rfl, rfl, rfl⟩, rfl⟩

/-- The packet behind the token is acknowledged and waits where the next poll finds it. -/
theorem data_stored {d0 d : Driver} (h : Listening d0 d) (data : Servo.Packet) :
    usbInterrupt d (setupData data) =
      ({ d with
          usbRxLen := 11, usbRxToken := usbpidSetup
          appBuf := store d.inputBuf 0 (setupData data).bytes, inputBuf := d.appBuf },
        some [usbpidAck]) := by
  have hlen := setupData_length data
  obtain ⟨hstate, hack⟩ := (handled d (setupData data)).stores (setupData_isData data)
    (by rw [h.token]; decide) h.free (by omega)
  refine Prod.ext (hstate.trans ?_) hack
  simp only [hlen, h.token]
  rfl

theorem data_appData {d0 d : Driver} (h : Listening d0 d) (data : Servo.Packet) :
    (usbInterrupt d (setupData data)).1.appData = data := by
  rw [data_stored h data, stored_appData _ (setupData data) d.inputBuf rfl (setupData_length data),
    setupData_setup]

/-- No block of an older message is built before the request is processed. -/
def Fresh (d : Driver) (inner : List Event) (slots : List Slot) : Prop :=
  d.usbMsgLen = 0xff ∨ .pollTx ∉ inner ∧ RxFirst slots

theorem setupStage_owes {d : Driver} (token : Received) (inner : List Event) (data : Servo.Packet)
    (slots : List Slot) (hd : Sound d) (hfree : d.usbRxLen = 0)
    (htoken : token.isSetupTo d.usbDeviceAddr) (hinner : ∀ e ∈ inner, Poll e)
    (hfresh : Fresh d inner slots) :
    (setupStage d token inner data).2 = some [usbpidAck] ∧
      Sound (setupStage d token inner data).1 ∧
      (setupStage d token inner data).1.usbDeviceAddr = d.usbDeviceAddr ∧
      Owes (replyTo d.core data) (served d.core data).1 (addressed d.usbNewDeviceAddr data) 0
        (setupStage d token inner data).1 slots .pending := by
  obtain ⟨hheard, heq⟩ := setup_listening token hd hfree htoken
  have hready := run_listening hheard hinner
  obtain ⟨htx, hlen⟩ := run_unbuilt hheard hinner
    (hfresh.imp (fun hend => by rw [heq]; exact hend) And.left) (by rw [heq])
  have hstage := data_stored hready data
  have happ := data_appData hready data
  have hsound := (handled _ (setupData data)).sound hready.sound
  rw [setupStage]
  generalize run step (usbInterrupt d token).1 inner = r at hready htx hlen hstage happ hsound ⊢
  have hcore : (usbInterrupt r (setupData data)).1.core = d.core := by
    rw [hstage]
    exact hready.core
  have hnew : (usbInterrupt r (setupData data)).1.usbNewDeviceAddr = d.usbNewDeviceAddr := by
    rw [hstage]
    exact hready.usbNewDeviceAddr
  refine ⟨by rw [hstage], hsound, by rw [hstage]; exact hready.usbDeviceAddr, ?_⟩
  refine .pending rfl (by rw [hstage]) (by rw [hstage]) (by rw [hstage]; exact htx) ?_ ?_ ?_ ?_
  · refine hfresh.imp (fun hend => ?_) And.right
    rw [hstage]
    exact hlen.trans (by rw [heq]; exact hend)
  · rw [hcore, happ]
  · rw [hcore, happ]
  · rw [hnew, happ]

/-- One poll and one attempt of the host behind it. -/
def pollRound : List Slot := [.event .pollRx, .event .pollTx, .attempt]

theorem rounds_sublist (n : Nat) : (rounds n).Sublist (List.replicate n pollRound).flatten := by
  induction n with
  | zero => exact List.Sublist.refl _
  | succ n ih =>
    rw [List.replicate_succ, List.flatten_cons]
    exact .cons _ (.cons_cons _ (.cons_cons _ ih))

theorem due_pending_sublist (full : List UInt8) :
    (Phase.pending.due full 0).Sublist
      (List.replicate (full.length / 8 + 1) pollRound).flatten := by
  rw [Phase.due, Nat.sub_zero, List.replicate_succ, List.flatten_cons]
  exact .cons_cons _ (.cons_cons _ (.cons_cons _ (rounds_sublist _)))

/-- A SET_ADDRESS has no data, so no block goes out under the old address behind it. -/
theorem addressed_or_short (c : Core) (address : UInt8) (data : Servo.Packet) :
    addressed address data = address ∨ (replyTo c data).length < 8 := by
  by_cases hset : isStandard data = true ∧ data.bRequest = usbrqSetAddress
  · refine .inr ?_
    have hserved : (served c data).2 = [] := by
      simp [served, hset.1, hset.2, usbrqSetAddress, usbrqGetStatus, usbrqGetDescriptor,
        usbrqGetConfiguration, usbrqSetConfiguration, usbrqGetInterface]
    rw [replyTo, hserved, List.take_nil]
    decide
  · exact .inl (if_neg hset)

/-- What a control transfer comes to, `acked` being the answer to its SETUP packet. -/
structure Transferred (d : Driver) (data : Servo.Packet) (slots : List Slot)
    (acked : Option (List UInt8)) (s : Driver × Host) : Prop where
  acknowledged : acked = some [usbpidAck]
  fine : s.2.failed = false
  part : s.2.received <+: replyTo d.core data
  whole : s.2.finished = true →
    Completed (replyTo d.core data) (served d.core data).1 (addressed d.usbDeviceAddr data) s
  ends : (List.replicate ((replyTo d.core data).length / 8 + 1) pollRound).flatten.Sublist slots →
    s.2.finished = true

theorem transferred (d : Driver) (token inToken : Received) (inner : List Event)
    (data : Servo.Packet) (slots : List Slot) (hd : Sound d) (hfree : d.usbRxLen = 0)
    (haddr : d.usbNewDeviceAddr = d.usbDeviceAddr) (htoken : token.isSetupTo d.usbDeviceAddr)
    (hin : inToken.isIn ∧ inToken.address = d.usbDeviceAddr) (hinner : ∀ e ∈ inner, Poll e)
    (helsewhere : Elsewhere d.usbDeviceAddr false slots) (hfresh : Fresh d inner slots) :
    Transferred d data slots (setupStage d token inner data).2
      (run (transferStep data.wLength inToken) ((setupStage d token inner data).1, .start)
        slots) := by
  obtain ⟨hacked, hsound, haddress, howes⟩ :=
    setupStage_owes token inner data slots hd hfree htoken hinner hfresh
  have hasked : (replyTo d.core data).length ≤ data.wLength := by
    rw [replyTo, List.length_take]
    omega
  have hstart : Underway (replyTo d.core data) (served d.core data).1
      (addressed d.usbNewDeviceAddr data) d.usbDeviceAddr slots
      ((setupStage d token inner data).1, .start) .pending false :=
    ⟨hsound, haddress, by simp, helsewhere, howes, by simp [Host.start], rfl, rfl⟩
  rw [haddr] at hstart
  rcases run_underway data.wLength inToken hasked (addressed_or_short _ _ _) hin.1 hin.2 hstart with
    hdone | ⟨⟨phase, deaf, hmore⟩, hnot⟩
  · exact ⟨hacked, hdone.fine, by rw [hdone.received], fun _ => hdone, fun _ => hdone.finished⟩
  · refine ⟨hacked, hmore.fine, ?_, fun hend => ?_, fun hall => ?_⟩
    · rw [hmore.received]
      exact List.take_prefix _ _
    · rw [hmore.unfinished] at hend
      exact absurd hend (by decide)
    · exact absurd ((due_pending_sublist _).trans hall) hnot

/-- Of an older message the next block is still to be built, or it waits to be sent. -/
inductive Stale (n : Nat) (rest : List UInt8) (d : Driver) : Bool → Prop
  | unbuilt (hmsg : Message d n rest) (htx : d.usbTxLen = usbpidNak) : Stale n rest d false
  | built (hblock : Block d (blockToken n) (rest.take 8)) : Stale n rest d true

variable {n : Nat} {rest : List UInt8} {built : Bool}

theorem Stale.bystander {d' : Driver} (h : Stale n rest d built) (hstep : Bystander d d') :
    Stale n rest d' built := by
  obtain ⟨_, _, _, rfl⟩ := hstep
  cases h with
  | unbuilt hmsg htx => exact .unbuilt (hmsg.congr ⟨rfl, rfl, rfl, rfl, rfl, rfl⟩) htx
  | built hblock => exact .built { hblock with }

theorem Stale.pollTx (h : Stale n rest d built) : Stale n rest (usbPollTx d) true := by
  cases h with
  | unbuilt hmsg htx =>
    have hidle : d.usbMsgLen ≠ 0xff ∧ d.usbTxLen &&& 0x10 ≠ 0 :=
      ⟨hmsg.open, by rw [htx]; exact nak_high⟩
    rw [usbPollTx, if_pos hidle]
    exact .built hmsg.block
  | built hblock =>
    rw [usbPollTx, if_neg (fun h => h.2 hblock.tx_low)]
    exact .built hblock

end Usbdrv
