import DeviceDrivers.UsbdrvDelivery

/-!
# Control transfers

Behind a SETUP packet the host asks for the reply block by block, again while the
device answers NAK. Packets for other devices and the parts of `usbPoll` fall
anywhere in between. At any time the request is not yet processed, or a block of the
reply is still in the message, or it waits in the transmit buffer.
-/
namespace Usbdrv

open EventRun ByteMemory

/-- What the host has of a reply, block by block. -/
structure Host where
  received : List UInt8
  blocks : Nat
  finished : Bool
  failed : Bool

def Host.start : Host := { received := [], blocks := 0, finished := false, failed := false }

/-- The data of a packet that has the token that is due and a correct sum. -/
def accepted (blocks : Nat) : List UInt8 → Option (List UInt8)
  | [] => none
  | token :: rest =>
    let data := rest.take (rest.length - 2)
    if token = blockToken blocks ∧ rest = usbCrc16Append data ∧ data.length ≤ 8 then some data
    else none

/-- One answer to an IN. A short block ends the reply, and so does the last byte asked for. -/
def hostIn (asked : Nat) (h : Host) : Option (List UInt8) → Host
  | none => { h with failed := true }
  | some packet =>
    if packet = [usbpidNak] then h
    else match accepted h.blocks packet with
      | none => { h with failed := true }
      | some data =>
        { h with
          received := h.received ++ data, blocks := h.blocks + 1
          finished := decide (data.length < 8 ∨ asked ≤ (h.received ++ data).length) }

/-- What happens on the bus and in the device while the host waits for the reply. -/
inductive Slot where
  | event (e : Event)
  | attempt

def transferStep (asked : Nat) (inToken : Received) (s : Driver × Host) (slot : Slot) :
    Driver × Host :=
  if s.2.finished then s
  else match slot with
    | .event e => (step s.1 e, s.2)
    | .attempt =>
      ((usbInterrupt s.1 inToken).1, hostIn asked s.2 (usbInterrupt s.1 inToken).2)

/-- The parts of a poll that see no bus reset, and packets that overflow. -/
def Poll : Event → Prop
  | .packet _ => False
  | .pollReset first later => first = true ∨ ∃ i, later i = true
  | _ => True

/-- Behind a token for another device the device is deaf to data. -/
def elsewhere (address : UInt8) (deaf : Bool) : Event → Option Bool
  | .packet p =>
    if p.isSetupOrOut then if p.address = address then none else some true
    else if p.isIn then if p.address = address then none else some deaf
    else if p.isData ∧ deaf = false then none
    else some deaf
  | .pollReset first later => if first = true ∨ ∃ i, later i = true then some deaf else none
  | _ => some deaf

def Elsewhere (address : UInt8) : Bool → List Slot → Prop
  | _, [] => True
  | _, .attempt :: slots => Elsewhere address false slots
  | deaf, .event e :: slots =>
    ∃ deaf', elsewhere address deaf e = some deaf' ∧ Elsewhere address deaf' slots

/-- A step that left everything but the listening alone. -/
def Bystander (d d' : Driver) : Prop :=
  ∃ input tok reset, d' = { d with inputBuf := input, usbCurrentTok := tok, usbIsReset := reset }

theorem pollReset_bystander (d : Driver) (first : Bool) (later : Fin 100 → Bool)
    (h : first = true ∨ ∃ i, later i = true) : Bystander d (usbPollReset d first later) := by
  unfold usbPollReset
  split_ifs with hfirst hreset hlater
  · exact ⟨d.inputBuf, d.usbCurrentTok, false, rfl⟩
  · exact ⟨d.inputBuf, d.usbCurrentTok, d.usbIsReset, rfl⟩
  · exact ⟨d.inputBuf, d.usbCurrentTok, d.usbIsReset, rfl⟩
  · exact absurd h (by simp [hfirst, hlater])

theorem elsewhere_data {address : UInt8} {deaf deaf' : Bool} {p : Received} (hdata : p.isData)
    (h : elsewhere address deaf (.packet p) = some deaf') : deaf = true := by
  have hin : ¬ p.isIn := fun hin => isIn_not_data hin hdata
  simp only [elsewhere, if_neg (isData_not_token hdata), if_neg hin] at h
  split_ifs at h with hhears
  simpa [hdata] using hhears

theorem elsewhere_step {d : Driver} {e : Event} {deaf deaf' : Bool} (hd : Sound d)
    (hdeaf : deaf = true → d.usbCurrentTok = 0)
    (h : elsewhere d.usbDeviceAddr deaf e = some deaf') :
    (deaf' = true → (step d e).usbCurrentTok = 0) ∧
      (e = .pollRx ∨ e = .pollTx ∨ Bystander d (step d e)) := by
  by_cases hpoll : ∀ p, e ≠ .packet p
  · have htok := poll_token e hd hpoll
    rw [htok]
    cases e with
    | packet p => exact absurd rfl (hpoll p)
    | overflow stored =>
      obtain rfl : deaf = deaf' := Option.some.inj h
      exact ⟨hdeaf, .inr (.inr ⟨_, _, _, rfl⟩)⟩
    | pollRx =>
      obtain rfl : deaf = deaf' := Option.some.inj h
      exact ⟨hdeaf, .inl rfl⟩
    | pollTx =>
      obtain rfl : deaf = deaf' := Option.some.inj h
      exact ⟨hdeaf, .inr (.inl rfl)⟩
    | pollReset first later =>
      simp only [elsewhere] at h
      split_ifs at h with hline
      obtain rfl : deaf = deaf' := Option.some.inj h
      exact ⟨hdeaf, .inr (.inr (pollReset_bystander d first later hline))⟩
  simp only [not_forall, not_not] at hpoll
  obtain ⟨p, rfl⟩ := hpoll
  have hcase := handled d p
  rw [step]
  generalize (usbInterrupt d p).1 = d' at hcase ⊢
  generalize (usbInterrupt d p).2 = answer at hcase
  cases hcase with
  | ignored hnot hin hdata =>
    refine ⟨fun hd' => hdeaf ?_, .inr (.inr ⟨_, _, _, rfl⟩)⟩
    simp only [elsewhere, if_neg hnot] at h
    split_ifs at h <;> exact (Option.some.inj h).trans hd'
  | other => exact ⟨fun _ => rfl, .inr (.inr ⟨_, _, _, rfl⟩)⟩
  | token htoken haddr => simp [elsewhere, htoken, haddr] at h
  | handshake hin haddr => simp [elsewhere, isIn_not_token hin, hin, haddr] at h
  | block hin haddr => simp [elsewhere, isIn_not_token hin, hin, haddr] at h
  | refused hdata htok => exact absurd (hdeaf (elsewhere_data hdata h)) htok
  | empty hdata htok => exact absurd (hdeaf (elsewhere_data hdata h)) htok
  | stored hdata htok => exact absurd (hdeaf (elsewhere_data hdata h)) htok

theorem quiet_step {d : Driver} {e : Event} (hd : Sound d)
    (hcase : e = .pollRx ∨ e = .pollTx ∨ Bystander d (step d e)) :
    (step d e).usbDeviceAddr = d.usbDeviceAddr ∧
      ((step d e).usbRxLen = d.usbRxLen ∨ e = .pollRx ∧ (step d e).usbRxLen = 0) := by
  rcases hcase with rfl | rfl | ⟨_, _, _, heq⟩
  · exact ⟨(usbPollRx_kept hd).usbDeviceAddr, .inr ⟨rfl, usbPollRx_free d⟩⟩
  · obtain ⟨_, _, _, _, _, heq⟩ := usbPollTx_frame hd
    rw [step, heq]
    exact ⟨rfl, .inl rfl⟩
  · rw [heq]
    exact ⟨rfl, .inl rfl⟩

/-- The next part of a poll among the slots is the one that processes what was received. -/
def RxFirst (slots : List Slot) : Prop :=
  ∀ before after, slots = before ++ .event .pollTx :: after → .event .pollRx ∈ before

theorem RxFirst.tail {slot : Slot} {slots : List Slot} (h : RxFirst (slot :: slots))
    (hslot : slot ≠ .event .pollRx) : RxFirst slots := by
  intro before after heq
  have hmem := h (slot :: before) after (by rw [heq]; rfl)
  exact (List.mem_cons.mp hmem).resolve_left fun h => hslot h.symm

theorem not_rxFirst_tx (slots : List Slot) : ¬ RxFirst (.event .pollTx :: slots) :=
  fun h => absurd (h [] slots rfl) List.not_mem_nil

inductive Phase where
  | pending | message | waiting

/-- The request is processed: `c` is the device behind it and `new` its address to come. -/
structure Processed (c : Core) (new : UInt8) (d : Driver) : Prop where
  free : d.usbRxLen = 0
  core : d.core = c
  address : d.usbNewDeviceAddr = new

/-- The reply `full` is owed from block `k` on: its request is not yet processed, the
block is still in the message, or it waits in the transmit buffer. -/
inductive Owes (full : List UInt8) (c : Core) (new : UInt8) (k : Nat) (d : Driver)
    (slots : List Slot) : Phase → Prop
  | pending (hk : k = 0) (hrx : d.usbRxLen = 11) (htok : d.usbRxToken = usbpidSetup)
      (htx : d.usbTxLen = usbpidNak) (hfresh : d.usbMsgLen = 0xff ∨ RxFirst slots)
      (hcore : (served d.core d.appData).1 = c) (hreply : replyTo d.core d.appData = full)
      (hnew : addressed d.usbNewDeviceAddr d.appData = new) : Owes full c new k d slots .pending
  | message (hk : 8 * k ≤ full.length) (hmsg : Message d k (full.drop (8 * k)))
      (htx : d.usbTxLen = usbpidNak) (hdone : Processed c new d) : Owes full c new k d slots .message
  | waiting (hk : 8 * k ≤ full.length)
      (hblock : Block d (blockToken k) ((full.drop (8 * k)).take 8))
      (hlast : full.length < 8 * k + 8 ∧ d.usbMsgLen = 0xff ∨
        8 * k + 8 ≤ full.length ∧ Message d (k + 1) (full.drop (8 * (k + 1))))
      (hdone : Processed c new d) : Owes full c new k d slots .waiting

variable {full : List UInt8} {c : Core} {new : UInt8} {k : Nat} {d : Driver} {slots : List Slot}
  {phase : Phase}

theorem Block.tx_low {d : Driver} {token : UInt8} {data : List UInt8} (h : Block d token data) :
    d.usbTxLen &&& 0x10 = 0 := by
  have hlow : ∀ n < 9, UInt8.ofNat (n + 4) &&& 0x10 = 0 := by decide
  rw [h.txLen]
  exact hlow _ (by have := h.short; omega)

theorem nak_high : usbpidNak &&& 0x10 ≠ 0 := by decide

/-- A bystander's step changes nothing that is owed. -/
theorem Owes.bystander {d' : Driver} {slot : Slot} (h : Owes full c new k d (slot :: slots) phase)
    (hstep : Bystander d d') (hslot : slot ≠ .event .pollRx) : Owes full c new k d' slots phase := by
  obtain ⟨input, tok, reset, rfl⟩ := hstep
  cases h with
  | pending hk hrx htok htx hfresh hcore hreply hnew =>
    exact .pending hk hrx htok htx (hfresh.imp_right fun h => h.tail hslot) hcore hreply hnew
  | message hk hmsg htx hdone =>
    exact .message hk (hmsg.congr ⟨rfl, rfl, rfl, rfl, rfl, rfl⟩) htx { hdone with }
  | waiting hk hblock hlast hdone =>
    refine .waiting hk { hblock with } (hlast.imp_right fun hmore => ⟨hmore.1, ?_⟩) { hdone with }
    exact hmore.2.congr ⟨rfl, rfl, rfl, rfl, rfl, rfl⟩

/-- Processing the request makes its reply the message. -/
theorem Owes.pollRx (h : Owes full c new k d (.event .pollRx :: slots) phase) (hd : Sound d) :
    (phase = .pending ∧ Owes full c new k (usbPollRx d) slots .message) ∨
      (phase ≠ .pending ∧ Owes full c new k (usbPollRx d) slots phase) := by
  cases h with
  | pending hk hrx htok htx hfresh hcore hreply hnew =>
    have hfull : d.usbRxLen ≠ 0 := by rw [hrx]; decide
    have hanswer := usbProcessRx_answers d d.appData htok
    rw [usbPollRx_eq hd hfull, (rx_eight _).mpr hrx]
    subst hk
    refine .inl ⟨rfl, .message (Nat.zero_le _) ?_ (hanswer.kept.usbTxLen.trans htx) ?_⟩
    · rw [← hreply]
      exact hanswer.message.congr ⟨rfl, rfl, rfl, rfl, rfl, rfl⟩
    · exact ⟨rfl, hanswer.core.trans hcore, hanswer.address.trans hnew⟩
  | message hk hmsg htx hdone =>
    rw [usbPollRx, if_pos hdone.free]
    exact .inr ⟨by simp, .message hk hmsg htx hdone⟩
  | waiting hk hblock hlast hdone =>
    rw [usbPollRx, if_pos hdone.free]
    exact .inr ⟨by simp, .waiting hk hblock hlast hdone⟩

/-- An idle transmitter takes the next block of the message. -/
theorem Owes.pollTx (h : Owes full c new k d (.event .pollTx :: slots) phase) :
    (phase = .message ∧ Owes full c new k (usbPollTx d) slots .waiting) ∨
      (phase ≠ .message ∧ Owes full c new k (usbPollTx d) slots phase) := by
  cases h with
  | pending hk hrx htok htx hfresh hcore hreply hnew =>
    have hend : d.usbMsgLen = 0xff := hfresh.resolve_right (not_rxFirst_tx slots)
    rw [usbPollTx, if_neg (fun h => h.1 hend)]
    exact .inr ⟨by simp, .pending hk hrx htok htx (.inl hend) hcore hreply hnew⟩
  | message hk hmsg htx hdone =>
    have hidle : d.usbMsgLen ≠ 0xff ∧ d.usbTxLen &&& 0x10 ≠ 0 :=
      ⟨hmsg.open, by rw [htx]; exact nak_high⟩
    have hbuilt := usbBuildTxBlock_eq d k _ hmsg
    rw [usbPollTx, if_pos hidle]
    refine .inl ⟨rfl, .waiting hk hmsg.block ?_ ?_⟩
    · by_cases hshort : full.length < 8 * k + 8
      · exact .inl ⟨hshort, hmsg.ends (by rw [List.length_drop]; omega)⟩
      · have hnext := hmsg.next (by rw [List.length_drop]; omega)
        rw [List.drop_drop] at hnext
        exact .inr ⟨by omega, hnext⟩
    · rw [hbuilt]
      exact { hdone with }
  | waiting hk hblock hlast hdone =>
    rw [usbPollTx, if_neg (fun h => h.2 hblock.tx_low)]
    exact .inr ⟨by simp, .waiting hk hblock hlast hdone⟩

theorem accepted_block (token : UInt8) (data : List UInt8) (blocks : Nat)
    (htoken : token = blockToken blocks) (hshort : data.length ≤ 8) :
    accepted blocks (token :: usbCrc16Append data) = some data := by
  have htake : (usbCrc16Append data).take ((usbCrc16Append data).length - 2) = data := by
    simp [usbCrc16Append]
  simp only [accepted, htake]
  exact if_pos ⟨htoken, trivial, hshort⟩

theorem hostIn_nak (asked : Nat) (h : Host) : hostIn asked h (some [usbpidNak]) = h := by
  simp [hostIn]

theorem hostIn_block (asked : Nat) (h : Host) (data : List UInt8) (hshort : data.length ≤ 8) :
    hostIn asked h (some (blockToken h.blocks :: usbCrc16Append data)) =
      { h with
        received := h.received ++ data, blocks := h.blocks + 1
        finished := decide (data.length < 8 ∨ asked ≤ (h.received ++ data).length) } := by
  have hlong : blockToken h.blocks :: usbCrc16Append data ≠ [usbpidNak] := by
    simp [usbCrc16Append]
  simp only [hostIn, if_neg hlong, accepted_block _ data h.blocks rfl hshort]

theorem Handled.nak {d d' : Driver} {p : Received} {answer : Option (List UInt8)}
    (h : Handled d p d' answer) (hin : p.isIn) (haddr : p.address = d.usbDeviceAddr)
    (htx : d.usbTxLen = usbpidNak) : d' = d.heard p ∧ answer = some [usbpidNak] := by
  cases h with
  | ignored _ hother => exact absurd haddr (hother hin)
  | other htoken => exact absurd htoken (isIn_not_token hin)
  | token htoken => exact absurd htoken (isIn_not_token hin)
  | handshake => exact ⟨rfl, by rw [htx]⟩
  | block _ _ hwait => exact absurd (htx ▸ hwait) nak_high
  | refused hdata => exact absurd hdata (isIn_not_data hin)
  | empty hdata => exact absurd hdata (isIn_not_data hin)
  | stored hdata => exact absurd hdata (isIn_not_data hin)

theorem Handled.sends {d d' : Driver} {p : Received} {answer : Option (List UInt8)}
    {token : UInt8} {data : List UInt8} (h : Handled d p d' answer) (hin : p.isIn)
    (haddr : p.address = d.usbDeviceAddr) (hblock : Block d token data) :
    d' = { d.heard p with usbTxLen := usbpidNak, usbDeviceAddr := d.usbNewDeviceAddr } ∧
      answer = some (token :: usbCrc16Append data) := by
  have hshort := hblock.short
  cases h with
  | ignored _ hother => exact absurd haddr (hother hin)
  | other htoken => exact absurd htoken (isIn_not_token hin)
  | token htoken => exact absurd htoken (isIn_not_token hin)
  | handshake _ _ hwait => exact absurd hblock.tx_low hwait
  | block =>
    have hlen : d.usbTxLen.toNat - 1 = data.length + 3 := by
      rw [hblock.txLen, UInt8.toNat_ofNat']
      omega
    rw [hlen, hblock.bytes]
    exact ⟨rfl, rfl⟩
  | refused hdata => exact absurd hdata (isIn_not_data hin)
  | empty hdata => exact absurd hdata (isIn_not_data hin)
  | stored hdata => exact absurd hdata (isIn_not_data hin)

/-- The host has the whole reply, and the device is ready for the next request; of a
reply that fills its last block an empty one may be left. -/
structure Completed (full : List UInt8) (c : Core) (new : UInt8) (s : Driver × Host) : Prop where
  sound : Sound s.1
  core : s.1.core = c
  free : s.1.usbRxLen = 0
  usbDeviceAddr : s.1.usbDeviceAddr = new
  usbNewDeviceAddr : s.1.usbNewDeviceAddr = new
  idle : s.1.usbTxLen = usbpidNak
  rest : s.1.usbMsgLen = 0xff ∨ ∃ n, Message s.1 n []
  received : s.2.received = full
  finished : s.2.finished = true
  fine : s.2.failed = false

/-- What has to happen for `n` more blocks to arrive. -/
def rounds : Nat → List Slot
  | 0 => []
  | n + 1 => .event .pollTx :: .attempt :: rounds n

def Phase.due (full : List UInt8) (k : Nat) : Phase → List Slot
  | .pending => .event .pollRx :: rounds (full.length / 8 + 1 - k)
  | .message => rounds (full.length / 8 + 1 - k)
  | .waiting => .attempt :: rounds (full.length / 8 - k)

/-- In the middle of a transfer, `slots` being still to come. -/
structure Underway (full : List UInt8) (c : Core) (new addr : UInt8) (slots : List Slot)
    (s : Driver × Host) (phase : Phase) (deaf : Bool) : Prop where
  sound : Sound s.1
  address : s.1.usbDeviceAddr = addr
  silent : deaf = true → s.1.usbCurrentTok = 0
  elsewhere : Elsewhere addr deaf slots
  owes : Owes full c new s.2.blocks s.1 slots phase
  received : s.2.received = full.take (8 * s.2.blocks)
  unfinished : s.2.finished = false
  fine : s.2.failed = false

theorem due_message {full : List UInt8} {k : Nat} (hk : 8 * k ≤ full.length) :
    Phase.message.due full k =
      .event .pollTx :: .attempt :: rounds (full.length / 8 - k) := by
  have hone : full.length / 8 + 1 - k = full.length / 8 - k + 1 := by omega
  rw [Phase.due, hone]
  rfl

theorem sublist_skip {a b : Slot} {l l' : List Slot} (h : (a :: l).Sublist (b :: l'))
    (hne : b ≠ a) : (a :: l).Sublist l' := by
  cases h with
  | cons _ h => exact h
  | cons_cons => exact absurd rfl hne

variable {addr : UInt8} {s : Driver × Host} {deaf : Bool}

theorem Underway.event {e : Event} {phase' : Phase}
    (h : Underway full c new addr (.event e :: slots) s phase deaf)
    (howes : Owes full c new s.2.blocks (step s.1 e) slots phase') :
    ∃ deaf', Underway full c new addr slots (step s.1 e, s.2) phase' deaf' := by
  obtain ⟨deaf', hstep, hrest⟩ := h.elsewhere
  obtain ⟨hdeaf, hcase⟩ := elsewhere_step h.sound h.silent (h.address ▸ hstep)
  have haddr := (quiet_step h.sound hcase).1
  exact ⟨deaf', step_sound s.1 e h.sound, haddr.trans h.address, hdeaf, hrest, howes, h.received,
    h.unfinished, h.fine⟩

/-- Whatever happens on the bus or in the device, the transfer goes on, and what has to
happen for its end has come nearer where it happened. -/
theorem underway_event (e : Event)
    (h : Underway full c new addr (.event e :: slots) s phase deaf) :
    ∃ phase' deaf', Underway full c new addr slots (step s.1 e, s.2) phase' deaf' ∧
      ((phase.due full s.2.blocks).Sublist (.event e :: slots) →
        (phase'.due full s.2.blocks).Sublist slots) := by
  obtain ⟨deaf', hstep, -⟩ := h.elsewhere
  obtain ⟨-, hcase⟩ := elsewhere_step h.sound h.silent (h.address ▸ hstep)
  have howes := h.owes
  have hskip : Owes full c new s.2.blocks (step s.1 e) slots phase → e ≠ .pollRx → e ≠ .pollTx →
      (phase.due full s.2.blocks).Sublist (.event e :: slots) →
        (phase.due full s.2.blocks).Sublist slots := by
    intro hafter hrx htx hdue
    cases hafter with
    | pending => exact sublist_skip hdue (by simpa using hrx)
    | message hk =>
      rw [due_message hk] at hdue ⊢
      exact sublist_skip hdue (by simpa using htx)
    | waiting => exact sublist_skip hdue (by simp)
  by_cases hrx : e = .pollRx
  · subst hrx
    rcases howes.pollRx h.sound with ⟨rfl, hafter⟩ | ⟨hphase, hafter⟩
    · obtain ⟨deaf', hnext⟩ := h.event hafter
      exact ⟨.message, deaf', hnext, fun hdue => List.cons_sublist_cons.mp hdue⟩
    · obtain ⟨deaf', hnext⟩ := h.event hafter
      refine ⟨phase, deaf', hnext, fun hdue => ?_⟩
      cases hafter with
      | pending => exact absurd rfl hphase
      | message hk =>
        rw [due_message hk] at hdue ⊢
        exact sublist_skip hdue (by simp)
      | waiting => exact sublist_skip hdue (by simp)
  by_cases htx : e = .pollTx
  · subst htx
    rcases howes.pollTx with ⟨rfl, hafter⟩ | ⟨hphase, hafter⟩
    · obtain ⟨deaf', hnext⟩ := h.event hafter
      refine ⟨.waiting, deaf', hnext, fun hdue => ?_⟩
      cases hafter with
      | waiting hk =>
        rw [due_message hk] at hdue
        exact List.cons_sublist_cons.mp hdue
    · obtain ⟨deaf', hnext⟩ := h.event hafter
      refine ⟨phase, deaf', hnext, fun hdue => ?_⟩
      cases hafter with
      | pending => exact sublist_skip hdue (by simp)
      | message => exact absurd rfl hphase
      | waiting => exact sublist_skip hdue (by simp)
  have hby := (hcase.resolve_left hrx).resolve_left htx
  have hafter := howes.bystander hby (by simpa using hrx)
  obtain ⟨deaf', hnext⟩ := h.event hafter
  exact ⟨phase, deaf', hnext, hskip hafter hrx htx⟩

theorem Underway.nak (h : Underway full c new addr (.attempt :: slots) s phase deaf)
    (inToken : Received) :
    Underway full c new addr slots (s.1.heard inToken, s.2) phase false := by
  have hby : Bystander s.1 (s.1.heard inToken) := ⟨_, _, _, rfl⟩
  refine ⟨h.sound.congr ⟨rfl, rfl, rfl, rfl, rfl, rfl⟩ rfl (.inr rfl) (.inl rfl), h.address, by simp,
    h.elsewhere, h.owes.bystander hby (by simp), h.received, h.unfinished, h.fine⟩

/-- An IN is answered with NAK, or it takes the block the host is waiting for. -/
theorem underway_attempt (asked : Nat) (inToken : Received) (hasked : full.length ≤ asked)
    (hsame : new = addr ∨ full.length < 8) (hin : inToken.isIn) (haddr : inToken.address = addr)
    (h : Underway full c new addr (.attempt :: slots) s phase deaf) :
    Completed full c new
        ((usbInterrupt s.1 inToken).1, hostIn asked s.2 (usbInterrupt s.1 inToken).2) ∨
      ∃ phase', Underway full c new addr slots
          ((usbInterrupt s.1 inToken).1, hostIn asked s.2 (usbInterrupt s.1 inToken).2) phase' false ∧
        ((phase.due full s.2.blocks).Sublist (.attempt :: slots) →
          (phase'.due full (hostIn asked s.2 (usbInterrupt s.1 inToken).2).blocks).Sublist
            slots) := by
  have hcase := handled s.1 inToken
  have hown : inToken.address = s.1.usbDeviceAddr := haddr.trans h.address.symm
  have hnaked := h.nak inToken
  have hsound := hcase.sound h.sound
  generalize (usbInterrupt s.1 inToken).1 = d' at hcase hsound ⊢
  generalize (usbInterrupt s.1 inToken).2 = answer at hcase ⊢
  have howes := h.owes
  cases howes with
  | pending hk hrx htok htx =>
    obtain ⟨rfl, rfl⟩ := hcase.nak hin hown htx
    rw [hostIn_nak]
    exact .inr ⟨.pending, hnaked, fun hdue => sublist_skip hdue (by simp)⟩
  | message hk hmsg htx =>
    obtain ⟨rfl, rfl⟩ := hcase.nak hin hown htx
    rw [hostIn_nak]
    refine .inr ⟨.message, hnaked, fun hdue => ?_⟩
    rw [due_message hk] at hdue ⊢
    exact sublist_skip hdue (by simp)
  | waiting hk hblock hlast hdone =>
    obtain ⟨rfl, rfl⟩ := hcase.sends hin hown hblock
    rw [hostIn_block _ _ _ hblock.short]
    have hreceived : s.2.received ++ (full.drop (8 * s.2.blocks)).take 8 =
        full.take (8 * (s.2.blocks + 1)) := by
      rw [h.received, Nat.mul_add, Nat.mul_one, List.take_add]
    rw [hreceived]
    have hmessage : ∀ n rest, Message s.1 n rest → Message
        { s.1.heard inToken with usbTxLen := usbpidNak, usbDeviceAddr := s.1.usbNewDeviceAddr }
        n rest := fun n rest hmsg => hmsg.congr ⟨rfl, rfl, rfl, rfl, rfl, rfl⟩
    rcases hlast with ⟨hshort, hend⟩ | ⟨hlong, hmore⟩
    · -- a block that is not full is the last one
      have hdata : ((full.drop (8 * s.2.blocks)).take 8).length < 8 := by
        rw [List.length_take, List.length_drop]
        omega
      exact .inl ⟨hsound, hdone.core, hdone.free, hdone.address, hdone.address, rfl, .inl hend,
        List.take_of_length_le (by omega), decide_eq_true (.inl hdata), h.fine⟩
    by_cases hall : asked ≤ (full.take (8 * (s.2.blocks + 1))).length
    · have hwhole : full.length ≤ 8 * (s.2.blocks + 1) := by
        rw [List.length_take] at hall
        omega
      rw [List.drop_of_length_le hwhole] at hmore
      exact .inl ⟨hsound, hdone.core, hdone.free, hdone.address, hdone.address, rfl,
        .inr ⟨_, hmessage _ _ hmore⟩, List.take_of_length_le hwhole, decide_eq_true (.inr hall),
        h.fine⟩
    · have hopen : ¬ (((full.drop (8 * s.2.blocks)).take 8).length < 8 ∨
          asked ≤ (full.take (8 * (s.2.blocks + 1))).length) := by
        rintro (hdata | hasks)
        · rw [List.length_take, List.length_drop] at hdata
          omega
        · exact hall hasks
      have hnew : new = addr := hsame.resolve_right (by omega)
      refine .inr ⟨.message, ⟨hsound, hdone.address.trans hnew, by simp, h.elsewhere,
        .message (by omega) (hmessage _ _ hmore) rfl { hdone with }, rfl, decide_eq_false hopen,
        h.fine⟩, fun hdue => ?_⟩
      have hrest := List.cons_sublist_cons.mp hdue
      rwa [← Nat.add_sub_add_right (full.length / 8) 1] at hrest

theorem transferStep_finished (asked : Nat) (inToken : Received) (s : Driver × Host) (slot : Slot)
    (h : s.2.finished = true) : transferStep asked inToken s slot = s := if_pos h

theorem transferStep_open (asked : Nat) (inToken : Received) (s : Driver × Host) (slot : Slot)
    (h : s.2.finished = false) :
    transferStep asked inToken s slot =
      match slot with
      | .event e => (step s.1 e, s.2)
      | .attempt =>
        ((usbInterrupt s.1 inToken).1, hostIn asked s.2 (usbInterrupt s.1 inToken).2) :=
  if_neg (by rw [h]; decide)

theorem run_finished (asked : Nat) (inToken : Received) (s : Driver × Host) (slots : List Slot)
    (h : s.2.finished = true) : run (transferStep asked inToken) s slots = s := by
  induction slots with
  | nil => rfl
  | cons slot slots ih => rw [run_cons, transferStep_finished asked inToken s slot h, ih]

theorem due_ne_nil (h : Owes full c new k d slots phase) : phase.due full k ≠ [] := by
  cases h with
  | pending => simp [Phase.due]
  | message hk => simp [due_message hk]
  | waiting => simp [Phase.due]

/-- Run to the end of the slots, the transfer is completed or still under way, and the
latter only if not all that was due happened. -/
theorem run_underway (asked : Nat) (inToken : Received) (hasked : full.length ≤ asked)
    (hsame : new = addr ∨ full.length < 8) (hin : inToken.isIn) (haddr : inToken.address = addr)
    (h : Underway full c new addr slots s phase deaf) :
    Completed full c new (run (transferStep asked inToken) s slots) ∨
      (∃ phase' deaf', Underway full c new addr [] (run (transferStep asked inToken) s slots)
        phase' deaf') ∧ ¬ (phase.due full s.2.blocks).Sublist slots := by
  induction slots generalizing s phase deaf with
  | nil => exact .inr ⟨⟨phase, deaf, h⟩, fun hdue => due_ne_nil h.owes (List.sublist_nil.mp hdue)⟩
  | cons slot slots ih =>
    rw [run_cons, transferStep_open asked inToken s slot h.unfinished]
    cases slot with
    | event e =>
      obtain ⟨phase', deaf', hnext, hdue⟩ := underway_event e h
      exact (ih hnext).imp_right fun hrest => ⟨hrest.1, fun hall => hrest.2 (hdue hall)⟩
    | attempt =>
      rcases underway_attempt asked inToken hasked hsame hin haddr h with hdone | ⟨phase', hnext, hdue⟩
      · refine .inl ?_
        rw [run_finished asked inToken _ slots hdone.finished]
        exact hdone
      · exact (ih hnext).imp_right fun hrest => ⟨hrest.1, fun hall => hrest.2 (hdue hall)⟩

end Usbdrv
