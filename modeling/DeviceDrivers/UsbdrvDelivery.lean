import DeviceDrivers.UsbdrvMessage

/-!
# Every order of packets and polls

Packets arrive at any time between the three parts of `usbPoll`. Whatever the
order, the driver stays inside its buffers and the object it sends from, speaks
only when it is spoken to, and performs every SETUP it acknowledged once.
-/
namespace Usbdrv

open EventRun ByteMemory

def Received.pid (p : Received) : UInt8 := p.bytes.getD 0 0
def Received.address (p : Received) : UInt8 := p.bytes.getD 1 0 &&& 0x7f

def Received.isSetupOrOut (p : Received) : Prop :=
  3 ≤ p.bytes.length ∧ (p.pid = usbpidSetup ∨ p.pid = usbpidOut)
def Received.isIn (p : Received) : Prop := 3 ≤ p.bytes.length ∧ p.pid = usbpidIn
def Received.isData (p : Received) : Prop :=
  3 ≤ p.bytes.length ∧ p.pid &&& usbDataMask = usbpidData0 &&& usbDataMask

instance (p : Received) : Decidable p.isSetupOrOut := inferInstanceAs (Decidable (_ ∧ _))
instance (p : Received) : Decidable p.isIn := inferInstanceAs (Decidable (_ ∧ _))
instance (p : Received) : Decidable p.isData := inferInstanceAs (Decidable (_ ∧ _))

def Driver.heard (d : Driver) (p : Received) : Driver :=
  { d with inputBuf := store d.inputBuf 0 p.bytes }

/-- Everything the interrupt routine can do with a packet. -/
inductive Handled (d : Driver) (p : Received) : Driver → Option (List UInt8) → Prop
  | ignored (hnot : ¬ p.isSetupOrOut) (hin : p.isIn → p.address ≠ d.usbDeviceAddr)
      (hdata : p.isData → d.usbCurrentTok = 0) : Handled d p (d.heard p) none
  | other (htoken : p.isSetupOrOut) (haddr : p.address ≠ d.usbDeviceAddr) :
      Handled d p { d.heard p with usbCurrentTok := 0 } none
  | token (htoken : p.isSetupOrOut) (haddr : p.address = d.usbDeviceAddr) :
      Handled d p { d.heard p with usbCurrentTok := p.pid, usbTxLen := usbpidNak } none
  | handshake (hin : p.isIn) (haddr : p.address = d.usbDeviceAddr)
      (hwait : d.usbTxLen &&& 0x10 ≠ 0) : Handled d p (d.heard p) (some [d.usbTxLen])
  | block (hin : p.isIn) (haddr : p.address = d.usbDeviceAddr) (hwait : d.usbTxLen &&& 0x10 = 0) :
      Handled d p
        { d.heard p with usbTxLen := usbpidNak, usbDeviceAddr := d.usbNewDeviceAddr }
        (some (load d.usbTxBuf 0 (d.usbTxLen.toNat - 1)))
  | refused (hdata : p.isData) (htok : d.usbCurrentTok ≠ 0) (hfull : d.usbRxLen ≠ 0) :
      Handled d p (d.heard p) (some [usbpidNak])
  | empty (hdata : p.isData) (htok : d.usbCurrentTok ≠ 0) (hfree : d.usbRxLen = 0)
      (hshort : p.bytes.length < 4) : Handled d p (d.heard p) (some [usbpidAck])
  | stored (hdata : p.isData) (htok : d.usbCurrentTok ≠ 0) (hfree : d.usbRxLen = 0)
      (hlong : 4 ≤ p.bytes.length) :
      Handled d p
        { d with
          usbRxLen := UInt8.ofNat p.bytes.length, usbRxToken := d.usbCurrentTok
          appBuf := store d.inputBuf 0 p.bytes, inputBuf := d.appBuf }
        (some [usbpidAck])

theorem pids_differ :
    usbpidIn ≠ usbpidSetup ∧ usbpidIn ≠ usbpidOut ∧
      usbpidSetup &&& usbDataMask ≠ usbpidData0 &&& usbDataMask ∧
      usbpidOut &&& usbDataMask ≠ usbpidData0 &&& usbDataMask ∧
      usbpidIn &&& usbDataMask ≠ usbpidData0 &&& usbDataMask := by
  decide

theorem store_zero (m : Nat → UInt8) (bs : List UInt8) (i : Nat) (hi : i < bs.length) :
    store m 0 bs i = bs.getD i 0 := by
  simp [store, hi]

theorem isIn_not_token {p : Received} (h : p.isIn) : ¬ p.isSetupOrOut := by
  intro ht
  have hpid := h.2
  rcases ht.2 with hsetup | hout
  · exact pids_differ.1 (hpid.symm.trans hsetup)
  · exact pids_differ.2.1 (hpid.symm.trans hout)

theorem isData_not_token {p : Received} (h : p.isData) : ¬ p.isSetupOrOut := by
  intro ht
  have hmask := h.2
  rcases ht.2 with hsetup | hout
  · rw [hsetup] at hmask
    exact pids_differ.2.2.1 hmask
  · rw [hout] at hmask
    exact pids_differ.2.2.2.1 hmask

theorem isIn_not_data {p : Received} (h : p.isIn) : ¬ p.isData := by
  intro hd
  have hmask := hd.2
  rw [h.2] at hmask
  exact pids_differ.2.2.2.2 hmask

theorem handled (d : Driver) (p : Received) :
    Handled d p (usbInterrupt d p).1 (usbInterrupt d p).2 := by
  by_cases hshort : p.bytes.length < 3
  · simp only [usbInterrupt, hshort, if_true]
    exact .ignored (fun h => absurd h.1 (by omega)) (fun h => absurd h.1 (by omega))
      fun h => absurd h.1 (by omega)
  have hlen : 3 ≤ p.bytes.length := by omega
  have hpid : store d.inputBuf 0 p.bytes 0 = p.pid := store_zero _ _ 0 (by omega)
  have haddress : store d.inputBuf 0 p.bytes 1 &&& 0x7f = p.address := by
    rw [store_zero _ _ 1 (by omega)]
    rfl
  simp only [usbInterrupt, if_neg hshort, hpid, haddress]
  by_cases htoken : p.pid = usbpidSetup ∨ p.pid = usbpidOut
  · rw [if_pos htoken]
    by_cases haddr : p.address = d.usbDeviceAddr
    · simp only [isSetupOrOut, haddr, ne_eq, not_true_eq_false, if_false]
      exact .token ⟨hlen, htoken⟩ haddr
    · simp only [isSetupOrOut, ne_eq, haddr, not_false_eq_true, if_true]
      exact .other ⟨hlen, htoken⟩ haddr
  have hnot : ¬ p.isSetupOrOut := fun h => htoken h.2
  rw [if_neg htoken]
  by_cases hin : p.pid = usbpidIn
  · rw [if_pos hin]
    by_cases haddr : p.address = d.usbDeviceAddr
    · by_cases hwait : d.usbTxLen &&& 0x10 = 0
      · simp only [handleIn, haddr, hwait, ne_eq, not_true_eq_false, if_false]
        exact .block ⟨hlen, hin⟩ haddr hwait
      · simp only [handleIn, haddr, hwait, ne_eq, not_true_eq_false, if_false, not_false_eq_true,
          if_true]
        exact .handshake ⟨hlen, hin⟩ haddr hwait
    · simp only [handleIn, ne_eq, haddr, not_false_eq_true, if_true]
      exact .ignored hnot (fun _ => haddr) fun h => absurd h (isIn_not_data ⟨hlen, hin⟩)
  rw [if_neg hin]
  by_cases hdata : p.pid &&& usbDataMask = usbpidData0 &&& usbDataMask
  · rw [if_pos hdata]
    by_cases htok : d.usbCurrentTok = 0
    · rw [isData, if_pos htok]
      exact .ignored hnot (fun h => absurd h.2 hin) fun _ => htok
    by_cases hfree : d.usbRxLen = 0
    · by_cases hfour : p.bytes.length < 4
      · rw [isData, if_neg htok, if_neg (fun h => h hfree), if_pos hfour]
        exact .empty ⟨hlen, hdata⟩ htok hfree hfour
      · rw [isData, if_neg htok, if_neg (fun h => h hfree), if_neg hfour]
        exact .stored ⟨hlen, hdata⟩ htok hfree (by omega)
    · rw [isData, if_neg htok, if_pos hfree]
      exact .refused ⟨hlen, hdata⟩ htok hfree
  · rw [if_neg hdata]
    exact .ignored hnot (fun h => absurd h.2 hin) fun h => absurd h.2 hdata

/-- What holds between any two steps. -/
structure Sound (d : Driver) : Prop where
  stray : d.stray = false
  message : d.usbMsgLen = 0xff ∨ ∃ n rest, Message d n rest
  txLen : d.usbTxLen = usbpidNak ∨ 4 ≤ d.usbTxLen.toNat ∧ d.usbTxLen.toNat ≤ 12
  rxLen : d.usbRxLen = 0 ∨ 4 ≤ d.usbRxLen.toNat ∧ d.usbRxLen.toNat ≤ 11

theorem usbInit_sound (fw : Servo.Firmware) (rx0 rx1 tx : Nat → UInt8) (ptr : MsgPtr) :
    Sound (usbInit fw rx0 rx1 tx ptr) := ⟨rfl, .inl rfl, .inl rfl, .inl rfl⟩

theorem Sound.congr {d d' : Driver} (h : Sound d) (hsame : SameMessage d d')
    (hstray : d'.stray = d.stray)
    (htx : d'.usbTxLen = usbpidNak ∨ d'.usbTxLen = d.usbTxLen)
    (hrx : d'.usbRxLen = d.usbRxLen ∨ 4 ≤ d'.usbRxLen.toNat ∧ d'.usbRxLen.toNat ≤ 11) :
    Sound d' := by
  refine ⟨by rw [hstray]; exact h.stray, ?_, ?_, ?_⟩
  · rcases h.message with hend | ⟨n, rest, hmsg⟩
    · exact .inl (by rw [hsame.usbMsgLen, hend])
    · exact .inr ⟨n, rest, hmsg.congr hsame⟩
  · rcases htx with htx | htx
    · exact .inl htx
    · rw [htx]
      exact h.txLen
  · rcases hrx with hrx | hrx
    · rw [hrx]
      exact h.rxLen
    · exact .inr hrx

theorem Received.length_toNat (p : Received) :
    (UInt8.ofNat p.bytes.length).toNat = p.bytes.length := by
  have := p.fits
  rw [UInt8.toNat_ofNat']
  omega

theorem Handled.same {d d' : Driver} {p : Received} {answer : Option (List UInt8)}
    (h : Handled d p d' answer) : SameMessage d d' := by
  cases h <;> exact ⟨rfl, rfl, rfl, rfl, rfl, rfl⟩

theorem Handled.sound {d d' : Driver} {p : Received} {answer : Option (List UInt8)}
    (h : Handled d p d' answer) (hd : Sound d) : Sound d' := by
  have hsame := h.same
  cases h with
  | ignored => exact hd.congr hsame rfl (.inr rfl) (.inl rfl)
  | other => exact hd.congr hsame rfl (.inr rfl) (.inl rfl)
  | token => exact hd.congr hsame rfl (.inl rfl) (.inl rfl)
  | handshake => exact hd.congr hsame rfl (.inr rfl) (.inl rfl)
  | block => exact hd.congr hsame rfl (.inl rfl) (.inl rfl)
  | refused => exact hd.congr hsame rfl (.inr rfl) (.inl rfl)
  | empty => exact hd.congr hsame rfl (.inr rfl) (.inl rfl)
  | stored _ _ _ hlong =>
    have hfits := p.fits
    refine hd.congr hsame rfl (.inr rfl) (.inr ?_)
    change 4 ≤ (UInt8.ofNat p.bytes.length).toNat ∧ (UInt8.ofNat p.bytes.length).toNat ≤ 11
    rw [p.length_toNat]
    omega

/-- The length of what was received, without PID and sum, is never taken for an overflow. -/
theorem Sound.rxData {d : Driver} (h : Sound d) (hfull : d.usbRxLen ≠ 0) : d.usbRxLen - 3 < 128 := by
  obtain ⟨hlow, hhigh⟩ := h.rxLen.resolve_left hfull
  rw [UInt8.lt_iff_toNat_lt, UInt8.toNat_sub_of_le _ _ (UInt8.le_iff_toNat_le.mpr (by
    change 3 ≤ d.usbRxLen.toNat
    omega))]
  change d.usbRxLen.toNat - 3 < 128
  omega

theorem rx_eight (len : UInt8) : len - 3 = 8 ↔ len = 11 := by
  constructor
  · intro hlen
    have hback : len - 3 + 3 = 8 + 3 := congrArg (· + 3) hlen
    rwa [UInt8.sub_add_cancel] at hback
  · rintro rfl
    rfl

theorem usbPollRx_eq {d : Driver} (h : Sound d) (hfull : d.usbRxLen ≠ 0) :
    usbPollRx d = { usbProcessRx d d.appData (d.usbRxLen - 3) with usbRxLen := 0 } := by
  rw [usbPollRx, if_neg hfull]
  simp only [if_pos (h.rxData hfull)]

theorem usbPollRx_kept {d : Driver} (h : Sound d) : Kept d (usbPollRx d) := by
  by_cases hfull : d.usbRxLen = 0
  · rw [usbPollRx, if_pos hfull]
    exact Kept.refl d
  rw [usbPollRx_eq h hfull]
  by_cases hsetup : d.usbRxToken = usbpidSetup ∧ d.usbRxLen - 3 = 8
  · have hkept := (usbProcessRx_answers d d.appData hsetup.1).kept
    rw [hsetup.2]
    exact { hkept with }
  · rw [(usbProcessRx_other d d.appData _ hsetup).1]
    exact { Kept.refl d with }

/-- Data behind another token than SETUP asks for an empty message, whatever it is. -/
theorem usbPollRx_data {d : Driver} (h : Sound d) (hfull : d.usbRxLen ≠ 0)
    (htok : d.usbRxToken ≠ usbpidSetup) :
    usbPollRx d = { d with usbMsgFlags := usbFlgUseDefaultRw, usbMsgLen := 0, usbRxLen := 0 } ∧
      Message (usbPollRx d) 0 [] := by
  obtain ⟨heq, hmsg⟩ := usbProcessRx_other d d.appData (d.usbRxLen - 3) fun hand => htok hand.1
  rw [usbPollRx_eq h hfull]
  refine ⟨by rw [heq], hmsg.congr ⟨rfl, rfl, rfl, rfl, rfl, rfl⟩⟩

/-- Building a block touches the message and the transmit buffer only. -/
theorem usbPollTx_frame {d : Driver} (h : Sound d) :
    ∃ len flags ptr buf txLen, usbPollTx d =
      { d with
        usbMsgLen := len, usbMsgFlags := flags, usbMsgPtr := ptr, usbTxBuf := buf
        usbTxLen := txLen } := by
  by_cases hidle : d.usbMsgLen ≠ 0xff ∧ d.usbTxLen &&& 0x10 ≠ 0
  · obtain ⟨n, rest, hmsg⟩ := h.message.resolve_left hidle.1
    rw [usbPollTx, if_pos hidle, usbBuildTxBlock_eq d n rest hmsg]
    exact ⟨_, _, _, _, _, rfl⟩
  · rw [usbPollTx, if_neg hidle]
    exact ⟨_, _, _, _, _, rfl⟩

theorem usbPollRx_sound {d : Driver} (h : Sound d) : Sound (usbPollRx d) := by
  by_cases hfull : d.usbRxLen = 0
  · rw [usbPollRx, if_pos hfull]
    exact h
  rw [usbPollRx_eq h hfull]
  by_cases hsetup : d.usbRxToken = usbpidSetup ∧ d.usbRxLen - 3 = 8
  · obtain ⟨-, -, hmsg, hkept⟩ := usbProcessRx_answers d d.appData hsetup.1
    rw [hsetup.2]
    refine ⟨by rw [← h.stray, ← hkept.stray], .inr ⟨0, _, hmsg.congr ⟨rfl, rfl, rfl, rfl, rfl, rfl⟩⟩,
      ?_, .inl rfl⟩
    change (usbProcessRx d d.appData 8).usbTxLen = _ ∨ _ ≤ (usbProcessRx d d.appData 8).usbTxLen.toNat ∧
      (usbProcessRx d d.appData 8).usbTxLen.toNat ≤ _
    rw [hkept.usbTxLen]
    exact h.txLen
  · obtain ⟨heq, hmsg⟩ := usbProcessRx_other d d.appData _ hsetup
    refine ⟨?_, .inr ⟨0, [], hmsg.congr ⟨rfl, rfl, rfl, rfl, rfl, rfl⟩⟩, ?_, .inl rfl⟩
    · rw [heq]
      exact h.stray
    · rw [heq]
      exact h.txLen

theorem usbPollTx_sound {d : Driver} (h : Sound d) : Sound (usbPollTx d) := by
  by_cases hidle : d.usbMsgLen ≠ 0xff ∧ d.usbTxLen &&& 0x10 ≠ 0
  · obtain ⟨n, rest, hmsg⟩ := h.message.resolve_left hidle.1
    have hblock := hmsg.block
    have hbuilt := usbBuildTxBlock_eq d n rest hmsg
    rw [usbPollTx, if_pos hidle]
    refine ⟨by rw [hbuilt]; exact h.stray, ?_, .inr ?_, by rw [hbuilt]; exact h.rxLen⟩
    · by_cases hshort : rest.length < 8
      · exact .inl (hmsg.ends hshort)
      · exact .inr ⟨n + 1, rest.drop 8, hmsg.next (by omega)⟩
    · have hshort := hblock.short
      rw [hblock.txLen, UInt8.toNat_ofNat']
      omega
  · rw [usbPollTx, if_neg hidle]
    exact h

theorem usbPollReset_same (d : Driver) (first : Bool) (later : Fin 100 → Bool) :
    ∃ reset new address, usbPollReset d first later =
      { d with usbIsReset := reset, usbNewDeviceAddr := new, usbDeviceAddr := address } := by
  unfold usbPollReset
  split_ifs <;> exact ⟨_, _, _, rfl⟩

theorem step_sound (d : Driver) (e : Event) (h : Sound d) : Sound (step d e) := by
  cases e with
  | packet p => exact (handled d p).sound h
  | overflow stored => exact h.congr ⟨rfl, rfl, rfl, rfl, rfl, rfl⟩ rfl (.inr rfl) (.inl rfl)
  | pollRx => exact usbPollRx_sound h
  | pollTx => exact usbPollTx_sound h
  | pollReset first later =>
    obtain ⟨reset, new, address, heq⟩ := usbPollReset_same d first later
    rw [step, heq]
    exact h.congr ⟨rfl, rfl, rfl, rfl, rfl, rfl⟩ rfl (.inr rfl) (.inl rfl)

/-- Nothing behind the eleven bytes of a buffer has changed; the two receive buffers
may have been swapped. -/
structure Confined (rx0 rx1 tx : Nat → UInt8) (d : Driver) : Prop where
  rx : (∀ x, 11 ≤ x → d.inputBuf x = rx0 x ∧ d.appBuf x = rx1 x) ∨
    (∀ x, 11 ≤ x → d.inputBuf x = rx1 x ∧ d.appBuf x = rx0 x)
  tx : ∀ x, 11 ≤ x → d.usbTxBuf x = tx x

theorem store_received (m : Nat → UInt8) (p : Received) (x : Nat) (hx : 11 ≤ x) :
    store m 0 p.bytes x = m x :=
  store_outside m 0 x p.bytes (.inr (by have := p.fits; omega))

theorem usbPollTx_confined {d : Driver} (hd : Sound d) (x : Nat) (hx : 11 ≤ x) :
    (usbPollTx d).usbTxBuf x = d.usbTxBuf x := by
  by_cases hidle : d.usbMsgLen ≠ 0xff ∧ d.usbTxLen &&& 0x10 ≠ 0
  · obtain ⟨n, rest, hmsg⟩ := hd.message.resolve_left hidle.1
    rw [usbPollTx, if_pos hidle, usbBuildTxBlock_eq d n rest hmsg]
    change store d.usbTxBuf 0 (blockToken n :: usbCrc16Append (rest.take 8)) x = _
    refine store_outside _ _ _ _ (.inr ?_)
    simp only [List.length_cons, usbCrc16Append, List.length_append, List.length_take,
      List.length_nil]
    omega
  · rw [usbPollTx, if_neg hidle]

theorem Confined.heard {rx0 rx1 tx : Nat → UInt8} {d : Driver} (h : Confined rx0 rx1 tx d)
    (p : Received) : Confined rx0 rx1 tx (d.heard p) := by
  refine ⟨?_, h.tx⟩
  rcases h.rx with hrx | hrx
  · exact .inl fun x hx => ⟨(store_received _ p x hx).trans (hrx x hx).1, (hrx x hx).2⟩
  · exact .inr fun x hx => ⟨(store_received _ p x hx).trans (hrx x hx).1, (hrx x hx).2⟩

theorem Handled.confined {d d' : Driver} {p : Received} {answer : Option (List UInt8)}
    {rx0 rx1 tx : Nat → UInt8} (h : Handled d p d' answer) (hd : Confined rx0 rx1 tx d) :
    Confined rx0 rx1 tx d' := by
  have hheard := hd.heard p
  cases h with
  | stored =>
    refine ⟨?_, hd.tx⟩
    rcases hheard.rx with hrx | hrx
    · exact .inr fun x hx => (hrx x hx).symm
    · exact .inl fun x hx => (hrx x hx).symm
  | _ => exact { hheard with }

theorem step_confined {rx0 rx1 tx : Nat → UInt8} (d : Driver) (e : Event) (hd : Sound d)
    (h : Confined rx0 rx1 tx d) : Confined rx0 rx1 tx (step d e) := by
  cases e with
  | packet p => exact (handled d p).confined h
  | overflow stored => exact h.heard stored
  | pollRx =>
    have hkept := usbPollRx_kept hd
    refine ⟨?_, fun x hx => (hkept.usbTxBuf x (.inr hx)).trans (h.tx x hx)⟩
    simp only [step, hkept.inputBuf, hkept.appBuf]
    exact h.rx
  | pollTx =>
    refine ⟨?_, fun x hx => (usbPollTx_confined hd x hx).trans (h.tx x hx)⟩
    obtain ⟨_, _, _, _, _, heq⟩ := usbPollTx_frame hd
    rw [step, heq]
    exact h.rx
  | pollReset first later =>
    obtain ⟨reset, new, address, heq⟩ := usbPollReset_same d first later
    rw [step, heq]
    exact { h with }

theorem Handled.sent_length {d d' : Driver} {p : Received} {bytes : List UInt8}
    (h : Handled d p d' (some bytes)) (hd : Sound d) : bytes.length ≤ 11 := by
  cases h with
  | block _ _ hwait =>
    rcases hd.txLen with hnak | ⟨hlow, hhigh⟩
    · rw [hnak] at hwait
      exact absurd hwait (by decide)
    · rw [load_length]
      omega
  | _ => exact Nat.le_add_left 1 10

theorem Sound.sent_length {d : Driver} (h : Sound d) (e : Event) (bytes : List UInt8)
    (hsent : sent d e = some bytes) : bytes.length ≤ 11 := by
  cases e with
  | packet p =>
    have hcase := handled d p
    rw [show (usbInterrupt d p).2 = some bytes from hsent] at hcase
    exact hcase.sent_length h
  | _ => exact absurd hsent (Option.some_ne_none bytes).symm

/-- Whatever arrives, in whatever order, and however the polls fall: no byte is read
from outside the object of the message or from the wrong memory, no buffer is written
behind its end, and no packet longer than a buffer is sent. -/
theorem usbPoll_stays_inside (fw : Servo.Firmware) (rx0 rx1 tx : Nat → UInt8) (ptr : MsgPtr)
    (es : List Event) :
    (run step (usbInit fw rx0 rx1 tx ptr) es).stray = false ∧
      Confined rx0 rx1 tx (run step (usbInit fw rx0 rx1 tx ptr) es) ∧
      ∀ e bytes, sent (run step (usbInit fw rx0 rx1 tx ptr) es) e = some bytes →
        bytes.length ≤ 11 := by
  have hinit : Confined rx0 rx1 tx (usbInit fw rx0 rx1 tx ptr) :=
    ⟨.inl fun _ _ => ⟨rfl, rfl⟩, fun _ _ => rfl⟩
  obtain ⟨hsound, hconfined⟩ := run_invariant (fun d => Sound d ∧ Confined rx0 rx1 tx d)
    (fun d e hd _ => ⟨step_sound d e hd.1, step_confined d e hd.1 hd.2⟩) _ es
    ⟨usbInit_sound fw rx0 rx1 tx ptr, hinit⟩ (atEach_true _ es)
  exact ⟨hsound.stray, hconfined, hsound.sent_length⟩

/-- The device as it is once the packet that waits has been processed. -/
def Driver.settled (d : Driver) : Core := (usbPollRx d).core

/-- The eight data bytes of a packet. -/
def Received.setup (p : Received) : Servo.Packet := Vector.ofFn fun i => p.bytes.getD (1 + i) 0

theorem settled_eq {d : Driver} (h : Sound d) :
    d.settled =
      if d.usbRxToken = usbpidSetup ∧ d.usbRxLen = 11 then (served d.core d.appData).1
      else d.core := by
  rw [Driver.settled]
  by_cases hfull : d.usbRxLen = 0
  · rw [usbPollRx, if_pos hfull, if_neg]
    rintro ⟨-, hlen⟩
    rw [hlen] at hfull
    exact absurd hfull (by decide)
  rw [usbPollRx_eq h hfull]
  by_cases hsetup : d.usbRxToken = usbpidSetup ∧ d.usbRxLen - 3 = 8
  · rw [if_pos ⟨hsetup.1, (rx_eight _).mp hsetup.2⟩, hsetup.2]
    exact (usbProcessRx_answers d d.appData hsetup.1).core
  · rw [if_neg (fun hand => hsetup ⟨hand.1, (rx_eight _).mpr hand.2⟩),
      (usbProcessRx_other d d.appData _ hsetup).1]
    rfl

/-- What a listener on the bus knows: the last token, and the device after all the
requests that were acknowledged. -/
structure Listener where
  token : UInt8
  core : Core

def Listener.hear (l : Listener) (p : Received) (answer : Option (List UInt8)) : Listener :=
  if p.isSetupOrOut then { l with token := p.pid }
  else if p.isData ∧ answer = some [usbpidAck] ∧ l.token = usbpidSetup ∧ p.bytes.length = 11 then
    { l with core := (served l.core p.setup).1 }
  else l

/-- The packets of a run in order, each with its answer. -/
def transcript (d : Driver) : List Event → List (Received × Option (List UInt8))
  | [] => []
  | .packet p :: es => (p, (usbInterrupt d p).2) :: transcript (step d (.packet p)) es
  | e :: es => transcript (step d e) es

def listen (l : Listener) (heard : List (Received × Option (List UInt8))) : Listener :=
  run (fun l o => l.hear o.1 o.2) l heard

/-- A token the device does not take for its own leaves it deaf to data. -/
structure Follows (l : Listener) (d : Driver) : Prop where
  core : d.settled = l.core
  token : d.usbCurrentTok = 0 ∨ d.usbCurrentTok = l.token

theorem Listener.hear_token {l : Listener} {p : Received} {answer : Option (List UInt8)}
    (h : p.isSetupOrOut) : l.hear p answer = { l with token := p.pid } := if_pos h

theorem Listener.hear_idle {l : Listener} {p : Received} {answer : Option (List UInt8)}
    (htoken : ¬ p.isSetupOrOut)
    (h : ¬ (p.isData ∧ answer = some [usbpidAck] ∧ l.token = usbpidSetup ∧ p.bytes.length = 11)) :
    l.hear p answer = l := by
  rw [Listener.hear, if_neg htoken, if_neg h]

theorem settled_congr {d d' : Driver} (hd : Sound d) (hd' : Sound d') (hcore : d'.core = d.core)
    (happ : d'.appBuf = d.appBuf) (hlen : d'.usbRxLen = d.usbRxLen)
    (htok : d'.usbRxToken = d.usbRxToken) : d'.settled = d.settled := by
  rw [settled_eq hd, settled_eq hd', hcore, hlen, htok]
  simp only [Driver.appData, happ]

/-- The eleven bytes of a stored packet are its data where the main loop reads them. -/
theorem stored_appData (d : Driver) (p : Received) (m : Nat → UInt8)
    (happ : d.appBuf = store m 0 p.bytes) (hlen : p.bytes.length = 11) : d.appData = p.setup := by
  apply Vector.ext
  intro i hi
  simp only [Driver.appData, Received.setup, Vector.getElem_ofFn, happ]
  exact store_zero _ _ _ (by omega)

theorem Handled.follows {d d' : Driver} {p : Received} {answer : Option (List UInt8)}
    {l : Listener} (h : Handled d p d' answer) (hd : Sound d) (hl : Follows l d) :
    Follows (l.hear p answer) d' := by
  have hd' := h.sound hd
  cases h with
  | ignored hnot =>
    rw [Listener.hear_idle hnot (by simp)]
    exact ⟨(settled_congr hd hd' rfl rfl rfl rfl).trans hl.core, hl.token⟩
  | other htoken =>
    rw [Listener.hear_token htoken]
    exact ⟨(settled_congr hd hd' rfl rfl rfl rfl).trans hl.core, .inl rfl⟩
  | token htoken =>
    rw [Listener.hear_token htoken]
    exact ⟨(settled_congr hd hd' rfl rfl rfl rfl).trans hl.core, .inr rfl⟩
  | handshake hin =>
    rw [Listener.hear_idle (isIn_not_token hin) fun hand => isIn_not_data hin hand.1]
    exact ⟨(settled_congr hd hd' rfl rfl rfl rfl).trans hl.core, hl.token⟩
  | block hin =>
    rw [Listener.hear_idle (isIn_not_token hin) fun hand => isIn_not_data hin hand.1]
    exact ⟨(settled_congr hd hd' rfl rfl rfl rfl).trans hl.core, hl.token⟩
  | refused hdata =>
    rw [Listener.hear_idle (isData_not_token hdata) (by simp [usbpidNak, usbpidAck])]
    exact ⟨(settled_congr hd hd' rfl rfl rfl rfl).trans hl.core, hl.token⟩
  | empty hdata _ _ hshort =>
    rw [Listener.hear_idle (isData_not_token hdata) fun hand => by omega]
    exact ⟨(settled_congr hd hd' rfl rfl rfl rfl).trans hl.core, hl.token⟩
  | stored hdata htok hfree =>
    have htoken : d.usbCurrentTok = l.token := hl.token.resolve_left htok
    have hcore : d.core = l.core := by
      rw [← hl.core, Driver.settled, usbPollRx, if_pos hfree]
    refine ⟨?_, ?_⟩
    · rw [settled_eq hd', Listener.hear, if_neg (isData_not_token hdata)]
      change (if d.usbCurrentTok = usbpidSetup ∧ UInt8.ofNat p.bytes.length = 11 then
        (served d.core _).1 else d.core) = _
      have heleven : UInt8.ofNat p.bytes.length = 11 ↔ p.bytes.length = 11 := by
        rw [← UInt8.toNat_inj, p.length_toNat]
        rfl
      by_cases hrequest : d.usbCurrentTok = usbpidSetup ∧ p.bytes.length = 11
      · rw [if_pos ⟨hrequest.1, heleven.mpr hrequest.2⟩,
          if_pos ⟨hdata, rfl, htoken ▸ hrequest.1, hrequest.2⟩,
          stored_appData _ p d.inputBuf rfl hrequest.2, hcore]
      · rw [if_neg (fun hand => hrequest ⟨hand.1, heleven.mp hand.2⟩),
          if_neg (fun hand => hrequest ⟨htoken.trans hand.2.2.1, hand.2.2.2⟩), hcore]
    · rw [Listener.hear, if_neg (isData_not_token hdata)]
      split_ifs
      · exact hl.token
      · exact hl.token

/-- Only packets change the token. -/
theorem poll_token {d : Driver} (e : Event) (hd : Sound d) (hpoll : ∀ p, e ≠ .packet p) :
    (step d e).usbCurrentTok = d.usbCurrentTok := by
  cases e with
  | packet p => exact absurd rfl (hpoll p)
  | overflow stored => rfl
  | pollRx => exact (usbPollRx_kept hd).usbCurrentTok
  | pollTx =>
    obtain ⟨_, _, _, _, _, heq⟩ := usbPollTx_frame hd
    rw [step, heq]
  | pollReset first later =>
    obtain ⟨reset, new, address, heq⟩ := usbPollReset_same d first later
    rw [step, heq]

theorem usbPollRx_free (d : Driver) : (usbPollRx d).usbRxLen = 0 := by
  rw [usbPollRx]
  split_ifs with h
  · exact h
  · rfl

theorem poll_settled {d : Driver} (e : Event) (hd : Sound d) (hpoll : ∀ p, e ≠ .packet p) :
    (step d e).settled = d.settled := by
  have hd' := step_sound d e hd
  cases e with
  | packet p => exact absurd rfl (hpoll p)
  | overflow stored => exact settled_congr hd hd' rfl rfl rfl rfl
  | pollRx =>
    change (usbPollRx (usbPollRx d)).core = d.settled
    rw [usbPollRx, if_pos (usbPollRx_free d)]
    rfl
  | pollTx =>
    obtain ⟨_, _, _, _, _, heq⟩ := usbPollTx_frame hd
    rw [step, heq] at hd' ⊢
    exact settled_congr hd hd' rfl rfl rfl rfl
  | pollReset first later =>
    obtain ⟨reset, new, address, heq⟩ := usbPollReset_same d first later
    rw [step, heq] at hd' ⊢
    exact settled_congr hd hd' rfl rfl rfl rfl

theorem poll_follows {d : Driver} {l : Listener} (e : Event) (hd : Sound d) (hl : Follows l d)
    (hpoll : ∀ p, e ≠ .packet p) : Follows l (step d e) := by
  refine ⟨(poll_settled e hd hpoll).trans hl.core, ?_⟩
  rw [poll_token e hd hpoll]
  exact hl.token

theorem run_follows (d : Driver) (l : Listener) (es : List Event) (hd : Sound d)
    (hl : Follows l d) : Follows (listen l (transcript d es)) (run step d es) := by
  induction es generalizing d l with
  | nil => exact hl
  | cons e es ih =>
    have hd' := step_sound d e hd
    cases e with
    | packet p => exact ih _ _ hd' ((handled d p).follows hd hl)
    | overflow stored => exact ih _ _ hd' (poll_follows (.overflow stored) hd hl (by simp))
    | pollRx => exact ih _ _ hd' (poll_follows .pollRx hd hl (by simp))
    | pollTx => exact ih _ _ hd' (poll_follows .pollTx hd hl (by simp))
    | pollReset first later =>
      exact ih _ _ hd' (poll_follows (.pollReset first later) hd hl (by simp))

/-- In every run, the next poll finds or leaves the device as it is after each SETUP
packet that was acknowledged on the bus, once each and in their order, and after no other. -/
theorem acknowledged_once (fw : Servo.Firmware) (rx0 rx1 tx : Nat → UInt8) (ptr : MsgPtr)
    (es : List Event) :
    (usbPollRx (run step (usbInit fw rx0 rx1 tx ptr) es)).core =
      (listen { token := 0, core := { fw := fw, usbConfiguration := 0 } }
        (transcript (usbInit fw rx0 rx1 tx ptr) es)).core :=
  (run_follows _ _ es (usbInit_sound fw rx0 rx1 tx ptr) ⟨rfl, .inl rfl⟩).core

/-- The last SETUP or OUT token of the past was meant for the device as it was then. -/
def Addressed (d0 : Driver) (past : List Event) : Prop :=
  ∃ before t after, past = before ++ .packet t :: after ∧ t.isSetupOrOut ∧
    t.address = (run step d0 before).usbDeviceAddr ∧
    ∀ p, .packet p ∈ after → ¬ p.isSetupOrOut

theorem addressed_quiet {d0 : Driver} {past : List Event} {e : Event} (h : Addressed d0 past)
    (hquiet : ∀ p, e = .packet p → ¬ p.isSetupOrOut) : Addressed d0 (past ++ [e]) := by
  obtain ⟨before, t, after, rfl, htoken, haddr, hafter⟩ := h
  refine ⟨before, t, after ++ [e], by simp, htoken, haddr, ?_⟩
  intro p hp
  rcases List.mem_append.mp hp with hp | hp
  · exact hafter p hp
  · exact hquiet p (List.mem_singleton.mp hp).symm

theorem addressed_step {d0 d : Driver} {past : List Event} (e : Event) (hd : Sound d)
    (hrun : d = run step d0 past) (h : d.usbCurrentTok ≠ 0 → Addressed d0 past) :
    (step d e).usbCurrentTok ≠ 0 → Addressed d0 (past ++ [e]) := by
  by_cases hpoll : ∀ p, e ≠ .packet p
  · rw [poll_token e hd hpoll]
    exact fun htok => addressed_quiet (h htok) fun p he => absurd he (hpoll p)
  simp only [not_forall, not_not] at hpoll
  obtain ⟨p, rfl⟩ := hpoll
  have hcase := handled d p
  have hsame : ¬ p.isSetupOrOut → d.usbCurrentTok ≠ 0 → Addressed d0 (past ++ [.packet p]) :=
    fun hnot htok => addressed_quiet (h htok) fun q hq => by
      rw [Event.packet.injEq] at hq
      exact hq ▸ hnot
  rw [step]
  generalize (usbInterrupt d p).1 = d' at hcase ⊢
  generalize (usbInterrupt d p).2 = answer at hcase
  cases hcase with
  | ignored hnot => exact hsame hnot
  | other => exact fun htok => absurd rfl htok
  | token htoken haddr =>
    exact fun _ => ⟨past, p, [], rfl, htoken, hrun ▸ haddr, by simp⟩
  | handshake hin => exact hsame (isIn_not_token hin)
  | block hin => exact hsame (isIn_not_token hin)
  | refused hdata => exact hsame (isData_not_token hdata)
  | empty hdata => exact hsame (isData_not_token hdata)
  | stored hdata => exact hsame (isData_not_token hdata)

/-- A packet is answered only if it is an IN to the device's address, or data behind a
token to the address the device had when the token came, with no token in between. -/
theorem answers_addressed (fw : Servo.Firmware) (rx0 rx1 tx : Nat → UInt8) (ptr : MsgPtr)
    (es : List Event) (p : Received) (bytes : List UInt8)
    (h : sent (run step (usbInit fw rx0 rx1 tx ptr) es) (.packet p) = some bytes) :
    (p.isIn ∧ p.address = (run step (usbInit fw rx0 rx1 tx ptr) es).usbDeviceAddr) ∨
      (p.isData ∧ Addressed (usbInit fw rx0 rx1 tx ptr) es) := by
  have hinit : Sound (usbInit fw rx0 rx1 tx ptr) := usbInit_sound fw rx0 rx1 tx ptr
  obtain ⟨-, -, haddressed⟩ := run_history
    (fun past d => Sound d ∧ d = run step (usbInit fw rx0 rx1 tx ptr) past ∧
      (d.usbCurrentTok ≠ 0 → Addressed (usbInit fw rx0 rx1 tx ptr) past))
    (usbInit fw rx0 rx1 tx ptr) ⟨hinit, rfl, fun htok => absurd rfl htok⟩
    (fun past d e hd _ => ⟨step_sound d e hd.1, by rw [run_concat, ← hd.2.1],
      addressed_step e hd.1 hd.2.1 hd.2.2⟩) es (atEach_true _ es)
  have hcase := handled (run step (usbInit fw rx0 rx1 tx ptr) es) p
  rw [show (usbInterrupt _ p).2 = some bytes from h] at hcase
  generalize (usbInterrupt (run step (usbInit fw rx0 rx1 tx ptr) es) p).1 = d' at hcase
  cases hcase with
  | handshake hin haddr => exact .inl ⟨hin, haddr⟩
  | block hin haddr => exact .inl ⟨hin, haddr⟩
  | refused hdata htok => exact .inr ⟨hdata, haddressed htok⟩
  | empty hdata htok => exact .inr ⟨hdata, haddressed htok⟩
  | stored hdata htok => exact .inr ⟨hdata, haddressed htok⟩

/-- A driver that starts with its memory cleared. -/
def cleared : Driver :=
  usbInit ⟨0, Vector.replicate 8 0⟩ (fun _ => 0) (fun _ => 0) (fun _ => 0) ⟨.usbTxBuf, 0⟩

def inToken : Received := { bytes := [usbpidIn, 0, 0x10], fits := by decide }

def setupToken : Received := { bytes := [usbpidSetup, 0, 0x10], fits := by decide }

/-- The tool's CMD_GET, as the host sends it behind the token. -/
def getData : Received :=
  { bytes := usbpidData0 :: usbCrc16Append [0xc0, 1, 0, 0, 0, 0, 8, 0], fits := by decide }

/-- A request is acknowledged, and its token was for the device. -/
theorem answers_addressed_setup :
    sent (run step cleared [.packet setupToken, .pollTx]) (.packet getData) = some [usbpidAck] ∧
      Addressed cleared [.packet setupToken, .pollTx] := by
  have hsent : sent (run step cleared [.packet setupToken, .pollTx]) (.packet getData) =
      some [usbpidAck] := by decide
  have hdata : getData.isData := by decide
  refine ⟨hsent, ?_⟩
  rcases answers_addressed _ _ _ _ _ [.packet setupToken, .pollTx] _ _ hsent with hin | hbehind
  · exact absurd hdata (isIn_not_data hin.1)
  · exact hbehind.2

end Usbdrv
