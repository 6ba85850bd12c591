import DeviceDrivers.UsbdrvTransfer

/-!
# Control writes

Behind a SETUP packet without a reply the host sends its data, if there is any, and
then asks for an empty block in answer to the whole. The driver has no use for the
data, but it must not lose its place over it: the packet may come before the request
is processed, and the empty block may be sent before the packet is.
-/
namespace Usbdrv

open EventRun ByteMemory

/-- The data of one OUT packet. -/
structure Chunk where
  bytes : List UInt8
  nonempty : bytes ≠ []
  short : bytes.length ≤ 8

def Chunk.packet (chunk : Chunk) : Received where
  bytes := blockToken 0 :: usbCrc16Append chunk.bytes
  fits := by
    have := chunk.short
    simp only [usbCrc16Append, List.length_cons, List.length_append, List.length_nil]
    omega

/-- The host's side: the data not yet acknowledged, and the answer to the whole. -/
structure Writer where
  chunk : Option Chunk
  status : Host

def Writer.hear (w : Writer) (answer : Option (List UInt8)) : Writer :=
  if answer = some [usbpidAck] then { w with chunk := none }
  else if answer = some [usbpidNak] then w
  else { w with status := { w.status with failed := true } }

/-- An attempt with data has the parts of polls that fall between its token and the data. -/
inductive OutSlot where
  | event (e : Event)
  | attempt (inner : List Event)

def OutSlot.kind : OutSlot → Slot
  | .event e => .event e
  | .attempt _ => .attempt

def writeStep (outToken inToken : Received) (s : Driver × Writer) (slot : OutSlot) :
    Driver × Writer :=
  if s.2.status.finished then s
  else match slot with
    | .event e => (step s.1 e, s.2)
    | .attempt inner =>
      match s.2.chunk with
      | some chunk =>
        let r := usbInterrupt (run step (usbInterrupt s.1 outToken).1 inner) chunk.packet
        (r.1, s.2.hear r.2)
      | none =>
        let r := usbInterrupt s.1 inToken
        (r.1, { s.2 with status := hostIn 0 s.2.status r.2 })

/-- The empty block is still a message, or it waits to be sent, or it has to be asked for
again because the data was received behind it. -/
inductive Answering (d : Driver) : Prop
  | message (hmsg : Message d 0 []) (htx : d.usbTxLen = usbpidNak)
  | waiting (hblock : Block d (blockToken 0) []) (hend : d.usbMsgLen = 0xff)
  | both (hblock : Block d (blockToken 0) []) (hmsg : Message d 0 []) (hfree : d.usbRxLen = 0)
  | again (hend : d.usbMsgLen = 0xff) (htx : d.usbTxLen = usbpidNak) (hfull : d.usbRxLen ≠ 0)

inductive Writing (c : Core) (new : UInt8) (d : Driver) : Option Chunk → Prop
  | setup (chunk : Option Chunk) (howes : Owes [] c new 0 d [] .pending)
      (hend : d.usbMsgLen = 0xff) : Writing c new d chunk
  | ready (chunk : Chunk) (hdone : Processed c new d)
      (htx : d.usbTxLen = usbpidNak ∧ (Message d 0 [] ∨ d.usbMsgLen = 0xff) ∨
        Block d (blockToken 0) [] ∧ d.usbMsgLen = 0xff) : Writing c new d (some chunk)
  | taken (hcore : d.core = c) (hnew : d.usbNewDeviceAddr = new)
      (hrx : d.usbRxLen = 0 ∨ d.usbRxToken ≠ usbpidSetup) (hanswer : Answering d) :
      Writing c new d none

variable {c : Core} {new addr : UInt8} {d d' : Driver} {chunk : Option Chunk}

theorem Owes.later {full : List UInt8} {k : Nat} {slots slots' : List Slot}
    (h : Owes full c new k d slots .pending) (hend : d.usbMsgLen = 0xff) :
    Owes full c new k d slots' .pending := by
  cases h with
  | pending hk hrx htok htx _ hcore hreply hnew =>
    exact .pending hk hrx htok htx (.inl hend) hcore hreply hnew

theorem Answering.bystander (h : Answering d) (hstep : Bystander d d') : Answering d' := by
  obtain ⟨_, _, _, rfl⟩ := hstep
  cases h with
  | message hmsg htx => exact .message (hmsg.congr ⟨rfl, rfl, rfl, rfl, rfl, rfl⟩) htx
  | waiting hblock hend => exact .waiting { hblock with } hend
  | both hblock hmsg hfree =>
    exact .both { hblock with } (hmsg.congr ⟨rfl, rfl, rfl, rfl, rfl, rfl⟩) hfree
  | again hend htx hfull => exact .again hend htx hfull

theorem Writing.bystander (h : Writing c new d chunk) (hstep : Bystander d d') :
    Writing c new d' chunk := by
  have hanswering := fun h : Answering d => h.bystander hstep
  have howing : Owes [] c new 0 d [.attempt] .pending → Owes [] c new 0 d' [] .pending :=
    fun h => h.bystander hstep (by simp)
  obtain ⟨_, _, _, rfl⟩ := hstep
  cases h with
  | setup chunk howes hend => exact .setup chunk (howing (howes.later hend)) hend
  | ready chunk hdone htx =>
    refine .ready chunk { hdone with } (htx.imp (fun hnak => ⟨hnak.1, ?_⟩) fun hwait =>
      ⟨{ hwait.1 with }, hwait.2⟩)
    exact hnak.2.imp_left fun hmsg => hmsg.congr ⟨rfl, rfl, rfl, rfl, rfl, rfl⟩
  | taken hcore hnew hrx hanswer => exact .taken hcore hnew hrx (hanswering hanswer)

theorem Writing.pollTx (h : Writing c new d chunk) : Writing c new (usbPollTx d) chunk := by
  have hstay : d.usbMsgLen = 0xff ∨ d.usbTxLen &&& 0x10 = 0 → usbPollTx d = d :=
    fun hor => if_neg fun hand => hor.elim hand.1 hand.2
  have hbuild : Message d 0 [] → d.usbTxLen = usbpidNak →
      usbPollTx d = usbBuildTxBlock d := fun hmsg htx =>
    if_pos ⟨hmsg.open, by rw [htx]; exact nak_high⟩
  cases h with
  | setup chunk howes hend =>
    rw [hstay (.inl hend)]
    exact .setup chunk howes hend
  | ready chunk hdone htx =>
    rcases htx with ⟨hnak, hmsg | hend⟩ | ⟨hblock, hend⟩
    · rw [hbuild hmsg hnak]
      refine .ready chunk ?_ (.inr ⟨hmsg.block, hmsg.ends (by decide)⟩)
      rw [usbBuildTxBlock_eq d 0 [] hmsg]
      exact { hdone with }
    · rw [hstay (.inl hend)]
      exact .ready chunk hdone (.inl ⟨hnak, .inr hend⟩)
    · rw [hstay (.inl hend)]
      exact .ready chunk hdone (.inr ⟨hblock, hend⟩)
  | taken hcore hnew hrx hanswer =>
    cases hanswer with
    | message hmsg hnak =>
      rw [hbuild hmsg hnak]
      have hafter : Answering (usbBuildTxBlock d) := .waiting hmsg.block (hmsg.ends (by decide))
      rw [usbBuildTxBlock_eq d 0 [] hmsg] at hafter ⊢
      exact .taken hcore hnew hrx hafter
    | waiting hblock hend =>
      rw [hstay (.inl hend)]
      exact .taken hcore hnew hrx (.waiting hblock hend)
    | both hblock hmsg hfree =>
      rw [hstay (.inr hblock.tx_low)]
      exact .taken hcore hnew hrx (.both hblock hmsg hfree)
    | again hend htx hfull =>
      rw [hstay (.inl hend)]
      exact .taken hcore hnew hrx (.again hend htx hfull)

/-- Processing the data of a write asks for the empty block once more. -/
theorem Writing.pollRx (h : Writing c new d chunk) (hd : Sound d) :
    Writing c new (usbPollRx d) chunk := by
  by_cases hfree : d.usbRxLen = 0
  · rw [usbPollRx, if_pos hfree]
    exact h
  cases h with
  | setup chunk howes hend =>
    rcases (howes.later hend : Owes [] c new 0 d [.event .pollRx] .pending).pollRx hd with
      ⟨-, hafter⟩ | ⟨hnot, -⟩
    · cases hafter with
      | message _ hmsg htx hdone =>
        cases chunk with
        | none => exact .taken hdone.core hdone.address (.inl hdone.free) (.message hmsg htx)
        | some chunk => exact .ready chunk hdone (.inl ⟨htx, .inl hmsg⟩)
    · exact absurd rfl hnot
  | ready chunk hdone htx => exact absurd hdone.free hfree
  | taken hcore hnew hrx hanswer =>
    obtain ⟨heq, hmsg⟩ := usbPollRx_data hd hfree (hrx.resolve_left hfree)
    rw [heq] at hmsg ⊢
    refine .taken hcore hnew (.inl rfl) ?_
    cases hanswer with
    | message _ htx => exact .message hmsg htx
    | waiting hblock => exact .both { hblock with } hmsg rfl
    | both hblock => exact .both { hblock with } hmsg rfl
    | again _ htx => exact .message hmsg htx

theorem Writing.event {e : Event} (h : Writing c new d chunk) (hd : Sound d)
    (hcase : e = .pollRx ∨ e = .pollTx ∨ Bystander d (step d e)) :
    Writing c new (step d e) chunk := by
  rcases hcase with rfl | rfl | hby
  · exact h.pollRx hd
  · exact h.pollTx
  · exact h.bystander hby

def Received.isOutTo (p : Received) (address : UInt8) : Prop :=
  3 ≤ p.bytes.length ∧ p.pid = usbpidOut ∧ p.address = address

theorem chunk_isData (chunk : Chunk) : chunk.packet.isData := by
  have hmask : blockToken 0 &&& usbDataMask = usbpidData0 &&& usbDataMask := by decide
  refine ⟨?_, hmask⟩
  have := List.length_pos_iff.mpr chunk.nonempty
  simp only [Chunk.packet, usbCrc16Append, List.length_cons, List.length_append, List.length_nil]
  omega

theorem chunk_long (chunk : Chunk) : 4 ≤ chunk.packet.bytes.length := by
  have := List.length_pos_iff.mpr chunk.nonempty
  simp only [Chunk.packet, usbCrc16Append, List.length_cons, List.length_append, List.length_nil]
  omega

theorem Handled.refuses {p : Received} {answer : Option (List UInt8)} (h : Handled d p d' answer)
    (hdata : p.isData) (htok : d.usbCurrentTok ≠ 0) (hfull : d.usbRxLen ≠ 0) :
    d' = d.heard p ∧ answer = some [usbpidNak] := by
  cases h with
  | ignored _ _ hdeaf => exact absurd (hdeaf hdata) htok
  | other htoken => exact absurd htoken (isData_not_token hdata)
  | token htoken => exact absurd htoken (isData_not_token hdata)
  | handshake hin => exact absurd hdata (isIn_not_data hin)
  | block hin => exact absurd hdata (isIn_not_data hin)
  | refused => exact ⟨rfl, rfl⟩
  | empty _ _ hfree => exact absurd hfree hfull
  | stored _ _ hfree => exact absurd hfree hfull

/-- The OUT token takes back a block that waits, and nothing else. -/
theorem Writing.token {chunk : Chunk} (h : Writing c new d (some chunk)) (p : Received)
    (tok : UInt8) :
    Writing c new { d.heard p with usbCurrentTok := tok, usbTxLen := usbpidNak } (some chunk) := by
  cases h with
  | setup _ howes hend =>
    cases howes with
    | pending hk hrx htok htx hfresh hcore hreply hnew =>
      exact .setup _ (.pending hk hrx htok rfl (.inl hend) hcore hreply hnew) hend
  | ready chunk hdone htx =>
    refine .ready chunk { hdone with } (.inl ⟨rfl, ?_⟩)
    rcases htx with ⟨-, hmsg | hend⟩ | ⟨-, hend⟩
    · exact .inl (hmsg.congr ⟨rfl, rfl, rfl, rfl, rfl, rfl⟩)
    · exact .inr hend
    · exact .inr hend

/-- Behind its token the data is taken if the request has been processed. -/
theorem Writing.data {chunk : Chunk} {answer : Option (List UInt8)}
    (h : Writing c new d (some chunk)) (htok : d.usbCurrentTok = usbpidOut)
    (hcase : Handled d chunk.packet d' answer) :
    answer = some [usbpidAck] ∧ Writing c new d' none ∨
      answer = some [usbpidNak] ∧ Writing c new d' (some chunk) ∧ d.usbRxLen ≠ 0 ∧
        d'.usbRxLen = d.usbRxLen := by
  have hlive : d.usbCurrentTok ≠ 0 := by rw [htok]; decide
  cases h with
  | setup _ howes hend =>
    have hfull : d.usbRxLen ≠ 0 := by
      cases howes with
      | pending _ hrx => rw [hrx]; decide
    obtain ⟨rfl, rfl⟩ := hcase.refuses (chunk_isData chunk) hlive hfull
    have hby : Writing c new (d.heard chunk.packet) (some chunk) :=
      (Writing.setup (some chunk) howes hend).bystander ⟨_, _, _, rfl⟩
    exact .inr ⟨rfl, hby, hfull, rfl⟩
  | ready chunk hdone htx =>
    obtain ⟨rfl, rfl⟩ := hcase.stores (chunk_isData chunk) hlive hdone.free (chunk_long chunk)
    refine .inl ⟨rfl, .taken hdone.core hdone.address (.inr ?_) ?_⟩
    · change d.usbCurrentTok ≠ usbpidSetup
      rw [htok]
      decide
    · have hfull : UInt8.ofNat chunk.packet.bytes.length ≠ 0 := by
        rw [ne_eq, ← UInt8.toNat_inj, chunk.packet.length_toNat]
        exact Nat.ne_of_gt (Nat.lt_of_lt_of_le (by decide) (chunk_long chunk))
      rcases htx with ⟨hnak, hmsg | hend⟩ | ⟨hblock, hend⟩
      · exact .message (hmsg.congr ⟨rfl, rfl, rfl, rfl, rfl, rfl⟩) hnak
      · exact .again hend hnak hfull
      · exact .waiting { hblock with } hend

theorem Handled.data_address {p : Received} {answer : Option (List UInt8)}
    (h : Handled d p d' answer) (hdata : p.isData) : d'.usbDeviceAddr = d.usbDeviceAddr := by
  cases h with
  | block hin => exact absurd hdata (isIn_not_data hin)
  | _ => rfl

/-- Token, what is polled behind it, and data. -/
theorem out_attempt {chunk : Chunk} (outToken : Received) (inner : List Event)
    (h : Writing c new d (some chunk)) (hd : Sound d) (hout : outToken.isOutTo d.usbDeviceAddr)
    (hinner : ∀ e ∈ inner, Poll e) :
    let r := usbInterrupt (run step (usbInterrupt d outToken).1 inner) chunk.packet
    r.1.usbDeviceAddr = d.usbDeviceAddr ∧ Sound r.1 ∧
      (r.2 = some [usbpidAck] ∧ Writing c new r.1 none ∨
        r.2 = some [usbpidNak] ∧ Writing c new r.1 (some chunk) ∧ d.usbRxLen ≠ 0) := by
  intro r
  have htoken := (handled d outToken).own ⟨hout.1, .inr hout.2.1⟩ hout.2.2
  rw [hout.2.1] at htoken
  have hsound := (handled d outToken).sound hd
  have hwriting : Writing c new (usbInterrupt d outToken).1 (some chunk) := by
    rw [htoken]
    exact h.token outToken usbpidOut
  obtain ⟨hd', hw', htok', haddr', hfree'⟩ := run_invariant
    (fun x => Sound x ∧ Writing c new x (some chunk) ∧ x.usbCurrentTok = usbpidOut ∧
      x.usbDeviceAddr = d.usbDeviceAddr ∧ (d.usbRxLen = 0 → x.usbRxLen = 0))
    (fun x e hx he => by
      have hquiet := quiet_step hx.1 (poll_case he)
      have htok := poll_token e hx.1 (fun p hp => by rw [hp] at he; exact he)
      refine ⟨step_sound x e hx.1, hx.2.1.event hx.1 (poll_case he), htok.trans hx.2.2.1,
        hquiet.1.trans hx.2.2.2.1, fun hfree => ?_⟩
      rcases hquiet.2 with hsame | ⟨-, hzero⟩
      · exact hsame.trans (hx.2.2.2.2 hfree)
      · exact hzero)
    (usbInterrupt d outToken).1 inner
    ⟨hsound, hwriting, by rw [htoken], by rw [htoken]; rfl, fun hfree => by rw [htoken]; exact hfree⟩
    ((atEach_mem Poll _ inner).mpr hinner)
  have hcase := handled (run step (usbInterrupt d outToken).1 inner) chunk.packet
  have hown : r.1.usbDeviceAddr = (run step (usbInterrupt d outToken).1 inner).usbDeviceAddr :=
    hcase.data_address (chunk_isData chunk)
  refine ⟨hown.trans haddr', hcase.sound hd', ?_⟩
  rcases hw'.data htok' hcase with hack | ⟨hnak, hw, hfull, -⟩
  · exact .inl hack
  · exact .inr ⟨hnak, hw, fun hfree => hfull (hfree' hfree)⟩

/-- The device has performed the request and answered for it; at most it has the data to
process or one more empty block to build. -/
structure Written (c : Core) (new : UInt8) (s : Driver × Writer) : Prop where
  sound : Sound s.1
  core : s.1.core = c
  usbDeviceAddr : s.1.usbDeviceAddr = new
  usbNewDeviceAddr : s.1.usbNewDeviceAddr = new
  idle : s.1.usbTxLen = usbpidNak
  rest : s.1.usbMsgLen = 0xff ∧ (s.1.usbRxLen = 0 ∨ s.1.usbRxToken ≠ usbpidSetup) ∨
    s.1.usbRxLen = 0 ∧ Message s.1 0 []
  received : s.2.status.received = []
  finished : s.2.status.finished = true
  fine : s.2.status.failed = false

structure Taking (c : Core) (new addr : UInt8) (slots : List OutSlot) (s : Driver × Writer)
    (deaf : Bool) : Prop where
  sound : Sound s.1
  address : s.1.usbDeviceAddr = addr
  silent : deaf = true → s.1.usbCurrentTok = 0
  elsewhere : Elsewhere addr deaf (slots.map OutSlot.kind)
  inner : ∀ inner, .attempt inner ∈ slots → ∀ e ∈ inner, Poll e
  writing : Writing c new s.1 s.2.chunk
  start : s.2.status = .start

/-- What has to happen from the start for the data, if there is any, and for the answer. -/
def outRounds : Option Chunk → List Slot
  | none => [.event .pollRx, .event .pollTx, .attempt]
  | some _ => [.event .pollRx, .attempt, .event .pollRx, .event .pollTx, .attempt]

/-- What is left of it. -/
inductive Due (d : Driver) : Option Chunk → List Slot → Prop
  | full (chunk : Option Chunk) : Due d chunk (outRounds chunk)
  | free (chunk : Option Chunk) (hfree : d.usbRxLen = 0) : Due d chunk (outRounds chunk).tail
  | built (hblock : d.usbTxLen ≠ usbpidNak) : Due d none [.attempt]

variable {slots : List OutSlot} {s : Driver × Writer} {deaf : Bool} {due : List Slot}

theorem Taking.event {e : Event} (h : Taking c new addr (.event e :: slots) s deaf) :
    (∃ deaf', Taking c new addr slots (step s.1 e, s.2) deaf') ∧
      (e = .pollRx ∨ e = .pollTx ∨ Bystander s.1 (step s.1 e)) := by
  obtain ⟨deaf', hstep, hrest⟩ := h.elsewhere
  obtain ⟨hsilent, hcase⟩ := elsewhere_step h.sound h.silent (h.address ▸ hstep)
  have haddr := (quiet_step h.sound hcase).1
  exact ⟨⟨deaf', step_sound s.1 e h.sound, haddr.trans h.address, hsilent, hrest,
    fun inner hmem => h.inner inner (List.mem_cons_of_mem _ hmem), h.writing.event h.sound hcase,
    h.start⟩, hcase⟩

theorem block_not_nak {token : UInt8} {data : List UInt8} (h : Block d token data) :
    d.usbTxLen ≠ usbpidNak := by
  intro htx
  have hlow := h.tx_low
  rw [htx] at hlow
  exact nak_high hlow

/-- With all its data taken and nothing to process, an idle device has the empty block as
its message. -/
theorem Writing.next_block (h : Writing c new d none) (hfree : d.usbRxLen = 0) :
    (usbPollTx d).usbTxLen ≠ usbpidNak := by
  cases h with
  | setup _ howes =>
    cases howes with
    | pending _ hrx =>
      rw [hrx] at hfree
      exact absurd hfree (by decide)
  | taken _ _ _ hanswer =>
    cases hanswer with
    | message hmsg htx =>
      rw [usbPollTx, if_pos ⟨hmsg.open, by rw [htx]; exact nak_high⟩]
      exact block_not_nak hmsg.block
    | waiting hblock =>
      rw [usbPollTx, if_neg (fun hand => hand.2 hblock.tx_low)]
      exact block_not_nak hblock
    | both hblock =>
      rw [usbPollTx, if_neg (fun hand => hand.2 hblock.tx_low)]
      exact block_not_nak hblock
    | again _ _ hfull => exact absurd hfree hfull

/-- An event that is due brings the end nearer, and no other takes it further away. -/
theorem due_event {e : Event} {l : List Slot} (hw : Writing c new d chunk) (hd : Sound d)
    (hcase : e = .pollRx ∨ e = .pollTx ∨ Bystander d (step d e)) (hdue : Due d chunk due)
    (hsub : due.Sublist (.event e :: l)) : ∃ due', Due (step d e) chunk due' ∧ due'.Sublist l := by
  have hquiet := (quiet_step hd hcase).2
  have hblock : d.usbTxLen ≠ usbpidNak → (step d e).usbTxLen ≠ usbpidNak := by
    intro htx
    rcases hcase with rfl | rfl | ⟨_, _, _, heq⟩
    · rw [step, (usbPollRx_kept hd).usbTxLen]
      exact htx
    · have hlow : d.usbTxLen &&& 0x10 = 0 := by
        rcases hd.txLen with hnak | ⟨hlow, hhigh⟩
        · exact absurd hnak htx
        · have hall : ∀ n < 13, UInt8.ofNat n &&& 0x10 = 0 := by decide
          have hlen := hall d.usbTxLen.toNat (by omega)
          rwa [UInt8.ofNat_toNat] at hlen
      rw [step, usbPollTx, if_neg (fun hand => hand.2 hlow)]
      exact htx
    · rw [heq]
      exact htx
  cases hdue with
  | full =>
    by_cases hrx : e = .pollRx
    · subst hrx
      refine ⟨(outRounds chunk).tail, .free chunk (usbPollRx_free d), ?_⟩
      cases chunk with
      | none => exact List.cons_sublist_cons.mp hsub
      | some chunk => exact List.cons_sublist_cons.mp hsub
    · refine ⟨outRounds chunk, .full chunk, ?_⟩
      cases chunk with
      | none => exact sublist_skip hsub (by simpa using hrx)
      | some chunk => exact sublist_skip hsub (by simpa using hrx)
  | free _ hfree =>
    have hfree' : (step d e).usbRxLen = 0 := hquiet.elim (fun h => h.trans hfree) And.right
    cases chunk with
    | some chunk => exact ⟨_, .free (some chunk) hfree', sublist_skip hsub (by simp)⟩
    | none =>
      by_cases htx : e = .pollTx
      · subst htx
        exact ⟨_, .built (hw.next_block hfree), List.cons_sublist_cons.mp hsub⟩
      · exact ⟨_, .free none hfree', sublist_skip hsub (by simpa using htx)⟩
  | built htx => exact ⟨_, .built (hblock htx), sublist_skip hsub (by simp)⟩

theorem writeStep_event (outToken inToken : Received) (e : Event) (h : s.2.status = .start) :
    writeStep outToken inToken s (.event e) = (step s.1 e, s.2) := by
  rw [writeStep, h]
  rfl

theorem writeStep_out (outToken inToken : Received) (inner : List Event) {chunk : Chunk}
    (h : s.2.status = .start) (hchunk : s.2.chunk = some chunk) :
    writeStep outToken inToken s (.attempt inner) =
      ((usbInterrupt (run step (usbInterrupt s.1 outToken).1 inner) chunk.packet).1,
        s.2.hear (usbInterrupt (run step (usbInterrupt s.1 outToken).1 inner) chunk.packet).2) := by
  rw [writeStep, h, hchunk]
  rfl

theorem writeStep_in (outToken inToken : Received) (inner : List Event)
    (h : s.2.status = .start) (hchunk : s.2.chunk = none) :
    writeStep outToken inToken s (.attempt inner) =
      ((usbInterrupt s.1 inToken).1,
        { s.2 with status := hostIn 0 s.2.status (usbInterrupt s.1 inToken).2 }) := by
  rw [writeStep, h, hchunk]
  rfl

theorem sublist_tail {a : Slot} {l l' : List Slot} (h : (a :: l).Sublist l') : l.Sublist l' :=
  (List.sublist_cons_self a l).trans h

theorem taking_out (outToken inToken : Received) {chunk : Chunk} {inner : List Event}
    (hout : outToken.isOutTo addr) (hchunk : s.2.chunk = some chunk)
    (h : Taking c new addr (.attempt inner :: slots) s deaf) :
    Taking c new addr slots (writeStep outToken inToken s (.attempt inner)) false ∧
      (Due s.1 s.2.chunk due → due.Sublist (.attempt :: slots.map OutSlot.kind) →
        ∃ due', Due (writeStep outToken inToken s (.attempt inner)).1
            (writeStep outToken inToken s (.attempt inner)).2.chunk due' ∧
          due'.Sublist (slots.map OutSlot.kind)) := by
  have hwriting := h.writing
  rw [hchunk] at hwriting
  obtain ⟨haddr, hsound, hcase⟩ := out_attempt outToken inner hwriting h.sound
    (h.address.symm ▸ hout) (h.inner inner List.mem_cons_self)
  have hrest : ∀ i, .attempt i ∈ slots → ∀ e ∈ i, Poll e :=
    fun i hi => h.inner i (List.mem_cons_of_mem _ hi)
  rw [writeStep_out outToken inToken inner h.start hchunk]
  generalize usbInterrupt (run step (usbInterrupt s.1 outToken).1 inner) chunk.packet = r
    at haddr hsound hcase ⊢
  rcases hcase with ⟨hack, hw⟩ | ⟨hnak, hw, hfull⟩
  · have hhear : s.2.hear r.2 = { s.2 with chunk := none } := if_pos hack
    rw [hhear]
    refine ⟨⟨hsound, haddr.trans h.address, by simp, h.elsewhere, hrest, hw, h.start⟩, ?_⟩
    rw [hchunk]
    intro hdue hsub
    refine ⟨_, .full none, ?_⟩
    cases hdue with
    | full =>
      have hskip : (outRounds (some chunk)).Sublist (slots.map OutSlot.kind) :=
        sublist_skip hsub (by simp)
      exact sublist_tail (sublist_tail hskip)
    | free => exact List.cons_sublist_cons.mp hsub
  · have hhear : s.2.hear r.2 = s.2 := by
      rw [Writer.hear, hnak, if_neg (by decide), if_pos rfl]
    rw [hhear]
    refine ⟨⟨hsound, haddr.trans h.address, by simp, h.elsewhere, hrest, hchunk ▸ hw, h.start⟩, ?_⟩
    rw [hchunk]
    intro hdue hsub
    cases hdue with
    | full => exact ⟨_, .full (some chunk), sublist_skip hsub (by simp)⟩
    | free _ hfree => exact absurd hfree hfull

theorem taking_in (outToken inToken : Received) {inner : List Event} (hin : inToken.isIn)
    (haddr : inToken.address = addr) (hchunk : s.2.chunk = none)
    (h : Taking c new addr (.attempt inner :: slots) s deaf) :
    Written c new (writeStep outToken inToken s (.attempt inner)) ∨
      Taking c new addr slots (writeStep outToken inToken s (.attempt inner)) false ∧
      (Due s.1 s.2.chunk due → due.Sublist (.attempt :: slots.map OutSlot.kind) →
        ∃ due', Due (writeStep outToken inToken s (.attempt inner)).1
            (writeStep outToken inToken s (.attempt inner)).2.chunk due' ∧
          due'.Sublist (slots.map OutSlot.kind)) := by
  have hcase := handled s.1 inToken
  have hown : inToken.address = s.1.usbDeviceAddr := haddr.trans h.address.symm
  have hsound := hcase.sound h.sound
  have hwriting := h.writing
  rw [writeStep_in outToken inToken inner h.start hchunk]
  generalize (usbInterrupt s.1 inToken).1 = d' at hcase hsound ⊢
  generalize (usbInterrupt s.1 inToken).2 = answer at hcase ⊢
  have hnaked : s.1.usbTxLen = usbpidNak →
      Taking c new addr slots (d', { s.2 with status := hostIn 0 s.2.status answer }) false ∧
      (Due s.1 s.2.chunk due → due.Sublist (.attempt :: slots.map OutSlot.kind) →
        ∃ due', Due d' s.2.chunk due' ∧ due'.Sublist (slots.map OutSlot.kind)) := by
    intro htx
    obtain ⟨rfl, rfl⟩ := hcase.nak hin hown htx
    rw [hostIn_nak]
    refine ⟨⟨hsound, h.address, by simp, h.elsewhere,
      fun i hi => h.inner i (List.mem_cons_of_mem _ hi), hwriting.bystander ⟨_, _, _, rfl⟩,
      h.start⟩, ?_⟩
    rw [hchunk]
    intro hdue hsub
    cases hdue with
    | full => exact ⟨_, .full none, sublist_skip hsub (by simp)⟩
    | free _ hfree => exact ⟨_, .free none hfree, sublist_skip hsub (by simp)⟩
    | built hblock => exact absurd htx hblock
  have hsent : Block s.1 (blockToken 0) [] → s.1.core = c → s.1.usbNewDeviceAddr = new →
      (s.1.usbMsgLen = 0xff ∧ (s.1.usbRxLen = 0 ∨ s.1.usbRxToken ≠ usbpidSetup) ∨
        s.1.usbRxLen = 0 ∧ Message s.1 0 []) →
      Written c new (d', { s.2 with status := hostIn 0 s.2.status answer }) := by
    intro hblock hcore hnew hrest
    obtain ⟨rfl, rfl⟩ := hcase.sends hin hown hblock
    have hhost : hostIn 0 .start (some (blockToken 0 :: usbCrc16Append [])) =
        { received := [], blocks := 1, finished := true, failed := false } :=
      hostIn_block 0 Host.start [] (by decide)
    rw [h.start, hhost]
    refine ⟨hsound, hcore, hnew, hnew, rfl, hrest.imp_right fun hmsg => ⟨hmsg.1, ?_⟩, rfl,
      rfl, rfl⟩
    exact hmsg.2.congr ⟨rfl, rfl, rfl, rfl, rfl, rfl⟩
  rw [hchunk] at hwriting
  cases hwriting with
  | setup _ howes =>
    cases howes with
    | pending _ _ _ htx => exact .inr (hnaked htx)
  | taken hcore hnew hrx hanswer =>
    cases hanswer with
    | message _ htx => exact .inr (hnaked htx)
    | waiting hblock hend => exact .inl (hsent hblock hcore hnew (.inl ⟨hend, hrx⟩))
    | both hblock hmsg hfree => exact .inl (hsent hblock hcore hnew (.inr ⟨hfree, hmsg⟩))
    | again _ htx => exact .inr (hnaked htx)

theorem run_written (outToken inToken : Received) (s : Driver × Writer) (slots : List OutSlot)
    (h : s.2.status.finished = true) : run (writeStep outToken inToken) s slots = s := by
  induction slots with
  | nil => rfl
  | cons slot slots ih =>
    have hstay : writeStep outToken inToken s slot = s := if_pos h
    rw [run_cons, hstay, ih]

theorem due_ne_empty (h : Due d chunk due) : due ≠ [] := by
  cases h with
  | full => cases chunk <;> simp [outRounds]
  | free => cases chunk <;> simp [outRounds]
  | built => simp

theorem run_taking (outToken inToken : Received) (hout : outToken.isOutTo addr)
    (hin : inToken.isIn) (haddr : inToken.address = addr) (h : Taking c new addr slots s deaf)
    (hdue : Due s.1 s.2.chunk due) :
    Written c new (run (writeStep outToken inToken) s slots) ∨
      (∃ deaf', Taking c new addr [] (run (writeStep outToken inToken) s slots) deaf') ∧
        ¬ due.Sublist (slots.map OutSlot.kind) := by
  induction slots generalizing s deaf due with
  | nil => exact .inr ⟨⟨deaf, h⟩, fun hsub => due_ne_empty hdue (List.sublist_nil.mp hsub)⟩
  | cons slot slots ih =>
    rw [run_cons]
    cases slot with
    | event e =>
      obtain ⟨⟨deaf', hnext⟩, hcase⟩ := h.event
      rw [writeStep_event outToken inToken e h.start]
      by_cases hsub : due.Sublist (.event e :: slots.map OutSlot.kind)
      · obtain ⟨due', hdue', hsub'⟩ := due_event h.writing h.sound hcase hdue hsub
        exact (ih hnext hdue').imp_right fun hrest => ⟨hrest.1, fun _ => hrest.2 hsub'⟩
      · exact (ih hnext (.full _)).imp_right fun hrest => ⟨hrest.1, hsub⟩
    | attempt inner =>
      have hnext : Written c new (writeStep outToken inToken s (.attempt inner)) ∨
          Taking c new addr slots (writeStep outToken inToken s (.attempt inner)) false ∧
          (Due s.1 s.2.chunk due → due.Sublist (.attempt :: slots.map OutSlot.kind) →
            ∃ due', Due (writeStep outToken inToken s (.attempt inner)).1
                (writeStep outToken inToken s (.attempt inner)).2.chunk due' ∧
              due'.Sublist (slots.map OutSlot.kind)) := by
        cases hchunk : s.2.chunk with
        | none => exact hchunk ▸ taking_in outToken inToken hin haddr hchunk h
        | some chunk => exact .inr (hchunk ▸ taking_out outToken inToken hout hchunk h)
      rcases hnext with hdone | ⟨hnext, hnear⟩
      · refine .inl ?_
        rw [run_written outToken inToken _ slots hdone.finished]
        exact hdone
      · by_cases hsub : due.Sublist (.attempt :: slots.map OutSlot.kind)
        · obtain ⟨due', hdue', hsub'⟩ := hnear hdue hsub
          exact (ih hnext hdue').imp_right fun hrest => ⟨hrest.1, fun _ => hrest.2 hsub'⟩
        · exact (ih hnext (.full _)).imp_right fun hrest => ⟨hrest.1, hsub⟩

/-- What a control write comes to, `acked` being the answer to its SETUP packet. -/
structure Wrote (d : Driver) (data : Servo.Packet) (chunk : Option Chunk) (slots : List OutSlot)
    (acked : Option (List UInt8)) (s : Driver × Writer) : Prop where
  acknowledged : acked = some [usbpidAck]
  fine : s.2.status.failed = false
  whole : s.2.status.finished = true →
    Written (served d.core data).1 (addressed d.usbDeviceAddr data) s
  ends : (outRounds chunk).Sublist (slots.map OutSlot.kind) → s.2.status.finished = true

theorem wrote (d : Driver) (token outToken inToken : Received) (inner : List Event)
    (data : Servo.Packet) (chunk : Option Chunk) (slots : List OutSlot) (hd : Sound d)
    (hfree : d.usbRxLen = 0) (hend : d.usbMsgLen = 0xff)
    (haddr : d.usbNewDeviceAddr = d.usbDeviceAddr) (htoken : token.isSetupTo d.usbDeviceAddr)
    (hout : outToken.isOutTo d.usbDeviceAddr)
    (hin : inToken.isIn ∧ inToken.address = d.usbDeviceAddr) (hinner : ∀ e ∈ inner, Poll e)
    (helsewhere : Elsewhere d.usbDeviceAddr false (slots.map OutSlot.kind))
    (hpolls : ∀ i, .attempt i ∈ slots → ∀ e ∈ i, Poll e) (hreply : replyTo d.core data = []) :
    Wrote d data chunk slots (setupStage d token inner data).2
      (run (writeStep outToken inToken)
        ((setupStage d token inner data).1, { chunk := chunk, status := .start }) slots) := by
  obtain ⟨hacked, hsound, haddress, howes⟩ :=
    setupStage_owes token inner data [.event .pollTx] hd hfree htoken hinner (.inl hend)
  rw [hreply, haddr] at howes
  have hlast : (setupStage d token inner data).1.usbMsgLen = 0xff := by
    cases howes with
    | pending _ _ _ _ hfresh => exact hfresh.resolve_right (not_rxFirst_tx [])
  have hstart : Taking (served d.core data).1 (addressed d.usbDeviceAddr data) d.usbDeviceAddr slots
      ((setupStage d token inner data).1, { chunk := chunk, status := .start }) false :=
    ⟨hsound, haddress, by simp, helsewhere, hpolls, .setup chunk (howes.later hlast) hlast, rfl⟩
  rcases run_taking outToken inToken hout hin.1 hin.2 hstart (.full chunk) with
    hdone | ⟨⟨deaf, hmore⟩, hnot⟩
  · exact ⟨hacked, hdone.fine, fun _ => hdone, fun _ => hdone.finished⟩
  · have hopen := hmore.start
    refine ⟨hacked, by rw [hopen]; rfl, fun hend => ?_, fun hall => absurd hall hnot⟩
    rw [hopen] at hend
    exact absurd hend (by decide)

def outToken : Received := { bytes := [usbpidOut, 0, 0x10], fits := by decide }

end Usbdrv
