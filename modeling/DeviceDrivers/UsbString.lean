import DeviceDrivers.CString

/-!
# String descriptors of USB devices

`usbGetStringAscii` asks for a string descriptor and converts its code units to
Latin-1 in the caller's buffer. The run keeps every index at which the function
reads its own 256 bytes or writes through `buf`.
-/
namespace Usb

open ByteMemory

/-- `USB_DT_STRING` -/
def usbDtString : UInt8 := 3

def sizeofBuffer : Nat := 256

def usbEndpointIn : Int := 0x80
def usbReqGetDescriptor : Int := 6

/-- The arguments of `usb_control_msg`, device and buffer apart. -/
structure ControlRequest where
  requesttype : Int
  request : Int
  value : Int
  index : Int
  size : Int
  timeout : Int
deriving DecidableEq

/-- The descriptor request for string `index` in the language `langid`. -/
def stringRequest (index langid : Int) : ControlRequest :=
  { requesttype := usbEndpointIn, request := usbReqGetDescriptor
    value := (usbDtString.toNat <<< 8 : Nat) + index, index := langid
    size := sizeofBuffer, timeout := 1000 }

/-- What the descriptor request returns, and what the local buffer holds then. -/
structure DescriptorReply where
  ret : Int
  buffer : Nat → UInt8
  ret_le : ret ≤ sizeofBuffer

/-- The caller's buffer and the accesses so far. -/
structure Scratch where
  buf : Nat → UInt8
  reads : List Nat
  writes : List Int

def Scratch.read (m : Scratch) (k : Nat) : Scratch := { m with reads := m.reads ++ [k] }

/-- `buf[i - 1] = b` -/
def Scratch.write (m : Scratch) (i : Nat) (b : UInt8) : Scratch :=
  { m with buf := Function.update m.buf (i - 1) b, writes := m.writes ++ [(i : Int) - 1] }

/-- The character `?`. -/
def unknown : UInt8 := 63

/-- One round of the loop: unit `i` lands at `i - 1`, after two reads. -/
def Scratch.round (buffer : Nat → UInt8) (m : Scratch) (i : Nat) : Scratch :=
  let m := (m.read (2 * i)).write i (buffer (2 * i))
  let m := m.read (2 * i + 1)
  if buffer (2 * i + 1) ≠ 0 then m.write i unknown else m

/-- The conversion from counter `i` on, and the counter it stops at. -/
def convert (buffer : Nat → UInt8) (buflen : Int) (m : Scratch) (i : Nat) : Nat → Scratch × Nat
  | 0 => (m, i)
  | rounds + 1 =>
    if i > buflen then (m, i)
    else convert buffer buflen (m.round buffer i) (i + 1) rounds

/-- What is done with the reply to the request. -/
def DescriptorReply.decode (reply : DescriptorReply) (buf : Nat → UInt8) (buflen : Int) :
    Scratch × Int :=
  let m : Scratch := { buf := buf, reads := [], writes := [] }
  if reply.ret < 0 then (m, reply.ret)
  else
    let m := m.read 1
    if reply.buffer 1 ≠ usbDtString then (m, 0)
    else
      let m := m.read 0
      let rval : Int :=
        if (reply.buffer 0).toNat < reply.ret then (reply.buffer 0).toNat else reply.ret
      let rval := rval / 2
      -- the loop runs while `i < rval`
      let converted := convert reply.buffer buflen m 1 (rval - 1).toNat
      let i := converted.2
      (converted.1.write i 0, (i : Int) - 1)

/-- `usbControlMsg` is the device behind the handle. -/
def usbGetStringAscii (usbControlMsg : ControlRequest → DescriptorReply) (index langid : Int)
    (buf : Nat → UInt8) (buflen : Int) : Scratch × Int :=
  (usbControlMsg (stringRequest index langid)).decode buf buflen

/-- A code unit within Latin-1, or `?`. -/
def latin1Unit (buffer : Nat → UInt8) (i : Nat) : UInt8 :=
  if buffer (2 * i + 1) = 0 then buffer (2 * i) else unknown

/-- The lesser of the length received and the length the descriptor announces. -/
def DescriptorReply.length (reply : DescriptorReply) : Nat :=
  min reply.ret.toNat (reply.buffer 0).toNat

/-- The code units behind the two bytes of the header. -/
def DescriptorReply.units (reply : DescriptorReply) : Nat := reply.length / 2 - 1

def DescriptorReply.latin1 (reply : DescriptorReply) : List UInt8 :=
  (List.range reply.units).map fun j => latin1Unit reply.buffer (j + 1)

@[simp] theorem latin1_length (reply : DescriptorReply) : reply.latin1.length = reply.units := by
  simp [DescriptorReply.latin1]

theorem length_le (reply : DescriptorReply) : reply.length ≤ 255 := by
  have hbyte := (reply.buffer 0).toNat_lt
  have hmin := Nat.min_le_right reply.ret.toNat (reply.buffer 0).toNat
  simp only [DescriptorReply.length]
  omega

section Loop

variable (buffer : Nat → UInt8) (buflen : Int)

theorem convert_succ (m : Scratch) (i rounds : Nat) (h : i ≤ buflen) :
    convert buffer buflen m i (rounds + 1) =
      convert buffer buflen (m.round buffer i) (i + 1) rounds := by
  have hroom : ¬(i > buflen) := by omega
  rw [convert, if_neg hroom]

theorem convert_full (m : Scratch) (i rounds : Nat) (h : i > buflen) :
    convert buffer buflen m i rounds = (m, i) := by
  cases rounds with
  | zero => rfl
  | succ rounds => rw [convert, if_pos h]

theorem round_buf (m : Scratch) (i : Nat) :
    (m.round buffer i).buf = Function.update m.buf (i - 1) (latin1Unit buffer i) := by
  by_cases h : buffer (2 * i + 1) = 0
  · simp [Scratch.round, Scratch.write, Scratch.read, latin1Unit, h]
  · simp [Scratch.round, Scratch.write, Scratch.read, latin1Unit, h]

theorem round_reads (m : Scratch) (i : Nat) :
    (m.round buffer i).reads = m.reads ++ [2 * i, 2 * i + 1] := by
  by_cases h : buffer (2 * i + 1) = 0
  · simp [Scratch.round, Scratch.write, Scratch.read, h]
  · simp [Scratch.round, Scratch.write, Scratch.read, h]

theorem mem_round_writes (m : Scratch) (i : Nat) (a : Int) :
    a ∈ (m.round buffer i).writes ↔ a ∈ m.writes ∨ a = (i : Int) - 1 := by
  by_cases h : buffer (2 * i + 1) = 0
  · simp [Scratch.round, Scratch.write, Scratch.read, h]
  · simp [Scratch.round, Scratch.write, Scratch.read, h]

/-- The counter stops when the units run out, or one past the last that fits. -/
theorem convert_stop (m : Scratch) (i rounds : Nat) (h : i ≤ buflen + 1) :
    ((convert buffer buflen m i rounds).2 : Int) = min ((i : Int) + rounds) (buflen + 1) := by
  induction rounds generalizing m i with
  | zero =>
    simp only [convert]
    omega
  | succ rounds ih =>
    by_cases hroom : i ≤ buflen
    · rw [convert_succ buffer buflen m i rounds hroom, ih _ _ (by omega)]
      omega
    · rw [convert_full buffer buflen m i _ (by omega)]
      omega

theorem convert_start_le (m : Scratch) (i rounds : Nat) :
    i ≤ (convert buffer buflen m i rounds).2 := by
  induction rounds generalizing m i with
  | zero => exact le_rfl
  | succ rounds ih =>
    by_cases hroom : i ≤ buflen
    · rw [convert_succ buffer buflen m i rounds hroom]
      exact (Nat.le_succ i).trans (ih _ _)
    · rw [convert_full buffer buflen m i _ (by omega)]

/-- Every position from the first counter to the last holds its unit, the others
what they held. -/
theorem convert_buf (m : Scratch) (i rounds j : Nat) (hi : 1 ≤ i) :
    (convert buffer buflen m i rounds).1.buf j =
      if i ≤ j + 1 ∧ j + 1 < (convert buffer buflen m i rounds).2 then latin1Unit buffer (j + 1)
      else m.buf j := by
  induction rounds generalizing m i with
  | zero =>
    have hnone : ¬(i ≤ j + 1 ∧ j + 1 < i) := by omega
    simp only [convert, hnone, if_false]
  | succ rounds ih =>
    by_cases hroom : i ≤ buflen
    · rw [convert_succ buffer buflen m i rounds hroom, ih _ _ (by omega), round_buf]
      have hstop := convert_start_le buffer buflen (m.round buffer i) (i + 1) rounds
      by_cases hj : j = i - 1
      · have hsucc : j + 1 = i := by omega
        have hlate : ¬(i + 1 ≤ j + 1 ∧
            j + 1 < (convert buffer buflen (m.round buffer i) (i + 1) rounds).2) := by omega
        rw [if_neg hlate, if_pos (by omega), hj, Function.update_self, Nat.sub_add_cancel hi]
      · rw [Function.update_of_ne hj]
        grind
    · rw [convert_full buffer buflen m i _ (by omega)]
      have hnone : ¬(i ≤ j + 1 ∧ j + 1 < i) := by omega
      rw [if_neg hnone]

theorem convert_writes (m : Scratch) (i rounds : Nat) (a : Int)
    (h : a ∈ (convert buffer buflen m i rounds).1.writes) :
    a ∈ m.writes ∨
      (i : Int) - 1 ≤ a ∧ a < ((convert buffer buflen m i rounds).2 : Int) - 1 := by
  induction rounds generalizing m i with
  | zero => exact Or.inl h
  | succ rounds ih =>
    by_cases hroom : i ≤ buflen
    · rw [convert_succ buffer buflen m i rounds hroom] at h ⊢
      have hstop := convert_start_le buffer buflen (m.round buffer i) (i + 1) rounds
      cases ih (m.round buffer i) (i + 1) h with
      | inl hround =>
        cases (mem_round_writes buffer m i a).mp hround with
        | inl hold => exact Or.inl hold
        | inr hnew => exact Or.inr (by omega)
      | inr hlate => exact Or.inr (by omega)
    · rw [convert_full buffer buflen m i _ (by omega)] at h
      exact Or.inl h

theorem convert_reads (m : Scratch) (i rounds k : Nat)
    (h : k ∈ (convert buffer buflen m i rounds).1.reads) :
    k ∈ m.reads ∨ k < 2 * (i + rounds) := by
  induction rounds generalizing m i with
  | zero => exact Or.inl h
  | succ rounds ih =>
    by_cases hroom : i ≤ buflen
    · rw [convert_succ buffer buflen m i rounds hroom] at h
      cases ih (m.round buffer i) (i + 1) h with
      | inl hround =>
        rw [round_reads, List.mem_append] at hround
        cases hround with
        | inl hold => exact Or.inl hold
        | inr hnew =>
          have hpair : k = 2 * i ∨ k = 2 * i + 1 := by simpa using hnew
          exact Or.inr (by omega)
      | inr hlate => exact Or.inr (by omega)
    · rw [convert_full buffer buflen m i _ (by omega)] at h
      exact Or.inl h

end Loop

theorem decode_failed (reply : DescriptorReply) (buf : Nat → UInt8) (buflen : Int)
    (h : reply.ret < 0) :
    reply.decode buf buflen = ({ buf := buf, reads := [], writes := [] }, reply.ret) :=
  if_pos h

theorem decode_malformed (reply : DescriptorReply) (buf : Nat → UInt8) (buflen : Int)
    (hret : 0 ≤ reply.ret) (h : reply.buffer 1 ≠ usbDtString) :
    reply.decode buf buflen = ({ buf := buf, reads := [1], writes := [] }, 0) := by
  simp only [DescriptorReply.decode, not_lt.mpr hret, if_false]
  exact if_pos h

/-- The run of the loop over the descriptor's units. -/
def DescriptorReply.converted (reply : DescriptorReply) (buf : Nat → UInt8) (buflen : Int) :
    Scratch × Nat :=
  convert reply.buffer buflen { buf := buf, reads := [1, 0], writes := [] } 1 reply.units

theorem decode_string (reply : DescriptorReply) (buf : Nat → UInt8) (buflen : Int)
    (hret : 0 ≤ reply.ret) (h : reply.buffer 1 = usbDtString) :
    reply.decode buf buflen =
      ((reply.converted buf buflen).1.write (reply.converted buf buflen).2 0,
        ((reply.converted buf buflen).2 : Int) - 1) := by
  have hmin : (if ((reply.buffer 0).toNat : Int) < reply.ret then ((reply.buffer 0).toNat : Int)
      else reply.ret) = reply.length := by
    simp only [DescriptorReply.length]
    split
    · omega
    · omega
  have hunits : ((reply.length : Int) / 2 - 1).toNat = reply.units := by
    simp only [DescriptorReply.units]
    omega
  simp only [DescriptorReply.decode, not_lt.mpr hret, if_false, h, ne_eq, not_true_eq_false, hmin,
    hunits]
  rfl

theorem converted_stop (reply : DescriptorReply) (buf : Nat → UInt8) (buflen : Int)
    (hlen : 0 ≤ buflen) :
    ((reply.converted buf buflen).2 : Int) = min (1 + (reply.units : Int)) (buflen + 1) :=
  convert_stop reply.buffer buflen _ 1 reply.units (by omega)

/-- A buffer of 128 bytes takes every descriptor whole. -/
theorem converted_stop_of_room (reply : DescriptorReply) (buf : Nat → UInt8) (buflen : Int)
    (hlen : 128 ≤ buflen) : (reply.converted buf buflen).2 = reply.units + 1 := by
  have hstop := converted_stop reply buf buflen (by omega)
  have hle := length_le reply
  have hunits : reply.units = reply.length / 2 - 1 := rfl
  omega

/-- The Latin-1 text and its NUL are stored, and nothing behind them. -/
theorem decode_buf (reply : DescriptorReply) (buf : Nat → UInt8) (buflen : Int)
    (hlen : 128 ≤ buflen) (hret : 0 ≤ reply.ret) (h : reply.buffer 1 = usbDtString) :
    (reply.decode buf buflen).1.buf = store buf 0 (reply.latin1 ++ [0]) := by
  funext j
  have hconv := convert_buf reply.buffer buflen { buf := buf, reads := [1, 0], writes := [] } 1
    reply.units j le_rfl
  rw [← DescriptorReply.converted, converted_stop_of_room reply buf buflen hlen] at hconv
  have hfinal : (reply.decode buf buflen).1.buf =
      Function.update (reply.converted buf buflen).1.buf reply.units 0 := by
    rw [decode_string reply buf buflen hret h, Scratch.write,
      converted_stop_of_room reply buf buflen hlen, Nat.add_sub_cancel]
  rw [hfinal, store_apply]
  by_cases hj : j = reply.units
  · subst hj
    simp
  · rw [Function.update_of_ne hj, hconv]
    by_cases hlt : j < reply.units
    · simp [hlt, Nat.lt_succ_of_lt hlt, DescriptorReply.latin1]
    · have hbehind : ¬(j < reply.units + 1) := by omega
      simp [hlt, hbehind]

/-- Every string descriptor is decoded exactly, and a failed request changes nothing. -/
theorem usbGetStringAscii_exact (usbControlMsg : ControlRequest → DescriptorReply)
    (index langid : Int) (buf : Nat → UInt8) (buflen : Int) :
    let reply := usbControlMsg (stringRequest index langid)
    let result := usbGetStringAscii usbControlMsg index langid buf buflen
    (128 ≤ buflen → 0 ≤ reply.ret → reply.buffer 1 = usbDtString →
      result.2 = reply.units ∧ result.1.buf reply.units = 0 ∧
      (∀ j < reply.units, result.1.buf j =
        if reply.buffer (2 * (j + 1) + 1) = 0 then reply.buffer (2 * (j + 1)) else unknown) ∧
      ∀ j > reply.units, result.1.buf j = buf j) ∧
    (reply.ret < 0 → result.2 = reply.ret ∧ result.1.buf = buf) := by
  intro reply result
  have hresult : result = reply.decode buf buflen := rfl
  rw [hresult]
  constructor
  · intro hlen hret htype
    have hbuf := decode_buf reply buf buflen hlen hret htype
    refine ⟨?_, ?_, ?_, ?_⟩
    · rw [decode_string reply buf buflen hret htype,
        converted_stop_of_room reply buf buflen hlen]
      omega
    · rw [hbuf, store_apply]
      simp
    · intro j hj
      rw [hbuf, store_apply]
      simp [DescriptorReply.latin1, hj, Nat.lt_succ_of_lt hj, latin1Unit]
    · intro j hj
      rw [hbuf]
      exact store_outside buf 0 j _ (Or.inr (by simpa using hj))
  · intro hret
    rw [decode_failed reply buf buflen hret]
    exact ⟨rfl, rfl⟩

/-- Three units, one of them outside Latin-1, in a reply shorter than it announces. -/
theorem usbGetStringAscii_exact_euro :
    let reply : DescriptorReply :=
      { ret := 9, buffer := fun k => [255, 3, 85, 0, 172, 32, 0, 0, 66].getD k 0,
        ret_le := by decide }
    let result := usbGetStringAscii (fun _ => reply) 2 0x0409 (fun _ => 7) 256
    result.2 = 3 ∧ result.1.buf 3 = 0 ∧ result.1.buf 0 = 85 ∧ result.1.buf 1 = unknown ∧
      result.1.buf 4 = 7 := by
  intro reply result
  have hunits : reply.units = 3 := by decide
  have hexact := (usbGetStringAscii_exact (fun _ => reply) 2 0x0409 (fun _ => 7) 256).1
    (by decide) (by decide) rfl
  rw [hunits] at hexact
  obtain ⟨hret, hnul, htext, hrest⟩ := hexact
  exact ⟨hret, hnul, htext 0 (by decide), htext 1 (by decide), hrest 4 (by decide)⟩

/-- Every write stays in the caller's buffer and every read in the local one. -/
def Scratch.Within (run : Scratch) (buflen : Int) : Prop :=
  (∀ a ∈ run.writes, 0 ≤ a ∧ a < buflen) ∧ ∀ k ∈ run.reads, k < sizeofBuffer

theorem converted_reads (reply : DescriptorReply) (buf : Nat → UInt8) (buflen : Int) :
    ∀ k ∈ (reply.converted buf buflen).1.reads, k < sizeofBuffer := by
  intro k hk
  have hle := length_le reply
  have hunits : reply.units = reply.length / 2 - 1 := rfl
  have hsize : sizeofBuffer = 256 := rfl
  cases convert_reads reply.buffer buflen _ 1 reply.units k hk with
  | inl hheader =>
    have hfirst : k = 1 ∨ k = 0 := by simpa using hheader
    omega
  | inr hloop => omega

theorem converted_writes (reply : DescriptorReply) (buf : Nat → UInt8) (buflen : Int)
    (hlen : 0 ≤ buflen) :
    ∀ a ∈ (reply.converted buf buflen).1.writes, 0 ≤ a ∧ a < buflen := by
  intro a ha
  have hstop := converted_stop reply buf buflen hlen
  cases convert_writes reply.buffer buflen _ 1 reply.units a ha with
  | inl hbefore => simp at hbefore
  | inr hloop =>
    rw [← DescriptorReply.converted] at hloop
    omega

/-- The terminator is the one write that can leave the buffer: it does when the
units before it fill the buffer. -/
theorem string_within_iff (reply : DescriptorReply) (buf : Nat → UInt8) (buflen : Int)
    (hlen : 1 ≤ buflen) (hret : 0 ≤ reply.ret) (htype : reply.buffer 1 = usbDtString) :
    (reply.decode buf buflen).1.Within buflen ↔ (reply.length / 2 : Nat) ≤ buflen := by
  have hstop := converted_stop reply buf buflen (by omega)
  have hunits : reply.units = reply.length / 2 - 1 := rfl
  rw [decode_string reply buf buflen hret htype]
  constructor
  · intro hwithin
    have hterminator := hwithin.1 (((reply.converted buf buflen).2 : Int) - 1)
      (by simp [Scratch.write])
    omega
  · intro hroom
    refine ⟨?_, converted_reads reply buf buflen⟩
    intro a ha
    rw [Scratch.write, List.mem_append] at ha
    cases ha with
    | inl hloop => exact converted_writes reply buf buflen (by omega) a hloop
    | inr hterminator =>
      rw [List.mem_singleton] at hterminator
      omega

theorem unwritten_within (reply : DescriptorReply) (buf : Nat → UInt8) (buflen : Int)
    (h : reply.ret < 0 ∨ reply.buffer 1 ≠ usbDtString) :
    (reply.decode buf buflen).1.Within buflen := by
  by_cases hret : reply.ret < 0
  · rw [decode_failed reply buf buflen hret]
    simp [Scratch.Within]
  · rw [decode_malformed reply buf buflen (by omega) (h.resolve_left hret)]
    simp [Scratch.Within, sizeofBuffer]

/-- The accesses stay in range exactly when no string is converted or it leaves
room for its NUL. -/
theorem usbGetStringAscii_within_iff (usbControlMsg : ControlRequest → DescriptorReply)
    (index langid : Int) (buf : Nat → UInt8) (buflen : Int) (hlen : 1 ≤ buflen) :
    let reply := usbControlMsg (stringRequest index langid)
    (usbGetStringAscii usbControlMsg index langid buf buflen).1.Within buflen ↔
      reply.ret < 0 ∨ reply.buffer 1 ≠ usbDtString ∨ (reply.length / 2 : Nat) ≤ buflen := by
  intro reply
  rw [usbGetStringAscii]
  by_cases hnone : reply.ret < 0 ∨ reply.buffer 1 ≠ usbDtString
  · rw [← or_assoc]
    exact ⟨fun _ => Or.inl hnone, fun _ => unwritten_within reply buf buflen hnone⟩
  · rw [not_or, not_lt, not_not] at hnone
    rw [string_within_iff reply buf buflen hlen hnone.1 hnone.2]
    simp [hnone.2, not_lt.mpr hnone.1]

/-- One unit in a buffer of two bytes leaves room for the NUL. -/
theorem usbGetStringAscii_within_two :
    let reply : DescriptorReply :=
      { ret := 4, buffer := fun k => [4, 3, 65, 0].getD k 0, ret_le := by decide }
    (usbGetStringAscii (fun _ => reply) 1 0x0409 (fun _ => 0) 2).1.Within 2 :=
  (usbGetStringAscii_within_iff _ _ _ _ 2 (by decide)).mpr (by decide)

/-- The same unit in a buffer of one byte puts the NUL behind it. -/
theorem usbGetStringAscii_overflows_one :
    let reply : DescriptorReply :=
      { ret := 4, buffer := fun k => [4, 3, 65, 0].getD k 0, ret_le := by decide }
    ¬(usbGetStringAscii (fun _ => reply) 1 0x0409 (fun _ => 0) 1).1.Within 1 := by
  intro reply hwithin
  have hterminator := hwithin.1 1 (by decide)
  omega

/-- The tool's own calls, with 256 bytes, are safe for every reply. -/
theorem usbGetStringAscii_within_of_room (usbControlMsg : ControlRequest → DescriptorReply)
    (index langid : Int) (buf : Nat → UInt8) (buflen : Int) (hlen : 128 ≤ buflen) :
    (usbGetStringAscii usbControlMsg index langid buf buflen).1.Within buflen := by
  rw [usbGetStringAscii]
  generalize usbControlMsg (stringRequest index langid) = reply
  by_cases hnone : reply.ret < 0 ∨ reply.buffer 1 ≠ usbDtString
  · exact unwritten_within reply buf buflen hnone
  · rw [not_or, not_lt, not_not] at hnone
    have hle := length_le reply
    rw [string_within_iff reply buf buflen (by omega) hnone.1 hnone.2]
    omega

end Usb
