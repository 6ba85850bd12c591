import DeviceDrivers.CString
import DeviceDrivers.Interaction
import DeviceDrivers.Ledger

/-!
# Finding the servo on the bus

`usbOpenDevice` walks the buses and their devices with one handle variable: a
candidate is opened, asked for its names, and closed again unless it is the one.
Whatever libusb answers, no handle leaks and none is closed twice.
-/
namespace Usb

open Interaction Ledger ByteMemory

def usbErrorNotfound : Int := 1
def usbErrorAccess : Int := 2
def usbErrorIo : Int := 3

/-- `struct usb_device`: where it lies, and what its device descriptor says. -/
structure UsbDevice where
  address : Nat
  idVendor : UInt16
  idProduct : UInt16
  iManufacturer : UInt8
  iProduct : UInt8
deriving DecidableEq

/-- The names a device must answer with. -/
structure Names where
  vendorName : CString
  productName : CString

variable {η : Type}

/-- The calls to libusb; a handle of `none` is the NULL pointer. -/
inductive UsbCall (η : Type) where
  | usbInit
  | usbFindBusses
  | usbFindDevices
  | usbOpen (dev : UsbDevice)
  | usbClose (handle : Option η)
  | usbGetStringAscii (handle : Option η) (index : UInt8) (langid : UInt16)
      (string : Nat → UInt8) (buflen : Int)

/-- What a call leaves: the handle or length it returns, the local array
`string`, and the text of `usb_strerror()`. -/
structure UsbReply (η : Type) where
  handle : Option η
  len : Int
  string : Nat → UInt8
  strerror : String

/-- The variables the two loops share, and what went to stderr. -/
structure Locals (η : Type) where
  handle : Option η
  errorCode : Int
  err : String

def Locals.start : Locals η := { handle := none, errorCode := usbErrorNotfound, err := "" }

def Locals.warn (l : Locals η) (code : Int) (what strerror : String) : Locals η :=
  { l with errorCode := code, err := l.err ++ s!"Warning: cannot {what}: {strerror}\n" }

/-- The bottom of the inner loop. -/
def closeAndReset (l : Locals η) : Program (UsbCall η) (UsbReply η) (Locals η × Bool) :=
  .call (.usbClose l.handle) fun _ => .done ({ l with handle := none }, false)

def langidUsEnglish : UInt16 := 0x0409
def sizeofString : Int := 256

section Search

variable (vendor product : Int) (names : Option Names)

/-- The body of the inner loop, and whether it breaks out of it. -/
def inspect (l : Locals η) (dev : UsbDevice) :
    Program (UsbCall η) (UsbReply η) (Locals η × Bool) :=
  if (dev.idVendor.toNat : Int) = vendor ∧ (dev.idProduct.toNat : Int) = product then
    .call (.usbOpen dev) fun opened =>
      let l := { l with handle := opened.handle }
      if l.handle.isNone then
        .done (l.warn usbErrorAccess "open USB device" opened.strerror, false)
      else
        match names with
        | none => .done (l, true)
        | some names =>
          .call (.usbGetStringAscii l.handle dev.iManufacturer langidUsEnglish opened.string
              sizeofString) fun maker =>
            if maker.len < 0 then
              closeAndReset (l.warn usbErrorIo "query manufacturer for device" maker.strerror)
            else
              let l := { l with errorCode := usbErrorNotfound }
              if strcmp maker.string 0 names.vendorName.bytes = 0 then
                .call (.usbGetStringAscii l.handle dev.iProduct langidUsEnglish maker.string
                    sizeofString) fun model =>
                  if model.len < 0 then
                    closeAndReset (l.warn usbErrorIo "query product for device" model.strerror)
                  else
                    let l := { l with errorCode := usbErrorNotfound }
                    if strcmp model.string 0 names.productName.bytes = 0 then .done (l, true)
                    else closeAndReset l
              else closeAndReset l
  else .done (l, false)

def scanDevices (l : Locals η) :
    List UsbDevice → Program (UsbCall η) (UsbReply η) (Locals η)
  | [] => .done l
  | dev :: rest =>
    (inspect vendor product names l dev).bind fun visited =>
      if visited.2 then .done visited.1 else scanDevices visited.1 rest

def scanBusses (l : Locals η) :
    List (List UsbDevice) → Program (UsbCall η) (UsbReply η) (Locals η)
  | [] => .done l
  | bus :: rest =>
    (scanDevices vendor product names l bus).bind fun l =>
      if l.handle.isSome then .done l else scanBusses l rest

end Search

structure OpenResult (η : Type) where
  device : Option η
  errorCode : Int
  didUsbInit : Bool
  err : String

/-- `device` is what `*device` holds, `buses` what `usb_get_busses` returns. -/
def usbOpenDevice (didUsbInit : Bool) (device : Option η) (vendor product : Int)
    (names : Option Names) (buses : List (List UsbDevice)) :
    Program (UsbCall η) (UsbReply η) (OpenResult η) :=
  let search : Program (UsbCall η) (UsbReply η) (OpenResult η) :=
    .call .usbFindBusses fun _ =>
    .call .usbFindDevices fun _ =>
      (scanBusses vendor product names Locals.start buses).bind fun l =>
        .done
          (if l.handle.isSome then
            { device := l.handle, errorCode := 0, didUsbInit := true, err := l.err }
          else
            { device := device, errorCode := l.errorCode, didUsbInit := true, err := l.err })
  if didUsbInit then search else .call .usbInit fun _ => search

def effect : UsbCall η × UsbReply η → List (Entry η)
  | (.usbOpen _, reply) => (reply.handle.map Entry.acquire).toList
  | (.usbClose handle, _) => (handle.map Entry.release).toList
  | (.usbGetStringAscii handle _ _ _ _, _) => (handle.map Entry.use).toList
  | _ => []

def handles (log : List (UsbCall η × UsbReply η)) : List (Entry η) := log.flatMap effect

def UsbCall.Opens : UsbCall η → Prop
  | .usbOpen _ => True
  | _ => False

/-- A query on the handle `h`. -/
def UsbCall.Queries (h : η) : UsbCall η → Prop
  | .usbGetStringAscii handle _ _ _ _ => handle = some h
  | _ => False

def FailureCode (code : Int) : Prop :=
  code = usbErrorNotfound ∨ code = usbErrorAccess ∨ code = usbErrorIo

@[simp] theorem handles_append (xs ys : List (UsbCall η × UsbReply η)) :
    handles (xs ++ ys) = handles xs ++ handles ys := List.flatMap_append

@[simp] theorem handles_cons (e : UsbCall η × UsbReply η) (log : List (UsbCall η × UsbReply η)) :
    handles (e :: log) = effect e ++ handles log := rfl

theorem effect_queries (h : η) (e : UsbCall η × UsbReply η) (hq : e.1.Queries h) :
    effect e = [.use h] := by
  obtain ⟨call, reply⟩ := e
  cases call with
  | usbGetStringAscii handle index langid string buflen =>
    have hhandle : handle = some h := hq
    subst hhandle
    rfl
  | _ => exact absurd hq id

theorem failureCode_ne_zero (code : Int) (h : FailureCode code) : code ≠ 0 := by
  rcases h with rfl | rfl | rfl
  · decide
  · decide
  · decide

/-- A device opened as `h`, and queries on it. -/
def Accepted (h : η) (log : List (UsbCall η × UsbReply η)) : Prop :=
  ∃ dev reply queries, log = (.usbOpen dev, reply) :: queries ∧ reply.handle = some h ∧
    ∀ e ∈ queries, e.1.Queries h

theorem queries_not_open (h : η) (call : UsbCall η) (hq : call.Queries h) : ¬call.Opens := by
  cases call with
  | usbOpen dev => exact absurd hq id
  | _ => exact id

theorem accepted_no_null (h : η) (log : List (UsbCall η × UsbReply η)) (hlog : Accepted h log) :
    ∀ e ∈ log, e.1 ≠ .usbClose none := by
  obtain ⟨dev, reply, queries, rfl, -, hq⟩ := hlog
  intro e he hclose
  cases List.mem_cons.mp he with
  | inl hhead => rw [hhead] at hclose; cases hclose
  | inr htail =>
    have hqe := hq e htail
    rw [hclose] at hqe
    exact hqe

variable [DecidableEq η]

/-- Calls that leave no handle open. -/
structure Skipped (log : List (UsbCall η × UsbReply η)) : Prop where
  balanced : replay [] (handles log) = some []
  no_null : ∀ e ∈ log, e.1 ≠ .usbClose none

/-- The loops' invariant: no handle and nothing open, or the accepted one at the end. -/
def Settled (l : Locals η) (log : List (UsbCall η × UsbReply η)) : Prop :=
  (l.handle = none ∧ FailureCode l.errorCode ∧ Skipped log) ∨
  ∃ h skipped accepted, l.handle = some h ∧ log = skipped ++ accepted ∧ Skipped skipped ∧
    Accepted h accepted

theorem skipped_nil : Skipped ([] : List (UsbCall η × UsbReply η)) := ⟨rfl, by simp⟩

theorem Skipped.append {xs ys : List (UsbCall η × UsbReply η)} (hx : Skipped xs)
    (hy : Skipped ys) : Skipped (xs ++ ys) where
  balanced := by rw [handles_append, replay_append, hx.balanced, Option.bind_some, hy.balanced]
  no_null := by
    intro e he
    cases List.mem_append.mp he with
    | inl h => exact hx.no_null e h
    | inr h => exact hy.no_null e h

/-- A call that neither opens nor closes, before any handle is open. -/
theorem Skipped.cons_idle {log : List (UsbCall η × UsbReply η)} (e : UsbCall η × UsbReply η)
    (hidle : effect e = []) (hnull : e.1 ≠ .usbClose none) (h : Skipped log) :
    Skipped (e :: log) where
  balanced := by rw [handles_cons, hidle, List.nil_append, h.balanced]
  no_null := by
    intro e' he
    cases List.mem_cons.mp he with
    | inl hhead => exact hhead ▸ hnull
    | inr htail => exact h.no_null e' htail

theorem Settled.append {l : Locals η} {xs ys : List (UsbCall η × UsbReply η)} (hx : Skipped xs)
    (hy : Settled l ys) : Settled l (xs ++ ys) := by
  cases hy with
  | inl hnone => exact Or.inl ⟨hnone.1, hnone.2.1, hx.append hnone.2.2⟩
  | inr hsome =>
    obtain ⟨h, skipped, accepted, hhandle, rfl, hskipped, haccepted⟩ := hsome
    exact Or.inr ⟨h, xs ++ skipped, accepted, hhandle, (List.append_assoc _ _ _).symm,
      hx.append hskipped, haccepted⟩

theorem replay_queries (h : η) (queries : List (UsbCall η × UsbReply η))
    (hq : ∀ e ∈ queries, e.1.Queries h) (log : List (Entry η)) :
    replay [h] (handles queries ++ log) = replay [h] log := by
  induction queries with
  | nil => rfl
  | cons e queries ih =>
    rw [handles_cons, effect_queries h e (hq e List.mem_cons_self), List.append_assoc,
      List.singleton_append, replay_use [h] h _ List.mem_cons_self]
    exact ih fun e' he' => hq e' (List.mem_cons_of_mem e he')

/-- What is opened, asked and closed again leaves nothing open. -/
theorem skipped_of_closed (h : η) (dev : UsbDevice) (opened closed : UsbReply η)
    (queries : List (UsbCall η × UsbReply η)) (hopen : opened.handle = some h)
    (hq : ∀ e ∈ queries, e.1.Queries h) :
    Skipped ((.usbOpen dev, opened) :: queries ++ [(.usbClose (some h), closed)]) where
  balanced := by
    have hacquire : effect (.usbOpen dev, opened) = [.acquire h] := by
      simp [effect, hopen]
    have hrelease : handles [(UsbCall.usbClose (some h), closed)] = [.release h] := rfl
    rw [handles_append, handles_cons, hacquire, hrelease, List.append_assoc,
      List.singleton_append, replay_acquire, replay_queries h queries hq,
      replay_release [h] h _ List.mem_cons_self, List.erase_cons_head, replay_nil]
  no_null := by
    intro e he
    simp only [List.cons_append, List.mem_cons, List.mem_append, List.not_mem_nil, or_false] at he
    rcases he with rfl | hquery | rfl
    · exact fun hclose => by cases hclose
    · intro hclose
      have hqe := hq e hquery
      rw [hclose] at hqe
      exact hqe
    · exact fun hclose => by cases hclose

section Runs

variable {σ : Type} (serve : σ → UsbCall η → σ × UsbReply η)
variable (vendor product : Int) (names : Option Names)

/-- A candidate that fails is closed, whatever it was asked before. -/
theorem settled_closeAndReset (l : Locals η) (h : η) (dev : UsbDevice) (opened : UsbReply η)
    (queries : List (UsbCall η × UsbReply η)) (s : σ) (hhandle : l.handle = some h)
    (hcode : FailureCode l.errorCode) (hopen : opened.handle = some h)
    (hq : ∀ e ∈ queries, e.1.Queries h) :
    let r := (exec serve (closeAndReset l) s).2
    Settled r.1 ((.usbOpen dev, opened) :: queries ++ trace serve (closeAndReset l) s) ∧
      r.2 = r.1.handle.isSome := by
  simp only [closeAndReset, exec_call, exec_done, trace_call, trace_done, hhandle]
  exact ⟨Or.inl ⟨rfl, hcode, skipped_of_closed h dev opened _ queries hopen hq⟩, rfl⟩

theorem inspect_settled (l : Locals η) (dev : UsbDevice) (s : σ) (hnull : l.handle = none)
    (hcode : FailureCode l.errorCode) :
    let r := (exec serve (inspect vendor product names l dev) s).2
    Settled r.1 (trace serve (inspect vendor product names l dev) s) ∧
      r.2 = r.1.handle.isSome := by
  unfold inspect
  split
  · rw [exec_call, trace_call]
    cases hopen : (serve s (.usbOpen dev)).2.handle with
    | none =>
      simp only [Option.isNone_none, if_true, exec_done, trace_done]
      have hidle : effect (.usbOpen dev, (serve s (.usbOpen dev)).2) = [] := by
        simp [effect, hopen]
      exact ⟨Or.inl ⟨rfl, Or.inr (Or.inl rfl),
        skipped_nil.cons_idle _ hidle (fun hclose => by cases hclose)⟩, rfl⟩
    | some h =>
      simp only [Option.isNone_some, Bool.false_eq_true, if_false]
      cases names with
      | none =>
        exact ⟨Or.inr ⟨h, [], _, rfl, rfl, skipped_nil, dev, _, [], rfl, hopen, by simp⟩, rfl⟩
      | some names =>
        simp only [exec_call, trace_call]
        generalize hmaker : serve (serve s (.usbOpen dev)).1 _ = maker
        have hfirst : UsbCall.Queries h (.usbGetStringAscii (some h) dev.iManufacturer
            langidUsEnglish (serve s (.usbOpen dev)).2.string sizeofString) := rfl
        split
        · exact settled_closeAndReset serve _ h dev _ [_] _ rfl (Or.inr (Or.inr rfl)) hopen
            (by simpa using hfirst)
        · split
          · simp only [exec_call, trace_call]
            have hsecond : UsbCall.Queries h (.usbGetStringAscii (some h) dev.iProduct
                langidUsEnglish maker.2.string sizeofString) := rfl
            split
            · exact settled_closeAndReset serve _ h dev _ [_, _] _ rfl (Or.inr (Or.inr rfl)) hopen
                (by simpa using ⟨hfirst, hsecond⟩)
            · split
              · exact ⟨Or.inr ⟨h, [], _, rfl, rfl, skipped_nil, dev, _, [_, _], rfl, hopen,
                  by simpa using ⟨hfirst, hsecond⟩⟩, rfl⟩
              · exact settled_closeAndReset serve _ h dev _ [_, _] _ rfl (Or.inl rfl) hopen
                  (by simpa using ⟨hfirst, hsecond⟩)
          · exact settled_closeAndReset serve _ h dev _ [_] _ rfl (Or.inl rfl) hopen
              (by simpa using hfirst)
  · simp only [exec_done, trace_done, hnull]
    exact ⟨Or.inl ⟨hnull, hcode, skipped_nil⟩, rfl⟩

/-- Both loops stop at an accepted handle and otherwise go on as they started. -/
theorem Settled.next {l : Locals η} {log : List (UsbCall η × UsbReply η)} (hl : Settled l log)
    (rest : Program (UsbCall η) (UsbReply η) (Locals η)) (s : σ)
    (hrest : l.handle = none → FailureCode l.errorCode →
      Settled (exec serve rest s).2 (trace serve rest s)) :
    let p := if l.handle.isSome then .done l else rest
    Settled (exec serve p s).2 (log ++ trace serve p s) := by
  cases hl with
  | inl hnone =>
    obtain ⟨hnull, hcode, hskipped⟩ := hnone
    simp only [hnull, Option.isSome_none, Bool.false_eq_true, if_false]
    exact Settled.append hskipped (hrest hnull hcode)
  | inr hsome =>
    obtain ⟨h, skipped, accepted, hhandle, hlog⟩ := hsome
    simp only [hhandle, Option.isSome_some, if_true, exec_done, trace_done, List.append_nil]
    exact Or.inr ⟨h, skipped, accepted, hhandle, hlog⟩

theorem scanDevices_settled (devices : List UsbDevice) (l : Locals η) (s : σ)
    (hnull : l.handle = none) (hcode : FailureCode l.errorCode) :
    Settled (exec serve (scanDevices vendor product names l devices) s).2
      (trace serve (scanDevices vendor product names l devices) s) := by
  induction devices generalizing l s with
  | nil => exact Or.inl ⟨hnull, hcode, skipped_nil⟩
  | cons dev devices ih =>
    obtain ⟨hvisit, hbroke⟩ := inspect_settled serve vendor product names l dev s hnull hcode
    simp only [scanDevices, exec_bind, trace_bind, hbroke]
    exact hvisit.next serve _ _ (ih _ _)

theorem scanBusses_settled (buses : List (List UsbDevice)) (l : Locals η) (s : σ)
    (hnull : l.handle = none) (hcode : FailureCode l.errorCode) :
    Settled (exec serve (scanBusses vendor product names l buses) s).2
      (trace serve (scanBusses vendor product names l buses) s) := by
  induction buses generalizing l s with
  | nil => exact Or.inl ⟨hnull, hcode, skipped_nil⟩
  | cons bus buses ih =>
    have hbus := scanDevices_settled serve vendor product names bus l s hnull hcode
    simp only [scanBusses, exec_bind, trace_bind]
    exact hbus.next serve _ _ (ih _ _)

/-- The result, read off the variables the loops left. -/
def OpenResult.Of (device : Option η) (l : Locals η) (result : OpenResult η) : Prop :=
  result.device = (if l.handle.isSome then l.handle else device) ∧
    result.errorCode = if l.handle.isSome then 0 else l.errorCode

theorem usbOpenDevice_settled (didUsbInit : Bool) (device : Option η)
    (buses : List (List UsbDevice)) (s : σ) :
    let program := usbOpenDevice didUsbInit device vendor product names buses
    ∃ s', let l := (exec serve (scanBusses vendor product names Locals.start buses) s').2
      Settled l (trace serve program s) ∧ OpenResult.Of device l (exec serve program s).2 := by
  have hidle : ∀ {l : Locals η} {log} (e : UsbCall η × UsbReply η), effect e = [] →
      e.1 ≠ .usbClose none → Settled l log → Settled l (e :: log) :=
    fun e heffect hnull h => Settled.append (skipped_nil.cons_idle e heffect hnull) h
  have hsearch := fun s => scanBusses_settled serve vendor product names buses Locals.start s rfl
    (Or.inl rfl)
  have hresult : ∀ l : Locals η, OpenResult.Of device l
      (if l.handle.isSome then
        { device := l.handle, errorCode := 0, didUsbInit := true, err := l.err }
      else
        { device := device, errorCode := l.errorCode, didUsbInit := true, err := l.err }) := by
    intro l
    unfold OpenResult.Of
    split
    · exact ⟨rfl, rfl⟩
    · exact ⟨rfl, rfl⟩
  cases didUsbInit with
  | true =>
    simp only [usbOpenDevice, if_true, exec_call, trace_call, exec_bind, trace_bind, exec_done,
      trace_done, List.append_nil]
    exact ⟨_, hidle _ rfl (fun h => by cases h) (hidle _ rfl (fun h => by cases h) (hsearch _)),
      hresult _⟩
  | false =>
    simp only [usbOpenDevice, Bool.false_eq_true, if_false, exec_call, trace_call, exec_bind,
      trace_bind, exec_done, trace_done, List.append_nil]
    exact ⟨_, hidle _ rfl (fun h => by cases h) (hidle _ rfl (fun h => by cases h)
      (hidle _ rfl (fun h => by cases h) (hsearch _))), hresult _⟩

end Runs

theorem replay_accepted (h : η) (log : List (UsbCall η × UsbReply η)) (hlog : Accepted h log) :
    replay [] (handles log) = some [h] := by
  obtain ⟨dev, reply, queries, rfl, hopen, hq⟩ := hlog
  have hacquire : effect (.usbOpen dev, reply) = [.acquire h] := by simp [effect, hopen]
  have hqueries := replay_queries h queries hq []
  rw [List.append_nil] at hqueries
  rw [handles_cons, hacquire, List.singleton_append, replay_acquire, hqueries, replay_nil]

/-- A successful search hands over one open handle and has closed the others once;
a failed one has closed them all and leaves `*device` alone. -/
theorem usbOpenDevice_handles {σ : Type} (serve : σ → UsbCall η → σ × UsbReply η)
    (vendor product : Int) (names : Option Names) (didUsbInit : Bool) (device : Option η)
    (buses : List (List UsbDevice)) (s : σ) :
    let program := usbOpenDevice didUsbInit device vendor product names buses
    let result := (exec serve program s).2
    let log := trace serve program s
    (result.errorCode = 0 →
      ∃ h before dev reply after, result.device = some h ∧
        log = before ++ (.usbOpen dev, reply) :: after ∧ reply.handle = some h ∧
        (∀ e ∈ after, ¬e.1.Opens) ∧ replay [] (handles log) = some [h] ∧
        ∀ other, acquires other (handles log) = releases other (handles log) + [h].count other) ∧
    (result.errorCode ≠ 0 →
      FailureCode result.errorCode ∧ result.device = device ∧
        replay [] (handles log) = some [] ∧
        ∀ h, acquires h (handles log) = releases h (handles log)) ∧
    ∀ e ∈ log, e.1 ≠ .usbClose none := by
  intro program result log
  obtain ⟨s', hsettled, hdevice, hcode⟩ :=
    usbOpenDevice_settled serve vendor product names didUsbInit device buses s
  generalize (exec serve (scanBusses vendor product names Locals.start buses) s').2 = l
    at hsettled hdevice hcode
  cases hsettled with
  | inl hnone =>
    obtain ⟨hnull, hfailure, hskipped⟩ := hnone
    rw [hnull] at hdevice hcode
    have hcode : result.errorCode = l.errorCode := hcode
    have hnonzero : result.errorCode ≠ 0 := hcode ▸ failureCode_ne_zero l.errorCode hfailure
    have hcount := replay_count [] [] (handles log) hskipped.balanced
    refine ⟨fun hzero => absurd hzero hnonzero, fun _ => ⟨hcode ▸ hfailure, hdevice,
      hskipped.balanced, ?_⟩, hskipped.no_null⟩
    intro h
    simpa using hcount h
  | inr hsome =>
    obtain ⟨h, skipped, accepted, hhandle, hlog, hskipped, haccepted⟩ := hsome
    rw [hhandle] at hdevice hcode
    have hlog : log = skipped ++ accepted := hlog
    have hreplay : replay [] (handles log) = some [h] := by
      rw [hlog, handles_append, replay_append, hskipped.balanced, Option.bind_some,
        replay_accepted h accepted haccepted]
    have hcount := replay_count [] [h] (handles log) hreplay
    have hnull : ∀ e ∈ log, e.1 ≠ .usbClose none := by
      intro e he
      rw [hlog] at he
      cases List.mem_append.mp he with
      | inl hbefore => exact hskipped.no_null e hbefore
      | inr hafter => exact accepted_no_null h accepted haccepted e hafter
    refine ⟨fun _ => ?_, fun hnonzero => absurd hcode hnonzero, hnull⟩
    obtain ⟨dev, reply, queries, rfl, hopen, hq⟩ := haccepted
    exact ⟨h, skipped, dev, reply, queries, hdevice, hlog, hopen,
      fun e he => queries_not_open h e.1 (hq e he), hreplay,
      fun other => by simpa using hcount other⟩

end Usb
