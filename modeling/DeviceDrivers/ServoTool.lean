import DeviceDrivers.ServoAgreement
import DeviceDrivers.UsbMatch

/-!
# The command line tool's exit status

`main` of `usb-servo` dispatches on the first argument. A failure reaches it as an
exit in a command, as its own exit, or as a return value of 1, which prints the
usage and is then forgotten.
-/
namespace Servo

open Interaction Usb ByteMemory

/-- The characters of `test` and `status`. -/
def testWord : List UInt8 := [116, 101, 115, 116]
def statusWord : List UInt8 := [115, 116, 97, 116, 117, 115]

inductive ToolCall (δ : Type) where
  | usbInit
  | control (msg : ControlMsg δ)
  | usbClose (handle : δ)

def text (s : List UInt8) : String := String.ofList (s.map fun c => Char.ofNat c.toNat)

def usage (name : List UInt8) : String :=
  s!"usage:\n  {text name} status\n  {text name} set <angle>\n  {text name} test\n\n" ++
    "parameters:\n  angle: Required angle for the servo.\n"

variable {η σ : Type}

section Main

variable (opened : OpenResult η) (usbStrerror : Int → String)
variable (rand : Nat → Nat) (buffer : Nat → UInt8)

/-- What follows the call of a command: the usage where it returned non-zero, and 0
in any case. -/
def finish (command : List UInt8) (outcome : Outcome) :
    Program (ToolCall (Option η)) Answer Outcome :=
  match outcome.ended with
  | .returned code =>
    let err := if code ≠ 0 then outcome.err ++ usage command else outcome.err
    .call (.usbClose opened.device) fun _ =>
      .done { ended := .returned 0, out := outcome.out, err := opened.err ++ err }
  | _ => .done { outcome with err := opened.err ++ outcome.err }

/-- `opened` is what `usbOpenDevice` returned and stored. -/
def usbServo (argv : List (List UInt8)) : Program (ToolCall (Option η)) Answer Outcome :=
  match argv with
  | [] => .done { ended := .undefined, out := "", err := "" }
  | [name] => .done { ended := .exited 1, out := "", err := usage name }
  | name :: command :: _ =>
    .call .usbInit fun _ =>
      if opened.errorCode ≠ 0 then
        let notFound := "Could not find USB device \"USB-Servo\""
        let ids := s!" with vid={hex usbdevSharedVendor.toNat} pid={hex usbdevSharedProduct.toNat}\n"
        .done { ended := .exited 1, out := "", err := opened.err ++ notFound ++ ids }
      else
        let perform (p : Program (ControlMsg (Option η)) Answer Outcome) :=
          (p.rename ToolCall.control).bind (finish opened command)
        if command = testWord then
          perform (devTest opened.device usbStrerror rand buffer argv)
        else if command = setWord then perform (devSet opened.device usbStrerror argv)
        else if command = statusWord then
          perform (devStatus opened.device usbStrerror buffer argv)
        else .done { ended := .exited 1, out := "", err := opened.err ++ usage name }

end Main

/-- How a transfer ends: with an error, or after some bytes. -/
inductive TransferResult where
  | failed (e : Nat)
  | moved (data : List UInt8)

variable {δ : Type}

/-- The data stage holds at most `size` bytes, and is read for an IN transfer. -/
def TransferResult.answer (msg : ControlMsg δ) : TransferResult → Answer
  | .failed e => { ret := Int.negSucc e, data := [] }
  | .moved data =>
    let data := data.take msg.size.toNat
    { ret := data.length, data := if msg.isIn then data else [] }

/-- Any device behind the link, with a state of its own. -/
def carry (link : σ → ControlMsg δ → σ × TransferResult) (s : σ) (msg : ControlMsg δ) :
    σ × Answer :=
  ((link s msg).1, (link s msg).2.answer msg)

def toolServer (link : σ → ControlMsg δ → σ × TransferResult) (s : σ) :
    ToolCall δ → σ × Answer
  | .control msg => carry link s msg
  | _ => (s, { ret := 0, data := [] })

/-- The echo came back with at least two bytes, and they are the value sent. -/
def Echoed (e : ControlMsg δ × Answer) : Prop :=
  e.1.request = cmdEcho ∧ 2 ≤ e.2.ret ∧ leValue (e.2.data.take 2) = e.1.value.toNat

def AllEchoed (rounds : Nat) (log : List (ControlMsg δ × Answer)) : Prop :=
  log.length = rounds ∧ ∀ e ∈ log, Echoed e

def AngleSent (log : List (ControlMsg δ × Answer)) : Prop :=
  ∃ e, log = [e] ∧ e.1.request = cmdSet ∧ 0 ≤ e.2.ret

def StatusReceived (log : List (ControlMsg δ × Answer)) : Prop :=
  ∃ e, log = [e] ∧ e.1.request = cmdGet ∧ 1 ≤ e.2.ret

/-- The command is well formed and its operation was carried out in these transfers. -/
def CarriedOut (args : List (List UInt8)) (log : List (ControlMsg δ × Answer)) : Prop :=
  args = [testWord] ∧ AllEchoed 1000 log ∨
  (∃ angle, args = [setWord, angle]) ∧ AngleSent log ∨
  args = [statusWord] ∧ StatusReceived log

def transfers (log : List (ToolCall δ × Answer)) : List (ControlMsg δ × Answer) :=
  log.filterMap fun e =>
    match e.1 with
    | .control msg => some (msg, e.2)
    | _ => none

/-- The status of a process that ended. -/
def Ended.status : Ended → Option Int
  | .returned code => some code
  | .exited code => some code
  | .undefined => none

/-- Status 0 if and only if the device was found and the command carried out, and
a status other than 0 in every other case. -/
def Truthful (opened : OpenResult η) (args : List (List UInt8))
    (log : List (ToolCall δ × Answer)) (outcome : Outcome) : Prop :=
  (outcome.ended.status = some 0 ↔ opened.errorCode = 0 ∧ CarriedOut args (transfers log)) ∧
  ∃ code, outcome.ended.status = some code

/-- A known command with a wrong number of arguments behind it. -/
def WrongCount (command : List UInt8) (rest : List (List UInt8)) : Prop :=
  (command = testWord ∨ command = statusWord) ∧ rest ≠ [] ∨
    command = setWord ∧ rest.length ≠ 1

/-- Such a command after the device was found. -/
def Miscounted (opened : OpenResult η) (args : List (List UInt8)) : Prop :=
  opened.errorCode = 0 ∧ ∃ command rest, args = command :: rest ∧ WrongCount command rest

section Commands

variable (link : σ → ControlMsg δ → σ × TransferResult) (handle : δ)
variable (usbStrerror : Int → String)

/-- The program returns 0 when its transfers reach the goal, and exits with 1
otherwise. -/
def Delivers (p : Program (ControlMsg δ) Answer Outcome)
    (goal : List (ControlMsg δ × Answer) → Prop) : Prop :=
  ∀ s, let outcome := (exec (carry link) p s).2
    outcome.ended = .returned 0 ∧ goal (trace (carry link) p s) ∨
    outcome.ended = .exited 1 ∧ ¬goal (trace (carry link) p s)

theorem carry_length (s : σ) (msg : ControlMsg δ) (hin : msg.isIn = true)
    (h : 0 ≤ (carry link s msg).2.ret) :
    (carry link s msg).2.ret = (carry link s msg).2.data.length := by
  cases hresult : (link s msg).2 with
  | failed e =>
    simp only [carry, hresult, TransferResult.answer] at h
    omega
  | moved data => simp [carry, hresult, TransferResult.answer, hin]

/-- The first two bytes of the buffer are the word received. -/
theorem buffer_word (buffer : Nat → UInt8) (data : List UInt8) (h : 2 ≤ data.length) :
    (store buffer 0 data 0).toNat ||| (store buffer 0 data 1).toNat <<< 8 =
      leValue (data.take 2) := by
  obtain ⟨b0, b1, rest, rfl⟩ : ∃ b0 b1 rest, data = b0 :: b1 :: rest := by
    match data, h with
    | b0 :: b1 :: rest, _ => exact ⟨b0, b1, rest, rfl⟩
  simp [store_apply, or_shift_eq_leValue]

theorem allEchoed_cons (rounds : Nat) (e : ControlMsg δ × Answer)
    (log : List (ControlMsg δ × Answer)) :
    AllEchoed (rounds + 1) (e :: log) ↔ Echoed e ∧ AllEchoed rounds log := by
  simp only [AllEchoed, List.length_cons, Nat.add_right_cancel_iff, List.forall_mem_cons]
  tauto

theorem devTestLoop_delivers (rand : Nat → Nat) (buffer : Nat → UInt8) (i rounds : Nat) :
    Delivers link (devTestLoop handle usbStrerror rand buffer i rounds) (AllEchoed rounds) := by
  induction rounds generalizing i buffer with
  | zero =>
    intro s
    exact Or.inl ⟨rfl, rfl, by simp [devTestLoop]⟩
  | succ rounds ih =>
    intro s
    have hin : (echoMsg handle (UInt16.ofNat (rand i))).isIn = true := isIn_vendor_in _ rfl
    have hlen := carry_length link s (echoMsg handle (UInt16.ofNat (rand i))) hin
    simp only [devTestLoop, exec_call, trace_call, allEchoed_cons]
    generalize carry link s (echoMsg handle (UInt16.ofNat (rand i))) = result at hlen ⊢
    split
    · rename_i hshort
      exact Or.inr ⟨rfl, fun hall => absurd hshort (not_lt.mpr hall.1.2.1)⟩
    · rename_i hlong
      have hword := buffer_word buffer result.2.data (by omega)
      split
      · rename_i hother
        exact Or.inr ⟨rfl, fun hall => hother (hword.trans hall.1.2.2)⟩
      · rename_i hsame
        have hecho : Echoed (echoMsg handle (UInt16.ofNat (rand i)), result.2) :=
          ⟨rfl, not_lt.mp hlong, hword.symm.trans (not_not.mp hsame)⟩
        simpa only [hecho, true_and] using ih _ _ result.1

theorem devSet_delivers (name command arg : List UInt8) :
    Delivers link (devSet handle usbStrerror [name, command, arg]) AngleSent := by
  intro s
  simp only [devSet]
  split
  · exact Or.inr ⟨rfl, by simp [AngleSent]⟩
  · simp only [exec_call, trace_call]
    generalize carry link s (setMsg handle (UInt16.ofBitVec ((atoi arg).setWidth 16))) = result
    split
    · rename_i hfailed
      refine Or.inr ⟨rfl, ?_⟩
      rintro ⟨e, hlog, -, hret⟩
      cases hlog
      exact absurd hfailed (not_lt.mpr hret)
    · rename_i hsent
      exact Or.inl ⟨rfl, _, rfl, rfl, not_lt.mp hsent⟩

theorem devStatus_delivers (buffer : Nat → UInt8) (name command : List UInt8) :
    Delivers link (devStatus handle usbStrerror buffer [name, command]) StatusReceived := by
  intro s
  simp only [devStatus, List.length_cons, List.length_nil, ne_eq, not_true_eq_false, if_false,
    exec_call, trace_call]
  generalize carry link s (getMsg handle) = result
  have hshort : ∀ log : List (ControlMsg δ × Answer), log = [(getMsg handle, result.2)] →
      result.2.ret < 1 → ¬StatusReceived log := by
    rintro log rfl hret ⟨e, hlog, -, hreceived⟩
    cases hlog
    exact absurd hret (not_lt.mpr hreceived)
  split
  · rename_i hfailed
    exact Or.inr ⟨rfl, hshort _ rfl (by omega)⟩
  · split
    · rename_i hnone
      exact Or.inr ⟨rfl, hshort _ rfl hnone⟩
    · rename_i hreceived
      exact Or.inl ⟨rfl, _, rfl, rfl, not_lt.mp hreceived⟩

theorem devTest_delivers (rand : Nat → Nat) (buffer : Nat → UInt8) (name command : List UInt8) :
    Delivers link (devTest handle usbStrerror rand buffer [name, command]) (AllEchoed 1000) := by
  simp only [devTest, List.length_cons, List.length_nil, ne_eq, not_true_eq_false, if_false]
  exact devTestLoop_delivers link handle usbStrerror rand buffer 0 1000

/-- A wrong number of arguments makes every command return 1 without a transfer. -/
theorem devTest_returned (rand : Nat → Nat) (buffer : Nat → UInt8) (argv : List (List UInt8))
    (h : argv.length ≠ 2) :
    devTest handle usbStrerror rand buffer argv =
      .done { ended := .returned 1, out := "", err := "" } := if_pos h

theorem devStatus_returned (buffer : Nat → UInt8) (argv : List (List UInt8))
    (h : argv.length ≠ 2) :
    devStatus handle usbStrerror buffer argv =
      .done { ended := .returned 1, out := "", err := "" } := if_pos h

theorem devSet_returned (argv : List (List UInt8)) (h : argv.length ≠ 3) :
    devSet handle usbStrerror argv = .done { ended := .returned 1, out := "", err := "" } := by
  unfold devSet
  split
  · exact absurd rfl h
  · rfl

end Commands

theorem transfers_control (log : List (ControlMsg δ × Answer)) :
    transfers (log.map fun e => (ToolCall.control e.1, e.2)) = log := by
  induction log with
  | nil => rfl
  | cons e log ih => exact congrArg (e :: ·) ih

theorem transfers_append (xs ys : List (ToolCall δ × Answer)) :
    transfers (xs ++ ys) = transfers xs ++ transfers ys := List.filterMap_append

section Process

variable (opened : OpenResult η)
variable (link : σ → ControlMsg (Option η) → σ × TransferResult) (command : List UInt8)
variable (p : Program (ControlMsg (Option η)) Answer Outcome) (s : σ)

/-- A command inside `main`: its transfers, and the status `main` makes of its end. -/
theorem perform_run :
    let main := (p.rename ToolCall.control).bind (finish opened command)
    transfers (trace (toolServer link) main s) = trace (carry link) p s ∧
      (exec (toolServer link) main s).2.ended =
        match (exec (carry link) p s).2.ended with
        | .returned _ => .returned 0
        | ended => ended := by
  intro main
  have hfinish : ∀ outcome s', transfers (trace (toolServer link) (finish opened command outcome) s')
      = [] ∧ (exec (toolServer link) (finish opened command outcome) s').2.ended =
        match outcome.ended with
        | .returned _ => .returned 0
        | ended => ended := by
    intro outcome s'
    unfold finish
    cases hended : outcome.ended with
    | returned code => exact ⟨rfl, rfl⟩
    | exited code => exact ⟨rfl, rfl⟩
    | undefined => exact ⟨rfl, rfl⟩
  have hserve : (fun s q => toolServer link s (ToolCall.control q)) = carry link := rfl
  have hend := hfinish (exec (carry link) p s).2 (exec (carry link) p s).1
  constructor
  · simp only [main, trace_bind, trace_rename, exec_rename, hserve, transfers_append,
      transfers_control, hend.1, List.append_nil]
  · simp only [main, exec_bind, exec_rename, hserve]
    exact hend.2

variable (args : List (List UInt8))

/-- A command that delivers what its arguments ask for makes the status true. -/
theorem truthful_of_delivers (goal : List (ControlMsg (Option η) × Answer) → Prop)
    (hfound : opened.errorCode = 0) (hdelivers : Delivers link p goal)
    (hgoal : ∀ log : List (ControlMsg (Option η) × Answer), CarriedOut args log ↔ goal log) :
    let main := (p.rename ToolCall.control).bind (finish opened command)
    Truthful opened args (trace (toolServer link) main s) (exec (toolServer link) main s).2 := by
  intro main
  obtain ⟨htransfers, hended⟩ := perform_run opened link command p s
  unfold Truthful
  rw [htransfers, hended, hgoal]
  cases hdelivers s with
  | inl hdone => simp [hdone.1, hdone.2, hfound, Ended.status]
  | inr hfailed => simp [hfailed.1, hfailed.2, Ended.status]

/-- A command that returned 1 leaves status 0 behind. -/
theorem not_truthful_of_returned (outcome : Outcome) (hended : outcome.ended = .returned 1)
    (hnot : ∀ log : List (ControlMsg (Option η) × Answer), ¬CarriedOut args log) :
    let main := ((Program.done outcome).rename ToolCall.control).bind (finish opened command)
    ¬Truthful opened args (trace (toolServer link) main s)
      (exec (toolServer link) main s).2 := by
  intro main htruthful
  obtain ⟨-, hzero⟩ := perform_run opened link command (.done outcome) s
  rw [exec_done, hended] at hzero
  have hstatus : (exec (toolServer link) main s).2.ended.status = some 0 := by
    rw [hzero]
    rfl
  exact hnot _ (htruthful.1.mp hstatus).2

/-- A call before the transfers does not change what they show. -/
theorem truthful_cons (e : ToolCall (Option η) × Answer) (log : List (ToolCall (Option η) × Answer))
    (outcome : Outcome) (he : transfers [e] = []) :
    Truthful opened args (e :: log) outcome ↔ Truthful opened args log outcome := by
  have hsame : transfers (e :: log) = transfers log := by
    rw [← List.singleton_append, transfers_append, he, List.nil_append]
  simp only [Truthful, hsame]

/-- A process that gave up before its command is truthful when nothing was asked for
that could have been carried out. -/
theorem truthful_of_exited (log : List (ToolCall (Option η) × Answer)) (out err : String)
    (hnot : opened.errorCode = 0 → ¬CarriedOut args (transfers log)) :
    Truthful opened args log { ended := .exited 1, out := out, err := err } := by
  refine ⟨iff_of_false (by simp [Ended.status]) fun h => hnot h.1 h.2, 1, rfl⟩

end Process

theorem testWord_ne_setWord : testWord ≠ setWord := by decide
theorem testWord_ne_statusWord : testWord ≠ statusWord := by decide
theorem setWord_ne_statusWord : setWord ≠ statusWord := by decide

theorem carriedOut_test (log : List (ControlMsg δ × Answer)) :
    CarriedOut [testWord] log ↔ AllEchoed 1000 log := by
  simp [CarriedOut, testWord_ne_statusWord]

theorem carriedOut_set (angle : List UInt8) (log : List (ControlMsg δ × Answer)) :
    CarriedOut [setWord, angle] log ↔ AngleSent log := by
  simp [CarriedOut]

theorem carriedOut_status (log : List (ControlMsg δ × Answer)) :
    CarriedOut [statusWord] log ↔ StatusReceived log := by
  simp [CarriedOut, testWord_ne_statusWord.symm]

theorem not_carriedOut_of_wrongCount (command : List UInt8) (rest : List (List UInt8))
    (h : WrongCount command rest) (log : List (ControlMsg δ × Answer)) :
    ¬CarriedOut (command :: rest) log := by
  rintro (⟨hargs, -⟩ | ⟨⟨angle, hargs⟩, -⟩ | ⟨hargs, -⟩)
  · cases hargs
    simp [WrongCount, testWord_ne_setWord] at h
  · cases hargs
    simp [WrongCount, testWord_ne_setWord.symm, setWord_ne_statusWord] at h
  · cases hargs
    simp [WrongCount, setWord_ne_statusWord.symm] at h

theorem miscounted_cons (opened : OpenResult η) (command : List UInt8)
    (rest : List (List UInt8)) (h : opened.errorCode = 0) :
    Miscounted opened (command :: rest) ↔ WrongCount command rest := by
  simp only [Miscounted, h, true_and, List.cons.injEq]
  constructor
  · rintro ⟨command', rest', ⟨rfl, rfl⟩, hcount⟩
    exact hcount
  · exact fun hcount => ⟨command, rest, ⟨rfl, rfl⟩, hcount⟩

section Dispatch

variable (opened : OpenResult η) (usbStrerror : Int → String)
variable (rand : Nat → Nat) (buffer : Nat → UInt8)
variable (link : σ → ControlMsg (Option η) → σ × TransferResult) (name : List UInt8)
variable (rest : List (List UInt8)) (s : σ)

theorem test_truthful_iff (hfound : opened.errorCode = 0) :
    let p := devTest opened.device usbStrerror rand buffer (name :: testWord :: rest)
    let main := (p.rename ToolCall.control).bind (finish opened testWord)
    Truthful opened (testWord :: rest) (trace (toolServer link) main s)
      (exec (toolServer link) main s).2 ↔ ¬WrongCount testWord rest := by
  intro p main
  cases rest with
  | nil =>
    exact iff_of_true (truthful_of_delivers opened link testWord p s _ _ hfound
      (devTest_delivers link opened.device usbStrerror rand buffer name testWord)
      carriedOut_test) (by simp [WrongCount, testWord_ne_setWord])
  | cons extra rest =>
    have hcount : WrongCount testWord (extra :: rest) := by simp [WrongCount]
    have hreturned := devTest_returned opened.device usbStrerror rand buffer
      (name :: testWord :: extra :: rest) (by simp)
    simp only [main, p, hreturned]
    exact iff_of_false (not_truthful_of_returned opened link testWord s _ _ rfl
      (not_carriedOut_of_wrongCount _ _ hcount)) (not_not.mpr hcount)

theorem set_truthful_iff (hfound : opened.errorCode = 0) :
    let p := devSet opened.device usbStrerror (name :: setWord :: rest)
    let main := (p.rename ToolCall.control).bind (finish opened setWord)
    Truthful opened (setWord :: rest) (trace (toolServer link) main s)
      (exec (toolServer link) main s).2 ↔ ¬WrongCount setWord rest := by
  intro p main
  by_cases hcount : rest.length = 1
  · obtain ⟨angle, rfl⟩ := List.length_eq_one_iff.mp hcount
    exact iff_of_true (truthful_of_delivers opened link setWord p s _ _ hfound
      (devSet_delivers link opened.device usbStrerror name setWord angle)
      (carriedOut_set angle))
      (by simp [WrongCount, testWord_ne_setWord.symm, setWord_ne_statusWord])
  · have hwrong : WrongCount setWord rest := Or.inr ⟨rfl, hcount⟩
    have hreturned := devSet_returned opened.device usbStrerror (name :: setWord :: rest)
      (by simpa using hcount)
    simp only [main, p, hreturned]
    exact iff_of_false (not_truthful_of_returned opened link setWord s _ _ rfl
      (not_carriedOut_of_wrongCount _ _ hwrong)) (not_not.mpr hwrong)

theorem status_truthful_iff (hfound : opened.errorCode = 0) :
    let p := devStatus opened.device usbStrerror buffer (name :: statusWord :: rest)
    let main := (p.rename ToolCall.control).bind (finish opened statusWord)
    Truthful opened (statusWord :: rest) (trace (toolServer link) main s)
      (exec (toolServer link) main s).2 ↔ ¬WrongCount statusWord rest := by
  intro p main
  cases rest with
  | nil =>
    exact iff_of_true (truthful_of_delivers opened link statusWord p s _ _ hfound
      (devStatus_delivers link opened.device usbStrerror buffer name statusWord)
      carriedOut_status) (by simp [WrongCount, setWord_ne_statusWord.symm])
  | cons extra rest =>
    have hcount : WrongCount statusWord (extra :: rest) := by simp [WrongCount]
    have hreturned := devStatus_returned opened.device usbStrerror buffer
      (name :: statusWord :: extra :: rest) (by simp)
    simp only [main, p, hreturned]
    exact iff_of_false (not_truthful_of_returned opened link statusWord s _ _ rfl
      (not_carriedOut_of_wrongCount _ _ hcount)) (not_not.mpr hcount)

end Dispatch

/-- The status tells the truth except for a known command with a wrong number of
arguments, where the device is there and the status is 0. -/
theorem usbServo_truthful_iff (opened : OpenResult η) (usbStrerror : Int → String)
    (rand : Nat → Nat) (buffer : Nat → UInt8)
    (link : σ → ControlMsg (Option η) → σ × TransferResult) (name : List UInt8)
    (args : List (List UInt8)) (s : σ) :
    let program := usbServo opened usbStrerror rand buffer (name :: args)
    Truthful opened args (trace (toolServer link) program s)
        (exec (toolServer link) program s).2 ↔
      ¬Miscounted opened args := by
  intro program
  cases args with
  | nil =>
    have hnone : ¬Miscounted opened [] := by simp [Miscounted]
    refine iff_of_true (truthful_of_exited opened [] _ _ _ ?_) hnone
    simp [CarriedOut]
  | cons command rest =>
    by_cases hfound : opened.errorCode = 0
    · rw [miscounted_cons opened command rest hfound]
      simp only [program, usbServo, hfound, ne_eq, not_true_eq_false, if_false, exec_call,
        trace_call]
      rw [truthful_cons _ _ _ _ _ rfl]
      by_cases htest : command = testWord
      · subst htest
        rw [if_pos rfl]
        exact test_truthful_iff opened usbStrerror rand buffer link name rest _ hfound
      · by_cases hset : command = setWord
        · subst hset
          rw [if_neg testWord_ne_setWord.symm, if_pos rfl]
          exact set_truthful_iff opened usbStrerror link name rest _ hfound
        · by_cases hstatus : command = statusWord
          · subst hstatus
            rw [if_neg testWord_ne_statusWord.symm, if_neg setWord_ne_statusWord.symm, if_pos rfl]
            exact status_truthful_iff opened usbStrerror buffer link name rest _ hfound
          · simp only [htest, hset, hstatus, if_false, exec_done, trace_done]
            refine iff_of_true (truthful_of_exited opened _ _ _ _ ?_)
              (by simp [WrongCount, htest, hset, hstatus])
            simp [CarriedOut, htest, hset, hstatus]
    · have hnone : ¬Miscounted opened (command :: rest) := fun h => hfound h.1
      simp only [program, usbServo, ne_eq, hfound, not_false_eq_true, if_true, exec_call,
        exec_done, trace_call, trace_done]
      exact iff_of_true (truthful_of_exited opened _ _ _ _ fun h => absurd h hfound) hnone

/-- `set` without an angle prints the usage and ends with status 0. -/
theorem usbServo_set_untruthful :
    let opened : OpenResult Unit :=
      { device := some (), errorCode := 0, didUsbInit := true, err := "" }
    let link (s : Unit) (_ : ControlMsg (Option Unit)) := (s, TransferResult.failed 0)
    let program := usbServo opened (fun _ => "") (fun _ => 0) (fun _ => 0) [[], setWord]
    ¬Truthful opened [setWord] (trace (toolServer link) program ())
      (exec (toolServer link) program ()).2 := by
  intro opened link program htruthful
  have hstatus : (exec (toolServer link) program ()).2.ended.status = some 0 := by decide
  have hcount : WrongCount setWord [] := by simp [WrongCount]
  exact not_carriedOut_of_wrongCount setWord [] hcount _ (htruthful.1.mp hstatus).2

end Servo
