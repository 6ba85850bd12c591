import DeviceDrivers.ServoIoctl

/-!
# Servos that come and go

The kernel driver between the USB core, which probes and disconnects devices, and
the files opened on their minors. The one `device` pointer is written by every
probe and read by the ioctls of every file; a run is any sequence of events.
-/
namespace Servo

open Interaction EventRun

variable {δ φ : Type}

/-- The driver's globals, the minors the core gave out, and the device each open
file was opened on. -/
structure Host (δ φ : Type) where
  driver : Driver δ
  minors : Nat → Option δ
  files : φ → Option δ

/-- The module after `mydriver_init`. -/
def bootHost : Host δ φ :=
  { driver := { device := none, buffer := fun _ => 0 }, minors := fun _ => none,
    files := fun _ => none }

def Host.Bound (host : Host δ φ) (d : δ) : Prop := ∃ minor, host.minors minor = some d

/-- What `usb_register_dev` comes to: an error or the interface's minor. -/
inductive Registration where
  | failed (errno : Nat)
  | registered (minor : Nat)

def Registration.status : Registration → Int
  | failed errno => Int.negSucc errno
  | registered _ => 0

def myProbe (driver : Driver δ) (d : δ) (registration : Registration) : Driver δ × Int :=
  -- the pointer is taken before the registration is known to succeed
  ({ driver with device := some d }, registration.status)

/-- Gives the minor back; the globals keep pointing at the device. -/
def myDisconnect (driver : Driver δ) : Driver δ := driver

inductive Event (δ φ : Type) where
  | probe (d : δ) (registration : Registration)
  | disconnect (d : δ)
  | openFile (f : φ) (minor : Nat)
  | ioctl (f : φ) (call : IoctlCall)
  | close (f : φ)

def hostStep [DecidableEq δ] [DecidableEq φ] (host : Host δ φ) : Event δ φ → Host δ φ
  | .probe d registration =>
    { host with
      driver := (myProbe host.driver d registration).1
      minors := match registration with
        | .failed _ => host.minors
        | .registered minor => Function.update host.minors minor (some d) }
  | .disconnect d =>
    { host with
      driver := myDisconnect host.driver
      minors := fun minor => if host.minors minor = some d then none else host.minors minor }
  | .openFile f minor => { host with files := Function.update host.files f (host.minors minor) }
  | .ioctl _ call => { host with driver := ioctlStep host.driver call }
  | .close f => { host with files := Function.update host.files f none }

/-- The events the USB core and the file table allow. -/
def Allowed (host : Host δ φ) : Event δ φ → Prop
  | .probe d (.failed _) => ¬host.Bound d
  | .probe d (.registered minor) => ¬host.Bound d ∧ host.minors minor = none
  | .disconnect d => host.Bound d
  | .openFile f minor => host.files f = none ∧ host.minors minor ≠ none
  | .ioctl f _ => host.files f ≠ none
  | .close f => host.files f ≠ none

/-- Every message an ioctl sends goes to the device its file was opened on, while
that device is bound. -/
def Targeted (host : Host δ φ) : Event δ φ → Prop
  | .ioctl f call => (servoIoctl host.driver call.user call.cmd call.arg).AllCalls fun msg =>
      ∃ d, host.files f = some d ∧ msg.dev = some d ∧ host.Bound d
  | _ => True

/-- The device of the latest probe, whatever became of its registration. -/
def lastProbed : List (Event δ φ) → Option δ
  | [] => none
  | .probe d _ :: later => (lastProbed later).or (some d)
  | _ :: later => lastProbed later

def IoctlCall.Sends (call : IoctlCall) : Prop := call.cmd = ioctlSet ∨ call.cmd = ioctlStatus

theorem lastProbed_append (past : List (Event δ φ)) (later : List (Event δ φ)) :
    lastProbed (past ++ later) = (lastProbed later).or (lastProbed past) := by
  induction past with
  | nil => simp [lastProbed]
  | cons e past ih =>
    cases e with
    | probe d registration =>
      simp only [List.cons_append, lastProbed, ih]
      cases lastProbed later <;> rfl
    | disconnect d => exact ih
    | openFile f minor => exact ih
    | ioctl f call => exact ih
    | close f => exact ih

theorem targeted_ioctl (host : Host δ φ) (f : φ) (call : IoctlCall) :
    Targeted host (.ioctl f call) ↔
      (call.Sends → ∃ d, host.files f = some d ∧ host.driver.device = some d ∧ host.Bound d) := by
  simp only [Targeted, servoIoctl_allCalls, ioctlSetMsg, ioctlStatusMsg, IoctlCall.Sends]
  exact ⟨fun h hsends => hsends.elim h.1 h.2, fun h => ⟨fun hset => h (.inl hset),
    fun hstatus => h (.inr hstatus)⟩⟩

section Runs

variable [DecidableEq δ] [DecidableEq φ]

/-- The globals point at the device probed last. -/
theorem run_device (es : List (Event δ φ)) :
    (run hostStep bootHost es).driver.device = lastProbed es := by
  apply run_history (fun past (host : Host δ φ) => host.driver.device = lastProbed past)
    _ _ _ _ (atEach_true bootHost es)
  · rfl
  · intro past host e h _
    rw [lastProbed_append]
    cases e with
    | probe d registration => rfl
    | disconnect d => exact h
    | openFile f minor => exact h
    | ioctl f call => exact (ioctlStep_device host.driver call).trans h
    | close f => exact h

/-- Only the ioctls of a run are at stake, each in the state that serves it. -/
theorem atEach_targeted_iff (es : List (Event δ φ)) :
    AtEach hostStep Targeted bootHost es ↔
      ∀ past f call later, es = past ++ .ioctl f call :: later → call.Sends →
        ∃ d, (run hostStep bootHost past).files f = some d ∧
          (run hostStep bootHost past).driver.device = some d ∧
          (run hostStep bootHost past).Bound d := by
  rw [atEach_iff_split]
  constructor
  · intro h past f call later hes
    exact (targeted_ioctl _ f call).mp (h past (.ioctl f call) later hes)
  · intro h past e later hes
    cases e with
    | probe d registration => trivial
    | disconnect d => trivial
    | openFile f minor => trivial
    | close f => trivial
    | ioctl f call => exact (targeted_ioctl _ f call).mpr (h past f call later hes)

/-- Commands reach the device of their file exactly when each is issued while
that device is bound and is the device probed last. -/
theorem commands_reach_device_iff (es : List (Event δ φ)) :
    AtEach hostStep Targeted bootHost es ↔
      ∀ past f call later, es = past ++ .ioctl f call :: later → call.Sends →
        ∃ d, (run hostStep bootHost past).files f = some d ∧
          (run hostStep bootHost past).Bound d ∧ lastProbed past = some d := by
  rw [atEach_targeted_iff]
  constructor
  · intro h past f call later hes hsends
    obtain ⟨d, hfile, hdevice, hbound⟩ := h past f call later hes hsends
    rw [run_device] at hdevice
    exact ⟨d, hfile, hbound, hdevice⟩
  · intro h past f call later hes hsends
    obtain ⟨d, hfile, hbound, hprobed⟩ := h past f call later hes hsends
    rw [← run_device] at hprobed
    exact ⟨d, hfile, hprobed, hbound⟩

/-- A file on servo 0, then servo 1 whose registration fails: the next IOCTL_SET
of the file goes to servo 1. -/
theorem failed_probe_takes_over :
    let call : IoctlCall :=
      { cmd := ioctlSet, arg := 90, user := fun _ => 0,
        fw := { angle := 0, replyBuffer := Vector.replicate 8 0 }, ret := 0, excess := [] }
    let es : List (Event Nat Nat) :=
      [.probe 0 (.registered 0), .openFile 0 0, .probe 1 (.failed 16), .ioctl 0 call]
    AtEach hostStep Allowed bootHost es ∧ ¬AtEach hostStep Targeted bootHost es := by
  intro call es
  constructor
  · simp [es, Allowed, hostStep, bootHost, Host.Bound, Function.update_apply]
  · intro h
    have hlast := (targeted_ioctl _ 0 call).mp h.2.2.2.1 (.inl rfl)
    simp [hostStep, bootHost, myProbe] at hlast

/-- If the event is a probe, it is one of `d`. -/
def Event.ProbesOnly (d : δ) (e : Event δ φ) : Prop :=
  ∀ d' registration, e = .probe d' registration → d' = d

/-- One device only, so far: every minor and every file is its. -/
structure Single (d : δ) (host : Host δ φ) : Prop where
  minors : ∀ minor d', host.minors minor = some d' → d' = d ∧ host.driver.device = some d
  files : ∀ f d', host.files f = some d' → d' = d ∧ host.driver.device = some d

omit [DecidableEq δ] [DecidableEq φ] in
/-- What holds of every device of a table and of a new entry holds of the new table. -/
theorem update_keeps {κ : Type} [DecidableEq κ] {P : δ → Prop} {table : κ → Option δ}
    (h : ∀ k d, table k = some d → P d) (k : κ) (entry : Option δ)
    (hentry : ∀ d, entry = some d → P d) (k' : κ) (d : δ)
    (hd : Function.update table k entry k' = some d) : P d := by
  by_cases hk : k' = k
  · rw [hk, Function.update_self] at hd
    exact hentry d hd
  · rw [Function.update_of_ne hk] at hd
    exact h k' d hd

theorem single_step (d : δ) (host : Host δ φ) (e : Event δ φ) (h : Single d host)
    (he : e.ProbesOnly d) : Single d (hostStep host e) := by
  cases e with
  | probe d' registration =>
    have hd : d' = d := he d' registration rfl
    subst hd
    have hminors : ∀ minor d'', host.minors minor = some d'' → d'' = d' ∧ some d' = some d' :=
      fun minor d'' hminor => ⟨(h.minors minor d'' hminor).1, rfl⟩
    constructor
    · cases registration with
      | failed errno => exact hminors
      | registered minor =>
        exact update_keeps hminors minor (some d') fun d'' hd => ⟨(Option.some.inj hd).symm, rfl⟩
    · exact fun f d'' hf => ⟨(h.files f d'' hf).1, rfl⟩
  | disconnect d' =>
    refine ⟨fun minor d'' hminor => ?_, h.files⟩
    simp only [hostStep] at hminor
    split at hminor
    · cases hminor
    · exact h.minors minor d'' hminor
  | openFile f minor =>
    exact ⟨h.minors, update_keeps h.files f (host.minors minor) (h.minors minor)⟩
  | ioctl f call =>
    have hdevice : (hostStep host (.ioctl f call)).driver.device = host.driver.device :=
      ioctlStep_device host.driver call
    constructor
    · rw [hdevice]
      exact h.minors
    · rw [hdevice]
      exact h.files
  | close f => exact ⟨h.minors, update_keeps h.files f none fun _ hd => nomatch hd⟩

theorem run_single (d : δ) (past : List (Event δ φ)) (h : ∀ e ∈ past, e.ProbesOnly d) :
    Single d (run hostStep bootHost past) := by
  have honly : AtEach hostStep (fun _ e => e.ProbesOnly d) bootHost past :=
    (atEach_mem (fun e => e.ProbesOnly d) bootHost past).mpr h
  apply run_invariant (Single d) (fun host e h he => single_step d host e h he) _ _ _ honly
  constructor
  · exact fun _ _ h => nomatch h
  · exact fun _ _ h => nomatch h

/-- Where only one servo is ever probed, all that matters is the disconnect. -/
theorem single_servo_targeted_iff (d : δ) (es : List (Event δ φ))
    (hallowed : AtEach hostStep Allowed bootHost es) (hsingle : ∀ e ∈ es, e.ProbesOnly d) :
    AtEach hostStep Targeted bootHost es ↔
      ∀ past f call later, es = past ++ .ioctl f call :: later → call.Sends →
        (run hostStep bootHost past).Bound d := by
  have hinv : ∀ past e later, es = past ++ e :: later → Single d (run hostStep bootHost past) :=
    fun past e later hes =>
      run_single d past fun e' he' => hsingle e' (hes ▸ List.mem_append_left _ he')
  rw [atEach_targeted_iff]
  constructor
  · intro h past f call later hes hsends
    obtain ⟨d', hfile, -, hbound⟩ := h past f call later hes hsends
    rwa [((hinv past _ later hes).files f d' hfile).1] at hbound
  · intro h past f call later hes hsends
    have hopen := (atEach_iff_split Allowed bootHost es).mp hallowed past _ later hes
    obtain ⟨d', hfile⟩ := Option.ne_none_iff_exists'.mp hopen
    obtain ⟨rfl, hdevice⟩ := (hinv past _ later hes).files f d' hfile
    exact ⟨d', hfile, hdevice, h past f call later hes hsends⟩

end Runs

end Servo
