import DeviceDrivers.AdxlDriver

/-!
# The accelerometer's device numbers

The kernel's table of character devices while the module is loaded and unloaded
any number of times. Every registration adds a span of numbers and overwrites
what its cdev recorded, so that each load leaves one span behind.
-/
namespace Adxl

open Interaction EventRun

/-- `count` numbers from `dev` on. -/
structure Span where
  dev : Nat
  count : Nat
deriving DecidableEq

/-- The kernel's table, newest entry first, and what each cdev recorded. -/
structure Chrdevs where
  map : List (Cdev × Span)
  record : Cdev → Span

def Chrdevs.Mapped (chrdevs : Chrdevs) (c : Cdev) (dev : Nat) : Prop :=
  ∃ span, (c, span) ∈ chrdevs.map ∧ span.dev ≤ dev ∧ dev < span.dev + span.count

/-- A kernel whose calls succeed: it gives out `major`, and `pointer + 1` for an address. -/
def kernelServe (major pointer : Nat) (chrdevs : Chrdevs) : KernelCall → Chrdevs × KernelReply
  | .allocChrdevRegion baseminor _ => (chrdevs, { ret := 0, dev := mkdev major baseminor })
  | .cdevInit c =>
    ({ chrdevs with record := Function.update chrdevs.record c { dev := 0, count := 0 } },
      { ret := 0, dev := 0 })
  | .cdevAdd c dev count =>
    ({ map := (c, { dev := dev, count := count }) :: chrdevs.map
       record := Function.update chrdevs.record c { dev := dev, count := count } },
      { ret := 0, dev := 0 })
  | .cdevDel c =>
    ({ chrdevs with map := chrdevs.map.erase (c, chrdevs.record c) }, { ret := 0, dev := 0 })
  | .classCreate => (chrdevs, { ret := pointer + 1, dev := 0 })
  | .deviceCreate _ _ _ => (chrdevs, { ret := pointer + 1, dev := 0 })
  | .unregisterChrdevRegion _ _ => (chrdevs, { ret := 0, dev := 0 })
  | .setDevUevent _ => (chrdevs, { ret := 0, dev := 0 })
  | .classDestroy _ => (chrdevs, { ret := 0, dev := 0 })
  | .deviceDestroy _ _ => (chrdevs, { ret := 0, dev := 0 })

structure System where
  globals : Globals
  chrdevs : Chrdevs
  loaded : Bool

def bootSystem : System :=
  { globals := Globals.zero
    chrdevs := { map := [], record := fun _ => { dev := 0, count := 0 } }
    loaded := false }

inductive Event where
  | load (major pointer : Nat)
  | unload
  | openNode
  | read (user : Nat → UInt8) (buf : Nat) (random : UInt16) (notCopied : Nat)

def adxlStep (sys : System) : Event → System
  | .load major pointer =>
    let result := exec (kernelServe major pointer) (mycharInit Globals.zero) sys.chrdevs
    { globals := result.2.1, chrdevs := result.1, loaded := decide (result.2.2 = 0) }
  | .unload =>
    let result := exec (kernelServe sys.globals.adxlMajor 0) (mycharExit sys.globals) sys.chrdevs
    { globals := result.2, chrdevs := result.1, loaded := false }
  | .openNode => { sys with globals := (scullOpen sys.globals).1 }
  | .read user buf random notCopied =>
    { sys with globals := (scullRead sys.globals user buf random notCopied).1 }

def Allowed (sys : System) : Event → Prop
  | .load _ _ => sys.loaded = false
  | _ => sys.loaded = true

/-- Loaded, the module has its three numbers and no others; unloaded, it has none. -/
structure Owns (sys : System) : Prop where
  reserved : sys.loaded = true → ∀ minor < 3,
    ∃! c, sys.chrdevs.Mapped c (mkdev sys.globals.adxlMajor minor)
  exact : sys.loaded = true → ∀ c dev, sys.chrdevs.Mapped c dev →
    ∃ minor < 3, dev = mkdev sys.globals.adxlMajor minor
  released : sys.loaded = false → ∀ c dev, ¬sys.chrdevs.Mapped c dev

/-- The entries one load adds. -/
def registered (major : Nat) : List (Cdev × Span) :=
  [(.x, { dev := mkdev major 2, count := 3 }), (.y, { dev := mkdev major 1, count := 3 }),
    (.x, { dev := mkdev major 0, count := 3 })]

/-- What the cdevs record after a load. -/
def recorded (major : Nat) : Cdev → Span
  | .x => { dev := mkdev major 2, count := 3 }
  | .y => { dev := mkdev major 1, count := 3 }
  | .z => { dev := 0, count := 0 }

theorem adxlStep_load (sys : System) (major pointer : Nat) :
    adxlStep sys (.load major pointer) =
      { globals := { first := mkdev major 0, cls := pointer + 1, adxlMajor := major, i := 0 }
        chrdevs := { map := registered major ++ sys.chrdevs.map, record := recorded major }
        loaded := true } := by
  have hpointer : ¬((pointer : Int) + 1 = 0) := by omega
  have hmajor : majorOf (mkdev major 0) = major := majorOf_mkdev major 0 (by decide)
  simp [adxlStep, mycharInit, kernelServe, hpointer, hmajor, registered, Globals.zero]
  funext c
  cases c <;> rfl

/-- The entries that stay behind, one for each load, latest first. -/
def leftover (majors : List Nat) : List (Cdev × Span) :=
  majors.map fun major => (.x, { dev := mkdev major 0, count := 3 })

theorem not_mem_leftover (majors : List Nat) (span : Span) : (Cdev.z, span) ∉ leftover majors := by
  simp [leftover]

/-- Each `cdev_del` removes what its cdev recorded last; the first span of
`c_dev_x` is recorded nowhere any more. -/
theorem adxlStep_unload (sys : System) (major : Nat) (earlier : List Nat)
    (hmap : sys.chrdevs.map = registered major ++ leftover earlier)
    (hrecord : sys.chrdevs.record = recorded major) :
    (adxlStep sys .unload).chrdevs.map = leftover (major :: earlier) := by
  have hdeleted : (adxlStep sys .unload).chrdevs.map =
      (.x, { dev := mkdev major 0, count := 3 }) ::
        (leftover earlier).erase (.z, { dev := 0, count := 0 }) := by
    simp [adxlStep, mycharExit, exec_after, kernelServe, hmap, hrecord, registered, recorded]
  rw [hdeleted, List.erase_of_not_mem (not_mem_leftover earlier _)]
  rfl

/-- The majors of the loads, latest first. -/
def loads : List Event → List Nat
  | [] => []
  | .load major _ :: later => loads later ++ [major]
  | _ :: later => loads later

theorem loads_append (past later : List Event) :
    loads (past ++ later) = loads later ++ loads past := by
  induction past with
  | nil => simp [loads]
  | cons e past ih =>
    cases e with
    | load major pointer => simp only [List.cons_append, loads, ih, List.append_assoc]
    | unload => exact ih
    | openNode => exact ih
    | read user buf random notCopied => exact ih

/-- The table and the records as the loads of the past leave them. -/
def Accounted (past : List Event) (sys : System) : Prop :=
  if sys.loaded then
    ∃ major earlier, loads past = major :: earlier ∧
      sys.chrdevs = { map := registered major ++ leftover earlier, record := recorded major }
  else sys.chrdevs.map = leftover (loads past)

theorem adxlStep_accounted (past : List Event) (sys : System) (e : Event)
    (h : Accounted past sys) (he : Allowed sys e) : Accounted (past ++ [e]) (adxlStep sys e) := by
  simp only [Accounted, loads_append]
  cases e with
  | load major pointer =>
    have hunloaded : sys.loaded = false := he
    simp only [Accounted, hunloaded, Bool.false_eq_true, if_false] at h
    rw [adxlStep_load, h]
    exact ⟨major, loads past, rfl, rfl⟩
  | unload =>
    have hloaded : sys.loaded = true := he
    simp only [Accounted, hloaded, if_true] at h
    obtain ⟨major, earlier, hloads, hchrdevs⟩ := h
    have hleft := adxlStep_unload sys major earlier (by rw [hchrdevs]) (by rw [hchrdevs])
    rw [← hloads] at hleft
    exact hleft
  | openNode => exact h
  | read user buf random notCopied => exact h

/-- Unloaded again, the module leaves its first three numbers mapped for every load so far. -/
theorem unloaded_leftover (es : List Event) (hes : AtEach adxlStep Allowed bootSystem es)
    (hunloaded : (run adxlStep bootSystem es).loaded = false) :
    (run adxlStep bootSystem es).chrdevs.map = leftover (loads es) := by
  have h := run_history Accounted bootSystem rfl adxlStep_accounted es hes
  simpa only [Accounted, hunloaded, Bool.false_eq_true, if_false] using h

/-- Right after any load a fourth number is mapped, by a cdev that spans three. -/
theorem not_owns_load (sys : System) (major pointer : Nat) :
    ¬Owns (adxlStep sys (.load major pointer)) := by
  intro h
  rw [adxlStep_load] at h
  have hmem : (Cdev.y, { dev := mkdev major 1, count := 3 }) ∈
      registered major ++ sys.chrdevs.map := by simp [registered]
  obtain ⟨minor, hminor, hdev⟩ := h.exact rfl .y (mkdev major 1 + 2)
    ⟨_, hmem, Nat.le_add_right _ _, Nat.lt_succ_self _⟩
  have hsmall : minor < 2 ^ minorBits := Nat.lt_trans hminor (by decide)
  rw [mkdev_eq major 1 (by decide), mkdev_eq major minor hsmall] at hdev
  omega

/-- Where nothing was loaded, nothing is mapped. -/
def Idle (past : List Event) (sys : System) : Prop :=
  loads past = [] → sys.loaded = false ∧ sys.chrdevs.map = []

theorem adxlStep_idle (past : List Event) (sys : System) (e : Event) (h : Idle past sys) :
    Idle (past ++ [e]) (adxlStep sys e) := by
  intro hloads
  rw [loads_append, List.append_eq_nil_iff] at hloads
  have hpast := h hloads.2
  cases e with
  | load major pointer => cases hloads.1
  | unload => simp [adxlStep, mycharExit, exec_after, kernelServe, hpast.2]
  | openNode => exact hpast
  | read user buf random notCopied => exact hpast

theorem run_idle (es : List Event) : Idle es (run adxlStep bootSystem es) :=
  run_history Idle bootSystem (fun _ => ⟨rfl, rfl⟩)
    (fun past sys e h _ => adxlStep_idle past sys e h) es (atEach_true bootSystem es)

theorem owns_of_unmapped (sys : System) (hloaded : sys.loaded = false)
    (hmap : sys.chrdevs.map = []) : Owns sys := by
  constructor
  · intro h
    rw [hloaded] at h
    cases h
  · intro h
    rw [hloaded] at h
    cases h
  · rintro - c dev ⟨span, hmem, -⟩
    rw [hmap] at hmem
    cases hmem

theorem exists_load (es : List Event) (h : loads es ≠ []) :
    ∃ past major pointer later, es = past ++ .load major pointer :: later := by
  induction es with
  | nil => exact absurd rfl h
  | cons e es ih =>
    have hstep : loads es ≠ [] → ∃ past major pointer later,
        e :: es = past ++ .load major pointer :: later := by
      intro hes
      obtain ⟨past, major, pointer, later, rfl⟩ := ih hes
      exact ⟨e :: past, major, pointer, later, rfl⟩
    cases e with
    | load major pointer => exact ⟨[], major, pointer, es, rfl⟩
    | unload => exact hstep h
    | openNode => exact hstep h
    | read user buf random notCopied => exact hstep h

/-- The module owns exactly its numbers just as long as it is never loaded. -/
theorem owns_iff_never_loaded (es : List Event) :
    (∀ past, past <+: es → Owns (run adxlStep bootSystem past)) ↔ loads es = [] := by
  constructor
  · intro h
    by_contra hloads
    obtain ⟨past, major, pointer, later, rfl⟩ := exists_load es hloads
    have hloaded := h (past ++ [.load major pointer]) (by simp)
    rw [run_concat] at hloaded
    exact not_owns_load _ major pointer hloaded
  · rintro h past ⟨later, rfl⟩
    rw [loads_append, List.append_eq_nil_iff] at h
    obtain ⟨hloaded, hmap⟩ := run_idle past h.2
    exact owns_of_unmapped _ hloaded hmap

/-- One load and unload with major 250. -/
theorem not_owns_major_250 :
    AtEach adxlStep Allowed bootSystem [.load 250 0, .unload] ∧
      ¬∀ past, past <+: [.load 250 0, .unload] → Owns (run adxlStep bootSystem past) := by
  constructor
  · exact ⟨rfl, congrArg System.loaded (adxlStep_load bootSystem 250 0), trivial⟩
  · intro h
    exact not_owns_load bootSystem 250 0 (h [.load 250 0] (by simp))

/-- The numbers of every past load are mapped to a cdev of the module that is gone. -/
theorem unloaded_still_mapped (es : List Event) (hes : AtEach adxlStep Allowed bootSystem es)
    (hunloaded : (run adxlStep bootSystem es).loaded = false) (major : Nat)
    (hmajor : major ∈ loads es) (minor : Nat) (hminor : minor < 3) :
    (run adxlStep bootSystem es).chrdevs.Mapped .x (mkdev major minor) := by
  have hmem : (Cdev.x, ({ dev := mkdev major 0, count := 3 } : Span)) ∈ leftover (loads es) := by
    simpa [leftover] using ⟨major, hmajor, rfl⟩
  refine ⟨{ dev := mkdev major 0, count := 3 }, ?_, ?_⟩
  · rwa [unloaded_leftover es hes hunloaded]
  · simp only [mkdev_eq major 0 (by decide),
      mkdev_eq major minor (Nat.lt_trans hminor (by decide))]
    omega

end Adxl
