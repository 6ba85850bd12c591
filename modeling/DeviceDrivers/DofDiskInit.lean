import DeviceDrivers.DofDisk
import DeviceDrivers.Interaction
import DeviceDrivers.Ledger

/-!
# Loading and unloading the disk's module

`mydisk_init` acquires the disk's memory, a major number, a request queue and a
gendisk, and leaves what it got in the module's variables, where `mydisk_exit`
finds it. The kernel's answers are arbitrary; a ledger follows what is held over
any number of load and unload attempts.
-/
namespace DofDisk

open EventRun Interaction Ledger

def ebusy : Int := 16
def enomem : Int := 12
def mydiskMinors : Nat := 3

/-- What `mydisk_init` writes into the gendisk. -/
inductive GdField where
  | major (m : BitVec 32)
  | firstMinor (n : Nat)
  | fops
  | queue (q : Nat)
  | privateData
  | diskName (name : String)

/-- Pointers are addresses, 0 is NULL. -/
inductive DiskCall where
  | vmalloc (size : Nat)
  | copyMbrNBr (disk : Nat)
  | registerBlkdev (major : BitVec 32) (name : String)
  | spinLockInit
  | blkInitQueue
  | allocDisk (minors : Nat)
  | setField (gd : Nat) (field : GdField)
  | setCapacity (gd size : Nat)
  | addDisk (gd : Nat)
  | delGendisk (gd : Nat)
  | putDisk (gd : Nat)
  | blkCleanupQueue (queue : Nat)
  | vfree (p : Nat)
  | unregisterBlkdev (major : BitVec 32) (name : String)

/-- An address, or the word `register_blkdev` returns. -/
structure DiskReply where
  pointer : Nat
  word : BitVec 32

/-- The module's variables. -/
structure DiskGlobals where
  mydiskMajor : BitVec 32
  devData : Nat
  size : Nat
  queue : Nat
  gd : Nat

def DiskGlobals.zero : DiskGlobals :=
  { mydiskMajor := 0, devData := 0, size := 0, queue := 0, gd := 0 }

def mydiskInit (g : DiskGlobals) : Program DiskCall DiskReply (DiskGlobals × Int) :=
  .call (.vmalloc diskBytes) fun memory =>
    let g := { g with devData := memory.pointer }
    .call (.copyMbrNBr g.devData) fun _ =>
    let g := { g with size := nsectors }
    .call (.registerBlkdev g.mydiskMajor "dof") fun registered =>
      let g := { g with mydiskMajor := registered.word }
      -- a `u_int`, so that only 0 is caught
      if g.mydiskMajor ≤ 0 then .done (g, -ebusy)
      else
        .call .spinLockInit fun _ =>
        .call .blkInitQueue fun queue =>
          let g := { g with queue := queue.pointer }
          if g.queue = 0 then .done (g, -enomem)
          else
            .call (.allocDisk mydiskMinors) fun disk =>
              let g := { g with gd := disk.pointer }
              -- a failed `alloc_disk` is reported and the load goes on
              Program.after
                [.setField g.gd (.major g.mydiskMajor), .setField g.gd (.firstMinor 0),
                  .setField g.gd .fops, .setField g.gd (.queue g.queue),
                  .setField g.gd .privateData, .setField g.gd (.diskName "dof"),
                  .setCapacity g.gd g.size, .addDisk g.gd]
                (.done (g, 0))

def mydiskExit (g : DiskGlobals) : Program DiskCall DiskReply DiskGlobals :=
  Program.after
    [.delGendisk g.gd, .putDisk g.gd, .blkCleanupQueue g.queue, .vfree g.devData,
      .unregisterBlkdev g.mydiskMajor "dof"]
    (.done g)

/-- The outcomes of the four acquisitions of one load; the major is positive, or a
negative errno. -/
structure LoadOutcomes where
  memory : Nat
  major : BitVec 32
  queue : Nat
  disk : Nat
  major_ne : major ≠ 0#32

def LoadOutcomes.AllAcquired (o : LoadOutcomes) : Prop :=
  o.memory ≠ 0 ∧ 0 < o.major.toInt ∧ o.queue ≠ 0 ∧ o.disk ≠ 0

instance (o : LoadOutcomes) : Decidable o.AllAcquired :=
  inferInstanceAs (Decidable (_ ∧ _ ∧ _ ∧ _))

def LoadOutcomes.reply (o : LoadOutcomes) : DiskCall → DiskReply
  | .vmalloc _ => { pointer := o.memory, word := 0 }
  | .registerBlkdev _ _ => { pointer := 0, word := o.major }
  | .blkInitQueue => { pointer := o.queue, word := 0 }
  | .allocDisk _ => { pointer := o.disk, word := 0 }
  | _ => { pointer := 0, word := 0 }

def kernel (o : LoadOutcomes) (s : Unit) (call : DiskCall) : Unit × DiskReply :=
  (s, o.reply call)

/-- The calls of `mydisk_exit` return nothing. -/
def quietKernel (s : Unit) (_ : DiskCall) : Unit × DiskReply := (s, { pointer := 0, word := 0 })

inductive Resource where
  | memory (p : Nat)
  | major (m : BitVec 32)
  | queue (q : Nat)
  | disk (gd : Nat)
deriving DecidableEq

/-- A write to the gendisk, and what the value written must be. -/
def fieldUses (gd : Nat) : GdField → List (Entry Resource)
  | .major m => [.use (.disk gd), .use (.major m)]
  | .queue q => [.use (.disk gd), .use (.queue q)]
  | _ => [.use (.disk gd)]

def effect : DiskCall × DiskReply → List (Entry Resource)
  | (.vmalloc _, reply) => acquired (.memory reply.pointer) (reply.pointer ≠ 0)
  | (.copyMbrNBr disk, _) => [.use (.memory disk)]
  | (.registerBlkdev _ _, reply) => acquired (.major reply.word) (0 < reply.word.toInt)
  | (.spinLockInit, _) => []
  | (.blkInitQueue, reply) => acquired (.queue reply.pointer) (reply.pointer ≠ 0)
  | (.allocDisk _, reply) => acquired (.disk reply.pointer) (reply.pointer ≠ 0)
  | (.setField gd field, _) => fieldUses gd field
  | (.setCapacity gd _, _) => [.use (.disk gd)]
  | (.addDisk gd, _) => [.use (.disk gd)]
  | (.delGendisk gd, _) => [.use (.disk gd)]
  | (.putDisk gd, _) => [.release (.disk gd)]
  | (.blkCleanupQueue q, _) => [.release (.queue q)]
  | (.vfree p, _) => [.release (.memory p)]
  | (.unregisterBlkdev m _, _) => [.release (.major m)]

def resources (log : List (DiskCall × DiskReply)) : List (Entry Resource) := log.flatMap effect

/-- The kernel's view: the module's variables, whether it is loaded, every call so
far, and every executed load with its result. -/
structure ModuleState where
  globals : DiskGlobals
  loaded : Bool
  log : List (DiskCall × DiskReply)
  attempts : List (LoadOutcomes × Int)

def boot : ModuleState :=
  { globals := DiskGlobals.zero, loaded := false, log := [], attempts := [] }

/-- A load finds the variables of the load before it, or fresh ones. -/
inductive Attempt where
  | load (o : LoadOutcomes) (fresh : Bool)
  | unload

/-- A loaded module is not loaded again, and only a loaded one is unloaded. -/
def attempt (st : ModuleState) : Attempt → ModuleState
  | .load o fresh =>
    if st.loaded then st
    else
      let program := mydiskInit (if fresh then DiskGlobals.zero else st.globals)
      let result := (exec (kernel o) program ()).2
      { globals := result.1
        loaded := result.2 = 0
        log := st.log ++ trace (kernel o) program ()
        attempts := st.attempts ++ [(o, result.2)] }
  | .unload =>
    if st.loaded then
      { st with
        loaded := false
        log := st.log ++ trace quietKernel (mydiskExit st.globals) () }
    else st

/-- What a loaded module holds. -/
def DiskGlobals.resources (g : DiskGlobals) : List Resource :=
  [.disk g.gd, .queue g.queue, .major g.mydiskMajor, .memory g.devData]

/-- Loads return 0 exactly when they acquired everything, nothing is used or released
that is not held, and nothing is held but by a loaded module. -/
structure AllOrNothing (st : ModuleState) : Prop where
  results : ∀ a ∈ st.attempts, a.2 = 0 ↔ a.1.AllAcquired
  holds : replay [] (DofDisk.resources st.log) =
    some (if st.loaded then st.globals.resources else [])

section Load

variable (g : DiskGlobals) (o : LoadOutcomes)

theorem mydiskInit_acquired (h : o.AllAcquired) :
    let result := (exec (kernel o) (mydiskInit g) ()).2
    result = ({ mydiskMajor := o.major, devData := o.memory, size := nsectors, queue := o.queue,
                gd := o.disk }, 0) ∧
      replay [] (resources (trace (kernel o) (mydiskInit g) ())) = some result.1.resources := by
  obtain ⟨hmemory, hmajor, hqueue, hdisk⟩ := h
  simp [mydiskInit, kernel, LoadOutcomes.reply, Program.after, resources, effect, fieldUses,
    acquired, hmemory, hmajor, hqueue, hdisk, o.major_ne, replay,
    DiskGlobals.resources]

/-- A load that fails somewhere leaves something held, or touched what it did not get. -/
theorem mydiskInit_failed (h : ¬o.AllAcquired) :
    let result := (exec (kernel o) (mydiskInit g) ()).2
    replay [] (resources (trace (kernel o) (mydiskInit g) ())) ≠
      some (if result.2 = 0 then result.1.resources else []) := by
  by_cases hmemory : o.memory = 0
  · simp [mydiskInit, kernel, LoadOutcomes.reply, resources, effect, acquired, hmemory, replay]
  · by_cases hqueue : o.queue = 0
    · by_cases hmajor : 0 < o.major.toInt
      · simp [mydiskInit, kernel, LoadOutcomes.reply, resources, effect, acquired, hmemory, hqueue,
          hmajor, o.major_ne, replay, enomem]
      · simp [mydiskInit, kernel, LoadOutcomes.reply, resources, effect, acquired, hmemory, hqueue,
          hmajor, o.major_ne, replay, enomem]
    · by_cases hdisk : o.disk = 0
      · by_cases hmajor : 0 < o.major.toInt
        · simp [mydiskInit, kernel, LoadOutcomes.reply, Program.after, resources, effect, fieldUses,
            acquired, hmemory, hqueue, hdisk, hmajor, o.major_ne, replay]
        · simp [mydiskInit, kernel, LoadOutcomes.reply, Program.after, resources, effect, fieldUses,
            acquired, hmemory, hqueue, hdisk, hmajor, o.major_ne, replay]
      · have hmajor : ¬0 < o.major.toInt := fun hpos => h ⟨hmemory, hpos, hqueue, hdisk⟩
        simp [mydiskInit, kernel, LoadOutcomes.reply, Program.after, resources, effect, fieldUses,
          acquired, hmemory, hqueue, hdisk, hmajor, o.major_ne, replay]

theorem mydiskExit_releases :
    replay g.resources (resources (trace quietKernel (mydiskExit g) ())) = some [] := by
  simp [mydiskExit, Program.after, quietKernel, DiskGlobals.resources, resources, effect, replay]

end Load

theorem resources_append (xs ys : List (DiskCall × DiskReply)) :
    resources (xs ++ ys) = resources xs ++ resources ys := List.flatMap_append

theorem boot_allOrNothing : AllOrNothing boot := ⟨by simp [boot], rfl⟩

/-- The condition on one attempt: a load that is executed acquires everything. -/
def Acquires (st : ModuleState) : Attempt → Prop
  | .load o _ => st.loaded = false → o.AllAcquired
  | .unload => True

theorem load_allOrNothing_iff (st : ModuleState) (o : LoadOutcomes) (fresh : Bool)
    (h : AllOrNothing st) (hunloaded : st.loaded = false) :
    AllOrNothing (attempt st (.load o fresh)) ↔ o.AllAcquired := by
  have hnone : replay [] (resources st.log) = some [] := by simpa [hunloaded] using h.holds
  generalize hstart : (if fresh then DiskGlobals.zero else st.globals) = start
  simp only [attempt, hunloaded, Bool.false_eq_true, if_false, hstart]
  constructor
  · intro hafter
    have hholds := hafter.holds
    rw [resources_append, replay_append, hnone, Option.bind_some] at hholds
    by_contra hfailed
    exact mydiskInit_failed start o hfailed (by simpa using hholds)
  · intro hall
    obtain ⟨hresult, hreplay⟩ := mydiskInit_acquired start o hall
    rw [hresult] at hreplay ⊢
    constructor
    · intro a ha
      cases List.mem_append.mp ha with
      | inl hbefore => exact h.results a hbefore
      | inr hlast =>
        rw [List.mem_singleton] at hlast
        subst hlast
        exact iff_of_true rfl hall
    · rw [resources_append, replay_append, hnone, Option.bind_some, hreplay]
      rfl

theorem attempt_allOrNothing_iff (st : ModuleState) (e : Attempt) (h : AllOrNothing st) :
    AllOrNothing (attempt st e) ↔ Acquires st e := by
  cases e with
  | load o fresh =>
    cases hloaded : st.loaded with
    | true =>
      have hsame : attempt st (.load o fresh) = st := by simp [attempt, hloaded]
      rw [hsame]
      exact iff_of_true h fun hfalse => by simp [hloaded] at hfalse
    | false =>
      rw [load_allOrNothing_iff st o fresh h hloaded]
      exact ⟨fun hall _ => hall, fun hall => hall hloaded⟩
  | unload =>
    refine iff_of_true ?_ trivial
    cases hloaded : st.loaded with
    | true =>
      simp only [attempt, hloaded, if_true]
      refine ⟨h.results, ?_⟩
      have hheld := h.holds
      rw [hloaded, if_pos rfl] at hheld
      rw [resources_append, replay_append, hheld, Option.bind_some, mydiskExit_releases]
      rfl
    | false =>
      have hsame : attempt st .unload = st := by simp [attempt, hloaded]
      rw [hsame]
      exact h

/-- All or nothing holds after every attempt of a run exactly when every load that is
executed acquires its four resources. -/
theorem mydisk_allOrNothing_iff (attempts : List Attempt) :
    AtEach attempt (fun st e => AllOrNothing (attempt st e)) boot attempts ↔
      AtEach attempt Acquires boot attempts :=
  atEach_iff_of_invariant AllOrNothing attempt_allOrNothing_iff (fun _ _ _ h => h) boot attempts
    boot_allOrNothing

theorem minus_ebusy_ne : BitVec.ofInt 32 (-16) ≠ 0#32 := by decide

/-- `register_blkdev` fails with `-EBUSY`, and the load goes on and returns 0. -/
theorem mydiskInit_takes_ebusy :
    let o : LoadOutcomes :=
      { memory := 4096, major := BitVec.ofInt 32 (-16), queue := 8192, disk := 12288
        major_ne := minus_ebusy_ne }
    ¬AtEach attempt (fun st e => AllOrNothing (attempt st e)) boot [.load o true] := by
  intro o hall
  have hacquired := (load_allOrNothing_iff boot o true boot_allOrNothing rfl).mp hall.1
  exact absurd hacquired (by decide)

end DofDisk
