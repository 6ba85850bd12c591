import DeviceDrivers.AdxlDriver
import DeviceDrivers.Ledger

/-!
# Failures while the accelerometer's module loads

`mychar_init` acquires a region of numbers, a class, three device nodes and three
cdevs. Each call can fail in its own way: a negative number, an ERR_PTR, any errno.
The ledger of a run says what the error paths give back.
-/
namespace Adxl

open Interaction Ledger

def minorOf (dev : Nat) : Nat := dev % 2 ^ minorBits

@[simp] theorem minorOf_mkdev (major minor : Nat) (h : minor < 3) :
    minorOf (mkdev major minor) = minor := by
  have hbits : minor < 2 ^ minorBits := h.trans (by decide)
  rw [minorOf, mkdev_eq major minor hbits, Nat.mul_comm, Nat.mul_add_mod, Nat.mod_eq_of_lt hbits]

/-- The outcomes of one load, nodes and cdevs by minor number. A pointer is valid
when positive and an ERR_PTR when negative, and never NULL. -/
structure InitOutcomes where
  region : Int
  dev : Nat
  cls : Int
  node : Nat → Int
  add : Nat → Int
  region_le : region ≤ 0
  cls_ne : cls ≠ 0
  node_ne : ∀ minor, node minor ≠ 0
  add_le : ∀ minor, add minor ≤ 0

def InitOutcomes.reply (o : InitOutcomes) : KernelCall → KernelReply
  | .allocChrdevRegion _ _ => { ret := o.region, dev := o.dev }
  | .classCreate => { ret := o.cls, dev := 0 }
  | .deviceCreate _ dev _ => { ret := o.node (minorOf dev), dev := 0 }
  | .cdevAdd _ dev _ => { ret := o.add (minorOf dev), dev := 0 }
  | _ => { ret := 0, dev := 0 }

def kernel (o : InitOutcomes) (s : Unit) (call : KernelCall) : Unit × KernelReply :=
  (s, o.reply call)

def Succeeded : KernelCall × KernelReply → Prop
  | (.allocChrdevRegion _ _, reply) => 0 ≤ reply.ret
  | (.classCreate, reply) => 0 < reply.ret
  | (.deviceCreate _ _ _, reply) => 0 < reply.ret
  | (.cdevAdd _ _ _, reply) => 0 ≤ reply.ret
  | _ => True

/-- Numbers from `dev` on, a class by its pointer, a node by its class and number. -/
inductive Resource where
  | region (dev count : Nat)
  | cls (pointer : Int)
  | node (cls : Int) (dev : Nat)
  | cdev (c : Cdev)
deriving DecidableEq

def effect : KernelCall × KernelReply → List (Entry Resource)
  | (.allocChrdevRegion _ count, reply) => acquired (.region reply.dev count) (0 ≤ reply.ret)
  | (.unregisterChrdevRegion dev count, _) => [.release (.region dev count)]
  | (.classCreate, reply) => acquired (.cls reply.ret) (0 < reply.ret)
  | (.setDevUevent cls, _) => [.use (.cls cls)]
  | (.classDestroy cls, _) => [.release (.cls cls)]
  | (.deviceCreate cls dev _, reply) => .use (.cls cls) :: acquired (.node cls dev) (0 < reply.ret)
  | (.deviceDestroy cls dev, _) => [.use (.cls cls), .release (.node cls dev)]
  | (.cdevInit _, _) => []
  | (.cdevAdd c _ _, reply) => acquired (.cdev c) (0 ≤ reply.ret)
  | (.cdevDel c, _) => [.release (.cdev c)]

def resources (log : List (KernelCall × KernelReply)) : List (Entry Resource) :=
  log.flatMap effect

/-- The load returns 0 exactly when every call succeeded, and otherwise has given
back everything once and used the class only while it existed. -/
def AllOrNothing (log : List (KernelCall × KernelReply)) (ret : Int) : Prop :=
  (ret = 0 ↔ ∀ e ∈ log, Succeeded e) ∧ (ret ≠ 0 → replay [] (resources log) = some [])

/-- What one load can acquire. -/
inductive Part where
  | region
  | cls
  | node (minor : Fin 3)
  | cdev (c : Cdev)
deriving DecidableEq

/-- The entries up to the last device node, by which calls succeeded. -/
def started (cls node0 node1 node2 : Bool) : List (Entry Part) :=
  List.flatten
    [[.acquire .region], acquired .cls cls, [.use .cls, .use .cls], acquired (.node 0) node0,
      [.use .cls], acquired (.node 1) node1, [.use .cls], acquired (.node 2) node2]

/-- The entries of the first `n` registrations. -/
def registrations (n : Nat) (x y z : Bool) : List (Entry Part) :=
  ([acquired (.cdev .x) x, acquired (.cdev .y) y, acquired (.cdev .x) z].take n).flatten

/-- Destroy these nodes, then the class, and give the region back. -/
def unwind (minors : List (Fin 3)) : List (Entry Part) :=
  minors.flatMap (fun minor => [.use .cls, .release (.node minor)]) ++
    [.release .cls, .release .region]

/-- The first error path fits when the first node alone was created. -/
theorem unwind_x : ∀ cls node0 node1 node2 y z : Bool,
    replay [] (started cls node0 node1 node2 ++ registrations 1 false y z ++ unwind [0]) =
        some [] ↔
      cls = true ∧ node0 = true ∧ node1 = false ∧ node2 = false := by decide +kernel

/-- The second, when the third node failed and `c_dev_x` had not been added. -/
theorem unwind_y : ∀ cls node0 node1 node2 x z : Bool,
    replay [] (started cls node0 node1 node2 ++ registrations 2 x false z ++ unwind [0, 1]) =
        some [] ↔
      cls = true ∧ x = false ∧ node0 = true ∧ node1 = true ∧ node2 = false := by decide +kernel

theorem unwind_z : ∀ cls node0 node1 node2 x y : Bool,
    replay [] (started cls node0 node1 node2 ++ registrations 3 x y false ++ unwind [0, 1, 2]) =
        some [] ↔
      cls = true ∧ x = false ∧ y = false ∧ node0 = true ∧ node1 = true ∧ node2 = true := by
  decide +kernel

section Run

variable (g : Globals) (o : InitOutcomes)

/-- The calls up to the last device node. -/
def InitOutcomes.nodeCalls (o : InitOutcomes) : List KernelCall :=
  [.allocChrdevRegion 0 3, .classCreate, .setDevUevent o.cls,
    .deviceCreate o.cls (mkdev (majorOf o.dev) 0) "adxl_x",
    .deviceCreate o.cls (mkdev (majorOf o.dev) 1) "adxl_y",
    .deviceCreate o.cls (mkdev (majorOf o.dev) 2) "adxl_z"]

/-- The registrations of the first `n` cdevs. -/
def InitOutcomes.addCalls (o : InitOutcomes) (n : Nat) : List KernelCall :=
  [KernelCall.cdevInit .x, .cdevAdd .x (mkdev (majorOf o.dev) 0) 3,
    .cdevInit .y, .cdevAdd .y (mkdev (majorOf o.dev) 1) 3,
    .cdevInit .z, .cdevAdd .x (mkdev (majorOf o.dev) 2) 3].take (2 * n)

/-- The error path that destroys the first `n` nodes. -/
def InitOutcomes.undoCalls (o : InitOutcomes) (n : Nat) : List KernelCall :=
  (List.range n).map (fun minor => .deviceDestroy o.cls (mkdev (majorOf o.dev) minor)) ++
    [.classDestroy o.cls, .unregisterChrdevRegion o.dev 3]

def InitOutcomes.entries (o : InitOutcomes) (calls : List KernelCall) :
    List (KernelCall × KernelReply) :=
  calls.map fun call => (call, o.reply call)

/-- The run stops at the first `add` of -1, the only failure it notices once the
region is there. -/
theorem mycharInit_run (h : o.region = 0) :
    let calls := trace (kernel o) (mycharInit g) ()
    let ret := (exec (kernel o) (mycharInit g) ()).2.2
    (∃ k < 3, (∀ j < k, o.add j ≠ -1) ∧ o.add k = -1 ∧
        calls = o.entries (o.nodeCalls ++ o.addCalls (k + 1) ++ o.undoCalls (k + 1)) ∧
        ret = -1) ∨
      ((∀ k < 3, o.add k ≠ -1) ∧ calls = o.entries (o.nodeCalls ++ o.addCalls 3) ∧ ret = 0) := by
  intro calls ret
  by_cases hx : o.add 0 = -1
  · refine Or.inl ⟨0, by decide, by simp, hx, ?_⟩
    simp [calls, ret, mycharInit, kernel, InitOutcomes.reply, o.cls_ne, o.node_ne, hx, h,
      Program.after, InitOutcomes.entries, InitOutcomes.nodeCalls, InitOutcomes.addCalls,
      InitOutcomes.undoCalls]
  · by_cases hy : o.add 1 = -1
    · refine Or.inl ⟨1, by decide, by simpa using hx, hy, ?_⟩
      simp [calls, ret, mycharInit, kernel, InitOutcomes.reply, o.cls_ne, o.node_ne, hx, hy, h,
        Program.after, InitOutcomes.entries, InitOutcomes.nodeCalls, InitOutcomes.addCalls,
        InitOutcomes.undoCalls, List.range_succ]
    · by_cases hz : o.add 2 = -1
      · refine Or.inl ⟨2, by decide, ?_, hz, ?_⟩
        · intro j hj
          interval_cases j
          · exact hx
          · exact hy
        · simp [calls, ret, mycharInit, kernel, InitOutcomes.reply, o.cls_ne, o.node_ne, hx, hy,
            hz, h, Program.after, InitOutcomes.entries, InitOutcomes.nodeCalls,
            InitOutcomes.addCalls, InitOutcomes.undoCalls, List.range_succ]
      · refine Or.inr ⟨?_, ?_⟩
        · intro k hk
          interval_cases k
          · exact hx
          · exact hy
          · exact hz
        · simp [calls, ret, mycharInit, kernel, InitOutcomes.reply, o.cls_ne, o.node_ne, hx, hy,
            hz, h, InitOutcomes.entries, InitOutcomes.nodeCalls, InitOutcomes.addCalls]

theorem resources_entries_append (calls rest : List KernelCall) :
    resources (o.entries (calls ++ rest)) =
      resources (o.entries calls) ++ resources (o.entries rest) := by
  rw [InitOutcomes.entries, List.map_append, resources, List.flatMap_append]
  rfl

/-- The resource behind each part, under the numbers and the class pointer of this load. -/
def InitOutcomes.resource (o : InitOutcomes) : Part → Resource
  | .region => .region o.dev 3
  | .cls => .cls o.cls
  | .node minor => .node o.cls (mkdev (majorOf o.dev) minor)
  | .cdev c => .cdev c

theorem resource_injective : Function.Injective o.resource := by
  intro a b h
  cases a with
  | node minor =>
    cases b with
    | node minor' =>
      simp only [InitOutcomes.resource, Resource.node.injEq, true_and] at h
      have hminor := congrArg minorOf h
      rw [minorOf_mkdev _ _ minor.isLt, minorOf_mkdev _ _ minor'.isLt] at hminor
      rw [Fin.ext hminor]
    | _ => cases h
  | cdev c =>
    cases b with
    | cdev c' => cases h; rfl
    | _ => cases h
  | region =>
    cases b with
    | region => rfl
    | _ => cases h
  | cls =>
    cases b with
    | cls => rfl
    | _ => cases h

def InitOutcomes.ledger (o : InitOutcomes) (parts : List (Entry Part)) : List (Entry Resource) :=
  parts.map (Entry.map o.resource)

theorem nodeCalls_ledger (h : o.region = 0) :
    resources (o.entries o.nodeCalls) =
      o.ledger (started (0 < o.cls) (0 < o.node 0) (0 < o.node 1) (0 < o.node 2)) := by
  simp [InitOutcomes.entries, InitOutcomes.nodeCalls, InitOutcomes.reply, h, resources, effect,
    InitOutcomes.ledger, started, map_acquired, Entry.map, InitOutcomes.resource]

theorem addCalls_ledger (n : Nat) (h : n ≤ 3) :
    resources (o.entries (o.addCalls n)) =
      o.ledger (registrations n (0 ≤ o.add 0) (0 ≤ o.add 1) (0 ≤ o.add 2)) := by
  interval_cases n <;>
    simp [InitOutcomes.entries, InitOutcomes.addCalls, InitOutcomes.reply, resources, effect,
      InitOutcomes.ledger, registrations, map_acquired, InitOutcomes.resource]

theorem undoCalls_ledger (n : Nat) (h : n ≤ 3) :
    resources (o.entries (o.undoCalls n)) = o.ledger (unwind ((List.finRange 3).take n)) := by
  interval_cases n <;>
    simp [InitOutcomes.entries, InitOutcomes.undoCalls, resources, effect, InitOutcomes.ledger,
      unwind, Entry.map, InitOutcomes.resource, List.range_succ, List.finRange_succ]

def InitOutcomes.AllSucceed (o : InitOutcomes) : Prop :=
  o.region = 0 ∧ 0 < o.cls ∧ 0 < o.node 0 ∧ 0 < o.node 1 ∧ 0 < o.node 2 ∧
    0 ≤ o.add 0 ∧ 0 ≤ o.add 1 ∧ 0 ≤ o.add 2

/-- The error path of cdev `k` is taken and fits: the nodes up to `k` were created,
the others failed, and so did the cdevs before `k`, with another errno. -/
def InitOutcomes.UnwindsAt (o : InitOutcomes) (k : Nat) : Prop :=
  0 < o.cls ∧ o.add k = -1 ∧ (0 < k → o.add 0 < -1) ∧ (1 < k → o.add 1 < -1) ∧
    0 < o.node 0 ∧ (0 < o.node 1 ↔ 1 ≤ k) ∧ (0 < o.node 2 ↔ 2 ≤ k)

/-- The error path that is taken is the only one that can fit. -/
theorem exists_unwindsAt (k : Nat) (hk : k < 3) (hbefore : ∀ j < k, o.add j ≠ -1)
    (hadd : o.add k = -1) : (∃ k < 3, o.UnwindsAt k) ↔ o.UnwindsAt k := by
  constructor
  · rintro ⟨j, hj, h⟩
    rcases Nat.lt_trichotomy j k with hjk | rfl | hjk
    · exact absurd h.2.1 (hbefore j hjk)
    · exact h
    · obtain ⟨-, -, h0, h1, -⟩ := h
      interval_cases k
      · have hless := h0 hjk
        omega
      · have hless := h1 hjk
        omega
      · omega
  · intro h
    exact ⟨k, hk, h⟩

/-- The ledger of the error path of cdev `k`. -/
theorem unwindsAt_iff (k : Nat) (hk : k < 3) (h : o.region = 0)
    (hbefore : ∀ j < k, o.add j ≠ -1) (hadd : o.add k = -1) :
    replay [] (resources (o.entries (o.nodeCalls ++ o.addCalls (k + 1) ++ o.undoCalls (k + 1)))) =
      some [] ↔ o.UnwindsAt k := by
  rw [resources_entries_append, resources_entries_append, nodeCalls_ledger o h,
    addCalls_ledger o (k + 1) hk, undoCalls_ledger o (k + 1) hk, InitOutcomes.ledger,
    InitOutcomes.ledger, InitOutcomes.ledger, ← List.map_append, ← List.map_append,
    replay_map_nil _ (resource_injective o)]
  have hneg : ¬0 ≤ o.add k := by omega
  interval_cases k
  · simp only [hneg, decide_false]
    refine (unwind_x _ _ _ _ _ _).trans ?_
    simp [InitOutcomes.UnwindsAt, hadd]
  · have hx := hbefore 0 (by decide)
    simp only [hneg, decide_false]
    refine (unwind_y _ _ _ _ _ _).trans ?_
    simp [InitOutcomes.UnwindsAt, hadd]
    omega
  · have hx := hbefore 0 (by decide)
    have hy := hbefore 1 (by decide)
    simp only [hneg, decide_false]
    refine (unwind_z _ _ _ _ _ _).trans ?_
    simp [InitOutcomes.UnwindsAt, hadd]
    omega

/-- The last call before an error path failed. -/
theorem not_succeeded_of_add (k : Nat) (hk : k < 3) (hadd : o.add k = -1)
    (rest : List KernelCall) :
    ¬∀ e ∈ o.entries (o.nodeCalls ++ o.addCalls (k + 1) ++ rest), Succeeded e := by
  intro hall
  have hfailed : ∃ c, (KernelCall.cdevAdd c (mkdev (majorOf o.dev) k) 3) ∈ o.addCalls (k + 1) := by
    interval_cases k
    · exact ⟨.x, by simp [InitOutcomes.addCalls]⟩
    · exact ⟨.y, by simp [InitOutcomes.addCalls]⟩
    · exact ⟨.x, by simp [InitOutcomes.addCalls]⟩
  obtain ⟨c, hc⟩ := hfailed
  have hsucceeded := hall _ (List.mem_map_of_mem (List.mem_append_left rest
    (List.mem_append_right o.nodeCalls hc)))
  simp [Succeeded, InitOutcomes.reply, hk, hadd] at hsucceeded

/-- Every call was made and succeeded, or one that was made failed. -/
theorem mycharInit_succeeded (h : o.region = 0) :
    (∀ e ∈ trace (kernel o) (mycharInit g) (), Succeeded e) ↔ o.AllSucceed := by
  rcases mycharInit_run g o h with ⟨k, hk, -, hadd, hcalls, -⟩ | ⟨-, hcalls, -⟩
  · rw [hcalls]
    refine iff_of_false (not_succeeded_of_add o k hk hadd _) ?_
    rintro ⟨-, -, -, -, -, hx, hy, hz⟩
    interval_cases k
    · omega
    · omega
    · omega
  · rw [hcalls]
    simp [InitOutcomes.entries, InitOutcomes.nodeCalls, InitOutcomes.addCalls,
      InitOutcomes.reply, Succeeded, InitOutcomes.AllSucceed, h]

/-- A failed load is undone only on the three error paths that fit. -/
theorem mycharInit_allOrNothing_iff :
    AllOrNothing (trace (kernel o) (mycharInit g) ()) (exec (kernel o) (mycharInit g) ()).2.2 ↔
      o.region < 0 ∨ o.AllSucceed ∨ ∃ k < 3, o.UnwindsAt k := by
  by_cases hregion : o.region < 0
  · have hneg : ¬0 ≤ o.region := by omega
    refine iff_of_true ?_ (Or.inl hregion)
    simp [AllOrNothing, mycharInit, kernel, InitOutcomes.reply, hregion, Succeeded, resources,
      effect, acquired, hneg]
  · have hzero : o.region = 0 := by
      have hle := o.region_le
      omega
    unfold AllOrNothing
    have hsucceeded := mycharInit_succeeded g o hzero
    rcases mycharInit_run g o hzero with ⟨k, hk, hbefore, hadd, hcalls, hret⟩ | ⟨hadd, -, hret⟩
    · have hfailed : ¬o.AllSucceed := by
        rw [← hsucceeded, hcalls]
        exact not_succeeded_of_add o k hk hadd _
      rw [hsucceeded, hret, hcalls, unwindsAt_iff o k hk hzero hbefore hadd,
        exists_unwindsAt o k hk hbefore hadd]
      simp [hregion, hfailed]
    · have hnone : ¬∃ k < 3, o.UnwindsAt k := by
        rintro ⟨k, hk, hunwinds⟩
        exact hadd k hk hunwinds.2.1
      rw [hsucceeded, hret]
      simp [hregion, hnone]

end Run

/-- The first `cdev_add` runs out of memory. -/
def outOfMemory (minor : Nat) : Int := if minor = 0 then -12 else 0

theorem outOfMemory_le (minor : Nat) : outOfMemory minor ≤ 0 := by
  unfold outOfMemory
  split
  · decide
  · decide

/-- With `-ENOMEM` for `c_dev_x` the load goes on and returns 0. -/
theorem mycharInit_ignores_enomem :
    let o : InitOutcomes :=
      { region := 0, dev := mkdev 240 0, cls := 1, node := fun _ => 1, add := outOfMemory
        region_le := le_rfl, cls_ne := one_ne_zero, node_ne := fun _ => one_ne_zero
        add_le := outOfMemory_le }
    ¬AllOrNothing (trace (kernel o) (mycharInit Globals.zero) ())
      (exec (kernel o) (mycharInit Globals.zero) ()).2.2 := by
  intro o hall
  have hret : (exec (kernel o) (mycharInit Globals.zero) ()).2.2 = 0 := by decide
  have hsucceed := (mycharInit_succeeded Globals.zero o rfl).mp (hall.1.mp hret)
  exact absurd hsucceed.2.2.2.2.2.1 (by decide)

end Adxl
