import DeviceDrivers.ByteMemory
import DeviceDrivers.Interaction

/-!
# The accelerometer's character driver

`mychar_init` and `mychar_exit` as programs of kernel calls, with the error paths
of the source, and the file operations. Device numbers are `MKDEV(major, minor)`.
-/
namespace Adxl

open Interaction ByteMemory

def minorBits : Nat := 20

/-- `MKDEV(ma, mi)` -/
def mkdev (major minor : Nat) : Nat := major <<< minorBits ||| minor

/-- `MAJOR(dev)` -/
def majorOf (dev : Nat) : Nat := dev >>> minorBits

theorem mkdev_eq (major minor : Nat) (h : minor < 2 ^ minorBits) :
    mkdev major minor = major * 2 ^ minorBits + minor := by
  rw [mkdev, ← Nat.shiftLeft_add_eq_or_of_lt h, Nat.shiftLeft_eq]

theorem majorOf_mkdev (major minor : Nat) (h : minor < 2 ^ minorBits) :
    majorOf (mkdev major minor) = major := by
  rw [mkdev_eq major minor h, majorOf, Nat.shiftRight_eq_div_pow, Nat.mul_comm,
    Nat.mul_add_div (Nat.two_pow_pos minorBits), Nat.div_eq_of_lt h, Nat.add_zero]

/-- `c_dev_x`, `c_dev_y` and `c_dev_z`. -/
inductive Cdev where
  | x
  | y
  | z
deriving DecidableEq

inductive KernelCall where
  | allocChrdevRegion (baseminor count : Nat)
  | unregisterChrdevRegion (dev count : Nat)
  | classCreate
  | setDevUevent (cls : Int)
  | classDestroy (cls : Int)
  | deviceCreate (cls : Int) (dev : Nat) (name : String)
  | deviceDestroy (cls : Int) (dev : Nat)
  | cdevInit (c : Cdev)
  | cdevAdd (c : Cdev) (dev count : Nat)
  | cdevDel (c : Cdev)

/-- A status or a pointer (0 is NULL), and the number a region was given. -/
structure KernelReply where
  ret : Int
  dev : Nat

structure Globals where
  first : Nat
  cls : Int
  adxlMajor : Nat
  i : UInt32

def Globals.zero : Globals := { first := 0, cls := 0, adxlMajor := 0, i := 0 }

def mycharInit (g : Globals) : Program KernelCall KernelReply (Globals × Int) :=
  .call (.allocChrdevRegion 0 3) fun region =>
    if region.ret < 0 then .done (g, -1)
    else
      let g := { g with first := region.dev, adxlMajor := majorOf region.dev }
      .call .classCreate fun created =>
        let g := { g with cls := created.ret }
        let release : KernelCall := .unregisterChrdevRegion g.first 3
        let destroy (minor : Nat) : KernelCall := .deviceDestroy g.cls (mkdev g.adxlMajor minor)
        let fail (calls : List KernelCall) := Program.after calls (.done (g, -1))
        if g.cls = 0 then fail [release]
        else
          .call (.setDevUevent g.cls) fun _ =>
          .call (.deviceCreate g.cls (mkdev g.adxlMajor 0) "adxl_x") fun node =>
            if node.ret = 0 then fail [.classDestroy g.cls, release]
            else
              .call (.deviceCreate g.cls (mkdev g.adxlMajor 1) "adxl_y") fun node =>
                if node.ret = 0 then fail [.classDestroy g.cls, release, destroy 0]
                else
                  .call (.deviceCreate g.cls (mkdev g.adxlMajor 2) "adxl_z") fun node =>
                    if node.ret = 0 then
                      fail [.classDestroy g.cls, release, destroy 0, destroy 1]
                    else
                      .call (.cdevInit .x) fun _ =>
                      .call (.cdevAdd .x (mkdev g.adxlMajor 0) 3) fun added =>
                        if added.ret = -1 then fail [destroy 0, .classDestroy g.cls, release]
                        else
                          .call (.cdevInit .y) fun _ =>
                          .call (.cdevAdd .y (mkdev g.adxlMajor 1) 3) fun added =>
                            if added.ret = -1 then
                              fail [destroy 0, destroy 1, .classDestroy g.cls, release]
                            else
                              .call (.cdevInit .z) fun _ =>
                              -- the third registration names `c_dev_x` again
                              .call (.cdevAdd .x (mkdev g.adxlMajor 2) 3) fun added =>
                                if added.ret = -1 then
                                  fail [destroy 0, destroy 1, destroy 2, .classDestroy g.cls,
                                    release]
                                else .done (g, 0)

def mycharExit (g : Globals) : Program KernelCall KernelReply Globals :=
  Program.after
    [.cdevDel .x, .cdevDel .y, .cdevDel .z, .deviceDestroy g.cls (mkdev g.adxlMajor 0),
      .deviceDestroy g.cls (mkdev g.adxlMajor 1), .deviceDestroy g.cls (mkdev g.adxlMajor 2),
      .classDestroy g.cls, .unregisterChrdevRegion g.first 3]
    (.done g)

def scullOpen (g : Globals) : Globals × Int := (g, 0)

/-- `random` is what `get_random_bytes` puts in the low half of `i`, `notCopied`
the result of `copy_to_user` to `buf`. -/
def scullRead (g : Globals) (user : Nat → UInt8) (buf : Nat) (random : UInt16)
    (notCopied : Nat) : Globals × (Nat → UInt8) × Int :=
  let i := (g.i &&& 0xFFFF0000 ||| random.toUInt32) % 1024
  let sample := leBytes 4 i.toNat
  ({ g with i := i }, store user buf (sample.take (4 - notCopied)),
    if notCopied ≠ 0 then 4 else 0)

end Adxl
