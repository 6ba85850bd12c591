import DeviceDrivers.EventRun
import DeviceDrivers.ByteMemory

/-!
# Request path of the dof RAM disk

`mydisk_transfer` and `mydisk_request`, with the disk (`dev_data`) and the page
memory of the requests as two objects: buffers never lie inside the disk, but
the segments of a request may share or overlap pages. Memory keeps a log of the
ranges every `memcpy` goes through, by the pointer it was reached from.
-/
namespace DofDisk

open ByteMemory EventRun

def kernelSectorSize : Nat := 512
def nsectors : Nat := 1024

/-- Bytes obtained from `vmalloc` for `dev_data`. -/
def diskBytes : Nat := nsectors * kernelSectorSize

def eio : Int := 5

inductive Direction where
  | read | write
  deriving DecidableEq, Repr

/-- A `bio_vec`, its page given by the address `page_address` returns for it. -/
structure BioVec where
  pageAddress : Nat
  offset : BitVec 32
  len : BitVec 32
  deriving DecidableEq, Repr

def BioVec.buffer (bv : BioVec) : Nat := bv.pageAddress + bv.offset.toNat

/-- A block request: `rq_data_dir`, `blk_rq_pos` and the segments in the order
of `rq_for_each_segment`. -/
structure Request where
  dir : Direction
  pos : BitVec 64
  segments : List BioVec
  deriving DecidableEq, Repr

inductive Region where
  | devData
  | buffer (bv : BioVec)
  deriving DecidableEq, Repr

structure Access where
  region : Region
  first : Nat
  count : Nat
  deriving DecidableEq, Repr

structure Memory where
  devData : Nat → UInt8
  ram : Nat → UInt8
  log : List Access

/-- `memcpy(dev_data + disk, buffer, bytes)`. -/
def Memory.copyToDisk (m : Memory) (disk : Nat) (bv : BioVec) (bytes : Nat) : Memory where
  devData := copy m.devData disk m.ram bv.buffer bytes
  ram := m.ram
  log := m.log ++ [⟨.buffer bv, bv.buffer, bytes⟩, ⟨.devData, disk, bytes⟩]

/-- `memcpy(buffer, dev_data + disk, bytes)`. -/
def Memory.copyFromDisk (m : Memory) (disk : Nat) (bv : BioVec) (bytes : Nat) : Memory where
  devData := m.devData
  ram := copy m.ram bv.buffer m.devData disk bytes
  log := m.log ++ [⟨.devData, disk, bytes⟩, ⟨.buffer bv, bv.buffer, bytes⟩]

/-- Locals of `mydisk_transfer` that live across iterations. -/
structure TransferState where
  mem : Memory
  ret : Int

/-- One iteration of `rq_for_each_segment`. `sectors` is an `unsigned int`,
`sector_t` has 64 bits, and `start_sector` is never advanced. -/
def transferSegment (dir : Direction) (startSector : BitVec 64) (s : TransferState)
    (bv : BioVec) : TransferState :=
  let ret := if bv.len % BitVec.ofNat 32 kernelSectorSize ≠ 0 then -eio else s.ret
  let sectors : BitVec 32 := bv.len / BitVec.ofNat 32 kernelSectorSize
  let disk := (startSector * BitVec.ofNat 64 kernelSectorSize).toNat
  let bytes := (sectors * BitVec.ofNat 32 kernelSectorSize).toNat
  match dir with
  | .write => ⟨s.mem.copyToDisk disk bv bytes, ret⟩
  | .read => ⟨s.mem.copyFromDisk disk bv bytes, ret⟩

/-- The local `ret` is collected, but the function ends in `return 0`. -/
def mydiskTransfer (rq : Request) (mem : Memory) : Int × Memory :=
  let s := rq.segments.foldl (transferSegment rq.dir rq.pos) ⟨mem, 0⟩
  (0, s.mem)

/-- A request as `blk_fetch_request` hands it out: its pages hold whatever their
owners have put there by then. -/
structure Fetched where
  rq : Request
  ram : Nat → UInt8

/-- What `__blk_end_request_all` reports, and the pages at that moment. -/
structure Completion where
  rq : Request
  status : Int
  ram : Nat → UInt8

/-- The `while` loop over the queue; a list of requests stands for all that are
ever fetched, in order, over any number of calls. -/
def mydiskRequest (disk : Nat → UInt8) : List Fetched → (Nat → UInt8) × List Completion
  | [] => (disk, [])
  | f :: queue =>
    let (ret, mem) := mydiskTransfer f.rq ⟨disk, f.ram, []⟩
    let (disk', done) := mydiskRequest mem.devData queue
    (disk', ⟨f.rq, ret, mem.ram⟩ :: done)

/-- Whole sectors of a segment, in bytes. -/
def BioVec.moved (bv : BioVec) : Nat := bv.len.toNat / kernelSectorSize * kernelSectorSize

def Request.totalLength (rq : Request) : Nat := (rq.segments.map fun bv => bv.len.toNat).sum

/-- First disk byte of a request, as a plain number. -/
def Request.start (rq : Request) : Nat := rq.pos.toNat * kernelSectorSize

/-- The block layer bounds a request by the capacity `set_capacity` announced. -/
def Request.InCapacity (rq : Request) : Prop := rq.start + rq.totalLength ≤ diskBytes

instance (rq : Request) : Decidable rq.InCapacity := inferInstanceAs (Decidable (_ ≤ _))

theorem BioVec.moved_le (bv : BioVec) : bv.moved ≤ bv.len.toNat :=
  Nat.div_mul_le_self _ _

theorem BioVec.moved_of_dvd (bv : BioVec) (h : kernelSectorSize ∣ bv.len.toNat) :
    bv.moved = bv.len.toNat := Nat.div_mul_cancel h

theorem Request.len_le_total (rq : Request) (bv : BioVec) (h : bv ∈ rq.segments) :
    bv.len.toNat ≤ rq.totalLength :=
  List.single_le_sum (by simp) _ (List.mem_map_of_mem (f := fun bv : BioVec => bv.len.toNat) h)

/-- The 32-bit product rounds the length down and cannot wrap. -/
theorem sectors_mul_toNat (bv : BioVec) :
    (bv.len / BitVec.ofNat 32 kernelSectorSize * BitVec.ofNat 32 kernelSectorSize).toNat =
      bv.moved := by
  have hlt : bv.len.toNat / 512 * 512 < 2 ^ 32 :=
    Nat.lt_of_le_of_lt (Nat.div_mul_le_self _ _) bv.len.isLt
  simp only [BitVec.toNat_mul, BitVec.toNat_udiv, BitVec.toNat_ofNat, BioVec.moved,
    kernelSectorSize]
  exact Nat.mod_eq_of_lt hlt

/-- Inside the capacity the 64-bit product is the exact byte offset. -/
theorem start_mul_toNat (rq : Request) (h : rq.InCapacity) :
    (rq.pos * BitVec.ofNat 64 kernelSectorSize).toNat = rq.start := by
  have hlt : rq.pos.toNat * 512 < 2 ^ 64 := by
    have hcap : rq.pos.toNat * 512 + rq.totalLength ≤ 1024 * 512 := h
    omega
  simp only [BitVec.toNat_mul, BitVec.toNat_ofNat, Request.start, kernelSectorSize]
  exact Nat.mod_eq_of_lt hlt

/-- The remainder test of the code is divisibility of the length. -/
theorem len_mod_eq_zero_iff (bv : BioVec) :
    bv.len % BitVec.ofNat 32 kernelSectorSize = 0 ↔ kernelSectorSize ∣ bv.len.toNat := by
  rw [← BitVec.toNat_inj, Nat.dvd_iff_mod_eq_zero]
  simp [kernelSectorSize]

/-- The offset `memcpy` receives, before any bound on the request is known. -/
def Request.offset (rq : Request) : Nat := (rq.pos * BitVec.ofNat 64 kernelSectorSize).toNat

/-- What one iteration does to memory, guards and widths resolved. -/
theorem transferSegment_mem (rq : Request) (s : TransferState) (bv : BioVec) :
    (transferSegment rq.dir rq.pos s bv).mem =
      match rq.dir with
      | .write => s.mem.copyToDisk rq.offset bv bv.moved
      | .read => s.mem.copyFromDisk rq.offset bv bv.moved := by
  cases hd : rq.dir <;> simp only [transferSegment, sectors_mul_toNat, Request.offset]

/-- The loop over any list of segments, from any state it can be entered in. -/
def transferLoop (rq : Request) (s : TransferState) (segments : List BioVec) : TransferState :=
  segments.foldl (transferSegment rq.dir rq.pos) s

theorem mydiskTransfer_eq (rq : Request) (mem : Memory) :
    mydiskTransfer rq mem = (0, (transferLoop rq ⟨mem, 0⟩ rq.segments).mem) := rfl

@[simp] theorem transferLoop_nil (rq : Request) (s : TransferState) : transferLoop rq s [] = s := rfl
@[simp] theorem transferLoop_cons (rq : Request) (s : TransferState) (bv : BioVec)
    (segments : List BioVec) : transferLoop rq s (bv :: segments) =
      transferLoop rq (transferSegment rq.dir rq.pos s bv) segments := rfl

theorem transferLoop_concat (rq : Request) (s : TransferState) (segments : List BioVec)
    (bv : BioVec) : transferLoop rq s (segments ++ [bv]) =
      transferSegment rq.dir rq.pos (transferLoop rq s segments) bv := by
  simp only [transferLoop, List.foldl_append, List.foldl_cons, List.foldl_nil]

/-- A READ leaves every byte of the disk alone. -/
theorem transferLoop_read_devData (rq : Request) (h : rq.dir = .read) (s : TransferState)
    (segments : List BioVec) :
    (transferLoop rq s segments).mem.devData = s.mem.devData := by
  induction segments generalizing s with
  | nil => rfl
  | cons bv segments ih =>
    rw [transferLoop_cons, ih, transferSegment_mem, h]
    rfl

/-- A WRITE leaves every byte of the pages alone. -/
theorem transferLoop_write_ram (rq : Request) (h : rq.dir = .write) (s : TransferState)
    (segments : List BioVec) :
    (transferLoop rq s segments).mem.ram = s.mem.ram := by
  induction segments generalizing s with
  | nil => rfl
  | cons bv segments ih =>
    rw [transferLoop_cons, ih, transferSegment_mem, h]
    rfl

/-- A WRITE leaves the disk alone wherever none of its segments reaches. -/
theorem transferLoop_write_outside (rq : Request) (h : rq.dir = .write) (s : TransferState)
    (segments : List BioVec) (x : Nat)
    (hx : x < rq.offset ∨ ∀ bv ∈ segments, rq.offset + bv.moved ≤ x) :
    (transferLoop rq s segments).mem.devData x = s.mem.devData x := by
  induction segments generalizing s with
  | nil => rfl
  | cons bv segments ih =>
    have htail : x < rq.offset ∨ ∀ bv ∈ segments, rq.offset + bv.moved ≤ x :=
      hx.imp_right fun hx bv' hbv => hx bv' (List.mem_cons_of_mem bv hbv)
    rw [transferLoop_cons, ih _ htail, transferSegment_mem, h]
    apply copy_outside
    exact hx.imp_right fun hx => hx bv List.mem_cons_self

/-- The disk after one fetched request. -/
def serve (disk : Nat → UInt8) (f : Fetched) : Nat → UInt8 :=
  (mydiskTransfer f.rq ⟨disk, f.ram, []⟩).2.devData

/-- The completion of one fetched request. -/
def complete (disk : Nat → UInt8) (f : Fetched) : Completion :=
  ⟨f.rq, (mydiskTransfer f.rq ⟨disk, f.ram, []⟩).1, (mydiskTransfer f.rq ⟨disk, f.ram, []⟩).2.ram⟩

/-- The loop over the queue is the run of these two over the fetched requests. -/
theorem mydiskRequest_eq (disk : Nat → UInt8) (queue : List Fetched) :
    mydiskRequest disk queue = (run serve disk queue, replies serve complete disk queue) := by
  induction queue generalizing disk with
  | nil => rfl
  | cons f queue ih =>
    have htail := ih (serve disk f)
    simp only [serve] at htail ⊢
    simp only [mydiskRequest, htail, run_cons, replies_cons]
    rfl

/-- Every fetched request is completed exactly once, in the order of fetching. -/
theorem mydiskRequest_completes (disk : Nat → UInt8) (queue : List Fetched) :
    (mydiskRequest disk queue).2.map Completion.rq = queue.map Fetched.rq := by
  rw [mydiskRequest_eq]
  induction queue generalizing disk with
  | nil => rfl
  | cons f queue ih => simp only [replies_cons, List.map_cons, ih, complete]

theorem serve_read (disk : Nat → UInt8) (f : Fetched) (h : f.rq.dir = .read) :
    serve disk f = disk := transferLoop_read_devData f.rq h _ _

theorem serve_write_outside (disk : Nat → UInt8) (f : Fetched) (x : Nat)
    (hx : x < f.rq.offset ∨ f.rq.offset + f.rq.totalLength ≤ x) : serve disk f x = disk x := by
  cases hd : f.rq.dir with
  | read => rw [serve_read disk f hd]
  | write =>
    apply transferLoop_write_outside f.rq hd ⟨⟨disk, f.ram, []⟩, 0⟩ f.rq.segments x
    refine hx.imp_right fun hx bv hbv => ?_
    have := bv.moved_le
    have := f.rq.len_le_total bv hbv
    omega

end DofDisk
