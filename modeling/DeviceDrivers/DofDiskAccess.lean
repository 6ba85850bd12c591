import DeviceDrivers.DofDisk

/-!
# What a request touches, and what it reports

The `memcpy` calls carry no bounds check of their own. Their ranges are read off
the access log: the disk side lies in the sectors of the request, the buffer
side in the segment it was computed for. The status of a completion is a
separate matter: it is the constant `mydisk_transfer` returns.
-/
namespace DofDisk

open ByteMemory EventRun

def Access.Covers (a : Access) (i : Nat) : Prop := a.first ≤ i ∧ i < a.first + a.count

/-- A segment is `len` bytes of its page, from `offset` on. -/
def BioVec.Covers (bv : BioVec) (i : Nat) : Prop :=
  bv.pageAddress + bv.offset.toNat ≤ i ∧ i < bv.pageAddress + (bv.offset.toNat + bv.len.toNat)

/-- They are the bytes the driver's `buffer` points to. -/
theorem BioVec.covers_iff (bv : BioVec) (i : Nat) :
    bv.Covers i ↔ bv.buffer ≤ i ∧ i < bv.buffer + bv.len.toNat := by
  rw [BioVec.Covers, BioVec.buffer, Nat.add_assoc]

/-- The disk bytes a request is about. -/
def Request.Covers (rq : Request) (i : Nat) : Prop := rq.start ≤ i ∧ i < rq.start + rq.totalLength

/-- A transfer from `devData` and `ram` stays inside its request. -/
structure Confined (rq : Request) (devData ram : Nat → UInt8) (after : Memory) : Prop where
  disk_in_device : ∀ a ∈ after.log, a.region = .devData →
    ∀ i, a.Covers i → i < nsectors * kernelSectorSize
  disk_in_request : ∀ a ∈ after.log, a.region = .devData → ∀ i, a.Covers i → rq.Covers i
  buffer_in_segment : ∀ a ∈ after.log, ∀ bv, a.region = .buffer bv →
    bv ∈ rq.segments ∧ ∀ i, a.Covers i → bv.Covers i
  read_keeps_disk : rq.dir = .read → after.devData = devData
  write_keeps_buffers : rq.dir = .write → after.ram = ram
  keeps_outside : ∀ i, (∀ bv ∈ rq.segments, ¬bv.Covers i) → after.ram i = ram i

/-- Every access of the loop is one side of the copy made for one segment. -/
theorem transferLoop_log (rq : Request) (s : TransferState) (segments : List BioVec) (a : Access)
    (ha : a ∈ (transferLoop rq s segments).mem.log) :
    a ∈ s.mem.log ∨ ∃ bv ∈ segments,
      a = ⟨.devData, rq.offset, bv.moved⟩ ∨ a = ⟨.buffer bv, bv.buffer, bv.moved⟩ := by
  induction segments generalizing s with
  | nil => exact .inl ha
  | cons bv segments ih =>
    rw [transferLoop_cons] at ha
    rcases ih _ ha with hs | ⟨bv', hbv, hside⟩
    · rw [transferSegment_mem] at hs
      cases hd : rq.dir <;>
        simp only [hd, Memory.copyToDisk, Memory.copyFromDisk, List.mem_append, List.mem_cons,
          List.not_mem_nil, or_false] at hs
      · exact hs.imp_right fun h => ⟨bv, List.mem_cons_self, h⟩
      · exact hs.imp_right fun h => ⟨bv, List.mem_cons_self, h.symm⟩
    · exact .inr ⟨bv', List.mem_cons_of_mem bv hbv, hside⟩

/-- Neither direction touches a byte of the pages outside the segments. -/
theorem transferLoop_outside (rq : Request) (s : TransferState) (segments : List BioVec) (i : Nat)
    (hi : ∀ bv ∈ segments, ¬bv.Covers i) : (transferLoop rq s segments).mem.ram i = s.mem.ram i := by
  induction segments generalizing s with
  | nil => rfl
  | cons bv segments ih =>
    have hmoved := bv.moved_le
    have hout := hi bv List.mem_cons_self
    rw [bv.covers_iff, not_and_or, Nat.not_le, Nat.not_lt] at hout
    rw [transferLoop_cons, ih _ fun bv' hbv => hi bv' (List.mem_cons_of_mem bv hbv),
      transferSegment_mem]
    cases rq.dir with
    | read =>
      apply copy_outside
      omega
    | write => rfl

/-- The log of a whole transfer that starts with nothing logged. -/
theorem mydiskTransfer_log (rq : Request) (devData ram : Nat → UInt8) (a : Access)
    (ha : a ∈ (mydiskTransfer rq ⟨devData, ram, []⟩).2.log) :
    ∃ bv ∈ rq.segments,
      a = ⟨.devData, rq.offset, bv.moved⟩ ∨ a = ⟨.buffer bv, bv.buffer, bv.moved⟩ :=
  (transferLoop_log rq ⟨⟨devData, ram, []⟩, 0⟩ rq.segments a ha).resolve_left (by simp)

theorem mydiskTransfer_confined (rq : Request) (h : rq.InCapacity) (devData ram : Nat → UInt8) :
    Confined rq devData ram (mydiskTransfer rq ⟨devData, ram, []⟩).2 := by
  have hoff : rq.offset = rq.start := start_mul_toNat rq h
  have hcap : rq.start + rq.totalLength ≤ nsectors * kernelSectorSize := h
  -- the disk side of a copy, whatever segment it was made for
  have hdisk : ∀ a ∈ (mydiskTransfer rq ⟨devData, ram, []⟩).2.log, a.region = .devData →
      ∀ i, a.Covers i → rq.Covers i := by
    intro a ha hr i hi
    obtain ⟨bv, hbv, rfl | rfl⟩ := mydiskTransfer_log rq devData ram a ha
    · have hmoved := bv.moved_le
      have hlen := rq.len_le_total bv hbv
      obtain ⟨hlow, hhigh⟩ := hi
      simp only [hoff] at hlow hhigh
      exact ⟨hlow, by omega⟩
    · cases hr
  refine ⟨?_, hdisk, ?_, ?_, ?_, ?_⟩
  · intro a ha hr i hi
    have hcov := (hdisk a ha hr i hi).2
    omega
  · intro a ha bv hr
    obtain ⟨bv', hbv, rfl | rfl⟩ := mydiskTransfer_log rq devData ram a ha
    · cases hr
    · cases hr
      have hmoved := bv.moved_le
      refine ⟨hbv, fun i hi => ?_⟩
      obtain ⟨hlow, hhigh⟩ := hi
      rw [bv.covers_iff]
      exact ⟨hlow, Nat.lt_of_lt_of_le hhigh (Nat.add_le_add_left hmoved _)⟩
  · exact fun hd => transferLoop_read_devData rq hd _ _
  · exact fun hd => transferLoop_write_ram rq hd _ _
  · exact fun i hi => transferLoop_outside rq _ rq.segments i hi

/-- One request changes no disk byte outside a WRITE that covers it. -/
theorem serve_frame (disk : Nat → UInt8) (f : Fetched) (h : f.rq.InCapacity) (x : Nat)
    (hx : f.rq.dir = .write → ¬f.rq.Covers x) : serve disk f x = disk x := by
  cases hd : f.rq.dir with
  | read => rw [serve_read disk f hd]
  | write =>
    have hoff : f.rq.offset = f.rq.start := start_mul_toNat f.rq h
    have hout := hx hd
    simp only [Request.Covers, not_and_or, Nat.not_le, Nat.not_lt] at hout
    exact serve_write_outside disk f x (by rwa [hoff])

theorem run_serve_frame (disk : Nat → UInt8) (queue : List Fetched)
    (h : ∀ f ∈ queue, f.rq.InCapacity) (x : Nat)
    (hx : ∀ f ∈ queue, f.rq.dir = .write → ¬f.rq.Covers x) :
    run serve disk queue x = disk x :=
  run_frame (fun d => d x) (fun f => f.rq.InCapacity ∧ (f.rq.dir = .write → ¬f.rq.Covers x))
    (fun d f hf => serve_frame d f hf.1 x hf.2) disk queue fun f hf => ⟨h f hf, hx f hf⟩

/-- Requests inside the capacity reach only their own sectors and buffers, and
over any sequence of them a disk byte that no WRITE covers keeps its value. -/
theorem requests_confined (disk : Nat → UInt8) (queue : List Fetched)
    (h : ∀ f ∈ queue, f.rq.InCapacity) :
    (∀ f ∈ queue, ∀ devData : Nat → UInt8,
      Confined f.rq devData f.ram (mydiskTransfer f.rq ⟨devData, f.ram, []⟩).2) ∧
    ∀ x, (∀ f ∈ queue, f.rq.dir = .write → ¬f.rq.Covers x) →
      (mydiskRequest disk queue).1 x = disk x := by
  refine ⟨fun f hf devData => mydiskTransfer_confined f.rq (h f hf) devData f.ram, ?_⟩
  intro x hx
  rw [mydiskRequest_eq]
  exact run_serve_frame disk queue h x hx

/-- A WRITE of two segments, one unaligned, on the last sectors, then a READ of sector 0. -/
theorem requests_confined_mixed :
    let queue : List Fetched :=
      [⟨⟨.write, 1021, [⟨4096, 8, 700⟩, ⟨8192, 0, 512⟩]⟩, fun _ => 7⟩,
        ⟨⟨.read, 0, [⟨4096, 0, 512⟩]⟩, fun _ => 0⟩]
    (∀ f ∈ queue, ∀ devData : Nat → UInt8,
      Confined f.rq devData f.ram (mydiskTransfer f.rq ⟨devData, f.ram, []⟩).2) ∧
    ∀ x, (∀ f ∈ queue, f.rq.dir = .write → ¬f.rq.Covers x) →
      (mydiskRequest (fun _ => 0) queue).1 x = 0 := by
  intro queue
  have hcap : ∀ f ∈ queue, f.rq.InCapacity := by
    intro f hf
    simp only [queue, List.mem_cons, List.not_mem_nil, or_false] at hf
    rcases hf with rfl | rfl
    · show Request.InCapacity ⟨.write, 1021, [⟨4096, 8, 700⟩, ⟨8192, 0, 512⟩]⟩
      decide
    · show Request.InCapacity ⟨.read, 0, [⟨4096, 0, 512⟩]⟩
      decide
  exact requests_confined (fun _ => 0) queue hcap

/-- What the loop's local `ret` collects: an error as soon as one segment has one. -/
theorem transferLoop_ret (rq : Request) (s : TransferState) (segments : List BioVec) :
    (transferLoop rq s segments).ret =
      if ∃ bv ∈ segments, ¬kernelSectorSize ∣ bv.len.toNat then -eio else s.ret := by
  induction segments generalizing s with
  | nil => simp
  | cons bv segments ih =>
    have hstep : (transferSegment rq.dir rq.pos s bv).ret =
        if ¬kernelSectorSize ∣ bv.len.toNat then -eio else s.ret := by
      have htest := len_mod_eq_zero_iff bv
      cases hd : rq.dir <;> simp only [transferSegment, ne_eq, htest]
    rw [transferLoop_cons, ih, hstep]
    by_cases hrest : ∃ bv ∈ segments, ¬kernelSectorSize ∣ bv.len.toNat
    · rw [if_pos hrest, if_pos]
      obtain ⟨bv', hbv, hlen⟩ := hrest
      exact ⟨bv', List.mem_cons_of_mem bv hbv, hlen⟩
    · rw [if_neg hrest]
      simp only [List.exists_mem_cons_iff, hrest, or_false]

/-- The completion's status is never the collected `ret`. -/
theorem complete_status (disk : Nat → UInt8) (f : Fetched) : (complete disk f).status = 0 := rfl

theorem completions_status (disk : Nat → UInt8) (queue : List Fetched) :
    ∀ c ∈ (mydiskRequest disk queue).2, c.status = 0 := by
  rw [mydiskRequest_eq]
  induction queue generalizing disk with
  | nil => simp
  | cons f queue ih =>
    simp only [replies_cons, List.forall_mem_cons]
    exact ⟨complete_status disk f, ih (serve disk f)⟩

def Request.AllSectors (rq : Request) : Prop :=
  ∀ bv ∈ rq.segments, kernelSectorSize ∣ bv.len.toNat

/-- A completion that tells whether all bytes were moved: `-EIO` for any
unaligned segment, and 0 exactly for requests that have none. -/
def Completion.Truthful (c : Completion) : Prop :=
  ((∃ bv ∈ c.rq.segments, ¬kernelSectorSize ∣ bv.len.toNat) → c.status = -eio) ∧
  (c.status = 0 ↔ c.rq.AllSectors)

/-- With the status fixed at 0, a completion is truthful exactly for requests
made of whole sectors; any other request loses bytes and reports success. -/
theorem completion_truthful_iff (disk : Nat → UInt8) (queue : List Fetched) :
    ∀ c ∈ (mydiskRequest disk queue).2, c.Truthful ↔ c.rq.AllSectors := by
  intro c hc
  have hstatus : c.status = 0 := completions_status disk queue c hc
  constructor
  · intro htrue
    exact htrue.2.mp hstatus
  · intro hall
    refine ⟨?_, by simp [hstatus, hall]⟩
    rintro ⟨bv, hbv, hlen⟩
    exact absurd (hall bv hbv) hlen

/-- One completion of each kind out of a queue of two requests. -/
theorem completion_truthful_iff_pair :
    let whole : Fetched := ⟨⟨.write, 0, [⟨4096, 0, 512⟩]⟩, fun _ => 0⟩
    let broken : Fetched := ⟨⟨.read, 1, [⟨4096, 0, 100⟩, ⟨8192, 0, 512⟩]⟩, fun _ => 0⟩
    let disk : Nat → UInt8 := fun _ => 0
    ((complete disk whole).Truthful ↔ whole.rq.AllSectors) ∧
    ((complete (serve disk whole) broken).Truthful ↔ broken.rq.AllSectors) := by
  intro whole broken disk
  have hpair := completion_truthful_iff disk [whole, broken]
  rw [mydiskRequest_eq] at hpair
  exact ⟨hpair (complete disk whole) (by simp),
    hpair (complete (serve disk whole) broken) (by simp)⟩

/-- A WRITE of a 100-byte segment before a whole one completes with status 0. -/
theorem completion_not_truthful :
    ¬∀ c ∈ (mydiskRequest (fun _ => 0)
      [⟨⟨.write, 0, [⟨4096, 0, 100⟩, ⟨8192, 0, 512⟩]⟩, fun _ => 0⟩]).2, c.Truthful := by
  intro h
  rw [mydiskRequest_eq] at h
  obtain ⟨herr, -⟩ := h _ List.mem_cons_self
  have hstatus := herr ⟨⟨4096, 0, 100⟩, by simp [complete], by decide⟩
  rw [complete_status] at hstatus
  exact absurd hstatus (by decide)

/-- Had the collected `ret` been returned, every completion would be truthful. -/
theorem collected_ret_truthful (disk : Nat → UInt8) (f : Fetched) :
    Completion.Truthful { complete disk f with
      status := (transferLoop f.rq ⟨⟨disk, f.ram, []⟩, 0⟩ f.rq.segments).ret } := by
  rw [transferLoop_ret]
  by_cases hbad : ∃ bv ∈ f.rq.segments, ¬kernelSectorSize ∣ bv.len.toNat
  · simp only [if_pos hbad]
    have hne : -eio ≠ 0 := by decide
    refine ⟨fun _ => rfl, ⟨fun hzero => absurd hzero hne, fun hall => ?_⟩⟩
    obtain ⟨bv, hbv, hlen⟩ := hbad
    exact absurd (hall bv hbv) hlen
  · simp only [if_neg hbad]
    refine ⟨fun h => absurd h hbad, fun _ => ?_, fun _ => rfl⟩
    intro bv hbv
    by_contra hlen
    exact hbad ⟨bv, hbv, hlen⟩

end DofDisk
