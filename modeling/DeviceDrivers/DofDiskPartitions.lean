import DeviceDrivers.DofDiskImage

/-!
# Partition users and the partitioning

The block layer confines a user of a partition to the sector extent its entry
announces. The extents of the two partitions are apart from each other and from
the master boot record, but the boot record of the logical partitions lies in
the middle of the first extent.
-/
namespace DofDisk

open ByteMemory EventRun

structure Extent where
  first : Nat
  count : Nat
  deriving DecidableEq, Repr

def Extent.bytes (p : Extent) : Set Nat :=
  Set.Ico (p.first * sectorSize) ((p.first + p.count) * sectorSize)

/-- `[abs_start_sec, abs_start_sec + sec_in_part)` of the primary partitions. -/
def extents (disk : Nat → UInt8) : List Extent :=
  (readPartTable disk partitionTableOffset).filterMap fun e =>
    e.map fun e => ⟨e.absStartSec.toNat, e.secInPart.toNat⟩

def Request.Inside (rq : Request) (p : Extent) : Prop :=
  p.first * sectorSize ≤ rq.start ∧ rq.start + rq.totalLength ≤ (p.first + p.count) * sectorSize

/-- A WRITE as a partition user can get it to the driver. -/
structure PartitionWrite (image : Nat → UInt8) (f : Fetched) : Prop where
  write : f.rq.dir = .write
  single : f.rq.segments.length = 1
  aligned : f.rq.Aligned
  inside : ∃ p ∈ extents image, f.rq.Inside p

/-- In every state reached from the image, the boot records stand and each
partition that was not written to is as it was. -/
structure Protected (image : Nat → UInt8) (queue : List Fetched) : Prop where
  mbr : ∀ pre, pre <+: queue → ∀ x < mbrSize, (mydiskRequest image pre).1 x = image x
  boot_records : ∀ pre, pre <+: queue → ∀ br ∈ bootRecords, ∀ x ∈ brSector br.1,
    (mydiskRequest image pre).1 x = image x
  partitions : ∀ pre, pre <+: queue → ∀ p ∈ extents image, (∀ f ∈ pre, ¬f.rq.Inside p) →
    ∀ x ∈ p.bytes, (mydiskRequest image pre).1 x = image x

/-- Wherever the request covers a boot record, its data is the boot record. -/
def Spares (image : Nat → UInt8) (f : Fetched) : Prop :=
  ∀ br ∈ bootRecords, ∀ x ∈ brSector br.1, f.rq.Covers x →
    (gather f.ram f.rq.segments)[x - f.rq.start]? = some (image x)

theorem image_extents (buffer : Nat → UInt8) :
    extents (copyMbrNBr buffer) = [⟨1, 511⟩, ⟨512, 512⟩, ⟨0, 0⟩, ⟨0, 0⟩] := by
  rw [extents, image_partTable]
  decide

/-- A write of positive length is inside one of the two partitions in use. -/
theorem PartitionWrite.cases {buffer : Nat → UInt8} {f : Fetched}
    (h : PartitionWrite (copyMbrNBr buffer) f) :
    f.rq.Inside ⟨1, 511⟩ ∨ f.rq.Inside ⟨512, 512⟩ := by
  obtain ⟨p, hp, hin⟩ := h.inside
  obtain ⟨bv, hbv⟩ := List.length_eq_one_iff.mp h.single
  have hpos := (h.aligned bv (by simp [hbv])).1
  have hlen := f.rq.len_le_total bv (by simp [hbv])
  rw [image_extents] at hp
  simp only [List.mem_cons, List.not_mem_nil, or_false] at hp
  rcases hp with rfl | rfl | rfl | rfl
  · exact .inl hin
  · exact .inr hin
  · have hend := hin.2
    simp only [Nat.zero_add, Nat.zero_mul] at hend
    omega
  · have hend := hin.2
    simp only [Nat.zero_add, Nat.zero_mul] at hend
    omega

theorem PartitionWrite.inCapacity {buffer : Nat → UInt8} {f : Fetched}
    (h : PartitionWrite (copyMbrNBr buffer) f) : f.rq.InCapacity := by
  rcases h.cases with hin | hin <;>
    simp only [Request.Inside, Request.InCapacity, diskBytes, nsectors, kernelSectorSize,
      sectorSize] at hin ⊢ <;> omega

/-- The effect of one partition write, byte by byte. -/
theorem PartitionWrite.serve_apply {buffer : Nat → UInt8} {f : Fetched}
    (h : PartitionWrite (copyMbrNBr buffer) f) (disk : Nat → UInt8) (x : Nat)
    (hx : f.rq.Covers x) :
    (gather f.ram f.rq.segments)[x - f.rq.start]? = some (serve disk f x) := by
  have hserve := serve_write_single disk f.ram f.rq h.write (by rw [h.single]) h.inCapacity
    h.aligned
  obtain ⟨i, rfl⟩ := Nat.exists_eq_add_of_le hx.1
  have hi : i < (gather f.ram f.rq.segments).length := by
    rw [← f.rq.totalLength_eq f.ram]
    have := hx.2
    omega
  rw [hserve, store_inside _ _ _ _ hi, Nat.add_sub_cancel_left, List.getElem?_eq_getElem hi]

/-- No partition reaches the first sector. -/
theorem run_keeps_mbr (buffer : Nat → UInt8) (queue : List Fetched)
    (h : ∀ f ∈ queue, PartitionWrite (copyMbrNBr buffer) f) (disk : Nat → UInt8) (x : Nat)
    (hx : x < mbrSize) : run serve disk queue x = disk x := by
  apply run_serve_frame disk queue fun f hf => (h f hf).inCapacity
  intro f hf _ hcov
  have hlow := hcov.1
  rcases (h f hf).cases with hin | hin <;>
    simp only [Request.Inside, sectorSize, mbrSize] at hin hx <;> omega

/-- Writes inside one partition miss every other partition. -/
theorem run_keeps_partition (buffer : Nat → UInt8) (queue : List Fetched)
    (h : ∀ f ∈ queue, PartitionWrite (copyMbrNBr buffer) f) (disk : Nat → UInt8) (p : Extent)
    (hp : p ∈ extents (copyMbrNBr buffer)) (hnone : ∀ f ∈ queue, ¬f.rq.Inside p) (x : Nat)
    (hx : x ∈ p.bytes) : run serve disk queue x = disk x := by
  apply run_serve_frame disk queue fun f hf => (h f hf).inCapacity
  intro f hf _ hcov
  have hnot := hnone f hf
  have hcases := (h f hf).cases
  rw [image_extents] at hp
  simp only [List.mem_cons, List.not_mem_nil, or_false] at hp
  simp only [Request.Inside, Request.Covers, Extent.bytes, Set.mem_Ico, sectorSize]
    at hcases hnot hx hcov
  rcases hp with rfl | rfl | rfl | rfl <;> simp only at hnot hx <;> omega

/-- A run of sparing writes leaves a boot record as the image has it. -/
theorem run_keeps_boot_record (buffer : Nat → UInt8) (queue : List Fetched)
    (h : ∀ f ∈ queue, PartitionWrite (copyMbrNBr buffer) f)
    (hspare : ∀ f ∈ queue, Spares (copyMbrNBr buffer) f) (br : Nat × PartTable)
    (hbr : br ∈ bootRecords) (x : Nat) (hx : x ∈ brSector br.1) :
    run serve (copyMbrNBr buffer) queue x = copyMbrNBr buffer x := by
  have hguard : AtEach serve
      (fun _ f => PartitionWrite (copyMbrNBr buffer) f ∧ Spares (copyMbrNBr buffer) f)
      (copyMbrNBr buffer) queue := by
    rw [atEach_mem]
    exact fun f hf => ⟨h f hf, hspare f hf⟩
  apply run_invariant (fun disk => disk x = copyMbrNBr buffer x) _ _ queue rfl hguard
  intro disk f hdisk hf
  by_cases hcov : f.rq.Covers x
  · have hdata := hf.1.serve_apply disk x hcov
    rw [hf.2 br hbr x hx hcov, Option.some.injEq] at hdata
    exact hdata.symm
  · rw [serve_frame disk f hf.1.inCapacity x fun _ => hcov]
    exact hdisk

/-- A write that changes a byte of a boot record is seen in the state after it. -/
theorem spares_of_protected (buffer : Nat → UInt8) (queue : List Fetched)
    (h : ∀ f ∈ queue, PartitionWrite (copyMbrNBr buffer) f)
    (hprot : Protected (copyMbrNBr buffer) queue) (f : Fetched) (hf : f ∈ queue) :
    Spares (copyMbrNBr buffer) f := by
  intro br hbr x hx hcov
  obtain ⟨pre, post, rfl⟩ := List.append_of_mem hf
  have hkept := hprot.boot_records (pre ++ [f]) (by simp) br hbr x hx
  rw [mydiskRequest_eq, run_concat] at hkept
  rw [(h f hf).serve_apply (run serve (copyMbrNBr buffer) pre) x hcov]
  exact congrArg some hkept

/-- Partition writes keep the master boot record, the boot records and each
other's partitions exactly when none of them writes anything but the boot
record's own bytes over the boot record. -/
theorem protected_iff_spares (buffer : Nat → UInt8) (queue : List Fetched)
    (h : ∀ f ∈ queue, PartitionWrite (copyMbrNBr buffer) f) :
    Protected (copyMbrNBr buffer) queue ↔ ∀ f ∈ queue, Spares (copyMbrNBr buffer) f := by
  constructor
  · exact fun hprot f hf => spares_of_protected buffer queue h hprot f hf
  · intro hspare
    constructor
    · intro pre hpre x hx
      rw [mydiskRequest_eq]
      exact run_keeps_mbr buffer pre (fun f hf => h f (hpre.subset hf)) _ x hx
    · intro pre hpre br hbr x hx
      rw [mydiskRequest_eq]
      exact run_keeps_boot_record buffer pre (fun f hf => h f (hpre.subset hf))
        (fun f hf => hspare f (hpre.subset hf)) br hbr x hx
    · intro pre hpre p hp hnone x hx
      rw [mydiskRequest_eq]
      exact run_keeps_partition buffer pre (fun f hf => h f (hpre.subset hf)) _ p hp hnone x hx

/-- One sector into each partition, off the boot record. -/
theorem protected_iff_spares_two :
    let queue : List Fetched := [⟨⟨.write, 1, [⟨4096, 0, 512⟩]⟩, fun _ => 7⟩,
      ⟨⟨.write, 1023, [⟨4096, 0, 512⟩]⟩, fun _ => 9⟩]
    Protected (copyMbrNBr fun _ => 0) queue ↔
      ∀ f ∈ queue, Spares (copyMbrNBr fun _ => 0) f := by
  intro queue
  apply protected_iff_spares
  have hfirst : (⟨1, 511⟩ : Extent) ∈ extents (copyMbrNBr fun _ => 0) := by simp [image_extents]
  have hsecond : (⟨512, 512⟩ : Extent) ∈ extents (copyMbrNBr fun _ => 0) := by
    simp [image_extents]
  intro f hf
  simp only [queue, List.mem_cons, List.not_mem_nil, or_false] at hf
  rcases hf with rfl | rfl
  · exact ⟨rfl, rfl, by show Request.Aligned _; decide, _, hfirst, by decide, by decide⟩
  · exact ⟨rfl, rfl, by show Request.Aligned _; decide, _, hsecond, by decide, by decide⟩

/-- A zeroed sector 320 of the first partition wipes the boot record's signature. -/
theorem not_protected_sector_320 :
    ¬Protected (copyMbrNBr fun _ => 0)
      [⟨⟨.write, 320, [⟨4096, 0, 512⟩]⟩, fun _ => 0⟩] := by
  intro hprot
  let f : Fetched := ⟨⟨.write, 320, [⟨4096, 0, 512⟩]⟩, fun _ => 0⟩
  have hfirst : (⟨1, 511⟩ : Extent) ∈ extents (copyMbrNBr fun _ => 0) := by simp [image_extents]
  have hwrite : PartitionWrite (copyMbrNBr fun _ => 0) f :=
    ⟨rfl, rfl, by show Request.Aligned _; decide, _, hfirst, by decide, by decide⟩
  have hspare := spares_of_protected (fun _ => 0) [f]
    (by simpa only [List.forall_mem_singleton] using hwrite) hprot f List.mem_cons_self
  have hbr : (10, defLogPartTable.getD 0 defPartTable) ∈ bootRecords := by decide
  have hbyte := hspare _ hbr (163840 + 510) ⟨by decide, by decide⟩ ⟨by decide, by decide⟩
  have himage : copyMbrNBr (fun _ => 0) (163840 + 510) = 0x55 := by decide
  have hmem := List.mem_of_getElem? hbyte
  simp only [f, gather, BioVec.bytes, List.mem_flatMap, List.mem_map] at hmem
  obtain ⟨-, -, -, -, hzero⟩ := hmem
  rw [himage] at hzero
  exact absurd hzero (by decide)

/-- Writes that stay off the boot record's sector spare it whatever they contain. -/
theorem spares_of_not_covers (buffer : Nat → UInt8) (f : Fetched)
    (h : PartitionWrite (copyMbrNBr buffer) f)
    (hoff : ∀ x, f.rq.Covers x → ¬(163840 ≤ x ∧ x < 164352)) : Spares (copyMbrNBr buffer) f := by
  intro br hbr x hx hcov
  have hinst : x ∈ installed := .inr (Set.mem_biUnion hbr hx)
  have hmbr : ¬x < 512 := by
    intro hlt
    have hlow := hcov.1
    rcases h.cases with hin | hin <;> simp only [Request.Inside, sectorSize] at hin <;> omega
  rcases (mem_installed x).mp hinst with hlt | hbrx
  · exact absurd hlt hmbr
  · exact absurd hbrx (hoff x hcov)

end DofDisk
