import DeviceDrivers.DofDiskAccess

/-!
# The RAM disk as a flat array of sectors

The purpose of the driver, stated apart from it: the disk is a string of bytes,
a WRITE replaces a window of it by the data of the request and a READ returns a
window. Only the start and the concatenated data of a request appear here. The
driver refines this array on requests of at most one segment, and on no others.
-/

namespace FlatArray

open ByteMemory

variable {β : Type*}

inductive Op (β : Type*) where
  | read (first count : Nat)
  | write (first : Nat) (data : List β)

def Op.step (cells : List β) : Op β → List β
  | .read _ _ => cells
  | .write first data => splice cells first data

def Op.reply (cells : List β) : Op β → List β
  | .read first count => (cells.drop first).take count
  | .write _ _ => []

end FlatArray

namespace DofDisk

open ByteMemory EventRun FlatArray

/-- The bytes of a segment: `len` of them, from `offset` on in its page. -/
def BioVec.bytes (bv : BioVec) (ram : Nat → UInt8) : List UInt8 :=
  (List.range bv.len.toNat).map fun i => ram (bv.pageAddress + (bv.offset.toNat + i))

/-- They lie where the driver's `buffer` points. -/
theorem BioVec.bytes_eq (bv : BioVec) (ram : Nat → UInt8) :
    bv.bytes ram = load ram bv.buffer bv.len.toNat := by
  simp only [BioVec.bytes, load, BioVec.buffer, Nat.add_assoc]

/-- The bytes of a request's segments, concatenated in iteration order. -/
def gather (ram : Nat → UInt8) (segments : List BioVec) : List UInt8 :=
  segments.flatMap fun bv => bv.bytes ram

/-- The request as the array sees it: its start and data, not its segments. -/
def Fetched.op (f : Fetched) : Op UInt8 :=
  match f.rq.dir with
  | .read => .read f.rq.start f.rq.totalLength
  | .write => .write f.rq.start (gather f.ram f.rq.segments)

/-- What a completion hands back: the filled segments of a READ. -/
def Completion.reply (c : Completion) : List UInt8 :=
  match c.rq.dir with
  | .read => gather c.ram c.rq.segments
  | .write => []

theorem complete_reply (disk ram : Nat → UInt8) (rq : Request) (h : rq.dir = .read) :
    (complete disk ⟨rq, ram⟩).reply = gather (complete disk ⟨rq, ram⟩).ram rq.segments := by
  have hdir : (complete disk ⟨rq, ram⟩).rq.dir = .read := h
  rw [Completion.reply, hdir]
  rfl

def diskCells (disk : Nat → UInt8) : List UInt8 := load disk 0 diskBytes

/-- Serving `queue` from `disk` is serving a flat array, and each fetched
request is completed once. -/
structure ServesFlat (disk : Nat → UInt8) (queue : List Fetched) : Prop where
  contents : ∀ pre, pre <+: queue →
    diskCells (mydiskRequest disk pre).1 = run Op.step (diskCells disk) (pre.map Fetched.op)
  read_data : (mydiskRequest disk queue).2.map Completion.reply =
    replies Op.step Op.reply (diskCells disk) (queue.map Fetched.op)
  completed_once : (mydiskRequest disk queue).2.map Completion.rq = queue.map Fetched.rq

/-- One request served as the flat array would. -/
def StepFlat (disk : Nat → UInt8) (f : Fetched) : Prop :=
  StepRefines serve complete Op.step Op.reply diskCells Fetched.op Completion.reply disk f

theorem servesFlat_iff_atEach (disk : Nat → UInt8) (queue : List Fetched) :
    ServesFlat disk queue ↔ AtEach serve StepFlat disk queue := by
  have hrefine : Refines serve complete Op.step Op.reply diskCells Fetched.op Completion.reply
      disk queue ↔ AtEach serve StepFlat disk queue := refines_iff_atEach disk queue
  refine Iff.trans ?_ hrefine
  constructor
  · intro h
    refine ⟨fun pre hpre => ?_, ?_⟩
    · simpa only [mydiskRequest_eq] using h.contents pre hpre
    · simpa only [mydiskRequest_eq] using h.read_data
  · intro h
    refine ⟨fun pre hpre => ?_, ?_, mydiskRequest_completes disk queue⟩
    · simpa only [mydiskRequest_eq] using h.states pre hpre
    · simpa only [mydiskRequest_eq] using h.replies

/-- Every segment has a positive length in whole sectors. -/
def Request.Aligned (rq : Request) : Prop :=
  ∀ bv ∈ rq.segments, 0 < bv.len.toNat ∧ kernelSectorSize ∣ bv.len.toNat

instance (rq : Request) : Decidable rq.Aligned :=
  inferInstanceAs (Decidable (∀ bv ∈ rq.segments, _))

@[simp] theorem gather_nil (ram : Nat → UInt8) : gather ram [] = [] := rfl

theorem gather_append (ram : Nat → UInt8) (xs ys : List BioVec) :
    gather ram (xs ++ ys) = gather ram xs ++ gather ram ys := by
  simp only [gather, List.flatMap_append]

theorem gather_single (ram : Nat → UInt8) (bv : BioVec) :
    gather ram [bv] = load ram bv.buffer bv.len.toNat := by
  simp only [gather, BioVec.bytes_eq, List.flatMap_cons, List.flatMap_nil, List.append_nil]

theorem gather_length (ram : Nat → UInt8) (segments : List BioVec) :
    (gather ram segments).length = (segments.map fun bv => bv.len.toNat).sum := by
  simp only [gather, BioVec.bytes_eq, List.length_flatMap, load_length]

theorem Request.totalLength_eq (rq : Request) (ram : Nat → UInt8) :
    rq.totalLength = (gather ram rq.segments).length := by
  rw [gather_length]
  rfl

/-- A WRITE stores its data at its start. -/
theorem serve_write_single (disk ram : Nat → UInt8) (rq : Request) (hd : rq.dir = .write)
    (hone : rq.segments.length ≤ 1) (hcap : rq.InCapacity) (hal : rq.Aligned) :
    serve disk ⟨rq, ram⟩ = store disk rq.start (gather ram rq.segments) := by
  match hs : rq.segments with
  | [] =>
    rw [serve, mydiskTransfer_eq, hs, transferLoop_nil, gather_nil, store_nil]
  | [bv] =>
    have hmoved := bv.moved_of_dvd (hal bv (by simp [hs])).2
    have hoff : rq.offset = rq.start := start_mul_toNat rq hcap
    rw [serve, mydiskTransfer_eq, hs, transferLoop_cons, transferLoop_nil, transferSegment_mem,
      hd, hoff, hmoved, gather_single]
    rfl
  | _ :: _ :: _ => simp [hs] at hone

/-- A READ returns the window of the disk it names. -/
theorem complete_read_single (disk ram : Nat → UInt8) (rq : Request) (hd : rq.dir = .read)
    (hone : rq.segments.length ≤ 1) (hcap : rq.InCapacity) (hal : rq.Aligned) :
    (complete disk ⟨rq, ram⟩).reply = load disk rq.start rq.totalLength := by
  rw [complete_reply disk ram rq hd, rq.totalLength_eq ram]
  match hs : rq.segments with
  | [] => rfl
  | [bv] =>
    have hmoved := bv.moved_of_dvd (hal bv (by simp [hs])).2
    have hoff : rq.offset = rq.start := start_mul_toNat rq hcap
    have hram : (complete disk ⟨rq, ram⟩).ram =
        store ram bv.buffer (load disk rq.start bv.len.toNat) := by
      rw [complete, mydiskTransfer_eq, hs, transferLoop_cons, transferLoop_nil,
        transferSegment_mem, hd, hoff, hmoved]
      rfl
    have hsame := load_store_same ram bv.buffer (load disk rq.start bv.len.toNat)
    rw [load_length] at hsame
    rw [gather_single, gather_single, hram, hsame, load_length]
  | _ :: _ :: _ => simp [hs] at hone

/-- A request of at most one segment is served as the flat array serves it,
whatever the disk and the pages hold. -/
theorem stepFlat_of_single (rq : Request) (hcap : rq.InCapacity) (hal : rq.Aligned)
    (hone : rq.segments.length ≤ 1) (disk ram : Nat → UInt8) : StepFlat disk ⟨rq, ram⟩ := by
  have hbound : rq.start + rq.totalLength ≤ diskBytes := hcap
  cases hd : rq.dir with
  | write =>
    have hserve := serve_write_single disk ram rq hd hone hcap hal
    have hcells := load_store disk diskBytes rq.start (gather ram rq.segments)
      (by rwa [← rq.totalLength_eq ram])
    constructor
    · simpa only [Fetched.op, hd, Op.step, diskCells, hserve] using hcells
    · simp only [Completion.reply, complete, Fetched.op, hd, Op.reply]
  | read =>
    have hreply := complete_read_single disk ram rq hd hone hcap hal
    constructor
    · simp only [serve_read disk ⟨rq, ram⟩ hd, Fetched.op, hd, Op.step]
    · rw [hreply, load_window disk diskBytes rq.start rq.totalLength hbound]
      simp only [Fetched.op, hd, Op.reply, diskCells]

/-- The pages of a WRITE can be filled so that it changes nothing. -/
theorem serve_idle (rq : Request) (hcap : rq.InCapacity) (hal : rq.Aligned)
    (hone : rq.segments.length ≤ 1) (disk : Nat → UInt8) :
    ∃ ram, serve disk ⟨rq, ram⟩ = disk := by
  cases hd : rq.dir with
  | read => exact ⟨disk, serve_read disk ⟨rq, disk⟩ hd⟩
  | write =>
    match hs : rq.segments with
    | [] =>
      refine ⟨disk, ?_⟩
      rw [serve_write_single disk disk rq hd hone hcap hal, hs, gather_nil, store_nil]
    | [bv] =>
      let ram : Nat → UInt8 := fun x => disk (rq.start + (x - bv.buffer))
      have hdata : gather ram rq.segments = load disk rq.start bv.len.toNat := by
        rw [hs, gather_single]
        apply List.ext_getElem (by simp)
        intro i _ _
        simp [ram]
      refine ⟨ram, ?_⟩
      rw [serve_write_single disk ram rq hd hone hcap hal, hdata, store_load_self]
    | _ :: _ :: _ => simp [hs] at hone

/-- With a second segment of positive length, each is shorter than the request. -/
theorem len_lt_total (rq : Request) (hal : rq.Aligned) (htwo : 2 ≤ rq.segments.length)
    (bv : BioVec) (hbv : bv ∈ rq.segments) : bv.len.toNat < rq.totalLength := by
  obtain ⟨front, back, hs⟩ := List.append_of_mem hbv
  have hother : ∃ other ∈ front ++ back, 0 < other.len.toNat := by
    have hlen : 0 < (front ++ back).length := by
      have := congrArg List.length hs
      simp only [List.length_append, List.length_cons] at this ⊢
      omega
    obtain ⟨other, hmem⟩ := List.exists_mem_of_length_pos hlen
    refine ⟨other, hmem, (hal other ?_).1⟩
    rw [hs]
    rcases List.mem_append.mp hmem with h | h
    · exact List.mem_append_left _ h
    · exact List.mem_append_right _ (List.mem_cons_of_mem bv h)
  obtain ⟨other, hmem, hpos⟩ := hother
  have hle : other.len.toNat ≤ ((front ++ back).map fun bv => bv.len.toNat).sum :=
    List.single_le_sum (by simp) _ (List.mem_map_of_mem (f := fun bv : BioVec => bv.len.toNat) hmem)
  simp only [List.map_append, List.sum_append] at hle
  simp only [Request.totalLength, hs, List.map_append, List.map_cons, List.sum_append,
    List.sum_cons]
  omega

theorem totalLength_pos (rq : Request) (hal : rq.Aligned) (htwo : 2 ≤ rq.segments.length) :
    0 < rq.totalLength := by
  obtain ⟨bv, hbv⟩ := List.exists_mem_of_length_pos (by omega : 0 < rq.segments.length)
  exact Nat.lt_of_le_of_lt (Nat.zero_le _) (len_lt_total rq hal htwo bv hbv)

/-- A WRITE in several segments never reaches the last byte of its window. -/
theorem serve_write_last (disk ram : Nat → UInt8) (rq : Request) (hd : rq.dir = .write)
    (hcap : rq.InCapacity) (hal : rq.Aligned) (htwo : 2 ≤ rq.segments.length) :
    serve disk ⟨rq, ram⟩ (rq.start + (rq.totalLength - 1)) =
      disk (rq.start + (rq.totalLength - 1)) := by
  have hoff : rq.offset = rq.start := start_mul_toNat rq hcap
  apply transferLoop_write_outside rq hd ⟨⟨disk, ram, []⟩, 0⟩ rq.segments
  refine .inr fun bv hbv => ?_
  have hmoved := bv.moved_le
  have hlen := len_lt_total rq hal htwo bv hbv
  omega

/-- On an empty disk a WRITE of ones in several segments leaves a zero in its window. -/
theorem not_stepFlat_write (rq : Request) (hd : rq.dir = .write) (hcap : rq.InCapacity)
    (hal : rq.Aligned) (htwo : 2 ≤ rq.segments.length) :
    ¬StepFlat (fun _ => 0) ⟨rq, fun _ => 1⟩ := by
  rintro ⟨hcells, -⟩
  have hbound : rq.start + rq.totalLength ≤ diskBytes := hcap
  have hpos := totalLength_pos rq hal htwo
  have hcode := serve_write_last (fun _ => 0) (fun _ => 1) rq hd hcap hal htwo
  have hones := gather_length (fun _ => 1) rq.segments
  have hflat : store (fun _ => 0) rq.start (gather (fun _ => 1) rq.segments)
      (rq.start + (rq.totalLength - 1)) = 1 := by
    rw [store_inside _ _ _ _ (by rw [hones, ← Request.totalLength]; omega)]
    have hmem := List.getElem_mem (l := gather (fun _ => 1) rq.segments)
      (n := rq.totalLength - 1) (by rw [hones, ← Request.totalLength]; omega)
    simp only [gather, BioVec.bytes, List.mem_flatMap, List.mem_map] at hmem
    obtain ⟨-, -, -, -, hone⟩ := hmem
    exact hone.symm
  rw [diskCells, Fetched.op, hd, Op.step, diskCells,
    ← load_store _ _ _ _ (by rw [gather_length]; exact hbound)] at hcells
  have hbyte := congrArg (fun cells => cells[rq.start + (rq.totalLength - 1)]?) hcells
  have hlast : rq.start + (rq.totalLength - 1) < diskBytes := by omega
  simp only [load, List.getElem?_map, List.getElem?_range hlast, Option.map_some,
    Nat.zero_add, Option.some.injEq] at hbyte
  rw [hcode, hflat] at hbyte
  exact absurd hbyte (by decide)

/-- The last segment of a READ receives the first bytes of the request, however
many bytes the segments before it have taken. -/
theorem complete_read_last (disk ram : Nat → UInt8) (rq : Request) (front : List BioVec)
    (last : BioVec) (hd : rq.dir = .read) (hs : rq.segments = front ++ [last])
    (hcap : rq.InCapacity) (hal : rq.Aligned) :
    (complete disk ⟨rq, ram⟩).reply[(front.map fun bv => bv.len.toNat).sum]? =
      some (disk rq.start) := by
  have hoff : rq.offset = rq.start := start_mul_toNat rq hcap
  have hlast : 0 < last.len.toNat ∧ kernelSectorSize ∣ last.len.toNat := hal last (by simp [hs])
  have hmoved := last.moved_of_dvd hlast.2
  have hbyte : (complete disk ⟨rq, ram⟩).ram last.buffer = disk rq.start := by
    have hcopy := copy_inside (transferLoop rq ⟨⟨disk, ram, []⟩, 0⟩ front).mem.ram disk
      last.buffer rq.start last.len.toNat 0 hlast.1
    rw [complete, mydiskTransfer_eq, hs, transferLoop_concat, transferSegment_mem, hd, hoff, hmoved]
    simpa [Memory.copyFromDisk, transferLoop_read_devData rq hd] using hcopy
  rw [complete_reply disk ram rq hd, hs, gather_append, gather_single,
    List.getElem?_append_right (by rw [gather_length]), gather_length, Nat.sub_self,
    List.getElem?_eq_getElem (by simpa using hlast.1), load_getElem, Nat.add_zero, hbyte]

/-- A disk with one marked byte. -/
def marked (first : Nat) : Nat → UInt8 := fun x => if x = first then 1 else 0

/-- One byte marked at the start of a READ in several segments comes back twice. -/
theorem not_stepFlat_read (rq : Request) (hd : rq.dir = .read) (hcap : rq.InCapacity)
    (hal : rq.Aligned) (htwo : 2 ≤ rq.segments.length) (ram : Nat → UInt8) :
    ¬StepFlat (marked rq.start) ⟨rq, ram⟩ := by
  rintro ⟨-, hreply⟩
  have hbound : rq.start + rq.totalLength ≤ diskBytes := hcap
  obtain ⟨front, last, hs⟩ : ∃ front last, rq.segments = front ++ [last] :=
    ⟨rq.segments.dropLast, rq.segments.getLast (by rintro h; simp [h] at htwo),
      (List.dropLast_append_getLast _).symm⟩
  have htotal : (front.map fun bv => bv.len.toNat).sum + last.len.toNat = rq.totalLength := by
    simp [Request.totalLength, hs]
  have hlast := len_lt_total rq hal htwo last (by simp [hs])
  have hpos : 0 < last.len.toNat := (hal last (by simp [hs])).1
  have hcode := complete_read_last (marked rq.start) ram rq front last hd hs hcap hal
  simp only [hreply, Fetched.op, hd, Op.reply, diskCells] at hcode
  rw [← load_window _ _ _ _ hbound, List.getElem?_eq_getElem (by simp only [load_length]; omega),
    load_getElem, Option.some.injEq, marked, marked, if_neg (by omega), if_pos rfl] at hcode
  exact absurd hcode (by decide)

theorem single_of_stepFlat (rq : Request) (hcap : rq.InCapacity) (hal : rq.Aligned)
    (h : ∀ disk ram, StepFlat disk ⟨rq, ram⟩) : rq.segments.length ≤ 1 := by
  by_contra hlen
  cases hd : rq.dir with
  | write => exact not_stepFlat_write rq hd hcap hal (by omega) (h _ _)
  | read => exact not_stepFlat_read rq hd hcap hal (by omega) (fun _ => 0) (h _ _)

/-- Requests in whole sectors inside the capacity: the RAM disk serves them as a
flat array, for every content of the disk and of the pages, exactly when no
request has a second segment. -/
theorem servesFlat_iff_single (rqs : List Request) (hcap : ∀ rq ∈ rqs, rq.InCapacity)
    (hal : ∀ rq ∈ rqs, rq.Aligned) :
    (∀ (disk : Nat → UInt8) (queue : List Fetched), queue.map Fetched.rq = rqs →
      ServesFlat disk queue) ↔ ∀ rq ∈ rqs, rq.segments.length ≤ 1 := by
  simp only [servesFlat_iff_atEach]
  constructor
  · induction rqs with
    | nil => simp
    | cons rq rqs ih =>
      intro h
      simp only [List.forall_mem_cons] at hcap hal ⊢
      have hone : rq.segments.length ≤ 1 := by
        apply single_of_stepFlat rq hcap.1 hal.1
        intro disk ram
        refine (h disk (⟨rq, ram⟩ :: rqs.map fun rq => ⟨rq, ram⟩) ?_).1
        simp [Function.comp_def]
      refine ⟨hone, ih hcap.2 hal.2 ?_⟩
      -- serve the head with pages that leave the disk as the tail wants it
      intro disk queue hqueue
      obtain ⟨ram, hidle⟩ := serve_idle rq hcap.1 hal.1 hone disk
      have htail := (h disk (⟨rq, ram⟩ :: queue) (by simp [hqueue])).2
      rwa [hidle] at htail
  · rintro hone disk queue rfl
    apply atEach_of_forall
    intro f hf disk
    have hmem : f.rq ∈ queue.map Fetched.rq := List.mem_map_of_mem hf
    exact stepFlat_of_single f.rq (hcap _ hmem) (hal _ hmem) (hone _ hmem) disk f.ram

/-- A WRITE and an overlapping READ of one segment each. -/
theorem servesFlat_iff_single_pair :
    let rqs : List Request :=
      [⟨.write, 2, [⟨4096, 0, 1024⟩]⟩, ⟨.read, 3, [⟨8192, 512, 512⟩]⟩]
    (∀ (disk : Nat → UInt8) (queue : List Fetched), queue.map Fetched.rq = rqs →
      ServesFlat disk queue) ↔ ∀ rq ∈ rqs, rq.segments.length ≤ 1 :=
  servesFlat_iff_single _ (by decide) (by decide)

/-- A WRITE of two sectors in two segments loses the second. -/
theorem not_servesFlat_two_segments :
    ¬ServesFlat (fun _ => 0)
      [⟨⟨.write, 0, [⟨4096, 0, 512⟩, ⟨8192, 0, 512⟩]⟩, fun _ => 1⟩] := by
  rw [servesFlat_iff_atEach]
  rintro ⟨hstep, -⟩
  exact not_stepFlat_write _ rfl (by decide) (by decide) (by decide) hstep

end DofDisk
