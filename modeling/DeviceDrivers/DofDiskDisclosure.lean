import DeviceDrivers.DofDiskImage

/-!
# What a reader learns about earlier kernel memory

`vmalloc` does not clear the buffer and `mydisk_init` fills only the sectors of
the boot records. Two runs of the same requests over two earlier contents are
compared: they agree on the installed bytes and on what was written since, and
on every other byte each still shows what it started from.
-/
namespace DofDisk

open ByteMemory EventRun

/-- `dev_data` as `mydisk_init` leaves it: `vmalloc`, then `copy_mbr_n_br`. -/
def initDevData (vmalloc : Nat → UInt8) : Nat → UInt8 := copyMbrNBr vmalloc

/-- A single segment of whole sectors inside the capacity. -/
structure Request.Plain (rq : Request) : Prop where
  single : rq.segments.length = 1
  aligned : rq.Aligned
  capacity : rq.InCapacity

/-- Bytes covered by a WRITE of the list. -/
def written (queue : List Fetched) : Set Nat :=
  {x | ∃ f ∈ queue, f.rq.dir = .write ∧ f.rq.Covers x}

/-- Every READ returns the same bytes whatever the buffer held before. -/
def Undisclosing (queue : List Fetched) : Prop :=
  ∀ vmalloc vmalloc' : Nat → UInt8,
    (mydiskRequest (initDevData vmalloc) queue).2.map Completion.reply =
      (mydiskRequest (initDevData vmalloc') queue).2.map Completion.reply

/-- Every READ asks only for installed bytes and for bytes written before it. -/
def Prepared (queue : List Fetched) : Prop :=
  ∀ pre f post, queue = pre ++ f :: post → f.rq.dir = .read →
    ∀ x, f.rq.Covers x → x ∈ installed ∪ written pre

theorem written_nil : written [] = ∅ := by simp [written]

theorem written_cons (f : Fetched) (queue : List Fetched) :
    written (f :: queue) = {x | f.rq.dir = .write ∧ f.rq.Covers x} ∪ written queue := by
  ext x
  simp [written]

theorem serve_eqOn (f : Fetched) (hf : f.rq.Plain) (m m' : Nat → UInt8) (S : Set Nat)
    (h : Set.EqOn m m' S) :
    Set.EqOn (serve m f) (serve m' f) (S ∪ {x | f.rq.dir = .write ∧ f.rq.Covers x}) := by
  cases hd : f.rq.dir with
  | read => simpa [serve_read _ f hd] using h
  | write =>
    have hone : f.rq.segments.length ≤ 1 := by rw [hf.single]
    have hm := serve_write_single m f.ram f.rq hd hone hf.capacity hf.aligned
    have hm' := serve_write_single m' f.ram f.rq hd hone hf.capacity hf.aligned
    have hstore := store_eqOn m m' S f.rq.start (gather f.ram f.rq.segments) h
    rw [← f.rq.totalLength_eq f.ram] at hstore
    rw [hm, hm']
    exact hstore.mono (Set.union_subset_union_right S fun x hx => hx.2)

/-- Two runs agree on what they agreed on at first and on what was written. -/
theorem run_serve_eqOn (queue : List Fetched) (hq : ∀ f ∈ queue, f.rq.Plain)
    (m m' : Nat → UInt8) (S : Set Nat) (h : Set.EqOn m m' S) :
    Set.EqOn (run serve m queue) (run serve m' queue) (S ∪ written queue) := by
  induction queue generalizing m m' S with
  | nil => simpa [written_nil] using h
  | cons f queue ih =>
    have hhead := serve_eqOn f (hq f List.mem_cons_self) m m' S h
    have htail := ih (fun f' hf => hq f' (List.mem_cons_of_mem f hf)) _ _ _ hhead
    rw [written_cons, ← Set.union_assoc]
    exact htail

/-- A byte neither installed nor written still holds what `vmalloc` returned. -/
theorem run_unwritten (queue : List Fetched) (hq : ∀ f ∈ queue, f.rq.Plain)
    (vmalloc : Nat → UInt8) (x : Nat) (hx : x ∉ installed ∪ written queue) :
    run serve (initDevData vmalloc) queue x = vmalloc x := by
  simp only [Set.mem_union, not_or] at hx
  rw [run_serve_frame _ queue (fun f hf => (hq f hf).capacity) x
    fun f hf hd hcov => hx.2 ⟨f, hf, hd, hcov⟩]
  exact copyMbrNBr_outside vmalloc x hx.1

theorem complete_reply_plain (f : Fetched) (hf : f.rq.Plain) (hd : f.rq.dir = .read)
    (disk : Nat → UInt8) : (complete disk f).reply = load disk f.rq.start f.rq.totalLength :=
  complete_read_single disk f.ram f.rq hd (by rw [hf.single]) hf.capacity hf.aligned

/-- Buffers of all zeros and of all ones tell every unprepared byte apart. -/
theorem prepared_of_undisclosing (queue : List Fetched) (hq : ∀ f ∈ queue, f.rq.Plain)
    (h : Undisclosing queue) : Prepared queue := by
  intro pre f post hsplit hd x hcov
  by_contra hx
  have hsame := h (fun _ => 0) (fun _ => 1)
  rw [mydiskRequest_eq, mydiskRequest_eq] at hsame
  have hreply := (replies_eq_iff complete Completion.reply _ _ queue).mp hsame pre f post hsplit
  have hf : f.rq.Plain := hq f (by simp [hsplit])
  have hpre : ∀ w ∈ pre, w.rq.Plain := fun w hw => hq w (by simp [hsplit, hw])
  rw [complete_reply_plain f hf hd, complete_reply_plain f hf hd] at hreply
  obtain ⟨i, rfl⟩ := Nat.exists_eq_add_of_le hcov.1
  have hi : i < f.rq.totalLength := by
    have := hcov.2
    omega
  have hbyte := congrArg (fun bytes => bytes[i]?) hreply
  rw [List.getElem?_eq_getElem (by simpa using hi), List.getElem?_eq_getElem (by simpa using hi),
    load_getElem, load_getElem, run_unwritten pre hpre _ _ hx,
    run_unwritten pre hpre _ _ hx] at hbyte
  exact absurd hbyte (by decide)

/-- Over single-segment requests in whole sectors, no READ depends on earlier
kernel memory exactly when each READ asks only for bytes of the boot sectors and
for bytes that a WRITE before it covers. -/
theorem undisclosing_iff_prepared (queue : List Fetched) (hq : ∀ f ∈ queue, f.rq.Plain) :
    Undisclosing queue ↔ Prepared queue := by
  constructor
  · exact prepared_of_undisclosing queue hq
  · intro hprep vmalloc vmalloc'
    rw [mydiskRequest_eq, mydiskRequest_eq]
    refine (replies_eq_iff complete Completion.reply _ _ queue).mpr ?_
    intro pre f post hsplit
    have hf : f.rq.Plain := hq f (by simp [hsplit])
    have hpre : ∀ w ∈ pre, w.rq.Plain := fun w hw => hq w (by simp [hsplit, hw])
    have hagree := run_serve_eqOn pre hpre _ _ installed (copyMbrNBr_eqOn vmalloc vmalloc')
    cases hd : f.rq.dir with
    | write => simp only [Completion.reply, complete, hd]
    | read =>
      rw [complete_reply_plain f hf hd, complete_reply_plain f hf hd]
      apply load_congr
      intro i hi
      exact hagree (hprep pre f post hsplit hd _ ⟨by omega, by omega⟩)

/-- A sector is written and read back, and the boot sector is read. -/
theorem undisclosing_iff_prepared_three :
    let queue : List Fetched := [⟨⟨.write, 7, [⟨4096, 0, 512⟩]⟩, fun _ => 3⟩,
      ⟨⟨.read, 7, [⟨4096, 0, 512⟩]⟩, fun _ => 0⟩, ⟨⟨.read, 0, [⟨4096, 0, 512⟩]⟩, fun _ => 0⟩]
    Undisclosing queue ↔ Prepared queue := by
  intro queue
  apply undisclosing_iff_prepared
  intro f hf
  simp only [queue, List.mem_cons, List.not_mem_nil, or_false] at hf
  rcases hf with rfl | rfl | rfl <;>
    exact ⟨rfl, by show Request.Aligned _; decide, by show Request.InCapacity _; decide⟩

/-- The first sector of the first partition comes back as `vmalloc` left it. -/
theorem not_undisclosing_sector_1 :
    ¬Undisclosing [⟨⟨.read, 1, [⟨4096, 0, 512⟩]⟩, fun _ => 0⟩] := by
  intro h
  have hprep := prepared_of_undisclosing _ (by
    intro f hf
    rw [List.mem_singleton.mp hf]
    exact ⟨rfl, by show Request.Aligned _; decide, by show Request.InCapacity _; decide⟩) h
  have hmem := hprep [] _ [] rfl rfl 512 ⟨by decide, by decide⟩
  rw [written_nil, Set.union_empty, mem_installed] at hmem
  omega

end DofDisk
