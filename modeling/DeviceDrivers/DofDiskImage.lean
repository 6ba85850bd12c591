import DeviceDrivers.DofDiskFlat

/-!
# The disk image installed by copy_mbr_n_br

Partition entries in their on-disk layout, the two built-in tables, and the
functions that write the master boot record and the boot records of the logical
partitions over whatever the buffer held before. Reading a partition table back
from an image inverts writing it.
-/
namespace DofDisk

open ByteMemory EventRun

def sectorSize : Nat := 512
def mbrSize : Nat := sectorSize
def mbrDiskSignatureOffset : Nat := 440
def partitionTableOffset : Nat := 446
def partitionEntrySize : Nat := 16
def partitionTableSize : Nat := 64
def mbrSignatureOffset : Nat := 510
def mbrSignature : Nat := 0xAA55
def brSize : Nat := sectorSize
def brSignatureOffset : Nat := 510
def brSignature : Nat := 0xAA55

/-- `PartEntry`; a field an initializer leaves out is zero. -/
structure PartEntry where
  bootType : UInt8 := 0
  startHead : UInt8 := 0
  startSec : BitVec 6 := 0
  startCylHi : BitVec 2 := 0
  startCyl : UInt8 := 0
  partType : UInt8 := 0
  endHead : UInt8 := 0
  endSec : BitVec 6 := 0
  endCylHi : BitVec 2 := 0
  endCyl : UInt8 := 0
  absStartSec : BitVec 32 := 0
  secInPart : BitVec 32 := 0
  deriving DecidableEq, Repr

abbrev PartTable := Vector PartEntry 4

def defPartTable : PartTable := #v[
  { bootType := 0x00, startHead := 0x00, startSec := 0x2, startCyl := 0x00, partType := 0x83,
    endHead := 0x00, endSec := 0x20, endCyl := 0x09,
    absStartSec := 0x00000001, secInPart := 0x000001FF },
  { bootType := 0x00, startHead := 0x00, startSec := 0x1, startCyl := 0x0A, partType := 0x83,
    endHead := 0x00, endSec := 0x20, endCyl := 0x1F,
    absStartSec := 0x00000200, secInPart := 0x00000200 },
  {}, {}]

def defLogPartBrCyl : List Nat := [0x0A, 0x0E]

/-- The braces of the source nest both entries in one table, so the array has
one element although two cylinders are listed. -/
def defLogPartTable : List PartTable := [#v[
  { bootType := 0x00, startHead := 0x00, startSec := 0x2, startCyl := 0x0A, partType := 0x83,
    endHead := 0x00, endSec := 0x20, endCyl := 0x0D,
    absStartSec := 0x00000001, secInPart := 0x0000007F },
  { bootType := 0x00, startHead := 0x00, startSec := 0x2, startCyl := 0x0E, partType := 0x83,
    endHead := 0x00, endSec := 0x20, endCyl := 0x11,
    absStartSec := 0x00000001, secInPart := 0x0000007F },
  {}, {}]]

/-- Two bit-fields of 6 and 2 bits share a byte, the first in the low bits. -/
def packSecCyl (sec : BitVec 6) (cylHi : BitVec 2) : UInt8 :=
  UInt8.ofNat (sec.toNat + 64 * cylHi.toNat)

def PartEntry.bytes (e : PartEntry) : List UInt8 :=
  [e.bootType, e.startHead, packSecCyl e.startSec e.startCylHi, e.startCyl, e.partType,
    e.endHead, packSecCyl e.endSec e.endCylHi, e.endCyl] ++
  leBytes 4 e.absStartSec.toNat ++ leBytes 4 e.secInPart.toNat

def PartTable.bytes (table : PartTable) : List UInt8 := table.toList.flatMap PartEntry.bytes

/-- `*(unsigned long *)` stores eight bytes; the table overlaps the last two. -/
def copyMbr (disk : Nat → UInt8) : Nat → UInt8 :=
  let disk := fill disk 0 mbrSize 0
  let disk := store disk mbrDiskSignatureOffset (leBytes 8 0x36E5756D)
  let disk := store disk partitionTableOffset (PartTable.bytes defPartTable)
  store disk mbrSignatureOffset (leBytes 2 mbrSignature)

/-- `disk += start_cylinder * 32 * SECTOR_SIZE`, a product of ints of 32 bits; from
2 ^ 31 on the offset is a negative one. -/
def brOffset (startCylinder : Nat) : Nat := startCylinder * 32 * sectorSize % 2 ^ 32

def copyBr (disk : Nat → UInt8) (startCylinder : Nat) (table : PartTable) : Nat → UInt8 :=
  let base := brOffset startCylinder
  let disk := fill disk base brSize 0
  let disk := store disk (base + partitionTableOffset) table.bytes
  store disk (base + brSignatureOffset) (leBytes 2 brSignature)

/-- Cylinder and table of each iteration of the loop in `copy_mbr_n_br`. -/
def bootRecords : List (Nat × PartTable) :=
  defLogPartTable.zipIdx.map fun p => (defLogPartBrCyl.getD p.2 0, p.1)

def copyMbrNBr (disk : Nat → UInt8) : Nat → UInt8 :=
  bootRecords.foldl (fun disk br => copyBr disk br.1 br.2) (copyMbr disk)

def PartEntry.parse : List UInt8 → Option PartEntry
  | [b0, b1, b2, b3, b4, b5, b6, b7, b8, b9, b10, b11, b12, b13, b14, b15] =>
    some {
      bootType := b0, startHead := b1
      startSec := BitVec.ofNat 6 b2.toNat, startCylHi := BitVec.ofNat 2 (b2.toNat / 64)
      startCyl := b3, partType := b4, endHead := b5
      endSec := BitVec.ofNat 6 b6.toNat, endCylHi := BitVec.ofNat 2 (b6.toNat / 64)
      endCyl := b7
      absStartSec := BitVec.ofNat 32 (leValue [b8, b9, b10, b11])
      secInPart := BitVec.ofNat 32 (leValue [b12, b13, b14, b15]) }
  | _ => none

/-- The four entries of the table at `base`, as a partition scanner reads them. -/
def readPartTable (disk : Nat → UInt8) (base : Nat) : List (Option PartEntry) :=
  (List.range 4).map fun i =>
    PartEntry.parse (load disk (base + partitionEntrySize * i) partitionEntrySize)

theorem unpack_sec (sec : BitVec 6) (cylHi : BitVec 2) :
    BitVec.ofNat 6 (packSecCyl sec cylHi).toNat = sec := by
  apply BitVec.eq_of_toNat_eq
  have hsec := sec.isLt
  have hcyl := cylHi.isLt
  simp only [packSecCyl, BitVec.toNat_ofNat, UInt8.toNat_ofNat']
  omega

theorem unpack_cylHi (sec : BitVec 6) (cylHi : BitVec 2) :
    BitVec.ofNat 2 ((packSecCyl sec cylHi).toNat / 64) = cylHi := by
  apply BitVec.eq_of_toNat_eq
  have hsec := sec.isLt
  have hcyl := cylHi.isLt
  simp only [packSecCyl, BitVec.toNat_ofNat, UInt8.toNat_ofNat']
  omega

theorem PartEntry.bytes_length (e : PartEntry) : e.bytes.length = partitionEntrySize := by
  simp [PartEntry.bytes, partitionEntrySize]

/-- Every entry survives the trip through its sixteen bytes. -/
theorem PartEntry.parse_bytes (e : PartEntry) : PartEntry.parse e.bytes = some e := by
  have habs := leValue_leBytes_of_lt 4 e.absStartSec.toNat e.absStartSec.isLt
  have hsec := leValue_leBytes_of_lt 4 e.secInPart.toNat e.secInPart.isLt
  simp only [leBytes] at habs hsec
  simp only [PartEntry.bytes, leBytes, List.cons_append, List.nil_append, PartEntry.parse,
    unpack_sec, unpack_cylHi, habs, hsec, BitVec.ofNat_toNat, BitVec.setWidth_eq]

theorem PartTable.bytes_length (table : PartTable) : table.bytes.length = partitionTableSize := by
  have hlen : ∀ e ∈ table.toList, e.bytes.length = partitionEntrySize :=
    fun e _ => e.bytes_length
  rw [PartTable.bytes, List.length_flatMap, List.map_congr_left hlen, List.map_const',
    List.sum_replicate, Vector.length_toList]
  rfl

/-- Entry `i` of a stored table lies at `partitionEntrySize * i`. -/
theorem load_table_entry (disk : Nat → UInt8) (base : Nat) (table : PartTable) (i : Nat)
    (hi : i < 4) (h : load disk base partitionTableSize = table.bytes) :
    load disk (base + partitionEntrySize * i) partitionEntrySize = table[i].bytes := by
  have hwindow : load disk (base + partitionEntrySize * i) partitionEntrySize =
      (table.bytes.drop (partitionEntrySize * i)).take partitionEntrySize := by
    rw [← h]
    apply List.ext_getElem
    · simp only [load_length, List.length_take, List.length_drop, partitionEntrySize,
        partitionTableSize]
      omega
    · intro j _ _
      simp only [load_getElem, List.getElem_take, List.getElem_drop]
      congr 1
      omega
  rw [hwindow]
  exact flatMap_window PartEntry.bytes partitionEntrySize table.toList
    (fun e _ => e.bytes_length) i (by simpa using hi)

theorem readPartTable_of_load (disk : Nat → UInt8) (base : Nat) (table : PartTable)
    (h : load disk base partitionTableSize = table.bytes) :
    readPartTable disk base = table.toList.map some := by
  apply List.ext_getElem
  · simp [readPartTable]
  · intro i hi _
    have hi4 : i < 4 := by simpa [readPartTable] using hi
    simp only [readPartTable, List.getElem_map, List.getElem_range, Vector.getElem_toList]
    rw [load_table_entry disk base table i hi4 h, PartEntry.parse_bytes]

/-- The sector a boot record occupies. -/
def brSector (startCylinder : Nat) : Set Nat :=
  Set.Ico (brOffset startCylinder) (brOffset startCylinder + brSize)

/-- Bytes given a value by `copy_mbr_n_br`. -/
def installed : Set Nat := Set.Ico 0 mbrSize ∪ ⋃ br ∈ bootRecords, brSector br.1

theorem copyMbr_outside (disk : Nat → UInt8) (x : Nat) (h : mbrSize ≤ x) :
    copyMbr disk x = disk x := by
  have htable := PartTable.bytes_length defPartTable
  simp only [mbrSize, sectorSize, partitionTableSize] at h htable
  simp only [copyMbr, fill, mbrSize, sectorSize, mbrSignatureOffset, partitionTableOffset,
    mbrDiskSignatureOffset]
  rw [store_outside, store_outside, store_outside, store_outside] <;>
    simp only [leBytes_length, List.length_replicate, htable] <;> omega

theorem copyBr_outside (disk : Nat → UInt8) (startCylinder : Nat) (table : PartTable) (x : Nat)
    (h : x ∉ brSector startCylinder) : copyBr disk startCylinder table x = disk x := by
  have htable := table.bytes_length
  simp only [brSector, Set.mem_Ico, brSize, sectorSize, partitionTableSize] at h htable
  simp only [copyBr, fill, brSize, sectorSize, brSignatureOffset, partitionTableOffset]
  rw [store_outside, store_outside, store_outside] <;>
    simp only [leBytes_length, List.length_replicate, htable] <;> omega

/-- `memset` makes the whole first sector independent of the buffer; the later
stores keep what two runs agree on. -/
theorem copyMbr_eqOn (m m' : Nat → UInt8) :
    Set.EqOn (copyMbr m) (copyMbr m') (Set.Ico 0 mbrSize) := by
  have hfill := fill_eqOn m m' ∅ 0 mbrSize 0 (Set.eqOn_empty m m')
  have hsig := store_eqOn _ _ _ mbrDiskSignatureOffset (leBytes 8 0x36E5756D) hfill
  have htable := store_eqOn _ _ _ partitionTableOffset (PartTable.bytes defPartTable) hsig
  have hend := store_eqOn _ _ _ mbrSignatureOffset (leBytes 2 mbrSignature) htable
  refine hend.mono ?_
  intro x hx
  exact .inl (.inl (.inl (.inr (by simpa using hx))))

theorem copyBr_eqOn (m m' : Nat → UInt8) (S : Set Nat) (startCylinder : Nat) (table : PartTable)
    (h : Set.EqOn m m' S) :
    Set.EqOn (copyBr m startCylinder table) (copyBr m' startCylinder table)
      (S ∪ brSector startCylinder) := by
  have hfill := fill_eqOn m m' S (brOffset startCylinder) brSize 0 h
  have htable := store_eqOn _ _ _ (brOffset startCylinder + partitionTableOffset) table.bytes hfill
  have hend := store_eqOn _ _ _ (brOffset startCylinder + brSignatureOffset)
    (leBytes 2 brSignature) htable
  exact hend.mono fun x hx => .inl (.inl hx)

/-- Installing any list of boot records over two memories. -/
theorem foldl_copyBr_eqOn (brs : List (Nat × PartTable)) (m m' : Nat → UInt8) (S : Set Nat)
    (h : Set.EqOn m m' S) :
    Set.EqOn (brs.foldl (fun disk br => copyBr disk br.1 br.2) m)
      (brs.foldl (fun disk br => copyBr disk br.1 br.2) m') (S ∪ ⋃ br ∈ brs, brSector br.1) := by
  induction brs generalizing m m' S with
  | nil => simpa using h
  | cons br brs ih =>
    have hhead := copyBr_eqOn m m' S br.1 br.2 h
    refine (ih _ _ _ hhead).mono ?_
    simp [Set.union_assoc]

theorem foldl_copyBr_outside (brs : List (Nat × PartTable)) (disk : Nat → UInt8) (x : Nat)
    (h : ∀ br ∈ brs, x ∉ brSector br.1) :
    brs.foldl (fun disk br => copyBr disk br.1 br.2) disk x = disk x := by
  induction brs generalizing disk with
  | nil => rfl
  | cons br brs ih =>
    rw [List.foldl_cons, ih _ fun br' hbr => h br' (List.mem_cons_of_mem br hbr)]
    exact copyBr_outside disk br.1 br.2 x (h br List.mem_cons_self)

/-- The installed bytes do not depend on what the buffer held. -/
theorem copyMbrNBr_eqOn (m m' : Nat → UInt8) :
    Set.EqOn (copyMbrNBr m) (copyMbrNBr m') installed :=
  foldl_copyBr_eqOn bootRecords (copyMbr m) (copyMbr m') _ (copyMbr_eqOn m m')

/-- All other bytes are still what the buffer held. -/
theorem copyMbrNBr_outside (disk : Nat → UInt8) (x : Nat) (h : x ∉ installed) :
    copyMbrNBr disk x = disk x := by
  simp only [installed, Set.mem_union, Set.mem_Ico, Set.mem_iUnion, not_or, not_exists] at h
  rw [copyMbrNBr, foldl_copyBr_outside bootRecords _ x h.2, copyMbr_outside disk x (by omega)]

theorem brOffset_bootRecords : bootRecords.map (fun br => brOffset br.1) = [163840] := by decide

/-- A boot record stands at the first sector of cylinder 10 and nowhere else. -/
theorem mem_installed (x : Nat) : x ∈ installed ↔ x < 512 ∨ (163840 ≤ x ∧ x < 164352) := by
  have hbr : bootRecords = [(10, defLogPartTable.getD 0 defPartTable)] := by decide
  simp [installed, hbr, brSector, brOffset, brSize, mbrSize, sectorSize]

theorem copyMbrNBr_mbr (disk : Nat → UInt8) (x : Nat) (h : x < mbrSize) :
    copyMbrNBr disk x = copyMbr disk x := by
  apply foldl_copyBr_outside
  intro br hbr
  have hoff : brOffset br.1 ∈ bootRecords.map (fun br => brOffset br.1) :=
    List.mem_map_of_mem (f := fun br : Nat × PartTable => brOffset br.1) hbr
  rw [brOffset_bootRecords, List.mem_singleton] at hoff
  simp only [mbrSize, sectorSize] at h
  simp only [brSector, Set.mem_Ico, hoff]
  omega

/-- The table in the installed master boot record reads back as the built-in one. -/
theorem image_partTable (disk : Nat → UInt8) :
    readPartTable (copyMbrNBr disk) partitionTableOffset = defPartTable.toList.map some := by
  apply readPartTable_of_load
  have hlen := PartTable.bytes_length defPartTable
  have hmbr : load (copyMbrNBr disk) partitionTableOffset partitionTableSize =
      load (copyMbr disk) partitionTableOffset partitionTableSize := by
    apply load_congr
    intro i hi
    apply copyMbrNBr_mbr
    simp only [partitionTableSize, partitionTableOffset, mbrSize, sectorSize] at hi ⊢
    omega
  rw [hmbr, copyMbr, load_store_disjoint _ _ _ _ _ (.inl (by decide)), ← hlen, load_store_same]

/-- The sector at `base` reads back as a boot sector with this table. -/
structure BootSector (disk : Nat → UInt8) (base : Nat) (table : PartTable) : Prop where
  table : readPartTable disk (base + partitionTableOffset) = table.toList.map some
  signature : load disk (base + brSignatureOffset) 2 = leBytes 2 brSignature

theorem BootSector.congr {m m' : Nat → UInt8} {base : Nat} {table : PartTable}
    (h : BootSector m base table) (hsame : ∀ x, base ≤ x → x < base + sectorSize → m' x = m x) :
    BootSector m' base table := by
  have hload : ∀ off n, off + n ≤ sectorSize → load m' (base + off) n = load m (base + off) n := by
    intro off n hfits
    apply load_congr
    intro i hi
    exact hsame _ (by omega) (by omega)
  constructor
  · rw [← h.table]
    apply List.map_congr_left
    intro i hi
    rw [List.mem_range] at hi
    simp only [partitionTableOffset, partitionEntrySize, Nat.add_assoc]
    rw [hload (446 + 16 * i) 16 (by simp only [sectorSize]; omega)]
  · rw [← h.signature]
    exact hload brSignatureOffset 2 (by decide)

end DofDisk
