import Mathlib.Tactic
import Mathlib.Data.Set.Function
import Mathlib.Order.Interval.Set.Basic

/-!
# Block memories, range stores and byte strings

A block of memory is a total function from offsets to cells, so a store past
the end of an object is visible and has to be excluded by proof. `copy` and
`fill` are the C library's `memcpy` and `memset` between distinct objects.
-/
namespace ByteMemory

variable {β : Type*}

def load (m : Nat → β) (a n : Nat) : List β := (List.range n).map fun i => m (a + i)

def store (m : Nat → β) (a : Nat) (bs : List β) : Nat → β :=
  fun x => if a ≤ x then bs.getD (x - a) (m x) else m x

def copy (dst : Nat → β) (d : Nat) (src : Nat → β) (s n : Nat) : Nat → β :=
  store dst d (load src s n)

def fill (m : Nat → β) (a n : Nat) (b : β) : Nat → β := store m a (List.replicate n b)

@[simp] theorem load_length (m : Nat → β) (a n : Nat) : (load m a n).length = n := by simp [load]
@[simp] theorem load_getElem (m : Nat → β) (a n i : Nat) (h : i < (load m a n).length) :
    (load m a n)[i] = m (a + i) := by simp [load]

@[simp] theorem store_nil (m : Nat → β) (a : Nat) : store m a [] = m := by
  funext x
  simp [store]

theorem store_inside (m : Nat → β) (a i : Nat) (bs : List β) (h : i < bs.length) :
    store m a bs (a + i) = bs[i] := by
  simp [store, List.getElem?_eq_getElem h]

theorem store_outside (m : Nat → β) (a x : Nat) (bs : List β)
    (h : x < a ∨ a + bs.length ≤ x) : store m a bs x = m x := by
  unfold store
  split
  · rw [List.getD_eq_getElem?_getD, List.getElem?_eq_none (by omega)]
    rfl
  · rfl

/-- Every offset is before, inside or after the stored range. -/
theorem store_apply (m : Nat → β) (a x : Nat) (bs : List β) :
    store m a bs x =
      if h : a ≤ x ∧ x < a + bs.length then bs.get ⟨x - a, by omega⟩ else m x := by
  by_cases h : a ≤ x ∧ x < a + bs.length
  · obtain ⟨i, rfl⟩ := Nat.exists_eq_add_of_le h.1
    have hi := store_inside m a i bs (by omega)
    simpa [h.2] using hi
  · rw [dif_neg h]
    exact store_outside m a x bs (by omega)

theorem copy_inside (dst src : Nat → β) (d s n i : Nat) (h : i < n) :
    copy dst d src s n (d + i) = src (s + i) := by
  rw [copy, store_inside _ _ _ _ (by simpa using h), load_getElem]

theorem copy_outside (dst src : Nat → β) (d s n x : Nat) (h : x < d ∨ d + n ≤ x) :
    copy dst d src s n x = dst x := store_outside _ _ _ _ (by simpa using h)

theorem load_congr (m m' : Nat → β) (a n : Nat) (h : ∀ i < n, m (a + i) = m' (a + i)) :
    load m a n = load m' a n := by
  apply List.ext_getElem (by simp)
  intro i hi _
  simpa using h i (by simpa using hi)

theorem load_eq_iff (m : Nat → β) (a n : Nat) (bs : List β) (hn : bs.length = n) :
    load m a n = bs ↔ ∀ i (h : i < bs.length), m (a + i) = bs[i] := by
  constructor
  · rintro rfl i h
    simp
  · intro h
    apply List.ext_getElem (by simp [hn])
    intro i _ hi
    simpa using h i hi

theorem load_store_same (m : Nat → β) (a : Nat) (bs : List β) :
    load (store m a bs) a bs.length = bs :=
  (load_eq_iff _ _ _ _ rfl).mpr fun i h => store_inside m a i bs h

theorem store_load_self (m : Nat → β) (a n : Nat) : store m a (load m a n) = m := by
  funext x
  rw [store_apply]
  by_cases h : a ≤ x ∧ x < a + (load m a n).length
  · obtain ⟨i, rfl⟩ := Nat.exists_eq_add_of_le h.1
    rw [dif_pos h]
    simp
  · rw [dif_neg h]

theorem load_store_disjoint (m : Nat → β) (a b n : Nat) (bs : List β)
    (h : b + n ≤ a ∨ a + bs.length ≤ b) : load (store m a bs) b n = load m b n := by
  apply load_congr
  intro i hi
  exact store_outside m a (b + i) bs (by omega)

/-- A shorter read is a window of a longer one. -/
theorem load_window (m : Nat → β) (size a n : Nat) (h : a + n ≤ size) :
    load m a n = ((load m 0 size).drop a).take n := by
  apply List.ext_getElem
  · simp only [load_length, List.length_take, List.length_drop]
    omega
  · intro i hi _
    simp

/-- Replace the cells from `a` on by `bs`. -/
def splice (cells : List β) (a : Nat) (bs : List β) : List β :=
  cells.take a ++ bs ++ cells.drop (a + bs.length)

theorem splice_length (cells : List β) (a : Nat) (bs : List β)
    (h : a + bs.length ≤ cells.length) : (splice cells a bs).length = cells.length := by
  simp only [splice, List.length_append, List.length_take, List.length_drop]
  omega

/-- Seen as a string of `size` cells, a store inside the block is a splice. -/
theorem load_store (m : Nat → β) (size a : Nat) (bs : List β) (h : a + bs.length ≤ size) :
    load (store m a bs) 0 size = splice (load m 0 size) a bs := by
  rw [load_eq_iff _ _ _ _ (by rw [splice_length] <;> simp [h])]
  intro i hi
  rw [splice_length _ _ _ (by simpa using h), load_length] at hi
  simp only [splice, Nat.zero_add, store_apply, List.append_assoc, List.getElem_append,
    List.length_take, load_length, List.getElem_take, load_getElem, List.getElem_drop,
    List.get_eq_getElem]
  grind

/-- Records of one size laid end to end: the window of record `i` is its image. -/
theorem flatMap_window {α : Type*} (f : α → List β) (k : Nat) (records : List α)
    (hk : ∀ r ∈ records, (f r).length = k) (i : Nat) (hi : i < records.length) :
    ((records.flatMap f).drop (k * i)).take k = f records[i] := by
  induction records generalizing i with
  | nil => simp at hi
  | cons r records ih =>
    have hr : (f r).length = k := hk r List.mem_cons_self
    rw [List.flatMap_cons]
    cases i with
    | zero => simp [← hr]
    | succ i =>
      have htail := ih (fun r' h => hk r' (List.mem_cons_of_mem r h)) i (by simpa using hi)
      rw [Nat.mul_succ, Nat.add_comm, ← List.drop_drop, List.drop_left' hr]
      simpa using htail

/-- What two memories agree on before a store, and the stored range besides. -/
theorem store_eqOn (m m' : Nat → β) (S : Set Nat) (a : Nat) (bs : List β)
    (h : Set.EqOn m m' S) :
    Set.EqOn (store m a bs) (store m' a bs) (S ∪ Set.Ico a (a + bs.length)) := by
  intro x hx
  rw [store_apply, store_apply]
  split
  · rfl
  · rename_i hout
    exact h (hx.resolve_right hout)

theorem fill_eqOn (m m' : Nat → β) (S : Set Nat) (a n : Nat) (b : β) (h : Set.EqOn m m' S) :
    Set.EqOn (fill m a n b) (fill m' a n b) (S ∪ Set.Ico a (a + n)) := by
  simpa [fill] using store_eqOn m m' S a (List.replicate n b) h

def leBytes : Nat → Nat → List UInt8
  | 0, _ => []
  | n + 1, v => UInt8.ofNat v :: leBytes n (v / 256)

def leValue : List UInt8 → Nat
  | [] => 0
  | b :: bs => b.toNat + 256 * leValue bs

@[simp] theorem leBytes_length (n v : Nat) : (leBytes n v).length = n := by
  induction n generalizing v with
  | zero => rfl
  | succ n ih => simp [leBytes, ih]

theorem leValue_leBytes (n v : Nat) : leValue (leBytes n v) = v % 256 ^ n := by
  induction n generalizing v with
  | zero => simp [leBytes, leValue, Nat.mod_one]
  | succ n ih =>
    have byte : (UInt8.ofNat v).toNat = v % 256 := by simp
    simp only [leBytes, leValue, ih, byte]
    rw [Nat.pow_succ, Nat.mul_comm (256 ^ n) 256, Nat.mod_mul]

theorem leValue_leBytes_of_lt (n v : Nat) (h : v < 256 ^ n) : leValue (leBytes n v) = v := by
  rw [leValue_leBytes, Nat.mod_eq_of_lt h]

end ByteMemory
