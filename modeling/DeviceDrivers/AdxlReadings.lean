import DeviceDrivers.AdxlRead
import DeviceDrivers.AdxlSession

/-!
# The client over the driver

Each `read` of `useradxl` is a call of `scull_read` with the address of `buff`, and the
variable `i` behind it is shared with every other reader. What the client shows is its
own samples, with the bytes a fault keeps back left from the number before.
-/
namespace Adxl

open EventRun ByteMemory

/-- An `int` as it lies in memory, and back. -/
def intBytes (v : Int) : List UInt8 := leBytes 4 (BitVec.ofInt 32 v).toNat
def bytesInt (bs : List UInt8) : Int := (BitVec.ofNat 32 (leValue bs)).toInt

/-- An iteration of the client: the key, the result of `open`, and what a read behind it
is given. -/
structure KeyPress where
  axis : UInt8
  opened : Int
  random : UInt16
  notCopied : Nat
  notCopied_le : notCopied ≤ 4

/-- The client goes through its loop once, or another process reads. -/
inductive Moment where
  | key (k : KeyPress)
  | elsewhere (e : Read)

structure Bench where
  driver : Globals
  client : Client

/-- `read(fd, &buff, 10)`, with `buff` at address 0. -/
def KeyPress.read (k : KeyPress) (buff : Int) : Read where
  len := 10
  user := store (fun _ => 0) 0 (intBytes buff)
  buf := 0
  random := k.random
  notCopied := k.notCopied
  notCopied_le := k.notCopied_le

def KeyPress.turn (k : KeyPress) (g : Globals) (buff : Int) : Turn :=
  let served := readCall g (k.read buff)
  { axis := k.axis, opened := k.opened, value := served.2.2
    buff := bytesInt (load served.2.1 0 4) }

def benchStep (s : Bench) : Moment → Bench
  | .elsewhere e => { s with driver := readStep s.driver e }
  | .key k =>
    let turn := k.turn s.driver s.client.buff
    { driver :=
        if s.client.ended = false ∧ turn.Opens ∧ 0 ≤ turn.opened then
          readStep s.driver (k.read s.client.buff)
        else s.driver
      client := clientStep s.client turn }

/-- The number a read leaves in `buff`. -/
def KeyPress.reading (k : KeyPress) (buff : Int) : Int :=
  bytesInt ((leBytes 4 (k.random.toNat % 1024)).take (4 - k.notCopied) ++
    (intBytes buff).drop (4 - k.notCopied))

def nodeName (axis : UInt8) : String :=
  if axis = keyX then "x" else if axis = keyY then "y" else "z"

/-- The text of the whole run; the key `e` is answered like a key that is not valid. -/
def screen (buff : Int) : List Moment → String
  | [] => ""
  | .elsewhere _ :: moments => screen buff moments
  | .key k :: moments =>
    if Opening k.axis then
      if k.opened < 0 then menu ++ "Cannot open device file...\n"
      else
        menu ++ s!"{nodeName k.axis} axis: {k.reading buff}\n\n\n" ++ screen (k.reading buff) moments
    else if k.axis = keyE then menu ++ "Please enter a valid key\n\n\n"
    else menu ++ "Please enter a valid key\n\n\n" ++ screen buff moments

/-- A sample that was copied whole is shown as it is. -/
theorem reading_copied (k : KeyPress) (buff : Int) (h : k.notCopied = 0) :
    k.reading buff = (k.random.toNat % 1024 : Nat) := by
  have hlow : k.random.toNat % 1024 < 1024 := Nat.mod_lt _ (by decide)
  have hword := leValue_leBytes_of_lt 4 (k.random.toNat % 1024) (by omega)
  have htake : (leBytes 4 (k.random.toNat % 1024)).take 4 = leBytes 4 (k.random.toNat % 1024) :=
    List.take_of_length_le (by rw [leBytes_length])
  have hdrop : (intBytes buff).drop 4 = [] := List.drop_eq_nil_of_le (by rw [intBytes, leBytes_length])
  rw [KeyPress.reading, h, Nat.sub_zero, htake, hdrop, List.append_nil, bytesInt, hword,
    BitVec.toInt_eq_toNat_of_lt (by rw [BitVec.toNat_ofNat]; omega), BitVec.toNat_ofNat,
    Nat.mod_eq_of_lt (by omega)]

/-- The driver writes over the front of `buff`, whatever its `i` was. -/
theorem turn_buff (k : KeyPress) (g : Globals) (buff : Int) :
    (k.turn g buff).buff = k.reading buff := by
  have hbuff : (intBytes buff).length = 4 := leBytes_length 4 _
  have hmem := load_store_same (fun _ => (0 : UInt8)) 0 (intBytes buff)
  rw [hbuff] at hmem
  have hfront : ((k.read buff).sample.take (4 - k.notCopied)).length = 4 - k.notCopied := by
    rw [List.length_take, Read.sample, leBytes_length]
    omega
  have huser : (readCall g (k.read buff)).2.1 =
      store (store (fun _ => 0) 0 (intBytes buff)) 0 ((k.read buff).sample.take (4 - k.notCopied)) :=
    readCall_user g (k.read buff)
  rw [KeyPress.turn, huser, load_store _ 4 0 _ (by omega), splice, hmem, hfront, List.take_zero,
    List.nil_append, Nat.zero_add]
  rfl

theorem loopBody_node (st : Client) (turn : Turn) (h : Opening turn.axis) :
    turn.axis ≠ keyE ∧ loopBody st turn =
      openAndRead { st with axis := turn.axis, out := st.out ++ menu } turn
        (nodeName turn.axis) := by
  rcases h with hkey | hkey | hkey
  · rw [hkey]
    exact ⟨by decide, by simp [loopBody, hkey, nodeName]⟩
  · rw [hkey]
    exact ⟨by decide, by simp [loopBody, hkey, nodeName, keyX, keyY]⟩
  · rw [hkey]
    exact ⟨by decide, by simp [loopBody, hkey, nodeName, keyX, keyY, keyZ]⟩

section Iteration

variable (st : Client) (turn : Turn) (h : st.ended = false)

include h

theorem clientStep_refused (hopening : Opening turn.axis) (hret : turn.opened < 0) :
    (clientStep st turn).ended = true ∧
      (clientStep st turn).out = st.out ++ (menu ++ "Cannot open device file...\n") := by
  obtain ⟨-, hbody⟩ := loopBody_node st turn hopening
  simp [clientStep, h, hbody, openAndRead, hret, String.append_assoc]

theorem clientStep_reads (hopening : Opening turn.axis) (hret : ¬turn.opened < 0) :
    (clientStep st turn).ended = false ∧ (clientStep st turn).buff = turn.buff ∧
      (clientStep st turn).out =
        st.out ++ (menu ++ s!"{nodeName turn.axis} axis: {turn.buff}\n\n\n") := by
  obtain ⟨hkey, hbody⟩ := loopBody_node st turn hopening
  simp [clientStep, h, hbody, openAndRead, hret, hkey, String.append_assoc]

theorem clientStep_invalid (hopening : ¬Opening turn.axis) :
    ((clientStep st turn).ended = true ↔ turn.axis = keyE) ∧
      (clientStep st turn).buff = st.buff ∧
      (clientStep st turn).out = st.out ++ (menu ++ "Please enter a valid key\n\n\n") := by
  simp only [Opening, not_or] at hopening
  by_cases hkey : turn.axis = keyE
  · simp [clientStep, loopBody, h, hkey, keyE, keyX, keyY, keyZ, String.append_assoc]
  · simp [clientStep, loopBody, h, hkey, hopening, String.append_assoc]

end Iteration

theorem run_ended (s : Bench) (moments : List Moment) (h : s.client.ended = true) :
    (run benchStep s moments).client = s.client := by
  induction moments generalizing s with
  | nil => rfl
  | cons m moments ih =>
    cases m with
    | elsewhere e => exact ih _ h
    | key k =>
      have hstay : (benchStep s (.key k)).client = s.client := clientStep_ended _ _ h
      rw [run_cons, ih _ (by rw [hstay, h]), hstay]

/-- By induction on what happens: another reader changes `i` only, and a key shows its
part of the text and leaves the next number in `buff`. -/
theorem run_shows (s : Bench) (moments : List Moment) (h : s.client.ended = false) :
    (run benchStep s moments).client.out = s.client.out ++ screen s.client.buff moments := by
  induction moments generalizing s with
  | nil => simp [screen]
  | cons m moments ih =>
    cases m with
    | elsewhere e => exact ih _ h
    | key k =>
      let turn := k.turn s.driver s.client.buff
      have hclient : (benchStep s (.key k)).client = clientStep s.client turn := rfl
      have hbuff : turn.buff = k.reading s.client.buff := turn_buff k s.driver s.client.buff
      rw [run_cons, screen]
      by_cases hopening : Opening k.axis
      · rw [if_pos hopening]
        by_cases hret : k.opened < 0
        · obtain ⟨hended, hout⟩ := clientStep_refused s.client turn h hopening hret
          rw [← hclient] at hended hout
          rw [if_pos hret, run_ended _ moments hended, hout]
        · obtain ⟨hended, hnext, hout⟩ := clientStep_reads s.client turn h hopening hret
          rw [hbuff] at hnext hout
          rw [← hclient] at hended hnext hout
          rw [if_neg hret, ih _ hended, hout, hnext, String.append_assoc]
          rfl
      · obtain ⟨hended, hnext, hout⟩ := clientStep_invalid s.client turn h hopening
        rw [← hclient] at hended hnext hout
        rw [if_neg hopening]
        by_cases hkey : k.axis = keyE
        · rw [if_pos hkey, run_ended _ moments (hended.mpr hkey), hout]
        · rw [if_neg hkey, ih _ (by simpa using hended.not.mpr hkey), hout, hnext,
            String.append_assoc]

/-- Whatever other processes read in between, one read at a time, the client shows for
each key the sample of its own read, a number below 1024 where no byte was kept back,
and it stops at the first `e` or the first node that does not open. -/
theorem useradxl_shows (g : Globals) (axis : UInt8) (buff value fd : Int)
    (moments : List Moment) :
    (run benchStep ⟨g, clientStart axis buff value fd⟩ moments).client.out =
        screen buff moments ∧
      ∀ (k : KeyPress) (before : Int), k.notCopied = 0 →
        k.reading before = (k.random.toNat % 1024 : Nat) := by
  constructor
  · have hshows := run_shows ⟨g, clientStart axis buff value fd⟩ moments rfl
    rw [hshows]
    exact String.empty_append
  · exact reading_copied

/-- A reading on the `x` axis with another process's in between. -/
example : screen 7 [.elsewhere ⟨4, fun _ => 0, 0, 99, 0, Nat.zero_le 4⟩,
    .key ⟨keyX, 3, 1234, 0, Nat.zero_le 4⟩, .key ⟨keyE, 0, 0, 0, Nat.zero_le 4⟩] =
      menu ++ "x axis: 210\n\n\n" ++ (menu ++ "Please enter a valid key\n\n\n") := by
  decide +kernel

end Adxl
