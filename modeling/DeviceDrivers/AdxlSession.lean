import DeviceDrivers.AdxlClient
import DeviceDrivers.Halting
import DeviceDrivers.ServoClient

/-!
# The accelerometer's client on a finite input

`scanf(" %c", &axis)` leaves `axis` alone at the end of the input, and `useradxl`
does not look at what it returns. With the input used up, the last key is served
again and again: the loop ends on an `e` or on an `open` that fails, or never.
-/
namespace Adxl

open EventRun Halting
open Servo (isspace)

/-- `scanf(" %c", &axis)`: what `axis` holds then, and the input behind it. -/
def scanfAxis (axis : UInt8) : List UInt8 → UInt8 × List UInt8
  | [] => (axis, [])
  | c :: rest => if isspace c then scanfAxis axis rest else (c, rest)

/-- The result of one `open`, and of the `read` behind it with what it leaves in `buff`. -/
structure Reading where
  opened : Int
  value : Int
  buff : Int

/-- A running client, its input, and the answers to the `open` calls to come. -/
structure Session where
  client : Client
  stdin : List UInt8
  answers : Stream' Reading

def Session.turn (s : Session) : Turn :=
  { axis := (scanfAxis s.client.axis s.stdin).1
    opened := s.answers.head.opened
    value := s.answers.head.value
    buff := s.answers.head.buff }

/-- One iteration of the loop of `main`; a session that has ended stays as it is. -/
def useradxlStep (s : Session) : Session :=
  if s.client.ended then s
  else
    { client := clientStep s.client s.turn
      stdin := (scanfAxis s.client.axis s.stdin).2
      answers := if s.turn.Opens then s.answers.tail else s.answers }

def Session.Ended (s : Session) : Prop := s.client.ended = true

/-- The program performs finitely many iterations. -/
def Session.Ends (s : Session) : Prop := Halts useradxlStep Session.Ended s

/-- The keys that open a device node. -/
def Opening (axis : UInt8) : Prop := axis = keyX ∨ axis = keyY ∨ axis = keyZ

instance : DecidablePred Opening := fun _ => inferInstanceAs (Decidable (_ ∨ _ ∨ _))

/-- What `axis` is left with: the last character that is no blank, if there is one. -/
def lastKey (axis : UInt8) (stdin : List UInt8) : UInt8 :=
  (stdin.filter fun c => !isspace c).getLastD axis

/-- An `open` fails that the loop would come to: there is one for each opening key,
and no end of them when such a key is the last. -/
def Refused (axis : UInt8) (stdin : List UInt8) (answers : Stream' Reading) : Prop :=
  ∃ k, (answers.get k).opened < 0 ∧
    (k < stdin.countP Opening ∨ Opening (lastKey axis stdin))

/-- The loop has a way out. -/
def HasExit (axis : UInt8) (stdin : List UInt8) (answers : Stream' Reading) : Prop :=
  keyE ∈ stdin ∨ lastKey axis stdin = keyE ∨ Refused axis stdin answers

/-- Blanks are none of the menu's keys. -/
theorem isspace_no_key (c : UInt8) (h : isspace c = true) : c ≠ keyE ∧ ¬Opening c := by
  constructor
  · rintro rfl
    exact absurd h (by decide)
  · rintro (rfl | rfl | rfl)
    · exact absurd h (by decide)
    · exact absurd h (by decide)
    · exact absurd h (by decide)

theorem lastKey_blank (axis c : UInt8) (rest : List UInt8) (h : isspace c = true) :
    lastKey axis (c :: rest) = lastKey axis rest := by
  simp [lastKey, h]

theorem lastKey_key (axis c : UInt8) (rest : List UInt8) (h : isspace c = false) :
    lastKey axis (c :: rest) = lastKey c rest := by
  rw [lastKey, List.filter_cons_of_pos (by simp [h]), List.getLastD_cons]
  rfl

theorem hasExit_nil (axis : UInt8) (answers : Stream' Reading) :
    HasExit axis [] answers ↔
      axis = keyE ∨ Opening axis ∧ ∃ k, (answers.get k).opened < 0 := by
  simp [HasExit, Refused, lastKey, and_comm]

theorem hasExit_blank (axis c : UInt8) (rest : List UInt8) (answers : Stream' Reading)
    (h : isspace c = true) : HasExit axis (c :: rest) answers ↔ HasExit axis rest answers := by
  obtain ⟨hexit, hopening⟩ := isspace_no_key c h
  simp [HasExit, Refused, lastKey_blank axis c rest h, hexit.symm, hopening]

/-- A key that is served takes the first answer when it opens a node, and none
otherwise. -/
theorem refused_key (axis c : UInt8) (rest : List UInt8) (answers : Stream' Reading)
    (h : isspace c = false) (hserved : Opening c → ¬answers.head.opened < 0) :
    Refused axis (c :: rest) answers ↔
      Refused c rest (if Opening c then answers.tail else answers) := by
  unfold Refused
  rw [lastKey_key axis c rest h]
  by_cases hopening : Opening c
  · rw [if_pos hopening, List.countP_cons_of_pos (by simpa using hopening)]
    constructor
    · rintro ⟨k, hfails, hk⟩
      cases k with
      | zero => exact absurd hfails (hserved hopening)
      | succ k => exact ⟨k, hfails, hk.imp_left Nat.lt_of_succ_lt_succ⟩
    · rintro ⟨k, hfails, hk⟩
      exact ⟨k + 1, hfails, hk.imp_left Nat.succ_lt_succ⟩
  · rw [if_neg hopening, List.countP_cons_of_neg (by simpa using hopening)]

/-- A key that does not end the loop leaves the ways out to the rest. -/
theorem hasExit_key (axis c : UInt8) (rest : List UInt8) (answers : Stream' Reading)
    (h : isspace c = false) (hexit : c ≠ keyE)
    (hserved : Opening c → ¬answers.head.opened < 0) :
    HasExit axis (c :: rest) answers ↔
      HasExit c rest (if Opening c then answers.tail else answers) := by
  unfold HasExit
  rw [refused_key axis c rest answers h hserved, lastKey_key axis c rest h, List.mem_cons,
    or_iff_right hexit.symm]

/-- A key that ends the loop is a way out itself. -/
theorem hasExit_of_served (axis c : UInt8) (rest : List UInt8) (answers : Stream' Reading)
    (h : c = keyE ∨ Opening c ∧ answers.head.opened < 0) :
    HasExit axis (c :: rest) answers := by
  cases h with
  | inl hexit => exact Or.inl (hexit ▸ List.mem_cons_self)
  | inr hrefused =>
    refine Or.inr (Or.inr ⟨0, hrefused.2, Or.inl ?_⟩)
    rw [List.countP_cons_of_pos (by simpa using hrefused.1)]
    exact Nat.succ_pos _

theorem turn_opens_iff (s : Session) : s.turn.Opens ↔ Opening s.turn.axis := Iff.rfl

theorem useradxlStep_running (s : Session) (h : s.client.ended = false) :
    useradxlStep s =
      { client := clientStep s.client s.turn
        stdin := (scanfAxis s.client.axis s.stdin).2
        answers := if Opening s.turn.axis then s.answers.tail else s.answers } := by
  rw [useradxlStep, h]
  rfl

/-- The two ways out, for the key that is served. -/
theorem useradxlStep_ended_iff (s : Session) (h : s.client.ended = false) :
    (useradxlStep s).Ended ↔
      s.turn.axis = keyE ∨ Opening s.turn.axis ∧ s.answers.head.opened < 0 := by
  rw [useradxlStep_running s h]
  exact clientStep_ended_iff s.client s.turn h

/-- The loop runs, nothing is left to read, and `axis` holds this key. -/
structure Drained (axis : UInt8) (s : Session) : Prop where
  running : s.client.ended = false
  stdin : s.stdin = []
  axis : s.client.axis = axis

theorem Drained.turn_axis {axis : UInt8} {s : Session} (h : Drained axis s) :
    s.turn.axis = axis := by
  simp [Session.turn, scanfAxis, h.stdin, h.axis]

/-- An iteration that does not end the loop changes neither. -/
theorem Drained.step {axis : UInt8} {s : Session} (h : Drained axis s)
    (hserved : ¬(useradxlStep s).Ended) : Drained axis (useradxlStep s) where
  running := by simpa [Session.Ended] using hserved
  stdin := by
    rw [useradxlStep_running s h.running, h.stdin]
    rfl
  axis := by
    rw [useradxlStep_running s h.running]
    exact (clientStep_axis s.client s.turn h.running).trans h.turn_axis

theorem Drained.not_ended {axis : UInt8} {s : Session} (h : Drained axis s) : ¬s.Ended := by
  simp [Session.Ended, h.running]

theorem Drained.ended_iff {axis : UInt8} {s : Session} (h : Drained axis s) :
    (useradxlStep s).Ended ↔ axis = keyE ∨ Opening axis ∧ s.answers.head.opened < 0 := by
  rw [useradxlStep_ended_iff s h.running, h.turn_axis]

/-- The last key decides: an `e` ends the loop, an opening key with the first `open`
that fails, any other never. -/
theorem Drained.ends_iff {axis : UInt8} {s : Session} (h : Drained axis s) :
    s.Ends ↔ HasExit axis [] s.answers := by
  rw [hasExit_nil]
  by_cases hexit : axis = keyE
  · refine iff_of_true (halts_of_step s (halts_of_done _ ?_)) (Or.inl hexit)
    exact h.ended_iff.mpr (Or.inl hexit)
  · by_cases hopening : Opening axis
    · simp only [hexit, hopening, true_and, false_or]
      refine halts_iff_exists_bad (Drained axis) Session.answers (fun r => r.opened < 0)
        (fun s hs => hs.not_ended) ?_ ?_ s h
      · intro s hs hfails
        exact hs.ended_iff.mpr (Or.inr ⟨hopening, hfails⟩)
      · intro s hs hgood
        have hserved : ¬(useradxlStep s).Ended := by
          rw [hs.ended_iff]
          simp [hexit, hgood]
        refine ⟨hs.step hserved, ?_⟩
        rw [useradxlStep_running s hs.running, hs.turn_axis]
        exact if_pos hopening
    · refine iff_of_false ?_ (by simp [hexit, hopening])
      refine not_halts_of_invariant (Drained axis) ?_ (fun s hs => hs.not_ended) s h
      intro s hs
      refine hs.step ?_
      rw [hs.ended_iff]
      simp [hexit, hopening]

/-- A blank in front of the input makes no difference to an iteration. -/
theorem useradxlStep_blank (client : Client) (c : UInt8) (rest : List UInt8)
    (answers : Stream' Reading) (hrunning : client.ended = false) (h : isspace c = true) :
    useradxlStep { client := client, stdin := c :: rest, answers := answers } =
      useradxlStep { client := client, stdin := rest, answers := answers } := by
  have hscan : scanfAxis client.axis (c :: rest) = scanfAxis client.axis rest := by
    simp [scanfAxis, h]
  have hturn : Session.turn { client := client, stdin := c :: rest, answers := answers } =
      Session.turn { client := client, stdin := rest, answers := answers } := by
    rw [Session.turn, hscan]
    rfl
  rw [useradxlStep_running _ hrunning, useradxlStep_running _ hrunning, hturn, hscan]

/-- What an iteration does with the next key. -/
theorem useradxlStep_key (client : Client) (c : UInt8) (rest : List UInt8)
    (answers : Stream' Reading) (hrunning : client.ended = false) (h : isspace c = false) :
    ∃ next : Client,
      useradxlStep { client := client, stdin := c :: rest, answers := answers } =
        { client := next, stdin := rest
          answers := if Opening c then answers.tail else answers } ∧
      next.axis = c ∧
      (next.ended = true ↔ c = keyE ∨ Opening c ∧ answers.head.opened < 0) := by
  have hscan : scanfAxis client.axis (c :: rest) = (c, rest) := by simp [scanfAxis, h]
  let s : Session := { client := client, stdin := c :: rest, answers := answers }
  have haxis : s.turn.axis = c := congrArg Prod.fst hscan
  have hended := clientStep_ended_iff client s.turn hrunning
  rw [turn_opens_iff, haxis] at hended
  refine ⟨clientStep client s.turn, ?_, ?_, hended⟩
  · rw [useradxlStep_running s hrunning, haxis, hscan]
  · rw [clientStep_axis client s.turn hrunning, haxis]

/-- By induction on the input: a blank is skipped within an iteration, a key is one
iteration, and the empty input is a drained session. -/
theorem session_ends_iff (client : Client) (stdin : List UInt8) (answers : Stream' Reading)
    (hrunning : client.ended = false) :
    Session.Ends { client := client, stdin := stdin, answers := answers } ↔
      HasExit client.axis stdin answers := by
  induction stdin generalizing client answers with
  | nil => exact Drained.ends_iff ⟨hrunning, rfl, rfl⟩
  | cons c rest ih =>
    have hgoes : ∀ stdin,
        ¬Session.Ended { client := client, stdin := stdin, answers := answers } := by
      simp [Session.Ended, hrunning]
    rw [Session.Ends, halts_iff_step _ (hgoes (c :: rest))]
    cases hblank : isspace c with
    | true =>
      rw [useradxlStep_blank client c rest answers hrunning hblank,
        ← halts_iff_step _ (hgoes rest), hasExit_blank client.axis c rest answers hblank]
      exact ih client answers hrunning
    | false =>
      obtain ⟨next, hstep, haxis, hended⟩ := useradxlStep_key client c rest answers hrunning hblank
      rw [hstep]
      by_cases hout : c = keyE ∨ Opening c ∧ answers.head.opened < 0
      · exact iff_of_true (halts_of_done _ (hended.mpr hout))
          (hasExit_of_served client.axis c rest answers hout)
      · have hlater : next.ended = false := by simpa using mt hended.mp hout
        have hrest := ih next (if Opening c then answers.tail else answers) hlater
        rw [not_or, not_and] at hout
        rw [hasExit_key client.axis c rest answers hblank hout.1 hout.2]
        rw [haxis] at hrest
        exact hrest

def Session.start (axis : UInt8) (buff value fd : Int) (stdin : List UInt8)
    (answers : Stream' Reading) : Session :=
  { client := clientStart axis buff value fd, stdin := stdin, answers := answers }

/-- A session that ends is a run of the client that completes, with the same calls. -/
theorem ends_completes (s : Session) (hrunning : s.client.ended = false) (h : s.Ends) :
    ∃ n turns, Completes s.client turns ∧
      (useradxlStep^[n] s).client = run clientStep s.client turns := by
  refine halts_induction (P := fun s => s.client.ended = false → ∃ n turns,
    Completes s.client turns ∧ (useradxlStep^[n] s).client = run clientStep s.client turns)
    ?_ ?_ s h hrunning
  · intro s hended hrunning
    exact absurd hended (by simp [Session.Ended, hrunning])
  · intro s _ ih hrunning
    have hclient : (useradxlStep s).client = clientStep s.client s.turn := by
      rw [useradxlStep_running s hrunning]
    cases hended : (useradxlStep s).client.ended with
    | true =>
      rw [hclient] at hended
      exact ⟨1, [s.turn], ⟨⟨hrunning, trivial⟩, hended⟩, hclient⟩
    | false =>
      obtain ⟨n, turns, ⟨hheads, hlast⟩, hrun⟩ := ih hended
      rw [hclient] at hheads hlast hrun
      exact ⟨n + 1, s.turn :: turns, ⟨⟨hrunning, hheads⟩, hlast⟩, hrun⟩

/-- The program ends exactly on the inputs that leave it a way out. -/
theorem useradxl_ends_iff (axis : UInt8) (buff value fd : Int) (stdin : List UInt8)
    (answers : Stream' Reading) :
    (Session.start axis buff value fd stdin answers).Ends ↔ HasExit axis stdin answers :=
  session_ends_iff (clientStart axis buff value fd) stdin answers rfl

/-- After `q` and a newline the menu comes up forever. -/
theorem useradxl_loops_after_q :
    let answers : Stream' Reading := Stream'.const { opened := 3, value := 0, buff := 0 }
    ¬(Session.start 0 0 0 0 [113, 10] answers).Ends := by
  intro answers hends
  have hexit := (session_ends_iff (clientStart 0 0 0 0) [113, 10] answers rfl).mp hends
  rcases hexit with hkey | hlast | ⟨k, -, hcount | hopening⟩
  · exact absurd hkey (by decide)
  · exact absurd hlast (by decide)
  · exact absurd hcount (Nat.not_lt_zero k)
  · exact absurd hopening (by decide)

end Adxl
