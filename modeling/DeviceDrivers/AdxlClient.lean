import DeviceDrivers.EventRun
import DeviceDrivers.Ledger

/-!
# The accelerometer's client

The loop of `useradxl` opens a device node for each key `x`, `y` and `z`, and its
one `close` stands behind the loop. The run keeps the calls on descriptors; a
ledger of them says which are open.
-/
namespace Adxl

open EventRun Ledger

inductive ClientCall where
  | openNode (path : String) (ret : Int)
  | read (fd : Int) (len : Nat)
  | close (fd : Int)

/-- The variables of `main`, what it printed and called, and whether it returned. -/
structure Client where
  axis : UInt8
  buff : Int
  value : Int
  fd : Int
  out : String
  log : List ClientCall
  ended : Bool

/-- One iteration of the loop: what `axis` holds after `scanf`, the result of `open`,
and the result of `read` with what it leaves in `buff`. -/
structure Turn where
  axis : UInt8
  opened : Int
  value : Int
  buff : Int

def keyX : UInt8 := 120
def keyY : UInt8 := 121
def keyZ : UInt8 := 122
def keyE : UInt8 := 101

def menu : String :=
  "3 axis Acceleromete\n" ++
    "press x for X-axis\npress y for Y-axis\npress z for Z-axis\nPress e to exit\n\n"

/-- The branches for `x`, `y` and `z`; a failing `open` returns from `main`. -/
def openAndRead (st : Client) (turn : Turn) (name : String) : Client :=
  let st : Client :=
    { st with fd := turn.opened
              log := st.log ++ [.openNode ("/dev/adxl_" ++ name) turn.opened] }
  if st.fd < 0 then { st with out := st.out ++ "Cannot open device file...\n", ended := true }
  else
    { st with value := turn.value
              buff := turn.buff
              log := st.log ++ [.read st.fd 10]
              out := st.out ++ s!"{name} axis: {turn.buff}\n\n\n" }

/-- The body of the loop. -/
def loopBody (st : Client) (turn : Turn) : Client :=
  let st : Client := { st with axis := turn.axis, out := st.out ++ menu }
  if st.axis = keyX then openAndRead st turn "x"
  else if st.axis = keyY then openAndRead st turn "y"
  else if st.axis = keyZ then openAndRead st turn "z"
  else { st with out := st.out ++ "Please enter a valid key\n\n\n" }

/-- One iteration with its exit test, and the `close` behind the loop. -/
def clientStep (st : Client) (turn : Turn) : Client :=
  if st.ended then st
  else
    let st := loopBody st turn
    if st.ended then st
    else if st.axis ≠ keyE then st
    else { st with log := st.log ++ [.close st.fd], ended := true }

/-- The variables are not initialised. -/
def clientStart (axis : UInt8) (buff value fd : Int) : Client :=
  { axis := axis, buff := buff, value := value, fd := fd, out := "", log := [], ended := false }

def descriptorEffect : ClientCall → List (Entry Int)
  | .openNode _ ret => acquired ret (0 ≤ ret)
  | .read fd _ => [.use fd]
  | .close fd => [.release fd]

/-- The descriptors open after the calls, latest first. -/
def openAfter (log : List ClientCall) : Option (List Int) :=
  replay [] (log.flatMap descriptorEffect)

theorem openAfter_append (xs ys : List ClientCall) :
    openAfter (xs ++ ys) =
      (openAfter xs).bind fun kept => replay kept (ys.flatMap descriptorEffect) := by
  rw [openAfter, List.flatMap_append, replay_append]
  rfl

/-- At most one descriptor is open at every head of the loop, and none at the end;
nothing was closed that was not open. -/
def Releases (st : Client) (turns : List Turn) : Prop :=
  AtEach clientStep
      (fun st _ => ∃ kept, openAfter st.log = some kept ∧ kept.length ≤ 1) st turns ∧
    openAfter (run clientStep st turns).log = some []

/-- The last of these iterations is the one in which the program ends. -/
def Completes (st : Client) (turns : List Turn) : Prop :=
  AtEach clientStep (fun st _ => st.ended = false) st turns ∧
    (run clientStep st turns).ended = true

def Turn.Opens (turn : Turn) : Prop := turn.axis = keyX ∨ turn.axis = keyY ∨ turn.axis = keyZ

instance : DecidablePred Turn.Opens := fun _ => inferInstanceAs (Decidable (_ ∨ _ ∨ _))

theorem clientStep_ended (st : Client) (turn : Turn) (h : st.ended = true) :
    clientStep st turn = st := if_pos h

/-- The three branches are one; none of their keys ends the loop. -/
theorem loopBody_opens (st : Client) (turn : Turn) (h : turn.Opens) :
    turn.axis ≠ keyE ∧ ∃ name, loopBody st turn =
      openAndRead { st with axis := turn.axis, out := st.out ++ menu } turn name := by
  rcases h with hkey | hkey | hkey
  · rw [hkey]
    exact ⟨by decide, "x", by simp [loopBody, hkey]⟩
  · rw [hkey]
    exact ⟨by decide, "y", by simp [loopBody, hkey, keyX, keyY]⟩
  · rw [hkey]
    exact ⟨by decide, "z", by simp [loopBody, hkey, keyX, keyY, keyZ]⟩

theorem clientStep_failed (st : Client) (turn : Turn) (h : st.ended = false)
    (hopens : turn.Opens) (hret : turn.opened < 0) :
    (clientStep st turn).ended = true ∧
      ∃ path, (clientStep st turn).log = st.log ++ [.openNode path turn.opened] := by
  obtain ⟨-, name, hbody⟩ := loopBody_opens st turn hopens
  simp only [clientStep, h, hbody, openAndRead, hret, if_true, Bool.false_eq_true, if_false]
  exact ⟨trivial, _, rfl⟩

theorem clientStep_opened (st : Client) (turn : Turn) (h : st.ended = false)
    (hopens : turn.Opens) (hret : 0 ≤ turn.opened) :
    (clientStep st turn).ended = false ∧ (clientStep st turn).fd = turn.opened ∧
      ∃ path, (clientStep st turn).log =
        st.log ++ [.openNode path turn.opened, .read turn.opened 10] := by
  obtain ⟨hkey, name, hbody⟩ := loopBody_opens st turn hopens
  simp [clientStep, h, hbody, openAndRead, not_lt.mpr hret, hkey]

theorem clientStep_exit (st : Client) (turn : Turn) (h : st.ended = false)
    (hkey : turn.axis = keyE) :
    (clientStep st turn).ended = true ∧ (clientStep st turn).log = st.log ++ [.close st.fd] := by
  simp [clientStep, loopBody, h, hkey, keyE, keyX, keyY, keyZ]

theorem clientStep_other (st : Client) (turn : Turn) (h : st.ended = false)
    (hopens : ¬turn.Opens) (hkey : turn.axis ≠ keyE) :
    (clientStep st turn).ended = false ∧ (clientStep st turn).fd = st.fd ∧
      (clientStep st turn).log = st.log := by
  simp only [Turn.Opens, not_or] at hopens
  simp [clientStep, loopBody, h, hkey, hopens]

@[simp] theorem openAndRead_axis (st : Client) (turn : Turn) (name : String) :
    (openAndRead st turn name).axis = st.axis := by
  simp only [openAndRead]
  split
  · rfl
  · rfl

theorem loopBody_axis (st : Client) (turn : Turn) : (loopBody st turn).axis = turn.axis := by
  by_cases hopens : turn.Opens
  · obtain ⟨-, name, hbody⟩ := loopBody_opens st turn hopens
    rw [hbody, openAndRead_axis]
  · simp only [Turn.Opens, not_or] at hopens
    simp [loopBody, hopens]

theorem clientStep_axis (st : Client) (turn : Turn) (h : st.ended = false) :
    (clientStep st turn).axis = turn.axis := by
  simp only [clientStep, h, Bool.false_eq_true, if_false]
  split
  · exact loopBody_axis st turn
  · split
    · exact loopBody_axis st turn
    · exact loopBody_axis st turn

/-- The two ways out of the loop. -/
theorem clientStep_ended_iff (st : Client) (turn : Turn) (h : st.ended = false) :
    (clientStep st turn).ended = true ↔
      turn.axis = keyE ∨ turn.Opens ∧ turn.opened < 0 := by
  by_cases hopens : turn.Opens
  · have hkey := (loopBody_opens st turn hopens).1
    by_cases hret : turn.opened < 0
    · exact iff_of_true (clientStep_failed st turn h hopens hret).1 (Or.inr ⟨hopens, hret⟩)
    · rw [(clientStep_opened st turn h hopens (not_lt.mp hret)).1]
      simp [hkey, hret]
  · by_cases hkey : turn.axis = keyE
    · exact iff_of_true (clientStep_exit st turn h hkey).1 (Or.inl hkey)
    · rw [(clientStep_other st turn h hopens hkey).1]
      simp [hkey, hopens]

/-- The iteration in which the program ends leaves nothing open exactly when it is the
one failing attempt, or the exit after one success. -/
theorem last_releases_iff (st : Client) (turn : Turn) (fd : Int) (kept : List Int)
    (h : st.ended = false) (hopen : openAfter st.log = some kept) (hfd : st.fd = kept.headD fd)
    (hended : (clientStep st turn).ended = true) :
    openAfter (clientStep st turn).log = some [] ↔
      kept.length + (if turn.Opens then 1 else 0) = 1 := by
  rcases (clientStep_ended_iff st turn h).mp hended with hkey | ⟨hopens, hret⟩
  · have hopens : ¬turn.Opens := fun hopens => (loopBody_opens st turn hopens).1 hkey
    rw [(clientStep_exit st turn h hkey).2, openAfter_append, hopen, hfd]
    cases kept with
    | nil => simp [descriptorEffect, replay, hopens]
    | cons latest earlier => simp [descriptorEffect, replay, hopens]
  · obtain ⟨-, path, hlog⟩ := clientStep_failed st turn h hopens hret
    rw [hlog, openAfter_append, hopen]
    simp [descriptorEffect, acquired, not_le.mpr hret, hopens]

/-- What the open calls of the turns returned. -/
def openings (turns : List Turn) : List Int := (turns.filter Turn.Opens).map Turn.opened

theorem openings_concat (turns : List Turn) (turn : Turn) :
    openings (turns ++ [turn]) =
      if turn.Opens then openings turns ++ [turn.opened] else openings turns := by
  by_cases h : turn.Opens
  · simp [openings, h]
  · simp [openings, h]

/-- While the program runs, every descriptor it ever opened is open, the latest in `fd`. -/
def Holds (fd : Int) (past : List Turn) (st : Client) : Prop :=
  st.ended = false →
    openAfter st.log = some (openings past).reverse ∧ st.fd = (openings past).reverse.headD fd

theorem holds_step (fd : Int) (past : List Turn) (st : Client) (turn : Turn)
    (hst : Holds fd past st) : Holds fd (past ++ [turn]) (clientStep st turn) := by
  intro hrunning
  cases hended : st.ended with
  | true =>
    rw [clientStep_ended st turn hended, hended] at hrunning
    exact absurd hrunning (by decide)
  | false =>
    obtain ⟨hopen, hfd⟩ := hst hended
    have hstays := (clientStep_ended_iff st turn hended).not.mp (by simp [hrunning])
    rw [not_or, not_and, not_lt] at hstays
    by_cases hopens : turn.Opens
    · have hret := hstays.2 hopens
      obtain ⟨-, hlast, path, hlog⟩ := clientStep_opened st turn hended hopens hret
      rw [hlog, openAfter_append, hopen, openings_concat, if_pos hopens, List.reverse_concat,
        Option.bind_some, hlast]
      simp [descriptorEffect, acquired, hret, replay]
    · obtain ⟨-, hsame, hlog⟩ := clientStep_other st turn hended hopens hstays.1
      rw [hlog, hsame, openings_concat, if_neg hopens]
      exact ⟨hopen, hfd⟩

section Run

variable (axis : UInt8) (buff value fd : Int) (turns : List Turn)

theorem run_holds :
    Holds fd turns (run clientStep (clientStart axis buff value fd) turns) :=
  run_history (Holds fd) _ (fun _ => ⟨rfl, rfl⟩)
    (fun past st turn h _ => holds_step fd past st turn h) turns (atEach_true _ turns)

theorem exists_last (h : Completes (clientStart axis buff value fd) turns) :
    ∃ past last, turns = past ++ [last] := by
  cases List.eq_nil_or_concat' turns with
  | inl hnil =>
    subst hnil
    exact absurd h.2 (by simp [clientStart])
  | inr hconcat => exact hconcat

/-- Before each of its turns a completing run has everything it opened open. -/
theorem heads_open (h : Completes (clientStart axis buff value fd) turns) (past : List Turn)
    (turn : Turn) (later : List Turn) (hturns : turns = past ++ turn :: later) :
    openAfter (run clientStep (clientStart axis buff value fd) past).log =
        some (openings past).reverse ∧
      (run clientStep (clientStart axis buff value fd) past).fd =
        (openings past).reverse.headD fd :=
  run_holds axis buff value fd past ((atEach_iff_split _ _ _).mp h.1 past turn later hturns)

/-- The program releases what it opened exactly when it makes one attempt to open. -/
theorem useradxl_releases_iff (h : Completes (clientStart axis buff value fd) turns) :
    Releases (clientStart axis buff value fd) turns ↔ (turns.filter Turn.Opens).length = 1 := by
  have hcount : ∀ ts : List Turn, (openings ts).length = (ts.filter Turn.Opens).length := by
    simp [openings]
  obtain ⟨past, last, rfl⟩ := exists_last axis buff value fd turns h
  obtain ⟨hopen, hfd⟩ := heads_open axis buff value fd _ h past last [] rfl
  have hrunning := (atEach_iff_split _ _ _).mp h.1 past last [] rfl
  have hended := h.2
  rw [run_concat] at hended
  have hlast := last_releases_iff _ last fd _ hrunning hopen hfd hended
  rw [List.length_reverse, hcount] at hlast
  have hsplit : ((past ++ [last]).filter Turn.Opens).length =
      (past.filter Turn.Opens).length + (if last.Opens then 1 else 0) := by
    by_cases hopens : last.Opens
    · simp [hopens]
    · simp [hopens]
  rw [Releases, run_concat, hlast, ← hsplit]
  refine and_iff_right_of_imp fun hone => (atEach_iff_split _ _ _).mpr ?_
  intro before turn later hturns
  refine ⟨_, (heads_open axis buff value fd _ h before turn later hturns).1, ?_⟩
  rw [List.length_reverse, hcount, ← hone, hturns, List.filter_append, List.length_append]
  exact Nat.le_add_right _ _

end Run

/-- An iteration with this key, whose `open`, if any, returns `opened`. -/
def press (key : UInt8) (opened : Int) : Turn :=
  { axis := key, opened := opened, value := 0, buff := 0 }

/-- One reading and the exit. -/
theorem useradxl_releases_x_e :
    Releases (clientStart 0 0 0 0) [press keyX 3, press keyE 0] :=
  (useradxl_releases_iff 0 0 0 0 [press keyX 3, press keyE 0]
    ⟨⟨rfl, rfl, trivial⟩, rfl⟩).mpr (by decide)

/-- Two readings and the exit: the first descriptor stays open. -/
theorem useradxl_leaks_x_y_e :
    let turns := [press keyX 3, press keyY 4, press keyE 0]
    Completes (clientStart 0 0 0 0) turns ∧ ¬Releases (clientStart 0 0 0 0) turns := by
  intro turns
  refine ⟨⟨⟨rfl, rfl, rfl, trivial⟩, rfl⟩, fun hreleases => ?_⟩
  exact absurd hreleases.2 (by decide)

end Adxl
