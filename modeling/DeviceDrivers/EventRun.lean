import Mathlib.Tactic

/-!
# Finite runs of an event-driven machine

A machine is a total step function on states and events. Which events a state
admits, and what is expected of a step, are predicates on the state before the
event and the event; `AtEach` demands such a predicate of every step of a run.
The rules below reduce facts about whole runs to facts about one step, up to the
refinement of one machine by another with replies compared event by event.
-/
namespace EventRun

variable {σ τ ε ι ω ρ : Type*}

def run (step : σ → ε → σ) : σ → List ε → σ
  | s, [] => s
  | s, e :: es => run step (step s e) es

/-- What the machine answers to each event, in order. -/
def replies (step : σ → ε → σ) (reply : σ → ε → ω) : σ → List ε → List ω
  | _, [] => []
  | s, e :: es => reply s e :: replies step reply (step s e) es

/-- `P` holds of every event of the run and of the state it is served in. -/
def AtEach (step : σ → ε → σ) (P : σ → ε → Prop) : σ → List ε → Prop
  | _, [] => True
  | s, e :: es => P s e ∧ AtEach step P (step s e) es

variable {step : σ → ε → σ}

@[simp] theorem run_nil (s : σ) : run step s [] = s := rfl
@[simp] theorem run_cons (s : σ) (e : ε) (es : List ε) :
    run step s (e :: es) = run step (step s e) es := rfl
@[simp] theorem replies_nil (reply : σ → ε → ω) (s : σ) : replies step reply s [] = [] := rfl
@[simp] theorem replies_cons (reply : σ → ε → ω) (s : σ) (e : ε) (es : List ε) :
    replies step reply s (e :: es) = reply s e :: replies step reply (step s e) es := rfl
@[simp] theorem atEach_nil (P : σ → ε → Prop) (s : σ) : AtEach step P s [] := trivial
@[simp] theorem atEach_cons (P : σ → ε → Prop) (s : σ) (e : ε) (es : List ε) :
    AtEach step P s (e :: es) ↔ P s e ∧ AtEach step P (step s e) es := Iff.rfl

theorem run_append (s : σ) (xs ys : List ε) :
    run step s (xs ++ ys) = run step (run step s xs) ys := by
  induction xs generalizing s with
  | nil => rfl
  | cons e es ih => exact ih (step s e)

theorem run_concat (s : σ) (es : List ε) (e : ε) :
    run step s (es ++ [e]) = step (run step s es) e := by
  rw [run_append]
  rfl

theorem atEach_append (P : σ → ε → Prop) (s : σ) (xs ys : List ε) :
    AtEach step P s (xs ++ ys) ↔ AtEach step P s xs ∧ AtEach step P (run step s xs) ys := by
  induction xs generalizing s with
  | nil => simp
  | cons e es ih => simp only [List.cons_append, atEach_cons, run_cons, ih, and_assoc]

/-- The stepwise reading: split the run at any event and look at the state before it. -/
theorem atEach_iff_split (P : σ → ε → Prop) (s : σ) (es : List ε) :
    AtEach step P s es ↔ ∀ pre e post, es = pre ++ e :: post → P (run step s pre) e := by
  constructor
  · rintro h pre e post rfl
    exact ((atEach_append P s pre (e :: post)).mp h).2.1
  · induction es generalizing s with
    | nil => exact fun _ => trivial
    | cons e es ih =>
      intro h
      refine ⟨h [] e es rfl, ih (step s e) ?_⟩
      rintro pre f post rfl
      exact h (e :: pre) f post rfl

/-- What every served step keeps, the whole run keeps; `G` collects what the
events of the run are known to satisfy in the states that serve them. -/
theorem run_invariant {G : σ → ε → Prop} (Inv : σ → Prop)
    (hstep : ∀ s e, Inv s → G s e → Inv (step s e)) (s : σ) (es : List ε)
    (hs : Inv s) (hes : AtEach step G s es) : Inv (run step s es) := by
  induction es generalizing s with
  | nil => exact hs
  | cons e es ih => exact ih (step s e) (hstep s e hs hes.1) hes.2

/-- Two stepwise demands that agree in every state agree on runs. -/
theorem atEach_congr {P Q : σ → ε → Prop} (h : ∀ s e, P s e ↔ Q s e) (s : σ) (es : List ε) :
    AtEach step P s es ↔ AtEach step Q s es := by
  induction es generalizing s with
  | nil => exact Iff.rfl
  | cons e es ih => rw [atEach_cons, atEach_cons, h s e, ih (step s e)]

/-- Under an invariant that the first demand itself maintains, agreement in the
states of the invariant is enough. -/
theorem atEach_iff_of_invariant {P Q : σ → ε → Prop} (Inv : σ → Prop)
    (hiff : ∀ s e, Inv s → (P s e ↔ Q s e)) (hkeep : ∀ s e, Inv s → P s e → Inv (step s e))
    (s : σ) (es : List ε) (hs : Inv s) : AtEach step P s es ↔ AtEach step Q s es := by
  induction es generalizing s with
  | nil => exact Iff.rfl
  | cons e es ih =>
    rw [atEach_cons, atEach_cons, ← hiff s e hs]
    exact and_congr_right fun hP => ih (step s e) (hkeep s e hs hP)

/-- What a demand gives in the states of an invariant that it maintains, it gives in a run. -/
theorem atEach_of_invariant {P Q : σ → ε → Prop} (Inv : σ → Prop)
    (h : ∀ s e, Inv s → P s e → Q s e ∧ Inv (step s e)) (s : σ) (es : List ε) (hs : Inv s)
    (hes : AtEach step P s es) : AtEach step Q s es := by
  induction es generalizing s with
  | nil => trivial
  | cons e es ih =>
    obtain ⟨hQ, hnext⟩ := h s e hs hes.1
    exact ⟨hQ, ih (step s e) hnext hes.2⟩

theorem atEach_mem (G : ε → Prop) (s : σ) (es : List ε) :
    AtEach step (fun _ e => G e) s es ↔ ∀ e ∈ es, G e := by
  induction es generalizing s with
  | nil => simp
  | cons e es ih => simp only [atEach_cons, ih, List.forall_mem_cons]

theorem atEach_of_forall {P : σ → ε → Prop} (s : σ) (es : List ε)
    (h : ∀ e ∈ es, ∀ s, P s e) : AtEach step P s es := by
  induction es generalizing s with
  | nil => trivial
  | cons e es ih =>
    exact ⟨h e List.mem_cons_self s, ih (step s e) fun x hx => h x (List.mem_cons_of_mem e hx)⟩

theorem atEach_true (s : σ) (es : List ε) : AtEach step (fun _ _ => True) s es :=
  atEach_of_forall s es fun _ _ _ => trivial

/-- A fact relating the state to the events served so far, carried to the end. -/
theorem run_history {G : σ → ε → Prop} (R : List ε → σ → Prop) (s : σ) (h0 : R [] s)
    (hstep : ∀ past s e, R past s → G s e → R (past ++ [e]) (step s e)) (es : List ε)
    (hes : AtEach step G s es) : R es (run step s es) := by
  induction es using List.reverseRecOn with
  | nil => exact h0
  | append_singleton es e ih =>
    obtain ⟨hinit, hlast, -⟩ := (atEach_append G s es [e]).mp hes
    rw [run_concat]
    exact hstep es _ e (ih hinit) hlast

/-- Two runs of the same events from different states give the same observed
replies exactly when they do so event by event. -/
theorem replies_eq_iff (reply : σ → ε → ω) (observe : ω → ρ) (s t : σ) (es : List ε) :
    (replies step reply s es).map observe = (replies step reply t es).map observe ↔
      ∀ pre e post, es = pre ++ e :: post →
        observe (reply (run step s pre) e) = observe (reply (run step t pre) e) := by
  constructor
  · intro h pre e post hes
    induction pre generalizing s t es with
    | nil =>
      subst hes
      simp only [List.nil_append, replies_cons, List.map_cons, List.cons.injEq] at h
      exact h.1
    | cons f pre ih =>
      subst hes
      simp only [List.cons_append, replies_cons, List.map_cons, List.cons.injEq] at h
      exact ih (step s f) (step t f) (pre ++ e :: post) h.2 rfl
  · induction es generalizing s t with
    | nil => exact fun _ => rfl
    | cons e es ih =>
      intro h
      have htail := ih (step s e) (step t e) fun pre f post hes =>
        h (e :: pre) f post (congrArg (e :: ·) hes)
      have hhead := h [] e es rfl
      simp only [run_nil] at hhead
      simp only [replies_cons, List.map_cons, hhead, htail]

section Refinement

variable {step' : τ → ι → τ}

/-- A concrete run refines an abstract one: seen through `abs` the states agree
after every prefix, and seen through `observe` the replies agree. -/
structure Refines (step : σ → ε → σ) (reply : σ → ε → ω) (step' : τ → ι → τ)
    (reply' : τ → ι → ρ) (abs : σ → τ) (op : ε → ι) (observe : ω → ρ) (s : σ)
    (es : List ε) : Prop where
  states : ∀ pre, pre <+: es → abs (run step s pre) = run step' (abs s) (pre.map op)
  replies : (replies step reply s es).map observe = replies step' reply' (abs s) (es.map op)

/-- The same demand on one step, from the state it starts in. -/
def StepRefines (step : σ → ε → σ) (reply : σ → ε → ω) (step' : τ → ι → τ)
    (reply' : τ → ι → ρ) (abs : σ → τ) (op : ε → ι) (observe : ω → ρ) (s : σ) (e : ε) : Prop :=
  abs (step s e) = step' (abs s) (op e) ∧ observe (reply s e) = reply' (abs s) (op e)

variable {reply : σ → ε → ω} {reply' : τ → ι → ρ} {abs : σ → τ} {op : ε → ι} {observe : ω → ρ}

theorem refines_cons (s : σ) (e : ε) (es : List ε) :
    Refines step reply step' reply' abs op observe s (e :: es) ↔
      StepRefines step reply step' reply' abs op observe s e ∧
      Refines step reply step' reply' abs op observe (step s e) es := by
  constructor
  · intro h
    have hstate : abs (step s e) = step' (abs s) (op e) :=
      h.states [e] ((List.prefix_append [e] es))
    have hreplies := h.replies
    simp only [replies_cons, List.map_cons, List.cons.injEq] at hreplies
    refine ⟨⟨hstate, hreplies.1⟩, ?_, ?_⟩
    · intro pre hpre
      have hcons := h.states (e :: pre) ((List.prefix_cons_inj e).mpr hpre)
      simpa only [run_cons, List.map_cons, hstate] using hcons
    · simpa only [hstate] using hreplies.2
  · rintro ⟨⟨hstate, hreply⟩, h⟩
    constructor
    · intro pre hpre
      cases pre with
      | nil => rfl
      | cons f pre =>
        obtain ⟨rfl, htail⟩ := List.cons_prefix_cons.mp hpre
        simpa only [run_cons, List.map_cons, hstate] using h.states pre htail
    · have hreplies := h.replies
      rw [hstate] at hreplies
      simp only [replies_cons, List.map_cons, hreply, hreplies]

/-- A run refines exactly when each of its steps does. -/
theorem refines_iff_atEach (s : σ) (es : List ε) :
    Refines step reply step' reply' abs op observe s es ↔
      AtEach step (StepRefines step reply step' reply' abs op observe) s es := by
  induction es generalizing s with
  | nil =>
    refine ⟨fun _ => trivial, fun _ => ⟨?_, rfl⟩⟩
    intro pre hpre
    rw [List.prefix_nil.mp hpre]
    rfl
  | cons e es ih => rw [refines_cons, atEach_cons, ih]

end Refinement

/-- A step that never changes an observation leaves it unchanged over a run. -/
theorem run_frame {β : Type*} (observe : σ → β) (G : ε → Prop)
    (hstep : ∀ s e, G e → observe (step s e) = observe s) (s : σ) (es : List ε)
    (hes : ∀ e ∈ es, G e) : observe (run step s es) = observe s := by
  induction es generalizing s with
  | nil => rfl
  | cons e es ih =>
    rw [run_cons, ih (step s e) fun x hx => hes x (List.mem_cons_of_mem e hx)]
    exact hstep s e (hes e List.mem_cons_self)

end EventRun
