import Mathlib.Logic.Function.Basic
import DeviceDrivers.EventRun

/-!
# Programs that call a server

A program is the tree of its calls: what it asks next may depend on every answer
so far. `exec` runs one program against a server and `trace` lists what was asked
and answered. `interpret` replaces each call by a program of calls to a lower
server, `rename` by a call of a larger interface, and a `Pool` lets any number of
clients share one server, one call at a time in any order.
-/
namespace Interaction

open EventRun

variable {Q R Q' R' α β σ τ κ ε ε' : Type}

inductive Program (Q R α : Type) where
  | done (a : α) : Program Q R α
  | call (q : Q) (next : R → Program Q R α) : Program Q R α

namespace Program

def bind : Program Q R α → (α → Program Q R β) → Program Q R β
  | done a, f => f a
  | call q next, f => call q fun r => (next r).bind f

/-- Each call of the program becomes a program for a server below. -/
def interpret (handler : Q → Program Q' R' R) : Program Q R α → Program Q' R' α
  | done a => done a
  | call q next => (handler q).bind fun r => (next r).interpret handler

/-- Each call becomes a call of another interface. -/
def rename (f : Q → Q') : Program Q R α → Program Q' R α
  | done a => done a
  | call q next => call (f q) fun r => (next r).rename f

/-- The calls in order, their answers dropped, and then the program. -/
def after (calls : List Q) (p : Program Q R α) : Program Q R α :=
  calls.foldr (fun q rest => call q fun _ => rest) p

/-- `P` holds of every call, whatever the earlier calls were answered. -/
def AllCalls (P : Q → Prop) : Program Q R α → Prop
  | done _ => True
  | call q next => P q ∧ ∀ r, (next r).AllCalls P

end Program

open Program

/-- The server's state after the program, and the program's result. -/
def exec (serve : σ → Q → σ × R) : Program Q R α → σ → σ × α
  | done a, s => (s, a)
  | call q next, s => exec serve (next (serve s q).2) (serve s q).1

/-- Every call of the program with its answer, in order. -/
def trace (serve : σ → Q → σ × R) : Program Q R α → σ → List (Q × R)
  | done _, _ => []
  | call q next, s =>
    (q, (serve s q).2) :: trace serve (next (serve s q).2) (serve s q).1

@[simp] theorem interpret_call (handler : Q → Program Q' R' R) (q : Q)
    (next : R → Program Q R α) :
    (call q next).interpret handler = (handler q).bind fun r => (next r).interpret handler := rfl
@[simp] theorem allCalls_done (P : Q → Prop) (a : α) :
    (done a : Program Q R α).AllCalls P := trivial
@[simp] theorem allCalls_call (P : Q → Prop) (q : Q) (next : R → Program Q R α) :
    (call q next).AllCalls P ↔ P q ∧ ∀ r, (next r).AllCalls P := Iff.rfl
@[simp] theorem exec_done (serve : σ → Q → σ × R) (a : α) (s : σ) :
    exec serve (done a) s = (s, a) := rfl
@[simp] theorem exec_call (serve : σ → Q → σ × R) (q : Q) (next : R → Program Q R α) (s : σ) :
    exec serve (call q next) s = exec serve (next (serve s q).2) (serve s q).1 := rfl

@[simp] theorem trace_done (serve : σ → Q → σ × R) (a : α) (s : σ) :
    trace serve (done a) s = [] := rfl
@[simp] theorem trace_call (serve : σ → Q → σ × R) (q : Q) (next : R → Program Q R α) (s : σ) :
    trace serve (call q next) s =
      (q, (serve s q).2) :: trace serve (next (serve s q).2) (serve s q).1 := rfl

theorem exec_after (serve : σ → Q → σ × R) (calls : List Q) (p : Program Q R α) (s : σ) :
    exec serve (p.after calls) s = exec serve p (run (fun s q => (serve s q).1) s calls) := by
  induction calls generalizing s with
  | nil => rfl
  | cons q calls ih => exact ih (serve s q).1

theorem exec_bind (serve : σ → Q → σ × R) (p : Program Q R α) (f : α → Program Q R β) (s : σ) :
    exec serve (p.bind f) s = exec serve (f (exec serve p s).2) (exec serve p s).1 := by
  induction p generalizing s with
  | done a => rfl
  | call q next ih => exact ih (serve s q).2 (serve s q).1

theorem trace_bind (serve : σ → Q → σ × R) (p : Program Q R α) (f : α → Program Q R β) (s : σ) :
    trace serve (p.bind f) s =
      trace serve p s ++ trace serve (f (exec serve p s).2) (exec serve p s).1 := by
  induction p generalizing s with
  | done a => rfl
  | call q next ih => exact congrArg (_ :: ·) (ih (serve s q).2 (serve s q).1)

/-- Interpreting the calls and then running is running against the interpreted server. -/
theorem exec_interpret (serve : σ → Q' → σ × R') (handler : Q → Program Q' R' R)
    (p : Program Q R α) (s : σ) :
    exec serve (p.interpret handler) s = exec (fun s q => exec serve (handler q) s) p s := by
  induction p generalizing s with
  | done a => rfl
  | call q next ih =>
    rw [interpret_call, exec_bind, exec_call]
    exact ih _ _

theorem exec_rename (serve : σ → Q' → σ × R) (f : Q → Q') (p : Program Q R α) (s : σ) :
    exec serve (p.rename f) s = exec (fun s q => serve s (f q)) p s := by
  induction p generalizing s with
  | done a => rfl
  | call q next ih => exact ih (serve s (f q)).2 (serve s (f q)).1

theorem trace_rename (serve : σ → Q' → σ × R) (f : Q → Q') (p : Program Q R α) (s : σ) :
    trace serve (p.rename f) s =
      (trace (fun s q => serve s (f q)) p s).map fun e => (f e.1, e.2) := by
  induction p generalizing s with
  | done a => rfl
  | call q next ih => exact congrArg (_ :: ·) (ih (serve s (f q)).2 (serve s (f q)).1)

section Pool

variable [DecidableEq κ]

/-- A server and the clients that share it, each at its own point. -/
structure Pool (σ κ Q R α : Type) where
  server : σ
  clients : κ → Program Q R α

/-- Client `who` makes its next call; `e` is what the environment adds to it. -/
def Pool.step (serve : ε → σ → Q → σ × R) (pool : Pool σ κ Q R α) (turn : κ × ε) :
    Pool σ κ Q R α :=
  match pool.clients turn.1 with
  | done _ => pool
  | call q next =>
    { server := (serve turn.2 pool.server q).1
      clients := Function.update pool.clients turn.1 (next (serve turn.2 pool.server q).2) }

theorem Pool.step_done (serve : ε → σ → Q → σ × R) (pool : Pool σ κ Q R α) (who : κ) (e : ε)
    (a : α) (h : pool.clients who = done a) : pool.step serve (who, e) = pool := by
  simp only [Pool.step, h]

theorem Pool.step_call (serve : ε → σ → Q → σ × R) (pool : Pool σ κ Q R α) (who : κ) (e : ε)
    (q : Q) (next : R → Program Q R α) (h : pool.clients who = call q next) :
    pool.step serve (who, e) =
      { server := (serve e pool.server q).1
        clients := Function.update pool.clients who (next (serve e pool.server q).2) } := by
  simp only [Pool.step, h]

/-- An invariant of the server is an invariant of every interleaving of its clients. -/
theorem Pool.run_server_invariant (serve : ε → σ → Q → σ × R) (Inv : σ → Prop)
    (hserve : ∀ e s q, Inv s → Inv (serve e s q).1) (pool : Pool σ κ Q R α)
    (schedule : List (κ × ε)) (hpool : Inv pool.server) :
    Inv (run (Pool.step serve) pool schedule).server := by
  induction schedule generalizing pool with
  | nil => exact hpool
  | cons turn schedule ih =>
    obtain ⟨who, e⟩ := turn
    apply ih
    cases hnext : pool.clients who with
    | done a => rw [pool.step_done serve who e a hnext]; exact hpool
    | call q next => rw [pool.step_call serve who e q next hnext]; exact hserve e _ q hpool

/-- The environment serves the client's call as `Good` demands, if it makes one. -/
def Pool.Admits (Good : ε → σ → Q → Prop) (pool : Pool σ κ Q R α) (turn : κ × ε) : Prop :=
  ∀ q next, pool.clients turn.1 = call q next → Good turn.2 pool.server q

/-- The same clients at the same points, over related servers. -/
structure Pool.Related (Rel : σ → τ → Prop) (low : Pool σ κ Q R α) (high : Pool τ κ Q R α) :
    Prop where
  clients : low.clients = high.clients
  server : Rel low.server high.server

section Simulation

variable (serve : ε → σ → Q → σ × R) (serve' : ε' → τ → Q → τ × R) (abs : ε → ε')
variable (Rel : σ → τ → Prop) (Good : ε → σ → Q → Prop)

/-- Both servers answer alike, and stay related. -/
def Simulates : Prop :=
  ∀ e s t q, Rel s t → Good e s q →
    (serve e s q).2 = (serve' (abs e) t q).2 ∧ Rel (serve e s q).1 (serve' (abs e) t q).1

variable {serve serve' abs Rel Good}

theorem Pool.Related.step {low : Pool σ κ Q R α} {high : Pool τ κ Q R α}
    (hserve : Simulates serve serve' abs Rel Good) (h : low.Related Rel high) (turn : κ × ε)
    (hturn : low.Admits Good turn) :
    (low.step serve turn).Related Rel (high.step serve' (turn.1, abs turn.2)) := by
  obtain ⟨who, e⟩ := turn
  obtain ⟨server, clients⟩ := low
  obtain ⟨server', clients'⟩ := high
  obtain ⟨rfl, hserver⟩ := h
  cases hnext : clients who with
  | done a =>
    rw [Pool.step_done serve _ who e a hnext, Pool.step_done serve' _ who (abs e) a hnext]
    exact ⟨rfl, hserver⟩
  | call q next =>
    obtain ⟨hanswer, hrel⟩ := hserve e server server' q hserver (hturn q next hnext)
    rw [Pool.step_call serve _ who e q next hnext, Pool.step_call serve' _ who (abs e) q next hnext]
    exact ⟨by rw [hanswer], hrel⟩

/-- No clients, in any interleaving, can tell such servers apart. -/
theorem Pool.Related.run {low : Pool σ κ Q R α} {high : Pool τ κ Q R α}
    (hserve : Simulates serve serve' abs Rel Good) (h : low.Related Rel high)
    (turns : List (κ × ε)) (hturns : AtEach (Pool.step serve) (Pool.Admits Good) low turns) :
    (run (Pool.step serve) low turns).Related Rel
      (run (Pool.step serve') high (turns.map fun turn => (turn.1, abs turn.2))) := by
  induction turns generalizing low high with
  | nil => exact h
  | cons turn turns ih => exact ih (h.step hserve turn hturns.1) hturns.2

end Simulation

end Pool

end Interaction
