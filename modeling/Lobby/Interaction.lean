/-
# Programs that call an environment

A program issues calls and continues with the replies; what a call does is left to the
environment.  One program can be run against a deterministic environment (`eval`), have
its calls answered by other programs (`interp`), or be proved against a contract (`wp`):
what others may do between two calls, what the program must ensure before a call, and
what a call may then do.  A `Machine` runs one program per thread over a shared world,
one call at a time in any order; `Machine.reachable_safe` reduces an invariant of all
its runs to the contracts of the threads.
-/
import Mathlib

namespace Interaction

universe u v w

/-- A program over the calls `C`, where the call `c` is answered by an `R c`. -/
inductive Prog (C : Type u) (R : C → Type v) (α : Type w) : Type (max u v w) where
  | ret (value : α)
  | call (c : C) (next : R c → Prog C R α)

namespace Prog

variable {C : Type u} {R : C → Type v} {α β γ : Type w}

/-- Issue one call and return its reply. -/
def perform {R : C → Type w} (c : C) : Prog C R (R c) := .call c .ret

/-- Run one program and continue with its result. -/
protected def bind : Prog C R α → (α → Prog C R β) → Prog C R β
  | ret a, f => f a
  | call c next, f => .call c fun r => (next r).bind f

instance : Monad (Prog C R) where
  pure := Prog.ret
  bind := Prog.bind

@[simp] theorem pure_eq (a : α) : (pure a : Prog C R α) = ret a := rfl

@[simp] theorem ret_bind (a : α) (f : α → Prog C R β) : (ret a >>= f) = f a := rfl

@[simp] theorem call_bind (c : C) (next : R c → Prog C R α) (f : α → Prog C R β) :
    (call c next >>= f) = call c fun r => next r >>= f := rfl

@[simp] theorem perform_bind {R : C → Type w} (c : C) (f : R c → Prog C R β) :
    (perform c >>= f) = call c f := rfl

theorem bind_ret (p : Prog C R α) : p >>= ret = p := by
  induction p with
  | ret a => rfl
  | call c next ih =>
      rw [call_bind]
      exact congrArg (call c) (funext ih)

theorem bind_bind (p : Prog C R α) (f : α → Prog C R β) (g : β → Prog C R γ) :
    (p >>= f) >>= g = p >>= fun a => f a >>= g := by
  induction p with
  | ret a => rfl
  | call c next ih =>
      rw [call_bind, call_bind, call_bind]
      exact congrArg (call c) (funext ih)

instance : LawfulMonad (Prog C R) :=
  LawfulMonad.mk' _ bind_ret (fun _ _ => rfl) bind_bind

/-! ## Running against a deterministic environment -/

/-- The result of a program whose calls act on a state. -/
def eval {σ : Type*} (act : (c : C) → σ → R c × σ) : Prog C R α → σ → α × σ
  | ret a, s => (a, s)
  | call c next, s => (next (act c s).1).eval act (act c s).2

section eval

variable {σ : Type*} (act : (c : C) → σ → R c × σ)

@[simp] theorem eval_ret (a : α) (s : σ) : (ret a : Prog C R α).eval act s = (a, s) := rfl

@[simp] theorem eval_call (c : C) (next : R c → Prog C R α) (s : σ) :
    (call c next).eval act s = (next (act c s).1).eval act (act c s).2 := rfl

@[simp] theorem eval_bind (p : Prog C R α) (f : α → Prog C R β) (s : σ) :
    (p >>= f).eval act s = (f (p.eval act s).1).eval act (p.eval act s).2 := by
  induction p generalizing s with
  | ret a => rfl
  | call c next ih => rw [call_bind, eval_call, eval_call, ih]

end eval

/-! ## Answering calls by programs -/

variable {C' : Type u} {R' : C' → Type v}

/-- Replace every call of a program by the program that answers it. -/
def interp {R : C → Type w} (handle : (c : C) → Prog C' R' (R c)) :
    Prog C R α → Prog C' R' α
  | ret a => .ret a
  | call c next => handle c >>= fun r => (next r).interp handle

section interp

variable {R : C → Type w} (handle : (c : C) → Prog C' R' (R c))

@[simp] theorem interp_ret (a : α) : (ret a : Prog C R α).interp handle = ret a := rfl

@[simp] theorem interp_call (c : C) (next : R c → Prog C R α) :
    (call c next).interp handle = handle c >>= fun r => (next r).interp handle := rfl

theorem interp_bind (p : Prog C R α) (f : α → Prog C R β) :
    (p >>= f).interp handle = p.interp handle >>= fun a => (f a).interp handle := by
  induction p with
  | ret a => rfl
  | call c next ih =>
      rw [call_bind, interp_call, interp_call, bind_bind]
      exact congrArg (handle c >>= ·) (funext ih)

end interp

/-- Every result a program can return, whatever its calls are answered, satisfies `Q`. -/
def Returns (Q : α → Prop) : Prog C R α → Prop
  | ret a => Q a
  | call _ next => ∀ r, (next r).Returns Q

/-- Every call a program can make, whatever its calls are answered, satisfies `P`. -/
def Asks (P : C → Prop) : Prog C R α → Prop
  | ret _ => True
  | call c next => P c ∧ ∀ r, (next r).Asks P

theorem asks_perform {R : C → Type w} {P : C → Prop} {c : C} (h : P c) :
    (perform c : Prog C R (R c)).Asks P :=
  ⟨h, fun _ => trivial⟩

theorem Asks.bind {P : C → Prop} {p : Prog C R α} {f : α → Prog C R β} (h : p.Asks P)
    (hf : ∀ a, (f a).Asks P) : (p >>= f).Asks P := by
  induction p with
  | ret a => exact hf a
  | call c next ih => exact ⟨h.1, fun r => ih r (h.2 r)⟩

theorem asks_true (p : Prog C R α) : p.Asks fun _ => True := by
  induction p with
  | ret a => exact trivial
  | call c next ih => exact ⟨trivial, ih⟩

theorem returns_true (p : Prog C R α) : p.Returns fun _ => True := by
  induction p with
  | ret a => exact trivial
  | call c next ih => exact ih

/-! ## The calls of a run -/

/-- A partial run: what is left of a program after some calls, the latest first, whatever
they were answered. -/
inductive Leads (p : Prog C R α) : List C → Prog C R α → Prop where
  | refl : Leads p [] p
  | next {c next calls} (h : Leads p calls (call c next)) (r : R c) :
      Leads p (c :: calls) (next r)

/-- No run makes more calls than a number. -/
def Within : Prog C R α → ℕ → Prop
  | ret _, _ => True
  | call _ _, 0 => False
  | call _ next, n + 1 => ∀ r, (next r).Within n

section within

variable {p : Prog C R α} {m n : ℕ}

theorem Within.mono (h : p.Within m) (hle : m ≤ n) : p.Within n := by
  induction p generalizing m n with
  | ret a => trivial
  | call c next ih =>
      cases m with
      | zero => exact h.elim
      | succ m =>
          obtain ⟨n, rfl⟩ : ∃ k, n = k + 1 := ⟨n - 1, by omega⟩
          exact fun r => ih r (h r) (by omega)

theorem within_ret (a : α) : (ret a : Prog C R α).Within n := trivial

theorem within_perform {R : C → Type w} (c : C) : (perform c : Prog C R (R c)).Within 1 :=
  fun r => within_ret r

/-- Two programs in sequence make no more calls than both. -/
theorem Within.bind {f : α → Prog C R β} (h : p.Within m) (hf : ∀ a, (f a).Within n) :
    (p >>= f).Within (m + n) := by
  induction p generalizing m with
  | ret a => exact (hf a).mono (Nat.le_add_left n m)
  | call c next ih =>
      cases m with
      | zero => exact h.elim
      | succ m =>
          have hnext : (call c fun r => next r >>= f).Within (m + n + 1) := fun r => ih r (h r)
          exact hnext.mono (by omega)

/-- The calls of a partial run count. -/
theorem Within.leads {calls : List C} {p' : Prog C R α} (h : p.Within n)
    (hleads : p.Leads calls p') : calls.length ≤ n ∧ p'.Within (n - calls.length) := by
  induction hleads with
  | refl => exact ⟨Nat.zero_le n, h⟩
  | @next c next calls _ r ih =>
      obtain ⟨hle, hcall⟩ := ih
      obtain ⟨k, hk⟩ : ∃ k, n - calls.length = k + 1 := by
        refine ⟨n - calls.length - 1, ?_⟩
        cases hn : n - calls.length with
        | zero => rw [hn] at hcall; exact hcall.elim
        | succ k => rfl
      rw [hk] at hcall
      rw [List.length_cons, show n - (calls.length + 1) = k by omega]
      exact ⟨by omega, hcall r⟩

end within

/-- No run makes more calls than a number, and every call has the property. -/
def Bounded (P : C → Prop) : Prog C R α → ℕ → Prop
  | ret _, _ => True
  | call _ _, 0 => False
  | call c next, n + 1 => P c ∧ ∀ r, (next r).Bounded P n

section bounded

variable {P : C → Prop} {p : Prog C R α} {m n : ℕ}

theorem bounded_ret (a : α) : (ret a : Prog C R α).Bounded P n := trivial

theorem bounded_perform {R : C → Type w} {c : C} (h : P c) :
    (perform c : Prog C R (R c)).Bounded P 1 :=
  ⟨h, fun r => bounded_ret r⟩

theorem Bounded.exists_succ {c : C} {next : R c → Prog C R α} (h : (call c next).Bounded P n) :
    ∃ k, n = k + 1 ∧ P c ∧ ∀ r, (next r).Bounded P k := by
  cases n with
  | zero => exact h.elim
  | succ k => exact ⟨k, rfl, h⟩

theorem Bounded.mono (h : p.Bounded P m) (hle : m ≤ n) : p.Bounded P n := by
  induction p generalizing m n with
  | ret a => trivial
  | call c next ih =>
      obtain ⟨m, rfl, hc, hnext⟩ := h.exists_succ
      obtain ⟨n, rfl⟩ : ∃ k, n = k + 1 := ⟨n - 1, by omega⟩
      exact ⟨hc, fun r => ih r (hnext r) (by omega)⟩

theorem Bounded.bind {f : α → Prog C R β} (h : p.Bounded P m) (hf : ∀ a, (f a).Bounded P n) :
    (p >>= f).Bounded P (m + n) := by
  induction p generalizing m with
  | ret a => exact (hf a).mono (Nat.le_add_left n m)
  | call c next ih =>
      obtain ⟨m, rfl, hc, hnext⟩ := h.exists_succ
      rw [Nat.succ_add]
      exact ⟨hc, fun r => ih r (hnext r)⟩

/-- A program whose calls are answered by bounded programs. -/
theorem Bounded.interp {R : C → Type w} {p : Prog C R α} {handle : (c : C) → Prog C' R' (R c)}
    {P' : C' → Prop} {k : ℕ} (h : p.Bounded P n)
    (hhandle : ∀ c, P c → (handle c).Bounded P' k) : (p.interp handle).Bounded P' (n * k) := by
  induction p generalizing n with
  | ret a => exact bounded_ret a
  | call c next ih =>
      obtain ⟨n, rfl, hc, hnext⟩ := h.exists_succ
      rw [Nat.succ_mul, Nat.add_comm]
      exact (hhandle c hc).bind fun r => ih r (hnext r)

theorem Bounded.asks (h : p.Bounded P n) : p.Asks P := by
  induction p generalizing n with
  | ret a => exact trivial
  | call c next ih =>
      obtain ⟨n, rfl, hc, hnext⟩ := h.exists_succ
      exact ⟨hc, fun r => ih r (hnext r)⟩

theorem Bounded.within (h : p.Bounded P n) : p.Within n := by
  induction p generalizing n with
  | ret a => exact within_ret a
  | call c next ih =>
      obtain ⟨n, rfl, hc, hnext⟩ := h.exists_succ
      exact fun r => ih r (hnext r)

end bounded

/-! ## Running against a nondeterministic environment -/

/-- A complete run of a program from one world to another, with its result; the relation
says what a call may be answered and do. -/
inductive Runs {W : Type*} (step : (c : C) → W → R c → W → Prop) :
    Prog C R α → W → α → W → Prop where
  | ret (a w) : Runs step (ret a) w a w
  | call {c next w r w' a w''} (hstep : step c w r w') (hnext : Runs step (next r) w' a w'') :
      Runs step (call c next) w a w''

section runs

variable {W : Type*} {step : (c : C) → W → R c → W → Prop} {w w' : W}

@[simp] theorem runs_ret_iff {a b : α} :
    (ret a : Prog C R α).Runs step w b w' ↔ b = a ∧ w' = w := by
  constructor
  · intro h
    cases h
    exact ⟨rfl, rfl⟩
  · rintro ⟨rfl, rfl⟩
    exact .ret _ _

@[simp] theorem runs_call_iff {c : C} {next : R c → Prog C R α} {a : α} :
    (call c next).Runs step w a w' ↔ ∃ r w₁, step c w r w₁ ∧ (next r).Runs step w₁ a w' := by
  constructor
  · intro h
    cases h with
    | call hstep hnext => exact ⟨_, _, hstep, hnext⟩
  · rintro ⟨r, w₁, hstep, hnext⟩
    exact .call hstep hnext

/-- What every call of a program keeps is kept by its runs. -/
theorem Runs.keeps {P : C → Prop} {I : W → Prop} {p : Prog C R α} {a : α}
    (h : p.Runs step w a w') (hp : p.Asks P)
    (hstep : ∀ {c w r w'}, P c → step c w r w' → I w → I w') (hw : I w) : I w' := by
  induction h with
  | ret a w => exact hw
  | call hcall _ ih => exact ih (hp.2 _) (hstep hp.1 hcall hw)

/-- A run against a deterministic environment is one of the runs. -/
theorem runs_eval {act : (c : C) → W → R c × W}
    (hact : ∀ c w, step c w (act c w).1 (act c w).2) (p : Prog C R α) (w : W) :
    p.Runs step w (p.eval act w).1 (p.eval act w).2 := by
  induction p generalizing w with
  | ret a => exact .ret a w
  | call c next ih => exact .call (hact c w) (ih _ _)

end runs

end Prog

open Prog

/-! ## Contracts -/

/-- What a program and its environment promise each other over the world `W`. -/
structure Contract (C : Type u) (R : C → Type v) (W : Type*) where
  /-- what others may do between two calls -/
  rely : W → W → Prop
  rely_refl : ∀ w, rely w w
  rely_trans : ∀ {w w' w''}, rely w w' → rely w' w'' → rely w w''
  /-- what the program ensures before a call -/
  requires : C → W → Prop
  /-- what a call may answer and do -/
  step : (c : C) → W → R c → W → Prop

variable {C : Type u} {R : C → Type v} {W : Type*} {α β : Type w}

/-- From the world `w` the program keeps the contract and ends in `Q`, whatever the
environment does within the contract. -/
def wp (E : Contract C R W) : Prog C R α → (α → W → Prop) → W → Prop
  | ret a, Q, w => ∀ w', E.rely w w' → Q a w'
  | call c next, Q, w => ∀ w', E.rely w w' →
      E.requires c w' ∧ ∀ r w'', E.step c w' r w'' → wp E (next r) Q w''

section wp

variable {E : Contract C R W} {Q Q' : α → W → Prop} {w w' : W}

theorem wp_ret {a : α} (h : ∀ w', E.rely w w' → Q a w') : wp E (ret a) Q w := h

theorem wp_call {c : C} {next : R c → Prog C R α}
    (h : ∀ w', E.rely w w' →
      E.requires c w' ∧ ∀ r w'', E.step c w' r w'' → wp E (next r) Q w'') :
    wp E (call c next) Q w := h

/-- What is ensured now is ensured after any interference. -/
theorem wp_rely {p : Prog C R α} (h : wp E p Q w) (hrely : E.rely w w') : wp E p Q w' := by
  cases p with
  | ret a =>
      intro w₁ hw₁
      exact h w₁ (E.rely_trans hrely hw₁)
  | call c next =>
      intro w₁ hw₁
      exact h w₁ (E.rely_trans hrely hw₁)

theorem wp_mono {p : Prog C R α} (h : wp E p Q w) (hQ : ∀ a w, Q a w → Q' a w) :
    wp E p Q' w := by
  induction p generalizing w with
  | ret a =>
      intro w₁ hw₁
      exact hQ a w₁ (h w₁ hw₁)
  | call c next ih =>
      intro w₁ hw₁
      obtain ⟨hreq, hnext⟩ := h w₁ hw₁
      exact ⟨hreq, fun r w₂ hstep => ih r (hnext r w₂ hstep)⟩

theorem wp_bind {p : Prog C R α} {f : α → Prog C R β} {Q : β → W → Prop}
    (h : wp E p (fun a w' => wp E (f a) Q w') w) : wp E (p >>= f) Q w := by
  induction p generalizing w with
  | ret a => exact h w (E.rely_refl w)
  | call c next ih =>
      intro w₁ hw₁
      obtain ⟨hreq, hnext⟩ := h w₁ hw₁
      exact ⟨hreq, fun r w₂ hstep => ih r (hnext r w₂ hstep)⟩

/-- A program is sequenced through an assertion that interference keeps. -/
theorem wp_seq {p : Prog C R α} {f : α → Prog C R β} {Q : α → W → Prop}
    {Q' : β → W → Prop} (hp : wp E p Q w) (hf : ∀ a w', Q a w' → wp E (f a) Q' w') :
    wp E (p >>= f) Q' w :=
  wp_bind (wp_mono hp hf)

/-- What was proved of a program holds at the end of its runs. -/
theorem Prog.Runs.post {p : Prog C R α} {Q : α → W → Prop} {w w' : W} {a : α}
    (h : p.Runs E.step w a w') (hwp : wp E p Q w) : Q a w' := by
  induction h with
  | ret a w => exact hwp w (E.rely_refl w)
  | @call c next w r w₁ a w₂ hstep hnext ih =>
      exact ih ((hwp w (E.rely_refl w)).2 r w₁ hstep)

end wp

/-- A contract about a part of the world. -/
def Contract.comap {V : Type*} (view : W → V) (E : Contract C R V) : Contract C R W where
  rely w w' := E.rely (view w) (view w')
  rely_refl w := E.rely_refl (view w)
  rely_trans := E.rely_trans
  requires c w := E.requires c (view w)
  step c w r w' := E.step c (view w) r (view w')

/-- What is proved of the part holds of the world. -/
theorem wp_comap {V : Type*} {view : W → V} {E : Contract C R V} {p : Prog C R α}
    {Q : α → V → Prop} {w : W} (h : wp E p Q (view w)) :
    wp (E.comap view) p (fun a w' => Q a (view w')) w := by
  induction p generalizing w with
  | ret a => exact fun w' hrely => h (view w') hrely
  | call c next ih =>
      intro w₁ hrely
      obtain ⟨hreq, hnext⟩ := h (view w₁) hrely
      exact ⟨hreq, fun r w₂ hstep => ih r (hnext r (view w₂) hstep)⟩

/-- The contract whose world is the list of the calls made, the latest first. -/
def Contract.recording (requires : C → List C → Prop) : Contract C R (List C) where
  rely calls calls' := calls = calls'
  rely_refl _ := rfl
  rely_trans := Eq.trans
  requires := requires
  step c calls _ calls' := calls' = c :: calls

/-- What was proved of a program, with its calls recorded, holds along its partial runs. -/
theorem Prog.Leads.wp {requires : C → List C → Prop} {p p' : Prog C R α} {calls : List C}
    {Q : α → List C → Prop} (h : p.Leads calls p')
    (hwp : wp (Contract.recording requires) p Q []) :
    wp (Contract.recording requires) p' Q calls := by
  induction h with
  | refl => exact hwp
  | next _ r ih => exact (ih _ rfl).2 r _ rfl

/-- If the program that answers each call keeps the contract of that call, answering the
calls of a program keeps what was proved of the program. -/
theorem wp_interp {C' : Type u} {R' : C' → Type v} {R : C → Type w}
    {E : Contract C R W} {E' : Contract C' R' W}
    {handle : (c : C) → Prog C' R' (R c)}
    (hhandle : ∀ c w, E.requires c w → wp E' (handle c) (fun r w' => E.step c w r w') w)
    {p : Prog C R α} {Q : α → W → Prop} {w : W} (h : wp E p Q w)
    (hret : ∀ w w', E'.rely w w' → E.rely w w') :
    wp E' (p.interp handle) Q w := by
  induction p generalizing w with
  | ret a =>
      intro w' hw'
      exact h w' (hret w w' hw')
  | call c next ih =>
      obtain ⟨hreq, hnext⟩ := h w (E.rely_refl w)
      refine wp_seq (hhandle c w hreq) fun r w' hstep => ?_
      exact ih r (hnext r w' hstep)

theorem wp_forall {κ : Type*} [Nonempty κ] {E : Contract C R W} {p : Prog C R α}
    {Q : κ → α → W → Prop} {w : W} (h : ∀ i, wp E p (Q i) w) :
    wp E p (fun a w' => ∀ i, Q i a w') w := by
  induction p generalizing w with
  | ret a =>
      intro w' hrely i
      exact h i w' hrely
  | call c next ih =>
      intro w' hrely
      refine ⟨(h (Classical.arbitrary κ) w' hrely).1, fun r w'' hstep => ?_⟩
      exact ih r fun i => (h i w' hrely).2 r w'' hstep

theorem wp_and {E : Contract C R W} {p : Prog C R α} {Q Q' : α → W → Prop} {w : W}
    (h : wp E p Q w) (h' : wp E p Q' w) : wp E p (fun a w' => Q a w' ∧ Q' a w') w := by
  induction p generalizing w with
  | ret a =>
      intro w' hrely
      exact ⟨h w' hrely, h' w' hrely⟩
  | call c next ih =>
      intro w' hrely
      obtain ⟨hreq, hnext⟩ := h w' hrely
      exact ⟨hreq, fun r w'' hstep => ih r (hnext r w'' hstep) ((h' w' hrely).2 r w'' hstep)⟩

/-- What was proved of two programs in sequence was proved of the first and, from where it
ends, of the second. -/
theorem wp_of_bind {E : Contract C R W} {p : Prog C R α} {f : α → Prog C R β}
    {Q : β → W → Prop} {w : W} (h : wp E (p >>= f) Q w) :
    wp E p (fun a w' => wp E (f a) Q w') w := by
  induction p generalizing w with
  | ret a =>
      intro w' hrely
      exact wp_rely h hrely
  | call c next ih =>
      intro w' hrely
      obtain ⟨hreq, hnext⟩ := h w' hrely
      exact ⟨hreq, fun r w'' hstep => ih r (hnext r w'' hstep)⟩

/-- The contract of calls that are answered by programs: a call may be made when its
answer keeps the contract, and does what can be proved of its answer. -/
def Contract.answered {C' : Type u} {R' : C' → Type v} {R : C → Type w}
    (E : Contract C' R' W) (handle : (c : C) → Prog C' R' (R c)) : Contract C R W where
  rely := E.rely
  rely_refl := E.rely_refl
  rely_trans := E.rely_trans
  requires c w := wp E (handle c) (fun _ _ => True) w
  step c w r w' := ∀ Q, wp E (handle c) Q w → Q r w'

section answered

variable {C' : Type u} {R' : C' → Type v} {R : C → Type w} {E : Contract C' R' W}
  {handle : (c : C) → Prog C' R' (R c)}

/-- What is proved of the answer holds of the call. -/
theorem answered_call {c : C} {Q : R c → W → Prop} {w : W} (h : wp E (handle c) Q w) :
    (E.answered handle).requires c w
      ∧ ∀ r w', (E.answered handle).step c w r w' → Q r w' :=
  ⟨wp_mono h fun _ _ _ => trivial, fun _ _ hstep => hstep Q h⟩

/-- All that can be proved of the answer holds of it at once. -/
theorem wp_of_answered {c : C} {Q : R c → W → Prop} {w : W}
    (hreq : (E.answered handle).requires c w)
    (h : ∀ r w', (E.answered handle).step c w r w' → Q r w') : wp E (handle c) Q w := by
  have hall : wp E (handle c)
      (fun r w' => ∀ Q : {Q : R c → W → Prop // wp E (handle c) Q w}, Q.val r w') w := by
    have : Nonempty {Q : R c → W → Prop // wp E (handle c) Q w} := ⟨⟨_, hreq⟩⟩
    exact wp_forall fun Q => Q.property
  exact wp_mono hall fun r w' hr => h r w' fun Q hQ => hr ⟨Q, hQ⟩

theorem wp_interp_answered {p : Prog C R α} {Q : α → W → Prop} {w : W}
    (h : wp (E.answered handle) p Q w) : wp E (p.interp handle) Q w :=
  wp_interp (fun _ _ hreq => wp_of_answered hreq fun _ _ hstep => hstep) h
    fun _ _ hrely => hrely

end answered

/-- An assertion that the answer of every call keeps is kept by the whole program, which
ends in one of its own results. -/
theorem wp_interp_returns {C' : Type u} {R' : C' → Type v} {R : C → Type w}
    {E : Contract C' R' W} {P : W → Prop} {handle : (c : C) → Prog C' R' (R c)}
    (hstable : ∀ {w w'}, P w → E.rely w w' → P w')
    (hhandle : ∀ c w, P w → wp E (handle c) (fun _ => P) w)
    {p : Prog C R α} {Q : α → Prop} (hp : p.Returns Q) {w : W} (hw : P w) :
    wp E (p.interp handle) (fun a w' => Q a ∧ P w') w := by
  induction p generalizing w with
  | ret a =>
      intro w' hrely
      exact ⟨hp, hstable hw hrely⟩
  | call c next ih =>
      refine wp_seq (hhandle c w hw) fun r w' hw' => ?_
      exact ih r (hp r) hw'

/-! ## Threads over a shared world -/

/-- The calls of the threads `ι` and the events `Ξ` of the surroundings, over a shared
world.  The choice `Ω` resolves what the model does not determine; `none` means that
nothing can happen. -/
structure Machine (ι : Type*) (Ω Ξ : Type*) (C : Type u) (R : C → Type v) (W : Type*)
    where
  perform : ι → Ω → (c : C) → W → Option (R c × W)
  external : Ξ → W → Option W

/-- A thread performs its next call, or something happens outside. -/
inductive Event (ι : Type*) (Ω Ξ : Type*) where
  | call (thread : ι) (choice : Ω)
  | external (event : Ξ)

/-- What is left of every thread, and the world. -/
structure Config (ι : Type*) (C : Type u) (R : C → Type v) (W : Type*) (α : Type w) where
  thread : ι → Prog C R α
  world : W

namespace Machine

variable {ι Ω Ξ : Type*} [DecidableEq ι] (M : Machine ι Ω Ξ C R W)

/-- One event. -/
def step (s : Config ι C R W α) : Event ι Ω Ξ → Option (Config ι C R W α)
  | .call i choice =>
    match s.thread i with
    | .ret _ => none
    | .call c next =>
      (M.perform i choice c s.world).map fun reply =>
        { thread := Function.update s.thread i (next reply.1), world := reply.2 }
  | .external event =>
    (M.external event s.world).map fun w => { s with world := w }

/-- A sequence of events. -/
def run (s : Config ι C R W α) : List (Event ι Ω Ξ) → Option (Config ι C R W α)
  | [] => some s
  | event :: events => (M.step s event).bind fun s' => run s' events

/-- The conditions under which the calls and the outside events of a run may happen. -/
structure Conditions (ι Ω Ξ : Type*) (C : Type u) (W : Type*) where
  call : ι → Ω → C → W → Prop
  external : Ξ → W → Prop

/-- The conditions on one event. -/
def Conditions.meets (K : Conditions ι Ω Ξ C W) (s : Config ι C R W α) :
    Event ι Ω Ξ → Prop
  | .call i choice =>
    match s.thread i with
    | .ret _ => True
    | .call c _ => K.call i choice c s.world
  | .external event => K.external event s.world

instance Conditions.decidableMeets (K : Conditions ι Ω Ξ C W)
    [∀ i choice c w, Decidable (K.call i choice c w)]
    [∀ event w, Decidable (K.external event w)] (s : Config ι C R W α) (event : Event ι Ω Ξ) :
    Decidable (K.meets s event) :=
  match event with
  | .call i choice =>
    match hthread : s.thread i with
    | .ret _ => isTrue (by simp [meets, hthread])
    | .call c _ => decidable_of_iff (K.call i choice c s.world) (by simp [meets, hthread])
  | .external event => inferInstanceAs (Decidable (K.external event s.world))

/-- No condition at all. -/
def Conditions.free : Conditions ι Ω Ξ C W where
  call _ _ _ _ := True
  external _ _ := True

instance (i : ι) (choice : Ω) (c : C) (w : W) :
    Decidable ((Conditions.free : Conditions ι Ω Ξ C W).call i choice c w) :=
  inferInstanceAs (Decidable True)

instance (event : Ξ) (w : W) :
    Decidable ((Conditions.free : Conditions ι Ω Ξ C W).external event w) :=
  inferInstanceAs (Decidable True)

/-- The configurations of the runs all of whose events meet the conditions. -/
inductive Reachable (K : Conditions ι Ω Ξ C W) (s₀ : Config ι C R W α) :
    Config ι C R W α → Prop where
  | start : Reachable K s₀ s₀
  | next {s s' event} (hs : Reachable K s₀ s) (hmeets : K.meets s event)
      (hstep : M.step s event = some s') : Reachable K s₀ s'

/-- A sequence of events all of which meet the conditions. -/
def runUnder (K : Conditions ι Ω Ξ C W)
    [∀ (s : Config ι C R W α) (event : Event ι Ω Ξ), Decidable (K.meets s event)]
    (s : Config ι C R W α) : List (Event ι Ω Ξ) → Option (Config ι C R W α)
  | [] => some s
  | event :: events =>
    if K.meets s event then (M.step s event).bind fun s' => runUnder K s' events else none

variable {M}

/-- What a thread step does. -/
theorem step_call_eq_some {s s' : Config ι C R W α} {i : ι} {choice : Ω}
    (h : M.step s (.call i choice) = some s') :
    ∃ c next r w', s.thread i = .call c next
      ∧ M.perform i choice c s.world = some (r, w')
      ∧ s' = { thread := Function.update s.thread i (next r), world := w' } := by
  unfold step at h
  cases hthread : s.thread i with
  | ret a => simp [hthread] at h
  | call c next =>
      simp only [hthread, Option.map_eq_some_iff] at h
      obtain ⟨⟨r, w'⟩, hperform, rfl⟩ := h
      exact ⟨c, next, r, w', rfl, hperform, rfl⟩

/-- An event outside changes the world alone. -/
theorem step_external_eq_some {s s' : Config ι C R W α} {event : Ξ}
    (h : M.step s (.external event) = some s') :
    ∃ w', M.external event s.world = some w' ∧ s' = { s with world := w' } := by
  rw [step, Option.map_eq_some_iff] at h
  obtain ⟨w', hw', rfl⟩ := h
  exact ⟨w', hw', rfl⟩

/-- The threads' contracts fit together: under the conditions of the run and the
invariant, every call does what its thread's contract says, keeps the invariant, and is
an interference the other threads allow for, and so is every event outside. -/
structure Compatible (M : Machine ι Ω Ξ C R W) (K : Conditions ι Ω Ξ C W)
    (E : ι → Contract C R W) (I : W → Prop) : Prop where
  step : ∀ {i choice c w r w'}, I w → K.call i choice c w → (E i).requires c w →
    M.perform i choice c w = some (r, w') → (E i).step c w r w' ∧ I w'
  guarantee : ∀ {i j choice c w r w'}, j ≠ i → I w → K.call i choice c w →
    (E i).requires c w → M.perform i choice c w = some (r, w') → (E j).rely w w'
  external : ∀ {event w w'}, I w → K.external event w → M.external event w = some w' →
    I w' ∧ ∀ j, (E j).rely w w'

/-- The invariant holds and every thread keeps its contract from here on. -/
def Safe (E : ι → Contract C R W) (I : W → Prop) (Q : ι → α → W → Prop)
    (s : Config ι C R W α) : Prop :=
  I s.world ∧ ∀ i, wp (E i) (s.thread i) (Q i) s.world

theorem Reachable.trans {K : Conditions ι Ω Ξ C W} {s₀ s s' : Config ι C R W α}
    (h : M.Reachable K s₀ s) (h' : M.Reachable K s s') : M.Reachable K s₀ s' := by
  induction h' with
  | start => exact h
  | next _ hmeets hstep ih => exact .next ih hmeets hstep

theorem reachable_of_runUnder {K : Conditions ι Ω Ξ C W}
    [∀ (s : Config ι C R W α) (event : Event ι Ω Ξ), Decidable (K.meets s event)]
    {events : List (Event ι Ω Ξ)} {s s' : Config ι C R W α}
    (h : M.runUnder K s events = some s') : M.Reachable K s s' := by
  induction events generalizing s with
  | nil =>
      cases h
      exact .start
  | cons event events ih =>
      unfold runUnder at h
      split at h
      · rename_i hmeets
        obtain ⟨s₁, hstep, hrun⟩ := Option.bind_eq_some_iff.mp h
        exact (Reachable.next .start hmeets hstep).trans (ih hrun)
      · cases h

/-- What an evaluation shows of the end of a run holds of a reachable configuration. -/
theorem exists_reachable {β : Type*} {K : Conditions ι Ω Ξ C W}
    [∀ (s : Config ι C R W α) (event : Event ι Ω Ξ), Decidable (K.meets s event)]
    {events : List (Event ι Ω Ξ)} {s : Config ι C R W α} {f : Config ι C R W α → β} {b : β}
    (h : (M.runUnder K s events).map f = some b) : ∃ s', M.Reachable K s s' ∧ f s' = b := by
  obtain ⟨s', hrun, hf⟩ := Option.map_eq_some_iff.mp h
  exact ⟨s', reachable_of_runUnder hrun, hf⟩

variable {K : Conditions ι Ω Ξ C W} {E : ι → Contract C R W} {I : W → Prop}
  {Q : ι → α → W → Prop}

/-- One event keeps a configuration safe. -/
theorem step_safe (hM : Compatible M K E I) {s s' : Config ι C R W α}
    {event : Event ι Ω Ξ} (hsafe : Safe E I Q s) (hmeets : K.meets s event)
    (hstep : M.step s event = some s') : Safe E I Q s' := by
  obtain ⟨hI, hthreads⟩ := hsafe
  cases event with
  | call i choice =>
      obtain ⟨c, next, r, w', hthread, hperform, rfl⟩ := step_call_eq_some hstep
      have hcond : K.call i choice c s.world := by
        simpa only [Conditions.meets, hthread] using hmeets
      have hwp := hthreads i
      rw [hthread] at hwp
      obtain ⟨hreq, hnext⟩ := hwp s.world ((E i).rely_refl _)
      obtain ⟨hE, hI'⟩ := hM.step hI hcond hreq hperform
      refine ⟨hI', fun j => ?_⟩
      -- the caller goes on by its contract, the others bear the interference
      by_cases hj : j = i
      · subst hj
        show wp (E j) (Function.update s.thread j (next r) j) (Q j) w'
        rw [Function.update_self]
        exact hnext r w' hE
      · show wp (E j) (Function.update s.thread i (next r) j) (Q j) w'
        rw [Function.update_of_ne hj]
        exact wp_rely (hthreads j) (hM.guarantee hj hI hcond hreq hperform)
  | external event =>
      obtain ⟨w', hw', rfl⟩ := step_external_eq_some hstep
      obtain ⟨hI', hrely⟩ := hM.external hI hmeets hw'
      exact ⟨hI', fun j => wp_rely (hthreads j) (hrely j)⟩

/-- **Safety of all runs.**  If the contracts fit together and the threads keep theirs at
the start, every configuration of every run is safe. -/
theorem reachable_safe (hM : Compatible M K E I) {s₀ s : Config ι C R W α}
    (h₀ : Safe E I Q s₀) (hs : M.Reachable K s₀ s) : Safe E I Q s := by
  induction hs with
  | start => exact h₀
  | next _ hmeets hstep ih => exact step_safe hM ih hmeets hstep

omit [DecidableEq ι] in
/-- In a safe configuration the next call of a thread is made as its contract demands. -/
theorem Safe.requires {s : Config ι C R W α} (hsafe : Safe E I Q s) {i : ι} {c : C}
    {next : R c → Prog C R α} (hthread : s.thread i = .call c next) :
    (E i).requires c s.world := by
  have hwp := hsafe.2 i
  rw [hthread] at hwp
  exact (hwp s.world ((E i).rely_refl _)).1

omit [DecidableEq ι] in
/-- In a safe configuration a thread that has ended is in its postcondition. -/
theorem Safe.ended {s : Config ι C R W α} (hsafe : Safe E I Q s) {i : ι} {a : α}
    (hthread : s.thread i = .ret a) : Q i a s.world := by
  have hwp := hsafe.2 i
  rw [hthread] at hwp
  exact hwp s.world ((E i).rely_refl _)

/-- From where a thread has ended, a run is interference to it. -/
theorem Reachable.interference (hM : Compatible M K E I) {s₀ s : Config ι C R W α}
    (h₀ : Safe E I Q s₀) {i : ι} {a : α} (hended : s₀.thread i = .ret a)
    (hs : M.Reachable K s₀ s) : s.thread i = .ret a ∧ (E i).rely s₀.world s.world := by
  induction hs with
  | start => exact ⟨hended, (E i).rely_refl _⟩
  | @next s s' event hs hmeets hstep ih =>
      obtain ⟨hthread, hrely⟩ := ih
      have hsafe := reachable_safe hM h₀ hs
      cases event with
      | call j choice =>
          obtain ⟨c, next, r, w', hcall, hperform, rfl⟩ := step_call_eq_some hstep
          have hj : i ≠ j := by
            rintro rfl
            cases hthread.symm.trans hcall
          have hcond : K.call j choice c s.world := by
            simpa only [Conditions.meets, hcall] using hmeets
          refine ⟨by rw [← hthread]; exact Function.update_of_ne hj _ _, ?_⟩
          exact (E i).rely_trans hrely
            (hM.guarantee hj hsafe.1 hcond (hsafe.requires hcall) hperform)
      | external event =>
          obtain ⟨w', hw', rfl⟩ := step_external_eq_some hstep
          exact ⟨hthread, (E i).rely_trans hrely ((hM.external hsafe.1 hmeets hw').2 i)⟩

end Machine

end Interaction
