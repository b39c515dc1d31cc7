/-
# Invariants of clients and servers

What is to be shown of a world along a run is shown of the calls that are made on behalf of the
clients: of every one (`Runs.preserved`), or of a client's own and those of the others, up to its
first call and from then on (`Runs.first_call`).
-/
import Lobby.MailboxService

namespace Interaction

universe u v w

open Prog

namespace Office

open Function (update)

variable {ι κ Ω Ξ W : Type*} {C : Type u} {R : C → Type w} {C' : Type u} {R' : C' → Type v}
  {α : Type w}

variable [DecidableEq ι] [DecidableEq κ] {O : Office κ C R C' R'} {M : Machine ι Ω Ξ C' R' W}
  {K : Machine.Conditions ι Ω Ξ C' W} {s s' s₀ : Config ι κ C R C' R' W α}
  {event : Event ι κ Ω Ξ} {movers : List (Option ι)}

/-! ## What the calls of the clients keep -/

section preserved

variable {i : ι} {K' : Machine.Conditions ι Ω Ξ C' W}

omit [DecidableEq ι] [DecidableEq κ] in
/-- Conditions on the calls of the clients and on the outside events. -/
theorem meets_of_asks (hcall : ∀ i choice x, s.Asks i x → K'.call i choice x s.world)
    (hexternal : ∀ event, K'.external event s.world) (event : Event ι κ Ω Ξ) :
    meets K' s event := by
  cases event with
  | work i choice =>
      simp only [meets]
      split
      · rename_i c x rest next htask
        exact hcall i choice x (Or.inl ⟨c, rest, next, htask⟩)
      · exact trivial
  | serve k choice =>
      simp only [meets]
      split
      · rename_i letter x rest hserver
        exact hcall letter.sender choice x (Or.inr ⟨k, letter, rest, hserver, rfl⟩)
      · exact trivial
  | external event => exact hexternal event
  | _ => exact trivial

/-- A run meets whatever its calls meet. -/
theorem Runs.under (h : O.Runs M K s₀ movers s)
    (hcall : ∀ {movers s}, O.Runs M K s₀ movers s → ∀ i choice x, s.Asks i x →
      K'.call i choice x s.world)
    (hexternal : ∀ event w, K'.external event w) : O.Runs M K' s₀ movers s := by
  induction h with
  | start => exact .start
  | next h _ hstep ih =>
      exact .next ih (meets_of_asks (hcall h) (fun event => hexternal event _) _) hstep

/-- **What every call and every outside event keeps** holds along a run. -/
theorem Runs.preserved {P : W → Prop} (h : O.Runs M K s₀ movers s) (h₀ : P s₀.world)
    (hcall : ∀ {movers s movers' s' i choice x r}, O.Runs M K s₀ movers s → s.Asks i x →
      M.perform i choice x s.world = some (r, s'.world) → O.Runs M K s₀ movers' s' →
      P s.world → P s'.world)
    (hexternal : ∀ {event w w'}, M.external event w = some w' → P w → P w') : P s.world := by
  induction h with
  | start => exact h₀
  | next h hmeets hstep ih =>
      have hnext := Runs.next h hmeets hstep
      -- only a call and an outside event change the world
      cases moves_of_step hstep with
      | work i choice c x rest next r w htask hperform =>
          exact hcall h (Or.inl ⟨c, rest, next, htask⟩) hperform hnext ih
      | serve k choice letter x rest r w hserver hperform =>
          exact hcall h (Or.inr ⟨k, letter, rest, hserver, rfl⟩) hperform hnext ih
      | external event w hevent => exact hexternal hevent ih
      | _ => exact ih

end preserved

/-! ## Before and after the first call -/

section first

variable {i : ι} {p : ι → Prog C R α} {w₀ : W}

/-- The client has not come past its first call, which it answers itself. -/
def Unstarted (O : Office κ C R C' R') (p : ι → Prog C R α) (i : ι) (c : C) :
    Task κ C R C' R' α → Prop
  | .waiting _ | .refused _ => True
  | .running q => q = p i
  | .answering c' rest next => (call c' next : Prog C R α) = p i ∧ c' = c ∧ HEq rest (O.answer c)
  | _ => False

/-- Whether the client has a permit, or had one. -/
def Task.admitted : Task κ C R C' R' α → Prop
  | .waiting _ | .refused _ => False
  | _ => True

/-- **Up to its first call a client does nothing.**  `P` holds of the world until then, and `Q`
from then on: the others keep both, and the first call leads from the one to the other. -/
theorem Runs.first_call {P Q : W → Prop} {c : C} {next : R c → Prog C R α} {x : C'}
    {rest : R' x → Prog C' R' (R c)} (h : O.Runs M K (Office.start p w₀) movers s)
    (hp : p i = call c next) (hroute : O.route c = none) (hanswer : O.answer c = .call x rest)
    (h₀ : P w₀)
    (hother : ∀ {movers s j choice y r w'}, O.Runs M K (Office.start p w₀) movers s →
      s.Asks j y → j ≠ i → M.perform j choice y s.world = some (r, w') → P s.world → P w')
    (hfirst : ∀ {choice r w w'}, M.perform i choice x w = some (r, w') → Q w')
    (hkeep : ∀ {j choice y r w w'}, M.perform j choice y w = some (r, w') → Q w → Q w')
    (hexternal : ∀ {event w w'}, M.external event w = some w' → (P w → P w') ∧ (Q w → Q w')) :
    Unstarted O p i c (s.task i) ∧ P s.world ∨ (s.task i).admitted ∧ Q s.world := by
  induction h with
  | start => exact Or.inl ⟨trivial, h₀⟩
  | @next movers s event s' h hmeets hstep ih =>
      -- a move that is not one of the client leaves it where it is
      have hkept : ∀ {t : ι → Task κ C R C' R' α} {w : W}, t i = s.task i →
          (P s.world → P w) → (Q s.world → Q w) →
          Unstarted O p i c (t i) ∧ P w ∨ (t i).admitted ∧ Q w := by
        intro t w ht hP hQ
        rw [ht]
        exact ih.imp (And.imp_right hP) (And.imp_right hQ)
      have hne : ∀ {j : ι} {t : Task κ C R C' R' α}, j ≠ i →
          update s.task j t i = s.task i := fun hj => Function.update_of_ne hj.symm _ _
      cases moves_of_step hstep with
      | grant j q htask hfree =>
          by_cases hj : j = i
          · subst hj
            rw [htask] at ih
            rcases ih with ⟨-, hP⟩ | ⟨himp, -⟩
            · refine Or.inl ⟨?_, hP⟩
              dsimp only
              rw [Function.update_self]
              exact h.along.fresh j q htask
            · exact himp.elim
          · exact hkept (hne hj) id id
      | refuse j q htask =>
          by_cases hj : j = i
          · subst hj
            rw [htask] at ih
            rcases ih with ⟨-, hP⟩ | ⟨himp, -⟩
            · refine Or.inl ⟨?_, hP⟩
              dsimp only
              rw [Function.update_self]
              exact trivial
            · exact himp.elim
          · exact hkept (hne hj) id id
      | start j c' next' htask hroute' =>
          by_cases hj : j = i
          · subst hj
            rw [htask] at ih
            dsimp only
            rw [Function.update_self]
            rcases ih with ⟨hq, hP⟩ | ⟨-, hQ⟩
            · have heq : (call c' next' : Prog C R α) = call c next := Eq.trans hq hp
              obtain ⟨rfl, -⟩ := Prog.call.inj heq
              exact Or.inl ⟨⟨hq, rfl, HEq.rfl⟩, hP⟩
            · exact Or.inr ⟨trivial, hQ⟩
          · exact hkept (hne hj) id id
      | post j c' next' k htask hroute' hroom =>
          by_cases hj : j = i
          · subst hj
            rw [htask] at ih
            dsimp only
            rw [Function.update_self]
            rcases ih with ⟨hq, -⟩ | ⟨-, hQ⟩
            · -- the first call goes to no server
              have heq : (call c' next' : Prog C R α) = call c next := Eq.trans hq hp
              obtain ⟨rfl, -⟩ := Prog.call.inj heq
              rw [hroute] at hroute'
              cases hroute'
            · exact Or.inr ⟨trivial, hQ⟩
          · exact hkept (hne hj) id id
      | work j choice c' y rest' next' r w htask hperform =>
          have hasks : s.Asks j y := Or.inl ⟨c', rest', next', htask⟩
          by_cases hj : j = i
          · subst hj
            rw [htask] at ih
            dsimp only
            rw [Function.update_self]
            rcases ih with ⟨⟨-, rfl, hrest⟩, -⟩ | ⟨-, hQ⟩
            · rw [hanswer] at hrest
              obtain ⟨rfl, -⟩ := Prog.call.inj (eq_of_heq hrest)
              exact Or.inr ⟨trivial, hfirst hperform⟩
            · exact Or.inr ⟨trivial, hkeep hperform hQ⟩
          · exact hkept (hne hj) (hother h hasks hj hperform) (hkeep hperform)
      | resume j c' r next' htask =>
          by_cases hj : j = i
          · subst hj
            rw [htask] at ih
            dsimp only
            rw [Function.update_self]
            rcases ih with ⟨⟨-, rfl, hrest⟩, -⟩ | ⟨-, hQ⟩
            · rw [hanswer] at hrest
              cases eq_of_heq hrest
            · exact Or.inr ⟨trivial, hQ⟩
          · exact hkept (hne hj) id id
      | finish j a htask =>
          by_cases hj : j = i
          · subst hj
            rw [htask] at ih
            dsimp only
            rw [Function.update_self]
            rcases ih with ⟨hq, -⟩ | ⟨-, hQ⟩
            · cases Eq.trans hq hp
            · exact Or.inr ⟨trivial, hQ⟩
          · exact hkept (hne hj) id id
      | take k letter letters hserver hmail =>
          have hletter : letter ∈ s.mail k := by
            rw [hmail]
            exact List.mem_cons_self
          have htask := (h.consistent (consistent_start p w₀)).task_of_mem hletter
          by_cases hj : letter.sender = i
          · subst hj
            rw [htask] at ih
            dsimp only
            rw [Function.update_self]
            rcases ih with ⟨hno, -⟩ | ⟨-, hQ⟩
            · exact hno.elim
            · exact Or.inr ⟨trivial, hQ⟩
          · exact hkept (hne hj) id id
      | serve k choice letter y rest' r w hserver hperform =>
          have hasks : s.Asks letter.sender y := Or.inr ⟨k, letter, rest', hserver, rfl⟩
          have htask := (h.consistent (consistent_start p w₀)).task_of_server hserver
          by_cases hj : letter.sender = i
          · subst hj
            dsimp only at htask ⊢
            rw [htask] at ih ⊢
            rcases ih with ⟨hno, -⟩ | ⟨-, hQ⟩
            · exact hno.elim
            · exact Or.inr ⟨trivial, hkeep hperform hQ⟩
          · exact hkept rfl (hother h hasks hj hperform) (hkeep hperform)
      | reply k letter r hserver =>
          have htask := (h.consistent (consistent_start p w₀)).task_of_server hserver
          by_cases hj : letter.sender = i
          · subst hj
            dsimp only at htask
            rw [htask] at ih
            dsimp only
            rw [Function.update_self]
            rcases ih with ⟨hno, -⟩ | ⟨-, hQ⟩
            · exact hno.elim
            · exact Or.inr ⟨trivial, hQ⟩
          · exact hkept (hne hj) id id
      | external event w hevent =>
          exact hkept rfl (hexternal hevent).1 (hexternal hevent).2

end first

end Office

end Interaction
