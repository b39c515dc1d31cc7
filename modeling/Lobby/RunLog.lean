/-
# Runs and their logs

A partial run of a program within a contract, with the log of its calls: what was called,
what was answered, and the world the call was made in.  What `wp` proves of a program
whose calls are logged holds along all its runs (`Reaches.wp`), and a program that keeps
its contract has a run to its end (`exists_run`).  A run of a machine with the log of one
thread (`Machine.Traced`) is such a run of the thread (`Machine.Traced.reaches`).
-/
import Lobby.Interaction

namespace Interaction

universe u v w

open Prog

variable {C : Type u} {R : C → Type v} {α β : Type w} {W : Type*}

/-- One call of a run. -/
structure Entry (C : Type u) (R : C → Type v) (W : Type*) where
  call : C
  reply : R call
  /-- the world the call was made in -/
  before : W

/-- A partial run: the log of the calls so far, the latest first, what is left of the
program, and the world. -/
inductive Prog.Reaches (E : Contract C R W) (p : Prog C R α) (w : W) :
    List (Entry C R W) → Prog C R α → W → Prop where
  | start : Reaches E p w [] p w
  | others {log p' w' w''} (h : Reaches E p w log p' w') (hrely : E.rely w' w'') :
      Reaches E p w log p' w''
  | next {log c next w' r w''} (h : Reaches E p w log (call c next) w')
      (hstep : E.step c w' r w'') : Reaches E p w (⟨c, r, w'⟩ :: log) (next r) w''

/-- What the calls of a log show, the latest first. -/
def readings {γ : Type*} (f : (c : C) → R c → Option γ) (log : List (Entry C R W)) : List γ :=
  log.filterMap fun entry => f entry.call entry.reply

@[simp] theorem readings_nil {γ : Type*} (f : (c : C) → R c → Option γ) :
    readings f ([] : List (Entry C R W)) = [] := rfl

@[simp] theorem readings_cons {γ : Type*} (f : (c : C) → R c → Option γ) (entry : Entry C R W)
    (log : List (Entry C R W)) :
    readings f (entry :: log) = (f entry.call entry.reply).toList ++ readings f log := by
  unfold readings
  rw [List.filterMap_cons]
  cases f entry.call entry.reply <;> rfl

/-- The contract whose world also keeps the log, with demands on the next call and what was
logged before it. -/
def Contract.logged (E : Contract C R W)
    (demands : C → W × List (Entry C R W) → Prop) :
    Contract C R (W × List (Entry C R W)) where
  rely x y := E.rely x.1 y.1 ∧ y.2 = x.2
  rely_refl x := ⟨E.rely_refl x.1, rfl⟩
  rely_trans h h' := ⟨E.rely_trans h.1 h'.1, h'.2.trans h.2⟩
  requires c x := E.requires c x.1 ∧ demands c x
  step c x r y := E.step c x.1 r y.1 ∧ y.2 = ⟨c, r, x.1⟩ :: x.2

/-- No demands. -/
abbrev noDemand : C → W × List (Entry C R W) → Prop := fun _ _ => True

/-- Nothing is known of the replies. -/
def Contract.free : Contract C R Unit where
  rely _ _ := True
  rely_refl _ := trivial
  rely_trans _ _ := trivial
  requires _ _ := True
  step _ _ _ _ := True

/-- Nothing happens between two calls. -/
def Contract.alone (requires : C → W → Prop) (step : (c : C) → W → R c → W → Prop) :
    Contract C R W where
  rely := Eq
  rely_refl _ := rfl
  rely_trans := Eq.trans
  requires := requires
  step := step

/-- The places of a log with one more entry. -/
theorem split_cons {γ : Type*} {x y : γ} {l later earlier : List γ}
    (h : x :: l = later ++ y :: earlier) :
    later = [] ∧ y = x ∧ earlier = l
      ∨ ∃ later', later = x :: later' ∧ l = later' ++ y :: earlier := by
  rcases List.cons_eq_append_iff.mp h with ⟨rfl, heq⟩ | h
  · obtain ⟨rfl, rfl⟩ := List.cons.inj heq
    exact Or.inl ⟨rfl, rfl, rfl⟩
  · exact Or.inr h

/-! ## What holds along a run -/

section

variable {E : Contract C R W} {demands : C → W × List (Entry C R W) → Prop}
  {p p' : Prog C R α} {w w' : W} {log : List (Entry C R W)}
  {Q : α → W × List (Entry C R W) → Prop}

/-- What was proved of a program, with its calls logged, holds along its partial runs. -/
theorem Prog.Reaches.wp (h : p.Reaches E w log p' w')
    (hwp : wp (E.logged demands) p Q (w, [])) : wp (E.logged demands) p' Q (w', log) := by
  induction h with
  | start => exact hwp
  | others _ hrely ih => exact wp_rely ih ⟨hrely, rfl⟩
  | next _ hstep ih => exact (ih _ ((E.logged demands).rely_refl _)).2 _ _ ⟨hstep, rfl⟩

/-- A run that has ended is in the postcondition. -/
theorem Prog.Reaches.ended {a : α} (h : p.Reaches E w log (ret a) w')
    (hwp : Interaction.wp (E.logged demands) p Q (w, [])) : Q a (w', log) :=
  h.wp hwp _ ((E.logged demands).rely_refl _)

/-- The next call of a run is made as the contract demands. -/
theorem Prog.Reaches.requires {c : C} {next : R c → Prog C R α}
    (h : p.Reaches E w log (call c next) w')
    (hwp : Interaction.wp (E.logged demands) p Q (w, [])) :
    E.requires c w' ∧ demands c (w', log) :=
  (h.wp hwp _ ((E.logged demands).rely_refl _)).1

/-- What is demanded before every call and holds at the end holds throughout. -/
theorem Prog.Reaches.always {I : W × List (Entry C R W) → Prop}
    (h : p.Reaches E w log p' w')
    (hwp : Interaction.wp (E.logged fun _ => I) p (fun _ => I) (w, [])) : I (w', log) := by
  cases p' with
  | ret a => exact h.ended hwp
  | call c next => exact (h.requires hwp).2

/-- The calls of a run, without the world. -/
theorem Prog.Reaches.leads (h : p.Reaches E w log p' w') : p.Leads (log.map Entry.call) p' := by
  induction h with
  | start => exact .refl
  | others _ _ ih => exact ih
  | next _ _ ih => exact ih.next _

theorem Prog.Reaches.trans {p'' : Prog C R α} {w'' : W} {log' : List (Entry C R W)}
    (h : p.Reaches E w log p' w') (h' : p'.Reaches E w' log' p'' w'') :
    p.Reaches E w (log' ++ log) p'' w'' := by
  induction h' with
  | start => exact h
  | others _ hrely ih => exact ih.others hrely
  | next _ hstep ih => exact ih.next hstep

/-- A program that keeps its contract has a run to its end, when every call it may make can
be answered. -/
theorem exists_run (hanswer : ∀ c w, E.requires c w → ∃ r w', E.step c w r w')
    (hwp : Interaction.wp (E.logged demands) p Q (w, log)) :
    ∃ log a w', p.Reaches E w log (ret a) w' := by
  induction p generalizing w log with
  | ret a => exact ⟨[], a, w, .start⟩
  | call c next ih =>
      obtain ⟨hreq, hnext⟩ := hwp _ ((E.logged demands).rely_refl _)
      obtain ⟨r, w', hstep⟩ := hanswer c w hreq.1
      obtain ⟨log', a, w'', hrun⟩ := ih r (hnext r (w', _) ⟨hstep, rfl⟩)
      exact ⟨_, a, w'', (Reaches.start.next hstep).trans hrun⟩

end

/-- What was proved of a program, and what its calls keep of the world and the log. -/
theorem wp_logged {E : Contract C R W} {P : C → Prop}
    {J : W × List (Entry C R W) → Prop}
    (hrely : ∀ {w w' log}, J (w, log) → E.rely w w' → J (w', log))
    (hstep : ∀ {c w r w' log}, P c → E.step c w r w' → J (w, log) → J (w', ⟨c, r, w⟩ :: log))
    {p : Prog C R α} {Q : α → W → Prop} {w : W} {log : List (Entry C R W)}
    (h : wp E p Q w) (hp : p.Asks P) (hJ : J (w, log)) :
    wp (E.logged noDemand) p (fun a x => Q a x.1 ∧ J x) (w, log) := by
  induction p generalizing w log with
  | ret a =>
      -- others act first, then the call is made and logged
      rintro ⟨w', _⟩ ⟨hw', rfl⟩
      exact ⟨h w' hw', hrely hJ hw'⟩
  | call c next ih =>
      rintro ⟨w', _⟩ ⟨hw', rfl⟩
      obtain ⟨hreq, hnext⟩ := h w' hw'
      refine ⟨⟨hreq, trivial⟩, ?_⟩
      rintro r ⟨w'', _⟩ ⟨hcall, rfl⟩
      exact ih r (hnext r w'' hcall) (hp.2 r) (hstep hp.1 hcall (hrely hJ hw'))

/-- Logging the calls of a program changes nothing that was proved of it. -/
theorem wp_logged_of_wp {E : Contract C R W} {p : Prog C R α} {Q : α → W → Prop} {w : W}
    {log : List (Entry C R W)} (h : wp E p Q w) :
    wp (E.logged noDemand) p (fun a x => Q a x.1) (w, log) := by
  refine wp_mono (wp_logged (J := fun _ => True) (fun _ _ => trivial)
    (fun _ _ _ => trivial) h (asks_true p) trivial) fun _ _ hx => hx.1

/-! ## The log of a thread -/

namespace Machine

variable {ι Ω Ξ : Type*} [DecidableEq ι] {M : Machine ι Ω Ξ C R W}
  {K : Conditions ι Ω Ξ C W} {s₀ s : Config ι C R W α} {i : ι} {log : List (Entry C R W)}

/-- The runs all of whose events meet the conditions, with the log of the calls of one
thread, the latest first. -/
inductive Traced (M : Machine ι Ω Ξ C R W) (K : Conditions ι Ω Ξ C W)
    (s₀ : Config ι C R W α) (i : ι) : List (Entry C R W) → Config ι C R W α → Prop where
  | start : Traced M K s₀ i [] s₀
  | own {log s c next choice r w'} (h : Traced M K s₀ i log s)
      (hthread : s.thread i = .call c next) (hmeets : K.call i choice c s.world)
      (hperform : M.perform i choice c s.world = some (r, w')) :
      Traced M K s₀ i (⟨c, r, s.world⟩ :: log)
        { thread := Function.update s.thread i (next r), world := w' }
  | other {log s s' event} (h : Traced M K s₀ i log s)
      (hother : ∀ choice, event ≠ .call i choice) (hmeets : K.meets s event)
      (hstep : M.step s event = some s') : Traced M K s₀ i log s'

theorem Traced.reachable (h : M.Traced K s₀ i log s) : M.Reachable K s₀ s := by
  induction h with
  | start => exact .start
  | @own log s c next choice r w' _ hthread hmeets hperform ih =>
      have hcall : K.meets s (.call i choice) := by
        simpa only [Conditions.meets, hthread] using hmeets
      have hstep : M.step s (.call i choice)
          = some { thread := Function.update s.thread i (next r), world := w' } := by
        simp only [step, hthread, hperform, Option.map_some]
      exact ih.next hcall hstep
  | other _ _ hmeets hstep ih => exact ih.next hmeets hstep

/-- Every run has a log. -/
theorem Reachable.exists_traced (h : M.Reachable K s₀ s) (i : ι) :
    ∃ log, M.Traced K s₀ i log s := by
  induction h with
  | start => exact ⟨[], .start⟩
  | @next s s' event _ hmeets hstep ih =>
      obtain ⟨log, hlog⟩ := ih
      by_cases hown : ∃ choice, event = .call i choice
      · obtain ⟨choice, rfl⟩ := hown
        obtain ⟨c, next, r, w', hthread, hperform, rfl⟩ := step_call_eq_some hstep
        have hcall : K.call i choice c s.world := by
          simpa only [Conditions.meets, hthread] using hmeets
        exact ⟨_, hlog.own hthread hcall hperform⟩
      · exact ⟨log, hlog.other (fun choice hevent => hown ⟨choice, hevent⟩) hmeets hstep⟩

/-- A run of the system is, for each of its threads, a run within its contract. -/
theorem Traced.reaches {E : ι → Contract C R W} {I : W → Prop} {Q : ι → α → W → Prop}
    (hM : Compatible M K E I) (h₀ : Safe E I Q s₀) (h : M.Traced K s₀ i log s) :
    (s₀.thread i).Reaches (E i) s₀.world log (s.thread i) s.world := by
  induction h with
  | start => exact .start
  | @own log s c next choice r w' hlog hthread hmeets hperform ih =>
      have hsafe := reachable_safe hM h₀ hlog.reachable
      rw [hthread] at ih
      -- its own call keeps the contract
      have hstep := (hM.step hsafe.1 hmeets (hsafe.requires hthread) hperform).1
      show Prog.Reaches _ _ _ _ (Function.update s.thread i (next r) i) w'
      rw [Function.update_self]
      exact ih.next hstep
  | @other log s s' event hlog hother hmeets hstep ih =>
      have hsafe := reachable_safe hM h₀ hlog.reachable
      cases event with
      | call j choice =>
          have hj : i ≠ j := fun heq => hother choice (by rw [heq])
          obtain ⟨c, next, r, w', hthread, hperform, rfl⟩ := step_call_eq_some hstep
          have hcond : K.call j choice c s.world := by
            simpa only [Conditions.meets, hthread] using hmeets
          show Prog.Reaches _ _ _ _ (Function.update s.thread j (next r) i) w'
          rw [Function.update_of_ne hj]
          -- a call of another thread is interference
          exact ih.others (hM.guarantee hj hsafe.1 hcond (hsafe.requires hthread) hperform)
      | external event =>
          obtain ⟨w', hw', rfl⟩ := step_external_eq_some hstep
          exact ih.others ((hM.external hsafe.1 hmeets hw').2 i)

end Machine

/-! ## Runs in which nothing happens between two calls -/

section

variable {requires : C → W → Prop} {step : (c : C) → W → R c → W → Prop}
  {demands : C → W × List (Entry C R W) → Prop} {w : W} {log : List (Entry C R W)}
  {Q : α → W × List (Entry C R W) → Prop}

theorem eq_of_rely_alone {x y : W × List (Entry C R W)}
    (h : ((Contract.alone requires step).logged demands).rely x y) : y = x :=
  Prod.ext h.1.symm h.2

theorem wp_alone_ret {a : α} (h : Q a (w, log)) :
    wp ((Contract.alone requires step).logged demands) (ret a : Prog C R α) Q (w, log) := by
  refine wp_ret fun y hrely => ?_
  rw [eq_of_rely_alone hrely]
  exact h

theorem wp_alone_call {c : C} {next : R c → Prog C R α}
    (hreq : requires c w ∧ demands c (w, log))
    (h : ∀ r w', step c w r w' →
      wp ((Contract.alone requires step).logged demands) (next r) Q (w', ⟨c, r, w⟩ :: log)) :
    wp ((Contract.alone requires step).logged demands) (call c next) Q (w, log) := by
  refine wp_call fun y hrely => ?_
  rw [eq_of_rely_alone hrely]
  refine ⟨hreq, ?_⟩
  rintro r ⟨w'', _⟩ ⟨hstep, rfl⟩
  exact h r w'' hstep

end

/-! ## Runs to compute -/

/-- The partial run of at most so many calls, when a function answers them. -/
def Prog.follow (act : (c : C) → W → Option (R c × W)) :
    ℕ → Prog C R α → W → Option (List (Entry C R W) × Prog C R α × W)
  | 0, p, w => some ([], p, w)
  | _ + 1, ret a, w => some ([], ret a, w)
  | n + 1, call c next, w =>
    (act c w).bind fun reply =>
      ((next reply.1).follow act n reply.2).map fun run =>
        (run.1 ++ [⟨c, reply.1, w⟩], run.2)

theorem Prog.reaches_of_follow {E : Contract C R W} {act : (c : C) → W → Option (R c × W)}
    (hact : ∀ c w r w', act c w = some (r, w') → E.step c w r w') {n : ℕ} {p p' : Prog C R α}
    {w w' : W} {log : List (Entry C R W)} (h : p.follow act n w = some (log, p', w')) :
    p.Reaches E w log p' w' := by
  induction n generalizing p w log with
  | zero =>
      cases h
      exact .start
  | succ n ih =>
      cases p with
      | ret a =>
          cases h
          exact .start
      | call c next =>
          obtain ⟨⟨r, w₁⟩, hreply, h⟩ := Option.bind_eq_some_iff.mp h
          obtain ⟨⟨log₁, p₁, w₂⟩, hrest, h⟩ := Option.map_eq_some_iff.mp h
          cases h
          exact (Reaches.start.next (hact c w r w₁ hreply)).trans (ih hrest)

/-- The result of a program that has ended. -/
def Prog.result : Prog C R α → Option α
  | ret a => some a
  | call _ _ => none

theorem Prog.eq_ret_of_result {p : Prog C R α} {a : α} (h : p.result = some a) : p = ret a := by
  cases p with
  | ret b =>
      cases h
      rfl
  | call c next => cases h

/-- What an evaluation shows of the end of a run holds of a run. -/
theorem Prog.exists_reaches {γ : Type*} {E : Contract C R W}
    {act : (c : C) → W → Option (R c × W)}
    (hact : ∀ c w r w', act c w = some (r, w') → E.step c w r w') {n : ℕ} {p : Prog C R α}
    {w : W} {f : List (Entry C R W) × Prog C R α × W → γ} {x : γ}
    (h : (p.follow act n w).map f = some x) :
    ∃ log p' w', p.Reaches E w log p' w' ∧ f (log, p', w') = x := by
  obtain ⟨⟨log, p', w'⟩, hfollow, hf⟩ := Option.map_eq_some_iff.mp h
  exact ⟨log, p', w', reaches_of_follow hact hfollow, hf⟩

end Interaction
