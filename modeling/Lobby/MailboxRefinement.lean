/-
# Servers with mailboxes and threads that answer their own calls

A run of clients and servers is a run of the machine in which every client answers all its
calls itself: a letter that waits is an answer that has not begun, and a letter that is
answered is what is left of the answer.  Posting, taking and replying are no steps of that
machine, so what holds in all its runs holds of the clients and servers, whatever the
mailboxes and the permits do.
-/
import Lobby.Mailboxes

namespace Interaction

universe u v w

open Prog

namespace Office

open Function (update)

variable {ι κ Ω Ξ W : Type*} {C : Type u} {R : C → Type w} {C' : Type u} {R' : C' → Type v}
  {α : Type w}

variable [DecidableEq ι] [DecidableEq κ] {O : Office κ C R C' R'} {M : Machine ι Ω Ξ C' R' W}
  {K : Machine.Conditions ι Ω Ξ C' W} {s s' s₀ : Config ι κ C R C' R' W α}
  {event : Event ι κ Ω Ξ} {movers : List (Option ι)}

/-- What is left of a client, when it is not with a server. -/
def Task.Stands (O : Office κ C R C' R') : Task κ C R C' R' α → Prog C' R' α → Prop
  | .waiting p, q | .refused p, q | .running p, q => q = p.interp O.answer
  | .answering _ rest next, q => q = rest >>= fun r => (next r).interp O.answer
  | .queued _, _ | .served _, _ => True
  | .ended a, q => q = .ret a

/-- The threads of the machine, where a letter that waits is an answer not yet begun. -/
structure Matches (O : Office κ C R C' R') (s : Config ι κ C R C' R' W α)
    (thread : ι → Prog C' R' α) : Prop where
  task : ∀ i, (s.task i).Stands O (thread i)
  mail : ∀ k, ∀ letter ∈ s.mail k,
    thread letter.sender = (call letter.command letter.next).interp O.answer
  server : ∀ k job, s.server k = some job →
    thread job.letter.sender = job.rest >>= fun r => (job.letter.next r).interp O.answer

section simulation

variable {thread : ι → Prog C' R' α} {i : ι} {k : κ}

omit [DecidableEq κ] in
/-- A client without a letter moves with its thread. -/
theorem Matches.own {t : Task κ C R C' R' α} {q : Prog C' R' α} {l : List ι} {w : W}
    (hm : O.Matches s thread) (hs : O.Consistent s) (hplace : (s.task i).place = none)
    (ht : t.Stands O q) :
    O.Matches { s with task := update s.task i t, holders := l, world := w }
      (update thread i q) where
  task j := by
    show (update s.task i t j).Stands O (update thread i q j)
    by_cases hj : j = i
    · subst hj
      rw [Function.update_self, Function.update_self]
      exact ht
    · rw [Function.update_of_ne hj, Function.update_of_ne hj]
      exact hm.task j
  mail k letter hletter := by
    -- a client whose letter is on its way does not move itself
    have hne : letter.sender ≠ i := by
      rintro rfl
      have hin := hs.place_of_mem hletter
      rw [Config.place, hplace] at hin
      cases hin
    rw [Function.update_of_ne hne]
    exact hm.mail k letter hletter
  server k job hjob := by
    have hne : job.letter.sender ≠ i := by
      rintro rfl
      have hin := hs.place_of_server hjob
      rw [Config.place, hplace] at hin
      cases hin
    rw [Function.update_of_ne hne]
    exact hm.server k job hjob

omit [DecidableEq ι] [DecidableEq κ] in
/-- The call that is made next for a client is the next one of its thread. -/
theorem Matches.of_asks {x : C'} (hm : O.Matches s thread) (hx : s.Asks i x) :
    ∃ next, thread i = .call x next := by
  rcases hx with ⟨c, rest, next, htask⟩ | ⟨k, letter, rest, hserver, rfl⟩
  · have hthread := hm.task i
    rw [htask] at hthread
    exact ⟨_, hthread⟩
  · exact ⟨_, hm.server k _ hserver⟩

/-- The thread of a client that answers, or whose letter is answered, makes the same call. -/
theorem reachable_call {x : C'} {next : R' x → Prog C' R' α} {choice : Ω} {r : R' x} {w w' : W}
    (hthread : thread i = .call x next) (hK : K.call i choice x w)
    (hperform : M.perform i choice x w = some (r, w')) :
    M.Reachable K ⟨thread, w⟩ ⟨update thread i (next r), w'⟩ := by
  have hmeets : K.meets (⟨thread, w⟩ : Interaction.Config ι C' R' W α) (.call i choice) := by
    simpa only [Machine.Conditions.meets, hthread] using hK
  refine .next .start hmeets ?_
  simp only [Machine.step, hthread, hperform, Option.map_some]

/-- **Every move is one of the machine, or none.** -/
theorem Matches.moves (hm : O.Matches s thread) (hs : O.Consistent s) (hmeets : meets K s event)
    (h : O.Moves M s event s') :
    ∃ thread', O.Matches s' thread' ∧ M.Reachable K ⟨thread, s.world⟩ ⟨thread', s'.world⟩ := by
  -- the direct run moves with the calls and the outside events, and stands still else
  cases h with
  | grant i p htask hfree =>
      have hq := hm.task i
      rw [htask] at hq
      have hown := hm.own (i := i) (t := .running p) (l := i :: s.holders) (w := s.world)
        hs (by rw [htask]; rfl) hq
      rw [Function.update_eq_self] at hown
      exact ⟨thread, hown, .start⟩
  | refuse i p htask =>
      have hq := hm.task i
      rw [htask] at hq
      have hown := hm.own (i := i) (t := .refused p) (l := s.holders) (w := s.world) hs
        (by rw [htask]; rfl) hq
      rw [Function.update_eq_self] at hown
      exact ⟨thread, hown, .start⟩
  | start i c next htask hroute =>
      have hq := hm.task i
      rw [htask] at hq
      have hown := hm.own (i := i) (t := .answering c (O.answer c) next) (l := s.holders)
        (w := s.world) hs (by rw [htask]; rfl) hq
      rw [Function.update_eq_self] at hown
      exact ⟨thread, hown, .start⟩
  | post i c next k htask hroute hroom =>
      have hq := hm.task i
      rw [htask] at hq
      refine ⟨thread, ⟨fun j => ?_, fun k' letter hletter => ?_, hm.server⟩, .start⟩
      · show (update s.task i (.queued k) j).Stands O (thread j)
        by_cases hj : j = i
        · subst hj
          rw [Function.update_self]
          exact trivial
        · rw [Function.update_of_ne hj]
          exact hm.task j
      · dsimp only at hletter
        by_cases hk : k' = k
        · subst hk
          rw [Function.update_self] at hletter
          rcases List.mem_append.mp hletter with hletter | hletter
          · exact hm.mail k' letter hletter
          · obtain rfl := List.mem_singleton.mp hletter
            exact hq
        · rw [Function.update_of_ne hk] at hletter
          exact hm.mail k' letter hletter
  | work i choice c x rest next r w htask hperform =>
      have hq := hm.task i
      rw [htask] at hq
      have hK : K.call i choice x s.world := by simpa only [meets, htask] using hmeets
      exact ⟨_, hm.own hs (by rw [htask]; rfl) rfl, reachable_call hq hK hperform⟩
  | resume i c r next htask =>
      have hq := hm.task i
      rw [htask] at hq
      have hown := hm.own (i := i) (t := .running (next r)) (l := s.holders)
        (w := s.world) hs (by rw [htask]; rfl) hq
      rw [Function.update_eq_self] at hown
      exact ⟨thread, hown, .start⟩
  | finish i a htask =>
      have hq := hm.task i
      rw [htask] at hq
      have hown := hm.own (i := i) (t := .ended a) (l := s.holders.erase i)
        (w := s.world) hs (by rw [htask]; rfl) hq
      rw [Function.update_eq_self] at hown
      exact ⟨thread, hown, .start⟩
  | take k letter letters hserver hmail =>
      refine ⟨thread, ⟨fun j => ?_, fun k' letter' hletter => ?_, fun k' job hjob => ?_⟩, .start⟩
      · show (update s.task letter.sender (.served k) j).Stands O (thread j)
        by_cases hj : j = letter.sender
        · subst hj
          rw [Function.update_self]
          exact trivial
        · rw [Function.update_of_ne hj]
          exact hm.task j
      · refine hm.mail k' letter' ?_
        dsimp only at hletter
        by_cases hk : k' = k
        · subst hk
          rw [Function.update_self] at hletter
          rw [hmail]
          exact List.mem_cons_of_mem letter hletter
        · rwa [Function.update_of_ne hk] at hletter
      · dsimp only at hjob
        by_cases hk : k' = k
        · subst hk
          rw [Function.update_self] at hjob
          cases hjob
          refine hm.mail k' letter ?_
          rw [hmail]
          exact List.mem_cons_self
        · rw [Function.update_of_ne hk] at hjob
          exact hm.server k' job hjob
  | serve k choice letter x rest r w hserver hperform =>
      have hthread := hm.server k _ hserver
      have hplace := hs.place_of_server hserver
      have hK : K.call letter.sender choice x s.world := by
        simpa only [meets, hserver] using hmeets
      refine ⟨_, ⟨fun j => ?_, fun k' letter' hletter => ?_, fun k' job hjob => ?_⟩,
        reachable_call hthread hK hperform⟩
      · by_cases hj : j = letter.sender
        · subst hj
          have hserved : s.task letter.sender = .served k := by
            cases htask : s.task letter.sender with
            | served k' =>
                rw [Config.place, htask] at hplace
                cases hplace
                rfl
            | _ => rw [Config.place, htask] at hplace; cases hplace
          rw [hserved]
          exact trivial
        · rw [Function.update_of_ne hj]
          exact hm.task j
      · have hne : letter'.sender ≠ letter.sender := by
          intro heq
          have hin := hs.place_of_mem hletter
          rw [heq, hplace] at hin
          cases hin
        rw [Function.update_of_ne hne]
        exact hm.mail k' letter' hletter
      · dsimp only at hjob
        by_cases hk : k' = k
        · subst hk
          rw [Function.update_self] at hjob
          cases hjob
          rw [Function.update_self]
          rfl
        · rw [Function.update_of_ne hk] at hjob
          have hne : job.letter.sender ≠ letter.sender := by
            intro heq
            have hin := hs.place_of_server hjob
            rw [heq, hplace] at hin
            cases hin
            exact hk rfl
          rw [Function.update_of_ne hne]
          exact hm.server k' job hjob
  | reply k letter r hserver =>
      have hthread := hm.server k _ hserver
      refine ⟨thread, ⟨fun j => ?_, hm.mail, fun k' job hjob => ?_⟩, .start⟩
      · show (update s.task letter.sender (.running (letter.next r)) j).Stands O (thread j)
        by_cases hj : j = letter.sender
        · subst hj
          rw [Function.update_self]
          exact hthread
        · rw [Function.update_of_ne hj]
          exact hm.task j
      · dsimp only at hjob
        by_cases hk : k' = k
        · subst hk
          rw [Function.update_self] at hjob
          cases hjob
        · rw [Function.update_of_ne hk] at hjob
          exact hm.server k' job hjob
  | external event w hexternal =>
      have hmeets' : K.meets (⟨thread, s.world⟩ : Interaction.Config ι C' R' W α)
          (.external event) := hmeets
      refine ⟨thread, ⟨hm.task, hm.mail, hm.server⟩, .next .start hmeets' ?_⟩
      simp only [Machine.step, hexternal, Option.map_some]

/-- **A run is one of the machine whose threads answer all their calls.** -/
theorem Runs.simulated {p : ι → Prog C R α} {w₀ : W} (h : O.Runs M K (Office.start p w₀) movers s) :
    ∃ thread, O.Matches s thread
      ∧ M.Reachable K ⟨fun i => (p i).interp O.answer, w₀⟩ ⟨thread, s.world⟩ := by
  induction h with
  | start => exact ⟨_, ⟨fun _ => rfl, fun _ _ h => (nomatch h), fun _ _ h => (nomatch h)⟩, .start⟩
  | next h hmeets hstep ih =>
      obtain ⟨thread, hm, hreach⟩ := ih
      obtain ⟨thread', hm', hreach'⟩ :=
        hm.moves (h.consistent (consistent_start p w₀)) hmeets (moves_of_step hstep)
      exact ⟨thread', hm', hreach.trans hreach'⟩

end simulation

/-! ## Other worlds -/

section project

variable {Ω' Ξ' W' : Type*} {M' : Machine ι Ω' Ξ' C' R' W'}
  {K' : Machine.Conditions ι Ω' Ξ' C' W'}

/-- The same clients and servers over another world. -/
def Config.over (s : Config ι κ C R C' R' W' α) (w : W) : Config ι κ C R C' R' W α where
  task := s.task
  mail := s.mail
  server := s.server
  holders := s.holders
  world := w
  posted := s.posted
  calls := s.calls

/-- **A run over a world is a run over what it shows of another one**, if every call and every
outside event is one there.  `P` is what is known at the end of the run, and it is known of
the worlds before. -/
theorem Runs.project (f : W' → W) {P : W' → Prop}
    (hcall : ∀ {i choice c w r w'}, K'.call i choice c w → M'.perform i choice c w = some (r, w') →
      P w' → P w ∧ ∃ choice', K.call i choice' c (f w)
        ∧ M.perform i choice' c (f w) = some (r, f w'))
    (hexternal : ∀ {event w w'}, K'.external event w → M'.external event w = some w' → P w' →
      P w ∧ ∃ event', K.external event' (f w) ∧ M.external event' (f w) = some (f w'))
    {s₀ s : Config ι κ C R C' R' W' α} (h : O.Runs M' K' s₀ movers s) (hP : P s.world) :
    O.Runs M K (s₀.over (f s₀.world)) movers (s.over (f s.world)) := by
  induction h with
  | start => exact .start
  | @next movers s event s' h hmeets hstep ih =>
      -- an event that leaves the world alone is the same event
      have hsame : ∀ event' : Event ι κ Ω Ξ, P s.world →
          meets K (s.over (f s.world)) event' →
          O.Moves M (s.over (f s.world)) event' (s'.over (f s'.world)) →
          mover (s.over (f s.world)) event' = mover s event →
          O.Runs M K (s₀.over (f s₀.world)) (mover s event :: movers) (s'.over (f s'.world)) := by
        intro event' hP' hmeets' hmoves hmover
        rw [← hmover]
        exact .next (ih hP') hmeets' (step_of_moves hmoves)
      cases moves_of_step hstep with
      | grant i p htask hfree =>
          exact hsame (.grant i) hP trivial (.grant i p htask hfree) rfl
      | refuse i p htask => exact hsame (.refuse i) hP trivial (.refuse i p htask) rfl
      | start i c next htask hroute =>
          exact hsame (.issue i) hP trivial (.start i c next htask hroute) rfl
      | post i c next k htask hroute hroom =>
          exact hsame (.issue i) hP trivial (.post i c next k htask hroute hroom) rfl
      | work i choice c x rest next r w htask hperform =>
          simp only [meets, htask] at hmeets
          obtain ⟨hP', choice', hcall', hperform'⟩ := hcall hmeets hperform hP
          refine hsame (.work i choice') hP' ?_
            (.work i choice' c x rest next r (f w) htask hperform') rfl
          simp only [meets, Config.over, htask]
          exact hcall'
      | resume i c r next htask =>
          exact hsame (.resume i) hP trivial (.resume i c r next htask) rfl
      | finish i a htask => exact hsame (.finish i) hP trivial (.finish i a htask) rfl
      | take k letter letters hserver hmail =>
          exact hsame (.take k) hP trivial (.take k letter letters hserver hmail) rfl
      | serve k choice letter x rest r w hserver hperform =>
          simp only [meets, hserver] at hmeets
          obtain ⟨hP', choice', hcall', hperform'⟩ := hcall hmeets hperform hP
          refine hsame (.serve k choice') hP' ?_
            (.serve k choice' letter x rest r (f w) hserver hperform') rfl
          simp only [meets, Config.over, hserver]
          exact hcall'
      | reply k letter r hserver =>
          exact hsame (.reply k) hP trivial (.reply k letter r hserver) rfl
      | external event w hevent =>
          obtain ⟨hP', event', hexternal', hevent'⟩ := hexternal hmeets hevent hP
          exact hsame (.external event') hP' hexternal'
            (.external event' (f w) hevent') rfl

end project

end Office

end Interaction
