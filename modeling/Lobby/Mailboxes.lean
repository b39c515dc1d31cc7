/-
# Commands to servers with mailboxes

Clients run programs.  A call with a route goes as a letter into the mailbox of a server,
which answers its letters in order and one at a time by running a program of its own, while
the client waits for the reply.  A client answers its other calls itself.  It starts when it
is given one of a number of permits, gives the permit back at its end, and may stop waiting
for one.

`Posts` says that a client has at most one letter, where its task says; `Consistent` adds that
the permits are with the clients that run.  Every move keeps both.
-/
import Lobby.Interaction

namespace Interaction

universe u v w

open Prog

/-- Who answers the calls of the clients, and how. -/
structure Office (κ : Type*) (C : Type u) (R : C → Type w) (C' : Type u) (R' : C' → Type v) where
  /-- the server of a call, if the client does not answer it itself -/
  route : C → Option κ
  answer : (c : C) → Prog C' R' (R c)
  /-- how many letters a mailbox holds -/
  capacity : ℕ
  /-- how many clients run at once -/
  permits : ℕ

namespace Office

/-- A command in a mailbox, with what its sender does with the reply. -/
structure Letter (ι : Type*) (C : Type u) (R : C → Type w) (α : Type w) where
  sender : ι
  command : C
  next : R command → Prog C R α

/-- A letter that is being answered, with what is left of the answer. -/
structure Job (ι : Type*) (C : Type u) (R : C → Type w) (C' : Type u) (R' : C' → Type v)
    (α : Type w) where
  letter : Letter ι C R α
  rest : Prog C' R' (R letter.command)

/-- What a client is doing. -/
inductive Task (κ : Type*) (C : Type u) (R : C → Type w) (C' : Type u) (R' : C' → Type v)
    (α : Type w) where
  /-- it waits for a permit -/
  | waiting (p : Prog C R α)
  /-- it has stopped waiting for one -/
  | refused (p : Prog C R α)
  | running (p : Prog C R α)
  /-- it answers one of its calls itself -/
  | answering (c : C) (rest : Prog C' R' (R c)) (next : R c → Prog C R α)
  /-- its letter is in the mailbox of a server -/
  | queued (k : κ)
  /-- a server is answering its letter -/
  | served (k : κ)
  | ended (a : α)

structure Config (ι κ : Type*) (C : Type u) (R : C → Type w) (C' : Type u) (R' : C' → Type v)
    (W : Type*) (α : Type w) where
  task : ι → Task κ C R C' R' α
  mail : κ → List (Letter ι C R α)
  server : κ → Option (Job ι C R C' R' α)
  /-- who has a permit -/
  holders : List ι
  world : W
  /-- history: what was posted to each server, in order -/
  posted : κ → List (ι × C)
  /-- history: the calls each server has made, in order -/
  calls : κ → List ((c : C') × R' c)

inductive Event (ι κ Ω Ξ : Type*) where
  | grant (i : ι)
  | refuse (i : ι)
  /-- the next call of a client is posted, or the client starts to answer it -/
  | issue (i : ι)
  | work (i : ι) (choice : Ω)
  | resume (i : ι)
  | finish (i : ι)
  | take (k : κ)
  | serve (k : κ) (choice : Ω)
  | reply (k : κ)
  | external (event : Ξ)

open Function (update)

variable {ι κ Ω Ξ W : Type*} {C : Type u} {R : C → Type w} {C' : Type u} {R' : C' → Type v}
  {α : Type w}

/-- Every client waits for a permit with its program. -/
def start (p : ι → Prog C R α) (w : W) : Config ι κ C R C' R' W α where
  task i := .waiting (p i)
  mail _ := []
  server _ := none
  holders := []
  world := w
  posted _ := []
  calls _ := []

variable [DecidableEq ι] [DecidableEq κ] (O : Office κ C R C' R') (M : Machine ι Ω Ξ C' R' W)

/-- One event, if it can happen. -/
def step (s : Config ι κ C R C' R' W α) : Event ι κ Ω Ξ → Option (Config ι κ C R C' R' W α)
  | .grant i =>
    match s.task i with
    | .waiting p =>
      if s.holders.length < O.permits then
        some { s with task := update s.task i (.running p), holders := i :: s.holders }
      else none
    | _ => none
  | .refuse i =>
    match s.task i with
    | .waiting p => some { s with task := update s.task i (.refused p) }
    | _ => none
  | .issue i =>
    match s.task i with
    | .running (.call c next) =>
      match O.route c with
      | none => some { s with task := update s.task i (.answering c (O.answer c) next) }
      | some k =>
        if (s.mail k).length < O.capacity then
          some { s with
            task := update s.task i (.queued k)
            mail := update s.mail k (s.mail k ++ [⟨i, c, next⟩])
            posted := update s.posted k (s.posted k ++ [(i, c)]) }
        else none
    | _ => none
  | .work i choice =>
    match s.task i with
    | .answering c (.call x rest) next =>
      (M.perform i choice x s.world).map fun reply =>
        { s with
          task := update s.task i (.answering c (rest reply.1) next)
          world := reply.2 }
    | _ => none
  | .resume i =>
    match s.task i with
    | .answering _ (.ret r) next => some { s with task := update s.task i (.running (next r)) }
    | _ => none
  | .finish i =>
    match s.task i with
    | .running (.ret a) =>
      some { s with task := update s.task i (.ended a), holders := s.holders.erase i }
    | _ => none
  | .take k =>
    match s.server k, s.mail k with
    | none, letter :: letters =>
      some { s with
        task := update s.task letter.sender (.served k)
        mail := update s.mail k letters
        server := update s.server k (some ⟨letter, O.answer letter.command⟩) }
    | _, _ => none
  | .serve k choice =>
    match s.server k with
    | some ⟨letter, .call x rest⟩ =>
      (M.perform letter.sender choice x s.world).map fun reply =>
        { s with
          server := update s.server k (some ⟨letter, rest reply.1⟩)
          world := reply.2
          calls := update s.calls k (s.calls k ++ [⟨x, reply.1⟩]) }
    | _ => none
  | .reply k =>
    match s.server k with
    | some ⟨letter, .ret r⟩ =>
      some { s with
        task := update s.task letter.sender (.running (letter.next r))
        server := update s.server k none }
    | _ => none
  | .external event => (M.external event s.world).map fun w => { s with world := w }

/-- What one event does. -/
inductive Moves (s : Config ι κ C R C' R' W α) :
    Event ι κ Ω Ξ → Config ι κ C R C' R' W α → Prop where
  | grant (i p) (htask : s.task i = .waiting p) (hfree : s.holders.length < O.permits) :
      Moves s (.grant i)
        { s with task := update s.task i (.running p), holders := i :: s.holders }
  | refuse (i p) (htask : s.task i = .waiting p) :
      Moves s (.refuse i) { s with task := update s.task i (.refused p) }
  | start (i c next) (htask : s.task i = .running (.call c next)) (hroute : O.route c = none) :
      Moves s (.issue i) { s with task := update s.task i (.answering c (O.answer c) next) }
  | post (i c next k) (htask : s.task i = .running (.call c next))
      (hroute : O.route c = some k) (hroom : (s.mail k).length < O.capacity) :
      Moves s (.issue i)
        { s with
          task := update s.task i (.queued k)
          mail := update s.mail k (s.mail k ++ [⟨i, c, next⟩])
          posted := update s.posted k (s.posted k ++ [(i, c)]) }
  | work (i choice c x rest next r w) (htask : s.task i = .answering c (.call x rest) next)
      (hperform : M.perform i choice x s.world = some (r, w)) :
      Moves s (.work i choice)
        { s with task := update s.task i (.answering c (rest r) next), world := w }
  | resume (i c r next) (htask : s.task i = .answering c (.ret r) next) :
      Moves s (.resume i) { s with task := update s.task i (.running (next r)) }
  | finish (i a) (htask : s.task i = .running (.ret a)) :
      Moves s (.finish i)
        { s with task := update s.task i (.ended a), holders := s.holders.erase i }
  | take (k letter letters) (hserver : s.server k = none)
      (hmail : s.mail k = letter :: letters) :
      Moves s (.take k)
        { s with
          task := update s.task letter.sender (.served k)
          mail := update s.mail k letters
          server := update s.server k (some ⟨letter, O.answer letter.command⟩) }
  | serve (k choice letter x rest r w) (hserver : s.server k = some ⟨letter, .call x rest⟩)
      (hperform : M.perform letter.sender choice x s.world = some (r, w)) :
      Moves s (.serve k choice)
        { s with
          server := update s.server k (some ⟨letter, rest r⟩)
          world := w
          calls := update s.calls k (s.calls k ++ [⟨x, r⟩]) }
  | reply (k letter r) (hserver : s.server k = some ⟨letter, .ret r⟩) :
      Moves s (.reply k)
        { s with
          task := update s.task letter.sender (.running (letter.next r))
          server := update s.server k none }
  | external (event w) (hexternal : M.external event s.world = some w) :
      Moves s (.external event) { s with world := w }

variable {O M} {s s' : Config ι κ C R C' R' W α} {event : Event ι κ Ω Ξ}

/-- **Every event that happens is one of these moves.** -/
theorem moves_of_step (h : O.step M s event = some s') : O.Moves M s event s' := by
  cases event with
  | grant i =>
      simp only [step] at h
      split at h
      · rename_i p htask
        split at h
        · rename_i hfree
          cases h
          exact .grant i p htask hfree
        · cases h
      · cases h
  | refuse i =>
      simp only [step] at h
      split at h
      · rename_i p htask
        cases h
        exact .refuse i p htask
      · cases h
  | issue i =>
      simp only [step] at h
      split at h
      · rename_i c next htask
        split at h
        · rename_i hroute
          cases h
          exact .start i c next htask hroute
        · rename_i k hroute
          split at h
          · rename_i hroom
            cases h
            exact .post i c next k htask hroute hroom
          · cases h
      · cases h
  | work i choice =>
      simp only [step] at h
      split at h
      · rename_i c x rest next htask
        obtain ⟨⟨r, w⟩, hperform, rfl⟩ := Option.map_eq_some_iff.mp h
        exact .work i choice c x rest next r w htask hperform
      · cases h
  | resume i =>
      simp only [step] at h
      split at h
      · rename_i c r next htask
        cases h
        exact .resume i c r next htask
      · cases h
  | finish i =>
      simp only [step] at h
      split at h
      · rename_i a htask
        cases h
        exact .finish i a htask
      · cases h
  | take k =>
      simp only [step] at h
      split at h
      · rename_i letter letters hserver hmail
        cases h
        exact .take k letter letters hserver hmail
      · cases h
  | serve k choice =>
      simp only [step] at h
      split at h
      · rename_i letter x rest hserver
        obtain ⟨⟨r, w⟩, hperform, rfl⟩ := Option.map_eq_some_iff.mp h
        exact .serve k choice letter x rest r w hserver hperform
      · cases h
  | reply k =>
      simp only [step] at h
      split at h
      · rename_i letter r hserver
        cases h
        exact .reply k letter r hserver
      · cases h
  | external event =>
      obtain ⟨w, hexternal, rfl⟩ := Option.map_eq_some_iff.mp h
      exact .external event w hexternal

theorem step_of_moves (h : O.Moves M s event s') : O.step M s event = some s' := by
  cases h with
  | grant i p htask hfree => simp only [step, htask, if_pos hfree]
  | refuse i p htask => simp only [step, htask]
  | start i c next htask hroute => simp only [step, htask, hroute]
  | post i c next k htask hroute hroom => simp only [step, htask, hroute, if_pos hroom]
  | work i choice c x rest next r w htask hperform =>
      simp only [step, htask, hperform, Option.map_some]
  | resume i c r next htask => simp only [step, htask]
  | finish i a htask => simp only [step, htask]
  | take k letter letters hserver hmail => simp only [step, hserver, hmail]
  | serve k choice letter x rest r w hserver hperform =>
      simp only [step, hserver, hperform, Option.map_some]
  | reply k letter r hserver => simp only [step, hserver]
  | external event w hexternal => simp only [step, hexternal, Option.map_some]

/-! ## Where the letters are -/

/-- With which server the letter of a client is, and whether it was taken. -/
def Task.place : Task κ C R C' R' α → Option (κ × Bool)
  | .queued k => some (k, false)
  | .served k => some (k, true)
  | _ => none

/-- Whether a client has a permit. -/
def Task.holds : Task κ C R C' R' α → Bool
  | .waiting _ | .refused _ | .ended _ => false
  | _ => true

def Config.place (s : Config ι κ C R C' R' W α) (i : ι) : Option (κ × Bool) := (s.task i).place

def Config.senders (s : Config ι κ C R C' R' W α) (k : κ) : List ι :=
  (s.mail k).map Letter.sender

def Config.attended (s : Config ι κ C R C' R' W α) (k : κ) : Option ι :=
  (s.server k).map fun job => job.letter.sender

/-- The next call in the world on behalf of a client. -/
def Config.Asks (s : Config ι κ C R C' R' W α) (i : ι) (x : C') : Prop :=
  (∃ c rest next, s.task i = .answering c (.call x rest) next)
    ∨ ∃ k letter rest, s.server k = some ⟨letter, .call x rest⟩ ∧ letter.sender = i

/-- A client has one letter at most, where its task says. -/
structure Posts (place : ι → Option (κ × Bool)) (senders : κ → List ι)
    (attended : κ → Option ι) : Prop where
  queued : ∀ i k, i ∈ senders k ↔ place i = some (k, false)
  nodup : ∀ k, (senders k).Nodup
  served : ∀ i k, attended k = some i ↔ place i = some (k, true)

section posts

variable {place : ι → Option (κ × Bool)} {senders : κ → List ι} {attended : κ → Option ι}
  {i : ι} {k : κ}

/-- A new letter at the end of a mailbox. -/
theorem Posts.post (h : Posts place senders attended) (hi : place i = none) :
    Posts (update place i (some (k, false))) (update senders k (senders k ++ [i])) attended where
  queued j k' := by
    by_cases hk : k' = k
    · subst hk
      rw [Function.update_self, List.mem_append, List.mem_singleton]
      by_cases hj : j = i
      · subst hj
        simp
      · rw [Function.update_of_ne hj, ← h.queued]
        simp [hj]
    · rw [Function.update_of_ne hk]
      by_cases hj : j = i
      · subst hj
        rw [Function.update_self, h.queued, hi]
        simp [Ne.symm hk]
      · rw [Function.update_of_ne hj]
        exact h.queued j k'
  nodup k' := by
    by_cases hk : k' = k
    · subst hk
      rw [Function.update_self]
      refine List.nodup_append.mpr ⟨h.nodup k', List.nodup_singleton i, ?_⟩
      rintro j hj _ hi' rfl
      obtain rfl := List.mem_singleton.mp hi'
      rw [h.queued, hi] at hj
      cases hj
    · rw [Function.update_of_ne hk]
      exact h.nodup k'
  served j k' := by
    by_cases hj : j = i
    · subst hj
      rw [Function.update_self, h.served, hi]
      simp
    · rw [Function.update_of_ne hj]
      exact h.served j k'

/-- The first letter of a mailbox is taken. -/
theorem Posts.take {rest : List ι} (h : Posts place senders attended)
    (hsenders : senders k = i :: rest) (hidle : attended k = none) :
    Posts (update place i (some (k, true))) (update senders k rest)
      (update attended k (some i)) where
  queued j k' := by
    have hplace : place i = some (k, false) := (h.queued i k).mp (by simp [hsenders])
    have hnodup := h.nodup k
    rw [hsenders, List.nodup_cons] at hnodup
    by_cases hj : j = i
    · subst hj
      rw [Function.update_self]
      by_cases hk : k' = k
      · subst hk
        rw [Function.update_self]
        simp [hnodup.1]
      · rw [Function.update_of_ne hk, h.queued, hplace]
        simp [Ne.symm hk]
    · rw [Function.update_of_ne hj, ← h.queued]
      by_cases hk : k' = k
      · subst hk
        rw [Function.update_self, hsenders]
        simp [hj]
      · rw [Function.update_of_ne hk]
  nodup k' := by
    by_cases hk : k' = k
    · subst hk
      rw [Function.update_self]
      have hnodup := h.nodup k'
      rw [hsenders, List.nodup_cons] at hnodup
      exact hnodup.2
    · rw [Function.update_of_ne hk]
      exact h.nodup k'
  served j k' := by
    have hplace : place i = some (k, false) := (h.queued i k).mp (by simp [hsenders])
    by_cases hk : k' = k
    · subst hk
      rw [Function.update_self]
      by_cases hj : j = i
      · subst hj
        simp
      · rw [Function.update_of_ne hj, ← h.served, hidle]
        simp [Ne.symm hj]
    · rw [Function.update_of_ne hk, h.served]
      by_cases hj : j = i
      · subst hj
        rw [Function.update_self, hplace]
        simp [Ne.symm hk]
      · rw [Function.update_of_ne hj]

/-- The letter that was answered is gone. -/
theorem Posts.reply (h : Posts place senders attended) (hserved : attended k = some i) :
    Posts (update place i none) senders (update attended k none) where
  queued j k' := by
    have hplace := (h.served i k).mp hserved
    by_cases hj : j = i
    · subst hj
      rw [Function.update_self, h.queued, hplace]
      simp
    · rw [Function.update_of_ne hj]
      exact h.queued j k'
  nodup := h.nodup
  served j k' := by
    have hplace := (h.served i k).mp hserved
    by_cases hk : k' = k
    · subst hk
      rw [Function.update_self]
      by_cases hj : j = i
      · subst hj
        simp
      · rw [Function.update_of_ne hj, ← h.served, hserved]
        simp [Ne.symm hj]
    · rw [Function.update_of_ne hk, h.served]
      by_cases hj : j = i
      · subst hj
        rw [Function.update_self, hplace]
        simp [Ne.symm hk]
      · rw [Function.update_of_ne hj]

end posts

/-- Every letter is where the task of its sender says, and the permits are with the clients
that run. -/
structure Consistent (O : Office κ C R C' R') (s : Config ι κ C R C' R' W α) : Prop where
  posts : Posts s.place s.senders s.attended
  holders : ∀ i, i ∈ s.holders ↔ (s.task i).holds = true
  nodup : s.holders.Nodup
  length_le : s.holders.length ≤ O.permits

omit [DecidableEq ι] [DecidableEq κ] in
theorem consistent_start (p : ι → Prog C R α) (w : W) :
    O.Consistent (start p w : Config ι κ C R C' R' W α) where
  posts := {
    queued i k := by simp [Config.senders, Config.place, start, Task.place]
    nodup k := List.nodup_nil
    served i k := by simp [Config.attended, Config.place, start, Task.place] }
  holders i := by simp [start, Task.holds]
  nodup := List.nodup_nil
  length_le := Nat.zero_le _

section consistent

variable {i : ι} {k : κ} {t : Task κ C R C' R' α}

omit [DecidableEq κ] in
theorem place_update (task : ι → Task κ C R C' R' α) (i : ι) (t : Task κ C R C' R' α) :
    (fun j => (update task i t j).place) = update (fun j => (task j).place) i t.place := by
  funext j
  by_cases hj : j = i
  · subst hj
    simp
  · simp [Function.update_of_ne hj]

omit [DecidableEq ι] in
theorem senders_update (mail : κ → List (Letter ι C R α)) (k : κ)
    (letters : List (Letter ι C R α)) :
    (fun k' => (update mail k letters k').map Letter.sender)
      = update (fun k' => (mail k').map Letter.sender) k (letters.map Letter.sender) := by
  funext k'
  by_cases hk : k' = k
  · subst hk
    simp
  · simp [Function.update_of_ne hk]

omit [DecidableEq ι] in
theorem attended_update (server : κ → Option (Job ι C R C' R' α)) (k : κ)
    (job : Option (Job ι C R C' R' α)) :
    (fun k' => (update server k job k').map fun job => job.letter.sender)
      = update (fun k' => (server k').map fun job => job.letter.sender) k
          (job.map fun job => job.letter.sender) := by
  funext k'
  by_cases hk : k' = k
  · subst hk
    simp
  · simp [Function.update_of_ne hk]

omit [DecidableEq κ] in
/-- A task that changes without a letter. -/
theorem place_update_of_eq (h : t.place = (s.task i).place) :
    (fun j => (update s.task i t j).place) = s.place := by
  rw [place_update, h]
  exact Function.update_eq_self i s.place

omit [DecidableEq κ] in
/-- The permits, when a client keeps its own. -/
theorem holders_update (h : ∀ j, j ∈ s.holders ↔ (s.task j).holds = true)
    (ht : t.holds = (s.task i).holds) (j : ι) :
    j ∈ s.holders ↔ (update s.task i t j).holds = true := by
  by_cases hj : j = i
  · subst hj
    rw [Function.update_self, ht]
    exact h j
  · rw [Function.update_of_ne hj]
    exact h j

/-- **Every move keeps it.** -/
theorem Consistent.moves (hs : O.Consistent s) (h : O.Moves M s event s') : O.Consistent s' := by
  -- a client that changes its task and keeps its letter and its permit
  have hown : ∀ {i : ι} {t : Task κ C R C' R' α} {w : W}, t.place = (s.task i).place →
      t.holds = (s.task i).holds →
      O.Consistent { s with task := update s.task i t, world := w } := by
    intro i t w hplace hholds
    refine ⟨?_, holders_update hs.holders hholds, hs.nodup, hs.length_le⟩
    show Posts (fun j => (update s.task i t j).place) s.senders s.attended
    rw [place_update_of_eq hplace]
    exact hs.posts
  cases h with
  | grant i p htask hfree =>
      have hnot : i ∉ s.holders := by
        rw [hs.holders, htask]
        exact Bool.false_ne_true
      refine ⟨?_, fun j => ?_, List.nodup_cons.mpr ⟨hnot, hs.nodup⟩, hfree⟩
      · show Posts (fun j => (update s.task i (.running p) j).place) s.senders s.attended
        rw [place_update_of_eq (by rw [htask]; rfl)]
        exact hs.posts
      · show j ∈ i :: s.holders ↔ (update s.task i (.running p) j).holds = true
        by_cases hj : j = i
        · subst hj
          simp [Task.holds]
        · rw [Function.update_of_ne hj, ← hs.holders]
          simp [hj]
  | refuse i p htask => exact hown (by rw [htask]; rfl) (by rw [htask]; rfl)
  | start i c next htask hroute => exact hown (by rw [htask]; rfl) (by rw [htask]; rfl)
  | post i c next k htask hroute hroom =>
      refine ⟨?_, holders_update hs.holders (by rw [htask]; rfl), hs.nodup, hs.length_le⟩
      show Posts (fun j => (update s.task i (.queued k) j).place)
        (fun k' => (update s.mail k (s.mail k ++ [⟨i, c, next⟩]) k').map Letter.sender) s.attended
      rw [place_update, senders_update, List.map_append]
      exact hs.posts.post (by rw [Config.place, htask]; rfl)
  | work i choice c x rest next r w htask hperform =>
      exact hown (by rw [htask]; rfl) (by rw [htask]; rfl)
  | resume i c r next htask => exact hown (by rw [htask]; rfl) (by rw [htask]; rfl)
  | finish i a htask =>
      refine ⟨?_, fun j => ?_, hs.nodup.erase i, ?_⟩
      · show Posts (fun j => (update s.task i (.ended a) j).place) s.senders s.attended
        rw [place_update_of_eq (by rw [htask]; rfl)]
        exact hs.posts
      · show j ∈ s.holders.erase i ↔ (update s.task i (.ended a) j).holds = true
        rw [hs.nodup.mem_erase_iff]
        by_cases hj : j = i
        · subst hj
          simp [Task.holds]
        · rw [Function.update_of_ne hj, ← hs.holders]
          simp [hj]
      · exact (List.length_erase_le).trans hs.length_le
  | take k letter letters hserver hmail =>
      have hplace : (s.task letter.sender).place = some (k, false) := by
        refine (hs.posts.queued letter.sender k).mp ?_
        rw [Config.senders, hmail]
        exact List.mem_cons_self
      have hholds : Task.holds (.served k : Task κ C R C' R' α)
          = (s.task letter.sender).holds := by
        cases htask : s.task letter.sender with
        | queued => rfl
        | _ => rw [htask] at hplace; cases hplace
      refine ⟨?_, holders_update hs.holders hholds, hs.nodup, hs.length_le⟩
      show Posts (fun j => (update s.task letter.sender (.served k) j).place)
        (fun k' => (update s.mail k letters k').map Letter.sender)
        (fun k' => (update s.server k _ k').map fun job => job.letter.sender)
      rw [place_update, senders_update, attended_update]
      refine hs.posts.take ?_ ?_
      · rw [Config.senders, hmail, List.map_cons]
      · rw [Config.attended, hserver]
        rfl
  | serve k choice letter x rest r w hserver hperform =>
      refine ⟨?_, hs.holders, hs.nodup, hs.length_le⟩
      show Posts s.place s.senders
        (fun k' => (update s.server k _ k').map fun job => job.letter.sender)
      rw [attended_update]
      have hattended : s.attended k = some letter.sender := by
        rw [Config.attended, hserver]
        rfl
      rw [Option.map_some, ← hattended]
      exact (Function.update_eq_self k s.attended).symm ▸ hs.posts
  | reply k letter r hserver =>
      have hattended : s.attended k = some letter.sender := by
        rw [Config.attended, hserver]
        rfl
      have hplace := (hs.posts.served letter.sender k).mp hattended
      have hholds : Task.holds (.running (letter.next r) : Task κ C R C' R' α)
          = (s.task letter.sender).holds := by
        cases htask : s.task letter.sender with
        | served => rfl
        | _ => rw [Config.place, htask] at hplace; cases hplace
      refine ⟨?_, holders_update hs.holders hholds, hs.nodup, hs.length_le⟩
      show Posts (fun j => (update s.task letter.sender (.running (letter.next r)) j).place)
        s.senders (fun k' => (update s.server k none k').map fun job => job.letter.sender)
      rw [place_update, attended_update]
      exact hs.posts.reply hattended
  | external event w hexternal => exact ⟨hs.posts, hs.holders, hs.nodup, hs.length_le⟩

omit [DecidableEq ι] [DecidableEq κ] in
theorem Consistent.place_of_mem (hs : O.Consistent s) {letter : Letter ι C R α}
    (h : letter ∈ s.mail k) : s.place letter.sender = some (k, false) :=
  (hs.posts.queued letter.sender k).mp (List.mem_map_of_mem h)

omit [DecidableEq ι] [DecidableEq κ] in
theorem Consistent.place_of_server (hs : O.Consistent s) {job : Job ι C R C' R' α}
    (h : s.server k = some job) : s.place job.letter.sender = some (k, true) := by
  refine (hs.posts.served job.letter.sender k).mp ?_
  rw [Config.attended, h]
  rfl

omit [DecidableEq ι] [DecidableEq κ] in
/-- A client that is served has the letter of the server. -/
theorem Consistent.task_of_server (hs : O.Consistent s) {k : κ} {job : Job ι C R C' R' α}
    (h : s.server k = some job) : s.task job.letter.sender = .served k := by
  have hplace := hs.place_of_server h
  cases htask : s.task job.letter.sender with
  | served k' =>
      rw [Config.place, htask] at hplace
      cases hplace
      rfl
  | _ => rw [Config.place, htask] at hplace; cases hplace

omit [DecidableEq ι] [DecidableEq κ] in
theorem Consistent.task_of_mem (hs : O.Consistent s) {k : κ} {letter : Letter ι C R α}
    (h : letter ∈ s.mail k) : s.task letter.sender = .queued k := by
  have hplace := hs.place_of_mem h
  cases htask : s.task letter.sender with
  | queued k' =>
      rw [Config.place, htask] at hplace
      cases hplace
      rfl
  | _ => rw [Config.place, htask] at hplace; cases hplace

omit [DecidableEq ι] [DecidableEq κ] in
/-- Two letters of one sender in a mailbox are one. -/
theorem Consistent.letter_unique (hs : O.Consistent s) {k : κ} {l l' : Letter ι C R α}
    (h : l ∈ s.mail k) (h' : l' ∈ s.mail k) (hsender : l.sender = l'.sender) : l = l' :=
  List.inj_on_of_nodup_map (hs.posts.nodup k) h h' hsender

end consistent

/-! ## Runs -/

/-- The client an event is a move of. -/
def mover (s : Config ι κ C R C' R' W α) : Event ι κ Ω Ξ → Option ι
  | .grant i | .refuse i | .issue i | .work i _ | .resume i | .finish i => some i
  | .take k => (s.senders k).head?
  | .serve k _ | .reply k => s.attended k
  | .external _ => none

/-- The conditions of the machine on what happens in its world. -/
def meets (K : Machine.Conditions ι Ω Ξ C' W) (s : Config ι κ C R C' R' W α) :
    Event ι κ Ω Ξ → Prop
  | .work i choice =>
    match s.task i with
    | .answering _ (.call x _) _ => K.call i choice x s.world
    | _ => True
  | .serve k choice =>
    match s.server k with
    | some ⟨letter, .call x _⟩ => K.call letter.sender choice x s.world
    | _ => True
  | .external event => K.external event s.world
  | _ => True

/-- A run from one configuration to another, with the client that made each move, the latest
first. -/
inductive Runs (O : Office κ C R C' R') (M : Machine ι Ω Ξ C' R' W)
    (K : Machine.Conditions ι Ω Ξ C' W) (s₀ : Config ι κ C R C' R' W α) :
    List (Option ι) → Config ι κ C R C' R' W α → Prop where
  | start : Runs O M K s₀ [] s₀
  | next {movers s event s'} (h : Runs O M K s₀ movers s) (hmeets : meets K s event)
      (hstep : O.step M s event = some s') : Runs O M K s₀ (mover s event :: movers) s'

variable {K : Machine.Conditions ι Ω Ξ C' W} {s₀ : Config ι κ C R C' R' W α}
  {movers : List (Option ι)}

theorem Runs.consistent (h : O.Runs M K s₀ movers s) (h₀ : O.Consistent s₀) :
    O.Consistent s := by
  induction h with
  | start => exact h₀
  | next _ _ hstep ih => exact ih.moves (moves_of_step hstep)

/-- A sequence of events, with the clients that moved before and in it. -/
def run (O : Office κ C R C' R') (M : Machine ι Ω Ξ C' R' W) (movers : List (Option ι))
    (s : Config ι κ C R C' R' W α) :
    List (Event ι κ Ω Ξ) → Option (List (Option ι) × Config ι κ C R C' R' W α)
  | [] => some (movers, s)
  | event :: events => (O.step M s event).bind fun s' => run O M (mover s event :: movers) s' events

theorem Runs.run {events : List (Event ι κ Ω Ξ)} {movers' : List (Option ι)}
    (h : O.Runs M .free s₀ movers s) (hrun : O.run M movers s events = some (movers', s')) :
    O.Runs M .free s₀ movers' s' := by
  induction events generalizing movers s with
  | nil =>
      cases hrun
      exact h
  | cons event events ih =>
      obtain ⟨s₁, hstep, hrest⟩ := Option.bind_eq_some_iff.mp hrun
      refine ih (.next h ?_ hstep) hrest
      cases event with
      | work i choice =>
          simp only [meets]
          split <;> exact trivial
      | serve k choice =>
          simp only [meets]
          split <;> exact trivial
      | _ => exact trivial

/-- What an evaluation shows of the end of a sequence of events holds of the end of a run. -/
theorem exists_runs {β : Type*} {events : List (Event ι κ Ω Ξ)} {f : Config ι κ C R C' R' W α → β}
    {b : β} (h : (O.run M [] s₀ events).map (fun x => f x.2) = some b) :
    ∃ movers s, O.Runs M .free s₀ movers s ∧ f s = b := by
  obtain ⟨⟨movers, s⟩, hrun, hf⟩ := Option.map_eq_some_iff.mp h
  exact ⟨movers, s, Runs.run .start hrun, hf⟩

end Office

end Interaction
