/-
# What servers with mailboxes do for their clients

* `Runs.serial`: the calls of a server are those of complete answers, one after the other, to
  the letters in the order in which they were posted.
* `Runs.moves_le`: no client moves more often than its program and the answers allow.
* `Consistent.progress`: as long as a client has not come to its end, some client can move.
* `Consistent.posts_at_once`: with no more permits than a mailbox has room, no client waits to
  post a command.
-/
import Lobby.Mailboxes

namespace Interaction

universe u v w

open Prog

namespace Office

open Function (update)

variable {ι κ Ω Ξ W : Type*} {C : Type u} {R : C → Type w} {C' : Type u} {R' : C' → Type v}
  {α : Type w}

variable [DecidableEq ι] [DecidableEq κ] {O : Office κ C R C' R'} {M : Machine ι Ω Ξ C' R' W}
  {K : Machine.Conditions ι Ω Ξ C' W} {s s' s₀ : Config ι κ C R C' R' W α}
  {event : Event ι κ Ω Ξ} {movers : List (Option ι)}

/-! ## One answer after the other -/

/-- What is left of a program after the replies to some calls. -/
inductive Follows (p : Prog C' R' α) : List ((c : C') × R' c) → Prog C' R' α → Prop where
  | refl : Follows p [] p
  | next {log c next} (h : Follows p log (call c next)) (r : R' c) :
      Follows p (log ++ [⟨c, r⟩]) (next r)

theorem Follows.asks {P : C' → Prop} {p q : Prog C' R' α} {log : List ((c : C') × R' c)}
    (h : Follows p log q) (hp : p.Asks P) : q.Asks P := by
  induction h with
  | refl => exact hp
  | next _ r ih => exact ih.2 r

/-- A letter with the calls of its complete answer. -/
structure Answered (ι : Type*) (O : Office κ C R C' R') where
  sender : ι
  command : C
  reply : R command
  calls : List ((c : C') × R' c)
  complete : Follows (O.answer command) calls (.ret reply)

/-- The calls a server has made for the letter it is answering. -/
def Current (O : Office κ C R C' R') (log : List ((c : C') × R' c)) :
    Option (Job ι C R C' R' α) → Prop
  | none => log = []
  | some job => Follows (O.answer job.letter.command) log job.rest

/-- A server answers its letters in order, one at a time and each one once. -/
structure Serial (O : Office κ C R C' R') (s : Config ι κ C R C' R' W α) (k : κ)
    (answered : List (Answered ι O)) (current : List ((c : C') × R' c)) : Prop where
  posted : s.posted k = answered.map (fun a => (a.sender, a.command))
    ++ (s.server k).toList.map (fun job => (job.letter.sender, job.letter.command))
    ++ (s.mail k).map fun letter => (letter.sender, letter.command)
  calls : s.calls k = answered.flatMap Answered.calls ++ current
  current : Current O current (s.server k)

section serial

variable {k : κ} {answered : List (Answered ι O)} {current : List ((c : C') × R' c)}

omit [DecidableEq ι] [DecidableEq κ] in
/-- What concerns other servers only. -/
theorem Serial.of_eq (h : O.Serial s k answered current) (hposted : s'.posted k = s.posted k)
    (hcalls : s'.calls k = s.calls k) (hserver : s'.server k = s.server k)
    (hmail : s'.mail k = s.mail k) : O.Serial s' k answered current where
  posted := by rw [hposted, hserver, hmail, h.posted]
  calls := by rw [hcalls, h.calls]
  current := by rw [hserver]; exact h.current

/-- Every move keeps it. -/
theorem Serial.moves (h : O.Serial s k answered current) (hmoves : O.Moves M s event s') :
    ∃ answered current, O.Serial s' k answered current := by
  cases hmoves with
  | grant | refuse | start | work | resume | finish | external =>
      exact ⟨answered, current, h.posted, h.calls, h.current⟩
  | post i c next k' htask hroute hroom =>
      by_cases hk : k = k'
      · subst hk
        refine ⟨answered, current, ?_, h.calls, h.current⟩
        dsimp only
        rw [Function.update_self, Function.update_self, h.posted, List.map_append,
          List.append_assoc]
        rfl
      · exact ⟨answered, current, h.of_eq (Function.update_of_ne hk _ _) rfl rfl
          (Function.update_of_ne hk _ _)⟩
  | take k' letter letters hserver hmail =>
      by_cases hk : k = k'
      · subst hk
        have hcurrent := h.current
        rw [hserver] at hcurrent
        have hposted := h.posted
        rw [hserver, hmail] at hposted
        refine ⟨answered, [], ?_, ?_, ?_⟩
        · dsimp only
          rw [Function.update_self, Function.update_self, hposted, List.map_cons]
          simp
        · rw [show current = [] from hcurrent] at h
          exact h.calls
        · dsimp only
          rw [Function.update_self]
          exact .refl
      · exact ⟨answered, current, h.of_eq rfl rfl (Function.update_of_ne hk _ _)
          (Function.update_of_ne hk _ _)⟩
  | serve k' choice letter x rest r w hserver hperform =>
      by_cases hk : k = k'
      · subst hk
        have hcurrent := h.current
        rw [hserver] at hcurrent
        have hposted := h.posted
        rw [hserver] at hposted
        refine ⟨answered, current ++ [⟨x, r⟩], ?_, ?_, ?_⟩
        · dsimp only
          rw [Function.update_self, hposted]
          rfl
        · dsimp only
          rw [Function.update_self, h.calls, List.append_assoc]
        · dsimp only
          rw [Function.update_self]
          exact hcurrent.next r
      · exact ⟨answered, current, h.of_eq rfl (Function.update_of_ne hk _ _)
          (Function.update_of_ne hk _ _) rfl⟩
  | reply k' letter r hserver =>
      by_cases hk : k = k'
      · subst hk
        have hcurrent := h.current
        rw [hserver] at hcurrent
        have hposted := h.posted
        rw [hserver] at hposted
        -- the answer is complete, and the next letter has not been taken yet
        refine ⟨answered ++ [⟨letter.sender, letter.command, r, current, hcurrent⟩], [], ?_, ?_, ?_⟩
        · dsimp only
          rw [Function.update_self, hposted, List.map_append]
          simp
        · rw [h.calls, List.flatMap_append]
          simp
        · dsimp only
          rw [Function.update_self]
          rfl
      · exact ⟨answered, current, h.of_eq rfl rfl (Function.update_of_ne hk _ _) rfl⟩

/-- **In every run the calls of a server are those of complete answers, one after the other,
to the letters in the order in which they were posted**, and of the beginning of one more. -/
theorem Runs.serial {p : ι → Prog C R α} {w₀ : W} (h : O.Runs M K (Office.start p w₀) movers s)
    (k : κ) : ∃ answered current, O.Serial s k answered current := by
  induction h with
  | start => exact ⟨[], [], rfl, rfl, rfl⟩
  | next _ _ hstep ih =>
      obtain ⟨answered, current, hserial⟩ := ih
      exact hserial.moves (moves_of_step hstep)

/-- What is posted to a server is routed to it. -/
theorem Runs.routed {p : ι → Prog C R α} {w₀ : W} (h : O.Runs M K (Office.start p w₀) movers s)
    {k : κ} {x : ι × C} (hx : x ∈ s.posted k) : O.route x.2 = some k := by
  induction h generalizing k with
  | start => exact nomatch hx
  | next _ _ hstep ih =>
      cases moves_of_step hstep with
      | grant | refuse | start | work | resume | finish | take | serve | reply | external =>
          exact ih hx
      | post i c next k' htask hroute hroom =>
          dsimp only at hx
          by_cases hk : k = k'
          · subst hk
            rw [Function.update_self] at hx
            rcases List.mem_append.mp hx with hx | hx
            · exact ih hx
            · obtain rfl := List.mem_singleton.mp hx
              exact hroute
          · rw [Function.update_of_ne hk] at hx
            exact ih hx

end serial

/-! ## Every client comes to an end -/

/-- The moves for one more call of a client: to issue it, to take the letter, to answer it in
at most `m` calls, and to return. -/
abbrev callMoves (m : ℕ) : ℕ := m + 3

/-- A client has at most so many moves left, when no answer makes more than `m` calls. -/
def Owes (m : ℕ) (s : Config ι κ C R C' R' W α) (i : ι) (n : ℕ) : Prop :=
  match s.task i with
  | .waiting p => ∃ a, p.Within a ∧ a * callMoves m + 2 ≤ n
  | .running p => ∃ a, p.Within a ∧ a * callMoves m + 1 ≤ n
  | .answering _ rest next =>
    ∃ b a, rest.Within b ∧ (∀ r, (next r).Within a) ∧ b + 1 + (a * callMoves m + 1) ≤ n
  | .queued k => ∃ letter ∈ s.mail k, letter.sender = i
    ∧ ∃ a, (∀ r, (letter.next r).Within a) ∧ m + 2 + (a * callMoves m + 1) ≤ n
  | .served k => ∃ job, s.server k = some job ∧ job.letter.sender = i
    ∧ ∃ b a, job.rest.Within b ∧ (∀ r, (job.letter.next r).Within a)
      ∧ b + 1 + (a * callMoves m + 1) ≤ n
  | .refused _ | .ended _ => True

theorem exists_of_within_call {D : Type u} {S : D → Type v} {c : D} {next : S c → Prog D S α}
    {n : ℕ} (h : (call c next).Within n) : ∃ a, n = a + 1 ∧ ∀ r, (next r).Within a := by
  cases n with
  | zero => exact h.elim
  | succ a => exact ⟨a, rfl, h⟩

/-- A program that has ended goes nowhere. -/
theorem eq_ret_of_leads {a : α} {calls : List C} {q : Prog C R α}
    (h : (ret a : Prog C R α).Leads calls q) : q = .ret a := by
  induction h with
  | refl => rfl
  | next _ _ ih => cases ih

section owes

variable {m n : ℕ} {i : ι}

omit [DecidableEq ι] [DecidableEq κ] in
/-- What concerns other clients only. -/
theorem Owes.of_eq (h : Owes m s i n) (htask : s'.task i = s.task i)
    (hmail : ∀ k, ∀ letter ∈ s.mail k, letter.sender = i → letter ∈ s'.mail k)
    (hserver : ∀ k job, s.server k = some job → job.letter.sender = i →
      s'.server k = some job) : Owes m s' i n := by
  unfold Owes at h ⊢
  rw [htask]
  cases ht : s.task i with
  | waiting | running | answering =>
      rw [ht] at h
      exact h
  | queued k =>
      rw [ht] at h
      obtain ⟨letter, hletter, hsender, hleft⟩ := h
      exact ⟨letter, hmail k letter hletter hsender, hsender, hleft⟩
  | served k =>
      rw [ht] at h
      obtain ⟨job, hjob, hsender, hleft⟩ := h
      exact ⟨job, hserver k job hjob hsender, hsender, hleft⟩
  | refused | ended => exact trivial

/-- A move of another client. -/
theorem Owes.other (h : Owes m s i n) (hmover : mover s event ≠ some i)
    (hmoves : O.Moves M s event s') : Owes m s' i n := by
  cases hmoves with
  | grant j | refuse j | start j | work j | resume j | finish j =>
      have hj : i ≠ j := fun heq => hmover (congrArg some heq.symm)
      exact h.of_eq (Function.update_of_ne hj _ _) (fun _ _ hl _ => hl) fun _ _ hjob _ => hjob
  | post j c next k htask hroute hroom =>
      have hj : i ≠ j := fun heq => hmover (congrArg some heq.symm)
      refine h.of_eq (Function.update_of_ne hj _ _) (fun k' letter hl _ => ?_)
        fun _ _ hjob _ => hjob
      dsimp only
      by_cases hk : k' = k
      · subst hk
        rw [Function.update_self]
        exact List.mem_append_left _ hl
      · rwa [Function.update_of_ne hk]
  | take k letter letters hserver hmail =>
      have hi : i ≠ letter.sender := by
        rintro rfl
        refine hmover ?_
        rw [mover, Config.senders, hmail]
        rfl
      refine h.of_eq (Function.update_of_ne hi _ _) (fun k' letter' hl hsender => ?_)
        fun k' job hjob _ => ?_
      · dsimp only
        by_cases hk : k' = k
        · subst hk
          rw [hmail] at hl
          rw [Function.update_self]
          rcases List.mem_cons.mp hl with rfl | hl
          · exact absurd hsender.symm hi
          · exact hl
        · rwa [Function.update_of_ne hk]
      · dsimp only
        have hk : k' ≠ k := by
          rintro rfl
          rw [hserver] at hjob
          cases hjob
        rwa [Function.update_of_ne hk]
  | serve k choice letter x rest r w hserver hperform =>
      refine h.of_eq rfl (fun _ _ hl _ => hl) fun k' job hjob hsender => ?_
      dsimp only
      have hk : k' ≠ k := by
        rintro rfl
        rw [hserver] at hjob
        cases hjob
        refine hmover ?_
        rw [mover, Config.attended, hserver]
        exact congrArg some hsender
      rwa [Function.update_of_ne hk]
  | reply k letter r hserver =>
      have hi : i ≠ letter.sender := by
        rintro rfl
        refine hmover ?_
        rw [mover, Config.attended, hserver]
        rfl
      refine h.of_eq (Function.update_of_ne hi _ _) (fun _ _ hl _ => hl)
        fun k' job hjob hsender => ?_
      dsimp only
      have hk : k' ≠ k := by
        rintro rfl
        rw [hserver] at hjob
        cases hjob
        exact hi hsender.symm
      rwa [Function.update_of_ne hk]
  | external event w hexternal =>
      exact h.of_eq rfl (fun _ _ hl _ => hl) fun _ _ hjob _ => hjob

/-- **A move of the client itself is one less to make.** -/
theorem Owes.self (h : Owes m s i n) (hs : O.Consistent s)
    (hanswer : ∀ c, (O.answer c).Within m) (hmover : mover s event = some i)
    (hmoves : O.Moves M s event s') : ∃ n', n = n' + 1 ∧ Owes m s' i n' := by
  cases hmoves with
  | grant j p htask hfree =>
      obtain rfl := Option.some.inj hmover
      simp only [Owes, htask] at h
      obtain ⟨a, hp, hle⟩ := h
      refine ⟨n - 1, by omega, ?_⟩
      simp only [Owes, Function.update_self]
      exact ⟨a, hp, by omega⟩
  | refuse j p htask =>
      obtain rfl := Option.some.inj hmover
      simp only [Owes, htask] at h
      obtain ⟨a, hp, hle⟩ := h
      refine ⟨n - 1, by omega, ?_⟩
      simp only [Owes, Function.update_self]
  | start j c next htask hroute =>
      obtain rfl := Option.some.inj hmover
      simp only [Owes, htask] at h
      obtain ⟨_, hp, hle⟩ := h
      obtain ⟨a, rfl, hnext⟩ := exists_of_within_call hp
      rw [Nat.succ_mul, callMoves] at hle
      refine ⟨n - 1, by omega, ?_⟩
      simp only [Owes, Function.update_self]
      exact ⟨m, a, hanswer c, hnext, by rw [callMoves]; omega⟩
  | post j c next k htask hroute hroom =>
      obtain rfl := Option.some.inj hmover
      simp only [Owes, htask] at h
      obtain ⟨_, hp, hle⟩ := h
      obtain ⟨a, rfl, hnext⟩ := exists_of_within_call hp
      rw [Nat.succ_mul, callMoves] at hle
      refine ⟨n - 1, by omega, ?_⟩
      simp only [Owes, Function.update_self]
      exact ⟨_, List.mem_append_right _ (List.mem_singleton_self _), rfl, a, hnext,
        by rw [callMoves]; omega⟩
  | work j choice c x rest next r w htask hperform =>
      obtain rfl := Option.some.inj hmover
      simp only [Owes, htask] at h
      obtain ⟨_, a, hrest, hnext, hle⟩ := h
      obtain ⟨b, rfl, hrest⟩ := exists_of_within_call hrest
      refine ⟨n - 1, by omega, ?_⟩
      simp only [Owes, Function.update_self]
      exact ⟨b, a, hrest r, hnext, by omega⟩
  | resume j c r next htask =>
      obtain rfl := Option.some.inj hmover
      simp only [Owes, htask] at h
      obtain ⟨b, a, _, hnext, hle⟩ := h
      refine ⟨n - 1, by omega, ?_⟩
      simp only [Owes, Function.update_self]
      exact ⟨a, hnext r, by omega⟩
  | finish j a htask =>
      obtain rfl := Option.some.inj hmover
      simp only [Owes, htask] at h
      obtain ⟨_, _, hle⟩ := h
      refine ⟨n - 1, by omega, ?_⟩
      simp only [Owes, Function.update_self]
  | take k letter letters hserver hmail =>
      have hletter : letter ∈ s.mail k := by
        rw [hmail]
        exact List.mem_cons_self
      obtain rfl : letter.sender = i := by
        rw [mover, Config.senders, hmail] at hmover
        exact Option.some.inj hmover
      simp only [Owes, hs.task_of_mem hletter] at h
      obtain ⟨letter', hletter', hsender, a, hnext, hle⟩ := h
      obtain rfl := hs.letter_unique hletter' hletter hsender
      refine ⟨n - 1, by omega, ?_⟩
      simp only [Owes, Function.update_self]
      exact ⟨_, rfl, rfl, m, a, hanswer _, hnext, by omega⟩
  | serve k choice letter x rest r w hserver hperform =>
      obtain rfl : letter.sender = i := by
        rw [mover, Config.attended, hserver] at hmover
        exact Option.some.inj hmover
      have htask : s.task letter.sender = .served k := hs.task_of_server hserver
      simp only [Owes, htask] at h
      obtain ⟨job, hjob, _, _, a, hrest, hnext, hle⟩ := h
      rw [hserver] at hjob
      cases hjob
      obtain ⟨b, rfl, hrest⟩ := exists_of_within_call hrest
      refine ⟨n - 1, by omega, ?_⟩
      simp only [Owes, htask, Function.update_self]
      exact ⟨_, rfl, rfl, b, a, hrest r, hnext, by omega⟩
  | reply k letter r hserver =>
      obtain rfl : letter.sender = i := by
        rw [mover, Config.attended, hserver] at hmover
        exact Option.some.inj hmover
      have htask : s.task letter.sender = .served k := hs.task_of_server hserver
      simp only [Owes, htask] at h
      obtain ⟨job, hjob, _, b, a, hrest, hnext, hle⟩ := h
      rw [hserver] at hjob
      cases hjob
      refine ⟨n - 1, by omega, ?_⟩
      simp only [Owes, Function.update_self]
      exact ⟨a, hnext r, by omega⟩
  | external event w hexternal => cases hmover

/-- **No client moves more often than its program allows**, whoever else moves in between. -/
theorem Runs.moves_le {p : ι → Prog C R α} {w₀ : W} {a : ℕ}
    (h : O.Runs M K (Office.start p w₀) movers s) (hanswer : ∀ c, (O.answer c).Within m)
    (hp : (p i).Within a) : movers.count (some i) ≤ a * callMoves m + 2 := by
  suffices howes : ∃ n, movers.count (some i) + n = a * callMoves m + 2 ∧ Owes m s i n by
    obtain ⟨n, hcount, _⟩ := howes
    omega
  induction h with
  | start =>
      refine ⟨a * callMoves m + 2, by simp, ?_⟩
      simp only [Owes, Office.start]
      exact ⟨a, hp, le_rfl⟩
  | @next movers s event s' h hmeets hstep ih =>
      obtain ⟨n, hcount, howes⟩ := ih
      by_cases hmover : mover s event = some i
      · obtain ⟨n', rfl, howes'⟩ := howes.self (h.consistent (consistent_start p w₀)) hanswer
          hmover (moves_of_step hstep)
        refine ⟨n', ?_, howes'⟩
        rw [hmover, List.count_cons_self]
        omega
      · refine ⟨n, ?_, howes.other hmover (moves_of_step hstep)⟩
        rw [List.count_cons_of_ne hmover]
        exact hcount

end owes

/-! ## What clients and servers are at -/

/-- Every client is in a partial run of its program, and every answer in one of its own. -/
structure Along (O : Office κ C R C' R') (p : ι → Prog C R α)
    (s : Config ι κ C R C' R' W α) : Prop where
  fresh : ∀ i q, s.task i = .waiting q → q = p i
  running : ∀ i q, s.task i = .running q → ∃ calls, (p i).Leads calls q
  answering : ∀ i c rest next, s.task i = .answering c rest next →
    (∃ calls, (p i).Leads calls (call c next)) ∧ ∃ log, Follows (O.answer c) log rest
  mail : ∀ k, ∀ letter ∈ s.mail k,
    ∃ calls, (p letter.sender).Leads calls (call letter.command letter.next)
  server : ∀ k job, s.server k = some job →
    (∃ calls, (p job.letter.sender).Leads calls (call job.letter.command job.letter.next))
    ∧ ∃ log, Follows (O.answer job.letter.command) log job.rest

section along

variable {p : ι → Prog C R α} {i : ι} {k : κ}

omit [DecidableEq κ] in
/-- A client that changes its task alone. -/
theorem Along.own (h : O.Along p s) {t : Task κ C R C' R' α} {l : List ι} {w : W}
    (hfresh : ∀ q, t = .waiting q → q = p i)
    (hrunning : ∀ q, t = .running q → ∃ calls, (p i).Leads calls q)
    (hanswering : ∀ c rest next, t = .answering c rest next →
      (∃ calls, (p i).Leads calls (call c next)) ∧ ∃ log, Follows (O.answer c) log rest) :
    O.Along p { s with task := update s.task i t, holders := l, world := w } where
  fresh j q hj := by
    dsimp only at hj
    by_cases heq : j = i
    · subst heq
      rw [Function.update_self] at hj
      exact hfresh q hj
    · rw [Function.update_of_ne heq] at hj
      exact h.fresh j q hj
  running j q hj := by
    dsimp only at hj
    by_cases heq : j = i
    · subst heq
      rw [Function.update_self] at hj
      exact hrunning q hj
    · rw [Function.update_of_ne heq] at hj
      exact h.running j q hj
  answering j c rest next hj := by
    dsimp only at hj
    by_cases heq : j = i
    · subst heq
      rw [Function.update_self] at hj
      exact hanswering c rest next hj
    · rw [Function.update_of_ne heq] at hj
      exact h.answering j c rest next hj
  mail := h.mail
  server := h.server

/-- Every move keeps it. -/
theorem Along.moves (h : O.Along p s) (hmoves : O.Moves M s event s') : O.Along p s' := by
  cases hmoves with
  | grant i q htask hfree =>
      obtain rfl := h.fresh i q htask
      refine h.own (fun _ hq => nomatch hq) (fun q hq => ?_) fun _ _ _ hq => nomatch hq
      cases hq
      exact ⟨[], .refl⟩
  | refuse i q htask =>
      exact h.own (fun _ hq => nomatch hq) (fun _ hq => nomatch hq) fun _ _ _ hq => nomatch hq
  | start i c next htask hroute =>
      refine h.own (fun _ hq => nomatch hq) (fun _ hq => nomatch hq) fun c' rest next' hq => ?_
      cases hq
      exact ⟨h.running i _ htask, [], .refl⟩
  | post i c next k htask hroute hroom =>
      have hown := h.own (i := i) (t := .queued k) (l := s.holders) (w := s.world)
        (fun _ hq => nomatch hq) (fun _ hq => nomatch hq) fun _ _ _ hq => nomatch hq
      refine ⟨hown.fresh, hown.running, hown.answering, fun k' letter hletter => ?_, h.server⟩
      dsimp only at hletter
      by_cases hk : k' = k
      · subst hk
        rw [Function.update_self] at hletter
        rcases List.mem_append.mp hletter with hletter | hletter
        · exact h.mail k' letter hletter
        · obtain rfl := List.mem_singleton.mp hletter
          exact h.running i _ htask
      · rw [Function.update_of_ne hk] at hletter
        exact h.mail k' letter hletter
  | work i choice c x rest next r w htask hperform =>
      refine h.own (fun _ hq => nomatch hq) (fun _ hq => nomatch hq) fun c' rest' next' hq => ?_
      cases hq
      obtain ⟨hleads, log, hfollows⟩ := h.answering i c _ next htask
      exact ⟨hleads, _, hfollows.next r⟩
  | resume i c r next htask =>
      refine h.own (fun _ hq => nomatch hq) (fun q hq => ?_) fun _ _ _ hq => nomatch hq
      cases hq
      obtain ⟨⟨calls, hleads⟩, _⟩ := h.answering i c _ next htask
      exact ⟨_, hleads.next r⟩
  | finish i a htask =>
      exact h.own (fun _ hq => nomatch hq) (fun _ hq => nomatch hq) fun _ _ _ hq => nomatch hq
  | take k letter letters hserver hmail =>
      have hletter : letter ∈ s.mail k := by
        rw [hmail]
        exact List.mem_cons_self
      have hown := h.own (i := letter.sender) (t := .served k) (l := s.holders) (w := s.world)
        (fun _ hq => nomatch hq) (fun _ hq => nomatch hq) fun _ _ _ hq => nomatch hq
      refine ⟨hown.fresh, hown.running, hown.answering, fun k' letter' hletter' => ?_,
        fun k' job hjob => ?_⟩
      · refine h.mail k' letter' ?_
        dsimp only at hletter'
        by_cases hk : k' = k
        · subst hk
          rw [Function.update_self] at hletter'
          rw [hmail]
          exact List.mem_cons_of_mem letter hletter'
        · rwa [Function.update_of_ne hk] at hletter'
      · dsimp only at hjob
        by_cases hk : k' = k
        · subst hk
          rw [Function.update_self] at hjob
          cases hjob
          exact ⟨h.mail k' letter hletter, [], .refl⟩
        · rw [Function.update_of_ne hk] at hjob
          exact h.server k' job hjob
  | serve k choice letter x rest r w hserver hperform =>
      refine ⟨h.fresh, h.running, h.answering, h.mail, fun k' job hjob => ?_⟩
      dsimp only at hjob
      by_cases hk : k' = k
      · subst hk
        rw [Function.update_self] at hjob
        cases hjob
        obtain ⟨hleads, log, hfollows⟩ := h.server k' _ hserver
        exact ⟨hleads, _, hfollows.next r⟩
      · rw [Function.update_of_ne hk] at hjob
        exact h.server k' job hjob
  | reply k letter r hserver =>
      have hown := h.own (i := letter.sender) (t := .running (letter.next r)) (l := s.holders)
        (w := s.world) (fun _ hq => nomatch hq) (fun q hq => by
          cases hq
          obtain ⟨⟨calls, hleads⟩, _⟩ := h.server k _ hserver
          exact ⟨_, hleads.next r⟩) fun _ _ _ hq => nomatch hq
      refine ⟨hown.fresh, hown.running, hown.answering, h.mail, fun k' job hjob => ?_⟩
      dsimp only at hjob
      by_cases hk : k' = k
      · subst hk
        rw [Function.update_self] at hjob
        cases hjob
      · rw [Function.update_of_ne hk] at hjob
        exact h.server k' job hjob
  | external event w hexternal =>
      exact ⟨h.fresh, h.running, h.answering, h.mail, h.server⟩

theorem Runs.along {w₀ : W} (h : O.Runs M K (Office.start p w₀) movers s) : O.Along p s := by
  induction h with
  | start =>
      exact ⟨fun _ _ h => (Task.waiting.inj h).symm, fun _ _ h => (nomatch h),
        fun _ _ _ _ h => (nomatch h), fun _ _ h => (nomatch h), fun _ _ h => (nomatch h)⟩
  | next _ _ hstep ih => exact ih.moves (moves_of_step hstep)

end along

/-! ## No client is stuck -/

/-- Whether a client has still to come to its end. -/
def Task.pending : Task κ C R C' R' α → Bool
  | .refused _ | .ended _ => false
  | _ => true

section progress

variable {i : ι} {k : κ}

omit [DecidableEq ι] [DecidableEq κ] in
/-- It is a call of the answer to a call of the client. -/
theorem Along.asks {p : ι → Prog C R α} (h : O.Along p s) {x : C'} (hx : s.Asks i x) :
    ∃ c, (∃ calls next, (p i).Leads calls (call c next))
      ∧ ∃ log rest, Follows (O.answer c) log (call x rest) := by
  rcases hx with ⟨c, rest, next, htask⟩ | ⟨k, letter, rest, hserver, rfl⟩
  · obtain ⟨⟨calls, hleads⟩, log, hfollows⟩ := h.answering i c _ next htask
    exact ⟨c, ⟨calls, next, hleads⟩, log, rest, hfollows⟩
  · obtain ⟨⟨calls, hleads⟩, log, hfollows⟩ := h.server k _ hserver
    exact ⟨letter.command, ⟨calls, letter.next, hleads⟩, log, rest, hfollows⟩

/-- A client can make its next move. -/
def CanMove (O : Office κ C R C' R') (M : Machine ι Ω Ξ C' R' W)
    (s : Config ι κ C R C' R' W α) : Prop :=
  ∃ event, mover s event ≠ none ∧ (O.step M s event).isSome = true

/-- A server with a letter moves. -/
theorem canMove_of_letter (hperform : ∀ i x, s.Asks i x →
      ∃ choice r w, M.perform i choice x s.world = some (r, w))
    (h : s.mail k ≠ [] ∨ s.server k ≠ none) : O.CanMove M s := by
  cases hserver : s.server k with
  | none =>
      cases hmail : s.mail k with
      | nil => exact absurd hserver (h.resolve_left (not_not_intro hmail))
      | cons letter letters =>
          refine ⟨.take k, ?_, by simp [step, hserver, hmail]⟩
          rw [mover, Config.senders, hmail]
          exact Option.some_ne_none _
  | some job =>
      obtain ⟨letter, rest⟩ := job
      have hattended : s.attended k = some letter.sender := by
        rw [Config.attended, hserver]
        rfl
      cases rest with
      | ret r =>
          refine ⟨.reply k, ?_, by simp [step, hserver]⟩
          rw [mover, hattended]
          exact Option.some_ne_none _
      | call x rest =>
          obtain ⟨choice, r, w, heq⟩ :=
            hperform letter.sender x (Or.inr ⟨k, letter, rest, hserver, rfl⟩)
          refine ⟨.serve k choice, ?_, by simp [step, hserver, heq]⟩
          rw [mover, hattended]
          exact Option.some_ne_none _

/-- A client with a permit moves, or its server does. -/
theorem Consistent.canMove_of_holds (hs : O.Consistent s) (hcapacity : 0 < O.capacity)
    (hperform : ∀ i x, s.Asks i x → ∃ choice r w, M.perform i choice x s.world = some (r, w))
    (hi : (s.task i).holds = true) : O.CanMove M s := by
  cases htask : s.task i with
  | waiting | refused | ended =>
      rw [htask] at hi
      cases hi
  | running p =>
      cases p with
      | ret a => exact ⟨.finish i, Option.some_ne_none i, by simp [step, htask]⟩
      | call c next =>
          cases hroute : O.route c with
          | none => exact ⟨.issue i, Option.some_ne_none i, by simp [step, htask, hroute]⟩
          | some k =>
              by_cases hroom : (s.mail k).length < O.capacity
              · exact ⟨.issue i, Option.some_ne_none i,
                  by simp [step, htask, hroute, hroom]⟩
              · -- the mailbox is full, so its server has something to do
                refine canMove_of_letter (k := k) hperform (Or.inl fun hnil => hroom ?_)
                rw [hnil]
                exact hcapacity
  | answering c rest next =>
      cases rest with
      | ret r => exact ⟨.resume i, Option.some_ne_none i, by simp [step, htask]⟩
      | call x rest =>
          obtain ⟨choice, r, w, heq⟩ := hperform i x (Or.inl ⟨c, rest, next, htask⟩)
          exact ⟨.work i choice, Option.some_ne_none i,
            by simp [step, htask, heq]⟩
  | queued k =>
      refine canMove_of_letter (k := k) hperform (Or.inl fun hnil => ?_)
      have hmem : i ∈ s.senders k := by
        rw [hs.posts.queued, Config.place, htask]
        rfl
      rw [Config.senders, hnil] at hmem
      cases hmem
  | served k =>
      refine canMove_of_letter (k := k) hperform (Or.inr fun hnone => ?_)
      have hattended : s.attended k = some i := by
        rw [hs.posts.served, Config.place, htask]
        rfl
      rw [Config.attended, hnone] at hattended
      cases hattended

/-- **As long as a client has not come to its end, some client can move.** -/
theorem Consistent.progress (hs : O.Consistent s) (hcapacity : 0 < O.capacity)
    (hpermits : 0 < O.permits)
    (hperform : ∀ i x, s.Asks i x → ∃ choice r w, M.perform i choice x s.world = some (r, w))
    (hi : (s.task i).pending = true) : O.CanMove M s := by
  cases htask : s.task i with
  | waiting p =>
      by_cases hfree : s.holders.length < O.permits
      · exact ⟨.grant i, Option.some_ne_none i, by simp [step, htask, hfree]⟩
      · -- all permits are out, so a client with one of them moves
        obtain ⟨j, hj⟩ : ∃ j, j ∈ s.holders :=
          List.exists_mem_of_length_pos (by omega)
        exact hs.canMove_of_holds hcapacity hperform ((hs.holders j).mp hj)
  | refused | ended =>
      rw [htask] at hi
      cases hi
  | running | answering | queued | served =>
      exact hs.canMove_of_holds (i := i) hcapacity hperform (by rw [htask]; rfl)

/-- **With no more permits than a mailbox has room, no client waits to post a command.** -/
theorem Consistent.posts_at_once (hs : O.Consistent s) (hle : O.permits ≤ O.capacity) {c : C}
    {next : R c → Prog C R α} (htask : s.task i = .running (.call c next)) :
    (O.step M s (.issue i)).isSome = true := by
  cases hroute : O.route c with
  | none => simp [step, htask, hroute]
  | some k =>
      have hi : i ∉ s.senders k := by
        rw [hs.posts.queued, Config.place, htask]
        intro hplace
        cases hplace
      -- the senders in the mailbox and this client all have a permit
      have hsubset : i :: s.senders k ⊆ s.holders := by
        intro j hj
        rw [hs.holders]
        rcases List.mem_cons.mp hj with rfl | hj
        · rw [htask]
          rfl
        · obtain ⟨letter, hletter, rfl⟩ := List.mem_map.mp hj
          rw [hs.task_of_mem hletter]
          rfl
      have hlength : (i :: s.senders k).length ≤ s.holders.length :=
        (List.subperm_of_subset (List.nodup_cons.mpr ⟨hi, hs.posts.nodup k⟩) hsubset).length_le
      have hroom : (s.mail k).length < O.capacity := by
        have hmail : (s.senders k).length = (s.mail k).length := List.length_map _
        rw [List.length_cons, hmail] at hlength
        have hpermits := hs.length_le
        omega
      simp [step, htask, hroute, hroom]

end progress

end Office

end Interaction
