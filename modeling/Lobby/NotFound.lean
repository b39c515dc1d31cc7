/-
# Executions that are not found

`GET /status/{execution_id}` answers 404 when the registry holds no status.  Then nothing was
done for the execution: it has no row in any table, nothing was handed to the network, and no
status is on its way to Redis (`not_found_untouched`).  So it is with an execution that has to
wait for a permit, and for good with one that was refused a permit.
-/
import Lobby.Server

namespace Lobby

open Interaction Prog Revisions

/-! ## Tables without an execution -/

/-- No row belongs to the execution. -/
def Absent {ρ : Type} [Revisioned ρ ExecutionId] (e : ExecutionId) (rows : List ρ) : Prop :=
  ∀ r ∈ rows, owner r ≠ e

section absent

variable {e e₁ : ExecutionId} {now : Timestamp}

section rows

variable {ρ : Type} [Revisioned ρ ExecutionId] {rows : List ρ} {f : ρ → ρ}
  {keys : List (ExecutionId × ℕ)}

theorem Absent.update (h : Absent e rows) (hf : ∀ r, key (f r) = key r) :
    Absent e (Revisions.update keys f rows) := by
  intro r hr
  obtain ⟨r₀, hr₀, rfl⟩ := mem_update.mp hr
  rw [show owner (if key r₀ ∈ keys then f r₀ else r₀) = owner r₀ from
    congrArg Prod.fst (key_updated hf r₀)]
  exact h r₀ hr₀

theorem Absent.append {r : ρ} (h : Absent e rows) (hr : owner r ≠ e) :
    Absent e (rows ++ [r]) := by
  intro r' hr'
  rcases List.mem_append.mp hr' with hr' | hr'
  · exact h r' hr'
  · rwa [List.mem_singleton.mp hr']

end rows

section requests

variable {ρ : Type} [RequestRow ρ] {t t' : RequestTable ρ}

theorem Absent.insertUnless {guard : ρ → Bool} {row : ℕ → ρ} {reply : Option ℕ}
    (h : Absent e t.rows) (hinsert : t.insertUnless e₁ guard row = .ok (reply, t'))
    (hrow : ∀ n, owner (row n) = e₁) (he : e₁ ≠ e) : Absent e t'.rows := by
  rcases RequestTable.insertUnless_eq_ok.mp hinsert with ⟨-, -, rfl⟩ | ⟨-, -, hrows⟩
  · exact h
  · rw [hrows]
    exact h.append (by rwa [hrow])

theorem Absent.updateKeys {keys : List (ExecutionId × ℕ)} {f : ρ → ρ} {n : ℕ}
    (h : Absent e t.rows) (hupdate : t.updateKeys keys f = .ok (n, t'))
    (hf : ∀ r, key (f r) = key r) : Absent e t'.rows := by
  rw [(RequestTable.updateKeys_eq_ok.mp hupdate).2]
  exact h.update hf

end requests

/-- What the table keeps when the statement runs, it keeps when the statement fails. -/
theorem Answers.keeps {ρ τ : Type} {P : τ → Prop} {t t' : τ}
    {result : Except SqlxError (ρ × τ)} {reply : Except SqlxError ρ}
    (h : Answers t result reply t') (ht : P t)
    (hdone : ∀ rows t', result = .ok (rows, t') → P t') : P t' := by
  cases h with
  | failed => exact ht
  | done h | unacknowledged h => exact hdone _ _ h

theorem Absent.nonces {q : NonceQuery} {t t' : NonceTable} {rows : q.Rows}
    (h : Absent e t.rows) (hq : q.executionId ≠ e) (hexecute : t.execute now q = .ok (rows, t')) :
    Absent e t'.rows := by
  cases q with
  | reserveCandidate chainId fromAddress e₁ =>
      have hconsume : Absent e (t.afterConsume now chainId fromAddress) :=
        h.update (NonceRow.key_setState now .consumed)
      rcases NonceTable.reserveCandidate_eq_ok.mp hexecute with ⟨-, -, hrows⟩ | ⟨-, -, hrows⟩
      · rwa [hrows]
      · rw [hrows]
        exact hconsume.append hq
  | syncReserve chainId fromAddress e₁ n =>
      rcases NonceTable.syncReserve_eq_ok.mp hexecute with ⟨-, -, rfl⟩ | ⟨-, -, -, hrows⟩
      · exact h
      · rw [hrows]
        exact h.append hq
  | resolve e₁ state =>
      rw [(NonceTable.resolveUpdate_eq_ok.mp hexecute).2]
      exact h.update (NonceRow.key_setState now state)
  | existing | latest =>
      cases hexecute
      exact h

theorem Absent.signs {q : SignQuery} {t t' : SignTable} {rows : q.Rows}
    (h : Absent e t.rows) (hq : q.executionId ≠ e) (hexecute : q.execute now t = .ok (rows, t')) :
    Absent e t'.rows := by
  cases q with
  | insertRequest chainId fromAddress e₁ =>
      rw [SignQuery.execute] at hexecute
      exact h.insertUnless hexecute (fun _ => rfl) hq
  | markSigned | markFailed | revertSigned => exact h.updateKeys hexecute fun _ => rfl
  | latest =>
      cases hexecute
      exact h

theorem Absent.broadcasts {q : BroadcastQuery} {t t' : BroadcastTable} {rows : q.Rows}
    (h : Absent e t.rows) (hq : q.executionId ≠ e) (hexecute : q.execute now t = .ok (rows, t')) :
    Absent e t'.rows := by
  cases q with
  | insertRequest chainId fromAddress e₁ =>
      exact h.insertUnless hexecute (fun _ => rfl) hq
  | markSubmitted | markRejected => exact h.updateKeys hexecute fun _ => rfl
  | latestRequest =>
      rw [BroadcastQuery.execute] at hexecute
      split at hexecute
      · cases hexecute
        exact h
      · cases hexecute

theorem Absent.validations {q : ValidationQuery} {t t' : ValidationTable} {rows : q.Rows}
    (h : Absent e t.rows) (hq : q.executionId ≠ e) (hexecute : q.execute now t = .ok (rows, t')) :
    Absent e t'.rows := by
  cases q with
  | insertRequest chainId e₁ txHash =>
      rw [ValidationQuery.execute] at hexecute
      exact h.insertUnless hexecute (fun _ => rfl) hq
  | recordOutcome => exact h.updateKeys hexecute fun _ => rfl
  | latest =>
      cases hexecute
      exact h

end absent

/-! ## A world without an execution -/

/-- Nothing was done for the execution. -/
structure World.Untouched (w : World) (e : ExecutionId) : Prop where
  nonces : Absent e w.nonces.rows
  signs : Absent e w.signs.rows
  broadcasts : Absent e w.broadcasts.rows
  validations : Absent e w.validations.rows
  sent : ∀ x ∈ w.sent, x.executionId ≠ e
  status : w.statuses e = none

structure ServerWorld.Untouched (w : ServerWorld) (e : ExecutionId) : Prop where
  world : w.world.Untouched e
  intents : ∀ row ∈ w.intents.rows, row.executionId ≠ e
  spawned : ∀ x ∈ w.spawned, x.executionId ≠ e
  redis : w.redis e = none

section untouched

variable {e e₁ : ExecutionId} {s : Submission} {c : EngineCall} {r : c.Reply}

/-- A call of another execution. -/
theorem World.Untouched.perform {w w' : World} {choice : Choice} (hw : w.Untouched e)
    (hown : c.Own e₁ s) (he : e₁ ≠ e) (h : w.perform e₁ choice c = some (r, w')) :
    w'.Untouched e := by
  -- a call that only answers
  have hsame : ∀ {c : EngineCall} {r : c.Reply},
      (choice.answer c).map (fun reply => (reply, w)) = some (r, w') → w'.Untouched e := by
    intro c r hmap
    obtain ⟨_, -, heq⟩ := Option.map_eq_some_iff.mp hmap
    cases heq
    exact hw
  cases c with
  | nonce q =>
      have hq : q.executionId ≠ e := fun heq => he (hown.symm.trans heq)
      cases h
      exact ⟨(choice.fault.answers _ _).keeps (P := fun t : NonceTable => Absent e t.rows)
          hw.nonces fun _ _ hexecute => hw.nonces.nonces hq hexecute,
        hw.signs, hw.broadcasts, hw.validations, hw.sent, hw.status⟩
  | sign q =>
      have hq : q.executionId ≠ e := fun heq => he (hown.symm.trans heq)
      cases h
      exact ⟨hw.nonces, (choice.fault.answers _ _).keeps (P := fun t : SignTable => Absent e t.rows)
          hw.signs fun _ _ hexecute => hw.signs.signs hq hexecute,
        hw.broadcasts, hw.validations, hw.sent, hw.status⟩
  | broadcast c =>
      cases c with
      | query q =>
          have hq : q.executionId ≠ e := fun heq => he (Eq.symm hown |>.trans heq)
          cases h
          exact ⟨hw.nonces, hw.signs,
            (choice.fault.answers _ _).keeps (P := fun t : BroadcastTable => Absent e t.rows)
              hw.broadcasts fun _ _ hexecute => hw.broadcasts.broadcasts hq hexecute,
            hw.validations, hw.sent, hw.status⟩
      | sendRawTransaction chainId stickyIndex txn e' revision =>
          obtain ⟨reply, -, heq⟩ := Option.map_eq_some_iff.mp h
          cases heq
          refine ⟨hw.nonces, hw.signs, hw.broadcasts, hw.validations, fun x hx => ?_, hw.status⟩
          rcases List.mem_cons.mp hx with rfl | hx
          · exact he
          · exact hw.sent x hx
      | getTransactionCount => exact hsame h
  | validator c =>
      cases c with
      | query q =>
          have hq : q.executionId ≠ e := fun heq => he (Eq.symm hown |>.trans heq)
          cases h
          exact ⟨hw.nonces, hw.signs, hw.broadcasts,
            (choice.fault.answers _ _).keeps (P := fun t : ValidationTable => Absent e t.rows)
              hw.validations fun _ _ hexecute => hw.validations.validations hq hexecute,
            hw.sent, hw.status⟩
      | instant =>
          cases h
          exact hw
      | getTransactionReceipt | getBlockNumber | sleep | exhausted => exact hsame h
  | outside c =>
      cases c with
      | setStatus e' status =>
          obtain rfl : e' = e₁ := hown
          cases h
          refine ⟨hw.nonces, hw.signs, hw.broadcasts, hw.validations, hw.sent, ?_⟩
          dsimp only
          rw [Function.update_of_ne he.symm]
          exact hw.status
      | _ => exact hsame h
  | deliver | collect => exact hsame h

/-- Neither time nor the sweeper does anything for a new execution. -/
theorem World.Untouched.outside {w : World} (hw : w.Untouched e) (event : OutsideEvent) :
    (w.outside event).Untouched e := by
  cases event with
  | tick elapsed => exact ⟨hw.nonces, hw.signs, hw.broadcasts, hw.validations, hw.sent, hw.status⟩
  | sweep fault =>
      simp only [World.outside]
      split
      · exact hw
      · exact hw
      · rename_i released t hexpire
        refine ⟨?_, hw.signs, hw.broadcasts, hw.validations, hw.sent, hw.status⟩
        dsimp only
        rw [(NonceTable.expireStates_eq_ok.mp hexpire).2]
        exact hw.nonces.update (NonceRow.key_setState w.now .released)

theorem ServerWorld.Untouched.performs {w w' : ServerWorld} (hw : w.Untouched e)
    (hown : c.Own e₁ s) (he : e₁ ≠ e) (h : w.Performs e₁ c r w') : w'.Untouched e := by
  cases h with
  | register fault executionId txn clientConfig r t hsubmit =>
      obtain ⟨rfl, -, -⟩ := hown
      refine ⟨hw.world, ?_, hw.spawned, hw.redis⟩
      rcases submitIntent_cases hsubmit with ⟨rfl, -⟩ | ⟨-, -, hrows⟩
      · exact hw.intents
      · intro row hrow
        dsimp only at hrow
        rw [hrows] at hrow
        rcases List.mem_cons.mp hrow with rfl | hrow
        · exact he
        · exact hw.intents row hrow
  | status executionId status =>
      obtain rfl : executionId = e₁ := hown
      have hperform : w.world.perform executionId .smooth (.outside (.setStatus executionId status))
          = some ((), (w.withRegistry (w.registry.set ⟨executionId, status⟩)).world) := rfl
      have hc : (EngineCall.outside (.setStatus executionId status)).Own executionId s := rfl
      refine ⟨hw.world.perform hc he hperform, hw.intents, fun x hx => ?_, hw.redis⟩
      rcases List.mem_cons.mp hx with rfl | hx
      · exact he
      · exact hw.spawned x hx
  | system choice c r world hregister hstatus hperform =>
      exact ⟨hw.world.perform hown he hperform, hw.intents, hw.spawned, hw.redis⟩

theorem ServerWorld.Untouched.external {w w' : ServerWorld} {event : ServerEvent}
    (hw : w.Untouched e) (h : w.external event = some w') : w'.Untouched e := by
  cases event with
  | outside event =>
      cases h
      exact ⟨hw.world.outside event, hw.intents, hw.spawned, hw.redis⟩
  | write x =>
      simp only [ServerWorld.external] at h
      split at h
      · rename_i hx
        cases h
        refine ⟨⟨hw.world.nonces, hw.world.signs, hw.world.broadcasts, hw.world.validations,
          hw.world.sent, hw.world.status⟩, hw.intents,
          fun y hy => hw.spawned y (List.mem_of_mem_erase hy), ?_⟩
        simp only [ServerWorld.withRegistry, StatusRegistry.write]
        rw [Function.update_of_ne (hw.spawned x hx).symm]
        exact hw.redis
      · cases h
  | drop x =>
      simp only [ServerWorld.external] at h
      split at h
      · cases h
        exact ⟨hw.world, hw.intents, fun y hy => hw.spawned y (List.mem_of_mem_erase hy), hw.redis⟩
      · cases h
  | expire e₂ =>
      cases h
      refine ⟨hw.world, hw.intents, hw.spawned, ?_⟩
      dsimp only
      by_cases he₂ : e = e₂
      · subst he₂
        exact Function.update_self ..
      · rw [Function.update_of_ne he₂]
        exact hw.redis

/-- A status that is there is not taken away. -/
theorem ServerWorld.Performs.status_ne_none {w w' : ServerWorld} (h : w.Performs e₁ c r w')
    (hw : w.world.statuses e ≠ none) : w'.world.statuses e ≠ none := by
  cases h with
  | register => exact hw
  | status executionId status =>
      show Function.update w.world.statuses executionId (some status) e ≠ none
      by_cases he : e = executionId
      · subst he
        rw [Function.update_self]
        exact Option.some_ne_none _
      · rwa [Function.update_of_ne he]
  | system choice c r world hregister hstatus hperform =>
      cases Lobby.performs_of_perform hperform with
      | quiet hc hagrees => rwa [hagrees.statuses]
      | nonce | query | send => exact hw
      | status e' status => exact absurd rfl (hstatus e' status)

theorem ServerWorld.status_external {w w' : ServerWorld} {event : ServerEvent}
    (h : w.external event = some w') : w'.world.statuses = w.world.statuses := by
  cases event with
  | outside event =>
      cases h
      cases event with
      | tick => rfl
      | sweep fault =>
          simp only [World.outside]
          split <;> rfl
  | write x | drop x =>
      simp only [ServerWorld.external] at h
      split at h
      · cases h
        rfl
      · cases h
  | expire =>
      cases h
      rfl

end untouched

/-! ## Along a run -/

section runs

variable {d : Deployment} {config : CortexConfig} {hash : ShardKey → UInt64}
  {w₀ : ServerWorld} {movers movers' : List (Option ExecutionId)} {s s' : ServerState}
  {e : ExecutionId}

/-- An execution has no status and nothing was done for it, or it has a status. -/
theorem Deployment.Serves.untouched_or (h : d.Serves config hash w₀ movers s)
    (hnew : w₀.Untouched e) :
    s.world.Untouched e ∨ (s.task e).admitted ∧ s.world.world.statuses e ≠ none := by
  have hother : ∀ {movers s j choice y r w'}, d.Serves config hash w₀ movers s →
      s.Asks j y → j ≠ e → serverMachine.perform j choice y s.world = some (r, w') →
      s.world.Untouched e → w'.Untouched e := by
    intro movers s j choice y r w' hrun hasks hj hperform hw
    obtain ⟨sub, -, hown⟩ := own_of_asks hrun hasks
    exact hw.performs hown hj (ServerWorld.performs_of_perform hperform)
  cases hsub : d.submission e with
  | none =>
      refine Or.inl (Office.Runs.preserved (P := fun w => w.Untouched e) h hnew
        (fun {_ _ _ _ j _ _ _} hrun hasks hperform _ hw => ?_) fun hevent hw => hw.external hevent)
      -- nobody calls for an execution that was not submitted
      refine hother hrun hasks (fun heq => ?_) hperform hw
      obtain ⟨sub, hsome, -⟩ := own_of_asks hrun hasks
      rw [heq, hsub] at hsome
      cases hsome
  | some sub =>
      have hp : ∃ next, d.submitted e = .call (.setStatus e .permitAquired) next := by
        rw [Deployment.submitted, hsub]
        exact ⟨_, rfl⟩
      obtain ⟨next, hp⟩ := hp
      refine (Office.Runs.first_call (P := fun w => w.Untouched e)
        (Q := fun w => w.world.statuses e ≠ none) h hp rfl rfl hnew hother ?_ ?_ ?_).imp
        And.right id
      · intro choice r w w' hperform
        cases hperform
        exact ne_of_eq_of_ne (Function.update_self ..) (Option.some_ne_none _)
      · intro j choice y r w w' hperform hw
        exact (ServerWorld.performs_of_perform hperform).status_ne_none hw
      · intro event w w' hevent
        exact ⟨fun hw => hw.external hevent, fun hw => by
          rwa [ServerWorld.status_external hevent]⟩

/-- A status stays. -/
theorem status_stays (h : (d.cortex config hash).Runs serverMachine .free s movers' s')
    (hs : s.world.world.statuses e ≠ none) : s'.world.world.statuses e ≠ none := by
  refine Office.Runs.preserved (P := fun w => w.world.statuses e ≠ none) h hs
    (fun _ _ hperform _ hw => ?_) fun hevent hw => ?_
  · exact (ServerWorld.performs_of_perform hperform).status_ne_none hw
  · rwa [ServerWorld.status_external hevent]

section response

variable {apiRegistry : ApiRegistry} {registry : StatusRegistry}
  {authorization : Option (List UInt8)} {rawId : String}

/-- When an id is not found. -/
theorem getStatus_not_found_iff (hid : parseUuid rawId.toList = some e) :
    (getStatus apiRegistry registry authorization rawId).status = 404
      ↔ (∃ clientConfig, authMiddleware apiRegistry authorization = .ok clientConfig)
        ∧ registry.get e = none := by
  unfold getStatus
  cases hauth : authMiddleware apiRegistry authorization with
  | error err => cases err <;> simp [AuthError.intoResponse]
  | ok clientConfig =>
      simp only [getTransactionStatus, hid]
      cases hget : registry.get e with
      | none => simp [RequestError.intoResponse, RequestError.rpcError]
      | some status => simp

/-- **What is not found was not touched.**  Let nothing have been done for an execution when the
server starts.  Whatever has happened since, if its status is not found, still nothing was done
for it: there is no row, no transaction, no status, not even one on its way to Redis.  So it is
while it waits for a permit, and when it was refused one.  And once its status is found it is
found for good. -/
theorem not_found_untouched (apiRegistry : ApiRegistry) (authorization : Option (List UInt8))
    (h : d.Serves config hash w₀ movers s) (hnew : w₀.Untouched e)
    (hid : parseUuid rawId.toList = some e) :
    ((getStatus apiRegistry s.world.registry authorization rawId).status = 404 →
      s.world.Untouched e)
    ∧ (∀ p, s.task e = .waiting p ∨ s.task e = .refused p → s.world.Untouched e)
    ∧ ∀ movers' s', (d.cortex config hash).Runs serverMachine .free s movers' s' →
      (getStatus apiRegistry s'.world.registry authorization rawId).status = 404 →
      (getStatus apiRegistry s.world.registry authorization rawId).status = 404 := by
  refine ⟨fun hresponse => ?_, fun p htask => ?_, fun movers' s' hrun hresponse => ?_⟩
  · have hnone := ((getStatus_not_found_iff hid).mp hresponse).2
    exact (h.untouched_or hnew).resolve_right fun hstatus => hstatus.2 hnone
  · refine (h.untouched_or hnew).resolve_right fun hstatus => ?_
    rcases htask with htask | htask <;> rw [htask] at hstatus <;> exact hstatus.1
  · obtain ⟨hauth, hnone⟩ := (getStatus_not_found_iff hid).mp hresponse
    refine (getStatus_not_found_iff hid).mpr ⟨hauth, ?_⟩
    by_contra hsome
    exact status_stays hrun hsome hnone

end response

end runs

/-- What is shown of the first execution, and whether the second one was refused a permit. -/
def ServerState.refusal (s : ServerState) : Option PipelineStatus × Bool :=
  (s.world.world.statuses ⟨1⟩,
    match s.task ⟨2⟩ with
    | .refused _ => true
    | _ => false)

/-- Of two executions one is shown as sent, and nothing was done for the refused one. -/
theorem not_found_untouched_sample :
    ∃ movers s, sampleServer.Serves sampleCortexConfig sampleShardHash .empty movers s
      ∧ s.refusal = (some sampleShown, true) ∧ s.world.Untouched ⟨2⟩ := by
  have hrun : ((sampleServer.cortex sampleCortexConfig sampleShardHash).run serverMachine []
      (Office.start sampleServer.submitted .empty) (sampleServerEvents ++ [.refuse ⟨2⟩])).map
        (fun x => ServerState.refusal x.2) = some (some sampleShown, true) := by
    decide +kernel
  obtain ⟨movers, s, hruns, hrefusal⟩ := Office.exists_runs (f := ServerState.refusal) hrun
  obtain ⟨p, htask⟩ : ∃ p, s.task ⟨2⟩ = .refused p := by
    have hrefused := congrArg Prod.snd hrefusal
    simp only [ServerState.refusal] at hrefused
    split at hrefused
    · rename_i p htask
      exact ⟨p, htask⟩
    · cases hrefused
  have hnew : ServerWorld.empty.Untouched ⟨2⟩ := by
    constructor
    · exact ⟨nofun, nofun, nofun, nofun, nofun, rfl⟩
    · exact nofun
    · exact nofun
    · rfl
  have hid : parseUuid "00000000-0000-0000-0000-000000000002".toList = some ⟨2⟩ := by
    decide +kernel
  exact ⟨movers, s, hruns, hrefusal,
    (not_found_untouched sampleRegistry (some sampleBearer) hruns hnew hid).2.1 p (Or.inr htask)⟩

end Lobby
