/-
# What a pipeline and its surroundings promise each other

The contract of the pipeline of one execution with the rest of the system.  Others leave
alone what was sent for the execution, its broadcast rows and its status (`World.view`),
and of its nonce rows they keep what `NonceTable.Keeps` says.  The pipeline touches only
rows of its own, and hands only transactions to the network whose nonce it was granted.
`rely_of_perform` and `rely_outside` show that what one execution may do is within what
the others allow for.
-/
import Lobby.System
import Lobby.NonceFrame

namespace Lobby

open Revisions Interaction Prog

/-! ## What others leave alone -/

/-- What only the execution itself changes. -/
@[ext]
structure View where
  sent : List Sent
  requests : List BroadcastRow
  status : Option PipelineStatus

/-- What was handed to the network for an execution, the latest first. -/
def World.sentOf (w : World) (e : ExecutionId) : List Sent :=
  w.sent.filter fun x => decide (x.executionId = e)

def World.view (w : World) (e : ExecutionId) : View where
  sent := w.sentOf e
  requests := w.broadcasts.rowsOf e
  status := w.statuses e

theorem World.sentOf_send (w : World) {e : ExecutionId} {x : Sent}
    (hx : x.executionId = e) :
    ({ w with sent := x :: w.sent } : World).sentOf e = x :: w.sentOf e :=
  List.filter_cons_of_pos (by simpa using hx)

theorem World.sentOf_send_of_ne (w : World) {e : ExecutionId} {x : Sent}
    (hx : x.executionId ≠ e) :
    ({ w with sent := x :: w.sent } : World).sentOf e = w.sentOf e :=
  List.filter_cons_of_neg (by simpa using hx)

/-- Handing a transaction to the network adds it to the view. -/
theorem World.view_send (w : World) {e : ExecutionId} {x : Sent} (hx : x.executionId = e) :
    ({ w with sent := x :: w.sent } : World).view e
      = { w.view e with sent := x :: w.sentOf e } :=
  View.ext (w.sentOf_send hx) rfl rfl

/-- What others may do to the nonces of an execution. -/
structure NonceRely (e : ExecutionId) (w w' : World) : Prop where
  swept : ∀ n, (e, n) ∈ w.swept → (e, n) ∈ w'.swept
  nonces : NonceTable.Keeps (fun n => (e, n) ∈ w'.swept) e w.nonces w'.nonces

/-- What others may do to the world of an execution. -/
structure Rely (e : ExecutionId) (w w' : World) : Prop extends NonceRely e w w' where
  view : w'.view e = w.view e

theorem Rely.refl (e : ExecutionId) (w : World) : Rely e w w :=
  ⟨⟨fun _ h => h, .refl _ e w.nonces⟩, rfl⟩

theorem Rely.trans {e : ExecutionId} {w w' w'' : World} (h : Rely e w w')
    (h' : Rely e w' w'') : Rely e w w'' :=
  ⟨⟨fun n hn => h'.swept n (h.swept n hn), h.nonces.trans h'.nonces h'.swept⟩,
    h'.view.trans h.view⟩

/-- Leaving the nonce table alone is within what others may do. -/
theorem NonceRely.of_eq {e : ExecutionId} {w w' : World} (hnonces : w'.nonces = w.nonces)
    (hswept : w'.swept = w.swept) : NonceRely e w w' where
  swept n hn := by rwa [hswept]
  nonces := by
    rw [hnonces]
    exact .refl _ e w.nonces

/-! ## What an execution ensures -/

/-- The chain and the account of a submission, as the nonce table stores them. -/
def Submission.chain (s : Submission) : ℕ := s.txn.chainId.id.toNat

def Submission.account (s : Submission) : Address := s.clientConfig.fromAddress

/-- The execution was granted the nonce, unless the sweeper took it back. -/
def World.Granted (w : World) (e : ExecutionId) (n : ℕ) : Prop :=
  (e, n) ∈ w.swept ∨ NonceTable.Holds e n w.nonces

/-- The rows that hold a nonce for the execution are reserved and on its pair. -/
def World.Plain (w : World) (e : ExecutionId) (s : Submission) : Prop :=
  NonceTable.Plain s.chain s.account e w.nonces

/-- A statement on rows of the execution and its pair. -/
def NonceQuery.isFor (e : ExecutionId) (s : Submission) : NonceQuery → Prop
  | .reserveCandidate chainId fromAddress e' =>
      chainId = s.chain ∧ fromAddress = s.account ∧ e' = e
  | .existing e' => e' = e
  | .syncReserve chainId fromAddress e' _ =>
      chainId = s.chain ∧ fromAddress = s.account ∧ e' = e
  | .resolve e' _ => e' = e
  | .latest e' => e' = e

/-- A statement on broadcast rows of the execution; a rejected row is not submitted. -/
def BroadcastQuery.isFor (e : ExecutionId) (t : BroadcastTable) : BroadcastQuery → Prop
  | .insertRequest _ _ e' => e' = e
  | .latestRequest e' => e' = e
  | .markSubmitted e' revision _ =>
      e' = e ∧ ∀ r ∈ t.rows, key r = (e, revision) → r.state ≠ .rejected
  | .markRejected e' _ _ => e' = e

/-- What the pipeline of a submission ensures before a call.  A transaction goes into the
mailbox, and to the network, with a nonce the execution was granted; `permits` is what a
group of results asks of the earlier transactions before another one is sent. -/
def Requires (permits : List Sent → SignedTransaction → Prop) (e : ExecutionId)
    (s : Submission) : EngineCall → World → Prop
  | .deliver (.broadcast _ _ _ txn _), w =>
      w.Plain e s ∧ w.Granted e txn.withNonce.value.toNat
  | .nonce q, _ => q.isFor e s
  | .broadcast (.query q), w => q.isFor e w.broadcasts
  | .broadcast (.sendRawTransaction _ _ txn e' _), w =>
      e' = e ∧ w.Plain e s ∧ w.Granted e txn.withNonce.value.toNat
        ∧ permits (w.sentOf e) txn
  | .outside (.setStatus e' _), _ => e' = e
  | _, _ => True

/-! ## What an execution does to the others -/

section

variable {e e' : ExecutionId} {s : Submission} {choice : Choice} {c : EngineCall}
  {w w' : World} {r : c.Reply}

/-- A call that changes none of the tables and records others look at. -/
theorem rely_of_eq (hsent : w'.sent = w.sent) (hbroadcasts : w'.broadcasts = w.broadcasts)
    (hstatuses : w'.statuses e = w.statuses e) (hnonces : w'.nonces = w.nonces)
    (hswept : w'.swept = w.swept) : Rely e w w' where
  toNonceRely := .of_eq hnonces hswept
  view := by
    apply View.ext
    · show w'.sent.filter _ = w.sent.filter _
      rw [hsent]
    · show w'.broadcasts.rowsOf e = w.broadcasts.rowsOf e
      rw [hbroadcasts]
    · exact hstatuses

/-- A nonce statement of another execution. -/
theorem keeps_of_execute {q : NonceQuery} (he : e' ≠ e) (hq : q.isFor e' s)
    (taken : ℕ → Prop) {now : Timestamp} {t t' : NonceTable} {rows : q.Rows}
    (h : t.execute now q = .ok (rows, t')) : NonceTable.Keeps taken e t t' := by
  cases q with
  | reserveCandidate chainId fromAddress e₁ =>
      obtain ⟨_, _, rfl⟩ := hq
      exact NonceTable.keeps_reserve he h
  | existing e₁ =>
      cases h
      exact .refl _ e _
  | syncReserve chainId fromAddress e₁ n =>
      obtain ⟨_, _, rfl⟩ := hq
      exact NonceTable.keeps_sync he h
  | resolve e₁ state =>
      obtain rfl : e₁ = e' := hq
      exact NonceTable.keeps_resolve he h
  | latest e₁ =>
      cases h
      exact .refl _ e _

/-- A broadcast statement of another execution. -/
theorem rowsOf_of_execute {q : BroadcastQuery} (he : e ≠ e') {now : Timestamp}
    {t t' : BroadcastTable} {rows : q.Rows} (hq : q.isFor e' t)
    (h : q.execute now t = .ok (rows, t')) : t'.rowsOf e = t.rowsOf e := by
  cases q with
  | insertRequest chainId fromAddress e₁ =>
      obtain rfl : e₁ = e' := hq
      have howner : ∀ n, owner (BroadcastRow.received now chainId fromAddress e₁ n) = e₁ :=
        fun _ => rfl
      exact RequestTable.rowsOf_insertUnless howner he h
  | latestRequest e₁ =>
      rw [BroadcastQuery.execute] at h
      split at h
      · cases h
        rfl
      · cases h
  | markSubmitted e₁ revision txHash =>
      obtain ⟨rfl, _⟩ := hq
      exact RequestTable.rowsOf_updateWhere (BroadcastRow.key_submit now txHash) he h
  | markRejected e₁ revision reason =>
      obtain rfl : e₁ = e' := hq
      exact RequestTable.rowsOf_updateWhere (BroadcastRow.key_reject now reason) he h

/-- The calls that touch neither the nonces nor what is in a view. -/
def EngineCall.quiet : EngineCall → Bool
  | .nonce _ => false
  | .broadcast (.query _) => false
  | .broadcast (.sendRawTransaction _ _ _ _ _) => false
  | .outside (.setStatus _ _) => false
  | _ => true

/-- The worlds differ at most in the tables of the sign and the validator engine. -/
structure World.Agrees (w w' : World) : Prop where
  now : w'.now = w.now
  nonces : w'.nonces = w.nonces
  broadcasts : w'.broadcasts = w.broadcasts
  statuses : w'.statuses = w.statuses
  sent : w'.sent = w.sent
  swept : w'.swept = w.swept

/-- What a quiet call does. -/
theorem agrees_of_quiet (hc : c.quiet = true) (h : w.perform e' choice c = some (r, w')) :
    w.Agrees w' := by
  -- what the surroundings answer changes nothing
  have hanswer : ∀ {c : EngineCall} {r : c.Reply},
      (choice.answer c).map (fun reply => (reply, w)) = some (r, w') → w.Agrees w' := by
    intro c r h
    obtain ⟨_, _, heq⟩ := Option.map_eq_some_iff.mp h
    cases heq
    exact ⟨rfl, rfl, rfl, rfl, rfl, rfl⟩
  cases c with
  | deliver | collect => exact hanswer h
  | nonce q => cases hc
  | sign q =>
      cases h
      exact ⟨rfl, rfl, rfl, rfl, rfl, rfl⟩
  | broadcast c =>
      cases c with
      | query | sendRawTransaction => cases hc
      | getTransactionCount => exact hanswer h
  | validator c =>
      cases c with
      | query | instant =>
          cases h
          exact ⟨rfl, rfl, rfl, rfl, rfl, rfl⟩
      | _ => exact hanswer h
  | outside c =>
      cases c with
      | setStatus => cases hc
      | _ => exact hanswer h

/-- A quiet call is nothing to any execution, its own included. -/
theorem rely_of_quiet (hc : c.quiet = true) (h : w.perform e' choice c = some (r, w')) :
    Rely e w w' := by
  have hagrees := agrees_of_quiet hc h
  exact rely_of_eq hagrees.sent hagrees.broadcasts (congrFun hagrees.statuses e)
    hagrees.nonces hagrees.swept

/-- What one call can do to the world. -/
inductive World.Performs (w : World) (e : ExecutionId) (choice : Choice) :
    EngineCall → World → Prop where
  | quiet {c : EngineCall} {w' : World} (hc : c.quiet = true) (hagrees : w.Agrees w') :
      Performs w e choice c w'
  | nonce (q : NonceQuery) (t : NonceTable)
      (ht : t = w.nonces ∨ ∃ rows, w.nonces.execute w.now q = .ok (rows, t)) :
      Performs w e choice (.nonce q) { w with nonces := t }
  | query (q : BroadcastQuery) (t : BroadcastTable)
      (ht : t = w.broadcasts ∨ ∃ rows, q.execute w.now w.broadcasts = .ok (rows, t)) :
      Performs w e choice (.broadcast (.query q)) { w with broadcasts := t }
  | send (chainId : ChainId) (stickyIndex : ℕ) (e₁ : ExecutionId) (x : Sent)
      (hanswer : choice.answer
          (.broadcast (.sendRawTransaction chainId stickyIndex x.txn e₁ x.revision))
        = some x.reply)
      (howner : x.executionId = e) (haccepted : x.accepted = choice.accepted) :
      Performs w e choice
        (.broadcast (.sendRawTransaction chainId stickyIndex x.txn e₁ x.revision))
        { w with sent := x :: w.sent }
  | status (e₁ : ExecutionId) (status : PipelineStatus) :
      Performs w e choice (.outside (.setStatus e₁ status))
        { w with statuses := Function.update w.statuses e₁ (some status) }

/-- **Every call does one of these.** -/
theorem performs_of_perform (h : w.perform e' choice c = some (r, w')) :
    w.Performs e' choice c w' := by
  by_cases hquiet : c.quiet = true
  · exact .quiet hquiet (agrees_of_quiet hquiet h)
  · match c with
    | .nonce q =>
        cases h
        exact .nonce q _ (choice.fault.answers w.nonces (w.nonces.execute w.now q)).table
    | .broadcast (.query q) =>
        cases h
        exact .query q _ (choice.fault.answers w.broadcasts (q.execute w.now w.broadcasts)).table
    | .broadcast (.sendRawTransaction chainId stickyIndex txn e₁ revision) =>
        obtain ⟨reply, hanswer, heq⟩ := Option.map_eq_some_iff.mp h
        cases heq
        exact .send chainId stickyIndex e₁ ⟨e', revision, txn, choice.accepted, _⟩ hanswer rfl rfl
    | .outside (.setStatus e₁ status) =>
        cases h
        exact .status e₁ status
    | .deliver _ | .collect _ | .sign _ | .validator _ => exact absurd rfl hquiet
    | .broadcast (.getTransactionCount _ _ _) => exact absurd rfl hquiet
    | .outside (.registerTransaction _ _ _) | .outside (.reserve _ _ _)
    | .outside (.resolve _ _) | .outside (.sync _ _ _ _) | .outside (.sign _ _ _ _)
    | .outside (.revert _) | .outside (.acquireHealthyEndpoint _ _)
    | .outside (.broadcast _ _ _ _ _) | .outside (.validate _ _ _ _)
    | .outside (.telemetry _ _) | .outside (.genRange _) | .outside (.sleep _)
    | .outside (.unreachable _) => exact absurd rfl hquiet

/-- The record of what was sent grows by a request to the network only. -/
theorem sent_of_perform (h : w.perform e' choice c = some (r, w')) :
    w'.sent = w.sent
    ∨ ∃ (chainId : ChainId) (stickyIndex : ℕ) (e₁ : ExecutionId) (x : Sent),
        c = .broadcast (.sendRawTransaction chainId stickyIndex x.txn e₁ x.revision)
        ∧ choice.answer
            (.broadcast (.sendRawTransaction chainId stickyIndex x.txn e₁ x.revision))
          = some x.reply
        ∧ x.executionId = e' ∧ x.accepted = choice.accepted
        ∧ w' = { w with sent := x :: w.sent } := by
  cases performs_of_perform h with
  | quiet hc hagrees => exact Or.inl hagrees.sent
  | nonce | query | status => exact Or.inl rfl
  | send chainId stickyIndex e₁ x hanswer howner haccepted =>
      exact Or.inr ⟨chainId, stickyIndex, e₁, x, rfl, hanswer, howner, haccepted, rfl⟩

/-- The nonces change by a nonce statement only, and the sweeper takes none meanwhile. -/
theorem nonces_of_perform (h : w.perform e' choice c = some (r, w')) :
    w'.swept = w.swept
    ∧ (w'.nonces = w.nonces
      ∨ ∃ q rows, c = .nonce q ∧ w.nonces.execute w.now q = .ok (rows, w'.nonces)) := by
  cases performs_of_perform h with
  | quiet hc hagrees => exact ⟨hagrees.swept, Or.inl hagrees.nonces⟩
  | nonce q t ht =>
      refine ⟨rfl, ht.imp id ?_⟩
      rintro ⟨rows, heq⟩
      exact ⟨q, rows, rfl, heq⟩
  | query | send | status => exact ⟨rfl, Or.inl rfl⟩

/-- **What a call of one execution is to another.** -/
theorem rely_of_perform {permits : List Sent → SignedTransaction → Prop} (he : e' ≠ e)
    (hreq : Requires permits e' s c w) (h : w.perform e' choice c = some (r, w')) :
    Rely e w w' := by
  cases performs_of_perform h with
  | quiet hc hagrees => exact rely_of_quiet hc h
  | nonce q t ht =>
      refine ⟨⟨fun _ hn => hn, ?_⟩, rfl⟩
      rcases ht with rfl | ⟨rows, heq⟩
      · exact .refl _ e w.nonces
      · exact keeps_of_execute he hreq _ heq
  | query q t ht =>
      refine ⟨.of_eq rfl rfl, View.ext rfl ?_ rfl⟩
      rcases ht with rfl | ⟨rows, heq⟩
      · rfl
      · exact rowsOf_of_execute he.symm hreq heq
  | send chainId stickyIndex e₁ x hanswer howner =>
      refine ⟨.of_eq rfl rfl, View.ext ?_ rfl rfl⟩
      exact w.sentOf_send_of_ne (howner ▸ he)
  | status e₁ status =>
      obtain rfl : e₁ = e' := hreq
      exact rely_of_eq rfl rfl (Function.update_of_ne he.symm _ _) rfl rfl

/-- What one run of the sweeper can do to the world. -/
theorem outside_sweep (w : World) (fault : DatabaseFault) :
    w.outside (.sweep fault) = w
    ∨ ∃ released t, w.nonces.expireStates w.now = .ok (released, t)
        ∧ w.outside (.sweep fault)
          = { w with nonces := t, swept := released.map Prod.swap ++ w.swept } := by
  unfold World.outside
  cases hexpire : w.nonces.expireStates w.now with
  | error err =>
      left
      cases fault <;> rfl
  | ok answer =>
      cases fault with
      | failed message => exact Or.inl rfl
      | none | unacknowledged => exact Or.inr ⟨answer.1, answer.2, rfl, rfl⟩

/-- **What an outside event is to an execution.** -/
theorem rely_outside (e : ExecutionId) (w : World) (event : OutsideEvent) :
    Rely e w (w.outside event) := by
  cases event with
  | tick elapsed => exact rely_of_eq rfl rfl rfl rfl rfl
  | sweep fault =>
      rcases outside_sweep w fault with heq | ⟨released, t, hexpire, heq⟩
      · rw [heq]
        exact Rely.refl e w
      · rw [heq]
        refine ⟨⟨fun n hn => List.mem_append_right _ hn, ?_⟩, rfl⟩
        refine NonceTable.keeps_sweep hexpire fun n hn => List.mem_append_left _ ?_
        exact List.mem_map.mpr ⟨(n, e), hn, rfl⟩

end

/-! ## The contract -/

/-- The conditions on the events of a run. -/
abbrev RunConditions : Type :=
  Machine.Conditions ExecutionId Choice OutsideEvent EngineCall World

/-- The contract of the pipeline of an execution, in runs that meet the conditions. -/
def Deployment.contract (d : Deployment) (K : RunConditions)
    (permits : List Sent → SignedTransaction → Prop) (e : ExecutionId) :
    Contract EngineCall EngineCall.Reply World where
  rely := Rely e
  rely_refl := Rely.refl e
  rely_trans := Rely.trans
  requires c w := ∃ s, d.submission e = some s ∧ Requires permits e s c w
  step c w r w' := ∃ choice, K.call e choice c w ∧ w.perform e choice c = some (r, w')

/-- The contracts fit together, for every invariant that the calls and the outside events
keep. -/
theorem compatible {d : Deployment} {K : RunConditions}
    {permits : List Sent → SignedTransaction → Prop} {I : World → Prop}
    (hcall : ∀ {e s choice c w r w'}, d.submission e = some s → I w → K.call e choice c w →
      Requires permits e s c w → w.perform e choice c = some (r, w') → I w')
    (houtside : ∀ {event w}, I w → K.external event w → I (w.outside event)) :
    Machine.Compatible machine K (d.contract K permits) I where
  step := by
    rintro e choice c w r w' hI hK ⟨s, hs, hreq⟩ hperform
    exact ⟨⟨choice, hK, hperform⟩, hcall hs hI hK hreq hperform⟩
  guarantee := by
    rintro e e' choice c w r w' he hI hK ⟨s, hs, hreq⟩ hperform
    exact rely_of_perform he.symm hreq hperform
  external := by
    intro event w w' hI hK hevent
    cases hevent
    exact ⟨houtside hI hK, fun e => rely_outside e w event⟩

end Lobby
