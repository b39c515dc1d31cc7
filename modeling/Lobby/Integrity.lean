/-
# What is sent and what is shown

Whatever the order of the statements and requests, whichever of them fail, and whatever the
nodes answer, what is handed to the network for an execution is the transaction of its
submission with some nonce, linted, and signed with the key that the custody file has for the
address of the client (`sent_as_requested`).  A status that shows a transaction hash shows one that
a node has answered to a transaction of the same execution (`shown_hash_answered`).

Both are facts that only ever become true: they survive everything the other executions do,
so the contract of a pipeline asks of the others only that what was sent stays sent.
-/
import Lobby.Shards
import Lobby.RelayHost
import Lobby.Recovery

namespace Lobby

open Revisions Interaction Prog Phase PipelineContext Rlp

/-! ## Genuine transactions -/

/-- The transaction of the submission with the nonce of the signed one, signed with the key of
the client. -/
def Deployment.Genuine (d : Deployment) (s : Submission) (signed : SignedTransaction) : Prop :=
  ∃ key, d.custodyKeys.resolveKey d.crypto s.clientConfig.fromAddress = .ok key
    ∧ signEip1559Transaction d.crypto { s.txn with nonce := signed.withNonce } key
      = some (.ok signed)

/-- The bytes of a signed transaction: the fields, then a signature. -/
theorem rlp_of_sign {crypto : Crypto} {tx : Eip1559Transaction} {pvtKey : B256}
    {signed : SignedTransaction}
    (h : signEip1559Transaction crypto tx pvtKey = some (.ok signed)) :
    ∃ v r s, signed.rlp = 0x02 :: (Item.list (txItems tx ++ signatureItems v r s)).encode := by
  rw [signEip1559Transaction, encodeEip1559Unsigned_eq] at h
  dsimp only at h
  split at h
  · cases h
  · split at h
    · cases h
    · rw [encodeEip1559Signed_eq] at h
      cases h
      exact ⟨_, _, _, rfl⟩

/-- The fields that a node reads in a genuine transaction are those of the submission. -/
theorem Deployment.Genuine.fields {d : Deployment} {s : Submission} {signed : SignedTransaction}
    (h : d.Genuine s signed) (hfits : Fits { s.txn with nonce := signed.withNonce }) :
    unsignedOfSigned signed.rlp.tail
      = encodeEip1559Unsigned { s.txn with nonce := signed.withNonce } := by
  obtain ⟨key, -, hsign⟩ := h
  obtain ⟨v, r, s', hrlp⟩ := rlp_of_sign hsign
  have hdecode := unsignedOfSigned_encode { s.txn with nonce := signed.withNonce } v r s'
    (hfits v r s')
  rw [encodeEip1559Signed_eq, Option.bind_some] at hdecode
  rw [hrlp, List.tail_cons, hdecode]

/-- Whatever the database answers, `handle_sign` returns what the key has signed. -/
theorem handleSign_genuine (d : Deployment) (s : Submission) (chainId : ChainId)
    (e : ExecutionId) (nonce : TxNonce) :
    (handleSign d.crypto d.custodyKeys s.clientConfig.fromAddress chainId e
        { s.txn with nonce := nonce }).Returns
      fun result => ∀ signed, result = .ok signed → d.Genuine s signed := by
  unfold handleSign
  cases hkey : d.custodyKeys.resolveKey d.crypto s.clientConfig.fromAddress with
  | error e => exact fun _ h => nomatch h
  | ok pvtKey =>
      cases chainId.id.toI64 with
      | none => exact fun _ h => nomatch h
      | some chainIdI64 =>
          simp only [perform_bind]
          intro inserted
          match inserted with
          | .error _ | .ok none => exact fun _ h => nomatch h
          | .ok (some revision) =>
              dsimp only
              split
              · exact fun _ h => nomatch h
              · rename_i signedTx hsign
                intro marked
                match marked with
                | .error _ => exact fun _ h => nomatch h
                | .ok rowsAffected =>
                    dsimp only
                    split
                    · exact fun _ h => nomatch h
                    · intro signed hok
                      cases hok
                      exact ⟨pvtKey, hkey, by rwa [withNonce_of_sign hsign]⟩
              · intro marked
                match marked with
                | .error _ => exact fun _ h => nomatch h
                | .ok rowsAffected =>
                    dsimp only
                    split <;> exact fun _ h => nomatch h

/-! ## Hashes that were answered -/

/-- A node has answered a transaction of the execution with the hash. -/
def World.Answered (w : World) (e : ExecutionId) (txHash : TxHash) : Prop :=
  ∃ x ∈ w.sent, x.executionId = e ∧ x.reply = .ok txHash

/-- The transaction hash that a status shows. -/
def PipelineStatus.shownHash : PipelineStatus → Option String
  | .broadcasted txHash _ | .confirmedOnChain txHash => some txHash
  | _ => none

/-- A hash that the status shows was answered. -/
def World.Shows (w : World) (e : ExecutionId) (status : PipelineStatus) : Prop :=
  ∀ text, status.shownHash = some text →
    ∃ txHash, w.Answered e txHash ∧ lowerHex txHash.bytes = text

theorem World.shows_of_eq_none {w : World} {e : ExecutionId} {status : PipelineStatus}
    (h : status.shownHash = none) : w.Shows e status := by
  intro text htext
  rw [h] at htext
  cases htext

section

variable {w w' : World} {e : ExecutionId}

theorem World.Answered.mono {txHash : TxHash} (h : w.Answered e txHash)
    (hsent : w.sent ⊆ w'.sent) : w'.Answered e txHash := by
  obtain ⟨x, hx, howner, hreply⟩ := h
  exact ⟨x, hsent hx, howner, hreply⟩

theorem World.Shows.mono {status : PipelineStatus} (h : w.Shows e status)
    (hsent : w.sent ⊆ w'.sent) : w'.Shows e status := by
  intro text htext
  obtain ⟨txHash, hanswered, heq⟩ := h text htext
  exact ⟨txHash, hanswered.mono hsent, heq⟩

end

/-- What was sent is genuine and was registered; the rows and the statuses of the submitted
executions have no hashes but those that were answered. -/
structure World.Honest (d : Deployment) (R : ExecutionId → Submission → Prop) (w : World) :
    Prop where
  sent : ∀ x ∈ w.sent, ∃ s, d.submission x.executionId = some s
    ∧ R x.executionId s ∧ d.Genuine s x.txn
  rows : ∀ r ∈ w.broadcasts.rows, d.submission r.executionId ≠ none →
    ∀ txHash, r.txHash = some txHash → w.Answered r.executionId txHash
  statuses : ∀ e status, d.submission e ≠ none → w.statuses e = some status → w.Shows e status

/-- At first nothing was sent, and the new executions have no rows. -/
theorem World.Fresh.honest {d : Deployment} {w : World} (h : w.Fresh d)
    (R : ExecutionId → Submission → Prop)
    (hstatuses : ∀ e, d.submission e ≠ none → w.statuses e = none) : w.Honest d R where
  sent x hx := by
    rw [h.sent] at hx
    cases hx
  rows r hr hsub := absurd (h.broadcasts r hr) hsub
  statuses e status hsub hstatus := by
    rw [hstatuses e hsub] at hstatus
    cases hstatus

/-! ## The contract -/

/-- What a pipeline promises before a call. -/
def Deployment.Vouches (d : Deployment) (R : ExecutionId → Submission → Prop)
    (e : ExecutionId) : EngineCall → World → Prop
  | .broadcast (.sendRawTransaction _ _ txn e' _), _ =>
      e' = e ∧ ∃ s, d.submission e = some s ∧ R e s ∧ d.Genuine s txn
  | .broadcast (.query (.markSubmitted e' _ txHash)), w => e' = e ∧ w.Answered e txHash
  | .outside (.setStatus e' status), w => e' = e ∧ w.Shows e status
  | _, _ => True

/-- The contract of the pipeline of an execution: of the others it asks only that what was
sent stays sent. -/
def Deployment.honesty (d : Deployment) (R : ExecutionId → Submission → Prop)
    (K : RunConditions) (e : ExecutionId) :
    Contract EngineCall EngineCall.Reply World where
  rely w w' := w.sent ⊆ w'.sent
  rely_refl _ := List.Subset.refl _
  rely_trans := List.Subset.trans
  requires := d.Vouches R e
  step c w r w' := w.Honest d R
    ∧ ∃ choice, K.call e choice c w ∧ w.perform e choice c = some (r, w')

section contract

variable {d : Deployment} {R : ExecutionId → Submission → Prop} {K : RunConditions}
  {e : ExecutionId} {choice : Choice} {c : EngineCall} {w w' : World} {r : c.Reply}

theorem sent_subset_of_perform (h : w.perform e choice c = some (r, w')) :
    w.sent ⊆ w'.sent := by
  cases performs_of_perform h with
  | quiet hc hagrees => exact (hagrees.sent ▸ List.Subset.refl _)
  | nonce | query | status => exact List.Subset.refl _
  | send => exact List.subset_cons_self _ _

/-- The hashes in the rows after a statement: the old ones, and the one it records. -/
theorem txHash_of_execute {q : BroadcastQuery} {now : Timestamp} {t t' : BroadcastTable}
    {rows : q.Rows} (h : q.execute now t = .ok (rows, t')) {row : BroadcastRow}
    (hrow : row ∈ t'.rows) {txHash : TxHash} (hhash : row.txHash = some txHash) :
    (∃ row₀ ∈ t.rows, row₀.executionId = row.executionId ∧ row₀.txHash = some txHash)
    ∨ ∃ n, q = .markSubmitted row.executionId n txHash := by
  cases q with
  | insertRequest chainId fromAddress e =>
      rcases RequestTable.insertUnless_eq_ok.mp h with ⟨-, -, rfl⟩ | ⟨-, -, hrows⟩
      · exact Or.inl ⟨row, hrow, rfl, hhash⟩
      · rw [hrows, List.mem_append, List.mem_singleton] at hrow
        rcases hrow with hrow | rfl
        · exact Or.inl ⟨row, hrow, rfl, hhash⟩
        · cases hhash
  | latestRequest e =>
      simp only [BroadcastQuery.execute] at h
      split at h
      · cases h
        exact Or.inl ⟨row, hrow, rfl, hhash⟩
      · cases h
  | markSubmitted e revision txHash' =>
      have hrows := (RequestTable.updateKeys_eq_ok.mp h).2
      rw [hrows] at hrow
      obtain ⟨row₀, hrow₀, rfl⟩ := mem_update.mp hrow
      split at hhash
      · rename_i hkey
        -- the row under the key of the statement gets its hash
        obtain ⟨row₁, hrow₁, heq⟩ := List.mem_map.mp hkey
        have hkey₁ := (Bool.and_eq_true_iff.mp (List.mem_filter.mp hrow₁).2).1
        have howner : row₀.executionId = e :=
          (congrArg Prod.fst heq).symm.trans (congrArg Prod.fst (of_decide_eq_true hkey₁))
        rw [if_pos hkey]
        cases hhash
        exact Or.inr ⟨revision, by rw [← howner]; rfl⟩
      · rename_i hkey
        rw [if_neg hkey]
        exact Or.inl ⟨row₀, hrow₀, rfl, hhash⟩
  | markRejected e revision reason =>
      have hrows := (RequestTable.updateKeys_eq_ok.mp h).2
      rw [hrows] at hrow
      obtain ⟨row₀, hrow₀, rfl⟩ := mem_update.mp hrow
      refine Or.inl ⟨row₀, hrow₀, ?_, ?_⟩
      · split <;> rfl
      · split at hhash <;> exact hhash

/-- A call keeps the world honest. -/
theorem World.Honest.perform (hw : w.Honest d R) (hreq : d.Vouches R e c w)
    (h : w.perform e choice c = some (r, w')) : w'.Honest d R := by
  have hsubset := sent_subset_of_perform h
  cases performs_of_perform h with
  | quiet hc hagrees =>
      constructor
      · rw [hagrees.sent]
        exact hw.sent
      · rw [hagrees.broadcasts]
        exact fun r hr hsub txHash hhash => (hw.rows r hr hsub txHash hhash).mono hsubset
      · rw [hagrees.statuses]
        exact fun e status hsub hstatus => (hw.statuses e status hsub hstatus).mono hsubset
  | nonce q t ht => exact ⟨hw.sent, hw.rows, hw.statuses⟩
  | query q t ht =>
      refine ⟨hw.sent, fun row hrow hsub txHash hhash => ?_, hw.statuses⟩
      rcases ht with rfl | ⟨rows, hexecute⟩
      · exact hw.rows row hrow hsub txHash hhash
      · rcases txHash_of_execute hexecute hrow hhash with ⟨row₀, hrow₀, howner, hhash₀⟩ | ⟨n, rfl⟩
        · have hanswered := hw.rows row₀ hrow₀ (howner ▸ hsub) txHash hhash₀
          rwa [howner] at hanswered
        · obtain ⟨howner, hanswered⟩ := hreq
          rw [howner]
          exact hanswered
  | send chainId stickyIndex e₁ x hanswer howner haccepted =>
      obtain ⟨-, s, hs, hregistered, hgenuine⟩ := hreq
      refine ⟨fun y hy => ?_, fun row hrow hsub txHash hhash => ?_,
        fun e status hsub hstatus => (hw.statuses e status hsub hstatus).mono hsubset⟩
      · rcases List.mem_cons.mp hy with rfl | hy
        · exact ⟨s, howner ▸ hs, howner ▸ hregistered, hgenuine⟩
        · exact hw.sent y hy
      · exact (hw.rows row hrow hsub txHash hhash).mono hsubset
  | status e₁ status =>
      obtain ⟨rfl, hshows⟩ := hreq
      refine ⟨hw.sent, hw.rows, fun e' status' hsub hstatus => ?_⟩
      dsimp only at hstatus
      by_cases he : e' = e₁
      · subst he
        rw [Function.update_self] at hstatus
        cases hstatus
        exact hshows
      · rw [Function.update_of_ne he] at hstatus
        exact hw.statuses e' status' hsub hstatus

theorem World.Honest.outside (hw : w.Honest d R) (event : OutsideEvent) :
    (w.outside event).Honest d R := by
  cases event with
  | tick elapsed => exact ⟨hw.sent, hw.rows, hw.statuses⟩
  | sweep fault =>
      simp only [World.outside]
      split
      · exact hw
      · exact hw
      · exact ⟨hw.sent, hw.rows, hw.statuses⟩

theorem sent_outside (w : World) (event : OutsideEvent) : (w.outside event).sent = w.sent := by
  cases event with
  | tick elapsed => rfl
  | sweep fault =>
      simp only [World.outside]
      split <;> rfl

/-- The contracts of all pipelines fit together. -/
theorem honesty_compatible (d : Deployment) (R : ExecutionId → Submission → Prop)
    (K : RunConditions) :
    Machine.Compatible machine K (d.honesty R K) (World.Honest d R) where
  step hw hK hreq hperform := ⟨⟨hw, _, hK, hperform⟩, hw.perform hreq hperform⟩
  guarantee _ _ _ _ hperform := sent_subset_of_perform hperform
  external := by
    intro event w w' hw _ hevent
    cases hevent
    refine ⟨hw.outside event, fun _ => ?_⟩
    show w.sent ⊆ (w.outside event).sent
    rw [sent_outside]
    exact List.Subset.refl _

end contract

/-! ## What the engines promise -/

/-- An assertion that stays true while the record of what was sent grows. -/
def Grows (P : World → Prop) : Prop := ∀ w w' : World, P w → w.sent ⊆ w'.sent → P w'

section commands

variable {d : Deployment} {R : ExecutionId → Submission → Prop} {K : RunConditions}
  {e : ExecutionId} {s : Submission} {P : World → Prop} {w : World} {α : Type}
  {Q : α → World → Prop}

/-- A call that promises nothing, with what its reply says. -/
theorem wp_promising_call (hP : Grows P) {c : EngineCall} {A : c.Reply → World → Prop}
    (hreq : ∀ w, P w → d.Vouches R e c w)
    (hreply : ∀ w r w', P w → (d.honesty R K e).step c w r w' → A r w')
    {next : c.Reply → EngineProg α}
    (hnext : ∀ r w', P w' → A r w' → wp (d.honesty R K e) (next r) Q w') (hw : P w) :
    wp (d.honesty R K e) (.call c next) Q w := by
  refine wp_call fun w₁ hrely => ⟨hreq w₁ (hP _ _ hw hrely), fun r w₂ hstep => ?_⟩
  obtain ⟨choice, hK, hperform⟩ := hstep.2
  have hw₁ := hP _ _ hw hrely
  exact hnext r w₂ (hP _ _ hw₁ (sent_subset_of_perform hperform)) (hreply w₁ r w₂ hw₁ hstep)

/-- A call that says nothing. -/
theorem wp_silent_call (hP : Grows P) {c : EngineCall} (hreq : ∀ w, d.Vouches R e c w)
    {next : c.Reply → EngineProg α}
    (hnext : ∀ r w', P w' → wp (d.honesty R K e) (next r) Q w') (hw : P w) :
    wp (d.honesty R K e) (.call c next) Q w :=
  wp_promising_call (A := fun _ _ => True) hP (fun w _ => hreq w) (fun _ _ _ _ _ => trivial)
    (fun r w' hw' _ => hnext r w' hw') hw

theorem wp_silent_ask (hP : Grows P) {c : EngineCall} (hreq : ∀ w, d.Vouches R e c w) (hw : P w) :
    wp (d.honesty R K e) c.ask (fun _ => P) w :=
  wp_silent_call hP hreq (fun _ _ hw' => wp_ret fun _ hrely => hP _ _ hw' hrely) hw

/-- A command to an actor whose mailbox or reply channel may be closed. -/
theorem wp_vouched_command {T F : Type} {command : PipelineCall} {shutDown dropped : F}
    {handler : EngineProg (Except F T)} {Q : Except F T → World → Prop} (hP : Grows P)
    (hQ : ∀ r, Grows (Q r)) (hkeep : ∀ r w, Q r w → P w) (hlost : ∀ err w, P w → Q (.error err) w)
    (hhandler : ∀ w, P w → wp (d.honesty R K e) handler Q w) (hw : P w) :
    wp (d.honesty R K e) (through command shutDown dropped handler) Q w := by
  have herror : ∀ err w', P w' → wp (d.honesty R K e) (.ret (.error err)) Q w' :=
    fun err w' hw' => wp_ret fun _ hrely => hlost err _ (hP _ _ hw' hrely)
  simp only [through, perform_bind]
  refine wp_silent_call (c := .deliver command) hP (fun _ => trivial)
    (fun delivered w₁ hw₁ => ?_) hw
  cases delivered with
  | false => exact herror _ w₁ hw₁
  | true =>
      rw [if_pos rfl]
      refine wp_seq (hhandler w₁ hw₁) fun r w₂ hr => ?_
      refine wp_silent_call (c := .collect command) (hQ r) (fun _ => trivial)
        (fun collected w₃ hw₃ => ?_) hr
      cases collected with
      | false => exact herror _ w₃ (hkeep r w₃ hw₃)
      | true => exact wp_ret fun _ hrely => hQ r _ _ hw₃ hrely

/-- A command whose handler makes only calls that say nothing. -/
theorem wp_silent_command {T F C : Type} {Reply : C → Type} {command : PipelineCall}
    {shutDown dropped : F} {handle : (c : C) → EngineProg (Reply c)} {p : Prog C Reply (Except F T)}
    {post : Except F T → Prop} (hP : Grows P)
    (hhandle : ∀ c w, P w → wp (d.honesty R K e) (handle c) (fun _ => P) w)
    (hlost : ∀ err, post (.error err)) (hp : p.Returns post) (hw : P w) :
    wp (d.honesty R K e) (through command shutDown dropped (p.interp handle))
      (fun r w' => post r ∧ P w') w :=
  wp_vouched_command hP (fun _ _ _ h hsent => ⟨h.1, hP _ _ h.2 hsent⟩) (fun _ _ h => h.2)
    (fun err _ hw => ⟨hlost err, hw⟩)
    (fun _ hw => wp_interp_returns (fun hw hrely => hP _ _ hw hrely) hhandle hp hw) hw

/-- What a broadcast command leaves to be said. -/
abbrev BroadcastPost (P : World → Prop) (e : ExecutionId)
    (r : Except BroadcastError BroadcastOutcome) (w : World) : Prop :=
  P w ∧ ∀ outcome, r = .ok outcome → w.Answered e outcome.txnHash

theorem wp_broadcast_error (hP : Grows P) (err : BroadcastError) (hw : P w) :
    wp (d.honesty R K e) (.ret (.error err)) (BroadcastPost P e) w :=
  wp_ret fun _ hrely => ⟨hP _ _ hw hrely, fun _ h => nomatch h⟩

/-- The answer of the node is recorded. -/
theorem wp_recordAnswer (hP : Grows P) {chainId : ChainId} {fromAddress : Address}
    {txn : SignedTransaction} {stickyIndex revision : ℕ} {reply : Except LobbyRpcError TxHash}
    (hw : P w ∧ ∀ txHash, reply = .ok txHash → w.Answered e txHash) :
    wp (d.honesty R K e)
      ((recordReply chainId fromAddress e txn stickyIndex revision reply).interp
        fun c => (EngineCall.broadcast c).ask) (BroadcastPost P e) w := by
  have hreject : ∀ reason w' {next : (BroadcastCall.query
      (.markRejected e revision reason)).Reply →
        EngineProg (Except BroadcastError BroadcastOutcome)},
      (∀ r, ∃ err, next r = .ret (.error err)) → P w' →
      wp (d.honesty R K e) (.call (.broadcast (.query (.markRejected e revision reason))) next)
        (BroadcastPost P e) w' := by
    intro reason w' next hnext hw'
    refine wp_silent_call (c := .broadcast (.query (.markRejected e revision reason))) hP
      (fun _ => trivial) (fun r w₁ hw₁ => ?_) hw'
    obtain ⟨err, heq⟩ := hnext r
    rw [heq]
    exact wp_broadcast_error hP _ hw₁
  cases reply with
  | ok txnHash =>
      have hgrows : Grows fun w => P w ∧ w.Answered e txnHash :=
        fun _ _ h hsent => ⟨hP _ _ h.1 hsent, h.2.mono hsent⟩
      simp only [recordReply, perform_bind, interp_call]
      refine wp_promising_call (c := .broadcast (.query (.markSubmitted e revision txnHash)))
        (P := fun w => P w ∧ w.Answered e txnHash) (A := fun _ _ => True) hgrows
        (fun w hw => ⟨rfl, hw.2⟩) (fun _ _ _ _ _ => trivial) (fun r w₁ hw₁ _ => ?_)
        ⟨hw.1, hw.2 txnHash rfl⟩
      cases r with
      | error => exact wp_broadcast_error hP _ hw₁.1
      | ok =>
          refine wp_ret fun w₂ hrely => ⟨hP _ _ hw₁.1 hrely, fun outcome hok => ?_⟩
          cases hok
          exact hw₁.2.mono hrely
  | error err =>
      simp only [recordReply, perform_bind]
      split
      · simp only [interp_call, perform_bind]
        refine wp_silent_call
          (c := .broadcast (.getTransactionCount chainId stickyIndex fromAddress)) hP
          (fun _ => trivial) (fun count w₁ hw₁ => ?_) hw.1
        cases count with
        | error => exact wp_broadcast_error hP _ hw₁
        | ok nonceOnChain =>
            exact hreject _ w₁ (fun r => by cases r <;> exact ⟨_, rfl⟩) hw₁
      · simp only [interp_call, perform_bind]
        exact hreject _ w (fun r => by cases r <;> exact ⟨_, rfl⟩) hw.1

/-- The answer of an earlier call is the hash of a row. -/
theorem txHash_of_earlier {t t' : BroadcastTable} {now : Timestamp}
    {row : BroadcastState × Option TxHash × Option String} {outcome : BroadcastOutcome}
    (h : Answers t ((BroadcastQuery.latestRequest e).execute now t) (.ok row) t')
    (houtcome : earlierOutcome row = .ok outcome) :
    ∃ r ∈ t.rows, r.executionId = e ∧ r.txHash = some outcome.txnHash := by
  cases h with
  | done h =>
      rw [BroadcastQuery.execute] at h
      split at h
      · rename_i r hnewest
        cases h
        obtain ⟨hr, howner, -⟩ := latest_eq_some hnewest
        refine ⟨r, hr, howner, ?_⟩
        cases hstate : r.state <;> cases hhash : r.txHash <;>
          simp [hstate, hhash, earlierOutcome] at houtcome
        rw [← houtcome]
      · cases h

/-- **What a broadcast answers was answered by a node.** -/
theorem wp_answered_broadcast (hP : Grows P) (hs : d.submission e = some s)
    {chainId : ChainId} {fromAddress : Address} {txn : SignedTransaction} {stickyIndex : ℕ}
    (hregistered : R e s) (hgenuine : d.Genuine s txn) (hw : P w) :
    wp (d.honesty R K e) (d.handle (.broadcast chainId fromAddress e txn stickyIndex))
      (BroadcastPost P e) w := by
  refine wp_vouched_command hP (fun r w w' hr hsent => ⟨hP _ _ hr.1 hsent, fun outcome hok =>
    (hr.2 outcome hok).mono hsent⟩) (fun _ _ hr => hr.1) (fun _ _ hw => ⟨hw, fun _ h => nomatch h⟩)
    (fun w hw => ?_) hw
  unfold handleBroadcast
  cases chainId.id.toI64 with
  | none => exact wp_broadcast_error hP _ hw
  | some chainIdI64 =>
      simp only [perform_bind, interp_call]
      refine wp_silent_call
        (c := .broadcast (.query (.insertRequest chainIdI64 fromAddress e))) hP
        (fun _ => trivial) (fun inserted w₁ hw₁ => ?_) hw
      match inserted with
      | .error _ => exact wp_broadcast_error hP _ hw₁
      | .ok (some revision) =>
          -- the transaction is handed to the network
          simp only [sendRequest, perform_bind, interp_call]
          refine wp_promising_call hP
            (c := .broadcast (.sendRawTransaction chainId stickyIndex txn e revision))
            (A := fun reply w' => ∀ txHash, reply = .ok txHash → w'.Answered e txHash)
            (fun _ _ => ⟨rfl, s, hs, hregistered, hgenuine⟩) ?_
            (fun reply w₂ hw₂ hanswered => wp_recordAnswer hP ⟨hw₂, hanswered⟩) hw₁
          rintro w₂ reply w₃ _ ⟨-, choice, _, hperform⟩ txHash rfl
          obtain ⟨reply', _, heq⟩ := Option.map_eq_some_iff.mp hperform
          cases heq
          exact ⟨_, List.mem_cons_self, rfl, rfl⟩
      | .ok none =>
          -- the row of an earlier call is answered
          simp only [perform_bind, interp_call]
          refine wp_promising_call hP (c := .broadcast (.query (.latestRequest e)))
            (A := fun reply w' => ∀ row (outcome : BroadcastOutcome), reply = .ok row →
              earlierOutcome row = .ok outcome → w'.Answered e outcome.txnHash)
            (fun _ _ => trivial) ?_ (fun reply w₂ hw₂ hanswered => ?_) hw₁
          · rintro w₂ reply w₃ _ ⟨hhonest, choice, _, hperform⟩ row outcome rfl houtcome
            have hsubset := sent_subset_of_perform hperform
            have hanswers := choice.fault.answers w₂.broadcasts
              ((BroadcastQuery.latestRequest e).execute w₂.now w₂.broadcasts)
            have hreply := congrArg Prod.fst (Option.some.inj hperform)
            rw [show (choice.fault.reply w₂.broadcasts ((BroadcastQuery.latestRequest e).execute
              w₂.now w₂.broadcasts)).1 = .ok row from hreply] at hanswers
            obtain ⟨r, hr, howner, hhash⟩ := txHash_of_earlier hanswers houtcome
            have hanswered := hhonest.rows r hr (by rw [howner, hs]; simp) _ hhash
            rw [howner] at hanswered
            exact hanswered.mono hsubset
          · cases reply with
            | error => exact wp_broadcast_error hP _ hw₂
            | ok row =>
                refine wp_ret fun w₃ hrely => ⟨hP _ _ hw₂ hrely, fun outcome hok => ?_⟩
                exact (hanswered row outcome rfl hok).mono hrely

end commands

/-! ## Along the phases -/

/-- What holds at the phases: from the first stage on the execution is registered, what was
signed is genuine, and the hash of the broadcast was answered. -/
def vouched (d : Deployment) (R : ExecutionId → Submission → Prop) (e : ExecutionId)
    (s : Submission) : Phase → World → Prop
  | .registering _, _ | .retiring _ _, _ | .timedOut _, _ | .ended, _ => True
  | .registered, _ | .reserving _, _ | .reserved _, _ | .signing _ _, _ | .mismatch _ _ _, _
  | .consuming _ _ _, _ | .reverting _ _, _ | .syncing _ _, _ | .synced _, _
  | .resigning _ _, _ => R e s
  | .signed _ txn, _ | .acquiring _ txn, _ | .sending _ _ txn _, _ | .resigned _ txn, _ =>
      R e s ∧ d.Genuine s txn
  | .broadcasted _ txHash, w | .validating _ txHash, w | .finalizing _ txHash _, w
  | .confirmed _ txHash, w => w.Answered e txHash
  | .releasing _ status _, _ | .failing status, _ => status.shownHash = none

theorem grows_vouched (d : Deployment) (R : ExecutionId → Submission → Prop) (e : ExecutionId)
    (s : Submission) (p : Phase) : Grows (vouched d R e s p) := by
  intro w w' hw hsent
  cases p with
  | broadcasted | validating | finalizing | confirmed => exact World.Answered.mono hw hsent
  | _ => exact hw

/-- The conditions of a run on the relay host: of what it accepts, `R` holds. -/
def RunConditions.Registers (K : RunConditions) (R : ExecutionId → Submission → Prop) : Prop :=
  ∀ e choice executionId txn clientConfig w,
    K.call e choice (.outside (.registerTransaction executionId txn clientConfig)) w →
    choice.answer (.outside (.registerTransaction executionId txn clientConfig))
      = some (.ok ()) → R executionId ⟨clientConfig, txn⟩

section outline

variable {d : Deployment} {R : ExecutionId → Submission → Prop} {K : RunConditions}
  {e : ExecutionId} {s : Submission} {w : World}

theorem vouched_attempted {T E : Type} {maxTotal attempt : ℕ} {stage : ℕ → Phase}
    {onOk : T → Phase} {onError : E → Phase} {r : Except E T}
    (hstage : ∀ k, vouched d R e s (stage k) w)
    (hok : ∀ value, r = .ok value → vouched d R e s (onOk value) w)
    (herror : ∀ err, vouched d R e s (onError err) w) :
    vouched d R e s (attempted maxTotal stage attempt onOk onError (retryAll r)) w :=
  attempted_of (H := fun p => vouched d R e s p w) hstage
    (fun value hvalue => hok value (retryAll_eq_ok hvalue)) fun err _ => herror err

/-- **Every call of a pipeline is vouched for.** -/
theorem outline_vouched (hK : K.Registers R) (hs : d.submission e = some s) :
    Outline ((d.honesty R K e).answered d.handle) (d.context e s) (vouched d R e s) where
  stable hw hrely := grows_vouched d R e s _ _ _ hw hrely
  call := by
    intro p c next w hcall hw
    refine answered_call ?_
    have hgrows := grows_vouched d R e s p
    -- a call of the pipeline itself
    have hask : ∀ {c : PipelineCall}, (∀ w, d.Vouches R e (.outside c) w) →
        wp (d.honesty R K e) (EngineCall.outside c).ask (fun _ => vouched d R e s p) w :=
      fun hreq => wp_silent_ask (c := .outside _) hgrows hreq hw
    have hshow : ∀ {status : PipelineStatus} {p' : Phase},
        (∀ w, vouched d R e s p w → w.Shows e status) →
        (∀ w, vouched d R e s p w → vouched d R e s p' w) →
        wp (d.honesty R K e) (EngineCall.outside (.setStatus e status)).ask
          (fun _ => vouched d R e s p') w := by
      intro status p' hshows hnext
      refine wp_promising_call (c := .outside (.setStatus e status)) (A := fun _ _ => True)
        hgrows (fun w hw => ⟨rfl, hshows w hw⟩) (fun _ _ _ _ _ => trivial)
        (fun r w' hw' _ => ?_) hw
      exact wp_ret fun w'' hrely => hnext w'' (hgrows _ _ hw' hrely)
    -- a command to an actor whose statements say nothing
    have hsilent : ∀ {T F C : Type} {Reply : C → Type} {command : PipelineCall}
        {shutDown dropped : F} {handle : (c : C) → EngineProg (Reply c)}
        {handler : Prog C Reply (Except F T)},
        (∀ c w, vouched d R e s p w →
          wp (d.honesty R K e) (handle c) (fun _ => vouched d R e s p) w) →
        wp (d.honesty R K e) (through command shutDown dropped (handler.interp handle))
          (fun _ => vouched d R e s p) w := by
      intro T F C Reply command shutDown dropped handle handler hhandle
      exact wp_mono (wp_silent_command (T := T) hgrows hhandle (fun _ => trivial)
        (returns_true handler) hw) fun _ _ h => h.2
    have hnonce : ∀ q w, vouched d R e s p w →
        wp (d.honesty R K e) (EngineCall.nonce q).ask (fun _ => vouched d R e s p) w :=
      fun q w hw => wp_silent_ask (c := .nonce q) hgrows (fun _ => trivial) hw
    have hsign : ∀ q w, vouched d R e s p w →
        wp (d.honesty R K e) (EngineCall.sign q).ask (fun _ => vouched d R e s p) w :=
      fun q w hw => wp_silent_ask (c := .sign q) hgrows (fun _ => trivial) hw
    cases hcall with
    | genRange | sleep | telemetry | unreachable => exact hask fun _ => trivial
    | register attempt =>
        refine wp_promising_call (c := .outside (.registerTransaction _ _ _))
          (A := fun reply _ => reply = .ok () → R e s) hgrows
          (fun _ _ => trivial) ?_ (fun r w' _ hregistered => wp_ret fun _ _ => ?_) hw
        · rintro w₁ r w₂ _ ⟨-, choice, hcall, hperform⟩ rfl
          obtain ⟨reply, hanswer, heq⟩ := Option.map_eq_some_iff.mp hperform
          cases heq
          exact hK _ _ _ _ _ _ hcall hanswer
        · exact vouched_attempted (fun _ => trivial) (fun _ hok => hregistered hok) fun _ => rfl
    | accept | showReserved | showMismatch | showSynced =>
        exact hshow (fun w _ => World.shows_of_eq_none rfl) fun _ hw => hw
    | showSigned | showResigned =>
        exact hshow (fun w _ => World.shows_of_eq_none rfl) fun _ hw => hw
    | reserve attempt | sync nonceOnChain attempt =>
        refine wp_mono (hsilent hnonce) fun r w' hw' => ?_
        exact vouched_attempted (fun _ => hw') (fun _ _ => hw') fun _ => rfl
    | sign nonce attempt | resign nonce attempt =>
        refine wp_mono (wp_silent_command hgrows hsign (fun _ _ h => nomatch h)
          (handleSign_genuine d s _ e nonce) hw) fun r w' hr => ?_
        exact vouched_attempted (fun _ => hr.2) (fun _ hok => ⟨hr.2, hr.1 _ hok⟩) fun _ => rfl
    | acquire nonce txn =>
        refine wp_mono (hask fun _ => trivial) fun r w' hw' => ?_
        rcases r with err | _ | stickyIndex
        · exact rfl
        · exact rfl
        · exact hw'
    | broadcast recoveries nonce txn attempt stickyIndex =>
        refine wp_mono (wp_answered_broadcast hgrows hs hw.1 hw.2 hw) fun r w' hr => ?_
        refine attempted_of (H := fun p => vouched d R e s p w') (fun _ => hr.1)
          (fun outcome hok => hr.2 outcome (broadcastDecision_ok hok)) fun err _ => ?_
        cases err with
        | nonceTooLow m n =>
            exact afterBroadcastError_of (H := fun p => vouched d R e s p w') (fun _ => rfl)
              fun _ => hr.1.1
        | _ => exact rfl
    | consume | finalize | retire | release =>
        refine wp_mono (hsilent hnonce) fun r w' hw' => ?_
        exact vouched_attempted (fun _ => hw') (fun _ _ => hw') fun _ => hw'
    | revert nonceOnChain attempt =>
        refine wp_mono (hsilent hsign) fun r w' hw' => ?_
        exact vouched_attempted (fun _ => hw') (fun _ _ => hw') fun _ => hw'
    | showBroadcasted nonce txHash =>
        exact hshow (fun w hw text htext => ⟨txHash, hw, Option.some.inj htext⟩) fun _ hw => hw
    | showConfirmed nonce txHash =>
        exact hshow (fun w hw text htext => ⟨txHash, hw, Option.some.inj htext⟩)
          fun _ _ => trivial
    | validate nonce txHash stickyIndex =>
        refine wp_mono (hsilent fun c w hw => wp_silent_ask (c := .validator c) hgrows
          (fun _ => trivial) hw) fun r w' hw' => ?_
        rcases r with err | result
        · cases err <;> exact rfl
        · cases result with
          | included => exact hw'
          | timeout => exact trivial
          | notIncluded => exact rfl
    | showTimedOut => exact hshow (fun w _ => World.shows_of_eq_none rfl) fun _ _ => trivial
    | fail status => exact hshow (fun w hw => World.shows_of_eq_none hw) fun _ _ => trivial

/-- **The world stays honest** along every run of the submissions. -/
theorem honest_of_reachable {w₀ : World}
    {st : Config ExecutionId EngineCall EngineCall.Reply World (Except BackpressureTimeout Unit)}
    (hK : K.Registers R) (hw : w₀.Honest d R)
    (hreach : machine.Reachable K (d.submitting w₀) st) : st.world.Honest d R := by
  refine (Machine.reachable_safe (Q := fun _ _ _ => True) (honesty_compatible d R K)
    ⟨hw, fun e => ?_⟩ hreach).1
  show wp (d.honesty R K e) ((d.submitted e).interp d.handle) _ w₀
  unfold Deployment.submitted
  cases hs : d.submission e with
  | none => exact wp_ret fun _ _ => trivial
  | some s =>
      have hpermit : wp ((d.honesty R K e).answered d.handle)
          ((d.context e s).setStatus .permitAquired)
          (fun _ => vouched d R e s (.registering 1)) w₀ := by
        refine wp_call fun w₁ _ => answered_call ?_
        exact wp_promising_call (P := fun _ => True) (A := fun _ _ => True)
          (c := .outside (.setStatus e .permitAquired)) (fun _ _ _ _ => trivial)
          (fun w _ => ⟨rfl, World.shows_of_eq_none rfl⟩) (fun _ _ _ _ _ => trivial)
          (fun _ _ _ _ => wp_ret fun _ _ => fun _ _ => trivial) trivial
      exact wp_mono (wp_interp_answered ((outline_vouched hK hs).wp_submit hpermit))
        fun _ _ _ => trivial

end outline

end Lobby
