/-
# What the engines guarantee a pipeline

One rule for every command a pipeline sends: from an assertion about the world of its
execution, what holds when the actor has answered.  The rules look at one statement or
request at a time, under interference between any two of them and with any database
fault, so they hold for every schedule.
-/
import Lobby.SystemFrame

namespace Lobby

open Revisions Interaction Prog

/-- Interference keeps the assertion. -/
def Stable (e : ExecutionId) (P : World → Prop) : Prop :=
  ∀ w w', P w → Rely e w w' → P w'

/-- The assertion is about the nonces of the execution: nothing else can break it. -/
def NonceStable (e : ExecutionId) (P : World → Prop) : Prop :=
  ∀ w w', P w → NonceRely e w w' → P w'

theorem NonceStable.stable {e : ExecutionId} {P : World → Prop} (h : NonceStable e P) :
    Stable e P := fun w w' hP hrely => h w w' hP hrely.toNonceRely

/-- An assertion about the view and one about the nonces. -/
theorem stable_view {e : ExecutionId} {V : View → Prop} {P : World → Prop}
    (h : NonceStable e P) : Stable e fun w => V (w.view e) ∧ P w := by
  intro w w' hw hrely
  rw [hrely.view]
  exact ⟨hw.1, h w w' hw.2 hrely.toNonceRely⟩

theorem plain_stable (e : ExecutionId) (s : Submission) :
    NonceStable e fun w => w.Plain e s :=
  fun _ _ hw hrely => hrely.nonces.plain hw

theorem granted_stable (e : ExecutionId) (n : ℕ) : NonceStable e fun w => w.Granted e n := by
  intro w w' hw hrely
  rcases hw with hswept | hholds
  · exact Or.inl (hrely.swept n hswept)
  · exact hrely.nonces.holds hholds

/-- The granted nonce is settled, or nobody has resolved it yet, or the sweeper took it. -/
def World.Settled (w : World) (e : ExecutionId) (state : NonceState) (n : ℕ) : Prop :=
  w.Granted e n ∨ NonceTable.Has e state n w.nonces

theorem settled_stable {e : ExecutionId} {state : NonceState} {n : ℕ}
    (h : state ≠ .reserved) (h' : state ≠ .released) :
    NonceStable e fun w => w.Settled e state n := by
  intro w w' hw hrely
  rcases hw with hgranted | hhas
  · exact Or.inl (granted_stable e n w w' hgranted hrely)
  · exact Or.inr (hrely.nonces.has h h' hhas)

section

variable {d : Deployment} {K : RunConditions} {permits : List Sent → SignedTransaction → Prop}
  {e : ExecutionId} {s : Submission} {P : World → Prop} {w : World} {α : Type}
  {Q : α → World → Prop}

/-! ## Single calls -/

theorem wp_quiet_call (hs : d.submission e = some s) (hP : Stable e P) {c : EngineCall}
    (hc : c.quiet = true) (hreq : ∀ w', P w' → Requires permits e s c w')
    {next : c.Reply → EngineProg α}
    (hnext : ∀ r w', P w' → wp (d.contract K permits e) (next r) Q w') (hw : P w) :
    wp (d.contract K permits e) (.call c next) Q w := by
  refine wp_call fun w₁ hrely => ⟨⟨s, hs, hreq w₁ (hP _ _ hw hrely)⟩, ?_⟩
  rintro r w₂ ⟨choice, _, hperform⟩
  exact hnext r w₂ (hP _ _ (hP _ _ hw hrely) (rely_of_quiet hc hperform))

theorem wp_nonce_call (hs : d.submission e = some s) (hP : Stable e P) {q : NonceQuery}
    (hq : q.isFor e s) {next : q.Reply → EngineProg α}
    (hnext : ∀ w', P w' → ∀ reply t', Answers w'.nonces (w'.nonces.execute w'.now q) reply t' →
      wp (d.contract K permits e) (next reply) Q { w' with nonces := t' })
    (hw : P w) : wp (d.contract K permits e) (.call (.nonce q) next) Q w := by
  refine wp_call fun w₁ hrely => ⟨⟨s, hs, hq⟩, ?_⟩
  rintro r w₂ ⟨choice, _, hperform⟩
  cases hperform
  exact hnext w₁ (hP _ _ hw hrely) _ _ (choice.fault.answers _ _)

/-- A program of quiet calls keeps every assertion that interference keeps. -/
theorem wp_quiet {C : Type} {R : C → Type} (hs : d.submission e = some s) (hP : Stable e P)
    {g : C → EngineCall} {handle : (c : C) → EngineProg (R c)}
    (hhandle : ∀ c, ∃ back : (g c).Reply → R c,
      handle c = .call (g c) fun r => .ret (back r))
    (hquiet : ∀ c, (g c).quiet = true)
    (hreq : ∀ c w', Requires permits e s (g c) w') {p : Prog C R α} {post : α → Prop}
    (hp : p.Returns post) (hw : P w) :
    wp (d.contract K permits e) (p.interp handle) (fun a w' => post a ∧ P w') w := by
  refine wp_interp_returns (fun hw hrely => hP _ _ hw hrely) (fun c w hw => ?_) hp hw
  obtain ⟨back, hback⟩ := hhandle c
  rw [hback]
  exact wp_quiet_call hs hP (hquiet c) (fun w' _ => hreq c w')
    (fun r w' hw' => wp_ret fun _ => hP _ _ hw') hw

/-- A command to an actor: the mailbox and the reply channel may be closed. -/
theorem wp_through {T E : Type} {command : PipelineCall} {shutDown dropped : E}
    {handler : EngineProg (Except E T)} {Q : Except E T → World → Prop}
    (hs : d.submission e = some s) (hP : Stable e P) (hQ : ∀ r, Stable e (Q r))
    (hdeliver : ∀ w, P w → Requires permits e s (.deliver command) w)
    (hshutDown : ∀ w, P w → Q (.error shutDown) w)
    (hdropped : ∀ r w, Q r w → Q (.error dropped) w)
    (hhandler : ∀ w, P w → wp (d.contract K permits e) handler Q w) (hw : P w) :
    wp (d.contract K permits e) (through command shutDown dropped handler) Q w := by
  simp only [through, perform_bind]
  refine wp_quiet_call hs hP rfl hdeliver (fun delivered w₁ hw₁ => ?_) hw
  cases delivered with
  | false => exact wp_ret fun w₂ hrely => hQ _ _ _ (hshutDown w₁ hw₁) hrely
  | true =>
      rw [if_pos rfl]
      refine wp_seq (hhandler w₁ hw₁) fun r w₂ hr => ?_
      refine wp_quiet_call (c := .collect command) hs (hQ r) rfl (fun _ _ => trivial)
        (fun collected w₃ hw₃ => ?_) hr
      cases collected with
      | false => exact wp_ret fun w₄ hrely => hQ _ _ _ (hdropped r w₃ hw₃) hrely
      | true => exact wp_ret fun w₄ hrely => hQ r _ _ hw₃ hrely

/-! ## The nonce engine -/

theorem chain_eq {c : ℕ} (h : s.txn.chainId.id.toI64 = some c) : c = s.chain := by
  rw [U256.toI64] at h
  split at h
  · cases h
    rfl
  · cases h

/-- A nonce in a row is the number it is handed out as. -/
theorem granted_of_holds {n : ℕ} (h : NonceTable.Holds e n w.nonces) {nonce : TxNonce}
    (hnonce : TxNonce.tryFrom n = .ok nonce) : w.Granted e nonce.value.toNat := by
  obtain ⟨r, hlatest, rfl⟩ := h
  have hrange := w.nonces.inRange r (NonceTable.latestReserved_eq_some hlatest).1
  rw [TxNonce.tryFrom_natCast] at hnonce
  cases hnonce
  refine Or.inr ⟨r, hlatest, ?_⟩
  show r.nonce = (BitVec.ofNat 256 r.nonce).toNat
  have hlt : r.nonce < 2 ^ 256 := lt_trans hrange.2.2 (by norm_num [i64Bound])
  rw [BitVec.toNat_ofNat, Nat.mod_eq_of_lt hlt]

/-- The assertion about the nonces while an execution reserves or syncs. -/
theorem stable_reserving {V : View → Prop} {r : Except LocalError TxNonce} :
    Stable e fun w => (V (w.view e) ∧ w.Plain e s)
      ∧ ∀ n, r = .ok n → w.Granted e n.value.toNat := by
  intro w w' hw hrely
  exact ⟨stable_view (plain_stable e s) w w' hw.1 hrely,
    fun n hn => granted_stable e _ w w' (hw.2 n hn) hrely.toNonceRely⟩

/-- The query for the newest row that holds a nonce. -/
theorem wp_existing {V : View → Prop}
    (hs : d.submission e = some s) {next : (NonceQuery.existing e).Reply →
      EngineProg (Except LocalError TxNonce)}
    (hnone : ∃ err, next (.ok none) = .ret (.error err))
    (hsome : ∀ nonce state, next (.ok (some (nonce, state))) = .ret (TxNonce.tryFrom nonce))
    (herror : ∀ err, ∃ err', next (.error err) = .ret (.error err'))
    (hw : V (w.view e) ∧ w.Plain e s) :
    wp (d.contract K permits e) (.call (.nonce (.existing e)) next)
      (fun r w' => (V (w'.view e) ∧ w'.Plain e s)
        ∧ ∀ n, r = .ok n → w'.Granted e n.value.toNat) w := by
  refine wp_nonce_call (q := .existing e) hs (stable_view (plain_stable e s)) rfl ?_ hw
  intro w₁ hw₁ reply t' hreply
  have hreturn : ∀ r : Except LocalError TxNonce,
      (∀ n, r = .ok n → w₁.Granted e n.value.toNat) →
      wp (d.contract K permits e) (.ret r) (fun r w' => (V (w'.view e) ∧ w'.Plain e s)
        ∧ ∀ n, r = .ok n → w'.Granted e n.value.toNat) w₁ :=
    fun r hr => wp_ret fun _ hrely => stable_reserving _ _ ⟨hw₁, hr⟩ hrely
  cases hreply with
  | failed err =>
      obtain ⟨err', herr⟩ := herror err
      rw [herr]
      exact hreturn _ fun _ h => nomatch h
  | unacknowledged h err =>
      cases h
      obtain ⟨err', herr⟩ := herror err
      rw [herr]
      exact hreturn _ fun _ h => nomatch h
  | done h =>
      cases h
      cases hexisting : w₁.nonces.existing e with
      | none =>
          obtain ⟨err', herr⟩ := hnone
          rw [Option.map_none, herr]
          exact hreturn _ fun _ h => nomatch h
      | some r =>
          rw [Option.map_some, hsome]
          exact hreturn _ fun n hn =>
            granted_of_holds (NonceTable.holds_existing hw₁.2 hexisting) hn

/-- `reserve` grants the nonce it answers with. -/
theorem wp_reserve {V : View → Prop} (hs : d.submission e = some s)
    (hw : V (w.view e) ∧ w.Plain e s) :
    wp (d.contract K permits e) (d.handle (.reserve s.txn.chainId s.account e))
      (fun r w' => (V (w'.view e) ∧ w'.Plain e s)
        ∧ ∀ n, r = .ok n → w'.Granted e n.value.toNat) w := by
  refine wp_through hs (stable_view (plain_stable e s)) (fun _ => stable_reserving)
    (fun _ _ => trivial) (fun w hw => ⟨hw, by rintro _ ⟨⟩⟩) (fun _ w hr => ⟨hr.1, by rintro _ ⟨⟩⟩)
    (fun w hw => ?_) hw
  unfold handleReserve
  cases hchain : s.txn.chainId.id.toI64 with
  | none => exact wp_ret fun _ hrely => stable_reserving _ _ ⟨hw, by rintro _ ⟨⟩⟩ hrely
  | some c =>
      obtain rfl := chain_eq hchain
      refine wp_nonce_call (q := .reserveCandidate s.chain s.account e) hs
        (stable_view (plain_stable e s)) ⟨rfl, rfl, rfl⟩ ?_ hw
      intro w₁ hw₁ reply t' hreply
      cases hreply with
      | failed err =>
          exact wp_ret fun _ hrely => stable_reserving _ _ ⟨hw₁, by rintro _ ⟨⟩⟩ hrely
      | unacknowledged h err =>
          have hplain := (NonceTable.plain_reserve hw₁.2 h).1
          exact wp_ret fun _ hrely =>
            stable_reserving { w₁ with nonces := t' } _
              ⟨⟨hw₁.1, hplain⟩, by rintro _ ⟨⟩⟩ hrely
      | @done rows t' h =>
          obtain ⟨hplain, hholds⟩ := NonceTable.plain_reserve hw₁.2 h
          rcases rows with _ | ⟨n, rev⟩
          · exact wp_existing (w := { w₁ with nonces := t' }) hs ⟨_, rfl⟩ (fun _ _ => rfl)
              (fun _ => ⟨_, rfl⟩) ⟨hw₁.1, hplain⟩
          · refine wp_ret fun _ hrely => ?_
            refine stable_reserving { w₁ with nonces := t' } _ ⟨⟨hw₁.1, hplain⟩, ?_⟩ hrely
            exact fun n hn => granted_of_holds (hholds _ _ rfl) hn

/-- So does `sync`. -/
theorem wp_sync {V : View → Prop} {nonceOnChain : TxNonce} (hs : d.submission e = some s)
    (hw : V (w.view e) ∧ w.Plain e s) :
    wp (d.contract K permits e) (d.handle (.sync s.txn.chainId s.account e nonceOnChain))
      (fun r w' => (V (w'.view e) ∧ w'.Plain e s)
        ∧ ∀ n, r = .ok n → w'.Granted e n.value.toNat) w := by
  refine wp_through hs (stable_view (plain_stable e s)) (fun _ => stable_reserving)
    (fun _ _ => trivial) (fun w hw => ⟨hw, by rintro _ ⟨⟩⟩) (fun _ w hr => ⟨hr.1, by rintro _ ⟨⟩⟩)
    (fun w hw => ?_) hw
  unfold handleSync
  cases hchain : s.txn.chainId.id.toI64 with
  | none => exact wp_ret fun _ hrely => stable_reserving _ _ ⟨hw, by rintro _ ⟨⟩⟩ hrely
  | some c =>
      obtain rfl := chain_eq hchain
      cases hnonce : nonceOnChain.value.toI64 with
      | none =>
          exact wp_ret fun _ hrely => stable_reserving _ _ ⟨hw, by rintro _ ⟨⟩⟩ hrely
      | some m =>
          refine wp_nonce_call (q := .syncReserve s.chain s.account e m) hs
            (stable_view (plain_stable e s)) ⟨rfl, rfl, rfl⟩ ?_ hw
          intro w₁ hw₁ reply t' hreply
          cases hreply with
          | failed err =>
              exact wp_ret fun _ hrely => stable_reserving _ _ ⟨hw₁, by rintro _ ⟨⟩⟩ hrely
          | unacknowledged h err =>
              have hplain := (NonceTable.plain_sync hw₁.2 h).1
              exact wp_ret fun _ hrely => stable_reserving { w₁ with nonces := t' } _
                ⟨⟨hw₁.1, hplain⟩, by rintro _ ⟨⟩⟩ hrely
          | @done rows t' h =>
              obtain ⟨hplain, hholds⟩ := NonceTable.plain_sync hw₁.2 h
              rcases rows with _ | ⟨n, rev⟩
              · exact wp_existing (w := { w₁ with nonces := t' }) hs ⟨_, rfl⟩
                  (fun _ _ => rfl) (fun _ => ⟨_, rfl⟩) ⟨hw₁.1, hplain⟩
              · refine wp_ret fun _ hrely => ?_
                refine stable_reserving { w₁ with nonces := t' } _ ⟨⟨hw₁.1, hplain⟩, ?_⟩ hrely
                exact fun n hn => granted_of_holds (hholds _ _ rfl) hn

/-- `resolve` keeps what interference and its own `UPDATE` keep. -/
theorem wp_resolve {state : NonceState} (hs : d.submission e = some s) (hP : Stable e P)
    (hupdate : ∀ w n t', P w → w.nonces.resolveUpdate w.now e state = .ok (n, t') →
      P { w with nonces := t' })
    (hw : P w) :
    wp (d.contract K permits e) (d.handle (.resolve e state)) (fun _ => P) w := by
  refine wp_through hs hP (fun _ => hP) (fun _ _ => trivial) (fun w hw => hw)
    (fun _ w hw => hw) (fun w hw => ?_) hw
  have hreturn : ∀ (r : Except LocalError Unit) w, P w →
      wp (d.contract K permits e) (.ret r) (fun _ => P) w :=
    fun r w hw => wp_ret fun _ hrely => hP _ _ hw hrely
  -- after an `UPDATE` without rows the latest state is read
  have hlatest : ∀ (next : (NonceQuery.latest e).Reply → EngineProg (Except LocalError Unit)),
      (∀ r, ∃ r', next r = .ret r') → ∀ w, P w →
      wp (d.contract K permits e) (.call (.nonce (.latest e)) next) (fun _ => P) w := by
    intro next hnext w hw
    refine wp_nonce_call (q := .latest e) hs hP rfl (fun w₁ hw₁ reply t' hreply => ?_) hw
    obtain ⟨r', hr'⟩ := hnext reply
    rw [hr']
    have ht : t' = w₁.nonces := by
      rcases hreply.table with ht | ⟨rows, hrows⟩
      · exact ht
      · cases hrows
        rfl
    rw [ht]
    exact hreturn r' w₁ hw₁
  have hresolve : ∀ (next : (NonceQuery.resolve e state).Reply →
        EngineProg (Except LocalError Unit)),
      (∀ reply w, P w → wp (d.contract K permits e) (next reply) (fun _ => P) w) →
      wp (d.contract K permits e) (.call (.nonce (.resolve e state)) next) (fun _ => P) w := by
    intro next hnext
    refine wp_nonce_call (q := .resolve e state) hs hP rfl (fun w₁ hw₁ reply t' hreply => ?_) hw
    refine hnext reply _ ?_
    rcases hreply.table with rfl | ⟨n, hrows⟩
    · exact hw₁
    · exact hupdate w₁ n t' hw₁ hrows
  cases state with
  | reserved => exact hreturn _ w hw
  | finalized | released | consumed =>
      simp only [handleResolve, perform_bind, interp_call]
      refine hresolve _ fun reply w hw => ?_
      cases reply with
      | error err => exact hreturn _ w hw
      | ok rowsAffected =>
          by_cases hrows : rowsAffected > 0
          · simp only [hrows, if_true]
            exact hreturn _ w hw
          · simp only [hrows, if_false, interp_call, perform_bind]
            refine hlatest _ (fun r => ?_) w hw
            rcases r with err | (_ | state)
            · exact ⟨_, rfl⟩
            · exact ⟨_, rfl⟩
            · cases state <;> exact ⟨_, rfl⟩

/-! ## The engines without a part in the assertions -/

/-- `sign` answers with the nonce it was asked to sign. -/
theorem wp_sign {chainId : ChainId} {fromAddress : Address} {txn : Eip1559Transaction}
    (hs : d.submission e = some s) (hP : Stable e P) (hw : P w) :
    wp (d.contract K permits e) (d.handle (.sign chainId fromAddress e txn))
      (fun r w' => P w' ∧ ∀ signed, r = .ok signed → signed.withNonce = txn.nonce) w := by
  refine wp_through hs hP (fun r w w' hr hrely => ⟨hP _ _ hr.1 hrely, hr.2⟩)
    (fun _ _ => trivial) (fun w hw => ⟨hw, fun _ h => nomatch h⟩)
    (fun _ w hr => ⟨hr.1, fun _ h => nomatch h⟩)
    (fun w hw => ?_) hw
  have hreturns := handleSign_returns d.crypto d.custodyKeys fromAddress chainId e txn
  refine wp_mono (wp_quiet (g := .sign) hs hP (fun q => ⟨id, rfl⟩) (fun _ => rfl)
    (fun _ _ => trivial) hreturns hw) ?_
  exact fun r w' hr => ⟨hr.2, hr.1⟩

theorem wp_revert (hs : d.submission e = some s) (hP : Stable e P) (hw : P w) :
    wp (d.contract K permits e) (d.handle (.revert e)) (fun _ => P) w := by
  refine wp_through hs hP (fun _ => hP) (fun _ _ => trivial) (fun _ hw => hw)
    (fun _ _ hw => hw) (fun w hw => ?_) hw
  refine wp_mono (wp_quiet (g := .sign) hs hP (fun q => ⟨id, rfl⟩) (fun _ => rfl)
    (fun _ _ => trivial) (returns_true _) hw) ?_
  exact fun _ _ hr => hr.2

theorem wp_validate {chainId : ChainId} {txHash : TxHash} {stickyIndex : ℕ}
    (hs : d.submission e = some s) (hP : Stable e P) (hw : P w) :
    wp (d.contract K permits e) (d.handle (.validate chainId e txHash stickyIndex))
      (fun _ => P) w := by
  refine wp_through hs hP (fun _ => hP) (fun _ _ => trivial) (fun _ hw => hw)
    (fun _ _ hw => hw) (fun w hw => ?_) hw
  refine wp_mono (wp_quiet (g := .validator) hs hP (fun q => ⟨id, rfl⟩) (fun _ => rfl)
    (fun _ _ => trivial) (returns_true _) hw) ?_
  exact fun _ _ hr => hr.2

/-- A call that is answered outside. -/
theorem wp_outside {c : PipelineCall} (hs : d.submission e = some s) (hP : Stable e P)
    (hc : (EngineCall.outside c).quiet = true) (hw : P w) :
    wp (d.contract K permits e) (EngineCall.outside c).ask (fun _ => P) w := by
  refine wp_quiet_call hs hP hc (fun w' _ => ?_) (fun _ _ hw' => wp_ret fun _ => hP _ _ hw') hw
  cases c with
  | setStatus => cases hc
  | _ => exact trivial

/-- Setting the status changes the status alone. -/
theorem wp_setStatus {v : View} {status : PipelineStatus} (hs : d.submission e = some s)
    (hP : NonceStable e P) (hw : w.view e = v ∧ P w) :
    wp (d.contract K permits e) (d.handle (.setStatus e status))
      (fun _ w' => w'.view e = { v with status := some status } ∧ P w') w := by
  refine wp_call fun w₁ hrely => ⟨⟨s, hs, rfl⟩, ?_⟩
  rintro r w₂ ⟨choice, _, hperform⟩
  cases hperform
  refine wp_ret fun w₃ hrely' => ?_
  rw [hrely'.view]
  refine ⟨?_, hP _ _ (hP _ _ hw.2 hrely.toNonceRely)
    (⟨hrely'.swept, hrely'.nonces⟩ : NonceRely e w₁ w₃)⟩
  rw [← hw.1, ← hrely.view]
  exact View.ext rfl rfl (Function.update_self e _ _)

/-! ## The broadcast engine -/

/-- No broadcast row of the execution is submitted. -/
def View.NoSubmitted (v : View) : Prop := ∀ r ∈ v.requests, r.state ≠ .submitted

/-- What a broadcast command does to the view: nothing was handed to the network, or the
given transaction was, once. -/
inductive Broadcasts (admits : List Sent → Sent → Prop) (txn : SignedTransaction) (v : View) :
    Except BroadcastError BroadcastOutcome → View → Prop where
  | unsent {r v'} (hsent : v'.sent = v.sent) (hstatus : v'.status = v.status)
      (hnone : v.NoSubmitted → v'.NoSubmitted)
      (hok : ∀ outcome, r = .ok outcome → ¬ v.NoSubmitted)
      (hnonce : ∀ m n, r ≠ .error (.nonceTooLow m n)) : Broadcasts admits txn v r v'
  | sent {r v'} (x : Sent) (hsent : v'.sent = x :: v.sent) (hstatus : v'.status = v.status)
      (htxn : x.txn = txn) (hadmits : admits v.sent x)
      (hnonce : ∀ m n, r = .error (.nonceTooLow m n) → x.mismatch = true ∧ v'.NoSubmitted) :
      Broadcasts admits txn v r v'

/-- A reply that gets lost on the way is an error, and never `NonceTooLow`. -/
theorem Broadcasts.lost {admits : List Sent → Sent → Prop} {txn : SignedTransaction}
    {v v' : View} {r : Except BroadcastError BroadcastOutcome} {message : String}
    (h : Broadcasts admits txn v r v') :
    Broadcasts admits txn v (.error (.internal message)) v' := by
  cases h with
  | unsent hsent hstatus hnone _ _ =>
      exact .unsent hsent hstatus hnone (fun _ h => nomatch h) (fun _ _ h => nomatch h)
  | sent x hsent hstatus htxn hadmits _ =>
      exact .sent x hsent hstatus htxn hadmits fun _ _ h => nomatch h

theorem wp_broadcast_call (hs : d.submission e = some s) (hP : NonceStable e P) {v : View}
    {q : BroadcastQuery} (hq : ∀ w' : World, w'.view e = v → q.isFor e w'.broadcasts)
    {next : (BroadcastCall.query q).Reply → EngineProg α}
    (hnext : ∀ w', w'.view e = v → P w' → ∀ reply t',
      Answers w'.broadcasts (q.execute w'.now w'.broadcasts) reply t' →
      wp (d.contract K permits e) (next reply) Q { w' with broadcasts := t' })
    (hw : w.view e = v ∧ P w) :
    wp (d.contract K permits e) (.call (.broadcast (.query q)) next) Q w := by
  refine wp_call fun w₁ hrely => ?_
  have hview : w₁.view e = v := hrely.view.trans hw.1
  refine ⟨⟨s, hs, hq w₁ hview⟩, ?_⟩
  rintro r w₂ ⟨choice, _, hperform⟩
  cases hperform
  exact hnext w₁ hview (hP _ _ hw.2 hrely.toNonceRely) _ _ (choice.fault.answers _ _)

/-- The `INSERT` finds no submitted row when it adds one. -/
theorem rowsOf_insertRequest {t t' : BroadcastTable} {now : Timestamp} {chainId : ℕ}
    {fromAddress : Address} {reply : Option ℕ}
    (h : (BroadcastQuery.insertRequest chainId fromAddress e).execute now t
      = .ok (reply, t')) :
    reply = none ∧ t' = t
    ∨ ∃ revision, reply = some revision ∧ (∀ r ∈ t.rowsOf e, r.state ≠ .submitted)
        ∧ t'.rowsOf e = t.rowsOf e ++ [.received now chainId fromAddress e revision] := by
  rcases RequestTable.insertUnless_eq_ok.mp h with ⟨_, hreply, ht⟩ | ⟨hfree, hreply, hrows⟩
  · exact Or.inl ⟨hreply, ht⟩
  · refine Or.inr ⟨_, hreply, fun r hr hstate => ?_, ?_⟩
    · obtain ⟨hr, howner⟩ := RequestTable.mem_rowsOf.mp hr
      have hheld := hfree r hr howner
      simp [BroadcastRow.isHeld, hstate] at hheld
    · rw [RequestTable.rowsOf, RequestTable.rowsOf, hrows, List.filter_append]
      simp [BroadcastRow.received]

/-- Rejecting a row submits none. -/
theorem noSubmitted_reject {t t' : BroadcastTable} {now : Timestamp} {revision n : ℕ}
    {reason : String}
    (h : (BroadcastQuery.markRejected e revision reason).execute now t = .ok (n, t'))
    (hnone : ∀ r ∈ t.rowsOf e, r.state ≠ .submitted) :
    ∀ r ∈ t'.rowsOf e, r.state ≠ .submitted := by
  intro r hr
  obtain ⟨hr, howner⟩ := RequestTable.mem_rowsOf.mp hr
  rw [(RequestTable.updateKeys_eq_ok.mp h).2, mem_update] at hr
  obtain ⟨r₀, hr₀, rfl⟩ := hr
  split
  · simp
  · rename_i hkey
    rw [if_neg hkey] at howner
    exact hnone r₀ (RequestTable.mem_rowsOf.mpr ⟨hr₀, howner⟩)

/-- A row that has just been inserted is not submitted. -/
theorem noSubmitted_append {rows : List BroadcastRow} {now : Timestamp} {c : ℕ}
    {fromAddress : Address} {revision : ℕ} (hnone : ∀ r ∈ rows, r.state ≠ .submitted) :
    ∀ r ∈ rows ++ [.received now c fromAddress e revision], r.state ≠ .submitted := by
  intro r hr
  rcases List.mem_append.mp hr with hr | hr
  · exact hnone r hr
  · rw [List.mem_singleton.mp hr]
    rintro ⟨⟩

/-- The conditions of the run admit what is handed to the network for the execution. -/
def Admits (K : RunConditions) (e : ExecutionId) (admits : List Sent → Sent → Prop) : Prop :=
  ∀ {w choice chainId stickyIndex txn revision reply},
    K.call e choice (.broadcast (.sendRawTransaction chainId stickyIndex txn e revision)) w →
    choice.answer (.broadcast (.sendRawTransaction chainId stickyIndex txn e revision))
      = some reply →
    admits (w.sentOf e)
      { executionId := e
        revision := revision
        txn := txn
        accepted := choice.accepted
        reply := reply }

section

variable {admits : List Sent → Sent → Prop} {txn : SignedTransaction} {v : View}

/-- A statement that only records how the request ended. -/
theorem wp_mark (q : BroadcastQuery) (result : Except BroadcastError BroadcastOutcome)
    (hs : d.submission e = some s) (hP : NonceStable e P)
    {x : Sent} (hx : x.txn = txn) (hadmits : admits v.sent x) {v₁ : View}
    (hsent : v₁.sent = x :: v.sent) (hstatus : v₁.status = v.status)
    (hq : ∀ w' : World, w'.view e = v₁ → q.isFor e w'.broadcasts)
    {next : (BroadcastCall.query q).Reply →
      EngineProg (Except BroadcastError BroadcastOutcome)}
    (hresult : ∀ m n, result = .error (.nonceTooLow m n) → x.mismatch = true
      ∧ ∀ t t' : BroadcastTable, ∀ now rows, t.rowsOf e = v₁.requests →
        q.execute now t = .ok (rows, t') → ∀ r ∈ t'.rowsOf e, r.state ≠ .submitted)
    (hok : ∀ rows, next (.ok rows) = .ret result)
    (herror : ∀ err, next (.error err) = .ret (.error (.ofSqlx err)))
    (hw : w.view e = v₁ ∧ P w) :
    wp (d.contract K permits e) (.call (.broadcast (.query q)) next)
      (fun r w' => Broadcasts admits txn v r (w'.view e) ∧ P w') w := by
  refine wp_broadcast_call hs hP hq (fun w₁ hview hP₁ reply t' hreply => ?_) hw
  have hreturn : ∀ r : Except BroadcastError BroadcastOutcome,
      (∀ m n, r = .error (.nonceTooLow m n) → x.mismatch = true
        ∧ ∀ b ∈ t'.rowsOf e, b.state ≠ .submitted) →
      wp (d.contract K permits e) (.ret r)
        (fun r w' => Broadcasts admits txn v r (w'.view e) ∧ P w')
        { w₁ with broadcasts := t' } := by
    intro r hr
    refine wp_ret fun w' hrely => stable_view hP { w₁ with broadcasts := t' } w'
      ⟨?_, hP _ _ hP₁ (.of_eq rfl rfl)⟩ hrely
    have hs₁ : w₁.sentOf e = x :: v.sent := (congrArg View.sent hview).trans hsent
    have hst₁ : w₁.statuses e = v.status := (congrArg View.status hview).trans hstatus
    exact .sent x hs₁ hst₁ hx hadmits hr
  cases hreply with
  | failed err =>
      rw [herror]
      exact hreturn _ fun _ _ h => nomatch h
  | unacknowledged h err =>
      rw [herror]
      exact hreturn _ fun _ _ h => nomatch h
  | done h =>
      rw [hok]
      refine hreturn _ fun m n hmn => ?_
      obtain ⟨hmismatch, hnone⟩ := hresult m n hmn
      exact ⟨hmismatch, hnone _ _ _ _ (congrArg View.requests hview) h⟩

end

/-- What remains to be done once the request has been answered. -/
theorem wp_recordReply {admits : List Sent → Sent → Prop} {txn : SignedTransaction}
    {v u : View} {x : Sent} {chainId : ChainId} {fromAddress : Address}
    {stickyIndex revision : ℕ} (hs : d.submission e = some s) (hP : NonceStable e P)
    (hx : x.txn = txn) (hadmits : admits v.sent x) (hsent : u.sent = x :: v.sent)
    (hstatus : u.status = v.status) (hnone : u.NoSubmitted)
    (hrow : ∃ b ∈ u.requests, key b = (e, revision) ∧ b.state ≠ .rejected)
    (hw : w.view e = u ∧ P w) :
    wp (d.contract K permits e)
      ((recordReply chainId fromAddress e txn stickyIndex revision x.reply).interp
        fun c => (EngineCall.broadcast c).ask)
      (fun r w' => Broadcasts admits txn v r (w'.view e) ∧ P w') w := by
  -- a rejection leaves no submitted row
  have hrejected : ∀ reason : String, ∀ t t' : BroadcastTable, ∀ now rows,
      t.rowsOf e = u.requests →
      (BroadcastQuery.markRejected e revision reason).execute now t = .ok (rows, t') →
      ∀ r ∈ t'.rowsOf e, r.state ≠ .submitted := by
    intro reason t t' now rows ht h
    exact noSubmitted_reject h (by rw [ht]; exact hnone)
  cases hreply : x.reply with
  | ok txnHash =>
      simp only [recordReply, perform_bind, interp_call]
      refine wp_mark (.markSubmitted e revision txnHash) (.ok ⟨txnHash⟩) hs hP hx hadmits hsent
        hstatus (fun w' hview => ⟨rfl, ?_⟩) (fun _ _ h => nomatch h) (fun _ => rfl)
        (fun _ => rfl) hw
      -- the row that was inserted is the only one under its key
      obtain ⟨b, hb, hkey, hstate⟩ := hrow
      rw [← hview] at hb
      have hb := (RequestTable.mem_rowsOf.mp hb).1
      intro r hr hrkey
      rw [w'.broadcasts.eq_of_key_eq hr hb (hrkey.trans hkey.symm)]
      exact hstate
  | error err =>
      by_cases hmismatch : isNonceMismatch (rpcErrorText err) = true
      · simp only [recordReply, hmismatch, if_true, perform_bind, interp_call]
        have hP' : Stable e fun w => w.view e = u ∧ P w :=
          stable_view (V := fun view => view = u) hP
        refine wp_quiet_call
          (c := .broadcast (.getTransactionCount chainId stickyIndex fromAddress))
          hs hP' rfl (fun _ _ => trivial) (fun count w₁ hw₁ => ?_) hw
        cases count with
        | error err' =>
            refine wp_ret fun w₂ hrely => ?_
            obtain ⟨hview, hP₂⟩ := hP' _ _ hw₁ hrely
            rw [hview]
            exact ⟨.sent x hsent hstatus hx hadmits (fun _ _ h => nomatch h), hP₂⟩
        | ok nonceOnChain =>
            refine wp_mark (.markRejected e revision (rpcErrorText err))
              (.error (.nonceTooLow nonceOnChain txn.withNonce)) hs hP hx hadmits hsent hstatus
              (fun _ _ => rfl) (fun m n _ => ⟨?_, hrejected _⟩) (fun _ => rfl) (fun _ => rfl) hw₁
            rw [Sent.mismatch, hreply]
            exact hmismatch
      · rw [Bool.not_eq_true] at hmismatch
        simp only [recordReply, hmismatch, Bool.false_eq_true, if_false, perform_bind,
          interp_call]
        exact wp_mark (.markRejected e revision (rpcErrorText err))
          (.error (.rejected (rpcErrorText err))) hs hP hx hadmits hsent hstatus
          (fun _ _ => rfl) (fun _ _ h => nomatch h) (fun _ => rfl) (fun _ => rfl) hw

/-- The part of the handler after the `INSERT`. -/
theorem wp_sendRequest {admits : List Sent → Sent → Prop} {txn : SignedTransaction}
    {v u : View} {chainId : ChainId} {fromAddress : Address} {stickyIndex revision : ℕ}
    (hs : d.submission e = some s) (hP : NonceStable e P) (hadmits : Admits K e admits)
    (hgranted : ∀ w, P w → w.Plain e s ∧ w.Granted e txn.withNonce.value.toNat)
    (hpermits : permits v.sent txn) (hsent : u.sent = v.sent)
    (hstatus : u.status = v.status) (hnone : u.NoSubmitted)
    (hrow : ∃ b ∈ u.requests, key b = (e, revision) ∧ b.state ≠ .rejected)
    (hw : w.view e = u ∧ P w) :
    wp (d.contract K permits e)
      ((sendRequest chainId fromAddress e txn stickyIndex revision).interp
        fun c => (EngineCall.broadcast c).ask)
      (fun r w' => Broadcasts admits txn v r (w'.view e) ∧ P w') w := by
  simp only [sendRequest, perform_bind, interp_call]
  refine wp_call fun w₁ hrely => ?_
  have hview : w₁.view e = u := hrely.view.trans hw.1
  have hP₁ : P w₁ := hP _ _ hw.2 hrely.toNonceRely
  have hsentOf : w₁.sentOf e = v.sent := (congrArg View.sent hview).trans hsent
  obtain ⟨hplain, hholds⟩ := hgranted w₁ hP₁
  refine ⟨⟨s, hs, rfl, hplain, hholds, by rwa [hsentOf]⟩, ?_⟩
  rintro reply w₂ ⟨choice, hK, hperform⟩
  obtain ⟨reply', hanswer, heq⟩ := Option.map_eq_some_iff.mp hperform
  cases heq
  have hadmitted := hadmits hK hanswer
  rw [hsentOf] at hadmitted
  refine wp_recordReply (u := { u with sent := _ :: v.sent }) hs hP rfl hadmitted rfl hstatus
    hnone hrow ⟨?_, hP _ _ hP₁ (.of_eq rfl rfl)⟩
  rw [World.view_send w₁ rfl, hsentOf, hview]

/-- An error before anything was sent. -/
theorem Broadcasts.unsent_error {admits : List Sent → Sent → Prop} {txn : SignedTransaction}
    {v v' : View} {err : BroadcastError} (hsent : v'.sent = v.sent)
    (hstatus : v'.status = v.status) (hnone : v.NoSubmitted → v'.NoSubmitted)
    (herr : ∀ m n, err ≠ .nonceTooLow m n) : Broadcasts admits txn v (.error err) v' :=
  .unsent hsent hstatus hnone (fun _ h => nomatch h) fun m n h => herr m n (by cases h; rfl)

/-- The reply for an execution whose request is already there. -/
theorem broadcasts_earlier {admits : List Sent → Sent → Prop} {txn : SignedTransaction}
    {v v' : View} {t t' : BroadcastTable} {now : Timestamp}
    {row : BroadcastState × Option TxHash × Option String}
    (h : (BroadcastQuery.latestRequest e).execute now t = .ok (row, t'))
    (ht : t.rowsOf e = v.requests) (hv : v' = v) :
    Broadcasts admits txn v (earlierOutcome row) v' ∧ t' = t := by
  subst hv
  rw [BroadcastQuery.execute] at h
  split at h
  · rename_i r hnewest
    cases h
    refine ⟨.unsent rfl rfl id (fun outcome hok hnone => ?_) fun m n hmn => ?_, rfl⟩
    · -- the reply is `Ok` for a submitted row only
      obtain ⟨hr, howner, _⟩ := latest_eq_some hnewest
      have hmem := RequestTable.mem_rowsOf.mpr ⟨hr, howner⟩
      rw [ht] at hmem
      cases hstate : r.state with
      | submitted => exact hnone r hmem hstate
      | received => simp [hstate, earlierOutcome] at hok
      | rejected => simp [hstate, earlierOutcome] at hok
    · cases hstate : r.state <;> cases hhash : r.txHash <;>
        simp [hstate, hhash, earlierOutcome] at hmn
  · cases h

/-- An execution whose request is already there gets the reply of that request. -/
theorem wp_earlier {admits : List Sent → Sent → Prop} {txn : SignedTransaction} {v : View}
    (hs : d.submission e = some s) (hP : NonceStable e P)
    {next : (BroadcastCall.query (.latestRequest e)).Reply →
      EngineProg (Except BroadcastError BroadcastOutcome)}
    (hok : ∀ row, next (.ok row) = .ret (earlierOutcome row))
    (herror : ∀ err, next (.error err) = .ret (.error (.ofSqlx err)))
    (hw : w.view e = v ∧ P w) :
    wp (d.contract K permits e) (.call (.broadcast (.query (.latestRequest e))) next)
      (fun r w' => Broadcasts admits txn v r (w'.view e) ∧ P w') w := by
  have hQ : ∀ r, Stable e fun w' => Broadcasts admits txn v r (w'.view e) ∧ P w' :=
    fun _ => stable_view hP
  have hfailed : ∀ err w', w'.view e = v ∧ P w' →
      wp (d.contract K permits e) (.ret (.error (.ofSqlx err)))
        (fun r w' => Broadcasts admits txn v r (w'.view e) ∧ P w') w' := by
    rintro err w₁ ⟨hview, hP₁⟩
    refine wp_ret fun w' hrely => hQ _ w₁ w' ⟨?_, hP₁⟩ hrely
    rw [hview]
    exact .unsent_error rfl rfl id fun _ _ h => nomatch h
  refine wp_broadcast_call hs hP (q := .latestRequest e) (fun _ _ => rfl) ?_ hw
  intro w₁ hview hP₁ reply t' hreply
  have hrequests : w₁.broadcasts.rowsOf e = v.requests := congrArg View.requests hview
  cases hreply with
  | failed err =>
      rw [herror]
      exact hfailed err w₁ ⟨hview, hP₁⟩
  | unacknowledged h err =>
      -- a `SELECT` leaves the table alone, also when its answer is lost
      obtain ⟨_, rfl⟩ := @broadcasts_earlier _ admits txn _ _ _ _ _ _ h hrequests hview
      rw [herror]
      exact hfailed err w₁ ⟨hview, hP₁⟩
  | done h =>
      obtain ⟨hearlier, rfl⟩ := broadcasts_earlier h hrequests hview
      rw [hok]
      exact wp_ret fun w' hrely => hQ _ w₁ w' ⟨hearlier, hP₁⟩ hrely

/-- **What a broadcast command does.** -/
theorem wp_broadcast {admits : List Sent → Sent → Prop} {txn : SignedTransaction} {v : View}
    {chainId : ChainId} {fromAddress : Address} {stickyIndex : ℕ}
    (hs : d.submission e = some s) (hP : NonceStable e P) (hadmits : Admits K e admits)
    (hgranted : ∀ w, P w → w.Plain e s ∧ w.Granted e txn.withNonce.value.toNat)
    (hpermits : permits v.sent txn) (hw : w.view e = v ∧ P w) :
    wp (d.contract K permits e)
      (d.handle (.broadcast chainId fromAddress e txn stickyIndex))
      (fun r w' => Broadcasts admits txn v r (w'.view e) ∧ P w') w := by
  have hP' : Stable e fun w => w.view e = v ∧ P w := stable_view (V := fun u => u = v) hP
  have hQ : ∀ r, Stable e fun w' => Broadcasts admits txn v r (w'.view e) ∧ P w' :=
    fun _ => stable_view hP
  have herror : ∀ err : BroadcastError, (∀ m n, err ≠ .nonceTooLow m n) →
      ∀ w, w.view e = v ∧ P w → Broadcasts admits txn v (.error err) (w.view e) ∧ P w := by
    intro err herr w hw
    rw [hw.1]
    exact ⟨.unsent_error rfl rfl id herr, hw.2⟩
  refine wp_through hs hP' hQ (fun w hw => hgranted w hw.2)
    (herror (.internal _) fun _ _ h => nomatch h)
    (fun r w hr => ⟨hr.1.lost, hr.2⟩) (fun w hw => ?_) hw
  unfold handleBroadcast
  cases hchain : chainId.id.toI64 with
  | none =>
      refine wp_ret fun w' hrely => hQ _ w w' (herror _ ?_ w hw) hrely
      exact fun _ _ h => nomatch h
  | some c =>
      simp only [perform_bind, interp_call]
      refine wp_broadcast_call hs hP (q := .insertRequest c fromAddress e) (fun _ _ => rfl) ?_ hw
      intro w₁ hview hP₁ reply t' hreply
      have hP₂ : P { w₁ with broadcasts := t' } := hP _ _ hP₁ (.of_eq rfl rfl)
      have hsent : w₁.sentOf e = v.sent := congrArg View.sent hview
      have hstatus : w₁.statuses e = v.status := congrArg View.status hview
      have hrequests : w₁.broadcasts.rowsOf e = v.requests := congrArg View.requests hview
      have hfailed : ∀ err : SqlxError, (v.NoSubmitted → ∀ r ∈ t'.rowsOf e, r.state ≠ .submitted) →
          wp (d.contract K permits e) (.ret (.error (.ofSqlx err)))
            (fun r w' => Broadcasts admits txn v r (w'.view e) ∧ P w')
            { w₁ with broadcasts := t' } := by
        intro err hnone
        refine wp_ret fun w' hrely => hQ _ { w₁ with broadcasts := t' } w' ⟨?_, hP₂⟩ hrely
        exact .unsent_error hsent hstatus hnone fun _ _ h => nomatch h
      cases hreply with
      | failed err => exact hfailed err fun hnone => by rw [hrequests]; exact hnone
      | unacknowledged h err =>
          refine hfailed err fun hnone => ?_
          rcases rowsOf_insertRequest h with ⟨_, rfl⟩ | ⟨revision, _, _, hrows⟩
          · rw [hrequests]
            exact hnone
          · rw [hrows, hrequests]
            exact noSubmitted_append hnone
      | done h =>
          rcases rowsOf_insertRequest h with ⟨rfl, rfl⟩ | ⟨revision, rfl, hnone, hrows⟩
          -- the execution has a live request, which answers
          · simp only [perform_bind, interp_call]
            exact wp_earlier hs hP (fun _ => rfl) (fun _ => rfl) ⟨hview, hP₁⟩
          -- a new row, for which the transaction is sent
          · refine wp_sendRequest (u := { v with requests := t'.rowsOf e }) hs hP hadmits
              hgranted hpermits rfl rfl ?_ ?_ ⟨View.ext hsent rfl hstatus, hP₂⟩
            · show ∀ r ∈ t'.rowsOf e, r.state ≠ .submitted
              rw [hrows]
              exact noSubmitted_append hnone
            · refine ⟨.received w₁.now c fromAddress e revision, ?_, rfl, fun h => nomatch h⟩
              rw [hrows]
              exact List.mem_append_right _ (List.mem_singleton_self _)

end

end Lobby
