/-
# The ledger of signatures

Histories of `handle_sign` and `handle_revert` calls for any executions, with any
transactions and clock values, and any database fault at any statement.  A call leaves the
table as it is, adds one row to an execution without an active one, or fails the signed row
of an execution; everything else follows from that.  At most one row of an execution is
reserved or signed and it is the newest, every successful signature stands for a row of its
own, and between two of them the first was reverted (`sign_ledger_integrity`).  A call that
is repeated because its reply was lost changes nothing, but never succeeds
(`repeated_sign_fails`).
-/
import Lobby.SignEngine
import Lobby.System

namespace Lobby

open Revisions Interaction Prog

/-- A call of the sign engine, with its reply. -/
inductive SignEvent : Type where
  | sign (fromAddress : Address) (chainId : ChainId) (executionId : ExecutionId)
      (txn : Eip1559Transaction) (reply : Except LocalError SignedTransaction)
  | revert (executionId : ExecutionId) (reply : Except LocalError Unit)

/-- A call, with the tables before and after it. -/
structure SignRecord where
  event : SignEvent
  before : SignTable
  after : SignTable

namespace SignRecord

/-- A successful signature, and the row that was set to `'signed'` for it. -/
structure Succeeds (e : ExecutionId) (signed : SignedTransaction) (row : SignRow)
    (x : SignRecord) : Prop where
  reply : ∃ fromAddress chainId txn, x.event = .sign fromAddress chainId e txn (.ok signed)
  rows : x.after.rows = x.before.rows ++ [row]
  executionId : row.executionId = e
  state : row.state = .signed
  signedTx : row.signedTx = some signed.rlp

/-- A revert has turned the row under a key from signed into failed. -/
structure Reverts (k : ExecutionId × ℕ) (x : SignRecord) : Prop where
  reply : ∃ reply, x.event = .revert k.1 reply
  signed : ∃ r ∈ x.before.rows, key r = k ∧ r.state = .signed
  failed : ∃ r ∈ x.after.rows, key r = k ∧ r.state = .failed

/-- A `handle_sign` has committed a signed row, whatever it replied. -/
structure CommitsSignature (e : ExecutionId) (x : SignRecord) : Prop where
  event : ∃ fromAddress chainId txn reply, x.event = .sign fromAddress chainId e txn reply
  signed : ∃ r ∈ x.after.rows, r ∉ x.before.rows ∧ r.executionId = e ∧ r.state = .signed

/-- A `handle_revert` has changed the table, whatever it replied. -/
structure CommitsRevert (e : ExecutionId) (x : SignRecord) : Prop where
  event : ∃ reply, x.event = .revert e reply
  changed : x.after ≠ x.before

end SignRecord

namespace SignLedger

/-- A statement at some time, with any fault. -/
def Step (q : SignQuery) (t : SignTable) (reply : q.Reply) (t' : SignTable) : Prop :=
  ∃ now, Answers t (q.execute now t) reply t'

section

variable (crypto : Crypto) (custodyKeys : JsonPolicyEngine)

/-- What a call may answer and do. -/
inductive Happens : SignEvent → SignTable → SignTable → Prop where
  | sign {fromAddress chainId e txn reply t t'}
      (h : (handleSign crypto custodyKeys fromAddress chainId e txn).Runs Step t reply t') :
      Happens (.sign fromAddress chainId e txn reply) t t'
  | revert {e reply t t'} (h : (handleRevert e).Runs Step t reply t') :
      Happens (.revert e reply) t t'

/-- Any sequence of calls, the latest first. -/
inductive History (t : SignTable) : List SignRecord → SignTable → Prop where
  | nil : History t [] t
  | call {log event t' t''} (h : History t log t')
      (hcall : Happens crypto custodyKeys event t' t'') :
      History t (⟨event, t', t''⟩ :: log) t''

end

/-- The row under a key is signed. -/
def SignedAs (k : ExecutionId × ℕ) (t : SignTable) : Prop :=
  ∃ r ∈ t.rows, key r = k ∧ r.state = .signed

/-! ## One call -/

/-- The table has one row more, under the next revision of an execution. -/
structure Adds (e : ExecutionId) (t : SignTable) (row : SignRow) (t' : SignTable) : Prop where
  rows : t'.rows = t.rows ++ [row]
  executionId : row.executionId = e
  revision : row.revision = nextRevision t.rows e
  free : ∀ r ∈ t.rows, r.executionId = e → RequestRow.isActive r = false

/-- The signed row of an execution has become failed. -/
structure Fails (e : ExecutionId) (t : SignTable) (row : SignRow) (t' : SignTable) : Prop where
  mem : row ∈ t.rows
  executionId : row.executionId = e
  signed : row.state = .signed
  rows : ∃ now, t'.rows = update [key row] (SignRow.setState now .failed) t.rows

section

variable {crypto : Crypto} {custodyKeys : JsonPolicyEngine} {fromAddress : Address}
  {chainId : ChainId} {e e' : ExecutionId} {txn : Eip1559Transaction} {t t' t'' : SignTable}
  {row : SignRow}

/-- The `INSERT` adds a reserved row beside failed ones, unless a row holds the execution. -/
theorem adds_of_insert {now : Timestamp} {c : ℕ} {reply : Option ℕ}
    (h : (SignQuery.insertRequest c fromAddress e).execute now t = .ok (reply, t')) :
    reply = none ∧ t' = t ∧ (∃ r ∈ t.rows, r.executionId = e ∧ SignRow.isHeld now r = true)
    ∨ ∃ row, reply = some row.revision ∧ row.state = .reserved ∧ Adds e t row t' := by
  rw [SignQuery.execute] at h
  rcases RequestTable.insertUnless_eq_ok.mp h with ⟨hheld, hreply, ht⟩ | ⟨_, hreply, hrows⟩
  · exact Or.inl ⟨hreply, ht, hheld⟩
  · exact Or.inr ⟨_, hreply, rfl, hrows, rfl, rfl,
      RequestTable.inactive_of_append hrows rfl rfl⟩

/-- An `UPDATE` of the new row touches no other. -/
theorem Adds.update {p : SignRow → Bool} {f : SignRow → SignRow} {n : ℕ}
    (h : Adds e t row t') (hf : ∀ r, key (f r) = key r)
    (hupdate : t'.updateWhere e row.revision p f = .ok (n, t'')) :
    ∃ row', Adds e t row' t'' ∧ (n = 1 → row' = f row) := by
  obtain ⟨hn, hrows⟩ :=
    RequestTable.updateWhere_append h.rows h.executionId h.revision hupdate
  have hkey : key row = (e, nextRevision t.rows e) := Prod.ext h.executionId h.revision
  by_cases hp : p row = true
  · rw [if_pos hp] at hrows
    have hkey' := (hf row).trans hkey
    exact ⟨f row, ⟨hrows, congrArg Prod.fst hkey', congrArg Prod.snd hkey', h.free⟩,
      fun _ => rfl⟩
  · rw [if_neg hp] at hn hrows
    exact ⟨row, ⟨hrows, h.executionId, h.revision, h.free⟩, fun h => by omega⟩

/-- What is recorded in the row that was added, before the reply. -/
theorem record_cases (q : SignQuery) (count : q.Rows → ℕ)
    (f : Timestamp → SignRow → SignRow) {outcome reply : Except LocalError SignedTransaction}
    {next : q.Reply → Prog SignQuery SignQuery.Reply (Except LocalError SignedTransaction)}
    (hadds : Adds e t row t') (hf : ∀ now r, key (f now r) = key r)
    (hq : ∀ now rows t'', q.execute now t' = .ok (rows, t'') →
      t'.updateWhere e row.revision (SignRow.isPending now) (f now) = .ok (count rows, t''))
    (hnextErr : ∀ err, next (.error err) = .ret (.error (.ofSqlx err)))
    (hnextOk : ∀ rows, next (.ok rows) = if count rows ≠ 1
      then .ret (.error (.invariant "Invalid sign_requests state transition"))
      else .ret outcome)
    (h : (call q next : Prog _ _ _).Runs Step t' reply t'') :
    ∃ row', Adds e t row' t'' ∧ ∀ signed, reply = .ok signed →
      outcome = .ok signed ∧ ∃ now, row' = f now row := by
  obtain ⟨rows, t₁, ⟨now, hanswers⟩, h⟩ := runs_call_iff.mp h
  cases hanswers with
  | failed err =>
      rw [hnextErr] at h
      obtain ⟨rfl, rfl⟩ := runs_ret_iff.mp h
      exact ⟨row, hadds, fun _ h => nomatch h⟩
  | unacknowledged hdone err =>
      rw [hnextErr] at h
      obtain ⟨rfl, rfl⟩ := runs_ret_iff.mp h
      obtain ⟨row', hadds', _⟩ := hadds.update (hf now) (hq now _ _ hdone)
      exact ⟨row', hadds', fun _ h => nomatch h⟩
  | @done rows _ hdone =>
      obtain ⟨row', hadds', hrow'⟩ := hadds.update (hf now) (hq now _ _ hdone)
      rw [hnextOk] at h
      -- the reply is a success only if the row was found
      by_cases hone : count rows = 1
      · rw [if_neg (not_not.mpr hone)] at h
        obtain ⟨rfl, rfl⟩ := runs_ret_iff.mp h
        exact ⟨row', hadds', fun signed hsigned => ⟨hsigned, now, hrow' hone⟩⟩
      · rw [if_pos hone] at h
        obtain ⟨rfl, rfl⟩ := runs_ret_iff.mp h
        exact ⟨row', hadds', fun _ h => nomatch h⟩

/-- **What `handle_sign` does.** -/
theorem sign_cases {reply : Except LocalError SignedTransaction}
    (hrun : (handleSign crypto custodyKeys fromAddress chainId e txn).Runs Step t reply t') :
    (t' = t ∧ ∀ signed, reply ≠ .ok signed)
    ∨ ∃ row, Adds e t row t' ∧ ∀ signed, reply = .ok signed →
        row.state = .signed ∧ row.signedTx = some signed.rlp := by
  unfold handleSign at hrun
  cases hkey : custodyKeys.resolveKey crypto fromAddress with
  | error err =>
      rw [hkey] at hrun
      obtain ⟨rfl, rfl⟩ := runs_ret_iff.mp hrun
      exact Or.inl ⟨rfl, fun _ h => nomatch h⟩
  | ok pvtKey =>
      rw [hkey] at hrun
      cases hchain : chainId.id.toI64 with
      | none =>
          rw [hchain] at hrun
          obtain ⟨rfl, rfl⟩ := runs_ret_iff.mp hrun
          exact Or.inl ⟨rfl, fun _ h => nomatch h⟩
      | some chainIdI64 =>
          rw [hchain] at hrun
          obtain ⟨inserted, t₁, ⟨now, hanswers⟩, h⟩ := runs_call_iff.mp hrun
          cases hanswers with
          | failed err =>
              obtain ⟨rfl, rfl⟩ := runs_ret_iff.mp h
              exact Or.inl ⟨rfl, fun _ h => nomatch h⟩
          | unacknowledged hdone err =>
              obtain ⟨rfl, rfl⟩ := runs_ret_iff.mp h
              rcases adds_of_insert hdone with ⟨_, rfl, _⟩ | ⟨row, _, _, hadds⟩
              · exact Or.inl ⟨rfl, fun _ h => nomatch h⟩
              · exact Or.inr ⟨row, hadds, fun _ h => nomatch h⟩
          | done hdone =>
              rcases adds_of_insert hdone with ⟨rfl, rfl, _⟩ | ⟨row, rfl, _, hadds⟩
              · obtain ⟨rfl, rfl⟩ := runs_ret_iff.mp h
                exact Or.inl ⟨rfl, fun _ h => nomatch h⟩
              · refine Or.inr ?_
                cases hsign : signEip1559Transaction crypto txn pvtKey with
                | none =>
                    rw [hsign] at h
                    obtain ⟨rfl, rfl⟩ := runs_ret_iff.mp h
                    exact ⟨row, hadds, fun _ h => nomatch h⟩
                | some result =>
                    rw [hsign] at h
                    cases result with
                    | ok signedTx =>
                        obtain ⟨row', hadds', hsigned⟩ := record_cases
                          (.markSigned e row.revision signedTx.rlp) id
                          (fun now r =>
                            { r.setState now .signed with signedTx := some signedTx.rlp })
                          hadds (fun _ _ => rfl) (fun _ _ _ h => h) (fun _ => rfl)
                          (fun _ => rfl) h
                        refine ⟨row', hadds', fun signed hok => ?_⟩
                        obtain ⟨hreply, now', rfl⟩ := hsigned signed hok
                        exact ⟨rfl, by rw [← Except.ok.inj hreply]⟩
                    | error err =>
                        obtain ⟨row', hadds', hsigned⟩ := record_cases
                          (.markFailed e row.revision) id (fun now => SignRow.setState now .failed)
                          hadds (fun _ _ => rfl) (fun _ _ _ h => h) (fun _ => rfl)
                          (fun _ => rfl) h
                        exact ⟨row', hadds', fun signed hok => nomatch (hsigned signed hok).1⟩

/-- What the `UPDATE` of a revert does. -/
theorem fails_of_revert {now : Timestamp} {n : ℕ}
    (h : (SignQuery.revertSigned e).execute now t = .ok (n, t')) :
    n = 0 ∧ t' = t ∨ n = 1 ∧ ∃ row, Fails e t row t' := by
  have h : t.updateLatest e (fun r => decide (r.state = .signed)) (SignRow.setState now .failed)
      = .ok (n, t') := h
  obtain ⟨hn, hrows⟩ := RequestTable.updateKeys_eq_ok.mp h
  cases hlatest : latest t.rows e fun r => decide (r.state = .signed) with
  | none =>
      rw [hlatest] at hn hrows
      exact Or.inl ⟨hn, RequestTable.ext (hrows.trans update_nil)⟩
  | some row =>
      rw [hlatest] at hn hrows
      obtain ⟨hmem, howner, hsigned⟩ := latest_eq_some hlatest
      exact Or.inr ⟨hn, row, hmem, howner, of_decide_eq_true hsigned, now, hrows⟩

/-- **What `handle_revert` does.** -/
theorem revert_cases {reply : Except LocalError Unit}
    (hrun : (handleRevert e).Runs Step t reply t') :
    (t' = t ∧ reply ≠ .ok ()) ∨ ∃ row, Fails e t row t' := by
  obtain ⟨rows, t₁, ⟨now, hanswers⟩, h⟩ := runs_call_iff.mp hrun
  cases hanswers with
  | failed err =>
      obtain ⟨rfl, rfl⟩ := runs_ret_iff.mp h
      exact Or.inl ⟨rfl, fun h => nomatch h⟩
  | unacknowledged hdone err =>
      obtain ⟨rfl, rfl⟩ := runs_ret_iff.mp h
      rcases fails_of_revert hdone with ⟨_, rfl⟩ | ⟨_, hfails⟩
      · exact Or.inl ⟨rfl, fun h => nomatch h⟩
      · exact Or.inr hfails
  | @done rows _ hdone =>
      rcases fails_of_revert hdone with ⟨rfl, rfl⟩ | ⟨rfl, hfails⟩
      · -- the row that is there only decides the message
        obtain ⟨found, t₂, ⟨now', hanswers'⟩, h⟩ := runs_call_iff.mp h
        have ht : t₂ = t₁ := by
          rcases hanswers'.table with ht | ⟨_, hlatest⟩
          · exact ht
          · cases hlatest
            rfl
        subst ht
        cases found with
        | error err =>
            obtain ⟨rfl, rfl⟩ := runs_ret_iff.mp h
            exact Or.inl ⟨rfl, fun h => nomatch h⟩
        | ok state =>
            rcases state with _ | (_ | _ | _) <;> obtain ⟨rfl, rfl⟩ := runs_ret_iff.mp h <;>
              exact Or.inl ⟨rfl, fun h => nomatch h⟩
      · obtain ⟨rfl, rfl⟩ := runs_ret_iff.mp h
        exact Or.inr hfails

/-! ## What a call keeps -/

theorem Adds.mem (h : Adds e t row t') : row ∈ t'.rows := by
  rw [h.rows]
  simp

theorem Adds.keeps {r : SignRow} (h : Adds e t row t') (hr : r ∈ t.rows) : r ∈ t'.rows := by
  rw [h.rows]
  exact List.mem_append_left _ hr

/-- The new row is under a key of its own. -/
theorem Adds.fresh {r : SignRow} (h : Adds e t row t') (hr : r ∈ t.rows) : key r ≠ key row := by
  have howner : owner row = e := h.executionId
  exact key_ne_of_nextRevision hr (howner ▸ h.revision)

theorem Adds.activeNewest (h : Adds e t row t') (ht : t.ActiveNewest) : t'.ActiveNewest := by
  have howner : owner row = e := h.executionId
  refine ht.append h.rows (howner ▸ h.revision) fun s hs hsame hact => ?_
  rw [h.free s hs (hsame.trans howner)] at hact
  cases hact

/-- Rows with another key are not touched. -/
theorem Fails.keeps {r : SignRow} (h : Fails e t row t') (hr : r ∈ t.rows)
    (hkey : key r ≠ key row) : r ∈ t'.rows := by
  obtain ⟨now, hrows⟩ := h.rows
  rw [hrows]
  exact mem_update.mpr ⟨r, hr, (if_neg (by simpa using hkey)).symm⟩

/-- The row stays, as a failed one. -/
theorem Fails.failed (h : Fails e t row t') :
    ∃ r ∈ t'.rows, key r = key row ∧ r.state = .failed ∧ r.signedTx = row.signedTx := by
  obtain ⟨now, hrows⟩ := h.rows
  refine ⟨row.setState now .failed, ?_, rfl, rfl, rfl⟩
  rw [hrows]
  exact mem_update.mpr ⟨row, h.mem, by simp⟩

theorem Fails.activeNewest (h : Fails e t row t') (ht : t.ActiveNewest) : t'.ActiveNewest := by
  obtain ⟨now, hrows⟩ := h.rows
  exact ht.update (f := SignRow.setState now .failed) (fun _ => rfl)
    (fun _ _ _ hact => Bool.noConfusion hact) hrows

/-- A revert leaves no active row of its execution: the signed row was the only one. -/
theorem Fails.inactive (h : Fails e t row t') :
    ∀ r ∈ t'.rows, r.executionId = e → RequestRow.isActive r = false := by
  intro r hr howner
  obtain ⟨now, hrows⟩ := h.rows
  rw [hrows] at hr
  obtain ⟨r₀, hr₀, rfl⟩ := mem_update.mp hr
  by_cases hkey : key r₀ ∈ [key row]
  · rw [if_pos hkey]
    rfl
  · rw [if_neg hkey] at howner ⊢
    rw [← Bool.not_eq_true]
    intro hact
    refine hkey (List.mem_singleton.mpr (congrArg key ?_))
    refine t.eq_of_owner_eq hr₀ h.mem hact ?_ (howner.trans h.executionId.symm)
    simp [RequestRow.isActive, h.signed]

/-- A revert makes no row active. -/
theorem Fails.mem_of_active {r : SignRow} (h : Fails e t row t') (hr : r ∈ t'.rows)
    (hact : RequestRow.isActive r = true) : r ∈ t.rows := by
  obtain ⟨now, hrows⟩ := h.rows
  rw [hrows] at hr
  obtain ⟨r₀, hr₀, rfl⟩ := mem_update.mp hr
  by_cases hkey : key r₀ ∈ [key row]
  · rw [if_pos hkey] at hact
    cases hact
  · rw [if_neg hkey]
    exact hr₀

/-- **What a call does.** -/
theorem happens_cases {event : SignEvent} (h : Happens crypto custodyKeys event t t') :
    t' = t
    ∨ (∃ fromAddress chainId e txn reply row,
        event = .sign fromAddress chainId e txn reply ∧ Adds e t row t')
    ∨ ∃ e reply row, event = .revert e reply ∧ Fails e t row t' := by
  cases h with
  | sign h =>
      rcases sign_cases h with ⟨ht, _⟩ | ⟨row, hadds, _⟩
      · exact Or.inl ht
      · exact Or.inr (Or.inl ⟨_, _, _, _, _, row, rfl, hadds⟩)
  | revert h =>
      rcases revert_cases h with ⟨ht, _⟩ | ⟨row, hfails⟩
      · exact Or.inl ht
      · exact Or.inr (Or.inr ⟨_, _, row, rfl, hfails⟩)

/-! ## Histories -/

variable {log later earlier : List SignRecord} {x : SignRecord}

/-- A history cut at one of its calls. -/
theorem History.split (h : History crypto custodyKeys t (later ++ x :: earlier) t') :
    History crypto custodyKeys t earlier x.before
    ∧ Happens crypto custodyKeys x.event x.before x.after
    ∧ History crypto custodyKeys x.after later t' := by
  induction later generalizing t' with
  | nil =>
      cases h with
      | call h hcall => exact ⟨h, hcall, .nil⟩
  | cons y later ih =>
      cases h with
      | call h hcall =>
          obtain ⟨hbefore, hx, hlater⟩ := ih h
          exact ⟨hbefore, hx, .call hlater hcall⟩

/-- What every call keeps, except those of some kind, is kept until one of that kind. -/
theorem History.keeps_until {I : SignTable → Prop} {B : SignRecord → Prop}
    (h : History crypto custodyKeys t log t')
    (hstep : ∀ {event t t'}, Happens crypto custodyKeys event t t' → I t →
      I t' ∨ B ⟨event, t, t'⟩) (ht : I t) : I t' ∨ ∃ z ∈ log, B z := by
  induction h with
  | nil => exact Or.inl ht
  | call _ hcall ih =>
      rcases ih with hI | ⟨z, hz, hB⟩
      · rcases hstep hcall hI with hI | hB
        · exact Or.inl hI
        · exact Or.inr ⟨_, List.mem_cons_self, hB⟩
      · exact Or.inr ⟨z, List.mem_cons_of_mem _ hz, hB⟩

theorem History.keeps {I : SignTable → Prop} (h : History crypto custodyKeys t log t')
    (hstep : ∀ {event t t'}, Happens crypto custodyKeys event t t' → I t → I t') (ht : I t) :
    I t' := by
  rcases h.keeps_until (B := fun _ => False) (fun hcall hI => Or.inl (hstep hcall hI)) ht
    with hI | ⟨_, _, hB⟩
  · exact hI
  · exact hB.elim

theorem History.activeNewest (h : History crypto custodyKeys t log t') (ht : t.ActiveNewest) :
    t'.ActiveNewest := by
  refine h.keeps (fun hcall ht => ?_) ht
  rcases happens_cases hcall with rfl | ⟨_, _, _, _, _, _, _, hadds⟩ | ⟨_, _, _, _, hfails⟩
  · exact ht
  · exact hadds.activeNewest ht
  · exact hfails.activeNewest ht

/-- Nothing removes the bytes of a signature. -/
theorem History.signedTx {r : SignRow} (h : History crypto custodyKeys t log t')
    (hr : r ∈ t.rows) : ∃ r' ∈ t'.rows, key r' = key r ∧ r'.signedTx = r.signedTx := by
  refine h.keeps (I := fun t => ∃ r' ∈ t.rows, key r' = key r ∧ r'.signedTx = r.signedTx)
    (fun hcall ht => ?_) ⟨r, hr, rfl, rfl⟩
  obtain ⟨r', hr', hkey, hbytes⟩ := ht
  rcases happens_cases hcall with rfl | ⟨_, _, _, _, _, _, _, hadds⟩ | ⟨_, _, row, _, hfails⟩
  · exact ⟨r', hr', hkey, hbytes⟩
  · exact ⟨r', hadds.keeps hr', hkey, hbytes⟩
  · by_cases hrow : key r' = key row
    · obtain ⟨s, hs, hskey, _, hsbytes⟩ := hfails.failed
      have heq : r' = row := RequestTable.eq_of_key_eq _ hr' hfails.mem hrow
      rw [← heq] at hskey hsbytes
      exact ⟨s, hs, hskey.trans hkey, hsbytes.trans hbytes⟩
    · exact ⟨r', hfails.keeps hr' hrow, hkey, hbytes⟩

/-! ## Signed until reverted -/

variable {k : ExecutionId × ℕ}

/-- Only a revert of the execution ends a signed row. -/
theorem signedAs_step {event : SignEvent} (h : Happens crypto custodyKeys event t t')
    (ht : SignedAs k t) : SignedAs k t' ∨ SignRecord.Reverts k ⟨event, t, t'⟩ := by
  obtain ⟨r, hr, hkey, hsigned⟩ := ht
  rcases happens_cases h with rfl | ⟨_, _, _, _, _, _, _, hadds⟩ | ⟨_, reply, row, rfl, hfails⟩
  · exact Or.inl ⟨r, hr, hkey, hsigned⟩
  · exact Or.inl ⟨r, hadds.keeps hr, hkey, hsigned⟩
  · by_cases hrow : key r = key row
    · obtain ⟨s, hs, hskey, hfailed, _⟩ := hfails.failed
      have howner : k.1 = _ := (congrArg Prod.fst (hkey.symm.trans hrow)).trans hfails.executionId
      exact Or.inr ⟨⟨reply, by rw [howner]⟩, ⟨r, hr, hkey, hsigned⟩,
        ⟨s, hs, hskey.trans (hrow.symm.trans hkey), hfailed⟩⟩
    · exact Or.inl ⟨r, hfails.keeps hr hrow, hkey, hsigned⟩

theorem History.signedAs (h : History crypto custodyKeys t log t') (ht : SignedAs k t) :
    SignedAs k t' ∨ ∃ z ∈ log, z.Reverts k :=
  h.keeps_until (B := SignRecord.Reverts k) signedAs_step ht

/-- A revert of a signed row changes the table. -/
theorem commitsRevert_of_reverts (h : x.Reverts k) : x.CommitsRevert k.1 := by
  refine ⟨h.reply, fun heq => ?_⟩
  obtain ⟨r, hr, hkey, hsigned⟩ := h.signed
  obtain ⟨s, hs, hskey, hfailed⟩ := h.failed
  rw [heq] at hs
  have hrs : r = s := RequestTable.eq_of_key_eq _ hr hs (hkey.trans hskey.symm)
  rw [← hrs, hsigned] at hfailed
  cases hfailed

/-- A successful signature stands for the row that was added for it. -/
theorem succeeds_of_ok {signed : SignedTransaction}
    (h : Happens crypto custodyKeys x.event x.before x.after)
    (hx : x.event = .sign fromAddress chainId e txn (.ok signed)) :
    ∃! row, x.Succeeds e signed row := by
  rw [hx] at h
  cases h with
  | sign h =>
      rcases sign_cases h with ⟨_, hno⟩ | ⟨row, hadds, hok⟩
      · exact absurd rfl (hno signed)
      · obtain ⟨hstate, hbytes⟩ := hok signed rfl
        refine ⟨row, ⟨⟨_, _, _, hx⟩, hadds.rows, hadds.executionId, hstate, hbytes⟩,
          fun row' h' => ?_⟩
        have heq : [row'] = [row] := List.append_cancel_left (h'.rows.symm.trans hadds.rows)
        exact List.head_eq_of_cons_eq heq

/-- The row of a success was added beside inactive ones. -/
theorem adds_of_succeeds {signed : SignedTransaction}
    (h : Happens crypto custodyKeys x.event x.before x.after) (hx : x.Succeeds e signed row) :
    Adds e x.before row x.after := by
  obtain ⟨_, _, _, hevent⟩ := hx.reply
  rw [hevent] at h
  cases h with
  | sign h =>
      rcases sign_cases h with ⟨_, hno⟩ | ⟨row', hadds, _⟩
      · exact absurd rfl (hno signed)
      · have heq : [row] = [row'] := List.append_cancel_left (hx.rows.symm.trans hadds.rows)
        rw [List.head_eq_of_cons_eq heq]
        exact hadds

/-- No key was given to two successes. -/
theorem key_ne_of_succeeds {between : List SignRecord} {y : SignRecord}
    {signed signed' : SignedTransaction} {row' : SignRow}
    (h : History crypto custodyKeys t (later ++ y :: (between ++ x :: earlier)) t')
    (hx : x.Succeeds e signed row) (hy : y.Succeeds e' signed' row') : key row ≠ key row' := by
  obtain ⟨h, hcally, _⟩ := h.split
  obtain ⟨_, hcallx, hbetween⟩ := h.split
  obtain ⟨r, hr, hkey, _⟩ := hbetween.signedTx (adds_of_succeeds hcallx hx).mem
  rw [← hkey]
  exact (adds_of_succeeds hcally hy).fresh hr

/-- Between two successes of an execution the first was reverted. -/
theorem reverted_between {between : List SignRecord} {y : SignRecord}
    {signed signed' : SignedTransaction} {row' : SignRow}
    (h : History crypto custodyKeys t (later ++ y :: (between ++ x :: earlier)) t')
    (hx : x.Succeeds e signed row) (hy : y.Succeeds e signed' row') :
    ∃ z ∈ between, z.Reverts (key row) := by
  obtain ⟨h, hcally, _⟩ := h.split
  obtain ⟨_, hcallx, hbetween⟩ := h.split
  have haddsx := adds_of_succeeds hcallx hx
  have hlive : SignedAs (key row) x.after := ⟨row, haddsx.mem, rfl, hx.state⟩
  rcases hbetween.signedAs hlive with ⟨r, hr, hkey, hsigned⟩ | hreverted
  · -- a row that is still signed leaves no room for the second one
    have howner : r.executionId = e := (congrArg Prod.fst hkey).trans haddsx.executionId
    have hfree := (adds_of_succeeds hcally hy).free r hr howner
    simp [RequestRow.isActive, hsigned] at hfree
  · exact hreverted

/-! ## Calls without a fault -/

/-- Statements without a fault. -/
def smooth (q : SignQuery) (t : SignTable) : q.Reply × SignTable :=
  DatabaseFault.none.reply t (q.execute 0 t)

/-- Every handler returns. -/
theorem runs_smooth {α : Type} (p : Prog SignQuery SignQuery.Reply α) (t : SignTable) :
    p.Runs Step t (p.eval smooth t).1 (p.eval smooth t).2 :=
  runs_eval (fun q t => ⟨0, DatabaseFault.none.answers t (q.execute 0 t)⟩) p t

/-- The sample transaction is signed without a fault. -/
def signOnce (t : SignTable) : Except LocalError SignedTransaction × SignTable :=
  (handleSign sampleDeployment.crypto sampleDeployment.custodyKeys sampleAccount ⟨1⟩ ⟨1⟩
    sampleTxn).eval smooth t

/-- Its signature is reverted without a fault. -/
def revertOnce (t : SignTable) : Except LocalError Unit × SignTable :=
  (handleRevert ⟨1⟩).eval smooth t

def signRecord (t : SignTable) : SignRecord :=
  ⟨.sign sampleAccount ⟨1⟩ ⟨1⟩ sampleTxn (signOnce t).1, t, (signOnce t).2⟩

def revertRecord (t : SignTable) : SignRecord := ⟨.revert ⟨1⟩ (revertOnce t).1, t, (revertOnce t).2⟩

abbrev SampleHistory : List SignRecord → SignTable → Prop :=
  History sampleDeployment.crypto sampleDeployment.custodyKeys .empty

theorem runs_signOnce (t : SignTable) :
    (handleSign sampleDeployment.crypto sampleDeployment.custodyKeys sampleAccount ⟨1⟩ ⟨1⟩
      sampleTxn).Runs Step t (signOnce t).1 (signOnce t).2 :=
  runs_smooth _ t

theorem runs_revertOnce (t : SignTable) :
    (handleRevert ⟨1⟩).Runs Step t (revertOnce t).1 (revertOnce t).2 :=
  runs_smooth _ t

theorem sampleHistory_sign (h : SampleHistory log t) :
    SampleHistory (signRecord t :: log) (signRecord t).after :=
  .call h (.sign (runs_signOnce t))

theorem sampleHistory_revert (h : SampleHistory log t) :
    SampleHistory (revertRecord t :: log) (revertRecord t).after :=
  .call h (.revert (runs_revertOnce t))

/-- The sample transaction is signed, the signature is reverted. -/
def sampleSign : SignRecord := signRecord .empty

def sampleRevert : SignRecord := revertRecord sampleSign.after

theorem history_sampleSign : SampleHistory [sampleSign] sampleSign.after :=
  sampleHistory_sign .nil

theorem history_sampleRevert : SampleHistory [sampleRevert, sampleSign] sampleRevert.after :=
  sampleHistory_revert history_sampleSign

theorem sample_replies :
    (signOnce .empty).1.toOption.isSome = true
    ∧ (signOnce sampleSign.after).1
      = .error (.invariant "Invariant failed while state insertion")
    ∧ (revertOnce sampleSign.after).1 = .ok ()
    ∧ (revertOnce sampleRevert.after).1 = .error (.internal "txn already updated to failed")
    ∧ (signOnce sampleRevert.after).1.toOption.isSome = true := by
  decide +kernel

theorem sample_rows :
    sampleSign.after.rows.map (fun r => (r.executionId, r.state)) = [(⟨1⟩, .signed)]
    ∧ (signOnce sampleSign.after).2.rows = sampleSign.after.rows
    ∧ sampleRevert.after.rows.map (fun r => (r.executionId, r.state)) = [(⟨1⟩, .failed)]
    ∧ (revertOnce sampleRevert.after).2.rows = sampleRevert.after.rows
    ∧ (signRecord sampleRevert.after).after.rows.map (fun r => (r.revision, r.state))
      = [(1, .failed), (2, .signed)] := by
  decide +kernel

/-! ## Integrity -/

/-- **Sign ledger integrity.**  In every history an execution has at most one row that is
reserved or signed, and no newer row.  Every success is the one row its call has added and
set to signed with exactly those bytes, which stay; two successes have rows of their own,
and between two of one execution there is a committed revert of the first. -/
theorem sign_ledger_integrity (h : History crypto custodyKeys .empty log t) :
    (∀ e, (t.rows.filter fun r => decide (r.executionId = e)
        && (decide (r.state = .reserved) || decide (r.state = .signed))).length ≤ 1)
    ∧ (∀ r ∈ t.rows, r.state = .reserved ∨ r.state = .signed →
        ∀ s ∈ t.rows, s.executionId = r.executionId → s.revision ≤ r.revision)
    ∧ (∀ x ∈ log, ∀ fromAddress chainId e txn (signed : SignedTransaction),
        x.event = .sign fromAddress chainId e txn (.ok signed) →
          ∃! row : SignRow, x.Succeeds e signed row
            ∧ ∃! r : SignRow, r ∈ t.rows ∧ key r = key row ∧ r.signedTx = some signed.rlp)
    ∧ ∀ (later : List SignRecord) (y : SignRecord) (between : List SignRecord) (x : SignRecord)
        (earlier : List SignRecord), log = later ++ y :: (between ++ x :: earlier) →
        ∀ e signed (row : SignRow) e' signed' (row' : SignRow),
          x.Succeeds e signed row → y.Succeeds e' signed' row' →
            key row ≠ key row' ∧ (e = e' → ∃ z ∈ between, z.Reverts (key row)) := by
  have hnewest : t.ActiveNewest := h.activeNewest fun _ hr => nomatch hr
  have hactive : ∀ r : SignRow, (decide (r.state = .reserved) || decide (r.state = .signed))
      = RequestRow.isActive r := by
    intro r
    cases hstate : r.state <;> simp [RequestRow.isActive, hstate]
  refine ⟨fun e => ?_, fun r hr hstate => ?_, ?_, ?_⟩
  · simp only [hactive]
    exact t.length_activeOf_le_one e
  · have hact : RequestRow.isActive r = true := by
      rw [← hactive]
      simpa using hstate
    exact hnewest r hr hact
  · intro x hx fromAddress chainId e txn signed hevent
    obtain ⟨later, earlier, rfl⟩ := List.append_of_mem hx
    obtain ⟨_, hcall, hlater⟩ := h.split
    obtain ⟨row, hrow, hunique⟩ := succeeds_of_ok hcall hevent
    obtain ⟨r, hr, hkey, hbytes⟩ := hlater.signedTx (adds_of_succeeds hcall hrow).mem
    refine ⟨row, ⟨hrow, r, ⟨hr, hkey, hbytes.trans hrow.signedTx⟩, fun s hs => ?_⟩,
      fun row' h' => hunique row' h'.1⟩
    exact t.eq_of_key_eq hs.1 hr (hs.2.1.trans hkey.symm)
  · rintro later y between x earlier rfl e signed row e' signed' row' hx hy
    refine ⟨key_ne_of_succeeds h hx hy, ?_⟩
    rintro rfl
    exact reverted_between h hx hy

/-- A transaction that is signed, reverted and signed again. -/
theorem sign_ledger_integrity_again :
    (signRecord sampleRevert.after).after.rows.map (fun r => (r.revision, r.state))
      = [(1, .failed), (2, .signed)]
    ∧ ∃ k, sampleRevert.Reverts k := by
  obtain ⟨_, _, hsucceeds, hbetween⟩ :=
    sign_ledger_integrity (sampleHistory_sign history_sampleRevert)
  obtain ⟨hfirst, _, _, _, hsecond⟩ := sample_replies
  have hok : ∀ t, signRecord t ∈ [signRecord sampleRevert.after, sampleRevert, sampleSign] →
      (signOnce t).1.toOption.isSome = true →
      ∃ signed row, (signRecord t).Succeeds ⟨1⟩ signed row := by
    intro t ht hsome
    cases hreply : (signOnce t).1 with
    | error err =>
        rw [hreply] at hsome
        cases hsome
    | ok signed =>
        obtain ⟨row, hrow, _⟩ := hsucceeds _ ht sampleAccount ⟨1⟩ ⟨1⟩ sampleTxn signed
          (by rw [signRecord, hreply])
        exact ⟨signed, row, hrow.1⟩
  obtain ⟨_, row, hrow⟩ := hok .empty (by simp [sampleSign]) hfirst
  obtain ⟨_, row', hrow'⟩ := hok sampleRevert.after (by simp) hsecond
  obtain ⟨_, hsame⟩ := hbetween [] _ [sampleRevert] _ [] rfl _ _ row _ _ row' hrow hrow'
  obtain ⟨z, hz, hreverts⟩ := hsame rfl
  rw [List.mem_singleton.mp hz] at hreverts
  exact ⟨sample_rows.2.2.2.2, key row, hreverts⟩

/-! ## Repeated calls -/

/-- No row of the execution is reserved or signed. -/
def Inactive (e : ExecutionId) (t : SignTable) : Prop :=
  ∀ r ∈ t.rows, r.executionId = e → RequestRow.isActive r = false

/-- A signed row keeps every further signature out. -/
theorem sign_of_signedAs {reply : Except LocalError SignedTransaction} (ht : SignedAs k t)
    (h : (handleSign crypto custodyKeys fromAddress chainId k.1 txn).Runs Step t reply t') :
    t' = t ∧ ∀ signed, reply ≠ .ok signed := by
  rcases sign_cases h with hsame | ⟨row, hadds, _⟩
  · exact hsame
  · obtain ⟨r, hr, hkey, hsigned⟩ := ht
    have hfree := hadds.free r hr (congrArg Prod.fst hkey)
    simp [RequestRow.isActive, hsigned] at hfree

/-- Without an active row there is nothing to revert. -/
theorem revert_of_inactive {reply : Except LocalError Unit} (ht : Inactive e t)
    (h : (handleRevert e).Runs Step t reply t') : t' = t ∧ reply ≠ .ok () := by
  rcases revert_cases h with hsame | ⟨row, hfails⟩
  · exact hsame
  · have hfree := ht row hfails.mem hfails.executionId
    simp [RequestRow.isActive, hfails.signed] at hfree

theorem inactive_of_commitsRevert (h : Happens crypto custodyKeys x.event x.before x.after)
    (hx : x.CommitsRevert e) : Inactive e x.after := by
  obtain ⟨reply, hevent⟩ := hx.event
  rw [hevent] at h
  cases h with
  | revert h =>
      rcases revert_cases h with ⟨hsame, _⟩ | ⟨row, hfails⟩
      · exact absurd hsame hx.changed
      · exact hfails.inactive

/-- Only a signature ends this. -/
theorem inactive_step {event : SignEvent} (h : Happens crypto custodyKeys event t t')
    (ht : Inactive e t) : Inactive e t'
      ∨ ∃ fromAddress chainId txn reply, event = .sign fromAddress chainId e txn reply := by
  rcases happens_cases h with rfl | ⟨fromAddress, chainId, e', txn, reply, row, rfl, hadds⟩
    | ⟨_, _, _, _, hfails⟩
  · exact Or.inl ht
  · by_cases he : e' = e
    · subst he
      exact Or.inr ⟨fromAddress, chainId, txn, reply, rfl⟩
    · refine Or.inl fun r hr howner => ?_
      rw [hadds.rows, List.mem_append, List.mem_singleton] at hr
      rcases hr with hr | rfl
      · exact ht r hr howner
      · exact absurd (hadds.executionId.symm.trans howner) he
  · refine Or.inl fun r hr howner => ?_
    rw [← Bool.not_eq_true]
    intro hact
    rw [ht r (hfails.mem_of_active hr hact) howner] at hact
    cases hact

/-- **A repeated command never succeeds.**  After a call that has committed a signed row of
an execution, every `handle_sign` for it leaves the table as it is and answers with an
error, until a revert is committed; after a committed revert every `handle_revert` does so,
until the next signature. -/
theorem repeated_sign_fails (h : History crypto custodyKeys .empty (later ++ x :: earlier) t)
    (e : ExecutionId) :
    (x.CommitsSignature e → (∀ z ∈ later, ¬ z.CommitsRevert e) →
      ∀ fromAddress chainId txn,
        (∃ reply t', (handleSign crypto custodyKeys fromAddress chainId e txn).Runs Step t
          reply t')
        ∧ ∀ reply t', (handleSign crypto custodyKeys fromAddress chainId e txn).Runs Step t
          reply t' → t' = t ∧ ∀ signed, reply ≠ .ok signed)
    ∧ (x.CommitsRevert e →
      (∀ z ∈ later, ∀ fromAddress chainId txn reply,
        z.event ≠ .sign fromAddress chainId e txn reply) →
        (∃ reply t', (handleRevert e).Runs Step t reply t')
        ∧ ∀ reply t', (handleRevert e).Runs Step t reply t' → t' = t ∧ reply ≠ .ok ()) := by
  obtain ⟨_, hcall, hlater⟩ := h.split
  constructor
  · intro hx hno fromAddress chainId txn
    obtain ⟨r, hr, _, rfl, hsigned⟩ := hx.signed
    have hlive : SignedAs (key r) x.after := ⟨r, hr, rfl, hsigned⟩
    rcases hlater.signedAs hlive with ht | ⟨z, hz, hreverts⟩
    · exact ⟨⟨_, _, runs_smooth _ t⟩, fun reply t' hrun => sign_of_signedAs ht hrun⟩
    · exact absurd (commitsRevert_of_reverts hreverts) (hno z hz)
  · intro hx hno
    rcases hlater.keeps_until
      (B := fun z => ∃ fromAddress chainId txn reply,
        z.event = .sign fromAddress chainId e txn reply)
      inactive_step (inactive_of_commitsRevert hcall hx) with ht | ⟨z, hz, _, _, _, _, hz'⟩
    · exact ⟨⟨_, _, runs_smooth _ t⟩, fun reply t' hrun => revert_of_inactive ht hrun⟩
    · exact absurd hz' (hno z hz _ _ _ _)

theorem sampleSign_commits : sampleSign.CommitsSignature ⟨1⟩ := by
  have hmem : (⟨1⟩, .signed) ∈ sampleSign.after.rows.map fun r => (r.executionId, r.state) := by
    rw [sample_rows.1]
    exact List.mem_singleton_self _
  obtain ⟨r, hr, heq⟩ := List.mem_map.mp hmem
  obtain ⟨howner, hsigned⟩ := Prod.mk.injEq .. ▸ heq
  exact ⟨⟨_, _, _, _, rfl⟩, r, hr, List.not_mem_nil, howner, hsigned⟩

theorem sampleRevert_commits : sampleRevert.CommitsRevert ⟨1⟩ := by
  refine ⟨⟨_, rfl⟩, fun heq => ?_⟩
  obtain ⟨hsigned, _, hfailed, _⟩ := sample_rows
  have hbefore : sampleRevert.before = sampleSign.after := by rw [sampleRevert, revertRecord]
  rw [heq, hbefore, hsigned] at hfailed
  cases hfailed

/-- The two calls and their repetitions. -/
theorem repeated_sign_fails_sample :
    (signOnce sampleSign.after).2 = sampleSign.after
    ∧ (revertOnce sampleRevert.after).2 = sampleRevert.after := by
  have hsigned : History _ _ _ ([] ++ sampleSign :: []) _ := history_sampleSign
  have hreverted : History _ _ _ ([] ++ sampleRevert :: [sampleSign]) _ := history_sampleRevert
  have hsign := (repeated_sign_fails hsigned ⟨1⟩).1 sampleSign_commits
    (fun _ hz => nomatch hz) sampleAccount ⟨1⟩ sampleTxn
  have hrevert := (repeated_sign_fails hreverted ⟨1⟩).2 sampleRevert_commits
    fun _ hz => nomatch hz
  exact ⟨(hsign.2 _ _ (runs_signOnce _)).1, (hrevert.2 _ _ (runs_revertOnce _)).1⟩

/-- No statement fails, and the repeated calls are refused all the same. -/
theorem repeated_sign_refused :
    (sampleSign.CommitsSignature ⟨1⟩ ∧ (signOnce .empty).1.toOption.isSome = true
      ∧ signOnce sampleSign.after
        = (.error (.invariant "Invariant failed while state insertion"), sampleSign.after))
    ∧ sampleRevert.CommitsRevert ⟨1⟩ ∧ (revertOnce sampleSign.after).1 = .ok ()
    ∧ revertOnce sampleRevert.after
      = (.error (.internal "txn already updated to failed"), sampleRevert.after) := by
  obtain ⟨hok, hsign, hreverted, hrevert, _⟩ := sample_replies
  obtain ⟨_, hsignRows, _, hrevertRows, _⟩ := sample_rows
  have hsignTable : (signOnce sampleSign.after).2 = sampleSign.after := RequestTable.ext hsignRows
  have hrevertTable : (revertOnce sampleRevert.after).2 = sampleRevert.after :=
    RequestTable.ext hrevertRows
  exact ⟨⟨sampleSign_commits, hok, Prod.ext hsign hsignTable⟩, sampleRevert_commits, hreverted,
    Prod.ext hrevert hrevertTable⟩

end

end SignLedger

end Lobby
