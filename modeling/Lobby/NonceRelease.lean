/-
# Releasing a nonce while the network may hold it

One pipeline against a network: its actors answer as they like, but a transaction whose
broadcast was answered `Ok` has been accepted.  A pipeline gives a nonce back on every
final error outside `keepsNonce` and on every verdict of the validator but inclusion and
timeout, the revert of a mined transaction included.  `released_free` names the replies
that matter: if they come only while the network holds no transaction with the nonce, a
nonce is released only when it is free.
-/
import Lobby.PipelinePhases
import Lobby.System

namespace Lobby

open Interaction Prog PipelineContext Phase

/-! ## The network -/

/-- What the network holds of one execution.  The other fields are a history of the replies:
they decide nothing. -/
structure Network where
  /-- the transactions in the mempool or in a block -/
  held : List SignedTransaction
  /-- the nonce granted last -/
  granted : Option TxNonce
  /-- a nonce was granted by `sync` -/
  recovered : Bool
  /-- the failed attempts since the last signature, or since the last broadcast attempt
  that succeeded -/
  failures : ℕ
  deriving DecidableEq

namespace Network

/-- No transaction carries the nonce that was granted last. -/
def Free (net : Network) : Prop := ∀ txn ∈ net.held, some txn.withNonce ≠ net.granted

instance (net : Network) : Decidable net.Free :=
  inferInstanceAs (Decidable (∀ txn ∈ net.held, some txn.withNonce ≠ net.granted))

/-- The network after a reply.  A broadcast that was answered with an error is accepted or
not. -/
def after (net : Network) (accepted : Bool) : (c : PipelineCall) → c.Reply → Network
  | .broadcast _ _ _ txn _, .ok _ => { net with held := txn :: net.held, failures := 0 }
  | .broadcast _ _ _ txn _, .error _ =>
    { net with
      held := if accepted then txn :: net.held else net.held
      failures := net.failures + 1 }
  | .reserve _ _ _, .ok nonce => { net with granted := some nonce }
  | .sync _ _ _ _, .ok nonce =>
    { net with granted := some nonce, recovered := true, failures := 0 }
  | .sign _ _ _ _, .ok _ => { net with failures := 0 }
  | .sign _ _ _ _, .error _ => { net with failures := net.failures + 1 }
  | _, _ => net

/-- Transactions leave the mempool, or a block by a reorganisation. -/
structure Evicts (net net' : Network) : Prop where
  held : net'.held ⊆ net.held
  granted : net'.granted = net.granted
  recovered : net'.recovered = net.recovered
  failures : net'.failures = net.failures

theorem Evicts.refl (net : Network) : Evicts net net := ⟨fun _ h => h, rfl, rfl, rfl⟩

theorem Evicts.trans {net net' net'' : Network} (h : Evicts net net')
    (h' : Evicts net' net'') : Evicts net net'' :=
  ⟨fun _ hx => h.held (h'.held hx), h'.granted.trans h.granted,
    h'.recovered.trans h.recovered, h'.failures.trans h.failures⟩

theorem Free.evicts {net net' : Network} (h : net.Free) (hevicts : Evicts net net') :
    net'.Free := by
  intro txn htxn
  rw [hevicts.granted]
  exact h txn (hevicts.held htxn)

theorem free_of_nil {net : Network} (h : net.held = []) : net.Free := by
  intro txn htxn
  rw [h] at htxn
  cases htxn

end Network

/-! ## The replies that give a nonce up -/

/-- The reply makes the pipeline release its nonce, after something may have been sent. -/
def Network.givesUp (net : Network) (maxTotal : ℕ) : (c : PipelineCall) → c.Reply → Bool
  | .broadcast _ _ _ _ _, .error (.nonceTooLow _ _) => net.recovered
  | .broadcast _ _ _ _ _, .error (.missingProvider _) => true
  | .broadcast _ _ _ _ _, .error err =>
    !keepsNonce err && decide (net.failures + 1 = maxTotal)
  | .sign _ _ _ _, .error _ => net.recovered && decide (net.failures + 1 = maxTotal)
  | .validate _ _ _ _, .error (.database _) => false
  | .validate _ _ _ _, .error (.internal _) => false
  | .validate _ _ _ _, .error _ => true
  | .validate _ _ _ _, .ok .notIncluded => true
  | _, _ => false

/-- What the surroundings of one pipeline decide about one call. -/
structure NetworkChoice where
  /-- whether the network takes a transaction whose broadcast is answered with an error -/
  accepted : Bool
  answer : (c : PipelineCall) → Option c.Reply

/-- One pipeline and the network; the outside events are evictions. -/
def networkMachine :
    Machine Unit NetworkChoice SignedTransaction PipelineCall PipelineCall.Reply Network where
  perform _ choice c net :=
    (choice.answer c).map fun reply => (reply, net.after choice.accepted c reply)
  external txn net := some { net with held := net.held.filter fun t => decide (t ≠ txn) }

def PipelineContext.start (ctx : PipelineContext) :
    Config Unit PipelineCall PipelineCall.Reply Network Unit where
  thread _ := runPipeline ctx
  world := ⟨[], none, false, 0⟩

/-- A reply that gives a nonce up comes only while the nonce is free. -/
def releaseConditions (ctx : PipelineContext) :
    Machine.Conditions Unit NetworkChoice SignedTransaction PipelineCall Network where
  call _ choice c net :=
    match choice.answer c with
    | none => True
    | some reply => net.givesUp ctx.retryConfig.maxTotal.toNat c reply = true →
        (net.after choice.accepted c reply).Free
  external _ _ := True

instance (ctx : PipelineContext) (i : Unit) (choice : NetworkChoice) (c : PipelineCall)
    (net : Network) : Decidable ((releaseConditions ctx).call i choice c net) :=
  match hanswer : choice.answer c with
  | none => isTrue (by simp only [releaseConditions, hanswer])
  | some reply => decidable_of_iff
      (net.givesUp ctx.retryConfig.maxTotal.toNat c reply = true →
        (net.after choice.accepted c reply).Free) (by simp only [releaseConditions, hanswer])

instance (ctx : PipelineContext) (txn : SignedTransaction) (net : Network) :
    Decidable ((releaseConditions ctx).external txn net) := inferInstanceAs (Decidable True)

/-! ## The outline -/

/-- What the pipeline ensures: it releases a nonce that is free. -/
def Network.Requires : PipelineCall → Network → Prop
  | .resolve _ .released, net => net.Free ∧ ∃ nonce, net.granted = some nonce
  | _, _ => True

def releaseContract (ctx : PipelineContext) :
    Contract PipelineCall PipelineCall.Reply Network where
  rely := Network.Evicts
  rely_refl := Network.Evicts.refl
  rely_trans := Network.Evicts.trans
  requires := Network.Requires
  step c net reply net' :=
    (net.givesUp ctx.retryConfig.maxTotal.toNat c reply = true → net'.Free)
    ∧ ∃ accepted, net' = net.after accepted c reply

/-- The network along the phases of a pipeline. -/
def releaseAlong : Phase → Network → Prop
  | .registering _, net | .registered, net | .reserving _, net =>
      net.held = [] ∧ net.recovered = false ∧ net.failures = 0
  | .reserved nonce, net | .signed nonce _, net | .acquiring nonce _, net =>
      net.granted = some nonce ∧ net.held = [] ∧ net.recovered = false ∧ net.failures = 0
  | .signing nonce _, net =>
      net.granted = some nonce ∧ net.held = [] ∧ net.recovered = false
  | .sending recoveries nonce _ attempt, net =>
      net.granted = some nonce ∧ (recoveries = 0 → net.recovered = true)
        ∧ net.failures + 1 = attempt
  | .synced nonce, net | .resigned nonce _, net =>
      net.granted = some nonce ∧ net.recovered = true ∧ net.failures = 0
  | .resigning nonce attempt, net =>
      net.granted = some nonce ∧ net.recovered = true ∧ net.failures + 1 = attempt
  | .broadcasted nonce _, net | .validating nonce _, net => net.granted = some nonce
  | .releasing nonce _ _, net => net.granted = some nonce ∧ net.Free
  | _, _ => True

section

variable {ctx : PipelineContext} {net net' : Network}

/-- Evictions leave the assertion of a phase alone. -/
theorem releaseAlong_stable {p : Phase} (hnet : releaseAlong p net)
    (hevicts : net.Evicts net') : releaseAlong p net' := by
  have hfree : net.Free → net'.Free := fun h => h.evicts hevicts
  obtain ⟨held, granted, recovered, failures⟩ := net'
  obtain ⟨hheld, rfl, rfl, rfl⟩ := hevicts
  have hnil : net.held = [] → held = [] := by
    intro hempty
    rw [hempty] at hheld
    exact List.subset_nil.mp hheld
  cases p with
  | registering | registered | reserving => exact hnet.imp_left hnil
  | reserved | signed | acquiring => exact hnet.imp_right (And.imp_left hnil)
  | signing => exact hnet.imp_right (And.imp_left hnil)
  | sending | synced | resigned | resigning | broadcasted | validating => exact hnet
  | releasing => exact hnet.imp_right hfree
  | _ => exact trivial

/-- The phase after an error that is worth another attempt. -/
theorem attempted_again {H : Phase → Prop} {T E : Type} {maxTotal attempt : ℕ}
    {stage : ℕ → Phase} {onOk : T → Phase} {onError : E → Phase} {err : E}
    (hlast : attempt = maxTotal → H (onError err))
    (hagain : H (stage (attempt + 1))) :
    H (attempted maxTotal stage attempt onOk onError (.error (.retry err))) := by
  rw [attempted]
  split
  · exact hlast ‹_›
  · exact hagain

/-- A broadcast round that ends in a release has ended by a reply that gives the nonce up. -/
theorem givesUp_broadcast {chainId : ChainId} {fromAddress : Address} {e : ExecutionId}
    {txn : SignedTransaction} {stickyIndex recoveries attempt maxTotal : ℕ} {nonce : TxNonce}
    {err : BroadcastError} {accepted : Bool}
    (hnet : releaseAlong (.sending recoveries nonce txn attempt) net)
    (hgive : net.givesUp maxTotal (.broadcast chainId fromAddress e txn stickyIndex)
      (.error err) = true → net'.Free)
    (hafter : net' = net.after accepted (.broadcast chainId fromAddress e txn stickyIndex)
      (.error err)) :
    releaseAlong (attempted maxTotal (.sending recoveries nonce txn) attempt
      (fun outcome => .broadcasted nonce outcome.txnHash)
      (afterBroadcastError recoveries nonce) (broadcastDecision (.error err))) net' := by
  obtain ⟨hgranted, hrecovered, hfailures⟩ := hnet
  have hgranted' : net'.granted = some nonce := by rw [hafter]; exact hgranted
  have hagain : releaseAlong (.sending recoveries nonce txn (attempt + 1)) net' := by
    rw [hafter]
    exact ⟨hgranted, hrecovered, congrArg (· + 1) hfailures⟩
  cases err with
  | nonceTooLow nonceOnChain attemptedNonce =>
      -- the first one starts the recovery, the second one ends the pipeline
      exact afterBroadcastError_of (H := fun p => releaseAlong p net')
        (fun hzero => ⟨hgranted', hgive (hrecovered hzero)⟩) fun _ => trivial
  | missingProvider chainId => exact ⟨hgranted', hgive rfl⟩
  | internal | databaseError | invariant =>
      -- these keep the nonce, on the last attempt too
      exact attempted_again (H := fun p => releaseAlong p net') (fun _ => trivial) hagain
  | rejected | unexpected | rpcError =>
      refine attempted_again (H := fun p => releaseAlong p net')
        (fun hlast => ⟨hgranted', hgive ?_⟩) hagain
      simp [Network.givesUp, keepsNonce, hfailures, hlast]

/-- A signature that failed for good, after the recovery. -/
theorem givesUp_resign {chainId : ChainId} {fromAddress : Address} {e : ExecutionId}
    {txn : Eip1559Transaction} {attempt maxTotal : ℕ} {nonce : TxNonce} {err : LocalError}
    (hnet : releaseAlong (.resigning nonce attempt) net) (hlast : attempt = maxTotal) :
    net.givesUp maxTotal (.sign chainId fromAddress e txn) (.error err) = true := by
  obtain ⟨_, hrecovered, hfailures⟩ := hnet
  simp [Network.givesUp, hrecovered, hfailures, hlast]

/-- **The outline of a pipeline against the network.** -/
theorem release_outline (ctx : PipelineContext) :
    Outline (releaseContract ctx) ctx releaseAlong where
  stable := releaseAlong_stable
  call := by
    intro p c next net hcall hnet
    cases hcall with
    | genRange | sleep | telemetry | unreachable =>
        refine ⟨trivial, ?_⟩
        rintro r _ ⟨_, _, rfl⟩
        exact hnet
    | accept =>
        refine ⟨trivial, ?_⟩
        rintro r _ ⟨_, _, rfl⟩
        exact hnet
    | showReserved nonce =>
        refine ⟨trivial, ?_⟩
        rintro r _ ⟨_, _, rfl⟩
        exact ⟨hnet.1, hnet.2.1, hnet.2.2.1⟩
    | showSigned | showBroadcasted =>
        refine ⟨trivial, ?_⟩
        rintro r _ ⟨_, _, rfl⟩
        exact hnet
    | showSynced nonce =>
        refine ⟨trivial, ?_⟩
        rintro r _ ⟨_, _, rfl⟩
        exact ⟨hnet.1, hnet.2.1, congrArg (· + 1) hnet.2.2⟩
    | showResigned nonce txn =>
        refine ⟨trivial, ?_⟩
        rintro r _ ⟨_, _, rfl⟩
        exact ⟨hnet.1, fun _ => hnet.2.1, congrArg (· + 1) hnet.2.2⟩
    | showMismatch | showConfirmed | showTimedOut | fail =>
        exact ⟨trivial, fun _ _ _ => trivial⟩
    | register attempt =>
        refine ⟨trivial, ?_⟩
        rintro (err | _) _ ⟨_, _, rfl⟩
        · exact attempted_again (H := fun p => releaseAlong p _) (fun _ => trivial) hnet
        · exact hnet
    | reserve attempt =>
        refine ⟨trivial, ?_⟩
        rintro (err | nonce) _ ⟨_, _, rfl⟩
        · exact attempted_again (H := fun p => releaseAlong p _) (fun _ => trivial) hnet
        · exact ⟨rfl, hnet⟩
    | sign nonce attempt =>
        obtain ⟨hgranted, hnil, hrecovered⟩ := hnet
        refine ⟨trivial, ?_⟩
        rintro (err | txn) _ ⟨_, _, rfl⟩
        -- nothing has been sent yet
        · exact attempted_again (H := fun p => releaseAlong p _)
            (fun _ => ⟨hgranted, Network.free_of_nil hnil⟩) ⟨hgranted, hnil, hrecovered⟩
        · exact ⟨hgranted, hnil, hrecovered, rfl⟩
    | acquire nonce txn =>
        obtain ⟨hgranted, hnil, _, hfailures⟩ := hnet
        refine ⟨trivial, ?_⟩
        rintro (err | _ | stickyIndex) _ ⟨_, _, rfl⟩
        · exact ⟨hgranted, Network.free_of_nil hnil⟩
        · exact ⟨hgranted, Network.free_of_nil hnil⟩
        · exact ⟨hgranted, by rintro ⟨⟩, congrArg (· + 1) hfailures⟩
    | broadcast recoveries nonce txn attempt stickyIndex =>
        refine ⟨trivial, ?_⟩
        rintro (err | outcome) net' ⟨hgive, accepted, hafter⟩
        · exact givesUp_broadcast hnet hgive hafter
        · rw [hafter]
          exact hnet.1
    | consume nonce nonceOnChain attempt =>
        refine ⟨trivial, ?_⟩
        rintro (err | _) _ ⟨_, _, rfl⟩
        · exact attempted_again (H := fun p => releaseAlong p _) (fun _ => trivial) trivial
        · trivial
    | revert nonceOnChain attempt =>
        refine ⟨trivial, ?_⟩
        rintro (err | _) _ ⟨_, _, rfl⟩
        · exact attempted_again (H := fun p => releaseAlong p _) (fun _ => trivial) trivial
        · trivial
    | sync nonceOnChain attempt =>
        refine ⟨trivial, ?_⟩
        rintro (err | nonce) _ ⟨_, _, rfl⟩
        · exact attempted_again (H := fun p => releaseAlong p _) (fun _ => trivial) trivial
        · exact ⟨rfl, rfl, rfl⟩
    | resign nonce attempt =>
        refine ⟨trivial, ?_⟩
        rintro (err | txn) net' ⟨hgive, accepted, rfl⟩
        · refine attempted_again (H := fun p => releaseAlong p _) (fun hlast => ?_) ?_
          · exact ⟨hnet.1, hgive (givesUp_resign hnet hlast)⟩
          · exact ⟨hnet.1, hnet.2.1, congrArg (· + 1) hnet.2.2⟩
        · exact ⟨hnet.1, hnet.2.1, rfl⟩
    | validate nonce txHash stickyIndex =>
        refine ⟨trivial, ?_⟩
        rintro (err | result) net' ⟨hgive, accepted, rfl⟩
        · cases err with
          | database | internal => trivial
          | rpc | reverted | rpcError => exact ⟨hnet, hgive rfl⟩
        · cases result with
          | included | timeout => trivial
          | notIncluded => exact ⟨hnet, hgive rfl⟩
    | finalize nonce txHash attempt =>
        refine ⟨trivial, ?_⟩
        rintro (err | _) _ ⟨_, _, rfl⟩
        · exact attempted_again (H := fun p => releaseAlong p _) (fun _ => trivial) trivial
        · trivial
    | retire nonce attempt =>
        refine ⟨trivial, ?_⟩
        rintro (err | _) _ ⟨_, _, rfl⟩
        · exact attempted_again (H := fun p => releaseAlong p _) (fun _ => trivial) trivial
        · trivial
    | release nonce status attempt =>
        refine ⟨⟨hnet.2, nonce, hnet.1⟩, ?_⟩
        rintro (err | _) _ ⟨_, _, rfl⟩
        · exact attempted_again (H := fun p => releaseAlong p _) (fun _ => trivial) hnet
        · trivial

end

/-! ## Runs -/

/-- A call and an eviction keep the contract. -/
theorem release_compatible (ctx : PipelineContext) :
    Machine.Compatible networkMachine (releaseConditions ctx)
      (fun _ => releaseContract ctx) fun _ => True where
  step := by
    rintro i choice c net reply net' _ hK _ hperform
    obtain ⟨reply, hanswer, heq⟩ := Option.map_eq_some_iff.mp hperform
    cases heq
    refine ⟨⟨fun hgive => ?_, choice.accepted, rfl⟩, trivial⟩
    simp only [releaseConditions, hanswer] at hK
    exact hK hgive
  guarantee hne := absurd (Subsingleton.elim _ _) hne
  external := by
    rintro txn net net' _ _ hevict
    cases hevict
    exact ⟨trivial, fun _ => ⟨List.filter_subset_self _, rfl, rfl, rfl⟩⟩

/-- **A nonce is released only when it is free.**  In every run in which the replies that
give a nonce up come only while the network holds no transaction with it, so it is whenever
the pipeline asks to release it. -/
theorem released_free {ctx : PipelineContext}
    {st : Config Unit PipelineCall PipelineCall.Reply Network Unit}
    (hreach : networkMachine.Reachable (releaseConditions ctx) ctx.start st)
    {e : ExecutionId} {next : Except LocalError Unit → PipelineProg Unit}
    (hthread : st.thread () = .call (.resolve e .released) next) :
    ∃ nonce, st.world.granted = some nonce ∧ ∀ txn ∈ st.world.held, txn.withNonce ≠ nonce := by
  have hstart : Machine.Safe (fun _ => releaseContract ctx) (fun _ => True)
      (fun _ _ => releaseAlong .ended) ctx.start :=
    ⟨trivial, fun _ => (release_outline ctx).wp_runPipeline ⟨rfl, rfl, rfl⟩⟩
  have hsafe := Machine.reachable_safe (release_compatible ctx) hstart hreach
  obtain ⟨hfree, nonce, hgranted⟩ := hsafe.requires hthread
  refine ⟨nonce, hgranted, fun txn htxn heq => hfree txn htxn ?_⟩
  rw [hgranted, heq]

/-! ## Two pipelines -/

/-- Replies without an error, for the signed bytes `[2]` with nonce 0. -/
def smoothReply : (c : PipelineCall) → Option c.Reply
  | .registerTransaction _ _ _ => some (.ok ())
  | .reserve _ _ _ => some (.ok ⟨0⟩)
  | .resolve _ _ => some (.ok ())
  | .sign _ _ _ _ => some (.ok ⟨[2], ⟨0⟩⟩)
  | .acquireHealthyEndpoint _ _ => some (.ok (some 0))
  | .broadcast _ _ _ _ _ => some (.ok ⟨⟨List.replicate 32 7, List.length_replicate⟩⟩)
  | .validate _ _ _ _ => some (.ok (.included 1 0))
  | .setStatus _ _ => some ()
  | .genRange _ => some (0 : UInt64)
  | .sleep _ => some ()
  | _ => none

/-- The validator finds the transaction in a block, with status 0. -/
def NetworkChoice.reverting : NetworkChoice where
  accepted := false
  answer
    | .validate _ _ txHash _ => some (.error (.reverted txHash))
    | c => smoothReply c

/-- The node refuses the transaction. -/
def NetworkChoice.refusing : NetworkChoice where
  accepted := false
  answer
    | .broadcast _ _ _ _ _ => some (.error (.rejected "insufficient funds"))
    | c => smoothReply c

/-- The node takes the transaction and every reply is lost. -/
def NetworkChoice.unanswered : NetworkChoice where
  accepted := true
  answer
    | .broadcast _ _ _ _ _ => some (.error (.rpcError "operation timed out"))
    | c => smoothReply c

def samplePipeline : PipelineContext :=
  sampleDeployment.context ⟨1⟩ ⟨⟨0, sampleAccount⟩, sampleTxn⟩

/-- The pipeline is about to release its nonce. -/
def releases (st : Config Unit PipelineCall PipelineCall.Reply Network Unit) : Bool :=
  match st.thread () with
  | .call (.resolve _ .released) _ => true
  | _ => false

theorem releases_eq_true {st : Config Unit PipelineCall PipelineCall.Reply Network Unit}
    (h : releases st = true) : ∃ e next, st.thread () = .call (.resolve e .released) next := by
  unfold releases at h
  split at h
  · exact ⟨_, _, ‹_›⟩
  · cases h

/-- All attempts are refused, and the nonce is free. -/
theorem released_free_refused :
    ∃ st, networkMachine.Reachable (releaseConditions samplePipeline) samplePipeline.start st
      ∧ releases st = true
      ∧ ∃ nonce, st.world.granted = some nonce
        ∧ ∀ txn ∈ st.world.held, txn.withNonce ≠ nonce := by
  have hrun : (networkMachine.runUnder (releaseConditions samplePipeline) samplePipeline.start
      (List.replicate 14 (.call () .refusing))).map releases = some true := by decide +kernel
  obtain ⟨st, hreach, hreleases⟩ := Machine.exists_reachable hrun
  obtain ⟨e, next, hthread⟩ := releases_eq_true hreleases
  exact ⟨st, hreach, hreleases, released_free hreach hthread⟩

/-- A mined transaction that was reverted is in a block when its nonce is released, and a
transaction whose replies were lost is in the mempool. -/
theorem released_held :
    (¬ ∀ (ctx : PipelineContext) (st : Config Unit PipelineCall PipelineCall.Reply Network Unit),
        networkMachine.Reachable .free ctx.start st → ∀ e next,
        st.thread () = .call (.resolve e .released) next → ∀ nonce,
        st.world.granted = some nonce → ∀ txn ∈ st.world.held, txn.withNonce ≠ nonce)
    ∧ ∃ st, networkMachine.Reachable .free samplePipeline.start st
      ∧ releases st = true ∧ ¬ st.world.Free := by
  constructor
  · intro hclaim
    have hrun : (networkMachine.runUnder .free samplePipeline.start
        (List.replicate 10 (.call () .reverting))).map (fun st => (releases st, st.world))
        = some (true, ⟨[⟨[2], ⟨0⟩⟩], some ⟨0⟩, false, 0⟩) := by decide +kernel
    obtain ⟨st, hreach, hend⟩ := Machine.exists_reachable hrun
    obtain ⟨hreleases, hnet⟩ := Prod.mk.inj hend
    obtain ⟨e, next, hthread⟩ := releases_eq_true hreleases
    exact hclaim _ st hreach e next hthread ⟨0⟩ (by rw [hnet]) ⟨[2], ⟨0⟩⟩ (by simp [hnet]) rfl
  · have hrun : (networkMachine.runUnder .free samplePipeline.start
        (List.replicate 14 (.call () .unanswered))).map
          (fun st => (releases st, decide st.world.Free)) = some (true, false) := by
      decide +kernel
    obtain ⟨st, hreach, hend⟩ := Machine.exists_reachable hrun
    obtain ⟨hreleases, hheld⟩ := Prod.mk.inj hend
    exact ⟨st, hreach, hreleases, of_decide_eq_false hheld⟩

end Lobby
