/-
# Calls about one's own execution

Whatever the pipelines and the actors are answered, the next call that is made on behalf of an
execution names that execution, and what it registers is its own submission (`own_of_asks`).
-/
import Lobby.Shards
import Lobby.MailboxInvariants

namespace Lobby

open Interaction Prog PipelineContext

/-- Every call of a pipeline is about its own execution. -/
theorem outline_own (d : Deployment) (e : ExecutionId) (s : Submission) :
    Outline (Contract.recording fun c _ => c.Own e s) (d.context e s) fun _ _ => True where
  stable _ _ := trivial
  call hcall _ := by
    refine ⟨?_, fun _ _ _ => trivial⟩
    cases hcall with
    | register => exact ⟨rfl, rfl, rfl⟩
    | genRange | sleep | unreachable | acquire => exact trivial
    | _ => exact rfl

theorem own_of_submitted {d : Deployment} {e : ExecutionId} {calls : List PipelineCall}
    {c : PipelineCall} {next : c.Reply → PipelineProg (Except BackpressureTimeout Unit)}
    (h : (d.submitted e).Leads calls (.call c next)) :
    ∃ s, d.submission e = some s ∧ c.Own e s := by
  unfold Deployment.submitted at h
  cases hsub : d.submission e with
  | none =>
      rw [hsub] at h
      cases Office.eq_ret_of_leads h
  | some s =>
      rw [hsub] at h
      have hpermit : wp (Contract.recording fun c _ => c.Own e s)
          ((d.context e s).setStatus .permitAquired) (fun _ _ => True) [] :=
        wp_call fun _ _ => ⟨rfl, fun _ _ _ => wp_ret fun _ _ => trivial⟩
      exact ⟨s, rfl, (h.wp ((outline_own d e s).wp_submit hpermit) _ rfl).1⟩

/-- **Every call is about the execution on whose behalf it is made.** -/
theorem own_of_asks {W Ω Ξ : Type*} {d : Deployment} {config : CortexConfig}
    {hash : ShardKey → UInt64} {M : Machine ExecutionId Ω Ξ EngineCall EngineCall.Reply W}
    {K : Machine.Conditions ExecutionId Ω Ξ EngineCall W} {w₀ : W}
    {movers : List (Option ExecutionId)}
    {st : Office.Config ExecutionId Actor PipelineCall PipelineCall.Reply EngineCall
      EngineCall.Reply W (Except BackpressureTimeout Unit)} {e : ExecutionId} {x : EngineCall}
    (h : (d.cortex config hash).Runs M K (Office.start d.submitted w₀) movers st)
    (hx : st.Asks e x) : ∃ s, d.submission e = some s ∧ x.Own e s := by
  obtain ⟨c, ⟨calls, next, hleads⟩, log, rest, hfollows⟩ := h.along.asks hx
  obtain ⟨s, hs, hc⟩ := own_of_submitted hleads
  exact ⟨s, hs, (hfollows.asks (bounded_serve d c).asks).1.own e s hc⟩

end Lobby
