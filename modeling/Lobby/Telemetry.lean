/-
# The telemetry registry

The registry of the telemetry context, the channel to its exporter and the exporter, under
the calls of any number of pipelines.  The exporter removes the entry of every message it
takes.  Only a pipeline with a successful broadcast sends one, so the registry is empty in
the end exactly when every pipeline had one (`neverLeaks_iff`).
-/
import Lobby.EndpointMetrics
import Lobby.StatusRestart
import Lobby.TelemetryCalls

namespace Lobby

open Interaction Prog

/-! ## The registry and its exporter -/

/-- The moments of the stages of one pipeline. -/
structure PipelineTelemetry where
  start : Option Instant
  relayhost : Option Instant
  nonce : Option Instant
  sign : Option Instant
  broadcast : Option Instant
  deriving DecidableEq

/-- `PipelineTelemetry::default`. -/
def PipelineTelemetry.default : PipelineTelemetry := ⟨none, none, none, none, none⟩

/-- The payload streamed to the benchmark harness. -/
structure LatencyRecord where
  executionId : String
  relayhostDurationUs : UInt64
  nonceDurationUs : UInt64
  signDurationUs : UInt64
  broadcastDurationUs : UInt64
  totalPipelineUs : UInt64
  deriving DecidableEq

/-- `get_duration_us`; `duration_since` is zero when the stages are in the other order. -/
def getDurationUs : Option Instant → Option Instant → UInt64
  | some a, some b => .ofNat ((b - a) / 1000)
  | _, _ => 0

def PipelineTelemetry.latencyRecord (telemetry : PipelineTelemetry)
    (executionId : ExecutionId) : LatencyRecord where
  executionId := executionId.display
  relayhostDurationUs := getDurationUs telemetry.start telemetry.relayhost
  nonceDurationUs := getDurationUs telemetry.relayhost telemetry.nonce
  signDurationUs := getDurationUs telemetry.nonce telemetry.sign
  broadcastDurationUs := getDurationUs telemetry.sign telemetry.broadcast
  totalPipelineUs := getDurationUs telemetry.start telemetry.broadcast

/-- Where `run_telemetry_exporter` is: at its socket, at `recv`, sending a record, or back,
with the receiver of the channel dropped. -/
inductive ExporterState : Type where
  | connecting
  | receiving
  | sending (record : LatencyRecord)
  | returned
  deriving DecidableEq

/-- The registry, the messages in the channel, the oldest first, the exporter, and what it
has sent to the socket. -/
structure Telemetry where
  registry : ExecutionId → Option PipelineTelemetry
  channel : List ExecutionId
  exporter : ExporterState
  sent : List LatencyRecord

namespace Telemetry

/-- `TelemetryContext::new`, with its exporter just spawned. -/
def new : Telemetry := ⟨fun _ => none, [], .connecting, []⟩

variable (s : Telemetry)

/-- `entry(execution_id).or_insert_with(PipelineTelemetry::default)`. -/
def entry (e : ExecutionId) : PipelineTelemetry := (s.registry e).getD .default

def store (e : ExecutionId) (telemetry : PipelineTelemetry) : Telemetry :=
  { s with registry := Function.update s.registry e (some telemetry) }

def recordStart (e : ExecutionId) (now : Instant) : Telemetry :=
  s.store e { s.entry e with start := some now }

def recordStage (stage : TelemetryStage) (e : ExecutionId) (now : Instant) : Telemetry :=
  s.store e <|
    match stage with
    | .relayHost => { s.entry e with relayhost := some now }
    | .nonce => { s.entry e with nonce := some now }
    | .sign => { s.entry e with sign := some now }
    | .broadcast => { s.entry e with broadcast := some now }

/-- `finalize`; that the channel is closed is ignored. -/
def finalize (e : ExecutionId) : Telemetry :=
  match s.exporter with
  | .returned => s
  | _ => { s with channel := s.channel ++ [e] }

/-- A call of the telemetry context. -/
def call (e : ExecutionId) (recorded : TelemetryCall) (now : Instant) : Telemetry :=
  match recorded with
  | .recordStart => s.recordStart e now
  | .recordStage stage => s.recordStage stage e now
  | .finalize => s.finalize e

/-- The exporter returns; the messages in the channel are lost. -/
def stop : Telemetry := { s with channel := [], exporter := .returned }

/-- `bind` and `accept`. -/
def connect (accepted : Bool) : Telemetry :=
  match s.exporter with
  | .connecting => if accepted then { s with exporter := .receiving } else s.stop
  | _ => s

/-- The next message, and the entry it removes.  A record always serializes: it consists of
a text and numbers. -/
def receive : Telemetry :=
  match s.exporter, s.channel with
  | .receiving, e :: channel =>
    match s.registry e with
    | none => { s with channel := channel }
    | some telemetry =>
      { s with
        registry := Function.update s.registry e none
        channel := channel
        exporter := .sending (telemetry.latencyRecord e) }
  | _, _ => s

/-- The socket takes the record, or fails. -/
def send (sends : Bool) : Telemetry :=
  match s.exporter with
  | .sending record =>
    if sends then { s with exporter := .receiving, sent := s.sent ++ [record] } else s.stop
  | _ => s

/-- A call other than `finalize` stores an entry. -/
theorem call_eq_store (e : ExecutionId) {recorded : TelemetryCall} (h : recorded ≠ .finalize)
    (now : Instant) :
    ∃ telemetry, s.call e recorded now = s.store e telemetry := by
  cases recorded with
  | recordStart => exact ⟨_, rfl⟩
  | recordStage stage => exact ⟨_, rfl⟩
  | finalize => exact absurd rfl h

variable {s}

theorem registry_store (e e' : ExecutionId) (telemetry : PipelineTelemetry) :
    (s.store e telemetry).registry e' = if e' = e then some telemetry else s.registry e' :=
  Function.update_apply ..

theorem store_registry_ne_none {e e' : ExecutionId} {telemetry : PipelineTelemetry}
    (h : e' = e ∨ s.registry e' ≠ none) : (s.store e telemetry).registry e' ≠ none := by
  rw [registry_store]
  split
  · exact Option.some_ne_none telemetry
  · case isFalse hne => exact h.resolve_left hne

theorem finalize_running (h : s.exporter ≠ .returned) (e : ExecutionId) :
    s.finalize e = { s with channel := s.channel ++ [e] } := by
  unfold finalize
  split
  · case h_1 hreturned => exact absurd hreturned h
  · rfl

theorem finalize_returned (h : s.exporter = .returned) (e : ExecutionId) : s.finalize e = s := by
  unfold finalize
  rw [h]

/-- What a step of the exporter does: it removes only entries with a message, and as long as
it does not return, an entry loses its message only when it is removed. -/
structure Exports (s s' : Telemetry) : Prop where
  kept : ∀ e, e ∉ s.channel → e ∉ s'.channel ∧ s'.registry e = s.registry e
  running : s'.exporter ≠ .returned → s.exporter ≠ .returned
  registry : ∀ e, s'.registry e ≠ none → s.registry e ≠ none
  channel : s'.exporter ≠ .returned → ∀ e, s'.registry e ≠ none → e ∈ s.channel →
    e ∈ s'.channel

theorem Exports.of_eq {s' : Telemetry} (hregistry : s'.registry = s.registry)
    (hchannel : s'.channel = s.channel)
    (hrunning : s'.exporter ≠ .returned → s.exporter ≠ .returned) : Exports s s' where
  kept e he := ⟨hchannel ▸ he, congrFun hregistry e⟩
  running := hrunning
  registry _ he := hregistry ▸ he
  channel _ _ _ he := hchannel ▸ he

theorem exports_stop (h : s.exporter ≠ .returned) : Exports s s.stop where
  kept _ _ := ⟨List.not_mem_nil, rfl⟩
  running _ := h
  registry _ he := he
  channel hexporter := absurd rfl hexporter

theorem exports_connect (accepted : Bool) : Exports s (s.connect accepted) := by
  unfold connect
  split
  · case h_1 hconnecting =>
      have hrunning : s.exporter ≠ .returned := by
        rw [hconnecting]
        exact nofun
      split
      · exact .of_eq rfl rfl fun _ => hrunning
      · exact exports_stop hrunning
  · exact .of_eq rfl rfl id

/-- An entry that is there after another one was removed. -/
theorem ne_of_removed {registry : ExecutionId → Option PipelineTelemetry} {e e' : ExecutionId}
    (h : Function.update registry e none e' ≠ none) : e' ≠ e ∧ registry e' ≠ none := by
  by_cases heq : e' = e
  · subst heq
    exact absurd (Function.update_self e' none registry) h
  · rw [Function.update_of_ne heq] at h
    exact ⟨heq, h⟩

theorem exports_receive : Exports s s.receive := by
  unfold receive
  split
  · case h_1 e channel hreceiving hchannel =>
      have hrunning : s.exporter ≠ .returned := by
        rw [hreceiving]
        exact nofun
      have hkept : ∀ e', e' ∉ s.channel → e' ≠ e ∧ e' ∉ channel := by
        intro e' he'
        rwa [hchannel, List.mem_cons, not_or] at he'
      split
      · case h_1 hnone =>
          refine ⟨fun e' he' => ⟨(hkept e' he').2, rfl⟩, fun _ => hrunning,
            fun _ he => he, fun _ e' he' hmem => ?_⟩
          rw [hchannel, List.mem_cons] at hmem
          exact hmem.resolve_left fun heq => he' (heq ▸ hnone)
      · refine ⟨?_, fun _ => hrunning, fun e' he' => (ne_of_removed he').2, ?_⟩
        · intro e' he'
          exact ⟨(hkept e' he').2, Function.update_of_ne (hkept e' he').1 _ _⟩
        · intro _ e' he' hmem
          rw [hchannel, List.mem_cons] at hmem
          exact hmem.resolve_left (ne_of_removed he').1
  · exact .of_eq rfl rfl id

theorem exports_send (sends : Bool) : Exports s (s.send sends) := by
  unfold send
  split
  · case h_1 record hsending =>
      have hrunning : s.exporter ≠ .returned := by
        rw [hsending]
        exact nofun
      split
      · exact .of_eq rfl rfl fun _ => hrunning
      · exact exports_stop hrunning
  · exact .of_eq rfl rfl id

end Telemetry

/-! ## Histories -/

/-- What happens, with the pipeline that makes the call. -/
inductive TelemetryEvent (ι : Type*) where
  | call (pipeline : ι) (e : ExecutionId) (recorded : TelemetryCall) (now : Instant)
  | connect (accepted : Bool)
  | receive
  | send (sends : Bool)

section

variable {ι : Type*}

def Telemetry.step (s : Telemetry) : TelemetryEvent ι → Telemetry
  | .call _ e recorded now => s.call e recorded now
  | .connect accepted => s.connect accepted
  | .receive => s.receive
  | .send sends => s.send sends

def Telemetry.run (s : Telemetry) (events : List (TelemetryEvent ι)) : Telemetry :=
  events.foldl Telemetry.step s

variable [DecidableEq ι]

/-- The call of one pipeline. -/
def TelemetryEvent.callOf (i : ι) : TelemetryEvent ι → Option (ExecutionId × TelemetryCall)
  | .call j e recorded _ => if j = i then some (e, recorded) else none
  | _ => none

/-- The calls of one pipeline, in order. -/
def callsOf (i : ι) (events : List (TelemetryEvent ι)) : List (ExecutionId × TelemetryCall) :=
  events.filterMap (TelemetryEvent.callOf i)

/-- All pipelines have returned, their calls interleaved in any way with each other and with
the exporter, which met no error of its socket and has emptied its channel. -/
structure Drained (runs : ι → TelemetryRun) (events : List (TelemetryEvent ι)) : Prop where
  returned : ∀ i, callsOf i events = (runs i).telemetryCalls
  connected : (Telemetry.new.run events).exporter ≠ .returned
  drained : (Telemetry.new.run events).channel = []

/-- However the pipelines are interleaved, the registry is empty in the end. -/
def NeverLeaks (runs : ι → TelemetryRun) : Prop :=
  ∀ events, Drained runs events → ∀ e, (Telemetry.new.run events).registry e = none

/-! ## Calls of a history -/

theorem callsOf_append (i : ι) (before after : List (TelemetryEvent ι)) :
    callsOf i (before ++ after) = callsOf i before ++ callsOf i after :=
  List.filterMap_append

theorem callsOf_concat (i : ι) (events : List (TelemetryEvent ι)) (event : TelemetryEvent ι) :
    callsOf i (events ++ [event]) = callsOf i events ++ (event.callOf i).toList := by
  have hevent : callsOf i [event] = (event.callOf i).toList := by
    unfold callsOf
    rw [List.filterMap_cons]
    cases event.callOf i <;> rfl
  rw [callsOf_append, hevent]

theorem mem_callsOf_concat {i : ι} {events : List (TelemetryEvent ι)}
    {event : TelemetryEvent ι} {call : ExecutionId × TelemetryCall} :
    call ∈ callsOf i (events ++ [event])
      ↔ call ∈ callsOf i events ∨ event.callOf i = some call := by
  rw [callsOf_concat, List.mem_append, Option.mem_toList]

theorem callOf_self (i : ι) (e : ExecutionId) (recorded : TelemetryCall) (now : Instant) :
    (TelemetryEvent.call i e recorded now).callOf i = some (e, recorded) :=
  if_pos rfl

theorem callOf_eq_some {i j : ι} {e : ExecutionId} {recorded : TelemetryCall} {now : Instant}
    {call : ExecutionId × TelemetryCall}
    (h : (TelemetryEvent.call j e recorded now).callOf i = some call) :
    j = i ∧ call = (e, recorded) := by
  obtain ⟨hij, heq⟩ := Option.ite_none_right_eq_some.mp h
  exact ⟨hij, (Option.some.inj heq).symm⟩

theorem callOf_ne {i j : ι} (h : j ≠ i) (e : ExecutionId) (recorded : TelemetryCall)
    (now : Instant) : (TelemetryEvent.call j e recorded now).callOf i = none :=
  if_neg h

/-- Calls for one execution, none but the last of which is `finalize`. -/
structure Orderly (e : ExecutionId) (calls : List (ExecutionId × TelemetryCall)) : Prop where
  named : ∀ call ∈ calls, call.1 = e
  unfinished : ∀ call ∈ calls.dropLast, call.2 ≠ .finalize

theorem Orderly.of_prefix {e : ExecutionId} {calls calls' : List (ExecutionId × TelemetryCall)}
    (h : Orderly e calls) (hinitial : calls' <+: calls) : Orderly e calls' := by
  obtain ⟨rest, rfl⟩ := hinitial
  refine ⟨fun call hcall => h.named call (List.mem_append_left _ hcall), ?_⟩
  intro call hcall
  refine h.unfinished call ?_
  cases rest with
  | nil => rwa [List.append_nil]
  | cons c rest =>
      rw [List.dropLast_append_cons]
      exact List.mem_append_left _ (List.dropLast_subset _ hcall)

theorem TelemetryRun.orderly (run : TelemetryRun) :
    Orderly run.ctx.executionId run.telemetryCalls := by
  obtain ⟨records, -, hfinalize, hcalls⟩ := run.finalized
  rcases hcalls with ⟨-, hcalls⟩ | ⟨-, hcalls⟩
  · rw [hcalls]
    exact ⟨fun call hcall => (ne_finalize_of_mem_map hfinalize hcall).1,
      fun call hcall => (ne_finalize_of_mem_map hfinalize (List.dropLast_subset _ hcall)).2⟩
  · rw [hcalls]
    constructor
    · intro call hcall
      rcases List.mem_append.mp hcall with hcall | hcall
      · exact (ne_finalize_of_mem_map hfinalize hcall).1
      · rw [List.mem_singleton.mp hcall]
    · rw [List.dropLast_concat]
      exact fun call hcall => (ne_finalize_of_mem_map hfinalize hcall).2

/-! ## Entries that are left -/

/-- Calls that made an entry for the execution and have not finalized it. -/
structure Unfinished (e : ExecutionId) (calls : List (ExecutionId × TelemetryCall)) : Prop where
  recorded : ∃ recorded, (e, recorded) ∈ calls
  unfinished : ∀ call ∈ calls, call.2 ≠ .finalize

/-- As long as the exporter runs, every entry has its message in the channel or a pipeline
that has not finalized it. -/
def Accounted (s : Telemetry) (events : List (TelemetryEvent ι)) : Prop :=
  s.exporter ≠ .returned → ∀ e, s.registry e ≠ none →
    e ∈ s.channel ∨ ∃ i, Unfinished e (callsOf i events)

variable {s : Telemetry} {events : List (TelemetryEvent ι)} {i : ι} {e e' : ExecutionId}
  {recorded : TelemetryCall} {now : Instant}

/-- An unfinished entry stays so after anything but a `finalize`. -/
theorem Unfinished.concat (h : Unfinished e (callsOf i events)) {event : TelemetryEvent ι}
    (hevent : ∀ call, event.callOf i = some call → call.2 ≠ .finalize) :
    Unfinished e (callsOf i (events ++ [event])) := by
  refine ⟨h.recorded.imp fun _ hmem => mem_callsOf_concat.mpr (Or.inl hmem), ?_⟩
  intro call hcall
  exact (mem_callsOf_concat.mp hcall).elim (h.unfinished call) (hevent call)

/-- What is stored was recorded by a pipeline that goes on. -/
theorem Accounted.store (h : Accounted s events) (telemetry : PipelineTelemetry)
    (hunfinished : ∀ call ∈ callsOf i events, call.2 ≠ .finalize)
    (hrecorded : recorded ≠ .finalize) :
    Accounted (s.store e telemetry) (events ++ [.call i e recorded now]) := by
  have hevent : ∀ j call,
      (TelemetryEvent.call i e recorded now).callOf j = some call → call.2 ≠ .finalize := by
    intro j call hcall
    rw [(callOf_eq_some hcall).2]
    exact hrecorded
  intro hexporter e' he'
  by_cases heq : e' = e
  · subst heq
    refine Or.inr ⟨i, ⟨recorded, mem_callsOf_concat.mpr (Or.inr (callOf_self _ _ _ _))⟩, ?_⟩
    intro call hcall
    exact (mem_callsOf_concat.mp hcall).elim (hunfinished call) (hevent i call)
  · rw [Telemetry.registry_store, if_neg heq] at he'
    exact (h hexporter e' he').imp_right fun ⟨j, hj⟩ => ⟨j, hj.concat (hevent j)⟩

/-- A pipeline that finalizes has its message in the channel. -/
theorem Accounted.finalize (h : Accounted s events)
    (hnamed : ∀ call ∈ callsOf i events, call.1 = e) :
    Accounted (s.finalize e) (events ++ [.call i e .finalize now]) := by
  intro hexporter e' he'
  by_cases hreturned : s.exporter = .returned
  · rw [Telemetry.finalize_returned hreturned] at hexporter
    exact absurd hreturned hexporter
  · rw [Telemetry.finalize_running hreturned] at he' ⊢
    rcases h hreturned e' he' with hchannel | ⟨j, hj⟩
    · exact Or.inl (List.mem_append_left _ hchannel)
    · by_cases hij : i = j
      · -- the calls of the pipeline are all for the execution that is finalized
        subst hij
        obtain ⟨recorded, hrecorded⟩ := hj.recorded
        obtain rfl : e' = e := hnamed _ hrecorded
        exact Or.inl (List.mem_append_right _ (List.mem_singleton_self _))
      · refine Or.inr ⟨j, hj.concat ?_⟩
        rw [callOf_ne hij]
        exact fun call hcall => nomatch hcall

/-- A step of the exporter removes an entry with its message. -/
theorem Accounted.exporter (h : Accounted s events) {event : TelemetryEvent ι}
    (hevent : ∀ i, event.callOf i = none) (hstep : Telemetry.Exports s (s.step event)) :
    Accounted (s.step event) (events ++ [event]) := by
  intro hexporter e he
  refine (h (hstep.running hexporter) e (hstep.registry e he)).imp
    (hstep.channel hexporter e he) fun ⟨i, hi⟩ => ⟨i, hi.concat ?_⟩
  rw [hevent i]
  exact fun call hcall => nomatch hcall

theorem Accounted.step (h : Accounted s events) (event : TelemetryEvent ι)
    (horderly : ∀ i, ∃ e, Orderly e (callsOf i (events ++ [event]))) :
    Accounted (s.step event) (events ++ [event]) := by
  cases event with
  | call i e recorded now =>
      obtain ⟨e', hnamed, hunfinished⟩ := horderly i
      rw [callsOf_concat, callOf_self, Option.toList_some] at hnamed hunfinished
      rw [List.dropLast_concat] at hunfinished
      obtain rfl : e = e' :=
        hnamed (e, recorded) (List.mem_append_right _ (List.mem_singleton_self _))
      cases recorded with
      | recordStart => exact h.store _ hunfinished nofun
      | recordStage stage => exact h.store _ hunfinished nofun
      | finalize => exact h.finalize fun call hcall => hnamed call (List.mem_append_left _ hcall)
  | connect accepted => exact h.exporter (fun _ => rfl) (Telemetry.exports_connect accepted)
  | receive => exact h.exporter (fun _ => rfl) Telemetry.exports_receive
  | send sends => exact h.exporter (fun _ => rfl) (Telemetry.exports_send sends)

/-- The run lemma: so far as every pipeline keeps to its order, its entries are accounted
for. -/
theorem accounted_run (events : List (TelemetryEvent ι))
    (horderly : ∀ i, ∃ e, Orderly e (callsOf i events)) :
    Accounted (Telemetry.new.run events) events := by
  induction events using List.reverseRecOn with
  | nil => exact fun _ e he => absurd rfl he
  | append_singleton events event ih =>
      have hbefore : ∀ i, ∃ e, Orderly e (callsOf i events) := by
        intro i
        obtain ⟨e, he⟩ := horderly i
        rw [callsOf_append] at he
        exact ⟨e, he.of_prefix (List.prefix_append _ _)⟩
      unfold Telemetry.run
      rw [List.foldl_append]
      exact (ih hbefore).step event horderly

/-- An execution no pipeline has finalized has no message, and keeps its entry. -/
structure Kept (s : Telemetry) (events : List (TelemetryEvent ι)) (e : ExecutionId) : Prop where
  channel : e ∉ s.channel
  registry : ∀ i recorded, (e, recorded) ∈ callsOf i events → s.registry e ≠ none

theorem Kept.step (h : Kept s events e) (event : TelemetryEvent ι)
    (hunfinished : ∀ i, (e, TelemetryCall.finalize) ∉ callsOf i (events ++ [event])) :
    Kept (s.step event) (events ++ [event]) e := by
  have hexporter : (∀ i, event.callOf i = none) → Telemetry.Exports s (s.step event) →
      Kept (s.step event) (events ++ [event]) e := by
    intro hevent hstep
    obtain ⟨hchannel, hregistry⟩ := hstep.kept e h.channel
    refine ⟨hchannel, fun i recorded hmem => ?_⟩
    rw [mem_callsOf_concat, hevent i] at hmem
    rw [hregistry]
    exact h.registry i recorded (hmem.resolve_right nofun)
  cases event with
  | call j e' recorded now =>
      by_cases hrecorded : recorded = .finalize
      · subst hrecorded
        have hne : e ≠ e' := by
          rintro rfl
          exact hunfinished j (mem_callsOf_concat.mpr (Or.inr (callOf_self _ _ _ _)))
        have hfinalize : e ∉ (s.finalize e').channel
            ∧ (s.finalize e').registry = s.registry := by
          by_cases hreturned : s.exporter = .returned
          · rw [Telemetry.finalize_returned hreturned]
            exact ⟨h.channel, rfl⟩
          · rw [Telemetry.finalize_running hreturned]
            refine ⟨fun hmem => ?_, rfl⟩
            rcases List.mem_append.mp hmem with hmem | hmem
            · exact h.channel hmem
            · exact hne (List.mem_singleton.mp hmem)
        refine ⟨hfinalize.1, fun i recorded hmem => ?_⟩
        have hbefore := (mem_callsOf_concat.mp hmem).resolve_right
          fun hcall => hne (congrArg Prod.fst (callOf_eq_some hcall).2)
        exact hfinalize.2 ▸ h.registry i recorded hbefore
      · obtain ⟨telemetry, hstore⟩ := s.call_eq_store e' hrecorded now
        have hstep : s.step (.call j e' recorded now) = s.store e' telemetry := hstore
        rw [hstep]
        refine ⟨h.channel, fun i recorded' hmem => Telemetry.store_registry_ne_none ?_⟩
        exact (mem_callsOf_concat.mp hmem).symm.imp
          (fun hcall => congrArg Prod.fst (callOf_eq_some hcall).2) (h.registry i recorded')
  | connect accepted => exact hexporter (fun _ => rfl) (Telemetry.exports_connect accepted)
  | receive => exact hexporter (fun _ => rfl) Telemetry.exports_receive
  | send sends => exact hexporter (fun _ => rfl) (Telemetry.exports_send sends)

/-- The run lemma. -/
theorem kept_run (events : List (TelemetryEvent ι)) (e : ExecutionId)
    (hunfinished : ∀ i, (e, TelemetryCall.finalize) ∉ callsOf i events) :
    Kept (Telemetry.new.run events) events e := by
  induction events using List.reverseRecOn with
  | nil => exact ⟨List.not_mem_nil, fun _ _ hmem => nomatch hmem⟩
  | append_singleton events event ih =>
      have hbefore : ∀ i, (e, TelemetryCall.finalize) ∉ callsOf i events := by
        intro i hmem
        refine hunfinished i ?_
        rw [callsOf_append]
        exact List.mem_append_left _ hmem
      unfold Telemetry.run
      rw [List.foldl_append]
      exact (ih hbefore).step event hunfinished

end

/-! ## One pipeline after the other -/

section

variable {ι : Type*}

/-- The calls of a pipeline, one after the other. -/
def callEvents (i : ι) (calls : List (ExecutionId × TelemetryCall)) : List (TelemetryEvent ι) :=
  calls.map fun call => .call i call.1 call.2 0

/-- The exporter takes every message, and the socket every record. -/
def pump : ℕ → List (TelemetryEvent ι)
  | 0 => []
  | n + 1 => .receive :: .send true :: pump n

namespace Telemetry

theorem run_append (s : Telemetry) (before after : List (TelemetryEvent ι)) :
    s.run (before ++ after) = (s.run before).run after :=
  List.foldl_append

theorem exporter_call (s : Telemetry) (e : ExecutionId) (recorded : TelemetryCall)
    (now : Instant) : (s.call e recorded now).exporter = s.exporter := by
  cases recorded with
  | recordStart => rfl
  | recordStage stage => rfl
  | finalize =>
      rw [call, finalize]
      split <;> rfl

theorem exporter_callEvents (s : Telemetry) (i : ι)
    (calls : List (ExecutionId × TelemetryCall)) :
    (s.run (callEvents i calls)).exporter = s.exporter := by
  induction calls generalizing s with
  | nil => rfl
  | cons call calls ih => exact (ih _).trans (exporter_call s _ _ _)

theorem exporter_flatMap (s : Telemetry) (calls : ι → List (ExecutionId × TelemetryCall))
    (others : List ι) :
    (s.run (others.flatMap fun j => callEvents j (calls j))).exporter = s.exporter := by
  induction others generalizing s with
  | nil => rfl
  | cons j others ih =>
      rw [List.flatMap_cons, run_append, ih]
      exact exporter_callEvents s j _

/-- A message is taken and its record sent. -/
theorem receive_send {s : Telemetry} {e : ExecutionId} {channel : List ExecutionId}
    (hreceiving : s.exporter = .receiving) (hchannel : s.channel = e :: channel) :
    (s.receive.send true).exporter = .receiving ∧ (s.receive.send true).channel = channel := by
  obtain ⟨registry, _, _, sent⟩ := s
  subst hreceiving hchannel
  unfold receive
  dsimp only
  split
  · exact ⟨rfl, rfl⟩
  · exact ⟨rfl, rfl⟩

theorem run_pump {s : Telemetry} (hreceiving : s.exporter = .receiving) :
    (s.run (pump s.channel.length : List (TelemetryEvent ι))).exporter = .receiving
      ∧ (s.run (pump s.channel.length : List (TelemetryEvent ι))).channel = [] := by
  generalize hchannel : s.channel = channel
  induction channel generalizing s with
  | nil => exact ⟨hreceiving, hchannel⟩
  | cons e channel ih =>
      obtain ⟨hexporter, hrest⟩ := receive_send hreceiving hchannel
      exact ih hexporter hrest

/-- Calls that finalize nothing send no message, and leave an entry each. -/
theorem run_callEvents {s : Telemetry} (i : ι) {calls : List (ExecutionId × TelemetryCall)}
    (hunfinished : ∀ call ∈ calls, call.2 ≠ .finalize) :
    (s.run (callEvents i calls)).channel = s.channel
      ∧ ∀ e, s.registry e ≠ none ∨ (∃ recorded, (e, recorded) ∈ calls) →
        (s.run (callEvents i calls)).registry e ≠ none := by
  induction calls generalizing s with
  | nil => exact ⟨rfl, fun e he => he.resolve_right fun ⟨_, hmem⟩ => nomatch hmem⟩
  | cons call calls ih =>
      obtain ⟨e, recorded⟩ := call
      obtain ⟨telemetry, hstore⟩ :=
        s.call_eq_store e (hunfinished (e, recorded) List.mem_cons_self) 0
      have hrun : s.run (callEvents i ((e, recorded) :: calls))
          = (s.store e telemetry).run (callEvents i calls) :=
        congrArg (·.run (callEvents i calls)) hstore
      obtain ⟨hchannel, hregistry⟩ :=
        ih fun call hcall => hunfinished call (List.mem_cons_of_mem _ hcall)
      rw [hrun]
      refine ⟨hchannel, fun e' he' => hregistry e' ?_⟩
      rcases he' with he' | ⟨recorded', hmem⟩
      · exact Or.inl (store_registry_ne_none (Or.inr he'))
      · rcases List.mem_cons.mp hmem with heq | hmem
        · exact Or.inl (store_registry_ne_none (Or.inl (congrArg Prod.fst heq)))
        · exact Or.inr ⟨recorded', hmem⟩

end Telemetry

end

section

variable {ι : Type*} [DecidableEq ι]

theorem callsOf_callEvents_self (i : ι) (calls : List (ExecutionId × TelemetryCall)) :
    callsOf i (callEvents i calls) = calls := by
  unfold callsOf callEvents
  rw [List.filterMap_map]
  refine (List.filterMap_congr fun call _ => ?_).trans List.filterMap_some
  exact callOf_self i call.1 call.2 0

theorem callsOf_callEvents_ne {i j : ι} (h : j ≠ i)
    (calls : List (ExecutionId × TelemetryCall)) : callsOf i (callEvents j calls) = [] := by
  unfold callsOf callEvents
  rw [List.filterMap_map, List.filterMap_eq_nil_iff]
  exact fun call _ => callOf_ne h call.1 call.2 0

theorem callsOf_pump (i : ι) (n : ℕ) : callsOf i (pump n) = [] := by
  induction n with
  | zero => rfl
  | succ n ih => exact ih

theorem callsOf_flatMap (calls : ι → List (ExecutionId × TelemetryCall)) {others : List ι}
    (hnodup : others.Nodup) (i : ι) :
    callsOf i (others.flatMap fun j => callEvents j (calls j))
      = if i ∈ others then calls i else [] := by
  induction others with
  | nil => rfl
  | cons j others ih =>
      obtain ⟨hj, hnodup⟩ := List.nodup_cons.mp hnodup
      rw [List.flatMap_cons, callsOf_append, ih hnodup]
      by_cases hij : i = j
      · subst hij
        rw [callsOf_callEvents_self, if_neg hj, if_pos List.mem_cons_self, List.append_nil]
      · rw [callsOf_callEvents_ne (Ne.symm hij), List.nil_append]
        refine if_congr ?_ rfl rfl
        rw [List.mem_cons, or_iff_right hij]

/-- All pipelines but one, one after the other. -/
theorem callsOf_others [Fintype ι] (calls : ι → List (ExecutionId × TelemetryCall)) (i j : ι) :
    callsOf j ((Finset.univ.erase i).toList.flatMap fun j => callEvents j (calls j))
      = if j = i then [] else calls j := by
  rw [callsOf_flatMap calls (Finset.nodup_toList _)]
  by_cases hij : j = i
  · rw [if_pos hij, if_neg]
    rw [hij, Finset.mem_toList]
    exact Finset.notMem_erase i _
  · rw [if_neg hij, if_pos]
    rw [Finset.mem_toList, Finset.mem_erase]
    exact ⟨hij, Finset.mem_univ j⟩

/-! ## Which histories leak -/

/-- Every set of pipelines has a history in which the others come first.  If the last one got
no hash, it sends no message and leaves its entry. -/
theorem exists_drained [Fintype ι] (runs : ι → TelemetryRun) (i : ι) :
    ∃ events, Drained runs events ∧ (¬ (runs i).Broadcasts →
      (Telemetry.new.run events).registry (runs i).ctx.executionId ≠ none) := by
  let calls := fun j => (runs j).telemetryCalls
  let others := (Finset.univ.erase i).toList
  let before := TelemetryEvent.connect true :: others.flatMap fun j => callEvents j (calls j)
  let s := Telemetry.new.run before
  have hreceiving : s.exporter = .receiving :=
    Telemetry.exporter_flatMap (Telemetry.new.connect true) calls others
  let pumped := s.run (pump s.channel.length : List (TelemetryEvent ι))
  obtain ⟨hpumped, hchannel⟩ : pumped.exporter = .receiving ∧ pumped.channel = [] :=
    Telemetry.run_pump hreceiving
  let last := pumped.run (callEvents i (calls i))
  have hlast : last.exporter = .receiving :=
    (Telemetry.exporter_callEvents pumped i (calls i)).trans hpumped
  obtain ⟨hend, hdrained⟩ :
      (last.run (pump last.channel.length : List (TelemetryEvent ι))).exporter = .receiving
        ∧ (last.run (pump last.channel.length : List (TelemetryEvent ι))).channel = [] :=
    Telemetry.run_pump hlast
  have hrun : Telemetry.new.run (before ++ pump s.channel.length ++ callEvents i (calls i)
      ++ pump last.channel.length)
        = last.run (pump last.channel.length : List (TelemetryEvent ι)) := by
    rw [Telemetry.run_append, Telemetry.run_append, Telemetry.run_append]
  refine ⟨before ++ pump s.channel.length ++ callEvents i (calls i)
    ++ pump last.channel.length, ⟨?_, ?_, ?_⟩, ?_⟩
  · intro j
    have hothers : callsOf j before = if j = i then [] else calls j := callsOf_others calls i j
    rw [callsOf_append, callsOf_append, callsOf_append, callsOf_pump, callsOf_pump,
      List.append_nil, List.append_nil, hothers]
    by_cases hij : j = i
    · rw [if_pos hij, hij, callsOf_callEvents_self, List.nil_append]
    · rw [if_neg hij, callsOf_callEvents_ne (Ne.symm hij), List.append_nil]
  · rw [hrun, hend]
    exact nofun
  · rw [hrun, hdrained]
  · intro hbroadcasts
    obtain ⟨hsame, hregistry⟩ :=
      Telemetry.run_callEvents (s := pumped) i ((runs i).unfinished hbroadcasts)
    have hempty : last.channel = [] := hsame.trans hchannel
    rw [hrun, hempty]
    exact hregistry _ (Or.inr ⟨_, (runs i).recordStart_mem⟩)

/-- What is left in the end belongs to a pipeline that got no hash. -/
theorem Drained.exists_unfinished {runs : ι → TelemetryRun} (h : Drained runs events)
    (he : (Telemetry.new.run events).registry e ≠ none) :
    ∃ i, (runs i).ctx.executionId = e ∧ ¬ (runs i).Broadcasts := by
  have horderly : ∀ i, ∃ e, Orderly e (callsOf i events) := by
    intro i
    rw [h.returned i]
    exact ⟨_, (runs i).orderly⟩
  rcases accounted_run events horderly h.connected e he with hchannel | ⟨i, hi⟩
  · rw [h.drained] at hchannel
    cases hchannel
  · rw [h.returned i] at hi
    obtain ⟨recorded, hrecorded⟩ := hi.recorded
    refine ⟨i, ((runs i).orderly.named _ hrecorded).symm, fun hbroadcasts => ?_⟩
    -- the last call of the pipeline would be `finalize`
    have hpos : 0 < (runs i).telemetryCalls.count ((runs i).ctx.executionId, .finalize) := by
      rw [(runs i).count_finalize.mpr hbroadcasts]
      exact zero_lt_one
    exact hi.unfinished _ (List.count_pos_iff.mp hpos) rfl

/-- The entries that are left, when no two pipelines are for one execution: those of the
pipelines that got no hash. -/
theorem Drained.registry_iff {runs : ι → TelemetryRun} (h : Drained runs events)
    (hids : Function.Injective fun i => (runs i).ctx.executionId) (i : ι) :
    (Telemetry.new.run events).registry (runs i).ctx.executionId ≠ none
      ↔ ¬ (runs i).Broadcasts := by
  constructor
  · intro he
    obtain ⟨j, hj, hbroadcasts⟩ := h.exists_unfinished he
    rwa [← hids hj]
  · intro hbroadcasts
    refine (kept_run events _ fun j hfinalized => ?_).registry i .recordStart ?_
    · rw [h.returned j] at hfinalized
      obtain rfl : i = j := hids ((runs j).orderly.named _ hfinalized)
      exact (runs i).unfinished hbroadcasts _ hfinalized rfl
    · rw [h.returned i]
      exact (runs i).recordStart_mem

/-- **When telemetry does not leak**: the registry is empty in the end of every history
exactly when in every pipeline one of the broadcasts is answered with a hash; and exactly such
a pipeline is finalized once. -/
theorem neverLeaks_iff [Fintype ι] (runs : ι → TelemetryRun) :
    (NeverLeaks runs ↔ ∀ i, (runs i).Broadcasts)
      ∧ ∀ i, (runs i).telemetryCalls.count ((runs i).ctx.executionId, .finalize) = 1
        ↔ (runs i).Broadcasts := by
  refine ⟨⟨fun h i => ?_, fun h events hdrained e => ?_⟩, fun i => (runs i).count_finalize⟩
  · by_contra hbroadcasts
    obtain ⟨events, hdrained, he⟩ := exists_drained runs i
    exact he hbroadcasts (h events hdrained _)
  · by_contra he
    obtain ⟨i, -, hbroadcasts⟩ := hdrained.exists_unfinished he
    exact hbroadcasts (h i)

end

/-! ## A pipeline that leaks -/

/-- A submission with the default retries. -/
def recordedContext : PipelineContext where
  executionId := ⟨1⟩
  clientConfig := ⟨1, ⟨List.replicate 20 0, rfl⟩⟩
  txn :=
    { chainId := ⟨1⟩
      nonce := ⟨0⟩
      maxPriorityFeePerGas := 0
      maxFeePerGas := 0
      gasLimit := 0
      toAddress := none
      value := 0
      data := []
      accessList := [] }
  retryConfig := .default
  telemetry := true

def refused : RelayHostError := .validationFailed "gas limit is zero"

/-- A relay host that refuses every transaction, and a generator that draws zero. -/
def refusedReply : (c : PipelineCall) → Unit → Option (c.Reply × Unit)
  | .registerTransaction _ _ _, _ => some (.error refused, ())
  | .setStatus _ _, _ | .telemetry _ _, _ | .sleep _, _ => some ((), ())
  | .genRange _, _ => some (0, ())
  | _, _ => none

def refusedRegistration : Entry PipelineCall PipelineCall.Reply Unit :=
  ⟨.registerTransaction ⟨1⟩ recordedContext.txn recordedContext.clientConfig, .error refused, ()⟩

/-- All three attempts to register the transaction fail. -/
def unregistered : TelemetryRun where
  ctx := recordedContext
  log :=
    [⟨.setStatus ⟨1⟩ (CortexError.relayHost refused).status, (), ()⟩, refusedRegistration,
      ⟨.sleep (.fromMillis 0), (), ()⟩, ⟨.genRange 100, (0 : UInt64), ()⟩, refusedRegistration,
      ⟨.sleep (.fromMillis 0), (), ()⟩, ⟨.genRange 50, (0 : UInt64), ()⟩, refusedRegistration,
      ⟨.telemetry ⟨1⟩ .recordStart, (), ()⟩]
  enabled := rfl
  returned :=
    have hrun : (runPipeline recordedContext).follow refusedReply 9 () = some (_, .ret (), ()) :=
      rfl
    reaches_of_follow (fun _ _ _ _ _ => trivial) hrun

/-- Its entry is left in the registry. -/
theorem unregistered_leaks : ¬ NeverLeaks fun _ : Unit => unregistered := by
  intro hempty
  have hdrained : Drained (fun _ : Unit => unregistered)
      [.call () ⟨1⟩ .recordStart 0, .connect true] :=
    ⟨fun ⟨⟩ => rfl, nofun, rfl⟩
  exact absurd (hempty _ hdrained ⟨1⟩) (by decide)

end Lobby
