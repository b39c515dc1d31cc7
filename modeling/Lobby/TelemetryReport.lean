/-
# From the pipelines to the report

The calls of the pipelines, interleaved with each other and with the exporter, the records that
it sends over its socket, and the reader of the benchmark at the other end.

Every record that is begun stands for one pipeline that got a hash, and has the moments of the
calls of this pipeline (`Exported`).  So the report counts no pipeline twice and none without a
hash, and in the end all the others (`telemetry_reported`).
-/
import Lobby.ApiKeys
import Lobby.MetricsCollector

namespace Lobby

open Interaction

/-! ## The moments of a pipeline -/

/-- The moments after one more call. -/
def PipelineTelemetry.add (telemetry : PipelineTelemetry) (now : Instant) :
    TelemetryCall → PipelineTelemetry
  | .recordStart => { telemetry with start := some now }
  | .recordStage .relayHost => { telemetry with relayhost := some now }
  | .recordStage .nonce => { telemetry with nonce := some now }
  | .recordStage .sign => { telemetry with sign := some now }
  | .recordStage .broadcast => { telemetry with broadcast := some now }
  | .finalize => telemetry

theorem Telemetry.call_eq_add (s : Telemetry) (e : ExecutionId) {recorded : TelemetryCall}
    (h : recorded ≠ .finalize) (now : Instant) :
    s.call e recorded now = s.store e ((s.entry e).add now recorded) := by
  cases recorded with
  | recordStart => rfl
  | recordStage stage => cases stage <;> rfl
  | finalize => exact absurd rfl h

theorem Telemetry.entry_store (s : Telemetry) (e e' : ExecutionId)
    (telemetry : PipelineTelemetry) :
    (s.store e telemetry).entry e' = if e' = e then telemetry else s.entry e' := by
  rw [Telemetry.entry, Telemetry.registry_store]
  by_cases heq : e' = e
  · rw [if_pos heq, if_pos heq, Option.getD_some]
  · rw [if_neg heq, if_neg heq, Telemetry.entry]

section

variable {ι : Type*}

/-- What an event adds to the moments of an execution. -/
def TelemetryEvent.addTo (e : ExecutionId) (telemetry : PipelineTelemetry) :
    TelemetryEvent ι → PipelineTelemetry
  | .call _ e' recorded now => if e' = e then telemetry.add now recorded else telemetry
  | _ => telemetry

/-- The moments of an execution, by the calls of a history. -/
def momentsOf (e : ExecutionId) (events : List (TelemetryEvent ι)) : PipelineTelemetry :=
  events.foldl (TelemetryEvent.addTo e) .default

theorem momentsOf_concat (e : ExecutionId) (events : List (TelemetryEvent ι))
    (event : TelemetryEvent ι) :
    momentsOf e (events ++ [event]) = event.addTo e (momentsOf e events) :=
  List.foldl_concat ..

/-! ## The records that are begun -/

/-- The record that the exporter begins to send. -/
def Telemetry.begins (s : Telemetry) : TelemetryEvent ι → Option LatencyRecord
  | .receive =>
    match s.exporter, s.channel with
    | .receiving, e :: _ => (s.registry e).map fun telemetry => telemetry.latencyRecord e
    | _, _ => none
  | _ => none

/-- What the next message does: it becomes a record, or it is dropped, or there is none. -/
theorem Telemetry.receive_cases (s : Telemetry) :
    (∃ e channel telemetry, s.exporter = .receiving ∧ s.channel = e :: channel
      ∧ s.registry e = some telemetry
      ∧ s.receive = { s with
          registry := Function.update s.registry e none
          channel := channel
          exporter := .sending (telemetry.latencyRecord e) }
      ∧ s.begins (.receive : TelemetryEvent ι) = some (telemetry.latencyRecord e))
    ∨ (∃ e channel, s.exporter = .receiving ∧ s.channel = e :: channel ∧ s.registry e = none
      ∧ s.receive = { s with channel := channel }
      ∧ s.begins (.receive : TelemetryEvent ι) = none)
    ∨ s.receive = s ∧ s.begins (.receive : TelemetryEvent ι) = none := by
  obtain ⟨registry, channel, exporter, sent⟩ := s
  cases exporter with
  | connecting => exact Or.inr (Or.inr ⟨rfl, rfl⟩)
  | sending record => exact Or.inr (Or.inr ⟨rfl, rfl⟩)
  | returned => exact Or.inr (Or.inr ⟨rfl, rfl⟩)
  | receiving =>
      cases channel with
      | nil => exact Or.inr (Or.inr ⟨rfl, rfl⟩)
      | cons e channel =>
          cases hregistry : registry e with
          | none =>
              exact Or.inr (Or.inl ⟨e, channel, rfl, rfl, hregistry,
                by simp [Telemetry.receive, hregistry], by simp [Telemetry.begins, hregistry]⟩)
          | some telemetry =>
              exact Or.inl ⟨e, channel, telemetry, rfl, rfl, hregistry,
                by simp [Telemetry.receive, hregistry], by simp [Telemetry.begins, hregistry]⟩

/-- The records that the exporter begins to send in a history.  The socket takes them all,
but for the last one, of which it may take a part or nothing. -/
def Telemetry.begun (s : Telemetry) : List (TelemetryEvent ι) → List LatencyRecord
  | [] => []
  | event :: events => (s.begins event).toList ++ (s.step event).begun events

theorem Telemetry.begun_concat (s : Telemetry) (events : List (TelemetryEvent ι))
    (event : TelemetryEvent ι) :
    s.begun (events ++ [event]) = s.begun events ++ ((s.run events).begins event).toList := by
  induction events generalizing s with
  | nil => simp [Telemetry.begun, Telemetry.run]
  | cons first events ih =>
      rw [List.cons_append, Telemetry.begun, Telemetry.begun, ih, List.append_assoc]
      rfl

theorem Telemetry.begun_concat_of_none {s : Telemetry} {events : List (TelemetryEvent ι)}
    {event : TelemetryEvent ι} (h : (s.run events).begins event = none) :
    s.begun (events ++ [event]) = s.begun events := by
  rw [Telemetry.begun_concat, h, Option.toList_none, List.append_nil]

/-- What is begun and not sent. -/
def ExporterState.Unsent : ExporterState → List LatencyRecord → Prop
  | .sending record, unsent => unsent = [record]
  | .returned, unsent => unsent.length ≤ 1
  | _, unsent => unsent = []

theorem ExporterState.Unsent.length_le {exporter : ExporterState} {unsent : List LatencyRecord}
    (h : exporter.Unsent unsent) : unsent.length ≤ 1 := by
  cases exporter with
  | connecting => simp [show unsent = [] from h]
  | receiving => simp [show unsent = [] from h]
  | sending record => simp [show unsent = [record] from h]
  | returned => exact h

/-- The step lemma. -/
theorem ExporterState.Unsent.step {s : Telemetry} {unsent : List LatencyRecord}
    (h : s.exporter.Unsent unsent) (event : TelemetryEvent ι) :
    ∃ unsent', s.sent ++ unsent ++ (s.begins event).toList = (s.step event).sent ++ unsent'
      ∧ (s.step event).exporter.Unsent unsent' := by
  have hle := h.length_le
  cases event with
  | call i e recorded now =>
      -- a call of a pipeline sends nothing
      have hsent : (s.call e recorded now).sent = s.sent := by
        cases recorded with
        | recordStart => rfl
        | recordStage stage => rfl
        | finalize =>
            rw [Telemetry.call, Telemetry.finalize]
            split <;> rfl
      refine ⟨unsent, ?_, ?_⟩
      · exact (List.append_nil _).trans (congrArg (· ++ unsent) hsent.symm)
      · exact (Telemetry.exporter_call s e recorded now).symm ▸ h
  | connect accepted =>
      have hbegins : s.begins (.connect accepted : TelemetryEvent ι) = none := rfl
      rw [hbegins, Option.toList_none, List.append_nil, Telemetry.step, Telemetry.connect]
      split
      · case h_1 hconnecting =>
          rw [hconnecting] at h
          split
          · exact ⟨unsent, rfl, h⟩
          · exact ⟨unsent, rfl, hle⟩
      · exact ⟨unsent, rfl, h⟩
  | receive =>
      rw [Telemetry.step]
      rcases @Telemetry.receive_cases ι s with
        ⟨e, channel, telemetry, hreceiving, -, -, hreceive, hbegins⟩
        | ⟨e, channel, hreceiving, -, -, hreceive, hbegins⟩ | ⟨hreceive, hbegins⟩
      · rw [hreceiving] at h
        obtain rfl : unsent = [] := h
        rw [hreceive, hbegins, List.append_nil]
        exact ⟨_, rfl, rfl⟩
      · rw [hreceive, hbegins, Option.toList_none, List.append_nil]
        exact ⟨unsent, rfl, h⟩
      · rw [hreceive, hbegins, Option.toList_none, List.append_nil]
        exact ⟨unsent, rfl, h⟩
  | send sends =>
      have hbegins : s.begins (.send sends : TelemetryEvent ι) = none := rfl
      rw [hbegins, Option.toList_none, List.append_nil, Telemetry.step, Telemetry.send]
      split
      · case h_1 record hsending =>
          rw [hsending] at h
          -- the record that waits is sent, or waits on
          obtain rfl : unsent = [record] := h
          split
          · exact ⟨[], by simp, rfl⟩
          · exact ⟨[record], rfl, hle⟩
      · exact ⟨unsent, rfl, h⟩

/-- The run lemma: what the socket took are the first records that were begun. -/
theorem exists_unsent (events : List (TelemetryEvent ι)) :
    ∃ unsent, Telemetry.new.begun events = (Telemetry.new.run events).sent ++ unsent
      ∧ (Telemetry.new.run events).exporter.Unsent unsent := by
  induction events using List.reverseRecOn with
  | nil => exact ⟨[], rfl, rfl⟩
  | append_singleton events event ih =>
      obtain ⟨unsent, hbegun, hunsent⟩ := ih
      obtain ⟨unsent', hsent, hunsent'⟩ := hunsent.step event
      rw [Telemetry.begun_concat, Telemetry.run_append, hbegun]
      exact ⟨unsent', hsent, hunsent'⟩

/-! ## What a record stands for -/

variable [DecidableEq ι]

/-- The executions whose records were begun, in that order, after a history: each was finalized
and its record has its moments, and so it will be for the messages in the channel. -/
structure Exported (s : Telemetry) (begun : List LatencyRecord)
    (events : List (TelemetryEvent ι)) (ids : List ExecutionId) : Prop where
  begun_eq : begun = ids.map fun e => (momentsOf e events).latencyRecord e
  nodup : (ids ++ s.channel).Nodup
  finalized : ∀ e ∈ ids ++ s.channel, ∃ i, (e, TelemetryCall.finalize) ∈ callsOf i events
  entry : ∀ e ∉ ids, s.entry e = momentsOf e events
  present : ∀ e ∈ s.channel, s.registry e ≠ none
  queued : s.exporter ≠ .returned → ∀ i e, (e, TelemetryCall.finalize) ∈ callsOf i events →
    e ∈ ids ++ s.channel

variable {s : Telemetry} {begun : List LatencyRecord} {events : List (TelemetryEvent ι)}
  {ids : List ExecutionId} {i : ι} {e : ExecutionId} {recorded : TelemetryCall} {now : Instant}

/-- An event of the exporter is no call. -/
theorem Exported.aside (h : Exported s begun events ids) {event : TelemetryEvent ι}
    (hcalls : ∀ i, event.callOf i = none) (hmoments : ∀ e t, event.addTo e t = t) :
    Exported s begun (events ++ [event]) ids := by
  have hsame : ∀ i, callsOf i (events ++ [event]) = callsOf i events := by
    intro i
    rw [callsOf_concat, hcalls, Option.toList_none, List.append_nil]
  have hkept : ∀ e, momentsOf e (events ++ [event]) = momentsOf e events := fun e =>
    (momentsOf_concat e events event).trans (hmoments e _)
  refine ⟨?_, h.nodup, ?_, ?_, h.present, ?_⟩
  · simpa only [hkept] using h.begun_eq
  · simpa only [hsame] using h.finalized
  · simpa only [hkept] using h.entry
  · simpa only [hsame] using h.queued

/-- The messages stay in the channel, or all are lost. -/
theorem Exported.of_registry (h : Exported s begun events ids) {s' : Telemetry}
    (hregistry : s'.registry = s.registry)
    (hchannel : s'.channel = s.channel ∨ s'.channel = [] ∧ s'.exporter = .returned)
    (hrunning : s'.exporter ≠ .returned → s.exporter ≠ .returned) :
    Exported s' begun events ids := by
  have hsublist : s'.channel.Sublist s.channel := by
    rcases hchannel with hsame | ⟨hempty, -⟩
    · rw [hsame]
    · rw [hempty]
      exact List.nil_sublist _
  have hall : (ids ++ s'.channel).Sublist (ids ++ s.channel) :=
    (List.Sublist.refl ids).append hsublist
  refine ⟨h.begun_eq, h.nodup.sublist hall, fun e he => h.finalized e (hall.subset he), ?_, ?_, ?_⟩
  · intro e he
    rw [Telemetry.entry, hregistry]
    exact h.entry e he
  · rw [hregistry]
    exact fun e he => h.present e (hsublist.subset he)
  · intro hexporter j e hmem
    rcases hchannel with hsame | ⟨-, hreturned⟩
    · rw [hsame]
      exact h.queued (hrunning hexporter) j e hmem
    · exact absurd hreturned hexporter

theorem Exported.connect (h : Exported s begun events ids) (accepted : Bool) :
    Exported (s.connect accepted) begun events ids := by
  unfold Telemetry.connect
  split
  · case h_1 hconnecting =>
      have hrunning : s.exporter ≠ .returned := by simp [hconnecting]
      split
      · exact h.of_registry rfl (Or.inl rfl) fun _ => hrunning
      · exact h.of_registry rfl (Or.inr ⟨rfl, rfl⟩) fun _ => hrunning
  · exact h

theorem Exported.send (h : Exported s begun events ids) (sends : Bool) :
    Exported (s.send sends) begun events ids := by
  unfold Telemetry.send
  split
  · case h_1 record hsending =>
      have hrunning : s.exporter ≠ .returned := by simp [hsending]
      split
      · exact h.of_registry rfl (Or.inl rfl) fun _ => hrunning
      · exact h.of_registry rfl (Or.inr ⟨rfl, rfl⟩) fun _ => hrunning
  · exact h

/-- The next message becomes a record. -/
theorem Exported.receive (h : Exported s begun events ids) :
    ∃ ids', Exported s.receive (begun ++ (s.begins (.receive : TelemetryEvent ι)).toList)
      events ids' := by
  rcases @Telemetry.receive_cases ι s with
    ⟨e, channel, telemetry, hreceiving, hchannel, hregistry, hreceive, hbegins⟩
    | ⟨e, channel, -, hchannel, hregistry, -, -⟩ | ⟨hreceive, hbegins⟩
  · have hrunning : s.exporter ≠ .returned := by simp [hreceiving]
    obtain ⟨hbegun, hnodup, hfinalized, hentry, hpresent, hqueued⟩ := h
    rw [hchannel, List.append_cons] at hnodup hfinalized
    rw [hchannel] at hpresent
    obtain ⟨hids, -, hdisjoint⟩ := List.nodup_append.mp hnodup
    have hnew : e ∉ ids := fun hmem =>
      (List.nodup_append.mp hids).2.2 e hmem e (List.mem_singleton_self e) rfl
    have hmoments : telemetry = momentsOf e events := by
      rw [← hentry e hnew, Telemetry.entry, hregistry, Option.getD_some]
    rw [hreceive, hbegins]
    refine ⟨ids ++ [e], ?_, hnodup, hfinalized, ?_, ?_, ?_⟩
    · rw [hbegun, List.map_append, hmoments]
      rfl
    · intro e' he'
      rw [List.mem_append, not_or, List.mem_singleton] at he'
      rw [← hentry e' he'.1, Telemetry.entry, Telemetry.entry]
      dsimp only
      rw [Function.update_of_ne he'.2]
    · intro e' he'
      have hne : e' ≠ e := fun heq =>
        hdisjoint e (List.mem_append_right _ (List.mem_singleton_self e)) e' he' heq.symm
      dsimp only
      rw [Function.update_of_ne hne]
      exact hpresent e' (List.mem_cons_of_mem _ he')
    · intro _ j e' hmem
      have hmem' := hqueued hrunning j e' hmem
      rwa [hchannel, List.append_cons] at hmem'
  · exact absurd hregistry (h.present e (hchannel ▸ List.mem_cons_self))
  · rw [hreceive, hbegins, Option.toList_none, List.append_nil]
    exact ⟨ids, h⟩

/-- A call that records a moment. -/
theorem Exported.record (h : Exported s begun events ids) (hrecorded : recorded ≠ .finalize)
    (hnew : e ∉ ids ++ s.channel) :
    Exported (s.call e recorded now) begun (events ++ [.call i e recorded now]) ids := by
  have hother : ∀ e', e' ≠ e →
      momentsOf e' (events ++ [.call i e recorded now]) = momentsOf e' events := by
    intro e' hne
    rw [momentsOf_concat]
    exact if_neg hne.symm
  rw [Telemetry.call_eq_add s e hrecorded]
  refine ⟨?_, h.nodup, ?_, ?_, ?_, ?_⟩
  · rw [h.begun_eq]
    refine List.map_congr_left fun e' he' => ?_
    rw [hother e']
    rintro rfl
    exact hnew (List.mem_append_left _ he')
  · intro e' he'
    exact (h.finalized e' he').imp fun j hj => mem_callsOf_concat.mpr (Or.inl hj)
  · intro e' he'
    rw [Telemetry.entry_store]
    by_cases heq : e' = e
    · subst heq
      rw [if_pos rfl, momentsOf_concat, h.entry e' he']
      exact (if_pos rfl).symm
    · rw [if_neg heq, hother e' heq, h.entry e' he']
  · exact fun e' he' => Telemetry.store_registry_ne_none (Or.inr (h.present e' he'))
  · intro hexporter j e' hmem
    rcases mem_callsOf_concat.mp hmem with hmem | hcall
    · exact h.queued hexporter j e' hmem
    · exact absurd (congrArg Prod.snd (callOf_eq_some hcall).2).symm hrecorded

/-- A call that finalizes. -/
theorem Exported.finalize (h : Exported s begun events ids) (hnew : e ∉ ids ++ s.channel)
    (hpresent : s.registry e ≠ none) :
    Exported (s.finalize e) begun (events ++ [.call i e .finalize now]) ids := by
  have hsame : ∀ e', momentsOf e' (events ++ [.call i e .finalize now]) = momentsOf e' events := by
    intro e'
    rw [momentsOf_concat]
    exact ite_self _
  have hbegun : begun = ids.map fun e' =>
      (momentsOf e' (events ++ [.call i e .finalize now])).latencyRecord e' := by
    simpa only [hsame] using h.begun_eq
  have hfinalized : ∀ e' ∈ ids ++ s.channel,
      ∃ j, (e', TelemetryCall.finalize) ∈ callsOf j (events ++ [.call i e .finalize now]) :=
    fun e' he' => (h.finalized e' he').imp fun j hj => mem_callsOf_concat.mpr (Or.inl hj)
  have hentry : ∀ e' ∉ ids,
      s.entry e' = momentsOf e' (events ++ [.call i e .finalize now]) := by
    simpa only [hsame] using h.entry
  by_cases hreturned : s.exporter = .returned
  · rw [Telemetry.finalize_returned hreturned]
    exact ⟨hbegun, h.nodup, hfinalized, hentry, h.present,
      fun hexporter => absurd hreturned hexporter⟩
  · rw [Telemetry.finalize_running hreturned]
    refine ⟨hbegun, ?_, ?_, hentry, ?_, ?_⟩
    · rw [← List.append_assoc, ← List.concat_eq_append]
      exact h.nodup.concat hnew
    · intro e' he'
      rw [← List.append_assoc, List.mem_append, List.mem_singleton] at he'
      rcases he' with he' | rfl
      · exact hfinalized e' he'
      · exact ⟨i, mem_callsOf_concat.mpr (Or.inr (callOf_self i e' .finalize now))⟩
    · intro e' he'
      rcases List.mem_append.mp he' with he' | he'
      · exact h.present e' he'
      · rw [List.mem_singleton.mp he']
        exact hpresent
    · intro _ j e' hmem
      rw [← List.append_assoc, List.mem_append, List.mem_singleton]
      rcases mem_callsOf_concat.mp hmem with hmem | hcall
      · exact Or.inl (h.queued hreturned j e' hmem)
      · exact Or.inr (congrArg Prod.fst (callOf_eq_some hcall).2)

/-! ## The calls of the pipelines -/

variable {runs : ι → TelemetryRun}

omit [DecidableEq ι] in
/-- Nothing comes after `finalize`. -/
theorem TelemetryRun.eq_of_finalized (run : TelemetryRun)
    {before : List (ExecutionId × TelemetryCall)} (h : before <+: run.telemetryCalls)
    (hmem : (e, TelemetryCall.finalize) ∈ before) : before = run.telemetryCalls := by
  obtain ⟨rest, hrest⟩ := h
  have hlast : rest = [] := by
    by_contra hne
    refine run.orderly.unfinished (e, .finalize) ?_ rfl
    rw [← hrest, List.dropLast_append_of_ne_nil hne]
    exact List.mem_append_left _ hmem
  rw [← hrest, hlast, List.append_nil]

omit [DecidableEq ι] in
/-- What is behind the next call of a run. -/
theorem TelemetryRun.next_call (run : TelemetryRun)
    {before : List (ExecutionId × TelemetryCall)}
    (h : before ++ [(e, recorded)] <+: run.telemetryCalls) :
    e = run.ctx.executionId ∧ (e, TelemetryCall.finalize) ∉ before
      ∧ (recorded = .finalize → (e, TelemetryCall.recordStart) ∈ before) := by
  obtain ⟨hnamed, hunfinished⟩ := run.orderly.of_prefix h
  rw [List.dropLast_concat] at hunfinished
  have hmem : (e, recorded) ∈ before ++ [(e, recorded)] :=
    List.mem_append_right _ (List.mem_singleton_self _)
  have he : e = run.ctx.executionId := hnamed (e, recorded) hmem
  refine ⟨he, fun hbefore => hunfinished _ hbefore rfl, ?_⟩
  rintro rfl
  have hstart := run.recordStart_mem
  rw [← run.eq_of_finalized h hmem, ← he, List.mem_append, List.mem_singleton] at hstart
  exact hstart.resolve_right fun heq => by cases congrArg Prod.snd heq

/-- The run lemma: as far as the pipelines have come. -/
theorem exported_run (hids : Function.Injective fun i => (runs i).ctx.executionId)
    (hcalls : ∀ i, callsOf i events <+: (runs i).telemetryCalls) :
    ∃ ids, Exported (Telemetry.new.run events) (Telemetry.new.begun events) events ids := by
  induction events using List.reverseRecOn with
  | nil =>
      refine ⟨[], rfl, List.nodup_nil, ?_, fun _ _ => rfl, ?_, ?_⟩
      · exact fun _ he => absurd he List.not_mem_nil
      · exact fun _ he => absurd he List.not_mem_nil
      · exact fun _ _ _ hmem => absurd hmem List.not_mem_nil
  | append_singleton events event ih =>
      have hbefore : ∀ i, callsOf i events <+: (runs i).telemetryCalls := by
        intro i
        refine List.IsPrefix.trans ?_ (hcalls i)
        rw [callsOf_append]
        exact List.prefix_append _ _
      obtain ⟨ids, hexported⟩ := ih hbefore
      rw [Telemetry.run_append]
      cases event with
      | call i e recorded now =>
          rw [Telemetry.begun_concat_of_none rfl]
          have hnext := hcalls i
          rw [callsOf_concat, callOf_self, Option.toList_some] at hnext
          obtain ⟨he, hopen, hstarted⟩ := (runs i).next_call hnext
          have hunfinished : ∀ j, (e, TelemetryCall.finalize) ∉ callsOf j events := by
            intro j hmem
            have hj : (runs j).ctx.executionId = (runs i).ctx.executionId :=
              (((runs j).orderly.of_prefix (hbefore j)).named _ hmem).symm.trans he
            obtain rfl : j = i := hids hj
            exact hopen hmem
          have hnew : e ∉ ids ++ (Telemetry.new.run events).channel := fun hmem => by
            obtain ⟨j, hj⟩ := hexported.finalized e hmem
            exact hunfinished j hj
          by_cases hrecorded : recorded = .finalize
          · obtain rfl := hrecorded
            exact ⟨ids, hexported.finalize hnew
              ((kept_run events e hunfinished).registry i _ (hstarted rfl))⟩
          · exact ⟨ids, hexported.record hrecorded hnew⟩
      | connect accepted =>
          rw [Telemetry.begun_concat_of_none rfl]
          exact ⟨ids, (hexported.connect accepted).aside (fun _ => rfl) fun _ _ => rfl⟩
      | receive =>
          rw [Telemetry.begun_concat]
          obtain ⟨ids', hreceived⟩ := hexported.receive
          exact ⟨ids', hreceived.aside (fun _ => rfl) fun _ _ => rfl⟩
      | send sends =>
          rw [Telemetry.begun_concat_of_none rfl]
          exact ⟨ids, (hexported.send sends).aside (fun _ => rfl) fun _ _ => rfl⟩

/-- A pipeline that has finalized got a hash. -/
theorem broadcasts_of_finalize (hcalls : ∀ i, callsOf i events <+: (runs i).telemetryCalls)
    (h : (e, TelemetryCall.finalize) ∈ callsOf i events) :
    (runs i).ctx.executionId = e ∧ (runs i).Broadcasts := by
  have hmem := (hcalls i).subset h
  refine ⟨((runs i).orderly.named _ hmem).symm, ?_⟩
  by_contra hnot
  exact (runs i).unfinished hnot _ hmem rfl

/-! ## The stages of a pipeline -/

/-- A call of one pipeline, with its moment. -/
def TelemetryEvent.timedCallOf (i : ι) : TelemetryEvent ι → Option (TelemetryCall × Instant)
  | .call j _ recorded now => if j = i then some (recorded, now) else none
  | _ => none

/-- The calls of one pipeline, in order, with their moments. -/
def timedCallsOf (i : ι) (events : List (TelemetryEvent ι)) : List (TelemetryCall × Instant) :=
  events.filterMap (TelemetryEvent.timedCallOf i)

theorem map_timedCallsOf (i : ι) (events : List (TelemetryEvent ι)) :
    (timedCallsOf i events).map Prod.fst = (callsOf i events).map Prod.snd := by
  rw [timedCallsOf, callsOf, List.map_filterMap, List.map_filterMap]
  refine List.filterMap_congr fun event _ => ?_
  cases event with
  | call j e recorded now =>
      rw [TelemetryEvent.timedCallOf, TelemetryEvent.callOf]
      split <;> rfl
  | connect accepted => rfl
  | receive => rfl
  | send sends => rfl

/-- The moments of an execution for which one pipeline calls. -/
theorem momentsOf_eq_foldl
    (hnamed : ∀ j, ∀ call ∈ callsOf j events, call.1 = e ↔ j = i) :
    momentsOf e events = (timedCallsOf i events).foldl
      (fun telemetry x => telemetry.add x.2 x.1) .default := by
  induction events using List.reverseRecOn with
  | nil => rfl
  | append_singleton events event ih =>
      have hbefore : ∀ j, ∀ call ∈ callsOf j events, call.1 = e ↔ j = i := fun j call hcall =>
        hnamed j call (mem_callsOf_concat.mpr (Or.inl hcall))
      rw [momentsOf_concat, ih hbefore]
      unfold timedCallsOf
      rw [List.filterMap_append, List.foldl_append]
      cases event with
      | call j e' recorded now =>
          have hcall : e' = e ↔ j = i := hnamed j (e', recorded)
            (mem_callsOf_concat.mpr (Or.inr (callOf_self j e' recorded now)))
          by_cases hij : j = i
          · simp [TelemetryEvent.addTo, TelemetryEvent.timedCallOf, hij, hcall.mpr hij]
          · simp [TelemetryEvent.addTo, TelemetryEvent.timedCallOf, hij, mt hcall.mp hij]
      | connect accepted => rfl
      | receive => rfl
      | send sends => rfl

/-- The pipeline has made all its calls, and these are their moments. -/
def CompleteAt (i : ι) (events : List (TelemetryEvent ι)) (telemetry : PipelineTelemetry) :
    Prop :=
  ∃ start relayhost nonce sign broadcast finalized : Instant,
    timedCallsOf i events = [(.recordStart, start), (.recordStage .relayHost, relayhost),
      (.recordStage .nonce, nonce), (.recordStage .sign, sign),
      (.recordStage .broadcast, broadcast), (.finalize, finalized)]
    ∧ telemetry = ⟨some start, some relayhost, some nonce, some sign, some broadcast⟩

/-- A pipeline that has finalized has a moment for every stage. -/
theorem completeAt_of_finalize (hids : Function.Injective fun i => (runs i).ctx.executionId)
    (hcalls : ∀ i, callsOf i events <+: (runs i).telemetryCalls)
    (h : (e, TelemetryCall.finalize) ∈ callsOf i events) :
    CompleteAt i events (momentsOf e events) := by
  obtain ⟨rfl, hbroadcasts⟩ := broadcasts_of_finalize hcalls h
  have hnamed : ∀ j, ∀ call ∈ callsOf j events,
      call.1 = (runs i).ctx.executionId ↔ j = i := by
    intro j call hcall
    rw [(runs j).orderly.named _ ((hcalls j).subset hcall)]
    exact hids.eq_iff
  have hstages := map_timedCallsOf i events
  rw [(runs i).eq_of_finalized (hcalls i) h, (runs i).staged hbroadcasts] at hstages
  simp only [List.map_cons, List.map_nil, List.map_eq_cons_iff, List.map_eq_nil_iff] at hstages
  obtain ⟨⟨_, start⟩, _, hlist, rfl, ⟨_, relayhost⟩, _, rfl, rfl, ⟨_, nonce⟩, _, rfl, rfl,
    ⟨_, sign⟩, _, rfl, rfl, ⟨_, broadcast⟩, _, rfl, rfl, ⟨_, finalized⟩, _, rfl, rfl, rfl⟩ :=
    hstages
  refine ⟨start, relayhost, nonce, sign, broadcast, finalized, hlist, ?_⟩
  rw [momentsOf_eq_foldl hnamed, hlist]
  rfl

/-! ## The report -/

/-- The record of a pipeline. -/
def recordOf (runs : ι → TelemetryRun) (events : List (TelemetryEvent ι)) (i : ι) :
    LatencyRecord :=
  (momentsOf (runs i).ctx.executionId events).latencyRecord (runs i).ctx.executionId

/-- All pipelines have returned, the exporter waits for more, and the reader, too, to which all
that was sent came. -/
structure Delivered (runs : ι → TelemetryRun) (events : List (TelemetryEvent ι))
    (arrivals : List ReaderEvent) (r : StreamReader) : Prop where
  drained : Drained runs events
  receiving : (Telemetry.new.run events).exporter = .receiving
  arrived : streamOf arrivals
    = Lines.encode 10 ((Telemetry.new.run events).sent.map LatencyRecord.line)
  reading : r.eof = false ∧ r.returned = false ∧ r.nextLine = none

/-- The pipelines of some executions. -/
theorem exists_pipelines (hcalls : ∀ i, callsOf i events <+: (runs i).telemetryCalls)
    (h : ∀ e ∈ ids, ∃ i, (e, TelemetryCall.finalize) ∈ callsOf i events) :
    ∃ pipelines : List ι, pipelines.map (fun i => (runs i).ctx.executionId) = ids
      ∧ ∀ i ∈ pipelines,
        ((runs i).ctx.executionId, TelemetryCall.finalize) ∈ callsOf i events := by
  induction ids with
  | nil => exact ⟨[], rfl, fun _ hi => absurd hi List.not_mem_nil⟩
  | cons e ids ih =>
      rw [List.forall_mem_cons] at h
      obtain ⟨⟨i, hi⟩, hrest⟩ := h
      obtain ⟨rfl, -⟩ := broadcasts_of_finalize hcalls hi
      obtain ⟨pipelines, hpipelines, hall⟩ := ih hrest
      exact ⟨i :: pipelines, by rw [List.map_cons, hpipelines],
        List.forall_mem_cons.mpr ⟨hi, hall⟩⟩

/-- **What the report counts**, when no two pipelines have one execution id: records of
pipelines that got a hash, of each of them at most one, with the moments of all its stages,
however the pipelines and the exporter are interleaved and wherever the stream is cut; and when
all was delivered, it counts every such pipeline. -/
theorem telemetry_reported (fits : UInt64 → Bool) (testStart : Instant)
    (warmup steadyState : Duration)
    (hids : Function.Injective fun i => (runs i).ctx.executionId)
    (hcalls : ∀ i, callsOf i events <+: (runs i).telemetryCalls) {arrivals : List ReaderEvent}
    (hstream : streamOf arrivals
      <+: Lines.encode 10 ((Telemetry.new.begun events).map LatencyRecord.line)) :
    ∃ (taken : List (LatencyRecord × Instant)) (pipelines : List ι),
      (telemetryStreamReader fits testStart warmup steadyState arrivals).collector.Reports fits
        (MetricsCollector.new testStart warmup steadyState).inWindow taken
      ∧ taken.map Prod.fst = pipelines.map (recordOf runs events)
      ∧ (taken.map Prod.snd).Sublist (frameTimes arrivals)
      ∧ pipelines.Nodup
      ∧ (∀ i ∈ pipelines, (runs i).Broadcasts
        ∧ CompleteAt i events (momentsOf (runs i).ctx.executionId events))
      ∧ (Delivered runs events arrivals
          (telemetryStreamReader fits testStart warmup steadyState arrivals) →
        ∀ i, (runs i).Broadcasts → i ∈ pipelines) := by
  obtain ⟨ids, hexported⟩ := exported_run hids hcalls
  -- an execution id is written without braces, so a line cut off is not read
  have hbraces : ∀ record ∈ Telemetry.new.begun events, '}' ∉ record.executionId.toList := by
    intro record hrecord hmem
    rw [hexported.begun_eq] at hrecord
    obtain ⟨e, -, rfl⟩ := List.mem_map.mp hrecord
    exact absurd (display_part e _ hmem) (by decide)
  obtain ⟨taken, hfollows⟩ := StreamReader.run_follows
    (MetricsCollector.reports_new testStart warmup steadyState) hbraces hstream
  obtain ⟨stream, htracks, -, -⟩ := hfollows.tracks
  obtain ⟨pipelines, hpipelines, hfinalized⟩ := exists_pipelines hcalls fun e he =>
    hexported.finalized e (List.mem_append_left _ he)
  have hbegun : Telemetry.new.begun events = pipelines.map (recordOf runs events) := by
    rw [hexported.begun_eq, ← hpipelines, List.map_map]
    rfl
  have hnodup : pipelines.Nodup := by
    refine List.Nodup.of_map (fun i => (runs i).ctx.executionId) ?_
    rw [hpipelines]
    exact (List.nodup_append.mp hexported.nodup).1
  refine ⟨taken, pipelines.take taken.length, htracks.reports, ?_, hfollows.times,
    hnodup.sublist (List.take_sublist _ _), fun i hi => ?_, ?_⟩
  · have hfirst := List.prefix_iff_eq_take.mp (hbegun ▸ htracks.first)
    rwa [List.length_map, ← List.map_take] at hfirst
  · have hlast := hfinalized i (List.mem_of_mem_take hi)
    exact ⟨(broadcasts_of_finalize hcalls hlast).2, completeAt_of_finalize hids hcalls hlast⟩
  · intro hdelivered i hi
    obtain ⟨hdrained, hreceiving, harrived, heof, hreturned, hnext⟩ := hdelivered
    obtain ⟨unsent, hsent, hunsent⟩ := exists_unsent events
    rw [hreceiving] at hunsent
    obtain rfl : unsent = [] := hunsent
    rw [List.append_nil] at hsent
    rw [← hsent] at harrived
    have hall := (hfollows.all_taken harrived heof hreturned hnext).trans hbegun
    -- everything was delivered, so every record was taken
    have hlength : taken.length = pipelines.length := by simpa using congrArg List.length hall
    rw [hlength, List.take_length]
    have hlast : ((runs i).ctx.executionId, TelemetryCall.finalize) ∈ callsOf i events := by
      rw [hdrained.returned, ← List.count_pos_iff, (runs i).count_finalize.mpr hi]
      exact Nat.one_pos
    have hmem := hexported.queued hdrained.connected i _ hlast
    rw [hdrained.drained, List.append_nil, ← hpipelines] at hmem
    obtain ⟨j, hj, hsame⟩ := List.mem_map.mp hmem
    exact hids hsame ▸ hj

end

/-! ## One pipeline that broadcasts -/

/-- Replies without an error, with the feature on. -/
def recordedReply : (c : PipelineCall) → Unit → Option (c.Reply × Unit)
  | .telemetry _ _, _ => some ((), ())
  | c, _ => (smoothReply c).map fun r => (r, ())

def broadcastLog : PipelineLog :=
  (((runPipeline recordedContext).follow recordedReply 18 ()).map fun run => run.1).getD []

theorem broadcast_returned :
    (runPipeline recordedContext).Reaches .free () broadcastLog (.ret ()) () := by
  have hrun : ((runPipeline recordedContext).follow recordedReply 18 ()).map
      (fun run => run.2.1.result) = some (some ()) := by decide +kernel
  obtain ⟨⟨log, p, u⟩, hfollow, hend⟩ := Option.map_eq_some_iff.mp hrun
  obtain rfl := Prog.eq_ret_of_result hend
  rw [broadcastLog, hfollow]
  exact Prog.reaches_of_follow (fun _ _ _ _ _ => trivial) hfollow

theorem recordedContext_telemetry : recordedContext.telemetry = true := rfl

/-- A pipeline that has returned with its transaction in a block. -/
def broadcastRun : TelemetryRun :=
  ⟨recordedContext, broadcastLog, recordedContext_telemetry, broadcast_returned⟩

def broadcastRuns : Unit → TelemetryRun := fun _ => broadcastRun

/-- Its calls, a millisecond for each stage, and the exporter. -/
def broadcastEvents : List (TelemetryEvent Unit) :=
  [.connect true, .call () ⟨1⟩ .recordStart 1000000,
    .call () ⟨1⟩ (.recordStage .relayHost) 2000000, .call () ⟨1⟩ (.recordStage .nonce) 3000000,
    .call () ⟨1⟩ (.recordStage .sign) 4000000, .call () ⟨1⟩ (.recordStage .broadcast) 5000000,
    .call () ⟨1⟩ .finalize 5000000, .receive, .send true]

def broadcastArrivals : List ReaderEvent :=
  [.arrive (Lines.encode 10 ((Telemetry.new.run broadcastEvents).sent.map LatencyRecord.line)),
    .frame 6000000]

/-- The report counts the pipeline. -/
theorem telemetry_reported_sample :
    ∃ taken : List (LatencyRecord × Instant),
      (telemetryStreamReader (fun _ => true) 0 (.fromMillis 5) (.fromMillis 5)
          broadcastArrivals).collector.Reports (fun _ => true)
        (MetricsCollector.new 0 (.fromMillis 5) (.fromMillis 5)).inWindow taken
      ∧ taken.map Prod.fst = [⟨(ExecutionId.mk 1).display, 1000, 1000, 1000, 1000, 4000⟩] := by
  have hcalls : callsOf () broadcastEvents = broadcastRun.telemetryCalls := by decide +kernel
  have hinterleaved : ∀ i, callsOf i broadcastEvents <+: (broadcastRuns i).telemetryCalls :=
    fun _ => hcalls ▸ List.prefix_rfl
  have hids : Function.Injective fun i => (broadcastRuns i).ctx.executionId :=
    Function.injective_of_subsingleton _
  have harrived : streamOf broadcastArrivals
      = Lines.encode 10 ((Telemetry.new.run broadcastEvents).sent.map LatencyRecord.line) := by
    simp [broadcastArrivals, streamOf]
  have hstream : streamOf broadcastArrivals
      <+: Lines.encode 10 ((Telemetry.new.begun broadcastEvents).map LatencyRecord.line) := by
    have hsent : Telemetry.new.begun broadcastEvents
        = (Telemetry.new.run broadcastEvents).sent := by decide +kernel
    rw [harrived, hsent]
  have hbroadcasts : (broadcastRuns ()).Broadcasts := by
    have hcount : (broadcastRuns ()).telemetryCalls.count
        ((broadcastRuns ()).ctx.executionId, .finalize) = 1 := by decide +kernel
    exact (broadcastRuns ()).count_finalize.mp hcount
  have hdelivered : Delivered broadcastRuns broadcastEvents broadcastArrivals
      (telemetryStreamReader (fun _ => true) 0 (.fromMillis 5) (.fromMillis 5)
        broadcastArrivals) := by
    refine ⟨⟨fun _ => hcalls, ?_, ?_⟩, ?_, harrived, ?_⟩ <;> decide +kernel
  obtain ⟨taken, pipelines, hreports, htaken, -, hnodup, -, hall⟩ :=
    telemetry_reported (fun _ => true) 0 (.fromMillis 5) (.fromMillis 5) hids hinterleaved hstream
  have hmem := hall hdelivered () hbroadcasts
  obtain rfl : pipelines = [()] := by
    cases pipelines with
    | nil => exact absurd hmem List.not_mem_nil
    | cons _ others =>
        rw [List.nodup_cons] at hnodup
        rw [List.eq_nil_iff_forall_not_mem.mpr fun _ => hnodup.1]
  refine ⟨taken, hreports, htaken.trans ?_⟩
  decide +kernel

end Lobby
