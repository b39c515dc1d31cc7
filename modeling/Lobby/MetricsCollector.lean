/-
# The collector of the benchmark

`telemetry_stream_reader` takes lines from a socket, reads each as a latency record, and hands
it to a `MetricsCollector`, which counts the records and has a histogram for every stage.
Only what comes in the steady state of the test is recorded.

* `MetricsCollector.Reports.submit`: the counts and the histograms are those of the records
  that were submitted, whatever the window.
* `StreamReader.run_follows`: of a stream that begins as the lines of some records do, the
  reader submits these records, in their order, and nothing else, also when the stream is cut
  off inside a line.
-/
import Lobby.Backoff
import Lobby.LatencyJson
import Lobby.Lines

namespace Lobby

open Text

/-! ## The collector -/

/-- A histogram, by the values that it has recorded, and the count of the others. -/
structure StageMetrics where
  histogram : List UInt64
  droppedCount : UInt64

def StageMetrics.new : StageMetrics := ⟨[], 0⟩

/-- `record`; `fits` says for which values the histogram has a bucket. -/
def StageMetrics.record (fits : UInt64 → Bool) (m : StageMetrics) (valueUs : UInt64) :
    StageMetrics :=
  let value := max valueUs 1
  if fits value then { m with histogram := m.histogram ++ [value] }
  else { m with droppedCount := m.droppedCount + 1 }

structure MetricsCollector where
  relayhost : StageMetrics
  nonce : StageMetrics
  sign : StageMetrics
  broadcast : StageMetrics
  totalPipeline : StageMetrics
  testStart : Instant
  warmup : Duration
  steadyState : Duration
  totalReceived : UInt64
  totalFilteredOut : UInt64

namespace MetricsCollector

def new (testStart : Instant) (warmup steadyState : Duration) : MetricsCollector :=
  ⟨.new, .new, .new, .new, .new, testStart, warmup, steadyState, 0, 0⟩

/-- Whether a record that is received then is recorded. -/
def inWindow (c : MetricsCollector) (receivedAt : Instant) : Bool :=
  let elapsed := receivedAt - c.testStart
  !(decide (elapsed < c.warmup.asNanos)
    || decide (c.warmup.asNanos + c.steadyState.asNanos < elapsed))

def submitMetrics (fits : UInt64 → Bool) (c : MetricsCollector) (latencyRecord : LatencyRecord)
    (receivedAt : Instant) : MetricsCollector :=
  let c := { c with totalReceived := c.totalReceived + 1 }
  if !c.inWindow receivedAt then { c with totalFilteredOut := c.totalFilteredOut + 1 }
  else
    { c with
      relayhost := c.relayhost.record fits latencyRecord.relayhostDurationUs
      nonce := c.nonce.record fits latencyRecord.nonceDurationUs
      sign := c.sign.record fits latencyRecord.signDurationUs
      broadcast := c.broadcast.record fits latencyRecord.broadcastDurationUs
      totalPipeline := c.totalPipeline.record fits latencyRecord.totalPipelineUs }

end MetricsCollector

/-! ## What it reports -/

/-- The lines of the report. -/
inductive ReportedStage : Type where
  | relayhost
  | nonce
  | sign
  | broadcast
  | totalPipeline

def MetricsCollector.stage (c : MetricsCollector) : ReportedStage → StageMetrics
  | .relayhost => c.relayhost
  | .nonce => c.nonce
  | .sign => c.sign
  | .broadcast => c.broadcast
  | .totalPipeline => c.totalPipeline

def LatencyRecord.durationUs (r : LatencyRecord) : ReportedStage → UInt64
  | .relayhost => r.relayhostDurationUs
  | .nonce => r.nonceDurationUs
  | .sign => r.signDurationUs
  | .broadcast => r.broadcastDurationUs
  | .totalPipeline => r.totalPipelineUs

/-- The values of a stage that come in the window. -/
def stageValues (window : Instant → Bool) (stage : ReportedStage)
    (taken : List (LatencyRecord × Instant)) : List UInt64 :=
  (taken.filter fun x => window x.2).map fun x => max (x.1.durationUs stage) 1

/-- The counts and the histograms are those of the records with the moments they came. -/
structure MetricsCollector.Reports (fits : UInt64 → Bool) (window : Instant → Bool)
    (taken : List (LatencyRecord × Instant)) (c : MetricsCollector) : Prop where
  window_eq : ∀ t, c.inWindow t = window t
  received : c.totalReceived = UInt64.ofNat taken.length
  filteredOut : c.totalFilteredOut = UInt64.ofNat (taken.countP fun x => !window x.2)
  histogram : ∀ stage, (c.stage stage).histogram = (stageValues window stage taken).filter fits
  dropped : ∀ stage, (c.stage stage).droppedCount
    = UInt64.ofNat ((stageValues window stage taken).countP fun v => !fits v)

section

variable {fits : UInt64 → Bool} {window : Instant → Bool}
  {taken : List (LatencyRecord × Instant)} {c : MetricsCollector}

theorem MetricsCollector.reports_new (testStart : Instant) (warmup steadyState : Duration) :
    (MetricsCollector.new testStart warmup steadyState).Reports fits
      (MetricsCollector.new testStart warmup steadyState).inWindow [] where
  window_eq _ := rfl
  received := rfl
  filteredOut := rfl
  histogram stage := by cases stage <;> rfl
  dropped stage := by cases stage <;> rfl

/-- One more value of a stage. -/
theorem StageMetrics.record_eq {m : StageMetrics} {values : List UInt64}
    (hhistogram : m.histogram = values.filter fits)
    (hdropped : m.droppedCount = UInt64.ofNat (values.countP fun v => !fits v)) (valueUs : UInt64) :
    (m.record fits valueUs).histogram = (values ++ [max valueUs 1]).filter fits
      ∧ (m.record fits valueUs).droppedCount
        = UInt64.ofNat ((values ++ [max valueUs 1]).countP fun v => !fits v) := by
  rw [StageMetrics.record, List.filter_append, List.countP_append, UInt64.ofNat_add,
    List.countP_singleton, ← hhistogram, ← hdropped]
  by_cases hfits : fits (max valueUs 1) = true
  · simp [hfits]
  · simp [hfits]

/-- A record in the window goes to the histograms. -/
theorem MetricsCollector.submitMetrics_of_inWindow {t : Instant} (h : c.inWindow t = true)
    (r : LatencyRecord) : c.submitMetrics fits r t
      = { c with
          totalReceived := c.totalReceived + 1
          relayhost := c.relayhost.record fits r.relayhostDurationUs
          nonce := c.nonce.record fits r.nonceDurationUs
          sign := c.sign.record fits r.signDurationUs
          broadcast := c.broadcast.record fits r.broadcastDurationUs
          totalPipeline := c.totalPipeline.record fits r.totalPipelineUs } := by
  have hsame : ({ c with totalReceived := c.totalReceived + 1 } : MetricsCollector).inWindow t
      = true := h
  rw [submitMetrics]
  simp [hsame]

/-- Any other record is counted only. -/
theorem MetricsCollector.submitMetrics_of_not_inWindow {t : Instant} (h : c.inWindow t = false)
    (r : LatencyRecord) : c.submitMetrics fits r t
      = { c with
          totalReceived := c.totalReceived + 1
          totalFilteredOut := c.totalFilteredOut + 1 } := by
  have hsame : ({ c with totalReceived := c.totalReceived + 1 } : MetricsCollector).inWindow t
      = false := h
  rw [submitMetrics]
  simp [hsame]

/-- **One more record.** -/
theorem MetricsCollector.Reports.submit (h : c.Reports fits window taken) (r : LatencyRecord)
    (t : Instant) : (c.submitMetrics fits r t).Reports fits window (taken ++ [(r, t)]) := by
  have hreceived : UInt64.ofNat (taken ++ [(r, t)]).length = c.totalReceived + 1 := by
    rw [List.length_append, UInt64.ofNat_add, h.received]
    rfl
  have hfiltered : UInt64.ofNat ((taken ++ [(r, t)]).countP fun x => !window x.2)
      = c.totalFilteredOut + if window t then 0 else 1 := by
    rw [List.countP_append, UInt64.ofNat_add, h.filteredOut, List.countP_singleton]
    cases window t <;> rfl
  by_cases hwindow : window t = true
  · have hin : c.inWindow t = true := (h.window_eq t).trans hwindow
    have hvalues : ∀ stage, stageValues window stage (taken ++ [(r, t)])
        = stageValues window stage taken ++ [max (r.durationUs stage) 1] := by
      intro stage
      simp [stageValues, hwindow]
    have hstage : ∀ stage, (c.submitMetrics fits r t).stage stage
        = (c.stage stage).record fits (r.durationUs stage) := by
      intro stage
      rw [submitMetrics_of_inWindow hin]
      cases stage <;> rfl
    have hrecord := fun stage =>
      StageMetrics.record_eq (h.histogram stage) (h.dropped stage) (r.durationUs stage)
    refine ⟨fun t' => ?_, ?_, ?_, fun stage => ?_, fun stage => ?_⟩
    · rw [submitMetrics_of_inWindow hin]
      exact h.window_eq t'
    · rw [submitMetrics_of_inWindow hin, hreceived]
    · rw [submitMetrics_of_inWindow hin, hfiltered, if_pos hwindow, add_zero]
    · rw [hstage, hvalues]
      exact (hrecord stage).1
    · rw [hstage, hvalues]
      exact (hrecord stage).2
  · rw [Bool.not_eq_true] at hwindow
    have hout : c.inWindow t = false := (h.window_eq t).trans hwindow
    have hvalues : ∀ stage, stageValues window stage (taken ++ [(r, t)])
        = stageValues window stage taken := by
      intro stage
      simp [stageValues, hwindow]
    have hstage : ∀ stage, (c.submitMetrics fits r t).stage stage = c.stage stage := by
      intro stage
      rw [submitMetrics_of_not_inWindow hout]
      cases stage <;> rfl
    refine ⟨fun t' => ?_, ?_, ?_, fun stage => ?_, fun stage => ?_⟩
    · rw [submitMetrics_of_not_inWindow hout]
      exact h.window_eq t'
    · rw [submitMetrics_of_not_inWindow hout, hreceived]
    · rw [submitMetrics_of_not_inWindow hout, hfiltered, if_neg (by simp [hwindow])]
    · rw [hstage, hvalues]
      exact h.histogram stage
    · rw [hstage, hvalues]
      exact h.dropped stage

end

/-! ## The reader of the stream -/

/-- `telemetry_stream_reader` with its `FramedRead`. -/
structure StreamReader where
  /-- the bytes that came and do not belong to a line yet -/
  buffer : List UInt8
  /-- the stream has ended -/
  eof : Bool
  collector : MetricsCollector
  /-- it has left its loop -/
  returned : Bool

/-- `without_carriage_return`. -/
def withoutCarriageReturn (line : List UInt8) : List UInt8 :=
  if line.getLast? = some 13 then line.dropLast else line

/-- What happens to the reader: bytes come, the next line is taken, the stream ends, or the
loop is left because of the shutdown or an error of the socket. -/
inductive ReaderEvent : Type where
  | arrive (bytes : List UInt8)
  | frame (now : Instant)
  | close
  | stop

/-- The bytes that come. -/
def streamOf (events : List ReaderEvent) : List UInt8 :=
  events.flatMap fun
    | .arrive bytes => bytes
    | _ => []

/-- The moments at which lines are taken. -/
def frameTimes (events : List ReaderEvent) : List Instant :=
  events.filterMap fun
    | .frame now => some now
    | _ => none

namespace StreamReader

def start (collector : MetricsCollector) : StreamReader := ⟨[], false, collector, false⟩

/-- The next line as `LinesCodec` has it: at the end of the stream the last line needs no line
feed. -/
def nextLine (r : StreamReader) : Option (List UInt8 × List UInt8) :=
  match Lines.next 10 r.buffer with
  | some next => some next
  | none =>
    if r.eof = true ∧ r.buffer ≠ [] ∧ r.buffer ≠ [13] then some (r.buffer, []) else none

/-- A round of the loop that takes the next frame, if there is one.  A line that is no text in
UTF-8 is an error of the stream; one that is no record is only warned of. -/
def frame (fits : UInt64 → Bool) (r : StreamReader) (now : Instant) : StreamReader :=
  match r.nextLine with
  | none => { r with returned := r.eof }
  | some (line, rest) =>
    match textOf (withoutCarriageReturn line) with
    | none => { r with buffer := rest, returned := true }
    | some text =>
      match LatencyRecord.fromJson text with
      | none => { r with buffer := rest }
      | some latencyRecord =>
        { r with
          buffer := rest
          collector := r.collector.submitMetrics fits latencyRecord now }

def step (fits : UInt64 → Bool) (r : StreamReader) (event : ReaderEvent) : StreamReader :=
  if r.returned then r
  else
    match event with
    | .arrive bytes => if r.eof then r else { r with buffer := r.buffer ++ bytes }
    | .frame now => r.frame fits now
    | .close => { r with eof := true }
    | .stop => { r with returned := true }

def run (fits : UInt64 → Bool) (r : StreamReader) (events : List ReaderEvent) : StreamReader :=
  events.foldl (step fits) r

end StreamReader

/-- `telemetry_stream_reader`, once it is connected. -/
def telemetryStreamReader (fits : UInt64 → Bool) (testStart : Instant)
    (warmup steadyState : Duration) (events : List ReaderEvent) : StreamReader :=
  (StreamReader.start (.new testStart warmup steadyState)).run fits events

/-! ## The records of a stream -/

section

variable {fits : UInt64 → Bool} {window : Instant → Bool} {stream : List UInt8}
  {records : List LatencyRecord} {taken : List (LatencyRecord × Instant)} {r : StreamReader}

/-- The line of a record is read as the record. -/
theorem frame_line (record : LatencyRecord) {rest : List UInt8}
    (hnext : r.nextLine = some (record.line, rest)) (now : Instant) :
    r.frame fits now = { r with
      buffer := rest
      collector := r.collector.submitMetrics fits record now } := by
  have hline : withoutCarriageReturn record.line = record.line := by
    rw [withoutCarriageReturn, if_neg]
    intro hlast
    exact record.notMem_line.2 (List.mem_of_getLast? hlast)
  have htext : textOf record.line = some record.toJson := textOf_bytesOf _
  rw [StreamReader.frame, hnext]
  dsimp only
  rw [hline, htext]
  dsimp only
  rw [LatencyRecord.fromJson_toJson]

theorem StreamReader.eof_frame (r : StreamReader) (now : Instant) :
    (r.frame fits now).eof = r.eof := by
  unfold StreamReader.frame
  repeat' split
  all_goals rfl

/-- What the reader has taken of a stream: the first records of it, each with the moment it was
taken.  At the end of the stream what is left of the last line is taken, too. -/
structure StreamReader.Tracks (fits : UInt64 → Bool) (window : Instant → Bool)
    (records : List LatencyRecord) (stream : List UInt8)
    (taken : List (LatencyRecord × Instant)) (r : StreamReader) : Prop where
  reports : r.collector.Reports fits window taken
  first : taken.map Prod.fst <+: records
  stream : r.eof = true ∧ r.buffer = []
    ∨ Lines.Reads 10 stream (taken.map fun x => x.1.line) r.buffer

/-- Before the end of the stream. -/
theorem StreamReader.Tracks.reads (h : r.Tracks fits window records stream taken)
    (heof : r.eof = false) : Lines.Reads 10 stream (taken.map fun x => x.1.line) r.buffer := by
  refine h.stream.resolve_left fun hended => ?_
  rw [heof] at hended
  cases hended.1

/-- The records behind those that were taken. -/
theorem StreamReader.Tracks.exists_later (h : r.Tracks fits window records stream taken)
    (hreads : Lines.Reads 10 stream (taken.map fun x => x.1.line) r.buffer)
    (hstream : stream <+: Lines.encode 10 (records.map LatencyRecord.line)) :
    ∃ later, records = taken.map Prod.fst ++ later
      ∧ r.buffer <+: Lines.encode 10 (later.map LatencyRecord.line) := by
  obtain ⟨later, rfl⟩ := h.first
  have hlines : ∀ line ∈ (taken.map Prod.fst ++ later).map LatencyRecord.line,
      (10 : UInt8) ∉ line := by
    intro line hline
    obtain ⟨record, -, rfl⟩ := List.mem_map.mp hline
    exact record.notMem_line.1
  obtain ⟨lines, hsplit, hbuffer⟩ := hreads.of_prefix hlines hstream
  have hmap : taken.map (fun x => x.1.line)
      = (taken.map Prod.fst).map LatencyRecord.line := by
    rw [List.map_map]
    rfl
  rw [List.map_append, hmap] at hsplit
  rw [← List.append_cancel_left hsplit] at hbuffer
  exact ⟨later, rfl, hbuffer⟩

/-- What leaves the collector and the stream as they are. -/
theorem StreamReader.Tracks.of_eq (h : r.Tracks fits window records stream taken)
    {r' : StreamReader} (hcollector : r'.collector = r.collector)
    (heof : r.eof = true → r'.eof = true) (hbuffer : r'.buffer = r.buffer) :
    r'.Tracks fits window records stream taken := by
  refine ⟨hcollector ▸ h.reports, h.first, ?_⟩
  rw [hbuffer]
  exact h.stream.imp (fun hended => ⟨heof hended.1, hended.2⟩) id

/-- The next record is submitted. -/
theorem StreamReader.Tracks.submit (h : r.Tracks fits window records stream taken)
    {record : LatencyRecord} {later : List LatencyRecord}
    (hrecords : records = taken.map Prod.fst ++ record :: later) {rest : List UInt8}
    (hnext : r.nextLine = some (record.line, rest)) (now : Instant)
    (hstream : r.eof = true ∧ rest = []
      ∨ Lines.Reads 10 stream ((taken ++ [(record, now)]).map fun x => x.1.line) rest) :
    (r.frame fits now).Tracks fits window records stream (taken ++ [(record, now)]) := by
  rw [frame_line record hnext]
  refine ⟨h.reports.submit record now, ⟨later, ?_⟩, hstream⟩
  rw [hrecords, List.map_append, List.append_assoc]
  rfl

/-- **A round of the loop takes the next record, or nothing.** -/
theorem StreamReader.Tracks.frame (h : r.Tracks fits window records stream taken)
    (hids : ∀ record ∈ records, '}' ∉ record.executionId.toList)
    (hstream : stream <+: Lines.encode 10 (records.map LatencyRecord.line)) (now : Instant) :
    (r.frame fits now).Tracks fits window records stream taken
      ∨ ∃ record, (r.frame fits now).Tracks fits window records stream
          (taken ++ [(record, now)]) := by
  rcases h.stream with ⟨heof, hempty⟩ | hreads
  · have hnone : r.nextLine = none := by
      rw [StreamReader.nextLine, hempty]
      simp [Lines.next]
    left
    rw [StreamReader.frame, hnone]
    exact h.of_eq rfl id rfl
  · obtain ⟨later, hrecords, hbuffer⟩ := h.exists_later hreads hstream
    have hmem : ∀ record ∈ later, record ∈ records := fun record hrecord =>
      hrecords ▸ List.mem_append_right _ hrecord
    cases hnext : Lines.next 10 r.buffer with
    | some next =>
        -- a complete line is that of the next record
        obtain ⟨line, rest⟩ := next
        have hnextLine : r.nextLine = some (line, rest) := by rw [StreamReader.nextLine, hnext]
        have hone : Lines.Reads 10 r.buffer [line] rest :=
          (Lines.Reads.start.piece r.buffer).next hnext
        have hlines : ∀ line ∈ later.map LatencyRecord.line, (10 : UInt8) ∉ line := by
          intro line hline
          obtain ⟨record, -, rfl⟩ := List.mem_map.mp hline
          exact record.notMem_line.1
        obtain ⟨others, hothers, -⟩ := hone.of_prefix hlines hbuffer
        cases later with
        | nil => cases hothers
        | cons record later =>
            obtain ⟨rfl, -⟩ := List.cons.inj hothers
            right
            refine ⟨record, h.submit hrecords hnextLine now (Or.inr ?_)⟩
            rw [List.map_append]
            exact hreads.next hnext
    | none =>
        by_cases hlast : r.eof = true ∧ r.buffer ≠ [] ∧ r.buffer ≠ [13]
        · -- the end of the stream: the last line is complete, or cut off
          have hnextLine : r.nextLine = some (r.buffer, []) := by
            rw [StreamReader.nextLine, hnext]
            exact if_pos hlast
          have hfeed := Lines.next_eq_none_iff.mp hnext
          cases later with
          | nil => exact absurd (List.prefix_nil.mp hbuffer) hlast.2.1
          | cons record later =>
              have hline : r.buffer <+: record.line := Lines.prefix_of_notMem hbuffer hfeed
              by_cases hwhole : r.buffer = record.line
              · right
                rw [hwhole] at hnextLine
                exact ⟨record, h.submit hrecords hnextLine now (Or.inl ⟨hlast.1, rfl⟩)⟩
              · have hcut : withoutCarriageReturn r.buffer = r.buffer := by
                  rw [withoutCarriageReturn, if_neg]
                  intro hreturn
                  exact record.notMem_line.2 (hline.subset (List.mem_of_getLast? hreturn))
                have hended : ∀ returned, StreamReader.Tracks fits window records stream taken
                    { r with buffer := [], returned := returned } := fun returned =>
                  ⟨h.reports, h.first, Or.inl ⟨hlast.1, rfl⟩⟩
                left
                rw [StreamReader.frame, hnextLine]
                dsimp only
                rw [hcut]
                cases htext : textOf r.buffer with
                | none => exact hended true
                | some text =>
                    have hnothing := LatencyRecord.fromJson_cut
                      (hids record (hmem record List.mem_cons_self)) hline hwhole htext
                    dsimp only
                    rw [hnothing]
                    exact hended r.returned
        · have hnone : r.nextLine = none := by
            rw [StreamReader.nextLine, hnext]
            exact if_neg hlast
          left
          rw [StreamReader.frame, hnone]
          exact h.of_eq rfl id rfl

theorem streamOf_append (events events' : List ReaderEvent) :
    streamOf (events ++ events') = streamOf events ++ streamOf events' :=
  List.flatMap_append

theorem frameTimes_append (events events' : List ReaderEvent) :
    frameTimes (events ++ events') = frameTimes events ++ frameTimes events' :=
  List.filterMap_append

/-- One more event leaves the moments that there were. -/
theorem sublist_frameTimes {times : List Instant} {events : List ReaderEvent}
    (h : times.Sublist (frameTimes events)) (event : ReaderEvent) :
    times.Sublist (frameTimes (events ++ [event])) := by
  rw [frameTimes_append]
  exact h.trans (List.sublist_append_left _ _)

/-- The reader after some events: it has taken its records at moments at which it took lines,
from all that came as long as it reads. -/
structure StreamReader.Follows (fits : UInt64 → Bool) (window : Instant → Bool)
    (records : List LatencyRecord) (events : List ReaderEvent)
    (taken : List (LatencyRecord × Instant)) (r : StreamReader) : Prop where
  times : (taken.map Prod.snd).Sublist (frameTimes events)
  tracks : ∃ stream, r.Tracks fits window records stream taken ∧ stream <+: streamOf events
    ∧ (r.eof = false → r.returned = false → stream = streamOf events)

/-- An event that takes no record and brings no byte. -/
theorem StreamReader.Follows.silent {events : List ReaderEvent}
    (h : r.Follows fits window records events taken) {event : ReaderEvent} {r' : StreamReader}
    (hevent : streamOf [event] = [])
    (htracks : ∀ stream, r.Tracks fits window records stream taken →
      r'.Tracks fits window records stream taken)
    (hreads : r'.eof = false → r'.returned = false → r.eof = false ∧ r.returned = false) :
    r'.Follows fits window records (events ++ [event]) taken := by
  obtain ⟨htimes, stream, hstands, hbegins, hwhole⟩ := h
  constructor
  · exact sublist_frameTimes htimes event
  · refine ⟨stream, htracks stream hstands, ?_, ?_⟩
    · rwa [streamOf_append, hevent, List.append_nil]
    · rw [streamOf_append, hevent, List.append_nil]
      exact fun heof hreturned => hwhole (hreads heof hreturned).1 (hreads heof hreturned).2

/-- A reader that reads no more. -/
theorem StreamReader.Follows.ended {events : List ReaderEvent}
    (h : r.Follows fits window records events taken) (event : ReaderEvent)
    (hended : r.eof = true ∨ r.returned = true) :
    r.Follows fits window records (events ++ [event]) taken := by
  obtain ⟨htimes, stream, hstands, hbegins, -⟩ := h
  constructor
  · exact sublist_frameTimes htimes event
  · refine ⟨stream, hstands, ?_, fun heof hreturned => ?_⟩
    · rw [streamOf_append]
      exact hbegins.trans (List.prefix_append _ _)
    · rw [heof, hreturned] at hended
      simp at hended

/-- More bytes come. -/
theorem StreamReader.Follows.arrive {events : List ReaderEvent}
    (h : r.Follows fits window records events taken) (heof : r.eof = false)
    (hreturned : r.returned = false) (bytes : List UInt8) :
    { r with buffer := r.buffer ++ bytes }.Follows fits window records
      (events ++ [ReaderEvent.arrive bytes]) taken := by
  obtain ⟨htimes, stream, hstands, -, hwhole⟩ := h
  have hbytes : streamOf (events ++ [ReaderEvent.arrive bytes]) = stream ++ bytes := by
    rw [streamOf_append, hwhole heof hreturned]
    simp [streamOf]
  constructor
  · exact sublist_frameTimes htimes _
  · rw [hbytes]
    refine ⟨stream ++ bytes, ⟨hstands.reports, hstands.first, ?_⟩, List.prefix_rfl, fun _ _ => rfl⟩
    exact Or.inr ((hstands.reads heof).piece bytes)

/-- A round of the loop. -/
theorem StreamReader.Follows.frame {events : List ReaderEvent}
    (h : r.Follows fits window records events taken)
    (hids : ∀ record ∈ records, '}' ∉ record.executionId.toList)
    (hstream : streamOf events <+: Lines.encode 10 (records.map LatencyRecord.line))
    (hreturned : r.returned = false) (now : Instant) :
    ∃ taken, (r.frame fits now).Follows fits window records (events ++ [.frame now]) taken := by
  obtain ⟨htimes, stream, hstands, hbegins, hwhole⟩ := h
  have hsame : streamOf (events ++ [ReaderEvent.frame now]) = streamOf events := by
    rw [streamOf_append]
    exact List.append_nil _
  have hall : (r.frame fits now).eof = false → (r.frame fits now).returned = false →
      stream = streamOf events := by
    intro heof _
    rw [StreamReader.eof_frame] at heof
    exact hwhole heof hreturned
  rcases hstands.frame hids (hbegins.trans hstream) now with hframe | ⟨record, hframe⟩
  · refine ⟨taken, ?_, stream, hframe, hsame ▸ hbegins, hsame ▸ hall⟩
    exact sublist_frameTimes htimes _
  · refine ⟨_, ?_, stream, hframe, hsame ▸ hbegins, hsame ▸ hall⟩
    rw [List.map_append, frameTimes_append]
    exact htimes.append (List.Sublist.refl [now])

theorem StreamReader.Follows.step {events : List ReaderEvent}
    (h : r.Follows fits window records events taken)
    (hids : ∀ record ∈ records, '}' ∉ record.executionId.toList)
    (hstream : streamOf events <+: Lines.encode 10 (records.map LatencyRecord.line))
    (event : ReaderEvent) :
    ∃ taken, (r.step fits event).Follows fits window records (events ++ [event]) taken := by
  unfold StreamReader.step
  by_cases hreturned : r.returned = true
  · rw [if_pos hreturned]
    exact ⟨taken, h.ended event (Or.inr hreturned)⟩
  · rw [if_neg hreturned]
    rw [Bool.not_eq_true] at hreturned
    cases event with
    | arrive bytes =>
        dsimp only
        by_cases heof : r.eof = true
        · rw [if_pos heof]
          exact ⟨taken, h.ended _ (Or.inl heof)⟩
        · rw [if_neg heof]
          exact ⟨taken, h.arrive (Bool.eq_false_of_not_eq_true heof) hreturned bytes⟩
    | frame now => exact h.frame hids hstream hreturned now
    | close =>
        exact ⟨taken, h.silent rfl (fun _ hstands => hstands.of_eq rfl (fun _ => rfl) rfl)
          fun heof => by cases heof⟩
    | stop =>
        exact ⟨taken, h.silent rfl (fun _ hstands => hstands.of_eq rfl id rfl)
          fun _ hstopped => by cases hstopped⟩

/-- **What the reader has taken**, whatever the pieces in which the stream came: the first
records of the stream, each once and in their order. -/
theorem StreamReader.run_follows {c : MetricsCollector} (hc : c.Reports fits window [])
    (hids : ∀ record ∈ records, '}' ∉ record.executionId.toList) {events : List ReaderEvent}
    (hstream : streamOf events <+: Lines.encode 10 (records.map LatencyRecord.line)) :
    ∃ taken,
      ((StreamReader.start c).run fits events).Follows fits window records events taken := by
  induction events using List.reverseRecOn with
  | nil =>
      exact ⟨[], .slnil, [], ⟨hc, List.nil_prefix, Or.inr .start⟩, List.nil_prefix,
        fun _ _ => rfl⟩
  | append_singleton events event ih =>
      rw [streamOf_append] at hstream
      have hbefore := (List.prefix_append _ _).trans hstream
      obtain ⟨taken, hfollows⟩ := ih hbefore
      rw [StreamReader.run, List.foldl_append]
      exact hfollows.step hids hbefore event

/-- A reader that waits for more, when all records came, has taken them all. -/
theorem StreamReader.Follows.all_taken {events : List ReaderEvent}
    (h : r.Follows fits window records events taken)
    (hstream : streamOf events = Lines.encode 10 (records.map LatencyRecord.line))
    (heof : r.eof = false) (hreturned : r.returned = false) (hnext : r.nextLine = none) :
    taken.map Prod.fst = records := by
  obtain ⟨-, stream, hstands, -, hwhole⟩ := h
  obtain rfl := (hwhole heof hreturned).trans hstream
  have hreads := hstands.reads heof
  obtain ⟨later, hrecords, -⟩ := hstands.exists_later hreads List.prefix_rfl
  have hbuffer : r.buffer = Lines.encode 10 (later.map LatencyRecord.line) := by
    have hstreamed := hreads.stream_eq
    rw [hrecords, List.map_append, List.map_map, Lines.encode_append] at hstreamed
    exact (List.append_cancel_left hstreamed).symm
  have hnone : Lines.next 10 r.buffer = none := by
    unfold StreamReader.nextLine at hnext
    split at hnext
    · cases hnext
    · assumption
  cases later with
  | nil => rw [hrecords, List.append_nil]
  | cons record later =>
      rw [Lines.next_eq_none_iff, hbuffer] at hnone
      simp at hnone

end

end Lobby
