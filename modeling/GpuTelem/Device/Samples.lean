import GpuTelem.Collector.Hwmon
import GpuTelem.Device.Stream

/-!
# The samples behind a stream

What the records of a stream hold: each is the reading of one pass of `collector_thread`, and of the
attributes that `probe_hwmon_paths` found when the module was loaded.

## Main definitions

* `passes`: what the passes of the collector found;
* `Device.unpushed`: the sample that has been collected and not pushed;
* `unavailableSample`: a sample without any reading.

## Main results

* `pushed_of_trace`: the log of the ring is one reading for each pass;
* `stream_of_passes`: a stream is the readings of some of the passes, in their order;
* `hwmon_stream`: from which directory the readings come.
-/

namespace GpuTelem

open Machine

/-- What a step of the collector finds that executes `collect_sample`. -/
def passOf (τ : DeviceTransition) : Option CollectorEnv :=
  match τ.input with
  | .collect e => if τ.pre.collector.pc = .collect then some e else none
  | _ => none

/-- What the passes of the collector found in a run, in order. -/
def passes (ts : List DeviceTransition) : List CollectorEnv := ts.filterMap passOf

/-- The sample that has been collected and not pushed. -/
def Device.unpushed (d : Device) : List GpuSample :=
  if d.collector.pc = .push then [d.collector.sample] else []

/-- A sample without any reading. -/
def unavailableSample (t : UInt64) (pad : Vector UInt8 7) : GpuSample where
  timestampNs := t
  tempMillideg := -1
  fanRpm := 0
  powerUw := 0
  coreFreqMhz := 0
  memFreqMhz := 0
  gpuUtilPct := 0xffffffff
  memUtilPct := 0xffffffff
  throttleReasons := 0
  pad := pad

/-! ## The log -/

section Step

variable {d d' : Device} {op : DeviceOp} {o : DeviceObs}

/-- A step that is no `ring_push` shows none. -/
theorem pushed_readerSteps_eq_nil (h : ∀ s, op.readerOp d ≠ some (.push s)) :
    pushed (readerSteps [⟨d, op, d', o⟩]) = [] := by
  rw [readerSteps]
  cases hop : op.readerOp d with
  | none =>
      rw [Trace.projected_singleton_none hop]
      rfl
  | some rop =>
      cases hstep : d.readers.step rop with
      | none => simp [Trace.projected, hop, hstep, pushed]
      | some p =>
          rw [Trace.projected_singleton_some hop hstep]
          cases rop with
          | push s => exact absurd hop (h s)
          | _ => rfl

/-- What a step does with the samples: a pass collects one, and every other step keeps what is
collected, or pushes it. -/
theorem DeviceStep.pass_cases (h : DeviceStep d op d' o) :
    d'.paths = d.paths ∧
      ((∃ e, passOf ⟨d, op, d', o⟩ = some e ∧ pushed (readerSteps [⟨d, op, d', o⟩]) = [] ∧
          d.unpushed = [] ∧ d'.unpushed = [d'.collector.sample] ∧
          d'.collector.sample = collectSample e d.paths d.collector.sample) ∨
        (passOf ⟨d, op, d', o⟩ = none ∧ d'.collector.sample = d.collector.sample ∧
          pushed (readerSteps [⟨d, op, d', o⟩]) ++ d'.unpushed = d.unpushed)) := by
  -- most steps touch neither the sample nor the ring
  have hquiet : (∀ s, op.readerOp d ≠ some (.push s)) → passOf ⟨d, op, d', o⟩ = none →
      d'.collector.sample = d.collector.sample → d'.unpushed = d.unpushed →
      passOf ⟨d, op, d', o⟩ = none ∧ d'.collector.sample = d.collector.sample ∧
        pushed (readerSteps [⟨d, op, d', o⟩]) ++ d'.unpushed = d.unpushed :=
    fun hop hpass hsample hkeep =>
      ⟨hpass, hsample, by rw [pushed_readerSteps_eq_nil hop, List.nil_append, hkeep]⟩
  cases h with
  | collect e hpc =>
      refine ⟨rfl, .inl ⟨e, by simp [passOf, hpc], ?_, by simp [Device.unpushed, hpc], ?_, rfl⟩⟩
      · exact pushed_readerSteps_eq_nil (by simp [DeviceOp.readerOp, hpc])
      · simp [Device.unpushed]
  | push e hpc =>
      refine ⟨rfl, .inr ⟨by simp [passOf, hpc], rfl, ?_⟩⟩
      have hop : (DeviceOp.collect e).readerOp d = some (.push d.collector.sample) := by
        simp [DeviceOp.readerOp, hpc]
      have hstep : Readers.machine.step d.readers (.push d.collector.sample)
          = some ({ d.readers with ring := ringPush d.readers.ring d.collector.sample }, .silent) :=
        rfl
      rw [readerSteps, Trace.projected_singleton_some hop hstep]
      simp [Device.unpushed, hpc, pushed, ReaderOp.pushed]
  | goto t e c c' nextSeq s hcall hcursor hread =>
      refine ⟨rfl, .inr (hquiet ?_ rfl rfl rfl)⟩
      simp only [DeviceOp.readerOp, hcall]
      split <;> simp
  | ret t e c nextSeq s result bytes hcall hcursor hread =>
      refine ⟨rfl, .inr (hquiet ?_ rfl rfl rfl)⟩
      simp only [DeviceOp.readerOp, hcall]
      split <;> simp
  | loopExit e hpc _ | loopBody e hpc _ | wake e hpc | interrupted e hpc _ | slept e hpc _ =>
      exact ⟨rfl, .inr (hquiet (by simp [DeviceOp.readerOp, hpc]) (by simp [passOf, hpc]) rfl
        (by simp [Device.unpushed, hpc]))⟩
  | kthreadRun hpc =>
      exact ⟨rfl, .inr (hquiet (by simp [DeviceOp.readerOp]) rfl rfl
        (by simp [Device.unpushed, hpc]))⟩
  | _ => exact ⟨rfl, .inr (hquiet (by simp [DeviceOp.readerOp]) rfl rfl rfl)⟩

end Step

/-- A pass overwrites every field but the padding. -/
theorem collectSample_congr {s s' : GpuSample} (h : s.pad = s'.pad) (e : CollectorEnv)
    (p : AttrPaths) : collectSample e p s = collectSample e p s' := by
  rw [collectSample, collectSample, h]

section Run

variable {size : UInt32} {vzalloc : Bool} {r : RingBuf} {paths : AttrPaths} {intervalMs : UInt32}
  {stack : GpuSample} {ts : List DeviceTransition} {d : Device} {f : FileId}

/-- The log of the ring is one reading for each pass, in order; the last one may be on its way. -/
theorem pushed_of_trace (h : Device.machine.Trace (.start r paths intervalMs stack) ts d) :
    pushed (readerSteps ts) ++ d.unpushed
      = (passes ts).map fun e => collectSample e paths stack := by
  suffices hI : d.paths = paths ∧ d.collector.sample.pad = stack.pad ∧
      pushed (readerSteps ts) ++ d.unpushed
        = (passes ts).map fun e => collectSample e paths stack from hI.2.2
  induction h with
  | nil => exact ⟨rfl, rfl, rfl⟩
  | @snoc ts d d' op o _ hstep ih =>
      obtain ⟨hpaths, hpad, hlog⟩ := ih
      obtain ⟨hkeep, hcases⟩ := (Device.deviceStep_of_step hstep).pass_cases
      -- a pass puts its reading into the local sample, and the push moves it into the ring
      have hpushed : pushed (readerSteps (ts ++ [⟨d, op, d', o⟩]))
          = pushed (readerSteps ts) ++ pushed (readerSteps [⟨d, op, d', o⟩]) := by
        rw [readerSteps_append, pushed, List.filterMap_append]
        rfl
      rw [hpushed, passes, List.filterMap_append, List.map_append, ← passes, ← hlog, hkeep]
      rcases hcases with ⟨e, hpass, hnil, hnone, hone, hsample⟩ | ⟨hpass, hsample, hmove⟩
      · -- `collect_sample`: the padding is the only thing it keeps of the sample before
        rw [hpaths, collectSample_congr hpad] at hsample
        rw [hnil, hnone, hone, hsample, List.append_nil, List.filterMap_cons_some hpass]
        exact ⟨hpaths, rfl, rfl⟩
      · -- any other step: log and local sample together are what they were
        rw [List.append_assoc, hmove, hsample, List.filterMap_cons_none hpass]
        exact ⟨hpaths, hpad, by simp⟩

/-! ## The stream -/

/-- The elements at increasing positions are a sublist. -/
theorem filterMap_getElem?_sublist {α : Type*} {l : List α} {seqs : List ℕ} {a : ℕ}
    (hseqs : seqs.Pairwise (· < ·)) (hge : ∀ q ∈ seqs, a ≤ q) :
    (seqs.filterMap (l[·]?)).Sublist (l.drop a) := by
  induction seqs generalizing a with
  | nil => exact List.nil_sublist _
  | cons q seqs ih =>
      obtain ⟨hq, hseqs⟩ := List.pairwise_cons.mp hseqs
      have hrest := ih (a := q + 1) hseqs hq
      -- everything from `q` on is to the right of `a`
      have hdrop : (l.drop q).Sublist (l.drop a) := by
        obtain ⟨k, rfl⟩ := Nat.exists_eq_add_of_le (hge q List.mem_cons_self)
        rw [← List.drop_drop]
        exact List.drop_sublist _ _
      cases hl : l[q]? with
      -- a position behind the end selects nothing
      | none =>
          rw [List.filterMap_cons_none hl]
          exact (hrest.trans (by rw [← List.drop_drop]; exact List.drop_sublist _ _)).trans hdrop
      | some x =>
          obtain ⟨hlt, rfl⟩ := List.getElem?_eq_some_iff.mp hl
          rw [List.filterMap_cons_some hl]
          refine List.Sublist.trans ?_ hdrop
          rw [List.drop_eq_getElem_cons hlt]
          exact hrest.cons_cons _

/-- A sample of the log is the reading of the pass with the same number. -/
theorem getElem?_pushed (h : Device.machine.Trace (.start r paths intervalMs stack) ts d) {q : ℕ}
    (hlt : q < (pushed (readerSteps ts)).length) :
    (pushed (readerSteps ts))[q]? = (passes ts)[q]?.map fun e => collectSample e paths stack := by
  have hleft : (pushed (readerSteps ts) ++ d.unpushed)[q]? = (pushed (readerSteps ts))[q]? :=
    List.getElem?_append_left hlt
  rw [← hleft, pushed_of_trace h, List.getElem?_map]

/-- The records of a stream are the readings of some of the passes. -/
theorem FileStream.exists_passes {blocks : List (List ℕ)}
    (h : Device.machine.Trace (.start r paths intervalMs stack) ts d)
    (hstream : FileStream ts d f blocks) :
    ∃ es : List CollectorEnv, es.Sublist (passes ts) ∧
      recordsAt (pushed (readerSteps ts)) blocks.flatten
        = es.map fun e => collectSample e paths stack := by
  refine ⟨blocks.flatten.filterMap ((passes ts)[·]?), ?_, ?_⟩
  · exact filterMap_getElem?_sublist (a := 0) hstream.ordered fun q _ => Nat.zero_le q
  · rw [recordsAt, List.map_filterMap]
    exact List.filterMap_congr fun q hq => getElem?_pushed h (hstream.bounded q hq)

/-- What is returned call by call is the records of the stream. -/
theorem FileStream.flatten_returnedOn {blocks : List (List ℕ)}
    (hstream : FileStream ts d f blocks) :
    (returnedOn f ts).flatten
      = (recordsAt (pushed (readerSteps ts)) blocks.flatten).flatMap GpuSample.bytes := by
  rw [hstream.returned_eq, recordsAt, List.filterMap_flatten, ← List.flatMap_def,
    ← List.flatMap_def, List.flatMap_assoc]
  rfl

/-- **A stream is a stream of readings.** In every run with fewer than `2 ^ 64` pushes, under every
interleaving, what the successful calls on a file whose reads do not overlap return is the readings
of some of the passes of the collector, in the order of the passes and each at most once. Its time
stamps never go back where the clock does not. -/
theorem stream_of_passes (hinit : ringInit size vzalloc = .ok r)
    (h : Device.machine.Trace (.start r paths intervalMs stack) ts d) (hover : NoOverlap f ts)
    (hpush : Device.pushCount ts < 2 ^ 64) :
    ∃ es : List CollectorEnv, es.Sublist (passes ts) ∧
      (returnedOn f ts).flatten
        = (es.map fun e => collectSample e paths stack).flatMap GpuSample.bytes ∧
      ((passes ts).Pairwise (fun e e' => e.ktimeGetNs ≤ e'.ktimeGetNs) →
        (es.map fun e => (collectSample e paths stack).timestampNs).Pairwise (· ≤ ·)) := by
  obtain ⟨blocks, hstream⟩ := fileStream_of_trace hinit h hover hpush
  obtain ⟨es, hsub, hrecords⟩ := hstream.exists_passes h
  refine ⟨es, hsub, hrecords ▸ hstream.flatten_returnedOn, fun hclock => ?_⟩
  exact List.pairwise_map.mpr (hclock.sublist hsub)

end Run

/-- The two passes of `twoSampleOps`, with their time stamps in order. -/
theorem stream_of_passes_two :
    ∃ (ts : List DeviceTransition) (d : Device) (es : List CollectorEnv),
      Device.machine.Trace smallDevice ts d ∧ es.Sublist (passes ts) ∧
      (returnedOn 0 ts).flatten
        = (es.map fun e => collectSample e .absent default).flatMap GpuSample.bytes ∧
      (returnedOn 0 ts).flatten.length = 96 ∧
      (es.map fun e => (collectSample e .absent default).timestampNs).Pairwise (· ≤ ·) := by
  have hrun : (Device.machine.exec smallDevice twoSampleOps).map
        (fun p => decide (NoOverlap 0 p.1 ∧ Device.pushCount p.1 = 2 ∧
          (returnedOn 0 p.1).flatten.length = 96 ∧
          (passes p.1).Pairwise fun e e' => e.ktimeGetNs ≤ e'.ktimeGetNs)) = some true := by
    decide
  obtain ⟨⟨ts, d⟩, hexec, hseen⟩ := Option.map_eq_some_iff.mp hrun
  obtain ⟨hover, hcount, hlength, hclock⟩ := of_decide_eq_true hseen
  have hinit : ringInit 2 true = .ok ⟨Array.replicate 2 default, 2, 1, 0, 0⟩ := rfl
  have htrace := Trace.of_exec hexec
  obtain ⟨es, hsub, hreturned, hstamps⟩ :=
    stream_of_passes hinit htrace hover (by rw [hcount]; decide)
  exact ⟨ts, d, es, htrace, hsub, hreturned, hlength, hstamps hclock⟩

section Run

variable {size : UInt32} {vzalloc : Bool} {r : RingBuf} {paths : AttrPaths} {intervalMs : UInt32}
  {stack : GpuSample} {ts : List DeviceTransition} {d : Device} {f : FileId}

/-- **Where the readings come from.** When `probe_hwmon_paths` has scanned the directories, then in
every run with fewer than `2 ^ 64` pushes, on a file whose reads do not overlap, the records of the
stream carry no reading where no directory is one of a GPU driver; else all four attributes of every
record were read below the first directory that is one. -/
theorem hwmon_stream {kernelRead : String → Except Errno (List UInt8)} {hwmonPath : Option String}
    {name : Vector UInt8 64} (huser : hwmonPath = none ∨ hwmonPath = some "")
    (hprobe : probeHwmonPaths kernelRead hwmonPath name .absent = some paths)
    (hinit : ringInit size vzalloc = .ok r)
    (h : Device.machine.Trace (.start r paths intervalMs stack) ts d) (hover : NoOverlap f ts)
    (hpush : Device.pushCount ts < 2 ^ 64) :
    ∃ es : List CollectorEnv, es.Sublist (passes ts) ∧
      ((∀ i < 10, isGpuHwmon kernelRead i = false) → (returnedOn f ts).flatten
        = (es.map fun e => unavailableSample e.ktimeGetNs stack.pad).flatMap GpuSample.bytes) ∧
      ∀ i < 10, isGpuHwmon kernelRead i = true → (∀ j < i, isGpuHwmon kernelRead j = false) →
        (returnedOn f ts).flatten
          = (es.map fun e => collectSample e (.inDir (hwmonDir i)) stack).flatMap
            GpuSample.bytes := by
  obtain ⟨blocks, hstream⟩ := fileStream_of_trace hinit h hover hpush
  obtain ⟨es, hsub, hrecords⟩ := hstream.exists_passes h
  have hreturned := hrecords ▸ hstream.flatten_returnedOn
  -- the device was set up with what the scan has found
  rw [probeHwmonPaths_eq kernelRead huser] at hprobe
  have hpaths := Option.some.inj hprobe
  refine ⟨es, hsub, fun hnone => ?_, fun i hi hgpu hfirst => ?_⟩
  · rw [find?_isGpuHwmon_eq_none.mpr hnone] at hpaths
    obtain rfl : AttrPaths.absent = paths := hpaths
    exact hreturned
  · rw [find?_isGpuHwmon_eq_some.mpr ⟨hi, hgpu, hfirst⟩] at hpaths
    obtain rfl : AttrPaths.inDir (hwmonDir i) = paths := hpaths
    exact hreturned

end Run

/-- What a pass finds when the GPU of `twoHwmons` reports 45 degrees and nothing else. -/
def warmEnv : CollectorEnv where
  ktimeGetNs := 1
  kernelRead path :=
    if path = "/sys/class/hwmon/hwmon2/temp1_input" then .ok (cBytes "45000\n")
    else .error .ENOENT
  kstrtos64 := kstrtos64
  interrupted := false

/-- One pass on the machine of `twoHwmons`, and a `read()` for its sample. -/
theorem hwmon_stream_second :
    ∃ (ts : List DeviceTransition) (d : Device) (es : List CollectorEnv),
      Device.machine.Trace (.start ⟨Array.replicate 2 default, 2, 1, 0, 0⟩
        (.inDir (hwmonDir 2)) 500 default) ts d ∧
      es.Sublist (passes ts) ∧ (passes ts).map (·.ktimeGetNs) = [1] ∧
      (returnedOn 0 ts).flatten
        = (es.map fun e => collectSample e (.inDir (hwmonDir 2)) default).flatMap
          GpuSample.bytes ∧
      (returnedOn 0 ts).flatten.take 12 = [1, 0, 0, 0, 0, 0, 0, 0, 0xc8, 0xaf, 0, 0] := by
  have hrun : (Device.machine.exec (.start ⟨Array.replicate 2 default, 2, 1, 0, 0⟩
        (.inDir (hwmonDir 2)) 500 default)
      ([.kthreadRun, .openFile 0 true] ++ List.replicate 5 (.collect warmEnv)
        ++ [.read 7 0 48 true]
        ++ List.replicate 5 (.advance 7 ⟨some #[default], 0⟩))).map
        (fun p => decide (NoOverlap 0 p.1 ∧ Device.pushCount p.1 = 1 ∧
          (passes p.1).map (·.ktimeGetNs) = [1] ∧
          (returnedOn 0 p.1).flatten.take 12 = [1, 0, 0, 0, 0, 0, 0, 0, 0xc8, 0xaf, 0, 0]))
        = some true := by
    decide +kernel
  obtain ⟨⟨ts, d⟩, hexec, hseen⟩ := Option.map_eq_some_iff.mp hrun
  obtain ⟨hover, hcount, hpasses, hbytes⟩ := of_decide_eq_true hseen
  have hinit : ringInit 2 true = .ok ⟨Array.replicate 2 default, 2, 1, 0, 0⟩ := rfl
  have htrace := Trace.of_exec hexec
  have hfind : (List.range' 0 10).find? (isGpuHwmon twoHwmons) = some 2 := by decide
  have hprobe := probeHwmonPaths_eq twoHwmons (.inl rfl)
    (Vector.replicate 64 0xff) .absent
  rw [hfind] at hprobe
  obtain ⟨hi, hgpu, hfirst⟩ := find?_isGpuHwmon_eq_some.mp hfind
  obtain ⟨es, hsub, -, hreturned⟩ :=
    hwmon_stream (.inl rfl) hprobe hinit htrace hover (by rw [hcount]; decide)
  exact ⟨ts, d, es, htrace, hsub, hpasses, hreturned 2 hi hgpu hfirst, hbytes⟩

end GpuTelem
