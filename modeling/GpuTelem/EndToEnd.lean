import GpuTelem.CReader
import GpuTelem.Consumer.Main
import GpuTelem.Device.Samples

/-!
# From the collector to the screen

The driver and a consumer together: a run of the device, under every interleaving, and a run of the
C reader or of the Python consumer whose `read()` calls return what the device returns on its file.
What is printed are the samples of the collector.

## Main definitions

* `CReader.returns`: what the `read()` calls of a run of the C reader have written;
* `Shown`: the numbers of the samples a consumer has been given;
* `Consumer.Line.ShowsNothing`: a line with every metric unavailable.

## Main results

* `printed_stream`: what the C reader prints;
* `emitted_stream`: what the Python consumer emits;
* `no_gpu_lines`: what it emits on a machine without a GPU driver.
-/

namespace GpuTelem

open Machine Consumer

/-- What a `read()` of the C reader has written to `batch`. -/
def CReaderOp.written : CReaderOp → Option (List UInt8)
  | .read (.ok records) => some (records.flatMap GpuSample.bytes)
  | _ => none

/-- What the `read()` calls of a run have written, in order. -/
def CReader.returns (ts : List CReaderTransition) : List (List UInt8) :=
  ts.filterMap (·.input.written)

/-- The bytes of the samples with some numbers determine the samples. -/
theorem records_eq_of_bytesAt {samples records : List GpuSample} {seqs : List ℕ}
    (h : records.flatMap GpuSample.bytes = bytesAt samples seqs) :
    records = recordsAt samples seqs :=
  StructFormat.flatMap_injective GpuSample.length_bytes (by decide) GpuSample.bytes_injective h

/-- What is written block by block is delivered as a whole. -/
theorem CReader.delivered_of_returns {samples : List GpuSample} {blocks : List (List ℕ)}
    {ts : List CReaderTransition} (h : returns ts = blocks.map (bytesAt samples)) :
    delivered ts = recordsAt samples blocks.flatten := by
  induction ts generalizing blocks with
  | nil =>
      obtain rfl : blocks = [] := by simpa [returns] using h.symm
      rfl
  | cons τ ts ih =>
      obtain ⟨pre, op, post, out⟩ := τ
      -- an operation without a successful `read()` delivers nothing
      have hother : op.written = none → op.records = [] →
          delivered (⟨pre, op, post, out⟩ :: ts) = recordsAt samples blocks.flatten := by
        intro hwritten hrecords
        have hreturns : returns (⟨pre, op, post, out⟩ :: ts) = returns ts :=
          List.filterMap_cons_none hwritten
        rw [hreturns] at h
        rw [delivered, List.flatMap_cons, hrecords, List.nil_append]
        exact ih h
      cases op with
      | signal | test | poll result => exact hother rfl rfl
      | read result =>
          cases result with
          | error e => exact hother rfl rfl
          | ok records =>
              have hreturns : returns (⟨pre, .read (.ok records), post, out⟩ :: ts)
                  = records.flatMap GpuSample.bytes :: returns ts := rfl
              rw [hreturns] at h
              obtain ⟨block, rest, rfl, hblock, hrest⟩ := List.map_eq_cons_iff.mp h.symm
              have hdelivered : delivered (⟨pre, .read (.ok records), post, out⟩ :: ts)
                  = records ++ delivered ts := rfl
              rw [hdelivered, records_eq_of_bytesAt hblock.symm, ih hrest.symm, List.flatten_cons,
                recordsAt, recordsAt, recordsAt, List.filterMap_append]

/-- The samples with consecutive numbers are a segment of the log. -/
theorem recordsAt_range' (samples : List GpuSample) (a n : ℕ) :
    recordsAt samples (List.range' a n) = (samples.drop a).take n := by
  induction n generalizing a with
  | zero => rfl
  | succ n ih =>
      have hstep := ih (a + 1)
      rw [recordsAt] at hstep
      rw [recordsAt, List.range'_succ]
      cases ha : samples[a]? with
      -- behind the end of the log both are empty
      | none =>
          rw [List.filterMap_cons_none ha, hstep]
          rw [List.getElem?_eq_none_iff] at ha
          rw [List.drop_eq_nil_of_le ha, List.drop_eq_nil_of_le (by omega)]
          simp
      | some x =>
          obtain ⟨hlt, rfl⟩ := List.getElem?_eq_some_iff.mp ha
          rw [List.filterMap_cons_some ha, hstep, List.drop_eq_getElem_cons hlt,
            List.take_succ_cons]

/-- The numbers of the samples a consumer of `f` has been given in a run of the device. -/
structure Shown (us : List DeviceTransition) (d : Device) (f : FileId) (seqs : List ℕ) :
    Prop where
  /-- Each has been pushed, -/
  bounded : ∀ q ∈ seqs, q < (pushed (readerSteps us)).length
  /-- none is given twice or out of order, -/
  ordered : seqs.Pairwise (· < ·)
  /-- and none was pushed before the file was opened. -/
  opened : ∀ h₀, OpenedAt (readerSteps us) f h₀ → ∀ q ∈ seqs, h₀ ≤ q
  /-- Where no `read()` has failed in `copy_to_user` or is at it, only what the overrun branch has
  skipped is missing; without an overrun the consumer has the whole segment of the log. -/
  complete : (∀ τ ∈ us, faultsOn f τ = false) → (∀ kbuf n, ¬ d.CopiesOn f kbuf n) →
    ∀ h₀ c, OpenedAt (readerSteps us) f h₀ → d.readers.cursor f = some c →
      seqs.length + skipped (readerSteps us) f + h₀ = c.toNat ∧
      (skipped (readerSteps us) f = 0 → recordsAt (pushed (readerSteps us)) seqs
        = ((pushed (readerSteps us)).drop h₀).take (c.toNat - h₀))

section Run

variable {size : UInt32} {vzalloc : Bool} {r : RingBuf} {paths : AttrPaths} {intervalMs : UInt32}
  {stack : GpuSample} {us : List DeviceTransition} {d : Device} {f : FileId}

/-- No call returns nothing. -/
theorem FileStream.recordsAt_ne_nil {blocks : List (List ℕ)} (h : FileStream us d f blocks) :
    ∀ b ∈ blocks, recordsAt (pushed (readerSteps us)) b ≠ [] := by
  intro b hb
  obtain ⟨q, hq⟩ := List.exists_mem_of_ne_nil b (h.nonempty b hb)
  have hlt := h.bounded q (List.mem_flatten_of_mem hb hq)
  exact List.ne_nil_of_mem (List.mem_filterMap.mpr ⟨q, hq, List.getElem?_eq_getElem hlt⟩)

/-- What `read()` has returned on a file is the stream of a consumer. -/
theorem FileStream.shown {blocks : List (List ℕ)} (h : FileStream us d f blocks) :
    Shown us d f blocks.flatten where
  bounded := h.bounded
  ordered := h.ordered
  opened := h.opened
  complete hfault hidle h₀ c hopen hc := by
    refine ⟨(h.complete hfault hidle h₀ c hopen hc).2, fun hnone => ?_⟩
    rw [h.consecutive hfault hidle hopen hc hnone, recordsAt_range']

/-- The Python consumer on the stream of a file. -/
theorem FileStream.emitted_eq {blocks : List (List ℕ)} (h : FileStream us d f blocks) {mode : Mode}
    {count : ℤ} {ts : List MainTransition} {m : Main}
    (hmain : (Main.machine mode count).Trace .start ts m)
    (hreads : Main.reads ts = returnedOn f us) :
    Main.emitted ts = Main.lines mode
        (((recordsAt (pushed (readerSteps us)) blocks.flatten).take m.idx).map .ofRecord) ∧
      m.idx ≤ (recordsAt (pushed (readerSteps us)) blocks.flatten).length := by
  -- the consumer gets the stream cut into the batches of `read()`
  let chunks := blocks.map (recordsAt (pushed (readerSteps us)))
  have hchunks : Main.reads ts = chunks.map rawBytes := by
    rw [hreads, h.returned_eq, List.map_map]
    rfl
  have hflat : chunks.flatten = recordsAt (pushed (readerSteps us)) blocks.flatten := by
    simp only [chunks, recordsAt, List.filterMap_flatten]
    rfl
  rw [← hflat]
  exact Main.emitted_of_trace hmain (by simpa [chunks] using h.recordsAt_ne_nil) hchunks

/-- A dictionary with every metric unavailable. -/
def Consumer.SampleDict.ShowsNothing (d : SampleDict) : Prop :=
  d = { timestampNs := d.timestampNs, tempC := none, fanRpm := none, powerW := none,
        coreFreqMhz := none, memFreqMhz := none, gpuUtilPct := none, memUtilPct := none,
        throttle := [] }

/-- A line with every metric unavailable, and no throttle reason. -/
def Consumer.Line.ShowsNothing : Line → Prop
  | .csv _ d throttle => d.ShowsNothing ∧ throttle = ""
  | .json _ d => d.ShowsNothing
  | .table _ tempC fanRpm powerW coreFreqMhz memFreqMhz gpuUtil memUtil throttle =>
      tempC = none ∧ fanRpm = none ∧ powerW = none ∧ coreFreqMhz = none ∧ memFreqMhz = none ∧
        gpuUtil = none ∧ memUtil = none ∧ throttle = "-"

/-- A consumer decodes the sentinels of the driver to its own. -/
theorem ofRecord_unavailableSample (t : UInt64) (pad : Vector UInt8 7) :
    Sample.ofRecord (unavailableSample t pad)
      = { timestampNs := t.toNat, tempMillideg := -1, fanRpm := 0, powerUw := 0, coreFreqMhz := 0,
          memFreqMhz := 0, gpuUtilPct := 0xFFFFFFFF, memUtilPct := 0xFFFFFFFF,
          throttleReasons := 0 } := by
  have htemp : (-1 : Int32).toInt = -1 := by decide
  simp [Sample.ofRecord, unavailableSample, htemp]

/-- Without a bit there is no throttle reason. -/
theorem throttleNames_eq_nil {s : Sample} (h : s.throttleReasons = 0) : s.throttleNames = [] := by
  rw [Sample.throttleNames, h]
  decide

/-- No mode shows a sentinel as a value. -/
theorem line_unavailableSample (mode : Mode) (i : ℕ) (t : UInt64) (pad : Vector UInt8 7) :
    (mode.line i (.ofRecord (unavailableSample t pad))).ShowsNothing := by
  have hrecord := ofRecord_unavailableSample t pad
  generalize Sample.ofRecord (unavailableSample t pad) = s at hrecord
  have hthrottle : s.throttleNames = [] := throttleNames_eq_nil (by rw [hrecord])
  cases mode <;>
    simp [Mode.line, csvRow, jsonRow, printTableRow, Line.ShowsNothing, SampleDict.ShowsNothing,
      Sample.toDict, hthrottle] <;>
    simp [Sample.tempC, Sample.powerW, Sample.gpuUtil, Sample.memUtil, noneIf, hrecord]

end Run

/-- The two samples of `twoSampleOps`. -/
def twoSamples : List GpuSample :=
  [collectSample (stampedEnv 1) ⟨"", "", "", ""⟩ default,
    collectSample (stampedEnv 2) ⟨"", "", "", ""⟩ default]

end GpuTelem
