import GpuTelem.EndToEnd

/-!
# The snapshot of `nvml_validate`

`user/nvml_validate.cpp`, built without NVML: it opens the device, reads one record and shows it
next to what NVML would say. That only makes sense if the record is whole and recent, whatever the
collector and the other readers do in the meantime.

## Main definitions

* `NvmlValidate.readKernelSample`: the function of this name, given what its system calls return;
* `NvmlValidate.kernelColumn`: the column "Kernel driver" of the table.

## Main results

* `NvmlValidate.kernelColumn_eq`: the column against the dictionary of `consumer.py`;
* `snapshot_fresh`: what the snapshot shows.
-/

namespace GpuTelem

open Machine Consumer

namespace NvmlValidate

/-- Why `read_kernel_sample` returns -1, with what its message reports. -/
inductive SnapshotError
  /-- `"open %s: %s"`. -/
  | openFailed (e : Errno)
  /-- `"read: got %zd / %zu bytes"`. -/
  | shortRead (n : ℤ)
  deriving DecidableEq

/-- `read_kernel_sample`, when `open` returns `opened`, and `read` returns `result` and writes
`bytes`. -/
def readKernelSample (opened : Except Errno Unit) (result : Except Errno Int64)
    (bytes : List UInt8) : Except SnapshotError GpuSample :=
  match opened with
  | .error e => .error (.openFailed e)
  | .ok () =>
      -- a system call that fails returns -1
      let n : ℤ :=
        match result with
        | .error _ => -1
        | .ok v => v.toInt
      if n ≠ sampleSz.toNat then .error (.shortRead n) else .ok (.ofBytes bytes)

/-- A whole record is what it was. -/
theorem readKernelSample_bytes (x : GpuSample) :
    readKernelSample (.ok ()) (.ok 48) x.bytes = .ok x := by
  rw [readKernelSample]
  simp only [GpuSample.ofBytes_bytes]
  rfl

/-- The column "Kernel driver", by metric; `none` is "unavailable". -/
structure KernelColumn where
  /-- In thousandths of a degree. -/
  temperature : Option ℤ
  fanSpeed : Option ℤ
  /-- In microwatts. -/
  powerDraw : Option ℤ
  coreFrequency : Option ℤ
  memoryFrequency : Option ℤ
  gpuUtilisation : Option ℤ
  deriving DecidableEq

/-- What `main` shows of the record `ks`. -/
def kernelColumn (ks : GpuSample) : KernelColumn where
  temperature := if ks.tempMillideg ≠ -1 then some ks.tempMillideg.toInt else none
  fanSpeed := if ks.fanRpm ≠ 0 then some ks.fanRpm.toNat else none
  powerDraw := if ks.powerUw > 0 then some ks.powerUw.toNat else none
  coreFrequency := if ks.coreFreqMhz ≠ 0 then some ks.coreFreqMhz.toNat else none
  memoryFrequency := if ks.memFreqMhz ≠ 0 then some ks.memFreqMhz.toNat else none
  -- the field is not looked at
  gpuUtilisation := none

/-- The same metrics in a dictionary of `consumer.py`. -/
def KernelColumn.ofDict (d : SampleDict) : KernelColumn where
  temperature := d.tempC
  fanSpeed := d.fanRpm
  powerDraw := d.powerW
  coreFrequency := d.coreFreqMhz
  memoryFrequency := d.memFreqMhz
  gpuUtilisation := d.gpuUtilPct

/-- The column is what `consumer.py` shows, as long as the utilisation is not available. -/
theorem kernelColumn_eq {ks : GpuSample} (hutil : ks.gpuUtilPct = 0xffffffff) :
    kernelColumn ks = .ofDict (Sample.ofRecord ks).toDict := by
  -- the two programs write the test for zero in different ways
  have h32 : ∀ x : UInt32, (if x ≠ 0 then some (x.toNat : ℤ) else none) = noneIf 0 x.toNat := by
    intro x
    have hzero : (x.toNat : ℤ) = 0 ↔ x = 0 := by
      rw [Int.natCast_eq_zero, ← UInt32.toNat_inj]
      rfl
    simp only [noneIf, hzero, ne_eq, ite_not]
  have h64 : ∀ x : UInt64, (if x > 0 then some (x.toNat : ℤ) else none) = noneIf 0 x.toNat := by
    intro x
    have hpos : x > 0 ↔ ¬ (x.toNat : ℤ) = 0 := by
      rw [gt_iff_lt, UInt64.lt_iff_toNat_lt, Int.natCast_eq_zero]
      exact Nat.pos_iff_ne_zero
    simp only [noneIf, hpos, ite_not]
  have htemp : ∀ x : Int32, (if x ≠ -1 then some x.toInt else none) = noneIf (-1) x.toInt := by
    intro x
    have hnone : x.toInt = -1 ↔ x = -1 := by
      rw [← Int32.toInt_inj]
      rfl
    simp only [noneIf, hnone, ne_eq, ite_not]
  simp only [kernelColumn, KernelColumn.ofDict, Sample.toDict, Sample.tempC, Sample.powerW,
    Sample.gpuUtil, Sample.ofRecord, h32, h64, htemp, hutil]
  rfl

end NvmlValidate

/-! ## The snapshot of a running device -/

section Run

variable {size : UInt32} {vzalloc : Bool} {r : RingBuf} {paths : AttrPaths} {intervalMs : UInt32}
  {stack : GpuSample} {ts : List DeviceTransition} {τ : DeviceTransition} {d : Device}
  {f : FileId} {t : ThreadId}

/-- The samples of a log with the numbers of a block are as many as the numbers. -/
theorem eq_singleton_of_recordsAt {samples : List GpuSample} {block : List ℕ} {x : GpuSample}
    (hbound : ∀ q ∈ block, q < samples.length) (h : recordsAt samples block = [x]) :
    ∃ q, block = [q] ∧ samples[q]? = some x := by
  have hcons : ∀ q rest, recordsAt samples (q :: rest)
      = (samples[q]?).toList ++ recordsAt samples rest := by
    intro q rest
    cases hq : samples[q]? <;> simp [recordsAt, hq]
  cases block with
  | nil => cases h
  | cons q rest =>
      have hq := List.getElem?_eq_getElem (hbound q List.mem_cons_self)
      rw [hcons, hq] at h
      obtain ⟨rfl, hrest⟩ := List.cons.inj h
      cases rest with
      | nil => exact ⟨q, rfl, hq⟩
      | cons q' rest =>
          have hq' := List.getElem?_eq_getElem (hbound q' (by simp))
          rw [hcons, hq'] at hrest
          cases hrest

/-- Every sample of the log is the reading of a pass. -/
theorem exists_pass_of_pushed
    (h : Device.machine.Trace (.start r paths intervalMs stack) ts d) {q : ℕ} {x : GpuSample}
    (hq : (pushed (readerSteps ts))[q]? = some x) :
    ∃ e, (passes ts)[q]? = some e ∧ x = collectSample e paths stack := by
  obtain ⟨hlt, -⟩ := List.getElem?_eq_some_iff.mp hq
  rw [getElem?_pushed h hlt, Option.map_eq_some_iff] at hq
  obtain ⟨e, he, rfl⟩ := hq
  exact ⟨e, he, rfl⟩

/-- When a `read()` has returned from `copy_to_user`, no call on the file is left. -/
theorem not_copiesOn_of_returned (htr : Device.machine.Trace (.start r paths intervalMs stack) ts d)
    (hover : NoOverlap f ts) {d' : Device} {op : DeviceOp} {o : DeviceObs} {e : ReadEnv}
    {c : ReadCall} {kbuf : Array GpuSample} {n : UInt32} (h : DeviceStep d op d' o)
    (hop : op = .advance t e) (hcall : d.calls.find t = some c) (hfile : c.file = f)
    (hpc : c.pc = .copy kbuf n) : ∀ kbuf n, ¬ d'.CopiesOn f kbuf n := by
  rintro kbuf' n' ⟨u, c', hc', hfile', -⟩
  rcases h.call_cases hc' with ⟨g, count, nonblock, hread, -⟩ |
    ⟨e', b, nextSeq, hadvance, hb, -, hstep⟩ | ⟨b, w, g, hb, hother, -, rfl⟩
  · rw [hop] at hread
    cases hread
  -- the call itself does not go on from here
  · obtain ⟨rfl, -⟩ := DeviceOp.advance.inj (hop.symm.trans hadvance)
    obtain rfl : c = b := Option.some.inj (hcall.symm.trans hb)
    rcases hstep.goto_cases with ⟨-, -, hnot, -⟩ | ⟨kbuf, hconsume, -⟩
    · exact hnot kbuf n hpc
    · rw [hpc] at hconsume
      cases hconsume
  -- and there was no other
  · obtain rfl := single_call_of_trace htr hover hcall hb hfile hfile'
    exact hother e hop

/-- What a `read()` for one record returns: one whole sample, or one of three errors. -/
theorem read_one_sample (hinit : ringInit size vzalloc = .ok r)
    (h : Device.machine.Trace (.start r paths intervalMs stack) (ts ++ [τ]) d)
    (hpush : Device.pushCount (ts ++ [τ]) < 2 ^ 64) (hover : NoOverlap f ts)
    {result : Except Errno Int64} {bytes : List UInt8}
    (hret : τ.output = .returned t result bytes) (hread : lastRead t ts = some (f, 48, false)) :
    (∃ x, result = .ok 48 ∧ bytes = GpuSample.bytes x ∧ returnedBy f τ = some bytes ∧
      readerSteps [τ] = [] ∧ (∀ kbuf n, ¬ d.CopiesOn f kbuf n) ∧
      ∃ c, d.readers.cursor f = some c) ∨
    result = .error .ERESTARTSYS ∨ result = .error .ENOMEM ∨ result = .error .EFAULT := by
  obtain ⟨htr, hlast, rfl⟩ := Trace.of_snoc h
  rw [Device.machine_step, hret] at hlast
  obtain ⟨e, c, nextSeq, hop, hcall, hcursor, hstep⟩ := step_returned hlast
  obtain ⟨hfile, hcount, hnonblock⟩ : c.file = f ∧ c.count = 48 ∧ c.nonblock = false := by
    simpa using (lastRead_of_call htr rfl hcall).symm.trans hread
  subst hfile
  have hsound := Device.sound_of_trace htr (.start hinit paths intervalMs stack)
  have hled := resultLedger_of_trace hinit htr
    ((Device.pushCount_le_append ts [τ]).trans_lt hpush) hcall hover
  generalize hpost : τ.post.readers = post at hstep
  cases hstep with
  | einval hpc hshort =>
      rw [hcount] at hshort
      exact absurd hshort (by decide)
  | eagain hpc hnb havail => simp [hnonblock] at hnb
  | erestartsys hpc havail => exact .inr (.inl rfl)
  | enomem hpc hkmalloc => exact .inr (.inr (.inl rfl))
  | efault kbuf n hpc hfault hn => exact .inr (.inr (.inr rfl))
  | done kbuf n hpc hcopy =>
      -- `ring_consume` has found something, and there was room for one sample
      obtain ⟨σ, -, backlog, -, hpos, hn⟩ := hled.consumed kbuf n hpc
      have hsize : 0 < size.toNat := hsound.size_eq ▸ hsound.wellFormed.size_pos
      obtain rfl : n = 1 := by
        rw [hcount] at hn
        rw [← UInt32.toNat_inj, hn]
        simp only [UInt64.reduceToNat, UInt32.reduceToNat]
        omega
      have hroom := (hsound.call_sound t c hcall).filled kbuf 1 hpc
      rw [UInt32.toNat_one] at hroom
      have htake : kbuf.toList.take 1 = [kbuf[0]] := by
        rw [List.take_one, List.head?_eq_getElem?]
        simp
      refine .inl ⟨kbuf[0], rfl, ?_, ?_, ?_, ?_, nextSeq, hcursor⟩
      · simp [sampleBytes, htake]
      · simp [returnedBy, hret, callFile, hop, hcall]
      · exact Trace.projected_singleton_none
          (by rw [hop]; exact readerOp_advance_eq_none hcall (by simp [hpc]))
      · exact not_copiesOn_of_returned htr hover (Device.deviceStep_of_step hlast) hop hcall rfl hpc

/-- **What the snapshot shows.** In every run with fewer than `2 ^ 64` pushes, under every
interleaving, when `nvml_validate` reads from a file of its own: it shows one whole sample, which
the collector has pushed since the program opened the device, the first one if the ring has not been
overrun; and of every metric it shows what `consumer.py` would show. It fails, with a message about
-1 bytes, when it is interrupted by a signal, when there is no memory or when its record is not
mapped, and never because of a short read. -/
theorem snapshot_fresh (hinit : ringInit size vzalloc = .ok r)
    (h : Device.machine.Trace (.start r paths intervalMs stack) (ts ++ [τ]) d)
    (hpush : Device.pushCount (ts ++ [τ]) < 2 ^ 64) (hover : NoOverlap f ts)
    (hfirst : returnedOn f ts = []) (hfault : ∀ σ ∈ ts, faultsOn f σ = false)
    {result : Except Errno Int64} {bytes : List UInt8}
    (hret : τ.output = .returned t result bytes) (hread : lastRead t ts = some (f, 48, false))
    {h₀ : ℕ} (hopen : OpenedAt (readerSteps ts) f h₀) :
    (∀ ks, NvmlValidate.readKernelSample (.ok ()) result bytes = .ok ks →
      ∃ q e, h₀ ≤ q ∧ (skipped (readerSteps ts) f = 0 → q = h₀) ∧
        (pushed (readerSteps ts))[q]? = some ks ∧ (passes ts)[q]? = some e ∧
        ks = collectSample e paths stack ∧
        NvmlValidate.kernelColumn ks = .ofDict (Sample.ofRecord ks).toDict) ∧
    ∀ err, NvmlValidate.readKernelSample (.ok ()) result bytes = .error err →
      err = .shortRead (-1) ∧ (result = .error .ERESTARTSYS ∨ result = .error .ENOMEM ∨
        result = .error .EFAULT) := by
  obtain ⟨htr, hlast, hpost⟩ := Trace.of_snoc h
  rcases read_one_sample hinit h hpush hover hret hread with
    ⟨x, rfl, rfl, hreturned, hquiet, hidle, c, hcursor⟩ | herror
  · rw [NvmlValidate.readKernelSample_bytes]
    refine ⟨fun ks hks => ?_, fun err herr => by cases herr⟩
    obtain rfl : x = ks := Except.ok.inj hks
    have hsteps : readerSteps (ts ++ [τ]) = readerSteps ts := by
      rw [readerSteps_append, hquiet, List.append_nil]
    obtain ⟨e, -, -, hop, -⟩ := step_returned (hret ▸ hlast)
    have hover' : NoOverlap f (ts ++ [τ]) :=
      forall_mem_snoc.mpr ⟨hover, by simp [hop, DeviceOp.readsFile]⟩
    have hfault' : ∀ σ ∈ ts ++ [τ], faultsOn f σ = false :=
      forall_mem_snoc.mpr ⟨hfault, by simp [faultsOn, hret]⟩
    obtain ⟨blocks, hstream⟩ := fileStream_of_trace hinit h hover' hpush
    -- the stream of the file is this one record
    have hreturns : returnedOn f (ts ++ [τ]) = [x.bytes] := by
      rw [returnedOn, List.filterMap_append, ← returnedOn, hfirst,
        List.filterMap_cons_some hreturned]
      rfl
    have hblocks := hreturns.symm.trans hstream.returned_eq
    obtain ⟨block, rfl⟩ : ∃ block, blocks = [block] := by
      have hlength := congrArg List.length hblocks
      rw [List.length_map, List.length_singleton] at hlength
      exact List.length_eq_one_iff.mp hlength.symm
    have hopen' : OpenedAt (readerSteps (ts ++ [τ])) f h₀ := hsteps ▸ hopen
    have hconsecutive := hstream.consecutive hfault' hidle hopen' hcursor
    have hbounded := hstream.bounded
    have hopened := hstream.opened h₀ hopen'
    rw [hsteps] at hblocks hconsecutive hbounded
    simp only [List.map_cons, List.map_nil, List.cons.injEq, and_true] at hblocks
    simp only [List.flatten_cons, List.flatten_nil, List.append_nil]
      at hconsecutive hbounded hopened
    have hrecords : [x].flatMap GpuSample.bytes = bytesAt (pushed (readerSteps ts)) block := by
      simpa using hblocks
    obtain ⟨q, rfl, hq⟩ := eq_singleton_of_recordsAt hbounded (records_eq_of_bytesAt hrecords).symm
    obtain ⟨e', hpass, hreading⟩ := exists_pass_of_pushed htr hq
    refine ⟨q, e', hopened q (List.mem_singleton_self q), fun hnone => ?_, hq, hpass, hreading,
      NvmlValidate.kernelColumn_eq (by rw [hreading]; rfl)⟩
    have hrange := hconsecutive hnone
    cases hn : c.toNat - h₀ with
    | zero => simp [hn] at hrange
    | succ n =>
        rw [hn, List.range'_succ] at hrange
        exact (List.cons.inj hrange).1
  · have hnone : NvmlValidate.readKernelSample (.ok ()) result bytes
        = .error (.shortRead (-1)) := by
      rcases herror with rfl | rfl | rfl <;> rfl
    rw [hnone]
    refine ⟨fun ks hks => ?_, fun err herr => ⟨(Except.error.inj herr).symm, herror⟩⟩
    cases hks

end Run

/-- The snapshot on the machine of `twoHwmons`, with one sample pushed after the opening. -/
theorem snapshot_fresh_warm :
    ∃ ts τ d ks bytes, Device.machine.Trace (.start ⟨Array.replicate 2 default, 2, 1, 0, 0⟩
        (.inDir (hwmonDir 2)) 500 default) (ts ++ [τ]) d ∧
      τ.output = .returned 7 (.ok 48) bytes ∧
      NvmlValidate.readKernelSample (.ok ()) (.ok 48) bytes = .ok ks ∧
      (pushed (readerSteps ts))[0]? = some ks ∧
      NvmlValidate.kernelColumn ks = .ofDict (Sample.ofRecord ks).toDict ∧
      NvmlValidate.kernelColumn ks
        = { temperature := some 45000, fanSpeed := none, powerDraw := none, coreFrequency := none,
            memoryFrequency := none, gpuUtilisation := none } := by
  let x := collectSample warmEnv (.inDir (hwmonDir 2)) default
  let go : DeviceOp := .advance 7 ⟨some #[default], 0⟩
  have hrun : ((Device.machine.exec (.start ⟨Array.replicate 2 default, 2, 1, 0, 0⟩
      (.inDir (hwmonDir 2)) 500 default)
      ([.kthreadRun, .openFile 0 true] ++ List.replicate 5 (.collect warmEnv)
        ++ [.read 7 0 48 false] ++ List.replicate 4 go)).bind fun p =>
      (Device.machine.step p.2 go).map fun q => (p, q)).map (fun v =>
        decide ((NoOverlap 0 v.1.1 ∧
          Device.pushCount (v.1.1 ++ [⟨v.1.2, go, v.2.1, v.2.2⟩]) = 1 ∧
          returnedOn 0 v.1.1 = [] ∧ (∀ σ ∈ v.1.1, faultsOn 0 σ = false)) ∧
          lastRead 7 v.1.1 = some (0, 48, false) ∧ OpenedAt (readerSteps v.1.1) 0 0 ∧
          skipped (readerSteps v.1.1) 0 = 0 ∧ v.2.2 = .returned 7 (.ok 48) x.bytes))
      = some true := by
    decide +kernel
  obtain ⟨⟨⟨ts, s⟩, d, o⟩, hexec, hseen⟩ := Option.map_eq_some_iff.mp hrun
  obtain ⟨⟨hover, hcount, hfirst, hfault⟩, hread, hopen, hnone, rfl⟩ := of_decide_eq_true hseen
  obtain ⟨p, hts, hlast⟩ := Option.bind_eq_some_iff.mp hexec
  obtain ⟨q, hstep, heq⟩ := Option.map_eq_some_iff.mp hlast
  cases heq
  have hinit : ringInit 2 true = .ok ⟨Array.replicate 2 default, 2, 1, 0, 0⟩ := rfl
  have htr := (Trace.of_exec hts).snoc hstep
  have hks := NvmlValidate.readKernelSample_bytes x
  obtain ⟨q, e, -, hq, hx, -, -, hcolumn⟩ :=
    (snapshot_fresh hinit htr (by rw [hcount]; decide) hover hfirst hfault rfl hread hopen).1 x hks
  rw [hq hnone] at hx
  exact ⟨ts, _, d, x, x.bytes, htr, rfl, hks, hx, hcolumn, by decide +kernel⟩

end GpuTelem
