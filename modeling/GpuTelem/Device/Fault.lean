import GpuTelem.Device.Call

/-!
# Failed reads

`gpu_telem_read` has five error exits. Four of them precede `ring_consume`, and a call that leaves
by one of them has touched nothing. The fifth, `-EFAULT`, comes after `ring_consume` has moved the
cursor: what was copied to the kernel buffer is gone, and the next `read()` continues behind it.

## Main definitions

* `LosesNothing`: the steps of a call leave the cursor of its file and `dropped` alone;
* `ConsumesUnread`: a step of a call whose `ring_consume` finds an unread sample.

## Main results

* `callLedger_of_trace`: what a call has done so far, by the point it is at;
* `failed_read_loses_nothing`: exactly when a failed call loses nothing;
* `failed_read_loses_sample`: a call that loses a sample.
-/

namespace GpuTelem

open Machine BroadcastLog

/-- None of the steps changes the cursor of `f` or the counter `dropped`. -/
def LosesNothing (f : FileId) (own : List DeviceTransition) : Prop :=
  ∀ σ ∈ own, σ.post.readers.cursor f = σ.pre.readers.cursor f ∧
    ringDropped σ.post.readers.ring = ringDropped σ.pre.readers.ring

instance (f : FileId) (own : List DeviceTransition) : Decidable (LosesNothing f own) :=
  inferInstanceAs (Decidable (∀ σ ∈ own, _ ∧ _))

/-- Whether an operation is a step of a `read()` during which `copy_to_user` faults. -/
def DeviceOp.faults : DeviceOp → Bool
  | .advance _ e => e.uncopied != 0
  | _ => false

/-- In this step thread `t` reaches `ring_consume` with an unread sample. -/
def ConsumesUnread (t : ThreadId) (σ : DeviceTransition) : Prop :=
  ∃ c kbuf nextSeq, σ.pre.calls.find t = some c ∧ c.pc = .consume kbuf ∧
    σ.pre.readers.cursor c.file = some nextSeq ∧
    ringDataAvailable σ.pre.readers.ring nextSeq = true

/-- The step that returns is not `ring_consume`. -/
theorem ReadStep.of_ret {s s' : Readers} {c : ReadCall} {e : ReadEnv} {nextSeq : UInt64}
    {result : Except Errno Int64} {bytes : List UInt8}
    (h : ReadStep s c e nextSeq s' (.ret result bytes)) :
    s' = s ∧ ∀ kbuf, c.pc ≠ .consume kbuf := by
  cases h <;> exact ⟨rfl, by simp [*]⟩

/-- `ring_consume` with room in the buffer moves the cursor exactly when something is unread. -/
theorem nextSeq_ringConsume_ne {r : RingBuf} {nextSeq : UInt64} {out : Array GpuSample}
    {max : UInt32} (hcount : (ringConsume r nextSeq out max).count ≠ 0) :
    (ringConsume r nextSeq out max).nextSeq ≠ nextSeq := by
  intro heq
  by_cases hle : r.headSeq ≤ nextSeq
  · rw [ringConsume_of_le hle] at hcount
    exact hcount rfl
  · have hlt := UInt64.le_of_lt (UInt64.not_le.mp hle)
    have hnext := toNat_nextSeq_ringConsume hlt out max
    have hresume := le_resume r.size.toNat r.headSeq.toNat nextSeq.toNat
    rw [heq, ← count_ringConsume hlt out max] at hnext
    have hpos : (ringConsume r nextSeq out max).count.toNat ≠ 0 := by
      rwa [Ne, ← UInt32.toNat_inj] at hcount
    omega

/-- The buffer of a call has room for a sample. -/
theorem ReadCall.Sound.maxSamples_pos {size : UInt32} {c : ReadCall} (h : c.Sound size)
    (hsize : 0 < size.toNat) (hpc : c.pc ≠ .entry) : 0 < c.maxSamples.toUInt32.toNat := by
  obtain ⟨hmin, hcast⟩ := h.toNat_maxSamples hpc
  obtain ⟨hcount, -⟩ := h.entered.resolve_left hpc
  rw [UInt64.lt_iff_toNat_lt] at hcount
  simp only [sampleSz, UInt64.reduceToNat] at hcount
  omega

/-- What the call of `t` has done, by the point it is at. -/
structure CallLedger (t : ThreadId) (own : List DeviceTransition) (c : ReadCall) : Prop where
  /-- Up to `ring_consume` it has done nothing to the ring or a cursor. -/
  untouched : (∀ kbuf n, c.pc ≠ .copy kbuf n) → ∀ σ ∈ own,
    σ.post.readers = σ.pre.readers ∧ σ.input.readerOp σ.pre = none ∧ ¬ ConsumesUnread t σ
  /-- With an empty buffer, it found nothing unread. -/
  empty : ∀ kbuf, c.pc = .copy kbuf 0 → ∀ σ ∈ own, ¬ ConsumesUnread t σ
  /-- With samples in its buffer, it found some unread and moved the cursor. -/
  consumed : ∀ kbuf n, c.pc = .copy kbuf n → n ≠ 0 → ∃ σ ∈ own, ConsumesUnread t σ ∧
    σ.post.readers.cursor c.file ≠ σ.pre.readers.cursor c.file

/-- A step before `ring_consume` adds nothing to the ledger. -/
private theorem CallLedger.before_consume {t : ThreadId} {own : List DeviceTransition}
    {c c' : ReadCall} {σ : DeviceTransition} {e : ReadEnv} (h : CallLedger t own c)
    (hop : σ.input = .advance t e) (hcall : σ.pre.calls.find t = some c)
    (hkeep : σ.post.readers = σ.pre.readers) (hpc : ∀ kbuf, c.pc ≠ .consume kbuf)
    (hpc₁ : ∀ kbuf n, c.pc ≠ .copy kbuf n) (hpc₂ : ∀ kbuf n, c'.pc ≠ .copy kbuf n) :
    CallLedger t (own ++ [σ]) c' := by
  have hnone : σ.input.readerOp σ.pre = none := hop ▸ readerOp_advance_eq_none hcall hpc
  refine ⟨fun _ => forall_mem_snoc.mpr ⟨h.untouched hpc₁, hkeep, hnone, ?_⟩,
    fun kbuf hcopy => absurd hcopy (hpc₂ kbuf 0), fun kbuf n hcopy => absurd hcopy (hpc₂ kbuf n)⟩
  rintro ⟨c₁, kbuf, -, hc₁, hconsume, -⟩
  obtain rfl : c = c₁ := Option.some.inj (hcall.symm.trans hc₁)
  exact hpc kbuf hconsume

variable {size : UInt32} {vzalloc : Bool} {r : RingBuf} {paths : AttrPaths} {intervalMs : UInt32}
  {stack : GpuSample} {ts : List DeviceTransition} {τ : DeviceTransition} {d : Device}
  {t : ThreadId}

/-- The ledger of every call in flight is right. -/
theorem callLedger_of_trace (hinit : ringInit size vzalloc = .ok r)
    (h : Device.machine.Trace (.start r paths intervalMs stack) ts d) {c : ReadCall}
    (hc : d.calls.find t = some c) : CallLedger t (callSteps t ts) c := by
  refine call_invariant (H := CallLedger t) h rfl (fun f count nonblock => ?_)
    (fun own c w g hled => ⟨hled.untouched, hled.empty, hled.consumed⟩) ?_ hc
  · exact ⟨by simp, by simp [ReadCall.start], by simp [ReadCall.start]⟩
  intro own σ e c c' nextSeq hσ hop hcall hcursor hread hled
  obtain ⟨before, after, -, htr, -, -⟩ := Trace.before_of_mem h hσ
  have hsound := Device.sound_of_trace htr (.start hinit paths intervalMs stack)
  have hcsound := hsound.call_sound t c hcall
  obtain ⟨hkeep, hpc, hpc₁, hpc₂⟩ | ⟨kbuf, hpc, hpost, rfl⟩ := hread.goto_cases
  · exact hled.before_consume hop hcall hkeep hpc hpc₁ hpc₂
  have hmax := hcsound.maxSamples_pos (hsound.size_eq ▸ hsound.wellFormed.size_pos) (by simp [hpc])
  have hcount := toNat_count_ringConsume σ.pre.readers.ring nextSeq kbuf c.maxSamples.toUInt32
  have hpos := hsound.wellFormed.size_pos
  -- the count is zero exactly when nothing is unread
  have hunread : ConsumesUnread t σ ↔
      (ringConsume σ.pre.readers.ring nextSeq kbuf c.maxSamples.toUInt32).count ≠ 0 := by
    rw [Ne, ← UInt32.toNat_inj, hcount, UInt32.toNat_zero]
    constructor
    · rintro ⟨c₁, kbuf₁, seq, hc₁, hpc₁, hseq, havail⟩
      obtain rfl : c = c₁ := Option.some.inj (hcall.symm.trans hc₁)
      obtain rfl : nextSeq = seq := Option.some.inj (hcursor.symm.trans hseq)
      have hlt := UInt64.lt_iff_toNat_lt.mp (ringDataAvailable_iff.mp havail)
      omega
    · intro hne
      refine ⟨c, kbuf, nextSeq, hcall, hpc, hcursor, ?_⟩
      rw [ringDataAvailable_iff, UInt64.lt_iff_toNat_lt]
      omega
  have hbefore := hled.untouched (by simp [hpc])
  refine ⟨fun hnot => absurd rfl (hnot _ _), ?_, ?_⟩
  · intro kbuf' hcopy
    obtain ⟨-, hzero⟩ := ReadPc.copy.inj hcopy
    refine forall_mem_snoc.mpr ⟨fun σ' hown => (hbefore σ' hown).2.2, ?_⟩
    rw [hunread, not_not]
    exact hzero
  · rintro kbuf' n hcopy hn
    obtain ⟨-, rfl⟩ := ReadPc.copy.inj hcopy
    refine ⟨σ, by simp, hunread.mpr hn, ?_⟩
    rw [hpost, hcursor]
    simpa using nextSeq_ringConsume_ne hn

/-- **When a failed read loses nothing.** For every call of every run, under every interleaving: if
it returns an error then it has changed neither the cursor of its file nor `dropped`, exactly when
it is not the case that its `copy_to_user` faults after its `ring_consume` found an unread sample.
In that case none of its steps was an operation on the ring or a cursor at all, so that a retry
finds what the steps of others left. -/
theorem failed_read_loses_nothing (hinit : ringInit size vzalloc = .ok r)
    (h : Device.machine.Trace (.start r paths intervalMs stack) (ts ++ [τ]) d)
    {result : Except Errno Int64} {bytes : List UInt8}
    (hret : τ.output = .returned t result bytes) {f : FileId} {count : UInt64} {nonblock : Bool}
    (hread : lastRead t ts = some (f, count, nonblock)) :
    (((∃ err, result = .error err) → LosesNothing f (callSteps t (ts ++ [τ]))) ↔
      ¬ (τ.input.faults = true ∧ ∃ σ ∈ callSteps t ts, ConsumesUnread t σ)) ∧
    ∀ err, result = .error err →
      ¬ (τ.input.faults = true ∧ ∃ σ ∈ callSteps t ts, ConsumesUnread t σ) →
      ∀ σ ∈ callSteps t (ts ++ [τ]),
        σ.post.readers = σ.pre.readers ∧ σ.input.readerOp σ.pre = none := by
  obtain ⟨htr, hstep, -⟩ := Trace.of_snoc h
  rw [hret] at hstep
  obtain ⟨e, c, nextSeq, hop, hcall, hcursor, hret'⟩ := step_returned hstep
  generalize hpost : τ.post.readers = post at hret'
  obtain ⟨hkeep, hnot⟩ := hret'.of_ret
  have hled := callLedger_of_trace hinit htr hcall
  obtain rfl : c.file = f := by
    have hargs := (lastRead_of_call htr rfl hcall).symm.trans hread
    simpa using congrArg (fun a => a.map (·.1)) hargs
  -- an error that is not `-EFAULT` leaves no trace
  have hquiet : ∀ err, result = .error err →
      ¬ (τ.input.faults = true ∧ ∃ σ ∈ callSteps t ts, ConsumesUnread t σ) →
      ∀ σ ∈ callSteps t (ts ++ [τ]),
        σ.post.readers = σ.pre.readers ∧ σ.input.readerOp σ.pre = none := by
    rintro err rfl hcond σ hσ
    have hpc : ∀ kbuf n, c.pc ≠ .copy kbuf n := by
      intro kbuf n hpc
      cases hret' with
      | efault _ _ hpc' hfault hn =>
          obtain ⟨σ, hσ, hunread, -⟩ := hled.consumed _ _ hpc' hn
          exact hcond ⟨by simpa [hop, DeviceOp.faults] using hfault, σ, hσ, hunread⟩
      | _ => simp_all
    rw [callSteps_snoc_advance _ hop] at hσ
    rcases List.mem_append.mp hσ with hown | hlast
    · obtain ⟨hsame, hnone, -⟩ := hled.untouched hpc σ hown
      exact ⟨hsame, hnone⟩
    · obtain rfl := List.mem_singleton.mp hlast
      exact ⟨hpost.trans hkeep, hop ▸ readerOp_advance_eq_none hcall hnot⟩
  refine ⟨⟨?_, ?_⟩, hquiet⟩
  · rintro hlose ⟨hfault, σ₀, hσ₀, hunread₀⟩
    replace hfault : e.uncopied ≠ 0 := by simpa [hop, DeviceOp.faults] using hfault
    -- it found something unread, so it is past `ring_consume` with samples in its buffer
    obtain ⟨kbuf, n, hpc⟩ : ∃ kbuf n, c.pc = .copy kbuf n := by
      by_contra hnone
      push Not at hnone
      exact (hled.untouched hnone σ₀ hσ₀).2.2 hunread₀
    have hn : n ≠ 0 := by
      rintro rfl
      exact hled.empty kbuf hpc σ₀ hσ₀ hunread₀
    have herr : ∃ err, result = .error err := by
      cases hret' with
      | done kbuf' n' hpc' hcopy =>
          obtain ⟨rfl, rfl⟩ := ReadPc.copy.inj (hpc.symm.trans hpc')
          exact absurd (hcopy hfault) hn
      | _ => exact ⟨_, rfl⟩
    obtain ⟨σ, hσ, -, hmoved⟩ := hled.consumed kbuf n hpc hn
    apply hmoved (hlose herr σ _).1
    rw [callSteps_snoc_advance _ hop]
    exact List.mem_append_left _ hσ
  · rintro hcond ⟨err, herr⟩ σ hσ
    obtain ⟨hsame, -⟩ := hquiet err herr hcond σ hσ
    rw [hsame]
    exact ⟨rfl, rfl⟩

/-- A call that returns `-ENOMEM` on a file that is one sample more behind than the ring holds: the
cursor stays at the first sample, and nothing is counted as dropped. -/
theorem failed_read_loses_nothing_enomem :
    ∃ r ts d, ringInit 2 true = .ok r ∧
      Device.machine.Trace (.start r ⟨"", "", "", ""⟩ 500 default) ts d ∧
      ts.getLast?.map (·.output) = some (.returned 7 (.error .ENOMEM) []) ∧
      d.readers.ring.headSeq = 3 ∧ d.readers.cursor 0 = some 0 ∧
      ringDropped d.readers.ring = 0 ∧ (callSteps 7 ts).length = 3 ∧
      LosesNothing 0 (callSteps 7 ts) := by
  let r : RingBuf := ⟨Array.replicate 2 default, 2, 1, 0, 0⟩
  have hinit : ringInit 2 true = .ok r := rfl
  let e : CollectorEnv := ⟨0, fun _ => .error .ENOENT, fun _ => .error .EINVAL, false⟩
  let go : DeviceOp := .advance 7 ⟨none, 0⟩
  have hrun : (Device.machine.exec (.start r ⟨"", "", "", ""⟩ 500 default)
      ([.kthreadRun, .openFile 0 true] ++ List.replicate 13 (.collect e) ++
        [.read 7 0 48 true, go, go] ++ [go])).map
        (fun p => ((p.1.getLast?.map (·.output), lastRead 7 p.1),
          decide (p.2.readers.ring.headSeq = 3 ∧ p.2.readers.cursor 0 = some 0 ∧
            ringDropped p.2.readers.ring = 0 ∧ (callSteps 7 p.1).length = 3)))
      = some ((some (.returned 7 (.error .ENOMEM) []), some (0, 48, true)), true) := by
    decide +kernel
  obtain ⟨⟨l, d⟩, hexec, hseen⟩ := Option.map_eq_some_iff.mp hrun
  simp only [Prod.mk.injEq, decide_eq_true_eq] at hseen
  obtain ⟨⟨hout, hread⟩, hhead, hcursor, hdropped, hlength⟩ := hseen
  obtain ⟨ts, last, rfl, -, hlast⟩ := List.map_eq_append_iff.mp (Trace.input_of_exec hexec)
  obtain ⟨τ, rfl, hop⟩ := List.map_eq_singleton_iff.mp hlast
  have hret : τ.output = .returned 7 (.error .ENOMEM) [] := by simpa using hout
  rw [lastRead_snoc, hop] at hread
  have hwhen := failed_read_loses_nothing hinit (Trace.of_exec hexec) hret hread
  refine ⟨r, _, d, hinit, Trace.of_exec hexec, hout, hhead, hcursor, hdropped, hlength,
    hwhen.1.mpr ?_ ⟨_, rfl⟩⟩
  -- this step of the call does not fault
  rw [hop]
  simp [DeviceOp.faults, go]

/-- A failed read that loses a sample: one sample is pushed, and a `read()` of 48 bytes into an
unmapped buffer returns `-EFAULT` with the cursor moved past it. -/
theorem failed_read_loses_sample :
    ∃ r ts d, ringInit 2 true = .ok r ∧
      Device.machine.Trace (.start r ⟨"", "", "", ""⟩ 500 default) ts d ∧
      ts.getLast?.map (·.output) = some (.returned 7 (.error .EFAULT) []) ∧
      lastRead 7 ts = some (0, 48, true) ∧ ¬ LosesNothing 0 (callSteps 7 ts) ∧
      d.readers.cursor 0 = some 1 ∧ d.readers.ring.headSeq = 1 := by
  let r : RingBuf := ⟨Array.replicate 2 default, 2, 1, 0, 0⟩
  have hinit : ringInit 2 true = .ok r := rfl
  let e : CollectorEnv := ⟨0, fun _ => .error .ENOENT, fun _ => .error .EINVAL, false⟩
  let go : DeviceOp := .advance 7 ⟨some #[default], 48⟩
  have hrun : (Device.machine.exec (.start r ⟨"", "", "", ""⟩ 500 default)
      [.kthreadRun, .openFile 0 true, .collect e, .collect e, .collect e, .read 7 0 48 true,
        go, go, go, go, go]).map
        (fun p => (p.1.getLast?.map (·.output), lastRead 7 p.1,
          decide (¬ LosesNothing 0 (callSteps 7 p.1) ∧ p.2.readers.cursor 0 = some 1 ∧
            p.2.readers.ring.headSeq = 1)))
      = some (some (.returned 7 (.error .EFAULT) []), some (0, 48, true), true) := by
    decide
  obtain ⟨⟨ts, d⟩, hexec, hseen⟩ := Option.map_eq_some_iff.mp hrun
  simp only [Prod.mk.injEq, decide_eq_true_eq] at hseen
  obtain ⟨hout, hread, hloses, hcursor, hhead⟩ := hseen
  exact ⟨r, ts, d, hinit, Trace.of_exec hexec, hout, hread, hloses, hcursor, hhead⟩

end GpuTelem
