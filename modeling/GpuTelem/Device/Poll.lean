import GpuTelem.Device.Call

/-!
# Readiness

`gpu_telem_poll` tests the ring without its lock, `ring_consume` tests it again under the lock, the
other way round. The two tests agree in every state, and what `poll` reports is stable: only a read
on the file can take readiness away, and only a push can bring it.

## Main definitions

* `Readable`, `Drained`: something, or nothing, is unread on a file;
* `ConsumesOn`: a step that is a `ring_consume` on a file.

## Main results

* `poll_iff_consume`: the two tests agree;
* `readable_of_trace`, `drained_of_trace`: the two kinds of stability;
* `poll_exact_and_stable`: readiness over whole runs.
-/

namespace GpuTelem

open Machine

/-- A step that is a `ring_consume` on the cursor of `f`. -/
def ConsumesOn (f : FileId) (σ : DeviceTransition) : Prop :=
  ∃ out max, σ.input.readerOp σ.pre = some (.consume f out max)

/-- A step that is a `ring_push`. -/
def Pushes (σ : DeviceTransition) : Prop :=
  ∃ x, σ.input.readerOp σ.pre = some (.push x)

/-- Something is unread on `f` (which may have been closed since). -/
structure Readable (f : FileId) (d : Device) : Prop where
  used : d.readers.files f ≠ .unused
  unread : ∀ nextSeq, d.readers.cursor f = some nextSeq → nextSeq < d.readers.ring.headSeq

/-- Nothing is unread on `f`. -/
structure Drained (f : FileId) (d : Device) : Prop where
  used : d.readers.files f ≠ .unused
  read : ∀ nextSeq, d.readers.cursor f = some nextSeq → d.readers.ring.headSeq ≤ nextSeq

/-- Whether a call waits in `wait_event_interruptible`. -/
def ReadPc.waits : ReadPc → Bool
  | .enqueue => true
  | .test _ => true
  | .sleep => true
  | .asleep => true
  | _ => false

/-! ## The two tests -/

/-- `poll` reports `EPOLLIN` when `head_seq` is beyond the cursor. -/
theorem gpuTelemPoll_iff {r : RingBuf} {nextSeq : UInt64} :
    gpuTelemPoll r nextSeq &&& epollin ≠ 0 ↔ nextSeq < r.headSeq := by
  rw [← ringDataAvailable_iff, gpuTelemPoll]
  cases ringDataAvailable r nextSeq <;> decide

/-- `poll` reports `EPOLLIN` exactly when `ring_consume` with room for a sample would return one. -/
theorem poll_iff_consume {r : RingBuf} (hwf : r.WellFormed) (nextSeq : UInt64)
    (out : Array GpuSample) {max : UInt32} (hmax : 1 ≤ max.toNat) :
    gpuTelemPoll r nextSeq &&& epollin ≠ 0 ↔
      1 ≤ (ringConsume r nextSeq out max).count.toNat := by
  have hsize := hwf.size_pos
  rw [gpuTelemPoll_iff, UInt64.lt_iff_toNat_lt, toNat_count_ringConsume]
  omega

/-! ## Stability -/

variable {size : UInt32} {vzalloc : Bool} {r : RingBuf} {paths : AttrPaths} {intervalMs : UInt32}
  {stack : GpuSample} {ts us : List DeviceTransition} {d d' : Device} {op : DeviceOp}
  {o : DeviceObs} {f : FileId}

/-- The consume of a call in flight is a consume on its file. -/
theorem consumesOn_advance {σ : DeviceTransition} {t : ThreadId} {e : ReadEnv} {c : ReadCall}
    {kbuf : Array GpuSample} (hop : σ.input = .advance t e) (hc : σ.pre.calls.find t = some c)
    (hpc : c.pc = .consume kbuf) : ConsumesOn c.file σ :=
  ⟨kbuf, c.maxSamples.toUInt32, by rw [hop]; simp [DeviceOp.readerOp, hc, hpc]⟩

/-- Only calls in flight consume. -/
theorem ConsumesOn.advances {σ : DeviceTransition} (h : ConsumesOn f σ) :
    ∃ t, σ.input.advances t = true := by
  obtain ⟨out, max, hop⟩ := h
  cases hin : σ.input with
  | advance t e => exact ⟨t, by simp [DeviceOp.advances]⟩
  | collect e =>
      rw [hin, DeviceOp.readerOp] at hop
      split at hop <;> cases hop
  | _ => simp [hin, DeviceOp.readerOp] at hop

/-- A step that is no `ring_consume` on `f` keeps `f` readable, as long as `head_seq` grows. -/
theorem Readable.step (h : DeviceStep d op d' o) (hread : Readable f d)
    (hmono : d.readers.ring.headSeq ≤ d'.readers.ring.headSeq)
    (hno : ¬ ConsumesOn f ⟨d, op, d', o⟩) : Readable f d' := by
  refine ⟨h.files_ne_unused hread.used, fun nextSeq hcursor => ?_⟩
  rcases h.cursor_cases f with hsame | ⟨-, hunused, -⟩ | ⟨-, -, hclosed⟩ |
    ⟨t, e, c, kbuf, seq, hop, hc, hf, hpc, -, -⟩
  · rw [hsame] at hcursor
    exact UInt64.lt_of_lt_of_le (hread.unread nextSeq hcursor) hmono
  -- an identifier is opened once, and a closed file has no cursor
  · exact absurd hunused hread.used
  · rw [hclosed] at hcursor
    cases hcursor
  · exact absurd (hf ▸ consumesOn_advance hop hc hpc) hno

/-- A step that is no push keeps `f` drained. -/
theorem Drained.step (h : DeviceStep d op d' o) (hread : Drained f d)
    (hno : ¬ Pushes ⟨d, op, d', o⟩) : Drained f d' := by
  have hhead : d'.readers.ring.headSeq = d.readers.ring.headSeq := by
    rcases h.collector_cases with ⟨hpush, hwake, -⟩ | ⟨-, hsame, -⟩ | ⟨-, k, hring⟩
    · refine absurd ⟨d.collector.sample, ?_⟩ hno
      cases h <;> simp_all [DeviceOp.readerOp]
    · rw [hsame]
    · rw [hring]
  refine ⟨h.files_ne_unused hread.used, fun nextSeq hcursor => ?_⟩
  rw [hhead]
  rcases h.cursor_cases f with hsame | ⟨-, hunused, -⟩ | ⟨-, -, hclosed⟩ |
    ⟨t, e, c, kbuf, seq, -, -, -, -, hseq, hnew⟩
  · rw [hsame] at hcursor
    exact hread.read nextSeq hcursor
  · exact absurd hunused hread.used
  · rw [hclosed] at hcursor
    cases hcursor
  -- a `ring_consume` on the drained file finds nothing and stays where it is
  · rw [ringConsume_of_le (hread.read seq hseq), hcursor] at hnew
    obtain rfl := Option.some.inj hnew
    exact hread.read nextSeq hseq

/-- Without a `ring_consume` on it, a readable file stays readable. -/
theorem readable_of_trace (hinit : ringInit size vzalloc = .ok r)
    (h : Device.machine.Trace (.start r paths intervalMs stack) ts d)
    (h' : Device.machine.Trace d us d') (hpush : Device.pushCount (ts ++ us) < 2 ^ 64)
    (hread : Readable f d) (hno : ∀ σ ∈ us, ¬ ConsumesOn f σ) : Readable f d' := by
  induction h' with
  | nil => exact hread
  | @snoc us d₁ d₂ op o htr hlast ih =>
      rw [← List.append_assoc] at hpush
      have hle := Device.pushCount_le_append (ts ++ us) [⟨d₁, op, d₂, o⟩]
      refine (ih (by omega) fun σ hσ => hno σ (List.mem_append_left _ hσ)).step
        (Device.deviceStep_of_step hlast) ?_ (hno _ (by simp))
      exact Device.headSeq_le_step hinit (h.append htr) hlast hpush

/-- Without a push, a drained file stays drained. -/
theorem drained_of_trace (h : Device.machine.Trace d us d') (hread : Drained f d)
    (hno : ∀ σ ∈ us, ¬ Pushes σ) : Drained f d' := by
  induction h with
  | nil => exact hread
  | snoc htr hlast ih =>
      exact (ih fun σ hσ => hno σ (List.mem_append_left _ hσ)).step
        (Device.deviceStep_of_step hlast) (hno _ (by simp))

/-- While thread `t` is in a call on `f`: it does not wait, and up to its `ring_consume` the file is
readable. -/
def GoesThrough (t : ThreadId) (f : FileId) (d : Device) : Prop :=
  ∀ c, d.calls.find t = some c → c.file = f ∧ c.pc.waits = false ∧
    ((∀ kbuf n, c.pc ≠ .copy kbuf n) → Readable f d)

/-- The call of `t` keeps going through, when no other call consumes on the file. -/
theorem GoesThrough.step {t : ThreadId} (h : DeviceStep d op d' o) (hgo : GoesThrough t f d)
    (hmono : d.readers.ring.headSeq ≤ d'.readers.ring.headSeq) (hbegin : op.begins t = none)
    (hno : ConsumesOn f ⟨d, op, d', o⟩ → op.advances t = true) : GoesThrough t f d' := by
  intro c' hc'
  rcases h.call_cases hc' with ⟨g, count, nonblock, rfl, -⟩ |
    ⟨e, c, nextSeq, rfl, hc, hcursor, hread⟩ | ⟨c, w, g, hc, hother, -, rfl⟩
  · simp [DeviceOp.begins] at hbegin
  · obtain ⟨rfl, hwaits, hreadable⟩ := hgo c hc
    have hfile := hread.args.1
    -- its own steps before `ring_consume` leave the file readable
    have hkeep : (∀ kbuf, c.pc ≠ .consume kbuf) → (∀ kbuf n, c.pc ≠ .copy kbuf n) →
        Readable c.file d' := by
      intro hpc hpc'
      apply (hreadable hpc').step h hmono
      rintro ⟨out, max, hop⟩
      rw [readerOp_advance_eq_none hc hpc] at hop
      cases hop
    generalize d'.readers = post at hread
    cases hread with
    | wait hpc hnonblock havail =>
        -- the check does not fail
        have hlt := (hreadable (by simp [hpc])).unread nextSeq hcursor
        rw [← ringDataAvailable_iff, havail] at hlt
        cases hlt
    | enqueue hpc => simp [hpc, ReadPc.waits] at hwaits
    | condition intr hpc havail => simp [hpc, ReadPc.waits] at hwaits
    | schedule hpc havail => simp [hpc, ReadPc.waits] at hwaits
    | retest hpc hwoken => rcases hpc with hpc | hpc <;> simp [hpc, ReadPc.waits] at hwaits
    | deschedule hpc hwoken => simp [hpc, ReadPc.waits] at hwaits
    | consume kbuf hpc => exact ⟨rfl, rfl, fun hnot => absurd rfl (hnot _ _)⟩
    | enter hpc hcount => exact ⟨rfl, rfl, fun _ => hkeep (by simp [hpc]) (by simp [hpc])⟩
    | ready hpc havail => exact ⟨rfl, rfl, fun _ => hkeep (by simp [hpc]) (by simp [hpc])⟩
    | alloc kbuf hpc hkmalloc hsize =>
        exact ⟨rfl, rfl, fun _ => hkeep (by simp [hpc]) (by simp [hpc])⟩
  · -- a step of another call consumes on another file
    obtain ⟨hf, hwaits, hreadable⟩ := hgo c hc
    refine ⟨hf, hwaits, fun hpc => (hreadable hpc).step h hmono fun hconsume => ?_⟩
    obtain ⟨e, hop⟩ := DeviceOp.advances_iff.mp (hno hconsume)
    exact hother e hop

/-- The call keeps going through over a run. -/
theorem goesThrough_of_trace {t : ThreadId} (hinit : ringInit size vzalloc = .ok r)
    (h : Device.machine.Trace (.start r paths intervalMs stack) ts d)
    (h' : Device.machine.Trace d us d') (hpush : Device.pushCount (ts ++ us) < 2 ^ 64)
    (hgo : GoesThrough t f d)
    (hno : ∀ σ ∈ us, σ.input.begins t = none ∧ (ConsumesOn f σ → σ.input.advances t = true)) :
    GoesThrough t f d' := by
  induction h' with
  | nil => exact hgo
  | @snoc us d₁ d₂ op o htr hlast ih =>
      rw [← List.append_assoc] at hpush
      have hle := Device.pushCount_le_append (ts ++ us) [⟨d₁, op, d₂, o⟩]
      obtain ⟨hbegin, hconsume⟩ := hno ⟨d₁, op, d₂, o⟩ (by simp)
      refine (ih (by omega) fun σ hσ => hno σ (List.mem_append_left _ hσ)).step
        (Device.deviceStep_of_step hlast) ?_ hbegin hconsume
      exact Device.headSeq_le_step hinit (h.append htr) hlast hpush

/-- A call that goes through returns neither of the two errors of an empty ring. -/
theorem GoesThrough.not_empty_error {t : ThreadId} {err : Errno} {bytes : List UInt8}
    (hgo : GoesThrough t f d) (h : d.step op = some (d', .returned t (.error err) bytes)) :
    err ≠ .EAGAIN ∧ err ≠ .ERESTARTSYS := by
  obtain ⟨e, c, nextSeq, rfl, hc, hcursor, hread⟩ := step_returned h
  obtain ⟨rfl, hwaits, hreadable⟩ := hgo c hc
  generalize d'.readers = post at hread
  cases hread with
  | eagain hpc hnonblock havail =>
      have hlt := (hreadable (by simp [hpc])).unread nextSeq hcursor
      rw [← ringDataAvailable_iff, havail] at hlt
      cases hlt
  | erestartsys hpc havail => simp [hpc, ReadPc.waits] at hwaits
  | _ => simp

/-- **Readiness is exact and stable.** Whenever `poll` is called on a file, in any run with fewer
than `2 ^ 64` pushes: it reports `EPOLLIN` exactly when a `ring_consume` with room for a sample
would return one. If it does, then after any further steps among which no `ring_consume` on this
file is, it still does, and a `read()` that begins then neither waits nor fails for want of
samples. If it does not, then after any further steps among which there is no push, it still does
not. -/
theorem poll_exact_and_stable (hinit : ringInit size vzalloc = .ok r) {π : DeviceTransition}
    (h : Device.machine.Trace (.start r paths intervalMs stack) (ts ++ π :: us) d)
    (hpush : Device.pushCount (ts ++ π :: us) < 2 ^ 64) (hpoll : π.input = .poll f)
    {mask : UInt32} (hmask : π.output = .polled mask) :
    (∃ nextSeq, π.pre.readers.cursor f = some nextSeq ∧ ∀ out max, 1 ≤ max.toNat →
      (mask &&& epollin ≠ 0 ↔
        1 ≤ (ringConsume π.pre.readers.ring nextSeq out max).count.toNat)) ∧
    (mask &&& epollin ≠ 0 → (∀ σ ∈ us, ¬ ConsumesOn f σ) →
      ∀ nextSeq, d.readers.cursor f = some nextSeq →
        gpuTelemPoll d.readers.ring nextSeq &&& epollin ≠ 0) ∧
    (mask &&& epollin ≠ 0 → ∀ mid ρ call t count nonblock, us = mid ++ ρ :: call →
      ρ.input = .read t f count nonblock → (∀ σ ∈ mid, ¬ ConsumesOn f σ) →
      (∀ σ ∈ call, σ.input.begins t = none ∧ (ConsumesOn f σ → σ.input.advances t = true)) →
      (∀ c, d.calls.find t = some c → c.pc.waits = false) ∧
      ∀ σ ∈ call, ∀ bytes, σ.output ≠ .returned t (.error .EAGAIN) bytes ∧
        σ.output ≠ .returned t (.error .ERESTARTSYS) bytes) ∧
    (mask &&& epollin = 0 → (∀ σ ∈ us, ¬ Pushes σ) →
      ∀ nextSeq, d.readers.cursor f = some nextSeq →
        gpuTelemPoll d.readers.ring nextSeq &&& epollin = 0) := by
  obtain ⟨s, hts, hrest⟩ := Trace.of_append h
  obtain ⟨rfl, hstep, hus⟩ := Trace.of_cons hrest
  rw [hpoll, hmask, Device.machine_step, Device.step_iff] at hstep
  generalize hpost : π.post = post at hstep hus
  have hsound := Device.sound_of_trace hts (.start hinit paths intervalMs stack)
  cases hstep with
  | poll _ nextSeq hcursor =>
  -- the call itself changes nothing, so the rest of the run starts where it was made
  have hused : π.pre.readers.files f ≠ .unused := by
    rw [Readers.cursor_eq_some.mp hcursor]
    simp
  have hsame : ∀ {seq}, π.pre.readers.cursor f = some seq → seq = nextSeq := fun hseq =>
    (Option.some.inj (hcursor.symm.trans hseq)).symm
  have hreadable : gpuTelemPoll π.pre.readers.ring nextSeq &&& epollin ≠ 0 →
      Readable f π.pre := fun hin =>
    ⟨hused, fun seq hseq => hsame hseq ▸ gpuTelemPoll_iff.mp hin⟩
  have hcount : Device.pushCount (ts ++ us) ≤ Device.pushCount (ts ++ π :: us) := by
    have hcons : π :: us = [π] ++ us := rfl
    simp only [Device.pushCount, readerOps, hcons, List.filterMap_append, List.countP_append]
    omega
  have hpush' : Device.pushCount (ts ++ us) < 2 ^ 64 := by omega
  refine ⟨⟨nextSeq, hcursor, fun out max hmax =>
      poll_iff_consume hsound.wellFormed nextSeq out hmax⟩,
    fun hin hno seq hseq => ?_, fun hin => ?_, fun hout hno seq hseq => ?_⟩
  · rw [gpuTelemPoll_iff]
    exact (readable_of_trace hinit hts hus hpush' (hreadable hin) hno).unread seq hseq
  · rintro mid ρ call t count nonblock rfl hbegin hmid hcall
    obtain ⟨m, htrmid, htail⟩ := Trace.of_append hus
    obtain ⟨rfl, hρ, htrcall⟩ := Trace.of_cons htail
    rw [hbegin] at hρ
    have htr := hts.append htrmid
    have hpush₁ : Device.pushCount (ts ++ mid) < 2 ^ 64 := by
      have hle := Device.pushCount_le_append (ts ++ mid) (ρ :: call)
      rw [List.append_assoc] at hle
      omega
    have hready := readable_of_trace hinit hts htrmid hpush₁ (hreadable hin) hmid
    -- the call begins on a readable file
    obtain ⟨hkeep, hstart⟩ := step_read hρ
    have hgo : GoesThrough t f ρ.post := by
      intro c hc
      obtain rfl := Option.some.inj (hstart.symm.trans hc)
      exact ⟨rfl, rfl, fun _ => ⟨hkeep ▸ hready.used, hkeep ▸ hready.unread⟩⟩
    have htr' : Device.machine.Trace (.start r paths intervalMs stack) (ts ++ mid ++ [ρ])
        ρ.post := by
      have hsnoc := htr.snoc (M := Device.machine) hρ
      rw [← hbegin] at hsnoc
      exact hsnoc
    -- every state of the call, up to the last one
    have hall : ∀ {pre d₁}, Device.machine.Trace ρ.post pre d₁ → pre <+: call →
        GoesThrough t f d₁ := by
      rintro pre d₁ hpre ⟨after, rfl⟩
      refine goesThrough_of_trace hinit htr' hpre ?_ hgo
        fun σ hσ => hcall σ (List.mem_append_left _ hσ)
      have hle := Device.pushCount_le_append (ts ++ mid ++ [ρ] ++ pre) after
      simp only [List.append_assoc, List.cons_append, List.nil_append] at hle hpush' ⊢
      omega
    refine ⟨fun c hc => (hall htrcall (List.prefix_refl _) c hc).2.1, fun σ hσ bytes => ?_⟩
    obtain ⟨pre, after, rfl, hpre, hσstep, -⟩ := Trace.before_of_mem htrcall hσ
    have hgo' := hall hpre (List.prefix_append _ _)
    constructor
    · intro hret
      rw [hret] at hσstep
      exact (hgo'.not_empty_error hσstep).1 rfl
    · intro hret
      rw [hret] at hσstep
      exact (hgo'.not_empty_error hσstep).2 rfl
  · -- nothing unread when `poll` was called, and nothing pushed since
    have hdrained : Drained f π.pre := by
      refine ⟨hused, fun seq hseq => ?_⟩
      rw [hsame hseq, ← UInt64.not_lt, ← gpuTelemPoll_iff, not_not]
      exact hout
    have hle := (drained_of_trace hus hdrained hno).read seq hseq
    rwa [← not_not (a := _ = (0 : UInt32)), ← Ne, gpuTelemPoll_iff, UInt64.not_lt]

/-- A `poll` that finds a sample; another reader opens, the collector goes on, and a blocking
`read()` of the first reader passes its check. -/
theorem poll_exact_and_stable_read :
    ∃ r ts d c, ringInit 2 true = .ok r ∧
      Device.machine.Trace (.start r ⟨"", "", "", ""⟩ 500 default) ts d ∧
      d.calls.find 7 = some c ∧ c.nonblock = false ∧ c.pc.waits = false := by
  let r : RingBuf := ⟨Array.replicate 2 default, 2, 1, 0, 0⟩
  have hinit : ringInit 2 true = .ok r := rfl
  let e : CollectorEnv := ⟨0, fun _ => .error .ENOENT, fun _ => .error .EINVAL, false⟩
  let go : DeviceOp := .advance 7 ⟨none, 0⟩
  let before : List DeviceOp :=
    [.kthreadRun, .openFile 0 true, .collect e, .collect e, .collect e]
  let mid : List DeviceOp := [.openFile 1 true, .collect e]
  have hrun : (Device.machine.exec (.start r ⟨"", "", "", ""⟩ 500 default)
      (before ++ .poll 0 :: (mid ++ .read 7 0 48 false :: [go, go]))).map
        (fun p => (p.1[5]?.map (·.output), (p.2.calls.find 7).map (·.nonblock),
          decide (Device.pushCount p.1 = 1)))
      = some (some (.polled 0x41), some false, true) := by
    decide
  obtain ⟨⟨l, d⟩, hexec, hseen⟩ := Option.map_eq_some_iff.mp hrun
  simp only [Prod.mk.injEq, decide_eq_true_eq] at hseen
  obtain ⟨hout, hcall, hcount⟩ := hseen
  obtain ⟨c, hc, hnonblock⟩ := Option.map_eq_some_iff.mp hcall
  -- the run is taken apart along its inputs
  obtain ⟨ts, rest, rfl, hts, hrest⟩ := List.map_eq_append_iff.mp (Trace.input_of_exec hexec)
  obtain ⟨π, us, rfl, hπ, hus⟩ := List.map_eq_cons_iff.mp hrest
  obtain ⟨ms, rest, rfl, hms, hrest⟩ := List.map_eq_append_iff.mp hus
  obtain ⟨ρ, cs, rfl, hρ, hcs⟩ := List.map_eq_cons_iff.mp hrest
  have hlen : ts.length = 5 := by simpa [before] using congrArg List.length hts
  have hmask : π.output = .polled 0x41 := by simpa [hlen] using hout
  have hinput : ∀ {σ : DeviceTransition} {l : List DeviceTransition} {ops : List DeviceOp},
      l.map (·.input) = ops → σ ∈ l → σ.input ∈ ops := by
    rintro σ l ops rfl hσ
    exact List.mem_map_of_mem hσ
  obtain ⟨-, -, hread, -⟩ := poll_exact_and_stable hinit (Trace.of_exec hexec)
    (by rw [hcount]; decide) hπ hmask
  obtain ⟨hgo, -⟩ := hread (by decide) ms ρ cs 7 48 false rfl hρ
    (by
      intro σ hσ hconsume
      obtain ⟨t, ht⟩ := hconsume.advances
      rcases List.mem_pair.mp (hinput hms hσ) with hop | hop <;> rw [hop] at ht <;> cases ht)
    (by
      intro σ hσ
      rcases List.mem_pair.mp (hinput hcs hσ) with hop | hop <;> rw [hop] <;>
        exact ⟨rfl, fun _ => rfl⟩)
  exact ⟨r, _, d, c, hinit, Trace.of_exec hexec, hc, hnonblock, hgo c hc⟩

end GpuTelem
