import GpuTelem.Device.Fault
import GpuTelem.Device.Poll
import GpuTelem.Device.Wakeup

/-!
# Progress of a `read()`

That no wake-up is lost does not yet mean that a reader gets its sample: it might have to wait
again, or find the ring empty after all. And a reader that never sleeps would not lose a wake-up
either. Neither happens: with a sample unread, a call makes at most seven steps more and returns,
and without one it spins no more often than it is woken.

## Main definitions

* `ReadCall.Supplied`: a call that will not find the ring empty;
* `ReadPc.left`: the steps such a call still makes, at most;
* `ReadCall.budget`: the steps any call still makes if it is not woken again, at most.

## Main results

* `supplied_of_trace`: the run of a call that is supplied;
* `read_progress`: a reader with a sample unread gets one;
* `read_no_spin`: how often a reader runs.
-/

namespace GpuTelem

open Machine

/-! ## With a sample unread -/

/-- A call that will not find the ring empty: it has copied something, or its file is readable. -/
structure ReadCall.Supplied (c : ReadCall) (d : Device) : Prop where
  filled : ∀ kbuf n, c.pc = .copy kbuf n → n ≠ 0
  readable : (∀ kbuf n, c.pc ≠ .copy kbuf n) → Readable c.file d

/-- The steps a call that will not find the ring empty still makes, at most. -/
def ReadPc.left : ReadPc → ℕ
  | .sleep => 7
  | .asleep => 6
  | .entry => 5
  | .enqueue => 5
  | .check => 4
  | .test _ => 4
  | .alloc => 3
  | .consume _ => 2
  | .copy _ _ => 1

/-- The results of a call that did not find the ring empty. -/
def ReadCall.Served (c : ReadCall) (result : Except Errno Int64) : Prop :=
  (∃ v, result = .ok v ∧ 48 ≤ v.toInt) ∨ (result = .error .EINVAL ∧ c.count < sampleSz) ∨
    result = .error .ENOMEM ∨ result = .error .EFAULT

theorem ReadPc.left_pos (pc : ReadPc) : 0 < pc.left := by
  cases pc <;> simp [left]

theorem ReadPc.left_le (pc : ReadPc) : pc.left ≤ 7 := by
  cases pc <;> simp [left]

section Step

variable {size : UInt32} {d d' : Device} {op : DeviceOp} {o : DeviceObs} {t : ThreadId}
  {c : ReadCall}

/-- A call in flight stays as it is in a step of anybody else, but for its two flags. -/
theorem DeviceStep.call_kept (h : DeviceStep d op d' o) (hc : d.calls.find t = some c)
    (hother : ∀ e, op ≠ .advance t e) :
    ∃ w g, d'.calls.find t = some { c with woken := w, sigPending := g } := by
  cases h with
  | read u f count nonblock hthread hopen =>
      -- this thread is in its call and begins no other
      have hu : t ≠ u := by
        rintro rfl
        rw [hthread] at hc
        cases hc
      exact ⟨_, _, by simpa [hu] using hc⟩
  | goto u e b b' nextSeq s hcall hcursor hread =>
      have hu : t ≠ u := fun heq => hother e (by rw [heq])
      exact ⟨_, _, by simpa [hu] using hc⟩
  | ret u e b nextSeq s result bytes hcall hcursor hread =>
      have hu : t ≠ u := fun heq => hother e (by rw [heq])
      exact ⟨_, _, by simpa [hu] using hc⟩
  | signal u b hcall =>
      by_cases hu : t = u
      · -- a signal is remembered, and it wakes
        subst hu
        obtain rfl : c = b := Option.some.inj (hc.symm.trans hcall)
        exact ⟨c.wake.woken, true, by simp [ReadCall.signal, ReadCall.wake]⟩
      · exact ⟨_, _, by simpa [hu] using hc⟩
  | wake e hpc => exact ⟨c.wake.woken, c.sigPending, by simp [hc, ReadCall.wake]⟩
  | _ => exact ⟨_, _, hc⟩

/-- The own step of a call that is supplied: it returns with more than nothing, or it comes nearer
to that. -/
theorem ReadStep.supplied {s' : Readers} {e : ReadEnv} {nextSeq : UInt64} {next : ReadNext}
    (h : ReadStep d.readers c e nextSeq s' next) (hs : d.Sound size)
    (hcursor : d.readers.cursor c.file = some nextSeq) (hsound : c.Sound size)
    (hsup : c.Supplied d) :
    (∃ result bytes, next = .ret result bytes ∧ c.Served result) ∨
      ∃ c', next = .goto c' ∧ (∀ kbuf n, c'.pc = .copy kbuf n → n ≠ 0) ∧
        c'.pc.left < c.pc.left := by
  have hunread : (∀ kbuf n, c.pc ≠ .copy kbuf n) → nextSeq < d.readers.ring.headSeq :=
    fun hpc => (hsup.readable hpc).unread nextSeq hcursor
  -- nothing of what the code does for an empty ring happens
  have havail : (∀ kbuf n, c.pc ≠ .copy kbuf n) →
      ringDataAvailable d.readers.ring nextSeq ≠ false := by
    intro hpc
    rw [ringDataAvailable_iff.mpr (hunread hpc)]
    decide
  cases h with
  | einval hpc hcount => exact .inl ⟨_, _, rfl, .inr (.inl ⟨rfl, hcount⟩)⟩
  | eagain hpc hnonblock hempty => exact absurd hempty (havail (by simp [hpc]))
  | wait hpc hnonblock hempty => exact absurd hempty (havail (by simp [hpc]))
  | erestartsys hpc hempty => exact absurd hempty (havail (by simp [hpc]))
  | schedule hpc hempty => exact absurd hempty (havail (by simp [hpc]))
  | enomem hpc hkmalloc => exact .inl ⟨_, _, rfl, .inr (.inr (.inl rfl))⟩
  | efault kbuf n hpc hfault hn => exact .inl ⟨_, _, rfl, .inr (.inr (.inr rfl))⟩
  | done kbuf n hpc hcopy =>
      have hn := hsup.filled kbuf n hpc
      rw [Ne, ← UInt32.toNat_inj] at hn
      refine .inl ⟨_, _, rfl, .inl ⟨_, rfl, ?_⟩⟩
      rw [toInt_result]
      simp only [UInt32.toNat_zero] at hn
      omega
  | consume kbuf hpc =>
      -- the head is beyond the cursor, and there is room for a sample
      refine .inr ⟨_, rfl, fun kbuf' n hcopy => ?_, by simp [hpc, ReadPc.left]⟩
      obtain ⟨-, rfl⟩ := ReadPc.copy.inj hcopy
      have hroom := hsound.maxSamples_pos (hs.size_eq ▸ hs.wellFormed.size_pos) (by simp [hpc])
      have hsize := hs.wellFormed.size_pos
      have hlt := hunread (by simp [hpc])
      rw [UInt64.lt_iff_toNat_lt] at hlt
      rw [Ne, ← UInt32.toNat_inj, toNat_count_ringConsume]
      simp only [UInt32.toNat_zero]
      omega
  | retest hpc hwoken =>
      refine .inr ⟨_, rfl, by simp, ?_⟩
      rcases hpc with hpc | hpc <;> simp [hpc, ReadPc.left]
  | _ => exact .inr ⟨_, rfl, by simp, by simp [*, ReadPc.left]⟩

/-- One step of the device, with a supplied call in flight on whose file nobody else consumes. -/
theorem DeviceStep.supplied (h : DeviceStep d op d' o) (hs : d.Sound size)
    (hmono : d.readers.ring.headSeq ≤ d'.readers.ring.headSeq) (hc : d.calls.find t = some c)
    (hno : ConsumesOn c.file ⟨d, op, d', o⟩ → op.advances t = true) (hsup : c.Supplied d) :
    (∃ result bytes, o = .returned t result bytes ∧ c.Served result) ∨
      ∃ c', d'.calls.find t = some c' ∧ c'.file = c.file ∧ c'.count = c.count ∧ c'.Supplied d' ∧
        (if op.advances t then 1 else 0) + c'.pc.left ≤ c.pc.left := by
  by_cases hown : op.advances t = true
  · obtain ⟨e, rfl⟩ := DeviceOp.advances_iff.mp hown
    have hstep := h
    cases h with
    | goto _ _ b b' nextSeq s hcall hcursor hread =>
        obtain rfl : c = b := Option.some.inj (hc.symm.trans hcall)
        obtain ⟨_, _, hret, -⟩ | ⟨_, hgoto, hfilled, hlt⟩ :=
          hread.supplied hs hcursor (hs.call_sound t c hc) hsup
        · cases hret
        cases hgoto
        obtain ⟨hfile, hcount, -⟩ := hread.args
        refine .inr ⟨b', by simp, hfile, hcount, ⟨hfilled, fun hpc => ?_⟩, ?_⟩
        · -- not past `ring_consume` yet, so the step did not consume
          obtain ⟨-, hpc₁, hpc₂, -⟩ | ⟨_, -, -, rfl⟩ := hread.goto_cases
          · rw [hfile]
            apply (hsup.readable hpc₂).step hstep hmono
            rintro ⟨out, max, hop⟩
            rw [readerOp_advance_eq_none hc hpc₁] at hop
            cases hop
          · exact absurd rfl (hpc _ _)
        · rw [if_pos hown]
          omega
    | ret _ _ b nextSeq s result bytes hcall hcursor hread =>
        obtain rfl : c = b := Option.some.inj (hc.symm.trans hcall)
        obtain ⟨_, _, hret, hserved⟩ | ⟨_, hgoto, -⟩ :=
          hread.supplied hs hcursor (hs.call_sound t c hc) hsup
        · cases hret
          exact .inl ⟨result, bytes, rfl, hserved⟩
        · cases hgoto
  · obtain ⟨w, g, hkept⟩ := h.call_kept hc fun e hop =>
      hown (DeviceOp.advances_iff.mpr ⟨e, hop⟩)
    refine .inr ⟨_, hkept, rfl, rfl, ⟨hsup.filled, fun hpc => ?_⟩, ?_⟩
    · exact (hsup.readable hpc).step h hmono fun hconsume => hown (hno hconsume)
    · rw [if_neg hown]
      simp

/-- A supplied call can make its next step, unless it sleeps. -/
theorem isSome_step_advance {e : ReadEnv} (hs : d.Sound size) (hc : d.calls.find t = some c)
    (hroom : ∀ kbuf, e.kmalloc = some kbuf → kbuf.size = c.maxSamples.toNat)
    (hpc : c.pc = .asleep → c.woken = true) : (d.step (.advance t e)).isSome = true := by
  obtain ⟨nextSeq, hcursor⟩ := Option.isSome_iff_exists.mp (hs.call_open t c hc)
  obtain ⟨p, hp⟩ : ∃ p, gpuTelemRead d.readers c e = some p := by
    unfold gpuTelemRead
    rw [hcursor]
    cases hat : c.pc with
    | asleep => exact ⟨_, by simp only [hpc hat]; rfl⟩
    | alloc =>
        cases hk : e.kmalloc with
        | none => exact ⟨_, rfl⟩
        | some kbuf => exact ⟨_, by simp only [hroom kbuf hk]; rfl⟩
    | enqueue => exact ⟨_, rfl⟩
    | consume kbuf => exact ⟨_, rfl⟩
    | _ => simp only; split_ifs <;> exact ⟨_, rfl⟩
  rw [Device.step, hc]
  simp only [hp]
  obtain ⟨s, c' | ⟨result, bytes⟩⟩ := p <;> rfl

end Step

section Run

variable {size : UInt32} {vzalloc : Bool} {r : RingBuf} {paths : AttrPaths} {intervalMs : UInt32}
  {stack : GpuSample} {ts us : List DeviceTransition} {d d' : Device} {t : ThreadId}
  {c : ReadCall}

/-- The run of a supplied call, when no other call consumes on its file: it returns with more than
nothing, or it is still supplied and has come nearer to that with every step of its own. -/
theorem supplied_of_trace (hinit : ringInit size vzalloc = .ok r)
    (h : Device.machine.Trace (.start r paths intervalMs stack) ts d)
    (h' : Device.machine.Trace d us d') (hpush : Device.pushCount (ts ++ us) < 2 ^ 64)
    (hc : d.calls.find t = some c) (hsup : c.Supplied d)
    (hno : ∀ σ ∈ us, ConsumesOn c.file σ → σ.input.advances t = true) :
    (∃ before τ after result bytes, us = before ++ τ :: after ∧
      τ.output = .returned t result bytes ∧ c.Served result ∧
      before.countP (·.input.advances t) < c.pc.left) ∨
    ∃ c', d'.calls.find t = some c' ∧ c'.file = c.file ∧ c'.count = c.count ∧ c'.Supplied d' ∧
      us.countP (·.input.advances t) + c'.pc.left ≤ c.pc.left := by
  induction h' with
  | nil => exact .inr ⟨c, hc, rfl, rfl, hsup, by simp⟩
  | @snoc us d₁ d₂ op o htr hlast ih =>
      obtain ⟨hno', hlastno⟩ := forall_mem_snoc.mp hno
      rw [← List.append_assoc] at hpush
      have hle := Device.pushCount_le_append (ts ++ us) [⟨d₁, op, d₂, o⟩]
      rcases ih (by omega) hno' with ⟨before, τ, after, result, bytes, rfl, hrest⟩ |
        ⟨c₁, hc₁, hfile, hcount, hsup₁, hleft⟩
      · -- it has returned already
        exact .inl ⟨before, τ, after ++ [⟨d₁, op, d₂, o⟩], result, bytes, by simp, hrest⟩
      have hsound := Device.sound_of_trace (h.append htr) (.start hinit paths intervalMs stack)
      have hmono := Device.headSeq_le_step hinit (h.append htr) hlast hpush
      rw [← hfile] at hlastno
      rcases (Device.deviceStep_of_step hlast).supplied hsound hmono hc₁ hlastno hsup₁ with
        ⟨result, bytes, hret, hserved⟩ | ⟨c₂, hc₂, hfile₂, hcount₂, hsup₂, hleft₂⟩
      · -- it returns in the last step
        have hpos := c₁.pc.left_pos
        refine .inl ⟨us, ⟨d₁, op, d₂, o⟩, [], result, bytes, rfl, hret, ?_, by omega⟩
        rwa [ReadCall.Served, ← hcount]
      · -- one more step of its own, or one of somebody else
        refine .inr ⟨c₂, hc₂, hfile₂.trans hfile, hcount₂.trans hcount, hsup₂, ?_⟩
        rw [List.countP_append, List.countP_singleton]
        simp only
        omega

/-- **A reader with a sample unread gets one.** From any reachable state in which a call in flight
has not reached its `ring_consume` and something is unread on its file, in every continuation with
no other `ring_consume` on that file and fewer than `2 ^ 64` pushes: after at most six steps of its
own the call makes its last one, with at least one sample or with an error that has nothing to do
with the ring. Until then it can make its next step, or it is asleep and the collector is about to
wake it. -/
theorem read_progress (hinit : ringInit size vzalloc = .ok r)
    (h : Device.machine.Trace (.start r paths intervalMs stack) ts d)
    (h' : Device.machine.Trace d us d') (hpush : Device.pushCount (ts ++ us) < 2 ^ 64)
    (hc : d.calls.find t = some c) (hpc : ∀ kbuf n, c.pc ≠ .copy kbuf n) {nextSeq : UInt64}
    (hcursor : d.readers.cursor c.file = some nextSeq)
    (hunread : nextSeq < d.readers.ring.headSeq)
    (hno : ∀ σ ∈ us, ConsumesOn c.file σ → σ.input.advances t = true) :
    (∃ before τ after result bytes, us = before ++ τ :: after ∧
      before.countP (·.input.advances t) ≤ 6 ∧ τ.output = .returned t result bytes ∧
      ((∃ v, result = .ok v ∧ 48 ≤ v.toInt) ∨ (result = .error .EINVAL ∧ c.count < sampleSz) ∨
        result = .error .ENOMEM ∨ result = .error .EFAULT)) ∨
    ∃ c', d'.calls.find t = some c' ∧ us.countP (·.input.advances t) ≤ 6 ∧
      ((c'.pc = .asleep ∧ c'.woken = false ∧ d'.collector.pc = .wake) ∨
        ∀ e : ReadEnv, (∀ kbuf, e.kmalloc = some kbuf → kbuf.size = c'.maxSamples.toNat) →
          (d'.step (.advance t e)).isSome = true) := by
  have hused : d.readers.files c.file ≠ .unused := by
    rw [Readers.cursor_eq_some.mp hcursor]
    simp
  -- with something unread the call is supplied
  have hsup : c.Supplied d := by
    refine ⟨fun kbuf n hcopy => absurd hcopy (hpc kbuf n), fun _ => ⟨hused, fun seq hseq => ?_⟩⟩
    obtain rfl : nextSeq = seq := Option.some.inj (hcursor.symm.trans hseq)
    exact hunread
  have hbound := c.pc.left_le
  rcases supplied_of_trace hinit h h' hpush hc hsup hno with
    ⟨before, τ, after, result, bytes, hus, hret, hserved, hlt⟩ | ⟨c', hc', hfile, -, hsup', hle⟩
  · exact .inl ⟨before, τ, after, result, bytes, hus, by omega, hret, hserved⟩
  have hpos := c'.pc.left_pos
  have hsound := Device.sound_of_trace (h.append h') (.start hinit paths intervalMs stack)
  refine .inr ⟨c', hc', by omega, ?_⟩
  by_cases hgo : c'.pc = .asleep → c'.woken = true
  · exact .inr fun e hroom => isSome_step_advance hsound hc' hroom hgo
  · -- asleep with something unread: a wake-up is owed
    obtain ⟨hasleep, hwoken⟩ : c'.pc = .asleep ∧ c'.woken = false := by simpa using hgo
    obtain ⟨seq, hseq⟩ := Option.isSome_iff_exists.mp (hsound.call_open t c' hc')
    have hlt := (hsup'.readable (by simp [hasleep])).unread seq hseq
    have howed := wakeupOwed_of_trace hinit (h.append h') t c' seq hc' (.inr hasleep) hwoken hseq
    exact .inl ⟨hasleep, hwoken, howed.resolve_right (UInt64.not_le.mpr hlt)⟩

end Run

/-- A reader asleep when a sample is pushed: the wake-up, and six steps to the sample. -/
theorem read_progress_asleep :
    ∃ r ts us d d' c, ringInit 2 true = .ok r ∧
      Device.machine.Trace (.start r ⟨"", "", "", ""⟩ 500 default) ts d ∧
      Device.machine.Trace d us d' ∧ d.calls.find 7 = some c ∧ c.pc = .asleep ∧
      (d'.calls.find 7).isNone = true ∧
      ∃ before τ after result bytes, us = before ++ τ :: after ∧
        before.countP (·.input.advances 7) ≤ 6 ∧ τ.output = .returned 7 result bytes ∧
        ((∃ v, result = .ok v ∧ 48 ≤ v.toInt) ∨ (result = .error .EINVAL ∧ c.count < sampleSz) ∨
          result = .error .ENOMEM ∨ result = .error .EFAULT) := by
  let r : RingBuf := ⟨Array.replicate 2 default, 2, 1, 0, 0⟩
  have hinit : ringInit 2 true = .ok r := rfl
  let e : CollectorEnv := ⟨0, fun _ => .error .ENOENT, fun _ => .error .EINVAL, false⟩
  let go : DeviceOp := .advance 7 ⟨some #[default], 0⟩
  let us : List DeviceOp := .collect e :: List.replicate 6 go
  have hrun : (Device.machine.exec (.start r ⟨"", "", "", ""⟩ 500 default)
      [.kthreadRun, .openFile 0 true, .read 7 0 48 false, go, go, go, go, go,
        .collect e, .collect e, .collect e]).bind
      (fun p => (Device.machine.exec p.2 us).map fun q =>
        ((p.2.calls.find 7).map fun c => (decide (c.pc matches .asleep), c.file),
          p.2.readers.cursor 0, p.2.readers.ring.headSeq, (q.2.calls.find 7).isNone,
          Device.pushCount (p.1 ++ q.1)))
      = some (some (true, 0), some 0, 1, true, 1) := by
    decide +kernel
  obtain ⟨⟨ts, d⟩, hts, hrun⟩ := Option.bind_eq_some_iff.mp hrun
  obtain ⟨⟨us', d'⟩, hus, hseen⟩ := Option.map_eq_some_iff.mp hrun
  simp only [Prod.mk.injEq] at hseen
  obtain ⟨hcall, hcursor, hhead, hdone, hpush⟩ := hseen
  obtain ⟨c, hc, hat⟩ := Option.map_eq_some_iff.mp hcall
  simp only [Prod.mk.injEq, decide_eq_true_eq] at hat
  obtain ⟨hpc, hfile⟩ := hat
  have hpc' : c.pc = .asleep := by
    split at hpc
    next heq => exact heq
    next => cases hpc
  have htr := Trace.of_exec hts
  have htr' := Trace.of_exec hus
  -- nobody but thread 7 reads
  have hno : ∀ σ ∈ us', ConsumesOn c.file σ → σ.input.advances 7 = true := by
    intro σ hσ hconsume
    obtain ⟨u, hu⟩ := hconsume.advances
    have hin : σ.input ∈ us := Trace.input_of_exec hus ▸ List.mem_map_of_mem hσ
    rcases List.mem_cons.mp hin with hin | hin
    · rw [hin] at hu
      cases hu
    · rw [List.eq_of_mem_replicate hin]
      rfl
  refine ⟨r, ts, us', d, d', c, hinit, htr, htr', hc, hpc', hdone, ?_⟩
  rcases read_progress hinit htr htr' (by rw [hpush]; decide) hc (by simp [hpc'])
    (hfile ▸ hcursor) (by rw [hhead]; decide) hno with hserved | ⟨c', hc', -⟩
  · exact hserved
  · rw [hc'] at hdone
    cases hdone

/-! ## No busy waiting -/

/-- The steps a call makes without being woken again, at most. -/
def ReadCall.budget (c : ReadCall) : ℕ :=
  match c.pc with
  | .entry => 7
  | .check => 6
  | .enqueue => 5
  | .test _ => if c.woken then 7 else 4
  | .sleep => if c.woken then 6 else 1
  | .asleep => if c.woken then 6 else 0
  | .alloc => 3
  | .consume _ => 2
  | .copy _ _ => 1

/-- The same for the call of a thread, if there is one. -/
def Device.budget (d : Device) (t : ThreadId) : ℕ := ((d.calls.find t).map ReadCall.budget).getD 0

/-- Whether an operation is a signal for thread `t`. -/
def DeviceOp.signals (t : ThreadId) : DeviceOp → Bool
  | .signal u => u == t
  | _ => false

/-- Whether a step gives thread `t` something to do: it begins a `read()`, a signal arrives for it
or a sample is pushed. -/
def activates (t : ThreadId) (τ : DeviceTransition) : Bool :=
  (τ.input.begins t).isSome || τ.input.signals t ||
    (τ.input.readerOp τ.pre).any ReaderOp.isPush

theorem ReadCall.budget_le (c : ReadCall) : c.budget ≤ 7 := by
  cases hpc : c.pc <;> cases hwoken : c.woken <;> simp [budget, hpc, hwoken]

/-- Every step of its own costs a call. -/
theorem ReadStep.budget_lt {s s' : Readers} {c c' : ReadCall} {e : ReadEnv} {nextSeq : UInt64}
    (h : ReadStep s c e nextSeq s' (.goto c')) : c'.budget < c.budget := by
  cases h with
  | condition intr hpc havail =>
      simp only [ReadCall.budget, hpc]
      split <;> omega
  | schedule hpc havail =>
      simp only [ReadCall.budget, hpc]
      split <;> omega
  | retest hpc hwoken => rcases hpc with hpc | hpc <;> simp [ReadCall.budget, hpc, hwoken]
  | _ => simp [ReadCall.budget, *]

/-- A call that returns has a step to make. -/
theorem ReadStep.budget_pos {s s' : Readers} {c : ReadCall} {e : ReadEnv} {nextSeq : UInt64}
    {result : Except Errno Int64} {bytes : List UInt8}
    (h : ReadStep s c e nextSeq s' (.ret result bytes)) : 0 < c.budget := by
  cases h with
  | erestartsys hpc havail =>
      simp only [ReadCall.budget, hpc]
      split <;> omega
  | _ => simp [ReadCall.budget, *]

/-- What a thread has used up: of the budget of its call, and of the wake-up the collector owes. -/
def Device.spent (t : ThreadId) (d : Device) : ℕ :=
  7 - d.budget t + if d.collector.pc = .wake then 0 else 7

/-- A step of its own costs a thread a step, and only what activates it brings some. -/
theorem DeviceStep.spent_le {d d' : Device} {op : DeviceOp} {o : DeviceObs}
    (h : DeviceStep d op d' o) (t : ThreadId) :
    (if op.advances t then 1 else 0) + d.spent t ≤
      (if activates t ⟨d, op, d', o⟩ then 7 else 0) + d'.spent t := by
  -- the steps after which the collector and the call of `t` are where they were
  have hsame : d'.calls.find t = d.calls.find t →
      (d'.collector.pc = .wake ↔ d.collector.pc = .wake) → op.advances t = false →
      (if op.advances t then 1 else 0) + d.spent t ≤
        (if activates t ⟨d, op, d', o⟩ then 7 else 0) + d'.spent t := by
    intro hcalls hwake hown
    simp [hown, Device.spent, Device.budget, hcalls, hwake]
  cases h with
  | read u f count nonblock hthread hopen =>
      by_cases hu : t = u
      · subst hu
        simp [DeviceOp.advances, activates, DeviceOp.begins, Device.spent]
        omega
      · exact hsame (by simp [hu]) Iff.rfl rfl
  | goto u e c c' nextSeq s hcall hcursor hread =>
      by_cases hu : t = u
      · subst hu
        have hlt := hread.budget_lt
        have hbudget := c.budget_le
        simp [DeviceOp.advances, Device.spent, Device.budget, hcall]
        omega
      · exact hsame (by simp [hu]) Iff.rfl (by simp [DeviceOp.advances, Ne.symm hu])
  | ret u e c nextSeq s result bytes hcall hcursor hread =>
      by_cases hu : t = u
      · subst hu
        have hpos := hread.budget_pos
        have hbudget := c.budget_le
        simp [DeviceOp.advances, Device.spent, Device.budget, hcall]
        omega
      · exact hsame (by simp [hu]) Iff.rfl (by simp [DeviceOp.advances, Ne.symm hu])
  | signal u c hcall =>
      by_cases hu : t = u
      · subst hu
        simp [DeviceOp.advances, activates, DeviceOp.signals, Device.spent]
        omega
      · exact hsame (by simp [hu]) Iff.rfl rfl
  | push e hpc =>
      have hbrings : ∀ post, activates t ⟨d, .collect e, post, .silent⟩ = true := by
        simp [activates, DeviceOp.readerOp, hpc, ReaderOp.isPush]
      simp [hbrings, Device.spent, Device.budget, hpc, DeviceOp.advances]
      omega
  | wake e hpc =>
      -- the wake-up is what the push has brought
      simp [Device.spent, hpc, DeviceOp.advances]
      omega
  | kthreadRun hpc => exact hsame rfl (by simp [hpc]) rfl
  | loopExit e hpc hstop | loopBody e hpc hstop => exact hsame rfl (by simp [hpc]) rfl
  | collect e hpc => exact hsame rfl (by simp [hpc]) rfl
  | interrupted e hpc hint | slept e hpc hint => exact hsame rfl (by simp [hpc]) rfl
  | _ => exact hsame rfl Iff.rfl rfl

/-- **No busy waiting.** In every run a thread makes at most seven steps for each `read()` it
begins, each signal it gets and each sample the collector pushes. In every stretch of a run the same
holds up to 14 steps for the call and the push the stretch may begin in the middle of. -/
theorem read_no_spin {r : RingBuf} {paths : AttrPaths} {intervalMs : UInt32} {stack : GpuSample}
    {ts us : List DeviceTransition} {d d' : Device} (t : ThreadId)
    (h : Device.machine.Trace (.start r paths intervalMs stack) ts d)
    (h' : Device.machine.Trace d us d') :
    ts.countP (·.input.advances t) ≤ 7 * ts.countP (activates t) ∧
      us.countP (·.input.advances t) ≤ 7 * us.countP (activates t) + 14 := by
  -- each step of the thread is spent, and each activation gives at most 7 back
  have hspent : ∀ {s₀ s : Device} {vs : List DeviceTransition}, Device.machine.Trace s₀ vs s →
      vs.countP (·.input.advances t) + s₀.spent t ≤ vs.countP (activates t) * 7 + s.spent t := by
    intro s₀ s vs htr
    have hsum := Trace.potential (I := fun _ => True) (Φ := Device.spent t)
      (p := (·.input.advances t)) (q := activates t) (a := 1) (b := 7) (P := fun _ => True)
      (fun d op d' o _ _ hstep => ⟨trivial, (Device.deviceStep_of_step hstep).spent_le t⟩)
      htr trivial (by simp)
    simpa using hsum.2
  have hbound : ∀ s : Device, s.spent t ≤ 14 := by
    intro s
    rw [Device.spent]
    split <;> omega
  -- in the beginning everything is spent: no call is in flight and no wake-up on its way
  have hstart : (Device.start r paths intervalMs stack).spent t = 14 := rfl
  have hts := hspent h
  have hus := hspent h'
  have hend := hbound d
  have hend' := hbound d'
  omega

/-- A blocked reader and one push: five steps to its sleep, six from there to its sample. -/
theorem read_no_spin_woken :
    ∃ ts d, Device.machine.Trace
        (.start ⟨Array.replicate 2 default, 2, 1, 0, 0⟩ ⟨"", "", "", ""⟩ 500 default) ts d ∧
      ts.countP (·.input.advances 7) = 11 ∧ ts.countP (activates 7) = 2 ∧
      ts.countP (·.input.advances 7) ≤ 7 * ts.countP (activates 7) := by
  let e : CollectorEnv := ⟨0, fun _ => .error .ENOENT, fun _ => .error .EINVAL, false⟩
  let go : DeviceOp := .advance 7 ⟨some #[default], 0⟩
  have hrun : (Device.machine.exec
      (.start ⟨Array.replicate 2 default, 2, 1, 0, 0⟩ ⟨"", "", "", ""⟩ 500 default)
      ([.kthreadRun, .openFile 0 true, .read 7 0 48 false] ++ List.replicate 5 go ++
        List.replicate 4 (.collect e) ++ List.replicate 6 go)).map
      (fun p => (p.1.countP (·.input.advances 7), p.1.countP (activates 7))) = some (11, 2) := by
    decide
  obtain ⟨⟨ts, d⟩, hexec, hseen⟩ := Option.map_eq_some_iff.mp hrun
  obtain ⟨hown, hactivates⟩ := Prod.mk.inj hseen
  have htr := Trace.of_exec hexec
  exact ⟨ts, d, htr, hown, hactivates, (read_no_spin 7 htr Trace.nil).1⟩

end GpuTelem
