import GpuTelem.Device

/-!
# No lost wake-up

A reader tests the ring without a lock and then goes to sleep, while the collector pushes samples
and wakes the queue. The check-then-sleep race is closed by the order of the steps: the reader is
on the queue before it tests, and the collector pushes before it wakes. So a reader may sleep next
to an unread sample only while the collector is about to call `wake_up_interruptible`.

## Main definitions

* `WakeupOwed`: the invariant.

## Main results

* `wakeupOwed_of_trace`: it holds in every state of a run;
* `no_lost_wakeup`: no reader is left asleep.
-/

namespace GpuTelem

open Machine

/-- A call that found nothing unread and has not been woken since: either there is still nothing
unread for it, or a wake-up is about to come. -/
def WakeupOwed (d : Device) : Prop :=
  ∀ t c nextSeq, d.calls.find t = some c → c.pc = .sleep ∨ c.pc = .asleep → c.woken = false →
    d.readers.cursor c.file = some nextSeq →
    d.collector.pc = .wake ∨ d.readers.ring.headSeq ≤ nextSeq

/-- A call that is about to sleep or asleep is on the queue. -/
theorem ReadCall.woken_wake (c : ReadCall) (hpc : c.pc = .sleep ∨ c.pc = .asleep) :
    c.wake.woken = true := by
  rcases hpc with hpc | hpc <;> simp [ReadCall.wake, hpc, ReadPc.onQueue]

/-- The own steps of a call that lead to its sleep: the test found nothing unread, or it was about
to sleep before. -/
theorem ReadStep.to_sleep {s s' : Readers} {c c' : ReadCall} {e : ReadEnv} {nextSeq : UInt64}
    (h : ReadStep s c e nextSeq s' (.goto c')) (hpc : c'.pc = .sleep ∨ c'.pc = .asleep) :
    s' = s ∧ c'.file = c.file ∧
      (s.ring.headSeq ≤ nextSeq ∨ c.pc = .sleep ∧ c.woken = false) := by
  cases h with
  | schedule _ havail =>
      refine ⟨rfl, rfl, .inl ?_⟩
      rw [← UInt64.not_lt, ← ringDataAvailable_iff, havail]
      decide
  | deschedule hsleep hwoken => exact ⟨rfl, rfl, .inr ⟨hsleep, hwoken⟩⟩
  | _ => simp at hpc

/-- One step keeps `WakeupOwed`. -/
theorem WakeupOwed.step {size : UInt32} {d d' : Device} {op : DeviceOp} {o : DeviceObs}
    (h : DeviceStep d op d' o) (hs : d.Sound size) (howed : WakeupOwed d) : WakeupOwed d' := by
  intro t c' nextSeq' hc' hpc' hwoken' hcursor'
  rcases h.collector_cases with ⟨-, hwake, -⟩ | ⟨-, -, hcalls⟩ | ⟨hkeepwake, k, hring⟩
  -- a push: the wake-up is owed from here on
  · exact .inl hwake
  -- the wake-up: nobody on the queue is left unwoken
  · rw [hcalls] at hc'
    obtain ⟨c, hc, rfl⟩ := Option.map_eq_some_iff.mp hc'
    rw [c.woken_wake hpc'] at hwoken'
    cases hwoken'
  -- any other step: the ring has the same head, and the cursor of a sleeper does not go back
  · have hhead : d'.readers.ring.headSeq = d.readers.ring.headSeq := by rw [hring]
    rw [hhead]
    have hkeep : ∀ c nextSeq, d.calls.find t = some c → c.pc = .sleep ∨ c.pc = .asleep →
        c.woken = false → d.readers.cursor c.file = some nextSeq →
        d'.collector.pc = .wake ∨ d.readers.ring.headSeq ≤ nextSeq :=
      fun c nextSeq hc hpc hw hcur => (howed t c nextSeq hc hpc hw hcur).imp_left hkeepwake
    rcases h.call_cases hc' with ⟨f, count, nonblock, -, -, -, -, rfl⟩ |
      ⟨e, c, nextSeq, -, hc, hcursor, hstep⟩ | ⟨c, w, g, hc, -, hw, rfl⟩
    · simp [ReadCall.start] at hpc'
    -- the sleeper's own step: it has just found nothing, or it was about to sleep before
    · obtain ⟨hreaders, hfile, hle | ⟨hsleep, hwoken⟩⟩ := hstep.to_sleep hpc'
      all_goals
        rw [hreaders, hfile, hcursor] at hcursor'
        obtain rfl := Option.some.inj hcursor'
      · exact .inr hle
      · exact hkeep c nextSeq hc (.inl hsleep) hwoken hcursor
    -- a step of anybody else: the flag `woken` is only ever set
    · have hwoken : c.woken = false := by
        by_contra hne
        rw [hw (by simpa using hne)] at hwoken'
        cases hwoken'
      rcases h.cursor_cases c.file with hsame | ⟨-, hunused, -⟩ | ⟨-, hidle, -⟩ |
        ⟨_, _, b, kbuf, nextSeq, -, -, -, -, hcursor, hnew⟩
      · rw [hsame] at hcursor'
        exact hkeep c nextSeq' hc hpc' hwoken hcursor'
      -- the file of a sleeper is neither opened nor released
      · have hopen := hs.call_open t c hc
        simp [Readers.cursor, hunused] at hopen
      · exact absurd rfl (hidle t c hc)
      -- an overlapping read consumes from the same cursor: either it finds nothing as well
      · rcases hkeep c nextSeq hc hpc' hwoken hcursor with hwake | hle
        · exact .inl hwake
        · rw [ringConsume_of_le hle, hcursor'] at hnew
          obtain rfl := Option.some.inj hnew
          exact .inr hle

variable {size : UInt32} {vzalloc : Bool} {r : RingBuf} {paths : AttrPaths} {intervalMs : UInt32}
  {stack : GpuSample} {ts : List DeviceTransition} {d : Device}

/-- `WakeupOwed` holds in every state of a run. -/
theorem wakeupOwed_of_trace (hinit : ringInit size vzalloc = .ok r)
    (h : Device.machine.Trace (.start r paths intervalMs stack) ts d) : WakeupOwed d := by
  have hboth : d.Sound size ∧ WakeupOwed d := by
    refine Trace.invariant (I := fun d => d.Sound size ∧ WakeupOwed d) ?_ h
      ⟨.start hinit paths intervalMs stack, nofun⟩
    rintro d op d' o ⟨hs, howed⟩ hstep
    have hstep' := Device.deviceStep_of_step hstep
    exact ⟨Device.Sound.step hstep' hs, howed.step hstep' hs⟩
  exact hboth.2

/-- **No lost wake-up.** In every state of every run, a reader that is descheduled and has not been
woken while there is an unread sample for it has a wake-up coming: the collector is between a
`ring_push` and its `wake_up_interruptible`, it has not left its loop, and its next step wakes the
reader. -/
theorem no_lost_wakeup (hinit : ringInit size vzalloc = .ok r)
    (h : Device.machine.Trace (.start r paths intervalMs stack) ts d) {t : ThreadId} {c : ReadCall}
    {nextSeq : UInt64} (hcall : d.calls.find t = some c) (hpc : c.pc = .asleep)
    (hwoken : c.woken = false) (hcursor : d.readers.cursor c.file = some nextSeq)
    (hunread : nextSeq < d.readers.ring.headSeq) :
    d.collector.pc = .wake ∧
      ∀ e, ∃ d', d.step (.collect e) = some (d', .silent) ∧
        d'.calls.find t = some { c with woken := true } := by
  have hwake : d.collector.pc = .wake := by
    rcases wakeupOwed_of_trace hinit h t c nextSeq hcall (.inr hpc) hwoken hcursor with hwake | hle
    · exact hwake
    · exact absurd hunread (UInt64.not_lt.mpr hle)
  refine ⟨hwake, fun e => ⟨_, Device.step_iff.mpr (.wake e hwake), ?_⟩⟩
  simp [hcall, ReadCall.wake, hpc, ReadPc.onQueue]

/-- The race itself: the reader finds nothing, the collector pushes, the reader goes to sleep. -/
theorem no_lost_wakeup_race :
    ∃ r ts d, ringInit 2 true = .ok r ∧
      Device.machine.Trace (.start r ⟨"", "", "", ""⟩ 500 default) ts d ∧
      (∃ c, d.calls.find 7 = some c ∧ c.pc = .asleep ∧ c.woken = false) ∧
      d.collector.pc = .wake := by
  let r : RingBuf := ⟨Array.replicate 2 default, 2, 1, 0, 0⟩
  have hinit : ringInit 2 true = .ok r := rfl
  let e : CollectorEnv := ⟨0, fun _ => .error .ENOENT, fun _ => .error .EINVAL, false⟩
  let go : DeviceOp := .advance 7 ⟨none, 0⟩
  -- entry, check, enqueue, test; then the push; then the deschedule
  have hrun : (Device.machine.exec (.start r ⟨"", "", "", ""⟩ 500 default)
      [.kthreadRun, .openFile 0 true, .read 7 0 48 false, go, go, go, go,
        .collect e, .collect e, .collect e, go]).map
      (fun p => ((p.2.calls.find 7).map fun c => (decide (c.pc matches .asleep), c.woken, c.file),
        p.2.readers.cursor 0, p.2.readers.ring.headSeq))
      = some (some (true, false, 0), some 0, 1) := by
    decide
  obtain ⟨⟨ts, d⟩, hexec, hseen⟩ := Option.map_eq_some_iff.mp hrun
  simp only [Prod.mk.injEq] at hseen
  obtain ⟨hcall, hcursor, hhead⟩ := hseen
  obtain ⟨c, hc, hflags⟩ := Option.map_eq_some_iff.mp hcall
  simp only [Prod.mk.injEq, decide_eq_true_eq] at hflags
  obtain ⟨hpc, hwoken, hfile⟩ := hflags
  have hpc' : c.pc = .asleep := by
    split at hpc
    next heq => exact heq
    next => cases hpc
  have htr := Trace.of_exec hexec
  refine ⟨r, ts, d, hinit, htr, ⟨c, hc, hpc', hwoken⟩, ?_⟩
  exact (no_lost_wakeup hinit htr hc hpc' hwoken (hfile ▸ hcursor) (by rw [hhead]; decide)).1

end GpuTelem
