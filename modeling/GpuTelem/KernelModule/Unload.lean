import GpuTelem.KernelModule

/-!
# Unloading while the collector sleeps

The module with the clock: `msleep_interruptible` is not one step here but a loop around
`schedule_timeout_interruptible`, which a wake-up leaves early and which then sleeps for what is
left, unless a signal is pending. A kernel thread gets no signals, and `kthread_stop` sets the flag
and wakes the thread.

How many ticks an interval lasts is up to the kernel; it is a parameter `jiffies`.

## Main definitions

* `TimedModule.machine`: the module and the sleep of its collector, tick by tick;
* `TimedModule.MidPass`: the collector is in a pass of its loop that still has a sleep ahead;
* `TimedModule.StopsAtOnce`: the collector returns without another tick of sleep.

## Main results

* `TimedStep`, `TimedModule.step_iff`: the steps, by cases;
* `TimedModule.module_of_trace`: without its ticks a run is one of `KernelModule.machine`;
* `unload_without_sleep_iff`: the collector returns at once exactly when `kthread_stop` does not
  find it in such a pass.
-/

namespace GpuTelem

open Machine

/-- Where the collector is in `msleep_interruptible(gdev.interval_ms)`. -/
inductive MsleepPc
  /-- The argument has not been read yet. -/
  | call
  /-- At `while (timeout && !signal_pending(current))`. -/
  | test (timeout : ℕ)
  /-- In `schedule_timeout_interruptible(timeout)`. -/
  | scheduled (timeout : ℕ)
  deriving DecidableEq

/-- `wake_up_process`: `schedule_timeout_interruptible` returns with what is left. -/
def MsleepPc.wakeUp : MsleepPc → MsleepPc
  | .scheduled timeout => .test timeout
  | pc => pc

/-- The module, and the sleep of its collector. -/
structure TimedModule where
  mod : KernelModule
  /-- `call` unless the collector is at `msleep`. -/
  msleep : MsleepPc

/-- What happens to the module and its clock. -/
inductive TimedOp
  /-- A step of the module; at `msleep`, a step of the collector inside of it. -/
  | run (op : ModuleOp)
  /-- A tick of the clock while the collector sleeps. -/
  | tick

/-- A step of the collector. -/
def TimedOp.collects : TimedOp → Bool
  | .run (.device (.collect _)) => true
  | _ => false

/-- Whether the clock ticks while the collector sleeps. -/
def TimedOp.ticks : TimedOp → Bool
  | .tick => true
  | .run _ => false

namespace TimedModule

/-- The module as `insmod` finds it. -/
def start (stack : GpuSample) : TimedModule where
  mod := .start stack
  msleep := .call

/-- A step of the module outside of `msleep_interruptible`. -/
def stepModule (e : InitEnv) (s : TimedModule) (op : ModuleOp) (msleep : MsleepPc) :
    Option (TimedModule × DeviceObs) :=
  match s.mod.step e op with
  | none => none
  | some (m, o) => some ({ mod := m, msleep := msleep }, o)

/-- One step. -/
def step (e : InitEnv) (jiffies : UInt32 → ℕ) (s : TimedModule) :
    TimedOp → Option (TimedModule × DeviceObs)
  | .tick =>
      match s.msleep with
      | .scheduled (timeout + 1) =>
          -- the timer that expires wakes the thread
          some ({ s with msleep := if timeout = 0 then .test 0 else .scheduled timeout }, .silent)
      | _ => none
  | .run (.device (.collect env)) =>
      match s.mod.dev.collector.pc with
      | .msleep =>
          match s.msleep with
          | .call => some ({ s with msleep := .test (jiffies s.mod.dev.intervalMs) }, .silent)
          | .test 0 =>
              -- a kernel thread has no signal pending
              if env.interrupted then none else s.stepModule e (.device (.collect env)) .call
          | .test (timeout + 1) => some ({ s with msleep := .scheduled (timeout + 1) }, .silent)
          | .scheduled _ => none
      | _ => s.stepModule e (.device (.collect env)) s.msleep
  | .run .advance =>
      -- `kthread_stop` sets the flag and wakes the thread
      s.stepModule e .advance (if s.mod.pc = .kthreadStop then s.msleep.wakeUp else s.msleep)
  | .run op => s.stepModule e op s.msleep

/-- The module with its clock as a machine. -/
def machine (e : InitEnv) (jiffies : UInt32 → ℕ) : Machine TimedModule TimedOp DeviceObs where
  step := step e jiffies

@[simp]
theorem machine_step (e : InitEnv) (jiffies : UInt32 → ℕ) (s : TimedModule) (op : TimedOp) :
    (machine e jiffies).step s op = s.step e jiffies op := rfl

end TimedModule

/-! ## The steps by cases -/

/-- The steps of the module with its clock. -/
inductive TimedStep (e : InitEnv) (jiffies : UInt32 → ℕ) (s : TimedModule) :
    TimedOp → TimedModule → DeviceObs → Prop
  | tick (timeout : ℕ) (hmsleep : s.msleep = .scheduled (timeout + 1)) :
      TimedStep e jiffies s .tick
        { s with msleep := if timeout = 0 then .test 0 else .scheduled timeout } .silent
  | call (env : CollectorEnv) (hpc : s.mod.dev.collector.pc = .msleep)
      (hmsleep : s.msleep = .call) :
      TimedStep e jiffies s (.run (.device (.collect env)))
        { s with msleep := .test (jiffies s.mod.dev.intervalMs) } .silent
  | sleep (env : CollectorEnv) (timeout : ℕ) (hpc : s.mod.dev.collector.pc = .msleep)
      (hmsleep : s.msleep = .test (timeout + 1)) :
      TimedStep e jiffies s (.run (.device (.collect env)))
        { s with msleep := .scheduled (timeout + 1) } .silent
  | slept (env : CollectorEnv) (hpc : s.mod.dev.collector.pc = .msleep)
      (hmsleep : s.msleep = .test 0) (hint : env.interrupted = false) :
      TimedStep e jiffies s (.run (.device (.collect env)))
        { mod := { s.mod with
            dev := { s.mod.dev with
              collector := { s.mod.dev.collector with pc := .loopTest } } }
          msleep := .call } .silent
  | collect (env : CollectorEnv) (m : KernelModule) (o : DeviceObs)
      (hpc : s.mod.dev.collector.pc ≠ .msleep)
      (hstep : ModuleStep e s.mod (.device (.collect env)) m o) :
      TimedStep e jiffies s (.run (.device (.collect env))) { s with mod := m } o
  | stop (m : KernelModule) (o : DeviceObs) (hpc : s.mod.pc = .kthreadStop)
      (hstep : ModuleStep e s.mod .advance m o) :
      TimedStep e jiffies s (.run .advance) { mod := m, msleep := s.msleep.wakeUp } o
  | run (op : ModuleOp) (m : KernelModule) (o : DeviceObs)
      (hcollect : ∀ env, op ≠ .device (.collect env))
      (hstop : op = .advance → s.mod.pc ≠ .kthreadStop) (hstep : ModuleStep e s.mod op m o) :
      TimedStep e jiffies s (.run op) { s with mod := m } o

namespace TimedModule

variable {e : InitEnv} {jiffies : UInt32 → ℕ} {s s' : TimedModule} {op : TimedOp} {o : DeviceObs}

/-- A step of the module, with the point in `msleep_interruptible` after it. -/
theorem stepModule_of_step {mop : ModuleOp} {m : KernelModule} (h : ModuleStep e s.mod mop m o)
    (msleep : MsleepPc) : s.stepModule e mop msleep = some ({ mod := m, msleep := msleep }, o) := by
  rw [stepModule, KernelModule.step_iff.mpr h]

/-- A step of the module, taken apart. -/
theorem moduleStep_of_stepModule {mop : ModuleOp} {msleep : MsleepPc}
    (h : s.stepModule e mop msleep = some (s', o)) :
    ∃ m, ModuleStep e s.mod mop m o ∧ s' = { mod := m, msleep := msleep } := by
  rw [stepModule] at h
  split at h <;> cases h
  next m hstep => exact ⟨m, KernelModule.step_iff.mp hstep, rfl⟩

/-- At the end of `msleep_interruptible` the collector goes on to its loop test. -/
theorem moduleStep_msleep_iff {env : CollectorEnv} (hpc : s.mod.dev.collector.pc = .msleep)
    (hint : env.interrupted = false) {m : KernelModule} :
    ModuleStep e s.mod (.device (.collect env)) m o ↔ o = .silent ∧ m = { s.mod with
      dev := { s.mod.dev with collector := { s.mod.dev.collector with pc := .loopTest } } } := by
  constructor
  · intro h
    cases h with
    | device _ d _ hallows hstep => cases hstep <;> simp_all [moduleRefs]
  · rintro ⟨rfl, rfl⟩
    exact .device (.collect env) _ .silent rfl (.slept env hpc hint)

/-- A step of the machine is one of the cases of `TimedStep`. -/
private theorem timedStep_of_step (h : s.step e jiffies op = some (s', o)) :
    TimedStep e jiffies s op s' o := by
  unfold step at h
  split at h
  next =>
    -- the clock
    split at h <;> cases h
    next timeout hmsleep => exact .tick timeout hmsleep
  next env =>
    split at h
    next hpc =>
      -- the collector in `msleep_interruptible`
      split at h
      next hmsleep => cases h; exact .call env hpc hmsleep
      next hmsleep =>
        split_ifs at h with hint
        rw [Bool.not_eq_true] at hint
        obtain ⟨m, hm, rfl⟩ := moduleStep_of_stepModule h
        obtain ⟨rfl, rfl⟩ := (moduleStep_msleep_iff hpc hint).mp hm
        exact .slept env hpc hmsleep hint
      next timeout hmsleep => cases h; exact .sleep env timeout hpc hmsleep
      next => cases h
    next hpc =>
      obtain ⟨m, hm, rfl⟩ := moduleStep_of_stepModule h
      exact .collect env m o hpc hm
  next =>
    obtain ⟨m, hm, rfl⟩ := moduleStep_of_stepModule h
    split_ifs with hpc
    · exact .stop m o hpc hm
    · exact .run .advance m o nofun (fun _ => hpc) hm
  next mop hcollect hadvance =>
    obtain ⟨m, hm, rfl⟩ := moduleStep_of_stepModule h
    refine .run mop m o (fun env hmop => hcollect env hmop) (fun hmop => ?_) hm
    exact absurd hmop hadvance

/-- `TimedModule.step` takes exactly the steps of `TimedStep`. -/
theorem step_iff : s.step e jiffies op = some (s', o) ↔ TimedStep e jiffies s op s' o := by
  refine ⟨timedStep_of_step, fun h => ?_⟩
  cases h with
  | tick timeout hmsleep => simp [step, hmsleep]
  | call env hpc hmsleep => simp [step, hpc, hmsleep]
  | sleep env timeout hpc hmsleep => simp [step, hpc, hmsleep]
  | slept env hpc hmsleep hint =>
      have hend := (moduleStep_msleep_iff (e := e) hpc hint).mpr ⟨rfl, rfl⟩
      have hgo := stepModule_of_step hend .call
      simpa [step, hpc, hmsleep, hint] using hgo
  | collect env m _ hpc hstep =>
      have hgo := stepModule_of_step hstep s.msleep
      unfold step
      split <;> simp_all
  | stop m _ hpc hstep =>
      have hgo := stepModule_of_step hstep s.msleep.wakeUp
      simpa [step, hpc] using hgo
  | run mop m _ hcollect hstop hstep =>
      have hgo := stepModule_of_step hstep s.msleep
      unfold step
      split <;> simp_all

/-! ## What a run of the clock shows of the module -/

/-- A step is a step of the module, or of the clock and the sleep alone. -/
theorem TimedStep.mod_cases (h : TimedStep e jiffies s op s' o) :
    s'.mod = s.mod ∨ ∃ mop o', ModuleStep e s.mod mop s'.mod o' := by
  cases h with
  | tick timeout hmsleep => exact .inl rfl
  | call env hpc hmsleep => exact .inl rfl
  | sleep env timeout hpc hmsleep => exact .inl rfl
  | slept env hpc hmsleep hint =>
      exact .inr ⟨_, _, (moduleStep_msleep_iff hpc hint).mpr ⟨rfl, rfl⟩⟩
  | collect env m _ hpc hstep => exact .inr ⟨_, _, hstep⟩
  | stop m _ hpc hstep => exact .inr ⟨_, _, hstep⟩
  | run mop m _ hcollect hstop hstep => exact .inr ⟨_, _, hstep⟩

/-- Without its ticks a run is one of the module. -/
theorem module_of_trace {stack : GpuSample} {ts : List (Transition TimedModule TimedOp DeviceObs)}
    (h : (machine e jiffies).Trace (start stack) ts s) :
    ∃ us, (KernelModule.machine e).Trace (.start stack) us s.mod := by
  refine Trace.invariant
    (I := fun s => ∃ us, (KernelModule.machine e).Trace (.start stack) us s.mod) ?_ h ⟨[], .nil⟩
  rintro s op s' o ⟨us, hus⟩ hstep
  rcases TimedStep.mod_cases (step_iff.mp hstep) with hsame | ⟨mop, o', hmod⟩
  · exact ⟨us, hsame ▸ hus⟩
  · exact ⟨_, Trace.snoc hus (KernelModule.step_iff.mpr hmod)⟩

end TimedModule

/-! ## The interval -/

/-- No step makes the interval shorter than `MIN_SAMPLE_MS`. -/
theorem DeviceStep.minSampleMs_le {d d' : Device} {op : DeviceOp} {o : DeviceObs}
    (h : DeviceStep d op d' o) (hmin : minSampleMs ≤ d.intervalMs) :
    minSampleMs ≤ d'.intervalMs := by
  cases h with
  | ioctl f cmd arg hopen =>
      simp only [gpuTelemIoctl]
      split_ifs <;> try (split <;> exact hmin)
      · split
        next => exact hmin
        next val =>
          split_ifs with hval
          · exact hmin
          · exact UInt32.not_lt.mp hval
      · exact hmin
  | _ => exact hmin

/-- Whatever `sample_ms` and the `ioctl` calls set, the interval is at least `MIN_SAMPLE_MS`. -/
theorem KernelModule.minSampleMs_le_of_trace {e : InitEnv} {stack : GpuSample} {m : KernelModule}
    {ts : List ModuleTransition} (h : (machine e).Trace (start stack) ts m)
    (hup : m.pc.ringUp = true) : minSampleMs ≤ m.dev.intervalMs := by
  obtain ⟨size, r, us, -, -, hus⟩ := device_of_trace h hup
  refine Trace.invariant (I := fun d => minSampleMs ≤ d.intervalMs) ?_ hus ?_
  · intro d op d' o hmin hstep
    exact DeviceStep.minSampleMs_le (Device.step_iff.mp hstep) hmin
  · show minSampleMs ≤ if e.sampleMs ≤ minSampleMs then minSampleMs else e.sampleMs
    split_ifs with hmax
    · exact UInt32.le_refl _
    · exact UInt32.le_of_lt (UInt32.not_le.mp hmax)

/-- A collector without attributes, and without a signal. -/
def quietEnv : CollectorEnv where
  ktimeGetNs := 0
  kernelRead _ := .error .ENOENT
  kstrtos64 _ := .error .EINVAL
  interrupted := false

/-! ## The collector after `kthread_stop` -/

namespace TimedModule

variable {e : InitEnv} {jiffies : UInt32 → ℕ} {s s' : TimedModule} {op : TimedOp} {o : DeviceObs}

/-- The collector is in a pass of its loop, and the sleep of this pass is still to come or not
over. -/
def MidPass (s : TimedModule) : Bool :=
  match s.mod.dev.collector.pc with
  | .collect | .push | .wake => true
  | .msleep => s.msleep != .test 0
  | _ => false

/-- Whether a step is a `ring_push`. -/
def pushes (τ : Transition TimedModule TimedOp DeviceObs) : Bool :=
  τ.input.collects && τ.pre.mod.dev.collector.pc == .push

/-- From this state on the collector never spends another tick asleep: it pushes at most once more,
it can always go on, and after at most six steps of its own it has returned. -/
def StopsAtOnce (e : InitEnv) (jiffies : UInt32 → ℕ) (s : TimedModule) : Prop :=
  ∀ us s', (machine e jiffies).Trace s us s' →
    (∀ τ ∈ us, τ.input.ticks = false) ∧ us.countP pushes ≤ 1 ∧
    (s'.mod.dev.collector.running = true → ∀ env : CollectorEnv, env.interrupted = false →
      (s'.step e jiffies (.run (.device (.collect env)))).isSome) ∧
    (6 ≤ us.countP (·.input.collects) → s'.mod.dev.collector.running = false)

/-- The point in `msleep_interruptible` is one: there is none outside of it, and a sleep lasts. -/
structure Consistent (s : TimedModule) : Prop where
  outside : s.mod.dev.collector.pc ≠ .msleep → s.msleep = .call
  lasts : ∀ timeout, s.msleep = .scheduled timeout → 0 < timeout

end TimedModule

/-- The steps of a device that leave its collector alone. -/
theorem DeviceStep.collector_eq {d d' : Device} {op : DeviceOp} {o : DeviceObs}
    (h : DeviceStep d op d' o) (hcollect : ∀ env, op ≠ .collect env) (hrun : op ≠ .kthreadRun)
    (hstop : op ≠ .kthreadStop) : d'.collector = d.collector := by
  cases h with
  | kthreadRun hpc => exact absurd rfl hrun
  | kthreadStop hpc => exact absurd rfl hstop
  | _ => first | rfl | exact absurd rfl (hcollect _)

/-- The steps of the module that leave its collector alone: all but those of the collector itself,
`kthread_run` and `kthread_stop`. -/
theorem ModuleStep.collector_cases {e : InitEnv} {m m' : KernelModule} {op : ModuleOp}
    {o : DeviceObs} (h : ModuleStep e m op m' o) (hcollect : ∀ env, op ≠ .device (.collect env)) :
    m'.dev.collector = m.dev.collector ∨
    (m.pc = .kthreadRun ∧ m.dev.collector.pc = .absent) ∨
    (m.pc = .kthreadStop ∧ op = .advance ∧ m'.pc = .kthreadStopWait ∧
      m'.dev.collector = { m.dev.collector with shouldStop := true }) := by
  cases h with
  | loaded hpc hthread hcollector => exact .inr (.inl ⟨hpc, hcollector⟩)
  | stopping hpc hcollector => exact .inr (.inr ⟨hpc, rfl, rfl, rfl⟩)
  | device op d o hallows hstep =>
      refine .inl (hstep.collector_eq (fun env hop => hcollect env (hop ▸ rfl)) ?_ ?_)
      · rintro rfl
        cases hallows
      · rintro rfl
        cases hallows
  | _ => exact .inl rfl

/-- Whether `kthread_stop` has set the flag. -/
def ModulePc.stopped : ModulePc → Bool
  | .kthreadStopWait | .deviceDestroy | .classDestroy | .cdevDel => true
  | .unregisterChrdevRegion | .ringDestroy | .unloaded => true
  | _ => false

/-- `gpu_telem_exit` does not go back. -/
theorem ModuleStep.stays_stopped {e : InitEnv} {m m' : KernelModule} {op : ModuleOp} {o : DeviceObs}
    (h : ModuleStep e m op m' o) (hm : m.pc.stopped = true) : m'.pc.stopped = true := by
  cases h with
  | goto pc' hgoto =>
      generalize m.pc = pc at hm hgoto
      cases hgoto <;> simp_all [ModulePc.stopped]
  | _ => simp_all [ModulePc.stopped]

namespace TimedModule

variable {e : InitEnv} {jiffies : UInt32 → ℕ} {s s' : TimedModule} {op : TimedOp} {o : DeviceObs}

/-- A thread that has begun to sleep is in `msleep_interruptible`. -/
theorem Consistent.pc_eq (hs : s.Consistent) (hmsleep : s.msleep ≠ .call) :
    s.mod.dev.collector.pc = .msleep := by
  by_contra hpc
  exact hmsleep (hs.outside hpc)

/-- Every step keeps the point in `msleep_interruptible` consistent. -/
theorem Consistent.step (hs : s.Consistent) (h : TimedStep e jiffies s op s' o) :
    s'.Consistent := by
  cases h with
  | tick timeout hmsleep =>
      have hpc := hs.pc_eq (by simp [hmsleep])
      refine ⟨fun hne => absurd hpc hne, fun left hleft => ?_⟩
      dsimp only at hleft
      split_ifs at hleft with hzero
      cases hleft
      omega
  | call env hpc hmsleep => exact ⟨fun hne => absurd hpc hne, nofun⟩
  | sleep env timeout hpc hmsleep =>
      refine ⟨fun hne => absurd hpc hne, fun left hleft => ?_⟩
      cases hleft
      omega
  | slept env hpc hmsleep hint => exact ⟨fun _ => rfl, nofun⟩
  | collect env m _ hpc hstep =>
      have hcall := hs.outside hpc
      exact ⟨fun _ => hcall, hs.lasts⟩
  | stop m _ hpc hstep =>
      refine ⟨fun hne => ?_, fun left hleft => ?_⟩
      · rcases hstep.collector_cases nofun with hkeep | ⟨hpc', -⟩ | ⟨-, -, -, hkeep⟩
        · rw [hs.outside (hkeep ▸ hne)]
          rfl
        · simp [hpc] at hpc'
        · rw [hs.outside (by simpa [hkeep] using hne)]
          rfl
      · cases hm : s.msleep <;> simp [hm, MsleepPc.wakeUp] at hleft
  | run mop m _ hcollect hstop hstep =>
      refine ⟨fun hne => ?_, hs.lasts⟩
      rcases hstep.collector_cases hcollect with hkeep | ⟨-, habsent⟩ | ⟨hpc, hop, -⟩
      · exact hs.outside (hkeep ▸ hne)
      · exact hs.outside (by simp [habsent])
      · exact absurd hpc (hstop hop)

/-- The point in `msleep_interruptible` is consistent in every state of a run. -/
theorem consistent_of_trace {stack : GpuSample}
    {ts : List (Transition TimedModule TimedOp DeviceObs)}
    (h : (machine e jiffies).Trace (start stack) ts s) : s.Consistent :=
  Trace.invariant (fun _ _ _ _ hs hstep => hs.step (step_iff.mp hstep)) h ⟨fun _ => rfl, nofun⟩

/-- `kthread_stop` has found the collector outside of a pass with a sleep ahead. -/
structure Returning (s : TimedModule) : Prop where
  consistent : s.Consistent
  stopped : s.mod.pc.stopped = true
  flag : s.mod.dev.collector.shouldStop = true
  between : s.MidPass = false

/-- The steps of its own that such a collector still makes. -/
def stepsLeft (s : TimedModule) : ℕ :=
  match s.mod.dev.collector.pc with
  | .loopTest => 1
  | .msleep => 2
  | _ => 0

/-- Every step keeps the collector returning: the clock does not tick, nothing is pushed, and a step
of its own is one step less to go. -/
theorem Returning.step (hs : s.Returning) (h : TimedStep e jiffies s op s' o) :
    s'.Returning ∧ op.ticks = false ∧ pushes ⟨s, op, s', o⟩ = false ∧
      s.stepsLeft = s'.stepsLeft + if op.collects then 1 else 0 := by
  have hcons := hs.consistent.step h
  have hbetween := hs.between
  cases h with
  | tick timeout hmsleep =>
      have hpc := hs.consistent.pc_eq (by simp [hmsleep])
      simp [MidPass, hpc, hmsleep] at hbetween
  | call env hpc hmsleep => simp [MidPass, hpc, hmsleep] at hbetween
  | sleep env timeout hpc hmsleep => simp [MidPass, hpc, hmsleep] at hbetween
  | slept env hpc hmsleep hint =>
      exact ⟨⟨hcons, hs.stopped, hs.flag, rfl⟩, rfl, by simp [pushes, hpc],
        by simp [stepsLeft, hpc, TimedOp.collects]⟩
  | collect env m _ hpc hstep =>
      have hstopped := hstep.stays_stopped hs.stopped
      cases hstep with
      | device _ d _ hallows hstep =>
          cases hstep with
          | loopExit _ hpc' hflag =>
              exact ⟨⟨hcons, hstopped, hflag, rfl⟩, rfl, by simp [pushes, hpc'],
                by simp [stepsLeft, hpc', TimedOp.collects]⟩
          | loopBody _ hpc' hflag => simp [hs.flag] at hflag
          | _ => simp_all [MidPass]
  | stop m _ hpc hstep =>
      have hstopped := hs.stopped
      simp [hpc, ModulePc.stopped] at hstopped
  | run mop m _ hcollect hstop hstep =>
      have hstopped := hs.stopped
      rcases hstep.collector_cases hcollect with hkeep | ⟨hpc, -⟩ | ⟨hpc, -⟩
      · have hop : (TimedOp.run mop).collects = false := by
          unfold TimedOp.collects
          split
          next env hmop => exact absurd (TimedOp.run.inj hmop) (hcollect env)
          next => rfl
        exact ⟨⟨hcons, hstep.stays_stopped hstopped, by rw [hkeep]; exact hs.flag,
          by simpa only [MidPass, hkeep] using hbetween⟩, rfl, by simp [pushes, hop],
          by simp [stepsLeft, hkeep, hop]⟩
      · simp [hpc, ModulePc.stopped] at hstopped
      · simp [hpc, ModulePc.stopped] at hstopped

/-- Such a collector returns at once. -/
theorem Returning.stopsAtOnce (hs : s.Returning) : s.StopsAtOnce e jiffies := by
  intro us s' h
  have hrun : s'.Returning ∧ (∀ τ ∈ us, τ.input.ticks = false) ∧ us.countP pushes = 0 ∧
      s.stepsLeft = s'.stepsLeft + us.countP (·.input.collects) := by
    induction h with
    | nil => exact ⟨hs, by simp, rfl, rfl⟩
    | @snoc us s₁ s₂ op o _ hlast ih =>
        obtain ⟨hs₁, hticks, hpushes, hleft⟩ := ih
        obtain ⟨hs₂, htick, hpush, hstep⟩ := hs₁.step (step_iff.mp hlast)
        refine ⟨hs₂, forall_mem_snoc.mpr ⟨hticks, htick⟩, ?_, ?_⟩
        · simpa [hpush] using hpushes
        · rw [List.countP_append, List.countP_singleton]
          dsimp only
          omega
  obtain ⟨hs', hticks, hpushes, hleft⟩ := hrun
  have hbetween := hs'.between
  refine ⟨hticks, by omega, fun hrunning env hint => ?_, fun hcount => ?_⟩
  · rw [Option.isSome_iff_exists]
    cases hpc : s'.mod.dev.collector.pc with
    | loopTest =>
        have hexit : ModuleStep e s'.mod (.device (.collect env)) _ _ :=
          .device (.collect env) _ _ rfl (.loopExit env hpc hs'.flag)
        exact ⟨_, step_iff.mpr (.collect env _ _ (by simp [hpc]) hexit)⟩
    | msleep =>
        have hmsleep : s'.msleep = .test 0 := by simpa [MidPass, hpc] using hbetween
        exact ⟨_, step_iff.mpr (.slept env hpc hmsleep hint)⟩
    | _ => simp [MidPass, Collector.running, hpc] at hbetween hrunning
  · have hnone : s'.stepsLeft = 0 := by
      have hle : s.stepsLeft ≤ 2 := by
        unfold stepsLeft
        split <;> omega
      omega
    unfold stepsLeft at hnone
    cases hpc : s'.mod.dev.collector.pc <;>
      simp_all [MidPass, Collector.running]

/-- What `kthread_stop` does: the flag, and a wake-up that does not end the sleep. -/
theorem of_kthreadStop (hs : s.Consistent) (hpc : s.mod.pc = .kthreadStop)
    (h : TimedStep e jiffies s (.run .advance) s' o) :
    s'.mod.pc.stopped = true ∧ s'.mod.dev.collector.shouldStop = true ∧
      s'.mod.dev.intervalMs = s.mod.dev.intervalMs ∧ s'.MidPass = s.MidPass := by
  cases h with
  | stop m _ _ hstep =>
      cases hstep with
      | stopping _ hcollector =>
          refine ⟨rfl, rfl, rfl, ?_⟩
          simp only [MidPass]
          -- a sleep with time left is woken with time left
          cases hm : s.msleep with
          | scheduled timeout =>
              have hne : MsleepPc.test timeout ≠ .test 0 := by
                simpa using (hs.lasts timeout hm).ne'
              have hne' : MsleepPc.scheduled timeout ≠ .test 0 := nofun
              simp only [MsleepPc.wakeUp, bne_iff_ne.mpr hne, bne_iff_ne.mpr hne']
          | _ => rfl
      | goto pc' hgoto =>
          rw [hpc] at hgoto
          cases hgoto
      | _ => simp_all
  | run _ m _ _ hstop hstep => exact absurd hpc (hstop rfl)

/-! ## A sleep that goes on -/

/-- From this state a run leads through a tick of sleep. -/
def Ticks (e : InitEnv) (jiffies : UInt32 → ℕ) (s : TimedModule) : Prop :=
  ∃ us s', (machine e jiffies).Trace s us s' ∧ ∃ τ ∈ us, τ.input.ticks = true

/-- A tick that a later state leads to. -/
theorem Ticks.of_step (h : TimedStep e jiffies s op s' o) (hs' : s'.Ticks e jiffies) :
    s.Ticks e jiffies := by
  obtain ⟨us, t, htrace, τ, hτ, htick⟩ := hs'
  exact ⟨_, t, Trace.cons (step_iff.mpr h) htrace, τ, List.mem_cons_of_mem _ hτ, htick⟩

/-- A collector that returns at once does not sleep. -/
theorem StopsAtOnce.not_ticks (hs : s.StopsAtOnce e jiffies) : ¬ s.Ticks e jiffies := by
  rintro ⟨us, s', h, τ, hτ, htick⟩
  rw [(hs us s' h).1 τ hτ] at htick
  cases htick

variable (e) (jiffies)

/-- A collector off the CPU sleeps. -/
theorem ticks_of_scheduled {timeout : ℕ} (hmsleep : s.msleep = .scheduled (timeout + 1)) :
    s.Ticks e jiffies := by
  have htick : TimedStep e jiffies s .tick _ _ := .tick timeout hmsleep
  exact ⟨_, _, Trace.cons (step_iff.mpr htick) Trace.nil, _, List.mem_singleton_self _, rfl⟩

/-- A collector that has not slept its time goes on sleeping. -/
theorem ticks_of_test {timeout : ℕ} (hpc : s.mod.dev.collector.pc = .msleep)
    (hmsleep : s.msleep = .test (timeout + 1)) : s.Ticks e jiffies :=
  have htick : TimedModule.Ticks e jiffies { s with msleep := .scheduled (timeout + 1) } :=
    ticks_of_scheduled e jiffies rfl
  htick.of_step (.sleep quietEnv timeout hpc hmsleep)

/-- A collector that begins to sleep sleeps. -/
theorem ticks_of_call (hpos : 0 < jiffies s.mod.dev.intervalMs)
    (hpc : s.mod.dev.collector.pc = .msleep) (hmsleep : s.msleep = .call) :
    s.Ticks e jiffies := by
  obtain ⟨timeout, htimeout⟩ := Nat.exists_eq_succ_of_ne_zero hpos.ne'
  have htest := ticks_of_test e jiffies
    (s := { s with msleep := .test (jiffies s.mod.dev.intervalMs) }) hpc (by rw [htimeout])
  exact htest.of_step (.call quietEnv hpc hmsleep)

/-- A pass that has begun ends with a sleep. -/
theorem ticks_of_midPass (hpos : 0 < jiffies s.mod.dev.intervalMs) (hs : s.Consistent)
    (hmid : s.MidPass = true) : s.Ticks e jiffies := by
  -- the collector's own steps outside of `msleep_interruptible`
  have hstep : ∀ {s : TimedModule} {d : Device}, s.mod.dev.collector.pc ≠ .msleep →
      DeviceStep s.mod.dev (.collect quietEnv) d .silent →
      ({ s with mod := { s.mod with dev := d } } : TimedModule).Ticks e jiffies →
      s.Ticks e jiffies := by
    intro s d hpc hd htick
    exact htick.of_step (.collect quietEnv _ _ hpc (.device _ d .silent rfl hd))
  have hwake : ∀ {s : TimedModule}, 0 < jiffies s.mod.dev.intervalMs → s.msleep = .call →
      s.mod.dev.collector.pc = .wake → s.Ticks e jiffies := by
    intro s hpos hmsleep hpc
    exact hstep (by simp [hpc]) (.wake quietEnv hpc) (ticks_of_call e jiffies hpos rfl hmsleep)
  have hpush : ∀ {s : TimedModule}, 0 < jiffies s.mod.dev.intervalMs → s.msleep = .call →
      s.mod.dev.collector.pc = .push → s.Ticks e jiffies := by
    intro s hpos hmsleep hpc
    exact hstep (by simp [hpc]) (.push quietEnv hpc) (hwake hpos hmsleep rfl)
  cases hpc : s.mod.dev.collector.pc with
  | collect =>
      have hcall := hs.outside (by simp [hpc])
      exact hstep (by simp [hpc]) (.collect quietEnv hpc) (hpush hpos hcall rfl)
  | push => exact hpush hpos (hs.outside (by simp [hpc])) hpc
  | wake => exact hwake hpos (hs.outside (by simp [hpc])) hpc
  | msleep =>
      cases hm : s.msleep with
      | call => exact ticks_of_call e jiffies hpos hpc hm
      | test timeout =>
          cases timeout with
          | zero => simp [MidPass, hpc, hm] at hmid
          | succ timeout => exact ticks_of_test e jiffies hpc hm
      | scheduled timeout =>
          obtain ⟨left, rfl⟩ := Nat.exists_eq_succ_of_ne_zero (hs.lasts timeout hm).ne'
          exact ticks_of_scheduled e jiffies hm
  | _ => simp [MidPass, hpc] at hmid

end TimedModule

/-- **When unloading does not wait out the interval.** In every run, with whatever intervals were
set, `kthread_stop` makes the collector return without another tick of sleep exactly when it does
not find it in a pass of its loop whose sleep is still to come or not over: the wake-up of
`kthread_stop` ends `schedule_timeout_interruptible`, but not `msleep_interruptible`. -/
theorem unload_without_sleep_iff {e : InitEnv} {jiffies : UInt32 → ℕ}
    (hjiffies : ∀ ms, minSampleMs ≤ ms → 0 < jiffies ms) {stack : GpuSample}
    {ts : List (Transition TimedModule TimedOp DeviceObs)} {s s' : TimedModule} {o : DeviceObs}
    (h : (TimedModule.machine e jiffies).Trace (.start stack) ts s)
    (hpc : s.mod.pc = .kthreadStop) (hstop : s.step e jiffies (.run .advance) = some (s', o)) :
    s'.StopsAtOnce e jiffies ↔ s.MidPass = false := by
  have hcons := TimedModule.consistent_of_trace h
  obtain ⟨us, hmod⟩ := TimedModule.module_of_trace h
  have hmin := KernelModule.minSampleMs_le_of_trace hmod (by rw [hpc]; rfl)
  have hstep := TimedModule.step_iff.mp hstop
  obtain ⟨hstopped, hflag, hinterval, hsame⟩ := TimedModule.of_kthreadStop hcons hpc hstep
  have hcons' := hcons.step hstep
  constructor
  · intro hreturns
    by_contra hmid
    rw [Bool.not_eq_false, ← hsame] at hmid
    have hpos : 0 < jiffies s'.mod.dev.intervalMs := hinterval ▸ hjiffies _ hmin
    exact hreturns.not_ticks (TimedModule.ticks_of_midPass e jiffies hpos hcons' hmid)
  · intro hbetween
    have hreturning : s'.Returning := ⟨hcons', hstopped, hflag, hsame.trans hbetween⟩
    exact hreturning.stopsAtOnce

/-- The default parameters, with every call of `gpu_telem_init` successful. -/
def loadedEnv : InitEnv where
  ringSize := 256
  sampleMs := 500
  paths := { tempPath := "", fanPath := "", powerPath := "", freqPath := "" }
  vzalloc := true
  allocChrdevRegion := .ok ()
  cdevAdd := .ok ()
  classCreate := .ok ()
  deviceCreate := .ok ()
  kthreadRun := .ok ()

/-- One tick a millisecond, and the one that `msleep_interruptible` adds. -/
def jiffiesHz1000 (ms : UInt32) : ℕ := ms.toNat + 1

/-- `insmod` and `rmmod` up to `kthread_stop`, with some steps of the collector and the clock in
between. -/
def unloadOps (between : List TimedOp) : List TimedOp :=
  List.replicate 6 (.run .advance) ++ between ++ [.run .deleteModule]

/-- A module that is unloaded when the timer of its collector has just expired: the collector has
slept all of the 501 ticks, and has not run since. -/
theorem unload_without_sleep_expired :
    ∃ ts s s' o, (TimedModule.machine loadedEnv jiffiesHz1000).Trace (.start default) ts s ∧
      s.mod.pc = .kthreadStop ∧ s.mod.dev.collector.pc = .msleep ∧ s.msleep = .test 0 ∧
      s.step loadedEnv jiffiesHz1000 (.run .advance) = some (s', o) ∧
      s'.StopsAtOnce loadedEnv jiffiesHz1000 := by
  have hrun : ((TimedModule.machine loadedEnv jiffiesHz1000).exec (.start default)
      (unloadOps (List.replicate 6 (.run (.device (.collect quietEnv))) ++
        List.replicate 501 .tick))).map
        (fun p => (p.2.mod.pc, p.2.msleep, p.2.mod.dev.collector.pc))
        = some (.kthreadStop, .test 0, .msleep) := by
    decide +kernel
  obtain ⟨⟨ts, s⟩, hexec, hseen⟩ := Option.map_eq_some_iff.mp hrun
  obtain ⟨hpc, hmsleep, hcollector⟩ : s.mod.pc = .kthreadStop ∧ s.msleep = .test 0 ∧
      s.mod.dev.collector.pc = .msleep := by
    simpa using hseen
  have hstop : TimedStep loadedEnv jiffiesHz1000 s (.run .advance) _ _ :=
    .stop _ _ hpc (.stopping hpc (by simp [hcollector]))
  have htrace := Trace.of_exec hexec
  have hjiffies : ∀ ms, minSampleMs ≤ ms → 0 < jiffiesHz1000 ms := fun ms _ => Nat.succ_pos _
  refine ⟨ts, s, _, _, htrace, hpc, hcollector, hmsleep, TimedModule.step_iff.mpr hstop, ?_⟩
  apply (unload_without_sleep_iff hjiffies htrace hpc (TimedModule.step_iff.mpr hstop)).mpr
  simp [TimedModule.MidPass, hcollector, hmsleep]

/-- The collector has slept one tick of 501 when `kthread_stop` wakes it; it sleeps on. -/
theorem unload_waits_out_interval :
    ¬ ∀ ts s s' o, (TimedModule.machine loadedEnv jiffiesHz1000).Trace (.start default) ts s →
      s.mod.pc = .kthreadStop →
      s.step loadedEnv jiffiesHz1000 (.run .advance) = some (s', o) →
      s'.StopsAtOnce loadedEnv jiffiesHz1000 := by
  intro h
  have hrun : ((TimedModule.machine loadedEnv jiffiesHz1000).exec (.start default)
      (unloadOps (List.replicate 6 (.run (.device (.collect quietEnv))) ++ [.tick]))).map
        (fun p => (p.2.mod.pc, p.2.msleep, p.2.mod.dev.collector.pc))
        = some (.kthreadStop, .scheduled 500, .msleep) := by
    decide
  obtain ⟨⟨ts, s⟩, hexec, hseen⟩ := Option.map_eq_some_iff.mp hrun
  obtain ⟨hpc, hmsleep, hcollector⟩ : s.mod.pc = .kthreadStop ∧ s.msleep = .scheduled 500 ∧
      s.mod.dev.collector.pc = .msleep := by
    simpa using hseen
  have hstop : TimedStep loadedEnv jiffiesHz1000 s (.run .advance) _ _ :=
    .stop _ _ hpc (.stopping hpc (by simp [hcollector]))
  have hreturns := h ts s _ _ (Trace.of_exec hexec) hpc (TimedModule.step_iff.mpr hstop)
  have hleft : s.msleep.wakeUp = .test (499 + 1) := by
    rw [hmsleep]
    rfl
  apply hreturns.not_ticks
  exact TimedModule.ticks_of_test _ _ hcollector hleft

end GpuTelem
