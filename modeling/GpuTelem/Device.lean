import GpuTelem.Collector
import GpuTelem.Foundations.Table
import GpuTelem.Read

/-!
# The device

`struct gpu_telem_device` with everything that runs on it: the collector thread, the file
operations, and any number of `read()` calls in flight, interleaved in any order. The machine
`Device.machine` takes one step of one of them at a time.

## Main definitions

* `gpuTelemPoll`, `gpuTelemIoctl`: the functions of these names;
* `collectorThread`: one step of the collector;
* `Device.step`, `Device.machine`: one step of the device.

## Main results

* `DeviceStep`, `Device.step_iff`: the steps, by cases;
* `Device.readers_of_trace`: a run of the device is a run of the ring and its readers.
-/

namespace GpuTelem

open Machine

/-- `struct gpu_telem_device`, with the calls in flight on it. -/
structure Device where
  /-- `ring`, and the `reader_ctx` of the open files. -/
  readers : Readers
  paths : AttrPaths
  intervalMs : UInt32
  /-- `open_count`, an `atomic_t`. -/
  openCount : Int32
  calls : Table ThreadId ReadCall
  collector : Collector

/-- The device after `gpu_telem_init` set it up, before `kthread_run`. `stack` is what the stack of
the collector thread will hold. -/
def Device.start (r : RingBuf) (paths : AttrPaths) (intervalMs : UInt32) (stack : GpuSample) :
    Device where
  readers := .start r
  paths := paths
  intervalMs := intervalMs
  openCount := 0
  calls := .empty
  collector := { pc := .absent, sample := stack, shouldStop := false }

/-- What happens to the device. -/
inductive DeviceOp
  /-- `gpu_telem_open`, with the outcome of its allocation. -/
  | openFile (f : FileId) (kzalloc : Bool)
  /-- `gpu_telem_release`. -/
  | release (f : FileId)
  /-- Thread `t` calls `read()` on `f`. -/
  | read (t : ThreadId) (f : FileId) (count : UInt64) (nonblock : Bool)
  /-- One step of the `read()` of thread `t`. -/
  | advance (t : ThreadId) (e : ReadEnv)
  /-- A signal for thread `t`. -/
  | signal (t : ThreadId)
  /-- `gpu_telem_poll`. -/
  | poll (f : FileId)
  /-- `gpu_telem_ioctl`. `arg` is the `u32` at the user address, if it is mapped. -/
  | ioctl (f : FileId) (cmd : UInt32) (arg : Option UInt32)
  /-- `kthread_run(collector_thread)`. -/
  | kthreadRun
  /-- `kthread_stop` asks the collector to stop. -/
  | kthreadStop
  /-- One step of the collector. -/
  | collect (e : CollectorEnv)

/-- What user space sees of a step. -/
inductive DeviceObs
  | silent
  | opened
  | failed (e : Errno)
  /-- `read()` returns to thread `t`, having written `bytes`. -/
  | returned (t : ThreadId) (result : Except Errno Int64) (bytes : List UInt8)
  | polled (mask : UInt32)
  /-- The result of an `ioctl`, with the value copied to user space. -/
  | ioctlDone (result : Except Errno (Option UInt32))
  deriving DecidableEq

/-- `EPOLLIN`. -/
def epollin : UInt32 := 0x1

/-- `EPOLLRDNORM`. -/
def epollrdnorm : UInt32 := 0x40

/-- `gpu_telem_poll`. -/
def gpuTelemPoll (r : RingBuf) (nextSeq : UInt64) : UInt32 :=
  if ringDataAvailable r nextSeq then epollin ||| epollrdnorm else 0

/-- `GPU_TELEM_GET_RING_SIZE`. -/
def gpuTelemGetRingSize : UInt32 := 0x80044700

/-- `GPU_TELEM_GET_INTERVAL_MS`. -/
def gpuTelemGetIntervalMs : UInt32 := 0x80044701

/-- `GPU_TELEM_SET_INTERVAL_MS`. -/
def gpuTelemSetIntervalMs : UInt32 := 0x40044702

/-- `MIN_SAMPLE_MS`. -/
def minSampleMs : UInt32 := 10

/-- `gpu_telem_ioctl`: the new interval, and the result with the value copied to user space. -/
def gpuTelemIoctl (ringSize intervalMs cmd : UInt32) (arg : Option UInt32) :
    UInt32 × Except Errno (Option UInt32) :=
  if cmd = gpuTelemGetRingSize then
    match arg with
    | none => (intervalMs, .error .EFAULT)
    | some _ => (intervalMs, .ok (some ringSize))
  else if cmd = gpuTelemGetIntervalMs then
    match arg with
    | none => (intervalMs, .error .EFAULT)
    | some _ => (intervalMs, .ok (some intervalMs))
  else if cmd = gpuTelemSetIntervalMs then
    match arg with
    | none => (intervalMs, .error .EFAULT)
    | some val =>
        -- a shorter interval is refused, not raised
        if val < minSampleMs then (intervalMs, .error .EINVAL) else (val, .ok none)
  else (intervalMs, .error .ENOTTY)

/-- One step of `collector_thread`; `none` when there is no such thread. -/
def collectorThread (d : Device) (e : CollectorEnv) : Option Device :=
  match d.collector.pc with
  | .absent => none
  | .loopTest =>
      -- `kthread_should_stop()`
      if d.collector.shouldStop then
        some { d with collector := { d.collector with pc := .exited } }
      else some { d with collector := { d.collector with pc := .collect } }
  | .collect =>
      some { d with
        collector := { d.collector with
          sample := collectSample e d.paths d.collector.sample
          pc := .push } }
  | .push =>
      -- the readers that slept before this push are woken by the next step
      some { d with
        readers := { d.readers with ring := ringPush d.readers.ring d.collector.sample }
        collector := { d.collector with pc := .wake } }
  | .wake =>
      some { d with
        calls := d.calls.map ReadCall.wake
        collector := { d.collector with pc := .msleep } }
  | .msleep =>
      -- a signal ends the thread, not only the sleep
      if e.interrupted then some { d with collector := { d.collector with pc := .exited } }
      else some { d with collector := { d.collector with pc := .loopTest } }
  | .exited => none

namespace Device

/-- One step of the device. -/
def step (d : Device) : DeviceOp → Option (Device × DeviceObs)
  | .openFile f kzalloc =>
      match d.readers.step (.openFile f kzalloc) with
      | some (s, .opened _) =>
          some ({ d with readers := s, openCount := d.openCount + 1 }, .opened)
      | some (s, .failed e) => some ({ d with readers := s }, .failed e)
      | _ => none
  | .release f =>
      -- a call in flight holds the file
      if d.calls.all (·.file != f) then
        match d.readers.step (.release f) with
        | some (s, _) => some ({ d with readers := s, openCount := d.openCount - 1 }, .silent)
        | none => none
      else none
  | .read t f count nonblock =>
      -- a thread is in one system call at a time
      if (d.calls.find t).isNone && (d.readers.cursor f).isSome then
        some ({ d with calls := d.calls.insert t (.start f count nonblock) }, .silent)
      else none
  | .advance t e =>
      match d.calls.find t with
      | none => none
      | some c =>
          match gpuTelemRead d.readers c e with
          | none => none
          | some (s, .goto c') =>
              some ({ d with readers := s, calls := d.calls.insert t c' }, .silent)
          | some (s, .ret result bytes) =>
              -- the call is over, its buffer is freed
              some ({ d with readers := s, calls := d.calls.erase t }, .returned t result bytes)
  | .signal t =>
      match d.calls.find t with
      | none => none
      | some c => some ({ d with calls := d.calls.insert t c.signal }, .silent)
  | .poll f =>
      match d.readers.cursor f with
      | none => none
      | some nextSeq => some (d, .polled (gpuTelemPoll d.readers.ring nextSeq))
  | .ioctl f cmd arg =>
      match d.readers.cursor f with
      | none => none
      | some _ =>
          let r := gpuTelemIoctl d.readers.ring.size d.intervalMs cmd arg
          some ({ d with intervalMs := r.1 }, .ioctlDone r.2)
  | .kthreadRun =>
      match d.collector.pc with
      | .absent => some ({ d with collector := { d.collector with pc := .loopTest } }, .silent)
      | _ => none
  | .kthreadStop =>
      match d.collector.pc with
      | .absent => none
      | _ => some ({ d with collector := { d.collector with shouldStop := true } }, .silent)
  | .collect e =>
      match collectorThread d e with
      | none => none
      | some d' => some (d', .silent)

/-- The device as a machine. -/
def machine : Machine Device DeviceOp DeviceObs where
  step := step

@[simp]
theorem machine_step (d : Device) (op : DeviceOp) : machine.step d op = d.step op := rfl

end Device

/-! ## The steps by cases -/

/-- The steps of a device. -/
inductive DeviceStep (d : Device) : DeviceOp → Device → DeviceObs → Prop
  | opened (f : FileId) (hfile : d.readers.files f = .unused) :
      DeviceStep d (.openFile f true)
        { d with
          readers := { d.readers with
            files := Function.update d.readers.files f
              (.opened { nextSeq := d.readers.ring.headSeq }) }
          openCount := d.openCount + 1 }
        .opened
  | openFailed (f : FileId) (hfile : d.readers.files f = .unused) :
      DeviceStep d (.openFile f false) d (.failed .ENOMEM)
  | release (f : FileId) (hopen : (d.readers.cursor f).isSome)
      (hidle : ∀ t c, d.calls.find t = some c → c.file ≠ f) :
      DeviceStep d (.release f)
        { d with
          readers := { d.readers with files := Function.update d.readers.files f .released }
          openCount := d.openCount - 1 }
        .silent
  | read (t : ThreadId) (f : FileId) (count : UInt64) (nonblock : Bool)
      (hthread : d.calls.find t = none) (hopen : (d.readers.cursor f).isSome) :
      DeviceStep d (.read t f count nonblock)
        { d with calls := d.calls.insert t (.start f count nonblock) } .silent
  | goto (t : ThreadId) (e : ReadEnv) (c c' : ReadCall) (nextSeq : UInt64) (s : Readers)
      (hcall : d.calls.find t = some c) (hcursor : d.readers.cursor c.file = some nextSeq)
      (hread : ReadStep d.readers c e nextSeq s (.goto c')) :
      DeviceStep d (.advance t e) { d with readers := s, calls := d.calls.insert t c' } .silent
  | ret (t : ThreadId) (e : ReadEnv) (c : ReadCall) (nextSeq : UInt64) (s : Readers)
      (result : Except Errno Int64) (bytes : List UInt8)
      (hcall : d.calls.find t = some c) (hcursor : d.readers.cursor c.file = some nextSeq)
      (hread : ReadStep d.readers c e nextSeq s (.ret result bytes)) :
      DeviceStep d (.advance t e) { d with readers := s, calls := d.calls.erase t }
        (.returned t result bytes)
  | signal (t : ThreadId) (c : ReadCall) (hcall : d.calls.find t = some c) :
      DeviceStep d (.signal t) { d with calls := d.calls.insert t c.signal } .silent
  | poll (f : FileId) (nextSeq : UInt64) (hcursor : d.readers.cursor f = some nextSeq) :
      DeviceStep d (.poll f) d (.polled (gpuTelemPoll d.readers.ring nextSeq))
  | ioctl (f : FileId) (cmd : UInt32) (arg : Option UInt32) (hopen : (d.readers.cursor f).isSome) :
      DeviceStep d (.ioctl f cmd arg)
        { d with intervalMs := (gpuTelemIoctl d.readers.ring.size d.intervalMs cmd arg).1 }
        (.ioctlDone (gpuTelemIoctl d.readers.ring.size d.intervalMs cmd arg).2)
  | kthreadRun (hpc : d.collector.pc = .absent) :
      DeviceStep d .kthreadRun { d with collector := { d.collector with pc := .loopTest } } .silent
  | kthreadStop (hpc : d.collector.pc ≠ .absent) :
      DeviceStep d .kthreadStop { d with collector := { d.collector with shouldStop := true } }
        .silent
  | loopExit (e : CollectorEnv) (hpc : d.collector.pc = .loopTest)
      (hstop : d.collector.shouldStop = true) :
      DeviceStep d (.collect e) { d with collector := { d.collector with pc := .exited } } .silent
  | loopBody (e : CollectorEnv) (hpc : d.collector.pc = .loopTest)
      (hstop : d.collector.shouldStop = false) :
      DeviceStep d (.collect e) { d with collector := { d.collector with pc := .collect } } .silent
  | collect (e : CollectorEnv) (hpc : d.collector.pc = .collect) :
      DeviceStep d (.collect e)
        { d with
          collector := { d.collector with
            sample := collectSample e d.paths d.collector.sample
            pc := .push } }
        .silent
  | push (e : CollectorEnv) (hpc : d.collector.pc = .push) :
      DeviceStep d (.collect e)
        { d with
          readers := { d.readers with ring := ringPush d.readers.ring d.collector.sample }
          collector := { d.collector with pc := .wake } }
        .silent
  | wake (e : CollectorEnv) (hpc : d.collector.pc = .wake) :
      DeviceStep d (.collect e)
        { d with
          calls := d.calls.map ReadCall.wake
          collector := { d.collector with pc := .msleep } }
        .silent
  | interrupted (e : CollectorEnv) (hpc : d.collector.pc = .msleep) (hint : e.interrupted = true) :
      DeviceStep d (.collect e) { d with collector := { d.collector with pc := .exited } } .silent
  | slept (e : CollectorEnv) (hpc : d.collector.pc = .msleep) (hint : e.interrupted = false) :
      DeviceStep d (.collect e) { d with collector := { d.collector with pc := .loopTest } } .silent

namespace Device

/-- A step of the collector is one of the collector's cases. -/
private theorem deviceStep_of_collectorThread {d d' : Device} {e : CollectorEnv}
    (h : collectorThread d e = some d') : DeviceStep d (.collect e) d' .silent := by
  unfold collectorThread at h
  split at h
  next => cases h
  next hpc =>
    split at h <;> cases h
    next hstop => exact .loopExit e hpc hstop
    next hstop => exact .loopBody e hpc (by simpa using hstop)
  next hpc => cases h; exact .collect e hpc
  next hpc => cases h; exact .push e hpc
  next hpc => cases h; exact .wake e hpc
  next hpc =>
    split at h <;> cases h
    next hint => exact .interrupted e hpc hint
    next hint => exact .slept e hpc (by simpa using hint)
  next => cases h

/-- A step of the machine is one of the cases of `DeviceStep`. -/
theorem deviceStep_of_step {d d' : Device} {op : DeviceOp} {o : DeviceObs}
    (h : d.step op = some (d', o)) : DeviceStep d op d' o := by
  cases op with
  | openFile f kzalloc =>
      rw [step] at h
      split at h
      next s nextSeq hreaders =>
        cases h
        obtain ⟨hfile, ⟨rfl, -, rfl⟩ | ⟨-, ho, -⟩⟩ := Readers.step_openFile.mp hreaders
        · exact .opened f hfile
        · cases ho
      next s err hreaders =>
        cases h
        obtain ⟨hfile, ⟨-, ho, -⟩ | ⟨rfl, ho, rfl⟩⟩ := Readers.step_openFile.mp hreaders
        · cases ho
        · cases ho
          exact .openFailed f hfile
      next => cases h
  | release f =>
      rw [step] at h
      split at h
      -- no call is in flight on the file
      next hidle =>
        split at h
        next s o' hreaders =>
          cases h
          obtain ⟨hopen, rfl, -⟩ := Readers.step_release.mp hreaders
          exact .release f hopen fun t c hc => by simpa using Table.all_eq_true.mp hidle t c hc
        next => cases h
      next => cases h
  | read t f count nonblock =>
      rw [step] at h
      split at h <;> cases h
      next hguard =>
        obtain ⟨hthread, hopen⟩ : d.calls.find t = none ∧ (d.readers.cursor f).isSome := by
          simpa using hguard
        exact .read t f count nonblock hthread hopen
  | advance t e =>
      rw [step] at h
      split at h
      next => cases h
      next c hcall =>
        -- the call sleeps, goes on or returns
        split at h
        next => cases h
        next s c' hread =>
          cases h
          obtain ⟨nextSeq, hcursor, hstep⟩ := gpuTelemRead_iff.mp hread
          exact .goto t e c c' nextSeq s hcall hcursor hstep
        next s result bytes hread =>
          cases h
          obtain ⟨nextSeq, hcursor, hstep⟩ := gpuTelemRead_iff.mp hread
          exact .ret t e c nextSeq s result bytes hcall hcursor hstep
  | signal t =>
      rw [step] at h
      split at h <;> cases h
      next c hcall => exact .signal t c hcall
  | poll f =>
      rw [step] at h
      split at h <;> cases h
      next nextSeq hcursor => exact .poll f nextSeq hcursor
  | ioctl f cmd arg =>
      rw [step] at h
      split at h <;> cases h
      next nextSeq hcursor => exact .ioctl f cmd arg (by rw [hcursor]; rfl)
  | kthreadRun =>
      rw [step] at h
      split at h <;> cases h
      next hpc => exact .kthreadRun hpc
  | kthreadStop =>
      rw [step] at h
      split at h <;> cases h
      next hpc => exact .kthreadStop hpc
  | collect e =>
      rw [step] at h
      split at h <;> cases h
      next hthread => exact deviceStep_of_collectorThread hthread

/-- `Device.step` takes exactly the steps of `DeviceStep`. -/
theorem step_iff {d d' : Device} {op : DeviceOp} {o : DeviceObs} :
    d.step op = some (d', o) ↔ DeviceStep d op d' o := by
  refine ⟨deviceStep_of_step, fun h => ?_⟩
  cases h with
  | opened f hfile => simp [step, Readers.step, hfile, gpuTelemOpen]
  | openFailed f hfile => simp [step, Readers.step, hfile, gpuTelemOpen]
  | release f hopen hidle =>
      have hall : d.calls.all (·.file != f) = true :=
        Table.all_eq_true.mpr fun t c hc => by simpa using hidle t c hc
      rw [step, if_pos hall, Readers.step_release.mpr ⟨hopen, rfl, rfl⟩]
  | read t f count nonblock hthread hopen => simp [step, hthread, hopen]
  | goto t e c c' nextSeq s hcall hcursor hread =>
      simp only [step, hcall, gpuTelemRead_iff.mpr ⟨nextSeq, hcursor, hread⟩]
  | ret t e c nextSeq s result bytes hcall hcursor hread =>
      simp only [step, hcall, gpuTelemRead_iff.mpr ⟨nextSeq, hcursor, hread⟩]
  | signal t c hcall => simp [step, hcall]
  | poll f nextSeq hcursor => simp [step, hcursor]
  | ioctl f cmd arg hopen =>
      obtain ⟨nextSeq, hcursor⟩ := Option.isSome_iff_exists.mp hopen
      simp [step, hcursor]
  | kthreadRun hpc => simp [step, hpc]
  | kthreadStop hpc => cases hc : d.collector.pc <;> simp_all [step]
  | _ => simp [step, collectorThread, *]

end Device

/-! ## What a step does to the ring, a cursor and a call -/

variable {d d' : Device} {op : DeviceOp} {o : DeviceObs}

/-- A step of `gpu_telem_read` touches the ring and the cursor at `ring_consume` only. -/
theorem ReadStep.readers_cases {s s' : Readers} {c : ReadCall} {e : ReadEnv} {nextSeq : UInt64}
    {next : ReadNext} (h : ReadStep s c e nextSeq s' next) :
    s' = s ∨ ∃ kbuf, c.pc = .consume kbuf ∧ s' = {
      ring := (ringConsume s.ring nextSeq kbuf c.maxSamples.toUInt32).ring
      files := Function.update s.files c.file (.opened
        { nextSeq := (ringConsume s.ring nextSeq kbuf c.maxSamples.toUInt32).nextSeq }) } := by
  cases h with
  | consume kbuf hpc => exact .inr ⟨kbuf, hpc, rfl⟩
  | _ => exact .inl rfl

/-- A file identifier is used once. -/
theorem DeviceStep.files_ne_unused (h : DeviceStep d op d' o) {f : FileId}
    (hf : d.readers.files f ≠ .unused) : d'.readers.files f ≠ .unused := by
  have hread : ∀ {c e nextSeq s next}, ReadStep d.readers c e nextSeq s next →
      s.files f ≠ .unused := by
    intro c e nextSeq s next hstep
    rcases hstep.readers_cases with rfl | ⟨kbuf, -, rfl⟩
    · exact hf
    · by_cases hc : f = c.file
      · simp [hc]
      · simpa [hc] using hf
  cases h with
  | opened g hfile => by_cases hg : f = g <;> simp [hg, hf]
  | release g hopen hidle => by_cases hg : f = g <;> simp [hg, hf]
  | goto t e c c' nextSeq s hcall hcursor hstep => exact hread hstep
  | ret t e c nextSeq s result bytes hcall hcursor hstep => exact hread hstep
  | _ => exact hf

/-- What a step does to the cursor of `f`. -/
theorem DeviceStep.cursor_cases (h : DeviceStep d op d' o) (f : FileId) :
    d'.readers.cursor f = d.readers.cursor f ∨
    (op = .openFile f true ∧ d.readers.files f = .unused ∧
      d'.readers.cursor f = some d.readers.ring.headSeq) ∨
    (op = .release f ∧ (∀ t c, d.calls.find t = some c → c.file ≠ f) ∧
      d'.readers.cursor f = none) ∨
    ∃ t e c kbuf nextSeq, op = .advance t e ∧ d.calls.find t = some c ∧ c.file = f ∧
      c.pc = .consume kbuf ∧ d.readers.cursor f = some nextSeq ∧
      d'.readers.cursor f = some
        (ringConsume d.readers.ring nextSeq kbuf c.maxSamples.toUInt32).nextSeq := by
  have hread : ∀ {t e c nextSeq s next}, op = .advance t e → d.calls.find t = some c →
      d.readers.cursor c.file = some nextSeq → ReadStep d.readers c e nextSeq s next →
      s.cursor f = d.readers.cursor f ∨ ∃ t e c kbuf nextSeq, op = .advance t e ∧
        d.calls.find t = some c ∧ c.file = f ∧ c.pc = .consume kbuf ∧
        d.readers.cursor f = some nextSeq ∧ s.cursor f = some
          (ringConsume d.readers.ring nextSeq kbuf c.maxSamples.toUInt32).nextSeq := by
    intro t e c nextSeq s next hop hcall hcursor hstep
    rcases hstep.readers_cases with rfl | ⟨kbuf, hpc, rfl⟩
    · exact .inl rfl
    · by_cases hf : f = c.file
      · subst hf
        exact .inr ⟨t, e, c, kbuf, nextSeq, hop, hcall, rfl, hpc, hcursor, by simp⟩
      · exact .inl (by simp [hf])
  cases h with
  | opened g hfile =>
      by_cases hg : f = g
      · subst hg
        exact .inr (.inl ⟨rfl, hfile, by simp⟩)
      · exact .inl (by simp [hg])
  | release g hopen hidle =>
      by_cases hg : f = g
      · subst hg
        exact .inr (.inr (.inl ⟨rfl, hidle, by simp⟩))
      · exact .inl (by simp [hg])
  | goto t e c c' nextSeq s hcall hcursor hstep =>
      rcases hread rfl hcall hcursor hstep with hkeep | hconsume
      · exact .inl hkeep
      · exact .inr (.inr (.inr hconsume))
  | ret t e c nextSeq s result bytes hcall hcursor hstep =>
      rcases hread rfl hcall hcursor hstep with hkeep | hconsume
      · exact .inl hkeep
      · exact .inr (.inr (.inr hconsume))
  | _ => exact .inl rfl

/-- Where the call of thread `t` after a step comes from: it has just begun, it has just made a
step of its own, or at most its flags changed. -/
theorem DeviceStep.call_cases (h : DeviceStep d op d' o) {t : ThreadId} {c' : ReadCall}
    (hcall : d'.calls.find t = some c') :
    (∃ f count nonblock, op = .read t f count nonblock ∧ d.calls.find t = none ∧
      (d.readers.cursor f).isSome ∧ d'.readers = d.readers ∧ c' = .start f count nonblock) ∨
    (∃ e c nextSeq, op = .advance t e ∧ d.calls.find t = some c ∧
      d.readers.cursor c.file = some nextSeq ∧
      ReadStep d.readers c e nextSeq d'.readers (.goto c')) ∨
    ∃ c woken sigPending, d.calls.find t = some c ∧ (∀ e, op ≠ .advance t e) ∧
      (c.woken = true → woken = true) ∧
      c' = { c with woken := woken, sigPending := sigPending } := by
  cases h with
  | read u f count nonblock hthread hopen =>
      by_cases hu : t = u
      · -- the table has one entry for each thread, and this is a new one
        subst hu
        obtain rfl : ReadCall.start f count nonblock = c' := by simpa using hcall
        exact .inl ⟨f, count, nonblock, rfl, hthread, hopen, rfl, rfl⟩
      · have hkeep : d.calls.find t = some c' := by simpa [hu] using hcall
        exact .inr (.inr ⟨c', _, _, hkeep, by simp, id, rfl⟩)
  | goto u e c c'' nextSeq s hc hcursor hstep =>
      by_cases hu : t = u
      · subst hu
        obtain rfl : c'' = c' := by simpa using hcall
        exact .inr (.inl ⟨e, c, nextSeq, rfl, hc, hcursor, hstep⟩)
      · have hkeep : d.calls.find t = some c' := by simpa [hu] using hcall
        exact .inr (.inr ⟨c', _, _, hkeep, by simp [Ne.symm hu], id, rfl⟩)
  | ret u e c nextSeq s result bytes hc hcursor hstep =>
      by_cases hu : t = u
      · -- the entry of the returning call is gone
        simp [hu] at hcall
      · have hkeep : d.calls.find t = some c' := by simpa [hu] using hcall
        exact .inr (.inr ⟨c', _, _, hkeep, by simp [Ne.symm hu], id, rfl⟩)
  | signal u c hc =>
      by_cases hu : t = u
      · subst hu
        obtain rfl : c.signal = c' := by simpa using hcall
        exact .inr (.inr ⟨c, c.wake.woken, _, hc, by simp, c.woken_wake_of_woken, rfl⟩)
      · have hkeep : d.calls.find t = some c' := by simpa [hu] using hcall
        exact .inr (.inr ⟨c', _, _, hkeep, by simp, id, rfl⟩)
  | wake e hpc =>
      obtain ⟨c, hc, rfl⟩ := Option.map_eq_some_iff.mp hcall
      exact .inr (.inr ⟨c, c.wake.woken, _, hc, by simp, c.woken_wake_of_woken, rfl⟩)
  | _ => exact .inr (.inr ⟨c', _, _, hcall, by simp, id, rfl⟩)

/-- What a step does to the contents of the ring and to the collector's duty to wake the readers: it
pushes a sample and owes a wake-up, it wakes everyone, or neither. -/
theorem DeviceStep.collector_cases (h : DeviceStep d op d' o) :
    (d.collector.pc = .push ∧ d'.collector.pc = .wake ∧
      d'.readers = { d.readers with ring := ringPush d.readers.ring d.collector.sample }) ∨
    (d.collector.pc = .wake ∧ d'.readers = d.readers ∧ d'.calls = d.calls.map ReadCall.wake) ∨
    ((d.collector.pc = .wake → d'.collector.pc = .wake) ∧
      ∃ k, d'.readers.ring = { d.readers.ring with dropped := k }) := by
  have hread : ∀ {c e nextSeq s next}, ReadStep d.readers c e nextSeq s next →
      ∃ k, s.ring = { d.readers.ring with dropped := k } := by
    intro c e nextSeq s next hstep
    rcases hstep.readers_cases with rfl | ⟨kbuf, -, rfl⟩
    · exact ⟨d.readers.ring.dropped, rfl⟩
    · exact ring_ringConsume ..
  cases h with
  | push e hpc => exact .inl ⟨hpc, rfl, rfl⟩
  | wake e hpc => exact .inr (.inl ⟨hpc, rfl, rfl⟩)
  | goto t e c c' nextSeq s hcall hcursor hstep => exact .inr (.inr ⟨id, hread hstep⟩)
  | ret t e c nextSeq s result bytes hcall hcursor hstep => exact .inr (.inr ⟨id, hread hstep⟩)
  | _ => exact .inr (.inr ⟨fun hwake => by simp_all, d.readers.ring.dropped, rfl⟩)

/-! ## Sound states -/

/-- What the local variables of a call satisfy, for a ring of `size` samples. -/
structure ReadCall.Sound (size : UInt32) (c : ReadCall) : Prop where
  entered : c.pc = .entry ∨
    ¬ c.count < sampleSz ∧ c.maxSamples = min (c.count / sampleSz) size.toUInt64
  room : ∀ kbuf, c.pc = .consume kbuf → kbuf.size = c.maxSamples.toNat
  filled : ∀ kbuf n, c.pc = .copy kbuf n → n.toNat ≤ kbuf.size

/-- What every state of a run satisfies: the ring is well-formed, and a call in flight is on an open
file. -/
structure Device.Sound (size : UInt32) (d : Device) : Prop where
  wellFormed : d.readers.ring.WellFormed
  size_eq : d.readers.ring.size = size
  call_open : ∀ t c, d.calls.find t = some c → (d.readers.cursor c.file).isSome
  call_sound : ∀ t c, d.calls.find t = some c → c.Sound size

/-- The cast to `u32` and the division leave room: a batch fits the ring and the buffer. -/
theorem ReadCall.Sound.toNat_maxSamples {size : UInt32} {c : ReadCall} (h : c.Sound size)
    (hpc : c.pc ≠ .entry) :
    c.maxSamples.toNat = min (c.count.toNat / 48) size.toNat ∧
      c.maxSamples.toUInt32.toNat = c.maxSamples.toNat := by
  obtain ⟨-, hmax⟩ := h.entered.resolve_left hpc
  have hmin : c.maxSamples.toNat = min (c.count.toNat / 48) size.toNat := by
    rw [hmax, toNat_min_u64, UInt64.toNat_div]
    simp [sampleSz]
  refine ⟨hmin, ?_⟩
  have hsize := size.toNat_lt
  rw [UInt64.toNat_toUInt32, Nat.mod_eq_of_lt (by omega)]

/-- The step of a call keeps its local variables sound. -/
theorem ReadStep.sound {s s' : Readers} {c c' : ReadCall} {e : ReadEnv} {nextSeq : UInt64}
    (hstep : ReadStep s c e nextSeq s' (.goto c')) (h : c.Sound s.ring.size) :
    c'.file = c.file ∧ c'.Sound s.ring.size := by
  -- past the entry, `count` and `max_samples` stay as they are
  have hentered : c.pc ≠ .entry → ¬ c.count < sampleSz ∧
      c.maxSamples = min (c.count / sampleSz) s.ring.size.toUInt64 := h.entered.resolve_left
  cases hstep with
  | enter hpc hcount => exact ⟨rfl, .inr ⟨hcount, rfl⟩, by simp, by simp⟩
  | ready hpc havail => exact ⟨rfl, .inr (hentered (by simp [hpc])), by simp, by simp⟩
  | wait hpc hnonblock havail => exact ⟨rfl, .inr (hentered (by simp [hpc])), by simp, by simp⟩
  | enqueue hpc => exact ⟨rfl, .inr (hentered (by simp [hpc])), by simp, by simp⟩
  | condition intr hpc havail => exact ⟨rfl, .inr (hentered (by simp [hpc])), by simp, by simp⟩
  | schedule hpc havail => exact ⟨rfl, .inr (hentered (by simp [hpc])), by simp, by simp⟩
  | retest hpc hwoken =>
      have hne : c.pc ≠ .entry := by rcases hpc with hpc | hpc <;> simp [hpc]
      exact ⟨rfl, .inr (hentered hne), by simp, by simp⟩
  | deschedule hpc hwoken => exact ⟨rfl, .inr (hentered (by simp [hpc])), by simp, by simp⟩
  | alloc kbuf hpc hkmalloc hsize =>
      refine ⟨rfl, .inr (hentered (by simp [hpc])), ?_, by simp⟩
      rintro kbuf' hpc'
      obtain rfl : kbuf = kbuf' := by simpa using hpc'
      exact hsize
  | consume kbuf hpc =>
      -- the returned count is at most the room in the buffer
      refine ⟨rfl, .inr (hentered (by simp [hpc])), by simp, ?_⟩
      rintro kbuf' n hpc'
      obtain ⟨rfl, rfl⟩ := ReadPc.copy.inj hpc'
      have hroom := h.room kbuf hpc
      have hcast := (h.toNat_maxSamples (by simp [hpc])).2
      rw [toNat_count_ringConsume, size_out_ringConsume]
      omega

/-- A step of the device is at most one step of the ring and its readers. -/
def DeviceOp.readerOp (d : Device) : DeviceOp → Option ReaderOp
  | .openFile f kzalloc => some (.openFile f kzalloc)
  | .release f => some (.release f)
  | .advance t _ =>
      match d.calls.find t with
      | none => none
      | some c =>
          match c.pc with
          | .consume kbuf => some (.consume c.file kbuf c.maxSamples.toUInt32)
          | _ => none
  | .collect _ =>
      match d.collector.pc with
      | .push => some (.push d.collector.sample)
      | _ => none
  | _ => none

/-- Every step of the device leaves the ring and its readers alone or is one of their operations. -/
theorem DeviceStep.readers_step {size : UInt32} (h : DeviceStep d op d' o) (hs : d.Sound size) :
    op.readerOp d = none ∧ d'.readers = d.readers ∨
      ∃ rop robs, op.readerOp d = some rop ∧ d.readers.step rop = some (d'.readers, robs) := by
  have hread : ∀ {t e c nextSeq s next}, d.calls.find t = some c →
      d.readers.cursor c.file = some nextSeq → ReadStep d.readers c e nextSeq s next →
      (DeviceOp.advance t e).readerOp d = none ∧ s = d.readers ∨
        ∃ rop robs, (DeviceOp.advance t e).readerOp d = some rop ∧
          d.readers.step rop = some (s, robs) := by
    intro t e c nextSeq s next hcall hcursor hstep
    cases hstep with
    | consume kbuf hpc =>
        -- the buffer has room for `max_samples`, and the cast to `u32` keeps it
        have hsound := hs.call_sound t c hcall
        have hroom := hsound.room kbuf hpc
        have hcast := (hsound.toNat_maxSamples (by simp [hpc])).2
        refine .inr ⟨.consume c.file kbuf c.maxSamples.toUInt32, _, ?_,
          Readers.step_consume.mpr ⟨nextSeq, hcursor, by omega, rfl, rfl⟩⟩
        simp [DeviceOp.readerOp, hcall, hpc]
    | retest hpc hwoken =>
        rcases hpc with hpc | hpc <;> simp [DeviceOp.readerOp, hcall, hpc]
    | _ => simp [DeviceOp.readerOp, *]
  cases h with
  | opened f hfile =>
      exact .inr ⟨_, _, rfl, Readers.step_openFile.mpr ⟨hfile, .inl ⟨rfl, rfl, rfl⟩⟩⟩
  | openFailed f hfile =>
      exact .inr ⟨_, _, rfl, Readers.step_openFile.mpr ⟨hfile, .inr ⟨rfl, rfl, rfl⟩⟩⟩
  | release f hopen hidle => exact .inr ⟨_, _, rfl, Readers.step_release.mpr ⟨hopen, rfl, rfl⟩⟩
  | goto t e c c' nextSeq s hcall hcursor hstep => exact hread hcall hcursor hstep
  | ret t e c nextSeq s result bytes hcall hcursor hstep => exact hread hcall hcursor hstep
  | push e hpc =>
      exact .inr ⟨.push d.collector.sample, _, by simp [DeviceOp.readerOp, hpc],
        Readers.step_push.mpr ⟨rfl, rfl⟩⟩
  | _ => exact .inl ⟨by simp [DeviceOp.readerOp, *], rfl⟩

namespace Device

/-- The device starts sound. -/
theorem Sound.start {size : UInt32} {vzalloc : Bool} {r : RingBuf}
    (hinit : ringInit size vzalloc = .ok r) (paths : AttrPaths) (intervalMs : UInt32)
    (stack : GpuSample) : (start r paths intervalMs stack).Sound size := by
  obtain ⟨hwf, -, -, hsize⟩ := ringInit_ok hinit
  exact ⟨hwf, hsize, nofun, nofun⟩

/-- Every step keeps the device sound. -/
theorem Sound.step {size : UInt32} (h : DeviceStep d op d' o) (hs : d.Sound size) :
    d'.Sound size := by
  have hring : d'.readers.ring.WellFormed ∧ d'.readers.ring.size = size := by
    rcases h.readers_step hs with ⟨-, hkeep⟩ | ⟨rop, robs, -, hstep⟩
    · rw [hkeep]
      exact ⟨hs.wellFormed, hs.size_eq⟩
    -- a push or a change of `dropped`
    · obtain ⟨x, -, hring⟩ | ⟨k, -, hring⟩ := Readers.step_ring hstep <;> rw [hring]
      · exact ⟨hs.wellFormed.ringPush x, hs.size_eq⟩
      · exact ⟨hs.wellFormed.addDropped k, hs.size_eq⟩
  -- the file of a call stays open
  have hopen : ∀ f, (d.readers.cursor f).isSome → (∃ t c, d.calls.find t = some c ∧ c.file = f) →
      (d'.readers.cursor f).isSome := by
    rintro f hf ⟨t, c, hc, hfile⟩
    rcases h.cursor_cases f with hkeep | ⟨-, -, hnew⟩ | ⟨-, hidle, -⟩ |
      ⟨_, _, _, _, _, -, -, -, -, -, hnew⟩
    · rwa [hkeep]
    · rw [hnew]; rfl
    -- a file with a call in flight is not released
    · exact absurd hfile (hidle t c hc)
    · rw [hnew]; rfl
  have hcalls : ∀ t c', d'.calls.find t = some c' →
      (d'.readers.cursor c'.file).isSome ∧ c'.Sound size := by
    intro t c' hc'
    rcases h.call_cases hc' with ⟨f, count, nonblock, -, -, hf, hreaders, rfl⟩ |
      ⟨e, c, nextSeq, -, hc, -, hstep⟩ | ⟨c, w, g, hc, -, -, rfl⟩
    · rw [hreaders]
      exact ⟨hf, .inl rfl, by simp [ReadCall.start], by simp [ReadCall.start]⟩
    · obtain ⟨hfile, hsound⟩ := hstep.sound (hs.size_eq ▸ hs.call_sound t c hc)
      rw [hfile]
      exact ⟨hopen _ (hs.call_open t c hc) ⟨t, c, hc, rfl⟩, hs.size_eq ▸ hsound⟩
    · have hsound := hs.call_sound t c hc
      exact ⟨hopen _ (hs.call_open t c hc) ⟨t, c, hc, rfl⟩,
        hsound.entered, hsound.room, hsound.filled⟩
  exact ⟨hring.1, hring.2, fun t c hc => (hcalls t c hc).1, fun t c hc => (hcalls t c hc).2⟩

end Device

/-! ## Runs -/

/-- One step of a run of the device. -/
abbrev DeviceTransition := Transition Device DeviceOp DeviceObs

/-- The operations on the ring and its readers a run of the device consists of. -/
def readerOps (ts : List DeviceTransition) : List ReaderOp :=
  ts.filterMap fun τ => τ.input.readerOp τ.pre

/-- The number of `ring_push` calls of a run of the device. -/
def Device.pushCount (ts : List DeviceTransition) : ℕ := (readerOps ts).countP ReaderOp.isPush

namespace Device

variable {size : UInt32} {vzalloc : Bool} {r : RingBuf} {paths : AttrPaths} {intervalMs : UInt32}
  {stack : GpuSample} {ts us : List DeviceTransition} {s₀ s : Device}

/-- Every state of a run is sound. -/
theorem sound_of_trace (h : machine.Trace s₀ ts s) (hs : s₀.Sound size) : s.Sound size :=
  Trace.invariant (fun _ _ _ _ hI hstep => Sound.step (deviceStep_of_step hstep) hI) h hs

/-- A run of the device is a run of the ring and its readers. -/
theorem readers_of_trace (h : machine.Trace s₀ ts s) (hs : s₀.Sound size) :
    ∃ us, Readers.machine.Trace s₀.readers us s.readers ∧
      us.map (·.input) = readerOps ts ∧ GpuTelem.pushCount us = pushCount ts := by
  obtain ⟨us, hus, hin⟩ := Trace.project (I := fun d => d.Sound size) (π := Device.readers)
    (N := Readers.machine) (f := fun d op => op.readerOp d)
    (fun _ _ _ _ hI hstep => Sound.step (deviceStep_of_step hstep) hI)
    (fun _ _ _ _ hI hstep => (deviceStep_of_step hstep).readers_step hI) h hs
  refine ⟨us, hus, hin, ?_⟩
  rw [pushCount_eq_countP_input, hin]
  rfl

/-- A part of a run has at most as many pushes. -/
theorem pushCount_le_append (ts us : List DeviceTransition) :
    pushCount ts ≤ pushCount (ts ++ us) := by
  simp [pushCount, readerOps, List.filterMap_append, List.countP_append]

/-- `head_seq` is the number of pushes. -/
theorem toNat_headSeq_of_trace (hinit : ringInit size vzalloc = .ok r)
    (h : machine.Trace (start r paths intervalMs stack) ts s)
    (hpush : pushCount ts < 2 ^ 64) :
    s.readers.ring.headSeq.toNat = pushCount ts := by
  obtain ⟨us, hus, -, hcount⟩ := readers_of_trace h (.start hinit paths intervalMs stack)
  rw [← hcount] at hpush ⊢
  exact GpuTelem.toNat_headSeq_of_pushCount_lt hus (ringInit_ok hinit).2.1 hpush

/-- `head_seq` does not go back in a step. -/
theorem headSeq_le_step (hinit : ringInit size vzalloc = .ok r)
    (h : machine.Trace (start r paths intervalMs stack) ts s)
    (hstep : s.step op = some (d', o))
    (hpush : pushCount (ts ++ [⟨s, op, d', o⟩]) < 2 ^ 64) :
    s.readers.ring.headSeq ≤ d'.readers.ring.headSeq := by
  have hle := pushCount_le_append ts [⟨s, op, d', o⟩]
  rw [UInt64.le_iff_toNat_le, toNat_headSeq_of_trace hinit h (by omega),
    toNat_headSeq_of_trace hinit (Trace.snoc h hstep) hpush]
  exact hle

end Device

end GpuTelem
