import GpuTelem.KernelModule
import Mathlib.Logic.Relation

/-!
# The lifetime of the ring

`ring_destroy` runs at the end of `gpu_telem_exit` and at the end of the unwinding of
`gpu_telem_init`. The module reference of every open file holds back the first; nothing holds back
the second, and `cdev_add` publishes the device before three more calls that can fail.

## Main definitions

* `Device.Unused`: no user of the ring is left;
* `InitEnv.FailsPublished`: `gpu_telem_init` fails after it published the device.

## Main results

* `ring_destroyed_unused_iff`: the ring is never destroyed under a user exactly when
  `gpu_telem_init` does not fail after `cdev_add`.
-/

namespace GpuTelem

open Machine

/-- Nobody uses the ring: the collector does not run and no file is open. -/
structure Device.Unused (d : Device) : Prop where
  stopped : d.collector.running = false
  closed : ∀ f, d.readers.cursor f = none
  count_eq : d.openCount = 0

/-- `cdev_add` is reached and succeeds. -/
def InitEnv.Publishes (e : InitEnv) : Prop :=
  2 ≤ e.ringSize ∧ e.ringSize ≤ maxRingSize ∧ e.vzalloc = true ∧ e.allocChrdevRegion = .ok () ∧
    e.cdevAdd = .ok ()

/-- One of the calls that follow a successful `cdev_add` fails. -/
def InitEnv.FailsPublished (e : InitEnv) : Prop :=
  e.Publishes ∧ (e.classCreate ≠ .ok () ∨ e.deviceCreate ≠ .ok () ∨ e.kthreadRun ≠ .ok ())

/-! ## Counting the open files -/

/-- `n` files are open, and `open_count` counts them. -/
def Device.HasOpen (d : Device) (n : ℕ) : Prop :=
  ∃ F : Finset FileId, (∀ f, f ∈ F ↔ (d.readers.cursor f).isSome) ∧ F.card = n ∧
    d.openCount = Int32.ofNat n

namespace Device.HasOpen

variable {d d' : Device} {n : ℕ}

/-- The count depends on which files are open only. -/
theorem congr (h : d.HasOpen n)
    (hfiles : ∀ f, (d'.readers.cursor f).isSome = (d.readers.cursor f).isSome)
    (hcount : d'.openCount = d.openCount) : d'.HasOpen n := by
  obtain ⟨F, hF, hcard, hopen⟩ := h
  exact ⟨F, fun f => by rw [hF, hfiles], hcard, hcount.trans hopen⟩

/-- When the count is zero, nothing is open. -/
theorem closed_of_zero (h : d.HasOpen 0) : (∀ f, d.readers.cursor f = none) ∧ d.openCount = 0 := by
  obtain ⟨F, hF, hcard, hopen⟩ := h
  obtain rfl := Finset.card_eq_zero.mp hcard
  refine ⟨fun f => ?_, hopen⟩
  simpa using hF f

/-- A device nobody has opened. -/
theorem start (r : RingBuf) (paths : AttrPaths) (intervalMs : UInt32) (stack : GpuSample) :
    (Device.start r paths intervalMs stack).HasOpen 0 :=
  ⟨∅, by simp [Device.start], rfl, rfl⟩

end Device.HasOpen

variable {d d' : Device} {op : DeviceOp} {o : DeviceObs}

/-- A step of a `read()` opens and closes nothing. -/
private theorem isSome_cursor_of_readStep {s s' : Readers} {c : ReadCall} {e : ReadEnv}
    {nextSeq : UInt64} {next : ReadNext} (hcursor : s.cursor c.file = some nextSeq)
    (h : ReadStep s c e nextSeq s' next) (f : FileId) :
    (s'.cursor f).isSome = (s.cursor f).isSome := by
  rcases h.readers_cases with rfl | ⟨kbuf, -, rfl⟩
  · rfl
  · by_cases hf : f = c.file
    · simp [hf, hcursor]
    · simp [hf]

/-- The references on the module count the open files, and so does `open_count`. -/
theorem DeviceStep.hasOpen (h : DeviceStep d op d' o) {n : ℕ} (hn : d.HasOpen n) :
    d'.HasOpen (moduleRefs n op o) := by
  obtain ⟨F, hF, hcard, hcount⟩ := id hn
  cases h with
  | opened f hfile =>
      have hnew : f ∉ F := by simp [hF, Readers.cursor, hfile]
      refine ⟨insert f F, fun g => ?_, ?_, ?_⟩
      · by_cases hg : g = f <;> simp [hg, hF]
      · rw [Finset.card_insert_of_notMem hnew, hcard]
        rfl
      · show d.openCount + 1 = Int32.ofNat (n + 1)
        rw [hcount, Int32.ofNat_add]
        rfl
  | release f hopen hidle =>
      have hold : f ∈ F := (hF f).mpr hopen
      refine ⟨F.erase f, fun g => ?_, ?_, ?_⟩
      · by_cases hg : g = f <;> simp [hg, hF]
      · rw [Finset.card_erase_of_mem hold, hcard]
        rfl
      · obtain ⟨k, rfl⟩ : ∃ k, n = k + 1 :=
          ⟨n - 1, by have := Finset.card_pos.mpr ⟨f, hold⟩; omega⟩
        show d.openCount - 1 = Int32.ofNat k
        rw [hcount, Int32.ofNat_add]
        exact Int32.add_sub_cancel _ _
  | goto t e c c' nextSeq s hcall hcursor hread =>
      exact hn.congr (isSome_cursor_of_readStep hcursor hread) rfl
  | ret t e c nextSeq s result bytes hcall hcursor hread =>
      exact hn.congr (isSome_cursor_of_readStep hcursor hread) rfl
  | _ => exact hn

/-- A thread that does not run stays where it is until `kthread_run`. -/
theorem DeviceStep.collector_pc_eq (h : DeviceStep d op d' o) (hop : op ≠ .kthreadRun)
    (hstopped : d.collector.running = false) : d'.collector.pc = d.collector.pc := by
  cases h with
  | kthreadRun hpc => exact absurd rfl hop
  | kthreadStop hpc => rfl
  | _ => first | rfl | simp_all [Collector.running]

/-! ## The invariant -/

/-- Whether the collector has not been started: before `kthread_run`, and in the unwinding. -/
def ModulePc.beforeThread : ModulePc → Bool
  | .ringInit | .allocChrdevRegion | .cdevAdd | .classCreate | .deviceCreate | .kthreadRun => true
  | .errDevice _ | .errClass _ | .errCdev _ | .errUnregister _ | .errRing _ | .failed _ => true
  | _ => false

/-- Whether `kthread_stop` has returned. -/
def ModulePc.afterThread : ModulePc → Bool
  | .deviceDestroy | .classDestroy | .cdevDel | .unregisterChrdevRegion => true
  | .ringDestroy | .unloaded => true
  | _ => false

/-- What reaching a point of `gpu_telem_init` says about the calls before it. -/
def ModulePc.Reached (e : InitEnv) : ModulePc → Prop
  | .allocChrdevRegion => 2 ≤ e.ringSize ∧ e.ringSize ≤ maxRingSize ∧ e.vzalloc = true
  | .cdevAdd => 2 ≤ e.ringSize ∧ e.ringSize ≤ maxRingSize ∧ e.vzalloc = true ∧
      e.allocChrdevRegion = .ok ()
  | .classCreate | .deviceCreate | .kthreadRun => e.Publishes
  | .errDevice _ | .errClass _ | .errCdev _ => e.FailsPublished
  | _ => True

/-- What holds in every state of the module, unless `gpu_telem_init` fails after `cdev_add`. -/
structure KernelModule.Guarded (e : InitEnv) (m : KernelModule) : Prop where
  reached : m.pc.Reached e
  open_files : m.dev.HasOpen m.refcnt
  unreferenced : m.pc.published = false → m.refcnt = 0
  absent : m.pc.beforeThread = true → m.dev.collector.pc = .absent
  exited : m.pc.afterThread = true → m.dev.collector.running = false

namespace KernelModule

variable {e : InitEnv} {m m' : KernelModule} {mop : ModuleOp}

/-- The calls of `gpu_telem_init` record their outcomes. -/
private theorem reached_of_goto {pc pc' : ModulePc} (h : ModuleGoto e pc pc')
    (hpc : pc.Reached e) : pc'.Reached e := by
  cases h with
  | allocated halloc => exact ⟨hpc.1, hpc.2.1, hpc.2.2, halloc⟩
  | added hadd => exact ⟨hpc.1, hpc.2.1, hpc.2.2.1, hpc.2.2.2, hadd⟩
  | classCreated hclass => exact hpc
  | deviceCreated hdevice => exact hpc
  | classNotCreated ret hclass => exact ⟨hpc, .inl (by simp [hclass])⟩
  | deviceNotCreated ret hdevice => exact ⟨hpc, .inr (.inl (by simp [hdevice]))⟩
  | threadNotRun ret hthread => exact ⟨hpc, .inr (.inr (by simp [hthread]))⟩
  | errDevice ret => exact hpc
  | errClass ret => exact hpc
  | _ => trivial

/-- The device is taken back by `cdev_del` only, which in the unwinding means that
`gpu_telem_init` failed after `cdev_add`. -/
private theorem not_published_of_goto {pc pc' : ModulePc} (h : ModuleGoto e pc pc')
    (hsafe : ¬ e.FailsPublished) (hpc : pc.Reached e) (hpc' : pc'.published = false) :
    pc.published = false := by
  cases h with
  | errCdev ret => exact absurd hpc hsafe
  | _ => first | rfl | cases hpc'

/-- The steps that leave `gdev` as it is go on with the collector where it was. -/
private theorem thread_of_goto {pc pc' : ModulePc} (h : ModuleGoto e pc pc') :
    (pc'.beforeThread = true → pc.beforeThread = true) ∧
      (pc'.afterThread = true → pc.afterThread = true) := by
  cases h <;> simp [ModulePc.beforeThread, ModulePc.afterThread]

/-- The collector does not run before it is started. -/
private theorem running_of_absent {c : Collector} (h : c.pc = .absent) : c.running = false := by
  rw [Collector.running, h]

/-- Every step keeps the module guarded. -/
private theorem Guarded.step (hsafe : ¬ e.FailsPublished) (hI : m.Guarded e)
    (h : ModuleStep e m mop m' o) : m'.Guarded e := by
  cases h with
  | initialized r hpc hring =>
      -- nobody can have opened the device yet
      have hzero : m.refcnt = 0 := hI.unreferenced (by rw [hpc]; rfl)
      obtain ⟨F, hF, hcard, -⟩ := hI.open_files
      exact
        { reached := (e.initRing_ok_iff).mp ⟨r, hring⟩
          open_files := ⟨F, hF, hcard, by rw [hzero]; rfl⟩
          unreferenced := fun _ => hzero
          absent := fun _ => hI.absent (by rw [hpc]; rfl)
          exited := nofun }
  | goto pc' hgoto =>
      exact
        { reached := reached_of_goto hgoto hI.reached
          open_files := hI.open_files
          unreferenced := fun h => hI.unreferenced (not_published_of_goto hgoto hsafe hI.reached h)
          absent := fun h => hI.absent ((thread_of_goto hgoto).1 h)
          exited := fun h => hI.exited ((thread_of_goto hgoto).2 h) }
  | loaded hpc hthread hcollector =>
      exact ⟨trivial, hI.open_files.congr (fun _ => rfl) rfl, nofun, nofun, nofun⟩
  | stopping hpc hcollector =>
      exact ⟨trivial, hI.open_files.congr (fun _ => rfl) rfl,
        fun _ => hI.unreferenced (by rw [hpc]; rfl), nofun, nofun⟩
  | stopped hpc hcollector =>
      exact ⟨trivial, hI.open_files, fun _ => hI.unreferenced (by rw [hpc]; rfl), nofun,
        fun _ => hcollector⟩
  | destroyedByInit ret hpc =>
      exact ⟨trivial, hI.open_files.congr (fun _ => rfl) rfl,
        fun _ => hI.unreferenced (by rw [hpc]; rfl), fun _ => hI.absent (by rw [hpc]; rfl), nofun⟩
  | destroyedByExit hpc =>
      exact ⟨trivial, hI.open_files.congr (fun _ => rfl) rfl,
        fun _ => hI.unreferenced (by rw [hpc]; rfl), nofun, fun _ => hI.exited (by rw [hpc]; rfl)⟩
  | deleted hpc hrefs => exact ⟨trivial, hI.open_files, fun _ => hrefs, nofun, nofun⟩
  | device op d o hallows hstep =>
      have hop : op ≠ .kthreadRun := by
        rintro rfl
        cases hallows
      have hkeep := hstep.collector_pc_eq hop
      refine ⟨hI.reached, hstep.hasOpen hI.open_files, fun hpc => ?_, fun hpc => ?_, fun hpc => ?_⟩
      · -- an unpublished device is not opened
        have hzero : m.refcnt = 0 := hI.unreferenced hpc
        show moduleRefs m.refcnt op o = 0
        cases hstep with
        | opened f hfile => exact absurd hallows (by simpa [allows] using hpc)
        | release f hopen hidle => simp [moduleRefs, hzero]
        | _ => exact hzero
      · have habsent := hI.absent hpc
        exact (hkeep (running_of_absent habsent)).trans habsent
      · have hexited := hI.exited hpc
        show d.collector.running = false
        rw [Collector.running, hkeep hexited]
        exact hexited

/-- Every state of a run is guarded. -/
private theorem guarded_of_trace (hsafe : ¬ e.FailsPublished) {stack : GpuSample}
    {ts : List ModuleTransition} (h : (machine e).Trace (start stack) ts m) : m.Guarded e :=
  Trace.invariant (fun _ _ _ _ hI hstep => Guarded.step hsafe hI (step_iff.mp hstep)) h
    ⟨trivial, .start .., fun _ => rfl, fun _ => rfl, nofun⟩

/-- A guarded module destroys the ring with nobody using it. -/
private theorem Guarded.unused (hI : m.Guarded e) (hpc : m.pc.destroysRing = true) :
    m.dev.Unused := by
  have hunpublished : m.pc.published = false := by
    cases hm : m.pc <;> simp_all [ModulePc.destroysRing, ModulePc.published]
  have hfiles := hI.open_files
  rw [hI.unreferenced hunpublished] at hfiles
  refine ⟨?_, hfiles.closed_of_zero.1, hfiles.closed_of_zero.2⟩
  -- by the unwinding there was no collector, by the exit it has been stopped
  by_cases hthread : m.pc.beforeThread = true
  · exact running_of_absent (hI.absent hthread)
  · apply hI.exited
    cases hm : m.pc <;> simp_all [ModulePc.destroysRing, ModulePc.beforeThread,
      ModulePc.afterThread]

/-! ## A run that destroys the ring under a user -/

open Relation

/-- A run goes on with one more step. -/
private theorem snoc {s₀ : KernelModule} {ts : List ModuleTransition}
    (h : (machine e).Trace s₀ ts m) (hstep : ModuleStep e m mop m' o) :
    (machine e).Trace s₀ (ts ++ [⟨m, mop, m', o⟩]) m' :=
  Trace.snoc h (step_iff.mpr hstep)

/-- The calls that leave `gdev` as it is may run without anybody else running. -/
private theorem trace_of_gotos {stack : GpuSample} {ts : List ModuleTransition} {pc' : ModulePc}
    (h : (machine e).Trace (start stack) ts m) (hgotos : ReflTransGen (ModuleGoto e) m.pc pc') :
    ∃ us, (machine e).Trace (start stack) us { m with pc := pc' } := by
  induction hgotos with
  | refl => exact ⟨ts, h⟩
  | tail _ hgoto ih =>
      obtain ⟨us, hus⟩ := ih
      exact ⟨_, snoc hus (.goto _ hgoto)⟩

/-- Once the device is published, a failing call leads to `ring_destroy`. -/
private theorem gotos_errRing (h : e.FailsPublished) :
    ∃ ret, ReflTransGen (ModuleGoto e) .classCreate (.errRing ret) := by
  have hcdev : ∀ ret, ReflTransGen (ModuleGoto e) (.errCdev ret) (.errRing ret) := fun ret =>
    .tail (.single (.errCdev ret)) (.errUnregister ret)
  have hclass : ∀ ret, ReflTransGen (ModuleGoto e) (.errClass ret) (.errRing ret) := fun ret =>
    .head (.errClass ret) (hcdev ret)
  cases hc : e.classCreate with
  | error ret => exact ⟨ret, .head (.classNotCreated ret hc) (hcdev ret)⟩
  | ok =>
      cases hd : e.deviceCreate with
      | error ret =>
          exact ⟨.ENOMEM, .head (.classCreated hc) (.head (.deviceNotCreated ret hd) (hclass _))⟩
      | ok =>
          cases hk : e.kthreadRun with
          | error ret =>
              exact ⟨ret, .head (.classCreated hc) (.head (.deviceCreated hd)
                (.head (.threadNotRun ret hk) (.head (.errDevice ret) (hclass ret))))⟩
          | ok =>
              have hfail := h.2
              simp [hc, hd, hk] at hfail

/-- When `gpu_telem_init` fails after `cdev_add`, a file opened in between is still open at
`ring_destroy`. -/
private theorem exists_used_run (h : e.FailsPublished) (stack : GpuSample) :
    ∃ ts m, (machine e).Trace (start stack) ts m ∧ m.pc.destroysRing = true ∧ ¬ m.dev.Unused := by
  obtain ⟨hlow, hhigh, hmem, halloc, hadd⟩ := h.1
  obtain ⟨r, hring⟩ := e.initRing_ok_iff.mpr ⟨hlow, hhigh, hmem⟩
  obtain ⟨ret, hfail⟩ := gotos_errRing h
  have hinit := snoc (m := start stack) Trace.nil (.initialized r rfl hring)
  obtain ⟨ts, hpublished⟩ := trace_of_gotos hinit
    (.tail (.single (.allocated halloc)) (.added hadd))
  have hopened := snoc hpublished (.device (.openFile 0 true) _ _ rfl (.opened 0 rfl))
  obtain ⟨us, hunwound⟩ := trace_of_gotos hopened hfail
  refine ⟨us, _, hunwound, rfl, fun hunused => ?_⟩
  simpa using hunused.closed 0

end KernelModule

/-- The ring is never destroyed under a user, in any run, exactly when `gpu_telem_init` does not
fail after a successful `cdev_add`. -/
theorem ring_destroyed_unused_iff (e : InitEnv) (stack : GpuSample) :
    (∀ ts m, (KernelModule.machine e).Trace (.start stack) ts m → m.pc.destroysRing = true →
      m.dev.Unused) ↔ ¬ e.FailsPublished := by
  constructor
  · intro h hfails
    obtain ⟨ts, m, htrace, hpc, hused⟩ := KernelModule.exists_used_run hfails stack
    exact hused (h ts m htrace hpc)
  · intro hsafe ts m htrace hpc
    exact (KernelModule.guarded_of_trace hsafe htrace).unused hpc

/-- The default parameters, when there is no memory for the thread of the collector. -/
def noThreadEnv : InitEnv where
  ringSize := 256
  sampleMs := 500
  paths := { tempPath := "", fanPath := "", powerPath := "", freqPath := "" }
  vzalloc := true
  allocChrdevRegion := .ok ()
  cdevAdd := .ok ()
  classCreate := .ok ()
  deviceCreate := .ok ()
  kthreadRun := .error .ENOMEM

/-- `kthread_run` fails while somebody has `/dev/gpu_telem` open: the unwinding gets to
`ring_destroy` with `open_count` at 1. -/
theorem ring_destroyed_under_reader :
    ¬ ∀ ts m, (KernelModule.machine noThreadEnv).Trace (.start default) ts m →
      m.pc.destroysRing = true → m.dev.Unused := by
  intro h
  have hrun : ((KernelModule.machine noThreadEnv).exec (.start default)
      [.advance, .advance, .advance, .advance, .advance,
        -- `udev` has made the node, and a reader opens it
        .device (.openFile 0 true),
        .advance, .advance, .advance, .advance, .advance]).map
        (fun p => (p.2.pc, p.2.dev.openCount)) = some (.errRing .ENOMEM, 1) := by
    decide
  obtain ⟨⟨ts, m⟩, hexec, hseen⟩ := Option.map_eq_some_iff.mp hrun
  obtain ⟨hpc, hcount⟩ : m.pc = .errRing .ENOMEM ∧ m.dev.openCount = 1 := by simpa using hseen
  have hunused := h ts m (Trace.of_exec hexec) (by rw [hpc]; rfl)
  exact absurd (hcount.symm.trans hunused.count_eq) (by decide)

end GpuTelem
