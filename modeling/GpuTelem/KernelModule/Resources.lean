import GpuTelem.Foundations.Bracket
import GpuTelem.KernelModule.Lifetime

/-!
# What loading acquires and unloading releases

`gpu_telem_init` is a chain of calls, each of which acquires something; when one of them fails the
labels of the unwinding release what the others have acquired, and `gpu_telem_exit` releases
everything. Files are opened, read and released and the collector runs while either is under way.

## Main definitions

* `Resource`: what is acquired, and `Resource.order`, in which order;
* `InitEnv.taken`: what is acquired before the first call that fails;
* `InitEnv.result`: what `gpu_telem_init` returns, as a straight chain of calls;
* `KernelModule.resourceLog`: the acquisitions and releases of a run;
* `KernelModule.awaited`: the steps of the thread while `kthread_stop` waits for it.

## Main results

* `KernelModule.absent_iff_of_trace`: when the thread of the collector exists;
* `init_exit_unwinding`: in every run exactly what was acquired is released, in the opposite order,
  and neither function gets stuck.
-/

namespace GpuTelem

open Machine

/-! ## The resources -/

/-- What the calls of `gpu_telem_init` acquire. -/
inductive Resource
  /-- The samples of the ring. -/
  | ring
  /-- `gdev.devno`. -/
  | region
  /-- `gdev.cdev`, once it is live. -/
  | cdev
  /-- `gdev.dev_class`. -/
  | devClass
  /-- The device node. -/
  | device
  /-- `gdev.collector`. -/
  | collector
  deriving DecidableEq

/-- The order of the calls. -/
def Resource.order : List Resource := [.ring, .region, .cdev, .devClass, .device, .collector]

/-- Whether the call for a resource succeeds. -/
def InitEnv.grants (e : InitEnv) : Resource → Bool
  | .ring => match e.initRing with
    | some (.ok _) => true
    | _ => false
  | .region => e.allocChrdevRegion.isOk
  | .cdev => e.cdevAdd.isOk
  | .devClass => e.classCreate.isOk
  | .device => e.deviceCreate.isOk
  | .collector => e.kthreadRun.isOk

/-- What is acquired before the first call that fails. -/
def InitEnv.taken (e : InitEnv) : List Resource := Resource.order.takeWhile e.grants

/-- The calls of `gpu_telem_init` in a chain: the first error is returned. Any error of
`device_create` is reported as `-ENOMEM`. -/
def InitEnv.result (e : InitEnv) : Option (Except Errno Unit) :=
  e.initRing.map fun ring => do
    let _ ← ring
    e.allocChrdevRegion
    e.cdevAdd
    e.classCreate
    e.deviceCreate.mapError fun _ => .ENOMEM
    e.kthreadRun

namespace ModulePc

/-- What the next call acquires when it succeeds. -/
def acquires : ModulePc → Option Resource
  | .ringInit => some .ring
  | .allocChrdevRegion => some .region
  | .cdevAdd => some .cdev
  | .classCreate => some .devClass
  | .deviceCreate => some .device
  | .kthreadRun => some .collector
  | _ => none

/-- What the next call releases. `kthread_stop` has released the thread when it returns. -/
def releases : ModulePc → Option Resource
  | .kthreadStopWait => some .collector
  | .errDevice _ | .deviceDestroy => some .device
  | .errClass _ | .classDestroy => some .devClass
  | .errCdev _ | .cdevDel => some .cdev
  | .errUnregister _ | .unregisterChrdevRegion => some .region
  | .errRing _ | .ringDestroy => some .ring
  | _ => none

/-- What is held, the latest first. -/
def held : ModulePc → List Resource
  | .ringInit | .failed _ | .unloaded => []
  | .allocChrdevRegion | .errRing _ | .ringDestroy => [.ring]
  | .cdevAdd | .errUnregister _ | .unregisterChrdevRegion => [.region, .ring]
  | .classCreate | .errCdev _ | .cdevDel => [.cdev, .region, .ring]
  | .deviceCreate | .errClass _ | .classDestroy => [.devClass, .cdev, .region, .ring]
  | .kthreadRun | .errDevice _ | .deviceDestroy => [.device, .devClass, .cdev, .region, .ring]
  | .loaded | .kthreadStop | .kthreadStopWait =>
      [.collector, .device, .devClass, .cdev, .region, .ring]

/-- Whether `gpu_telem_init` is acquiring, or has returned 0 and `gpu_telem_exit` has not begun. -/
def taking : ModulePc → Bool
  | .ringInit | .allocChrdevRegion | .cdevAdd | .classCreate | .deviceCreate | .kthreadRun
  | .loaded => true
  | _ => false

/-- Whether neither function is under way. -/
def idle : ModulePc → Bool
  | .loaded | .failed _ | .unloaded => true
  | _ => false

/-- How many calls may still be made, those of `gpu_telem_exit` included. -/
def left : ModulePc → ℕ
  | .failed _ | .unloaded => 0
  | .errRing _ | .ringDestroy => 1
  | .errUnregister _ | .unregisterChrdevRegion => 2
  | .errCdev _ | .cdevDel => 3
  | .errClass _ | .classDestroy => 4
  | .errDevice _ | .deviceDestroy => 5
  | .kthreadStopWait => 6
  | .kthreadStop | .loaded => 7
  | .kthreadRun => 8
  | .deviceCreate => 9
  | .classCreate => 10
  | .cdevAdd => 11
  | .allocChrdevRegion => 12
  | .ringInit => 13

/-- What `gpu_telem_init` will return, or has returned. -/
def returns (e : InitEnv) : ModulePc → Option (Except Errno Unit)
  | .ringInit => e.result
  | .allocChrdevRegion => some do
      e.allocChrdevRegion
      e.cdevAdd
      e.classCreate
      e.deviceCreate.mapError fun _ => .ENOMEM
      e.kthreadRun
  | .cdevAdd => some do
      e.cdevAdd
      e.classCreate
      e.deviceCreate.mapError fun _ => .ENOMEM
      e.kthreadRun
  | .classCreate => some do
      e.classCreate
      e.deviceCreate.mapError fun _ => .ENOMEM
      e.kthreadRun
  | .deviceCreate => some do
      e.deviceCreate.mapError fun _ => .ENOMEM
      e.kthreadRun
  | .kthreadRun => some e.kthreadRun
  | .errDevice ret | .errClass ret | .errCdev ret | .errUnregister ret | .errRing ret
  | .failed ret => some (.error ret)
  | _ => some (.ok ())

end ModulePc

/-- How many steps the thread still makes at most once it has been told to stop: those of its pass,
with its sleep as one of them, and the test of its loop. -/
def CollectorPc.left : CollectorPc → ℕ
  | .absent | .exited => 0
  | .loopTest => 1
  | .msleep => 2
  | .wake => 3
  | .push => 4
  | .collect => 5

theorem CollectorPc.left_le (pc : CollectorPc) : pc.left ≤ 5 := by
  cases pc <;> decide

/-- Whether an operation is a step of the collector. -/
def DeviceOp.collects : DeviceOp → Bool
  | .collect _ => true
  | _ => false

/-- Whether `gpu_telem_init` or `gpu_telem_exit` makes a call. -/
def ModuleOp.calls : ModuleOp → Bool
  | .advance => true
  | _ => false

namespace KernelModule

/-- What a step acquires or releases. -/
def resourceEvent (e : InitEnv) (τ : ModuleTransition) : Option (Bracket.Event Resource) :=
  match τ.input with
  | .advance =>
      match τ.pre.pc.acquires with
      | some r => if e.grants r then some (.acquire r) else none
      | none => τ.pre.pc.releases.map .release
  | _ => none

/-- What a run acquires and releases. -/
def resourceLog (e : InitEnv) (ts : List ModuleTransition) : List (Bracket.Event Resource) :=
  ts.filterMap (resourceEvent e)

/-- Whether this is a step of the thread while `kthread_stop` waits for it. -/
def awaited (τ : ModuleTransition) : Bool :=
  match τ.pre.pc, τ.input with
  | .kthreadStopWait, .device op => op.collects
  | _, _ => false

end KernelModule

variable {e : InitEnv} {m m' : KernelModule} {op : ModuleOp} {o : DeviceObs}

/-! ## The thread of the collector -/

/-- Only `kthread_run` makes the thread. -/
theorem DeviceStep.absent_iff {d d' : Device} {op : DeviceOp} (h : DeviceStep d op d' o)
    (hop : op ≠ .kthreadRun) : d'.collector.pc = .absent ↔ d.collector.pc = .absent := by
  cases h with
  | kthreadRun hpc => exact absurd rfl hop
  | kthreadStop hpc => exact Iff.rfl
  | _ => first | rfl | simp_all

/-- A thread that has been told to stop comes nearer to its end with every step of its own. -/
theorem DeviceStep.left_of_stopping {d d' : Device} {op : DeviceOp} (h : DeviceStep d op d' o)
    (hop : op ≠ .kthreadRun) (hstop : d.collector.shouldStop = true) :
    d'.collector.shouldStop = true ∧
      (if op.collects then 1 else 0) + d'.collector.pc.left ≤ d.collector.pc.left := by
  cases h with
  | kthreadRun hpc => exact absurd rfl hop
  | kthreadStop hpc => exact ⟨rfl, by simp [DeviceOp.collects]⟩
  | _ => simp_all [DeviceOp.collects, CollectorPc.left]

/-- What a step of the module does with the thread. -/
theorem ModuleStep.absent_iff (h : ModuleStep e m op m' o)
    (hm : m.dev.collector.pc = .absent ↔ m.pc.beforeThread = true) :
    m'.dev.collector.pc = .absent ↔ m'.pc.beforeThread = true := by
  cases h with
  | initialized r hpc hring => simpa [hpc, ModulePc.beforeThread] using hm
  | goto pc' hgoto =>
      show m.dev.collector.pc = .absent ↔ _
      rw [hm]
      generalize m.pc = pc at hgoto
      cases hgoto <;> simp [ModulePc.beforeThread]
  | destroyedByInit ret hpc =>
      simpa [hpc, KernelModule.ringDestroy, ModulePc.beforeThread] using hm
  | destroyedByExit hpc =>
      simpa [hpc, KernelModule.ringDestroy, ModulePc.beforeThread] using hm
  | device op d o hallows hstep =>
      have hop : op ≠ .kthreadRun := by
        rintro rfl
        cases hallows
      exact (hstep.absent_iff hop).trans hm
  | _ => simp_all [ModulePc.beforeThread]

namespace KernelModule

/-- In every run the thread is there exactly when `kthread_run` has made it. -/
theorem absent_iff_of_trace {stack : GpuSample} {ts : List ModuleTransition}
    (h : (machine e).Trace (start stack) ts m) :
    m.dev.collector.pc = .absent ↔ m.pc.beforeThread = true := by
  refine Trace.invariant
    (I := fun m => m.dev.collector.pc = .absent ↔ m.pc.beforeThread = true) ?_ h
    (iff_of_true rfl rfl)
  intro m op m' o hm hstep
  exact (step_iff.mp hstep).absent_iff hm

/-! ## What one step acquires or releases -/

/-- What a step does with the resources: one more is acquired, a call for one fails and the
unwinding begins, the latest is released, or nothing. -/
theorem resource_cases (h : ModuleStep e m op m' o) :
    (∃ r, m.pc.acquires = some r ∧ e.grants r = true ∧
      resourceEvent e ⟨m, op, m', o⟩ = some (.acquire r) ∧
      m'.pc.held = r :: m.pc.held ∧ m'.pc.taking = true) ∨
    (∃ r, m.pc.acquires = some r ∧ e.grants r = false ∧
      resourceEvent e ⟨m, op, m', o⟩ = none ∧
      m'.pc.held = m.pc.held ∧ m'.pc.taking = false) ∨
    (∃ r, m.pc.taking = false ∧ resourceEvent e ⟨m, op, m', o⟩ = some (.release r) ∧
      m.pc.held = r :: m'.pc.held ∧ m'.pc.taking = false) ∨
    (resourceEvent e ⟨m, op, m', o⟩ = none ∧ m'.pc.held = m.pc.held ∧
      (m'.pc.taking = m.pc.taking ∨ m.pc = .loaded ∧ m'.pc.taking = false)) := by
  cases h with
  | initialized r hpc hring =>
      refine .inl ⟨.ring, ?_⟩
      simp [hpc, hring, resourceEvent, ModulePc.acquires, InitEnv.grants, ModulePc.held,
        ModulePc.taking]
  -- the calls between the ring and the thread, and all of the unwinding
  | goto pc' hgoto =>
      generalize hpc : m.pc = pc at hgoto
      cases hgoto <;> simp [resourceEvent, ModulePc.acquires, ModulePc.releases, ModulePc.held,
        ModulePc.taking, InitEnv.grants, Except.isOk, Except.toBool, *]
  | loaded hpc hthread hcollector =>
      refine .inl ⟨.collector, ?_⟩
      simp [hpc, hthread, resourceEvent, ModulePc.acquires, InitEnv.grants, ModulePc.held,
        ModulePc.taking, Except.isOk, Except.toBool]
  | device op d o hallows hstep => exact .inr (.inr (.inr ⟨rfl, rfl, .inl rfl⟩))
  | _ => simp [resourceEvent, ModulePc.acquires, ModulePc.releases, ModulePc.held,
      ModulePc.taking, *]

/-- A resource is acquired after those that are held, in the order of the calls. -/
private theorem order_of_acquires {pc : ModulePc} {r : Resource} (h : pc.acquires = some r) :
    pc.taking = true ∧ ∃ rest, Resource.order = pc.held.reverse ++ r :: rest := by
  cases pc with
  | ringInit | allocChrdevRegion | cdevAdd | classCreate | deviceCreate | kthreadRun =>
      obtain rfl := Option.some.inj h
      exact ⟨rfl, _, rfl⟩
  | _ => cases h

/-! ## A whole run -/

/-- What has been acquired and released in a run that got to `pc`. -/
structure Accounted (e : InitEnv) (log : List (Bracket.Event Resource)) (pc : ModulePc) :
    Prop where
  taking : pc.taking = true → Bracket.Taking log pc.held ∧ ∀ r ∈ pc.held, e.grants r = true
  unwinding : pc.taking = false → Bracket.Unwinding e.taken log pc.held

variable {log : List (Bracket.Event Resource)}

/-- When the next call fails, what is held is all there is to release. -/
private theorem taken_of_refused {pc : ModulePc} {r : Resource} (h : pc.acquires = some r)
    (hheld : ∀ r ∈ pc.held, e.grants r = true) (hr : e.grants r = false) :
    e.taken = pc.held.reverse := by
  obtain ⟨-, rest, horder⟩ := order_of_acquires h
  rw [InitEnv.taken, horder, List.takeWhile_append_of_pos (by simpa using hheld),
    List.takeWhile_cons_of_neg (by simp [hr]), List.append_nil]

/-- When `gpu_telem_init` has acquired everything, so much is there to release. -/
private theorem taken_of_loaded (hheld : ∀ r ∈ ModulePc.loaded.held, e.grants r = true) :
    e.taken = ModulePc.loaded.held.reverse :=
  List.takeWhile_eq_self_iff.mpr fun r hr => hheld r (List.mem_reverse.mp hr)

/-- Every step keeps the account. -/
private theorem Accounted.step (hI : Accounted e log m.pc) (h : ModuleStep e m op m' o) :
    Accounted e (log ++ resourceLog e [⟨m, op, m', o⟩]) m'.pc := by
  rcases resource_cases h with ⟨r, hacq, hgrants, hevent, hheld', htaking'⟩ |
    ⟨r, hacq, hrefused, hevent, hheld', htaking'⟩ | ⟨r, htaking, hevent, hheld, htaking'⟩ |
    ⟨hevent, hheld', htaking'⟩
  · -- one more is acquired
    obtain ⟨htake, hgranted⟩ := hI.taking (order_of_acquires hacq).1
    rw [resourceLog, List.filterMap_cons_some hevent, List.filterMap_nil]
    refine ⟨fun _ => ?_, fun h => by simp [htaking'] at h⟩
    rw [hheld']
    exact ⟨htake.acquire r, List.forall_mem_cons.mpr ⟨hgrants, hgranted⟩⟩
  · -- a call fails: what was acquired so far is what has to be released
    obtain ⟨htake, hgranted⟩ := hI.taking (order_of_acquires hacq).1
    rw [resourceLog, List.filterMap_cons_none hevent, List.filterMap_nil, List.append_nil]
    refine ⟨fun h => by simp [htaking'] at h, fun _ => ?_⟩
    rw [hheld', taken_of_refused hacq hgranted hrefused]
    exact htake.unwinding
  · -- the latest is released
    rw [resourceLog, List.filterMap_cons_some hevent, List.filterMap_nil]
    refine ⟨fun h => by simp [htaking'] at h, fun _ => ?_⟩
    have hunwind := hI.unwinding htaking
    rw [hheld] at hunwind
    exact hunwind.release
  · rw [resourceLog, List.filterMap_cons_none hevent, List.filterMap_nil, List.append_nil]
    rcases htaking' with hsame | ⟨hpc, hexit⟩
    · exact ⟨fun h => hheld' ▸ hI.taking (hsame ▸ h), fun h => hheld' ▸ hI.unwinding (hsame ▸ h)⟩
    · -- `gpu_telem_exit` begins, with everything held
      refine ⟨fun h => by simp [hexit] at h, fun _ => ?_⟩
      obtain ⟨htake, hgranted⟩ := hI.taking (by rw [hpc]; rfl)
      rw [hheld', hpc]
      rw [hpc] at htake hgranted
      rw [taken_of_loaded hgranted]
      exact htake.unwinding

/-- In every run what is held has been acquired, and what was released has been too. -/
theorem accounted_of_trace {stack : GpuSample} {ts : List ModuleTransition}
    (h : (machine e).Trace (start stack) ts m) : Accounted e (resourceLog e ts) m.pc := by
  induction h with
  | nil => exact ⟨fun _ => ⟨.nil, nofun⟩, nofun⟩
  | snoc _ hstep ih =>
      rw [resourceLog, List.filterMap_append]
      exact ih.step (step_iff.mp hstep)

/-! ## The returned value, and the end -/

/-- A call leaves what `gpu_telem_init` returns as it was. -/
private theorem returns_of_step (h : ModuleStep e m op m' o) :
    m'.pc.returns e = m.pc.returns e := by
  cases h with
  | initialized r hpc hring =>
      rw [hpc, ModulePc.returns, ModulePc.returns, InitEnv.result, hring]
      rfl
  | goto pc' hgoto =>
      generalize hpc : m.pc = pc at hgoto
      cases hgoto <;> simp [ModulePc.returns, InitEnv.result, *] <;> rfl
  | _ => simp [ModulePc.returns, *]

/-- In every run `gpu_telem_init` returns what the chain of its calls returns. -/
theorem returns_of_trace {stack : GpuSample} {ts : List ModuleTransition}
    (h : (machine e).Trace (start stack) ts m) : m.pc.returns e = e.result := by
  refine Trace.invariant (I := fun m => m.pc.returns e = e.result) ?_ h rfl
  intro m op m' o hm hstep
  exact (returns_of_step (step_iff.mp hstep)).trans hm

/-- A call brings either function nearer to its end, and nothing takes it back. -/
private theorem left_of_step (h : ModuleStep e m op m' o) :
    (if op.calls then 1 else 0) + m'.pc.left ≤ m.pc.left := by
  cases h with
  | goto pc' hgoto =>
      generalize hpc : m.pc = pc at hgoto
      cases hgoto <;> simp [ModulePc.left, ModuleOp.calls]
  | device op d o hallows hstep => exact (Nat.zero_add _).le
  | _ => simp [ModulePc.left, ModuleOp.calls, *]

/-- The two functions make at most 13 calls. -/
private theorem calls_le {stack : GpuSample} {ts : List ModuleTransition}
    (h : (machine e).Trace (start stack) ts m) : ts.countP (·.input.calls) ≤ 13 := by
  have hcount := (Trace.descent (I := fun _ => True) (Φ := fun m => m.pc.left)
    (p := (·.input.calls)) (fun m op m' o _ hstep => ⟨trivial, left_of_step (step_iff.mp hstep)⟩)
    h trivial).2
  exact (Nat.le_add_right _ _).trans hcount

/-! ## The thread that is told to stop -/

/-- How many steps the thread still makes at most when `kthread_stop` waits for it. -/
def threadLeft (m : KernelModule) : ℕ :=
  if m.pc = .kthreadStopWait then m.dev.collector.pc.left
  else if m.pc.left < 7 then 0 else 5

/-- While `kthread_stop` waits the thread comes nearer to its end with every step, and nothing takes
it back. -/
private theorem threadLeft_of_step (h : ModuleStep e m op m' o)
    (hI : m.pc = .kthreadStopWait → m.dev.collector.shouldStop = true) :
    (m'.pc = .kthreadStopWait → m'.dev.collector.shouldStop = true) ∧
      (if awaited ⟨m, op, m', o⟩ then 1 else 0) + m'.threadLeft ≤ m.threadLeft := by
  cases h with
  | goto pc' hgoto =>
      generalize hpc : m.pc = pc at hgoto
      cases hgoto <;> simp [threadLeft, ModulePc.left, awaited, hpc]
  | stopping hpc hcollector =>
      -- wherever the thread is now, five steps take it to its end
      refine ⟨fun _ => rfl, ?_⟩
      have hle := m.dev.collector.pc.left_le
      simpa [threadLeft, ModulePc.left, awaited, hpc] using hle
  | device op d o hallows hstep =>
      have hop : op ≠ .kthreadRun := by
        rintro rfl
        cases hallows
      by_cases hpc : m.pc = .kthreadStopWait
      · obtain ⟨hstop, hleft⟩ := hstep.left_of_stopping hop (hI hpc)
        refine ⟨fun _ => hstop, ?_⟩
        simpa [threadLeft, awaited, hpc] using hleft
      · exact ⟨fun hwait => absurd hwait hpc, by simp [threadLeft, awaited, hpc]⟩
  | _ => simp_all [threadLeft, ModulePc.left, awaited]

/-- The thread makes at most five steps while `kthread_stop` waits for it. -/
private theorem awaited_le {stack : GpuSample} {ts : List ModuleTransition}
    (h : (machine e).Trace (start stack) ts m) : ts.countP awaited ≤ 5 := by
  have hcount := (Trace.descent (Φ := threadLeft)
    (I := fun m => m.pc = .kthreadStopWait → m.dev.collector.shouldStop = true)
    (fun m op m' o hI hstep => threadLeft_of_step (step_iff.mp hstep) hI) h nofun).2
  exact (Nat.le_add_right _ _).trans hcount

/-- A thread that has not returned can make its next step. -/
private theorem exists_collect (hrunning : m.dev.collector.running = true) (env : CollectorEnv) :
    ∃ m', (machine e).step m (.device (.collect env)) = some (m', .silent) := by
  suffices h : ∃ d, m.dev.step (.collect env) = some (d, .silent) by
    obtain ⟨d, hd⟩ := h
    exact ⟨_, by rw [machine_step, step, if_pos (by rfl), hd]⟩
  cases hpc : m.dev.collector.pc with
  | absent | exited => simp [Collector.running, hpc] at hrunning
  | loopTest => cases hstop : m.dev.collector.shouldStop <;>
      simp [Device.step, collectorThread, hpc, hstop]
  | msleep => cases hint : env.interrupted <;> simp [Device.step, collectorThread, hpc, hint]
  | _ => simp [Device.step, collectorThread, hpc]

end KernelModule

/-- `next_pow2` ends on every size that is not refused. -/
theorem InitEnv.initRing_ne_none (e : InitEnv) : e.initRing ≠ none := by
  by_cases hrange : e.ringSize < 2 ∨ e.ringSize > maxRingSize
  · simp [e.initRing_of_out hrange]
  · obtain ⟨size, hsize, -⟩ := ringInitSize_eq hrange
    simp [e.initRing_eq hsize]

/-- A call of a chain succeeds, and the rest of the chain does. -/
private theorem bind_eq_ok_iff {x y : Except Errno Unit} :
    (x >>= fun _ => y) = .ok () ↔ x = .ok () ∧ y = .ok () := by
  cases x with
  | error ret => exact iff_of_false nofun nofun
  | ok => exact (and_iff_right rfl).symm

/-- The outcome of a call that succeeded. -/
private theorem isOk_iff {x : Except Errno Unit} : x.isOk = true ↔ x = .ok () := by
  cases x with
  | error ret => exact iff_of_false nofun nofun
  | ok => exact iff_of_true rfl rfl

/-- Another error is an error. -/
private theorem mapError_eq_ok_iff {x : Except Errno Unit} {f : Errno → Errno} :
    x.mapError f = .ok () ↔ x = .ok () := by
  cases x with
  | error ret => exact iff_of_false nofun nofun
  | ok => exact iff_of_true rfl rfl

/-- Every call succeeds exactly when `gpu_telem_init` returns 0. -/
private theorem InitEnv.grants_iff (e : InitEnv) :
    (∀ r, e.grants r = true) ↔ e.result = some (.ok ()) := by
  have hforall : (∀ r, e.grants r = true) ↔ e.grants .ring = true ∧ e.allocChrdevRegion = .ok () ∧
      e.cdevAdd = .ok () ∧ e.classCreate = .ok () ∧ e.deviceCreate = .ok () ∧
      e.kthreadRun = .ok () := by
    simp only [← isOk_iff]
    constructor
    · exact fun h => ⟨h _, h .region, h .cdev, h .devClass, h .device, h .collector⟩
    · rintro ⟨hring, hregion, hcdev, hclass, hdevice, hcollector⟩ (_ | _) <;> assumption
  rw [hforall, result, grants]
  rcases e.initRing with - | (ret | r)
  · exact iff_of_false (fun h => nomatch h.1) nofun
  · exact iff_of_false (fun h => nomatch h.1) nofun
  · simp only [Option.map_some, Option.some_inj]
    refine Iff.trans ?_ (bind_eq_ok_iff (x := pure ())).symm
    simp only [bind_eq_ok_iff, mapError_eq_ok_iff]
    exact and_congr_left' (iff_of_true trivial rfl)

/-- Everything is acquired exactly when `gpu_telem_init` returns 0. -/
theorem InitEnv.taken_eq_order_iff (e : InitEnv) :
    e.taken = Resource.order ↔ e.result = some (.ok ()) := by
  rw [← e.grants_iff, taken, List.takeWhile_eq_self_iff]
  exact ⟨fun h r => h r (by cases r <;> simp [Resource.order]), fun h r _ => h r⟩

namespace KernelModule

/-- The next call can be made, but for the `kthread_stop` that waits for the thread. -/
private theorem exists_advance (habsent : m.dev.collector.pc = .absent ↔ m.pc.beforeThread = true)
    (hpc : m.pc.idle = false)
    (hwait : ¬ (m.pc = .kthreadStopWait ∧ m.dev.collector.running = true)) :
    ∃ m', (machine e).step m .advance = some (m', .silent) := by
  suffices h : ∃ m', m.advance e = some m' by
    obtain ⟨m', hm'⟩ := h
    exact ⟨m', by simp [step, hm']⟩
  cases hm : m.pc with
  | ringInit =>
      rcases hring : e.initRing with - | (ret | r)
      · exact absurd hring e.initRing_ne_none
      · simp [advance, hm, hring]
      · simp [advance, hm, hring]
  | loaded | failed | unloaded => rw [hm] at hpc; cases hpc
  | allocChrdevRegion => cases hcall : e.allocChrdevRegion <;> simp [advance, hm, hcall]
  | cdevAdd => cases hcall : e.cdevAdd <;> simp [advance, hm, hcall]
  | classCreate => cases hcall : e.classCreate <;> simp [advance, hm, hcall]
  | deviceCreate => cases hcall : e.deviceCreate <;> simp [advance, hm, hcall]
  | kthreadRun =>
      have hstep := Device.step_iff.mpr (.kthreadRun (habsent.mpr (by rw [hm]; rfl)))
      cases hcall : e.kthreadRun <;> simp [advance, hm, hcall, hstep]
  | kthreadStop =>
      have hthread : m.dev.collector.pc ≠ .absent := by
        rw [ne_eq, habsent, hm]
        decide
      simp [advance, hm, Device.step_iff.mpr (.kthreadStop hthread)]
  | kthreadStopWait =>
      have hreturned : ¬ m.dev.collector.running = true := fun h => hwait ⟨hm, h⟩
      simp [advance, hm, hreturned]
  | _ => simp [advance, hm]

/-- What `gpu_telem_init` and `gpu_telem_exit` have done in a run `ts` that has got to `m`. -/
structure Unwound (e : InitEnv) (ts : List ModuleTransition) (m : KernelModule) : Prop where
  /-- When `gpu_telem_init` has returned 0, everything is acquired and held. -/
  loaded : m.pc = .loaded → e.result = some (.ok ()) ∧
    resourceLog e ts = Resource.order.map .acquire
  /-- When it has returned an error, it is the one of the first call that fails, and what was
  acquired before this call has been released, each once, in the opposite order. -/
  failed : ∀ ret, m.pc = .failed ret → e.result = some (.error ret) ∧
    resourceLog e ts = e.taken.map .acquire ++ e.taken.reverse.map .release
  /-- When `gpu_telem_exit` has returned, everything has been released. -/
  unloaded : m.pc = .unloaded → e.result = some (.ok ()) ∧
    resourceLog e ts = Resource.order.map .acquire ++ Resource.order.reverse.map .release
  /-- The two functions make 13 calls at most, -/
  calls_le : ts.countP (·.input.calls) ≤ 13
  /-- and can always make the next one, unless `kthread_stop` waits for the thread. -/
  goes_on : m.pc.idle = false → ¬ (m.pc = .kthreadStopWait ∧ m.dev.collector.running = true) →
    ∃ m', (machine e).step m .advance = some (m', .silent)
  /-- A thread it waits for makes five steps at most, -/
  awaited_le : ts.countP awaited ≤ 5
  /-- and can always make the next one until it has returned. -/
  thread_goes_on : m.pc = .kthreadStopWait → m.dev.collector.running = true → ∀ env,
    ∃ m', (machine e).step m (.device (.collect env)) = some (m', .silent)

end KernelModule

/-- **Loading and unloading leak nothing.** In every run of the module, whatever the files and the
collector do meanwhile and whichever calls fail: what `gpu_telem_init` has acquired when it fails,
and everything at the end of `gpu_telem_exit`, has been released once, the latest first. Neither
function gets stuck: it can make its next call, or it is the `kthread_stop` of a thread that can
make its next step, and makes five of them at most, its sleep counted as one. -/
theorem init_exit_unwinding {e : InitEnv} {stack : GpuSample} {ts : List ModuleTransition}
    {m : KernelModule} (h : (KernelModule.machine e).Trace (.start stack) ts m) :
    m.Unwound e ts := by
  have hacc := KernelModule.accounted_of_trace h
  have hreturns := KernelModule.returns_of_trace h
  refine ⟨fun hpc => ?_, fun ret hpc => ?_, fun hpc => ?_, KernelModule.calls_le h,
    KernelModule.exists_advance (KernelModule.absent_iff_of_trace h), KernelModule.awaited_le h,
    fun _ => KernelModule.exists_collect⟩
  · rw [hpc] at hacc hreturns
    exact ⟨hreturns.symm, (hacc.taking rfl).1⟩
  · rw [hpc] at hacc hreturns
    exact ⟨hreturns.symm, (hacc.unwinding rfl).mirrored⟩
  · rw [hpc] at hacc hreturns
    have hall := e.taken_eq_order_iff.mpr hreturns.symm
    exact ⟨hreturns.symm, hall ▸ (hacc.unwinding rfl).mirrored⟩

/-- The default parameters, when the device node cannot be made. -/
def noNodeEnv : InitEnv where
  ringSize := 256
  sampleMs := 500
  paths := { tempPath := "", fanPath := "", powerPath := "", freqPath := "" }
  vzalloc := true
  allocChrdevRegion := .ok ()
  cdevAdd := .ok ()
  classCreate := .ok ()
  deviceCreate := .error .EEXIST
  kthreadRun := .ok ()

/-- `device_create` fails while a file is open: four resources were acquired, the same four are
released, and `-ENOMEM` is returned. -/
theorem init_exit_unwinding_no_node :
    ∃ ts m, (KernelModule.machine noNodeEnv).Trace (.start default) ts m ∧
      m.pc = .failed .ENOMEM ∧ m.dev.openCount = 1 ∧
      KernelModule.resourceLog noNodeEnv ts =
        [.acquire .ring, .acquire .region, .acquire .cdev, .acquire .devClass,
          .release .devClass, .release .cdev, .release .region, .release .ring] := by
  have hrun : ((KernelModule.machine noNodeEnv).exec (.start default)
      [.advance, .advance, .advance, .advance, .device (.openFile 0 true),
        .advance, .advance, .advance, .advance, .advance]).map
        (fun p => (p.2.pc, p.2.dev.openCount)) = some (.failed .ENOMEM, 1) := by
    decide
  obtain ⟨⟨ts, m⟩, hexec, hseen⟩ := Option.map_eq_some_iff.mp hrun
  obtain ⟨hpc, hcount⟩ : m.pc = .failed .ENOMEM ∧ m.dev.openCount = 1 := by simpa using hseen
  have htrace := Trace.of_exec hexec
  exact ⟨ts, m, htrace, hpc, hcount, ((init_exit_unwinding htrace).failed _ hpc).2⟩

end GpuTelem
