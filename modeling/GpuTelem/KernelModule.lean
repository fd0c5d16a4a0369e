import GpuTelem.Device
import Mathlib.Data.Finset.Card

/-!
# Loading and unloading the module

`gpu_telem_init` and `gpu_telem_exit`, call by call, interleaved with everything that runs on the
device meanwhile. What each call of `gpu_telem_init` is answered is fixed by an `InitEnv`.

## Main definitions

* `nextPow2`, `ringInitSize`, `InitEnv.initRing`: the capacity of the ring;
* `IsLeastPow2`: the least power of two that is not below a number;
* `ModulePc`: where `gpu_telem_init` or `gpu_telem_exit` is;
* `KernelModule.advance`: the next call of either;
* `KernelModule.machine`: the module, the device and its files.

## Main results

* `nextPow2_eq`: `next_pow2` ends with the least power of two;
* `ringInitSize_eq`: which capacity the parameter `ring_size` is rounded to;
* `InitEnv.initRing_ok_iff`: the parameters with which the ring is set up;
* `ModuleStep`, `KernelModule.step_iff`: the steps, by cases;
* `KernelModule.device_of_trace`: between `ring_init` and `ring_destroy` the device is in a state
  of a run of `Device.machine`.
-/

namespace GpuTelem

open Machine

/-! ## The capacity of the ring -/

/-- The loop of `next_pow2` from `p` on, given up after `fuel` tests of its condition. -/
def nextPow2Loop (n : UInt32) : ℕ → UInt32 → Option UInt32
  | 0, _ => none
  | fuel + 1, p => if p < n then nextPow2Loop n fuel (p <<< 1) else some p

/-- `next_pow2`; `none` when the loop does not end. After 32 shifts `p` stays 0. -/
def nextPow2 (n : UInt32) : Option UInt32 := nextPow2Loop n 33 1

/-- `MAX_RING_SIZE`. -/
def maxRingSize : UInt32 := 4096

/-- The module parameters, and the outcome of each call of `gpu_telem_init`. -/
structure InitEnv where
  ringSize : UInt32
  sampleMs : UInt32
  /-- What `probe_hwmon_paths` resolves. -/
  paths : AttrPaths
  /-- Whether the allocation of the samples succeeds. -/
  vzalloc : Bool
  allocChrdevRegion : Except Errno Unit
  cdevAdd : Except Errno Unit
  classCreate : Except Errno Unit
  deviceCreate : Except Errno Unit
  kthreadRun : Except Errno Unit

/-- `gpu_telem_init` before it calls `ring_init`: the size it passes, or the error it returns. -/
def ringInitSize (ringSize : UInt32) : Option (Except Errno UInt32) :=
  let sz := ringSize
  if sz < 2 ∨ sz > maxRingSize then some (.error .EINVAL)
  else if sz &&& (sz - 1) ≠ 0 then
    match nextPow2 sz with
    | none => none
    | some sz => some (.ok sz)
  else some (.ok sz)

/-- `gpu_telem_init` up to the return of `ring_init`: the ring or the error it returns. -/
def InitEnv.initRing (e : InitEnv) : Option (Except Errno RingBuf) :=
  match ringInitSize e.ringSize with
  | none => none
  | some (.error ret) => some (.error ret)
  | some (.ok sz) => some (ringInit sz e.vzalloc)

/-- From a power of two below the least one, the loop gets to the least one. -/
private theorem nextPow2Loop_eq {n : UInt32} (hn : Nat.clog 2 n.toNat ≤ 31) (fuel : ℕ) {k : ℕ}
    {p : UInt32} (hp : p.toNat = 2 ^ k) (hk : k ≤ Nat.clog 2 n.toNat)
    (hfuel : Nat.clog 2 n.toNat < k + fuel) :
    ∃ q, nextPow2Loop n fuel p = some q ∧ q.toNat = 2 ^ Nat.clog 2 n.toNat := by
  induction fuel generalizing k p with
  | zero => omega
  | succ fuel ih =>
      have htest : p < n ↔ k < Nat.clog 2 n.toNat := by
        rw [UInt32.lt_iff_toNat_lt, hp, Nat.lt_clog_iff_pow_lt Nat.one_lt_two]
      by_cases hlt : k < Nat.clog 2 n.toNat
      · have hpow : 2 ^ (k + 1) ≤ 2 ^ 31 := Nat.pow_le_pow_right (by omega) (by omega)
        have hshift : (p <<< 1).toNat = 2 ^ (k + 1) := by
          rw [UInt32.toNat_shiftLeft, hp, Nat.shiftLeft_eq]
          show 2 ^ k * 2 ^ 1 % 2 ^ 32 = _
          rw [← Nat.pow_add, Nat.mod_eq_of_lt (by omega)]
        rw [nextPow2Loop, if_pos (htest.mpr hlt)]
        exact ih hshift hlt (by omega)
      · rw [nextPow2Loop, if_neg (fun h => hlt (htest.mp h))]
        obtain rfl : k = Nat.clog 2 n.toNat := by omega
        exact ⟨p, rfl, hp⟩

/-- Up to `2 ^ 31`, `next_pow2` returns the least power of two that is not below its argument. -/
theorem nextPow2_eq {n : UInt32} (hn : n.toNat ≤ 2 ^ 31) :
    ∃ p, nextPow2 n = some p ∧ p.toNat = 2 ^ Nat.clog 2 n.toNat := by
  have hclog : Nat.clog 2 n.toNat ≤ 31 := Nat.clog_le_of_le_pow hn
  exact nextPow2Loop_eq (k := 0) hclog 33 rfl (by omega) (by omega)

/-- `p` is the least power of two that is not below `n`. -/
structure IsLeastPow2 (p n : ℕ) : Prop where
  isPow : ∃ k, p = 2 ^ k
  le : n ≤ p
  least : ∀ k, n ≤ 2 ^ k → p ≤ 2 ^ k

/-- The exponent of the least power of two is the logarithm rounded up. -/
theorem isLeastPow2_clog (n : ℕ) : IsLeastPow2 (2 ^ Nat.clog 2 n) n where
  isPow := ⟨_, rfl⟩
  le := Nat.le_pow_clog Nat.one_lt_two n
  least _ hk := Nat.pow_le_pow_right (by omega) (Nat.clog_le_of_le_pow hk)

/-- A power of two is its own least power of two. -/
theorem isLeastPow2_self {p : ℕ} (hp : ∃ k, p = 2 ^ k) : IsLeastPow2 p p where
  isPow := hp
  le := le_rfl
  least _ hk := hk

/-- Outside its range the parameter is refused. -/
theorem ringInitSize_of_out {ringSize : UInt32} (h : ringSize < 2 ∨ ringSize > maxRingSize) :
    ringInitSize ringSize = some (.error .EINVAL) := if_pos h

/-- Inside its range the parameter is rounded up to the next power of two. -/
theorem ringInitSize_eq {ringSize : UInt32} (h : ¬ (ringSize < 2 ∨ ringSize > maxRingSize)) :
    ∃ size, ringInitSize ringSize = some (.ok size) ∧
      IsLeastPow2 size.toNat ringSize.toNat ∧ size.toNat ≤ 4096 := by
  obtain ⟨hlow, hhigh⟩ := not_or.mp h
  rw [UInt32.not_lt] at hlow hhigh
  have hle : ringSize.toNat ≤ 4096 := UInt32.le_iff_toNat_le.mp hhigh
  have hne : ringSize ≠ 0 := by
    rintro rfl
    exact absurd hlow (by decide)
  rw [ringInitSize, if_neg h]
  by_cases hpow : ringSize &&& (ringSize - 1) ≠ 0
  · obtain ⟨p, hp, hclog⟩ := nextPow2_eq (n := ringSize) (by omega)
    have hleast : IsLeastPow2 p.toNat ringSize.toNat := hclog ▸ isLeastPow2_clog _
    rw [if_pos hpow, hp]
    -- 4096 is itself a power of two, so rounding does not pass it
    exact ⟨p, rfl, hleast, hleast.least 12 hle⟩
  · have hself := (and_sub_one_eq_zero_iff hne).mp (not_not.mp hpow)
    rw [if_neg hpow]
    exact ⟨ringSize, rfl, isLeastPow2_self hself, hle⟩

/-- `gpu_telem_init` calls `ring_init` with the size of `ringInitSize`. -/
theorem InitEnv.initRing_eq {e : InitEnv} {size : UInt32}
    (h : ringInitSize e.ringSize = some (.ok size)) :
    e.initRing = some (ringInit size e.vzalloc) := by
  rw [initRing, h]

/-- Outside its range `ring_init` is not called. -/
theorem InitEnv.initRing_of_out {e : InitEnv}
    (h : e.ringSize < 2 ∨ e.ringSize > maxRingSize) : e.initRing = some (.error .EINVAL) := by
  rw [initRing, ringInitSize_of_out h]

/-- `ring_init` accepts a power of two up to 4096 when there is memory for it. -/
private theorem ringInit_ok_iff {size : UInt32} (hpow : ∃ k, size.toNat = 2 ^ k)
    (hle : size.toNat ≤ 4096) (vzalloc : Bool) :
    (∃ r, ringInit size vzalloc = .ok r) ↔ vzalloc = true := by
  rw [ringInit, if_neg ((ringInit_size_iff size).mpr ⟨hpow, hle⟩)]
  cases vzalloc <;> simp

/-- The ring is set up exactly when its size is in range and there is memory for it. -/
theorem InitEnv.initRing_ok_iff (e : InitEnv) :
    (∃ r, e.initRing = some (.ok r)) ↔
      2 ≤ e.ringSize ∧ e.ringSize ≤ maxRingSize ∧ e.vzalloc = true := by
  by_cases hrange : e.ringSize < 2 ∨ e.ringSize > maxRingSize
  · have hout : ¬ (2 ≤ e.ringSize ∧ e.ringSize ≤ maxRingSize) := by
      rintro ⟨hlow, hhigh⟩
      rcases hrange with h | h
      · exact UInt32.not_le.mpr h hlow
      · exact UInt32.not_le.mpr h hhigh
    rw [e.initRing_of_out hrange]
    exact iff_of_false (by simp) fun h => hout ⟨h.1, h.2.1⟩
  · obtain ⟨hlow, hhigh⟩ := not_or.mp hrange
    rw [UInt32.not_lt] at hlow hhigh
    obtain ⟨size, hsize, hleast, hle⟩ := ringInitSize_eq hrange
    have hinit := ringInit_ok_iff hleast.isPow hle e.vzalloc
    simpa [e.initRing_eq hsize, hlow, hhigh] using hinit

/-- The ring comes from `ring_init`. -/
theorem InitEnv.ringInit_of_initRing {e : InitEnv} {r : RingBuf} (h : e.initRing = some (.ok r)) :
    ∃ size, ringInitSize e.ringSize = some (.ok size) ∧ ringInit size e.vzalloc = .ok r := by
  rw [initRing] at h
  split at h
  next => cases h
  next => cases h
  next size hsize => exact ⟨size, hsize, Option.some.inj h⟩

/-! ## The module -/

/-- Where `gpu_telem_init` or `gpu_telem_exit` is: the call it makes next. -/
inductive ModulePc
  /-- `gpu_telem_init` begins. Up to `alloc_chrdev_region` nobody else can see the device. -/
  | ringInit
  | allocChrdevRegion
  | cdevAdd
  | classCreate
  | deviceCreate
  | kthreadRun
  /-- `gpu_telem_init` has returned 0. -/
  | loaded
  /-- The labels of the unwinding, with `ret`: `device_destroy` is next. -/
  | errDevice (ret : Errno)
  /-- `class_destroy` is next. -/
  | errClass (ret : Errno)
  /-- `cdev_del` is next. -/
  | errCdev (ret : Errno)
  /-- `unregister_chrdev_region` is next. -/
  | errUnregister (ret : Errno)
  /-- `ring_destroy` is next. -/
  | errRing (ret : Errno)
  /-- `gpu_telem_init` has returned `ret`. -/
  | failed (ret : Errno)
  /-- `gpu_telem_exit` begins. -/
  | kthreadStop
  /-- `kthread_stop` waits for the thread to return. -/
  | kthreadStopWait
  | deviceDestroy
  | classDestroy
  | cdevDel
  | unregisterChrdevRegion
  | ringDestroy
  /-- `gpu_telem_exit` has returned. -/
  | unloaded
  deriving DecidableEq

/-- Whether `open()` finds the cdev: from `cdev_add` on until `cdev_del`, and not once
`gpu_telem_exit` has begun. -/
def ModulePc.published : ModulePc → Bool
  | .classCreate | .deviceCreate | .kthreadRun | .loaded => true
  | .errDevice _ | .errClass _ | .errCdev _ => true
  | _ => false

/-- Whether the ring is set up: `ring_init` has returned 0 and `ring_destroy` has not returned. -/
def ModulePc.ringUp : ModulePc → Bool
  | .ringInit | .failed _ | .unloaded => false
  | _ => true

/-- Whether `ring_destroy` is executed next. -/
def ModulePc.destroysRing : ModulePc → Bool
  | .errRing _ | .ringDestroy => true
  | _ => false

/-- The module: `gpu_telem_init` or `gpu_telem_exit` in progress, `gdev`, and the references that
open files hold on the module. -/
structure KernelModule where
  pc : ModulePc
  dev : Device
  /-- `fops.owner` is `THIS_MODULE`: one reference for each open file. -/
  refcnt : ℕ

/-- `gdev` before `gpu_telem_init`: all zero. `stack` is what the stack of the collector thread will
hold. -/
def Device.zero (stack : GpuSample) : Device :=
  .start { samples := #[], size := 0, mask := 0, headSeq := 0, dropped := 0 }
    { tempPath := "", fanPath := "", powerPath := "", freqPath := "" } 0 stack

/-- The module as `insmod` finds it. -/
def KernelModule.start (stack : GpuSample) : KernelModule where
  pc := .ringInit
  dev := .zero stack
  refcnt := 0

/-- What happens to the module. -/
inductive ModuleOp
  /-- `gpu_telem_init` or `gpu_telem_exit` makes its next call. -/
  | advance
  /-- `rmmod`: `gpu_telem_exit` begins. -/
  | deleteModule
  /-- A file operation, or a step of the collector. -/
  | device (op : DeviceOp)

/-- The references on the module after a step of the device. -/
def moduleRefs (refcnt : ℕ) : DeviceOp → DeviceObs → ℕ
  | .openFile _ _, .opened => refcnt + 1
  | .release _, _ => refcnt - 1
  | _, _ => refcnt

namespace KernelModule

/-- `ring_destroy(&gdev.ring)`. -/
def ringDestroy (m : KernelModule) : Device :=
  { m.dev with readers := { m.dev.readers with ring := GpuTelem.ringDestroy m.dev.readers.ring } }

/-- The next call of `gpu_telem_init` or `gpu_telem_exit`. -/
def advance (m : KernelModule) (e : InitEnv) : Option KernelModule :=
  match m.pc with
  | .ringInit =>
      match e.initRing with
      | none => none
      | some (.error ret) => some { m with pc := .failed ret }
      | some (.ok r) =>
          some { m with
            pc := .allocChrdevRegion
            dev := { m.dev with
              readers := { m.dev.readers with ring := r }
              intervalMs := max e.sampleMs minSampleMs
              openCount := 0
              paths := e.paths } }
  | .allocChrdevRegion =>
      match e.allocChrdevRegion with
      | .error ret => some { m with pc := .errRing ret }
      | .ok _ => some { m with pc := .cdevAdd }
  | .cdevAdd =>
      match e.cdevAdd with
      | .error ret => some { m with pc := .errUnregister ret }
      | .ok _ => some { m with pc := .classCreate }
  | .classCreate =>
      match e.classCreate with
      | .error ret => some { m with pc := .errCdev ret }
      | .ok _ => some { m with pc := .deviceCreate }
  | .deviceCreate =>
      match e.deviceCreate with
      | .error _ => some { m with pc := .errClass .ENOMEM }
      | .ok _ => some { m with pc := .kthreadRun }
  | .kthreadRun =>
      match e.kthreadRun with
      | .error ret => some { m with pc := .errDevice ret }
      | .ok _ =>
          match m.dev.step .kthreadRun with
          | none => none
          | some (d, _) => some { m with pc := .loaded, dev := d }
  | .loaded => none
  | .errDevice ret => some { m with pc := .errClass ret }
  | .errClass ret => some { m with pc := .errCdev ret }
  | .errCdev ret => some { m with pc := .errUnregister ret }
  | .errUnregister ret => some { m with pc := .errRing ret }
  | .errRing ret => some { m with pc := .failed ret, dev := m.ringDestroy }
  | .failed _ => none
  | .kthreadStop =>
      match m.dev.step .kthreadStop with
      | none => none
      | some (d, _) => some { m with pc := .kthreadStopWait, dev := d }
  | .kthreadStopWait =>
      if m.dev.collector.running then none else some { m with pc := .deviceDestroy }
  | .deviceDestroy => some { m with pc := .classDestroy }
  | .classDestroy => some { m with pc := .cdevDel }
  | .cdevDel => some { m with pc := .unregisterChrdevRegion }
  | .unregisterChrdevRegion => some { m with pc := .ringDestroy }
  | .ringDestroy => some { m with pc := .unloaded, dev := m.ringDestroy }
  | .unloaded => none

/-- Whether a step of the device is one that files and the collector may take now. A file that is
open keeps working whatever the module does. -/
def allows (m : KernelModule) : DeviceOp → Bool
  | .openFile _ _ => m.pc.published
  | .kthreadRun | .kthreadStop => false
  | _ => true

/-- One step of the module. -/
def step (e : InitEnv) (m : KernelModule) : ModuleOp → Option (KernelModule × DeviceObs)
  | .advance =>
      match m.advance e with
      | none => none
      | some m' => some (m', .silent)
  | .deleteModule =>
      -- an open file keeps the module from being unloaded
      if m.pc = .loaded ∧ m.refcnt = 0 then some ({ m with pc := .kthreadStop }, .silent) else none
  | .device op =>
      if m.allows op then
        match m.dev.step op with
        | none => none
        | some (d, o) => some ({ m with dev := d, refcnt := moduleRefs m.refcnt op o }, o)
      else none

/-- The module as a machine. -/
def machine (e : InitEnv) : Machine KernelModule ModuleOp DeviceObs where
  step := step e

@[simp]
theorem machine_step (e : InitEnv) (m : KernelModule) (op : ModuleOp) :
    (machine e).step m op = m.step e op := rfl

end KernelModule

/-! ## The steps by cases -/

/-- The calls of `gpu_telem_init` and `gpu_telem_exit` that leave `gdev` as it is. -/
inductive ModuleGoto (e : InitEnv) : ModulePc → ModulePc → Prop
  | initFailed (ret : Errno) (hring : e.initRing = some (.error ret)) :
      ModuleGoto e .ringInit (.failed ret)
  | allocated (halloc : e.allocChrdevRegion = .ok ()) : ModuleGoto e .allocChrdevRegion .cdevAdd
  | notAllocated (ret : Errno) (halloc : e.allocChrdevRegion = .error ret) :
      ModuleGoto e .allocChrdevRegion (.errRing ret)
  | added (hadd : e.cdevAdd = .ok ()) : ModuleGoto e .cdevAdd .classCreate
  | notAdded (ret : Errno) (hadd : e.cdevAdd = .error ret) :
      ModuleGoto e .cdevAdd (.errUnregister ret)
  | classCreated (hclass : e.classCreate = .ok ()) : ModuleGoto e .classCreate .deviceCreate
  | classNotCreated (ret : Errno) (hclass : e.classCreate = .error ret) :
      ModuleGoto e .classCreate (.errCdev ret)
  | deviceCreated (hdevice : e.deviceCreate = .ok ()) : ModuleGoto e .deviceCreate .kthreadRun
  | deviceNotCreated (ret : Errno) (hdevice : e.deviceCreate = .error ret) :
      ModuleGoto e .deviceCreate (.errClass .ENOMEM)
  | threadNotRun (ret : Errno) (hthread : e.kthreadRun = .error ret) :
      ModuleGoto e .kthreadRun (.errDevice ret)
  | errDevice (ret : Errno) : ModuleGoto e (.errDevice ret) (.errClass ret)
  | errClass (ret : Errno) : ModuleGoto e (.errClass ret) (.errCdev ret)
  | errCdev (ret : Errno) : ModuleGoto e (.errCdev ret) (.errUnregister ret)
  | errUnregister (ret : Errno) : ModuleGoto e (.errUnregister ret) (.errRing ret)
  | deviceDestroy : ModuleGoto e .deviceDestroy .classDestroy
  | classDestroy : ModuleGoto e .classDestroy .cdevDel
  | cdevDel : ModuleGoto e .cdevDel .unregisterChrdevRegion
  | unregisterChrdevRegion : ModuleGoto e .unregisterChrdevRegion .ringDestroy

/-- The steps of the module. -/
inductive ModuleStep (e : InitEnv) (m : KernelModule) :
    ModuleOp → KernelModule → DeviceObs → Prop
  | initialized (r : RingBuf) (hpc : m.pc = .ringInit) (hring : e.initRing = some (.ok r)) :
      ModuleStep e m .advance
        { m with
          pc := .allocChrdevRegion
          dev := { m.dev with
            readers := { m.dev.readers with ring := r }
            intervalMs := max e.sampleMs minSampleMs
            openCount := 0
            paths := e.paths } }
        .silent
  | goto (pc' : ModulePc) (hgoto : ModuleGoto e m.pc pc') :
      ModuleStep e m .advance { m with pc := pc' } .silent
  | loaded (hpc : m.pc = .kthreadRun) (hthread : e.kthreadRun = .ok ())
      (hcollector : m.dev.collector.pc = .absent) :
      ModuleStep e m .advance
        { m with
          pc := .loaded
          dev := { m.dev with collector := { m.dev.collector with pc := .loopTest } } }
        .silent
  | stopping (hpc : m.pc = .kthreadStop) (hcollector : m.dev.collector.pc ≠ .absent) :
      ModuleStep e m .advance
        { m with
          pc := .kthreadStopWait
          dev := { m.dev with collector := { m.dev.collector with shouldStop := true } } }
        .silent
  | stopped (hpc : m.pc = .kthreadStopWait) (hcollector : m.dev.collector.running = false) :
      ModuleStep e m .advance { m with pc := .deviceDestroy } .silent
  | destroyedByInit (ret : Errno) (hpc : m.pc = .errRing ret) :
      ModuleStep e m .advance { m with pc := .failed ret, dev := m.ringDestroy } .silent
  | destroyedByExit (hpc : m.pc = .ringDestroy) :
      ModuleStep e m .advance { m with pc := .unloaded, dev := m.ringDestroy } .silent
  | deleted (hpc : m.pc = .loaded) (hrefs : m.refcnt = 0) :
      ModuleStep e m .deleteModule { m with pc := .kthreadStop } .silent
  | device (op : DeviceOp) (d : Device) (o : DeviceObs) (hallows : m.allows op = true)
      (hstep : DeviceStep m.dev op d o) :
      ModuleStep e m (.device op) { m with dev := d, refcnt := moduleRefs m.refcnt op o } o

/-- One step of a run of the module. -/
abbrev ModuleTransition := Transition KernelModule ModuleOp DeviceObs

namespace KernelModule

variable {e : InitEnv} {m m' : KernelModule} {op : ModuleOp} {o : DeviceObs}

/-- A call of `gpu_telem_init` or `gpu_telem_exit` is one of the cases of `ModuleStep`. -/
private theorem moduleStep_of_advance (h : m.advance e = some m') :
    ModuleStep e m .advance m' .silent := by
  have hgoto : ∀ {pc pc'}, m.pc = pc → ModuleGoto e pc pc' →
      ModuleStep e m .advance { m with pc := pc' } .silent := by
    rintro _ pc' rfl hpc
    exact .goto pc' hpc
  unfold advance at h
  split at h
  next hpc =>
    split at h <;> cases h
    next ret hring => exact hgoto hpc (.initFailed ret hring)
    next r hring => exact .initialized r hpc hring
  next hpc =>
    split at h <;> cases h
    next ret halloc => exact hgoto hpc (.notAllocated ret halloc)
    next halloc => exact hgoto hpc (.allocated halloc)
  next hpc =>
    split at h <;> cases h
    next ret hadd => exact hgoto hpc (.notAdded ret hadd)
    next hadd => exact hgoto hpc (.added hadd)
  next hpc =>
    split at h <;> cases h
    next ret hclass => exact hgoto hpc (.classNotCreated ret hclass)
    next hclass => exact hgoto hpc (.classCreated hclass)
  next hpc =>
    split at h <;> cases h
    next ret hdevice => exact hgoto hpc (.deviceNotCreated ret hdevice)
    next hdevice => exact hgoto hpc (.deviceCreated hdevice)
  next hpc =>
    split at h
    next ret hthread => cases h; exact hgoto hpc (.threadNotRun ret hthread)
    next hthread =>
      split at h <;> cases h
      next hstep =>
        cases Device.step_iff.mp hstep with
        | kthreadRun hcollector => exact .loaded hpc hthread hcollector
  next => cases h
  next ret hpc => cases h; exact hgoto hpc (.errDevice ret)
  next ret hpc => cases h; exact hgoto hpc (.errClass ret)
  next ret hpc => cases h; exact hgoto hpc (.errCdev ret)
  next ret hpc => cases h; exact hgoto hpc (.errUnregister ret)
  next ret hpc => cases h; exact .destroyedByInit ret hpc
  next => cases h
  next hpc =>
    split at h <;> cases h
    next hstep =>
      cases Device.step_iff.mp hstep with
      | kthreadStop hcollector => exact .stopping hpc hcollector
  next hpc =>
    split at h <;> cases h
    next hrunning => exact .stopped hpc (by simpa using hrunning)
  next hpc => cases h; exact hgoto hpc .deviceDestroy
  next hpc => cases h; exact hgoto hpc .classDestroy
  next hpc => cases h; exact hgoto hpc .cdevDel
  next hpc => cases h; exact hgoto hpc .unregisterChrdevRegion
  next hpc => cases h; exact .destroyedByExit hpc
  next => cases h

/-- A step of the machine is one of the cases of `ModuleStep`. -/
private theorem moduleStep_of_step (h : m.step e op = some (m', o)) : ModuleStep e m op m' o := by
  cases op with
  | advance =>
      rw [step] at h
      split at h <;> cases h
      next hadvance => exact moduleStep_of_advance hadvance
  | deleteModule =>
      rw [step] at h
      split at h <;> cases h
      next hguard => exact .deleted hguard.1 hguard.2
  | device dop =>
      rw [step] at h
      split at h
      next hallows =>
        split at h <;> cases h
        next hstep => exact .device dop _ _ hallows (Device.step_iff.mp hstep)
      next => cases h

/-- `KernelModule.step` takes exactly the steps of `ModuleStep`. -/
theorem step_iff : m.step e op = some (m', o) ↔ ModuleStep e m op m' o := by
  refine ⟨moduleStep_of_step, fun h => ?_⟩
  cases h with
  | goto pc' hgoto =>
      generalize hpc : m.pc = pc at hgoto
      cases hgoto <;> simp [step, advance, *]
  | loaded hpc hthread hcollector =>
      simp [step, advance, hpc, hthread, Device.step_iff.mpr (.kthreadRun hcollector)]
  | stopping hpc hcollector =>
      simp [step, advance, hpc, Device.step_iff.mpr (.kthreadStop hcollector)]
  | device dop d o hallows hstep => simp [step, hallows, Device.step_iff.mpr hstep]
  | _ => simp [step, advance, *]

/-! ## The device of a loaded module -/

/-- Before `gpu_telem_init` nothing can happen to the device. -/
private theorem not_deviceStep_zero {stack : GpuSample} {dop : DeviceOp} {d : Device}
    (hpc : m.pc = .ringInit) (hdev : m.dev = .zero stack) (hallows : m.allows dop = true) :
    ¬ DeviceStep m.dev dop d o := by
  rw [hdev]
  intro h
  cases h with
  | opened f hfile => simp [allows, hpc, ModulePc.published] at hallows
  | openFailed f hfile => simp [allows, hpc, ModulePc.published] at hallows
  | kthreadRun hcollector => simp [allows] at hallows
  | kthreadStop hcollector => simp [allows] at hallows
  | _ => simp_all [Device.zero, Device.start]

/-- Where the device of a module comes from: it is zero, and once `ring_init` has returned 0 it
makes a run of its own. -/
structure DeviceFrom (e : InitEnv) (stack : GpuSample) (m : KernelModule) : Prop where
  zero : m.pc = .ringInit → m.dev = .zero stack
  run : m.pc.ringUp = true → ∃ size r us, ringInitSize e.ringSize = some (.ok size) ∧
    ringInit size e.vzalloc = .ok r ∧
    Device.machine.Trace (.start r e.paths (max e.sampleMs minSampleMs) stack) us m.dev

/-- `gpu_telem_init` does not begin twice. -/
private theorem ne_ringInit_of_goto {pc pc' : ModulePc} (h : ModuleGoto e pc pc') :
    pc' ≠ .ringInit := by
  cases h <;> simp

/-- A call that leaves `gdev` as it is goes on with a ring only where it found one. -/
private theorem ringUp_of_goto {pc pc' : ModulePc} (h : ModuleGoto e pc pc')
    (hup : pc'.ringUp = true) : pc.ringUp = true := by
  cases h <;> simp_all [ModulePc.ringUp]

/-- A step of the device prolongs its run. -/
private theorem DeviceFrom.snoc {stack : GpuSample} (hI : m.DeviceFrom e stack)
    (hup : m.pc.ringUp = true) {dop : DeviceOp} {d : Device} (hstep : DeviceStep m.dev dop d o) :
    ∃ size r us, ringInitSize e.ringSize = some (.ok size) ∧ ringInit size e.vzalloc = .ok r ∧
      Device.machine.Trace (.start r e.paths (max e.sampleMs minSampleMs) stack) us d := by
  obtain ⟨size, r, us, hsize, hr, hus⟩ := hI.run hup
  exact ⟨size, r, _, hsize, hr, Trace.snoc hus (Device.step_iff.mpr hstep)⟩

/-- Every step of the module keeps the origin of its device. -/
private theorem DeviceFrom.step {stack : GpuSample} (hI : m.DeviceFrom e stack)
    (h : ModuleStep e m op m' o) : m'.DeviceFrom e stack := by
  cases h with
  | initialized r hpc hring =>
      obtain ⟨size, hsize, hr⟩ := InitEnv.ringInit_of_initRing hring
      refine ⟨nofun, fun _ => ⟨size, r, [], hsize, hr, ?_⟩⟩
      rw [hI.zero hpc]
      exact Trace.nil
  | goto pc' hgoto =>
      refine ⟨fun hpc => ?_, fun hup => hI.run (ringUp_of_goto hgoto hup)⟩
      exact absurd hpc (ne_ringInit_of_goto hgoto)
  | loaded hpc hthread hcollector =>
      exact ⟨nofun, fun _ => hI.snoc (by rw [hpc]; rfl) (.kthreadRun hcollector)⟩
  | stopping hpc hcollector =>
      exact ⟨nofun, fun _ => hI.snoc (by rw [hpc]; rfl) (.kthreadStop hcollector)⟩
  | stopped hpc hcollector => exact ⟨nofun, fun _ => hI.run (by rw [hpc]; rfl)⟩
  | destroyedByInit ret hpc => exact ⟨nofun, nofun⟩
  | destroyedByExit hpc => exact ⟨nofun, nofun⟩
  | deleted hpc hrefs => exact ⟨nofun, fun _ => hI.run (by rw [hpc]; rfl)⟩
  | device dop d o hallows hstep =>
      refine ⟨fun hpc => ?_, fun hup => hI.snoc hup hstep⟩
      exact absurd hstep (not_deviceStep_zero hpc (hI.zero hpc) hallows)

/-- As long as the ring is set up, the device is where a run of `Device.machine` can take it. -/
theorem device_of_trace {stack : GpuSample} {ts : List ModuleTransition}
    (h : (machine e).Trace (start stack) ts m) (hup : m.pc.ringUp = true) :
    ∃ size r us, ringInitSize e.ringSize = some (.ok size) ∧ ringInit size e.vzalloc = .ok r ∧
      Device.machine.Trace (.start r e.paths (max e.sampleMs minSampleMs) stack) us m.dev := by
  have hinv : m.DeviceFrom e stack :=
    Trace.invariant (fun _ _ _ _ hI hstep => DeviceFrom.step hI (step_iff.mp hstep)) h
      ⟨fun _ => rfl, nofun⟩
  exact hinv.run hup

end KernelModule

end GpuTelem
