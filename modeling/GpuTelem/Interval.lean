import GpuTelem.Foundations.StructFormat
import GpuTelem.KernelModule.Unload

/-!
# The collection interval

`interval_ms` is a register that every open file reads and writes by `ioctl`, and that the collector
reads before it sleeps. The Python consumer gets at it with numbers and buffers of its own.

## Main definitions

* `intervalWritten`: what a step writes to the register;
* `ioc`: the number of an `ioctl`, from its fields;
* `GpuTelemReader.ringSize`, `GpuTelemReader.intervalMs`, `GpuTelemReader.setIntervalMs`: the
  methods of these names.

## Main results

* `interval_register`: every `ioctl` answers from the last write;
* `ringSize_of_trace`: what the Python consumer gets as the size of the ring;
* `interval_round_trip`: what the Python consumer sets is what it gets.
-/

namespace GpuTelem

open Machine LittleEndian StructFormat

/-! ## The register -/

/-- The interval a step writes: when `gpu_telem_init` has a ring, and by a
`GPU_TELEM_SET_INTERVAL_MS` that returns 0. -/
def intervalWritten (e : InitEnv) (τ : ModuleTransition) : Option UInt32 :=
  match τ.input with
  | .advance =>
      if τ.pre.pc = .ringInit ∧ τ.post.pc = .allocChrdevRegion then
        some (max e.sampleMs minSampleMs)
      else none
  | .device (.ioctl _ cmd arg) =>
      if cmd = gpuTelemSetIntervalMs ∧ τ.output = .ioctlDone (.ok none) then arg else none
  | _ => none

section Step

variable {e : InitEnv} {m m' : KernelModule} {op : ModuleOp} {o : DeviceObs}

/-- `GPU_TELEM_SET_INTERVAL_MS` takes a value from `MIN_SAMPLE_MS` on. -/
theorem gpuTelemIoctl_set (ringSize intervalMs : UInt32) (arg : Option UInt32) :
    gpuTelemIoctl ringSize intervalMs gpuTelemSetIntervalMs arg =
      match arg with
      | none => (intervalMs, .error .EFAULT)
      | some val =>
          if val < minSampleMs then (intervalMs, .error .EINVAL) else (val, .ok none) := rfl

/-- `GPU_TELEM_GET_INTERVAL_MS` copies the interval out. -/
theorem gpuTelemIoctl_get (ringSize intervalMs : UInt32) (arg : Option UInt32) :
    gpuTelemIoctl ringSize intervalMs gpuTelemGetIntervalMs arg =
      match arg with
      | none => (intervalMs, .error .EFAULT)
      | some _ => (intervalMs, .ok (some intervalMs)) := rfl

/-- Without a buffer every command fails and writes nothing. -/
theorem gpuTelemIoctl_none (ringSize intervalMs cmd : UInt32) :
    ∃ err, gpuTelemIoctl ringSize intervalMs cmd none = (intervalMs, .error err) := by
  unfold gpuTelemIoctl
  split_ifs <;> exact ⟨_, rfl⟩

/-- No other command writes. -/
theorem fst_gpuTelemIoctl_of_ne {cmd : UInt32} (hcmd : cmd ≠ gpuTelemSetIntervalMs)
    (ringSize intervalMs : UInt32) (arg : Option UInt32) :
    (gpuTelemIoctl ringSize intervalMs cmd arg).1 = intervalMs := by
  simp only [gpuTelemIoctl, if_neg hcmd]
  split_ifs <;> cases arg <;> rfl

/-- `gpu_telem_ioctl` writes the interval when it returns 0 without a value, and only then. -/
theorem fst_gpuTelemIoctl (ringSize intervalMs cmd : UInt32) (arg : Option UInt32) :
    (gpuTelemIoctl ringSize intervalMs cmd arg).1
      = (if cmd = gpuTelemSetIntervalMs ∧ (gpuTelemIoctl ringSize intervalMs cmd arg).2 = .ok none
          then arg else none).getD intervalMs := by
  by_cases hcmd : cmd = gpuTelemSetIntervalMs
  · subst hcmd
    rw [gpuTelemIoctl_set]
    cases arg with
    | none => simp
    | some val => by_cases hval : val < minSampleMs <;> simp [hval]
  · rw [fst_gpuTelemIoctl_of_ne hcmd, if_neg fun h => hcmd h.1]
    rfl

/-- No step writes the interval but those of `intervalWritten`. -/
theorem ModuleStep.intervalMs_eq (h : ModuleStep e m op m' o) :
    m'.dev.intervalMs = (intervalWritten e ⟨m, op, m', o⟩).getD m.dev.intervalMs := by
  cases h with
  | initialized r hpc hring => simp [intervalWritten, hpc]
  | goto pc' hgoto =>
      have hne : ¬ (m.pc = .ringInit ∧ pc' = .allocChrdevRegion) := by
        rintro ⟨hpc, rfl⟩
        rw [hpc] at hgoto
        cases hgoto
      simp [intervalWritten, hne]
  | device dop d o hallows hstep =>
      cases hstep with
      | ioctl f cmd arg hopen =>
          have hfst := fst_gpuTelemIoctl m.dev.readers.ring.size m.dev.intervalMs cmd arg
          simpa [intervalWritten] using hfst
      | _ => rfl
  | _ => simp_all [intervalWritten, KernelModule.ringDestroy]

/-- An `ioctl` returns what `gpu_telem_ioctl` returns, and changes the interval only. -/
theorem KernelModule.step_ioctl {f : FileId} {cmd : UInt32} {arg : Option UInt32}
    (h : (machine e).step m (.device (.ioctl f cmd arg)) = some (m', o)) :
    m' = { m with dev := { m.dev with
        intervalMs := (gpuTelemIoctl m.dev.readers.ring.size m.dev.intervalMs cmd arg).1 } } ∧
      o = .ioctlDone (gpuTelemIoctl m.dev.readers.ring.size m.dev.intervalMs cmd arg).2 := by
  have hmod : ModuleStep e m (.device (.ioctl f cmd arg)) m' o := step_iff.mp h
  cases hmod with
  | device _ d _ hallows hstep =>
      cases hstep with
      | ioctl _ _ _ hopen => exact ⟨rfl, rfl⟩

end Step

/-- **The interval is a register.** In every run, under every interleaving of the files and the
collector, as long as the ring is set up: the interval is what was written last, by
`gpu_telem_init` or by an `ioctl` of any file, and never below `MIN_SAMPLE_MS`. The next `ioctl` of
any file is answered from it, and changes it only when it returns 0 to
`GPU_TELEM_SET_INTERVAL_MS`. -/
theorem interval_register {e : InitEnv} {stack : GpuSample} {ts : List ModuleTransition}
    {m : KernelModule} (h : (KernelModule.machine e).Trace (.start stack) ts m)
    (hup : m.pc.ringUp = true) :
    ∃ v, (ts.filterMap (intervalWritten e)).getLast? = some v ∧ m.dev.intervalMs = v ∧
      minSampleMs ≤ v ∧
      ∀ f cmd arg m' o,
        (KernelModule.machine e).step m (.device (.ioctl f cmd arg)) = some (m', o) →
        (cmd = gpuTelemGetIntervalMs → m'.dev.intervalMs = v ∧
          o = .ioctlDone (if arg.isSome then .ok (some v) else .error .EFAULT)) ∧
        (cmd = gpuTelemSetIntervalMs → ∀ val, arg = some val →
          if val < minSampleMs then m'.dev.intervalMs = v ∧ o = .ioctlDone (.error .EINVAL)
          else m'.dev.intervalMs = val ∧ o = .ioctlDone (.ok none)) ∧
        (cmd ≠ gpuTelemSetIntervalMs → m'.dev.intervalMs = v) ∧
        (arg = none → m'.dev.intervalMs = v ∧
          ∃ err, o = .ioctlDone (.error err)) := by
  have hmin := KernelModule.minSampleMs_le_of_trace h hup
  have hlast := Trace.register (v := fun m : KernelModule => m.dev.intervalMs)
    (w := intervalWritten e)
    (fun _ _ _ _ hstep => (KernelModule.step_iff.mp hstep).intervalMs_eq) h
  cases hwritten : (ts.filterMap (intervalWritten e)).getLast? with
  | none =>
      -- before `gpu_telem_init` the interval is zero
      rw [hwritten] at hlast
      have hzero : m.dev.intervalMs = 0 := hlast
      rw [hzero] at hmin
      exact absurd hmin (by decide)
  | some v =>
      rw [hwritten] at hlast
      obtain rfl : m.dev.intervalMs = v := hlast
      refine ⟨_, rfl, rfl, hmin, fun f cmd arg m' o hstep => ?_⟩
      obtain ⟨rfl, rfl⟩ := KernelModule.step_ioctl hstep
      refine ⟨?_, ?_, fun hcmd => fst_gpuTelemIoctl_of_ne hcmd .., ?_⟩
      · rintro rfl
        rw [gpuTelemIoctl_get]
        cases arg <;> exact ⟨rfl, rfl⟩
      · rintro rfl val rfl
        rw [gpuTelemIoctl_set]
        dsimp only
        split_ifs <;> exact ⟨rfl, rfl⟩
      · rintro rfl
        obtain ⟨err, herr⟩ := gpuTelemIoctl_none m.dev.readers.ring.size m.dev.intervalMs cmd
        rw [herr]
        exact ⟨rfl, err, rfl⟩

/-! ## The methods of the Python consumer -/

/-- `_IOC`. -/
def ioc (direction type nr size : ℕ) : ℕ :=
  direction <<< 30 ||| size <<< 16 ||| type <<< 8 ||| nr

/-- `IOCTL_GET_RING_SIZE`. -/
def ioctlGetRingSize : ℕ := ioc 2 0x47 0 4

/-- `IOCTL_GET_INTERVAL_MS`. -/
def ioctlGetIntervalMs : ℕ := ioc 2 0x47 1 4

/-- `IOCTL_SET_INTERVAL_MS`. -/
def ioctlSetIntervalMs : ℕ := ioc 1 0x47 2 4

/-- The numbers of the consumer are those of the driver. -/
theorem ofNat_ioctl :
    UInt32.ofNat ioctlGetRingSize = gpuTelemGetRingSize ∧
      UInt32.ofNat ioctlGetIntervalMs = gpuTelemGetIntervalMs ∧
      UInt32.ofNat ioctlSetIntervalMs = gpuTelemSetIntervalMs := by
  decide

/-- What a method raises. -/
inductive Raised
  /-- `struct.error`. -/
  | structError
  /-- `OSError`. -/
  | osError (err : Errno)
  deriving DecidableEq

namespace GpuTelemReader

/-- `fcntl.ioctl(fd, op, buf)` with a buffer of four bytes: the buffer after it. -/
def fcntlIoctl (e : InitEnv) (m : KernelModule) (f : FileId) (op : ℕ) (buf : List UInt8) :
    Option (KernelModule × Except Raised (List UInt8)) :=
  match m.step e (.device (.ioctl f (.ofNat op) (some (.ofNat (leValue buf))))) with
  | some (m', .ioctlDone (.ok none)) => some (m', .ok buf)
  | some (m', .ioctlDone (.ok (some val))) => some (m', .ok (leBytes 4 val.toNat))
  | some (m', .ioctlDone (.error err)) => some (m', .error (.osError err))
  | _ => none

/-- `struct.unpack("I", buf)[0]`. -/
def unpackI (buf : List UInt8) : Except Raised ℤ :=
  match unpack [.int .u32] buf with
  | some [x] => .ok x
  | _ => .error .structError

/-- The methods that read a number. -/
def get (op : ℕ) (e : InitEnv) (m : KernelModule) (f : FileId) :
    Option (KernelModule × Except Raised ℤ) :=
  match fcntlIoctl e m f op [0, 0, 0, 0] with
  | none => none
  | some (m', .error err) => some (m', .error err)
  | some (m', .ok buf) => some (m', unpackI buf)

/-- `ring_size`. -/
def ringSize := get ioctlGetRingSize

/-- `interval_ms`. -/
def intervalMs := get ioctlGetIntervalMs

/-- `set_interval_ms`. -/
def setIntervalMs (e : InitEnv) (m : KernelModule) (f : FileId) (ms : ℤ) :
    Option (KernelModule × Except Raised Unit) :=
  match pack [.int .u32] [ms] with
  | none => some (m, .error .structError)
  | some buf =>
      match fcntlIoctl e m f ioctlSetIntervalMs buf with
      | none => none
      | some (m', .error err) => some (m', .error err)
      | some (m', .ok _) => some (m', .ok ())

end GpuTelemReader

section RoundTrip

variable {e : InitEnv} {m m₁ m₂ m₃ : KernelModule} {f g : FileId}

/-- A `__u32` is read back from its four bytes. -/
theorem unpackI_leBytes (val : UInt32) :
    GpuTelemReader.unpackI (leBytes 4 val.toNat) = .ok val.toNat := by
  have hlen : (leBytes 4 val.toNat).length = calcsize [.int .u32] := length_leBytes _ _
  have hcast : IntType.u32.cast val.toNat = val.toNat := IntType.cast_natCast rfl val.toNat_lt
  have hitems : unpackItems [.int .u32] (leBytes 4 val.toNat) = [(val.toNat : ℤ)] := by
    have hencode := unpackItems_encode .u32 [] val.toNat []
    rwa [IntType.encode_natCast, List.append_nil, hcast] at hencode
  rw [GpuTelemReader.unpackI, unpack, if_pos hlen, hitems]

/-- What `set_interval_ms` passes to the kernel. -/
theorem pack_I (ms : ℤ) :
    pack [.int .u32] [ms] = if ms < 0 ∨ 2 ^ 32 ≤ ms then none else some (leBytes 4 ms.toNat) := by
  have hrange : IntType.u32.Contains ms ↔ ¬ (ms < 0 ∨ 2 ^ 32 ≤ ms) := by
    simp only [IntType.Contains, IntType.lo, IntType.u32]
    simp
  rw [pack]
  split_ifs with hcontains hout hout
  · exact absurd hout (hrange.mp hcontains)
  · obtain ⟨n, rfl⟩ := Int.eq_ofNat_of_zero_le (a := ms) (by omega)
    simp [pack, IntType.encode_natCast, IntType.u32]
  · rfl
  · exact absurd (hrange.mpr hout) hcontains

/-- What `fcntl.ioctl` makes of the answer of the driver. -/
theorem fcntlIoctl_cases {op : ℕ} {buf : List UInt8} {result : Except Raised (List UInt8)}
    (h : GpuTelemReader.fcntlIoctl e m f op buf = some (m₁, result)) :
    ∃ interval answer,
      gpuTelemIoctl m.dev.readers.ring.size m.dev.intervalMs (.ofNat op)
        (some (.ofNat (leValue buf))) = (interval, answer) ∧
      m₁ = { m with dev := { m.dev with intervalMs := interval } } ∧
      result = match answer with
        | .ok none => .ok buf
        | .ok (some val) => .ok (leBytes 4 val.toNat)
        | .error err => .error (.osError err) := by
  cases hdriver : gpuTelemIoctl m.dev.readers.ring.size m.dev.intervalMs (.ofNat op)
      (some (.ofNat (leValue buf))) with
  | mk interval answer =>
      refine ⟨interval, answer, rfl, ?_⟩
      -- whatever the step gives, it is what the driver has answered
      have hanswer : ∀ o, m.step e (.device (.ioctl f (.ofNat op) (some (.ofNat (leValue buf)))))
            = some (m₁, o) →
          m₁ = { m with dev := { m.dev with intervalMs := interval } } ∧
            o = .ioctlDone answer := by
        intro o hstep
        have hioctl := KernelModule.step_ioctl (e := e) hstep
        rwa [hdriver] at hioctl
      rw [GpuTelemReader.fcntlIoctl] at h
      split at h <;> cases h
      -- one goal for each answer that `fcntlIoctl` tells apart
      all_goals
        rename_i hstep
        obtain ⟨hm, ho⟩ := hanswer _ hstep
        cases ho
        exact ⟨hm, rfl⟩

/-- A method that reads returns the number the driver copies out, and changes nothing. -/
theorem get_eq {op : ℕ} {val : UInt32} {got : Except Raised ℤ}
    (hdriver : gpuTelemIoctl m.dev.readers.ring.size m.dev.intervalMs (.ofNat op) (some 0)
      = (m.dev.intervalMs, .ok (some val)))
    (hget : GpuTelemReader.get op e m f = some (m₁, got)) : m₁ = m ∧ got = .ok val.toNat := by
  rw [GpuTelemReader.get] at hget
  cases hioctl : GpuTelemReader.fcntlIoctl e m f op [0, 0, 0, 0] with
  | none => simp [hioctl] at hget
  | some p =>
      obtain ⟨m', answer⟩ := p
      obtain ⟨interval, answered, hanswer, rfl, rfl⟩ := fcntlIoctl_cases hioctl
      have hzero : UInt32.ofNat (leValue [0, 0, 0, 0]) = 0 := by decide
      rw [hzero, hdriver] at hanswer
      obtain ⟨rfl, rfl⟩ := Prod.mk.inj hanswer
      rw [hioctl] at hget
      obtain ⟨rfl, rfl⟩ : m = m₁ ∧ _ = got := by simpa using hget
      exact ⟨rfl, unpackI_leBytes val⟩

/-- `ring_size` returns the capacity. -/
theorem ringSize_eq {got : Except Raised ℤ}
    (hget : GpuTelemReader.ringSize e m f = some (m₁, got)) :
    m₁ = m ∧ got = .ok m.dev.readers.ring.size.toNat := by
  refine get_eq ?_ hget
  rw [ofNat_ioctl.1]
  rfl

/-- **What `ring_size` returns.** On any open file, in every run, as long as the ring is set up: the
least power of two that is not below the parameter of the module. -/
theorem ringSize_of_trace {stack : GpuSample} {ts : List ModuleTransition}
    (h : (KernelModule.machine e).Trace (.start stack) ts m) (hup : m.pc.ringUp = true)
    {got : Except Raised ℤ} (hget : GpuTelemReader.ringSize e m f = some (m₁, got)) :
    m₁ = m ∧ ∃ size : UInt32, got = .ok size.toNat ∧
      IsLeastPow2 size.toNat e.ringSize.toNat ∧ size.toNat ≤ 4096 := by
  obtain ⟨hm, hgot⟩ := ringSize_eq hget
  obtain ⟨size, r, us, hsize, hinit, hus⟩ := KernelModule.device_of_trace h hup
  have hsound := Device.sound_of_trace hus (.start hinit _ _ _)
  rw [hsound.size_eq] at hgot
  have hin : ¬ (e.ringSize < 2 ∨ e.ringSize > maxRingSize) := by
    intro hout
    rw [ringInitSize_of_out hout] at hsize
    cases hsize
  obtain ⟨size', hsize', hleast, hle⟩ := ringInitSize_eq hin
  obtain rfl : size = size' := by simpa using hsize.symm.trans hsize'
  exact ⟨hm, size, hgot, hleast, hle⟩

/-- `interval_ms` returns the interval. -/
theorem intervalMs_eq {got : Except Raised ℤ}
    (hget : GpuTelemReader.intervalMs e m f = some (m₁, got)) :
    m₁ = m ∧ got = .ok m.dev.intervalMs.toNat := by
  refine get_eq ?_ hget
  rw [ofNat_ioctl.2.1, gpuTelemIoctl_get]

/-- The answer to `set_interval_ms`. -/
theorem setIntervalMs_cases {ms : ℤ} {result : Except Raised Unit}
    (hset : GpuTelemReader.setIntervalMs e m f ms = some (m₁, result)) :
    (ms < 0 ∨ 2 ^ 32 ≤ ms) ∧ m₁ = m ∧ result = .error .structError ∨
    (0 ≤ ms ∧ ms < 10) ∧ m₁ = m ∧ result = .error (.osError .EINVAL) ∨
    (10 ≤ ms ∧ ms < 2 ^ 32) ∧ m₁.dev.intervalMs = .ofNat ms.toNat ∧ result = .ok () := by
  rw [GpuTelemReader.setIntervalMs, pack_I] at hset
  by_cases hout : ms < 0 ∨ 2 ^ 32 ≤ ms
  · -- `struct.pack` raises, and the driver is not called
    rw [if_pos hout] at hset
    obtain ⟨rfl, rfl⟩ : m = m₁ ∧ _ = result := by simpa using hset
    exact .inl ⟨hout, rfl, rfl⟩
  · rw [if_neg hout] at hset
    obtain ⟨n, rfl⟩ := Int.eq_ofNat_of_zero_le (a := ms) (by omega)
    have hn : n < 2 ^ 32 := by omega
    -- the driver reads the number that was packed
    have hvalue : leValue (leBytes 4 n) = n := by
      rw [leValue_leBytes]
      exact Nat.mod_eq_of_lt hn
    rw [Int.toNat_natCast] at hset ⊢
    dsimp only at hset
    cases hioctl : GpuTelemReader.fcntlIoctl e m f ioctlSetIntervalMs (leBytes 4 n) with
    | none => simp [hioctl] at hset
    | some p =>
        obtain ⟨m', answer⟩ := p
        obtain ⟨interval, answered, hdriver, rfl, rfl⟩ := fcntlIoctl_cases hioctl
        rw [ofNat_ioctl.2.2, hvalue, gpuTelemIoctl_set] at hdriver
        have hlow : UInt32.ofNat n < minSampleMs ↔ n < 10 := by
          rw [UInt32.lt_iff_toNat_lt, UInt32.toNat_ofNat_of_lt' hn]
          rfl
        dsimp only at hdriver
        by_cases hmin : n < 10
        · -- refused
          rw [if_pos (hlow.mpr hmin)] at hdriver
          obtain ⟨rfl, rfl⟩ := Prod.mk.inj hdriver
          rw [hioctl] at hset
          obtain ⟨rfl, rfl⟩ : m = m₁ ∧ _ = result := by simpa using hset
          exact .inr (.inl ⟨by omega, rfl, rfl⟩)
        · -- accepted
          rw [if_neg (mt hlow.mp hmin)] at hdriver
          obtain ⟨rfl, rfl⟩ := Prod.mk.inj hdriver
          rw [hioctl] at hset
          obtain ⟨rfl, rfl⟩ : _ = m₁ ∧ _ = result := by simpa using hset
          exact .inr (.inr ⟨by omega, rfl, rfl⟩)

end RoundTrip

/-- The module is loaded and two files are opened. -/
def twoFilesOps : List ModuleOp :=
  List.replicate 6 .advance ++ [.device (.openFile 0 true), .device (.openFile 1 true)]

/-- The first file sets 200 ms. -/
theorem interval_register_set :
    ∃ ts m, (KernelModule.machine loadedEnv).Trace (.start default) ts m ∧
      m.dev.intervalMs = 200 ∧ (ts.filterMap (intervalWritten loadedEnv)).getLast? = some 200 := by
  have hrun : ((KernelModule.machine loadedEnv).exec (.start default)
      (twoFilesOps ++ [.device (.ioctl 0 gpuTelemSetIntervalMs (some 200))])).map
        (fun p => decide (p.2.pc.ringUp = true ∧ p.2.dev.intervalMs = 200)) = some true := by
    decide
  obtain ⟨⟨ts, m⟩, hexec, hseen⟩ := Option.map_eq_some_iff.mp hrun
  obtain ⟨hup, hvalue⟩ := of_decide_eq_true hseen
  have htrace := Trace.of_exec hexec
  obtain ⟨v, hlast, rfl, -⟩ := interval_register htrace hup
  exact ⟨ts, m, htrace, hvalue, hvalue ▸ hlast⟩

end GpuTelem
