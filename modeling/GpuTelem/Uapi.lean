import GpuTelem.Foundations.LittleEndian

/-!
# The user/kernel interface

`struct gpu_sample` of `include/gpu_telem_uapi.h`, the bytes it occupies in memory and the record
that some bytes are, and the error codes the driver returns.

The record has no compiler padding on a little-endian machine: `GpuSample.bytes` lists the fields
in the order of their offsets, the seven bytes of `_pad` included.
-/

namespace GpuTelem

open LittleEndian

/-- The error codes the driver returns or passes on. -/
inductive Errno
  | EINVAL
  | ENOMEM
  | EAGAIN
  | ERESTARTSYS
  | EFAULT
  | ENOTTY
  | EIO
  | ENOENT
  | EBUSY
  | EEXIST
  | EINTR
  | ERANGE
  deriving DecidableEq, Repr

/-- `struct gpu_sample`: one telemetry snapshot from the kernel pipeline. -/
structure GpuSample where
  /-- `ktime_get_ns()` at collection time. -/
  timestampNs : UInt64
  /-- Millidegrees C; -1 = unavailable. -/
  tempMillideg : Int32
  /-- RPM; 0 = unavailable. -/
  fanRpm : UInt32
  /-- Microwatts; 0 = unavailable. -/
  powerUw : UInt64
  /-- GPU core clock; 0 = unavailable. -/
  coreFreqMhz : UInt32
  /-- Memory clock; 0 = unavailable. -/
  memFreqMhz : UInt32
  /-- 0-100; `~0u` = unavailable. -/
  gpuUtilPct : UInt32
  /-- 0-100; `~0u` = unavailable. -/
  memUtilPct : UInt32
  /-- Bitmask of the `GPU_THROTTLE_*` bits. -/
  throttleReasons : UInt8
  /-- `_pad[7]`. -/
  pad : Vector UInt8 7
  deriving DecidableEq, Repr

/-- The all-zero record, as `vzalloc` leaves it. -/
instance : Inhabited GpuSample where
  default :=
    { timestampNs := 0, tempMillideg := 0, fanRpm := 0, powerUw := 0, coreFreqMhz := 0
      memFreqMhz := 0, gpuUtilPct := 0, memUtilPct := 0, throttleReasons := 0
      pad := Vector.replicate 7 0 }

/-- A record with nothing but a timestamp. -/
def GpuSample.stamped (t : UInt64) : GpuSample := { (default : GpuSample) with timestampNs := t }

/-- `sizeof(struct gpu_sample)`. -/
def sampleSz : UInt64 := 48

namespace GpuSample

/-- The bytes of the fields in front of `_pad`, offsets 0 to 40. -/
def fieldBytes (s : GpuSample) : List UInt8 :=
  leBytes 8 s.timestampNs.toNat ++ leBytes 4 s.tempMillideg.toUInt32.toNat
    ++ leBytes 4 s.fanRpm.toNat ++ leBytes 8 s.powerUw.toNat ++ leBytes 4 s.coreFreqMhz.toNat
    ++ leBytes 4 s.memFreqMhz.toNat ++ leBytes 4 s.gpuUtilPct.toNat
    ++ leBytes 4 s.memUtilPct.toNat ++ [s.throttleReasons]

/-- The bytes of the record in memory. -/
def bytes (s : GpuSample) : List UInt8 := s.fieldBytes ++ s.pad.toList

@[simp]
theorem length_fieldBytes (s : GpuSample) : s.fieldBytes.length = 41 := by
  simp [fieldBytes]

/-- A record occupies `sampleSz` bytes. -/
@[simp]
theorem length_bytes (s : GpuSample) : s.bytes.length = sampleSz.toNat := by
  simp [bytes, sampleSz]

/-- The bytes in memory determine the record, its `_pad` included. -/
theorem bytes_injective : Function.Injective bytes := by
  intro s t h
  simp only [bytes, fieldBytes, List.append_assoc] at h
  obtain ⟨htimestamp, h⟩ := List.append_inj h (by simp)
  obtain ⟨htemp, h⟩ := List.append_inj h (by simp)
  obtain ⟨hfan, h⟩ := List.append_inj h (by simp)
  obtain ⟨hpower, h⟩ := List.append_inj h (by simp)
  obtain ⟨hcore, h⟩ := List.append_inj h (by simp)
  obtain ⟨hmem, h⟩ := List.append_inj h (by simp)
  obtain ⟨hgpuUtil, h⟩ := List.append_inj h (by simp)
  obtain ⟨hmemUtil, h⟩ := List.append_inj h (by simp)
  obtain ⟨hthrottle, hpad⟩ := List.append_inj h (by simp)
  have h32 : ∀ {a b : UInt32}, leBytes 4 a.toNat = leBytes 4 b.toNat → a = b := fun hab =>
    UInt32.toNat_inj.mp (leBytes_inj (UInt32.toNat_lt _) (UInt32.toNat_lt _) hab)
  have h64 : ∀ {a b : UInt64}, leBytes 8 a.toNat = leBytes 8 b.toNat → a = b := fun hab =>
    UInt64.toNat_inj.mp (leBytes_inj (UInt64.toNat_lt _) (UInt64.toNat_lt _) hab)
  cases s; cases t
  simp only [mk.injEq]
  exact ⟨h64 htimestamp, congrArg UInt32.toInt32 (h32 htemp), h32 hfan, h64 hpower, h32 hcore,
    h32 hmem, h32 hgpuUtil, h32 hmemUtil, List.singleton_inj.mp hthrottle,
    Vector.toList_inj.mp hpad⟩

/-- The record in memory that holds the given bytes, in its fields and in `_pad`. -/
def ofBytes (bs : List UInt8) : GpuSample where
  timestampNs := .ofNat (leValue (bs.take 8))
  tempMillideg := (UInt32.ofNat (leValue ((bs.drop 8).take 4))).toInt32
  fanRpm := .ofNat (leValue ((bs.drop 12).take 4))
  powerUw := .ofNat (leValue ((bs.drop 16).take 8))
  coreFreqMhz := .ofNat (leValue ((bs.drop 24).take 4))
  memFreqMhz := .ofNat (leValue ((bs.drop 28).take 4))
  gpuUtilPct := .ofNat (leValue ((bs.drop 32).take 4))
  memUtilPct := .ofNat (leValue ((bs.drop 36).take 4))
  throttleReasons := bs[40]!
  pad := Vector.ofFn fun i => (bs.drop 41)[i.val]!

/-- A record that is copied byte by byte is the same record. -/
theorem ofBytes_bytes (s : GpuSample) : ofBytes s.bytes = s := by
  have h32 : ∀ x : UInt32, UInt32.ofNat (leValue (leBytes 4 x.toNat)) = x := by
    intro x
    have hlt : x.toNat < 256 ^ 4 := x.toNat_lt
    rw [leValue_leBytes, Nat.mod_eq_of_lt hlt, UInt32.ofNat_toNat]
  have h64 : ∀ x : UInt64, UInt64.ofNat (leValue (leBytes 8 x.toNat)) = x := by
    intro x
    have hlt : x.toNat < 256 ^ 8 := x.toNat_lt
    rw [leValue_leBytes, Nat.mod_eq_of_lt hlt, UInt64.ofNat_toNat]
  have hpad : s.bytes.drop 41 = s.pad.toList := List.drop_left' s.length_fieldBytes
  obtain ⟨timestamp, temp, fan, power, core, mem, gpuUtil, memUtil, throttle, pad⟩ := s
  rw [ofBytes, hpad]
  simp only [mk.injEq]
  refine ⟨h64 timestamp, congrArg UInt32.toInt32 (h32 temp.toUInt32), h32 fan, h64 power, h32 core,
    h32 mem, h32 gpuUtil, h32 memUtil, rfl, ?_⟩
  ext i
  simp

end GpuSample

end GpuTelem
