import GpuTelem.Foundations.StructFormat
import GpuTelem.Uapi
import Mathlib.Data.Int.Bitwise

/-!
# The Python consumer

The data model of `user/consumer.py`: how a record is unpacked and what is shown of it. Python
integers are unbounded, so the fields of an unpacked record are integers.

## Main definitions

* `Consumer.fmt`, `Consumer.Sample.unpack`: the layout, and a record read with it;
* `Consumer.Sample.toDict`: what is shown of a record.

## Main results

* `Consumer.unpack_bytes`: the layout of the consumer is the one of `struct gpu_sample`.
-/

namespace GpuTelem

open LittleEndian StructFormat

namespace Consumer

/-- `_FMT`: `"<Q i I Q I I I I B 7x"`. -/
def fmt : List Item :=
  [.int .u64, .int .s32, .int .u32, .int .u64, .int .u32, .int .u32, .int .u32, .int .u32,
    .int .u8, .pad 7]

/-- The class `GpuSample`. -/
structure Sample where
  timestampNs : ℤ
  /-- -1 = unavailable. -/
  tempMillideg : ℤ
  /-- 0 = unavailable. -/
  fanRpm : ℤ
  /-- 0 = unavailable. -/
  powerUw : ℤ
  /-- 0 = unavailable. -/
  coreFreqMhz : ℤ
  /-- 0 = unavailable. -/
  memFreqMhz : ℤ
  /-- 0xFFFFFFFF = unavailable. -/
  gpuUtilPct : ℤ
  /-- 0xFFFFFFFF = unavailable. -/
  memUtilPct : ℤ
  throttleReasons : ℤ
  deriving DecidableEq

/-- `GpuSample.unpack`; `none` when `struct.unpack` raises. -/
def Sample.unpack (raw : List UInt8) : Option Sample :=
  match StructFormat.unpack fmt raw with
  | some [timestampNs, tempMillideg, fanRpm, powerUw, coreFreqMhz, memFreqMhz, gpuUtilPct,
      memUtilPct, throttleReasons] =>
      some { timestampNs, tempMillideg, fanRpm, powerUw, coreFreqMhz, memFreqMhz, gpuUtilPct,
             memUtilPct, throttleReasons }
  | _ => none

/-- A value the consumer takes for "unavailable" is shown as `None`. -/
def noneIf (sentinel x : ℤ) : Option ℤ := if x = sentinel then none else some x

/-- `_THROTTLE`. -/
def throttle : List (ℤ × String) :=
  [(0x01, "POWER"), (0x02, "THERMAL"), (0x04, "CURRENT"), (0x08, "UTIL")]

/-- The dictionary `to_dict` returns, in its order. -/
structure SampleDict where
  timestampNs : ℤ
  tempC : Option ℤ
  fanRpm : Option ℤ
  powerW : Option ℤ
  coreFreqMhz : Option ℤ
  memFreqMhz : Option ℤ
  gpuUtilPct : Option ℤ
  memUtilPct : Option ℤ
  throttle : List String
  deriving DecidableEq

namespace Sample

/-- `temp_c`, before the division by 1000.0. -/
def tempC (s : Sample) : Option ℤ := noneIf (-1) s.tempMillideg

/-- `power_w`, before the division by 1e6. -/
def powerW (s : Sample) : Option ℤ := noneIf 0 s.powerUw

/-- `gpu_util`. -/
def gpuUtil (s : Sample) : Option ℤ := noneIf 0xFFFFFFFF s.gpuUtilPct

/-- `mem_util`. -/
def memUtil (s : Sample) : Option ℤ := noneIf 0xFFFFFFFF s.memUtilPct

/-- `throttle_names`. -/
def throttleNames (s : Sample) : List String :=
  (throttle.filter fun p => s.throttleReasons.land p.1 ≠ 0).map (·.2)

/-- `to_dict`. The `or` of the source takes zero for false. -/
def toDict (s : Sample) : SampleDict where
  timestampNs := s.timestampNs
  tempC := s.tempC
  fanRpm := noneIf 0 s.fanRpm
  powerW := s.powerW
  coreFreqMhz := noneIf 0 s.coreFreqMhz
  memFreqMhz := noneIf 0 s.memFreqMhz
  gpuUtilPct := s.gpuUtil
  memUtilPct := s.memUtil
  throttle := s.throttleNames

end Sample

/-! ## Unpacking a record of the kernel -/

@[simp]
theorem noneIf_eq_none_iff {sentinel x : ℤ} : noneIf sentinel x = none ↔ x = sentinel := by
  simp [noneIf]

/-- The integers a record of the kernel holds. -/
def Sample.ofRecord (s : GpuSample) : Sample where
  timestampNs := s.timestampNs.toNat
  tempMillideg := s.tempMillideg.toInt
  fanRpm := s.fanRpm.toNat
  powerUw := s.powerUw.toNat
  coreFreqMhz := s.coreFreqMhz.toNat
  memFreqMhz := s.memFreqMhz.toNat
  gpuUtilPct := s.gpuUtilPct.toNat
  memUtilPct := s.memUtilPct.toNat
  throttleReasons := s.throttleReasons.toNat

/-- A `__u64` keeps its value. -/
theorem cast_u64 (x : UInt64) : IntType.u64.cast x.toNat = x.toNat :=
  IntType.cast_natCast rfl x.toNat_lt

/-- A `__u32` keeps its value. -/
theorem cast_u32 (x : UInt32) : IntType.u32.cast x.toNat = x.toNat :=
  IntType.cast_natCast rfl x.toNat_lt

/-- A `__u8` keeps its value. -/
theorem cast_u8 (x : UInt8) : IntType.u8.cast x.toNat = x.toNat :=
  IntType.cast_natCast rfl x.toNat_lt

/-- A `__s32` keeps its value. -/
theorem cast_s32 (x : Int32) : IntType.s32.cast x.toInt = x.toInt := by
  rw [IntType.cast_eq_self_iff]
  exact ⟨x.le_toInt, x.toInt_lt⟩

/-- The bytes of a `__s32` are those of its bit pattern. -/
theorem encode_s32 (x : Int32) : IntType.s32.encode x.toInt = leBytes 4 x.toUInt32.toNat := by
  have hmod : x.toInt % 2 ^ 32 = (x.toUInt32.toNat : ℤ) % 2 ^ 32 := by
    rw [← Int32.toInt_toBitVec, BitVec.toInt_eq_toNat_bmod]
    exact Int.bmod_emod
  exact (IntType.encode_eq_encode IntType.s32 hmod).trans (IntType.encode_natCast _ _)

/-- The fields of a record in memory, in the order of `_FMT`. -/
theorem bytes_eq_encode (s : GpuSample) :
    s.bytes = IntType.u64.encode s.timestampNs.toNat ++ (IntType.s32.encode s.tempMillideg.toInt ++
      (IntType.u32.encode s.fanRpm.toNat ++ (IntType.u64.encode s.powerUw.toNat ++
      (IntType.u32.encode s.coreFreqMhz.toNat ++ (IntType.u32.encode s.memFreqMhz.toNat ++
      (IntType.u32.encode s.gpuUtilPct.toNat ++ (IntType.u32.encode s.memUtilPct.toNat ++
      (IntType.u8.encode s.throttleReasons.toNat ++ s.pad.toList)))))))) := by
  have hbyte : leBytes 1 s.throttleReasons.toNat = [s.throttleReasons] := by simp [leBytes]
  simp only [encode_s32, IntType.encode_natCast]
  simp only [IntType.u8, IntType.u32, IntType.u64, hbyte, GpuSample.bytes, GpuSample.fieldBytes,
    List.append_assoc]

/-- The layout of the consumer is the one of `struct gpu_sample`: unpacking the bytes of a record
gives its fields. -/
theorem unpack_bytes (s : GpuSample) : Sample.unpack s.bytes = some (.ofRecord s) := by
  have hlen : s.bytes.length = calcsize fmt := s.length_bytes
  rw [Sample.unpack, StructFormat.unpack, if_pos hlen, bytes_eq_encode]
  simp only [fmt, unpackItems_encode, unpackItems_pad, cast_u64, cast_s32, cast_u32, cast_u8]
  rfl

end Consumer

end GpuTelem
