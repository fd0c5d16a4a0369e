import GpuTelem.Collector
import GpuTelem.Consumer

/-!
# From an attribute to what the consumer shows

`collect_sample` converts each reading to the type of its field and writes a sentinel where the
reading failed; the consumer takes the sentinel for "unavailable". A reading that the conversion
turns into the sentinel is lost, and one that is out of range comes out changed.

## Main definitions

* `Shows`: how the reading of an attribute comes out;
* `ShowsFailures`, `HoldsReading`: how it would come out of a record without sentinels and
  bounds.

## Main results

* `decoded_sample`: the four attributes, whatever was read;
* `stopped_fan_unavailable`: a fan that stands still is shown as a fan that cannot be read, and a
  negative power as a huge one.
-/

namespace GpuTelem

open Consumer

/-- How the reading of an attribute comes out. `meant` is what the field should hold, `t` is the
type of the field, `field` is the integer unpacked from it and `shown` the entry of the
dictionary. -/
structure Shows (read : Option Int64) (meant : ℤ → ℤ) (t : IntType) (sentinel field : ℤ)
    (shown : Option ℤ) : Prop where
  /-- Nothing is shown when the read failed or its value is stored as the sentinel. -/
  none_iff : shown = none ↔ read = none ∨
    ∃ val, read = some val ∧ t.cast (meant val.toInt) = sentinel
  /-- Otherwise the field is shown. -/
  some_eq : shown = none ∨ shown = some field
  /-- The field holds the value, converted to its type. -/
  field_eq : ∀ val, read = some val → field = t.cast (meant val.toInt)
  /-- The conversion does nothing to the values of the type, and only to them. -/
  exact_iff : ∀ val, read = some val → (field = meant val.toInt ↔ t.Contains (meant val.toInt))

/-- Nothing is shown exactly when the read failed, as if no reading were stored as the sentinel. -/
def ShowsFailures (read : Option Int64) (shown : Option ℤ) : Prop := shown = none ↔ read = none

/-- The field holds the value, as if every value were one of its type. -/
def HoldsReading (read : Option Int64) (meant : ℤ → ℤ) (field : ℤ) : Prop :=
  ∀ val, read = some val → field = meant val.toInt

/-! ## The casts of `collect_sample` -/

/-- The residues of a value and of its bit pattern are the same. -/
private theorem toInt_emod (val : Int64) :
    (val.toUInt64.toNat : ℤ) % 2 ^ 64 = val.toInt % 2 ^ 64 := by
  rw [← Int64.toInt_toBitVec, BitVec.toInt_eq_toNat_bmod]
  exact Int.bmod_emod.symm

/-- `(s32)val`. -/
theorem toInt_toInt32 (val : Int64) : val.toInt32.toInt = IntType.s32.cast val.toInt := by
  rw [← cast_s32]
  apply IntType.cast_eq_cast IntType.s32
  rw [Int64.toInt_toInt32]
  exact Int.bmod_emod

/-- `(u64)val`. -/
theorem toNat_toUInt64 (val : Int64) : val.toUInt64.toNat = IntType.u64.cast val.toInt := by
  rw [← cast_u64]
  exact IntType.cast_eq_cast IntType.u64 (toInt_emod val)

/-- `(u32)val`. -/
theorem toNat_toUInt32 (val : Int64) :
    val.toUInt64.toUInt32.toNat = IntType.u32.cast val.toInt := by
  have hdvd : (2 ^ 32 : ℤ) ∣ 2 ^ 64 := by decide
  have hmod : (val.toUInt64.toUInt32.toNat : ℤ) % 2 ^ 32 = val.toInt % 2 ^ 32 := by
    rw [UInt64.toNat_toUInt32, ← Int.emod_emod_of_dvd val.toInt hdvd, ← toInt_emod,
      Int.emod_emod_of_dvd _ hdvd]
    push_cast
    exact Int.emod_emod_of_dvd _ dvd_rfl
  rw [← cast_u32]
  exact IntType.cast_eq_cast IntType.u32 hmod

/-! ## The four attributes -/

/-- An attribute with its sentinel: the field is the sentinel after a failed read and the converted
value otherwise. -/
theorem Shows.of_field {read : Option Int64} {meant : ℤ → ℤ} {t : IntType} {sentinel field : ℤ}
    (hfailed : read = none → field = sentinel)
    (hread : ∀ val, read = some val → field = t.cast (meant val.toInt)) :
    Shows read meant t sentinel field (noneIf sentinel field) where
  none_iff := by
    rw [noneIf_eq_none_iff]
    cases read with
    | none => simpa using hfailed rfl
    | some val => simp [hread val rfl]
  some_eq := by
    by_cases h : field = sentinel <;> simp [noneIf, h]
  field_eq := hread
  exact_iff val hval := by rw [hread val hval, t.cast_eq_self_iff]

/-- Every reading of the four attributes comes out as its field allows. -/
theorem decoded_sample (e : CollectorEnv) (p : AttrPaths) (stack : GpuSample) :
    ∃ d, Sample.unpack (collectSample e p stack).bytes = some d ∧
      Shows (readAttr e p.tempPath) id .s32 (-1) d.tempMillideg d.toDict.tempC ∧
      Shows (readAttr e p.fanPath) id .u32 0 d.fanRpm d.toDict.fanRpm ∧
      Shows (readAttr e p.powerPath) id .u64 0 d.powerUw d.toDict.powerW ∧
      Shows (readAttr e p.freqPath) (Int.tdiv · 1000000) .u32 0 d.coreFreqMhz
        d.toDict.coreFreqMhz := by
  refine ⟨_, unpack_bytes _, .of_field ?_ ?_, .of_field ?_ ?_, .of_field ?_ ?_, .of_field ?_ ?_⟩
  · intro h
    simp [Sample.ofRecord, collectSample, h]
  · intro val h
    simp only [Sample.ofRecord, collectSample, h]
    exact toInt_toInt32 val
  · intro h
    simp [Sample.ofRecord, collectSample, h]
  · intro val h
    simp only [Sample.ofRecord, collectSample, h]
    exact toNat_toUInt32 val
  · intro h
    simp [Sample.ofRecord, collectSample, h]
  · intro val h
    simp only [Sample.ofRecord, collectSample, h]
    exact toNat_toUInt64 val
  · intro h
    simp [Sample.ofRecord, collectSample, h]
  · intro val h
    have hdiv : (val / 1000000).toInt = val.toInt.tdiv 1000000 :=
      Int64.toInt_div_of_ne_right val 1000000 (by decide)
    simp only [Sample.ofRecord, collectSample, h]
    rw [toNat_toUInt32, hdiv]

/-- A machine whose fan stands still and whose power supply is charged: `fan1_input` reads `"0\n"`
and `power1_average` reads `"-1\n"`. -/
def stoppedFanEnv : CollectorEnv where
  ktimeGetNs := 0
  kernelRead path :=
    if path = "fan1_input" then .ok [48, 10]
    else if path = "power1_average" then .ok [45, 49, 10]
    else .error .ENOENT
  kstrtos64 text :=
    if text = [48] then .ok 0 else if text = [45, 49] then .ok (-1) else .error .EINVAL
  interrupted := false

/-- Where its attributes are. -/
def stoppedFanPaths : AttrPaths where
  tempPath := ""
  fanPath := "fan1_input"
  powerPath := "power1_average"
  freqPath := ""

/-- A fan that stands still is read without an error and shown as unavailable; a power of -1 is read
without an error and comes out as `2 ^ 64 - 1`. -/
theorem stopped_fan_unavailable :
    (¬ ∀ (e : CollectorEnv) (p : AttrPaths) (stack : GpuSample) (d : Sample),
      Sample.unpack (collectSample e p stack).bytes = some d →
        ShowsFailures (readAttr e p.tempPath) d.toDict.tempC ∧
        ShowsFailures (readAttr e p.fanPath) d.toDict.fanRpm ∧
        ShowsFailures (readAttr e p.powerPath) d.toDict.powerW ∧
        ShowsFailures (readAttr e p.freqPath) d.toDict.coreFreqMhz) ∧
    ¬ ∀ (e : CollectorEnv) (p : AttrPaths) (stack : GpuSample) (d : Sample),
      Sample.unpack (collectSample e p stack).bytes = some d →
        HoldsReading (readAttr e p.tempPath) id d.tempMillideg ∧
        HoldsReading (readAttr e p.fanPath) id d.fanRpm ∧
        HoldsReading (readAttr e p.powerPath) id d.powerUw ∧
        HoldsReading (readAttr e p.freqPath) (Int.tdiv · 1000000) d.coreFreqMhz := by
  constructor
  · intro h
    obtain ⟨-, hfan, -⟩ := h stoppedFanEnv stoppedFanPaths default _ (unpack_bytes _)
    have hread : readAttr stoppedFanEnv stoppedFanPaths.fanPath = some 0 := by decide
    have hnone := hfan.mp (by decide)
    rw [hread] at hnone
    cases hnone
  · intro h
    obtain ⟨-, -, hpower, -⟩ := h stoppedFanEnv stoppedFanPaths default _ (unpack_bytes _)
    have hread : readAttr stoppedFanEnv stoppedFanPaths.powerPath = some (-1) := by decide
    exact absurd (hpower _ hread) (by decide)

end GpuTelem
