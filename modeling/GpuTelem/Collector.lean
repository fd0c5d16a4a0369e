import GpuTelem.Uapi
import Mathlib.Data.List.DropRight

/-!
# The collector

`sysfs_read_s64`, `collect_sample` and the loop of `collector_thread`. What the kernel supplies
(the clock, the attribute files, the integer parser and signals) is given by a `CollectorEnv`.

## Main definitions

* `sysfsReadS64`, `collectSample`: the functions of these names;
* `Collector`: the state of the thread, with its local `struct gpu_sample`.
-/

namespace GpuTelem

/-- What the kernel gives the collector during one step. -/
structure CollectorEnv where
  /-- `ktime_get_ns()`. -/
  ktimeGetNs : UInt64
  /-- The bytes of a file, or the error of `filp_open` or `kernel_read`. -/
  kernelRead : String → Except Errno (List UInt8)
  /-- `kstrtos64` in base 10. -/
  kstrtos64 : List UInt8 → Except Errno Int64
  /-- `msleep_interruptible` returns early with a signal pending. -/
  interrupted : Bool

/-- The resolved sysfs attribute paths of `struct gpu_telem_device`; empty = attribute absent. -/
structure AttrPaths where
  tempPath : String
  fanPath : String
  powerPath : String
  freqPath : String

/-- `sysfs_read_s64`: at most 31 bytes, trailing newlines and blanks removed. -/
def sysfsReadS64 (e : CollectorEnv) (path : String) : Except Errno Int64 :=
  match e.kernelRead path with
  | .error err => .error err
  | .ok bytes =>
      match bytes.take 31 with
      -- an empty file
      | [] => .error Errno.EIO
      | buf =>
          -- the parser sees a C string: up to the first zero byte
          e.kstrtos64 ((buf.rdropWhile fun b => b == 10 || b == 32).takeWhile (· != 0))

/-- The condition of the four attribute assignments: the path is set and the read succeeds. -/
def readAttr (e : CollectorEnv) (path : String) : Option Int64 :=
  if path.isEmpty then none
  else
    match sysfsReadS64 e path with
    | .ok val => some val
    | .error _ => none

/-- `collect_sample`: the fields are assigned one by one. -/
def collectSample (e : CollectorEnv) (p : AttrPaths) (s : GpuSample) : GpuSample :=
  { s with
    timestampNs := e.ktimeGetNs
    -- unavailable via generic hwmon
    gpuUtilPct := 0xffffffff
    memUtilPct := 0xffffffff
    throttleReasons := 0
    tempMillideg :=
      match readAttr e p.tempPath with
      | some val => val.toInt32
      | none => -1
    fanRpm :=
      match readAttr e p.fanPath with
      | some val => val.toUInt64.toUInt32
      | none => 0
    powerUw :=
      match readAttr e p.powerPath with
      | some val => val.toUInt64
      | none => 0
    coreFreqMhz :=
      -- hwmon exposes frequency in Hz
      match readAttr e p.freqPath with
      | some val => (val / 1000000).toUInt64.toUInt32
      | none => 0
    memFreqMhz := 0 }

/-- Where `collector_thread` is. -/
inductive CollectorPc
  /-- Before `kthread_run`. -/
  | absent
  /-- At `kthread_should_stop()`. -/
  | loopTest
  | collect
  | push
  /-- At `wake_up_interruptible`. -/
  | wake
  | msleep
  /-- The thread has returned. -/
  | exited
  deriving DecidableEq

/-- The collector thread. -/
structure Collector where
  pc : CollectorPc
  /-- Its local `struct gpu_sample s`, which starts with whatever the stack holds. -/
  sample : GpuSample
  /-- Set by `kthread_stop`. -/
  shouldStop : Bool

/-- Whether the thread exists and has not returned. -/
def Collector.running (c : Collector) : Bool :=
  match c.pc with
  | .absent => false
  | .exited => false
  | _ => true

end GpuTelem
