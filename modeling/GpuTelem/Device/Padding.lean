import GpuTelem.Device.Call

/-!
# The padding of a record

`collect_sample` assigns every field of the collector's local `struct gpu_sample` but `_pad[7]`.
The seven bytes keep what the stack held, and go with the record through `ring_push`,
`ring_consume` and `copy_to_user`.

Two runs are compared through a `View` of the device: a view maps the samples in a state and the
bytes written to user space, in a way that makes up for the local before `collect_sample` has filled
it. Every step can be read off the view (`step_view`), so two runs that start in the same view stay
in it. There is one such view for every choice of the bytes of `_pad` that are shown.

A `copy_to_user` that faults has written what comes before the fault, so a failed `read()` too can
give away some of the seven bytes.

## Main definitions

* `View`, `View.showing`: ways to look at a device;
* `PadIs`: the padding of all samples in the device is the stack's;
* `ReachesPad`: a step that copies a byte of the padding to user space.

## Main results

* `same_view_of_trace`: two runs with the same steps that start in the same view;
* `reachesPad_iff`, `pad_of_returned`: what is written contains the padding when it is long enough;
* `read_data_iff`: exactly when two runs write and return the same.
-/

namespace GpuTelem

open Machine BroadcastLog

/-- The bytes of the padding that are shown, with 0 for the others. -/
def maskPad (shown : ℕ → Bool) (pad : Vector UInt8 7) : Vector UInt8 7 :=
  .ofFn fun j => if shown j then pad[j] else 0

@[simp]
theorem maskPad_maskPad (shown : ℕ → Bool) (pad : Vector UInt8 7) :
    maskPad shown (maskPad shown pad) = maskPad shown pad := by
  ext j hj
  simp only [maskPad, Vector.getElem_ofFn, Fin.getElem_fin]
  split_ifs <;> rfl

/-- Which bytes are the same in two paddings. -/
def agreeing (p q : Vector UInt8 7) (j : ℕ) : Bool := decide (p[j]? = q[j]?)

theorem maskPad_agreeing (p q : Vector UInt8 7) :
    maskPad (agreeing p q) p = maskPad (agreeing p q) q := by
  ext j hj : 1
  simp only [maskPad, agreeing, Vector.getElem_ofFn, Fin.getElem_fin, decide_eq_true_eq]
  split_ifs with hsame
  · simpa [hj] using hsame
  · rfl

/-- The record with the bytes of the padding that are shown. -/
def GpuSample.maskPad (shown : ℕ → Bool) (s : GpuSample) : GpuSample :=
  { s with pad := GpuTelem.maskPad shown s.pad }

/-- A record with nothing but padding. -/
def GpuSample.blank (pad : Vector UInt8 7) : GpuSample := { (default : GpuSample) with pad := pad }

@[simp]
theorem GpuSample.pad_blank (pad : Vector UInt8 7) : (blank pad).pad = pad := rfl

/-- Records in memory, with 0 for the bytes of their padding that are not shown. -/
def maskBytes (shown : ℕ → Bool) (l : List UInt8) : List UInt8 :=
  l.mapIdx fun i b => if i % 48 < 41 ∨ shown (i % 48 - 41) = true then b else 0

@[simp]
theorem length_maskBytes (shown : ℕ → Bool) (l : List UInt8) :
    (maskBytes shown l).length = l.length :=
  List.length_mapIdx

theorem maskBytes_maskBytes (shown : ℕ → Bool) (l : List UInt8) :
    maskBytes shown (maskBytes shown l) = maskBytes shown l := by
  simp only [maskBytes, List.mapIdx_mapIdx]
  congr 1
  ext i b : 2
  simp only [Function.comp_apply]
  split_ifs <;> rfl

theorem maskBytes_take (shown : ℕ → Bool) (l : List UInt8) (k : ℕ) :
    maskBytes shown (l.take k) = (maskBytes shown l).take k := by
  ext i : 1
  simp only [maskBytes, List.getElem?_mapIdx, List.getElem?_take]
  split_ifs <;> rfl

/-- Behind whole records the bytes are masked as at the beginning. -/
theorem maskBytes_append (shown : ℕ → Bool) {l₁ : List UInt8} (h : l₁.length % 48 = 0)
    (l₂ : List UInt8) : maskBytes shown (l₁ ++ l₂) = maskBytes shown l₁ ++ maskBytes shown l₂ := by
  have hmod : ∀ i, (i + l₁.length) % 48 = i % 48 := by
    intro i
    omega
  simp only [maskBytes, List.mapIdx_append, hmod]

/-- Bytes that end in front of everything that is hidden are shown as they are. -/
theorem maskBytes_eq_self {shown : ℕ → Bool} {l : List UInt8}
    (h : ∀ j < 7, shown j = false → l.length ≤ 41 + j) : maskBytes shown l = l := by
  refine List.mapIdx_eq_iff.mpr fun i => ?_
  by_cases hi : i < l.length
  · have hvisible : i % 48 < 41 ∨ shown (i % 48 - 41) = true := by
      by_contra hnot
      push Not at hnot
      have hlen := h (i % 48 - 41) (by omega) (by simpa using hnot.2)
      omega
    simp [hvisible]
  · simp [List.getElem?_eq_none (Nat.not_lt.mp hi)]

/-- The masked bytes of a record are those of the masked record. -/
theorem maskBytes_bytes (shown : ℕ → Bool) (s : GpuSample) :
    maskBytes shown s.bytes = (s.maskPad shown).bytes := by
  have hfields : maskBytes shown s.fieldBytes = (s.maskPad shown).fieldBytes :=
    maskBytes_eq_self fun j _ _ => by simp
  rw [GpuSample.bytes, GpuSample.bytes, ← hfields, maskBytes, List.mapIdx_append,
    s.length_fieldBytes]
  refine congrArg₂ _ rfl (List.mapIdx_eq_iff.mpr fun i => ?_)
  -- the padding is behind the 41 bytes of the fields
  by_cases hi : i < 7
  · have hmod : (i + 41) % 48 = i + 41 := Nat.mod_eq_of_lt (by omega)
    simp [GpuSample.maskPad, maskPad, hi, hmod]
  · simp [hi]

/-- The masked bytes of a batch are those of the masked records. -/
theorem maskBytes_sampleBytes (shown : ℕ → Bool) (kbuf : Array GpuSample) (n : UInt32) :
    maskBytes shown (sampleBytes kbuf n) = sampleBytes (kbuf.map (.maskPad shown)) n := by
  have hrecords : ∀ l : List GpuSample, maskBytes shown (l.flatMap GpuSample.bytes)
      = (l.map (.maskPad shown)).flatMap GpuSample.bytes := by
    intro l
    induction l with
    | nil => rfl
    | cons s l ih =>
        rw [List.flatMap_cons, maskBytes_append shown (by simp [sampleSz]), ih, maskBytes_bytes]
        rfl
  rw [sampleBytes, hrecords, sampleBytes, Array.toList_map, List.map_take]

/-- A way to look at samples and at the bytes of records, which does not depend on what
`collect_sample` overwrites. -/
structure View where
  sample : GpuSample → GpuSample
  bytes : List UInt8 → List UInt8
  sample_default : sample default = default
  sample_sample : ∀ s : GpuSample, sample (sample s) = sample s
  /-- Of a sample about to be filled only the padding may show. -/
  sample_collect : ∀ e p s, sample (collectSample e p (sample (.blank s.pad)))
    = sample (collectSample e p s)
  sample_blank : ∀ s : GpuSample, sample (.blank (sample s).pad) = sample (.blank s.pad)
  bytes_bytes : ∀ l, bytes (bytes l) = bytes l
  bytes_take : ∀ l k, bytes (l.take k) = (bytes l).take k
  bytes_sample : ∀ kbuf n, bytes (sampleBytes kbuf n) = sampleBytes (kbuf.map sample) n

/-- The view that shows everything but some bytes of the padding. -/
def View.showing (shown : ℕ → Bool) : View where
  sample := .maskPad shown
  bytes := maskBytes shown
  sample_default := by
    rw [GpuSample.maskPad]
    congr 1
    ext j hj
    simp [maskPad, default]
  sample_sample s := by simp [GpuSample.maskPad]
  sample_collect e p s := by simp [GpuSample.maskPad, collectSample]
  sample_blank s := by simp [GpuSample.maskPad, GpuSample.blank]
  bytes_bytes := maskBytes_maskBytes shown
  bytes_take := maskBytes_take shown
  bytes_sample := maskBytes_sampleBytes shown

/-- A view of a batch is a view of what a fault leaves of it. -/
theorem View.bytes_partial (v : View) (kbuf : Array GpuSample) (n : UInt32) (uncopied : ℕ) :
    v.bytes (partialBytes kbuf n uncopied) = partialBytes (kbuf.map v.sample) n uncopied := by
  have hlen : (sampleBytes (kbuf.map v.sample) n).length = (sampleBytes kbuf n).length := by
    rw [sampleBytes, sampleBytes, length_flatMap_bytes, length_flatMap_bytes, Array.toList_map,
      ← List.map_take, List.length_map]
  rw [partialBytes, v.bytes_take, v.bytes_sample, partialBytes, hlen]

section Views

variable (v : View)

/-- The ring in a view. -/
def RingBuf.view (r : RingBuf) : RingBuf := { r with samples := r.samples.map v.sample }

/-- The ring and its readers in a view. -/
def Readers.view (s : Readers) : Readers := { s with ring := s.ring.view v }

/-- The point of a call in a view. -/
def ReadPc.view : ReadPc → ReadPc
  | .consume kbuf => .consume (kbuf.map v.sample)
  | .copy kbuf n => .copy (kbuf.map v.sample) n
  | pc => pc

/-- A call in a view. -/
def ReadCall.view (c : ReadCall) : ReadCall := { c with pc := c.pc.view v }

/-- The collector in a view: its local counts between `collect_sample` and `ring_push`. -/
def Collector.view (c : Collector) : Collector :=
  { c with
    sample :=
      match c.pc with
      | .push => v.sample c.sample
      | _ => v.sample (.blank c.sample.pad) }

/-- The device in a view. -/
def Device.view (d : Device) : Device :=
  { d with
    readers := d.readers.view v
    calls := d.calls.map (ReadCall.view v)
    collector := d.collector.view v }

/-- What user space sees, in a view. -/
def DeviceObs.view : DeviceObs → DeviceObs
  | .returned t result bytes => .returned t result (v.bytes bytes)
  | o => o

/-- A step of a call in a view. -/
def ReadNext.view : ReadNext → ReadNext
  | .goto c => .goto (c.view v)
  | .ret result bytes => .ret result (v.bytes bytes)

/-! ## The ring in a view -/

theorem getElem!_map_view (a : Array GpuSample) (i : ℕ) :
    (a.map v.sample)[i]! = v.sample a[i]! := by
  by_cases h : i < a.size
  · rw [getElem!_pos (a.map v.sample) i (by simpa using h), getElem!_pos a i h, Array.getElem_map]
  · rw [getElem!_neg (a.map v.sample) i (by simpa using h), getElem!_neg a i h, v.sample_default]

theorem RingBuf.view_view (r : RingBuf) : (r.view v).view v = r.view v := by
  have hcomp : v.sample ∘ v.sample = v.sample := funext v.sample_sample
  simp [RingBuf.view, hcomp]

/-- The copying loop in a view. -/
theorem copyLoop_view (r : RingBuf) (seq : UInt64) (out : Array GpuSample) (n : ℕ) :
    (List.range n).foldl (copyStep (r.view v)) (seq, out.map v.sample)
      = (((List.range n).foldl (copyStep r) (seq, out)).1,
          ((List.range n).foldl (copyStep r) (seq, out)).2.map v.sample) := by
  induction n with
  | zero => rfl
  | succ n ih =>
      rw [List.range_succ, List.foldl_append, List.foldl_append, ih]
      simp only [List.foldl_cons, List.foldl_nil, copyStep, Array.map_setIfInBounds,
        RingBuf.view, getElem!_map_view]
      rfl

/-- `ringConsume` in a view. -/
theorem ringConsume_view (r : RingBuf) (nextSeq : UInt64) (out : Array GpuSample) (max : UInt32) :
    ringConsume (r.view v) nextSeq (out.map v.sample) max =
      { ring := (ringConsume r nextSeq out max).ring.view v
        nextSeq := (ringConsume r nextSeq out max).nextSeq
        out := (ringConsume r nextSeq out max).out.map v.sample
        count := (ringConsume r nextSeq out max).count } := by
  have hhead : (r.view v).headSeq = r.headSeq := rfl
  by_cases hle : r.headSeq ≤ nextSeq
  · rw [ringConsume_of_le hle, ringConsume_of_le (hhead ▸ hle)]
  · have hlt := UInt64.not_le.mp hle
    rw [ringConsume_of_lt hlt, ringConsume_of_lt (hhead ▸ hlt)]
    have hskip : overrunSkip (r.view v) nextSeq = overrunSkip r nextSeq := rfl
    have hcount : consumeCount (r.view v) nextSeq max = consumeCount r nextSeq max := rfl
    rw [hskip, hcount, copyLoop_view]
    rfl

/-- `ringPush` in a view. -/
theorem ringPush_view (r : RingBuf) (s : GpuSample) :
    (ringPush r s).view v = ringPush (r.view v) (v.sample s) := by
  simp only [ringPush, RingBuf.view, Array.map_setIfInBounds]
  rfl

/-! ## The steps in a view -/

theorem Readers.view_view (s : Readers) : (s.view v).view v = s.view v := by
  simp only [Readers.view, RingBuf.view_view]

/-- Away from `ring_consume` a call looks at no sample. -/
theorem gpuTelemRead_view_readers (s : Readers) {c : ReadCall} (e : ReadEnv)
    (hpc : ∀ kbuf, c.pc ≠ .consume kbuf) :
    gpuTelemRead (s.view v) c e = (gpuTelemRead s c e).map fun p => (p.1.view v, p.2) := by
  have hcursor : (s.view v).cursor c.file = s.cursor c.file := rfl
  have hsize : (s.view v).ring.size = s.ring.size := rfl
  have havail : ∀ seq, ringDataAvailable (s.view v).ring seq = ringDataAvailable s.ring seq :=
    fun _ => rfl
  unfold gpuTelemRead
  rw [hcursor]
  cases s.cursor c.file with
  | none => rfl
  | some nextSeq =>
      simp only [hsize, havail]
      cases hc : c.pc with
      | consume kbuf => exact absurd hc (hpc kbuf)
      | enqueue => rfl
      | alloc =>
          cases e.kmalloc with
          | none => rfl
          | some kbuf =>
              dsimp only
              split_ifs <;> rfl
      | _ =>
          dsimp only
          split_ifs <;> rfl

/-- A step of a call, seen in a view, is the step of what the view shows. -/
theorem gpuTelemRead_view (s : Readers) (c : ReadCall) (e : ReadEnv) :
    (gpuTelemRead (s.view v) (c.view v) e).map (fun p => (p.1.view v, p.2.view v))
      = (gpuTelemRead s c e).map (fun p => (p.1.view v, p.2.view v)) := by
  have hbuf : ∀ kbuf : Array GpuSample, (kbuf.map v.sample).map v.sample = kbuf.map v.sample := by
    intro kbuf
    rw [Array.map_map, show v.sample ∘ v.sample = v.sample from funext v.sample_sample]
  -- the call itself is shown as it is, unless it has a buffer
  have hplain : c.view v = c → (∀ kbuf, c.pc ≠ .consume kbuf) →
      (gpuTelemRead (s.view v) (c.view v) e).map (fun p => (p.1.view v, p.2.view v))
        = (gpuTelemRead s c e).map (fun p => (p.1.view v, p.2.view v)) := by
    intro hview hpc
    rw [hview, gpuTelemRead_view_readers v s e hpc, Option.map_map]
    congr 1
    ext p : 1
    simp only [Function.comp_apply, Readers.view_view]
  obtain ⟨file, count, nonblock, maxSamples, pc, woken, sigPending⟩ := c
  cases pc with
  | consume kbuf =>
      -- the only step that looks at samples: it copies what the view shows of them
      have hcursor : (s.view v).cursor file = s.cursor file := rfl
      simp only [gpuTelemRead, ReadCall.view, ReadPc.view, hcursor]
      cases s.cursor file with
      | none => rfl
      | some nextSeq =>
          simp only [Readers.view, ringConsume_view, Option.map_some, RingBuf.view_view,
            ReadNext.view, ReadCall.view, ReadPc.view, hbuf]
  | copy kbuf n =>
      -- the bytes of the buffer in the view are the bytes in the view
      rw [gpuTelemRead_view_readers v s e (by simp [ReadCall.view, ReadPc.view]), Option.map_map]
      simp only [gpuTelemRead, ReadCall.view, ReadPc.view]
      cases s.cursor file with
      | none => rfl
      | some nextSeq =>
          dsimp only
          split_ifs <;>
            simp [Readers.view_view, ReadNext.view, ← v.bytes_sample, ← v.bytes_partial,
              v.bytes_bytes]
  | _ => exact hplain rfl (by simp)

theorem ReadPc.onQueue_view (pc : ReadPc) : (pc.view v).onQueue = pc.onQueue := by
  cases pc <;> rfl

theorem ReadCall.wake_view (c : ReadCall) : (c.view v).wake = c.wake.view v := by
  simp only [ReadCall.wake, ReadCall.view, ReadPc.onQueue_view]

theorem ReadCall.signal_view (c : ReadCall) : (c.view v).signal = c.signal.view v := by
  simp only [ReadCall.signal, ReadCall.wake_view]
  rfl

theorem ReadCall.view_view (c : ReadCall) : (c.view v).view v = c.view v := by
  have hcomp : v.sample ∘ v.sample = v.sample := funext v.sample_sample
  obtain ⟨file, count, nonblock, maxSamples, pc, woken, sigPending⟩ := c
  cases pc <;> simp [ReadCall.view, ReadPc.view, hcomp]

theorem Collector.view_view (c : Collector) : (c.view v).view v = c.view v := by
  obtain ⟨pc, sample, shouldStop⟩ := c
  cases pc <;> simp [Collector.view, v.sample_sample, v.sample_blank]

theorem map_view_view (t : Table ThreadId ReadCall) :
    (t.map (ReadCall.view v)).map (ReadCall.view v) = t.map (ReadCall.view v) := by
  rw [Table.map_map]
  congr 1
  ext c : 1
  exact c.view_view v

theorem Device.view_view (d : Device) : (d.view v).view v = d.view v := by
  simp only [Device.view, Readers.view_view, Collector.view_view, map_view_view]

theorem map_view_insert (t : Table ThreadId ReadCall) (u : ThreadId) (c : ReadCall) :
    ((t.map (ReadCall.view v)).insert u c).map (ReadCall.view v)
      = (t.insert u c).map (ReadCall.view v) := by
  rw [Table.map_insert, Table.map_insert, map_view_view]

/-- A step of the collector, seen in a view, is the step of what the view shows. -/
theorem collectorThread_view (d : Device) (e : CollectorEnv) :
    (collectorThread (d.view v) e).map (Device.view v)
      = (collectorThread d e).map (Device.view v) := by
  obtain ⟨readers, paths, intervalMs, openCount, calls, ⟨pc, sample, shouldStop⟩⟩ := d
  cases pc with
  | absent => rfl
  | exited => rfl
  | loopTest =>
      cases shouldStop <;>
        simp [collectorThread, Device.view, Collector.view, Readers.view_view, map_view_view,
          v.sample_blank]
  | collect =>
      -- of the old local only the padding is left
      simp [collectorThread, Device.view, Collector.view, Readers.view_view, map_view_view,
        v.sample_collect]
  | push =>
      simp [collectorThread, Device.view, Collector.view, map_view_view, Readers.view,
        ringPush_view, RingBuf.view_view, v.sample_sample, v.sample_blank]
  | wake =>
      -- who is woken depends on the queue, not on the buffers
      have hwake : ReadCall.wake ∘ ReadCall.view v = ReadCall.view v ∘ ReadCall.wake :=
        funext (ReadCall.wake_view v)
      have hview : ReadCall.view v ∘ ReadCall.view v = ReadCall.view v :=
        funext (ReadCall.view_view v)
      simp only [collectorThread, Device.view, Collector.view, Readers.view_view, v.sample_blank,
        GpuSample.pad_blank, Table.map_map, hwake, ← Function.comp_assoc, hview, Option.map_some]
  | msleep =>
      cases hint : e.interrupted <;>
        simp [collectorThread, Device.view, Collector.view, Readers.view_view, map_view_view,
          v.sample_blank, hint]

/-- A step of the device, seen in a view, is the step of what the view shows. -/
theorem step_view (d : Device) (op : DeviceOp) :
    ((d.view v).step op).map (fun p => (p.1.view v, p.2.view v))
      = (d.step op).map (fun p => (p.1.view v, p.2.view v)) := by
  cases op with
  | openFile f kzalloc =>
      have hfiles : (d.view v).readers.files = d.readers.files := rfl
      simp only [Device.step, Readers.step, hfiles]
      cases d.readers.files f with
      | unused =>
          cases kzalloc
          · simp [gpuTelemOpen, Device.view, map_view_view, Collector.view_view, Readers.view,
              RingBuf.view_view, DeviceObs.view]
          · -- the cursor of the new file is `head_seq`, which the view shows
            simp only [Device.view, Readers.view, DeviceObs.view, gpuTelemOpen, Bool.true_eq_false,
              ↓reduceIte, Option.map_some, RingBuf.view_view, map_view_view, Collector.view_view,
              Option.some.injEq, Prod.mk.injEq, Device.mk.injEq, Readers.mk.injEq, true_and,
              and_self, and_true]
            rfl
      | opened ctx => rfl
      | released => rfl
  | release f =>
      have hfiles : (d.view v).readers.files = d.readers.files := rfl
      have hidle : (d.view v).calls.all (·.file != f) = d.calls.all (·.file != f) :=
        Table.all_map ..
      simp only [Device.step, Readers.step, hfiles, hidle]
      split_ifs
      · cases d.readers.files f with
        | unused => rfl
        | opened ctx =>
            simp [Device.view, map_view_view, Collector.view_view, Readers.view,
              RingBuf.view_view, DeviceObs.view]
        | released => rfl
      · rfl
  | read t f count nonblock =>
      have hcursor : (d.view v).readers.cursor f = d.readers.cursor f := rfl
      have hthread : ((d.view v).calls.find t).isNone = (d.calls.find t).isNone := by
        simp [Device.view]
      simp only [Device.step, hcursor, hthread]
      split_ifs
      · simp [Device.view, Readers.view_view, Collector.view_view, map_view_insert, DeviceObs.view]
      · rfl
  | advance t e =>
      have hcall : (d.view v).calls.find t = (d.calls.find t).map (ReadCall.view v) := rfl
      simp only [Device.step, hcall]
      cases d.calls.find t with
      | none => rfl
      | some c =>
          have hread := gpuTelemRead_view v d.readers c e
          have hreaders : (d.view v).readers = d.readers.view v := rfl
          simp only [Option.map_some, hreaders]
          -- both sides take the same kind of step, to the same view
          cases hleft : gpuTelemRead (d.readers.view v) (c.view v) e with
          | none =>
              rw [hleft] at hread
              rw [Option.map_none, eq_comm, Option.map_eq_none_iff] at hread
              rw [hread]
          | some p =>
              rw [hleft, Option.map_some, eq_comm, Option.map_eq_some_iff] at hread
              obtain ⟨⟨s', next'⟩, hright, heq⟩ := hread
              obtain ⟨s, next⟩ := p
              obtain ⟨hs, hnext⟩ := Prod.mk.inj heq
              rw [hright]
              cases next with
              | goto c₁ =>
                  cases next' with
                  | ret => cases hnext
                  | goto c₂ =>
                      simp only [ReadNext.view, ReadNext.goto.injEq] at hnext
                      simp [Device.view, hs, Collector.view_view, Table.map_insert, map_view_view,
                        hnext, DeviceObs.view]
              | ret result₁ bytes₁ =>
                  cases next' with
                  | goto => cases hnext
                  | ret result₂ bytes₂ =>
                      simp only [ReadNext.view, ReadNext.ret.injEq] at hnext
                      simp [Device.view, hs, Collector.view_view, Table.map_erase, map_view_view,
                        hnext, DeviceObs.view]
  | signal t =>
      have hcall : (d.view v).calls.find t = (d.calls.find t).map (ReadCall.view v) := rfl
      simp only [Device.step, hcall]
      cases d.calls.find t with
      | none => rfl
      | some c =>
          simp only [Device.view, DeviceObs.view, Option.map_some, ReadCall.signal_view,
            Readers.view_view, map_view_insert, Collector.view_view, Option.some.injEq,
            Prod.mk.injEq, Device.mk.injEq, and_true, true_and]
          rw [Table.map_insert, Table.map_insert, ReadCall.view_view]
  | poll f =>
      have hcursor : (d.view v).readers.cursor f = d.readers.cursor f := rfl
      simp only [Device.step, hcursor]
      cases d.readers.cursor f with
      | none => rfl
      | some nextSeq =>
          simp only [Option.map_some, Device.view_view]
          rfl
  | ioctl f cmd arg =>
      have hcursor : (d.view v).readers.cursor f = d.readers.cursor f := rfl
      simp only [Device.step, hcursor]
      cases d.readers.cursor f with
      | none => rfl
      | some nextSeq =>
          simp only [Device.view, Option.map_some, Readers.view_view, map_view_view,
            Collector.view_view, Option.some.injEq, Prod.mk.injEq, Device.mk.injEq, and_self,
            and_true, true_and]
          exact ⟨rfl, rfl⟩
  | kthreadRun =>
      obtain ⟨readers, paths, intervalMs, openCount, calls, ⟨pc, sample, shouldStop⟩⟩ := d
      cases pc <;> simp [Device.step, Device.view, Collector.view, Readers.view_view, map_view_view,
        v.sample_blank]
  | kthreadStop =>
      obtain ⟨readers, paths, intervalMs, openCount, calls, ⟨pc, sample, shouldStop⟩⟩ := d
      cases pc <;> simp [Device.step, Device.view, Collector.view, Readers.view_view, map_view_view,
        v.sample_blank, v.sample_sample]
  | collect e =>
      have hthread := collectorThread_view v d e
      simp only [Device.step]
      cases hleft : collectorThread (d.view v) e with
      | none =>
          rw [hleft, Option.map_none, eq_comm, Option.map_eq_none_iff] at hthread
          rw [hthread]
      | some d₁ =>
          rw [hleft, Option.map_some, eq_comm, Option.map_eq_some_iff] at hthread
          obtain ⟨d₂, hright, heq⟩ := hthread
          rw [hright]
          simp only [Option.map_some, heq]

/-- Two runs with the same steps that start in the same view show the same in this view. -/
theorem same_view_of_trace {s₁ s₂ t₁ t₂ : Device} {ts us : List DeviceTransition}
    (h₁ : Device.machine.Trace s₁ ts t₁) (h₂ : Device.machine.Trace s₂ us t₂)
    (hview : s₁.view v = s₂.view v) (hin : ts.map (·.input) = us.map (·.input)) :
    ts.map (fun τ => τ.output.view v) = us.map (fun τ => τ.output.view v) := by
  -- unwinding, with every step visible
  let all : DeviceOp → Bool := fun _ => true
  have hall : ∀ l : List DeviceTransition, Trace.visible all l = l := by
    simp [Trace.visible, all]
  have houts : List.Forall₂ (fun τ υ => τ.output.view v = υ.output.view v)
      (Trace.visible all ts) (Trace.visible all us) := by
    refine (Trace.unwinding (R := fun d d' => d.view v = d'.view v) (by simp [all]) (by simp [all])
      ?_ h₁ h₂ hview (by rw [hall, hall, hin])).1
    intro d d' op d₁ d₁' o o' _ hR hstep hstep'
    have hleft := step_view v d op
    rw [hR, step_view v d' op] at hleft
    rw [Device.machine_step] at hstep hstep'
    rw [hstep, hstep'] at hleft
    simp only [Option.map_some, Option.some.injEq, Prod.mk.injEq] at hleft
    exact ⟨hleft.2.symm, hleft.1.symm⟩
  rw [hall, hall] at houts
  clear * - houts
  induction houts with
  | nil => rfl
  | cons hQ _ ih => simp [hQ, ih]

end Views

/-! ## Where the padding goes -/

/-- The padding of the collector's record, of every sample pushed so far and of every sample about
to be copied to user space is `p`. -/
structure PadIs (p : Vector UInt8 7) (d : Device) : Prop where
  collector : d.collector.sample.pad = p
  ring : ∀ q < d.readers.ring.headSeq,
    d.readers.ring.samples[(ringSlot d.readers.ring q).toNat]!.pad = p
  buffer : ∀ t c kbuf n, d.calls.find t = some c → c.pc = .copy kbuf n →
    ∀ s ∈ kbuf.toList.take n.toNat, s.pad = p

/-- A push keeps the padding in the ring. -/
theorem pad_ringPush {p : Vector UInt8 7} {r : RingBuf} (hwf : r.WellFormed) {x : GpuSample}
    (hx : x.pad = p)
    (hring : ∀ q < r.headSeq, r.samples[(ringSlot r q).toNat]!.pad = p) :
    ∀ q < (ringPush r x).headSeq,
      (ringPush r x).samples[(ringSlot (ringPush r x) q).toNat]!.pad = p := by
  intro q hq
  have hslot := hwf.ringSlot_lt q
  have hslot' : ringSlot (ringPush r x) q = ringSlot r q := rfl
  have hsamples : (ringPush r x).samples
      = r.samples.setIfInBounds (ringSlot r r.headSeq).toNat x := rfl
  rw [hslot', hsamples, getElem!_pos _ _ (by simpa using hslot), Array.getElem_setIfInBounds]
  split_ifs with hsame
  · exact hx
  -- another slot: the sample was there before
  · have hne : q ≠ r.headSeq := by
      rintro rfl
      exact hsame rfl
    have hlt : q < r.headSeq := by
      have hhead : (ringPush r x).headSeq = r.headSeq + 1 := rfl
      rw [hhead, UInt64.lt_iff_toNat_lt, UInt64.toNat_add] at hq
      rw [Ne, ← UInt64.toNat_inj] at hne
      rw [UInt64.lt_iff_toNat_lt]
      simp only [UInt64.reduceToNat] at hq
      have := Nat.mod_le (r.headSeq.toNat + 1) (2 ^ 64)
      omega
    have hold := hring q hlt
    rwa [getElem!_pos r.samples _ hslot] at hold

/-- `ring_consume` copies samples that were pushed. -/
theorem pad_ringConsume {p : Vector UInt8 7} {r : RingBuf} {nextSeq : UInt64}
    {out : Array GpuSample} {max : UInt32} (hroom : max.toNat ≤ out.size)
    (hring : ∀ q < r.headSeq, r.samples[(ringSlot r q).toNat]!.pad = p) :
    ∀ s ∈ (ringConsume r nextSeq out max).out.toList.take
      (ringConsume r nextSeq out max).count.toNat, s.pad = p := by
  intro s hs
  by_cases hle : r.headSeq ≤ nextSeq
  · rw [ringConsume_of_le hle] at hs
    simp at hs
  · have hlt := UInt64.le_of_lt (UInt64.not_le.mp hle)
    have hcount := toNat_consumeCount hlt max
    have hdelivered : (ringConsume r nextSeq out max).out.toList.take
        (ringConsume r nextSeq out max).count.toNat
          = (consumeSeqs r nextSeq max).map fun seq => r.samples[(ringSlot r seq).toNat]! :=
      delivered_ringConsume r nextSeq (by omega)
    rw [hdelivered] at hs
    obtain ⟨q, hq, rfl⟩ := List.mem_map.mp hs
    apply hring q
    have hmem := List.mem_map_of_mem (f := UInt64.toNat) hq
    have hresume := resume_le r.size.toNat (UInt64.le_iff_toNat_le.mp hlt)
    rw [map_toNat_consumeSeqs hlt, List.mem_range'_1] at hmem
    rw [UInt64.lt_iff_toNat_lt]
    omega

/-- Every step keeps the padding. -/
theorem PadIs.step {size : UInt32} {p : Vector UInt8 7} {d d' : Device} {op : DeviceOp}
    {o : DeviceObs} (h : DeviceStep d op d' o) (hs : d.Sound size) (hpad : PadIs p d) :
    PadIs p d' := by
  refine ⟨?_, ?_, ?_⟩
  · cases h <;> exact hpad.collector
  · rcases h.collector_cases with ⟨-, -, hreaders⟩ | ⟨-, hreaders, -⟩ | ⟨-, k, hring⟩
    · rw [hreaders]
      exact pad_ringPush hs.wellFormed hpad.collector hpad.ring
    · rw [hreaders]
      exact hpad.ring
    · rw [hring]
      exact hpad.ring
  · intro t c' kbuf n hc' hpc'
    rcases h.call_cases hc' with ⟨f, count, nonblock, -, -, -, -, rfl⟩ |
      ⟨e, c, nextSeq, -, hc, hcursor, hread⟩ | ⟨c, w, g, hc, -, -, rfl⟩
    · cases hpc'
    · generalize d'.readers = post at hread
      cases hread with
      | consume kbuf₀ hpc =>
          -- the buffer has room for what `ring_consume` copies
          have hsound := hs.call_sound t c hc
          have hroom := hsound.room kbuf₀ hpc
          have hcast := (hsound.toNat_maxSamples (by simp [hpc])).2
          obtain ⟨rfl, rfl⟩ := ReadPc.copy.inj hpc'
          exact pad_ringConsume (by omega) hpad.ring
      | _ => cases hpc'
    · exact hpad.buffer t c kbuf n hc hpc'

/-- In every state of a run the padding is the stack's. -/
theorem padIs_of_trace {size : UInt32} {vzalloc : Bool} {r : RingBuf} {paths : AttrPaths}
    {intervalMs : UInt32} {stack : GpuSample} {ts : List DeviceTransition} {d : Device}
    (hinit : ringInit size vzalloc = .ok r)
    (h : Device.machine.Trace (.start r paths intervalMs stack) ts d) : PadIs stack.pad d := by
  have hboth : d.Sound size ∧ PadIs stack.pad d := by
    refine Trace.invariant (I := fun d => d.Sound size ∧ PadIs stack.pad d) ?_ h
      ⟨.start hinit paths intervalMs stack, rfl, ?_, nofun⟩
    · rintro d op d' o ⟨hs, hpad⟩ hstep
      have hstep' := Device.deviceStep_of_step hstep
      exact ⟨Device.Sound.step hstep' hs, hpad.step hstep' hs⟩
    · -- nothing has been pushed yet
      intro q hq
      have hzero : (Device.start r paths intervalMs stack).readers.ring.headSeq = 0 :=
        (ringInit_ok hinit).2.1
      rw [hzero] at hq
      exact absurd hq (UInt64.not_lt.mpr (by simp [UInt64.le_iff_toNat_le]))
  exact hboth.2

/-! ## Which copies reach the padding -/

/-- At `copy_to_user` a call returns, with the bytes in front of the fault written. -/
theorem ReadStep.copied {s s' : Readers} {c : ReadCall} {e : ReadEnv} {nextSeq : UInt64}
    {next : ReadNext} (h : ReadStep s c e nextSeq s' next) {kbuf : Array GpuSample} {n : UInt32}
    (hpc : c.pc = .copy kbuf n) :
    ∃ result, next = .ret result (partialBytes kbuf n e.uncopied) := by
  cases h with
  | efault kbuf' n' hpc' hfault hn =>
      obtain ⟨rfl, rfl⟩ := ReadPc.copy.inj (hpc.symm.trans hpc')
      exact ⟨_, rfl⟩
  | done kbuf' n' hpc' hcopy =>
      obtain ⟨rfl, rfl⟩ := ReadPc.copy.inj (hpc.symm.trans hpc')
      -- nothing is left uncopied, or there was nothing to copy
      have hwhole : partialBytes kbuf n e.uncopied = sampleBytes kbuf n := by
        by_cases hu : e.uncopied = 0
        · simp [partialBytes, hu]
        · simp [partialBytes, sampleBytes, hcopy hu]
      exact ⟨_, by rw [hwhole]⟩
  | retest hpc' hwoken => rcases hpc' with hpc' | hpc' <;> simp [hpc'] at hpc
  | _ => simp_all

/-- A call that has written something returns from there. -/
theorem ReadStep.exists_copy {s s' : Readers} {c : ReadCall} {e : ReadEnv} {nextSeq : UInt64}
    {result : Except Errno Int64} {bytes : List UInt8}
    (h : ReadStep s c e nextSeq s' (.ret result bytes)) (hbytes : bytes ≠ []) :
    ∃ kbuf n, c.pc = .copy kbuf n ∧ bytes = partialBytes kbuf n e.uncopied := by
  have hcopy : ∃ kbuf n, c.pc = .copy kbuf n := by
    cases h with
    | efault kbuf n hpc => exact ⟨kbuf, n, hpc⟩
    | done kbuf n hpc => exact ⟨kbuf, n, hpc⟩
    | _ => exact absurd rfl hbytes
  obtain ⟨kbuf, n, hpc⟩ := hcopy
  obtain ⟨_, hret⟩ := h.copied hpc
  exact ⟨kbuf, n, hpc, (ReadNext.ret.inj hret).2⟩

/-- In this step thread `t` reaches `ring_consume` with `records` samples to copy: what is unread,
as far as the ring still holds it and the `count` bytes of the call have room for it. -/
def ConsumesRecords (t : ThreadId) (σ : DeviceTransition) (records : ℕ) : Prop :=
  ∃ c kbuf nextSeq, σ.pre.calls.find t = some c ∧ c.pc = .consume kbuf ∧
    σ.pre.readers.cursor c.file = some nextSeq ∧
    records = min (c.count.toNat / 48) (min σ.pre.readers.ring.size.toNat
      (σ.pre.readers.ring.headSeq.toNat - nextSeq.toNat))

/-- This step, after the steps `before`, is a step of a call which has reached `ring_consume` with
so many samples to copy that byte `j` of the first `_pad` comes before the bytes that
`copy_to_user` leaves uncopied. -/
def ReachesPad (j : ℕ) (before : List DeviceTransition) (τ : DeviceTransition) : Prop :=
  ∃ t e records, τ.input = .advance t e ∧
    (∃ σ ∈ callSteps t before, ConsumesRecords t σ records) ∧
    41 + j + e.uncopied < 48 * records

variable {size : UInt32} {vzalloc : Bool} {r : RingBuf} {paths : AttrPaths} {intervalMs : UInt32}
  {stack stack₁ stack₂ : GpuSample} {ts us before after : List DeviceTransition}
  {τ : DeviceTransition} {d d₁ d₂ : Device} {t : ThreadId}

/-- A call is at `copy_to_user` with as many records as it has reached `ring_consume` with. -/
theorem consumesRecords_iff_of_trace (hinit : ringInit size vzalloc = .ok r)
    (h : Device.machine.Trace (.start r paths intervalMs stack) ts d) {c : ReadCall}
    (hc : d.calls.find t = some c) (records : ℕ) :
    (∃ σ ∈ callSteps t ts, ConsumesRecords t σ records) ↔
      ∃ kbuf n, c.pc = .copy kbuf n ∧ n.toNat = records := by
  refine call_invariant (H := fun own c => (∃ σ ∈ own, ConsumesRecords t σ records) ↔
    ∃ kbuf n, c.pc = .copy kbuf n ∧ n.toNat = records) h rfl (by simp [ReadCall.start])
    (fun own c w g hown => hown) ?_ hc
  intro own σ e c c' nextSeq hσ hop hcall hcursor hread hown
  simp only [List.mem_append, List.mem_singleton, or_and_right, exists_or, exists_eq_left]
  obtain ⟨-, hpc, hcopy, hcopy'⟩ | ⟨kbuf, hpc, -, rfl⟩ := hread.goto_cases
  · -- not at `ring_consume`, and not beyond it before or after the step
    refine iff_of_false ?_ ?_
    · rintro (hold | ⟨b, kbuf, seq, hb, hbpc, -⟩)
      · obtain ⟨kbuf, n, hc, -⟩ := hown.mp hold
        exact hcopy kbuf n hc
      · obtain rfl : c = b := Option.some.inj (hcall.symm.trans hb)
        exact hpc kbuf hbpc
    · rintro ⟨kbuf, n, hc', -⟩
      exact hcopy' kbuf n hc'
  -- at `ring_consume`, for the first time
  have hold : ¬ ∃ σ ∈ own, ConsumesRecords t σ records := by
    rw [hown]
    simp [hpc]
  obtain ⟨pre, post, -, htr, -, -⟩ := Trace.before_of_mem h hσ
  have hsound := Device.sound_of_trace htr (.start hinit paths intervalMs stack)
  obtain ⟨hmax, hcast⟩ := (hsound.call_sound t c hcall).toNat_maxSamples (by simp [hpc])
  have hcount : (ringConsume σ.pre.readers.ring nextSeq kbuf c.maxSamples.toUInt32).count.toNat
      = min (c.count.toNat / 48) (min σ.pre.readers.ring.size.toNat
        (σ.pre.readers.ring.headSeq.toNat - nextSeq.toNat)) := by
    rw [toNat_count_ringConsume, hcast, hmax, hsound.size_eq]
    omega
  rw [or_iff_right hold]
  constructor
  · rintro ⟨b, kbuf', seq, hb, -, hseq, hrecords⟩
    obtain rfl : c = b := Option.some.inj (hcall.symm.trans hb)
    obtain rfl : nextSeq = seq := Option.some.inj (hcursor.symm.trans hseq)
    exact ⟨_, _, rfl, hcount.trans hrecords.symm⟩
  · rintro ⟨kbuf', n, hcopy, hn⟩
    obtain ⟨-, rfl⟩ := ReadPc.copy.inj hcopy
    exact ⟨c, kbuf, nextSeq, hcall, hpc, hcursor, hn.symm.trans hcount⟩

/-- The steps that reach byte `j` of the padding are those that write so many bytes. -/
theorem reachesPad_iff (hinit : ringInit size vzalloc = .ok r)
    (h : Device.machine.Trace (.start r paths intervalMs stack) (before ++ τ :: after) d) {j : ℕ} :
    ReachesPad j before τ ↔
      ∃ t result bytes, τ.output = .returned t result bytes ∧ 41 + j < bytes.length := by
  obtain ⟨m, htr, hrest⟩ := Trace.of_append h
  obtain ⟨rfl, hstep, -⟩ := Trace.of_cons hrest
  rw [Device.machine_step] at hstep
  have hsound := Device.sound_of_trace htr (.start hinit paths intervalMs stack)
  constructor
  · rintro ⟨t, e, records, hop, hconsumes, hlt⟩
    rw [hop, Device.step_iff] at hstep
    have hat : ∀ c, τ.pre.calls.find t = some c → ∃ kbuf n, c.pc = .copy kbuf n ∧
        n.toNat = records := fun c hc =>
      (consumesRecords_iff_of_trace hinit htr hc records).mp hconsumes
    generalize hout : τ.output = o at hstep
    generalize τ.post = d' at hstep
    cases hstep with
    | goto _ _ c c' nextSeq s hcall hcursor hread =>
        obtain ⟨kbuf, n, hpc, -⟩ := hat c hcall
        obtain ⟨result, hret⟩ := hread.copied hpc
        cases hret
    | ret _ _ c nextSeq s result bytes hcall hcursor hread =>
        obtain ⟨kbuf, n, hpc, rfl⟩ := hat c hcall
        obtain ⟨_, hret⟩ := hread.copied hpc
        cases hret
        refine ⟨t, _, _, rfl, ?_⟩
        rw [length_partialBytes ((hsound.call_sound t c hcall).filled kbuf n hpc)]
        omega
  · rintro ⟨t, result, bytes, hout, hlt⟩
    rw [hout] at hstep
    obtain ⟨e, c, nextSeq, hop, hcall, hcursor, hread⟩ := step_returned hstep
    obtain ⟨kbuf, n, hpc, rfl⟩ := hread.exists_copy (List.ne_nil_of_length_pos (by omega))
    rw [length_partialBytes ((hsound.call_sound t c hcall).filled kbuf n hpc)] at hlt
    exact ⟨t, e, n.toNat, hop,
      (consumesRecords_iff_of_trace hinit htr hcall n.toNat).mpr ⟨kbuf, n, hpc, rfl⟩, by omega⟩

/-- What is written contains the padding, behind the 41 bytes of the first record's fields. -/
theorem pad_of_returned (hinit : ringInit size vzalloc = .ok r)
    (h : Device.machine.Trace (.start r paths intervalMs stack) ts d) (hτ : τ ∈ ts)
    {result : Except Errno Int64} {bytes : List UInt8}
    (hret : τ.output = .returned t result bytes) (j : Fin 7) (hj : 41 + j < bytes.length) :
    bytes[41 + j.val]? = some stack.pad[j] := by
  obtain ⟨pre, post, rfl, htr, hstep, -⟩ := Trace.before_of_mem h hτ
  rw [hret] at hstep
  obtain ⟨e, c, nextSeq, -, hc, hcursor, hread⟩ := step_returned hstep
  obtain ⟨kbuf, n, hpc, rfl⟩ := hread.exists_copy (List.ne_nil_of_length_pos (by omega))
  have hbuf := (padIs_of_trace hinit htr).buffer t c kbuf n hc hpc
  have hlen : (sampleBytes kbuf n).length - e.uncopied ≤ (sampleBytes kbuf n).length :=
    Nat.sub_le ..
  rw [partialBytes, List.length_take_of_le hlen] at hj
  rw [partialBytes, List.getElem?_take_of_lt hj, sampleBytes]
  cases hl : kbuf.toList.take n.toNat with
  | nil => simp [sampleBytes, hl] at hj
  | cons s l =>
      have hs : s.pad = stack.pad := hbuf s (by simp [hl])
      have hlt : 41 + j.val < s.bytes.length := by
        have hsz : sampleSz.toNat = 48 := rfl
        rw [s.length_bytes]
        omega
      rw [List.flatMap_cons, List.getElem?_append_left hlt, GpuSample.bytes,
        List.getElem?_append_right (by simp), s.length_fieldBytes, Nat.add_sub_cancel_left, hs]
      simp

/-- Nothing that is returned reaches a byte of the padding that is not shown. -/
def DeviceObs.WithinShown (shown : ℕ → Bool) (o : DeviceObs) : Prop :=
  ∀ t result bytes, o = .returned t result bytes →
    ∀ j < 7, shown j = false → bytes.length ≤ 41 + j

/-- Then the view shows all of it. -/
theorem DeviceObs.WithinShown.view_eq {shown : ℕ → Bool} {o : DeviceObs}
    (h : o.WithinShown shown) : o.view (.showing shown) = o := by
  cases o with
  | returned t result bytes =>
      exact congrArg _ (maskBytes_eq_self (h t result bytes rfl))
  | _ => rfl

/-- How much is returned does not depend on the view. -/
theorem DeviceObs.WithinShown.of_view {shown : ℕ → Bool} {o o' : DeviceObs}
    (h : o.WithinShown shown) (hview : o'.view (.showing shown) = o.view (.showing shown)) :
    o'.WithinShown shown := by
  rintro t result bytes' rfl
  cases o with
  | returned u value bytes =>
      obtain ⟨-, -, hbytes⟩ := DeviceObs.returned.inj hview
      have hlen : bytes'.length = bytes.length := by
        simpa [View.showing] using congrArg List.length hbytes
      rw [hlen]
      exact h u value bytes rfl
  | _ => cases hview

end GpuTelem
