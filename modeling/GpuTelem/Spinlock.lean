import GpuTelem.Foundations.Linearizability
import GpuTelem.Foundations.Table
import GpuTelem.Readers

/-!
# The ring under its spinlock

`Readers` takes the functions of `kernel/ringbuf.c` as atomic. Here they run access by access: any
number of calls are in flight, and between two accesses of one call every other call may make its
own. `spin_lock_irqsave` waits until the lock is free; a `struct gpu_sample` is copied in six words
of 8 bytes; `ring_data_available` and `gpu_telem_open` read `head_seq` without the lock. Memory is
sequentially consistent.

The VFS keeps a file open while a call on it is in flight, and calls `open` and `release` once for
each file. Nothing else is assumed about the callers: there may be several producers, and several
calls on one file.

## Main definitions

* `GpuSample.copyWord`: one word of a struct assignment;
* `RingCall`, `Readers.call`: the calls, and their effect when they are atomic;
* `RingPc`, `ringStep`: the points of the functions, and one access;
* `SpinRing.machine`: the ring with its calls in flight.
-/

namespace GpuTelem

open Linearizability Machine

/-! ## Copying a record -/

namespace GpuSample

/-- One 8-byte word of the assignment `*dst = *src`. -/
def copyWord (src : GpuSample) (w : ℕ) (dst : GpuSample) : GpuSample :=
  match w with
  | 0 => { dst with timestampNs := src.timestampNs }
  | 1 => { dst with tempMillideg := src.tempMillideg, fanRpm := src.fanRpm }
  | 2 => { dst with powerUw := src.powerUw }
  | 3 => { dst with coreFreqMhz := src.coreFreqMhz, memFreqMhz := src.memFreqMhz }
  | 4 => { dst with gpuUtilPct := src.gpuUtilPct, memUtilPct := src.memUtilPct }
  | 5 => { dst with throttleReasons := src.throttleReasons, pad := src.pad }
  | _ => dst

/-- The number of words of a record. -/
def words : ℕ := 6

/-- The first `n` words of the assignment. -/
def copyWords (src : GpuSample) (n : ℕ) (dst : GpuSample) : GpuSample :=
  (List.range n).foldl (fun d w => src.copyWord w d) dst

@[simp]
theorem copyWords_zero (src dst : GpuSample) : src.copyWords 0 dst = dst := rfl

theorem copyWords_succ (src : GpuSample) (n : ℕ) (dst : GpuSample) :
    src.copyWords (n + 1) dst = src.copyWord n (src.copyWords n dst) := by
  rw [copyWords, List.range_succ, List.foldl_append]
  rfl

end GpuSample

/-! ## The calls -/

/-- Identifier of a call. -/
abbrev CallId := ℕ

/-- The calls that touch the ring. -/
inductive RingCall
  /-- `ring_push`, `ring_consume`, `gpu_telem_open`, `gpu_telem_release`, or a call that fails
  early. -/
  | op (rop : ReaderOp)
  /-- `ring_data_available`. -/
  | dataAvailable (nextSeq : UInt64)
  /-- `ring_dropped`. -/
  | dropped

/-- What a call returns. -/
inductive RingResult
  | done
  | opened
  | failed (e : Errno)
  /-- The buffer after `ring_consume`, and the count. -/
  | consumed (out : Array GpuSample) (count : UInt32)
  | available (b : Bool)
  | dropped (d : UInt64)
  deriving DecidableEq

/-- What of an observation is returned. -/
def ReaderObs.result : ReaderObs → RingResult
  | .silent => .done
  | .opened _ => .opened
  | .consumed out count _ => .consumed out count
  | .failed e => .failed e

/-- A call that runs without interruption. -/
def Readers.call (s : Readers) : RingCall → Option (Readers × RingResult)
  | .op rop => (s.step rop).map fun p => (p.1, p.2.result)
  | .dataAvailable nextSeq => some (s, .available (ringDataAvailable s.ring nextSeq))
  | .dropped => some (s, .dropped (ringDropped s.ring))

/-- The ring whose calls run one after the other. -/
def Readers.callMachine : Machine Readers RingCall RingResult where
  step := Readers.call

/-! ## One access -/

/-- The points of the functions, with their locals. -/
inductive RingPc
  /-- At `spin_lock_irqsave`. -/
  | takeLock (c : RingCall)
  /-- `ring_push`: at the computation of `slot`. -/
  | pickSlot (s : GpuSample)
  /-- `ring_push`: at word `w` of `r->samples[slot] = *s`. -/
  | storeWord (s : GpuSample) (slot : UInt32) (w : ℕ)
  /-- `ring_push`: at `r->head_seq++`. -/
  | bump (s : GpuSample)
  /-- `ring_consume`: at `head = r->head_seq`. -/
  | loadHead (f : FileId) (out : Array GpuSample) (max : UInt32)
  /-- `ring_consume`: at `head <= *next_seq`. -/
  | compare (f : FileId) (out : Array GpuSample) (max : UInt32) (head : UInt64)
  /-- `ring_consume`: at `behind > r->size`, and `r->dropped += skip` if so. -/
  | overrun (f : FileId) (out : Array GpuSample) (max : UInt32) (behind : UInt64)
  /-- `ring_consume`: at `*next_seq += skip`. -/
  | skipSeq (f : FileId) (out : Array GpuSample) (max : UInt32) (skip : UInt64)
  /-- `ring_consume`: at the test of the loop, and the computation of `slot`. -/
  | testCopy (f : FileId) (out : Array GpuSample) (toCopy : UInt32) (i : ℕ)
  /-- `ring_consume`: at word `w` of `out[i] = r->samples[slot]`. -/
  | loadWord (f : FileId) (out : Array GpuSample) (toCopy : UInt32) (i : ℕ) (slot : UInt32) (w : ℕ)
  /-- `ring_consume`: at `(*next_seq)++`. -/
  | advance (f : FileId) (out : Array GpuSample) (toCopy : UInt32) (i : ℕ)
  /-- `ring_dropped`: at `d = r->dropped`. -/
  | readDropped
  /-- At `spin_unlock_irqrestore`, with the value to return. -/
  | unlock (res : RingResult)
  /-- `ring_data_available`: at `READ_ONCE(r->head_seq)`. -/
  | readHead (nextSeq : UInt64)
  /-- `gpu_telem_open`: at `kzalloc`. -/
  | alloc (f : FileId) (kzalloc : Bool)
  /-- `gpu_telem_open`: at `ctx->next_seq = READ_ONCE(gdev.ring.head_seq)`. -/
  | snapshot (f : FileId)
  /-- `gpu_telem_release`: at `kfree`. -/
  | free (f : FileId)
  /-- A call on `f` that fails with `e` before `ring_consume`. -/
  | early (f : FileId) (e : Errno)
  /-- At the return. -/
  | ret (res : RingResult)

/-- The first point of a call. -/
def RingCall.entry : RingCall → RingPc
  | .op (.push s) => .takeLock (.op (.push s))
  | .op (.consume f out max) => .takeLock (.op (.consume f out max))
  | .op (.openFile f kzalloc) => .alloc f kzalloc
  | .op (.release f) => .free f
  | .op (.fail f e) => .early f e
  | .dataAvailable nextSeq => .readHead nextSeq
  | .dropped => .takeLock .dropped

/-- The point after `spin_lock_irqsave`. -/
def RingCall.locked : RingCall → RingPc
  | .op (.push s) => .pickSlot s
  | .op (.consume f out max) => .loadHead f out max
  | .dropped => .readDropped
  -- the other calls do not take the lock
  | c => c.entry

/-- Write one word of a slot. -/
def RingBuf.storeWord (r : RingBuf) (slot : UInt32) (s : GpuSample) (w : ℕ) : RingBuf :=
  { r with samples := r.samples.modify slot.toNat (s.copyWord w) }

/-- One access of call `k`: the memory, the lock and the point after it. -/
def ringStep (mem : Readers) (lock : Option CallId) (k : CallId) :
    RingPc → Option (Readers × Option CallId × RingPc)
  | .takeLock c =>
      match lock with
      | none => some (mem, some k, c.locked)
      -- spin
      | some _ => none
  | .pickSlot s => some (mem, lock, .storeWord s (ringSlot mem.ring mem.ring.headSeq) 0)
  | .storeWord s slot w =>
      some ({ mem with ring := mem.ring.storeWord slot s w }, lock,
        if w + 1 < GpuSample.words then .storeWord s slot (w + 1) else .bump s)
  | .bump _ =>
      some ({ mem with ring := { mem.ring with headSeq := mem.ring.headSeq + 1 } }, lock,
        .unlock .done)
  | .loadHead f out max => some (mem, lock, .compare f out max mem.ring.headSeq)
  | .compare f out max head =>
      match mem.cursor f with
      | none => none
      | some nextSeq =>
          some (mem, lock,
            -- nothing unread: the lock is given back at once
            if head ≤ nextSeq then .unlock (.consumed out 0)
            else .overrun f out max (head - nextSeq))
  | .overrun f out max behind =>
      if behind > mem.ring.size.toUInt64 then
        let skip := behind - mem.ring.size.toUInt64
        some ({ mem with ring := { mem.ring with dropped := mem.ring.dropped + skip } }, lock,
          .skipSeq f out max skip)
      else some (mem, lock, .testCopy f out (min behind max.toUInt64).toUInt32 0)
  | .skipSeq f out max skip =>
      match mem.cursor f with
      | none => none
      | some nextSeq =>
          -- `behind` is the capacity from here on
          some ({ mem with
              files := Function.update mem.files f (.opened { nextSeq := nextSeq + skip }) },
            lock, .testCopy f out (min mem.ring.size.toUInt64 max.toUInt64).toUInt32 0)
  | .testCopy f out toCopy i =>
      match mem.cursor f with
      | none => none
      | some nextSeq =>
          some (mem, lock,
            if i < toCopy.toNat then .loadWord f out toCopy i (ringSlot mem.ring nextSeq) 0
            else .unlock (.consumed out toCopy))
  | .loadWord f out toCopy i slot w =>
      let out' := out.modify i (mem.ring.samples[slot.toNat]!.copyWord w)
      some (mem, lock,
        if w + 1 < GpuSample.words then .loadWord f out' toCopy i slot (w + 1)
        else .advance f out' toCopy i)
  | .advance f out toCopy i =>
      match mem.cursor f with
      | none => none
      | some nextSeq =>
          some ({ mem with
              files := Function.update mem.files f (.opened { nextSeq := nextSeq + 1 }) },
            lock, .testCopy f out toCopy (i + 1))
  | .readDropped => some (mem, lock, .unlock (.dropped mem.ring.dropped))
  | .unlock res => some (mem, none, .ret res)
  | .readHead nextSeq => some (mem, lock, .ret (.available (ringDataAvailable mem.ring nextSeq)))
  | .alloc f kzalloc =>
      some (mem, lock, if kzalloc then .snapshot f else .ret (.failed .ENOMEM))
  | .snapshot f =>
      -- `head_seq` is read without the lock
      some ({ mem with
          files := Function.update mem.files f (.opened { nextSeq := mem.ring.headSeq }) },
        lock, .ret .opened)
  | .free f =>
      some ({ mem with files := Function.update mem.files f .released }, lock, .ret .done)
  | .early _ e => some (mem, lock, .ret (.failed e))
  | .ret _ => none

/-! ## The calls in flight -/

/-- The file a call still needs. -/
def RingPc.file : RingPc → Option FileId
  | .takeLock (.op (.consume f _ _)) => some f
  | .loadHead f _ _ => some f
  | .compare f _ _ _ => some f
  | .overrun f _ _ _ => some f
  | .skipSeq f _ _ _ => some f
  | .testCopy f _ _ _ => some f
  | .loadWord f _ _ _ _ _ => some f
  | .advance f _ _ _ => some f
  | .early f _ => some f
  | .alloc f _ => some f
  | .snapshot f => some f
  | .free f => some f
  | _ => none

/-- Whether a call opens or releases its file. -/
def RingPc.exclusive : RingPc → Bool
  | .alloc _ _ => true
  | .snapshot _ => true
  | .free _ => true
  | _ => false

/-- The ring, its readers and the calls in flight. -/
structure SpinRing where
  /-- What memory holds. -/
  mem : Readers
  /-- The call that holds `r->lock`. -/
  lock : Option CallId
  calls : Table CallId RingPc
  /-- The identifier of the next call. -/
  nextId : CallId

/-- A ring nobody has opened yet. -/
def SpinRing.start (r : RingBuf) : SpinRing where
  mem := .start r
  lock := none
  calls := .empty
  nextId := 0

/-- What happens to the ring. -/
inductive SpinOp
  /-- A call begins. -/
  | call (c : RingCall)
  /-- Call `k` makes its next access, or returns. -/
  | run (k : CallId)

namespace SpinRing

/-- Whether the VFS lets a call begin. -/
def admits (m : SpinRing) : RingCall → Bool
  | .op (.openFile f _) =>
      decide (m.mem.files f = .unused) && m.calls.all (·.file != some f)
  | .op (.release f) => (m.mem.cursor f).isSome && m.calls.all (·.file != some f)
  | .op (.consume f out max) =>
      (m.mem.cursor f).isSome && decide (max.toNat ≤ out.size)
        && m.calls.all fun pc => !(pc.exclusive && pc.file == some f)
  | .op (.fail f _) =>
      (m.mem.cursor f).isSome && m.calls.all fun pc => !(pc.exclusive && pc.file == some f)
  | _ => true

/-- One step of the ring. -/
def step (m : SpinRing) :
    SpinOp → Option (SpinRing × Option (Event CallId RingCall RingResult))
  | .call c =>
      if m.admits c then
        some ({ m with calls := m.calls.insert m.nextId c.entry, nextId := m.nextId + 1 },
          some (.call m.nextId c))
      else none
  | .run k =>
      match m.calls.find k with
      | none => none
      | some (.ret res) => some ({ m with calls := m.calls.erase k }, some (.ret k res))
      | some pc =>
          match ringStep m.mem m.lock k pc with
          | none => none
          | some (mem, lock, pc') =>
              some ({ m with mem := mem, lock := lock, calls := m.calls.insert k pc' }, none)

/-- The ring with its calls in flight as a machine. -/
def machine : Machine SpinRing SpinOp (Option (Event CallId RingCall RingResult)) where
  step := step

@[simp]
theorem machine_step (m : SpinRing) (op : SpinOp) : machine.step m op = m.step op := rfl

/-- A step is the beginning of a call, its return or one access of it. -/
theorem step_cases {m m' : SpinRing} {op : SpinOp} {e : Option (Event CallId RingCall RingResult)}
    (h : m.step op = some (m', e)) :
    (∃ c, op = .call c ∧ m.admits c = true ∧
      m' = { m with calls := m.calls.insert m.nextId c.entry, nextId := m.nextId + 1 } ∧
      e = some (.call m.nextId c)) ∨
    (∃ k res, op = .run k ∧ m.calls.find k = some (.ret res) ∧
      m' = { m with calls := m.calls.erase k } ∧ e = some (.ret k res)) ∨
    ∃ k pc mem' lock' pc', op = .run k ∧ m.calls.find k = some pc ∧
      ringStep m.mem m.lock k pc = some (mem', lock', pc') ∧
      m' = { m with mem := mem', lock := lock', calls := m.calls.insert k pc' } ∧ e = none := by
  cases op with
  | call c =>
      rw [step] at h
      split at h <;> cases h
      next hadmits => exact .inl ⟨c, rfl, hadmits, rfl, rfl⟩
  | run k =>
      rw [step] at h
      split at h
      next => cases h
      next res hk =>
        cases h
        exact .inr (.inl ⟨k, res, rfl, hk, rfl, rfl⟩)
      next pc _ hk =>
        split at h <;> cases h
        next mem' lock' pc' hring =>
          exact .inr (.inr ⟨k, pc, mem', lock', pc', rfl, hk, hring, rfl, rfl⟩)

end SpinRing

end GpuTelem
