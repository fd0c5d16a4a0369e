import GpuTelem.RingBuf
import Mathlib.Logic.Function.Basic

/-!
# The ring and its readers

The part of the driver that `ring_push`, `ring_consume`, `gpu_telem_open` and `gpu_telem_release`
touch: the ring and the `struct reader_ctx` of every open file. Its operations are atomic, in the
order in which they take the ring's lock; the machine `Readers.machine` allows every sequence of
them, by any number of readers.

A file is opened at most once: every `open()` gets a new identifier.

## Main definitions

* `gpuTelemOpen`: where a new reader starts;
* `Readers.step`, `Readers.machine`: the operations;
* `pushCount`: the number of `ring_push` calls of a run.

## Main results

* `wellFormed_of_trace`: the ring stays well-formed, with the capacity it was given;
* `toNat_headSeq_of_trace`: `head_seq` counts the pushes, modulo `2 ^ 64`.
-/

namespace GpuTelem

open BroadcastLog Machine

/-- Identifier of an open file. -/
abbrev FileId := ℕ

/-- `struct reader_ctx`: per-fd reader state. -/
structure ReaderCtx where
  nextSeq : UInt64
  deriving DecidableEq

/-- What has become of a file identifier. -/
inductive FileSlot
  | unused
  /-- Open, with `filp->private_data`. -/
  | opened (ctx : ReaderCtx)
  | released
  deriving DecidableEq

/-- The context `gpu_telem_open` gives a new reader. `kzalloc` says whether the allocation
succeeds. -/
def gpuTelemOpen (r : RingBuf) (kzalloc : Bool) : Except Errno ReaderCtx :=
  if kzalloc = false then .error .ENOMEM else .ok { nextSeq := r.headSeq }

/-- The ring and its files. -/
structure Readers where
  ring : RingBuf
  files : FileId → FileSlot

/-- A ring nobody has opened yet. -/
def Readers.start (r : RingBuf) : Readers where
  ring := r
  files _ := .unused

/-- The operations on the ring and its files. -/
inductive ReaderOp
  /-- `ring_push`. -/
  | push (s : GpuSample)
  /-- `gpu_telem_open`, with the outcome of its allocation. -/
  | openFile (f : FileId) (kzalloc : Bool)
  /-- `ring_consume` on the cursor of `f`, into a buffer with room for `max` samples. -/
  | consume (f : FileId) (out : Array GpuSample) (max : UInt32)
  /-- A call on `f` that returns an error without reaching `ring_consume`. -/
  | fail (f : FileId) (e : Errno)
  /-- `gpu_telem_release`. -/
  | release (f : FileId)

/-- What the caller of an operation sees. -/
inductive ReaderObs
  | silent
  /-- The cursor of a new reader. -/
  | opened (nextSeq : UInt64)
  /-- The buffer after `ring_consume`, the returned count and the new cursor. -/
  | consumed (out : Array GpuSample) (count : UInt32) (nextSeq : UInt64)
  | failed (e : Errno)
  deriving DecidableEq

namespace Readers

/-- The cursor of an open file. -/
def cursor (s : Readers) (f : FileId) : Option UInt64 :=
  match s.files f with
  | .opened ctx => some ctx.nextSeq
  | _ => none

/-- One operation; `none` where the caller may not issue it. -/
def step (s : Readers) : ReaderOp → Option (Readers × ReaderObs)
  | .push x => some ({ s with ring := ringPush s.ring x }, .silent)
  | .openFile f kzalloc =>
      match s.files f with
      | .unused =>
          match gpuTelemOpen s.ring kzalloc with
          | .ok ctx =>
              some ({ s with files := Function.update s.files f (.opened ctx) },
                .opened ctx.nextSeq)
          | .error e => some (s, .failed e)
      | _ => none
  | .consume f out max =>
      match s.files f with
      | .opened ctx =>
          if max.toNat ≤ out.size then
            let c := ringConsume s.ring ctx.nextSeq out max
            some
              ({ ring := c.ring
                 files := Function.update s.files f (.opened { nextSeq := c.nextSeq }) },
                .consumed c.out c.count c.nextSeq)
          else none
      | _ => none
  | .fail f e =>
      match s.files f with
      | .opened _ => some (s, .failed e)
      | _ => none
  | .release f =>
      match s.files f with
      | .opened _ => some ({ s with files := Function.update s.files f .released }, .silent)
      | _ => none

/-- The ring and its readers as a machine. -/
def machine : Machine Readers ReaderOp ReaderObs where
  step := step

@[simp]
theorem machine_step (s : Readers) (op : ReaderOp) : machine.step s op = s.step op := rfl

/-! ## What each operation does -/

theorem cursor_eq_some {s : Readers} {f : FileId} {c : UInt64} :
    s.cursor f = some c ↔ s.files f = .opened { nextSeq := c } := by
  unfold cursor
  split
  next ctx hf =>
    rw [hf, FileSlot.opened.injEq, Option.some.injEq]
    exact ⟨fun h => by rw [← h], fun h => by rw [h]⟩
  next hf =>
    simp only [reduceCtorEq, false_iff]
    exact fun h => hf _ h

@[simp]
theorem cursor_update_opened (s : Readers) (r : RingBuf) (f g : FileId) (ctx : ReaderCtx) :
    cursor { ring := r, files := Function.update s.files f (.opened ctx) } g =
      if g = f then some ctx.nextSeq else s.cursor g := by
  by_cases h : g = f <;> simp [cursor, h]

@[simp]
theorem cursor_update_released (s : Readers) (r : RingBuf) (f g : FileId) :
    cursor { ring := r, files := Function.update s.files f .released } g =
      if g = f then none else s.cursor g := by
  by_cases h : g = f <;> simp [cursor, h]

@[simp]
theorem cursor_start (r : RingBuf) (f : FileId) : (start r).cursor f = none := rfl

/-- A push changes the ring only. -/
theorem step_push {s s' : Readers} {x : GpuSample} {o : ReaderObs} :
    s.step (.push x) = some (s', o) ↔
      s' = { s with ring := ringPush s.ring x } ∧ o = .silent := by
  simp [step, eq_comm]

/-- Opening puts the cursor of a fresh file at `head_seq`, or fails and changes nothing. -/
theorem step_openFile {s s' : Readers} {f : FileId} {kzalloc : Bool} {o : ReaderObs} :
    s.step (.openFile f kzalloc) = some (s', o) ↔ s.files f = .unused ∧
      (kzalloc = true ∧ o = .opened s.ring.headSeq ∧
          s' = { s with files :=
            Function.update s.files f (.opened { nextSeq := s.ring.headSeq }) } ∨
        kzalloc = false ∧ o = .failed .ENOMEM ∧ s' = s) := by
  cases hf : s.files f <;> cases kzalloc <;> simp [step, hf, gpuTelemOpen, eq_comm, and_comm]

/-- `ring_consume` runs on the cursor of an open file. -/
theorem step_consume {s s' : Readers} {f : FileId} {out : Array GpuSample} {max : UInt32}
    {o : ReaderObs} :
    s.step (.consume f out max) = some (s', o) ↔
      ∃ c, s.cursor f = some c ∧ max.toNat ≤ out.size ∧
        s' = { ring := (ringConsume s.ring c out max).ring
               files := Function.update s.files f
                 (.opened { nextSeq := (ringConsume s.ring c out max).nextSeq }) } ∧
        o = .consumed (ringConsume s.ring c out max).out (ringConsume s.ring c out max).count
          (ringConsume s.ring c out max).nextSeq := by
  cases hf : s.files f with
  | opened ctx =>
      by_cases hroom : max.toNat ≤ out.size <;>
        simp [step, cursor, hf, hroom, eq_comm]
  | unused => simp [step, cursor, hf]
  | released => simp [step, cursor, hf]

/-- A call that fails early changes nothing. -/
theorem step_fail {s s' : Readers} {f : FileId} {e : Errno} {o : ReaderObs} :
    s.step (.fail f e) = some (s', o) ↔ (s.cursor f).isSome ∧ s' = s ∧ o = .failed e := by
  cases hf : s.files f <;> simp [step, cursor, hf, eq_comm]

/-- Releasing ends the file. -/
theorem step_release {s s' : Readers} {f : FileId} {o : ReaderObs} :
    s.step (.release f) = some (s', o) ↔ (s.cursor f).isSome ∧
      s' = { s with files := Function.update s.files f .released } ∧ o = .silent := by
  cases hf : s.files f <;> simp [step, cursor, hf, eq_comm]

/-- What an operation can do to the ring. -/
theorem step_ring {s s' : Readers} {op : ReaderOp} {o : ReaderObs}
    (h : s.step op = some (s', o)) :
    (∃ x, op = .push x ∧ s'.ring = ringPush s.ring x) ∨
      (∃ d, (∀ x, op ≠ .push x) ∧ s'.ring = { s.ring with dropped := d }) := by
  cases op with
  | push x =>
      obtain ⟨rfl, -⟩ := step_push.mp h
      exact .inl ⟨x, rfl, rfl⟩
  | openFile f kzalloc =>
      obtain ⟨-, ⟨-, -, rfl⟩ | ⟨-, -, rfl⟩⟩ := step_openFile.mp h
      · exact .inr ⟨s.ring.dropped, by simp, rfl⟩
      · exact .inr ⟨s'.ring.dropped, by simp, rfl⟩
  | consume f out max =>
      obtain ⟨c, -, -, rfl, -⟩ := step_consume.mp h
      obtain ⟨d, hd⟩ := ring_ringConsume s.ring c out max
      exact .inr ⟨d, by simp, hd⟩
  | fail f e =>
      obtain ⟨-, rfl, -⟩ := step_fail.mp h
      exact .inr ⟨s'.ring.dropped, by simp, rfl⟩
  | release f =>
      obtain ⟨-, rfl, -⟩ := step_release.mp h
      exact .inr ⟨s.ring.dropped, by simp, rfl⟩

end Readers

/-! ## Whole runs -/

/-- Whether an operation is a push. -/
def ReaderOp.isPush : ReaderOp → Bool
  | .push _ => true
  | _ => false

/-- The number of `ring_push` calls of a run. -/
def pushCount (ts : List (Transition Readers ReaderOp ReaderObs)) : ℕ :=
  ts.countP (·.input.isPush)

/-- The pushes of a run can be counted on its operations. -/
theorem pushCount_eq_countP_input (ts : List (Transition Readers ReaderOp ReaderObs)) :
    pushCount ts = (ts.map (·.input)).countP ReaderOp.isPush := by
  rw [pushCount, List.countP_map]
  rfl

@[simp]
theorem pushCount_nil : pushCount [] = 0 := rfl

@[simp]
theorem pushCount_snoc (ts : List (Transition Readers ReaderOp ReaderObs))
    (τ : Transition Readers ReaderOp ReaderObs) :
    pushCount (ts ++ [τ]) = pushCount ts + if τ.input.isPush then 1 else 0 := by
  simp [pushCount, List.countP_append, List.countP_singleton]

/-- A part of a run has at most as many pushes. -/
theorem pushCount_le_append (ts us : List (Transition Readers ReaderOp ReaderObs)) :
    pushCount ts ≤ pushCount (ts ++ us) := by
  simp [pushCount, List.countP_append]

variable {ts : List (Transition Readers ReaderOp ReaderObs)} {s₀ s : Readers}

/-- The ring of a run stays well-formed and keeps its capacity. -/
theorem wellFormed_of_trace (h : Readers.machine.Trace s₀ ts s) (hwf : s₀.ring.WellFormed) :
    s.ring.WellFormed ∧ s.ring.size = s₀.ring.size := by
  refine Trace.invariant (I := fun s => s.ring.WellFormed ∧ s.ring.size = s₀.ring.size)
    ?_ h ⟨hwf, rfl⟩
  rintro s op s' o ⟨hwf, hsize⟩ hstep
  obtain ⟨x, -, hring⟩ | ⟨d, -, hring⟩ := Readers.step_ring hstep <;> rw [hring]
  · exact ⟨hwf.ringPush x, hsize⟩
  · exact ⟨hwf.addDropped d, hsize⟩

/-- `head_seq` counts the pushes of a run, modulo `2 ^ 64`. -/
theorem toNat_headSeq_of_trace (h : Readers.machine.Trace s₀ ts s) :
    s.ring.headSeq.toNat = (s₀.ring.headSeq.toNat + pushCount ts) % 2 ^ 64 := by
  induction h with
  | nil => simp [Nat.mod_eq_of_lt (UInt64.toNat_lt _)]
  | @snoc ts s s' op o htr hstep ih =>
      obtain ⟨x, rfl, hring⟩ | ⟨d, hop, hring⟩ := Readers.step_ring hstep <;> rw [hring]
      · have hpush : (ringPush s.ring x).headSeq = s.ring.headSeq + 1 := rfl
        rw [hpush, UInt64.toNat_add, ih]
        simp [ReaderOp.isPush, Nat.add_assoc]
      · have hop' : op.isPush = false := by
          cases op <;> simp_all [ReaderOp.isPush]
        simp [hop', ih]

/-- Below `2 ^ 64` pushes `head_seq` is their number. -/
theorem toNat_headSeq_of_pushCount_lt (h : Readers.machine.Trace s₀ ts s)
    (hzero : s₀.ring.headSeq = 0) (hpush : pushCount ts < 2 ^ 64) :
    s.ring.headSeq.toNat = pushCount ts := by
  rw [toNat_headSeq_of_trace h, hzero]
  simpa using hpush

end GpuTelem
