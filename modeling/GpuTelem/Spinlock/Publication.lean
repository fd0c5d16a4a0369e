import GpuTelem.Readers.Refinement
import GpuTelem.Spinlock.Linearizable

/-!
# Publication

`ring_push` stores `head_seq` last: whoever sees the new `head_seq` without the lock finds a fully
written sample in its slot. In every state of the ring under its spinlock, also in the middle of a
push, every sample below `head_seq` that is still live is whole in memory; of these only the oldest
one of a full ring may be torn, whose slot the push under way reuses.

## Main definitions

* `published`: the samples of the pushes that have taken effect;
* `RingPc.storing`: a push between its first store and `head_seq++`.

## Main results

* `readers_of_callMachine`: a run of the sequential ring is a run of `Readers`;
* `published_whole`: the live samples are whole.
-/

namespace GpuTelem

open BroadcastLog Linearizability Machine

/-- The operation on the ring and its readers a call performs. -/
def RingCall.readerOp : RingCall → Option ReaderOp
  | .op rop => some rop
  | _ => none

/-- The sample a call pushes. -/
def RingCall.pushed (c : RingCall) : Option GpuSample := c.readerOp.bind ReaderOp.pushed

/-- The samples pushed by the calls that have taken effect, in this order. -/
def published (order : List (CallId × Transition Readers RingCall RingResult)) :
    List GpuSample :=
  order.filterMap (·.2.input.pushed)

/-- The calls `ring_data_available` and `ring_dropped` change nothing, the others are operations of
`Readers`. -/
theorem readers_of_callMachine {s₀ s : Readers}
    {ts : List (Transition Readers RingCall RingResult)}
    (h : Readers.callMachine.Trace s₀ ts s) :
    ∃ us, Readers.machine.Trace s₀ us s ∧
      us.map (·.input) = ts.filterMap (·.input.readerOp) := by
  refine Trace.project (I := fun _ => True) (π := fun s => s)
    (f := fun _ c => RingCall.readerOp c) (fun _ _ _ _ _ _ => trivial) ?_ h trivial
  intro s c s' o _ hstep
  match c, hstep with
  | .op rop, hstep =>
      obtain ⟨⟨s'', o'⟩, hrop, heq⟩ := Option.map_eq_some_iff.mp hstep
      obtain ⟨rfl, -⟩ := Prod.mk.inj heq
      exact .inr ⟨rop, o', rfl, hrop⟩
  | .dataAvailable nextSeq, hstep =>
      obtain ⟨rfl, -⟩ := Prod.mk.inj (Option.some.inj hstep)
      exact .inl ⟨rfl, rfl⟩
  | .dropped, hstep =>
      obtain ⟨rfl, -⟩ := Prod.mk.inj (Option.some.inj hstep)
      exact .inl ⟨rfl, rfl⟩

/-- Whether a call has stored part of a record, but not yet `head_seq`. -/
def RingPc.storing : RingPc → Bool
  | .storeWord _ _ w => decide (0 < w)
  | .bump _ => true
  | _ => false

/-- Memory has the samples of the sequential ring, but for the slot of a push under way. -/
theorem RingPc.Agrees.samples {mem a : Readers} {pc : RingPc} (h : pc.Agrees mem a) :
    mem.ring.size = a.ring.size ∧ mem.ring.mask = a.ring.mask ∧
      ∀ i, (pc.storing = true → i ≠ (ringSlot a.ring a.ring.headSeq).toNat) →
        mem.ring.samples[i]? = a.ring.samples[i]? := by
  have hconsume : (pc.Copying mem ∧ ∃ f t, pc.rest mem = some (f, t) ∧ a = mem.finish f t) →
      mem.ring.size = a.ring.size ∧ mem.ring.mask = a.ring.mask ∧
        ∀ i, (pc.storing = true → i ≠ (ringSlot a.ring a.ring.headSeq).toNat) →
          mem.ring.samples[i]? = a.ring.samples[i]? := by
    rintro ⟨-, f, t, hrest, rfl⟩
    obtain ⟨_, -, h⟩ := Option.bind_eq_some_iff.mp hrest
    obtain ⟨nextSeq, -, h⟩ := Option.bind_eq_some_iff.mp h
    obtain ⟨t', ht', h⟩ := Option.map_eq_some_iff.mp h
    obtain ⟨-, rfl⟩ := Prod.mk.inj h
    obtain ⟨d, hd⟩ := ring_of_restFrom ht'
    simp [Readers.finish, hd]
  cases pc with
  | pickSlot s => obtain rfl := h; exact ⟨rfl, rfl, fun _ _ => rfl⟩
  | storeWord s slot w =>
      obtain ⟨rfl, -, rfl⟩ := h
      refine ⟨rfl, rfl, fun i hi => ?_⟩
      rcases Nat.eq_zero_or_pos w with rfl | hw
      -- nothing stored so far
      · have hnothing : GpuSample.copyWords s 0 = fun x => x := rfl
        rw [hnothing, CyclicArray.modify_id]
      · have hne := hi (by simpa [storing] using hw)
        simp [Array.getElem?_modify, Ne.symm hne]
  | bump s =>
      obtain rfl := h
      refine ⟨rfl, rfl, fun i hi => ?_⟩
      simp [Ne.symm (hi rfl)]
  | readDropped => obtain rfl := h; exact ⟨rfl, rfl, fun _ _ => rfl⟩
  | unlock res => obtain rfl := h; exact ⟨rfl, rfl, fun _ _ => rfl⟩
  | _ => exact hconsume h

/-- So has memory as a whole, whoever holds the lock. -/
theorem Tracks.samples {m : SpinRing} {a : Readers} {st : CallId → Status RingCall RingResult}
    (h : Tracks m a st) :
    m.mem.ring.size = a.ring.size ∧ m.mem.ring.mask = a.ring.mask ∧
      ∀ i, (∀ k pc, m.calls.find k = some pc → pc.storing = true →
          i ≠ (ringSlot a.ring a.ring.headSeq).toNat) →
        m.mem.ring.samples[i]? = a.ring.samples[i]? := by
  cases hlock : m.lock with
  | none => simp [h.unlocked hlock]
  | some k =>
      obtain ⟨pc, hpc, hcritical⟩ := (h.holder k).mp hlock
      obtain ⟨hsize, hmask, hcells⟩ := (h.agrees k pc hpc hcritical).samples
      exact ⟨hsize, hmask, fun i hi => hcells i (hi k pc hpc)⟩

/-- In every state of the ring under its spinlock `head_seq` is the number of samples published. Of
the samples that can still be read the slot of every one that is not the oldest of a full ring holds
it as it was pushed; the slot of the oldest one does unless a push is storing its record there. -/
theorem published_whole {size : UInt32} {vzalloc : Bool} {r : RingBuf}
    {ts : List (Transition SpinRing SpinOp (Option (Event CallId RingCall RingResult)))}
    {m : SpinRing} (hinit : ringInit size vzalloc = .ok r)
    (h : SpinRing.machine.Trace (SpinRing.start r) ts m) :
    ∃ order a, Linearizes Readers.callMachine (Readers.start r) (history ts) order a ∧
      ((published order).length < 2 ^ 64 →
        m.mem.ring.headSeq.toNat = (published order).length ∧
        ∀ q < (published order).length,
          (published order).length < q + size.toNat ∨
            (published order).length = q + size.toNat ∧
              (∀ k pc, m.calls.find k = some pc → pc.storing = false) →
          m.mem.ring.samples[(ringSlot m.mem.ring (UInt64.ofNat q)).toNat]?
            = (published order)[q]?) := by
  obtain ⟨order, a, st, hlin, -, htracks⟩ := simulation.exists_linearizes h (Tracks.start r)
  refine ⟨order, a, hlin, fun hlen => ?_⟩
  obtain ⟨us, hus, hin⟩ := readers_of_callMachine hlin.trace
  -- the pushes in the order in which they took effect are the log of a sequential run
  have hpushed : pushed us = published order := by
    have hmap : pushed us = (us.map (·.input)).filterMap ReaderOp.pushed := by
      rw [List.filterMap_map]
      rfl
    rw [hmap, hin, List.filterMap_filterMap, List.filterMap_map]
    rfl
  have hcount : pushCount us = (published order).length := by rw [← length_pushed, hpushed]
  obtain ⟨b, hlog, hrep⟩ := represents_of_trace hinit hus (by rw [hcount]; exact hlen)
  rw [hpushed] at hlog
  obtain ⟨hwf, -, -, hrsize⟩ := ringInit_ok hinit
  have hsize : a.ring.size = size := (wellFormed_of_trace hus hwf).2.trans hrsize
  have hhead : a.ring.headSeq.toNat = (published order).length := by rw [hrep.head_eq, hlog]
  obtain ⟨-, hmask, hcells⟩ := htracks.samples
  refine ⟨by rw [htracks.headSeq_eq, hhead], fun q hq hwindow => ?_⟩
  have hseq : (UInt64.ofNat q).toNat = q := by
    rw [UInt64.toNat_ofNat', Nat.mod_eq_of_lt (by omega)]
  -- the sequential ring holds every sample of the log that is not overwritten
  have hslot := hrep.slot_eq (UInt64.ofNat q) (by rw [hseq, hlog]; exact hq)
    (by rw [hseq, hlog, hsize]; omega)
  rw [hseq, hlog] at hslot
  -- and memory holds what the sequential ring does, but for one slot
  have hsame : ringSlot m.mem.ring (UInt64.ofNat q) = ringSlot a.ring (UInt64.ofNat q) := by
    rw [ringSlot, ringSlot, hmask]
  have hlt := hrep.wf.ringSlot_lt (UInt64.ofNat q)
  rw [hsame, hslot, hcells, Array.getElem?_eq_getElem hlt, getElem!_pos a.ring.samples _ hlt]
  intro k pc hk hstoring
  rcases hwindow with hnewer | ⟨-, hnone⟩
  -- a push under way writes to the slot of `head_seq`
  · rw [hrep.wf.toNat_ringSlot, hrep.wf.toNat_ringSlot, hseq, hhead, hsize]
    exact (CyclicArray.mod_ne_of_window hq hnewer).symm
  · rw [hnone k pc hk] at hstoring
    cases hstoring

/-- Two words into the third push to a ring of two: its slot is torn, the other one is whole. -/
theorem published_whole_torn :
    ∃ ts m, SpinRing.machine.Trace (SpinRing.start ⟨#[default, default], 2, 1, 0, 0⟩) ts m ∧
      m.mem.ring.samples = #[.stamped 3, .stamped 2] ∧
      (∃ k pc, m.calls.find k = some pc ∧ pc.storing = true) ∧
      ∃ order a, Linearizes Readers.callMachine (Readers.start ⟨#[default, default], 2, 1, 0, 0⟩)
          (history ts) order a ∧
        ((published order).length < 2 ^ 64 →
          m.mem.ring.headSeq.toNat = (published order).length ∧
          ∀ q < (published order).length,
            (published order).length < q + 2 ∨
              (published order).length = q + 2 ∧
                (∀ k pc, m.calls.find k = some pc → pc.storing = false) →
            m.mem.ring.samples[(ringSlot m.mem.ring (UInt64.ofNat q)).toNat]?
              = (published order)[q]?) := by
  have hrun : (SpinRing.machine.exec (SpinRing.start ⟨#[default, default], 2, 1, 0, 0⟩)
      ([.call (.op (.push (.stamped 1)))] ++ List.replicate 11 (.run 0)
        ++ [.call (.op (.push (.stamped 2)))] ++ List.replicate 11 (.run 1)
        ++ [.call (.op (.push { (default : GpuSample) with timestampNs := 3, powerUw := 3 }))]
        ++ List.replicate 4 (.run 2))).map
      (fun p => (p.2.mem.ring.samples, (p.2.calls.find 2).map RingPc.storing))
      = some (#[.stamped 3, .stamped 2], some true) := by
    decide
  obtain ⟨⟨ts, m⟩, hexec, hseen⟩ := Option.map_eq_some_iff.mp hrun
  obtain ⟨hsamples, hstoring⟩ := Prod.mk.inj hseen
  obtain ⟨pc, hpc, hstoring⟩ := Option.map_eq_some_iff.mp hstoring
  have htr := Trace.of_exec hexec
  have hinit : ringInit 2 true = .ok ⟨#[default, default], 2, 1, 0, 0⟩ := rfl
  exact ⟨ts, m, htr, hsamples, ⟨2, pc, hpc, hstoring⟩, published_whole hinit htr⟩

end GpuTelem
