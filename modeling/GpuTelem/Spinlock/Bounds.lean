import GpuTelem.Spinlock.Progress

/-!
# The ring stays within its arrays

`ring_push` and `ring_consume` index two arrays: `samples[]`, which `ring_init` allocated, and the
`out[]` of the caller. The slots come from a mask, the index into `out[]` from a count that is cut
to `max` and cast to `u32`. Whatever the other calls do in between, every access stays within the
array, and within the part of `out[]` the caller offered.

## Main definitions

* `Begins`: which call an identifier stands for;
* `RingCall.Writes`: the buffer of a `ring_consume`;
* `RingPc.Fits`: what the locals of a call satisfy.

## Main results

* `bounded_of_trace`: every call in flight fits the call that began it;
* `accesses_in_bounds`: no access is out of bounds.
-/

namespace GpuTelem

open Linearizability Machine

/-- Call `k` of a run is `c`. -/
def Begins (ts : List (Transition SpinRing SpinOp (Option (Event CallId RingCall RingResult))))
    (k : CallId) (c : RingCall) : Prop :=
  ∃ τ ∈ ts, τ.output = some (.call k c)

/-- The call is a `ring_consume` for `max` samples, with room for them, and `out` is its buffer as
far as it has been written. -/
def RingCall.Writes (c : RingCall) (out : Array GpuSample) (max : UInt32) : Prop :=
  ∃ f out₀, c = .op (.consume f out₀ max) ∧ out.size = out₀.size ∧ max.toNat ≤ out₀.size

/-- What the locals of the call `c` satisfy on a ring of `size` samples. -/
def RingPc.Fits (size : UInt32) (c : RingCall) : RingPc → Prop
  | .takeLock c' => c' = c ∧ ∀ f out max, c = .op (.consume f out max) → max.toNat ≤ out.size
  | .storeWord _ slot _ => slot.toNat < size.toNat
  | .loadHead _ out max => c.Writes out max
  | .compare _ out max _ => c.Writes out max
  | .overrun _ out max _ => c.Writes out max
  | .skipSeq _ out max _ => c.Writes out max
  | .testCopy _ out toCopy _ => ∃ max, c.Writes out max ∧ toCopy.toNat ≤ max.toNat
  | .loadWord _ out toCopy i slot _ =>
      (∃ max, c.Writes out max ∧ toCopy.toNat ≤ max.toNat) ∧ i < toCopy.toNat ∧
        slot.toNat < size.toNat
  | .advance _ out toCopy _ => ∃ max, c.Writes out max ∧ toCopy.toNat ≤ max.toNat
  | .unlock (.consumed out count) => ∃ max, c.Writes out max ∧ count.toNat ≤ max.toNat
  | .ret (.consumed out count) => ∃ max, c.Writes out max ∧ count.toNat ≤ max.toNat
  | _ => True

/-- Writing to the buffer does not change its size. -/
theorem RingCall.Writes.modify {c : RingCall} {out : Array GpuSample} {max : UInt32}
    (h : c.Writes out max) (i : ℕ) (g : GpuSample → GpuSample) : c.Writes (out.modify i g) max := by
  obtain ⟨f, out₀, hc, hsize, hmax⟩ := h
  exact ⟨f, out₀, hc, by rw [Array.size_modify, hsize], hmax⟩

/-- A call fits when it begins. -/
theorem RingCall.fits_entry {m : SpinRing} {c : RingCall} (h : m.admits c = true)
    (size : UInt32) : c.entry.Fits size c := by
  cases c with
  | op rop =>
      cases rop with
      | push s => exact ⟨rfl, by simp⟩
      | consume f out max =>
          refine ⟨rfl, ?_⟩
          rintro f' out' max' heq
          cases heq
          simp only [SpinRing.admits, Bool.and_eq_true, decide_eq_true_eq] at h
          exact h.1.2
      | _ => trivial
  | dropped => exact ⟨rfl, by simp⟩
  | dataAvailable nextSeq => trivial

/-- And when it gets the lock. -/
theorem RingPc.Fits.locked {size : UInt32} {c c' : RingCall} (h : (takeLock c').Fits size c) :
    c'.locked.Fits size c := by
  obtain ⟨rfl, hroom⟩ := h
  cases c' with
  | op rop =>
      cases rop with
      | consume f out max => exact ⟨f, out, rfl, rfl, hroom f out max rfl⟩
      | _ => trivial
  | dropped => trivial
  | dataAvailable nextSeq => trivial

/-- One access keeps the locals in bounds, and the ring as large as it is. -/
theorem fits_of_ringStep {mem mem' : Readers} {lock lock' : Option CallId} {k : CallId}
    {pc pc' : RingPc} {c : RingCall} (hwf : mem.ring.WellFormed)
    (h : pc.Fits mem.ring.size c) (hstep : ringStep mem lock k pc = some (mem', lock', pc')) :
    mem'.ring.WellFormed ∧ mem'.ring.size = mem.ring.size ∧ pc'.Fits mem.ring.size c := by
  have hslot : ∀ seq, (ringSlot mem.ring seq).toNat < mem.ring.size.toNat :=
    fun seq => hwf.cells ▸ hwf.ringSlot_lt seq
  cases pc with
  | takeLock c' =>
      simp only [ringStep] at hstep
      split at hstep
      next =>
        obtain ⟨rfl, -, rfl⟩ : mem = mem' ∧ _ ∧ c'.locked = pc' := by simpa using hstep
        exact ⟨hwf, rfl, h.locked⟩
      next => cases hstep
  | pickSlot s =>
      obtain ⟨rfl, -, rfl⟩ : mem = mem' ∧ _ ∧ _ = pc' := by simpa [ringStep] using hstep
      exact ⟨hwf, rfl, hslot _⟩
  | storeWord s slot w =>
      obtain ⟨rfl, -, rfl⟩ : _ = mem' ∧ _ ∧ _ = pc' := by simpa [ringStep] using hstep
      refine ⟨⟨hwf.size_pow, hwf.size_le, hwf.mask_eq, ?_⟩, rfl, ?_⟩
      · simpa [RingBuf.storeWord] using hwf.cells
      · split
        · exact h
        · trivial
  | bump s =>
      obtain ⟨rfl, -, rfl⟩ : _ = mem' ∧ _ ∧ _ = pc' := by simpa [ringStep] using hstep
      exact ⟨⟨hwf.size_pow, hwf.size_le, hwf.mask_eq, hwf.cells⟩, rfl, trivial⟩
  | loadHead f out max =>
      obtain ⟨rfl, -, rfl⟩ : mem = mem' ∧ _ ∧ _ = pc' := by simpa [ringStep] using hstep
      exact ⟨hwf, rfl, h⟩
  | compare f out max head =>
      simp only [ringStep] at hstep
      split at hstep
      next => cases hstep
      next nextSeq hcursor =>
        obtain ⟨rfl, -, rfl⟩ : mem = mem' ∧ _ ∧ _ = pc' := by simpa using hstep
        refine ⟨hwf, rfl, ?_⟩
        split
        · exact ⟨max, h, Nat.zero_le _⟩
        · exact h
  | overrun f out max behind =>
      simp only [ringStep] at hstep
      split at hstep
      next =>
        obtain ⟨rfl, -, rfl⟩ : _ = mem' ∧ _ ∧ _ = pc' := by simpa using hstep
        exact ⟨hwf.addDropped _, rfl, h⟩
      next =>
        obtain ⟨rfl, -, rfl⟩ : mem = mem' ∧ _ ∧ _ = pc' := by simpa using hstep
        exact ⟨hwf, rfl, max, h, toNat_toCopy_le _ _⟩
  | skipSeq f out max skip =>
      simp only [ringStep] at hstep
      split at hstep
      next => cases hstep
      next nextSeq hcursor =>
        obtain ⟨rfl, -, rfl⟩ : _ = mem' ∧ _ ∧ _ = pc' := by simpa using hstep
        exact ⟨hwf, rfl, max, h, toNat_toCopy_le _ _⟩
  | testCopy f out toCopy i =>
      simp only [ringStep] at hstep
      split at hstep
      next => cases hstep
      next nextSeq hcursor =>
        obtain ⟨rfl, -, rfl⟩ : mem = mem' ∧ _ ∧ _ = pc' := by simpa using hstep
        refine ⟨hwf, rfl, ?_⟩
        split
        next hlt => exact ⟨h, hlt, hslot _⟩
        next => exact h
  | loadWord f out toCopy i slot w =>
      obtain ⟨rfl, -, rfl⟩ : mem = mem' ∧ _ ∧ _ = pc' := by simpa [ringStep] using hstep
      obtain ⟨⟨max, hwrites, hle⟩, hlt, hbelow⟩ := h
      refine ⟨hwf, rfl, ?_⟩
      split
      · exact ⟨⟨max, hwrites.modify _ _, hle⟩, hlt, hbelow⟩
      · exact ⟨max, hwrites.modify _ _, hle⟩
  | advance f out toCopy i =>
      simp only [ringStep] at hstep
      split at hstep
      next => cases hstep
      next nextSeq hcursor =>
        obtain ⟨rfl, -, rfl⟩ : _ = mem' ∧ _ ∧ _ = pc' := by simpa using hstep
        exact ⟨hwf, rfl, h⟩
  | unlock res =>
      obtain ⟨rfl, -, rfl⟩ : mem = mem' ∧ _ ∧ _ = pc' := by simpa [ringStep] using hstep
      exact ⟨hwf, rfl, by cases res <;> exact h⟩
  | alloc f kzalloc =>
      obtain ⟨rfl, -, rfl⟩ : mem = mem' ∧ _ ∧ _ = pc' := by simpa [ringStep] using hstep
      exact ⟨hwf, rfl, by cases kzalloc <;> trivial⟩
  | ret res => cases hstep
  -- the other points touch neither array
  | _ =>
      obtain ⟨rfl, -, rfl⟩ : _ = mem' ∧ _ ∧ _ = pc' := by simpa [ringStep] using hstep
      exact ⟨hwf, rfl, trivial⟩

section Run

variable {size : UInt32} {vzalloc : Bool} {r : RingBuf}
  {ts : List (Transition SpinRing SpinOp (Option (Event CallId RingCall RingResult)))}
  {m : SpinRing}

/-- The ring is as large as it was made, and every call in flight fits the call that began it. -/
theorem bounded_of_trace (hinit : ringInit size vzalloc = .ok r)
    (h : SpinRing.machine.Trace (SpinRing.start r) ts m) :
    m.mem.ring.WellFormed ∧ m.mem.ring.size = size ∧
      ∀ k pc, m.calls.find k = some pc → ∃ c, Begins ts k c ∧ pc.Fits size c := by
  induction h with
  | nil =>
      obtain ⟨hwf, -, -, hsize⟩ := ringInit_ok hinit
      exact ⟨hwf, hsize, nofun⟩
  | @snoc ts m m' op e _ hlast ih =>
      obtain ⟨hwf, hsize, hfits⟩ := ih
      -- a call that does not move still fits
      have hkeep : ∀ k pc, m.calls.find k = some pc →
          ∃ c, Begins (ts ++ [⟨m, op, m', e⟩]) k c ∧ pc.Fits size c := by
        intro k pc hk
        obtain ⟨c, ⟨τ, hτ, hout⟩, hpc⟩ := hfits k pc hk
        exact ⟨c, ⟨τ, List.mem_append_left _ hτ, hout⟩, hpc⟩
      rcases SpinRing.step_cases hlast with ⟨c, -, hadmits, rfl, rfl⟩ | ⟨k, res, -, -, rfl, -⟩ |
        ⟨k, pc, mem', lock', pc', -, hk, hring, rfl, -⟩
      · -- a call begins
        refine ⟨hwf, hsize, fun k' pc' hk' => ?_⟩
        by_cases hne : k' = m.nextId
        · subst hne
          obtain rfl : c.entry = pc' := by simpa using hk'
          exact ⟨c, ⟨_, List.mem_append_right _ (List.mem_singleton_self _), rfl⟩,
            RingCall.fits_entry hadmits size⟩
        · exact hkeep k' pc' (by simpa [hne] using hk')
      · -- a call returns
        refine ⟨hwf, hsize, fun k' pc' hk' => ?_⟩
        by_cases hne : k' = k
        · simp [hne] at hk'
        · exact hkeep k' pc' (by simpa [hne] using hk')
      · -- an access of one call
        obtain ⟨c, hc, hpc⟩ := hkeep k pc hk
        rw [← hsize] at hpc
        obtain ⟨hwf', hsize', hpc'⟩ := fits_of_ringStep hwf hpc hring
        refine ⟨hwf', hsize'.trans hsize, fun k' pc'' hk' => ?_⟩
        by_cases hne : k' = k
        · subst hne
          obtain rfl : pc' = pc'' := by simpa using hk'
          exact ⟨c, hc, hsize ▸ hpc'⟩
        · exact hkeep k' pc'' (by simpa [hne] using hk')

/-- **No access is out of bounds.** In every state of every run of the ring under its spinlock, with
any number of calls in flight: a `ring_push` that is about to write to `samples[]` and a
`ring_consume` that is about to read from it do so below the length the array was allocated with;
and the latter writes to `out[]` below `max`, for which its caller has made room. What it returns
is at most `max`, too. -/
theorem accesses_in_bounds (hinit : ringInit size vzalloc = .ok r)
    (h : SpinRing.machine.Trace (SpinRing.start r) ts m) :
    m.mem.ring.samples.size = size.toNat ∧
    (∀ k s slot w, m.calls.find k = some (.storeWord s slot w) → slot.toNat < size.toNat) ∧
    (∀ k f out toCopy i slot w, m.calls.find k = some (.loadWord f out toCopy i slot w) →
      slot.toNat < size.toNat ∧ ∃ f' out₀ max, Begins ts k (.op (.consume f' out₀ max)) ∧
        i < max.toNat ∧ max.toNat ≤ out₀.size ∧ out.size = out₀.size) ∧
    ∀ k out count, m.calls.find k = some (.ret (.consumed out count)) →
      ∃ f out₀ max, Begins ts k (.op (.consume f out₀ max)) ∧
        count.toNat ≤ max.toNat ∧ out.size = out₀.size := by
  obtain ⟨hwf, hsize, hfits⟩ := bounded_of_trace hinit h
  refine ⟨by rw [hwf.cells, hsize], fun k s slot w hk => ?_,
    fun k f out toCopy i slot w hk => ?_, fun k out count hk => ?_⟩
  · obtain ⟨c, -, hslot⟩ := hfits k _ hk
    exact hslot
  · obtain ⟨c, hc, ⟨max, ⟨f', out₀, rfl, hout, hroom⟩, hle⟩, hlt, hslot⟩ := hfits k _ hk
    exact ⟨hslot, f', out₀, max, hc, by omega, hroom, hout⟩
  · obtain ⟨c, hc, max, ⟨f, out₀, rfl, hout, -⟩, hle⟩ := hfits k _ hk
    exact ⟨f, out₀, max, hc, hle, hout⟩

/-- A `ring_consume` in the middle of its first record. -/
theorem accesses_in_bounds_copying :
    ∃ ts m f out toCopy i slot w,
      SpinRing.machine.Trace (SpinRing.start ⟨Array.replicate 2 default, 2, 1, 0, 0⟩) ts m ∧
      m.calls.find 2 = some (.loadWord f out toCopy i slot w) ∧
      slot.toNat < 2 ∧ ∃ f' out₀ max, Begins ts 2 (.op (.consume f' out₀ max)) ∧
        i < max.toNat ∧ max.toNat ≤ out₀.size ∧ out.size = out₀.size := by
  have hrun : (SpinRing.machine.exec (SpinRing.start ⟨Array.replicate 2 default, 2, 1, 0, 0⟩)
      ([.call (.op (.openFile 0 true))] ++ List.replicate 3 (.run 0)
        ++ [.call (.op (.push (.stamped 1)))] ++ List.replicate 11 (.run 1)
        ++ [.call (.op (.consume 0 #[default] 1))] ++ List.replicate 8 (.run 2))).map
      (fun p => (p.2.calls.find 2).any fun pc => pc matches .loadWord ..) = some true := by
    decide
  obtain ⟨⟨ts, m⟩, hexec, hseen⟩ := Option.map_eq_some_iff.mp hrun
  obtain ⟨pc, hk, hpc⟩ := (Option.any_eq_true _ _).mp hseen
  split at hpc
  next f out toCopy i slot w =>
    have hinit : ringInit 2 true = .ok ⟨Array.replicate 2 default, 2, 1, 0, 0⟩ := rfl
    have htr := Trace.of_exec hexec
    obtain ⟨hslot, hbuffer⟩ := (accesses_in_bounds hinit htr).2.2.1 2 f out toCopy i slot w hk
    exact ⟨ts, m, f, out, toCopy, i, slot, w, htr, hk, hslot, hbuffer⟩
  next => cases hpc

end Run

end GpuTelem
