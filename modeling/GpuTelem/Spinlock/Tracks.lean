import GpuTelem.Spinlock

/-!
# Memory against the sequential ring

While a call holds the lock, memory is not the state of the ring whose calls run one after the
other: a record may be half written, a batch half copied. `Tracks` says what it is instead, by the
point of the call that holds the lock, and the lemmas below say what one access does to it.

`ring_push` takes effect at `head_seq++`. `ring_consume` takes effect where it gets the lock: from
there on its result is settled, and `RingPc.rest` is the part of it still to come.

## Main definitions

* `RingPc.rest`: what a call that holds the lock is going to do;
* `Tracks`: memory and calls in flight against the sequential ring.

## Main results

* `Tracks.run`: one access, with what it leaves to the other calls;
* `Tracks.run_critical`, `Tracks.run_takeLock`, `Tracks.run_unlock`, `Tracks.run_idle`,
  `Tracks.run_ret`, `Tracks.run_setFile`: the kinds of accesses;
* `Tracks.internal_consume`: the accesses of `ring_consume` under the lock.
-/

namespace GpuTelem

open Linearizability Machine

/-- Six words later the record has been assigned. -/
theorem GpuSample.modify_copyWords (xs : Array GpuSample) (i : ℕ) (src : GpuSample) :
    xs.modify i (src.copyWords GpuSample.words) = xs.setIfInBounds i src := by
  rw [← CyclicArray.modify_const]
  congr 1

/-! ## What is left of a critical section -/

/-- `ring_consume` from `behind > r->size` on. -/
def consumeBehind (r : RingBuf) (nextSeq behind : UInt64) (out : Array GpuSample) (max : UInt32) :
    Consumed :=
  if behind > r.size.toUInt64 then
    let skip := behind - r.size.toUInt64
    copyOut { r with dropped := r.dropped + skip } (nextSeq + skip) r.size.toUInt64 out max
  else copyOut r nextSeq behind out max

/-- `ring_consume` from iteration `i` of its loop on. -/
def copyRest (r : RingBuf) (nextSeq : UInt64) (out : Array GpuSample) (toCopy : UInt32) (i : ℕ) :
    Consumed :=
  let p := (List.range' i (toCopy.toNat - i)).foldl (copyStep r) (nextSeq, out)
  { ring := r, nextSeq := p.1, out := p.2, count := toCopy }

theorem copyOut_eq_copyRest (r : RingBuf) (nextSeq behind : UInt64) (out : Array GpuSample)
    (max : UInt32) :
    copyOut r nextSeq behind out max
      = copyRest r nextSeq out (min behind max.toUInt64).toUInt32 0 := by
  simp [copyOut, copyRest, List.range_eq_range']

/-- The loop ends where its test fails. -/
theorem copyRest_of_le {toCopy : UInt32} {i : ℕ} (h : toCopy.toNat ≤ i) (r : RingBuf)
    (nextSeq : UInt64) (out : Array GpuSample) :
    copyRest r nextSeq out toCopy i
      = { ring := r, nextSeq := nextSeq, out := out, count := toCopy } := by
  simp [copyRest, Nat.sub_eq_zero_of_le h]

/-- One iteration of the loop. -/
theorem copyRest_of_lt {toCopy : UInt32} {i : ℕ} (h : i < toCopy.toNat) (r : RingBuf)
    (nextSeq : UInt64) (out : Array GpuSample) :
    copyRest r nextSeq out toCopy i
      = copyRest r (nextSeq + 1)
          (out.setIfInBounds i r.samples[(ringSlot r nextSeq).toNat]!) toCopy (i + 1) := by
  obtain ⟨n, hn⟩ : ∃ n, toCopy.toNat - i = n + 1 := ⟨toCopy.toNat - i - 1, by omega⟩
  have hn' : toCopy.toNat - (i + 1) = n := by omega
  simp only [copyRest, hn, hn', List.range'_succ, List.foldl_cons, copyStep]

/-- What a call at a point of `ring_consume` leaves behind when it finds the cursor at `nextSeq` and
nobody interferes. -/
def RingPc.restFrom (r : RingBuf) (nextSeq : UInt64) : RingPc → Option Consumed
  | .loadHead _ out max => some (ringConsume r nextSeq out max)
  | .compare _ out max head =>
      some
        (if head ≤ nextSeq then { ring := r, nextSeq := nextSeq, out := out, count := 0 }
        else consumeBehind r nextSeq (head - nextSeq) out max)
  | .overrun _ out max behind => some (consumeBehind r nextSeq behind out max)
  | .skipSeq _ out max skip => some (copyOut r (nextSeq + skip) r.size.toUInt64 out max)
  | .testCopy _ out toCopy i => some (copyRest r nextSeq out toCopy i)
  -- the iteration under way overwrites what it has copied so far
  | .loadWord _ out toCopy i _ _ => some (copyRest r nextSeq out toCopy i)
  | .advance _ out toCopy i => some (copyRest r (nextSeq + 1) out toCopy (i + 1))
  | _ => none

/-- What a call at a point of `ring_consume` is going to leave behind, and for which file. -/
def RingPc.rest (mem : Readers) (pc : RingPc) : Option (FileId × Consumed) :=
  pc.file.bind fun f =>
    (mem.cursor f).bind fun nextSeq => (pc.restFrom mem.ring nextSeq).map fun t => (f, t)

/-- The state `ring_consume` on `f` leaves behind. -/
def Readers.finish (mem : Readers) (f : FileId) (t : Consumed) : Readers where
  ring := t.ring
  files := Function.update mem.files f (.opened { nextSeq := t.nextSeq })

/-- Whether a call at this point holds the lock. -/
def RingPc.critical : RingPc → Bool
  | .pickSlot _ => true
  | .storeWord _ _ _ => true
  | .bump _ => true
  | .loadHead _ _ _ => true
  | .compare _ _ _ _ => true
  | .overrun _ _ _ _ => true
  | .skipSeq _ _ _ _ => true
  | .testCopy _ _ _ _ => true
  | .loadWord _ _ _ _ _ _ => true
  | .advance _ _ _ _ => true
  | .readDropped => true
  | .unlock _ => true
  | _ => false

/-- What the locals of a call that copies a record satisfy. -/
def RingPc.Copying (mem : Readers) : RingPc → Prop
  | .loadWord f out toCopy i slot w =>
      i < toCopy.toNat ∧ w < GpuSample.words ∧
        (∀ seq, mem.cursor f = some seq → slot = ringSlot mem.ring seq) ∧
        ∃ out₀ : Array GpuSample,
          out = out₀.modify i (mem.ring.samples[slot.toNat]!.copyWords w)
  | .advance _ _ toCopy i => i < toCopy.toNat
  | _ => True

/-- Memory, with the holder of the lock at this point, against the sequential ring: a record half
written is not in the sequential ring yet, a batch half copied is out of it already. -/
def RingPc.Agrees (mem a : Readers) : RingPc → Prop
  | .pickSlot _ => mem = a
  | .storeWord s slot w =>
      slot = ringSlot a.ring a.ring.headSeq ∧ w < GpuSample.words ∧
        mem = { a with ring := { a.ring with
          samples := a.ring.samples.modify slot.toNat (s.copyWords w) } }
  | .bump s =>
      mem = { a with ring := { a.ring with
        samples := a.ring.samples.setIfInBounds (ringSlot a.ring a.ring.headSeq).toNat s } }
  | .readDropped => mem = a
  | .unlock _ => mem = a
  | pc => pc.Copying mem ∧ ∃ f t, pc.rest mem = some (f, t) ∧ a = mem.finish f t

/-- The call a point belongs to, as long as it has not taken effect. -/
def RingPc.pending : RingPc → Option RingCall
  | .takeLock c => some c
  | .pickSlot s => some (.op (.push s))
  | .storeWord s _ _ => some (.op (.push s))
  | .bump s => some (.op (.push s))
  | .readDropped => some .dropped
  | .readHead nextSeq => some (.dataAvailable nextSeq)
  | .alloc f kzalloc => some (.op (.openFile f kzalloc))
  | .snapshot f => some (.op (.openFile f true))
  | .free f => some (.op (.release f))
  | .early f e => some (.op (.fail f e))
  | _ => none

/-- What a call that has taken effect is going to return. -/
def RingPc.answer (mem : Readers) : RingPc → RingResult
  | .unlock res => res
  | .ret res => res
  | pc =>
      match pc.rest mem with
      | some (_, t) => .consumed t.out t.count
      | none => .done

/-- The status of a call at this point. -/
def RingPc.StatusIs (mem : Readers) (pc : RingPc) (σ : Status RingCall RingResult) : Prop :=
  match pc.pending with
  | some c => σ = .called c
  | none => ∃ i, σ = .performed i (pc.answer mem)

/-- Whether a call is about to open its file. -/
def RingPc.opening : RingPc → Bool
  | .alloc _ _ => true
  | .snapshot _ => true
  | _ => false

/-- What a call relies on: its file is open, or was never used if the call opens it. -/
def RingPc.FileOk (mem : Readers) (pc : RingPc) : Prop :=
  ∀ f, pc.file = some f →
    if pc.opening then mem.files f = .unused else (mem.cursor f).isSome = true

/-- Which calls wait for the lock: `ring_push`, `ring_consume` with room in its buffer, and
`ring_dropped`. -/
def RingPc.LockOk : RingPc → Prop
  | .takeLock (.op (.push _)) => True
  | .takeLock (.op (.consume _ out max)) => max.toNat ≤ out.size
  | .takeLock .dropped => True
  | .takeLock _ => False
  | _ => True

/-- The ring under its spinlock against the sequential ring. -/
structure Tracks (m : SpinRing) (a : Readers) (st : CallId → Status RingCall RingResult) :
    Prop where
  fresh : ∀ k, m.nextId ≤ k → st k = .unused ∧ m.calls.find k = none
  /-- Who is in a critical section holds the lock, and nobody else. -/
  holder : ∀ k, m.lock = some k ↔ ∃ pc, m.calls.find k = some pc ∧ pc.critical = true
  unlocked : m.lock = none → m.mem = a
  agrees : ∀ k pc, m.calls.find k = some pc → pc.critical = true → pc.Agrees m.mem a
  status : ∀ k pc, m.calls.find k = some pc → pc.StatusIs m.mem (st k)
  files : ∀ k pc, m.calls.find k = some pc → pc.FileOk m.mem ∧ pc.LockOk
  /-- While a call opens or releases a file, no other call needs it. -/
  exclusive : ∀ k k' pc pc' f, k ≠ k' → m.calls.find k = some pc → m.calls.find k' = some pc' →
    pc.exclusive = true → pc.file = some f → pc'.file ≠ some f

/-! ## What the other calls notice -/

/-- A call outside a critical section does not look at the ring. -/
theorem RingPc.StatusIs.of_not_critical {mem mem' : Readers} {pc : RingPc}
    {σ : Status RingCall RingResult} (hpc : pc.critical = false) (h : pc.StatusIs mem σ) :
    pc.StatusIs mem' σ := by
  cases pc <;> first | exact h | cases hpc

/-- What a call relies on is kept when open files stay open and the others stay as they are. -/
theorem RingPc.FileOk.of_live {mem mem' : Readers} {pc : RingPc} (h : pc.FileOk mem)
    (hlive : ∀ g, mem'.files g = mem.files g ∨ (mem.cursor g).isSome ∧ (mem'.cursor g).isSome) :
    pc.FileOk mem' := by
  intro f hf
  have hok := h f hf
  rcases hlive f with hsame | ⟨hopen, hopen'⟩
  · simpa [Readers.cursor, hsame] using hok
  · split at hok
    -- a file never used is not open
    next => simp [Readers.cursor, hok] at hopen
    next hopening => rw [if_neg hopening]; exact hopen'

/-- Memory with another state of the file `g`. -/
def Readers.setFile (mem : Readers) (g : FileId) (x : FileSlot) : Readers :=
  { mem with files := Function.update mem.files g x }

section SetFile

variable {mem a : Readers} {pc : RingPc} {f g : FileId} {x : FileSlot}

theorem Readers.files_setFile_of_ne (h : f ≠ g) : (mem.setFile g x).files f = mem.files f := by
  simp [Readers.setFile, h]

theorem Readers.cursor_setFile_of_ne (h : f ≠ g) :
    (mem.setFile g x).cursor f = mem.cursor f := by
  simp [Readers.cursor, files_setFile_of_ne h]

theorem Readers.finish_setFile_of_ne (h : f ≠ g) (t : Consumed) :
    (mem.setFile g x).finish f t = (mem.finish f t).setFile g x := by
  simp only [Readers.finish, Readers.setFile, Function.update_comm h]

/-- A call does not notice what happens to a file it does not need. -/
theorem RingPc.rest_setFile (h : pc.file ≠ some g) : pc.rest (mem.setFile g x) = pc.rest mem := by
  cases hfile : pc.file with
  | none => simp [rest, hfile]
  | some f =>
      have hne : f ≠ g := fun heq => h (by rw [hfile, heq])
      simp only [rest, hfile, Option.bind_some, Readers.cursor_setFile_of_ne hne]
      rfl

/-- The file of what is left to do is the one the call needs. -/
theorem RingPc.file_of_rest {t : Consumed} (h : pc.rest mem = some (f, t)) :
    pc.file = some f := by
  obtain ⟨f', hf', h⟩ := Option.bind_eq_some_iff.mp h
  obtain ⟨_, -, h⟩ := Option.bind_eq_some_iff.mp h
  obtain ⟨_, -, h⟩ := Option.map_eq_some_iff.mp h
  rw [hf', (Prod.mk.inj h).1]

theorem RingPc.FileOk.setFile (h : pc.FileOk mem) (hne : pc.file ≠ some g) :
    pc.FileOk (mem.setFile g x) := by
  intro f hf
  have hfg : f ≠ g := fun heq => hne (by rw [hf, heq])
  rw [Readers.files_setFile_of_ne hfg, Readers.cursor_setFile_of_ne hfg]
  exact h f hf

theorem RingPc.StatusIs.setFile {σ : Status RingCall RingResult} (h : pc.StatusIs mem σ)
    (hne : pc.file ≠ some g) : pc.StatusIs (mem.setFile g x) σ := by
  have hanswer : pc.answer (mem.setFile g x) = pc.answer mem := by
    have hrest : pc.rest (mem.setFile g x) = pc.rest mem := rest_setFile hne
    cases pc <;> first | rfl | (simp only [answer, hrest])
  rw [StatusIs, hanswer]
  exact h

theorem RingPc.Copying.setFile (h : pc.Copying mem) (hne : pc.file ≠ some g) :
    pc.Copying (mem.setFile g x) := by
  cases pc with
  | loadWord f out toCopy i slot w =>
      obtain ⟨hi, hw, hslot, hout⟩ := h
      have hfg : f ≠ g := fun heq => hne (by rw [file, heq])
      exact ⟨hi, hw, by rw [Readers.cursor_setFile_of_ne hfg]; exact hslot, hout⟩
  | _ => exact h

theorem RingPc.Agrees.setFile (h : pc.Agrees mem a) (hne : pc.file ≠ some g) :
    pc.Agrees (mem.setFile g x) (a.setFile g x) := by
  have hconsume : (pc.Copying mem ∧ ∃ f t, pc.rest mem = some (f, t) ∧ a = mem.finish f t) →
      pc.Copying (mem.setFile g x) ∧
        ∃ f t, pc.rest (mem.setFile g x) = some (f, t) ∧
          a.setFile g x = (mem.setFile g x).finish f t := by
    rintro ⟨hcopying, f, t, hrest, rfl⟩
    have hfg : f ≠ g := fun heq => hne (by rw [file_of_rest hrest, heq])
    exact ⟨hcopying.setFile hne, f, t, by rw [rest_setFile hne, hrest],
      (Readers.finish_setFile_of_ne hfg t).symm⟩
  cases pc with
  | pickSlot s => exact congrArg (Readers.setFile · g x) h
  | storeWord s slot w => exact ⟨h.1, h.2.1, congrArg (Readers.setFile · g x) h.2.2⟩
  | bump s => exact congrArg (Readers.setFile · g x) h
  | readDropped => exact congrArg (Readers.setFile · g x) h
  | unlock res => exact congrArg (Readers.setFile · g x) h
  | _ => exact hconsume h

end SetFile

/-! ## What the sequential ring shows of memory -/

namespace RingPc

variable {mem a : Readers} {pc : RingPc}

/-- `ring_consume` changes nothing in the ring but `dropped`, from wherever it goes on. -/
theorem ring_of_restFrom {r : RingBuf} {nextSeq : UInt64} {t : Consumed}
    (h : pc.restFrom r nextSeq = some t) : ∃ d, t.ring = { r with dropped := d } := by
  have hbehind : ∀ behind out max, ∃ d,
      (consumeBehind r nextSeq behind out max).ring = { r with dropped := d } := by
    intro behind out max
    unfold consumeBehind
    split
    · exact ⟨_, rfl⟩
    · exact ⟨r.dropped, rfl⟩
  cases pc with
  | loadHead f out max =>
      obtain rfl := Option.some.inj h
      exact ring_ringConsume r nextSeq out max
  | compare f out max head =>
      obtain rfl := Option.some.inj h
      split
      · exact ⟨r.dropped, rfl⟩
      · exact hbehind _ _ _
  | overrun f out max behind =>
      obtain rfl := Option.some.inj h
      exact hbehind _ _ _
  -- `dropped` has been counted already
  | skipSeq f out max skip => obtain rfl := Option.some.inj h; exact ⟨r.dropped, rfl⟩
  | testCopy f out toCopy i => obtain rfl := Option.some.inj h; exact ⟨r.dropped, rfl⟩
  | loadWord f out toCopy i slot w => obtain rfl := Option.some.inj h; exact ⟨r.dropped, rfl⟩
  | advance f out toCopy i => obtain rfl := Option.some.inj h; exact ⟨r.dropped, rfl⟩
  | _ => cases h

/-- Whether a call is past the lock in `ring_consume`. -/
def consuming (pc : RingPc) : Bool :=
  match pc with
  | .loadHead _ _ _ => true
  | .compare _ _ _ _ => true
  | .overrun _ _ _ _ => true
  | .skipSeq _ _ _ _ => true
  | .testCopy _ _ _ _ => true
  | .loadWord _ _ _ _ _ _ => true
  | .advance _ _ _ _ => true
  | _ => false

theorem critical_of_consuming (h : pc.consuming = true) : pc.critical = true := by
  cases pc <;> first | rfl | cases h

theorem agrees_iff_of_consuming (h : pc.consuming = true) :
    pc.Agrees mem a ↔ pc.Copying mem ∧ ∃ f t, pc.rest mem = some (f, t) ∧ a = mem.finish f t := by
  cases pc <;> first | exact Iff.rfl | cases h

/-- `ring_consume` has taken effect, and returns what it is going to copy. -/
theorem statusIs_iff_of_consuming (h : pc.consuming = true) {f : FileId} {t : Consumed}
    (ht : pc.rest mem = some (f, t)) {σ : Status RingCall RingResult} :
    pc.StatusIs mem σ ↔ ∃ i, σ = .performed i (.consumed t.out t.count) := by
  cases pc <;> first | (cases h; done) | simp only [StatusIs, pending, answer, ht]

/-- A call that holds the lock has changed neither `head_seq` nor a file of another call. -/
theorem Agrees.frame (h : pc.Agrees mem a) :
    mem.ring.headSeq = a.ring.headSeq ∧ ∀ g, pc.file ≠ some g → mem.files g = a.files g := by
  have hconsume : (pc.Copying mem ∧ ∃ f t, pc.rest mem = some (f, t) ∧ a = mem.finish f t) →
      mem.ring.headSeq = a.ring.headSeq ∧ ∀ g, pc.file ≠ some g → mem.files g = a.files g := by
    rintro ⟨-, f, t, hrest, rfl⟩
    have hfile := file_of_rest hrest
    obtain ⟨_, -, h⟩ := Option.bind_eq_some_iff.mp hrest
    obtain ⟨nextSeq, -, h⟩ := Option.bind_eq_some_iff.mp h
    obtain ⟨t', ht', h⟩ := Option.map_eq_some_iff.mp h
    obtain ⟨-, rfl⟩ := Prod.mk.inj h
    obtain ⟨d, hd⟩ := ring_of_restFrom ht'
    refine ⟨by simp [Readers.finish, hd], fun g hg => ?_⟩
    have hgf : g ≠ f := fun heq => hg (by rw [hfile, heq])
    simp [Readers.finish, hgf]
  cases pc with
  | pickSlot s => obtain rfl := h; exact ⟨rfl, fun _ _ => rfl⟩
  | storeWord s slot w => obtain ⟨-, -, rfl⟩ := h; exact ⟨rfl, fun _ _ => rfl⟩
  | bump s => obtain rfl := h; exact ⟨rfl, fun _ _ => rfl⟩
  | readDropped => obtain rfl := h; exact ⟨rfl, fun _ _ => rfl⟩
  | unlock res => obtain rfl := h; exact ⟨rfl, fun _ _ => rfl⟩
  | _ => exact hconsume h

/-- An open file is open for the sequential ring. -/
theorem Agrees.cursor_isSome (h : pc.Agrees mem a) {g : FileId} (hg : (mem.cursor g).isSome) :
    (a.cursor g).isSome := by
  by_cases hfile : pc.file = some g
  · have hconsume : (pc.Copying mem ∧ ∃ f t, pc.rest mem = some (f, t) ∧ a = mem.finish f t) →
        (a.cursor g).isSome := by
      rintro ⟨-, f, t, hrest, rfl⟩
      obtain rfl : f = g := Option.some.inj ((file_of_rest hrest).symm.trans hfile)
      simp [Readers.finish]
    cases pc with
    | pickSlot s => cases hfile
    | storeWord s slot w => cases hfile
    | bump s => cases hfile
    | readDropped => cases hfile
    | unlock res => cases hfile
    | _ => exact hconsume h
  · simpa [Readers.cursor, h.frame.2 g hfile] using hg

end RingPc

namespace Tracks

variable {m : SpinRing} {a a' mem' : Readers} {st : CallId → Status RingCall RingResult}
  {lock' : Option CallId} {k : CallId} {pc pc' : RingPc} {σ : Status RingCall RingResult}

/-- `head_seq` in memory is that of the sequential ring, whoever holds the lock. -/
theorem headSeq_eq (h : Tracks m a st) : m.mem.ring.headSeq = a.ring.headSeq := by
  cases hlock : m.lock with
  | none => rw [h.unlocked hlock]
  | some k =>
      obtain ⟨pc, hpc, hcritical⟩ := (h.holder k).mp hlock
      exact (h.agrees k pc hpc hcritical).frame.1

/-- An open file is open for the sequential ring. -/
theorem cursor_isSome (h : Tracks m a st) {g : FileId} (hg : (m.mem.cursor g).isSome) :
    (a.cursor g).isSome := by
  cases hlock : m.lock with
  | none => rwa [← h.unlocked hlock]
  | some k =>
      obtain ⟨pc, hpc, hcritical⟩ := (h.holder k).mp hlock
      exact (h.agrees k pc hpc hcritical).cursor_isSome hg

/-- The state of a file no other call needs is that of the sequential ring. -/
theorem files_eq (h : Tracks m a st) (hk : m.calls.find k = some pc) (hpc : pc.critical = false)
    (hexclusive : pc.exclusive = true) {g : FileId} (hg : pc.file = some g) :
    m.mem.files g = a.files g := by
  cases hlock : m.lock with
  | none => rw [h.unlocked hlock]
  | some k' =>
      obtain ⟨pc', hpc', hcritical⟩ := (h.holder k').mp hlock
      have hne : k ≠ k' := by
        rintro rfl
        rw [hk, Option.some.injEq] at hpc'
        simp [← hpc', hpc] at hcritical
      exact (h.agrees k' pc' hpc' hcritical).frame.2 g
        (h.exclusive k k' pc pc' g hne hk hpc' hexclusive hg)

/-- One access of call `k`: what it establishes for itself, and what it leaves to the others. -/
theorem run (h : Tracks m a st) (hk : m.calls.find k = some pc) (mem' a' : Readers)
    (lock' : Option CallId) (pc' : RingPc) (σ : Status RingCall RingResult)
    (hlock : ∀ k', lock' = some k' ↔ if k' = k then pc'.critical = true else m.lock = some k')
    (hfile : ∀ f, pc'.file = some f → pc.file = some f)
    (hexclusive : pc'.exclusive = true → pc.exclusive = true)
    (hothers : ∀ k' pc₂, k' ≠ k → m.calls.find k' = some pc₂ →
      (pc₂.critical = true → pc₂.Agrees mem' a') ∧ pc₂.StatusIs mem' (st k') ∧ pc₂.FileOk mem')
    (hunlocked : lock' = none → mem' = a') (hagrees : pc'.critical = true → pc'.Agrees mem' a')
    (hstatus : pc'.StatusIs mem' σ) (hfileOk : pc'.FileOk mem') (hlockOk : pc'.LockOk) :
    Tracks { m with mem := mem', lock := lock', calls := m.calls.insert k pc' } a'
      (Function.update st k σ) := by
  refine ⟨?_, ?_, hunlocked, ?_, ?_, ?_, ?_⟩
  · -- identifiers that are still to be given out
    intro k' hk'
    obtain ⟨hst, hfind⟩ := h.fresh k' hk'
    have hne : k' ≠ k := by
      rintro rfl
      rw [hk] at hfind
      cases hfind
    simp [hne, hst, hfind]
  · -- who holds the lock
    intro k'
    rw [hlock k']
    by_cases hk' : k' = k
    · simp [hk']
    · simp [hk', h.holder k']
  · -- memory, as the one in its critical section needs it
    intro k' pc₂ hk' hcritical
    by_cases hne : k' = k
    · obtain rfl : pc' = pc₂ := by simpa [hne] using hk'
      exact hagrees hcritical
    · exact (hothers k' pc₂ hne (by simpa [hne] using hk')).1 hcritical
  · -- how far each call has come
    intro k' pc₂ hk'
    by_cases hne : k' = k
    · obtain rfl : pc' = pc₂ := by simpa [hne] using hk'
      simpa [hne] using hstatus
    · simpa [hne] using (hothers k' pc₂ hne (by simpa [hne] using hk')).2.1
  · -- what each call relies on
    intro k' pc₂ hk'
    by_cases hne : k' = k
    · obtain rfl : pc' = pc₂ := by simpa [hne] using hk'
      exact ⟨hfileOk, hlockOk⟩
    · have hfind : m.calls.find k' = some pc₂ := by simpa [hne] using hk'
      exact ⟨(hothers k' pc₂ hne hfind).2.2, (h.files k' pc₂ hfind).2⟩
  · -- nobody else uses a file that is opened or released: `k` has taken no new one
    intro k₁ k₂ pc₁ pc₂ f hne h₁ h₂ hexcl hf
    by_cases hk₁ : k₁ = k
    · obtain rfl : pc' = pc₁ := by simpa [hk₁] using h₁
      have hk₂ : k₂ ≠ k := fun heq => hne (by rw [hk₁, heq])
      exact h.exclusive k k₂ pc pc₂ f (Ne.symm hk₂) hk (by simpa [hk₂] using h₂)
        (hexclusive hexcl) (hfile f hf)
    · have hfind₁ : m.calls.find k₁ = some pc₁ := by simpa [hk₁] using h₁
      by_cases hk₂ : k₂ = k
      · obtain rfl : pc' = pc₂ := by simpa [hk₂] using h₂
        intro hf'
        exact h.exclusive k₁ k pc₁ pc f hk₁ hfind₁ hk hexcl hf (hfile f hf')
      · exact h.exclusive k₁ k₂ pc₁ pc₂ f hne hfind₁ (by simpa [hk₂] using h₂) hexcl hf

/-- Without the lock nobody else is in a critical section. -/
theorem not_critical (h : Tracks m a st) (hlock : ∀ k', m.lock = some k' → k' = k) {k' : CallId}
    {pc₂ : RingPc} (hne : k' ≠ k) (hk' : m.calls.find k' = some pc₂) : pc₂.critical = false := by
  by_contra hcritical
  rw [Bool.not_eq_false] at hcritical
  exact hne (hlock k' ((h.holder k').mpr ⟨pc₂, hk', hcritical⟩))

/-- One access inside a critical section. -/
theorem run_critical (h : Tracks m a st) (hk : m.calls.find k = some pc) (mem' a' : Readers)
    (pc' : RingPc) (σ : Status RingCall RingResult) (hpc : pc.critical = true)
    (hpc' : pc'.critical = true) (hfile : ∀ f, pc'.file = some f → pc.file = some f)
    (hlive : ∀ g, mem'.files g = m.mem.files g ∨
      (m.mem.cursor g).isSome ∧ (mem'.cursor g).isSome)
    (hagrees : pc'.Agrees mem' a') (hstatus : pc'.StatusIs mem' σ) :
    Tracks { m with mem := mem', calls := m.calls.insert k pc' } a'
      (Function.update st k σ) := by
  have hlock : m.lock = some k := (h.holder k).mpr ⟨pc, hk, hpc⟩
  have hplain : ∀ pc : RingPc, pc.critical = true →
      pc.exclusive = false ∧ pc.opening = false ∧ pc.LockOk := by
    intro pc hpc
    cases pc <;> first | exact ⟨rfl, rfl, trivial⟩ | cases hpc
  refine h.run hk mem' a' m.lock pc' σ ?_ hfile ?_ ?_ ?_ (fun _ => hagrees) hstatus ?_
    (hplain pc' hpc').2.2
  · -- `k` keeps the lock
    intro k'
    by_cases hk' : k' = k
    · simp [hk', hpc', hlock]
    · simp [hk']
  · simp [(hplain pc' hpc').1]
  · -- the others are outside their critical sections, where memory may change
    intro k' pc₂ hne hk'
    have hnot := h.not_critical (by simp [hlock]) hne hk'
    exact ⟨by simp [hnot], (h.status k' pc₂ hk').of_not_critical hnot,
      (h.files k' pc₂ hk').1.of_live hlive⟩
  · simp [hlock]
  · -- the files that were open still are
    intro f hf
    have hopen := (h.files k pc hk).1.of_live hlive f (hfile f hf)
    rw [(hplain pc hpc).2.1] at hopen
    rwa [(hplain pc' hpc').2.1]

/-- One access of `ring_consume` that leads to another of its points: what is left to do stays. -/
theorem run_consume (h : Tracks m a st) (hk : m.calls.find k = some pc)
    (hpc : pc.consuming = true) (hpc' : pc'.consuming = true) {f : FileId} (hf : pc.file = some f)
    (hf' : pc'.file = some f) {nextSeq : UInt64} (nextSeq' d : UInt64)
    (hcursor : m.mem.cursor f = some nextSeq)
    (hmem : mem' = { ring := { m.mem.ring with dropped := d }
                     files := Function.update m.mem.files f (.opened { nextSeq := nextSeq' }) })
    (hrest : pc'.restFrom mem'.ring nextSeq' = pc.restFrom m.mem.ring nextSeq)
    (hcopying : pc'.Copying mem') :
    Tracks { m with mem := mem', calls := m.calls.insert k pc' } a st := by
  have hcursor' : mem'.cursor f = some nextSeq' := by simp [hmem]
  -- the result is settled, and what is left of it does not change
  have hrest' : pc'.rest mem' = pc.rest m.mem := by
    simp only [RingPc.rest, hf, hf', Option.bind_some, hcursor, hcursor', hrest]
  obtain ⟨-, g, t, ht, rfl⟩ :=
    (RingPc.agrees_iff_of_consuming hpc).mp (h.agrees k pc hk (RingPc.critical_of_consuming hpc))
  obtain rfl : f = g := Option.some.inj (hf.symm.trans (RingPc.file_of_rest ht))
  have hstatus := (RingPc.statusIs_iff_of_consuming hpc ht).mp (h.status k pc hk)
  have hagrees : pc'.Agrees mem' (m.mem.finish f t) := by
    refine (RingPc.agrees_iff_of_consuming hpc').mpr
      ⟨hcopying, f, t, by rw [hrest', ht], ?_⟩
    simp [hmem, Readers.finish]
  have htracks := h.run_critical hk mem' _ pc' (st k) (RingPc.critical_of_consuming hpc)
    (RingPc.critical_of_consuming hpc') (fun g hg => by rwa [hf, ← hf']) ?_ hagrees
    ((RingPc.statusIs_iff_of_consuming hpc' (by rw [hrest', ht])).mpr hstatus)
  · rwa [Function.update_eq_self] at htracks
  · -- only the cursor of `f` moves, and `f` stays open
    intro g
    by_cases hg : g = f
    · exact .inr ⟨by simp [hg, hcursor], by simp [hg, hcursor']⟩
    · exact .inl (by simp [hmem, hg])

/-- A call gets the lock. -/
theorem run_takeLock (h : Tracks m a st) {c : RingCall} (hk : m.calls.find k = some (.takeLock c))
    (hlock : m.lock = none) (hfile : ∀ f, c.locked.file = some f →
      c.locked.opening = false ∧ RingPc.file (.takeLock c) = some f)
    (hcritical : c.locked.critical = true) (hplain : c.locked.exclusive = false ∧ c.locked.LockOk)
    (hagrees : c.locked.Agrees m.mem a') (hstatus : c.locked.StatusIs m.mem σ) :
    Tracks { m with lock := some k, calls := m.calls.insert k c.locked } a'
      (Function.update st k σ) := by
  have hnone : ∀ k', m.lock = some k' → k' = k := by simp [hlock]
  refine h.run hk m.mem a' (some k) c.locked σ ?_ (fun f hf => (hfile f hf).2) ?_ ?_ nofun
    (fun _ => hagrees) hstatus ?_ hplain.2
  · intro k'
    by_cases hk' : k' = k
    · simp [hk', hcritical]
    · simp [hk', hlock, Ne.symm hk']
  · simp [hplain.1]
  · -- nobody held the lock, so the other calls are outside their critical sections
    intro k' pc₂ hne hk'
    have hnot := h.not_critical hnone hne hk'
    exact ⟨by simp [hnot], h.status k' pc₂ hk', (h.files k' pc₂ hk').1⟩
  · intro f hf
    obtain ⟨hopening, hf'⟩ := hfile f hf
    rw [hopening]
    exact (h.files k _ hk).1 f hf'

/-- A call gives the lock back. -/
theorem run_unlock (h : Tracks m a st) {res : RingResult}
    (hk : m.calls.find k = some (.unlock res)) :
    Tracks { m with lock := none, calls := m.calls.insert k (.ret res) } a st := by
  have hlock : m.lock = some k := (h.holder k).mpr ⟨_, hk, rfl⟩
  have hmem : m.mem = a := h.agrees k _ hk rfl
  have hstatus : (RingPc.ret res).StatusIs m.mem (st k) := h.status k (.unlock res) hk
  have htracks := h.run hk m.mem a none (.ret res) (st k) ?_ nofun nofun ?_ (fun _ => hmem) nofun
    hstatus nofun trivial
  · rwa [Function.update_eq_self] at htracks
  · intro k'
    by_cases hk' : k' = k
    · simp [hk', RingPc.critical]
    · simp [hk', hlock, Ne.symm hk']
  · intro k' pc₂ hne hk'
    have hnot := h.not_critical (k := k) (by simp [hlock]) hne hk'
    exact ⟨by simp [hnot], h.status k' pc₂ hk', (h.files k' pc₂ hk').1⟩

/-- One access outside a critical section that changes nothing. -/
theorem run_idle (h : Tracks m a st) (hk : m.calls.find k = some pc) (hpc : pc.critical = false)
    (hpc' : pc'.critical = false) (hfile : ∀ f, pc'.file = some f → pc.file = some f)
    (hexclusive : pc'.exclusive = true → pc.exclusive = true) (hstatus : pc'.StatusIs m.mem σ)
    (hfileOk : pc'.FileOk m.mem) (hlockOk : pc'.LockOk) :
    Tracks { m with calls := m.calls.insert k pc' } a (Function.update st k σ) := by
  refine h.run hk m.mem a m.lock pc' σ ?_ hfile hexclusive ?_ h.unlocked
    (by simp [hpc']) hstatus hfileOk hlockOk
  · intro k'
    by_cases hk' : k' = k
    · subst hk'
      have hnot : m.lock ≠ some k' := by
        intro hlock
        obtain ⟨pc₂, hpc₂, hcritical⟩ := (h.holder k').mp hlock
        rw [hk, Option.some.injEq] at hpc₂
        simp [← hpc₂, hpc] at hcritical
      simp [hpc', hnot]
    · simp [hk']
  · intro k' pc₂ _ hk'
    exact ⟨h.agrees k' pc₂ hk', h.status k' pc₂ hk', (h.files k' pc₂ hk').1⟩

/-- A call that is over without having changed anything. -/
theorem run_ret (h : Tracks m a st) (hk : m.calls.find k = some pc) (hpc : pc.critical = false)
    {res : RingResult} {i : RingCall} :
    Tracks { m with calls := m.calls.insert k (.ret res) } a
      (Function.update st k (.performed i res)) :=
  h.run_idle hk hpc rfl nofun nofun ⟨i, rfl⟩ nofun trivial

/-- One access that opens or releases a file, whoever holds the lock. -/
theorem run_setFile (h : Tracks m a st) (hk : m.calls.find k = some pc)
    (hpc : pc.critical = false) (hexclusive : pc.exclusive = true) {g : FileId}
    (hg : pc.file = some g) (x : FileSlot) {res : RingResult} {i : RingCall} :
    Tracks { m with mem := m.mem.setFile g x, calls := m.calls.insert k (.ret res) }
      (a.setFile g x) (Function.update st k (.performed i res)) := by
  refine h.run hk _ _ m.lock (.ret res) _ ?_ nofun nofun ?_
    (fun hlock => by rw [h.unlocked hlock]) nofun ⟨i, rfl⟩ nofun trivial
  · intro k'
    by_cases hk' : k' = k
    · subst hk'
      have hnot : m.lock ≠ some k' := by
        intro hlock
        obtain ⟨pc₂, hpc₂, hcritical⟩ := (h.holder k').mp hlock
        rw [hk, Option.some.injEq] at hpc₂
        simp [← hpc₂, hpc] at hcritical
      simp [RingPc.critical, hnot]
    · simp [hk']
  · intro k' pc₂ hne hk'
    have hother := h.exclusive k k' pc pc₂ g (Ne.symm hne) hk hk' hexclusive hg
    exact ⟨fun hcritical => (h.agrees k' pc₂ hk' hcritical).setFile hother,
      (h.status k' pc₂ hk').setFile hother, (h.files k' pc₂ hk').1.setFile hother⟩

/-- `ring_consume` has copied everything: memory has caught up with the sequential ring. -/
theorem run_consumed (h : Tracks m a st) (hk : m.calls.find k = some pc)
    (hpc : pc.consuming = true) {f : FileId} (hf : pc.file = some f) {nextSeq : UInt64}
    (hcursor : m.mem.cursor f = some nextSeq) {out : Array GpuSample} {count : UInt32}
    (hrest : pc.restFrom m.mem.ring nextSeq
      = some { ring := m.mem.ring, nextSeq := nextSeq, out := out, count := count }) :
    Tracks { m with calls := m.calls.insert k (.unlock (.consumed out count)) } a st := by
  have hcritical := RingPc.critical_of_consuming hpc
  have ht : pc.rest m.mem
      = some (f, { ring := m.mem.ring, nextSeq := nextSeq, out := out, count := count }) := by
    simp only [RingPc.rest, hf, Option.bind_some, hcursor, hrest, Option.map_some]
  have hstatus := (RingPc.statusIs_iff_of_consuming hpc ht).mp (h.status k pc hk)
  obtain ⟨-, g, t, ht', rfl⟩ :=
    (RingPc.agrees_iff_of_consuming hpc).mp (h.agrees k pc hk hcritical)
  obtain ⟨rfl, rfl⟩ := Prod.mk.inj (Option.some.inj (ht.symm.trans ht'))
  -- the cursor is where it ends up
  have hmem : m.mem = m.mem.finish f
      { ring := m.mem.ring, nextSeq := nextSeq, out := out, count := count } := by
    rw [Readers.finish, ← Readers.cursor_eq_some.mp hcursor, Function.update_eq_self]
  have htracks := h.run_critical hk m.mem _ (.unlock (.consumed out count)) (st k) hcritical rfl
    nofun (fun _ => .inl rfl) hmem hstatus
  rwa [Function.update_eq_self] at htracks

/-- Every access of `ring_consume` under the lock. -/
theorem internal_consume (h : Tracks m a st) (hk : m.calls.find k = some pc)
    (hpc : pc.consuming = true)
    (hstep : ringStep m.mem m.lock k pc = some (mem', lock', pc')) :
    Tracks { m with mem := mem', lock := lock', calls := m.calls.insert k pc' } a st := by
  obtain ⟨f, hf⟩ : ∃ f, pc.file = some f := by
    cases pc <;> first | exact ⟨_, rfl⟩ | cases hpc
  have hopening : pc.opening = false := by cases pc <;> first | rfl | cases hpc
  have hopen := (h.files k pc hk).1 f hf
  rw [hopening] at hopen
  obtain ⟨nextSeq, hcursor⟩ := Option.isSome_iff_exists.mp hopen
  have hcopying := ((RingPc.agrees_iff_of_consuming hpc).mp
    (h.agrees k pc hk (RingPc.critical_of_consuming hpc))).1
  -- an access that leaves memory as it is
  have hsame : ∀ pc', pc'.consuming = true → pc'.file = some f →
      pc'.restFrom m.mem.ring nextSeq = pc.restFrom m.mem.ring nextSeq → pc'.Copying m.mem →
      Tracks { m with calls := m.calls.insert k pc' } a st := by
    intro pc' hpc' hf' hrest hcopying'
    refine h.run_consume hk hpc hpc' hf hf' nextSeq m.mem.ring.dropped hcursor ?_ hrest hcopying'
    rw [← Readers.cursor_eq_some.mp hcursor, Function.update_eq_self]
  cases pc with
  | loadHead g out max =>
      obtain rfl := Option.some.inj hf
      obtain ⟨rfl, rfl, rfl⟩ : m.mem = mem' ∧ m.lock = lock' ∧ _ = pc' := by
        simpa [ringStep] using hstep
      exact hsame _ rfl rfl rfl trivial
  | compare g out max head =>
      obtain rfl := Option.some.inj hf
      simp only [ringStep, hcursor, Option.some.injEq, Prod.mk.injEq] at hstep
      obtain ⟨rfl, rfl, rfl⟩ := hstep
      split
      next hle => exact h.run_consumed hk hpc hf hcursor (by simp [RingPc.restFrom, hle])
      next hle => exact hsame _ rfl rfl (by simp [RingPc.restFrom, hle]) trivial
  | overrun g out max behind =>
      obtain rfl := Option.some.inj hf
      rw [ringStep] at hstep
      split at hstep <;>
        simp only [Option.some.injEq, Prod.mk.injEq] at hstep <;> obtain ⟨rfl, rfl, rfl⟩ := hstep
      next hover =>
        refine h.run_consume hk hpc rfl hf rfl nextSeq
          (m.mem.ring.dropped + (behind - m.mem.ring.size.toUInt64)) hcursor ?_ ?_ trivial
        · rw [← Readers.cursor_eq_some.mp hcursor, Function.update_eq_self]
        · simp only [RingPc.restFrom, consumeBehind, if_pos hover]
      next hover =>
        refine hsame _ rfl rfl ?_ trivial
        simp only [RingPc.restFrom, consumeBehind, if_neg hover, copyOut_eq_copyRest]
  | skipSeq g out max skip =>
      obtain rfl := Option.some.inj hf
      simp only [ringStep, hcursor, Option.some.injEq, Prod.mk.injEq] at hstep
      obtain ⟨rfl, rfl, rfl⟩ := hstep
      refine h.run_consume hk hpc rfl hf rfl (nextSeq + skip) m.mem.ring.dropped hcursor rfl ?_
        trivial
      simp only [RingPc.restFrom, copyOut_eq_copyRest]
  | testCopy g out toCopy i =>
      obtain rfl := Option.some.inj hf
      simp only [ringStep, hcursor, Option.some.injEq, Prod.mk.injEq] at hstep
      obtain ⟨rfl, rfl, rfl⟩ := hstep
      split
      next hi =>
        refine hsame _ rfl rfl rfl ⟨hi, by decide, ?_, out, ?_⟩
        · intro seq hseq
          rw [Option.some.inj (hcursor.symm.trans hseq)]
        · exact (CyclicArray.modify_id out i).symm
      next hi =>
        refine h.run_consumed hk hpc hf hcursor ?_
        rw [RingPc.restFrom, copyRest_of_le (Nat.not_lt.mp hi)]
  | loadWord g out toCopy i slot w =>
      obtain rfl := Option.some.inj hf
      obtain ⟨hi, hw, hslot, out₀, hout⟩ := hcopying
      obtain ⟨rfl, rfl, rfl⟩ : m.mem = mem' ∧ m.lock = lock' ∧ _ = pc' := by
        simpa [ringStep] using hstep
      obtain rfl := hslot nextSeq hcursor
      -- the words copied so far are the first words of the slot
      have hwords : out.modify i
            (m.mem.ring.samples[(ringSlot m.mem.ring nextSeq).toNat]!.copyWord w)
          = out₀.modify i
              (m.mem.ring.samples[(ringSlot m.mem.ring nextSeq).toNat]!.copyWords (w + 1)) := by
        rw [hout, CyclicArray.modify_modify]
        congr 1
        funext x
        exact (GpuSample.copyWords_succ _ w x).symm
      split
      next hw' =>
        refine hsame _ rfl rfl ?_ ⟨hi, hw', fun seq hseq => ?_, out₀, hwords⟩
        · simp only [RingPc.restFrom, copyRest_of_lt hi, CyclicArray.setIfInBounds_modify]
        · rw [Option.some.inj (hcursor.symm.trans hseq)]
      next hw' =>
        have hlast : w + 1 = GpuSample.words := by omega
        refine hsame _ rfl rfl ?_ hi
        simp only [RingPc.restFrom, copyRest_of_lt hi]
        rw [hwords, hlast, GpuSample.modify_copyWords, hout, CyclicArray.setIfInBounds_modify]
  | advance g out toCopy i =>
      obtain rfl := Option.some.inj hf
      simp only [ringStep, hcursor, Option.some.injEq, Prod.mk.injEq] at hstep
      obtain ⟨rfl, rfl, rfl⟩ := hstep
      exact h.run_consume hk hpc rfl hf rfl (nextSeq + 1) m.mem.ring.dropped hcursor rfl rfl trivial
  | _ => cases hpc

end Tracks

end GpuTelem
