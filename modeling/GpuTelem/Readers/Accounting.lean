import GpuTelem.Readers.Refinement
import Mathlib.Algebra.BigOperators.Group.Finset.Basic

/-!
# Broadcast accounting

The books of a run: for every reader the sequence numbers delivered to it and the number it
skipped, read off the steps of the run. Every sample pushed since a reader was opened is delivered,
skipped or still to come, and `dropped` is what all readers together have skipped.

## Main definitions

* `OpenedAt`: a reader was opened when `head_seq` had a given value;
* `delivered`, `skipped`: the books of one reader;
* `readersOf`: the readers ever opened.

## Main results

* `account_of_trace`: the books of one reader, along every run;
* `dropped_of_trace`: the books of the shared counter;
* `broadcast_accounting`: both together.
-/

namespace GpuTelem

open BroadcastLog Machine

/-- One step of the ring and its readers. -/
abbrev ReaderStep := Transition Readers ReaderOp ReaderObs

/-- The file a step opens. -/
def opensFile (τ : ReaderStep) : Option FileId :=
  match τ.input, τ.output with
  | .openFile f _, .opened _ => some f
  | _, _ => none

/-- In the run `ts` the file `f` was opened when `head_seq` was `h₀`. -/
def OpenedAt (ts : List ReaderStep) (f : FileId) (h₀ : ℕ) : Prop :=
  ∃ τ ∈ ts, opensFile τ = some f ∧ τ.pre.ring.headSeq.toNat = h₀

instance (ts : List ReaderStep) (f : FileId) (h₀ : ℕ) : Decidable (OpenedAt ts f h₀) :=
  inferInstanceAs (Decidable (∃ τ ∈ ts, _))

/-- The files opened in a run, whatever became of them. -/
def readersOf (ts : List ReaderStep) : Finset FileId := (ts.filterMap opensFile).toFinset

/-- The sequence numbers a step delivers to `f`. -/
def seqsOf (f : FileId) (τ : ReaderStep) : List ℕ :=
  match τ.input, τ.pre.cursor f with
  | .consume g _ max, some c =>
      if g = f then (consumeSeqs τ.pre.ring c max).map UInt64.toNat else []
  | _, _ => []

/-- The number of samples a step makes `f` skip. -/
def skipOf (f : FileId) (τ : ReaderStep) : ℕ :=
  match τ.input, τ.pre.cursor f with
  | .consume g _ _, some c => if g = f then (consumeSkip τ.pre.ring c).toNat else 0
  | _, _ => 0

/-- The sequence numbers delivered to `f` in a run, in order. -/
def delivered (ts : List ReaderStep) (f : FileId) : List ℕ := ts.flatMap (seqsOf f)

/-- The number of samples `f` skipped in a run. -/
def skipped (ts : List ReaderStep) (f : FileId) : ℕ := (ts.map (skipOf f)).sum

/-! ## The books after one more step -/

section Snoc

variable (ts : List ReaderStep) (τ : ReaderStep) (f : FileId)

theorem delivered_snoc : delivered (ts ++ [τ]) f = delivered ts f ++ seqsOf f τ := by
  simp [delivered]

theorem skipped_snoc : skipped (ts ++ [τ]) f = skipped ts f + skipOf f τ := by
  simp [skipped]

theorem openedAt_snoc (h₀ : ℕ) : OpenedAt (ts ++ [τ]) f h₀ ↔
    OpenedAt ts f h₀ ∨ opensFile τ = some f ∧ τ.pre.ring.headSeq.toNat = h₀ := by
  simp only [OpenedAt, List.mem_append, List.mem_singleton]
  constructor
  · rintro ⟨υ, hυ | rfl, hopen⟩
    · exact .inl ⟨υ, hυ, hopen⟩
    · exact .inr hopen
  · rintro (⟨υ, hυ, hopen⟩ | hopen)
    · exact ⟨υ, .inl hυ, hopen⟩
    · exact ⟨τ, .inr rfl, hopen⟩

theorem mem_readersOf_snoc :
    f ∈ readersOf (ts ++ [τ]) ↔ f ∈ readersOf ts ∨ opensFile τ = some f := by
  simp only [readersOf, List.filterMap_append, List.toFinset_append, Finset.mem_union,
    List.mem_toFinset, List.mem_filterMap, List.mem_singleton, exists_eq_left]

theorem mem_readersOf_iff : f ∈ readersOf ts ↔ ∃ h₀, OpenedAt ts f h₀ := by
  simp only [readersOf, List.mem_toFinset, List.mem_filterMap, OpenedAt]
  constructor
  · rintro ⟨υ, hυ, hopen⟩
    exact ⟨_, υ, hυ, hopen, rfl⟩
  · rintro ⟨_, υ, hυ, hopen, _⟩
    exact ⟨υ, hυ, hopen⟩

end Snoc

/-- Only a `ring_consume` on `f` itself delivers to `f` or makes it skip. -/
theorem books_eq_zero_of_ne_consume {f : FileId} {τ : ReaderStep}
    (h : ∀ out max, τ.input ≠ .consume f out max) : seqsOf f τ = [] ∧ skipOf f τ = 0 := by
  unfold seqsOf skipOf
  split
  next g out max c hop hc =>
    have hgf : g ≠ f := by
      rintro rfl
      exact h out max hop
    simp [hgf]
  next => exact ⟨rfl, rfl⟩

/-- A `ring_consume` on `f` books what `ringConsume` did. -/
theorem books_consume {f : FileId} {τ : ReaderStep} {out : Array GpuSample} {max : UInt32}
    {c : UInt64} (hop : τ.input = .consume f out max) (hc : τ.pre.cursor f = some c) :
    seqsOf f τ = (consumeSeqs τ.pre.ring c max).map UInt64.toNat ∧
      skipOf f τ = (consumeSkip τ.pre.ring c).toNat := by
  simp [seqsOf, skipOf, hop, hc]

/-! ## The books of one reader -/

/-- The state of the books of `f` after the run `ts` to `s`. -/
structure Accounted (ts : List ReaderStep) (s : Readers) (f : FileId) : Prop where
  /-- A file not yet opened has empty books. -/
  fresh : s.files f = .unused →
    (∀ h₀, ¬ OpenedAt ts f h₀) ∧ delivered ts f = [] ∧ skipped ts f = 0
  /-- Deliveries are in order and start at the opening position. -/
  ordered : ∀ h₀, OpenedAt ts f h₀ →
    (delivered ts f).Pairwise (· < ·) ∧ ∀ q ∈ delivered ts f, h₀ ≤ q
  /-- An open file has been given or has skipped everything between its start and its cursor. -/
  balance : ∀ h₀ c, OpenedAt ts f h₀ → s.cursor f = some c →
    h₀ ≤ c.toNat ∧ (∀ q ∈ delivered ts f, q < c.toNat) ∧
      (delivered ts f).length + skipped ts f + h₀ = c.toNat
  /-- An open file was opened. -/
  opened : ∀ c, s.cursor f = some c → ∃ h₀, OpenedAt ts f h₀

/-- A step that neither opens `f` nor consumes on it keeps the books of `f`, if it keeps the
file. -/
theorem Accounted.of_other {ts : List ReaderStep} {s : Readers} {f : FileId}
    (h : Accounted ts s f) {τ : ReaderStep} (hopen : opensFile τ ≠ some f)
    (hop : ∀ out max, τ.input ≠ .consume f out max)
    (hfile : τ.post.files f = s.files f ∨ τ.post.files f = .released) :
    Accounted (ts ++ [τ]) τ.post f := by
  obtain ⟨hseqs, hskip⟩ := books_eq_zero_of_ne_consume hop
  have hopened : ∀ h₀, OpenedAt (ts ++ [τ]) f h₀ ↔ OpenedAt ts f h₀ := by
    intro h₀
    rw [openedAt_snoc]
    simp [hopen]
  have hdel : delivered (ts ++ [τ]) f = delivered ts f := by simp [delivered_snoc, hseqs]
  have hskp : skipped (ts ++ [τ]) f = skipped ts f := by simp [skipped_snoc, hskip]
  have hcursor : ∀ c, τ.post.cursor f = some c → s.cursor f = some c := by
    intro c hc
    rw [Readers.cursor_eq_some] at hc ⊢
    rcases hfile with hfile | hfile
    · rw [← hfile, hc]
    · rw [hfile] at hc
      cases hc
  refine ⟨fun hunused => ?_, fun h₀ ho => ?_, fun h₀ c ho hc => ?_, fun c hc => ?_⟩
  · -- a released file is not fresh again
    rcases hfile with hfile | hfile
    · rw [hdel, hskp]
      simp only [hopened]
      exact h.fresh (hfile ▸ hunused)
    · rw [hfile] at hunused
      cases hunused
  · rw [hdel]
    exact h.ordered h₀ ((hopened h₀).mp ho)
  · rw [hdel, hskp]
    exact h.balance h₀ c ((hopened h₀).mp ho) (hcursor c hc)
  · obtain ⟨h₀, ho⟩ := h.opened c (hcursor c hc)
    exact ⟨h₀, (hopened h₀).mpr ho⟩

/-- Opening `f` starts its books. -/
theorem Accounted.of_open {ts : List ReaderStep} {s s' : Readers} {f : FileId} {kzalloc : Bool}
    {nextSeq : UInt64} (h : Accounted ts s f) (hunused : s.files f = .unused)
    (hcur : s'.cursor f = some s.ring.headSeq) :
    Accounted (ts ++ [⟨s, .openFile f kzalloc, s', .opened nextSeq⟩]) s' f := by
  obtain ⟨hno, hdel, hskp⟩ := h.fresh hunused
  obtain ⟨hseqs, hskip⟩ := books_eq_zero_of_ne_consume (f := f)
    (τ := ⟨s, .openFile f kzalloc, s', .opened nextSeq⟩) (by simp)
  have hopened : ∀ h₀, OpenedAt (ts ++ [⟨s, .openFile f kzalloc, s', .opened nextSeq⟩]) f h₀ ↔
      s.ring.headSeq.toNat = h₀ := by
    intro h₀
    rw [openedAt_snoc]
    simp [hno, opensFile]
  refine ⟨fun h' => ?_, fun h₀ _ => ?_, fun h₀ c ho hc => ?_, fun c _ => ?_⟩
  · rw [Readers.cursor_eq_some.mp hcur] at h'
    cases h'
  · simp [delivered_snoc, hdel, hseqs]
  · -- the cursor starts at `head_seq`, with nothing delivered or skipped
    obtain rfl := (hopened h₀).mp ho
    obtain rfl := Option.some.inj (hcur.symm.trans hc)
    simp [delivered_snoc, skipped_snoc, hdel, hskp, hseqs, hskip]
  · exact ⟨_, (hopened _).mpr rfl⟩

/-- A `ring_consume` on `f` books a block of consecutive numbers from the resumed cursor on. -/
theorem Accounted.of_consume {ts : List ReaderStep} {s s' : Readers} {f : FileId}
    {out : Array GpuSample} {max : UInt32} {o : ReaderObs} {c : UInt64} (h : Accounted ts s f)
    (hc : s.cursor f = some c) (hle : c ≤ s.ring.headSeq)
    (hcur : s'.cursor f = some (ringConsume s.ring c out max).nextSeq) :
    Accounted (ts ++ [⟨s, .consume f out max, s', o⟩]) s' f := by
  obtain ⟨hseqs, hskip⟩ := books_consume (τ := ⟨s, .consume f out max, s', o⟩) rfl hc
  have hopened : ∀ h₀, OpenedAt (ts ++ [⟨s, .consume f out max, s', o⟩]) f h₀ ↔
      OpenedAt ts f h₀ := by
    intro h₀
    rw [openedAt_snoc]
    simp [opensFile]
  have hnext := toNat_nextSeq_ringConsume hle out max
  have hresume := le_resume s.ring.size.toNat s.ring.headSeq.toNat c.toNat
  rw [map_toNat_consumeSeqs hle] at hseqs
  rw [toNat_consumeSkip hle] at hskip
  refine ⟨fun h' => ?_, fun h₀ ho => ?_, fun h₀ c' ho hc' => ?_, fun c' hc' => ?_⟩
  · rw [Readers.cursor_eq_some.mp hcur] at h'
    cases h'
  · -- what was delivered before lies below the old cursor, the new block does not
    obtain ⟨hsorted, hge⟩ := h.ordered h₀ ((hopened h₀).mp ho)
    obtain ⟨hstart, hbelow, -⟩ := h.balance h₀ c ((hopened h₀).mp ho) hc
    rw [delivered_snoc, hseqs]
    refine ⟨List.pairwise_append.mpr ⟨hsorted, List.pairwise_lt_range', ?_⟩, ?_⟩
    · intro p hp q hq
      have hp' := hbelow p hp
      have hq' := (List.mem_range'_1.mp hq).1
      omega
    · intro q hq
      rcases List.mem_append.mp hq with hold | hnew
      · exact hge q hold
      · have hq' := (List.mem_range'_1.mp hnew).1
        omega
  · -- the cursor moves by the block and by the skip, which is what the books gain
    obtain ⟨hstart, hbelow, hbalance⟩ := h.balance h₀ c ((hopened h₀).mp ho) hc
    obtain rfl := Option.some.inj (hcur.symm.trans hc')
    rw [delivered_snoc, skipped_snoc, hseqs, hskip, hnext]
    refine ⟨by omega, fun q hq => ?_, ?_⟩
    · rcases List.mem_append.mp hq with hold | hnew
      · have hq' := hbelow q hold
        omega
      · exact (List.mem_range'_1.mp hnew).2
    · rw [List.length_append, List.length_range']
      omega
  · obtain ⟨h₀, ho⟩ := h.opened c hc
    exact ⟨h₀, (hopened h₀).mpr ho⟩

section Run

variable {size : UInt32} {vzalloc : Bool} {r : RingBuf} {ts : List ReaderStep} {s : Readers}

/-- The books of every file, along every run with fewer than `2 ^ 64` pushes. -/
theorem account_of_trace (hinit : ringInit size vzalloc = .ok r)
    (h : Readers.machine.Trace (Readers.start r) ts s) (hpush : pushCount ts < 2 ^ 64)
    (f : FileId) : Accounted ts s f := by
  induction h with
  | nil =>
      refine ⟨fun _ => ?_, fun h₀ ho => ?_, fun h₀ c ho _ => ?_, fun c hc => ?_⟩
      · simp [OpenedAt, delivered, skipped]
      · simp [OpenedAt] at ho
      · simp [OpenedAt] at ho
      · simp at hc
  | @snoc ts s s' op o htr hstep ih =>
      have hbefore := (pushCount_le_append _ _).trans_lt hpush
      have hacc := ih hbefore
      cases op with
      | push x =>
          obtain ⟨rfl, rfl⟩ := Readers.step_push.mp hstep
          exact hacc.of_other (by simp [opensFile]) (by simp) (.inl rfl)
      | openFile g kzalloc =>
          obtain ⟨hunused, ⟨-, rfl, rfl⟩ | ⟨-, rfl, rfl⟩⟩ := Readers.step_openFile.mp hstep
          · by_cases hg : f = g
            · -- the books of `f` begin here
              subst hg
              exact hacc.of_open hunused (by simp)
            · refine hacc.of_other ?_ (by simp) (.inl ?_)
              · simpa [opensFile] using Ne.symm hg
              · simp [hg]
          · exact hacc.of_other (by simp [opensFile]) (by simp) (.inl rfl)
      | consume g out max =>
          obtain ⟨c, hc, -, rfl, rfl⟩ := Readers.step_consume.mp hstep
          by_cases hg : f = g
          · -- the cursor is not ahead of `head_seq`, so the arithmetic of the call does not wrap
            subst hg
            exact hacc.of_consume hc (cursor_le_of_trace hinit htr hbefore hc) (by simp)
          · refine hacc.of_other (by simp [opensFile]) ?_ (.inl ?_)
            · simp [Ne.symm hg]
            · simp [hg]
      | fail g e =>
          obtain ⟨-, rfl, rfl⟩ := Readers.step_fail.mp hstep
          exact hacc.of_other (by simp [opensFile]) (by simp) (.inl rfl)
      | release g =>
          obtain ⟨-, rfl, rfl⟩ := Readers.step_release.mp hstep
          apply hacc.of_other (by simp [opensFile]) (by simp)
          -- the books of a released file stay as they are
          by_cases hg : f = g
          · exact .inr (by simp [hg])
          · exact .inl (by simp [hg])

/-! ## The books of the shared counter -/

/-- `dropped` grows by what the step makes its reader skip. -/
theorem dropped_step {s s' : Readers} {op : ReaderOp} {o : ReaderObs}
    (hstep : s.step op = some (s', o)) :
    (∃ f c out max, op = .consume f out max ∧ s.cursor f = some c ∧
        s'.ring.dropped = s.ring.dropped + consumeSkip s.ring c) ∨
      (∀ f out max, op ≠ .consume f out max) ∧ s'.ring.dropped = s.ring.dropped := by
  cases op with
  | consume f out max =>
      obtain ⟨c, hc, -, rfl, -⟩ := Readers.step_consume.mp hstep
      exact .inl ⟨f, c, out, max, rfl, hc, by rw [ring_ringConsume_eq]⟩
  | push x =>
      obtain ⟨rfl, -⟩ := Readers.step_push.mp hstep
      exact .inr ⟨by simp, rfl⟩
  | openFile f kzalloc =>
      obtain ⟨-, ⟨-, -, rfl⟩ | ⟨-, -, rfl⟩⟩ := Readers.step_openFile.mp hstep <;>
        exact .inr ⟨by simp, rfl⟩
  | fail f e =>
      obtain ⟨-, rfl, -⟩ := Readers.step_fail.mp hstep
      exact .inr ⟨by simp, rfl⟩
  | release f =>
      obtain ⟨-, rfl, -⟩ := Readers.step_release.mp hstep
      exact .inr ⟨by simp, rfl⟩

/-- A file that a step opens has not been opened before. -/
theorem unused_of_opensFile {s s' : Readers} {op : ReaderOp} {o : ReaderObs} {f : FileId}
    (hstep : s.step op = some (s', o)) (hopen : opensFile ⟨s, op, s', o⟩ = some f) :
    s.files f = .unused := by
  cases op with
  | openFile g kzalloc =>
      obtain ⟨hunused, -⟩ := Readers.step_openFile.mp hstep
      obtain rfl : g = f := by
        cases o <;> simp [opensFile] at hopen
        exact hopen
      exact hunused
  | push x => simp [opensFile] at hopen
  | consume g out max => simp [opensFile] at hopen
  | fail g e => simp [opensFile] at hopen
  | release g => simp [opensFile] at hopen

/-- Files never opened have skipped nothing, so the sum over the readers grows with its terms. -/
theorem sum_skipped_snoc (ts : List ReaderStep) (τ : ReaderStep)
    (hfresh : ∀ f, opensFile τ = some f → f ∉ readersOf ts → skipped (ts ++ [τ]) f = 0) :
    ∑ f ∈ readersOf (ts ++ [τ]), skipped (ts ++ [τ]) f
      = ∑ f ∈ readersOf ts, (skipped ts f + skipOf f τ) := by
  have hsub : readersOf ts ⊆ readersOf (ts ++ [τ]) := fun f hf =>
    (mem_readersOf_snoc ts τ f).mpr (.inl hf)
  rw [← Finset.sum_subset hsub]
  · exact Finset.sum_congr rfl fun f _ => skipped_snoc ts τ f
  · intro f hf hold
    rcases (mem_readersOf_snoc ts τ f).mp hf with hmem | hopen
    · exact absurd hmem hold
    · exact hfresh f hopen hold

/-- `dropped` is what all readers ever opened have skipped, modulo `2 ^ 64`. -/
theorem dropped_of_trace (hinit : ringInit size vzalloc = .ok r)
    (h : Readers.machine.Trace (Readers.start r) ts s) (hpush : pushCount ts < 2 ^ 64) :
    (ringDropped s.ring).toNat = (∑ f ∈ readersOf ts, skipped ts f) % 2 ^ 64 := by
  induction h with
  | nil =>
      have hzero : r.dropped = 0 := (ringInit_ok hinit).2.2.1
      simp [ringDropped, Readers.start, hzero, readersOf]
  | @snoc ts s s' op o htr hstep ih =>
      have hbefore := (pushCount_le_append _ _).trans_lt hpush
      have hfull := account_of_trace hinit (Trace.snoc htr hstep) hpush
      have hacc := account_of_trace hinit htr hbefore
      have hih := ih hbefore
      rw [ringDropped] at hih
      obtain ⟨f, c, out, max, rfl, hc, hdropped⟩ | ⟨hop, hdropped⟩ := dropped_step hstep
      · -- the term of the consuming reader grows by its skip
        have hbooks := (books_consume (τ := ⟨s, .consume f out max, s', o⟩) rfl hc).2
        have hother : ∀ g ∈ readersOf ts, g ≠ f →
            skipOf g (⟨s, .consume f out max, s', o⟩ : ReaderStep) = 0 := by
          intro g _ hg
          refine (books_eq_zero_of_ne_consume ?_).2
          simp [Ne.symm hg]
        have hmem : f ∈ readersOf ts :=
          (mem_readersOf_iff ts f).mpr ((hacc f).opened c hc)
        rw [sum_skipped_snoc _ _ (by simp [opensFile]), Finset.sum_add_distrib,
          Finset.sum_eq_single_of_mem f hmem hother, hbooks, ringDropped, hdropped,
          UInt64.toNat_add, hih]
        simp
      · -- nobody skips: a new reader starts with empty books
        have hzero : ∀ g, skipOf g (⟨s, op, s', o⟩ : ReaderStep) = 0 := fun g =>
          (books_eq_zero_of_ne_consume (hop g)).2
        have hsum : ∀ g, opensFile ⟨s, op, s', o⟩ = some g → g ∉ readersOf ts →
            skipped (ts ++ [⟨s, op, s', o⟩]) g = 0 := by
          intro g hopen _
          rw [skipped_snoc, hzero g, Nat.add_zero]
          exact ((hacc g).fresh (unused_of_opensFile hstep hopen)).2.2
        rw [sum_skipped_snoc _ _ hsum, ringDropped, hdropped, hih]
        simp [hzero]

/-- **Broadcast accounting.** In every run with fewer than `2 ^ 64` pushes, for every reader opened
when `head_seq` was `h₀`: the sequence numbers delivered to it are strictly increasing and at least
`h₀`, each call delivers the samples in the slots of its numbers, and while the file is open what
was delivered, what was skipped and the backlog make up all samples pushed since. The counter
`dropped` is what all readers ever opened have skipped, modulo `2 ^ 64`. -/
theorem broadcast_accounting (hinit : ringInit size vzalloc = .ok r)
    (h : Readers.machine.Trace (Readers.start r) ts s) (hpush : pushCount ts < 2 ^ 64) :
    (∀ f h₀, OpenedAt ts f h₀ →
      (delivered ts f).Pairwise (· < ·) ∧ (∀ q ∈ delivered ts f, h₀ ≤ q) ∧
      ∀ c, s.cursor f = some c → h₀ ≤ c.toNat ∧ c.toNat ≤ s.ring.headSeq.toNat ∧
        (delivered ts f).length + skipped ts f + (s.ring.headSeq.toNat - c.toNat)
          = s.ring.headSeq.toNat - h₀) ∧
    (∀ τ ∈ ts, ∀ f out max out' n next c, τ.input = .consume f out max →
      τ.pre.cursor f = some c → τ.output = .consumed out' n next →
      out'.toList.take n.toNat = (consumeSeqs τ.pre.ring c max).map fun q =>
        τ.pre.ring.samples[(ringSlot τ.pre.ring q).toNat]!) ∧
    (ringDropped s.ring).toNat = (∑ f ∈ readersOf ts, skipped ts f) % 2 ^ 64 := by
  refine ⟨fun f h₀ ho => ?_, ?_, dropped_of_trace hinit h hpush⟩
  · have hacc := account_of_trace hinit h hpush f
    obtain ⟨hsorted, hge⟩ := hacc.ordered h₀ ho
    refine ⟨hsorted, hge, fun c hc => ?_⟩
    obtain ⟨hstart, -, hbalance⟩ := hacc.balance h₀ c ho hc
    have hle := UInt64.le_iff_toNat_le.mp (cursor_le_of_trace hinit h hpush hc)
    exact ⟨hstart, hle, by omega⟩
  · intro τ hτ f out max out' n next c hop hc hobs
    obtain ⟨before, after, rfl, hbefore, hstep, -⟩ := Trace.before_of_mem h hτ
    have hle := cursor_le_of_trace hinit hbefore
      ((pushCount_le_append before _).trans_lt hpush) hc
    rw [hop] at hstep
    obtain ⟨c', hc', hroom, -, ho⟩ := Readers.step_consume.mp hstep
    obtain rfl : c' = c := by simpa [hc] using hc'.symm
    obtain ⟨rfl, rfl, -⟩ : out' = _ ∧ n = _ ∧ next = _ := by simpa using hobs.symm.trans ho
    have hcount := toNat_consumeCount hle max
    exact delivered_ringConsume τ.pre.ring c' (by omega)

/-- The books at an overrun: of three pushes into a ring of two the reader is given the second and
the third, and has skipped the first. -/
theorem broadcast_accounting_overrun :
    ∃ r ts s, ringInit 2 true = .ok r ∧ Readers.machine.Trace (Readers.start r) ts s ∧
      ts.map (·.input) = [.openFile 0 true, .push (.stamped 1), .push (.stamped 2),
        .push (.stamped 3), .consume 0 #[default, default] 2] ∧
      OpenedAt ts 0 0 ∧ delivered ts 0 = [1, 2] ∧ skipped ts 0 = 1 ∧
      ∀ c, s.cursor 0 = some c →
        2 + 1 + (s.ring.headSeq.toNat - c.toNat) = s.ring.headSeq.toNat := by
  let r : RingBuf := ⟨Array.replicate 2 default, 2, 1, 0, 0⟩
  have hinit : ringInit 2 true = .ok r := rfl
  have hrun : (Readers.machine.exec (Readers.start r) [.openFile 0 true, .push (.stamped 1),
      .push (.stamped 2), .push (.stamped 3), .consume 0 #[default, default] 2]).map
        (fun p => (pushCount p.1, decide (OpenedAt p.1 0 0), delivered p.1 0, skipped p.1 0))
      = some (3, true, [1, 2], 1) := by
    decide
  obtain ⟨⟨ts, s⟩, hexec, hseen⟩ := Option.map_eq_some_iff.mp hrun
  simp only [Prod.mk.injEq, decide_eq_true_eq] at hseen
  obtain ⟨hcount, hopen, hdelivered, hskipped⟩ := hseen
  have htr := Trace.of_exec hexec
  obtain ⟨hreader, -, -⟩ := broadcast_accounting hinit htr (by rw [hcount]; decide)
  refine ⟨r, ts, s, hinit, htr, Trace.input_of_exec hexec, hopen, hdelivered, hskipped,
    fun c hc => ?_⟩
  have hbalance := ((hreader 0 0 hopen).2.2 c hc).2.2
  rwa [hdelivered, hskipped] at hbalance

end Run

end GpuTelem
