import Mathlib.Data.List.Forall2
import Mathlib.Data.List.Induction

/-!
# Transition machines and their traces

A `Machine` is a deterministic state machine with inputs and outputs: in a state, an input is
either refused or taken, with the next state and an output. Everything the environment chooses
(scheduling, failures, data) is part of the input, so a run is determined by its list of inputs.

A `Trace` is a run with the states around each step kept, so that properties of a whole run are
ordinary properties of a list.

## Main definitions

* `Machine.Trace`: the finite runs of a machine from a given state;
* `Machine.exec`: the run on a given list of inputs, computed.

## Main results

* `Trace.invariant`: a property kept by every step holds in every state of a run;
* `Trace.register`: what is written only by some steps holds what was written last;
* `Trace.potential`: what the steps of a run take is covered by what they bring and a potential;
* `Trace.descent`: a measure that marked steps lower bounds their number;
* `Trace.simulate`: step-by-step simulation lifts to runs, under a guard on the history;
* `Trace.trace_projected`, `Trace.project`: a component of the state that is a machine of its own
  has runs of its own;
* `Trace.unwinding`: two runs that agree on the visible inputs agree on what is visible, when the
  other steps preserve a relation between the two states;
* `Trace.reorder`: inputs with different keys that commute may be reordered.
-/

/-- A deterministic machine with states `σ`, inputs `ι` and outputs `ο`. -/
structure Machine (σ ι ο : Type*) where
  /-- `step s i` is the next state and the output, or `none` where `s` refuses `i`. -/
  step : σ → ι → Option (σ × ο)

namespace Machine

/-- One step a machine took, with the states around it. -/
structure Transition (σ ι ο : Type*) where
  /-- The state before the step. -/
  pre : σ
  /-- The input taken. -/
  input : ι
  /-- The state after the step. -/
  post : σ
  /-- The output of the step. -/
  output : ο

variable {σ ι ο σ' ι' ο' : Type*} {M : Machine σ ι ο} {N : Machine σ' ι' ο'}

/-- `M.Trace s₀ ts s`: from `s₀` the machine can take the steps `ts`, in this order, to `s`. -/
inductive Trace (M : Machine σ ι ο) (s₀ : σ) : List (Transition σ ι ο) → σ → Prop
  | nil : Trace M s₀ [] s₀
  | snoc {ts : List (Transition σ ι ο)} {s s' : σ} {i : ι} {o : ο} :
      Trace M s₀ ts s → M.step s i = some (s', o) → Trace M s₀ (ts ++ [⟨s, i, s', o⟩]) s'

/-- The run on the inputs `is`, when each of them is taken. -/
def exec (M : Machine σ ι ο) : σ → List ι → Option (List (Transition σ ι ο) × σ)
  | s, [] => some ([], s)
  | s, i :: is =>
      match M.step s i with
      | none => none
      | some (s', o) =>
          match exec M s' is with
          | none => none
          | some (ts, t) => some (⟨s, i, s', o⟩ :: ts, t)

/-- A property of the steps of a run, with one step more. -/
theorem forall_mem_snoc {P : Transition σ ι ο → Prop} {ts : List (Transition σ ι ο)}
    {τ : Transition σ ι ο} : (∀ υ ∈ ts ++ [τ], P υ) ↔ (∀ υ ∈ ts, P υ) ∧ P τ := by
  rw [List.forall_mem_append, List.forall_mem_singleton]

namespace Trace

variable {s s₀ t : σ} {ts us : List (Transition σ ι ο)}

/-! ## Building and taking apart traces -/

/-- A step in front of a trace. -/
theorem cons {s s' t : σ} {i : ι} {o : ο} {ts : List (Transition σ ι ο)}
    (hstep : M.step s i = some (s', o)) (h : M.Trace s' ts t) :
    M.Trace s (⟨s, i, s', o⟩ :: ts) t := by
  induction h with
  | nil => exact Trace.snoc Trace.nil hstep
  | snoc _ hlast ih => exact Trace.snoc ih hlast

/-- Two traces that meet compose. -/
theorem append {s m t : σ} (h : M.Trace s ts m) (h' : M.Trace m us t) :
    M.Trace s (ts ++ us) t := by
  induction h' with
  | nil => simpa using h
  | snoc _ hlast ih =>
      rw [← List.append_assoc]
      exact Trace.snoc ih hlast

/-- The empty trace stays where it is. -/
theorem eq_of_nil (h : M.Trace s [] t) : t = s := by
  generalize hts : ([] : List (Transition σ ι ο)) = ts at h
  cases h with
  | nil => rfl
  | snoc _ _ => simp at hts

/-- The last step of a trace. -/
theorem of_snoc {τ : Transition σ ι ο} (h : M.Trace s (ts ++ [τ]) t) :
    M.Trace s ts τ.pre ∧ M.step τ.pre τ.input = some (τ.post, τ.output) ∧ τ.post = t := by
  generalize hus : ts ++ [τ] = us at h
  cases h with
  | nil => simp at hus
  | snoc hts hstep =>
      obtain ⟨rfl, hτ⟩ := List.append_inj' hus rfl
      obtain rfl : τ = _ := by simpa using hτ
      exact ⟨hts, hstep, rfl⟩

/-- A trace splits at every point of its list. -/
theorem of_append (h : M.Trace s (ts ++ us) t) :
    ∃ m, M.Trace s ts m ∧ M.Trace m us t := by
  induction us using List.reverseRecOn generalizing t with
  | nil => exact ⟨t, by simpa using h, Trace.nil⟩
  | append_singleton us τ ih =>
      rw [← List.append_assoc] at h
      obtain ⟨hinit, hstep, rfl⟩ := of_snoc h
      obtain ⟨m, hts, hus⟩ := ih hinit
      exact ⟨m, hts, Trace.snoc hus hstep⟩

/-- The first step of a trace. -/
theorem of_cons {τ : Transition σ ι ο} (h : M.Trace s (τ :: ts) t) :
    τ.pre = s ∧ M.step s τ.input = some (τ.post, τ.output) ∧ M.Trace τ.post ts t := by
  rw [← List.singleton_append] at h
  obtain ⟨m, hhead, htail⟩ := of_append h
  rw [← List.nil_append [τ]] at hhead
  obtain ⟨hnil, hstep, rfl⟩ := of_snoc hhead
  obtain rfl := eq_of_nil hnil
  exact ⟨rfl, hstep, htail⟩

/-- A step of a trace, with the trace before it. -/
theorem before_of_mem {τ : Transition σ ι ο} (h : M.Trace s ts t) (hτ : τ ∈ ts) :
    ∃ before after, ts = before ++ τ :: after ∧ M.Trace s before τ.pre ∧
      M.step τ.pre τ.input = some (τ.post, τ.output) ∧ M.Trace τ.post after t := by
  obtain ⟨before, after, rfl⟩ := List.append_of_mem hτ
  obtain ⟨m, hbefore, hafter⟩ := of_append h
  obtain ⟨rfl, hstep, hrest⟩ := of_cons hafter
  exact ⟨before, after, rfl, hbefore, hstep, hrest⟩

/-- The computed run is a trace. -/
theorem of_exec {is : List ι} (h : M.exec s is = some (ts, t)) : M.Trace s ts t := by
  induction is generalizing s ts with
  | nil =>
      obtain ⟨rfl, rfl⟩ : [] = ts ∧ s = t := by simpa [exec] using h
      exact Trace.nil
  | cons i is ih =>
      rw [exec] at h
      split at h
      next => cases h
      next s' o hstep =>
        split at h
        next => cases h
        next ts' t' hrest =>
          obtain ⟨rfl, rfl⟩ : _ = ts ∧ t' = t := by simpa using h
          exact cons hstep (ih hrest)

/-- The computed run takes the given inputs. -/
theorem input_of_exec {is : List ι} (h : M.exec s is = some (ts, t)) :
    ts.map (·.input) = is := by
  induction is generalizing s ts with
  | nil =>
      obtain ⟨rfl, rfl⟩ : [] = ts ∧ s = t := by simpa [exec] using h
      rfl
  | cons i is ih =>
      rw [exec] at h
      split at h
      next => cases h
      next s' o hstep =>
        split at h
        next => cases h
        next ts' t' hrest =>
          obtain ⟨rfl, rfl⟩ : _ = ts ∧ t' = t := by simpa using h
          simp [ih hrest]

/-! ## Invariants -/

/-- A property that holds at the start and is kept by every step holds at the end. -/
theorem invariant {I : σ → Prop}
    (hstep : ∀ s i s' o, I s → M.step s i = some (s', o) → I s')
    (h : M.Trace s ts t) (hs : I s) : I t := by
  induction h with
  | nil => exact hs
  | snoc _ hlast ih => exact hstep _ _ _ _ ih hlast

/-- A part of the state that steps write and nothing else touches holds what was written last. -/
theorem register {α : Type*} {v : σ → α} {w : Transition σ ι ο → Option α}
    (hstep : ∀ s i s' o, M.step s i = some (s', o) → v s' = (w ⟨s, i, s', o⟩).getD (v s))
    (h : M.Trace s ts t) : v t = (ts.filterMap w).getLast?.getD (v s) := by
  induction h with
  | nil => rfl
  | snoc _ hlast ih =>
      rw [hstep _ _ _ _ hlast, List.filterMap_append, ih]
      cases hwrite : w ⟨_, _, _, _⟩ with
      | none => simp [hwrite]
      | some a => simp [hwrite]

/-- Accounting with a potential: where each step marked `p` takes `a` and each step marked `q`
brings `b`, and the potential covers the difference, a run can take no more than it brings and the
potential gains. The steps may be assumed to satisfy `P`. -/
theorem potential {I : σ → Prop} {Φ : σ → ℕ} {P : Transition σ ι ο → Prop}
    {p q : Transition σ ι ο → Bool} {a b : ℕ}
    (hstep : ∀ s i s' o, I s → P ⟨s, i, s', o⟩ → M.step s i = some (s', o) →
      I s' ∧ (if p ⟨s, i, s', o⟩ then a else 0) + Φ s ≤
        (if q ⟨s, i, s', o⟩ then b else 0) + Φ s')
    (h : M.Trace s ts t) (hs : I s) (hts : ∀ τ ∈ ts, P τ) :
    I t ∧ ts.countP p * a + Φ s ≤ ts.countP q * b + Φ t := by
  induction h with
  | nil => exact ⟨hs, by simp⟩
  | @snoc ts s' t i o _ hlast ih =>
      obtain ⟨hbefore, hτ⟩ := forall_mem_snoc.mp hts
      obtain ⟨hI, hsum⟩ := ih hbefore
      obtain ⟨hI', hnext⟩ := hstep _ _ _ _ hI hτ hlast
      refine ⟨hI', ?_⟩
      have hone : ∀ (f : Transition σ ι ο → Bool) (n : ℕ) (τ : Transition σ ι ο),
          (ts ++ [τ]).countP f * n = ts.countP f * n + if f τ then n else 0 := by
        intro f n τ
        rw [List.countP_append, List.countP_singleton, Nat.add_mul]
        split_ifs <;> simp
      rw [hone, hone]
      omega

/-- Termination: where no step raises a measure and each step marked `p` lowers it, a run has no
more such steps than the measure is at its start. -/
theorem descent {I : σ → Prop} {Φ : σ → ℕ} {p : Transition σ ι ο → Bool}
    (hstep : ∀ s i s' o, I s → M.step s i = some (s', o) →
      I s' ∧ (if p ⟨s, i, s', o⟩ then 1 else 0) + Φ s' ≤ Φ s)
    (h : M.Trace s ts t) (hs : I s) : I t ∧ ts.countP p + Φ t ≤ Φ s := by
  induction h with
  | nil => exact ⟨hs, by simp⟩
  | snoc _ hlast ih =>
      obtain ⟨hI, hsum⟩ := ih
      obtain ⟨hI', hnext⟩ := hstep _ _ _ _ hI hlast
      refine ⟨hI', ?_⟩
      rw [List.countP_append, List.countP_singleton]
      omega

/-! ## Simulation -/

/-- If `R` relates the starts and every step of `M` is matched by a step of `N` on the translated
input, with the translated output, then so is every run. The guard `ok` may exclude histories, as
long as it is closed under prefixes. -/
theorem simulate {R : σ → σ' → Prop} {f : ι → ι'} {g : ο → ο'}
    (ok : List (Transition σ ι ο) → Prop) (hok : ∀ ts τ, ok (ts ++ [τ]) → ok ts)
    (hstep : ∀ ts s a i s' o, M.Trace s₀ ts s → ok (ts ++ [⟨s, i, s', o⟩]) → R s a →
      M.step s i = some (s', o) → ∃ a', N.step a (f i) = some (a', g o) ∧ R s' a')
    {a₀ : σ'} (h : M.Trace s₀ ts t) (hts : ok ts) (hR : R s₀ a₀) :
    ∃ us b, N.Trace a₀ us b ∧ us.map (·.input) = ts.map (fun τ => f τ.input) ∧
      us.map (·.output) = ts.map (fun τ => g τ.output) ∧ R t b := by
  induction h with
  | nil => exact ⟨[], a₀, Trace.nil, rfl, rfl, hR⟩
  | @snoc ts s s' i o htr hlast ih =>
      obtain ⟨us, b, hus, hin, hout, hsb⟩ := ih (hok _ _ hts)
      obtain ⟨b', hb', hR'⟩ := hstep ts s b i s' o htr hts hsb hlast
      refine ⟨us ++ [⟨b, f i, b', g o⟩], b', Trace.snoc hus hb', ?_, ?_, hR'⟩
      · simp [hin]
      · simp [hout]

/-- The steps of `N` that a list of steps of `M` shows on the component `π`. -/
def projected (N : Machine σ' ι' ο') (π : σ → σ') (f : σ → ι → Option ι')
    (ts : List (Transition σ ι ο)) : List (Transition σ' ι' ο') :=
  ts.filterMap fun τ => (f τ.pre τ.input).bind fun j =>
    (N.step (π τ.pre) j).map fun p => ⟨π τ.pre, j, p.1, p.2⟩

@[simp]
theorem projected_append (N : Machine σ' ι' ο') (π : σ → σ') (f : σ → ι → Option ι')
    (ts us : List (Transition σ ι ο)) :
    projected N π f (ts ++ us) = projected N π f ts ++ projected N π f us := by
  simp [projected]

/-- A step that does not touch the component shows no step. -/
theorem projected_singleton_none {N : Machine σ' ι' ο'} {π : σ → σ'} {f : σ → ι → Option ι'}
    {τ : Transition σ ι ο} (h : f τ.pre τ.input = none) : projected N π f [τ] = [] := by
  simp [projected, h]

/-- A step of the component shows this step. -/
theorem projected_singleton_some {N : Machine σ' ι' ο'} {π : σ → σ'} {f : σ → ι → Option ι'}
    {τ : Transition σ ι ο} {j : ι'} {s' : σ'} {o' : ο'} (h : f τ.pre τ.input = some j)
    (hstep : N.step (π τ.pre) j = some (s', o')) :
    projected N π f [τ] = [⟨π τ.pre, j, s', o'⟩] := by
  simp [projected, h, hstep]

/-- The projected steps are a run of the component. -/
theorem trace_projected {I : σ → Prop} {π : σ → σ'} {f : σ → ι → Option ι'}
    (hI : ∀ s i s' o, I s → M.step s i = some (s', o) → I s')
    (hstep : ∀ s i s' o, I s → M.step s i = some (s', o) →
      f s i = none ∧ π s' = π s ∨ ∃ j o', f s i = some j ∧ N.step (π s) j = some (π s', o'))
    (h : M.Trace s ts t) (hs : I s) :
    N.Trace (π s) (projected N π f ts) (π t) ∧
      (projected N π f ts).map (·.input) = ts.filterMap fun τ => f τ.pre τ.input := by
  induction h with
  | nil => exact ⟨Trace.nil, rfl⟩
  | @snoc ts s' s'' i o htr hlast ih =>
      obtain ⟨hus, hin⟩ := ih
      have hinv := invariant hI htr hs
      rw [projected_append]
      rcases hstep _ _ _ _ hinv hlast with ⟨hf, hπ⟩ | ⟨j, o', hf, hN⟩
      · rw [projected_singleton_none hf, List.append_nil, hπ]
        exact ⟨hus, by simp [hin, hf]⟩
      · rw [projected_singleton_some hf hN]
        exact ⟨Trace.snoc hus hN, by simp [hin, hf]⟩

/-- A component `π` of the state of `M` is itself a machine `N`: if every step of `M` either leaves
the component alone or is the step of `N` given by `f`, then every run of `M` shows a run of `N`.
The states may be assumed to satisfy an invariant `I`. -/
theorem project {I : σ → Prop} {π : σ → σ'} {f : σ → ι → Option ι'}
    (hI : ∀ s i s' o, I s → M.step s i = some (s', o) → I s')
    (hstep : ∀ s i s' o, I s → M.step s i = some (s', o) →
      f s i = none ∧ π s' = π s ∨ ∃ j o', f s i = some j ∧ N.step (π s) j = some (π s', o'))
    (h : M.Trace s ts t) (hs : I s) :
    ∃ us, N.Trace (π s) us (π t) ∧
      us.map (·.input) = ts.filterMap fun τ => f τ.pre τ.input :=
  ⟨projected N π f ts, trace_projected hI hstep h hs⟩

/-! ## Two runs -/

section TwoRuns

variable {R : σ → σ → Prop} {Q : Transition σ ι ο → Transition σ ι ο → Prop} {vis : ι → Bool}

/-- The steps of a run whose input is visible. -/
def visible (vis : ι → Bool) (ts : List (Transition σ ι ο)) : List (Transition σ ι ο) :=
  ts.filter fun τ => vis τ.input

theorem map_input_visible (ts : List (Transition σ ι ο)) :
    (visible vis ts).map (·.input) = (ts.map (·.input)).filter vis := by
  rw [List.filter_map]
  rfl

/-- Steps on hidden inputs of the second run preserve the relation, up to the next visible one. -/
private theorem hidden_prefix
    (right : ∀ s₁ s₂ i s₂' o, vis i = false → R s₁ s₂ → M.step s₂ i = some (s₂', o) → R s₁ s₂')
    {s₁ s₂ t₂ : σ} {i : ι} {rest : List ι} (h : M.Trace s₂ us t₂) (hR : R s₁ s₂)
    (hvis : (visible vis us).map (·.input) = i :: rest) :
    ∃ τ after, M.Trace τ.post after t₂ ∧ M.step τ.pre τ.input = some (τ.post, τ.output) ∧
      R s₁ τ.pre ∧ τ.input = i ∧ visible vis us = τ :: visible vis after := by
  induction us generalizing s₂ with
  | nil => simp [visible] at hvis
  | cons υ us ih =>
      obtain ⟨rfl, hstep, hrest⟩ := of_cons h
      by_cases hυ : vis υ.input = true
      · have hus : visible vis (υ :: us) = υ :: visible vis us := by simp [visible, hυ]
        rw [hus] at hvis ⊢
        exact ⟨υ, us, hrest, hstep, hR, by simpa using (List.cons.inj hvis).1, rfl⟩
      · rw [Bool.not_eq_true] at hυ
        have hus : visible vis (υ :: us) = visible vis us := by simp [visible, hυ]
        rw [hus] at hvis ⊢
        exact ih hrest (right _ _ _ _ _ hυ hR hstep) hvis

/-- Unwinding: if hidden steps of either run preserve `R`, and visible steps taken together
preserve it and are related by `Q`, then two runs with the same visible inputs are related by `Q`
at every visible step. -/
theorem unwinding
    (left : ∀ s₁ s₂ i s₁' o, vis i = false → R s₁ s₂ → M.step s₁ i = some (s₁', o) → R s₁' s₂)
    (right : ∀ s₁ s₂ i s₂' o, vis i = false → R s₁ s₂ → M.step s₂ i = some (s₂', o) → R s₁ s₂')
    (both : ∀ s₁ s₂ i s₁' s₂' o₁ o₂, vis i = true → R s₁ s₂ → M.step s₁ i = some (s₁', o₁) →
      M.step s₂ i = some (s₂', o₂) → Q ⟨s₁, i, s₁', o₁⟩ ⟨s₂, i, s₂', o₂⟩ ∧ R s₁' s₂')
    {s₁ s₂ t₁ t₂ : σ} (h₁ : M.Trace s₁ ts t₁) (h₂ : M.Trace s₂ us t₂) (hR : R s₁ s₂)
    (hvis : (visible vis ts).map (·.input) = (visible vis us).map (·.input)) :
    List.Forall₂ Q (visible vis ts) (visible vis us) ∧ R t₁ t₂ := by
  induction ts generalizing s₁ s₂ us with
  | nil =>
      obtain rfl := eq_of_nil h₁
      have hus : visible vis us = [] := by simpa [visible] using hvis
      refine ⟨by rw [hus]; exact List.Forall₂.nil, ?_⟩
      -- only hidden steps are left in the second run
      have hhidden : ∀ υ ∈ us, vis υ.input = false := by
        intro υ hυ
        simpa using List.filter_eq_nil_iff.mp hus υ hυ
      clear hus hvis
      induction h₂ with
      | nil => exact hR
      | snoc _ hlast ih =>
          have hlasthidden := hhidden _ (List.mem_append_right _ (List.mem_singleton_self _))
          refine right _ _ _ _ _ hlasthidden (ih fun υ hυ => ?_) hlast
          exact hhidden υ (List.mem_append_left _ hυ)
  | cons τ ts ih =>
      obtain ⟨rfl, hstep, hrest⟩ := of_cons h₁
      by_cases hτ : vis τ.input = true
      · have hts : visible vis (τ :: ts) = τ :: visible vis ts := by simp [visible, hτ]
        rw [hts, List.map_cons] at hvis
        obtain ⟨υ, after, hafter, hυstep, hRυ, hυin, hus⟩ :=
          hidden_prefix right h₂ hR hvis.symm
        rw [hus, List.map_cons, hυin] at hvis
        rw [hυin] at hυstep
        obtain ⟨hQ, hR'⟩ := both _ _ _ _ _ _ _ hτ hRυ hstep hυstep
        obtain ⟨hforall, hRt⟩ := ih hrest hafter hR' (List.cons.inj hvis).2
        refine ⟨?_, hRt⟩
        rw [hts, hus]
        apply List.Forall₂.cons _ hforall
        cases τ; cases υ
        subst hυin
        exact hQ
      · rw [Bool.not_eq_true] at hτ
        have hts : visible vis (τ :: ts) = visible vis ts := by simp [visible, hτ]
        rw [hts] at hvis ⊢
        exact ih hrest h₂ (left _ _ _ _ _ hτ hR hstep) hvis

end TwoRuns

/-! ## Reordering -/

section Reorder

variable {κ : Type*} {key : ι → κ} {C : ι → Prop}

/-- What one step shows: its input and its output. -/
def shown (τ : Transition σ ι ο) : ι × ο := (τ.input, τ.output)

/-- Inputs of the class `C` with different keys commute. -/
def Commutes (M : Machine σ ι ο) (key : ι → κ) (C : ι → Prop) : Prop :=
  ∀ s i j s₁ s₂ o₁ o₂, C i → C j → key i ≠ key j →
    M.step s i = some (s₁, o₁) → M.step s₁ j = some (s₂, o₂) →
    ∃ s₁', M.step s j = some (s₁', o₂) ∧ M.step s₁' i = some (s₂, o₁)

/-- A step moves in front of the steps before it when its key is none of theirs. -/
private theorem move_front (hcomm : Commutes M key C) {τ : Transition σ ι ο}
    (h : M.Trace s (ts ++ [τ]) t) (hC : ∀ υ ∈ ts, C υ.input) (hτ : C τ.input)
    (hkey : ∀ υ ∈ ts, key υ.input ≠ key τ.input) :
    ∃ υ us, M.Trace s (υ :: us) t ∧ shown υ = shown τ ∧ us.map shown = ts.map shown := by
  induction ts using List.reverseRecOn generalizing τ t with
  | nil => exact ⟨τ, [], by simpa using h, rfl, rfl⟩
  | append_singleton ts ρ ih =>
      obtain ⟨hρ, hτstep, rfl⟩ := of_snoc h
      obtain ⟨hts, hρstep, hpost⟩ := of_snoc hρ
      rw [← hpost] at hτstep
      obtain ⟨m, hm, hm'⟩ := hcomm _ _ _ _ _ _ _ (hC ρ (by simp)) hτ (hkey ρ (by simp))
        hρstep hτstep
      obtain ⟨υ, us, hus, hυ, hshown⟩ := ih (τ := ⟨ρ.pre, τ.input, m, τ.output⟩)
        (Trace.snoc hts hm) (fun υ hυ => hC υ (by simp [hυ])) hτ
        (fun υ hυ => hkey υ (by simp [hυ]))
      have htrace := Trace.snoc hus hm'
      rw [List.cons_append] at htrace
      refine ⟨υ, us ++ [⟨m, ρ.input, τ.post, ρ.output⟩], htrace, hυ, ?_⟩
      simp only [List.map_append, hshown]
      rfl

/-- Reordering: a run on inputs of a commuting class may be replaced by the run on any
reordering `js` of its inputs that keeps the order within each key. It ends in the same state and
shows the same at every key. -/
theorem reorder [DecidableEq κ] (hcomm : Commutes M key C) {js : List ι} (h : M.Trace s ts t)
    (hC : ∀ τ ∈ ts, C τ.input)
    (hjs : ∀ k, (ts.map (·.input)).filter (key · = k) = js.filter (key · = k)) :
    ∃ us, M.Trace s us t ∧ us.map (·.input) = js ∧
      ∀ k, (us.map shown).filter (key ·.1 = k) = (ts.map shown).filter (key ·.1 = k) := by
  induction js generalizing s ts with
  | nil =>
      have hts : ts = [] := by
        rw [List.eq_nil_iff_forall_not_mem]
        intro τ hτ
        have hmem : τ.input ∈ (ts.map (·.input)).filter (key · = key τ.input) :=
          List.mem_filter.mpr ⟨List.mem_map_of_mem hτ, by simp⟩
        rw [hjs] at hmem
        simp at hmem
      subst hts
      exact ⟨[], h, rfl, fun _ => rfl⟩
  | cons j js ih =>
      -- `j` is the first input of its key in the run
      have hj := hjs (key j)
      rw [List.filter_cons_of_pos (by simp), List.filter_map, List.map_eq_cons_iff] at hj
      obtain ⟨τ, l, hl, hτj, hlj⟩ := hj
      obtain ⟨before, after, rfl, hbefore, hτkey, hafter⟩ := List.filter_eq_cons_iff.mp hl
      have hkey : ∀ υ ∈ before, key υ.input ≠ key τ.input := by
        intro υ hυ
        rw [hτj]
        simpa using hbefore υ hυ
      rw [List.append_cons] at h
      obtain ⟨m, hm, hrest⟩ := of_append h
      obtain ⟨υ, us, hus, hυ, hshown⟩ := move_front hcomm hm
        (fun υ hυ => hC υ (by simp [hυ])) (hC τ (by simp)) hkey
      obtain ⟨rfl, hstep, htail⟩ := of_cons hus
      have hin : us.map (·.input) = before.map (·.input) := by
        simpa [shown, Function.comp_def] using congrArg (List.map Prod.fst) hshown
      have hυin : υ.input = j := by rw [← hτj]; exact congrArg Prod.fst hυ
      obtain ⟨vs, hvs, hvsin, hvsshown⟩ := ih (append htail hrest)
        (by
          intro ρ hρ
          have hmem : ρ.input ∈ (us ++ after).map (·.input) := List.mem_map_of_mem hρ
          rw [List.map_append, hin, ← List.map_append] at hmem
          obtain ⟨ρ', hρ', heq⟩ := List.mem_map.mp hmem
          rw [← heq]
          exact hC ρ' (by
            simp only [List.mem_append, List.mem_cons] at hρ' ⊢
            tauto))
        (by
          intro k
          have hk := hjs k
          simp only [List.map_append, List.map_cons, List.filter_append, List.filter_cons,
            hτj] at hk
          rw [List.map_append, hin, List.filter_append]
          by_cases hkj : key j = k
          · subst hkj
            have hnil : (before.map (·.input)).filter (key · = key j) = [] := by
              rw [List.filter_eq_nil_iff]
              intro i hi
              obtain ⟨ρ, hρ, rfl⟩ := List.mem_map.mp hi
              simpa [hτj] using hkey ρ hρ
            simpa [hnil] using hk
          · simpa [hkj] using hk)
      refine ⟨υ :: vs, cons hstep hvs, by simp [hυin, hvsin], fun k => ?_⟩
      simp only [List.map_cons, List.filter_cons, hvsshown, List.map_append, hshown, hυ,
        List.filter_append]
      by_cases hk : key (shown τ).1 = k
      · have hnil : (before.map shown).filter (key ·.1 = k) = [] := by
          rw [List.filter_eq_nil_iff]
          intro p hp
          obtain ⟨ρ, hρ, rfl⟩ := List.mem_map.mp hp
          intro heq
          exact hkey ρ hρ ((of_decide_eq_true heq).trans hk.symm)
        simp [hk, hnil]
      · simp [hk]

end Reorder

end Trace

end Machine
