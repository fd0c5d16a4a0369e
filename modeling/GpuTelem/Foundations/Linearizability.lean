import GpuTelem.Foundations.Machine
import Mathlib.Data.List.Nodup
import Mathlib.Logic.Function.Basic

/-!
# Linearizability

A concurrent object answers calls that overlap in time. It is linearizable when every history of
calls and returns can be explained by a sequential object: the calls took effect one after the
other, each at some moment between its call and its return, and every return shows what the
sequential object answered at that moment.

The proof method is a forward simulation in which every internal step of the concurrent object
either changes nothing abstractly or performs one pending call.

## Main definitions

* `Event`, `history`: what the callers see of a run;
* `Linearizes`, `Linearizable`: the explanation of a history by a sequential object;
* `Simulation`: the relation between the concurrent and the sequential object.

## Main results

* `Simulation.linearizable`: a simulation explains every history.
-/

namespace Linearizability

open Machine

/-- What the callers of an object see. Every call has an identifier of its own. -/
inductive Event (κ ι ο : Type*)
  /-- Call `k` begins. -/
  | call (k : κ) (i : ι)
  /-- Call `k` returns. -/
  | ret (k : κ) (o : ο)

variable {κ ι ο σ γ ι' : Type*}

/-- `x` stands before `y` in `l`. -/
def Before {α : Type*} (l : List α) (x y : α) : Prop := [x, y].Sublist l

section Before

variable {α : Type*} {l l' : List α} {x y z : α}

/-- An order is kept when the list grows at its end. -/
theorem Before.append (h : Before l x y) (l' : List α) : Before (l ++ l') x y :=
  h.trans (List.sublist_append_left l l')

/-- The last element comes after everything else. -/
theorem before_snoc_of_mem (h : x ∈ l) : Before (l ++ [z]) x z :=
  (List.singleton_sublist.mpr h).append (List.Sublist.refl [z])

/-- The pairs that one more element adds end in it. -/
theorem before_snoc : Before (l ++ [z]) x y ↔ Before l x y ∨ x ∈ l ∧ y = z := by
  constructor
  · intro h
    obtain ⟨l₁, l₂, hxy, hl₁, hl₂⟩ := List.sublist_append_iff.mp h
    cases l₁ with
    | nil =>
        -- both elements would have to fit into one place
        have hlen := hl₂.length_le
        rw [List.nil_append] at hxy
        simp [← hxy] at hlen
    | cons a l₁ =>
        obtain ⟨rfl, hrest⟩ := List.cons.inj hxy
        cases l₁ with
        | nil =>
            obtain rfl : [y] = l₂ := hrest
            exact .inr ⟨List.singleton_sublist.mp hl₁,
              by simpa using List.singleton_sublist.mp hl₂⟩
        | cons b l₁ =>
            obtain ⟨rfl, hnil⟩ := List.cons.inj hrest
            obtain ⟨rfl, -⟩ := List.append_eq_nil_iff.mp hnil.symm
            exact .inl hl₁
  · rintro (h | ⟨h, rfl⟩)
    · exact h.append [z]
    · exact before_snoc_of_mem h

/-- What stands before something is in the list. -/
theorem Before.mem_left (h : Before l x y) : x ∈ l := h.subset List.mem_cons_self

end Before

/-- The calls and returns of a run, in order. -/
def history (ts : List (Transition γ ι' (Option (Event κ ι ο)))) : List (Event κ ι ο) :=
  ts.filterMap (·.output)

/-- The results of a history, in the order in which the calls return. -/
def results (h : List (Event κ ι ο)) : List (κ × ο) :=
  h.filterMap fun
    | .call _ _ => none
    | .ret k o => some (k, o)

/-- The sequential run `order`, from `s₀` to `s`, explains the history `h`. -/
structure Linearizes (M : Machine σ ι ο) (s₀ : σ) (h : List (Event κ ι ο))
    (order : List (κ × Transition σ ι ο)) (s : σ) : Prop where
  /-- The calls took effect one after the other on the sequential object. -/
  trace : M.Trace s₀ (order.map Prod.snd) s
  /-- No call took effect twice. -/
  nodup : (order.map Prod.fst).Nodup
  /-- What took effect had been called, with this input. -/
  called : ∀ k τ, (k, τ) ∈ order → .call k τ.input ∈ h
  /-- A call that returned took effect, and returned the answer of the sequential object. -/
  returned : ∀ k o, .ret k o ∈ h → ∃ τ, (k, τ) ∈ order ∧ τ.output = o
  /-- A call that returned before another began took effect before it. -/
  realTime : ∀ k o k' i, Before h (.ret k o) (.call k' i) → k' ∈ order.map Prod.fst →
    Before (order.map Prod.fst) k k'

/-- The history `h` is one of a sequential object that starts in `s₀`. -/
def Linearizable (M : Machine σ ι ο) (s₀ : σ) (h : List (Event κ ι ο)) : Prop :=
  ∃ order s, Linearizes M s₀ h order s

/-- How far a call has got. -/
inductive Status (ι ο : Type*)
  | unused
  /-- Begun, without effect so far. -/
  | called (i : ι)
  /-- It took effect and will return `o`. -/
  | performed (i : ι) (o : ο)
  | returned

/-- The status of every call agrees with the history and with the order of the effects. -/
structure Accounts (h : List (Event κ ι ο)) (order : List (κ × Transition σ ι ο))
    (st : κ → Status ι ο) : Prop where
  called : ∀ k i, st k = .called i → .call k i ∈ h
  performed : ∀ k i o, st k = .performed i o → ∃ τ, (k, τ) ∈ order ∧ τ.output = o
  pending : ∀ k τ, (k, τ) ∈ order → st k ≠ .unused ∧ ∀ i, st k ≠ .called i

/-- A call that has not taken effect is not among the effects. -/
theorem Accounts.notMem {h : List (Event κ ι ο)} {order : List (κ × Transition σ ι ο)}
    {st : κ → Status ι ο} {k : κ} (hacc : Accounts h order st)
    (hk : st k = .unused ∨ ∃ i, st k = .called i) : k ∉ order.map Prod.fst := by
  intro hmem
  obtain ⟨⟨k', τ⟩, hτ, rfl⟩ := List.mem_map.mp hmem
  obtain ⟨hunused, hcalled⟩ := hacc.pending _ τ hτ
  rcases hk with hk | ⟨i, hk⟩
  · exact hunused hk
  · exact hcalled i hk

section Simulation

variable [DecidableEq κ]

/-- `R` relates the states of a concurrent object to those of a sequential one and to the status of
every call: a call begins, takes effect in one step of its own or of another call, and returns what
the sequential object answered. -/
structure Simulation (C : Machine γ ι' (Option (Event κ ι ο))) (M : Machine σ ι ο)
    (R : γ → σ → (κ → Status ι ο) → Prop) : Prop where
  call : ∀ {c c' a st j k i}, R c a st → C.step c j = some (c', some (.call k i)) →
    st k = .unused ∧ R c' a (Function.update st k (.called i))
  ret : ∀ {c c' a st j k o}, R c a st → C.step c j = some (c', some (.ret k o)) →
    (∃ i, st k = .performed i o) ∧ R c' a (Function.update st k .returned)
  internal : ∀ {c c' a st j}, R c a st → C.step c j = some (c', none) →
    R c' a st ∨ ∃ k i o a', st k = .called i ∧ M.step a i = some (a', o) ∧
      R c' a' (Function.update st k (.performed i o))

variable {M : Machine σ ι ο} {C : Machine γ ι' (Option (Event κ ι ο))}
  {R : γ → σ → (κ → Status ι ο) → Prop} {h : List (Event κ ι ο)}
  {order : List (κ × Transition σ ι ο)} {st : κ → Status ι ο} {s₀ s : σ}

/-- A new call explains nothing new. -/
theorem Linearizes.call {k : κ} (hlin : Linearizes M s₀ h order s) (hacc : Accounts h order st)
    (hk : st k = .unused) (i : ι) :
    Linearizes M s₀ (h ++ [.call k i]) order s ∧
      Accounts (h ++ [.call k i]) order (Function.update st k (.called i)) := by
  have hnotMem := hacc.notMem (.inl hk)
  constructor
  · refine ⟨hlin.trace, hlin.nodup, ?_, ?_, ?_⟩
    · exact fun k' τ hτ => List.mem_append_left _ (hlin.called k' τ hτ)
    · intro k' o hret
      exact hlin.returned k' o (by simpa using hret)
    · intro k₁ o k' i' hbefore hmem
      rcases before_snoc.mp hbefore with hold | ⟨-, hnew⟩
      · exact hlin.realTime k₁ o k' i' hold hmem
      -- the new call has not taken effect
      · obtain ⟨rfl, -⟩ := Event.call.inj hnew
        exact absurd hmem hnotMem
  · refine ⟨?_, ?_, ?_⟩
    · intro k' i' hst
      by_cases hk' : k' = k
      · subst hk'
        obtain rfl : i = i' := by simpa using hst
        simp
      · exact List.mem_append_left _ (hacc.called k' i' (by simpa [hk'] using hst))
    · intro k' i' o hst
      by_cases hk' : k' = k
      · simp [hk'] at hst
      · exact hacc.performed k' i' o (by simpa [hk'] using hst)
    · intro k' τ hτ
      have hk' : k' ≠ k := by
        rintro rfl
        exact hnotMem (List.mem_map_of_mem hτ)
      simpa [hk'] using hacc.pending k' τ hτ

/-- A call that took effect may return. -/
theorem Linearizes.ret {k : κ} {i : ι} {o : ο} (hlin : Linearizes M s₀ h order s)
    (hacc : Accounts h order st) (hk : st k = .performed i o) :
    Linearizes M s₀ (h ++ [.ret k o]) order s ∧
      Accounts (h ++ [.ret k o]) order (Function.update st k .returned) := by
  constructor
  · refine ⟨hlin.trace, hlin.nodup, ?_, ?_, ?_⟩
    · exact fun k' τ hτ => List.mem_append_left _ (hlin.called k' τ hτ)
    · -- the answer is the one of the call when it took effect
      intro k' o' hret
      rcases List.mem_append.mp hret with hold | hnew
      · exact hlin.returned k' o' hold
      · obtain ⟨rfl, rfl⟩ := Event.ret.inj (List.mem_singleton.mp hnew)
        exact hacc.performed _ i _ hk
    · -- nothing begins in this event, so nothing has to come after it
      intro k₁ o' k' i' hbefore hmem
      rcases before_snoc.mp hbefore with hold | ⟨-, hnew⟩
      · exact hlin.realTime k₁ o' k' i' hold hmem
      · cases hnew
  · refine ⟨?_, ?_, ?_⟩
    · intro k' i' hst
      by_cases hk' : k' = k
      · simp [hk'] at hst
      · exact List.mem_append_left _ (hacc.called k' i' (by simpa [hk'] using hst))
    · intro k' i' o' hst
      by_cases hk' : k' = k
      · simp [hk'] at hst
      · exact hacc.performed k' i' o' (by simpa [hk'] using hst)
    · intro k' τ hτ
      by_cases hk' : k' = k
      · simp [hk']
      · simpa [hk'] using hacc.pending k' τ hτ

/-- A pending call takes effect after everything that has taken effect. -/
theorem Linearizes.perform {k : κ} {i : ι} {o : ο} {s' : σ} (hlin : Linearizes M s₀ h order s)
    (hacc : Accounts h order st) (hk : st k = .called i) (hstep : M.step s i = some (s', o)) :
    Linearizes M s₀ h (order ++ [(k, ⟨s, i, s', o⟩)]) s' ∧
      Accounts h (order ++ [(k, ⟨s, i, s', o⟩)]) (Function.update st k (.performed i o)) := by
  have hnotMem := hacc.notMem (.inr ⟨i, hk⟩)
  constructor
  · refine ⟨?_, ?_, ?_, ?_, ?_⟩
    · rw [List.map_append]
      exact Trace.snoc hlin.trace hstep
    · rw [List.map_append]
      refine List.nodup_append.mpr ⟨hlin.nodup, List.nodup_singleton _, ?_⟩
      rintro k' hk' _ hnew rfl
      obtain rfl : k' = k := by simpa using hnew
      exact hnotMem hk'
    · intro k' τ hτ
      rcases List.mem_append.mp hτ with hold | hnew
      · exact hlin.called k' τ hold
      · obtain ⟨rfl, rfl⟩ := Prod.mk.inj (List.mem_singleton.mp hnew)
        exact hacc.called _ i hk
    · intro k' o' hret
      obtain ⟨τ, hτ, ho⟩ := hlin.returned k' o' hret
      exact ⟨τ, List.mem_append_left _ hτ, ho⟩
    · intro k₁ o' k' i' hbefore hmem
      rw [List.map_append] at hmem ⊢
      rcases List.mem_append.mp hmem with hold | hnew
      · exact (hlin.realTime k₁ o' k' i' hbefore hold).append _
      -- a call that has returned has taken effect already
      · obtain rfl : k' = k := by simpa using hnew
        obtain ⟨τ, hτ, -⟩ := hlin.returned k₁ o' hbefore.mem_left
        exact before_snoc_of_mem (List.mem_map_of_mem hτ)
  · refine ⟨?_, ?_, ?_⟩
    · intro k' i' hst
      by_cases hk' : k' = k
      · simp [hk'] at hst
      · exact hacc.called k' i' (by simpa [hk'] using hst)
    · intro k' i' o' hst
      by_cases hk' : k' = k
      · subst hk'
        obtain ⟨-, rfl⟩ : i = i' ∧ o = o' := by simpa using hst
        exact ⟨_, List.mem_append_right _ (List.mem_singleton_self _), rfl⟩
      · obtain ⟨τ, hτ, ho⟩ := hacc.performed k' i' o' (by simpa [hk'] using hst)
        exact ⟨τ, List.mem_append_left _ hτ, ho⟩
    · intro k' τ hτ
      by_cases hk' : k' = k
      · simp [hk']
      · have hold : (k', τ) ∈ order := by simpa [hk'] using hτ
        simpa [hk'] using hacc.pending k' τ hold

/-- A simulation explains every run, and relates its last state to what the explanation leads to. -/
theorem Simulation.exists_linearizes (hsim : Simulation C M R) {c₀ c : γ} {a₀ : σ}
    {ts : List (Transition γ ι' (Option (Event κ ι ο)))} (htr : C.Trace c₀ ts c)
    (hR : R c₀ a₀ fun _ => .unused) :
    ∃ order a st, Linearizes M a₀ (history ts) order a ∧ Accounts (history ts) order st ∧
      R c a st := by
  induction htr with
  | nil =>
      refine ⟨[], a₀, _, ⟨Trace.nil, by simp, by simp, by simp [history], by simp⟩,
        ⟨by simp, by simp, by simp⟩, hR⟩
  | @snoc ts c c' j e _ hstep ih =>
      obtain ⟨order, a, st, hlin, hacc, hrel⟩ := ih
      rw [history, List.filterMap_append]
      match e, hstep with
      -- between the events: at most one call takes effect
      | none, hstep =>
          rw [List.filterMap_cons_none rfl, List.filterMap_nil, List.append_nil]
          rcases hsim.internal hrel hstep with hrel' | ⟨k, i, o, a', hk, hperform, hrel'⟩
          · exact ⟨order, a, st, hlin, hacc, hrel'⟩
          · obtain ⟨hlin', hacc'⟩ := hlin.perform hacc hk hperform
            exact ⟨_, a', _, hlin', hacc', hrel'⟩
      | some (.call k i), hstep =>
          obtain ⟨hk, hrel'⟩ := hsim.call hrel hstep
          obtain ⟨hlin', hacc'⟩ := hlin.call hacc hk i
          exact ⟨order, a, _, hlin', hacc', hrel'⟩
      | some (.ret k o), hstep =>
          obtain ⟨⟨i, hk⟩, hrel'⟩ := hsim.ret hrel hstep
          obtain ⟨hlin', hacc'⟩ := hlin.ret hacc hk
          exact ⟨order, a, _, hlin', hacc', hrel'⟩

/-- A simulation explains every history. -/
theorem Simulation.linearizable (hsim : Simulation C M R) {c₀ c : γ} {a₀ : σ}
    {ts : List (Transition γ ι' (Option (Event κ ι ο)))} (htr : C.Trace c₀ ts c)
    (hR : R c₀ a₀ fun _ => .unused) : Linearizable M a₀ (history ts) := by
  obtain ⟨order, a, _, hlin, -, -⟩ := hsim.exists_linearizes htr hR
  exact ⟨order, a, hlin⟩

end Simulation

end Linearizability
