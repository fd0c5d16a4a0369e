import Mathlib.Algebra.Group.Nat.Defs
import Mathlib.Data.List.DropRight
import Mathlib.Tactic.Common

/-!
# Decimal numerals in ASCII

The decimal text of an integer as bytes, and the numerals a parser of signed decimal integers
accepts.

## Main definitions

* `Decimal.text`: the text of an integer;
* `Decimal.Numeral`: an optionally signed run of digits and the integer it stands for;
* `Decimal.parse`: reading a numeral.

## Main results

* `numeral_text`: the text of an integer is a numeral of it;
* `parse_eq_some_iff`: `parse` reads exactly the numerals;
* `length_text_le`, `mem_text`: its length and its bytes.
-/

namespace Decimal

/-- The ASCII codes of some characters. -/
def ascii (cs : List Char) : List UInt8 := cs.map fun c => UInt8.ofNat c.toNat

/-- The decimal text of an integer. -/
def text (x : ℤ) : List UInt8 := ascii (toString x).toList

/-- Whether a byte is the code of a decimal digit. -/
def isDigit (b : UInt8) : Bool := 48 ≤ b && b ≤ 57

/-- The number a run of digits stands for. -/
def digitsValue (ds : List UInt8) : ℕ := ds.foldl (fun n d => 10 * n + (d.toNat - 48)) 0

/-- A run of decimal digits, not empty. -/
def IsDigits (ds : List UInt8) : Prop := ds ≠ [] ∧ ds.all isDigit = true

instance (ds : List UInt8) : Decidable (IsDigits ds) := inferInstanceAs (Decidable (_ ∧ _))

/-- `Numeral s x`: the bytes `s` are a run of digits with or without a sign, and stand for `x`. -/
inductive Numeral : List UInt8 → ℤ → Prop
  | unsigned {ds : List UInt8} (hds : IsDigits ds) : Numeral ds (digitsValue ds)
  /-- With a `+`. -/
  | positive {ds : List UInt8} (hds : IsDigits ds) : Numeral (43 :: ds) (digitsValue ds)
  /-- With a `-`. -/
  | negative {ds : List UInt8} (hds : IsDigits ds) : Numeral (45 :: ds) (-digitsValue ds)

/-- The integer a run of digits stands for. -/
def parseDigits (ds : List UInt8) : Option ℤ :=
  if IsDigits ds then some (digitsValue ds) else none

/-- The integer a numeral stands for. -/
def parse : List UInt8 → Option ℤ
  | 43 :: ds => parseDigits ds
  | 45 :: ds => (parseDigits ds).map Neg.neg
  | ds => parseDigits ds

theorem parseDigits_eq_some_iff {ds : List UInt8} {x : ℤ} :
    parseDigits ds = some x ↔ IsDigits ds ∧ (digitsValue ds : ℤ) = x := by
  simp [parseDigits]

/-- `parse` reads exactly the numerals. -/
theorem parse_eq_some_iff {s : List UInt8} {x : ℤ} : parse s = some x ↔ Numeral s x := by
  constructor
  · intro h
    unfold parse at h
    split at h
    · obtain ⟨hds, rfl⟩ := parseDigits_eq_some_iff.mp h
      exact .positive hds
    · obtain ⟨y, hy, rfl⟩ := Option.map_eq_some_iff.mp h
      obtain ⟨hds, rfl⟩ := parseDigits_eq_some_iff.mp hy
      exact .negative hds
    · obtain ⟨hds, rfl⟩ := parseDigits_eq_some_iff.mp h
      exact .unsigned hds
  · intro h
    cases h with
    | unsigned hds =>
        unfold parse
        split
        -- a run of digits does not begin with a sign
        · exact absurd hds.2 (by simp [isDigit])
        · exact absurd hds.2 (by simp [isDigit])
        · simp [parseDigits, hds]
    | positive hds => simp [parse, parseDigits, hds]
    | negative hds => simp [parse, parseDigits, hds]

/-- The empty string is not a numeral. -/
theorem not_numeral_nil (x : ℤ) : ¬ Numeral [] x := by
  intro h
  cases h with
  | unsigned hds => exact hds.1 rfl

/-! ## The text of an integer -/

/-- The code of a digit is below 256, and a digit. -/
theorem toNat_ofNat_of_isDigit {c : Char} (hc : c.isDigit = true) :
    (UInt8.ofNat c.toNat).toNat = c.toNat ∧ isDigit (UInt8.ofNat c.toNat) = true := by
  obtain ⟨hlow, hhigh⟩ := Char.isDigit_iff_toNat.mp hc
  simp only [Char.reduceToNat] at hlow hhigh
  have hcode : (UInt8.ofNat c.toNat).toNat = c.toNat := by
    rw [UInt8.toNat_ofNat', Nat.mod_eq_of_lt (by omega)]
  refine ⟨hcode, ?_⟩
  simp only [isDigit, Bool.and_eq_true, decide_eq_true_eq, UInt8.le_iff_toNat_le, hcode]
  exact ⟨hlow, hhigh⟩

/-- The digits of a natural number. -/
def natText (n : ℕ) : List UInt8 := ascii (Nat.toDigits 10 n)

theorem isDigits_natText (n : ℕ) : IsDigits (natText n) := by
  refine ⟨by simp [natText, ascii, Nat.toDigits_ne_nil], ?_⟩
  rw [List.all_eq_true]
  intro b hb
  obtain ⟨c, hc, rfl⟩ := List.mem_map.mp hb
  exact (toNat_ofNat_of_isDigit (Nat.isDigit_of_mem_toDigits (by omega) (by omega) hc)).2

/-- The digits of a number stand for it. -/
theorem digitsValue_natText (n : ℕ) : digitsValue (natText n) = n := by
  have hcodes : ∀ cs : List Char, (∀ c ∈ cs, c.isDigit = true) → ∀ m,
      (ascii cs).foldl (fun n d => 10 * n + (d.toNat - 48)) m = Nat.ofDigitChars 10 cs m := by
    intro cs
    induction cs with
    | nil => simp [ascii]
    | cons c cs ih =>
        intro hcs m
        have hcode := (toNat_ofNat_of_isDigit (hcs c List.mem_cons_self)).1
        rw [Nat.ofDigitChars_cons, ← ih fun c' hc' => hcs c' (List.mem_cons_of_mem _ hc')]
        simp only [ascii, List.map_cons, List.foldl_cons, hcode]
        rfl
  rw [digitsValue, natText,
    hcodes _ fun c hc => Nat.isDigit_of_mem_toDigits (by omega) (by omega) hc,
    Nat.ofDigitChars_ten_toDigits]

/-- The text of an integer is its digits, after a `-` when it is negative. -/
theorem text_eq (x : ℤ) :
    text x = if 0 ≤ x then natText x.toNat else 45 :: natText (-x).toNat := by
  rw [text, Int.toString_eq_repr, Int.repr_eq_if]
  split_ifs with hx
  · rw [natText, Nat.toList_repr]
  · rw [natText, String.toList_append, Nat.toList_repr]
    rfl

/-- The text of an integer is a numeral of it. -/
theorem numeral_text (x : ℤ) : Numeral (text x) x := by
  rw [text_eq]
  split_ifs with hx
  · have h := Numeral.unsigned (isDigits_natText x.toNat)
    rwa [digitsValue_natText, Int.toNat_of_nonneg hx] at h
  · have h := Numeral.negative (isDigits_natText (-x).toNat)
    rwa [digitsValue_natText, Int.toNat_of_nonneg (by omega), Int.neg_neg] at h

/-- The length of the text of an integer. -/
theorem length_text_le {x : ℤ} {k : ℕ} (hk : 0 < k) (hx : x.natAbs < 10 ^ k) :
    (text x).length ≤ k + 1 := by
  have hdigits : ∀ n : ℕ, n ≤ x.natAbs → (natText n).length ≤ k := by
    intro n hn
    rw [natText, ascii, List.length_map, Nat.length_toDigits_le_iff (by omega) hk]
    omega
  rw [text_eq]
  split_ifs
  · exact (hdigits _ (by omega)).trans (by omega)
  · exact Nat.succ_le_succ (hdigits _ (by omega))

/-- The bytes of the text of an integer are digits, but for the sign in front. -/
theorem mem_text {x : ℤ} {b : UInt8} (hb : b ∈ text x) : isDigit b = true ∨ b = 45 := by
  have hdigits : ∀ n : ℕ, ∀ b ∈ natText n, isDigit b = true := fun n =>
    List.all_eq_true.mp (isDigits_natText n).2
  rw [text_eq] at hb
  split_ifs at hb
  · exact .inl (hdigits _ b hb)
  · rcases List.mem_cons.mp hb with rfl | hb
    · exact .inr rfl
    · exact .inl (hdigits _ b hb)

theorem text_ne_nil (x : ℤ) : text x ≠ [] := by
  rw [text_eq]
  split_ifs
  · exact (isDigits_natText _).1
  · exact List.cons_ne_nil _ _

end Decimal
