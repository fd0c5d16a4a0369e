import GpuTelem.Foundations.LittleEndian

/-!
# Packed binary records

Fixed-width integers in little-endian order without alignment, as a format string that starts with
`<` describes them: what an integer becomes when it is converted to a type, the bytes it is stored
in, and reading a whole record field by field.

## Main definitions

* `IntType.cast`: conversion of an integer to a fixed-width type;
* `IntType.encode`, `IntType.decode`: its bytes;
* `StructFormat.unpack`, `StructFormat.pack`: the integers of a record, and back.

## Main results

* `IntType.cast_eq_self_iff`: conversion keeps exactly the values of the type;
* `IntType.decode_encode`: reading back what was written is conversion;
* `StructFormat.unpackItems_encode`, `StructFormat.pack_int`: reading and writing a record go field
  by field;
* `StructFormat.slice_flatMap_append`: a record of an array is cut out of its bytes.
-/

open LittleEndian

/-- An integer type of a fixed width, unsigned or in two's complement. -/
structure IntType where
  signed : Bool
  /-- The width in bytes. -/
  size : ℕ

namespace IntType

/-- One byte, unsigned. -/
def u8 : IntType := { signed := false, size := 1 }

/-- Four bytes, unsigned. -/
def u32 : IntType := { signed := false, size := 4 }

/-- Eight bytes, unsigned. -/
def u64 : IntType := { signed := false, size := 8 }

/-- Four bytes, signed. -/
def s32 : IntType := { signed := true, size := 4 }

/-- The least value of a type. -/
def lo (t : IntType) : ℤ := if t.signed then -2 ^ (8 * t.size - 1) else 0

/-- The values of a type. -/
def Contains (t : IntType) (x : ℤ) : Prop := t.lo ≤ x ∧ x < t.lo + 256 ^ t.size

instance (t : IntType) (x : ℤ) : Decidable (t.Contains x) := inferInstanceAs (Decidable (_ ∧ _))

/-- Conversion to a type: the value of the type that is congruent modulo the number of its
values. -/
def cast (t : IntType) (x : ℤ) : ℤ := t.lo + (x - t.lo) % 256 ^ t.size

/-- The bytes of an integer. -/
def encode (t : IntType) (x : ℤ) : List UInt8 := leBytes t.size (x % 256 ^ t.size).toNat

/-- The integer that is stored in some bytes. -/
def decode (t : IntType) (raw : List UInt8) : ℤ := t.cast (leValue raw)

variable (t : IntType)

private theorem modulus_pos : (0 : ℤ) < 256 ^ t.size := Int.pow_pos (by decide)

/-- Conversion gives a value of the type. -/
theorem contains_cast (x : ℤ) : t.Contains (t.cast x) := by
  have hpos := t.modulus_pos
  have hlow := Int.emod_nonneg (x - t.lo) hpos.ne'
  have hhigh := Int.emod_lt_of_pos (x - t.lo) hpos
  constructor <;> rw [cast] <;> omega

/-- Conversion keeps a value exactly when the type has it. -/
theorem cast_eq_self_iff (x : ℤ) : t.cast x = x ↔ t.Contains x := by
  refine ⟨fun h => h ▸ t.contains_cast x, fun ⟨hlow, hhigh⟩ => ?_⟩
  rw [cast, Int.emod_eq_of_lt (by omega) (by omega)]
  omega

/-- An unsigned type keeps the numbers that fit in its bytes. -/
theorem cast_natCast {t : IntType} (hunsigned : t.signed = false) {n : ℕ}
    (hn : n < 256 ^ t.size) : t.cast n = n := by
  have hlo : t.lo = 0 := by simp [lo, hunsigned]
  rw [t.cast_eq_self_iff, Contains, hlo, Int.zero_add]
  exact ⟨Int.natCast_nonneg n, by exact_mod_cast hn⟩

/-- Conversion depends on the residue only. -/
theorem cast_eq_cast {x y : ℤ} (h : x % 256 ^ t.size = y % 256 ^ t.size) :
    t.cast x = t.cast y := by
  rw [cast, cast, (Int.emod_sub_cancel_right t.lo).mpr h]

/-- The bytes depend on the residue only. -/
theorem encode_eq_encode {x y : ℤ} (h : x % 256 ^ t.size = y % 256 ^ t.size) :
    t.encode x = t.encode y := by
  rw [encode, encode, h]

@[simp]
theorem length_encode (x : ℤ) : (t.encode x).length = t.size := by simp [encode]

/-- The bytes of a natural number. -/
theorem encode_natCast (n : ℕ) : t.encode n = leBytes t.size n := by
  have hmod : ((n : ℤ) % 256 ^ t.size).toNat = leValue (leBytes t.size n) := by
    rw [leValue_leBytes]
    exact_mod_cast Int.toNat_natCast (n % 256 ^ t.size)
  have hlen := leBytes_leValue (leBytes t.size n)
  rwa [length_leBytes, ← hmod] at hlen

/-- Reading back the bytes of an integer converts it to the type. -/
theorem decode_encode (x : ℤ) : t.decode (t.encode x) = t.cast x := by
  have hnonneg := Int.emod_nonneg x t.modulus_pos.ne'
  apply t.cast_eq_cast
  rw [encode, leValue_leBytes]
  push_cast
  rw [Int.toNat_of_nonneg hnonneg, Int.emod_emod_of_dvd _ dvd_rfl, Int.emod_emod_of_dvd _ dvd_rfl]

end IntType

namespace StructFormat

/-- One item of a format. -/
inductive Item
  | int (t : IntType)
  /-- Bytes that are skipped. -/
  | pad (n : ℕ)

/-- The number of bytes of an item. -/
def Item.size : Item → ℕ
  | .int t => t.size
  | .pad n => n

/-- The number of bytes of a record. -/
def calcsize (fmt : List Item) : ℕ := (fmt.map Item.size).sum

/-- The integers of a record, read from the front of `raw`. -/
def unpackItems : List Item → List UInt8 → List ℤ
  | [], _ => []
  | .int t :: fmt, raw => t.decode (raw.take t.size) :: unpackItems fmt (raw.drop t.size)
  | .pad n :: fmt, raw => unpackItems fmt (raw.drop n)

/-- The integers of a record; `none` when `raw` has the wrong length. -/
def unpack (fmt : List Item) (raw : List UInt8) : Option (List ℤ) :=
  if raw.length = calcsize fmt then some (unpackItems fmt raw) else none

/-- The bytes of a record with the integers `xs`; `none` when there are too many or too few of them,
or one is not a value of its type. Padding is written as zeros. -/
def pack : List Item → List ℤ → Option (List UInt8)
  | [], [] => some []
  | .int t :: fmt, x :: xs =>
      if t.Contains x then
        match pack fmt xs with
        | none => none
        | some raw => some (t.encode x ++ raw)
      else none
  | .pad n :: fmt, xs =>
      match pack fmt xs with
      | none => none
      | some raw => some (List.replicate n 0 ++ raw)
  | _, _ => none

/-- The first field of a record is read from its own bytes. -/
@[simp]
theorem unpackItems_encode (t : IntType) (fmt : List Item) (x : ℤ) (rest : List UInt8) :
    unpackItems (.int t :: fmt) (t.encode x ++ rest) = t.cast x :: unpackItems fmt rest := by
  rw [unpackItems, List.take_left' (t.length_encode x), List.drop_left' (t.length_encode x),
    t.decode_encode]

/-- Padding is skipped. -/
@[simp]
theorem unpackItems_pad (n : ℕ) (raw : List UInt8) : unpackItems [.pad n] raw = [] := rfl

/-- A field that its type keeps is written in front of the others. -/
theorem pack_int {t : IntType} {x : ℤ} (hx : t.cast x = x) {fmt : List Item} {xs : List ℤ}
    {raw : List UInt8} (hraw : pack fmt xs = some raw) :
    pack (.int t :: fmt) (x :: xs) = some (t.encode x ++ raw) := by
  rw [pack, if_pos ((t.cast_eq_self_iff x).mp hx), hraw]

/-! ## Arrays of records -/

section Records

variable {α : Type*} {enc : α → List UInt8} {n : ℕ}

/-- Records of one size, one after the other: the bytes before record `i`. -/
theorem drop_flatMap (henc : ∀ a, (enc a).length = n) (l : List α) (i : ℕ) :
    (l.flatMap enc).drop (i * n) = (l.drop i).flatMap enc := by
  induction i generalizing l with
  | zero => simp
  | succ i ih =>
      cases l with
      | nil => simp
      | cons a l =>
          have hsize : (i + 1) * n = (enc a).length + i * n := by
            rw [henc, Nat.succ_mul, Nat.add_comm]
          rw [List.flatMap_cons, hsize, ← List.drop_drop, List.drop_left, List.drop_succ_cons, ih]

/-- The size of an array of records. -/
theorem length_flatMap (henc : ∀ a, (enc a).length = n) (l : List α) :
    (l.flatMap enc).length = l.length * n := by
  induction l with
  | nil => simp
  | cons a l ih =>
      rw [List.flatMap_cons, List.length_append, henc, ih, List.length_cons, Nat.succ_mul,
        Nat.add_comm]

/-- The bytes from one record to the next are the bytes of the record, whatever follows. -/
theorem slice_flatMap_append (henc : ∀ a, (enc a).length = n) {l : List α} {i : ℕ}
    (hi : i < l.length) (rest : List UInt8) :
    ((l.flatMap enc ++ rest).take ((i + 1) * n)).drop (i * n) = enc l[i] := by
  have hle : (i + 1) * n ≤ (l.flatMap enc).length := by
    rw [length_flatMap henc]
    exact Nat.mul_le_mul_right n hi
  have hdiff : (i + 1) * n - i * n = (enc l[i]).length := by
    rw [henc, Nat.succ_mul, Nat.add_sub_cancel_left]
  rw [List.take_append_of_le_length hle, List.drop_take, drop_flatMap henc,
    List.drop_eq_getElem_cons hi, List.flatMap_cons, hdiff, List.take_left]

/-- An array of records determines its records, if a record does. -/
theorem flatMap_injective (henc : ∀ a, (enc a).length = n) (hpos : 0 < n)
    (hinj : Function.Injective enc) : Function.Injective fun l : List α => l.flatMap enc := by
  intro l m h
  dsimp only at h
  have hlen := congrArg List.length h
  rw [length_flatMap henc, length_flatMap henc] at hlen
  have hlen' := Nat.eq_of_mul_eq_mul_right hpos hlen
  induction l generalizing m with
  | nil => exact (List.eq_nil_of_length_eq_zero hlen'.symm).symm
  | cons a l ih =>
      cases m with
      | nil => simp at hlen'
      | cons b m =>
          -- the first records have the same size, so they end at the same place
          rw [List.flatMap_cons, List.flatMap_cons] at h
          obtain ⟨hhead, htail⟩ := List.append_inj h (by rw [henc, henc])
          have hcount : l.length = m.length := by simpa using hlen'
          rw [hinj hhead, ih htail (by rw [hcount]) hcount]

end Records

end StructFormat
