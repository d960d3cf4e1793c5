import Mathlib.Data.Int.Notation
import Mathlib.Data.Nat.Notation
import Mathlib.Tactic.Common
import Mathlib.Tactic.NormNum.Pow

/-!
# Objects as bytes

Memory is read and written byte by byte from the start of an object on. What a
store leaves alone keeps its old bytes, the padding of an object included, so two
objects with equal members can differ. Numbers are little-endian.
-/
namespace Keytar.Bytes

abbrev Mem := ℕ → UInt8

/-- The next multiple of `align` from `offset` on. -/
def alignUp (offset align : ℕ) : ℕ := (offset + align - 1) / align * align

/-- The bytes from `offset` on. -/
def window (m : Mem) (offset : ℕ) : Mem := fun i => m (offset + i)

/-- Put the first `n` bytes of `src` at `offset`. -/
def store (m : Mem) (offset n : ℕ) (src : Mem) : Mem := fun i =>
  if offset ≤ i ∧ i < offset + n then src (i - offset) else m i

def memset (m : Mem) (offset n : ℕ) (b : UInt8) : Mem := store m offset n fun _ => b

/-- `memcmp` finds no difference. -/
def SameBytes (n : ℕ) (a b : Mem) : Prop := ∀ i < n, a i = b i

instance (n : ℕ) (a b : Mem) : Decidable (SameBytes n a b) :=
  inferInstanceAs (Decidable (∀ i < n, a i = b i))

/-- The bytes of a number, the lowest first. -/
def digits (v : ℕ) : Mem := fun i => UInt8.ofNat (v / 256 ^ i)

/-- The number in `n` bytes from `offset` on. -/
def numberAt (m : Mem) (offset : ℕ) : ℕ → ℕ
  | 0 => 0
  | n + 1 => (m offset).toNat + 256 * numberAt m (offset + 1) n

def storeNumber (m : Mem) (offset n v : ℕ) : Mem := store m offset n (digits v)

/-- A C `int` holds the number. -/
def InInt (v : ℤ) : Prop := -2 ^ 31 ≤ v ∧ v < 2 ^ 31

def intAt (m : Mem) (offset : ℕ) : ℤ := (numberAt m offset 4 : ℤ).bmod (2 ^ 32)

def storeInt (m : Mem) (offset : ℕ) (v : ℤ) : Mem := storeNumber m offset 4 (v % 2 ^ 32).toNat

section Access
variable {m m' src : Mem} {offset n i : ℕ}

theorem store_in (h : i < n) : store m offset n src (offset + i) = src i := by
  rw [store, if_pos (by omega), Nat.add_sub_cancel_left]

theorem store_out (h : i < offset ∨ offset + n ≤ i) : store m offset n src i = m i := by
  rw [store, if_neg (by omega)]

theorem numberAt_congr {offset' : ℕ} (h : ∀ i < n, m (offset + i) = m' (offset' + i)) :
    numberAt m offset n = numberAt m' offset' n := by
  induction n generalizing offset offset' with
  | zero => rfl
  | succ n ih =>
      have hhead : m offset = m' offset' := h 0 (by omega)
      have htail : numberAt m (offset + 1) n = numberAt m' (offset' + 1) n := by
        apply ih
        intro i hi
        have hnext := h (i + 1) (by omega)
        rwa [Nat.add_comm i, ← Nat.add_assoc, ← Nat.add_assoc] at hnext
      rw [numberAt, numberAt, hhead, htail]

/-- Equal numbers have equal bytes. -/
theorem numberAt_inj {offset' : ℕ} (h : numberAt m offset n = numberAt m' offset' n) :
    ∀ i < n, m (offset + i) = m' (offset' + i) := by
  induction n generalizing offset offset' with
  | zero => exact fun i hi => absurd hi (Nat.not_lt_zero i)
  | succ n ih =>
      have hlow := (m offset).toNat_lt
      have hlow' := (m' offset').toNat_lt
      simp only [numberAt] at h
      intro i hi
      cases i with
      | zero => exact UInt8.toNat.inj (by simp only [Nat.add_zero]; omega)
      | succ i =>
          have hrest : numberAt m (offset + 1) n = numberAt m' (offset' + 1) n := by omega
          have htail := ih hrest i (by omega)
          rwa [Nat.add_assoc, Nat.add_comm 1, Nat.add_assoc, Nat.add_comm 1] at htail

theorem numberAt_digits (v k n : ℕ) : numberAt (digits v) k n = v / 256 ^ k % 256 ^ n := by
  induction n generalizing k with
  | zero => rw [numberAt, Nat.pow_zero, Nat.mod_one]
  | succ n ih =>
      have hpow : 256 ^ (n + 1) = 256 * 256 ^ n := Nat.pow_succ'
      have hdigit : v / 256 ^ (k + 1) = v / 256 ^ k / 256 := by
        rw [Nat.pow_succ, Nat.div_div_eq_div_mul]
      rw [numberAt, ih, digits, UInt8.toNat_ofNat', hdigit, hpow, Nat.mod_mul]

theorem numberAt_store_in : numberAt (store m offset n src) offset n = numberAt src 0 n :=
  numberAt_congr fun i hi => by rw [store_in hi, Nat.zero_add]

theorem numberAt_store_out {offset' len : ℕ}
    (h : offset' + len ≤ offset ∨ offset + n ≤ offset') :
    numberAt (store m offset n src) offset' len = numberAt m offset' len :=
  numberAt_congr fun i hi => store_out (by omega)

theorem numberAt_storeNumber (m : Mem) (offset n v : ℕ) :
    numberAt (storeNumber m offset n v) offset n = v % 256 ^ n := by
  rw [storeNumber, numberAt_store_in, numberAt_digits, Nat.pow_zero, Nat.div_one]

theorem intAt_congr {offset' : ℕ} (h : numberAt m offset 4 = numberAt m' offset' 4) :
    intAt m offset = intAt m' offset' :=
  congrArg (fun number : ℕ => (number : ℤ).bmod (2 ^ 32)) h

theorem bmod_emod {v : ℤ} (h : InInt v) : (v % 2 ^ 32).bmod (2 ^ 32) = v := by
  obtain ⟨hlow, hhigh⟩ := h
  rw [Int.bmod_def]
  push_cast
  split_ifs <;> omega

theorem intAt_storeInt {v : ℤ} (h : InInt v) : intAt (storeInt m offset v) offset = v := by
  have hpos : 0 ≤ v % 2 ^ 32 := by omega
  have hfits : (v % 2 ^ 32).toNat < 256 ^ 4 := by
    have hpow : 256 ^ 4 = 2 ^ 32 := by norm_num
    omega
  have hnumber : (numberAt (storeInt m offset v) offset 4 : ℤ) = v % 2 ^ 32 := by
    rw [storeInt, numberAt_storeNumber, Nat.mod_eq_of_lt hfits, Int.toNat_of_nonneg hpos]
  calc intAt (storeInt m offset v) offset
      = (numberAt (storeInt m offset v) offset 4 : ℤ).bmod (2 ^ 32) := rfl
    _ = (v % 2 ^ 32).bmod (2 ^ 32) := by rw [hnumber]
    _ = v := bmod_emod h

end Access

end Keytar.Bytes
