import Mathlib.Algebra.Order.Ring.Nat
import Mathlib.Data.Nat.ModEq

namespace SwarmBridge
namespace Foundation

/-!
# Numbers as big-endian bytes of a fixed width

The most significant byte comes first.  Writing cuts a number to the width, and
reading what was written gives the number back when it fits.
-/

/-- The last `width` bytes of a number, most significant first. -/
def toBigEndian : ℕ -> ℕ -> List UInt8
  | 0, _ => []
  | width + 1, value => toBigEndian width (value / 256) ++ [UInt8.ofNat (value % 256)]

/-- The number that some bytes denote. -/
def ofBigEndian (bytes : List UInt8) : ℕ :=
  bytes.foldl (fun value byte => value * 256 + byte.toNat) 0

@[simp] theorem length_toBigEndian (width value : ℕ) :
    (toBigEndian width value).length = width := by
  induction width generalizing value with
  | zero => rfl
  | succ width ih => simp [toBigEndian, ih]

theorem ofBigEndian_concat (bytes : List UInt8) (byte : UInt8) :
    ofBigEndian (bytes ++ [byte]) = ofBigEndian bytes * 256 + byte.toNat := by
  simp only [ofBigEndian, List.foldl_append, List.foldl_cons, List.foldl_nil]

/-- A number that fits into the width is read back as it was written. -/
theorem ofBigEndian_toBigEndian (width value : ℕ) (fits : value < 256 ^ width) :
    ofBigEndian (toBigEndian width value) = value := by
  induction width generalizing value with
  | zero =>
      rw [pow_zero, Nat.lt_one_iff] at fits
      rw [fits]
      rfl
  | succ width ih =>
      have higher : value / 256 < 256 ^ width := by
        apply Nat.div_lt_of_lt_mul
        rwa [mul_comm, ← pow_succ]
      have lowest : (UInt8.ofNat (value % 256)).toNat = value % 256 := by
        simp
      rw [toBigEndian, ofBigEndian_concat, ih _ higher, lowest]
      omega

end Foundation
end SwarmBridge
