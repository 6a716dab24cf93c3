import Mathlib

/-!
# Big-endian integers

* `toBeBytes k n`: the `k` low bytes of `n`, the most significant first;
* `ofBeBytes`: the integer that bytes spell;
* `ofBeBytes_toBeBytes`, `toBeBytes_ofBeBytes`: they are inverse, up to the width.
-/

set_option autoImplicit false

namespace Clinch

/-- The `k` low bytes of `n`, the most significant first. -/
def toBeBytes : ℕ → ℕ → List UInt8
  | 0, _ => []
  | k + 1, n => toBeBytes k (n / 256) ++ [UInt8.ofNat n]

/-- The integer that bytes spell, the most significant first. -/
def ofBeBytes (bs : List UInt8) : ℕ := bs.foldl (fun n b => 256 * n + b.toNat) 0

@[simp] theorem length_toBeBytes (k n : ℕ) : (toBeBytes k n).length = k := by
  induction k generalizing n with
  | zero => rfl
  | succ k ih => rw [toBeBytes, List.length_append, ih, List.length_singleton]

theorem ofBeBytes_concat (bs : List UInt8) (b : UInt8) :
    ofBeBytes (bs ++ [b]) = 256 * ofBeBytes bs + b.toNat := by
  rw [ofBeBytes, List.foldl_concat, ofBeBytes]

theorem ofBeBytes_toBeBytes (k n : ℕ) : ofBeBytes (toBeBytes k n) = n % 256 ^ k := by
  induction k generalizing n with
  | zero => rw [pow_zero, Nat.mod_one]; rfl
  | succ k ih =>
    have hlow : (UInt8.ofNat n).toNat = n % 256 := UInt8.toNat_ofNat'
    rw [toBeBytes, ofBeBytes_concat, ih, hlow, pow_succ', Nat.mod_mul]
    omega

theorem toBeBytes_ofBeBytes (bs : List UInt8) : toBeBytes bs.length (ofBeBytes bs) = bs := by
  induction bs using List.reverseRecOn with
  | nil => rfl
  | append_singleton bs b ih =>
    have hb := b.toNat_lt
    have hdiv : (256 * ofBeBytes bs + b.toNat) / 256 = ofBeBytes bs := by omega
    have hlow : UInt8.ofNat (256 * ofBeBytes bs + b.toNat) = b := by
      apply UInt8.toNat_inj.mp
      rw [UInt8.toNat_ofNat']
      omega
    rw [List.length_append, List.length_singleton, toBeBytes, ofBeBytes_concat, hdiv, ih, hlow]

theorem ofBeBytes_lt (bs : List UInt8) : ofBeBytes bs < 256 ^ bs.length := by
  induction bs using List.reverseRecOn with
  | nil => exact Nat.one_pos
  | append_singleton bs b ih =>
    have hb := b.toNat_lt
    rw [ofBeBytes_concat, List.length_append, List.length_singleton, pow_succ]
    omega

end Clinch
