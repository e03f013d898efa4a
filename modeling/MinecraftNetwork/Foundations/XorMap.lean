import Mathlib

/-!
# Maps `σ x ^^^ key`

`σ` keeps xor and is its own inverse, as a permutation of the bits of a word that swaps
them in pairs. The maps `σ x ^^^ key` are bijective, whatever the key. Whether such a map
has a fixed point, whether it is its own inverse, and whether two of them ever agree is
decided by the keys alone: a word of the form `σ x ^^^ x` is fixed by `σ`, so that an
equation for `x` becomes one between keys.
-/

namespace XorMap

/-- A map of words that keeps xor and is its own inverse. -/
structure Involution (w : Nat) where
  toFun : BitVec w → BitVec w
  map_xor : ∀ x y, toFun (x ^^^ y) = toFun x ^^^ toFun y
  involutive : Function.Involutive toFun

variable {w : Nat}

instance : CoeFun (Involution w) (fun _ => BitVec w → BitVec w) := ⟨Involution.toFun⟩

theorem eq_xor_of_xor_eq {a b key : BitVec w} (h : a ^^^ key = b) : key = a ^^^ b := by
  rw [← h, ← BitVec.xor_assoc, BitVec.xor_self, BitVec.zero_xor]

namespace Involution

variable (σ : Involution w) {key key' : BitVec w}

@[simp] theorem apply_apply (x : BitVec w) : σ (σ x) = x := σ.involutive x

/-- The difference of a word and its image is fixed. -/
theorem apply_difference (x : BitVec w) : σ (σ x ^^^ x) = σ x ^^^ x := by
  rw [σ.map_xor, apply_apply, BitVec.xor_comm]

/-- The map `σ x ^^^ key`. -/
def keyed (key x : BitVec w) : BitVec w := σ x ^^^ key

theorem keyed_keyed (x : BitVec w) : σ.keyed key (σ.keyed key' x) = x ^^^ (σ key' ^^^ key) := by
  rw [keyed, keyed, σ.map_xor, apply_apply, BitVec.xor_assoc]

/-- **One value gives the others**: the key cancels in the difference of two values. -/
theorem keyed_eq_xor (x y : BitVec w) : σ.keyed key y = σ.keyed key x ^^^ σ (x ^^^ y) := by
  calc σ.keyed key y
      = σ y ^^^ key := rfl
    _ = σ x ^^^ (σ x ^^^ (σ y ^^^ key)) := by
        rw [← BitVec.xor_assoc (σ x) (σ x), BitVec.xor_self, BitVec.zero_xor]
    _ = σ x ^^^ ((σ x ^^^ σ y) ^^^ key) := by rw [BitVec.xor_assoc (σ x) (σ y)]
    _ = σ x ^^^ (key ^^^ (σ x ^^^ σ y)) := by rw [BitVec.xor_comm (σ x ^^^ σ y)]
    _ = σ.keyed key x ^^^ σ (x ^^^ y) := by rw [← BitVec.xor_assoc, ← σ.map_xor]; rfl

theorem keyed_bijective (key : BitVec w) : Function.Bijective (σ.keyed key) := by
  have hXor : Function.Involutive (fun x : BitVec w => x ^^^ key) := by
    intro x
    simp only
    rw [BitVec.xor_assoc, BitVec.xor_self, BitVec.xor_zero]
  exact hXor.bijective.comp σ.involutive.bijective

/-- **No fixed point**: the key of a map with one is fixed by `σ`. -/
theorem keyed_ne_self (hKey : σ key ≠ key) (x : BitVec w) : σ.keyed key x ≠ x := by
  intro hFixed
  have hDifference : key = σ x ^^^ x := eq_xor_of_xor_eq hFixed
  apply hKey
  rw [hDifference, apply_difference]

/-- **No reflection**: the map applied twice moves every word. -/
theorem keyed_keyed_ne_self (hKey : σ key ≠ key) (x : BitVec w) :
    σ.keyed key (σ.keyed key x) ≠ x := by
  intro hFixed
  rw [keyed_keyed] at hFixed
  have hZero : σ key ^^^ key = 0#w := by
    rw [eq_xor_of_xor_eq hFixed, BitVec.xor_self]
  exact hKey (BitVec.xor_eq_zero_iff.mp hZero)

/-- Two maps with different keys agree nowhere. -/
theorem keyed_ne_keyed (hNe : key ≠ key') (x : BitVec w) : σ.keyed key x ≠ σ.keyed key' x := by
  intro hSame
  exact hNe ((BitVec.xor_right_inj (σ x)).mp hSame)

/-- A map agrees nowhere with another one applied twice. -/
theorem keyed_ne_keyed_keyed (hKey : σ key ≠ key) (x : BitVec w) :
    σ.keyed key x ≠ σ.keyed key' (σ.keyed key' x) := by
  intro hSame
  rw [keyed_keyed, keyed] at hSame
  have hDifference : key = (σ x ^^^ x) ^^^ (σ key' ^^^ key') := by
    rw [eq_xor_of_xor_eq hSame, BitVec.xor_assoc]
  apply hKey
  rw [hDifference, σ.map_xor, apply_difference, apply_difference]

/-- Two maps applied twice agree nowhere. -/
theorem keyed_keyed_ne_keyed_keyed (hNe : σ key ^^^ key ≠ σ key' ^^^ key') (x : BitVec w) :
    σ.keyed key (σ.keyed key x) ≠ σ.keyed key' (σ.keyed key' x) := by
  intro hSame
  rw [keyed_keyed, keyed_keyed] at hSame
  exact hNe ((BitVec.xor_right_inj x).mp hSame)

end Involution

end XorMap
