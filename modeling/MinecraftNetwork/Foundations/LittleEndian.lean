import Mathlib

/-!
# Little-endian byte strings of fixed width

`toBytes w n` writes the low `w` bytes of `n`, least significant first, and `ofBytes`
reads a byte string back. The two are inverse to each other on numbers below `256 ^ w`
and on byte strings of length `w`; `encode32` and `encode64` are the two widths that
machine words use.
-/

namespace LittleEndian

def toBytes : Nat → Nat → List UInt8
  | 0, _ => []
  | w + 1, n => UInt8.ofNat n :: toBytes w (n / 256)

def ofBytes : List UInt8 → Nat
  | [] => 0
  | b :: bs => b.toNat + 256 * ofBytes bs

@[simp] theorem length_toBytes (w n : Nat) : (toBytes w n).length = w := by
  induction w generalizing n with
  | zero => rfl
  | succ w ih => simp [toBytes, ih]

theorem ofBytes_toBytes {w n : Nat} (h : n < 256 ^ w) : ofBytes (toBytes w n) = n := by
  induction w generalizing n with
  | zero =>
    have : n = 0 := by simpa using h
    subst this
    rfl
  | succ w ih =>
    have hDiv : n / 256 < 256 ^ w := by
      rw [Nat.div_lt_iff_lt_mul (by omega)]
      rwa [Nat.pow_succ] at h
    simp only [toBytes, ofBytes, ih hDiv, UInt8.toNat_ofNat']
    omega

theorem ofBytes_lt (bs : List UInt8) : ofBytes bs < 256 ^ bs.length := by
  induction bs with
  | nil => simp [ofBytes]
  | cons b bs ih =>
    have hb := b.toNat_lt
    simp only [ofBytes, List.length_cons, Nat.pow_succ]
    omega

theorem toBytes_ofBytes (bs : List UInt8) : toBytes bs.length (ofBytes bs) = bs := by
  induction bs with
  | nil => rfl
  | cons b bs ih =>
    have hb := b.toNat_lt
    have hDiv : (b.toNat + 256 * ofBytes bs) / 256 = ofBytes bs := by omega
    have hLow : UInt8.ofNat (b.toNat + 256 * ofBytes bs) = b := by
      apply UInt8.toNat_inj.mp
      rw [UInt8.toNat_ofNat']
      omega
    simp only [ofBytes, List.length_cons, toBytes, hDiv, hLow, ih]

def encode32 (x : UInt32) : List UInt8 := toBytes 4 x.toNat

def decode32 (bs : List UInt8) : UInt32 := UInt32.ofNat (ofBytes bs)

def encode64 (x : UInt64) : List UInt8 := toBytes 8 x.toNat

def decode64 (bs : List UInt8) : UInt64 := UInt64.ofNat (ofBytes bs)

@[simp] theorem length_encode32 (x : UInt32) : (encode32 x).length = 4 := length_toBytes _ _

@[simp] theorem length_encode64 (x : UInt64) : (encode64 x).length = 8 := length_toBytes _ _

@[simp] theorem decode32_encode32 (x : UInt32) : decode32 (encode32 x) = x := by
  rw [decode32, encode32, ofBytes_toBytes (by simpa using x.toNat_lt), UInt32.ofNat_toNat]

@[simp] theorem decode64_encode64 (x : UInt64) : decode64 (encode64 x) = x := by
  rw [decode64, encode64, ofBytes_toBytes (by simpa using x.toNat_lt), UInt64.ofNat_toNat]

theorem encode32_decode32 {bs : List UInt8} (h : bs.length = 4) :
    encode32 (decode32 bs) = bs := by
  have hLt := ofBytes_lt bs
  rw [h] at hLt
  have hWord : (decode32 bs).toNat = ofBytes bs := by
    rw [decode32, UInt32.toNat_ofNat']
    omega
  rw [encode32, hWord, ← h, toBytes_ofBytes]

theorem encode64_decode64 {bs : List UInt8} (h : bs.length = 8) :
    encode64 (decode64 bs) = bs := by
  have hLt := ofBytes_lt bs
  rw [h] at hLt
  have hWord : (decode64 bs).toNat = ofBytes bs := by
    rw [decode64, UInt64.toNat_ofNat']
    omega
  rw [encode64, hWord, ← h, toBytes_ofBytes]

end LittleEndian
