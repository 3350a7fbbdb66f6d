import Mathlib.Tactic

/-! Little-endian byte encodings of naturals at a fixed width. -/

namespace LittleEndian

/-- The `w` low-order bytes of `n`, least significant first. -/
def encode : ℕ → ℕ → List UInt8
  | 0, _ => []
  | w+1, n => UInt8.ofNat n :: encode w (n / 256)

def decode : List UInt8 → ℕ
  | [] => 0
  | b :: bs => b.toNat + 256 * decode bs

@[simp] theorem decode_singleton (b : UInt8) : decode [b] = b.toNat := by simp [decode]

@[simp] theorem encode_length (w n : ℕ) : (encode w n).length = w := by
  induction w generalizing n with
  | zero => rfl
  | succ w ih => simp [encode,ih]

theorem decode_encode (w n : ℕ) : decode (encode w n) = n % 256^w := by
  induction w generalizing n with
  | zero => simp [encode,decode,Nat.mod_one]
  | succ w ih =>
    have hb : (UInt8.ofNat n).toNat = n % 256 := by simp
    rw [encode,decode,ih,hb,pow_succ']
    exact (Nat.mod_mul).symm

theorem decode_encode_of_lt {w n : ℕ} (h : n < 256^w) : decode (encode w n) = n := by
  rw [decode_encode,Nat.mod_eq_of_lt h]

theorem decode_lt (bs : List UInt8) : decode bs < 256^bs.length := by
  induction bs with
  | nil => simp [decode]
  | cons b bs ih =>
    have hb : b.toNat < 256 := b.toNat_lt
    simp only [decode,List.length_cons,pow_succ']
    omega

theorem encode_decode (bs : List UInt8) : encode bs.length (decode bs) = bs := by
  induction bs with
  | nil => rfl
  | cons b bs ih =>
    have hb : b.toNat < 256 := b.toNat_lt
    have hd : (b.toNat + 256 * decode bs) / 256 = decode bs := by omega
    have hu : UInt8.ofNat (b.toNat + 256 * decode bs) = b := by
      apply UInt8.toNat_inj.mp
      simp
    simp only [List.length_cons,decode,encode,hd,hu,ih]

end LittleEndian
