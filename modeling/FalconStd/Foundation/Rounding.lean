import Mathlib.Algebra.Ring.Nat
import Mathlib.Data.Nat.Size

/-! Integers rounded to a number of significant bits.

`roundNat p` keeps the `p` leading bits of a natural number and rounds to nearest, ties
to even; `roundInt p` rounds the magnitude of an integer. A number is left as it is
exactly when it is representable: a significand of `p` bits, shifted. -/
namespace Foundation

/-- A significand of `p` bits times a power of two. -/
def Representable (p n : Nat) : Prop := ∃ m e, m < 2 ^ p ∧ n = m * 2 ^ e

/-- The bits that do not fit in the significand. -/
def excess (p n : Nat) : Nat := n.size - p

def roundNat (p n : Nat) : Nat :=
  let unit := 2 ^ excess p n
  let q := n / unit
  let r := n % unit
  if 2 * r < unit ∨ (2 * r = unit ∧ q % 2 = 0) then q * unit else (q + 1) * unit

def roundInt (p : Nat) (n : Int) : Int :=
  if n < 0 then -(roundNat p n.natAbs : Int) else roundNat p n.natAbs

variable {p n : Nat}

/-- The leading bits are a significand. -/
theorem div_excess_lt (p n : Nat) : n / 2 ^ excess p n < 2 ^ p := by
  apply Nat.div_lt_of_lt_mul
  rw [← Nat.pow_add]
  refine Nat.lt_of_lt_of_le (Nat.lt_size_self n) (Nat.pow_le_pow_right Nat.two_pos ?_)
  rw [excess]
  omega

/-- A representable number ends with zeros where it has bits in excess. -/
theorem representable_iff_dvd : Representable p n ↔ 2 ^ excess p n ∣ n := by
  constructor
  · intro h
    obtain ⟨m, e, hm, rfl⟩ := h
    have hsize : (m * 2 ^ e).size ≤ p + e := by
      rw [Nat.size_le, Nat.pow_add]
      exact Nat.mul_lt_mul_of_pos_right hm (Nat.two_pow_pos e)
    have hle : excess p (m * 2 ^ e) ≤ e := by
      rw [excess]
      omega
    exact Nat.dvd_trans (Nat.pow_dvd_pow 2 hle) (Nat.dvd_mul_left _ m)
  · intro h
    exact ⟨n / 2 ^ excess p n, excess p n, div_excess_lt p n, (Nat.div_mul_cancel h).symm⟩

instance : Decidable (Representable p n) := decidable_of_iff _ representable_iff_dvd.symm

theorem roundNat_eq_self_iff : roundNat p n = n ↔ Representable p n := by
  rw [representable_iff_dvd]
  have hsplit := Nat.div_add_mod' n (2 ^ excess p n)
  have hlt := Nat.mod_lt n (Nat.two_pow_pos (excess p n))
  constructor
  · intro h
    simp only [roundNat] at h
    split at h
    case isTrue => exact ⟨_, h.symm.trans (Nat.mul_comm _ _)⟩
    case isFalse =>
      -- rounded up it would be larger
      rw [Nat.succ_mul] at h
      omega
  · intro h
    have hzero : n % 2 ^ excess p n = 0 := Nat.mod_eq_zero_of_dvd h
    have hdown : 2 * (n % 2 ^ excess p n) < 2 ^ excess p n := by
      rw [hzero]
      exact Nat.two_pow_pos _
    simp only [roundNat]
    rw [if_pos (.inl hdown)]
    exact Nat.div_mul_cancel h

theorem roundInt_eq_self_iff {n : Int} : roundInt p n = n ↔ Representable p n.natAbs := by
  rw [← roundNat_eq_self_iff, roundInt]
  split
  case isTrue h => omega
  case isFalse h => omega

end Foundation
