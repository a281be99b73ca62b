import Mathlib.Algebra.Ring.Nat
import Mathlib.Data.Nat.Log
import SourceCorpus.Config.Limits

/-!
Sizes of prompts keep the order. Main statements: a longer context window leaves no smaller budget,
and a longer text is not taken for fewer tokens, although both are rounded.
-/

namespace SourceCorpus.Limits

variable {unit k m n : Nat}

/-- The nearest multiple of the unit, the even one of two. -/
def roundTo (unit n : Nat) : Nat :=
  if 2 * (n % unit) < unit ∨ 2 * (n % unit) = unit ∧ n / unit % 2 = 0 then n / unit * unit
  else (n / unit + 1) * unit

/-- A number with its bits behind the first 53 is rounded to a unit of as many bits. -/
theorem roundSignificant_eq (n : Nat) :
    roundSignificant n = roundTo (2 ^ (n.log2 + 1 - 53)) n := by
  rw [roundSignificant, Nat.one_shiftLeft, roundTo]

theorem le_roundTo (n unit : Nat) : n / unit * unit ≤ roundTo unit n := by
  rw [roundTo]
  split
  · exact Nat.le_refl _
  · exact Nat.mul_le_mul_right unit (Nat.le_succ _)

theorem roundTo_le (n unit : Nat) : roundTo unit n ≤ (n / unit + 1) * unit := by
  rw [roundTo]
  split
  · exact Nat.mul_le_mul_right unit (Nat.le_succ _)
  · exact Nat.le_refl _

theorem roundTo_mono (h : m ≤ n) : roundTo unit m ≤ roundTo unit n := by
  rcases Nat.lt_or_eq_of_le (Nat.div_le_div_right (c := unit) h) with hlt | heq
  · calc
      roundTo unit m ≤ (m / unit + 1) * unit := roundTo_le m unit
      _ ≤ n / unit * unit := Nat.mul_le_mul_right unit hlt
      _ ≤ roundTo unit n := le_roundTo n unit
  -- Between the same two multiples what is left decides, and it is not less for the greater number.
  · have hleft : m % unit ≤ n % unit := by
      have hm := Nat.div_add_mod m unit
      have hn := Nat.div_add_mod n unit
      rw [heq] at hm
      omega
    rw [roundTo, roundTo, heq]
    split
    · split
      · exact Nat.le_refl _
      · exact Nat.mul_le_mul_right unit (Nat.le_succ _)
    · rw [if_neg (by omega)]

/-- A multiple of the unit is a bound of what is rounded. -/
theorem mul_le_roundTo (hunit : 0 < unit) (h : k * unit ≤ n) : k * unit ≤ roundTo unit n :=
  (Nat.mul_le_mul_right unit ((Nat.le_div_iff_mul_le hunit).2 h)).trans (le_roundTo n unit)

theorem roundTo_le_mul (hunit : 0 < unit) (h : n < k * unit) : roundTo unit n ≤ k * unit :=
  (roundTo_le n unit).trans (Nat.mul_le_mul_right unit ((Nat.div_lt_iff_lt_mul hunit).2 h))

/-- A power of two with no fewer bits than the unit is a multiple of it. -/
theorem exists_two_pow_eq_mul {a b : Nat} (h : a ≤ b) : ∃ k, 2 ^ b = k * 2 ^ a :=
  ⟨2 ^ (b - a), by rw [← Nat.pow_add, Nat.sub_add_cancel h]⟩

theorem roundSignificant_mono (h : m ≤ n) : roundSignificant m ≤ roundSignificant n := by
  rw [roundSignificant_eq, roundSignificant_eq]
  have hlog : m.log2 ≤ n.log2 := by
    rw [Nat.log2_eq_log_two, Nat.log2_eq_log_two]
    exact Nat.log_mono_right h
  rcases Nat.lt_or_eq_of_le hlog with hlt | heq
  -- A power of two stands between numbers of different lengths.
  · have hn : n ≠ 0 := by
      rintro rfl
      rw [Nat.log2_zero] at hlt
      exact Nat.not_lt_zero _ hlt
    obtain ⟨k, hk⟩ := exists_two_pow_eq_mul (a := m.log2 + 1 - 53) (b := n.log2) (by omega)
    obtain ⟨k', hk'⟩ := exists_two_pow_eq_mul (a := n.log2 + 1 - 53) (b := n.log2) (by omega)
    have hm : m < k * 2 ^ (m.log2 + 1 - 53) := by
      rw [← hk]
      exact Nat.lt_log2_self.trans_le (Nat.pow_le_pow_right (by decide) hlt)
    have hn : k' * 2 ^ (n.log2 + 1 - 53) ≤ n := by
      rw [← hk']
      exact Nat.log2_self_le hn
    calc
      roundTo _ m ≤ k * 2 ^ (m.log2 + 1 - 53) := roundTo_le_mul (Nat.two_pow_pos _) hm
      _ = k' * 2 ^ (n.log2 + 1 - 53) := hk.symm.trans hk'
      _ ≤ roundTo _ n := mul_le_roundTo (Nat.two_pow_pos _) hn
  · rw [heq]
    exact roundTo_mono h

theorem contextBudget_mono (h : m ≤ n) : contextBudget m ≤ contextBudget n := by
  rw [contextBudget, contextBudget, Nat.shiftRight_eq_div_pow, Nat.shiftRight_eq_div_pow]
  exact Nat.div_le_div_right
    (roundSignificant_mono (Nat.mul_le_mul_right fillRatio (roundSignificant_mono h)))

theorem estimateOfBytes_mono (h : m ≤ n) : estimateOfBytes m ≤ estimateOfBytes n := by
  rw [estimateOfBytes, estimateOfBytes]
  split
  · exact Nat.zero_le _
  · rw [if_neg (by omega)]
    omega

theorem estimateTokens_mono {s t : String} (h : s.utf8ByteSize ≤ t.utf8ByteSize) :
    estimateTokens s ≤ estimateTokens t := estimateOfBytes_mono h

end SourceCorpus.Limits
