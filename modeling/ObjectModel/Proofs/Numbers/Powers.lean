import Mathlib.Algebra.Order.Field.Power
import Mathlib.Data.Nat.Size
import Mathlib.Data.Rat.Floor
import ObjectModel.Proofs.Numbers.Operands

/-!
# Powers of ints

The loop that squares computes a number exactly, as far as a machine word holds it: every round leaves the
number that it is to end with as it was (`Squaring.Computes`), and takes one binary digit of the exponent away.
So a power is the exact one, wrapped, after as many rounds as the exponent has digits. For a negative exponent
it is the rational power cut toward zero (`power_exact`).
-/

namespace ObjectModel

open ObjectModel.Action Behavior

namespace Integer

-- ---------------------------------------------------------------------------
-- The loop that squares
-- ---------------------------------------------------------------------------

namespace Squaring

variable {power : Squaring} {x : ℤ} {n : ℕ}

/-- The product and the factor are numbers, as far as a word holds them, that give this number with what is left
of the exponent. -/
def Computes (power : Squaring) (x : ℤ) : Prop :=
  ∃ product factor : ℤ, power.product = Int64.ofInt product ∧ power.factor = Int64.ofInt factor ∧
    product * factor ^ power.exponent = x

/-- A round does not change what is computed. -/
theorem Computes.round (h : power.Computes x) : power.round.Computes x := by
  obtain ⟨product, factor, hproduct, hfactor, rfl⟩ := h
  refine ⟨if power.exponent % 2 = 1 then product * factor else product, factor * factor, ?_, ?_, ?_⟩
  · simp only [Squaring.round, hproduct, hfactor]
    split
    · rw [Int64.ofInt_mul]
    · rfl
  · rw [Squaring.round, hfactor, Int64.ofInt_mul]
  · have hhalf : power.exponent = 2 * (power.exponent / 2) + power.exponent % 2 := (Nat.div_add_mod _ 2).symm
    have hsquare : (factor * factor) ^ (power.exponent / 2) = factor ^ (2 * (power.exponent / 2)) := by
      rw [pow_mul, pow_two]
    show _ * (factor * factor) ^ (power.exponent / 2) = _
    conv_rhs => rw [hhalf]
    rw [hsquare]
    rcases Nat.mod_two_eq_zero_or_one power.exponent with hbit | hbit <;> rw [hbit]
    · rw [if_neg (by decide), add_zero]
    · rw [if_pos rfl, pow_succ, mul_assoc, mul_comm factor]

theorem Computes.rounds (h : power.Computes x) (n : ℕ) : (Squaring.round^[n] power).Computes x := by
  induction n with
  | zero => exact h
  | succ n ih =>
    rw [Function.iterate_succ_apply']
    exact ih.round

theorem exponent_rounds (power : Squaring) (n : ℕ) :
    (round^[n] power).exponent = power.exponent / 2 ^ n := by
  induction n with
  | zero => rw [pow_zero, Nat.div_one]; rfl
  | succ n ih =>
    rw [Function.iterate_succ_apply', Squaring.round, ih, Nat.div_div_eq_div_mul, pow_succ]

/-- The loop ends after this many rounds, and its answer is this product. -/
structure EndsAfter (power : Squaring) (n : ℕ) (answer : Int64) : Prop where
  left : ∀ m < n, (round^[m] power).exponent ≠ 0
  done : (round^[n] power).exponent = 0
  answer : (round^[n] power).product = answer

/-- There are as many rounds as the exponent has binary digits. -/
theorem endsAfter_size (power : Squaring) : power.EndsAfter power.exponent.size power.finish where
  left m hm := by
    rw [exponent_rounds]
    exact (Nat.div_pos (Nat.lt_size.mp hm) (Nat.two_pow_pos m)).ne'
  done := by
    rw [exponent_rounds]
    exact Nat.div_eq_of_lt (Nat.lt_size_self _)
  answer := by
    -- The loop is unrolled round by round; its number of digits is what is left of the exponent.
    fun_induction finish power with
    | case1 power h => rw [h, Nat.size_zero]; rfl
    | case2 power h ih =>
      have hsize := Nat.size_bit (b := power.exponent.bodd) (n := power.exponent.div2)
        (by rwa [Nat.bit_bodd_div2])
      rw [Nat.bit_bodd_div2, Nat.div2_val] at hsize
      rw [hsize, Function.iterate_succ_apply]
      exact ih

theorem Computes.finish (h : power.Computes x) : power.finish = Int64.ofInt x := by
  have hends := endsAfter_size power
  obtain ⟨product, factor, hproduct, -, rfl⟩ := h.rounds power.exponent.size
  rw [← hends.answer, hproduct, hends.done, pow_zero, mul_one]

end Squaring

-- ---------------------------------------------------------------------------
-- Powers
-- ---------------------------------------------------------------------------

variable {base exponent : Int64}

def squaring (base exponent : Int64) : Squaring := { factor := base, exponent := exponent.toInt.toNat }

/-- A rational number cut toward zero. -/
def truncated (q : ℚ) : ℤ := if 0 ≤ q then ⌊q⌋ else ⌈q⌉

theorem truncated_intCast (n : ℤ) : truncated n = n := by
  rw [truncated, Int.floor_intCast, Int.ceil_intCast, ite_self]

theorem truncated_of_abs_lt_one {q : ℚ} (h : |q| < 1) : truncated q = 0 := by
  obtain ⟨hlow, hhigh⟩ := abs_lt.mp h
  unfold truncated
  split
  case isTrue hq => exact Int.floor_eq_zero_iff.mpr ⟨hq, hhigh⟩
  case isFalse hq => exact Int.ceil_eq_zero_iff.mpr ⟨hlow, (not_le.mp hq).le⟩

theorem pow_of_nonneg (h : 0 ≤ exponent) : pow base exponent = (squaring base exponent).finish := by
  rw [pow, if_neg (Int64.not_lt.mpr h)]
  rfl

theorem pow_eq_ofInt (h : 0 ≤ exponent) :
    pow base exponent = Int64.ofInt (base.toInt ^ exponent.toInt.toNat) := by
  rw [pow_of_nonneg h]
  refine Squaring.Computes.finish ⟨1, base.toInt, rfl, (Int64.ofInt_toInt base).symm, ?_⟩
  rw [squaring, one_mul]

theorem endsAfter_pow (h : 0 ≤ exponent) :
    ∃ n ≤ 63, (squaring base exponent).EndsAfter n (pow base exponent) := by
  refine ⟨_, Nat.size_le.mpr ?_, pow_of_nonneg h ▸ (squaring base exponent).endsAfter_size⟩
  have hword := exponent.toInt_lt
  show exponent.toInt.toNat < 2 ^ 63
  omega

theorem abs_zpow_lt_one {b e : ℤ} (hzero : b ≠ 0) (hone : b ≠ 1) (hminus : b ≠ -1) (he : e < 0) :
    |(b : ℚ) ^ e| < 1 := by
  have hlarge : 1 < |b| := by
    rw [lt_abs]
    omega
  rw [abs_zpow]
  exact zpow_lt_one_of_neg₀ (by exact_mod_cast hlarge) he

theorem mod_two_eq_zero_iff : exponent % 2 = 0 ↔ Even exponent.toInt := by
  rw [← Int64.toInt_inj, Int64.toInt_mod, even_iff_two_dvd, Int.dvd_iff_tmod_eq_zero]
  rfl

theorem toInt_pow_neg (he : exponent < 0) (hbase : base ≠ 0) :
    (pow base exponent).toInt = truncated ((base.toInt : ℚ) ^ exponent.toInt) := by
  rw [pow, if_pos he]
  by_cases hone : base = 1
  · have hpower : ((1 : ℤ) : ℚ) ^ exponent.toInt = (1 : ℤ) := by rw [Int.cast_one, one_zpow]
    rw [if_pos hone, hone, Int64.toInt_one, hpower, truncated_intCast]
  by_cases hminus : base = -1
  · have hword : (-1 : Int64).toInt = -1 := by decide
    rw [if_neg hone, if_pos hminus, hminus, hword]
    split
    case isTrue heven =>
      have hpower : ((-1 : ℤ) : ℚ) ^ exponent.toInt = (1 : ℤ) := by
        rw [Int.cast_neg, Int.cast_one, (mod_two_eq_zero_iff.mp heven).neg_one_zpow]
      rw [hpower, truncated_intCast, Int64.toInt_one]
    case isFalse hodd =>
      rw [mod_two_eq_zero_iff, Int.not_even_iff_odd] at hodd
      have hpower : ((-1 : ℤ) : ℚ) ^ exponent.toInt = (-1 : ℤ) := by
        rw [Int.cast_neg, Int.cast_one, hodd.neg_one_zpow]
      rw [hpower, truncated_intCast, hword]
  · have hsmall : |(base.toInt : ℚ) ^ exponent.toInt| < 1 := by
      refine abs_zpow_lt_one ?_ ?_ ?_ (Int64.lt_iff_toInt_lt.mp he)
      · exact fun h => hbase (Int64.toInt_inj.mp h)
      · exact fun h => hone (Int64.toInt_inj.mp h)
      · exact fun h => hminus (Int64.toInt_inj.mp h)
    rw [if_neg hone, if_neg hminus, truncated_of_abs_lt_one hsmall, Int64.toInt_zero]

end Integer

/-- A power of an int is the exact one, reduced to a machine word, for an exponent that is not negative; the
loop that computes it ends after at most 63 rounds. For a negative exponent it is the rational power cut toward
zero, and 0 if the base is 0. The exponent is the int that the right operand stands for. -/
theorem power_exact (host : Host) (rounds : Nat) {s t : State} {o p : Ref} {base exponent : Int64}
    (ho : s.payload o = .int base) (hp : ((machine host rounds).toInt p).run s = .ok exponent t) :
    ∃ power : Int64,
      ((machine host (rounds + 1)).binary .pow o p).Ends s (s.AnswersInt power) (fun _ => False) ∧
      (0 ≤ exponent → power = Int64.ofInt (base.toInt ^ exponent.toInt.toNat)) ∧
      (0 ≤ exponent → ∃ n ≤ 63, (Integer.squaring base exponent).EndsAfter n power) ∧
      (exponent < 0 → base ≠ 0 → power.toInt = Integer.truncated ((base.toInt : ℚ) ^ exponent.toInt)) ∧
      (exponent < 0 → base = 0 → power = 0) := by
  refine ⟨Integer.pow base exponent, ends_binary_onInts host ho (.of_run hp) rfl, Integer.pow_eq_ofInt,
    Integer.endsAfter_pow, Integer.toInt_pow_neg, ?_⟩
  rintro he rfl
  rw [Integer.pow, if_pos he]
  rfl

/-- A power beyond a machine word, and one for a negative exponent, which a string stands for. -/
theorem power_exact_wrapped :
    let s := { Globals.bare {} .discard {} with
      heap := ⟨#[.singlet "None", .map [], .map [], .int 3, .int 41, .int (-3), .string " -1e2"]⟩ }
    ((machine {} 1).binary .pow ⟨3⟩ ⟨4⟩).Ends s (s.AnswersInt (-420491770248316829)) (fun _ => False) ∧
      ((machine {} 2).binary .pow ⟨5⟩ ⟨6⟩).Ends s (s.AnswersInt 0) fun _ => False := by
  intro s
  have hthree : s.payload ⟨3⟩ = .int 3 := rfl
  have hint : s.payload ⟨4⟩ = .int 41 := rfl
  have hminus : s.payload ⟨5⟩ = .int (-3) := rfl
  have hstring : s.payload ⟨6⟩ = .string " -1e2" := rfl
  clear_value s
  constructor
  · obtain ⟨power, hends, hexact, -⟩ :=
      power_exact {} 0 hthree (Dispatcher.run_toInt (machine {} 0).toDispatcher hint)
    rwa [hexact (by decide), show Int64.ofInt _ = -420491770248316829 by decide +kernel] at hends
  · have hread : s.StandsFor 1 ⟨6⟩ (-1) := .of_string hstring (by decide +kernel)
    obtain ⟨_, t, hrun, rfl, -⟩ := (hread.ends_toInt {}).exists_run
    obtain ⟨power, hends, -, -, hcut, -⟩ := power_exact {} 1 hminus hrun
    have hthird : Integer.truncated (((-3 : Int64).toInt : ℚ) ^ (-1 : Int64).toInt) = (0 : Int64).toInt := by
      refine Integer.truncated_of_abs_lt_one (Integer.abs_zpow_lt_one ?_ ?_ ?_ ?_) <;> decide
    rwa [Int64.toInt_inj.mp ((hcut (by decide) (by decide)).trans hthird)] at hends

end ObjectModel
