import Mathlib.Algebra.Order.Group.Abs
import ObjectModel.Proofs.Numbers.Operands

/-!
# Division and shifts of ints

A quotient is cut toward zero and its rest has the sign of what was divided. Together they make up the number
again in arithmetic that wraps, also where the quotient does not fit into a machine word. Shifts multiply by
powers of two and divide by them, rounding down; of the amount only its rest by 64 counts (`division_exact`).
-/

namespace ObjectModel

open ObjectModel.Action Behavior

-- ---------------------------------------------------------------------------
-- Machine words
-- ---------------------------------------------------------------------------

namespace Integer

theorem div_eq_ofInt (a b : Int64) : a / b = Int64.ofInt (a.toInt.tdiv b.toInt) := by
  rw [← Int64.toInt_inj, Int64.toInt_div, Int64.toInt_ofInt]

theorem mod_eq_ofInt (a b : Int64) : a % b = Int64.ofInt (a.toInt.tmod b.toInt) := by
  rw [← Int64.toInt_mod, Int64.ofInt_toInt]

theorem div_mul_add_mod (a b : Int64) : a / b * b + a % b = a :=
  calc a / b * b + a % b
      = Int64.ofInt (a.toInt.tdiv b.toInt) * Int64.ofInt b.toInt + Int64.ofInt (a.toInt.tmod b.toInt) := by
        rw [div_eq_ofInt, mod_eq_ofInt, Int64.ofInt_toInt]
    _ = Int64.ofInt (a.toInt.tdiv b.toInt * b.toInt + a.toInt.tmod b.toInt) := by
        rw [Int64.ofInt_add, Int64.ofInt_mul]
    _ = a := by rw [Int.tdiv_mul_add_tmod, Int64.ofInt_toInt]

variable {a b : Int64}

theorem abs_mod_lt (hb : b ≠ 0) : |(a % b).toInt| < |b.toInt| := by
  have hword : b.toInt ≠ 0 := fun h => hb (Int64.toInt_inj.mp h)
  rw [Int64.toInt_mod, Int.abs_eq_natAbs, Int.abs_eq_natAbs, Int.natAbs_tmod]
  exact_mod_cast Nat.mod_lt _ (Int.natAbs_pos.mpr hword)

theorem sign_mod (a b : Int64) : a % b = 0 ∨ (a % b).toInt.sign = a.toInt.sign := by
  by_cases hdvd : b.toInt ∣ a.toInt
  · refine .inl (Int64.toInt_inj.mp ?_)
    rw [Int64.toInt_mod, Int.tmod_eq_zero_of_dvd hdvd, Int64.toInt_zero]
  · exact .inr (by rw [Int64.toInt_mod, Int.sign_tmod, if_neg hdvd])

def distance (amount : Int64) : ℕ := (amount.toInt % 64).toNat

theorem distance_eq (amount : Int64) : (distance amount : ℤ) = amount.toInt % 64 := by
  unfold distance
  omega

theorem distance_lt (amount : Int64) : distance amount < 64 := by
  have h := distance_eq amount
  omega

theorem toNat_shiftAmount (amount : Int64) : (shiftAmount amount).toBitVec.toNat = distance amount := by
  have hbits : (shiftAmount amount).toBitVec.toNat = amount.toBitVec.toNat % 64 :=
    (BitVec.toNat_and _ _).trans (Nat.and_two_pow_sub_one_eq_mod _ 6)
  have hword : amount.toInt = (amount.toBitVec.toNat : ℤ).bmod (2 ^ 64) := BitVec.toInt_eq_toNat_bmod _
  rw [hbits, distance, hword, Int.bmod_def]
  split <;> omega

/-- Shifts reduce their amount once more, which leaves it as it is. -/
theorem toNat_smod_shiftAmount (amount : Int64) :
    ((shiftAmount amount).toBitVec.smod 64).toNat = distance amount := by
  have hlt := distance_lt amount
  have hsame : (shiftAmount amount).toBitVec.smod 64 = (shiftAmount amount).toBitVec := by
    refine BitVec.eq_of_toInt_eq ?_
    have hsmall : (shiftAmount amount).toBitVec.toInt = distance amount := by
      rw [BitVec.toInt_eq_toNat_of_lt (by rw [toNat_shiftAmount]; omega), toNat_shiftAmount]
    have hwidth : (64 : BitVec 64).toInt = 64 := by decide
    rw [BitVec.toInt_smod, hsmall, hwidth, Int.fmod_eq_emod_of_nonneg _ (by decide)]
    omega
  rw [hsame, toNat_shiftAmount]

theorem shiftLeft_eq_ofInt (a amount : Int64) :
    shiftLeft a amount = Int64.ofInt (a.toInt * 2 ^ distance amount) := by
  have hword : a.toInt = (a.toBitVec.toNat : ℤ).bmod (2 ^ 64) := BitVec.toInt_eq_toNat_bmod _
  have hbits : (shiftLeft a amount).toInt =
      ((a.toBitVec.toNat <<< distance amount : ℕ) : ℤ).bmod (2 ^ 64) := by
    rw [shiftLeft, ← Int64.toInt_toBitVec, Int64.toBitVec_shiftLeft, BitVec.shiftLeft_eq',
      toNat_smod_shiftAmount, BitVec.toInt_shiftLeft]
  rw [← Int64.toInt_inj, Int64.toInt_ofInt, hbits, hword, Nat.shiftLeft_eq, Int.natCast_mul, Int.natCast_pow]
  exact Int.bmod_mul_bmod.symm

theorem toInt_shiftRight (a amount : Int64) :
    (shiftRight a amount).toInt = a.toInt / 2 ^ distance amount := by
  rw [shiftRight, ← Int64.toInt_toBitVec, Int64.toBitVec_shiftRight, BitVec.toInt_sshiftRight',
    toNat_smod_shiftAmount, Int.shiftRight_eq_div_pow, Int64.toInt_toBitVec, Int.natCast_pow]
  rfl

end Integer

-- ---------------------------------------------------------------------------
-- Division and shifts by objects
-- ---------------------------------------------------------------------------

variable {s t : State} {o p : Ref} {a b : Int64} {rounds : Nat}

theorem ends_div (host : Host) (ho : s.payload o = .int a) (hp : s.StandsFor rounds p b) (hb : b ≠ 0) :
    ((machine host (rounds + 1)).binary .div o p).Ends s (s.AnswersInt (a / b)) fun _ => False :=
  (ends_binary_onIntsNonzero host ho hp rfl).imp (fun _ _ h => h.2) fun _ h => hb h.1

theorem ends_mod (host : Host) (ho : s.payload o = .int a) (hp : s.StandsFor rounds p b) (hb : b ≠ 0) :
    ((machine host (rounds + 1)).binary .mod o p).Ends s (s.AnswersInt (a % b)) fun _ => False :=
  (ends_binary_onIntsNonzero host ho hp rfl).imp (fun _ _ h => h.2) fun _ h => hb h.1

/-- Divides, multiplies the quotient by what it was divided by, and adds the rest. -/
def dividedAndBack (machine : Machine) (o p : Ref) : Action Ref := do
  let quotient ← machine.binary .div o p
  let rest ← machine.binary .mod o p
  let product ← machine.binary .mul quotient p
  machine.binary .add product rest

theorem ends_dividedAndBack (host : Host) (ho : s.payload o = .int a) (hp : s.StandsFor rounds p b)
    (hb : b ≠ 0) : (dividedAndBack (machine host (rounds + 1)) o p).Ends s (s.AnswersInt a) fun _ => False := by
  have hint {n : Int64} : (Payload.int n).kind ≠ .singlet := by simp [Payload.kind]
  simp only [dividedAndBack, ends_bind]
  refine (ends_div host ho hp hb).imp_value ?_
  rintro quotient t ⟨hquotient, hst⟩
  refine (ends_mod host (hst.keeps.payload_eq ho hint) (hp.grown hst) hb).imp_value ?_
  rintro rest u ⟨hrest, htu⟩
  have hsu := hst.thenGrown htu
  have hmul : ((machine host (rounds + 1)).binary .mul quotient p).Ends u (u.AnswersInt (a / b * b))
      fun _ => False :=
    ends_binary_onInts host (htu.keeps.payload_eq hquotient hint) (hp.grown hsu) rfl
  refine hmul.imp_value ?_
  rintro product v ⟨hproduct, huv⟩
  have hadd : ((machine host (rounds + 1)).binary .add product rest).Ends v
      (v.AnswersInt (a / b * b + a % b)) fun _ => False :=
    ends_binary_onInts host hproduct (.of_int (huv.keeps.payload_eq hrest hint)) rfl
  refine hadd.imp_value ?_
  rintro sum w ⟨hsum, hvw⟩
  rw [Integer.div_mul_add_mod] at hsum
  exact ⟨hsum, (hsu.thenGrown huv).thenGrown hvw⟩

/-- A quotient of ints is the exact one, cut toward zero and reduced to a machine word. The rest is smaller than
what was divided by, and 0 or of the sign of what was divided. The quotient times what was divided by, plus the
rest, is what was divided, in arithmetic that wraps. Both raise their errors for a division by zero. A shift to
the left is the product with a power of two, reduced to a machine word, and a shift to the right the quotient,
rounded down; the power is the rest of the amount by 64. The right operand may be any object that stands for an
int. -/
theorem division_exact (host : Host) (rounds : Nat) {s t : State} {o p : Ref} {a b : Int64}
    (ho : s.payload o = .int a) (hp : ((machine host rounds).toInt p).run s = .ok b t) :
    (b ≠ 0 → ∃ quotient rest : Int64,
      ((machine host (rounds + 1)).binary .div o p).Ends s (s.AnswersInt quotient) (fun _ => False) ∧
      ((machine host (rounds + 1)).binary .mod o p).Ends s (s.AnswersInt rest) (fun _ => False) ∧
      quotient = Int64.ofInt (a.toInt.tdiv b.toInt) ∧
      |rest.toInt| < |b.toInt| ∧ (rest = 0 ∨ rest.toInt.sign = a.toInt.sign) ∧
      (dividedAndBack (machine host (rounds + 1)) o p).Ends s (s.AnswersInt a) fun _ => False) ∧
    (b = 0 →
      ((machine host (rounds + 1)).binary .div o p).Ends s (fun _ _ => False)
        (s.Raised .integerDivisionByZero) ∧
      ((machine host (rounds + 1)).binary .mod o p).Ends s (fun _ _ => False)
        (s.Raised .integerModulusByZero)) ∧
    ∃ distance : ℕ, distance < 64 ∧ (distance : ℤ) = b.toInt % 64 ∧
      ((machine host (rounds + 1)).binary .shiftLeft o p).Ends s
        (s.AnswersInt (Int64.ofInt (a.toInt * 2 ^ distance))) (fun _ => False) ∧
      ∃ shifted : Int64, shifted.toInt = a.toInt / 2 ^ distance ∧
        ((machine host (rounds + 1)).binary .shiftRight o p).Ends s (s.AnswersInt shifted) fun _ => False := by
  have hstands := State.StandsFor.of_run hp
  refine ⟨fun hb => ⟨a / b, a % b, ?_⟩, fun hb => ⟨?_, ?_⟩, Integer.distance b, Integer.distance_lt b,
    Integer.distance_eq b, ?_, Integer.shiftRight a b, Integer.toInt_shiftRight a b, ?_⟩
  · exact ⟨ends_div host ho hstands hb, ends_mod host ho hstands hb, Integer.div_eq_ofInt a b,
      Integer.abs_mod_lt hb, Integer.sign_mod a b, ends_dividedAndBack host ho hstands hb⟩
  · exact (ends_binary_onIntsNonzero host ho hstands rfl).imp (fun _ _ h => h.1 hb) fun _ h => h.2
  · exact (ends_binary_onIntsNonzero host ho hstands rfl).imp (fun _ _ h => h.1 hb) fun _ h => h.2
  · exact Integer.shiftLeft_eq_ofInt a b ▸ ends_binary_onInts host ho hstands rfl
  · exact ends_binary_onInts host ho hstands rfl

/-- The least int is divided by minus one, which a string stands for, and shifted by as much; and it is
divided by zero. -/
theorem division_exact_least :
    let s := { Globals.bare {} .discard {} with
      heap := ⟨#[.singlet "None", .map [], .map [], .int Int64.minValue, .string "-1", .int 0]⟩ }
    (dividedAndBack (machine {} 2) ⟨3⟩ ⟨4⟩).Ends s (s.AnswersInt Int64.minValue) (fun _ => False) ∧
      ((machine {} 2).binary .shiftRight ⟨3⟩ ⟨4⟩).Ends s (s.AnswersInt (-1)) (fun _ => False) ∧
      ((machine {} 2).binary .shiftLeft ⟨3⟩ ⟨4⟩).Ends s (s.AnswersInt 0) (fun _ => False) ∧
      ((machine {} 1).binary .mod ⟨3⟩ ⟨5⟩).Ends s (fun _ _ => False) (s.Raised .integerModulusByZero) := by
  intro s
  have ho : s.payload ⟨3⟩ = .int Int64.minValue := rfl
  have hstring : s.payload ⟨4⟩ = .string "-1" := rfl
  have hzero : s.payload ⟨5⟩ = .int 0 := rfl
  clear_value s
  have hread : s.StandsFor 1 ⟨4⟩ (-1) := .of_string hstring (by decide +kernel)
  obtain ⟨_, t, hrun, rfl, -⟩ := (hread.ends_toInt {}).exists_run
  obtain ⟨hdivided, -, distance, -, hdistance, hleft, shifted, hshifted, hright⟩ := division_exact {} 1 ho hrun
  obtain rfl : distance = 63 := Int.natCast_inj.mp (hdistance.trans (by decide))
  obtain rfl : shifted = -1 := Int64.toInt_inj.mp (hshifted.trans (by decide +kernel))
  obtain ⟨_, _, -, -, -, -, -, hback⟩ := hdivided (by decide)
  obtain ⟨-, hraises, -⟩ := division_exact {} 0 ho (Dispatcher.run_toInt (machine {} 0).toDispatcher hzero)
  refine ⟨hback, hright, ?_, (hraises rfl).2⟩
  rwa [show Int64.ofInt _ = 0 by decide +kernel] at hleft

end ObjectModel
