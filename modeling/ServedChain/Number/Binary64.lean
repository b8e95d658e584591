/-
  ServedChain — numbers with a sign and 53 significant bits (binary64), to which
  settings are rounded.

  * `Binary64.ofNat`, `ofInt` and `ofDecimal` round to the nearest number, and to
    the one with an even significand if two are equally near;
  * `toInt?` is the value of a number that is an integer;
  * `toInt?_ofNat_of_lt`: below 2^53 nothing is lost; `le_of_toInt?_ofNat`: from
    there on nothing comes out below it.
-/

namespace ServedChain

inductive Binary64 where
  /-- The significand times a power of two -/
  | finite (negative : Bool) (significand : Nat) (exponent : Int)
  | infinite (negative : Bool)
  deriving DecidableEq, Repr

namespace Binary64

/-! ## Rounding -/

/-- The integer nearest to a quotient, the even one if two are. -/
def divideRound (n d : Nat) : Nat :=
  if d < 2 * (n % d) ∨ (d = 2 * (n % d) ∧ n / d % 2 = 1) then n / d + 1 else n / d

/-- The number with a significand of at most 2^53 and an exponent, if it is in range. -/
def ofParts (negative : Bool) (significand : Nat) (exponent : Int) : Binary64 :=
  let (significand, exponent) :=
    if significand = 1 <<< 53 then (1 <<< 52, exponent + 1) else (significand, exponent)
  if exponent ≤ 971 then finite negative significand exponent else infinite negative

/-- The number with the opposite sign. -/
def negate : Binary64 → Binary64
  | finite negative significand exponent => finite (!negative) significand exponent
  | infinite negative => infinite (!negative)

/-- The number nearest to a natural number. -/
def ofNat (n : Nat) : Binary64 :=
  if n < 1 <<< 53 then finite false n 0
  else
    let shift := n.log2 - 52
    ofParts false (divideRound n (1 <<< shift)) shift

/-- The number nearest to an integer. -/
def ofInt (n : Int) : Binary64 :=
  if n < 0 then (ofNat n.natAbs).negate else ofNat n.natAbs

theorem ofInt_natCast (n : Nat) : ofInt n = ofNat n := if_neg (Int.not_lt.2 (Int.natCast_nonneg n))

/-- The number nearest to a positive quotient. -/
def ofQuotient (n d : Nat) : Binary64 :=
  let size : Int := n.log2 - d.log2 - 52
  let scale (exponent : Int) : Nat × Nat := (n <<< (-exponent).toNat, d <<< exponent.toNat)
  let (n', d') := scale size
  let exponent := max (-1074) (if d' <<< 52 ≤ n' then size else size - 1)
  let (n', d') := scale exponent
  ofParts false (divideRound n' d') exponent

/-- A power of ten; that of a negative exponent counts as one. -/
def tenTo (exponent : Int) : Nat := Nat.pow 10 exponent.toNat

/-- The number nearest to `digits * 10 ^ exponent`. -/
def ofDecimal (digits : Int) (exponent : Int) : Binary64 :=
  let magnitude :=
    if 0 ≤ exponent then ofNat (digits.natAbs * tenTo exponent)
    else if digits = 0 then ofNat 0
    else ofQuotient digits.natAbs (tenTo (-exponent))
  if digits < 0 then magnitude.negate else magnitude

/-! ## Integers -/

/-- The value of a number that is an integer. -/
def toInt? : Binary64 → Option Int
  | infinite _ => none
  | finite negative significand exponent =>
    let sign (n : Nat) : Int := if negative then -(n : Int) else n
    if 0 ≤ exponent then some (sign (significand <<< exponent.toNat))
    else if significand % (1 <<< (-exponent).toNat) = 0 then
      some (sign (significand >>> (-exponent).toNat))
    else none

theorem toInt?_ofNat_of_lt {n : Nat} (h : n < 1 <<< 53) : (ofNat n).toInt? = some n := by
  rw [ofNat, if_pos h]
  simp [toInt?]

theorem le_divideRound (n d : Nat) : n / d ≤ divideRound n d := by
  unfold divideRound
  split <;> omega

/-- A natural number of more than 53 bits does not become smaller than 2^53. -/
theorem le_of_toInt?_ofNat {n : Nat} {m : Int} (h : 1 <<< 53 ≤ n)
    (hm : (ofNat n).toInt? = some m) : ((1 <<< 53 : Nat) : Int) ≤ m := by
  have hlog : 53 ≤ n.log2 := (Nat.le_log2 (by omega)).2 h
  have hpow : 1 <<< 52 * 1 <<< (n.log2 - 52) ≤ n := by
    rw [Nat.one_shiftLeft, Nat.one_shiftLeft, ← Nat.pow_add, Nat.add_sub_cancel' (by omega)]
    exact Nat.log2_self_le (by omega)
  have hq : 1 <<< 52 ≤ divideRound n (1 <<< (n.log2 - 52)) := by
    refine Nat.le_trans ((Nat.le_div_iff_mul_le ?_).2 hpow) (le_divideRound _ _)
    rw [Nat.one_shiftLeft]
    exact Nat.two_pow_pos _
  have key : ∀ s e : Nat, 1 <<< 52 ≤ s → 1 ≤ e → 1 <<< 53 ≤ s <<< e := by
    intro s e hs he
    rw [Nat.shiftLeft_eq s e]
    calc 1 <<< 53 = 1 <<< 52 * 2 ^ 1 := by decide
      _ ≤ s * 2 ^ e := Nat.mul_le_mul hs (Nat.pow_le_pow_right (by decide) he)
  rw [ofNat, if_neg (Nat.not_lt.2 h)] at hm
  simp only [ofParts] at hm
  split at hm
  · split at hm
    · simp only [toInt?] at hm
      rw [if_pos (by omega)] at hm
      cases hm
      have hnat : (((n.log2 - 52 : Nat) : Int) + 1).toNat = n.log2 - 52 + 1 := by omega
      rw [hnat]
      exact Int.ofNat_le.2 (key _ _ (Nat.le_refl _) (by omega))
    · cases hm
  · split at hm
    · simp only [toInt?] at hm
      rw [if_pos (by omega)] at hm
      cases hm
      exact Int.ofNat_le.2 (key _ _ hq (by omega))
    · cases hm

end Binary64

end ServedChain
