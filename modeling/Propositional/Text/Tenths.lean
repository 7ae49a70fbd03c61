/-!
# A floating-point number to one decimal place

The exact binary value of the number is rounded to tenths, and a value half-way between two tenths
goes to the even one. The sign is kept, also that of a negative zero. Events show elapsed times in
this form (`final_result`, section 8 of the Veritas specification).

* `roundHalfEven_near`: the rounded quotient is within half a unit of the exact one.
-/

namespace Propositional.Text

/-- The integer nearest to `num / den`; of two equally near, the even one. -/
def roundHalfEven (num den : Nat) : Nat :=
  let quotient := num / den
  let twice := 2 * (num % den)
  if twice < den then quotient
  else if den < twice then quotient + 1
  else if quotient % 2 = 0 then quotient
  else quotient + 1

theorem roundHalfEven_near {num den : Nat} (h : 0 < den) :
    2 * num ≤ (2 * roundHalfEven num den + 1) * den ∧
      2 * roundHalfEven num den * den ≤ 2 * num + den := by
  have hdiv := Nat.div_add_mod num den
  have hlt := Nat.mod_lt num h
  generalize hq : num / den = q at hdiv
  generalize hr : num % den = r at hdiv hlt
  have hcases : (roundHalfEven num den = q ∧ 2 * r ≤ den) ∨
      (roundHalfEven num den = q + 1 ∧ den ≤ 2 * r) := by
    simp only [roundHalfEven, hq, hr]
    split <;> try split <;> try split
    all_goals omega
  have hmul : 2 * q * den = 2 * (den * q) := by
    rw [Nat.mul_assoc, Nat.mul_comm q den]
  rcases hcases with ⟨h', hle⟩ | ⟨h', hle⟩ <;> rw [h']
  · rw [Nat.add_mul, hmul]
    omega
  · rw [Nat.add_mul, Nat.mul_add, Nat.add_mul, hmul]
    omega

/-- A finite number as `mantissa * 2 ^ exponent`, read off its bits. -/
def mantissaExponent (bits : UInt64) : Nat × Int :=
  let field := (bits >>> 52).toNat % 2048
  let fraction := bits.toNat % (1 <<< 52)
  if field = 0 then (fraction, -1074) else (fraction + (1 <<< 52), (field : Int) - 1075)

/-- `mantissa * 2 ^ exponent` in tenths. -/
def toTenths (mantissa : Nat) (exponent : Int) : Nat :=
  roundHalfEven ((10 * mantissa) <<< exponent.toNat) (1 <<< (-exponent).toNat)

/-- The number to one decimal place. -/
def tenths (x : Float) : String :=
  if x.isNaN then "nan"
  else
    let bits := x.toBits
    let sign := if bits >>> 63 == 1 then "-" else ""
    if x.isInf then sign ++ "inf"
    else
      let n := toTenths (mantissaExponent bits).1 (mantissaExponent bits).2
      s!"{sign}{n / 10}.{n % 10}"

end Propositional.Text
