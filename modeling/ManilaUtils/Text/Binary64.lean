import Mathlib.Algebra.Order.Field.Power
import Mathlib.Data.Int.Log
import Mathlib.Data.Rat.Floor

/-! # Binary64 doubles

A Python `float` is an IEEE 754 binary64 double. A finite double is a sign and
a magnitude on the binary64 grid: a significand below `2^53` times a power of
two no smaller than `2^-1074`, and below `2^1024`. CPython's `_Py_dg_strtod`
and the arithmetic operators round the exact result to the nearest grid value,
ties to even, and give an infinity once that value reaches `2^1024`
(IEEE 754 §4.3.1 and §7.4).

Here the rounding is `nearest`, on a nonnegative rational, with an unbounded
exponent; `round` adds the sign and the overflow. Scaling by a power of two is
exact on normal magnitudes (`nearest_mul_zpow`), so a scaled double is the
rounding of the scaled exact value (`mul_round`).
-/

namespace ManilaUtils

/-- `x` is on the binary64 grid, with an unbounded exponent: a significand
below `2^53` times a power of two no smaller than `2^-1074`. -/
def OnGrid (x : ℚ) : Prop :=
  ∃ (n : ℕ) (e : ℤ), x = n * 2 ^ e ∧ n < 2 ^ 53 ∧ -1074 ≤ e

/-- A Python `float`: a sign and a finite binary64 magnitude, so that
`finite true ⟨0, _⟩` is `-0.0`; an infinity; or a NaN, whose sign is left out. -/
inductive PyFloat
  | finite (negative : Bool) (magnitude : {x : ℚ // OnGrid x ∧ x < 2 ^ 1024})
  | inf (negative : Bool)
  | nan
  deriving DecidableEq, Repr

namespace PyFloat

/-- The integer nearest to `m`, the even one on a tie. -/
def roundHalfEven (m : ℚ) : ℤ :=
  if m - ⌊m⌋ < 1 / 2 then ⌊m⌋
  else if 1 / 2 < m - ⌊m⌋ then ⌊m⌋ + 1
  else if ⌊m⌋ % 2 = 0 then ⌊m⌋ else ⌊m⌋ + 1

/-- The exponent of the last significand bit of the doubles next to `a > 0`:
53 significant bits, and none below `2^-1074`. -/
def ulpExp (a : ℚ) : ℤ := max (Int.log 2 a - 52) (-1074)

/-- The grid value nearest to `a ≥ 0`, ties to even, with an unbounded exponent. -/
def nearest (a : ℚ) : ℚ := roundHalfEven (a / 2 ^ ulpExp a) * 2 ^ ulpExp a

/-! ## Rounding to the grid -/

theorem floor_le_roundHalfEven (m : ℚ) : ⌊m⌋ ≤ roundHalfEven m := by
  unfold roundHalfEven
  split_ifs <;> omega

theorem roundHalfEven_le (m : ℚ) : roundHalfEven m ≤ ⌊m⌋ + 1 := by
  unfold roundHalfEven
  split_ifs <;> omega

@[simp] theorem roundHalfEven_intCast (n : ℤ) : roundHalfEven n = n := by
  simp [roundHalfEven]

@[simp] theorem roundHalfEven_zero : roundHalfEven 0 = 0 := by
  simpa using roundHalfEven_intCast 0

theorem log_bounds {a : ℚ} (ha : 0 < a) :
    (2 : ℚ) ^ Int.log 2 a ≤ a ∧ a < 2 ^ (Int.log 2 a + 1) :=
  ⟨by simpa using Int.zpow_log_le_self (b := 2) (by norm_num) ha,
    by simpa using Int.lt_zpow_succ_log_self (b := 2) (by norm_num) a⟩

theorem log_eq {a : ℚ} {k : ℤ} (hlo : (2 : ℚ) ^ k ≤ a) (hhi : a < 2 ^ (k + 1)) :
    Int.log 2 a = k := by
  have ha : 0 < a := lt_of_lt_of_le (by positivity) hlo
  have hle := (Int.zpow_le_iff_le_log (b := 2) (by norm_num) ha).mp (by simpa using hlo)
  have hlt := (Int.lt_zpow_iff_log_lt (b := 2) (by norm_num) ha).mp (by simpa using hhi)
  omega

theorem log_mul_zpow {a : ℚ} (ha : 0 < a) (k : ℤ) : Int.log 2 (a * 2 ^ k) = Int.log 2 a + k := by
  obtain ⟨hlo, hhi⟩ := log_bounds ha
  apply log_eq
  · rw [zpow_add₀ two_ne_zero]
    exact mul_le_mul_of_nonneg_right hlo (by positivity)
  · rw [show Int.log 2 a + k + 1 = Int.log 2 a + 1 + k by ring, zpow_add₀ two_ne_zero]
    exact mul_lt_mul_of_pos_right hhi (by positivity)

/-- On a normal magnitude the last bit is 52 places below the leading one. -/
theorem ulpExp_of_normal {a : ℚ} (ha : (2 : ℚ) ^ (-1022 : ℤ) ≤ a) :
    ulpExp a = Int.log 2 a - 52 := by
  have hlog : -1022 ≤ Int.log 2 a :=
    (Int.zpow_le_iff_le_log (b := 2) (by norm_num) (lt_of_lt_of_le (by positivity) ha)).mp
      (by simpa using ha)
  exact max_eq_left (by omega)

@[simp] theorem nearest_zero : nearest 0 = 0 := by
  simp [nearest]

theorem nearest_nonneg {a : ℚ} (ha : 0 ≤ a) : 0 ≤ nearest a := by
  have hfloor : 0 ≤ ⌊a / 2 ^ ulpExp a⌋ := Int.floor_nonneg.mpr (by positivity)
  have hround : (0 : ℚ) ≤ roundHalfEven (a / 2 ^ ulpExp a) := by
    exact_mod_cast hfloor.trans (floor_le_roundHalfEven _)
  exact mul_nonneg hround (by positivity)

/-- The rounded magnitude is on the grid: its significand reaches `2^53` only
when rounding carries into the next binade. -/
theorem nearest_onGrid {a : ℚ} (ha : 0 ≤ a) : OnGrid (nearest a) := by
  have hE : -1074 ≤ ulpExp a := le_max_right _ _
  generalize hm : roundHalfEven (a / 2 ^ ulpExp a) = m
  have hm0 : 0 ≤ m := hm ▸ (Int.floor_nonneg.mpr (by positivity)).trans (floor_le_roundHalfEven _)
  have hm53 : m ≤ 2 ^ 53 := by
    rcases ha.eq_or_lt with rfl | hpos
    · simp [← hm]
    have hulp : Int.log 2 a - 52 ≤ ulpExp a := le_max_left _ _
    have hlt : a / 2 ^ ulpExp a < 2 ^ 53 := by
      rw [div_lt_iff₀ (by positivity), ← zpow_natCast, ← zpow_add₀ two_ne_zero]
      exact (log_bounds hpos).2.trans_le (zpow_le_zpow_right₀ (by norm_num) (by push_cast; omega))
    have hfloor : ⌊a / 2 ^ ulpExp a⌋ < 2 ^ 53 := Int.floor_lt.mpr (by exact_mod_cast hlt)
    have := roundHalfEven_le (a / 2 ^ ulpExp a)
    omega
  rcases hm53.lt_or_eq with hlt | rfl
  · refine ⟨m.toNat, ulpExp a, ?_, by omega, hE⟩
    rw [nearest, hm, ← Int.cast_natCast, Int.toNat_of_nonneg hm0]
  · refine ⟨2 ^ 52, ulpExp a + 1, ?_, by norm_num, by omega⟩
    rw [nearest, hm, zpow_add₀ two_ne_zero]
    push_cast
    ring

/-- A grid value rounds to itself. -/
theorem nearest_eq_self {x : ℚ} (hx : OnGrid x) : nearest x = x := by
  obtain ⟨n, e, rfl, hn, he⟩ := hx
  rcases Nat.eq_zero_or_pos n with rfl | hpos
  · simp
  have hlog : Int.log 2 ((n : ℚ) * 2 ^ e) < e + 53 := by
    refine (Int.lt_zpow_iff_log_lt (b := 2) (by norm_num) (by positivity)).mp ?_
    rw [Nat.cast_ofNat, add_comm, zpow_add₀ two_ne_zero]
    exact mul_lt_mul_of_pos_right (by exact_mod_cast hn) (by positivity)
  have hulp : ulpExp ((n : ℚ) * 2 ^ e) ≤ e := max_le (by omega) he
  unfold nearest
  generalize ulpExp ((n : ℚ) * 2 ^ e) = E at hulp ⊢
  obtain ⟨d, rfl⟩ : ∃ d : ℕ, e = E + d := ⟨(e - E).toNat, by omega⟩
  have hq : (n : ℚ) * 2 ^ (E + d) / 2 ^ E = ((n * 2 ^ d : ℕ) : ℤ) := by
    rw [zpow_add₀ two_ne_zero, zpow_natCast]
    field_simp
    ring
  rw [hq, roundHalfEven_intCast, zpow_add₀ two_ne_zero, zpow_natCast]
  push_cast
  ring

theorem nearest_nearest {a : ℚ} (ha : 0 ≤ a) : nearest (nearest a) = nearest a :=
  nearest_eq_self (nearest_onGrid ha)

/-- Scaling by a power of two commutes with rounding while both magnitudes are
normal: the grid scales with them. -/
theorem nearest_mul_zpow {a : ℚ} {k : ℤ} (ha : (2 : ℚ) ^ (-1022 : ℤ) ≤ a)
    (hak : (2 : ℚ) ^ (-1022 : ℤ) ≤ a * 2 ^ k) : nearest (a * 2 ^ k) = nearest a * 2 ^ k := by
  have hpos : 0 < a := lt_of_lt_of_le (by positivity) ha
  have hE : ulpExp (a * 2 ^ k) = ulpExp a + k := by
    rw [ulpExp_of_normal hak, ulpExp_of_normal ha, log_mul_zpow hpos]
    ring
  have hq : a * 2 ^ k / 2 ^ (ulpExp a + k) = a / 2 ^ ulpExp a := by
    rw [zpow_add₀ two_ne_zero]
    field_simp
    ring
  rw [nearest, nearest, hE, hq, zpow_add₀ two_ne_zero]
  ring

/-! ## Signed doubles and their arithmetic -/

/-- `±a` correctly rounded to a double: `inf` once the rounded magnitude
reaches `2^1024`. -/
def round (negative : Bool) (a : ℚ) : PyFloat :=
  if h : nearest |a| < 2 ^ 1024 then .finite negative ⟨nearest |a|, nearest_onGrid (abs_nonneg a), h⟩
  else .inf negative

/-- `x / d` for a positive double `d`. -/
def div (x : PyFloat) (d : ℚ) : PyFloat :=
  match x with
  | .finite negative m => round negative (m.1 / d)
  | x => x

/-- `x * k` for a positive double `k`. -/
def mul (x : PyFloat) (k : ℚ) : PyFloat :=
  match x with
  | .finite negative m => round negative (m.1 * k)
  | x => x

/-- Two values that round to the same magnitude give the same double. -/
theorem round_congr {a b : ℚ} (h : nearest |a| = nearest |b|) (negative : Bool) :
    round negative a = round negative b := by
  unfold round
  split_ifs with ha hb hb
  · exact congrArg _ (Subtype.ext h)
  · exact absurd (h ▸ ha) hb
  · exact absurd (h ▸ hb) ha
  · rfl

theorem round_eq_inf_iff {negative : Bool} {a : ℚ} :
    round negative a = .inf negative ↔ 2 ^ 1024 ≤ nearest |a| := by
  unfold round
  split_ifs with h
  · exact iff_of_false nofun (not_le.mpr h)
  · exact iff_of_true rfl (not_lt.mp h)

theorem div_eq_mul (x : PyFloat) (d : ℚ) : x.div d = x.mul d⁻¹ := by
  cases x with
  | finite negative m => exact congrArg (round negative) (div_eq_mul_inv _ _)
  | _ => rfl

@[simp] theorem inf_mul (negative : Bool) (k : ℚ) : (inf negative).mul k = inf negative := rfl

/-- A finite double times `k` is the rounding of its magnitude times `k`. -/
theorem mul_round_of_lt {a : ℚ} (h : nearest |a| < 2 ^ 1024) (negative : Bool) (k : ℚ) :
    (round negative a).mul k = round negative (nearest |a| * k) := by
  conv_lhs => rw [round, dif_pos h]
  rfl

theorem mul_round_zero (negative : Bool) (k : ℚ) : (round negative 0).mul k = round negative 0 :=
  (mul_round_of_lt (by simp) negative k).trans (round_congr (by simp) negative)

/-- A finite double scaled by a power of two, both normal, is the rounding of
the scaled exact value: the rounding error is not scaled into a second one. -/
theorem mul_round {a : ℚ} {k : ℤ} (ha : (2 : ℚ) ^ (-1022 : ℤ) ≤ a)
    (hak : (2 : ℚ) ^ (-1022 : ℤ) ≤ a * 2 ^ k) (hfin : nearest a < 2 ^ 1024) (negative : Bool) :
    (round negative a).mul (2 ^ k) = round negative (a * 2 ^ k) := by
  have ha0 : 0 ≤ a := le_trans (by positivity) ha
  rw [mul_round_of_lt (by rwa [abs_of_nonneg ha0])]
  refine round_congr ?_ negative
  rw [abs_of_nonneg ha0, abs_of_nonneg (mul_nonneg (nearest_nonneg ha0) (by positivity)),
    abs_of_nonneg (mul_nonneg ha0 (by positivity)), ← nearest_mul_zpow ha hak,
    nearest_nearest (mul_nonneg ha0 (by positivity))]

end PyFloat

end ManilaUtils
