import ManilaUtils.Text.PyFloat
import Mathlib.Tactic.NormNum
import Mathlib.Tactic.Positivity

/-! # Human-readable storage sizes

`translate_string_size_to_float(string, multiplier)` reads a size in the unit
`multiplier`, one of `K`, `M`, `G`, `T`, `P`. It first tries `float()` on the
whole string, with a comma read as a decimal point, and divides by 1024 and by
the unit. When that raises `ValueError` it falls back to the pattern
`^(\d*[.,]*\d*)([KMGTP])$`, a number with its own unit letter, and calls
`float()` again on the number. That second call sits inside the `except`
clause, so a `ValueError` it raises leaves the function. `\d` is any Unicode
decimal digit, which `float()` reads as well.

The divisions and the product are those of doubles. The multipliers are powers
of two, so in the normal range the result is the exact size correctly rounded
once (`translateStringSizeToFloat_value`).

Only `str` arguments are modelled; for anything else the function returns
`None` before reading it.
-/

namespace ManilaUtils.Size

open PyStr

/-- `multipliers`. -/
def multipliers : List String := ["K", "M", "G", "T", "P"]

/-- `mapping[k]`, `1024.0 ** v` for the `v`-th multiplier `k`; it is read only at
the five keys. -/
def mapping (k : String) : ℚ := 1024 ^ multipliers.indexOf k

/-- The character class `[%s] % ''.join(multipliers)`. -/
def unitClass : List Char := (String.join multipliers).toList

/-- `[.,]`. -/
def isSep (c : Char) : Bool := c = '.' || c = ','

/-- What `translate_string_size_to_float` raises. -/
inductive TranslateError
  /-- `exception.ManilaException` for a multiplier that is not one of the five -/
  | manila (msg : String)
  /-- `ValueError` from `float(arg)` -/
  | valueError (arg : List Char)
  deriving DecidableEq, Repr

/-- The message of the `ManilaException` for an unknown multiplier. -/
def multiplierMessage (multiplier : String) : String :=
  "'multiplier' arg should be one of following: '" ++ "', '".intercalate multipliers ++
    "'. But it is '" ++ multiplier ++ "'."

/-- `re.match(r"^(\d*[.,]*\d*)([KMGTP])$", string)` and its two groups. The
three runs of the first group are taken greedily: a shorter run would leave a
digit or a separator where the unit letter must stand, so there is nothing to
backtrack to. `$` also matches before a final newline. -/
def matchSize (string : List Char) : Option (List Char × Char) :=
  let d1 := string.takeWhile PyFloat.isDecimal
  let r1 := string.dropWhile PyFloat.isDecimal
  let seps := r1.takeWhile isSep
  let r2 := r1.dropWhile isSep
  let d2 := r2.takeWhile PyFloat.isDecimal
  match r2.dropWhile PyFloat.isDecimal with
  | unit :: tail =>
      if unit ∈ unitClass ∧ (tail = [] ∨ tail = ['\n']) then some (d1 ++ seps ++ d2, unit) else none
  | [] => none

/-- `translate_string_size_to_float(string, multiplier)` for a `str` argument:
the size as a float, or `None`. The source defaults `multiplier` to `'G'`. -/
def translateStringSizeToFloat (string : List Char) (multiplier : String) :
    Except TranslateError (Option PyFloat) :=
  if multiplier ∉ multipliers then .error (.manila (multiplierMessage multiplier))
  else
    match PyFloat.ofString? (replace string ',' '.') with
    | some value => .ok (some ((value.div 1024).div (mapping multiplier)))
    | none =>
        match matchSize string with
        | some (number, unit) =>
            match PyFloat.ofString? (replace number ',' '.') with
            | some value =>
                .ok (some (value.mul (mapping (String.singleton unit) / mapping multiplier)))
            | none => .error (.valueError (replace number ',' '.'))
        | none => .ok none

/-! ## The pattern -/

theorem unitClass_eq : unitClass = ['K', 'M', 'G', 'T', 'P'] := rfl

/-- A unit letter is ASCII and no decimal digit, separator, whitespace,
underscore or comma, no character of a decimal numeral, and alone it is not a
float. -/
theorem unit_facts {unit : Char} (h : unit ∈ unitClass) :
    unit.toNat < 127 ∧ PyFloat.isDecimal unit = false ∧ isSep unit = false ∧
      PyFloat.isCSpace unit = false ∧ unit ≠ '_' ∧ unit ≠ ',' ∧
      PyFloat.decimalChar unit = false ∧ PyFloat.parseStripped [unit] = none := by
  simp only [unitClass_eq, List.mem_cons, List.mem_nil_iff, or_false] at h
  rcases h with rfl | rfl | rfl | rfl | rfl <;> decide

theorem isSep_of_isDecimal {c : Char} (h : PyFloat.isDecimal c) : isSep c = false := by
  cases hsep : isSep c
  · rfl
  · simp only [isSep, Bool.or_eq_true, decide_eq_true_eq] at hsep
    rcases hsep with rfl | rfl <;> revert h <;> decide

/-- A greedy run stops where its predicate first fails. -/
theorem takeWhile_dropWhile_of_head {p : Char → Bool} {l r : List Char} (hl : ∀ c ∈ l, p c)
    (hr : ∀ c ∈ r.head?, p c = false) :
    (l ++ r).takeWhile p = l ∧ (l ++ r).dropWhile p = r := by
  cases r with
  | nil => simp [List.takeWhile_eq_self_iff.mpr hl, List.dropWhile_eq_nil_iff.mpr hl]
  | cons c r =>
      simp [List.takeWhile_append_of_pos hl, List.dropWhile_append_of_pos hl, hr c rfl]

/-- What `matchSize` accepts has the shape of the pattern. -/
theorem matchSize_eq_some {string number : List Char} {unit : Char}
    (h : matchSize string = some (number, unit)) :
    ∃ d1 seps d2 tail, string = d1 ++ seps ++ d2 ++ unit :: tail ∧ number = d1 ++ seps ++ d2 ∧
      (∀ c ∈ d1 ++ d2, PyFloat.isDecimal c) ∧ (∀ c ∈ seps, isSep c) ∧ unit ∈ unitClass ∧
      (tail = [] ∨ tail = ['\n']) := by
  simp only [matchSize] at h
  split at h
  · rename_i unit' tail hrest
    split_ifs at h with hunit
    obtain ⟨rfl, rfl⟩ := Prod.mk.inj (Option.some.inj h)
    refine ⟨_, _, _, tail, ?_, rfl, ?_, fun c hc => List.mem_takeWhile_imp hc, hunit⟩
    · rw [← hrest, List.append_assoc, List.append_assoc, List.takeWhile_append_dropWhile,
        List.takeWhile_append_dropWhile, List.takeWhile_append_dropWhile]
    · simp only [List.mem_append]
      exact fun c hc => hc.elim List.mem_takeWhile_imp List.mem_takeWhile_imp
  · cases h

/-- A string of the pattern's shape is matched, with its number as the first group. -/
theorem matchSize_of_shape {d1 seps d2 tail : List Char} {unit : Char}
    (hd : ∀ c ∈ d1 ++ d2, PyFloat.isDecimal c) (hs : ∀ c ∈ seps, isSep c) (hu : unit ∈ unitClass)
    (ht : tail = [] ∨ tail = ['\n']) :
    matchSize (d1 ++ seps ++ d2 ++ unit :: tail) = some (d1 ++ seps ++ d2, unit) := by
  obtain ⟨-, hudigit, husep, -⟩ := unit_facts hu
  have hd2 : ∀ c ∈ d2, PyFloat.isDecimal c := fun c hc => hd c (List.mem_append_right d1 hc)
  have hrun3 := takeWhile_dropWhile_of_head hd2 (r := unit :: tail) (by simpa using hudigit)
  have hunit : (unit ∈ unitClass ∧ (tail = [] ∨ tail = ['\n'])) := ⟨hu, ht⟩
  cases seps with
  | nil =>
      have hrun1 := takeWhile_dropWhile_of_head hd (r := unit :: tail) (by simpa using hudigit)
      have hrun2 := takeWhile_dropWhile_of_head (l := []) (p := isSep) (r := unit :: tail)
        (by simp) (by simpa using husep)
      have hrun3' := takeWhile_dropWhile_of_head (l := []) (p := PyFloat.isDecimal)
        (r := unit :: tail) (by simp) (by simpa using hudigit)
      simp only [List.nil_append, List.append_nil] at hrun2 hrun3'
      simp only [matchSize, List.append_nil, List.append_assoc] at hrun1 ⊢
      simp [hrun1, hrun2, hrun3', hunit]
  | cons s0 seps =>
      have hs0 : PyFloat.isDecimal s0 = false := by
        have := hs s0 (List.mem_cons_self s0 seps)
        simp only [isSep, Bool.or_eq_true, decide_eq_true_eq] at this
        rcases this with rfl | rfl <;> decide
      have hd1 : ∀ c ∈ d1, PyFloat.isDecimal c := fun c hc => hd c (List.mem_append_left d2 hc)
      have hrun1 := takeWhile_dropWhile_of_head hd1 (r := s0 :: seps ++ d2 ++ unit :: tail)
        (by simpa using hs0)
      have hrun2 := takeWhile_dropWhile_of_head hs (r := d2 ++ unit :: tail) (by
        cases d2 with
        | nil => simpa using husep
        | cons d d2 => simpa using isSep_of_isDecimal (hd2 d (List.mem_cons_self d d2)))
      simp only [matchSize, List.append_assoc, List.cons_append] at hrun1 hrun2 ⊢
      simp [hrun1, hrun2, hrun3, hunit]

/-! ## The two calls of `float()` -/

theorem replace_append (a b : List Char) (old new : Char) :
    replace (a ++ b) old new = replace a old new ++ replace b old new :=
  List.map_append _ _ _

theorem replace_eq_self {s : List Char} (h : ∀ c ∈ s, c ≠ ',') : replace s ',' '.' = s := by
  conv_rhs => rw [← List.map_id s]
  exact List.map_congr_left fun c hc => if_neg (h c hc)

theorem ne_comma_of_isDecimal {c : Char} (h : PyFloat.isDecimal c) : c ≠ ',' := by
  rintro rfl
  revert h
  decide

/-- With commas read as points, the first group is digits, points and digits. -/
theorem replace_number {d1 seps d2 : List Char} (hd : ∀ c ∈ d1 ++ d2, PyFloat.isDecimal c)
    (hs : ∀ c ∈ seps, isSep c) :
    replace (d1 ++ seps ++ d2) ',' '.' = d1 ++ List.replicate seps.length '.' ++ d2 := by
  have hkeep : ∀ l : List Char, (∀ c ∈ l, PyFloat.isDecimal c) → replace l ',' '.' = l :=
    fun l hl => replace_eq_self fun c hc => ne_comma_of_isDecimal (hl c hc)
  have hpoints : replace seps ',' '.' = List.replicate seps.length '.' := by
    refine List.eq_replicate_iff.mpr ⟨by simp [replace], fun b hb => ?_⟩
    obtain ⟨c, hc, rfl⟩ := List.mem_map.mp hb
    have := hs c hc
    simp only [isSep, Bool.or_eq_true, decide_eq_true_eq] at this
    rcases this with rfl | rfl <;> rfl
  rw [List.forall_mem_append] at hd
  rw [replace_append, replace_append, hkeep d1 hd.1, hkeep d2 hd.2, hpoints]

/-- `float()` rejects the first group exactly when it has no digit or more than
one separator. -/
theorem ofString?_number {d1 seps d2 : List Char} (hd : ∀ c ∈ d1 ++ d2, PyFloat.isDecimal c)
    (hs : ∀ c ∈ seps, isSep c) :
    PyFloat.ofString? (replace (d1 ++ seps ++ d2) ',' '.') = none ↔
      d1 ++ d2 = [] ∨ 2 ≤ seps.length := by
  rw [replace_number hd hs]
  rw [List.forall_mem_append] at hd
  exact PyFloat.ofString?_digits_points hd.1 hd.2 _

/-- The first call of `float()`, on the whole string, fails on every string the
pattern matches. -/
theorem ofString?_shape {d1 seps d2 tail : List Char} {unit : Char}
    (hd : ∀ c ∈ d1 ++ d2, PyFloat.isDecimal c) (hs : ∀ c ∈ seps, isSep c) (hu : unit ∈ unitClass)
    (ht : tail = [] ∨ tail = ['\n']) :
    PyFloat.ofString? (replace (d1 ++ seps ++ d2 ++ unit :: tail) ',' '.') = none := by
  obtain ⟨huascii, -, -, hucspace, hunder, hucomma, hudecimal, hualone⟩ := unit_facts hu
  have htail : replace tail ',' '.' = tail ∧
      ∀ c ∈ tail, PyFloat.isCSpace c ∧ c.toNat < 127 ∧ c ≠ '_' := by
    rcases ht with rfl | rfl <;> decide
  rw [replace_append, show replace (unit :: tail) ',' '.' = unit :: tail by
    simp only [replace, List.map_cons, if_neg hucomma]; exact congrArg _ htail.1, replace_number hd hs]
  have hnumber := PyFloat.decimals_of_digits_points (fun c hc => hd c (List.mem_append_left _ hc))
    (fun c hc => hd c (List.mem_append_right _ hc)) seps.length
  generalize d1 ++ List.replicate seps.length '.' ++ d2 = number at hnumber
  have hcopy : ∀ c ∈ number.map PyFloat.toAscii, PyFloat.digitOrPoint c := by
    simp only [List.mem_map, forall_exists_index, and_imp, forall_apply_eq_imp_iff₂]
    intro c hc
    rcases hnumber c hc with h | rfl
    exacts [.inl (PyFloat.toAscii_of_isDecimal h).1, .inr rfl]
  have hall : ∀ c ∈ number ++ unit :: tail, (c.toNat < 127 ∨ PyFloat.isDecimal c) ∧ c ≠ '_' := by
    intro c hc
    rcases List.mem_append.mp hc with hc | hc
    · rcases hnumber c hc with h | rfl
      · exact ⟨.inr h, by rintro rfl; exact absurd h (by decide)⟩
      · exact ⟨.inl (by decide), by decide⟩
    · rcases List.mem_cons.mp hc with rfl | hc
      · exact ⟨.inl huascii, hunder⟩
      · exact ⟨.inl (htail.2 c hc).2.1, (htail.2 c hc).2.2⟩
  have hmap : (number ++ unit :: tail).map PyFloat.toAscii =
      number.map PyFloat.toAscii ++ [unit] ++ tail := by
    have htailmap : tail.map PyFloat.toAscii = tail := by rcases ht with rfl | rfl <;> rfl
    rw [List.map_append, List.map_cons, PyFloat.toAscii_eq_self huascii, htailmap]
    simp
  have hstrip : PyFloat.stripCSpace (number.map PyFloat.toAscii ++ [unit] ++ tail) =
      number.map PyFloat.toAscii ++ [unit] := by
    refine PyStr.dropWhile_rdropWhile_append (fun c hc => ?_) fun c hc => (htail.2 c hc).1
    rcases List.mem_append.mp hc with hc | hc
    · exact PyFloat.isCSpace_of_digitOrPoint (hcopy c hc)
    · exact (List.mem_singleton.mp hc) ▸ hucspace
  rw [PyFloat.ofString?_eq_parse (fun c hc => (hall c hc).1) (fun c hc => (hall c hc).2), hmap, hstrip]
  cases hnum : number.map PyFloat.toAscii with
  | nil => exact hualone
  | cons c r =>
      rw [List.cons_append, PyFloat.parseStripped_of_head (hcopy c (hnum ▸ List.mem_cons_self c r)),
        Option.map_eq_none', Option.eq_none_iff_forall_not_mem]
      intro q hq
      have := PyFloat.parseDecimal_chars hq unit (by simp)
      rw [hudecimal] at this
      cases this

/-! ## When the size parser raises -/

/-- `translate_string_size_to_float` raises exactly for an unknown multiplier,
or for a string the fallback pattern matches whose number has no digit or more
than one separator. -/
theorem translateStringSizeToFloat_raises_iff (string : List Char) (multiplier : String) :
    (∃ e, translateStringSizeToFloat string multiplier = .error e) ↔
      multiplier ∉ multipliers ∨
        ∃ d1 seps d2 unit tail, string = d1 ++ seps ++ d2 ++ unit :: tail ∧
          (∀ c ∈ d1 ++ d2, PyFloat.isDecimal c) ∧ (∀ c ∈ seps, isSep c) ∧ unit ∈ unitClass ∧
          (tail = [] ∨ tail = ['\n']) ∧ (d1 ++ d2 = [] ∨ 2 ≤ seps.length) := by
  by_cases hm : multiplier ∈ multipliers
  swap
  · simp [translateStringSizeToFloat, hm]
  simp only [hm, not_true_eq_false, false_or]
  constructor
  · rintro ⟨e, he⟩
    simp only [translateStringSizeToFloat, hm, not_true_eq_false, if_false] at he
    split at he
    · cases he
    split at he
    · rename_i number unit hmatch
      split at he
      · cases he
      rename_i hnumber
      obtain ⟨d1, seps, d2, tail, rfl, rfl, hd, hs, hu, ht⟩ := matchSize_eq_some hmatch
      exact ⟨d1, seps, d2, unit, tail, rfl, hd, hs, hu, ht, (ofString?_number hd hs).mp hnumber⟩
    · cases he
  · rintro ⟨d1, seps, d2, unit, tail, rfl, hd, hs, hu, ht, hbad⟩
    refine ⟨.valueError (replace (d1 ++ seps ++ d2) ',' '.'), ?_⟩
    simp only [translateStringSizeToFloat, hm, not_true_eq_false, if_false,
      ofString?_shape hd hs hu ht, matchSize_of_shape hd hs hu ht, (ofString?_number hd hs).mpr hbad]

/-- Two separators: `float("1..5")` raises, and so does the call. -/
example : translateStringSizeToFloat "1..5G".toList "G" = .error (.valueError "1..5".toList) := rfl

/-- Fullwidth digits are digits to the pattern and to `float()`: `"１..G"`
raises as `"1..G"` does. -/
example : translateStringSizeToFloat "１..G".toList "G" = .error (.valueError "１..".toList) := rfl

/-- A bare unit letter raises: the fallback pattern matches `"G"` with an empty
number, and `float("")` raises `ValueError` inside the `except` clause. -/
theorem translateStringSizeToFloat_bare_unit :
    translateStringSizeToFloat "G".toList "G" = .error (.valueError []) := rfl

/-! ## The value of a size -/

/-- `mapping` of a unit letter is 1024 to its place in `KMGTP`. -/
theorem mapping_unit {unit : Char} (hu : unit ∈ unitClass) :
    mapping (String.singleton unit) = 1024 ^ unitClass.indexOf unit := by
  simp only [unitClass_eq, List.mem_cons, List.mem_nil_iff, or_false] at hu
  rcases hu with rfl | rfl | rfl | rfl | rfl <;> rfl

/-- With a comma read as a point, a number with at most one separator and a
digit is the number its digits spell, correctly rounded. -/
theorem ofString?_number_value {d1 seps d2 : List Char} (hd : ∀ c ∈ d1 ++ d2, PyFloat.isDecimal c)
    (hs : ∀ c ∈ seps, isSep c) (hone : seps.length ≤ 1) (hfrac : seps = [] → d2 = [])
    (hdigit : d1 ++ d2 ≠ []) :
    PyFloat.ofString? (replace (d1 ++ seps ++ d2) ',' '.') =
      some (PyFloat.round false ((PyFloat.decimalNumber (d1 ++ d2) : ℚ) / 10 ^ d2.length)) := by
  rw [replace_number hd hs]
  rw [List.forall_mem_append] at hd
  exact PyFloat.ofString?_digits_point_value hd.1 hd.2 hone
    (fun h => hfrac (List.length_eq_zero.mp h)) hdigit

theorem inv_pow_1024 (j : ℕ) : ((1024 : ℚ) ^ j)⁻¹ = 2 ^ (-(10 * j : ℤ)) := by
  rw [zpow_neg, zpow_mul, zpow_natCast]
  norm_num

theorem pow_1024_div_pow_1024 (i j : ℕ) : (1024 : ℚ) ^ i / 1024 ^ j = 2 ^ ((10 * i : ℤ) - 10 * j) := by
  rw [zpow_sub₀ two_ne_zero, zpow_mul, zpow_mul, zpow_natCast, zpow_natCast]
  norm_num

/-- The first path divides the float by `1024` and by the multiplier: while the
sizes are normal, that is the exact quotient rounded once. -/
theorem div_div_round {v : ℚ} {j : ℕ} (hv0 : 0 ≤ v) (hfin : PyFloat.nearest v < 2 ^ 1024)
    (hv : v = 0 ∨ (2 : ℚ) ^ (-1022 : ℤ) ≤ v / 1024 / 1024 ^ j) :
    ((PyFloat.round false v).div 1024).div (1024 ^ j) =
      PyFloat.round false (v / 1024 / 1024 ^ j) := by
  rw [PyFloat.div_eq_mul, PyFloat.div_eq_mul]
  rcases hv with rfl | hnorm
  · rw [PyFloat.mul_round_zero, PyFloat.mul_round_zero]
    simp
  have hpow : (1 : ℚ) ≤ 1024 ^ j := one_le_pow₀ (by norm_num)
  have hscaled : v / 1024 / 1024 ^ j ≤ v * 2 ^ (-10 : ℤ) := by
    rw [show (2 : ℚ) ^ (-10 : ℤ) = 1024⁻¹ by norm_num, ← div_eq_mul_inv]
    exact div_le_self (div_nonneg hv0 (by norm_num)) hpow
  have h1 : (2 : ℚ) ^ (-1022 : ℤ) ≤ v * 2 ^ (-10 : ℤ) := hnorm.trans hscaled
  have h0 : (2 : ℚ) ^ (-1022 : ℤ) ≤ v :=
    h1.trans (mul_le_of_le_one_right hv0 (zpow_le_one_of_nonpos₀ (by norm_num) (by norm_num)))
  have hquot : v * 2 ^ (-10 : ℤ) * 2 ^ (-(10 * j : ℤ)) = v / 1024 / 1024 ^ j := by
    rw [← inv_pow_1024]
    norm_num [div_eq_mul_inv]
  have hfin' : PyFloat.nearest (v * 2 ^ (-10 : ℤ)) < 2 ^ 1024 := by
    rw [PyFloat.nearest_mul_zpow h0 h1]
    exact lt_of_le_of_lt (mul_le_of_le_one_right (PyFloat.nearest_nonneg hv0)
      (zpow_le_one_of_nonpos₀ (by norm_num) (by norm_num))) hfin
  rw [show (1024 : ℚ)⁻¹ = 2 ^ (-10 : ℤ) by norm_num, PyFloat.mul_round h0 h1 hfin, inv_pow_1024,
    PyFloat.mul_round h1 (hquot ▸ hnorm) hfin', hquot]

/-- The second path multiplies the float by the ratio of two multipliers: while
the sizes are normal, that is the exact product rounded once. -/
theorem mul_ratio_round {v : ℚ} {i j : ℕ} (hv0 : 0 ≤ v) (hfin : PyFloat.nearest v < 2 ^ 1024)
    (hv : v = 0 ∨ (2 : ℚ) ^ (-1022 : ℤ) ≤ v ∧
      (2 : ℚ) ^ (-1022 : ℤ) ≤ v * (1024 ^ i / 1024 ^ j)) :
    (PyFloat.round false v).mul (1024 ^ i / 1024 ^ j) =
      PyFloat.round false (v * (1024 ^ i / 1024 ^ j)) := by
  rcases hv with rfl | ⟨h0, h1⟩
  · rw [PyFloat.mul_round_zero, zero_mul]
  rw [pow_1024_div_pow_1024] at h1 ⊢
  exact PyFloat.mul_round h0 h1 hfin false

/-- A number of decimal digits with at most one `.` or `,` and at least one
digit spells a size `v`: in bytes when it stands alone, in its own unit when a
unit letter follows. When `float()` of the number is finite and the sizes are
normal doubles, the result is `v` in the unit `multiplier` rounded once: the
divisions and the product by powers of two add no rounding of their own. When
`float()` of the number overflows, the result is `inf` whatever the units. -/
theorem translateStringSizeToFloat_value {d1 seps d2 : List Char}
    (hd : ∀ c ∈ d1 ++ d2, PyFloat.isDecimal c) (hs : ∀ c ∈ seps, isSep c)
    (hone : seps.length ≤ 1) (hfrac : seps = [] → d2 = []) (hdigit : d1 ++ d2 ≠ [])
    {multiplier : String} (hm : multiplier ∈ multipliers) :
    let v : ℚ := PyFloat.decimalNumber (d1 ++ d2) / 10 ^ d2.length
    let j := multipliers.indexOf multiplier
    (PyFloat.round false v = .inf false →
      translateStringSizeToFloat (d1 ++ seps ++ d2) multiplier = .ok (some (.inf false)) ∧
      ∀ unit ∈ unitClass, ∀ tail, (tail = [] ∨ tail = ['\n']) →
        translateStringSizeToFloat (d1 ++ seps ++ d2 ++ unit :: tail) multiplier =
          .ok (some (.inf false))) ∧
    (PyFloat.round false v ≠ .inf false →
      ((v = 0 ∨ (2 : ℚ) ^ (-1022 : ℤ) ≤ v / 1024 / 1024 ^ j) →
        translateStringSizeToFloat (d1 ++ seps ++ d2) multiplier =
          .ok (some (PyFloat.round false (v / 1024 / 1024 ^ j)))) ∧
      ∀ unit ∈ unitClass, ∀ tail, (tail = [] ∨ tail = ['\n']) →
        (v = 0 ∨ (2 : ℚ) ^ (-1022 : ℤ) ≤ v ∧
          (2 : ℚ) ^ (-1022 : ℤ) ≤ v * (1024 ^ unitClass.indexOf unit / 1024 ^ j)) →
        translateStringSizeToFloat (d1 ++ seps ++ d2 ++ unit :: tail) multiplier =
          .ok (some (PyFloat.round false (v * (1024 ^ unitClass.indexOf unit / 1024 ^ j))))) := by
  intro v j
  have hv0 : 0 ≤ v := by positivity
  have hvalue := ofString?_number_value hd hs hone hfrac hdigit
  have hfirst : translateStringSizeToFloat (d1 ++ seps ++ d2) multiplier =
      .ok (some (((PyFloat.round false v).div 1024).div (1024 ^ j))) := by
    simp only [translateStringSizeToFloat, hm, not_true_eq_false, if_false, hvalue]
    rfl
  have hsecond : ∀ unit ∈ unitClass, ∀ tail, (tail = [] ∨ tail = ['\n']) →
      translateStringSizeToFloat (d1 ++ seps ++ d2 ++ unit :: tail) multiplier =
        .ok (some ((PyFloat.round false v).mul (1024 ^ unitClass.indexOf unit / 1024 ^ j))) := by
    intro unit hu tail ht
    simp only [translateStringSizeToFloat, hm, not_true_eq_false, if_false,
      ofString?_shape hd hs hu ht, matchSize_of_shape hd hs hu ht, hvalue, mapping_unit hu]
    rfl
  refine ⟨fun hinf => ⟨by rw [hfirst, hinf]; rfl, fun unit hu tail ht => ?_⟩, fun hfin => ?_⟩
  · rw [hsecond unit hu tail ht, hinf]
    rfl
  have hlt : PyFloat.nearest v < 2 ^ 1024 := by
    simpa [PyFloat.round_eq_inf_iff, abs_of_nonneg hv0] using hfin
  exact ⟨fun hnorm => by rw [hfirst, div_div_round hv0 hlt hnorm],
    fun unit hu tail ht hnorm => by rw [hsecond unit hu tail ht, mul_ratio_round hv0 hlt hnorm]⟩

/-- `"1,5"` in `K` is 1.5 bytes, `3/2048` K rounded once; `"1,5M"` is 1536 K. -/
theorem translateStringSizeToFloat_value_one_comma_five :
    translateStringSizeToFloat "1,5".toList "K" = .ok (some (PyFloat.round false (3 / 2048))) ∧
      translateStringSizeToFloat "1,5M".toList "K" = .ok (some (PyFloat.round false 1536)) := by
  have h := @translateStringSizeToFloat_value ['1'] [','] ['5'] (by decide) (by decide) (by decide)
    (by decide) (by decide) "K" (by decide)
  have hv : ((PyFloat.decimalNumber (['1'] ++ ['5']) : ℕ) : ℚ) / 10 ^ ['5'].length = 3 / 2 := by
    rw [show PyFloat.decimalNumber (['1'] ++ ['5']) = 15 from rfl]
    norm_num
  have hK : multipliers.indexOf "K" = 0 := rfl
  have hM : unitClass.indexOf 'M' = 1 := rfl
  dsimp only at h
  rw [hv, hK] at h
  have hfin : PyFloat.round false (3 / 2) ≠ .inf false := by
    rw [Ne, PyFloat.round_eq_inf_iff, abs_of_nonneg (by norm_num),
      PyFloat.nearest_eq_self ⟨3, -1, by norm_num, by norm_num, by norm_num⟩]
    norm_num
  obtain ⟨hbytes, hunit⟩ := h.2 hfin
  refine ⟨(hbytes (.inr (by norm_num))).trans (by norm_num), ?_⟩
  exact (hunit 'M' (by decide) [] (.inl rfl) (.inr ⟨by norm_num, by norm_num [hM]⟩)).trans
    (by norm_num [hM])

end ManilaUtils.Size
