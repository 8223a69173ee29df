import ManilaUtils.Text.Binary64
import ManilaUtils.Text.PyStr

/-! # Python's `float()` on a string

`float(s)` for a `str` is CPython's `PyFloat_FromString`, here as of CPython
3.11, whose Unicode database is version 14.0.

* `_PyUnicode_TransformDecimalAndSpaceToASCII` copies the text to ASCII. A
  character below 127 stays, Unicode whitespace becomes a blank, a Unicode
  decimal digit becomes its ASCII digit, and at any other character it writes
  `'?'` and stops. A text that is all ASCII is used as it is.
* `_Py_string_to_number_with_underscores` checks that each `_` stands between
  two ASCII digits and removes them.
* `float_from_string_inner` strips the C whitespace and hands the rest to
  `PyOS_string_to_double`, which must use all of it: an optional sign, then a
  decimal numeral (digits, an optional point and digits, at least one digit in
  all, an optional exponent) or `inf`, `infinity` or `nan` in any case.

`_Py_dg_strtod` rounds the numeral correctly to a double (`PyFloat.round`),
and a numeral past the largest double is `inf`. Anything else raises
`ValueError`, which is `none` here.
-/

namespace ManilaUtils

namespace PyFloat

/-- The first code point of each run of ten Unicode decimal digits, `0` to `9`,
in Unicode 14.0. `Py_UNICODE_TODECIMAL` is defined on these runs only. -/
def decimalZeros : List Nat :=
  [0x30, 0x660, 0x6f0, 0x7c0, 0x966, 0x9e6, 0xa66, 0xae6, 0xb66, 0xbe6, 0xc66, 0xce6, 0xd66,
    0xde6, 0xe50, 0xed0, 0xf20, 0x1040, 0x1090, 0x17e0, 0x1810, 0x1946, 0x19d0, 0x1a80, 0x1a90,
    0x1b50, 0x1bb0, 0x1c40, 0x1c50, 0xa620, 0xa8d0, 0xa900, 0xa9d0, 0xa9f0, 0xaa50, 0xabf0,
    0xff10, 0x104a0, 0x10d30, 0x11066, 0x110f0, 0x11136, 0x111d0, 0x112f0, 0x11450, 0x114d0,
    0x11650, 0x116c0, 0x11730, 0x118e0, 0x11950, 0x11c50, 0x11d50, 0x11da0, 0x16a60, 0x16ac0,
    0x16b50, 0x1d7ce, 0x1d7d8, 0x1d7e2, 0x1d7ec, 0x1d7f6, 0x1e140, 0x1e2f0, 0x1e950, 0x1fbf0]

/-- `Py_UNICODE_TODECIMAL(c)`, `none` where it is `-1`. -/
def decimalValue? (c : Char) : Option Nat :=
  decimalZeros.findSome? fun z =>
    if z ≤ c.toNat ∧ c.toNat < z + 10 then some (c.toNat - z) else none

/-- `c.isdecimal()`, which is also what the `str` pattern `\d` matches. -/
def isDecimal (c : Char) : Bool := (decimalValue? c).isSome

/-- What `_PyUnicode_TransformDecimalAndSpaceToASCII` writes for one character
of a text that is not all ASCII, `none` where it writes `'?'` and stops. -/
def asciiChar? (c : Char) : Option Char :=
  if c.toNat < 127 then some c
  else if PyStr.isSpace c then some ' '
  else (decimalValue? c).map fun d => Char.ofNat ('0'.toNat + d)

/-- The loop of `_PyUnicode_TransformDecimalAndSpaceToASCII`. -/
def transformChars : List Char → List Char
  | [] => []
  | c :: rest =>
      match asciiChar? c with
      | some a => a :: transformChars rest
      | none => ['?']

/-- `_PyUnicode_TransformDecimalAndSpaceToASCII(s)`. -/
def transformDecimalAndSpaceToASCII (s : List Char) : List Char :=
  if s.all fun c => c.toNat < 128 then s else transformChars s

/-- The underscore rule of `_Py_string_to_number_with_underscores`, where `prev`
is the character before `s`: every `_` follows a digit and precedes one. -/
def underscoresOk : Char → List Char → Bool
  | prev, [] => prev != '_'
  | prev, c :: rest =>
      (if c = '_' then prev.isDigit else prev != '_' || c.isDigit) && underscoresOk c rest

/-- `Py_ISSPACE(c)`: a blank, `\t`, `\n`, `\v`, `\f` or `\r`. -/
def isCSpace (c : Char) : Bool := c = ' ' || (9 ≤ c.toNat && c.toNat ≤ 13)

/-- The stripping of `float_from_string_inner`. -/
def stripCSpace (s : List Char) : List Char := (s.dropWhile isCSpace).rdropWhile isCSpace

/-- An optional leading sign, and whether it was `-`. -/
def takeSign : List Char → Bool × List Char
  | c :: rest => if c = '-' then (true, rest) else if c = '+' then (false, rest) else (false, c :: rest)
  | [] => (false, [])

/-- The value of a run of ASCII digits. -/
def digitsValue (digits : List Char) : Nat :=
  digits.foldl (fun acc c => 10 * acc + (c.toNat - '0'.toNat)) 0

/-- A decimal point, dropped if it is there. -/
def dropPoint : List Char → List Char
  | '.' :: rest => rest
  | rest => rest

/-- The exponent part of a numeral, `0` when there is none. -/
def parseExponent : List Char → Option Int
  | [] => some 0
  | c :: rest =>
      if c = 'e' ∨ c = 'E' then
        let signed := takeSign rest
        if !signed.2.isEmpty && signed.2.all Char.isDigit then
          some (if signed.1 then -(digitsValue signed.2 : Int) else digitsValue signed.2)
        else none
      else none

/-- The exact value of a numeral `_Py_dg_strtod` reads all of: digits, an
optional point and digits, at least one digit in all, then an optional exponent. -/
def parseDecimal (s : List Char) : Option ℚ :=
  let intPart := s.takeWhile Char.isDigit
  let afterInt := dropPoint (s.dropWhile Char.isDigit)
  let fracPart := afterInt.takeWhile Char.isDigit
  if intPart.isEmpty && fracPart.isEmpty then none
  else (parseExponent (afterInt.dropWhile Char.isDigit)).map fun e =>
    (digitsValue (intPart ++ fracPart) : ℚ) / 10 ^ fracPart.length * 10 ^ e

/-- `_Py_parse_inf_or_nan` on all of `body`. -/
def infOrNan? (negative : Bool) (body : List Char) : Option PyFloat :=
  let word := body.map Char.toLower
  if word = "inf".toList ∨ word = "infinity".toList then some (.inf negative)
  else if word = "nan".toList then some .nan
  else none

/-- `PyOS_string_to_double` on the stripped text, which it must use up. -/
def parseStripped (t : List Char) : Option PyFloat :=
  let signed := takeSign t
  match infOrNan? signed.1 signed.2 with
  | some v => some v
  | none => (parseDecimal signed.2).map (round signed.1)

/-- `float(s)`, `none` where it raises `ValueError`. -/
def ofString? (s : List Char) : Option PyFloat :=
  let t := transformDecimalAndSpaceToASCII s
  if underscoresOk '\x00' t then parseStripped (stripCSpace (t.filter (· != '_'))) else none

/-- The characters a decimal numeral can hold. -/
def decimalChar (c : Char) : Bool :=
  c.isDigit || c = '.' || c = 'e' || c = 'E' || c = '+' || c = '-'

/-- The number a run of decimal digits spells, each digit read by
`Py_UNICODE_TODECIMAL`. -/
def decimalNumber (digits : List Char) : Nat :=
  digits.foldl (fun acc c => 10 * acc + (decimalValue? c).getD 0) 0

/-! ## Decimal digits -/

theorem isDigit_iff (c : Char) : c.isDigit ↔ 48 ≤ c.toNat ∧ c.toNat ≤ 57 := by
  simp only [Char.isDigit, Bool.and_eq_true, decide_eq_true_eq, UInt32.le_def, BitVec.le_def]
  simp only [Char.toNat, UInt32.toNat]
  simp

/-- Only the ASCII digits lie below the second run. -/
theorem decimalZeros_ascii : ∀ z ∈ decimalZeros, z = 0x30 ∨ 0x660 ≤ z := by decide

theorem decimalValue?_eq_some {c : Char} {d : Nat} (h : decimalValue? c = some d) :
    ∃ z ∈ decimalZeros, c.toNat = z + d ∧ d < 10 := by
  obtain ⟨z, hz, hf⟩ := List.exists_of_findSome?_eq_some h
  split_ifs at hf with hrange
  obtain rfl := Option.some.inj hf
  exact ⟨z, hz, by omega, by omega⟩

/-- No decimal digit is whitespace. -/
theorem isSpace_of_isDecimal {c : Char} (hc : isDecimal c) : PyStr.isSpace c = false := by
  obtain ⟨d, hd⟩ := Option.isSome_iff_exists.mp hc
  obtain ⟨z, hz, hcz, hd10⟩ := decimalValue?_eq_some hd
  have htable : ∀ z ∈ decimalZeros, ∀ i < 10, PyStr.isSpace (Char.ofNat (z + i)) = false := by
    decide
  rw [← Char.ofNat_toNat c, hcz]
  exact htable z hz d hd10

/-- The ASCII character the transformation writes for an ASCII character below
127 or a decimal digit. -/
def toAscii (c : Char) : Char :=
  if c.toNat < 127 then c else Char.ofNat ('0'.toNat + (decimalValue? c).getD 0)

/-- A decimal digit becomes the ASCII digit of the same value. -/
theorem toAscii_of_isDecimal {c : Char} (hc : isDecimal c) :
    (toAscii c).isDigit ∧ (toAscii c).toNat - '0'.toNat = (decimalValue? c).getD 0 := by
  obtain ⟨d, hd⟩ := Option.isSome_iff_exists.mp hc
  obtain ⟨z, hz, hcz, hd10⟩ := decimalValue?_eq_some hd
  have h0 : '0'.toNat = 48 := rfl
  unfold toAscii
  rw [hd, Option.getD_some, h0]
  split_ifs with hascii
  · have hz48 : z = 0x30 := (decimalZeros_ascii z hz).resolve_right (by omega)
    rw [isDigit_iff]
    omega
  · have hdigits : ∀ i < 10, (Char.ofNat (48 + i)).isDigit ∧ (Char.ofNat (48 + i)).toNat = 48 + i := by
      decide
    obtain ⟨hdigit, hnat⟩ := hdigits d hd10
    exact ⟨hdigit, by omega⟩

theorem toAscii_eq_self {c : Char} (h : c.toNat < 127) : toAscii c = c := if_pos h

theorem asciiChar?_eq {c : Char} (hc : c.toNat < 127 ∨ isDecimal c) :
    asciiChar? c = some (toAscii c) := by
  by_cases hascii : c.toNat < 127
  · simp [asciiChar?, toAscii, hascii]
  · have hdec := hc.resolve_left hascii
    obtain ⟨d, hd⟩ := Option.isSome_iff_exists.mp hdec
    simp [asciiChar?, toAscii, hascii, isSpace_of_isDecimal hdec, hd]

/-- On ASCII characters below 127 and decimal digits, the transformation is
`toAscii` applied to each character. -/
theorem transform_eq_map {s : List Char} (hs : ∀ c ∈ s, c.toNat < 127 ∨ isDecimal c) :
    transformDecimalAndSpaceToASCII s = s.map toAscii := by
  unfold transformDecimalAndSpaceToASCII
  split_ifs with hall
  · conv_lhs => rw [← List.map_id s]
    refine List.map_congr_left fun c hc => (toAscii_eq_self (show c.toNat < 127 from ?_)).symm
    have hlt : c.toNat < 128 := by simpa using List.all_eq_true.mp hall c hc
    rcases hs c hc with h | h
    · exact h
    · obtain ⟨d, hd⟩ := Option.isSome_iff_exists.mp h
      obtain ⟨z, hz, hcz, hd10⟩ := decimalValue?_eq_some hd
      rcases decimalZeros_ascii z hz with rfl | hz <;> omega
  · clear hall
    induction s with
    | nil => rfl
    | cons c rest ih =>
        simp only [List.mem_cons, forall_eq_or_imp] at hs
        simp [transformChars, asciiChar?_eq hs.1, ih hs.2]

/-- The ASCII copy of a run of decimal digits is digits spelling the same number. -/
theorem digitsValue_map_toAscii {ds : List Char} (hds : ∀ c ∈ ds, isDecimal c) :
    (∀ c ∈ ds.map toAscii, c.isDigit) ∧ digitsValue (ds.map toAscii) = decimalNumber ds := by
  refine ⟨by simpa using fun c hc => (toAscii_of_isDecimal (hds c hc)).1, ?_⟩
  unfold digitsValue decimalNumber
  rw [List.foldl_map]
  exact List.foldl_ext _ _ _ fun acc c hc => by rw [(toAscii_of_isDecimal (hds c hc)).2]

/-! ## What `float()` accepts -/

theorem underscoresOk_of_forall {prev : Char} (hprev : prev ≠ '_') :
    ∀ {s : List Char}, (∀ c ∈ s, c ≠ '_') → underscoresOk prev s = true
  | [], _ => by simpa [underscoresOk] using hprev
  | c :: s, hs => by
      have hc : c ≠ '_' := hs c (List.mem_cons_self c s)
      have hrest := underscoresOk_of_forall hc fun d (hd : d ∈ s) => hs d (List.mem_cons_of_mem c hd)
      simp [underscoresOk, hc, hprev, hrest]

/-- On ASCII characters below 127 and decimal digits, with no underscore,
`float(s)` strips and parses the ASCII copy of `s`. -/
theorem ofString?_eq_parse {s : List Char} (hs : ∀ c ∈ s, c.toNat < 127 ∨ isDecimal c)
    (hu : ∀ c ∈ s, c ≠ '_') : ofString? s = parseStripped (stripCSpace (s.map toAscii)) := by
  have hu' : ∀ c ∈ s.map toAscii, c ≠ '_' := by
    simp only [List.mem_map, forall_exists_index, and_imp, forall_apply_eq_imp_iff₂]
    intro c hc
    rcases hs c hc with h | h
    · rw [toAscii_eq_self h]
      exact hu c hc
    · have := (isDigit_iff _).mp (toAscii_of_isDecimal h).1
      intro heq
      rw [heq] at this
      revert this
      decide
  rw [ofString?, transform_eq_map hs, underscoresOk_of_forall (by decide) hu', if_pos rfl,
    List.filter_eq_self.mpr (by simpa using hu')]

theorem takeSign_cases (r : List Char) :
    r = (takeSign r).2 ∨ ∃ c, (c = '-' ∨ c = '+') ∧ r = c :: (takeSign r).2 := by
  cases r with
  | nil => simp [takeSign]
  | cons c rest =>
      simp only [takeSign]
      split_ifs <;> simp_all

theorem dropPoint_cases (l : List Char) : l = dropPoint l ∨ l = '.' :: dropPoint l := by
  unfold dropPoint
  split <;> simp

theorem parseExponent_chars {r : List Char} {e : Int} (h : parseExponent r = some e) :
    ∀ c ∈ r, decimalChar c := by
  cases r with
  | nil => simp
  | cons c rest =>
      simp only [parseExponent] at h
      split_ifs at h with he hdigits
      all_goals
        have hdigit : ∀ d ∈ (takeSign rest).2, decimalChar d := fun d hd => by
          simp only [Bool.and_eq_true, List.all_eq_true] at hdigits
          simp [decimalChar, hdigits.2 d hd]
        intro d hd
        rcases List.mem_cons.mp hd with rfl | hd
        · rcases he with rfl | rfl <;> decide
        · rcases takeSign_cases rest with hrest | ⟨s, hs, hrest⟩
          · exact hdigit d (hrest ▸ hd)
          · rw [hrest] at hd
            rcases List.mem_cons.mp hd with rfl | hd
            · rcases hs with rfl | rfl <;> decide
            · exact hdigit d hd

/-- Every character of a numeral `_Py_dg_strtod` accepts is a digit, a point,
an exponent mark or a sign. -/
theorem parseDecimal_chars {s : List Char} {q : ℚ} (h : parseDecimal s = some q) :
    ∀ c ∈ s, decimalChar c := by
  simp only [parseDecimal] at h
  split_ifs at h
  obtain ⟨e, he, -⟩ := Option.map_eq_some'.mp h
  have hrest := parseExponent_chars he
  have hdigits : ∀ l : List Char, ∀ c ∈ l.takeWhile Char.isDigit, decimalChar c :=
    fun l c hc => by simp [decimalChar, List.mem_takeWhile_imp hc]
  have hafter : ∀ c ∈ dropPoint (s.dropWhile Char.isDigit), decimalChar c := by
    rw [← List.takeWhile_append_dropWhile Char.isDigit (dropPoint _)]
    simpa only [List.mem_append] using fun c hc => hc.elim (hdigits _ c) (hrest c)
  have hpoint : ∀ c ∈ s.dropWhile Char.isDigit, decimalChar c := by
    rcases dropPoint_cases (s.dropWhile Char.isDigit) with hd | hd <;> rw [hd]
    · exact hafter
    · simpa [decimalChar] using hafter
  intro c hc
  rw [← List.takeWhile_append_dropWhile Char.isDigit s, List.mem_append] at hc
  exact hc.elim (hdigits s c) (hpoint c)

/-! ## Numerals made of digits and points -/

/-- An ASCII digit or a point. -/
def digitOrPoint (c : Char) : Prop := c.isDigit ∨ c = '.'

theorem digitOrPoint_toNat {c : Char} (hc : digitOrPoint c) : 46 ≤ c.toNat ∧ c.toNat ≤ 57 := by
  rcases hc with hc | rfl
  · have := (isDigit_iff c).mp hc
    omega
  · decide

theorem ne_of_digitOrPoint {c d : Char} (hc : digitOrPoint c) (hd : d.toNat < 46 ∨ 57 < d.toNat) :
    c ≠ d := by
  rintro rfl
  have := digitOrPoint_toNat hc
  omega

theorem isCSpace_of_digitOrPoint {c : Char} (hc : digitOrPoint c) : isCSpace c = false := by
  have := digitOrPoint_toNat hc
  have hblank := ne_of_digitOrPoint hc (d := ' ') (by decide)
  simp [isCSpace, hblank]
  omega

theorem toLower_of_digitOrPoint {c : Char} (hc : digitOrPoint c) : c.toLower = c := by
  have := digitOrPoint_toNat hc
  simp only [Char.toLower]
  rw [if_neg (by omega)]

/-- A text that starts with a digit or a point is a signless decimal numeral or nothing. -/
theorem parseStripped_of_head {c : Char} {r : List Char} (hc : digitOrPoint c) :
    parseStripped (c :: r) = (parseDecimal (c :: r)).map (round false) := by
  have hword : infOrNan? false (c :: r) = none := by
    simp [infOrNan?, toLower_of_digitOrPoint hc, ne_of_digitOrPoint hc (d := 'i') (by decide),
      ne_of_digitOrPoint hc (d := 'n') (by decide)]
  simp [parseStripped, takeSign, hword, ne_of_digitOrPoint hc (d := '-') (by decide),
    ne_of_digitOrPoint hc (d := '+') (by decide)]

theorem parseStripped_of_digitOrPoint {t : List Char} (ht : ∀ c ∈ t, digitOrPoint c) :
    parseStripped t = (parseDecimal t).map (round false) := by
  cases t with
  | nil => rfl
  | cons c r => exact parseStripped_of_head (ht c (List.mem_cons_self c r))

/-- `float()` of decimal digits and points parses their ASCII copy as it is. -/
theorem ofString?_of_decimals {s : List Char} (hs : ∀ c ∈ s, isDecimal c ∨ c = '.') :
    ofString? s = (parseDecimal (s.map toAscii)).map (round false) := by
  have hcopy : ∀ c ∈ s.map toAscii, digitOrPoint c := by
    simp only [List.mem_map, forall_exists_index, and_imp, forall_apply_eq_imp_iff₂]
    intro c hc
    rcases hs c hc with h | rfl
    exacts [.inl (toAscii_of_isDecimal h).1, .inr rfl]
  have hs' : ∀ c ∈ s, (c.toNat < 127 ∨ isDecimal c) ∧ c ≠ '_' := by
    intro c hc
    rcases hs c hc with h | rfl
    · exact ⟨.inr h, by rintro rfl; exact absurd h (by decide)⟩
    · exact ⟨.inl (by decide), by decide⟩
  have hstrip : stripCSpace (s.map toAscii) = s.map toAscii := by
    simpa using PyStr.dropWhile_rdropWhile_append (t := [])
      (fun c hc => isCSpace_of_digitOrPoint (hcopy c hc)) (by simp)
  rw [ofString?_eq_parse (fun c hc => (hs' c hc).1) (fun c hc => (hs' c hc).2), hstrip,
    parseStripped_of_digitOrPoint hcopy]

/-- `_Py_dg_strtod` on digits, `n` points and digits fails exactly when there is
no digit or more than one point. -/
theorem parseDecimal_digits_points {d1 d2 : List Char} (hd1 : ∀ c ∈ d1, c.isDigit)
    (hd2 : ∀ c ∈ d2, c.isDigit) (n : Nat) :
    parseDecimal (d1 ++ List.replicate n '.' ++ d2) = none ↔ d1 ++ d2 = [] ∨ 2 ≤ n := by
  have hpoint : Char.isDigit '.' = false := by decide
  match n with
  | 0 =>
      have hall : ∀ c ∈ d1 ++ d2, c.isDigit := by simpa [or_imp, forall_and] using ⟨hd1, hd2⟩
      simp [parseDecimal, List.takeWhile_eq_self_iff.mpr hall, List.dropWhile_eq_nil_iff.mpr hall,
        dropPoint, parseExponent]
  | 1 =>
      simp [parseDecimal, List.takeWhile_append_of_pos hd1, List.dropWhile_append_of_pos hd1, hpoint,
        dropPoint, List.takeWhile_eq_self_iff.mpr hd2, List.dropWhile_eq_nil_iff.mpr hd2, parseExponent]
  | n + 2 =>
      simp [parseDecimal, List.takeWhile_append_of_pos hd1, List.dropWhile_append_of_pos hd1, hpoint,
        dropPoint, List.replicate_succ, parseExponent]

/-- Digits, at most one point and digits, with a digit somewhere, are the whole
number of all the digits over ten to the number of digits after the point. -/
theorem parseDecimal_digits_point_value {d1 d2 : List Char} (hd1 : ∀ c ∈ d1, c.isDigit)
    (hd2 : ∀ c ∈ d2, c.isDigit) {n : Nat} (hn : n ≤ 1) (hfrac : n = 0 → d2 = [])
    (hdigit : d1 ++ d2 ≠ []) :
    parseDecimal (d1 ++ List.replicate n '.' ++ d2) =
      some ((digitsValue (d1 ++ d2) : ℚ) / 10 ^ d2.length) := by
  have hpoint : Char.isDigit '.' = false := by decide
  match n, hn with
  | 0, _ =>
      obtain rfl := hfrac rfl
      simp only [List.append_nil] at hdigit
      simp [parseDecimal, List.takeWhile_eq_self_iff.mpr hd1, List.dropWhile_eq_nil_iff.mpr hd1,
        dropPoint, parseExponent, hdigit]
  | 1, _ =>
      simp [parseDecimal, List.takeWhile_append_of_pos hd1, List.dropWhile_append_of_pos hd1, hpoint,
        dropPoint, List.takeWhile_eq_self_iff.mpr hd2, List.dropWhile_eq_nil_iff.mpr hd2,
        parseExponent]
      simpa using hdigit

theorem map_toAscii_digits_points {d1 d2 : List Char} (n : Nat) :
    (d1 ++ List.replicate n '.' ++ d2).map toAscii =
      d1.map toAscii ++ List.replicate n '.' ++ d2.map toAscii := by
  simp [List.map_replicate, toAscii_eq_self (show '.'.toNat < 127 by decide)]

theorem decimals_of_digits_points {d1 d2 : List Char} (hd1 : ∀ c ∈ d1, isDecimal c)
    (hd2 : ∀ c ∈ d2, isDecimal c) (n : Nat) :
    ∀ c ∈ d1 ++ List.replicate n '.' ++ d2, isDecimal c ∨ c = '.' := by
  intro c hc
  simp only [List.mem_append, List.mem_replicate] at hc
  rcases hc with (hc | ⟨-, rfl⟩) | hc
  exacts [.inl (hd1 c hc), .inr rfl, .inl (hd2 c hc)]

/-- `float()` of decimal digits, `n` points and decimal digits raises exactly
when there is no digit or more than one point. -/
theorem ofString?_digits_points {d1 d2 : List Char} (hd1 : ∀ c ∈ d1, isDecimal c)
    (hd2 : ∀ c ∈ d2, isDecimal c) (n : Nat) :
    ofString? (d1 ++ List.replicate n '.' ++ d2) = none ↔ d1 ++ d2 = [] ∨ 2 ≤ n := by
  rw [ofString?_of_decimals (decimals_of_digits_points hd1 hd2 n), Option.map_eq_none',
    map_toAscii_digits_points, parseDecimal_digits_points (digitsValue_map_toAscii hd1).1
      (digitsValue_map_toAscii hd2).1]
  simp

/-- `float()` of decimal digits, at most one point and decimal digits, with a
digit somewhere, is the number they spell, correctly rounded. -/
theorem ofString?_digits_point_value {d1 d2 : List Char} (hd1 : ∀ c ∈ d1, isDecimal c)
    (hd2 : ∀ c ∈ d2, isDecimal c) {n : Nat} (hn : n ≤ 1) (hfrac : n = 0 → d2 = [])
    (hdigit : d1 ++ d2 ≠ []) :
    ofString? (d1 ++ List.replicate n '.' ++ d2) =
      some (round false ((decimalNumber (d1 ++ d2) : ℚ) / 10 ^ d2.length)) := by
  have hd : ∀ c ∈ d1 ++ d2, isDecimal c := by simpa [or_imp, forall_and] using ⟨hd1, hd2⟩
  rw [ofString?_of_decimals (decimals_of_digits_points hd1 hd2 n), map_toAscii_digits_points,
    parseDecimal_digits_point_value (digitsValue_map_toAscii hd1).1 (digitsValue_map_toAscii hd2).1
      hn (by simpa using hfrac) (by simpa using hdigit),
    ← List.map_append, (digitsValue_map_toAscii hd).2, List.length_map]
  rfl

end PyFloat

end ManilaUtils
