import ManilaUtils.Text.PyStr
import Mathlib.Data.List.Sort

/-! # Boolean request parameters

`get_bool_param`, `is_all_tenants`, `get_bool_from_api_params` and the
`check_params_*` helpers read flags out of a request's parameters. They go
through oslo.utils' `strutils`: `bool_from_string` strips and lower-cases the
text of a value and looks it up among six true and six false strings, while
`is_valid_boolstr` lower-cases it without stripping. A dict is the list of its
items, and a value is one of the Python values a parameter or a default takes.
-/

namespace ManilaUtils.Params

open PyStr

/-- The Python values a request parameter or a default takes here. -/
inductive PyValue where
  | none
  | bool (b : Bool)
  | int (n : Int)
  | str (s : String)
  deriving DecidableEq, Repr

/-- `str(value)`. -/
def PyValue.toStr : PyValue → String
  | .none => "None"
  | .bool true => "True"
  | .bool false => "False"
  | .int n => toString n
  | .str s => s

/-- `bool(value)`, the test of `if value:`. -/
def PyValue.truthy : PyValue → Bool
  | .none => false
  | .bool b => b
  | .int n => n != 0
  | .str s => s != ""

/-- `s.lower()`. Only `A` to `Z` change: every use below is a lookup among the
boolean strings, and no other character lower-cases into one of their letters. -/
def lower (s : List Char) : List Char := s.map Char.toLower

/-- `strutils.TRUE_STRINGS`. -/
def trueStrings : List (List Char) := ["1", "t", "true", "on", "y", "yes"].map String.toList

/-- `strutils.FALSE_STRINGS`. -/
def falseStrings : List (List Char) := ["0", "f", "false", "off", "n", "no"].map String.toList

/-- `strutils.is_valid_boolstr(value)`: `str(value).lower() in boolstrs`. -/
def isValidBoolstr (value : PyValue) : Bool :=
  lower value.toStr.toList ∈ trueStrings ++ falseStrings

/-- Python's `<=` on strings: code points compared from the left, a prefix first. -/
def strLe : List Char → List Char → Bool
  | [], _ => true
  | _ :: _, [] => false
  | a :: s, b :: t => a.toNat < b.toNat || (a.toNat == b.toNat && strLe s t)

/-- The boolean strings, sorted and quoted, as `bool_from_string` lists them. -/
def acceptable : List Char :=
  ", ".toList.intercalate (((trueStrings ++ falseStrings).insertionSort fun a b => strLe a b).map
    fun s => "'".toList ++ s ++ "'".toList)

/-- The message of the `ValueError` of `bool_from_string`. -/
def unrecognized (subject : String) : String :=
  "Unrecognized value '" ++ subject ++ "', acceptable values are: " ++ String.mk acceptable

/-- `str(subject).strip().lower()`, the text `bool_from_string` looks up. -/
def PyValue.lowered (subject : PyValue) : List Char := lower (strip subject.toStr.toList)

/-- `strutils.bool_from_string(subject, strict, default)`. -/
def boolFromString (subject : PyValue) (strict : Bool) (default : PyValue) :
    Except String PyValue :=
  match subject with
  | .bool b => .ok (.bool b)
  | _ =>
      if subject.lowered ∈ trueStrings then .ok (.bool true)
      else if subject.lowered ∈ falseStrings then .ok (.bool false)
      else if strict then .error (unrecognized subject.toStr)
      else .ok default

/-- `params.get(key, default)`. -/
def dictGet (params : List (String × PyValue)) (key : String) (default : PyValue) : PyValue :=
  (params.lookup key).getD default

/-- `d[key] = value`: a key already there keeps its place, a new one goes last. -/
def dictSet : List (String × PyValue) → String → PyValue → List (String × PyValue)
  | [], key, value => [(key, value)]
  | (k, v) :: d, key, value => if k = key then (key, value) :: d else (k, v) :: dictSet d key value

/-- The exceptions these helpers raise, with the text each carries. -/
inductive ParamError where
  /-- `exception.InvalidParameterValue(err=msg)`. -/
  | invalidParameterValue (err : String)
  /-- `webob.exc.HTTPBadRequest(explanation=msg)`. -/
  | httpBadRequest (explanation : String)
  /-- The `HTTPBadRequest` of `check_params_exist`, whose explanation is
  "Must specify all mandatory parameters: " and the repr of `keys`. -/
  | mandatoryParameters (keys : List String)
  /-- `exception.InvalidInput(str(err))`. -/
  | invalidInput (reason : String)
  /-- A `ValueError` of `bool_from_string` that nothing catches. -/
  | valueError (msg : String)
  deriving DecidableEq, Repr

/-- `get_bool_param(param_string, params, default)`; the source's default is `False`. -/
def getBoolParam (paramString : String) (params : List (String × PyValue)) (default : PyValue) :
    Except ParamError PyValue :=
  let param := dictGet params paramString default
  if !isValidBoolstr param then
    .error (.invalidParameterValue
      ("Value '" ++ param.toStr ++ "' for '" ++ paramString ++ "' is not a boolean."))
  else (boolFromString param true (.bool false)).mapError .valueError

/-- `is_all_tenants(search_opts)`. -/
def isAllTenants (searchOpts : List (String × PyValue)) : Except ParamError PyValue :=
  let allTenants := dictGet searchOpts "all_tenants" .none
  if allTenants.truthy then
    (boolFromString allTenants true (.bool false)).mapError .invalidInput
  else .ok (.bool (searchOpts.lookup "all_tenants").isSome)

/-- `get_bool_from_api_params(key, params, default, strict)`; the source's
defaults are `False` and `True`. -/
def getBoolFromApiParams (key : String) (params : List (String × PyValue)) (default : PyValue)
    (strict : Bool) : Except ParamError PyValue :=
  let param := dictGet params key default
  match boolFromString param strict default with
  | .ok value => .ok value
  | .error _ => .error (.httpBadRequest
      ("Invalid value " ++ param.toStr ++ " for " ++ key ++ ". Expecting a boolean."))

/-- `check_params_exist(keys, params)`: `any(set(keys) - set(params))` tests
the truth of each missing key. -/
def checkParamsExist (keys : List String) (params : List (String × PyValue)) :
    Except ParamError Unit :=
  if (keys.filter fun key => (params.lookup key).isNone).any fun key => (PyValue.str key).truthy then
    .error (.mandatoryParameters keys)
  else .ok ()

/-- One pass of the loop of `check_params_are_boolean`. -/
def checkParamIsBoolean (params : List (String × PyValue)) (default : PyValue)
    (result : List (String × PyValue)) (key : String) : Except ParamError (List (String × PyValue)) :=
  do
    let value ← getBoolFromApiParams key params default true
    pure (dictSet result key value)

/-- `check_params_are_boolean(keys, params, default)`; the source's default is `False`. -/
def checkParamsAreBoolean (keys : List String) (params : List (String × PyValue))
    (default : PyValue) : Except ParamError (List (String × PyValue)) :=
  keys.foldlM (checkParamIsBoolean params default) []

example :
    acceptable = "'0', '1', 'f', 'false', 'n', 'no', 'off', 'on', 't', 'true', 'y', 'yes'".toList := by
  decide

/-! ## `bool_from_string` -/

theorem toLower_of_isSpace {c : Char} (h : isSpace c = true) : c.toLower = c := by
  unfold Char.toLower
  rw [if_neg]
  simp only [isSpace, Bool.or_eq_true, Bool.and_eq_true, decide_eq_true_eq, beq_iff_eq] at h
  omega

/-- A value whose lower-cased text is a boolean string has no whitespace to strip. -/
theorem strip_eq_of_lower_mem {s : List Char} (h : lower s ∈ trueStrings ++ falseStrings) :
    strip s = s := by
  have hletters : ∀ w ∈ trueStrings ++ falseStrings, ∀ c ∈ w, isSpace c = false := by decide
  have hs : ∀ c ∈ s, isSpace c = false := fun c hc => by
    cases hsp : isSpace c
    · rfl
    · have hmem : c ∈ lower s := toLower_of_isSpace hsp ▸ List.mem_map_of_mem Char.toLower hc
      rw [← hsp, hletters _ h c hmem]
  simpa using strip_append_spaces hs (List.forall_mem_nil _)

theorem falseStrings_not_true {w : List Char} (h : w ∈ falseStrings) : w ∉ trueStrings := by
  revert w h
  decide

/-- With `strict=True` a bool reads like its own text, so every value goes through
the same lookup. -/
theorem boolFromString_strict (subject default : PyValue) :
    boolFromString subject true default =
      if subject.lowered ∈ trueStrings then .ok (.bool true)
      else if subject.lowered ∈ falseStrings then .ok (.bool false)
      else .error (unrecognized subject.toStr) := by
  cases subject with
  | bool b => cases b <;> rfl
  | _ => rfl

/-- What `bool_from_string` gives for a value `is_valid_boolstr` accepts. -/
theorem boolFromString_of_valid {subject : PyValue}
    (h : lower subject.toStr.toList ∈ trueStrings ++ falseStrings) (default : PyValue) :
    boolFromString subject true default =
      .ok (.bool (lower subject.toStr.toList ∈ trueStrings)) := by
  rw [boolFromString_strict, PyValue.lowered, strip_eq_of_lower_mem h]
  by_cases ht : lower subject.toStr.toList ∈ trueStrings
  · rw [if_pos ht, decide_eq_true ht]
  · rw [if_neg ht, if_pos ((List.mem_append.mp h).resolve_left ht), decide_eq_false ht]

/-! ## `get_bool_param` -/

/-- `get_bool_param` accepts exactly the values whose lower-cased text is a
boolean string, and returns whether it is a true one: the `ValueError` of
`bool_from_string` can never escape it. -/
theorem getBoolParam_eq (paramString : String) (params : List (String × PyValue))
    (default : PyValue) :
    getBoolParam paramString params default =
      let param := dictGet params paramString default
      if lower param.toStr.toList ∈ trueStrings ++ falseStrings then
        .ok (.bool (lower param.toStr.toList ∈ trueStrings))
      else .error (.invalidParameterValue
        ("Value '" ++ param.toStr ++ "' for '" ++ paramString ++ "' is not a boolean.")) := by
  dsimp only
  by_cases hvalid : lower (dictGet params paramString default).toStr.toList ∈
      trueStrings ++ falseStrings
  · have hv : isValidBoolstr (dictGet params paramString default) = true := decide_eq_true hvalid
    rw [if_pos hvalid, getBoolParam, hv, boolFromString_of_valid hvalid]
    rfl
  · have hv : isValidBoolstr (dictGet params paramString default) = false := decide_eq_false hvalid
    rw [if_neg hvalid, getBoolParam, hv]
    rfl

/-! ## `get_bool_from_api_params` -/

theorem getBoolFromApiParams_ok {key : String} {params : List (String × PyValue)}
    {default value : PyValue} {strict : Bool} :
    getBoolFromApiParams key params default strict = .ok value ↔
      boolFromString (dictGet params key default) strict default = .ok value := by
  unfold getBoolFromApiParams
  cases h : boolFromString (dictGet params key default) strict default <;> simp [h]

/-- With `strict=True` a value `get_bool_from_api_params` returns is a bool,
the default included. -/
theorem getBoolFromApiParams_strict_bool {key : String} {params : List (String × PyValue)}
    {default value : PyValue} (h : getBoolFromApiParams key params default true = .ok value) :
    ∃ b, value = .bool b := by
  rw [getBoolFromApiParams_ok, boolFromString_strict] at h
  split_ifs at h <;> cases h <;> exact ⟨_, rfl⟩

/-- The source's default `False` passes the checks it meets: a missing key reads
as `False` in `get_bool_param` and in `get_bool_from_api_params`, strict or not. -/
theorem missing_key_reads_false {key : String} {params : List (String × PyValue)}
    (h : params.lookup key = none) (strict : Bool) :
    getBoolParam key params (.bool false) = .ok (.bool false) ∧
      getBoolFromApiParams key params (.bool false) strict = .ok (.bool false) := by
  have hget : dictGet params key (.bool false) = .bool false := by simp [dictGet, h]
  refine ⟨?_, getBoolFromApiParams_ok.mpr (by rw [hget]; rfl)⟩
  rw [getBoolParam_eq]
  simp only [hget]
  rfl

/-- `get_bool_param` and `get_bool_from_api_params(strict=True)` differ only in
`is_valid_boolstr`, which does not strip: `get_bool_param` accepts what the
other accepts, with the same result, less the values whose text has whitespace
at either end. -/
theorem getBoolParam_ok_iff {paramString : String} {params : List (String × PyValue)}
    {default value : PyValue} :
    getBoolParam paramString params default = .ok value ↔
      getBoolFromApiParams paramString params default true = .ok value ∧
        strip (dictGet params paramString default).toStr.toList =
          (dictGet params paramString default).toStr.toList := by
  rw [getBoolParam_eq, getBoolFromApiParams_ok]
  dsimp only
  generalize dictGet params paramString default = param
  by_cases hvalid : lower param.toStr.toList ∈ trueStrings ++ falseStrings
  · rw [if_pos hvalid, boolFromString_of_valid hvalid, strip_eq_of_lower_mem hvalid]
    simp
  · rw [if_neg hvalid, boolFromString_strict, PyValue.lowered]
    refine ⟨nofun, fun ⟨h, hstrip⟩ => ?_⟩
    rw [List.mem_append, not_or] at hvalid
    rw [hstrip, if_neg hvalid.1, if_neg hvalid.2] at h
    cases h

/-- A boolean string between spaces. -/
example : getBoolParam "k" [("k", .str " yes")] (.bool false) =
      .error (.invalidParameterValue "Value ' yes' for 'k' is not a boolean.") ∧
    getBoolFromApiParams "k" [("k", .str " yes")] (.bool false) true = .ok (.bool true) :=
  ⟨rfl, rfl⟩

/-! ## `check_params_are_boolean` -/

theorem lookup_cons_pair (k k' : String) (v : PyValue) (d : List (String × PyValue)) :
    ((k', v) :: d).lookup k = if k = k' then some v else d.lookup k := by
  by_cases hk : k = k'
  · simp [List.lookup_cons, hk]
  · simp [List.lookup_cons, hk, beq_false_of_ne hk]

@[simp] theorem lookup_dictSet (d : List (String × PyValue)) (key k : String) (value : PyValue) :
    (dictSet d key value).lookup k = if k = key then some value else d.lookup k := by
  induction d with
  | nil => simp [dictSet, lookup_cons_pair]
  | cons p d ih =>
      obtain ⟨k', v'⟩ := p
      by_cases hk : k' = key
      · subst hk
        by_cases hkk : k = k' <;> simp [dictSet, lookup_cons_pair, hkk]
      · simp only [dictSet, hk, if_false, lookup_cons_pair, ih]
        by_cases hkk : k = k'
        · simp [hkk, hk]
        · simp [hkk]

theorem keys_dictSet (d : List (String × PyValue)) (key : String) (value : PyValue) :
    (dictSet d key value).map Prod.fst =
      if key ∈ d.map Prod.fst then d.map Prod.fst else d.map Prod.fst ++ [key] := by
  induction d with
  | nil => simp [dictSet]
  | cons p d ih =>
      obtain ⟨k', v'⟩ := p
      by_cases hk : k' = key
      · simp [dictSet, hk]
      · simp only [dictSet, hk, if_false, List.map_cons, ih, List.mem_cons, Ne.symm hk, false_or]
        split <;> simp

theorem keys_dictSet_nodup {d : List (String × PyValue)} (h : (d.map Prod.fst).Nodup)
    (key : String) (value : PyValue) : ((dictSet d key value).map Prod.fst).Nodup := by
  rw [keys_dictSet]
  by_cases hkey : key ∈ d.map Prod.fst
  · rwa [if_pos hkey]
  · rw [if_neg hkey]
    exact h.append (List.nodup_singleton key) (List.disjoint_singleton.mpr hkey)

section Loop

variable {params : List (String × PyValue)} {default : PyValue}

/-- One pass raises the key's error or records the key's value. -/
theorem foldlM_checkParamIsBoolean_cons (key : String) (keys : List String)
    (acc : List (String × PyValue)) :
    (key :: keys).foldlM (checkParamIsBoolean params default) acc =
      match getBoolFromApiParams key params default true with
      | .ok v => keys.foldlM (checkParamIsBoolean params default) (dictSet acc key v)
      | .error e => .error e := by
  simp only [List.foldlM_cons, checkParamIsBoolean]
  cases getBoolFromApiParams key params default true <;> rfl

theorem foldlM_checkParamIsBoolean_ok_iff (keys : List String) (acc : List (String × PyValue)) :
    (∃ r, keys.foldlM (checkParamIsBoolean params default) acc = .ok r) ↔
      ∀ key ∈ keys, ∃ b, getBoolFromApiParams key params default true = .ok (.bool b) := by
  induction keys generalizing acc with
  | nil => simp [pure, Except.pure]
  | cons key keys ih =>
      rw [foldlM_checkParamIsBoolean_cons]
      cases h : getBoolFromApiParams key params default true with
      | error e => simp [h]
      | ok v =>
          obtain ⟨b, rfl⟩ := getBoolFromApiParams_strict_bool h
          simp [h, ih]

theorem foldlM_checkParamIsBoolean_lookup {keys : List String} {acc r : List (String × PyValue)}
    (h : keys.foldlM (checkParamIsBoolean params default) acc = .ok r) (k : String) :
    r.lookup k =
      if k ∈ keys then (getBoolFromApiParams k params default true).toOption else acc.lookup k := by
  induction keys generalizing acc with
  | nil => simp_all [pure, Except.pure]
  | cons key keys ih =>
      cases hkey : getBoolFromApiParams key params default true with
      | error e => simp only [foldlM_checkParamIsBoolean_cons, hkey, reduceCtorEq] at h
      | ok v =>
          simp only [foldlM_checkParamIsBoolean_cons, hkey] at h
          rw [ih h, lookup_dictSet]
          by_cases hk : k ∈ keys
          · simp [hk]
          · by_cases hkk : k = key
            · subst hkk
              simp [hk, hkey, Except.toOption]
            · simp [hk, hkk]

theorem foldlM_checkParamIsBoolean_nodup {keys : List String} {acc r : List (String × PyValue)}
    (hacc : (acc.map Prod.fst).Nodup)
    (h : keys.foldlM (checkParamIsBoolean params default) acc = .ok r) :
    (r.map Prod.fst).Nodup := by
  induction keys generalizing acc with
  | nil => simp_all [pure, Except.pure]
  | cons key keys ih =>
      cases hkey : getBoolFromApiParams key params default true with
      | error e => simp only [foldlM_checkParamIsBoolean_cons, hkey, reduceCtorEq] at h
      | ok v =>
          simp only [foldlM_checkParamIsBoolean_cons, hkey] at h
          exact ih (keys_dictSet_nodup hacc key v) h

theorem foldlM_checkParamIsBoolean_error {keys : List String} {acc : List (String × PyValue)}
    {e : ParamError} (h : keys.foldlM (checkParamIsBoolean params default) acc = .error e) :
    ∃ pre key post, keys = pre ++ key :: post ∧
      (∀ k ∈ pre, ∃ b, getBoolFromApiParams k params default true = .ok (.bool b)) ∧
      getBoolFromApiParams key params default true = .error e := by
  induction keys generalizing acc with
  | nil => simp [pure, Except.pure] at h
  | cons key keys ih =>
      cases hkey : getBoolFromApiParams key params default true with
      | error e' =>
          simp only [foldlM_checkParamIsBoolean_cons, hkey, Except.error.injEq] at h
          exact ⟨[], key, keys, rfl, by simp, h ▸ hkey⟩
      | ok v =>
          simp only [foldlM_checkParamIsBoolean_cons, hkey] at h
          obtain ⟨pre, k, post, rfl, hpre, hk⟩ := ih h
          obtain ⟨b, rfl⟩ := getBoolFromApiParams_strict_bool hkey
          exact ⟨key :: pre, k, post, rfl, List.forall_mem_cons.mpr ⟨⟨b, hkey⟩, hpre⟩, hk⟩

end Loop

/-- `check_params_are_boolean` succeeds exactly when every key reads as a bool
under `get_bool_from_api_params(strict=True)`. It then maps each key, once, to
that bool and holds no other key; otherwise it raises the error of the first
key that does not read. -/
theorem checkParamsAreBoolean_law (keys : List String) (params : List (String × PyValue))
    (default : PyValue) :
    ((∃ result, checkParamsAreBoolean keys params default = .ok result) ↔
      ∀ key ∈ keys, ∃ b, getBoolFromApiParams key params default true = .ok (.bool b)) ∧
    (∀ result, checkParamsAreBoolean keys params default = .ok result →
      (result.map Prod.fst).Nodup ∧
      ∀ key, result.lookup key =
        if key ∈ keys then (getBoolFromApiParams key params default true).toOption else none) ∧
    (∀ e, checkParamsAreBoolean keys params default = .error e →
      ∃ pre key post, keys = pre ++ key :: post ∧
        (∀ k ∈ pre, ∃ b, getBoolFromApiParams k params default true = .ok (.bool b)) ∧
        getBoolFromApiParams key params default true = .error e) :=
  ⟨foldlM_checkParamIsBoolean_ok_iff keys [],
    fun _ h => ⟨foldlM_checkParamIsBoolean_nodup (by simp) h,
      fun key => by simpa using foldlM_checkParamIsBoolean_lookup h key⟩,
    fun _ h => foldlM_checkParamIsBoolean_error h⟩

end ManilaUtils.Params
