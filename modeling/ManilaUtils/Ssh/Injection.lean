import ManilaUtils.Text.PyStr

/-! # The SSH injection guard

`check_ssh_injection` strips each argument and applies two tests to it. The
quoting test asks a quoted argument to hold no bare quote and an unquoted one to
be a single word. The metacharacter test looks up each entry of
`ssh_injection_pattern` with `str.find` and asks for a backslash right before
the occurrence found. The first argument that fails raises
`SSHInjectionThreat` naming the whole command.

What an accepted argument satisfies is `QuotingSafe` and
`FirstDangerBackslashed`. It is weaker than the contract `InjectionSafe`
(backslash runs of odd length, every occurrence): `str.find` reports only the
first occurrence of a pattern, and a backslash that is itself escaped still
counts as an escape.
-/

namespace ManilaUtils.Ssh

open PyStr

/-- `exception.SSHInjectionThreat(command=cmd_list)`. -/
structure SSHInjectionThreat where
  command : List String
  deriving DecidableEq, Repr

/-- `ssh_injection_pattern`. -/
def sshInjectionPattern : List (List Char) :=
  ["`", "$", "|", "||", ";", "&", "&&", ">", ">>", "<"].map String.toList

/-- The character class `['"]`. -/
def isQuote (c : Char) : Bool := c == '\'' || c == '"'

/-- The `quoted` group of `re.match('^(?P<quote>['"])(?P<quoted>.*)(?P=quote)$', arg)`.
`.` stops at a newline, and `$` also matches right before a final newline. -/
def matchQuoted : List Char → Option (List Char)
  | [] => none
  | q :: rest =>
      if isQuote q then
        if rest.getLast? = some q ∧ '\n' ∉ rest.dropLast then some rest.dropLast
        else if rest.getLast? = some '\n' ∧ rest.dropLast.getLast? = some q ∧
            '\n' ∉ rest.dropLast.dropLast then some rest.dropLast.dropLast
        else none
      else none

/-- `re.search('[^\\\\][\'"]', quoted)`: a quote right after a character other
than a backslash. -/
def searchUnescapedQuote : List Char → Bool
  | a :: b :: rest => (a != '\\' && isQuote b) || searchUnescapedQuote (b :: rest)
  | _ => false

/-- The quoting test of one stripped argument. -/
def quotingOk (arg : List Char) : Bool :=
  match matchQuoted arg with
  | some quoted => quoted.isEmpty || !(quoted.head?.any isQuote || searchUnescapedQuote quoted)
  | none => decide ((split arg).length ≤ 1)

/-- The metacharacter test of one stripped argument for the pattern `c`. -/
def dangerOk (arg c : List Char) : Bool :=
  if c <:+: arg then
    let result := find arg c
    if result == -1 then true
    else !(result == 0 || arg[(result - 1).toNat]? != some '\\')
  else true

/-- Both tests on one argument, after `arg.strip()`. -/
def argOk (a : String) : Bool :=
  let arg := strip a.toList
  quotingOk arg && sshInjectionPattern.all (dangerOk arg)

/-- `check_ssh_injection(cmd_list)`. -/
def checkSshInjection (cmdList : List String) : Except SSHInjectionThreat Unit :=
  cmdList.forM fun a => if argOk a then pure () else throw ⟨cmdList⟩

/-! ## What an accepted argument satisfies -/

/-- Every quote of `inner` comes right after a backslash. -/
def QuotesBackslashed (inner : List Char) : Prop :=
  ∀ i (hi : i < inner.length), isQuote inner[i] → ∃ j, i = j + 1 ∧ inner[j]? = some '\\'

/-- An argument is one word, or quoted with every inner quote backslashed. -/
def QuotingSafe (arg : List Char) : Prop :=
  (∀ c ∈ arg, isSpace c = false) ∨
    ∃ q inner, isQuote q ∧ arg = q :: (inner ++ [q]) ∧ '\n' ∉ inner ∧ QuotesBackslashed inner

/-- The first occurrence of each dangerous pattern comes right after a backslash. -/
def FirstDangerBackslashed (arg : List Char) : Prop :=
  ∀ c ∈ sshInjectionPattern, c <:+: arg → ∃ i, FirstOccurrence arg c (i + 1) ∧ arg[i]? = some '\\'

theorem forM_except_eq_ok {ε α : Type} (l : List α) (f : α → Except ε Unit) :
    l.forM f = .ok () ↔ ∀ a ∈ l, f a = .ok () := by
  induction l with
  | nil => simp [pure, Except.pure]
  | cons a l ih => cases h : f a <;> simp [h, ih, bind, Except.bind]

theorem forM_except_eq_error {ε α : Type} {l : List α} {f : α → Except ε Unit} {e : ε}
    (h : l.forM f = .error e) : ∃ a ∈ l, f a = .error e := by
  induction l with
  | nil => simp [pure, Except.pure] at h
  | cons a l ih =>
      cases ha : f a with
      | error e' => simp_all [bind, Except.bind]
      | ok u =>
          obtain ⟨b, hb, hfb⟩ := ih (by simpa [ha, bind, Except.bind] using h)
          exact ⟨b, List.mem_cons_of_mem a hb, hfb⟩

theorem checkSshInjection_eq_ok_iff (cmdList : List String) :
    checkSshInjection cmdList = .ok () ↔ ∀ a ∈ cmdList, argOk a = true := by
  rw [checkSshInjection, forM_except_eq_ok]
  refine forall₂_congr fun a _ => ?_
  by_cases ha : argOk a <;> simp [ha, pure, Except.pure, throw, throwThe, MonadExceptOf.throw]

/-- A raised threat always names the whole command. -/
theorem checkSshInjection_error_command {cmdList : List String} {threat : SSHInjectionThreat}
    (h : checkSshInjection cmdList = .error threat) : threat.command = cmdList := by
  obtain ⟨a, -, ha⟩ := forM_except_eq_error h
  by_cases hok : argOk a
  · simp [hok, pure, Except.pure] at ha
  · simp only [hok, Bool.false_eq_true, if_false, throw, throwThe, MonadExceptOf.throw,
      Except.error.injEq] at ha
    rw [← ha]

theorem searchUnescapedQuote_eq_false {quoted : List Char}
    (h : searchUnescapedQuote quoted = false) :
    ∀ i (hi : i + 1 < quoted.length), isQuote quoted[i + 1] → quoted[i] = '\\' := by
  induction quoted using searchUnescapedQuote.induct with
  | case1 a b rest ih =>
      simp only [searchUnescapedQuote, Bool.or_eq_false_iff, Bool.and_eq_false_iff,
        bne_eq_false_iff_eq] at h
      intro i hi hq
      cases i with
      | zero =>
          have hb : isQuote b = true := by simpa using hq
          simpa [hb] using h.1
      | succ i => simpa using ih h.2 i (by simpa using hi) (by simpa using hq)
  | case2 rest hrest =>
      intro i hi
      match rest, hrest with
      | a :: b :: rest, hrest => exact absurd rfl (hrest a b rest)

theorem quotesBackslashed_of_search {quoted : List Char}
    (hhead : quoted.head?.any isQuote = false) (hsearch : searchUnescapedQuote quoted = false) :
    QuotesBackslashed quoted := by
  intro i hi hq
  cases i with
  | zero =>
      obtain ⟨c, rest, rfl⟩ := List.exists_cons_of_length_pos hi
      simp_all
  | succ j => exact ⟨j, rfl, by simp [List.getElem?_eq_getElem (by omega : j < quoted.length),
      searchUnescapedQuote_eq_false hsearch j hi hq]⟩

theorem quotingOk_sound {arg : List Char} (hhead : ∀ c ∈ arg.head?, isSpace c = false)
    (hlast : ∀ c ∈ arg.getLast?, isSpace c = false) (h : quotingOk arg = true) :
    QuotingSafe arg := by
  unfold quotingOk at h
  split at h
  next quoted hmatch =>
    right
    match arg, hmatch with
    | q :: rest, hmatch =>
        simp only [matchQuoted] at hmatch
        split at hmatch
        next hq =>
          split at hmatch
          next hend =>
            cases hmatch
            refine ⟨q, rest.dropLast, hq, ?_, hend.2, ?_⟩
            · rw [List.dropLast_append_getLast? q hend.1]
            · rcases Bool.or_eq_true _ _ ▸ h with hnil | hok
              · simp_all [QuotesBackslashed]
              · simp only [Bool.not_eq_true', Bool.or_eq_false_iff] at hok
                exact quotesBackslashed_of_search hok.1 hok.2
          next =>
            split at hmatch
            next hnl =>
              have := hlast '\n' (by simp [List.getLast?_cons, hnl.1])
              exact absurd this (by decide)
            next => cases hmatch
        next => cases hmatch
  next =>
    left
    exact not_space_of_split_length_le_one hhead hlast (by simpa using h)

theorem dangerOk_sound {arg c : List Char} (h : dangerOk arg c = true) (hc : c <:+: arg) :
    ∃ i, FirstOccurrence arg c (i + 1) ∧ arg[i]? = some '\\' := by
  obtain ⟨k, hk, hfirst⟩ := find_of_infix hc
  simp only [dangerOk, hc, if_true, hk] at h
  cases k with
  | zero => simp at h
  | succ i =>
      refine ⟨i, hfirst, ?_⟩
      rcases (by simpa using h : (i : Int) + 1 = -1 ∨ ¬ (i : Int) + 1 = 0 ∧ arg[i]? = some '\\')
        with h | ⟨-, h⟩
      · omega
      · exact h

/-- An accepted command has every stripped argument quoted safely, and the first
occurrence of each dangerous pattern in it backslashed. -/
theorem checkSshInjection_sound (cmdList : List String) (h : checkSshInjection cmdList = .ok ()) :
    ∀ a ∈ cmdList, QuotingSafe (strip a.toList) ∧ FirstDangerBackslashed (strip a.toList) := by
  intro a ha
  have hok := (checkSshInjection_eq_ok_iff cmdList).mp h a ha
  simp only [argOk, Bool.and_eq_true, List.all_eq_true] at hok
  exact ⟨quotingOk_sound (strip_head?_not_space _) (strip_getLast?_not_space _) hok.1,
    fun c hc hinfix => dangerOk_sound (hok.2 c hc) hinfix⟩

/-- An accepted command with a quoted phrase and an escaped `;`: the phrase is
quoted with no bare quote inside, and the `;` comes right after a backslash. -/
theorem checkSshInjection_sound_quoted :
    checkSshInjection ["ls", "\"a b\"", "x\\;y"] = .ok () ∧
      (QuotingSafe (strip "\"a b\"".toList) ∧ FirstDangerBackslashed (strip "\"a b\"".toList)) ∧
      (QuotingSafe (strip "x\\;y".toList) ∧ FirstDangerBackslashed (strip "x\\;y".toList)) :=
  have hok := (checkSshInjection_eq_ok_iff ["ls", "\"a b\"", "x\\;y"]).mpr (by decide)
  ⟨hok, checkSshInjection_sound _ hok _ (by simp), checkSshInjection_sound _ hok _ (by simp)⟩

example : checkSshInjection ["ls; rm -rf /"] = .error ⟨["ls; rm -rf /"]⟩ := rfl

example : checkSshInjection ["echo", "a && b"] = .error ⟨["echo", "a && b"]⟩ := rfl

/-! ## Only the first occurrence is examined -/

theorem findIdx?_append_of_infix {sub arg : List Char} (t : List Char) (h : sub <:+: arg) :
    findIdx? sub (arg ++ t) = findIdx? sub arg := by
  induction arg with
  | nil =>
      obtain rfl : sub = [] := List.eq_nil_of_infix_nil h
      cases t <;> rfl
  | cons a s ih =>
      have hpre : sub.isPrefixOf (a :: s ++ t) = sub.isPrefixOf (a :: s) := by
        rw [Bool.eq_iff_iff, List.isPrefixOf_iff_prefix, List.isPrefixOf_iff_prefix]
        exact ⟨fun hp => List.prefix_of_prefix_length_le hp (List.prefix_append _ _)
          h.length_le, fun hp => hp.trans (List.prefix_append _ _)⟩
      simp only [List.cons_append, findIdx?, List.append_eq] at hpre ⊢
      rw [hpre]
      split
      · rfl
      · rename_i hnot
        rw [ih ((List.infix_cons_iff.mp h).resolve_left
          (fun hp => hnot (List.isPrefixOf_iff_prefix.mpr hp)))]

/-- Once a pattern occurs in an argument, what follows it is never looked at:
the metacharacter test gives the same verdict on `arg ++ t` as on `arg`. -/
theorem dangerOk_append_of_infix (arg t c : List Char) (hc : c <:+: arg) :
    dangerOk (arg ++ t) c = dangerOk arg c := by
  obtain ⟨i, hi, ⟨hpre, -⟩⟩ := find_of_infix hc
  have hfind : find (arg ++ t) c = find arg c := by
    simp only [find, findIdx?_append_of_infix t hc]
  have hlt : i ≤ arg.length := by
    by_contra hgt
    have hc0 : c = [] := by
      simpa [List.drop_eq_nil_of_le (by omega : arg.length ≤ i)] using hpre
    subst hc0
    cases arg <;> simp [find, findIdx?] at hi <;> omega
  have hct : c <:+: arg ++ t := hc.trans (List.prefix_append arg t).isInfix
  simp only [dangerOk, hc, hct, if_true, hfind, hi]
  cases i with
  | zero => rfl
  | succ k => simp [List.getElem?_append_left (by omega : k < arg.length)]

theorem dangerOk_append_dollar :
    "$".toList <:+: "a\\$b".toList ∧
      dangerOk ("a\\$b".toList ++ "$c".toList) "$".toList = dangerOk "a\\$b".toList "$".toList :=
  ⟨by decide, dangerOk_append_of_infix _ _ _ (by decide)⟩

/-! ## The contract the guard is meant to enforce -/

/-- The number of backslashes right before index `i` of `arg`. -/
def backslashRun (arg : List Char) (i : Nat) : Nat :=
  ((arg.take i).reverse.takeWhile (· == '\\')).length

/-- The character at index `i` is escaped: an odd run of backslashes comes right before it. -/
def EscapedAt (arg : List Char) (i : Nat) : Prop := backslashRun arg i % 2 = 1

instance (arg : List Char) (i : Nat) : Decidable (EscapedAt arg i) :=
  inferInstanceAs (Decidable (_ % 2 = 1))

/-- The characters the contract calls dangerous. -/
def dangerChars : List Char := ['`', '$', '|', ';', '&', '>', '<']

/-- One word, or quoted with every inner quote escaped; and every dangerous
character escaped, wherever it occurs. -/
def InjectionSafe (arg : List Char) : Prop :=
  ((∀ c ∈ arg, isSpace c = false) ∨
    ∃ q inner, isQuote q ∧ arg = q :: (inner ++ [q]) ∧
      ∀ i (hi : i < inner.length), isQuote inner[i] → EscapedAt inner i) ∧
  ∀ i (hi : i < arg.length), arg[i] ∈ dangerChars → EscapedAt arg i

/-- The guard accepts `\\$x`, whose `$` comes after an escaped backslash. -/
theorem checkSshInjection_accepts_unsafe :
    ¬ ∀ cmdList, checkSshInjection cmdList = .ok () →
      ∀ a ∈ cmdList, InjectionSafe (strip a.toList) := by
  intro h
  have hsafe := h ["\\\\$x"] ((checkSshInjection_eq_ok_iff _).mpr (by decide)) _
    (List.mem_singleton_self _)
  exact absurd (hsafe.2 2 (by decide) (by decide)) (by decide)

/-! ## What the guard always accepts -/

/-- The contract, with a one-word argument holding no quote and a quoted one no
newline: one word, or quoted with every inner quote escaped; and every
dangerous character escaped. -/
def StrictlySafe (arg : List Char) : Prop :=
  ((∀ c ∈ arg, isSpace c = false ∧ isQuote c = false) ∨
    ∃ q inner, isQuote q ∧ arg = q :: (inner ++ [q]) ∧ '\n' ∉ inner ∧
      ∀ i (hi : i < inner.length), isQuote inner[i] → EscapedAt inner i) ∧
  ∀ i (hi : i < arg.length), arg[i] ∈ dangerChars → EscapedAt arg i

theorem StrictlySafe.injectionSafe {arg : List Char} (h : StrictlySafe arg) : InjectionSafe arg :=
  ⟨h.1.imp (fun hw c hc => (hw c hc).1) fun ⟨q, inner, hq, harg, _, hesc⟩ => ⟨q, inner, hq, harg, hesc⟩,
    h.2⟩

/-- An escaped character has a backslash right before it. -/
theorem EscapedAt.backslash {arg : List Char} {i : Nat} (hi : i < arg.length)
    (h : EscapedAt arg i) : ∃ j, i = j + 1 ∧ arg[j]? = some '\\' := by
  cases i with
  | zero => simp [EscapedAt, backslashRun] at h
  | succ j =>
      have hj : j < arg.length := by omega
      refine ⟨j, rfl, ?_⟩
      rw [List.getElem?_eq_getElem hj]
      by_contra hne
      have hne' : ¬ (arg[j] == '\\') = true := by simpa using hne
      have hrun : backslashRun arg (j + 1) = 0 := by
        rw [backslashRun, List.take_succ, List.getElem?_eq_getElem hj, List.reverse_append]
        simp only [Option.toList_some, List.reverse_singleton, List.singleton_append,
          List.takeWhile_cons_of_neg (p := fun x => x == '\\') hne', List.length_nil]
      simp [EscapedAt, hrun] at h

/-- The converse of `searchUnescapedQuote_eq_false`. -/
theorem searchUnescapedQuote_eq_false_of {quoted : List Char}
    (h : ∀ i (hi : i + 1 < quoted.length), isQuote quoted[i + 1] → quoted[i] = '\\') :
    searchUnescapedQuote quoted = false := by
  induction quoted using searchUnescapedQuote.induct with
  | case1 a b rest ih =>
      have ha : isQuote b → a = '\\' := h 0 (by simp)
      rw [searchUnescapedQuote, ih fun i hi => h (i + 1) (by simpa using hi)]
      cases hb : isQuote b <;> simp [hb] at ha ⊢
      exact ha
  | case2 rest hrest =>
      match rest, hrest with
      | [], _ => rfl
      | [_], _ => rfl
      | a :: b :: rest, hrest => exact absurd rfl (hrest a b rest)

/-- A one-word argument with no quote passes the quoting test. -/
theorem quotingOk_word {arg : List Char} (h : ∀ c ∈ arg, isSpace c = false ∧ isQuote c = false) :
    quotingOk arg = true := by
  have hmatch : matchQuoted arg = none := by
    cases arg with
    | nil => rfl
    | cons c rest => simp [matchQuoted, (h c (List.mem_cons_self c rest)).2]
  have hsplit : (split arg).length ≤ 1 := by
    rw [split, List.splitOnP_eq_single _ _ fun c hc => by simp [(h c hc).1]]
    exact (List.length_filter_le _ _).trans (by simp)
  simp [quotingOk, hmatch, hsplit]

/-- A quoted argument with no newline and every inner quote escaped passes the
quoting test. -/
theorem quotingOk_quoted {q : Char} {inner : List Char} (hq : isQuote q) (hnl : '\n' ∉ inner)
    (hesc : ∀ i (hi : i < inner.length), isQuote inner[i] → EscapedAt inner i) :
    quotingOk (q :: (inner ++ [q])) = true := by
  have hmatch : matchQuoted (q :: (inner ++ [q])) = some inner := by
    simp [matchQuoted, hq, hnl]
  have hback : ∀ i (hi : i < inner.length), isQuote inner[i] → ∃ j, i = j + 1 ∧ inner[j]? = some '\\' :=
    fun i hi hquote => (hesc i hi hquote).backslash hi
  have hhead : inner.head?.any isQuote = false := by
    cases inner with
    | nil => rfl
    | cons c rest =>
        cases hc : isQuote c
        · simp [hc]
        · obtain ⟨j, hj, -⟩ := hback 0 (by simp) (by simpa using hc)
          omega
  have hsearch : searchUnescapedQuote inner = false := searchUnescapedQuote_eq_false_of
    fun i hi hquote => by
      obtain ⟨j, hj, hbs⟩ := hback (i + 1) hi hquote
      obtain rfl : i = j := by omega
      simpa [List.getElem?_eq_getElem (by omega : i < inner.length)] using hbs
  simp [quotingOk, hmatch, hhead, hsearch]

/-- Every pattern starts with a dangerous character. -/
theorem sshInjectionPattern_head :
    ∀ c ∈ sshInjectionPattern, ∃ d rest, c = d :: rest ∧ d ∈ dangerChars := by
  simp only [sshInjectionPattern, List.map_cons, List.map_nil, List.mem_cons, List.mem_nil_iff,
    or_false]
  rintro c (rfl | rfl | rfl | rfl | rfl | rfl | rfl | rfl | rfl | rfl) <;> exact ⟨_, _, rfl, by decide⟩

/-- With every dangerous character escaped, the metacharacter test passes for
every pattern. -/
theorem dangerOk_of_escaped {arg c : List Char} (hc : c ∈ sshInjectionPattern)
    (hesc : ∀ i (hi : i < arg.length), arg[i] ∈ dangerChars → EscapedAt arg i) :
    dangerOk arg c = true := by
  by_cases hinfix : c <:+: arg
  · obtain ⟨d, rest, rfl, hd⟩ := sshInjectionPattern_head c hc
    obtain ⟨k, hk, ⟨t, ht⟩, -⟩ := find_of_infix hinfix
    have hget : arg[k]? = some d := by
      rw [← Nat.add_zero k, ← List.getElem?_drop, ← ht]
      simp
    obtain ⟨hlt, hget'⟩ := List.getElem?_eq_some_iff.mp hget
    obtain ⟨j, rfl, hbs⟩ := (hesc k hlt (hget' ▸ hd)).backslash hlt
    simp only [dangerOk, hinfix, if_true, hk]
    simp [hbs]
    omega
  · simp [dangerOk, hinfix]

/-- The guard accepts every command whose stripped arguments all meet the
contract in its strict form, where a one-word argument holds no quote and a
quoted one no newline; and those commands meet the contract. -/
theorem checkSshInjection_accepts_strictlySafe (cmdList : List String)
    (h : ∀ a ∈ cmdList, StrictlySafe (strip a.toList)) :
    checkSshInjection cmdList = .ok () ∧ ∀ a ∈ cmdList, InjectionSafe (strip a.toList) := by
  refine ⟨(checkSshInjection_eq_ok_iff cmdList).mpr fun a ha => ?_,
    fun a ha => (h a ha).injectionSafe⟩
  obtain ⟨hquoting, hesc⟩ := h a ha
  simp only [argOk, Bool.and_eq_true, List.all_eq_true]
  refine ⟨?_, fun c hc => dangerOk_of_escaped hc hesc⟩
  rcases hquoting with hword | ⟨q, inner, hq, harg, hnl, hinner⟩
  · exact quotingOk_word hword
  · rw [harg]
    exact quotingOk_quoted hq hnl hinner

/-- A command with a word, a quoted phrase and an escaped `;` is accepted. -/
theorem checkSshInjection_accepts_strictlySafe_escaped :
    checkSshInjection ["ls", "\"a b\"", "x\\;y"] = .ok () ∧
      ∀ a ∈ ["ls", "\"a b\"", "x\\;y"], InjectionSafe (strip a.toList) := by
  refine checkSshInjection_accepts_strictlySafe _ fun a ha => ?_
  simp only [List.mem_cons, List.mem_nil_iff, or_false] at ha
  rcases ha with rfl | rfl | rfl
  · exact ⟨.inl (by decide), by decide⟩
  · exact ⟨.inr ⟨'"', "a b".toList, by decide, by decide, by decide, by decide⟩, by decide⟩
  · exact ⟨.inl (by decide), by decide⟩

/-- The strict form is needed: a word that starts and ends with the same quote,
and a quoted phrase holding a newline, meet the contract and are refused. -/
example : InjectionSafe (strip "'a'b'".toList) ∧
    checkSshInjection ["'a'b'"] = .error ⟨["'a'b'"]⟩ :=
  ⟨⟨.inl (by decide), by decide⟩, rfl⟩

example : InjectionSafe (strip "\"a\nb\"".toList) ∧
    checkSshInjection ["\"a\nb\""] = .error ⟨["\"a\nb\""]⟩ :=
  ⟨⟨.inr ⟨'"', "a\nb".toList, by decide, by decide, by decide⟩, by decide⟩, rfl⟩

end ManilaUtils.Ssh
