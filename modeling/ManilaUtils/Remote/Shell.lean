import Mathlib.Data.List.Basic

/-! # The remote shell, as far as `write_remote_file` needs it

`write_remote_file` sends two command lines over an SSH session, and the remote
shell, a POSIX `sh`, splits each into words (POSIX.1-2017, XCU 2.2 and 2.3).
Blanks separate words. Outside quotes a backslash keeps the next character
literal, and a `#` at the start of a word begins a comment. Between single
quotes every character is literal. Between double quotes a backslash keeps
`$`, a backtick, `"` or `\` literal, and is itself literal before anything
else. A quote left open is a syntax error, and the shell then runs nothing. An
unquoted `>` redirects standard output.

The model is partial. Expansions (`$`, a backtick, globs, a leading `~`),
the other operators and a second command on the line are not modelled: a line
that uses them reads as `LexError.unmodelled`, which says nothing of what the
shell does.

Of the programs, only `cat > f`, `sudo tee f > /dev/null` and `mv -f a b`,
possibly under `sudo`, are read. GNU `tee` and `mv` read an argument that
starts with `-` as options, so `tee -x.tmp` and `mv -f -x.tmp -x` fail and
change no file; so do a redirection to the empty path and a rename from or to it.
-/

namespace ManilaUtils.Remote

/-- A word or an output redirection. -/
inductive Token
  | word (text : List Char)
  | redirect
  deriving DecidableEq, Repr

/-- Why the shell's reading of a line gives no tokens. -/
inductive LexError
  /-- a quote left open: the shell reports a syntax error and runs nothing -/
  | unterminated
  /-- a construct the model leaves out -/
  | unmodelled
  deriving DecidableEq, Repr

/-- Where the shell is in a command line: between words, in the unquoted part
of a word, between double or single quotes, or in a comment. -/
inductive LexState
  | blank
  | word (text : List Char)
  | dquoted (text : List Char)
  | squoted (text : List Char)
  | comment
  deriving DecidableEq, Repr

/-- The part of a word read so far. -/
def LexState.text : LexState → List Char
  | .word text => text
  | .dquoted text => text
  | .squoted text => text
  | _ => []

/-- The token a word ends with, if one is being read. -/
def LexState.finish : LexState → List Token
  | .word text => [.word text]
  | _ => []

/-- Characters that stay literal outside quotes and start no expansion. -/
def plainChar (c : Char) : Bool :=
  let n := c.toNat
  (48 ≤ n && n ≤ 57) || (65 ≤ n && n ≤ 90) || (97 ≤ n && n ≤ 122) ||
    "/.-_+,:@%=".toList.contains c

/-- The characters a backslash keeps literal between double quotes. -/
def escapableInQuotes (c : Char) : Bool := c = '$' || c = '\x60' || c = '"' || c = '\\'

/-- Splits the rest of a command line, after the tokens `done`, from the state `st`. -/
def lex : List Token → LexState → List Char → Except LexError (List Token)
  | done, .blank, [] => .ok done
  | done, .word text, [] => .ok (done ++ [.word text])
  | done, .comment, [] => .ok done
  | _, .dquoted _, [] => .error .unterminated
  | _, .squoted _, [] => .error .unterminated
  | done, .comment, c :: rest => if c = '\n' then .error .unmodelled else lex done .comment rest
  | done, .squoted text, c :: rest =>
      if c = '\'' then lex done (.word text) rest else lex done (.squoted (text ++ [c])) rest
  | _, .dquoted _, ['\\'] => .error .unterminated
  | done, .dquoted text, '\\' :: d :: rest =>
      if d = '\n' then lex done (.dquoted text) rest
      else if escapableInQuotes d then lex done (.dquoted (text ++ [d])) rest
      else lex done (.dquoted (text ++ ['\\'])) (d :: rest)
  | done, .dquoted text, c :: rest =>
      if c = '"' then lex done (.word text) rest
      else if c = '$' ∨ c = '\x60' then .error .unmodelled
      else lex done (.dquoted (text ++ [c])) rest
  | _, _, ['\\'] => .error .unmodelled
  | done, st, '\\' :: d :: rest =>
      if d = '\n' then lex done st rest else lex done (.word (st.text ++ [d])) rest
  | done, st, c :: rest =>
      if c = ' ' ∨ c = '\t' then lex (done ++ st.finish) .blank rest
      else if c = '"' then lex done (.dquoted st.text) rest
      else if c = '\'' then lex done (.squoted st.text) rest
      else if c = '#' ∧ st = .blank then lex done .comment rest
      else if c = '>' ∧ st = .blank ∧ (rest.head?.all fun d => d != '>' && d != '|' && d != '&')
      then lex (done ++ [.redirect]) .blank rest
      else if plainChar c ∨ c = '#' then lex done (.word (st.text ++ [c])) rest
      else .error .unmodelled

/-- The words and redirections of a command line. -/
def tokenize (line : List Char) : Except LexError (List Token) := lex [] .blank line

/-- What a command does to the remote files. -/
inductive Command
  /-- standard input is written to `path`, which is created or truncated first -/
  | write (path : List Char)
  /-- `src` is renamed to `dst` -/
  | move (src dst : List Char)
  deriving DecidableEq, Repr

/-- GNU `mv` and `tee` read an argument that starts with `-`, other than `-`
alone, as options. -/
def isOption (w : List Char) : Bool := w.head? == some '-' && w != ['-']

/-- The commands the shell runs for the tokens of a line. -/
def interpret : List Token → Option Command
  | [.word cat, .redirect, .word path] =>
      if cat = "cat".toList ∧ path ≠ [] then some (.write path) else none
  | [.word root, .word tee, .word path, .redirect, .word null] =>
      if root = "sudo".toList ∧ tee = "tee".toList ∧ null = "/dev/null".toList ∧ path ≠ [] ∧
          isOption path = false then some (.write path)
      else none
  | [.word mv, .word force, .word src, .word dst] =>
      if mv = "mv".toList ∧ force = "-f".toList ∧ src ≠ [] ∧ dst ≠ [] ∧ isOption src = false ∧
          isOption dst = false then some (.move src dst)
      else none
  | [.word root, .word mv, .word force, .word src, .word dst] =>
      if root = "sudo".toList ∧ mv = "mv".toList ∧ force = "-f".toList ∧ src ≠ [] ∧ dst ≠ [] ∧
          isOption src = false ∧ isOption dst = false then some (.move src dst)
      else none
  | _ => none

/-- What the shell runs for a command line. -/
def readCommand (line : String) : Option Command :=
  match tokenize line.toList with
  | .ok toks => interpret toks
  | .error _ => none

/-- Text that stays literal between double quotes. -/
def QuoteSafe (text : List Char) : Prop := ∀ c ∈ text, escapableInQuotes c = false

instance : DecidablePred QuoteSafe := fun text =>
  inferInstanceAs (Decidable (∀ c ∈ text, escapableInQuotes c = false))

/-- A file name `write_remote_file` passes through both commands as it is: the
shell reads it literally between double quotes, and `tee` and `mv` read it, and
it with `.tmp` appended, as a file. -/
def NameSafe (name : List Char) : Prop := QuoteSafe name ∧ name ≠ [] ∧ name.head? ≠ some '-'

instance : DecidablePred NameSafe := fun name =>
  inferInstanceAs (Decidable (QuoteSafe name ∧ name ≠ [] ∧ name.head? ≠ some '-'))

/-! ## Reading words -/

/-- A character other than a backslash between double quotes. -/
theorem lex_dquoted_cons {c : Char} (hc : c ≠ '\\') (done : List Token) (text rest : List Char) :
    lex done (.dquoted text) (c :: rest) =
      if c = '"' then lex done (.word text) rest
      else if c = '$' ∨ c = '\x60' then .error .unmodelled
      else lex done (.dquoted (text ++ [c])) rest := by
  cases rest <;> simp [lex, hc]

/-- A plain character extends the unquoted part of a word. -/
theorem lex_plain {c : Char} (hc : plainChar c) (done : List Token) (text rest : List Char) :
    lex done (.word text) (c :: rest) = lex done (.word (text ++ [c])) rest := by
  have hne : ∀ d, plainChar d = false → c ≠ d := fun d hd heq => by simp [heq, hd] at hc
  cases rest <;>
    simp [lex, LexState.text, hc, hne '\\' rfl, hne ' ' rfl, hne '\t' rfl, hne '"' rfl, hne '\'' rfl]

/-- Quote-safe text between double quotes is read as it is. -/
theorem lex_quoted {text : List Char} (htext : QuoteSafe text) (done : List Token)
    (word rest : List Char) :
    lex done (.dquoted word) (text ++ '"' :: rest) = lex done (.word (word ++ text)) rest := by
  induction text generalizing word with
  | nil => simp [lex_dquoted_cons]
  | cons c text ih =>
      have hc := htext c (List.mem_cons_self c text)
      have hne : ∀ d, escapableInQuotes d → c ≠ d := fun d hd heq => by simp [heq, hd] at hc
      rw [List.cons_append, lex_dquoted_cons (hne '\\' rfl), if_neg (hne '"' rfl),
        if_neg (by rintro (rfl | rfl) <;> exact absurd hc (by decide)), ih (fun d hd => htext d (List.mem_cons_of_mem c hd))]
      simp

/-- A double quote after the unquoted part of a word opens a quoted part. -/
theorem lex_word_quote (done : List Token) (text rest : List Char) :
    lex done (.word text) ('"' :: rest) = lex done (.dquoted text) rest := by
  cases rest <;> simp [lex, LexState.text]

/-- A quote opened and never closed is a syntax error. -/
theorem lex_dquoted_open {text : List Char} (htext : QuoteSafe text) (done : List Token)
    (word : List Char) : lex done (.dquoted word) text = .error .unterminated := by
  induction text generalizing word with
  | nil => rfl
  | cons c text ih =>
      have hc := htext c (List.mem_cons_self c text)
      have hne : ∀ d, escapableInQuotes d → c ≠ d := fun d hd heq => by simp [heq, hd] at hc
      rw [lex_dquoted_cons (hne '\\' rfl), if_neg (hne '"' rfl),
        if_neg (by rintro (rfl | rfl) <;> exact absurd hc (by decide)),
        ih (fun d hd => htext d (List.mem_cons_of_mem c hd))]

/-- The state after a run of plain characters and double quotes: inside double
quotes or not, with the plain characters read so far. -/
def quotedState (quoted : Bool) (text : List Char) : LexState :=
  if quoted then .dquoted text else .word text

/-- Inside or outside double quotes, a run of plain characters and double quotes
is read as its plain characters, and each double quote switches between the two. -/
theorem lex_plain_quotes {text : List Char} (htext : ∀ c ∈ text, c = '"' ∨ plainChar c)
    (done : List Token) (quoted : Bool) (word rest : List Char) :
    lex done (quotedState quoted word) (text ++ rest) =
      lex done (quotedState (quoted ^^ (text.count '"' % 2 == 1))
        (word ++ text.filter (· != '"'))) rest := by
  induction text generalizing quoted word with
  | nil => simp
  | cons c text ih =>
      have htail : ∀ d ∈ text, d = '"' ∨ plainChar d := fun d hd => htext d (List.mem_cons_of_mem c hd)
      rcases htext c (List.mem_cons_self c text) with rfl | hc
      · have hstep : lex done (quotedState quoted word) ('"' :: (text ++ rest)) =
            lex done (quotedState (!quoted) word) (text ++ rest) := by
          cases quoted
          · exact lex_word_quote done word _
          · exact (lex_dquoted_cons (by decide) done word _).trans (if_pos rfl)
        have hparity : (quoted ^^ ((text.count '"' + 1) % 2 == 1)) =
            (!quoted ^^ (text.count '"' % 2 == 1)) := by
          rcases Nat.mod_two_eq_zero_or_one (text.count '"') with h | h <;>
            simp [Nat.add_mod, h]
        rw [List.cons_append, hstep, ih htail, List.count_cons_self, hparity]
        simp
      · have hne : ∀ d, plainChar d = false → c ≠ d := fun d hd heq => by simp [heq, hd] at hc
        have hstep : lex done (quotedState quoted word) (c :: (text ++ rest)) =
            lex done (quotedState quoted (word ++ [c])) (text ++ rest) := by
          cases quoted
          · exact lex_plain hc done word _
          · rw [quotedState, if_pos rfl, lex_dquoted_cons (hne '\\' rfl), if_neg (hne '"' rfl),
              if_neg (by rintro (rfl | rfl) <;> exact absurd hc (by decide))]
            rfl
        rw [List.cons_append, hstep, ih htail,
          List.count_cons_of_ne (hne '"' rfl).symm, List.filter_cons_of_pos (by simpa using hne '"' rfl)]
        simp

/-- Plain characters need no escape between double quotes. -/
theorem QuoteSafe.of_plain {text : List Char} (htext : ∀ c ∈ text, plainChar c) :
    QuoteSafe text := fun c hc => by
  cases h : escapableInQuotes c
  · rfl
  · simp only [escapableInQuotes, Bool.or_eq_true, decide_eq_true_eq] at h
    rcases h with ((rfl | rfl) | rfl) | rfl <;> exact absurd (htext _ hc) (by decide)

/-- A file name with its double quotes removed. -/
def unquoted (name : List Char) : List Char := name.filter (· != '"')

/-- After an opening double quote, a run of plain characters and double quotes
is read as its plain characters; the quote is still open after an even number
of them. -/
theorem lex_unquoted {text : List Char} (htext : ∀ c ∈ text, c = '"' ∨ plainChar c)
    (done : List Token) (rest : List Char) :
    lex done (.dquoted []) (text ++ rest) =
      lex done (quotedState (text.count '"' % 2 == 0) (unquoted text)) rest := by
  have hparity : (true ^^ (text.count '"' % 2 == 1)) = (text.count '"' % 2 == 0) := by
    rcases Nat.mod_two_eq_zero_or_one (text.count '"') with h | h <;> simp [h]
  simpa [hparity, unquoted] using lex_plain_quotes htext done true [] rest

theorem QuoteSafe.append {a b : List Char} (ha : QuoteSafe a) (hb : QuoteSafe b) :
    QuoteSafe (a ++ b) := by
  intro c hc
  rcases List.mem_append.mp hc with hc | hc
  exacts [ha c hc, hb c hc]

/-- Two quote-safe names, each between double quotes and with a blank between,
are read as two words. -/
theorem lex_two_quoted {done : List Token} {src dst : List Char} (hsrc : QuoteSafe src)
    (hdst : QuoteSafe dst) :
    lex done (.dquoted []) (src ++ '"' :: ' ' :: '"' :: (dst ++ ['"'])) =
      .ok (done ++ [.word src, .word dst]) := by
  rw [lex_quoted hsrc]
  change lex (done ++ [.word src]) (.dquoted []) (dst ++ '"' :: []) = _
  rw [lex_quoted hdst]
  simp [lex, LexState.finish]

end ManilaUtils.Remote
