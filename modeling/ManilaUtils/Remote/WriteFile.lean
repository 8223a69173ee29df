import ManilaUtils.Remote.Shell
import Mathlib.Logic.Function.Basic
import Mathlib.Data.Fin.VecNotation

/-! # Writing a file over SSH

`write_remote_file(ssh, filename, contents, as_root)` runs `cat > "f.tmp"`, or
`sudo tee "f.tmp" > /dev/null` for `as_root`, on the session. It sends
`contents` to the command's standard input and closes it, and then runs
`mv -f "f.tmp" "f"`, under `sudo` for `as_root`. `exec_command` does not wait
for a command to finish. So on the remote host the shell of the first command
may open `f.tmp` before or after the `mv` runs, and the copy may land before or
after it.

The remote host is a file system whose names point to inodes. A run
interleaves the steps of any number of uploads: opening the temp file, copying
the data into it, and the rename. Uploads to different files, none of them
another's temp file, do not disturb each other. Once each rename has run after
its temp file was opened, every file holds its own contents and no temp file
is left.

Two runs show what the protocol does not guarantee. A rename that runs before
the temp file is opened finds nothing to move, and the file never changes. Two
calls for one file share its temp file, so the file can end with one call's
contents written over the other's.
-/

namespace ManilaUtils.Remote

/-- A call `write_remote_file` makes on the SSH session. -/
inductive SshCall
  | execCommand (cmd : String)
  | stdinWrite (data : String)
  | stdinClose
  | shutdownWrite
  deriving DecidableEq, Repr

/-- `write_remote_file(ssh, filename, contents, as_root)`: its calls on `ssh`, in order. -/
def writeRemoteFile (filename contents : String) (asRoot : Bool) : List SshCall :=
  let tmpFilename := filename ++ ".tmp"
  let cmd := if asRoot then "sudo tee \"" ++ tmpFilename ++ "\" > /dev/null"
    else "cat > \"" ++ tmpFilename ++ "\""
  let cmd2 := if asRoot then "sudo mv -f \"" ++ tmpFilename ++ "\" \"" ++ filename ++ "\""
    else "mv -f \"" ++ tmpFilename ++ "\" \"" ++ filename ++ "\""
  [.execCommand cmd, .stdinWrite contents, .stdinClose, .shutdownWrite, .execCommand cmd2]

/-- What the remote host runs for one call: `data` copied into `target`, and
the rename of `src` to `dst`. -/
structure Upload where
  target : List Char
  data : List Char
  src : List Char
  dst : List Char
  deriving DecidableEq, Repr

/-- How the remote host reads the calls of one session. -/
def readCalls : List SshCall → Option Upload
  | [.execCommand cmd, .stdinWrite data, .stdinClose, .shutdownWrite, .execCommand cmd2] =>
      match readCommand cmd, readCommand cmd2 with
      | some (.write target), some (.move src dst) => some ⟨target, data.toList, src, dst⟩
      | _, _ => none
  | _ => none

/-- The upload `write_remote_file` means to run. -/
def uploadOf (filename contents : String) : Upload :=
  ⟨(filename ++ ".tmp").toList, contents.toList, (filename ++ ".tmp").toList, filename.toList⟩

/-! ## Reading the commands -/

theorem isOption_eq_false {w : List Char} (h : w.head? ≠ some '-') : isOption w = false := by
  simp [isOption, h]

theorem readCommand_cat {path : String} (hpath : QuoteSafe path.toList) (hne : path.toList ≠ []) :
    readCommand ("cat > \"" ++ path ++ "\"") = some (.write path.toList) := by
  have hlex : tokenize ("cat > \"" ++ path ++ "\"").toList =
      lex [.word "cat".toList, .redirect] (.dquoted []) (path.toList ++ '"' :: []) := rfl
  rw [readCommand, hlex, lex_quoted hpath]
  simp [lex, interpret, show path.data ≠ [] from hne]

/-- The end of the \x60tee\x60 line after its path: the redirection to \x60/dev/null\x60. -/
theorem lex_tee_devnull (path : List Char) :
    lex [.word "sudo".toList, .word "tee".toList] (.word path) " > /dev/null".toList =
      .ok [.word "sudo".toList, .word "tee".toList, .word path, .redirect, .word "/dev/null".toList] :=
  rfl

theorem readCommand_tee {path : String} (hpath : QuoteSafe path.toList) (hne : path.toList ≠ [])
    (hopt : isOption path.toList = false) :
    readCommand ("sudo tee \"" ++ path ++ "\" > /dev/null") = some (.write path.toList) := by
  have hlex : tokenize ("sudo tee \"" ++ path ++ "\" > /dev/null").toList =
      lex [.word "sudo".toList, .word "tee".toList] (.dquoted [])
        (path.toList ++ '"' :: " > /dev/null".toList) := rfl
  rw [readCommand, hlex, lex_quoted hpath, lex_tee_devnull]
  simp [interpret, show path.data ≠ [] from hne, show isOption path.data = false from hopt]

/-- `s ++ "\" \"" ++ t ++ "\""` as a list of characters. -/
theorem toList_two_quoted (pre src dst : String) :
    (pre ++ src ++ "\" \"" ++ dst ++ "\"").toList =
      pre.toList ++ (src.toList ++ '"' :: ' ' :: '"' :: (dst.toList ++ ['"'])) := by
  simp only [String.toList, String.data_append, List.append_assoc]
  rfl

/-- The four checks `interpret` makes on the paths of `mv -f src dst`. -/
def MovePaths (src dst : List Char) : Prop :=
  src ≠ [] ∧ dst ≠ [] ∧ isOption src = false ∧ isOption dst = false

instance (src dst : List Char) : Decidable (MovePaths src dst) :=
  inferInstanceAs (Decidable (_ ∧ _ ∧ _ ∧ _))

theorem readCommand_mv {src dst : String} (hsrc : QuoteSafe src.toList)
    (hdst : QuoteSafe dst.toList) (hpaths : MovePaths src.toList dst.toList) :
    readCommand ("mv -f \"" ++ src ++ "\" \"" ++ dst ++ "\"") =
      some (.move src.toList dst.toList) := by
  rw [readCommand, tokenize, toList_two_quoted]
  change (match lex [.word "mv".toList, .word "-f".toList] (.dquoted [])
    (src.toList ++ '"' :: ' ' :: '"' :: (dst.toList ++ ['"'])) with
      | .ok toks => interpret toks
      | .error _ => none) = _
  rw [lex_two_quoted hsrc hdst]
  obtain ⟨h1, h2, h3, h4⟩ := hpaths
  simp [interpret, show src.data ≠ [] from h1, show dst.data ≠ [] from h2,
    show isOption src.data = false from h3, show isOption dst.data = false from h4]

theorem readCommand_sudo_mv {src dst : String} (hsrc : QuoteSafe src.toList)
    (hdst : QuoteSafe dst.toList) (hpaths : MovePaths src.toList dst.toList) :
    readCommand ("sudo mv -f \"" ++ src ++ "\" \"" ++ dst ++ "\"") =
      some (.move src.toList dst.toList) := by
  rw [readCommand, tokenize, toList_two_quoted]
  change (match lex [.word "sudo".toList, .word "mv".toList, .word "-f".toList] (.dquoted [])
    (src.toList ++ '"' :: ' ' :: '"' :: (dst.toList ++ ['"'])) with
      | .ok toks => interpret toks
      | .error _ => none) = _
  rw [lex_two_quoted hsrc hdst]
  obtain ⟨h1, h2, h3, h4⟩ := hpaths
  simp [interpret, show src.data ≠ [] from h1, show dst.data ≠ [] from h2,
    show isOption src.data = false from h3, show isOption dst.data = false from h4]

/-- The temp file of a safe name is read as a file as well. -/
theorem nameSafe_tmp {name : String} (hname : NameSafe name.toList) :
    QuoteSafe (name ++ ".tmp").toList ∧ MovePaths (name ++ ".tmp").toList name.toList := by
  obtain ⟨hquote, hne, hhead⟩ := hname
  have hhead' : (name ++ ".tmp").toList.head? = name.toList.head? := by
    obtain ⟨c, rest, hcons⟩ := List.exists_cons_of_ne_nil hne
    simp [String.toList, hcons] at hcons ⊢
    simp [hcons]
  refine ⟨hquote.append (by decide), by simp [String.toList], hne, ?_, isOption_eq_false hhead⟩
  exact isOption_eq_false (hhead' ▸ hhead)

/-- For a safe file name, the remote host runs what \x60write_remote_file\x60 means,
with or without \x60sudo\x60. -/
theorem readCalls_writeRemoteFile {filename : String} (hname : NameSafe filename.toList)
    (contents : String) (asRoot : Bool) :
    readCalls (writeRemoteFile filename contents asRoot) = some (uploadOf filename contents) := by
  obtain ⟨htmp, hpaths⟩ := nameSafe_tmp hname
  cases asRoot
  · simp only [writeRemoteFile, readCalls, Bool.false_eq_true, if_false,
      readCommand_cat htmp hpaths.1, readCommand_mv htmp hname.1 hpaths, uploadOf]
  · simp only [writeRemoteFile, readCalls, if_true, readCommand_tee htmp hpaths.1 hpaths.2.2.1,
      readCommand_sudo_mv htmp hname.1 hpaths, uploadOf]

/-! ## Double quotes in a file name -/

section QuoteInName

variable {filename : String} (hplain : ∀ c ∈ filename.toList, c = '"' ∨ plainChar c)

include hplain in
/-- After the name, \x60.tmp\x60 and a double quote: the word is closed after an even
number of quotes in the name and still open after an odd number. -/
theorem lex_name_tmp (done : List Token) (rest : List Char) :
    lex done (.dquoted []) (filename.toList ++ (".tmp".toList ++ '"' :: rest)) =
      lex done (quotedState (filename.toList.count '"' % 2 == 1)
        (unquoted filename.toList ++ ".tmp".toList)) rest := by
  have htmp : ".tmp".toList ++ '"' :: rest = ".tmp\"".toList ++ rest := rfl
  have hparity : ((filename.toList.count '"' % 2 == 0) ^^ (".tmp\"".toList.count '"' % 2 == 1)) =
      (filename.toList.count '"' % 2 == 1) := by
    rcases Nat.mod_two_eq_zero_or_one (filename.toList.count '"') with h | h <;> rw [h] <;> rfl
  rw [htmp, lex_unquoted hplain, lex_plain_quotes (by decide), hparity]
  rfl

include hplain in
/-- \x60cat > "f.tmp"\x60 writes to the name without its quotes, after an even number
of them; after an odd number the quote is left open. -/
theorem readCommand_cat_quotes :
    readCommand ("cat > \"" ++ (filename ++ ".tmp") ++ "\"") =
      if filename.toList.count '"' % 2 = 0 then
        some (.write (unquoted filename.toList ++ ".tmp".toList)) else none := by
  have h : tokenize ("cat > \"" ++ (filename ++ ".tmp") ++ "\"").toList =
      lex [.word "cat".toList, .redirect] (.dquoted []) ((filename.toList ++ ".tmp".toList) ++ ['"']) :=
    rfl
  rw [readCommand, h, List.append_assoc, lex_name_tmp hplain]
  rcases Nat.mod_two_eq_zero_or_one (filename.toList.count '"') with hp | hp <;> rw [hp] <;>
    simp [quotedState, lex, interpret]

include hplain in
theorem readCommand_tee_quotes :
    readCommand ("sudo tee \"" ++ (filename ++ ".tmp") ++ "\" > /dev/null") =
      if filename.toList.count '"' % 2 = 0 ∧ isOption (unquoted filename.toList ++ ".tmp".toList) = false
      then some (.write (unquoted filename.toList ++ ".tmp".toList)) else none := by
  have h : tokenize ("sudo tee \"" ++ (filename ++ ".tmp") ++ "\" > /dev/null").toList =
      lex [.word "sudo".toList, .word "tee".toList] (.dquoted [])
        ((filename.toList ++ ".tmp".toList) ++ '"' :: " > /dev/null".toList) := rfl
  rw [readCommand, h, List.append_assoc, lex_name_tmp hplain]
  rcases Nat.mod_two_eq_zero_or_one (filename.toList.count '"') with hp | hp <;> rw [hp]
  · rw [quotedState, if_neg (show (0 == 1) ≠ true from nofun), lex_tee_devnull]
    simp [interpret]
  · rw [quotedState, if_pos (show (1 == 1) = true from rfl), lex_dquoted_open (by decide)]
    simp

include hplain in
/-- With an even number of quotes, \x60mv -f "f.tmp" "f"\x60 reads both names without
their quotes. -/
theorem lex_move_quotes (heven : filename.toList.count '"' % 2 = 0) (done : List Token) :
    lex done (.dquoted []) (filename.toList ++ (".tmp".toList ++ '"' :: ' ' :: '"' ::
        (filename.toList ++ ['"']))) =
      .ok (done ++ [.word (unquoted filename.toList ++ ".tmp".toList), .word (unquoted filename.toList)]) := by
  have hdst := lex_unquoted hplain (done ++ [.word (unquoted filename.toList ++ ".tmp".toList)]) ['"']
  rw [heven] at hdst
  rw [lex_unquoted hplain, heven]
  simpa [quotedState, lex, LexState.text, LexState.finish] using hdst

include hplain in
theorem readCommand_mv_quotes (heven : filename.toList.count '"' % 2 = 0) {pre : String}
    (hpre : pre = "mv -f \"" ∨ pre = "sudo mv -f \"") :
    readCommand (pre ++ (filename ++ ".tmp") ++ "\" \"" ++ filename ++ "\"") =
      if MovePaths (unquoted filename.toList ++ ".tmp".toList) (unquoted filename.toList) then
        some (.move (unquoted filename.toList ++ ".tmp".toList) (unquoted filename.toList)) else none := by
  rw [readCommand, tokenize, toList_two_quoted]
  rcases hpre with rfl | rfl
  · change (match lex [.word "mv".toList, .word "-f".toList] (.dquoted [])
      ((filename.toList ++ ".tmp".toList) ++ '"' :: ' ' :: '"' :: (filename.toList ++ ['"'])) with
        | .ok toks => interpret toks
        | .error _ => none) = _
    rw [List.append_assoc, lex_move_quotes hplain heven]
    simp [interpret, MovePaths]
  · change (match lex [.word "sudo".toList, .word "mv".toList, .word "-f".toList] (.dquoted [])
      ((filename.toList ++ ".tmp".toList) ++ '"' :: ' ' :: '"' :: (filename.toList ++ ['"'])) with
        | .ok toks => interpret toks
        | .error _ => none) = _
    rw [List.append_assoc, lex_move_quotes hplain heven]
    simp [interpret, MovePaths]

/-- A name of plain characters is safe exactly when \x60mv\x60 takes it and its temp
file as paths. -/
theorem nameSafe_iff_movePaths {name : List Char} (hname : ∀ c ∈ name, plainChar c) :
    NameSafe name ↔ MovePaths (name ++ ".tmp".toList) name := by
  have hquote := QuoteSafe.of_plain hname
  cases name with
  | nil => simp [NameSafe, MovePaths]
  | cons c rest => by_cases hc : c = '-' <;> simp [NameSafe, MovePaths, isOption, hc, hquote]

end QuoteInName

/-- The remote files: names point to inodes and inodes hold text. Inodes from
`fresh` on are unused. -/
structure Disk where
  names : List Char → Option Nat
  data : Nat → List Char
  fresh : Nat

/-- `text` written from offset 0 over `old`, as a second writer of one inode leaves it. -/
def overwrite (old text : List Char) : List Char := text ++ old.drop text.length

@[simp] theorem overwrite_nil (text : List Char) : overwrite [] text = text := by
  simp [overwrite]

/-- The shell opens `path` for a `>` redirection (`O_CREAT | O_TRUNC`): an
existing file is emptied, else a new inode is linked at `path`. -/
def Disk.openForWrite (d : Disk) (path : List Char) : Disk × Nat :=
  match d.names path with
  | some inode => ({ d with data := Function.update d.data inode [] }, inode)
  | none =>
      (⟨Function.update d.names path (some d.fresh), Function.update d.data d.fresh [],
        d.fresh + 1⟩,
        d.fresh)

/-- `cat` copies `text` into the inode it writes to, from offset 0. -/
def Disk.copyInto (d : Disk) (inode : Nat) (text : List Char) : Disk :=
  { d with data := Function.update d.data inode (overwrite (d.data inode) text) }

/-- `rename(src, dst)` of `mv -f`: `dst` then names what `src` named, and
nothing changes when `src` does not exist. -/
def Disk.rename (d : Disk) (src dst : List Char) : Disk :=
  if src = dst then d
  else
    match d.names src with
    | some inode =>
        { d with names := Function.update (Function.update d.names dst (some inode)) src none }
    | none => d

theorem Disk.rename_fresh (d : Disk) (src dst : List Char) :
    (d.rename src dst).fresh = d.fresh := by
  unfold Disk.rename
  split_ifs
  · rfl
  · split <;> rfl

theorem Disk.rename_data (d : Disk) (src dst : List Char) : (d.rename src dst).data = d.data := by
  unfold Disk.rename
  split_ifs
  · rfl
  · split <;> rfl

/-- A rename leaves every other name as it was. -/
theorem Disk.rename_names_of_ne (d : Disk) {src dst p : List Char} (hsrc : p ≠ src)
    (hdst : p ≠ dst) : (d.rename src dst).names p = d.names p := by
  unfold Disk.rename
  split_ifs
  · rfl
  · split
    · simp [Function.update_noteq hsrc, Function.update_noteq hdst]
    · rfl

theorem Disk.rename_of_none {d : Disk} {src : List Char} (h : d.names src = none)
    (dst : List Char) : d.rename src dst = d := by
  simp [Disk.rename, h]

theorem Disk.rename_of_some {d : Disk} {src dst : List Char} {inode : Nat} (hne : src ≠ dst)
    (h : d.names src = some inode) :
    (d.rename src dst).names =
      Function.update (Function.update d.names dst (some inode)) src none := by
  simp [Disk.rename, hne, h]

/-- How far the remote side of one upload is. -/
structure Progress where
  /-- the inode the first command's shell opened, once it has -/
  opened : Option Nat
  /-- `cat` or `tee` has copied the data -/
  copied : Bool
  /-- the `mv` has run, and whether the temp file had been opened by then -/
  renamed : Option Bool
  deriving DecidableEq, Repr

/-- The remote host running `k` uploads. -/
structure World (k : Nat) where
  disk : Disk
  progress : Fin k → Progress

/-- The remote host before any upload has started. -/
def World.init {k : Nat} (disk : Disk) : World k := ⟨disk, fun _ => ⟨none, false, none⟩⟩

/-- One step of one upload on the remote host. -/
inductive Event (k : Nat)
  | openTarget (j : Fin k)
  | copy (j : Fin k)
  | rename (j : Fin k)
  deriving DecidableEq, Repr

section Steps

variable {k : Nat} (uploads : Fin k → Upload)

/-- A step, `none` when upload `j` cannot take it. -/
def step (w : World k) : Event k → Option (World k)
  | .openTarget j =>
      if (w.progress j).opened = none then
        some ⟨(w.disk.openForWrite (uploads j).target).1, Function.update w.progress j
          { w.progress j with opened := some (w.disk.openForWrite (uploads j).target).2 }⟩
      else none
  | .copy j =>
      match (w.progress j).opened with
      | some inode =>
          if (w.progress j).copied then none
          else some ⟨w.disk.copyInto inode (uploads j).data,
            Function.update w.progress j { w.progress j with copied := true }⟩
      | none => none
  | .rename j =>
      if (w.progress j).renamed = none then
        some ⟨w.disk.rename (uploads j).src (uploads j).dst, Function.update w.progress j
          { w.progress j with renamed := some (w.progress j).opened.isSome }⟩
      else none

/-- The worlds a run of the uploads from `disk` can reach. -/
inductive Reachable (disk : Disk) : World k → Prop
  | init : Reachable disk (World.init disk)
  | step {w w' : World k} {e : Event k} : Reachable disk w → step uploads w e = some w' →
      Reachable disk w'

/-- Run a list of steps in order. -/
def run : World k → List (Event k) → Option (World k)
  | w, [] => some w
  | w, e :: rest => (step uploads w e).bind (run · rest)

variable {uploads} {w w' : World k} {j : Fin k}

theorem Reachable.run {disk : Disk} {w w' : World k} {events : List (Event k)}
    (hw : Reachable uploads disk w) (hrun : ManilaUtils.Remote.run uploads w events = some w') :
    Reachable uploads disk w' := by
  induction events generalizing w with
  | nil =>
      simp only [ManilaUtils.Remote.run, Option.some.injEq] at hrun
      exact hrun ▸ hw
  | cons e rest ih =>
      simp only [ManilaUtils.Remote.run, Option.bind_eq_some] at hrun
      obtain ⟨mid, hmid, hrest⟩ := hrun
      exact ih (hw.step hmid) hrest

theorem step_openTarget (h : step uploads w (.openTarget j) = some w') :
    (w.progress j).opened = none ∧
      w' = ⟨(w.disk.openForWrite (uploads j).target).1, Function.update w.progress j
        { w.progress j with opened := some (w.disk.openForWrite (uploads j).target).2 }⟩ := by
  simp only [step] at h
  split_ifs at h with hopen
  exact ⟨hopen, (Option.some.inj h).symm⟩

theorem step_copy (h : step uploads w (.copy j) = some w') :
    ∃ inode, (w.progress j).opened = some inode ∧ (w.progress j).copied = false ∧
      w' = ⟨w.disk.copyInto inode (uploads j).data,
        Function.update w.progress j { w.progress j with copied := true }⟩ := by
  simp only [step] at h
  split at h
  · rename_i inode hopen
    split_ifs at h with hcopied
    exact ⟨inode, hopen, by simpa using hcopied, (Option.some.inj h).symm⟩
  · cases h

theorem step_rename (h : step uploads w (.rename j) = some w') :
    (w.progress j).renamed = none ∧
      w' = ⟨w.disk.rename (uploads j).src (uploads j).dst, Function.update w.progress j
        { w.progress j with renamed := some (w.progress j).opened.isSome }⟩ := by
  simp only [step] at h
  split_ifs at h with hrenamed
  exact ⟨hrenamed, (Option.some.inj h).symm⟩

end Steps

/-! ## Uploads to separate files -/

/-- Uploads that rename their own temp file, to pairwise different files and
temp files, none of which is another upload's temp file. -/
structure Separate {k : Nat} (uploads : Fin k → Upload) : Prop where
  src_eq : ∀ j, (uploads j).src = (uploads j).target
  target_inj : ∀ j j', (uploads j).target = (uploads j').target → j = j'
  dst_inj : ∀ j j', (uploads j).dst = (uploads j').dst → j = j'
  target_ne_dst : ∀ j j', (uploads j).target ≠ (uploads j').dst

/-- How upload `j` stands in `w`. Its inode is a new one and holds what it
copied. Its temp file exists from the open until a rename that found it. Its
file names the inode after that rename, and what it named at the start before. -/
structure UploadInv {k : Nat} (uploads : Fin k → Upload) (init : Disk) (w : World k)
    (j : Fin k) : Prop where
  inode_lt : ∀ i, (w.progress j).opened = some i → i < w.disk.fresh
  data_eq : ∀ i, (w.progress j).opened = some i →
    w.disk.data i = if (w.progress j).copied then (uploads j).data else []
  copied_opened : (w.progress j).copied → (w.progress j).opened.isSome
  renamed_opened : (w.progress j).renamed = some true → (w.progress j).opened.isSome
  target_eq : w.disk.names (uploads j).target =
    if (w.progress j).renamed = some true then none else (w.progress j).opened
  dst_eq : w.disk.names (uploads j).dst =
    if (w.progress j).renamed = some true then (w.progress j).opened else init.names (uploads j).dst
  inode_ge : ∀ i, (w.progress j).opened = some i → init.fresh ≤ i

/-- Every upload stands as `UploadInv` says, the uploads opened different
inodes, every named inode is below `fresh`, and the inodes of the start keep
their text. -/
structure Inv {k : Nat} (uploads : Fin k → Upload) (init : Disk) (w : World k) : Prop where
  upload : ∀ j, UploadInv uploads init w j
  inode_inj : ∀ j j' i, (w.progress j).opened = some i → (w.progress j').opened = some i → j = j'
  names_lt : ∀ p i, w.disk.names p = some i → i < w.disk.fresh
  fresh_ge : init.fresh ≤ w.disk.fresh
  data_old : ∀ i < init.fresh, w.disk.data i = init.data i

section Isolation

variable {k : Nat} {uploads : Fin k → Upload} {disk : Disk} (hsep : Separate uploads)
variable {w w' : World k} {j : Fin k}

/-- A step that leaves upload `j`'s progress, its two names and the text of its
inode as they were, and does not lower `fresh`, keeps `UploadInv` for `j`. -/
theorem UploadInv.frame (hj : UploadInv uploads disk w j) (hprogress : w'.progress j = w.progress j)
    (hfresh : w.disk.fresh ≤ w'.disk.fresh)
    (hdata : ∀ i, (w.progress j).opened = some i → w'.disk.data i = w.disk.data i)
    (htarget : w'.disk.names (uploads j).target = w.disk.names (uploads j).target)
    (hdst : w'.disk.names (uploads j).dst = w.disk.names (uploads j).dst) :
    UploadInv uploads disk w' j where
  inode_lt i hi := (hj.inode_lt i (hprogress ▸ hi)).trans_le hfresh
  data_eq i hi := by
    rw [hprogress] at hi ⊢
    rw [hdata i hi, hj.data_eq i hi]
  copied_opened := hprogress ▸ hj.copied_opened
  renamed_opened := hprogress ▸ hj.renamed_opened
  target_eq := by rw [htarget, hprogress, hj.target_eq]
  dst_eq := by rw [hdst, hprogress, hj.dst_eq]
  inode_ge i hi := hj.inode_ge i (hprogress ▸ hi)

/-- Updating one upload's progress without touching `opened` keeps every `opened`. -/
theorem opened_update {p : Fin k → Progress} {x : Progress} (hx : x.opened = (p j).opened)
    (j' : Fin k) : (Function.update p j x j').opened = (p j').opened := by
  by_cases hj' : j' = j
  · subst hj'
    simp [hx]
  · simp [Function.update_noteq hj']

theorem Inv.init (htmp : ∀ j, disk.names (uploads j).target = none)
    (hfresh : ∀ p i, disk.names p = some i → i < disk.fresh) :
    Inv uploads disk (World.init disk) where
  upload j := ⟨by simp [World.init], by simp [World.init], by simp [World.init],
    by simp [World.init], by simp [World.init, htmp j], by simp [World.init], by simp [World.init]⟩
  inode_inj := by simp [World.init]
  names_lt := hfresh
  fresh_ge := le_rfl
  data_old _ _ := rfl

include hsep in
theorem Inv.openTarget (hinv : Inv uploads disk w) (h : step uploads w (.openTarget j) = some w') :
    Inv uploads disk w' := by
  obtain ⟨hopen, rfl⟩ := step_openTarget h
  have hj := hinv.upload j
  have hnot : (w.progress j).renamed ≠ some true := fun hr => by
    simpa [hopen] using hj.renamed_opened hr
  have htarget : w.disk.names (uploads j).target = none := by rw [hj.target_eq, if_neg hnot, hopen]
  have hcopied : (w.progress j).copied = false := by
    cases hc : (w.progress j).copied
    · rfl
    · simpa [hopen] using hj.copied_opened hc
  simp only [Disk.openForWrite, htarget]
  refine ⟨fun j' => ?_, fun a b i ha hb => ?_, fun p i hp => ?_, Nat.le_succ_of_le hinv.fresh_ge,
    fun i hi =>
      (Function.update_noteq (hi.trans_le hinv.fresh_ge).ne _ _).trans (hinv.data_old i hi)⟩
  · by_cases hj' : j' = j
    · subst hj'
      refine ⟨by simp, by simp [hcopied], by simp, by simp, by simp [hnot], ?_,
        by simpa using hinv.fresh_ge⟩
      simp only [Function.update_same, Function.update_noteq (hsep.target_ne_dst j' j').symm]
      rw [hj.dst_eq, if_neg hnot, if_neg hnot]
    · have hj'' := hinv.upload j'
      exact hj''.frame (Function.update_noteq hj' _ _) (Nat.le_succ _)
        (fun i hi => Function.update_noteq (hj''.inode_lt i hi).ne _ _)
        (Function.update_noteq (fun heq => hj' (hsep.target_inj _ _ heq)) _ _)
        (Function.update_noteq (hsep.target_ne_dst j j').symm _ _)
  · by_cases haj : a = j <;> by_cases hbj : b = j
    · rw [haj, hbj]
    · subst haj
      simp only [Function.update_same, Function.update_noteq hbj, Option.some.injEq] at ha hb
      exact absurd ((hinv.upload b).inode_lt i hb) (by omega)
    · subst hbj
      simp only [Function.update_same, Function.update_noteq haj, Option.some.injEq] at ha hb
      exact absurd ((hinv.upload a).inode_lt i ha) (by omega)
    · simp only [Function.update_noteq haj, Function.update_noteq hbj] at ha hb
      exact hinv.inode_inj a b i ha hb
  · simp only [Function.update_apply] at hp
    split_ifs at hp with hpt
    · cases hp
      exact Nat.lt_succ_self _
    · exact Nat.lt_succ_of_lt (hinv.names_lt p i hp)

theorem Inv.copy (hinv : Inv uploads disk w) (h : step uploads w (.copy j) = some w') :
    Inv uploads disk w' := by
  obtain ⟨inode, hopen, hcopied, rfl⟩ := step_copy h
  have hempty : w.disk.data inode = [] := by
    rw [(hinv.upload j).data_eq inode hopen, hcopied]
    rfl
  have hopened : ∀ j',
      (Function.update w.progress j { w.progress j with copied := true } j').opened =
        (w.progress j').opened := opened_update rfl
  refine ⟨fun j' => ?_, fun a b i => by simpa only [hopened] using hinv.inode_inj a b i,
    fun p i => hinv.names_lt p i, hinv.fresh_ge, fun i hi => (Function.update_noteq
      (hi.trans_le ((hinv.upload j).inode_ge inode hopen)).ne _ _).trans (hinv.data_old i hi)⟩
  have hj' := hinv.upload j'
  by_cases hjj : j' = j
  · subst hjj
    refine ⟨fun i hi => ?_, fun i hi => ?_, fun _ => by simp [hopen], ?_, ?_, ?_, ?_⟩ <;>
      simp only [Function.update_same, Disk.copyInto] at *
    · exact hj'.inode_lt i hi
    · rw [hopen, Option.some.injEq] at hi
      subst hi
      simp [hempty]
    · exact hj'.renamed_opened
    · exact hj'.target_eq
    · exact hj'.dst_eq
    · exact hj'.inode_ge
  · exact hj'.frame (Function.update_noteq hjj _ _) le_rfl
      (fun i hi => Function.update_noteq
        (fun (heq : i = inode) => hjj (hinv.inode_inj j' j i hi (heq ▸ hopen))) _ _)
      rfl rfl

include hsep in
theorem Inv.rename (hinv : Inv uploads disk w) (h : step uploads w (.rename j) = some w') :
    Inv uploads disk w' := by
  obtain ⟨hrenamed, rfl⟩ := step_rename h
  have hj := hinv.upload j
  have hne : (uploads j).target ≠ (uploads j).dst := hsep.target_ne_dst j j
  have htarget : w.disk.names (uploads j).target = (w.progress j).opened := by
    rw [hj.target_eq, hrenamed]
    rfl
  rw [hsep.src_eq j]
  have hopened : ∀ j', (Function.update w.progress j
      { w.progress j with renamed := some (w.progress j).opened.isSome } j').opened =
      (w.progress j').opened := opened_update rfl
  refine ⟨fun j' => ?_, fun a b i => by simpa only [hopened] using hinv.inode_inj a b i,
    fun p i hp => ?_, by rw [Disk.rename_fresh]; exact hinv.fresh_ge,
    fun i hi => by rw [Disk.rename_data]; exact hinv.data_old i hi⟩
  · have hj' := hinv.upload j'
    by_cases hjj : j' = j
    · subst hjj
      cases hopen : (w.progress j').opened with
      | none =>
          rw [Disk.rename_of_none (htarget.trans hopen)]
          refine ⟨?_, ?_, ?_, ?_, ?_, ?_, ?_⟩ <;> simp only [Function.update_same, hopen]
          · simp
          · simp
          · intro hc
            simpa [hopen] using hj'.copied_opened hc
          · simp
          · simp [htarget, hopen]
          · simpa [hrenamed] using hj'.dst_eq
          · simp
      | some i =>
          refine ⟨?_, ?_, ?_, ?_, ?_, ?_, ?_⟩ <;>
            simp only [Function.update_same, hopen, Disk.rename_fresh, Disk.rename_data,
              Disk.rename_of_some hne (htarget.trans hopen)]
          · simpa [hopen] using hj'.inode_lt
          · simpa [hopen] using hj'.data_eq
          · simp
          · simp
          · simp
          · simp [Function.update_noteq hne.symm]
          · simpa [hopen] using hj'.inode_ge
    · exact hj'.frame (Function.update_noteq hjj _ _) (Disk.rename_fresh _ _ _).ge
        (fun i _ => congrFun (Disk.rename_data _ _ _) i)
        (Disk.rename_names_of_ne _ (fun heq => hjj (hsep.target_inj _ _ heq))
          (hsep.target_ne_dst j' j))
        (Disk.rename_names_of_ne _ (hsep.target_ne_dst j j').symm
          fun heq => hjj (hsep.dst_inj _ _ heq))
  · rw [Disk.rename_fresh]
    cases hopen : (w.progress j).opened with
    | none =>
        rw [Disk.rename_of_none (htarget.trans hopen)] at hp
        exact hinv.names_lt p i hp
    | some inode =>
        rw [Disk.rename_of_some hne (htarget.trans hopen), Function.update_apply,
          Function.update_apply] at hp
        split_ifs at hp
        · cases hp
          exact hj.inode_lt _ hopen
        · exact hinv.names_lt p i hp

include hsep in
theorem Inv.step (hinv : Inv uploads disk w) {e : Event k} (h : step uploads w e = some w') :
    Inv uploads disk w' := by
  cases e with
  | openTarget j => exact hinv.openTarget hsep h
  | copy j => exact hinv.copy h
  | rename j => exact hinv.rename hsep h

include hsep in
/-- Every world a run of separate uploads reaches satisfies the invariant, when
no temp file exists at the start. -/
theorem Inv.reachable (htmp : ∀ j, disk.names (uploads j).target = none)
    (hfresh : ∀ p i, disk.names p = some i → i < disk.fresh) (hw : Reachable uploads disk w) :
    Inv uploads disk w := by
  induction hw with
  | init => exact Inv.init htmp hfresh
  | step _ hstep ih => exact ih.step hsep hstep

include hsep in
/-- Once every upload has copied its data and its rename has run after its
temp file was opened, each file holds its upload's data and no temp file is
left. -/
theorem Reachable.finished (htmp : ∀ j, disk.names (uploads j).target = none)
    (hfresh : ∀ p i, disk.names p = some i → i < disk.fresh) (hw : Reachable uploads disk w)
    (hdone : ∀ j, (w.progress j).copied ∧ (w.progress j).renamed = some true) (j : Fin k) :
    ∃ i, w.disk.names (uploads j).dst = some i ∧ w.disk.data i = (uploads j).data ∧
      w.disk.names (uploads j).target = none := by
  have hj := (Inv.reachable hsep htmp hfresh hw).upload j
  obtain ⟨hcopied, hrenamed⟩ := hdone j
  obtain ⟨i, hi⟩ := Option.isSome_iff_exists.mp (hj.renamed_opened hrenamed)
  refine ⟨i, ?_, ?_, ?_⟩
  · rw [hj.dst_eq, if_pos hrenamed, hi]
  · rw [hj.data_eq i hi, if_pos hcopied]
  · rw [hj.target_eq, if_pos hrenamed]

include hsep in
/-- An upload whose rename ran before its temp file was opened never moves its
data: its file names what it named at the start and that inode keeps its text,
while the data sits in the temp file. -/
theorem Reachable.renamed_early (htmp : ∀ j, disk.names (uploads j).target = none)
    (hfresh : ∀ p i, disk.names p = some i → i < disk.fresh) (hw : Reachable uploads disk w)
    (hrenamed : (w.progress j).renamed = some false) (hcopied : (w.progress j).copied) :
    w.disk.names (uploads j).dst = disk.names (uploads j).dst ∧
      (∀ i, disk.names (uploads j).dst = some i → w.disk.data i = disk.data i) ∧
      ∃ i, w.disk.names (uploads j).target = some i ∧ w.disk.data i = (uploads j).data := by
  have hinv := Inv.reachable hsep htmp hfresh hw
  have hj := hinv.upload j
  have hnot : (w.progress j).renamed ≠ some true := by simp [hrenamed]
  obtain ⟨i, hi⟩ := Option.isSome_iff_exists.mp (hj.copied_opened hcopied)
  refine ⟨by rw [hj.dst_eq, if_neg hnot], fun i' hi' => hinv.data_old i' (hfresh _ _ hi'), i,
    ?_, ?_⟩
  · rw [hj.target_eq, if_neg hnot, hi]
  · rw [hj.data_eq i hi, if_pos hcopied]

end Isolation

/-! ## Uploads through one temp file -/

/-- Text left in an inode by copies of the data into it from offset 0, one after
another, since it was last emptied. -/
inductive Mixed {k : Nat} (data : Fin k → List Char) : List Char → Prop
  | empty : Mixed data []
  | copy {text : List Char} (j : Fin k) : Mixed data text → Mixed data (overwrite text (data j))

/-- Uploads that all copy their data into \x60tmp\x60 and rename it to \x60file\x60, as the
calls of \x60write_remote_file\x60 for one file do. -/
def sameFile {k : Nat} (tmp file : List Char) (data : Fin k → List Char) : Fin k → Upload :=
  fun j => ⟨tmp, data j, tmp, file⟩

/-- Where uploads through one temp file stand. The temp file and every opened
inode are new ones; the file names what it named at the start or a new inode;
new inodes hold mixed data and the inodes of the start keep their text. -/
structure SharedInv {k : Nat} (tmp file : List Char) (data : Fin k → List Char) (init : Disk)
    (w : World k) : Prop where
  fresh_ge : init.fresh ≤ w.disk.fresh
  tmp_new : ∀ i, w.disk.names tmp = some i → init.fresh ≤ i ∧ i < w.disk.fresh
  opened_new : ∀ j i, (w.progress j).opened = some i → init.fresh ≤ i ∧ i < w.disk.fresh
  file_eq : w.disk.names file = init.names file ∨
    ∃ i, w.disk.names file = some i ∧ init.fresh ≤ i ∧ i < w.disk.fresh
  data_new : ∀ i, init.fresh ≤ i → i < w.disk.fresh → Mixed data (w.disk.data i)
  data_old : ∀ i < init.fresh, w.disk.data i = init.data i

section SharedTemp

variable {k : Nat} {tmp file : List Char} {data : Fin k → List Char} {disk : Disk}
variable {w w' : World k} {j : Fin k}

theorem SharedInv.init (htmp : disk.names tmp = none) :
    SharedInv tmp file data disk (World.init disk) where
  fresh_ge := le_rfl
  tmp_new i h := by simp [World.init, htmp] at h
  opened_new j i h := by simp [World.init] at h
  file_eq := .inl rfl
  data_new _ hge hlt := absurd hlt (not_lt.mpr hge)
  data_old _ _ := rfl

theorem SharedInv.openTarget (hinv : SharedInv tmp file data disk w) (hne : tmp ≠ file)
    (h : step (sameFile tmp file data) w (.openTarget j) = some w') :
    SharedInv tmp file data disk w' := by
  obtain ⟨-, rfl⟩ := step_openTarget h
  have hfresh := hinv.fresh_ge
  cases htmp : w.disk.names tmp with
  | some i =>
      obtain ⟨hge, hlt⟩ := hinv.tmp_new i htmp
      simp only [sameFile, Disk.openForWrite, htmp]
      refine ⟨hfresh, hinv.tmp_new, fun j' i' hi' => ?_, hinv.file_eq, fun i' h1 h2 => ?_,
        fun i' hi' => ?_⟩ <;> dsimp only at *
      · rw [Function.update_apply] at hi'
        split_ifs at hi'
        · cases hi'
          exact ⟨hge, hlt⟩
        · exact hinv.opened_new j' i' hi'
      · rw [Function.update_apply]
        split_ifs
        · exact .empty
        · exact hinv.data_new i' h1 h2
      · rw [Function.update_noteq (by omega)]
        exact hinv.data_old i' hi'
  | none =>
      simp only [sameFile, Disk.openForWrite, htmp]
      refine ⟨Nat.le_succ_of_le hfresh, fun i hi => ?_, fun j' i' hi' => ?_, ?_, fun i' h1 h2 => ?_,
        fun i' hi' => ?_⟩ <;> dsimp only at *
      · simp only [Function.update_same, Option.some.injEq] at hi
        omega
      · rw [Function.update_apply] at hi'
        split_ifs at hi'
        · cases hi'
          omega
        · have := hinv.opened_new j' i' hi'
          omega
      · rw [Function.update_noteq hne.symm]
        rcases hinv.file_eq with hold | ⟨i, hi, hge, hlt⟩
        · exact .inl hold
        · exact .inr ⟨i, hi, hge, Nat.lt_succ_of_lt hlt⟩
      · rw [Function.update_apply]
        split_ifs with hi
        · exact .empty
        · exact hinv.data_new i' h1 (by omega)
      · rw [Function.update_noteq (by omega)]
        exact hinv.data_old i' hi'

theorem SharedInv.copy (hinv : SharedInv tmp file data disk w)
    (h : step (sameFile tmp file data) w (.copy j) = some w') :
    SharedInv tmp file data disk w' := by
  obtain ⟨inode, hopen, -, rfl⟩ := step_copy h
  obtain ⟨hge, hlt⟩ := hinv.opened_new j inode hopen
  refine ⟨hinv.fresh_ge, hinv.tmp_new, fun j' i hi => ?_, hinv.file_eq, fun i h1 h2 => ?_,
    fun i hi => ?_⟩ <;> dsimp only [Disk.copyInto] at *
  · rw [Function.update_apply] at hi
    split_ifs at hi with hj
    · exact hinv.opened_new j i hi
    · exact hinv.opened_new j' i hi
  · rw [Function.update_apply]
    split_ifs with hi
    · subst hi
      exact .copy j (hinv.data_new _ h1 h2)
    · exact hinv.data_new i h1 h2
  · rw [Function.update_noteq (by omega)]
    exact hinv.data_old i hi

theorem SharedInv.rename (hinv : SharedInv tmp file data disk w) (hne : tmp ≠ file)
    (h : step (sameFile tmp file data) w (.rename j) = some w') :
    SharedInv tmp file data disk w' := by
  obtain ⟨-, rfl⟩ := step_rename h
  simp only [sameFile]
  have hopened : ∀ j', (Function.update w.progress j
      { w.progress j with renamed := some (w.progress j).opened.isSome } j').opened =
      (w.progress j').opened := opened_update rfl
  cases htmp : w.disk.names tmp with
  | none =>
      rw [Disk.rename_of_none htmp]
      exact ⟨hinv.fresh_ge, hinv.tmp_new, fun j' => hopened j' ▸ hinv.opened_new j', hinv.file_eq,
        hinv.data_new, hinv.data_old⟩
  | some i =>
      obtain ⟨hge, hlt⟩ := hinv.tmp_new i htmp
      refine ⟨?_, fun i' hi' => ?_, fun j' => ?_, ?_, ?_, ?_⟩ <;>
        simp only [Disk.rename_fresh, Disk.rename_data, Disk.rename_of_some hne htmp]
      · exact hinv.fresh_ge
      · simp [Disk.rename_of_some hne htmp] at hi'
      · exact hopened j' ▸ hinv.opened_new j'
      · exact .inr ⟨i, by simp [Function.update_noteq hne.symm], hge, hlt⟩
      · exact hinv.data_new
      · exact hinv.data_old

theorem SharedInv.step (hinv : SharedInv tmp file data disk w) (hne : tmp ≠ file) {e : Event k}
    (h : step (sameFile tmp file data) w e = some w') : SharedInv tmp file data disk w' := by
  cases e with
  | openTarget j => exact hinv.openTarget hne h
  | copy j => exact hinv.copy h
  | rename j => exact hinv.rename hne h

/-- In every run of uploads through one temp file, the file names what it named
at the start, which keeps its text, or an inode holding their data copied over
one another. -/
theorem Reachable.shared_outcome (htmp : disk.names tmp = none) (hne : tmp ≠ file)
    (hfresh : ∀ p i, disk.names p = some i → i < disk.fresh)
    (hw : Reachable (sameFile tmp file data) disk w) :
    (w.disk.names file = disk.names file ∧
        ∀ i, disk.names file = some i → w.disk.data i = disk.data i) ∨
      ∃ i, w.disk.names file = some i ∧ Mixed data (w.disk.data i) := by
  have hinv : SharedInv tmp file data disk w := by
    induction hw with
    | init => exact .init htmp
    | step _ hstep ih => exact ih.step hne hstep
  rcases hinv.file_eq with hold | ⟨i, hi, hge, hlt⟩
  · exact .inl ⟨hold, fun i hi => hinv.data_old i (hfresh _ _ hi)⟩
  · exact .inr ⟨i, hi, hinv.data_new i hge hlt⟩

end SharedTemp

/-! ## Runs that reach each case -/

/-- From any start, an upload's rename can run first, and its open and copy after it. -/
theorem run_rename_first {k : Nat} (uploads : Fin k → Upload) (disk : Disk) (j : Fin k) :
    ∃ w, run uploads (World.init disk) [.rename j, .openTarget j, .copy j] = some w ∧
      (w.progress j).renamed = some false ∧ (w.progress j).copied := by
  simp [run, step, World.init]

/-- Two uploads of different data through one temp file to one file: both open
the temp file, both copy, both rename. Each rename comes after both opens, and
the file ends with the second data written over the first. -/
theorem run_two_writers {t f : List Char} (hne : t ≠ f) (d : Fin 2 → List Char) {disk : Disk}
    (htmp : disk.names t = none) :
    ∃ w, run (sameFile t f d) (World.init disk)
        [.openTarget 0, .openTarget 1, .copy 0, .copy 1, .rename 0, .rename 1] = some w ∧
      (∀ j, (w.progress j).copied ∧ (w.progress j).renamed = some true) ∧
      w.disk.names f = some disk.fresh ∧ w.disk.data disk.fresh = overwrite (d 0) (d 1) := by
  simp [run, step, sameFile, World.init, Disk.openForWrite, htmp, Disk.copyInto, Disk.rename, hne,
    hne.symm, Function.update_apply, Fin.forall_fin_two]

/-- The second writer of one inode overwrites only the first writer's prefix. -/
example : overwrite "abc".toList "x".toList = "xbc".toList := rfl

theorem prefix_overwrite (old text : List Char) : text <+: overwrite old text :=
  List.prefix_append _ _

/-- Text written over a longer text, of which it is no prefix, leaves neither. -/
theorem overwrite_ne_both {old text : List Char} (hlen : text.length < old.length)
    (hstart : ¬text <+: old) : overwrite old text ≠ old ∧ overwrite old text ≠ text := by
  refine ⟨fun h => hstart (h ▸ prefix_overwrite old text), fun h => ?_⟩
  have := congrArg List.length h
  simp only [overwrite, List.length_append, List.length_drop] at this
  omega

/-! ## What \x60write_remote_file\x60 guarantees -/

theorem tmp_ne_filename (filename : String) : (filename ++ ".tmp").toList ≠ filename.toList :=
  fun h => by simpa [String.toList] using congrArg List.length h

/-- The uploads of \x60write_remote_file\x60 calls to different files, none of which is
another's name with \x60.tmp\x60 appended, are separate. -/
theorem separate_uploadOf {k : Nat} {filename : Fin k → String} (contents : Fin k → String)
    (hinj : Function.Injective filename) (hsuffix : ∀ j j', filename j ≠ filename j' ++ ".tmp") :
    Separate fun j => uploadOf (filename j) (contents j) where
  src_eq _ := rfl
  target_inj _ _ h :=
    hinj (String.ext (List.append_cancel_right (String.ext_iff.mp (String.ext h))))
  dst_inj _ _ h := hinj (String.ext h)
  target_ne_dst j j' h := hsuffix j' j (String.ext h).symm

/-- The disk with no files. -/
def Disk.empty : Disk := ⟨fun _ => none, fun _ => [], 0⟩

/-- A disk whose one file \x60a\x60 holds \x60old\x60. -/
def oldFile : Disk := ⟨fun p => if p = "a".toList then some 0 else none, fun _ => "old".toList, 1⟩

theorem oldFile_fresh (p : List Char) (i : Nat) (h : oldFile.names p = some i) : i < oldFile.fresh := by
  simp only [oldFile] at h
  split_ifs at h
  cases h
  exact Nat.zero_lt_one

end ManilaUtils.Remote
