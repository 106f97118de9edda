import Leshiy.Lib.Literals
import Leshiy.Lib.Shell

/-!
# Starting the helper with privileges

`spawn_ephemeral_helper` (`leshiy-helper/src/elevate.rs`). Linux hands the arguments over one by one. macOS puts
them into a shell command inside an AppleScript string, Windows into a PowerShell command.
-/

namespace Leshiy.Helper

open Leshiy.Lib Str Literals

/-- The arguments of the helper on Unix. -/
def helperArgs (sock : Str) (uid : UInt32) : List Str :=
  ["run".toList, "--ephemeral".toList, "--socket".toList, sock, "--allow-uid".toList, decimal uid.toNat] ++
    if uid = 0 then ["--allow-root".toList] else []

namespace Linux

/-- `root` is that the effective user is root. -/
def spawn (bin sock : Str) (uid : UInt32) (root : Bool) : List Str :=
  (if root then [] else ["pkexec".toList]) ++ bin :: helperArgs sock uid

end Linux

namespace MacOs

/-- `sh_squote`. -/
def shSquote (s : Str) : Str := '\'' :: (replace '\'' ['\'', '\\', '\'', '\''] s ++ ['\''])

def inner (bin sock : Str) (uid : UInt32) : Str :=
  let allowRoot := if uid = 0 then " --allow-root".toList else []
  shSquote bin ++ " run --ephemeral --socket ".toList ++ shSquote sock ++ " --allow-uid ".toList ++
    decimal uid.toNat ++ allowRoot ++ " >/dev/null 2>&1 &".toList

def script (bin sock : Str) (uid : UInt32) : Str :=
  "do shell script \"".toList ++
    replace '"' ['\\', '"'] (replace '\\' ['\\', '\\'] (inner bin sock uid)) ++
    "\" with administrator privileges".toList

/-- What a `do shell script` runs, and what follows it. -/
def doShellScript (s : Str) : Option (Str × Str) :=
  let start := "do shell script \"".toList
  if s.take start.length = start then readDouble (s.drop start.length) else none

section

variable {bin sock : Str} {uid : UInt32}

theorem shSquote_eq (s : Str) : shSquote s = Shell.quote s := rfl

def plainWord (s : Str) : List Shell.Piece := [.plain s]

/-- The words of the helper's arguments, as they are written. -/
def argWords (sock : Str) (uid : UInt32) : List (List Shell.Piece) :=
  [plainWord "run".toList, plainWord "--ephemeral".toList, plainWord "--socket".toList, [.quoted sock],
    plainWord "--allow-uid".toList, plainWord (decimal uid.toNat)] ++
    if uid = 0 then [plainWord "--allow-root".toList] else []

theorem value_plainWord (s : Str) : Shell.value (plainWord s) = s := by
  simp [plainWord, Shell.value, Shell.Piece.value]

theorem map_value_argWords : (argWords sock uid).map Shell.value = helperArgs sock uid := by
  have hquoted : Shell.value [.quoted sock] = sock := by simp [Shell.value, Shell.Piece.value]
  unfold argWords helperArgs
  split <;> simp [value_plainWord, hquoted]

theorem isPlain_of_isDigit {c : Char} (hc : c.isDigit) : Shell.isPlain c :=
  Shell.isPlain_of_check (by decide) hc

theorem argWords_ok (hsock : '\x00' ∉ sock) : ∀ w ∈ argWords sock uid, Shell.WordOk w := by
  have huid : Shell.WordOk (plainWord (decimal uid.toNat)) :=
    Shell.wordOk_plain (decimal_ne_nil _) fun c hc => isPlain_of_isDigit (isDigit_of_mem_decimal hc)
  have hquoted : Shell.WordOk [.quoted sock] :=
    ⟨List.cons_ne_nil _ _, fun p hp => List.mem_singleton.mp hp ▸ hsock⟩
  have hconst : ∀ s ∈ ["run", "--ephemeral", "--socket", "--allow-uid", "--allow-root"].map String.toList,
      Shell.WordOk (plainWord s) := by decide +kernel
  intro w hw
  rcases List.mem_append.mp hw with hw | hw
  · simp only [List.mem_cons, List.not_mem_nil, or_false] at hw
    rcases hw with rfl | rfl | rfl | rfl | rfl | rfl
    · exact hconst _ (by simp)
    · exact hconst _ (by simp)
    · exact hconst _ (by simp)
    · exact hquoted
    · exact hconst _ (by simp)
    · exact huid
  · split at hw
    · rw [List.mem_singleton.mp hw]
      exact hconst _ (by simp)
    · exact absurd hw List.not_mem_nil

/-- The command of the inner shell, without its redirections. -/
def command (bin sock : Str) (uid : UInt32) : Str := Shell.line [.quoted bin] (argWords sock uid)

theorem inner_eq : inner bin sock uid = command bin sock uid ++ " >/dev/null 2>&1 &".toList := by
  unfold inner command argWords
  split <;> simp [Shell.line, Shell.text, Shell.Piece.text, plainWord, shSquote_eq]

/-- **The elevated shell gets the arguments**: the AppleScript string holds the command with its redirections,
and the shell reads the path of the helper and its arguments out of it, whatever characters they have. -/
theorem macos_argv (hbin : '\x00' ∉ bin) (hsock : '\x00' ∉ sock) (uid : UInt32) :
    doShellScript (script bin sock uid) =
        some (command bin sock uid ++ " >/dev/null 2>&1 &".toList, " with administrator privileges".toList) ∧
      Shell.read (.outside none) (command bin sock uid) = some (bin :: helperArgs sock uid) := by
  constructor
  · have hscript : script bin sock uid = "do shell script \"".toList ++
        (replace '"' ['\\', '"'] (replace '\\' ['\\', '\\'] (inner bin sock uid)) ++
          '"' :: " with administrator privileges".toList) := by
      have hclose : "\" with administrator privileges".toList =
          '"' :: " with administrator privileges".toList := rfl
      unfold script
      rw [List.append_assoc, hclose]
    rw [doShellScript, hscript]
    simp only [List.take_left, if_true, List.drop_left]
    rw [readDouble_escaped, inner_eq]
  · have hname : Shell.WordOk [.quoted bin] :=
      ⟨List.cons_ne_nil _ _, fun p hp => List.mem_singleton.mp hp ▸ hbin⟩
    have hvalue : Shell.value [.quoted bin] = bin := by simp [Shell.value, Shell.Piece.value]
    rw [command, Shell.line, Shell.read_word hname, Option.getD_none, List.nil_append, hvalue,
      Shell.read_args (argWords_ok hsock), map_value_argWords]

end

theorem macos_argv_apostrophe :
    Shell.read (.outside none) (command "/Users/o'neil/\"x\"/leshiy-helper".toList
        "/var/run/leshiy/helper.sock".toList 501) =
      some (["/Users/o'neil/\"x\"/leshiy-helper", "run", "--ephemeral", "--socket",
        "/var/run/leshiy/helper.sock", "--allow-uid", "501"].map String.toList) := by
  have hbin : '\x00' ∉ "/Users/o'neil/\"x\"/leshiy-helper".toList := by decide
  have hsock : '\x00' ∉ "/var/run/leshiy/helper.sock".toList := by decide
  exact (macos_argv hbin hsock 501).2

end MacOs

namespace Windows

/-- `ps_squote`. -/
def psSquote (s : Str) : Str := '\'' :: (replace '\'' ['\'', '\''] s ++ ['\''])

def args (pipe sid : Str) : Str :=
  "run --ephemeral --pipe ".toList ++ pipe ++ " --allow-sid ".toList ++ sid

def script (bin pipe sid : Str) : Str :=
  "Start-Process -FilePath ".toList ++ psSquote bin ++ " -ArgumentList '".toList ++ args pipe sid ++
    "' -Verb RunAs -WindowStyle Hidden".toList

/-- What is behind a text that starts like this. -/
def behind (start s : Str) : Option Str :=
  if s.take start.length = start then some (s.drop start.length) else none

/-- The file, the arguments and the rest of a `Start-Process` command, as PowerShell reads it. -/
def startProcess (s : Str) : Option (Str × Str × Str) :=
  match (behind "Start-Process -FilePath '".toList s).bind readSingle with
  | none => none
  | some (file, s) =>
    match (behind " -ArgumentList '".toList s).bind readSingle with
    | none => none
    | some (arguments, s) => some (file, arguments, s)

section

variable {bin pipe sid : Str}

theorem behind_append (start s : Str) : behind start (start ++ s) = some s := by simp [behind]

theorem replace_of_not_mem {x : Char} {t s : Str} (hs : x ∉ s) : replace x t s = s := by
  induction s with
  | nil => rfl
  | cons c s ih =>
    obtain ⟨hc, hs⟩ := not_or.mp (mt List.mem_cons.mpr hs)
    rw [replace_cons, if_neg (Ne.symm hc), ih hs]
    rfl

theorem eq_of_behind {start s t : Str} (h : behind start s = some t) : s = start ++ t := by
  unfold behind at h
  split at h
  next hstart =>
    cases h
    exact (congrArg (· ++ s.drop start.length) hstart).symm.trans (List.take_append_drop _ s) |>.symm
  next => cases h

theorem script_eq : script bin pipe sid = "Start-Process -FilePath '".toList ++
    (replace '\'' ['\'', '\''] bin ++ '\'' :: (" -ArgumentList '".toList ++
      (args pipe sid ++ '\'' :: " -Verb RunAs -WindowStyle Hidden".toList))) := by
  have hfile : "Start-Process -FilePath '".toList = "Start-Process -FilePath ".toList ++ ['\''] := rfl
  have hclose : "' -Verb RunAs -WindowStyle Hidden".toList =
      '\'' :: " -Verb RunAs -WindowStyle Hidden".toList := rfl
  unfold script psSquote
  rw [hfile, hclose]
  simp only [List.append_assoc, List.cons_append, List.nil_append]

/-- The quotes behind the path, as the command is meant. -/
theorem countP_behind {s : Str} (hargs : ∀ c ∈ args pipe sid, isQuote c = false)
    (h : (behind " -ArgumentList '".toList s).bind readSingle =
      some (args pipe sid, " -Verb RunAs -WindowStyle Hidden".toList)) : s.countP isQuote = 2 := by
  obtain ⟨t, hbehind, hread⟩ := Option.bind_eq_some_iff.mp h
  obtain ⟨used, rfl, hcount⟩ := count_readSingle hread
  have hnone : (args pipe sid).countP isQuote = 0 :=
    List.countP_eq_zero.mpr fun c hc => by simp [hargs c hc]
  have hstart : " -ArgumentList '".toList.countP isQuote = 1 := rfl
  have hrest : " -Verb RunAs -WindowStyle Hidden".toList.countP isQuote = 0 := rfl
  rw [eq_of_behind hbehind, List.countP_append, List.countP_append, hstart, hrest, hcount, hnone]

/-- **PowerShell starts the helper exactly if its path has no typographic quote.** Only the apostrophe is
doubled; the other characters that end a PowerShell string are put in as they are. -/
theorem windows_start_iff (hargs : ∀ c ∈ args pipe sid, isQuote c = false) :
    startProcess (script bin pipe sid) =
        some (bin, args pipe sid, " -Verb RunAs -WindowStyle Hidden".toList) ↔
      ∀ c ∈ bin, isQuote c → c = '\'' := by
  have hrest : " -Verb RunAs -WindowStyle Hidden".toList.countP isQuote = 0 := rfl
  have hstart : " -ArgumentList '".toList.countP isQuote = 1 := rfl
  have hquote : isQuote '\'' = true := by decide
  have hnone : (args pipe sid).countP isQuote = 0 :=
    List.countP_eq_zero.mpr fun c hc => by simp [hargs c hc]
  constructor
  · intro h
    rw [startProcess, script_eq, behind_append, Option.bind_some] at h
    split at h
    next => cases h
    next file s hfile =>
      split at h
      next => cases h
      next arguments s' hsecond =>
        cases h
        have htwo := countP_behind hargs hsecond
        -- what is left of the quotes is the path's own, each of which was one of a pair
        obtain ⟨used, hused, hcount⟩ := count_readSingle hfile
        have htotal := congrArg (List.countP isQuote) hused
        simp only [List.countP_append, List.countP_cons, countP_doubled, hstart, hrest, hnone, hquote, if_true,
          hcount, htwo] at htotal
        exact count_eq_iff.2.mp (by omega)
  · intro h
    have hpath : readSingle (replace '\'' ['\'', '\''] bin ++ '\'' :: (" -ArgumentList '".toList ++
        (args pipe sid ++ '\'' :: " -Verb RunAs -WindowStyle Hidden".toList))) =
        some (bin, " -ArgumentList '".toList ++
          (args pipe sid ++ '\'' :: " -Verb RunAs -WindowStyle Hidden".toList)) :=
      (readSingle_doubled_iff (by simp [isQuote])).mpr h
    have hsame : replace '\'' ['\'', '\''] (args pipe sid) = args pipe sid :=
      replace_of_not_mem fun hmem => by simp [hargs _ hmem] at hquote
    have hsecond : readSingle (args pipe sid ++ '\'' :: " -Verb RunAs -WindowStyle Hidden".toList) =
        some (args pipe sid, " -Verb RunAs -WindowStyle Hidden".toList) := by
      have hread := (@readSingle_doubled_iff (args pipe sid) " -Verb RunAs -WindowStyle Hidden".toList
        (by simp [isQuote])).mpr fun c hc hq => by simp [hargs c hc] at hq
      rwa [hsame] at hread
    rw [startProcess, script_eq, behind_append, Option.bind_some, hpath]
    simp only
    rw [behind_append, Option.bind_some, hsecond]

end

theorem windows_start_iff_typographic :
    startProcess (script "C:\\Users\\O\u2019Neil\\leshiy-helper.exe".toList "\\\\.\\pipe\\leshiy-helper".toList
        "S-1-5-21-7".toList) ≠
      some ("C:\\Users\\O\u2019Neil\\leshiy-helper.exe".toList,
        args "\\\\.\\pipe\\leshiy-helper".toList "S-1-5-21-7".toList,
        " -Verb RunAs -WindowStyle Hidden".toList) := by
  have hnone : (args "\\\\.\\pipe\\leshiy-helper".toList "S-1-5-21-7".toList).any isQuote = false := by
    rfl
  have hargs : ∀ c ∈ args "\\\\.\\pipe\\leshiy-helper".toList "S-1-5-21-7".toList, isQuote c = false :=
    fun c hc => Bool.eq_false_iff.mpr (List.any_eq_false.mp hnone c hc)
  intro h
  have happly := (windows_start_iff hargs).mp h '\u2019' (by decide) (by decide)
  exact absurd happly (by decide)

end Windows

end Leshiy.Helper
