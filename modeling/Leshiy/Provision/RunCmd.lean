import Leshiy.Lib.Shell
import Leshiy.Provision.Upgrade

/-!
# The command that starts the server

`run_cmd` of `docker.rs` and the checks made of what goes into it. The command is one text for a remote shell:
names and resolvers are put in as they are, values of the environment in quotes.
-/

namespace Leshiy.Provision

open Leshiy.Lib Str

/-! ## The checks -/

def isHexDigit (b : Char) : Bool := b.isDigit || ('a' ≤ b && b ≤ 'f') || ('A' ≤ b && b ≤ 'F')

/-- `valid_dns_addr`. A byte beyond ASCII is refused, so bytes are characters. -/
def validDnsAddr (s : Str) : Bool :=
  !s.isEmpty && s.length ≤ 45 && s.all fun b => isHexDigit b || b ∈ ['.', ':']

/-- The name of a variable: letters, digits and underscores, the first not a digit. -/
def plainName (k : Str) : Bool :=
  k.head?.any (fun c => !c.isDigit) && k.all fun c => c.isAlphanum || c = '_'

/-! ## The command -/

/-- `-p`, with the same port on both sides. -/
def portText (port : UInt16) : Str := decimal port.toNat ++ ':' :: decimal port.toNat

/-- The value as it is put between single quotes: `v.replace('\'', "'\\''")`. -/
def safe (v : Str) : Str := v.flatMap fun c => if c = '\'' then ['\'', '\\', '\'', '\''] else [c]

/-- The options that every server is started with. -/
def options : Str :=
  [" --restart=unless-stopped", " --user 0:0", " --cap-add=NET_ADMIN",
    " --sysctl 'net.ipv4.ping_group_range=0 2147483647'", " --ulimit nofile=65535:65535",
    " --log-opt max-size=50m", " --log-opt max-file=3", " -v leshiy-data:/etc/leshiy"].flatMap String.toList

/-- `run_cmd`. -/
def runCmd (container imageRef : Str) (listenPort : UInt16) (quicPort : Option UInt16) (dns : List Str)
    (envs : List (Str × Str)) : Str :=
  "sudo docker run -d --name ".toList ++ (container ++ (options ++ (" -p ".toList ++ portText listenPort ++
    (dns.flatMap (fun server => " --dns ".toList ++ server) ++ ((match quicPort with
      | some q => " -p ".toList ++ (portText q ++ "/udp".toList)
      | none => []) ++
    (envs.flatMap (fun e => " -e ".toList ++ (e.1 ++ "='".toList ++ safe e.2 ++ ['\''])) ++
    (' ' :: (imageRef ++ " boot".toList))))))))

/-- The arguments that the command is meant to have. -/
def runArgs (container imageRef : Str) (listenPort : UInt16) (quicPort : Option UInt16) (dns : List Str)
    (envs : List (Str × Str)) : List Str :=
  ["sudo", "docker", "run", "-d", "--name"].map String.toList ++ (container ::
    (["--restart=unless-stopped", "--user", "0:0", "--cap-add=NET_ADMIN",
      "--sysctl", "net.ipv4.ping_group_range=0 2147483647", "--ulimit", "nofile=65535:65535",
      "--log-opt", "max-size=50m", "--log-opt", "max-file=3", "-v", "leshiy-data:/etc/leshiy",
      "-p"].map String.toList ++ (portText listenPort ::
    (dns.flatMap (fun server => ["--dns".toList, server]) ++
    ((match quicPort with
      | some q => ["-p".toList, portText q ++ "/udp".toList]
      | none => []) ++
    (envs.flatMap (fun e => ["-e".toList, e.1 ++ '=' :: e.2]) ++ [imageRef, "boot".toList]))))))

/-! ## How the command is written -/

section

variable {container imageRef k v s : Str} {listenPort port : UInt16} {quicPort : Option UInt16}
  {dns : List Str} {envs : List (Str × Str)}

def plainWord (s : Str) : List Shell.Piece := [.plain s]

def optionWords : List (List Shell.Piece) :=
  ["--restart=unless-stopped", "--user", "0:0", "--cap-add=NET_ADMIN", "--sysctl"].map
    (fun s => plainWord s.toList) ++ ([.quoted "net.ipv4.ping_group_range=0 2147483647".toList] ::
  ["--ulimit", "nofile=65535:65535", "--log-opt", "max-size=50m", "--log-opt", "max-file=3", "-v",
    "leshiy-data:/etc/leshiy"].map fun s => plainWord s.toList)

/-- The words after the first one, in the parts that `run_cmd` writes. -/
def runWords (container imageRef : Str) (listenPort : UInt16) (quicPort : Option UInt16) (dns : List Str)
    (envs : List (Str × Str)) : List (List Shell.Piece) :=
  ["docker", "run", "-d", "--name"].map (fun s => plainWord s.toList) ++ (plainWord container ::
    (optionWords ++ (plainWord "-p".toList :: plainWord (portText listenPort) ::
    (dns.flatMap (fun server => [plainWord "--dns".toList, plainWord server]) ++
    ((match quicPort with
      | some q => [plainWord "-p".toList, plainWord (portText q ++ "/udp".toList)]
      | none => []) ++
    (envs.flatMap (fun e => [plainWord "-e".toList, [.plain (e.1 ++ ['=']), .quoted e.2]]) ++
      [plainWord imageRef, plainWord "boot".toList]))))))

theorem runCmd_eq : runCmd container imageRef listenPort quicPort dns envs =
    Shell.line (plainWord "sudo".toList) (runWords container imageRef listenPort quicPort dns envs) := by
  have hplain : ∀ s, Shell.text (plainWord s) = s := fun s => List.append_nil s
  have hoptions : options = optionWords.flatMap fun w => ' ' :: Shell.text w := by
    decide +kernel
  have hdns : (dns.flatMap fun server => [plainWord "--dns".toList, plainWord server]).flatMap
      (fun w => ' ' :: Shell.text w) = dns.flatMap fun server => " --dns ".toList ++ server := by
    simp [List.flatMap_assoc, hplain]
  have hquic : (match quicPort with
      | some q => [plainWord "-p".toList, plainWord (portText q ++ "/udp".toList)]
      | none => []).flatMap (fun w => ' ' :: Shell.text w) = match quicPort with
      | some q => " -p ".toList ++ (portText q ++ "/udp".toList)
      | none => [] := by
    cases quicPort <;> simp [hplain]
  have henvs : (envs.flatMap fun e =>
      [plainWord "-e".toList, [Shell.Piece.plain (e.1 ++ ['=']), Shell.Piece.quoted e.2]]).flatMap
      (fun w => ' ' :: Shell.text w) =
      envs.flatMap fun e => " -e ".toList ++ (e.1 ++ "='".toList ++ safe e.2 ++ ['\'']) := by
    simp [List.flatMap_assoc, plainWord, Shell.text, Shell.Piece.text, Shell.quote, Shell.escapeQuotes, safe]
  unfold runCmd Shell.line runWords
  rw [hoptions]
  simp only [List.flatMap_append, List.flatMap_cons, hdns, hquic, henvs, hplain]
  simp [hplain]

theorem runWords_value : Shell.value (plainWord "sudo".toList) ::
    (runWords container imageRef listenPort quicPort dns envs).map Shell.value =
      runArgs container imageRef listenPort quicPort dns envs := by
  have hplain : ∀ s, Shell.value (plainWord s) = s := fun s => List.append_nil s
  have hoptions : optionWords.map Shell.value =
      ["--restart=unless-stopped", "--user", "0:0", "--cap-add=NET_ADMIN",
        "--sysctl", "net.ipv4.ping_group_range=0 2147483647", "--ulimit", "nofile=65535:65535",
        "--log-opt", "max-size=50m", "--log-opt", "max-file=3", "-v", "leshiy-data:/etc/leshiy"].map
        String.toList := by
    decide +kernel
  have henv : ∀ e : Str × Str, Shell.value [.plain (e.1 ++ ['=']), .quoted e.2] = e.1 ++ '=' :: e.2 :=
    fun e => by simp [Shell.value, Shell.Piece.value]
  unfold runWords runArgs
  simp only [List.map_append, List.map_cons, List.map_flatMap, hoptions, hplain, henv]
  cases quicPort <;> simp [hplain]

/-! ## What the checks let through -/

theorem plainWord_ok {p : Char → Bool} (hp : (Shell.special ++ Shell.breaking).any p = false)
    (hne : s ≠ []) (hs : s.all p) : Shell.WordOk (plainWord s) :=
  Shell.wordOk_plain hne fun c hc => Shell.isPlain_of_check hp (List.all_eq_true.mp hs c hc)

theorem validImageRef_ok (h : validImageRef s) : Shell.WordOk (plainWord s) := by
  obtain ⟨hne, hall⟩ := Bool.and_eq_true _ _ ▸ h
  exact plainWord_ok (by decide +kernel) (by simpa using hne) hall

theorem validDnsAddr_ok (h : validDnsAddr s) : Shell.WordOk (plainWord s) := by
  simp only [validDnsAddr, Bool.and_eq_true] at h
  obtain ⟨⟨hne, -⟩, hall⟩ := h
  exact plainWord_ok rfl (by simpa using hne) hall

/-- Ports are digits, colons and a protocol. -/
theorem port_ok (s : Str) (hs : s.all fun c => c ∈ "/udp".toList) :
    Shell.WordOk (plainWord (portText port ++ s)) := by
  have hdigits : (decimal port.toNat).all fun c => c.isDigit || c = ':' || c ∈ "/udp".toList :=
    List.all_eq_true.mpr fun c hc => by simp [isDigit_of_mem_decimal hc]
  refine plainWord_ok (p := fun c => c.isDigit || c = ':' || c ∈ "/udp".toList) rfl ?_ ?_
  · simp [portText]
  · have hproto : s.all fun c => c.isDigit || c = ':' || c ∈ "/udp".toList :=
      List.all_eq_true.mpr fun c hc => Bool.or_eq_true _ _ ▸ .inr (List.all_eq_true.mp hs c hc)
    simp only [portText, List.all_append, List.all_cons, hdigits, hproto]
    decide

theorem assignment_ok (hk : plainName k) (hv : '\x00' ∉ v) : Shell.WordOk [.plain (k ++ ['=']), .quoted v] := by
  obtain ⟨-, hall⟩ := Bool.and_eq_true _ _ ▸ hk
  refine ⟨List.cons_ne_nil _ _, fun p hp => ?_⟩
  rcases List.mem_pair.mp hp with rfl | rfl
  · refine ⟨by simp, fun c hc => ?_⟩
    have hname : c.isAlphanum || c = '_' || c = '=' := by
      rcases List.mem_append.mp hc with hc | hc
      · simp [List.all_eq_true.mp hall c hc]
      · simp [List.mem_singleton.mp hc]
    exact Shell.isPlain_of_check (p := fun c => c.isAlphanum || c = '_' || c = '=') rfl hname
  · exact hv

theorem runWords_ok (hcontainer : validImageRef container) (himage : validImageRef imageRef)
    (hdns : ∀ server ∈ dns, validDnsAddr server) (henvs : ∀ e ∈ envs, plainName e.1 ∧ '\x00' ∉ e.2) :
    ∀ w ∈ runWords container imageRef listenPort quicPort dns envs, Shell.WordOk w := by
  have hfixed : ∀ s ∈ ["docker", "run", "-d", "--name", "--dns", "-p", "-e", "boot"],
      Shell.WordOk (plainWord s.toList) := by
    decide +kernel
  have hoption : ∀ w ∈ optionWords, Shell.WordOk w := by
    decide +kernel
  intro w hw
  simp only [runWords, List.mem_append, List.mem_map, List.mem_cons, List.mem_flatMap, List.not_mem_nil,
    or_false] at hw
  rcases hw with ⟨s, hs, rfl⟩ | rfl | hw | rfl | rfl | ⟨server, hserver, rfl | rfl⟩ | hw |
    ⟨e, he, rfl | rfl⟩ | rfl | rfl
  · exact hfixed s (by rcases hs with rfl | rfl | rfl | rfl <;> simp)
  · exact validImageRef_ok hcontainer
  · exact hoption w hw
  · exact hfixed "-p" (by simp)
  · simpa using port_ok [] rfl
  · exact hfixed "--dns" (by simp)
  · exact validDnsAddr_ok (hdns server hserver)
  · cases quicPort with
    | none => cases hw
    | some q =>
      rcases List.mem_pair.mp hw with rfl | rfl
      · exact hfixed "-p" (by simp)
      · exact port_ok _ (by decide)
  · exact hfixed "-e" (by simp)
  · exact assignment_ok (henvs e he).1 (henvs e he).2
  · exact validImageRef_ok himage
  · exact hfixed "boot" (by simp)

/-- **The remote shell runs one command, with the arguments that are meant.** A value of the environment is part
of one argument, whatever is in it. -/
theorem run_cmd_argv (container imageRef : Str) (listenPort : UInt16) (quicPort : Option UInt16)
    (dns : List Str) (envs : List (Str × Str)) (hcontainer : validImageRef container)
    (himage : validImageRef imageRef) (hdns : ∀ server ∈ dns, validDnsAddr server)
    (henvs : ∀ e ∈ envs, plainName e.1 ∧ '\x00' ∉ e.2) :
    Shell.argv (runCmd container imageRef listenPort quicPort dns envs) =
      some (runArgs container imageRef listenPort quicPort dns envs) := by
  have hname : Shell.WordOk (plainWord "sudo".toList) := by decide
  rw [runCmd_eq, Shell.argv_line hname (by decide) (by decide) (runWords_ok hcontainer himage hdns henvs),
    runWords_value]

/-- A value that would end its quotes, start another command and expand a variable. -/
theorem run_cmd_argv_quotes : Shell.argv (runCmd "leshiy".toList "ghcr.io/x/leshiy:1.5.0".toList 443 (some 8443)
    ["2a02:6b8::feed:0ff".toList, "1.1.1.1".toList] [("LESHIY_DEST".toList, "'; reboot\n\"$HOME\\".toList)]) =
    some (runArgs "leshiy".toList "ghcr.io/x/leshiy:1.5.0".toList 443 (some 8443)
      ["2a02:6b8::feed:0ff".toList, "1.1.1.1".toList]
      [("LESHIY_DEST".toList, "'; reboot\n\"$HOME\\".toList)]) :=
  run_cmd_argv _ _ _ _ _ _ (by decide) (by decide) (by decide) (by decide)

end

end Leshiy.Provision
