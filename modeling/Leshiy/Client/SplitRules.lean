import Leshiy.Client.SplitTunnel
import Leshiy.Lib.AddrText
import Leshiy.Lib.Words

/-!
# The text of split-tunnel rules

`SplitCidr` as text, `parse_lines`, `strip_comment` and `looks_like_domain` of
`leshiy-client/src/split_tunnel.rs`: one rule a line, the first word of what stands before a comment.
-/

namespace Leshiy.Client

open Leshiy.Lib Str NetAddr

inductive SplitParseError where
  | cidr (s : Str)
  deriving DecidableEq, Repr

namespace SplitCidr

/-- The longest prefix of a family. -/
def maxPrefix (addr : IpAddr) : Nat := if addr.isIpv4 then 32 else 128

/-- `Display`. -/
def text (c : SplitCidr) : Str := showIpAddr c.addr ++ '/' :: decimal c.prefixLen

/-- `FromStr`. -/
def fromStr (s : Str) : Except SplitParseError SplitCidr :=
  let s := trim s
  match splitOnce '/' s with
  | some (a, p) =>
    match parseIpAddr (trim a), parseUnsigned 256 (trim p) with
    | some addr, some prefixLen =>
      if maxPrefix addr < prefixLen then .error (.cidr s) else .ok ⟨addr, prefixLen⟩
    | _, _ => .error (.cidr s)
  | none =>
    match parseIpAddr s with
    | some addr => .ok ⟨addr, maxPrefix addr⟩
    | none => .error (.cidr s)

end SplitCidr

/-- Everything before the first `#`. -/
def stripComment (line : Str) : Str :=
  match splitOnce '#' line with
  | some (before, _) => before
  | none => line

def looksLikeDomain (tok : Str) : Bool :=
  if (parseIpAddr tok).isSome then false
  else if tok.contains '/' then false
  else tok.contains '.' && tok.any Char.isAlpha

/-- The rule of a line, if it has one. -/
def lineToken (raw : Str) : Option Str :=
  let line := trim (stripComment raw)
  if line.isEmpty then none else some ((splitWhitespace line).head?.getD line)

/-- One line of `parse_lines`. -/
def parseLine (acc : List SplitCidr × List String) (raw : Str) :
    Except SplitParseError (List SplitCidr × List String) :=
  match lineToken raw with
  | none => .ok acc
  | some tok =>
    if looksLikeDomain tok then .ok (acc.1, acc.2 ++ [String.ofList tok])
    else
      match SplitCidr.fromStr tok with
      | .ok c => .ok (acc.1 ++ [c], acc.2)
      | .error e => .error e

def parseLines (mode : SplitMode) (text : Str) : Except SplitParseError SplitTunnel :=
  match (lines text).foldlM parseLine ([], []) with
  | .ok (cidrs, domains) => .ok ⟨mode, cidrs, domains⟩
  | .error e => .error e

/-! ## Rules -/

/-- What a line contributes. -/
inductive SplitRule where
  | cidr (c : SplitCidr)
  | domain (d : String)
  deriving DecidableEq

namespace SplitRule

def text : SplitRule → Str
  | cidr c => c.text
  | domain d => d.toList

def cidr? : SplitRule → Option SplitCidr
  | cidr c => some c
  | domain _ => none

def domain? : SplitRule → Option String
  | cidr _ => none
  | domain d => some d

def ofToken (tok : Str) : Except SplitParseError SplitRule :=
  if looksLikeDomain tok then .ok (.domain (String.ofList tok)) else (SplitCidr.fromStr tok).map .cidr

end SplitRule

section

variable {s tok raw before after : Str} {c : SplitCidr} {rule : SplitRule} {e : SplitParseError}

/-! ## One rule -/

theorem fromStr_prefix (h : SplitCidr.fromStr s = .ok c) : c.prefixLen ≤ c.addr.width := by
  have hwidth : ∀ a : IpAddr, SplitCidr.maxPrefix a = a.width := fun a => by cases a <;> rfl
  unfold SplitCidr.fromStr at h
  simp only at h
  split at h
  · split at h
    · split at h
      · cases h
      · next hle =>
        cases h
        rw [← hwidth]
        exact Nat.le_of_not_lt hle
    · cases h
  · split at h
    · cases h
      exact (hwidth _).le
    · cases h

/-- What is written of an address is neither whitespace nor the mark of a comment or of a prefix. -/
theorem not_white_of_ipv6Char {x : Char} (h : Ipv6Char x) : ¬isWhite x ∧ x ≠ '#' ∧ x ≠ '/' := by
  have hrange : (48 ≤ x.toNat ∧ x.toNat ≤ 57) ∨ (97 ≤ x.toNat ∧ x.toNat ≤ 102) ∨
      (65 ≤ x.toNat ∧ x.toNat ≤ 70) ∨ x.toNat = 46 ∨ x.toNat = 58 := by
    rcases h with hhex | rfl | rfl
    · unfold hexVal at hhex
      split at hhex
      · next hdigit => exact .inl hdigit
      split at hhex
      · next hlower => exact .inr (.inl hlower)
      split at hhex
      · next hupper => exact .inr (.inr (.inl hupper))
      · cases hhex
    · exact .inr (.inr (.inr (.inl rfl)))
    · exact .inr (.inr (.inr (.inr rfl)))
  refine ⟨?_, ?_, ?_⟩
  · unfold isWhite
    simp only [decide_eq_true_eq]
    omega
  · rintro rfl
    revert hrange
    decide
  · rintro rfl
    revert hrange
    decide

/-- A word that no comment cuts. -/
def IsToken (s : Str) : Prop := s ≠ [] ∧ ∀ x ∈ s, ¬isWhite x ∧ x ≠ '#'

theorem isToken_text (c : SplitCidr) : IsToken c.text := by
  refine ⟨by simp [SplitCidr.text], fun x hx => ?_⟩
  rcases List.mem_append.mp hx with hx | hx
  · exact (not_white_of_ipv6Char (parseIpAddr_chars (parseIpAddr_showIpAddr c.addr) x hx)).imp_right And.left
  rcases List.mem_cons.mp hx with rfl | hx
  · decide
  · have hdigit := isDigit_of_mem_decimal hx
    refine ⟨not_isWhite_of_isDigit hdigit, ?_⟩
    rintro rfl
    exact absurd hdigit (by decide)

/-- **A prefix is read as it is shown.** -/
theorem fromStr_text (hc : c.prefixLen ≤ c.addr.width) : SplitCidr.fromStr c.text = .ok c := by
  have hplain : ∀ x ∈ showIpAddr c.addr, ¬isWhite x ∧ x ≠ '#' ∧ x ≠ '/' := fun x hx =>
    not_white_of_ipv6Char (parseIpAddr_chars (parseIpAddr_showIpAddr c.addr) x hx)
  have hslash : '/' ∉ showIpAddr c.addr := fun hmem => (hplain '/' hmem).2.2 rfl
  have hmax : ¬SplitCidr.maxPrefix c.addr < c.prefixLen ∧ c.prefixLen < 256 := by
    unfold SplitCidr.maxPrefix
    cases haddr : c.addr with
    | v4 b =>
      rw [haddr] at hc
      exact ⟨Nat.not_lt.mpr hc, Nat.lt_of_le_of_lt hc (show 32 < 256 by decide)⟩
    | v6 b =>
      rw [haddr] at hc
      exact ⟨Nat.not_lt.mpr hc, Nat.lt_of_le_of_lt hc (show 128 < 256 by decide)⟩
  unfold SplitCidr.fromStr
  rw [trim_of_not_white fun x hx => (isToken_text c).2 x hx |>.1]
  simp only [SplitCidr.text, splitOnce_append hslash]
  rw [trim_of_not_white fun x hx => (hplain x hx).1, parseIpAddr_showIpAddr,
    trim_of_not_white fun x hx => not_isWhite_of_isDigit (isDigit_of_mem_decimal hx),
    parseUnsigned_decimal hmax.2]
  exact if_neg hmax.1

/-- **No token is both** a domain and a prefix. -/
theorem not_domain_of_fromStr (hs : ∀ c ∈ s, ¬isWhite c) (h : SplitCidr.fromStr s = .ok c) :
    looksLikeDomain s = false := by
  unfold SplitCidr.fromStr at h
  rw [trim_of_not_white hs] at h
  unfold looksLikeDomain
  split
  · rfl
  · next haddr =>
    split
    · rfl
    · next hslash =>
      simp only at h
      rw [splitOnce_eq_none (by simpa using hslash)] at h
      cases hip : parseIpAddr s with
      | some a => exact absurd (by rw [hip]; rfl) haddr
      | none =>
        rw [hip] at h
        cases h

/-- A rule as `parse_lines` makes one. -/
def SplitRule.Ok : SplitRule → Prop
  | .cidr c => c.prefixLen ≤ c.addr.width
  | .domain d => IsToken d.toList ∧ looksLikeDomain d.toList

theorem ok_ofToken (htok : IsToken tok) (h : SplitRule.ofToken tok = .ok rule) : rule.Ok := by
  unfold SplitRule.ofToken at h
  split at h
  · next hdomain =>
    cases h
    rw [SplitRule.Ok, String.toList_ofList]
    exact ⟨htok, hdomain⟩
  · cases hc : SplitCidr.fromStr tok with
    | error e =>
      rw [hc] at h
      cases h
    | ok c =>
      rw [hc] at h
      cases h
      exact fromStr_prefix hc

theorem SplitRule.Ok.isToken (h : rule.Ok) : IsToken rule.text := by
  cases rule with
  | cidr c => exact isToken_text c
  | domain d => exact h.1

theorem SplitRule.Ok.ofToken_text (h : rule.Ok) : SplitRule.ofToken rule.text = .ok rule := by
  unfold SplitRule.ofToken
  cases rule with
  | cidr c =>
    have hread := fromStr_text h
    have hnot := not_domain_of_fromStr (fun x hx => ((isToken_text c).2 x hx).1) hread
    rw [SplitRule.text, hnot, hread]
    rfl
  | domain d =>
    rw [SplitRule.text, if_pos h.2, String.ofList_toList]

/-! ## One line -/

/-- What stands before a comment, and the comment. -/
theorem stripComment_append (hs : '#' ∉ s) (hafter : ∀ x ∈ after.head?, x = '#') :
    stripComment (s ++ after) = s := by
  unfold stripComment
  match after with
  | [] =>
    rw [List.append_nil, splitOnce_eq_none hs]
  | x :: t =>
    obtain rfl := hafter x rfl
    rw [splitOnce_append hs]

theorem stripComment_of_not_mem (hs : '#' ∉ s) : stripComment s = s := by
  have hstrip : stripComment (s ++ []) = s := stripComment_append hs nofun
  rwa [List.append_nil] at hstrip

theorem exists_comment (s : Str) :
    ∃ comment, s = stripComment s ++ comment ∧ '#' ∉ stripComment s ∧ ∀ x ∈ comment.head?, x = '#' := by
  by_cases hmem : '#' ∈ s
  · obtain ⟨a, b, rfl, ha⟩ := List.eq_append_cons_of_mem hmem
    have hcomment : ∀ x ∈ ('#' :: b).head?, x = '#' := fun x hx => (Option.some.inj hx).symm
    refine ⟨'#' :: b, ?_, ?_, hcomment⟩
    · rw [stripComment_append ha hcomment]
    · rwa [stripComment_append ha hcomment]
  · exact ⟨[], by rw [stripComment_of_not_mem hmem, List.append_nil], by rwa [stripComment_of_not_mem hmem],
      nofun⟩

/-- The token of a line is the first word before its comment. -/
theorem lineToken_eq : lineToken raw = (splitWhitespace (stripComment raw)).head? := by
  unfold lineToken
  simp only [splitWhitespace_trim]
  cases hwords : splitWhitespace (stripComment raw) with
  | nil => rw [splitWhitespace_eq_nil.mp hwords]; rfl
  | cons w ws =>
    have hne : trim (stripComment raw) ≠ [] := fun hnil => by
      rw [splitWhitespace_eq_nil.mpr hnil] at hwords
      cases hwords
    rw [if_neg (by simpa using hne)]
    rfl

theorem isToken_of_lineToken (h : lineToken raw = some tok) : IsToken tok := by
  rw [lineToken_eq] at h
  obtain ⟨hne, hchars⟩ := mem_splitWhitespace (List.mem_of_mem_head? h)
  obtain ⟨-, -, hhash, -⟩ := exists_comment raw
  refine ⟨hne, fun x hx => ⟨(hchars x hx).1, ?_⟩⟩
  rintro rfl
  exact hhash (hchars '#' hx).2

/-- A carriage return at the end of a line does not matter. -/
theorem lineToken_carriageReturn : lineToken (raw ++ ['\r']) = lineToken raw := by
  obtain ⟨comment, hraw, hhash, hcomment⟩ := exists_comment raw
  rw [lineToken_eq, lineToken_eq]
  match comment with
  | [] =>
    have hstrip : stripComment (raw ++ ['\r']) = raw ++ ['\r'] := by
      refine stripComment_of_not_mem ?_
      rw [hraw, List.append_nil]
      simpa using hhash
    rw [List.append_nil] at hraw
    rw [hstrip, ← hraw, splitWhitespace_append_right (List.forall_mem_singleton.mpr (by decide))]
  | x :: t =>
    have hstrip : stripComment (raw ++ ['\r']) = stripComment raw := by
      conv_lhs => rw [hraw, List.append_assoc]
      exact stripComment_append hhash hcomment
    rw [hstrip]

/-! ## Writing rules -/

/-- What may stand behind a rule: nothing, or whitespace or a comment, and then anything. -/
def Trailing (after : Str) : Prop := ∀ x ∈ after.head?, isWhite x ∨ x = '#'

/-- A text of one rule a line, in this order: with whitespace before it and other words or a comment behind it,
and with lines of whitespace and comments in between. -/
inductive Written : List SplitRule → List Str → Prop
  | nil : Written [] []
  | blank {rules : List SplitRule} {ls : List Str} {before comment : Str} (hbefore : ∀ x ∈ before, isWhite x)
      (hcomment : ∀ x ∈ comment.head?, x = '#') (hline : '\n' ∉ before ++ comment)
      (hrest : Written rules ls) : Written rules ((before ++ comment) :: ls)
  | rule {rule : SplitRule} {rules : List SplitRule} {ls : List Str} {before after : Str}
      (hbefore : ∀ x ∈ before, isWhite x) (hafter : Trailing after)
      (hline : '\n' ∉ before ++ (rule.text ++ after)) (hrest : Written rules ls) :
      Written (rule :: rules) ((before ++ (rule.text ++ after)) :: ls)

theorem hash_not_mem_white (h : ∀ x ∈ before, isWhite x) : '#' ∉ before := fun hmem =>
  absurd (h '#' hmem) (by decide)

theorem lineToken_blank (hbefore : ∀ x ∈ before, isWhite x) (hcomment : ∀ x ∈ after.head?, x = '#') :
    lineToken (before ++ after) = none := by
  rw [lineToken_eq, stripComment_append (hash_not_mem_white hbefore) hcomment,
    splitWhitespace_all_white hbefore]
  rfl

theorem lineToken_rule (hbefore : ∀ x ∈ before, isWhite x) (htok : IsToken tok) (hafter : Trailing after) :
    lineToken (before ++ (tok ++ after)) = some tok := by
  obtain ⟨hne, hchars⟩ := htok
  obtain ⟨comment, hsplit, hhash, hcomment⟩ := exists_comment after
  have hstrip : stripComment (before ++ (tok ++ after)) = before ++ (tok ++ stripComment after) := by
    have hnone : '#' ∉ before ++ (tok ++ stripComment after) := by
      simp only [List.mem_append, not_or]
      exact ⟨hash_not_mem_white hbefore, fun hmem => (hchars '#' hmem).2 rfl, hhash⟩
    rw [← stripComment_append hnone hcomment, List.append_assoc, List.append_assoc, ← hsplit]
  rw [lineToken_eq, hstrip, splitWhitespace_append_white hbefore]
  match hrest : stripComment after with
  | [] =>
    rw [List.append_nil, splitWhitespace_singleton hne fun x hx => (hchars x hx).1]
    rfl
  | x :: t =>
    have hx : isWhite x := by
      rw [hrest] at hsplit hhash
      rcases hafter x (by rw [hsplit]; rfl) with hwhite | rfl
      · exact hwhite
      · exact absurd List.mem_cons_self hhash
    rw [splitWhitespace_word hne (fun x hx => (hchars x hx).1) hx]
    rfl

/-! ## The lines of a text -/

/-- The rules of a text, line by line, up to the first that is none. -/
def readRules (text : Str) : Except SplitParseError (List SplitRule) :=
  ((lines text).filterMap lineToken).mapM SplitRule.ofToken

theorem parseLine_token {cidrs : List SplitCidr} {domains : List String} (htok : lineToken raw = some tok) :
    parseLine (cidrs, domains) raw = (SplitRule.ofToken tok).map fun rule =>
      (cidrs ++ rule.cidr?.toList, domains ++ rule.domain?.toList) := by
  unfold parseLine SplitRule.ofToken
  simp only [htok]
  split
  · simp [Except.map, SplitRule.cidr?, SplitRule.domain?]
  · cases SplitCidr.fromStr tok with
    | error e => rfl
    | ok c => simp [Except.map, SplitRule.cidr?, SplitRule.domain?]

theorem foldlM_parseLine : ∀ (ls : List Str) (cidrs : List SplitCidr) (domains : List String),
    ls.foldlM parseLine (cidrs, domains) =
      ((ls.filterMap lineToken).mapM SplitRule.ofToken).map fun rules =>
        (cidrs ++ rules.filterMap SplitRule.cidr?, domains ++ rules.filterMap SplitRule.domain?)
  | [], cidrs, domains => by simp [Except.map, pure, Except.pure]
  | raw :: ls, cidrs, domains => by
    rw [List.foldlM_cons]
    cases htok : lineToken raw with
    | none =>
      have hline : parseLine (cidrs, domains) raw = .ok (cidrs, domains) := by
        rw [parseLine, htok]
      rw [List.filterMap_cons_none htok, hline]
      exact foldlM_parseLine ls cidrs domains
    | some tok =>
      rw [List.filterMap_cons_some htok, List.mapM_cons, parseLine_token htok]
      cases SplitRule.ofToken tok with
      | error e => rfl
      | ok rule =>
        refine (foldlM_parseLine ls _ _).trans ?_
        cases (ls.filterMap lineToken).mapM SplitRule.ofToken with
        | error e => rfl
        | ok rules =>
          cases rule <;>
            simp [Except.map, bind, Except.bind, pure, Except.pure, SplitRule.cidr?, SplitRule.domain?,
              List.filterMap_cons]

theorem parseLines_eq (mode : SplitMode) (text : Str) : parseLines mode text =
    (readRules text).map fun rules =>
      ⟨mode, rules.filterMap SplitRule.cidr?, rules.filterMap SplitRule.domain?⟩ := by
  rw [parseLines, foldlM_parseLine, readRules]
  cases ((lines text).filterMap lineToken).mapM SplitRule.ofToken <;> rfl

theorem lines_of_no_newline : ∀ {s : Str}, s ≠ [] → '\n' ∉ s → lines s = [s]
  | c :: s, _, h => by
    obtain ⟨hc, hs⟩ := not_or.mp (mt List.mem_cons.mpr h)
    have hhead : s.head? ≠ some '\n' := fun heq => hs (List.mem_of_mem_head? heq)
    rw [lines, if_neg (Ne.symm hc), if_neg fun hcr => hhead hcr.2]
    cases s with
    | nil => rfl
    | cons x s =>
      rw [lines_of_no_newline (List.cons_ne_nil x s) hs]
      rfl

/-- Whether a line ends with a carriage return, a newline or the text makes no difference to its rule. -/
theorem filterMap_lines : ∀ {ls : List Str}, (∀ l ∈ ls, '\n' ∉ l) →
    (lines (List.intercalate ['\n'] ls)).filterMap lineToken = ls.filterMap lineToken
  | [], _ => rfl
  | [l], h => by
    rw [List.intercalate_singleton]
    by_cases hnil : l = []
    · subst hnil
      rfl
    · rw [lines_of_no_newline hnil (h l List.mem_cons_self)]
  | l :: l' :: ls, h => by
    obtain ⟨hl, hls⟩ := List.forall_mem_cons.mp h
    obtain ⟨k, hline, hk⟩ := lines_line hl
    have htoken : lineToken k = lineToken l := by
      rcases hk with rfl | rfl
      · rfl
      · exact lineToken_carriageReturn.symm
    have hjoin : List.intercalate ['\n'] (l :: l' :: ls) = l ++ '\n' :: List.intercalate ['\n'] (l' :: ls) := by
      simp [List.intercalate_cons_cons]
    rw [hjoin, lines_append_newline, hline, List.singleton_append, List.filterMap_cons, List.filterMap_cons,
      htoken, filterMap_lines hls]

theorem Written.no_newline {rules : List SplitRule} {ls : List Str} (h : Written rules ls) :
    ∀ l ∈ ls, '\n' ∉ l := by
  induction h with
  | nil => exact nofun
  | blank _ _ hline _ ih => exact List.forall_mem_cons.mpr ⟨hline, ih⟩
  | rule _ _ hline _ ih => exact List.forall_mem_cons.mpr ⟨hline, ih⟩

theorem Written.tokens {rules : List SplitRule} {ls : List Str} (h : Written rules ls)
    (hok : ∀ rule ∈ rules, rule.Ok) : ls.filterMap lineToken = rules.map SplitRule.text := by
  induction h with
  | nil => rfl
  | blank hbefore hcomment _ _ ih =>
    rw [List.filterMap_cons_none (lineToken_blank hbefore hcomment), ih hok]
  | rule hbefore hafter _ _ ih =>
    obtain ⟨hrule, hrules⟩ := List.forall_mem_cons.mp hok
    rw [List.filterMap_cons_some (lineToken_rule hbefore hrule.isToken hafter), ih hrules, List.map_cons]

theorem mapM_text : ∀ {rules : List SplitRule}, (∀ rule ∈ rules, rule.Ok) →
    (rules.map SplitRule.text).mapM SplitRule.ofToken = .ok rules
  | [], _ => rfl
  | rule :: rules, hok => by
    obtain ⟨hrule, hrules⟩ := List.forall_mem_cons.mp hok
    rw [List.map_cons, List.mapM_cons, hrule.ofToken_text, mapM_text hrules]
    rfl

/-- **Written rules are read again**, whatever whitespace, words and comments are around them. -/
theorem Written.readRules {rules : List SplitRule} {ls : List Str} (h : Written rules ls)
    (hok : ∀ rule ∈ rules, rule.Ok) : readRules (List.intercalate ['\n'] ls) = .ok rules := by
  rw [Client.readRules, filterMap_lines h.no_newline, h.tokens hok, mapM_text hok]

/-! ## Reading rules -/

/-- The lines that have a rule: those that are not blank without their comment. -/
def ruleLines (text : Str) : List Str := (lines text).filter fun raw => !(trim (stripComment raw)).isEmpty

/-- What a line makes of its token. -/
def Contributes (raw : Str) (rule : SplitRule) : Prop :=
  ∃ tok, lineToken raw = some tok ∧ SplitRule.ofToken tok = .ok rule

theorem isSome_lineToken : (lineToken raw).isSome = !(trim (stripComment raw)).isEmpty := by
  unfold lineToken
  simp only
  split
  · next hblank => rw [hblank]; rfl
  · next hline => rw [Bool.eq_false_iff.mpr hline]; rfl

theorem mapM_contributes : ∀ {ls : List Str} {rules : List SplitRule},
    (ls.filterMap lineToken).mapM SplitRule.ofToken = .ok rules →
      List.Forall₂ Contributes (ls.filter fun raw => !(trim (stripComment raw)).isEmpty) rules
  | [], rules, h => by
    cases h
    exact .nil
  | raw :: ls, rules, h => by
    rw [List.filter_cons, ← isSome_lineToken]
    cases htok : lineToken raw with
    | none =>
      rw [List.filterMap_cons_none htok] at h
      exact mapM_contributes h
    | some tok =>
      rw [List.filterMap_cons_some htok, List.mapM_cons] at h
      cases hrule : SplitRule.ofToken tok with
      | error e =>
        rw [hrule] at h
        cases h
      | ok rule =>
        cases hrules : (ls.filterMap lineToken).mapM SplitRule.ofToken with
        | error e =>
          rw [hrule, hrules] at h
          cases h
        | ok rules' =>
          rw [hrule, hrules] at h
          cases h
          exact .cons ⟨tok, htok, hrule⟩ (mapM_contributes hrules)

theorem mapM_error : ∀ {toks : List Str}, toks.mapM SplitRule.ofToken = .error e →
    ∃ tok ∈ toks, SplitRule.ofToken tok = .error e
  | [], h => by cases h
  | tok :: toks, h => by
    rw [List.mapM_cons] at h
    cases hrule : SplitRule.ofToken tok with
    | error e' =>
      rw [hrule] at h
      cases h
      exact ⟨tok, List.mem_cons_self, hrule⟩
    | ok rule =>
      cases hrules : toks.mapM SplitRule.ofToken with
      | error e' =>
        rw [hrule, hrules] at h
        cases h
        obtain ⟨tok', hmem, htok'⟩ := mapM_error hrules
        exact ⟨tok', List.mem_cons_of_mem _ hmem, htok'⟩
      | ok rules' =>
        rw [hrule, hrules] at h
        cases h

/-- The rules of a text are as `parse_lines` makes them. -/
theorem forall_ok {ls : List Str} {rules : List SplitRule} (h : List.Forall₂ Contributes ls rules) :
    ∀ rule ∈ rules, rule.Ok := by
  induction h with
  | nil => exact nofun
  | cons hline _ ih =>
    obtain ⟨tok, htok, hrule⟩ := hline
    exact List.forall_mem_cons.mpr ⟨ok_ofToken (isToken_of_lineToken htok) hrule, ih⟩

/-- Rules of the same prefixes and domains are rules alike, in whatever order. -/
theorem forall_ok_of_parts {rules rules' : List SplitRule} (h : ∀ rule ∈ rules, rule.Ok)
    (hcidrs : rules'.filterMap SplitRule.cidr? = rules.filterMap SplitRule.cidr?)
    (hdomains : rules'.filterMap SplitRule.domain? = rules.filterMap SplitRule.domain?) :
    ∀ rule ∈ rules', rule.Ok := by
  intro rule hrule
  cases rule with
  | cidr c =>
    have hc : c ∈ rules'.filterMap SplitRule.cidr? := List.mem_filterMap.mpr ⟨_, hrule, rfl⟩
    rw [hcidrs] at hc
    obtain ⟨rule, hmem, hpart⟩ := List.mem_filterMap.mp hc
    cases rule with
    | cidr c' => cases hpart; exact h _ hmem
    | domain d => cases hpart
  | domain d =>
    have hd : d ∈ rules'.filterMap SplitRule.domain? := List.mem_filterMap.mpr ⟨_, hrule, rfl⟩
    rw [hdomains] at hd
    obtain ⟨rule, hmem, hpart⟩ := List.mem_filterMap.mp hd
    cases rule with
    | cidr c => cases hpart
    | domain d' => cases hpart; exact h _ hmem

/-- **The text of rules is read as it was written.** Every line that is not blank contributes one rule, or the
call fails with what is wrong with one. The rules of a text that is accepted may be written again in any
order that keeps prefixes and domains in theirs, with whitespace, comments and other words around them: they
are read as the same rules. A prefix is no longer than its family allows, and no word is both a prefix and a
domain. -/
theorem split_rules (mode : SplitMode) (text : Str) :
    (match parseLines mode text with
      | .ok r => (∃ rules, List.Forall₂ Contributes (ruleLines text) rules ∧
            r = ⟨mode, rules.filterMap SplitRule.cidr?, rules.filterMap SplitRule.domain?⟩) ∧
          (∀ c ∈ r.cidrs, c.prefixLen ≤ c.addr.width) ∧
          ∀ rules ls, rules.filterMap SplitRule.cidr? = r.cidrs →
            rules.filterMap SplitRule.domain? = r.domains →
            Written rules ls → parseLines mode (List.intercalate ['\n'] ls) = .ok r
      | .error e => ∃ raw ∈ lines text, ∃ tok, lineToken raw = some tok ∧ SplitRule.ofToken tok = .error e) ∧
    ∀ tok, (∀ x ∈ tok, ¬isWhite x) → looksLikeDomain tok → ∀ c, SplitCidr.fromStr tok ≠ .ok c := by
  refine ⟨?_, fun tok hwhite hdomain c hc => ?_⟩
  · rw [parseLines_eq]
    cases hread : readRules text with
    | error e =>
      obtain ⟨tok, htok, he⟩ := mapM_error hread
      obtain ⟨raw, hraw, hline⟩ := List.mem_filterMap.mp htok
      exact ⟨raw, hraw, tok, hline, he⟩
    | ok rules =>
      have hrules : List.Forall₂ Contributes (ruleLines text) rules := mapM_contributes hread
      have hok := forall_ok hrules
      refine ⟨⟨rules, hrules, rfl⟩, fun c hc => ?_, fun rules' ls hcidrs hdomains hwritten => ?_⟩
      · obtain ⟨rule, hmem, hpart⟩ := List.mem_filterMap.mp hc
        cases rule with
        | cidr c' => cases hpart; exact hok _ hmem
        | domain d => cases hpart
      · have hread' := hwritten.readRules (forall_ok_of_parts hok hcidrs hdomains)
        rw [parseLines_eq, hread']
        simp only [Except.map, hcidrs, hdomains]
  · rw [not_domain_of_fromStr hwhite hc] at hdomain
    cases hdomain

example : (parseLines .exclude "10.0.0.0/8 # lan\n\n\t2001:db8::1 x\r\nexample.com#\n".toList).toOption.map
    (fun r => (r.cidrs, r.domains)) =
    some ([⟨.v4 0x0a000000#32, 8⟩, ⟨.v6 0x20010db8000000000000000000000001#128, 128⟩], ["example.com"]) := by
  decide +kernel

end

end Leshiy.Client
