import Leshiy.Client.SplitRules
import Leshiy.Lib.Utf8

/-!
# What a subscription is taken in from

`validate_subscription_url` and `parse_subscription` of `leshiy-client/src/subscription.rs`, with
`parse_domain_list` and `parse_hosts` of `split_tunnel.rs`. A slice of the URL panics inside a character.
-/

namespace Leshiy.Client

open Leshiy.Lib Str

/-! ## The URL -/

def eqIgnoreAsciiCase (s t : Str) : Bool := s.map Char.toLower = t.map Char.toLower

def notHttps : Str := "subscription URL must use https://".toList

/-- `none` is a panic. -/
def validateSubscriptionUrl (url : Str) : Option (Except Str Unit) :=
  let u := trim url
  if 8 ≤ byteLen u then
    match sliceTo u 8 with
    | none => none
    | some scheme =>
      if eqIgnoreAsciiCase scheme "https://".toList ∧ 8 < byteLen u then some (.ok ())
      else some (.error notHttps)
  else some (.error notHttps)

/-! ## The body -/

inductive SubFormat where
  | lines
  | hosts
  | domainList
  deriving DecidableEq, Repr

/-- The hosts of a line of a hosts file: what stands behind the first column. -/
def hostLine (domains : List String) (raw : Str) : List String :=
  let line := trim (stripComment raw)
  if line.isEmpty then domains
  else
    (splitWhitespace line).tail.foldl (fun domains host =>
      if looksLikeDomain host then domains ++ [String.ofList host] else domains) domains

def parseHosts (mode : SplitMode) (text : Str) : Except SplitParseError SplitTunnel :=
  .ok ⟨mode, [], (lines text).foldl hostLine []⟩

/-- The host of a token of a domain list, if its directive is one that names a host. -/
def listHost (tok : Str) : Option Str :=
  match splitOnce ':' tok with
  | some (directive, h) =>
    if directive = "domain".toList ∨ directive = "full".toList then some h
    else none -- `regexp`, `keyword`, `include` and what is unknown
  | none => some tok

def domainLine (domains : List String) (raw : Str) : List String :=
  match lineToken raw with
  | none => domains
  | some tok =>
    match listHost tok with
    | none => domains
    | some host => if looksLikeDomain host then domains ++ [String.ofList host] else domains

def parseDomainList (mode : SplitMode) (text : Str) : Except SplitParseError SplitTunnel :=
  .ok ⟨mode, [], (lines text).foldl domainLine []⟩

/-- The mode is a placeholder. -/
def parseSubscription (format : SubFormat) (text : Str) : Except SplitParseError RuleSet :=
  (match format with
    | .lines => parseLines .exclude text
    | .hosts => parseHosts .exclude text
    | .domainList => parseDomainList .exclude text).map fun (st : SplitTunnel) => ⟨st.cidrs, st.domains⟩

/-! ## What is accepted -/

/-- The scheme in letters of any case, and something behind it. -/
def IsHttps (url : Str) : Prop :=
  ∃ scheme rest, trim url = scheme ++ rest ∧ eqIgnoreAsciiCase scheme "https://".toList ∧ rest ≠ []

/-- What a token of a domain list names: what stands behind `domain:` or `full:`, or itself without a colon. -/
inductive Entry (tok : Str) : Str → Prop
  | domain {h : Str} (htok : tok = "domain:".toList ++ h) : Entry tok h
  | full {h : Str} (htok : tok = "full:".toList ++ h) : Entry tok h
  | bare (htok : ':' ∉ tok) : Entry tok tok

/-- The columns of a line, up to its comment. -/
def columns (raw : Str) : List Str := splitWhitespace (stripComment raw)

/-- The domains of a line in a format that has no prefixes. -/
def LineDomains (raw : Str) (found : List Str) : SubFormat → Prop
  | .lines => True
  | .hosts => found = (columns raw).tail.filter looksLikeDomain
  | .domainList => found.length ≤ 1 ∧
    ∀ h, h ∈ found ↔ (∃ tok, (columns raw).head? = some tok ∧ Entry tok h) ∧ looksLikeDomain h

/-- A subscription is taken in as it is meant to be: without a panic, from an `https` URL and no other, and
with the domains of its lines in their order. -/
def TakenIn (url : Str) (format : SubFormat) (text : Str) : Prop :=
  (∃ valid, validateSubscriptionUrl url = some valid ∧ (valid = .ok () ↔ IsHttps url)) ∧
  (format ≠ .lines → ∃ found, List.Forall₂ (fun raw ds => LineDomains raw ds format) (lines text) found ∧
    parseSubscription format text = .ok ⟨[], found.flatten.map String.ofList⟩)

/-- No character of the trimmed URL has its eighth byte and its ninth. -/
def CutsAtEight (url : Str) : Prop :=
  byteLen (trim url) < 8 ∨ ∃ a b, trim url = a ++ b ∧ byteLen a = 8

section

variable {url raw tok h text : Str} {format : SubFormat}

/-! ## Domains by line -/

/-- What a loop appends that takes some of the elements. -/
theorem foldl_append_if (l : List Str) (domains : List String) :
    l.foldl (fun domains host => if looksLikeDomain host then domains ++ [String.ofList host] else domains)
      domains = domains ++ (l.filter looksLikeDomain).map String.ofList := by
  induction l generalizing domains with
  | nil => simp
  | cons host l ih =>
    rw [List.foldl_cons, ih]
    by_cases hhost : looksLikeDomain host <;> simp [hhost]

theorem hostLine_eq (domains : List String) (raw : Str) : hostLine domains raw =
    domains ++ ((columns raw).tail.filter looksLikeDomain).map String.ofList := by
  unfold hostLine columns
  simp only [splitWhitespace_trim]
  split
  · next hblank =>
    rw [splitWhitespace_eq_nil.mpr (List.isEmpty_iff.mp hblank)]
    simp
  · exact foldl_append_if _ _

theorem listHost_iff : listHost tok = some h ↔ Entry tok h := by
  unfold listHost
  constructor
  · intro hhost
    split at hhost
    · next directive rest hsplit =>
      obtain ⟨rfl, -⟩ := splitOnce_eq_some hsplit
      split at hhost
      · next hnames =>
        cases hhost
        rcases hnames with rfl | rfl
        · exact .domain rfl
        · exact .full rfl
      · cases hhost
    · next hsplit =>
      cases hhost
      refine .bare fun hmem => ?_
      obtain ⟨a, b, rfl, ha⟩ := List.eq_append_cons_of_mem hmem
      rw [splitOnce_append ha] at hsplit
      cases hsplit
  · intro hentry
    cases hentry with
    | domain htok =>
      rw [htok, show "domain:".toList ++ h = "domain".toList ++ ':' :: h from rfl,
        splitOnce_append (by decide)]
      exact if_pos (.inl rfl)
    | full htok =>
      rw [htok, show "full:".toList ++ h = "full".toList ++ ':' :: h from rfl, splitOnce_append (by decide)]
      exact if_pos (.inr rfl)
    | bare htok => rw [splitOnce_eq_none htok]

/-- The domain that a line of a domain list names. -/
def entryDomain (raw : Str) : List Str :=
  ((columns raw).head?.bind listHost).toList.filter looksLikeDomain

theorem domainLine_eq (domains : List String) (raw : Str) :
    domainLine domains raw = domains ++ (entryDomain raw).map String.ofList := by
  unfold domainLine entryDomain columns
  rw [lineToken_eq]
  cases (splitWhitespace (stripComment raw)).head? with
  | none => simp
  | some tok =>
    simp only [Option.bind_some]
    cases listHost tok with
    | none => simp
    | some host => by_cases hhost : looksLikeDomain host <;> simp [hhost]

theorem foldl_lines {line : List String → Str → List String} {found : Str → List Str}
    (hline : ∀ domains raw, line domains raw = domains ++ (found raw).map String.ofList) (ls : List Str) :
    ls.foldl line [] = (ls.map found).flatten.map String.ofList := by
  have hall : ∀ domains, ls.foldl line domains = domains ++ (ls.map found).flatten.map String.ofList := by
    induction ls with
    | nil => simp
    | cons raw ls ih =>
      intro domains
      rw [List.foldl_cons, hline, ih]
      simp
  exact hall []

/-- **The domains of a hosts file or a domain list** are the ones that its lines name, in their order. -/
theorem parseSubscription_domains (hformat : format ≠ .lines) :
    ∃ found, List.Forall₂ (fun raw ds => LineDomains raw ds format) (lines text) found ∧
      parseSubscription format text = .ok ⟨[], found.flatten.map String.ofList⟩ := by
  cases format with
  | lines => exact absurd rfl hformat
  | hosts =>
    refine ⟨_, List.forall₂_map_right_iff.mpr (List.forall₂_same.mpr fun raw _ => rfl), ?_⟩
    rw [parseSubscription, parseHosts, foldl_lines hostLine_eq]
    rfl
  | domainList =>
    refine ⟨(lines text).map entryDomain,
      List.forall₂_map_right_iff.mpr (List.forall₂_same.mpr fun raw _ => ⟨?_, fun h => ?_⟩), ?_⟩
    · exact (List.length_filter_le _ _).trans (Option.length_toList_le)
    · rw [entryDomain, List.mem_filter, Option.mem_toList, Option.bind_eq_some_iff]
      simp only [listHost_iff]
    · rw [parseSubscription, parseDomainList, foldl_lines domainLine_eq]
      rfl

/-! ## The scheme -/

theorem utf8Size_toLower (c : Char) : c.toLower.utf8Size = c.utf8Size := by
  unfold Char.toLower
  split
  · next hupper =>
    -- letters of either case are ASCII
    have hle : c.val ≤ 127 := UInt32.le_trans hupper.2 (by decide)
    have hle' : c.val + ('a'.val - 'A'.val) ≤ 127 := by
      have hz : c.val.toNat ≤ 90 := hupper.2
      rw [UInt32.le_iff_toNat_le, UInt32.toNat_add]
      show (c.val.toNat + 32) % 4294967296 ≤ 127
      omega
    exact (if_pos hle').trans (if_pos hle).symm
  · rfl

theorem byteLen_map_toLower (s : Str) : byteLen (s.map Char.toLower) = byteLen s := by
  induction s with
  | nil => rfl
  | cons c s ih => rw [List.map_cons, byteLen, byteLen, utf8Size_toLower, ih]

/-- The scheme has eight bytes in letters of any case. -/
theorem byteLen_scheme {scheme : Str} (h : eqIgnoreAsciiCase scheme "https://".toList) :
    byteLen scheme = 8 := by
  rw [← byteLen_map_toLower, of_decide_eq_true h]
  decide

theorem validate_iff : (∃ valid, validateSubscriptionUrl url = some valid ∧ (valid = .ok () ↔ IsHttps url)) ↔
    CutsAtEight url := by
  unfold validateSubscriptionUrl CutsAtEight
  simp only
  by_cases hlong : 8 ≤ byteLen (trim url)
  · rw [if_pos hlong]
    cases hslice : sliceTo (trim url) 8 with
    | none =>
      refine iff_of_false (by rintro ⟨_, hpanic, -⟩; cases hpanic) ?_
      rintro (hshort | ⟨a, b, hcut, hlen⟩)
      · exact absurd hlong (Nat.not_le.mpr hshort)
      · rw [sliceTo_eq_some.mpr ⟨b, hcut, hlen⟩] at hslice
        cases hslice
    | some scheme =>
      obtain ⟨rest, hcut, hlen⟩ := sliceTo_eq_some.mp hslice
      have hmore : 8 < byteLen (trim url) ↔ rest ≠ [] := by
        rw [hcut, byteLen_append, hlen]
        refine ⟨fun hlt hnil => ?_, fun hne => Nat.lt_add_of_pos_right (byteLen_pos hne)⟩
        rw [hnil] at hlt
        exact absurd hlt (by decide)
      have hhttps : IsHttps url ↔
          eqIgnoreAsciiCase scheme "https://".toList ∧ 8 < byteLen (trim url) := by
        rw [hmore]
        refine ⟨?_, fun h => ⟨scheme, rest, hcut, h⟩⟩
        rintro ⟨scheme', rest', hcut', hscheme, hrest⟩
        have hslice' := sliceTo_eq_some.mpr ⟨rest', hcut', byteLen_scheme hscheme⟩
        obtain rfl : scheme' = scheme := Option.some.inj (hslice'.symm.trans hslice)
        obtain rfl : rest' = rest := List.append_cancel_left (hcut'.symm.trans hcut)
        exact ⟨hscheme, hrest⟩
      refine iff_of_true ?_ (.inr ⟨scheme, rest, hcut, hlen⟩)
      simp only
      split
      · next hvalid => exact ⟨_, rfl, iff_of_true rfl (hhttps.mpr hvalid)⟩
      · next hvalid => exact ⟨_, rfl, iff_of_false nofun (mt hhttps.mp hvalid)⟩
  · rw [if_neg hlong]
    refine iff_of_true ⟨_, rfl, iff_of_false nofun ?_⟩ (.inl (Nat.lt_of_not_le hlong))
    rintro ⟨scheme, rest, hcut, hscheme, -⟩
    rw [hcut, byteLen_append, byteLen_scheme hscheme] at hlong
    exact hlong (Nat.le_add_right 8 _)

/-- **Where subscriptions are taken in as they are meant to be.** The scheme is compared on a slice of the URL:
that panics exactly where the slice cuts a character. -/
theorem subscription_intake (url : Str) (format : SubFormat) (text : Str) :
    TakenIn url format text ↔ CutsAtEight url :=
  ⟨fun h => validate_iff.mp h.1, fun h => ⟨validate_iff.mpr h, parseSubscription_domains⟩⟩

/-- Seven bytes, and then a character of two. -/
theorem panic_inside_character :
    ¬TakenIn "https:/é/list.txt".toList .hosts "0.0.0.0 ads.example.com\n".toList := by
  rintro ⟨⟨valid, hvalid, -⟩, -⟩
  have hpanic : validateSubscriptionUrl "https:/é/list.txt".toList = none := by decide +kernel
  rw [hpanic] at hvalid
  cases hvalid

end

end Leshiy.Client
