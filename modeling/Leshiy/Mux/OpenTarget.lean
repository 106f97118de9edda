import Leshiy.Mux.Basic

/-!
# The `Open` payload

`open` puts a bare target in the payload, `open_datagram` and `open_icmp` put a scheme before
it, and the peer strips the first scheme that matches. A bare target that itself starts with a
scheme is therefore read as something else; every other target comes back as it was sent.
-/

namespace Leshiy.Mux

open Leshiy.Lib

/-! ## Prefixes of strings -/

theorem stripPrefix_eq_some_iff {s pre rest : String} :
    stripPrefix s pre = some rest ↔ s = pre ++ rest := by
  simp only [stripPrefix, Option.map_eq_some_iff, List.dropPrefix?_eq_some_iff, beq_iff_eq]
  constructor
  · rintro ⟨l, ⟨p, hl, rfl⟩, rfl⟩
    rw [← String.toList_inj, String.toList_append, hl, String.toList_ofList]
  · rintro rfl
    exact ⟨rest.toList, ⟨pre.toList, by simp, rfl⟩, String.ofList_toList⟩

theorem stripPrefix_eq_none_iff {s pre : String} :
    stripPrefix s pre = none ↔ ¬ pre.toList <+: s.toList := by
  rw [Option.eq_none_iff_forall_ne_some]
  constructor
  · rintro h ⟨l, hl⟩
    refine h (String.ofList l) (stripPrefix_eq_some_iff.mpr ?_)
    rw [← String.toList_inj, String.toList_append, String.toList_ofList, hl]
  · intro h rest hs
    rw [stripPrefix_eq_some_iff] at hs
    exact h ⟨rest.toList, by rw [hs, String.toList_append]⟩

/-- A text that starts with one of two schemes does not start with the other. -/
theorem stripPrefix_other {pre pre' : String} (rest : String)
    (h : ¬ pre.toList <+: pre'.toList) (h' : ¬ pre'.toList <+: pre.toList) :
    stripPrefix (pre ++ rest) pre' = none := by
  rw [stripPrefix_eq_none_iff, String.toList_append]
  intro hp
  rcases List.prefix_or_prefix_of_prefix hp (List.prefix_append pre.toList rest.toList) with hp | hp
  · exact h' hp
  · exact h hp

/-! ## `parse_open_target` -/

theorem parseOpenTarget_udp (target : String) :
    parseOpenTarget ("udp:" ++ target) = (.udp, target) := by
  have h : stripPrefix ("udp:" ++ target) "udp:" = some target := stripPrefix_eq_some_iff.mpr rfl
  simp [parseOpenTarget, openSchemes, h]

theorem parseOpenTarget_icmp (target : String) :
    parseOpenTarget ("icmp:" ++ target) = (.icmp, target) := by
  have h : stripPrefix ("icmp:" ++ target) "icmp:" = some target :=
    stripPrefix_eq_some_iff.mpr rfl
  have hudp : stripPrefix ("icmp:" ++ target) "udp:" = none :=
    stripPrefix_other target (by decide) (by decide)
  simp [parseOpenTarget, openSchemes, h, hudp]

/-- A text without a scheme is TCP. -/
theorem parseOpenTarget_bare {target : String}
    (h : ∀ scheme ∈ openSchemes, ¬ scheme.1.toList <+: target.toList) :
    parseOpenTarget target = (.tcp, target) := by
  have hnone : ∀ scheme ∈ openSchemes, stripPrefix target scheme.1 = none :=
    fun scheme hs => stripPrefix_eq_none_iff.mpr (h scheme hs)
  simp only [openSchemes, List.mem_cons, List.not_mem_nil, or_false, forall_eq_or_imp,
    forall_eq] at hnone
  obtain ⟨hudp, hicmp, htcp⟩ := hnone
  simp [parseOpenTarget, openSchemes, hudp, hicmp, htcp]

/-- A text with a scheme never comes back as a TCP target with the scheme still on it. -/
theorem parseOpenTarget_ne_bare {target : String} {scheme : String × StreamKind}
    (hs : scheme ∈ openSchemes) (hp : scheme.1.toList <+: target.toList) :
    parseOpenTarget target ≠ (.tcp, target) := by
  -- Whichever scheme matches first, what is left of the text is shorter than the text.
  have hshort : ∀ pre rest : String, pre ≠ "" → target = pre ++ rest → rest ≠ target := by
    rintro pre rest hne htarget rfl
    have hlen := congrArg (fun s : String => s.toList.length) htarget
    simp only [String.toList_append, List.length_append] at hlen
    have hnil : pre.toList = [] := List.eq_nil_of_length_eq_zero (by omega)
    exact hne (String.toList_inj.mp (by simpa using hnil))
  intro hparse
  simp only [parseOpenTarget] at hparse
  generalize hf : openSchemes.findSome? _ = found at hparse
  cases found with
  | none =>
    rw [List.findSome?_eq_none_iff] at hf
    have hnone : stripPrefix target scheme.1 = none := by simpa using hf scheme hs
    exact stripPrefix_eq_none_iff.mp hnone hp
  | some r =>
    rw [Option.getD_some] at hparse
    obtain ⟨⟨pre, kind⟩, hmem, hr⟩ := List.exists_of_findSome?_eq_some hf
    obtain ⟨rest, hrest, rfl⟩ := Option.map_eq_some_iff.mp hr
    have hne : pre ≠ "" := by
      rintro rfl
      simp [openSchemes] at hmem
    exact hshort pre rest hne (stripPrefix_eq_some_iff.mp hrest) (Prod.mk.inj hparse).2

/-- **The `Open` round trip, exactly.** What the peer parses from the payload of an opened
stream is the kind and the target it was opened with, unless it is a TCP target that starts
with one of the scheme prefixes. -/
theorem parse_open_payload_iff (id : UInt32) (kind : StreamKind) (target : String) :
    parseOpenTarget (fromUtf8Lossy (openFrame id (openPayload kind target)).payload) =
        (kind, target) ↔
      (kind = .tcp → ∀ scheme ∈ openSchemes, ¬ scheme.1.toList <+: target.toList) := by
  simp only [openFrame, fromUtf8Lossy_utf8Bytes]
  cases kind with
  | udp => simp [openPayload, parseOpenTarget_udp]
  | icmp => simp [openPayload, parseOpenTarget_icmp]
  | tcp =>
    simp only [openPayload, forall_const]
    constructor
    · intro hparse scheme hs hp
      exact parseOpenTarget_ne_bare hs hp hparse
    · exact parseOpenTarget_bare

/-- A TCP stream to port 80 of a host named `udp` reaches the peer as a UDP association. -/
theorem tcp_host_named_udp_changes_kind :
    ¬ ∀ (id : UInt32) (kind : StreamKind) (target : String),
      parseOpenTarget (fromUtf8Lossy (openFrame id (openPayload kind target)).payload) =
        (kind, target) := by
  intro hall
  have h := hall 1 .tcp "udp:80"
  simp only [openFrame, fromUtf8Lossy_utf8Bytes, openPayload] at h
  rw [show ("udp:80" : String) = "udp:" ++ "80" from rfl, parseOpenTarget_udp] at h
  cases h

end Leshiy.Mux
