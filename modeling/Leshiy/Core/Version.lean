import Leshiy.Core.Frame

/-!
# Version and capability negotiation

`leshiy-core/src/version.rs`. Each side sends one HELLO and computes the outcome from its own
HELLO and the peer's; nothing is echoed back.
-/

namespace Leshiy

open Leshiy.Lib

/-- `leshiy-core/src/error.rs`, the variants the modelled code returns. -/
inductive Error where
  | protocol (detail : String)
  | frameTooLarge (len : Nat)
  | version (detail : String)
  | closed
  deriving DecidableEq, Repr

def CAP_DATAGRAM : UInt64 := (1 : UInt64) <<< 0
def CAP_KEEPALIVE : UInt64 := (1 : UInt64) <<< 1
def CAP_FLOWCONTROL : UInt64 := (1 : UInt64) <<< 2
def CAP_ICMP : UInt64 := (1 : UInt64) <<< 3
def CAP_IDLE_TOLERANCE : UInt64 := (1 : UInt64) <<< 4

def DEFAULT_IDLE_TOLERANCE : UInt32 := 45
def MAX_IDLE_TOLERANCE : UInt32 := 900
def MIN_IDLE_TOLERANCE : UInt32 := 15

/-- `u32::clamp`. -/
def clampIdleTolerance (requested : UInt32) : UInt32 :=
  if requested < MIN_IDLE_TOLERANCE then MIN_IDLE_TOLERANCE
  else if MAX_IDLE_TOLERANCE < requested then MAX_IDLE_TOLERANCE
  else requested

structure Hello where
  version : UInt16
  minSupported : UInt16
  capabilities : UInt64
  idleTolerance : UInt32
  deriving DecidableEq, Repr

structure Negotiated where
  version : UInt16
  capabilities : UInt64
  localIdleTolerance : UInt32
  peerIdleTolerance : UInt32
  deriving DecidableEq, Repr

namespace Hello

/-- A hello for an always-awake peer. -/
def new (version minSupported : UInt16) (capabilities : UInt64) : Hello :=
  ⟨version, minSupported, capabilities, DEFAULT_IDLE_TOLERANCE⟩

def encode (h : Hello) : Bytes :=
  beEncode 2 h.version.toNat ++ beEncode 2 h.minSupported.toNat ++
    beEncode 8 h.capabilities.toNat ++ beEncode 4 h.idleTolerance.toNat

/-- Only the first 12 bytes are required; the tolerance is read when it is there. -/
def decode (b : Bytes) : Except Error Hello :=
  if b.length < 12 then .error (.version "short HELLO")
  else .ok {
    version := UInt16.ofNat (beDecode (b.take 2))
    minSupported := UInt16.ofNat (beDecode ((b.drop 2).take 2))
    capabilities := UInt64.ofNat (beDecode ((b.drop 4).take 8))
    idleTolerance :=
      if 16 ≤ b.length then UInt32.ofNat (beDecode ((b.drop 12).take 4))
      else DEFAULT_IDLE_TOLERANCE }

end Hello

/-- The text of the version mismatch error. -/
def noCommonVersion (l p : Hello) : String :=
  "no common version (local " ++ toString l.minSupported ++ "..=" ++ toString l.version ++
    ", peer " ++ toString p.minSupported ++ "..=" ++ toString p.version ++ ")"

/-- The effective version is the smaller maximum, valid if it reaches both minima. -/
def negotiate (l p : Hello) : Except Error Negotiated :=
  let version := min l.version p.version
  if version < l.minSupported ∨ version < p.minSupported then
    .error (.version (noCommonVersion l p))
  else
    let capabilities := l.capabilities &&& p.capabilities
    let honoured := capabilities &&& CAP_IDLE_TOLERANCE != 0
    .ok {
      version
      capabilities
      localIdleTolerance :=
        if honoured then clampIdleTolerance p.idleTolerance else DEFAULT_IDLE_TOLERANCE
      peerIdleTolerance :=
        if honoured then clampIdleTolerance l.idleTolerance else DEFAULT_IDLE_TOLERANCE }

/-- **A hello is read back from its own encoding.** -/
theorem Hello.decode_encode (h : Hello) : Hello.decode h.encode = .ok h := by
  have hv : h.version.toNat < 256 ^ 2 := h.version.toNat_lt
  have hm : h.minSupported.toNat < 256 ^ 2 := h.minSupported.toNat_lt
  have hc : h.capabilities.toNat < 256 ^ 8 := h.capabilities.toNat_lt
  have hi : h.idleTolerance.toNat < 256 ^ 4 := h.idleTolerance.toNat_lt
  have hlen : h.encode.length = 16 := by simp [encode]
  have h0 : h.encode.take 2 = beEncode 2 h.version.toNat := by
    simp [encode]
  have h2 : (h.encode.drop 2).take 2 = beEncode 2 h.minSupported.toNat := by
    simp [encode]
  have h4 : (h.encode.drop 4).take 8 = beEncode 8 h.capabilities.toNat := by
    simp [encode, List.drop_append, List.take_append]
  have h12 : (h.encode.drop 12).take 4 = beEncode 4 h.idleTolerance.toNat := by
    simp [encode, List.drop_append, List.drop_of_length_le, List.take_of_length_le]
  rw [decode, if_neg (by omega), h0, h2, h4, h12, if_pos (by omega), beDecode_beEncode hv,
    beDecode_beEncode hm, beDecode_beEncode hc, beDecode_beEncode hi]
  simp

/-- **Bytes after the first sixteen are ignored.** -/
theorem Hello.decode_take (b : Bytes) : Hello.decode b = Hello.decode (b.take 16) := by
  by_cases h12 : b.length < 12
  · rw [List.take_of_length_le (by omega)]
  · by_cases h16 : 16 ≤ b.length
    · have hlen : (b.take 16).length = 16 := by simp [h16]
      have h12' : ¬ (b.take 16).length < 12 := by omega
      have h16' : 16 ≤ (b.take 16).length := by omega
      simp only [decode, if_neg h12, if_neg h12', if_pos h16, if_pos h16']
      simp [List.drop_take, List.take_take]
    · rw [List.take_of_length_le (by omega)]

/-- **Without the four bytes of the tolerance the default is filled in.** -/
theorem Hello.decode_legacy (h : Hello) (tail : Bytes) (ht : tail.length < 4) :
    Hello.decode (h.encode.take 12 ++ tail) =
      .ok { h with idleTolerance := DEFAULT_IDLE_TOLERANCE } := by
  have hlen : h.encode.length = 16 := by simp [encode]
  have hlen' : (h.encode.take 12 ++ tail).length = 12 + tail.length := by simp [hlen]
  -- the three required fields are those of the full encoding
  have hfull := Hello.decode_encode h
  rw [decode, if_neg (by omega), if_pos (by omega)] at hfull
  have hf := Except.ok.inj hfull
  rw [decode, if_neg (by omega), if_neg (by omega)]
  have h0 : (h.encode.take 12 ++ tail).take 2 = h.encode.take 2 := by
    simp [List.take_append, List.take_take, hlen]
  have h2 : ((h.encode.take 12 ++ tail).drop 2).take 2 = (h.encode.drop 2).take 2 := by
    simp [List.take_append, List.drop_append, List.drop_take, List.take_take, hlen]
  have h4 : ((h.encode.take 12 ++ tail).drop 4).take 8 = (h.encode.drop 4).take 8 := by
    simp [List.drop_append, List.drop_take, hlen]
  rw [h0, h2, h4]
  exact congrArg (fun x : Hello => Except.ok { x with idleTolerance := DEFAULT_IDLE_TOLERANCE }) hf

theorem clampIdleTolerance_bounds (requested : UInt32) :
    MIN_IDLE_TOLERANCE ≤ clampIdleTolerance requested ∧
      clampIdleTolerance requested ≤ MAX_IDLE_TOLERANCE := by
  rw [clampIdleTolerance]
  by_cases hlo : requested < MIN_IDLE_TOLERANCE
  · rw [if_pos hlo]
    exact ⟨by decide, by decide⟩
  · by_cases hhi : MAX_IDLE_TOLERANCE < requested
    · rw [if_neg hlo, if_pos hhi]
      exact ⟨by decide, by decide⟩
    · rw [if_neg hlo, if_neg hhi]
      exact ⟨UInt32.not_lt.mp hlo, UInt32.not_lt.mp hhi⟩

theorem negotiate_capabilities {l p : Hello} {n : Negotiated} (h : negotiate l p = .ok n) :
    n.capabilities = l.capabilities &&& p.capabilities := by
  simp only [negotiate] at h
  split at h
  · cases h
  · cases h
    rfl

/-- **Both sides compute the same capabilities** from the two hellos they exchange. -/
theorem negotiate_capabilities_comm {a b : Hello} {n m : Negotiated}
    (h : negotiate a b = .ok n) (h' : negotiate b a = .ok m) :
    n.capabilities = m.capabilities := by
  rw [negotiate_capabilities h, negotiate_capabilities h', UInt64.and_comm]

/-- The peer computes from the same two hellos with the arguments swapped. -/
theorem negotiate_swap {a b : Hello} {n : Negotiated} (h : negotiate a b = .ok n) :
    negotiate b a = .ok { n with
      localIdleTolerance := n.peerIdleTolerance
      peerIdleTolerance := n.localIdleTolerance } := by
  have hmin : min b.version a.version = min a.version b.version := Std.Commutative.comm _ _
  simp only [negotiate] at h ⊢
  rw [hmin, UInt64.and_comm b.capabilities]
  split at h
  · cases h
  · cases h
    rename_i hv
    rw [if_neg (fun hv' => hv hv'.symm)]

/-- **A negotiated tolerance is the clamped request of the side it belongs to, or the default.** -/
theorem negotiate_tolerance {a b : Hello} {n : Negotiated} (h : negotiate a b = .ok n) :
    (n.capabilities &&& CAP_IDLE_TOLERANCE ≠ 0 ∧
        n.localIdleTolerance = clampIdleTolerance b.idleTolerance ∧
        n.peerIdleTolerance = clampIdleTolerance a.idleTolerance) ∨
      (n.capabilities &&& CAP_IDLE_TOLERANCE = 0 ∧
        n.localIdleTolerance = DEFAULT_IDLE_TOLERANCE ∧
        n.peerIdleTolerance = DEFAULT_IDLE_TOLERANCE) := by
  simp only [negotiate] at h
  split at h
  · cases h
  · cases h
    by_cases hc : a.capabilities &&& b.capabilities &&& CAP_IDLE_TOLERANCE = 0
    · exact .inr ⟨hc, by simp [hc], by simp [hc]⟩
    · exact .inl ⟨hc, by simp [hc], by simp [hc]⟩

/-- **The two ends agree on what they negotiated.** A hello survives the wire, also in front of
the bytes of a newer peer, and the legacy form of it means the default tolerance. The two ends
either both fail or both reach the same version and capabilities; the tolerance one end applies
to its peer is the one the peer counts on. -/
theorem negotiate_agreement (a b : Hello) :
    (Hello.decode a.encode = .ok a ∧
      (∀ rest, Hello.decode (a.encode ++ rest) = .ok a) ∧
      (∀ bytes, Hello.decode bytes = Hello.decode (bytes.take 16)) ∧
      Hello.decode (a.encode.take 12) =
        .ok { a with idleTolerance := DEFAULT_IDLE_TOLERANCE }) ∧
    ((∃ e e', negotiate a b = .error e ∧ negotiate b a = .error e') ∨
      ∃ n m, negotiate a b = .ok n ∧ negotiate b a = .ok m ∧
        n.version = m.version ∧ n.capabilities = m.capabilities ∧
        ((n.capabilities &&& CAP_IDLE_TOLERANCE ≠ 0 ∧
            n.localIdleTolerance = m.peerIdleTolerance ∧
            n.peerIdleTolerance = m.localIdleTolerance ∧
            (MIN_IDLE_TOLERANCE ≤ n.localIdleTolerance ∧
              n.localIdleTolerance ≤ MAX_IDLE_TOLERANCE) ∧
            MIN_IDLE_TOLERANCE ≤ n.peerIdleTolerance ∧
              n.peerIdleTolerance ≤ MAX_IDLE_TOLERANCE) ∨
          (n.capabilities &&& CAP_IDLE_TOLERANCE = 0 ∧
            (n.localIdleTolerance = DEFAULT_IDLE_TOLERANCE ∧
              n.peerIdleTolerance = DEFAULT_IDLE_TOLERANCE) ∧
            m.localIdleTolerance = DEFAULT_IDLE_TOLERANCE ∧
              m.peerIdleTolerance = DEFAULT_IDLE_TOLERANCE))) := by
  have hdec := Hello.decode_encode a
  refine ⟨⟨hdec, fun rest => ?_, Hello.decode_take, ?_⟩, ?_⟩
  · have hlen : a.encode.length = 16 := by simp [Hello.encode]
    rw [Hello.decode_take, List.take_append_of_le_length (by omega),
      List.take_of_length_le (by omega), hdec]
  · simpa using Hello.decode_legacy a [] (by simp)
  · cases hn : negotiate a b with
    | error e =>
      -- the peer cannot succeed either, since its outcome would be ours mirrored
      cases hm : negotiate b a with
      | error e' => exact .inl ⟨e, e', rfl, rfl⟩
      | ok m =>
        rw [negotiate_swap hm] at hn
        cases hn
    | ok n =>
      refine .inr ⟨n, _, rfl, negotiate_swap hn, rfl, rfl, ?_⟩
      rcases negotiate_tolerance hn with ⟨hc, hl, hp⟩ | ⟨hc, hl, hp⟩
      · refine .inl ⟨hc, rfl, rfl, ?_, ?_⟩
        · rw [hl]
          exact clampIdleTolerance_bounds _
        · rw [hp]
          exact clampIdleTolerance_bounds _
      · exact .inr ⟨hc, ⟨hl, hp⟩, hp, hl⟩

end Leshiy
