import Leshiy.Lib.Text
import Leshiy.Tls.Camouflage
import Leshiy.Tls.Ja

/-!
# How a ClientHello looks

`ClientHelloView` and the JA4 fingerprint of `leshiy-tls/src/ja.rs`: the lists a hello offers, and the
text that a reader of fingerprints makes of them. GREASE values are left out of that text, and suites and
extensions are sorted before they are hashed. (JA3, which keeps the order, is not modelled.)
-/

namespace Leshiy.Tls

open Leshiy.Lib Parse

structure ClientHelloView where
  legacyVersion : UInt16
  cipherSuites : List UInt16
  extensions : List UInt16
  supportedGroups : List UInt16
  ecPointFormats : Bytes
  sigAlgs : List UInt16
  alpn : List String
  hasSni : Bool
  supportedVersions : List UInt16
  deriving DecidableEq, Repr

/-! ## `ClientHelloView::parse` -/

def u16s : Nat → Parse (List UInt16)
  | 0 => return []
  | n + 1 => do
    let x ← u16
    let xs ← u16s n
    return x :: xs

def u8s : Nat → Parse Bytes
  | 0 => return []
  | n + 1 => do
    let x ← u8
    let xs ← u8s n
    return x :: xs

/-- The protocols, while a byte is left. Each round takes at least its length byte. -/
def readProtos : Nat → Parse (List String)
  | 0 => return []
  | fuel + 1 => do
    if 0 < (← get).remaining then
      let n ← u8
      let s ← take n.toNat
      let rest ← readProtos fuel
      return fromUtf8Lossy s :: rest
    else return []

/-- `supported_groups` and `signature_algorithms`. -/
def readU16List : Parse (List UInt16) := do
  let l ← u16
  u16s (l.toNat / 2)

def readEcPointFormats : Parse Bytes := do
  let l ← u8
  u8s l.toNat

/-- The length of the list is not looked at. -/
def readAlpn : Parse (List String) := do
  let _ ← u16
  readProtos (← get).remaining

def readSupportedVersions : Parse (List UInt16) := do
  let l ← u8
  u16s (l.toNat / 2)

/-- One extension: its type is noted, and a body that matters is read. -/
def onViewExtension (v : ClientHelloView) (etype : UInt16) (ebody : Bytes) :
    Except TlsError ClientHelloView :=
  let v := { v with extensions := v.extensions ++ [etype] }
  let q := Parser.new ebody
  if etype = 0x0000 then .ok { v with hasSni := true }
  else if etype = 0x000a then
    (readU16List.run' q).map fun xs => { v with supportedGroups := v.supportedGroups ++ xs }
  else if etype = 0x000b then
    (readEcPointFormats.run' q).map fun xs => { v with ecPointFormats := v.ecPointFormats ++ xs }
  else if etype = 0x000d then
    (readU16List.run' q).map fun xs => { v with sigAlgs := v.sigAlgs ++ xs }
  else if etype = 0x0010 then
    (readAlpn.run' q).map fun xs => { v with alpn := v.alpn ++ xs }
  else if etype = 0x002b then
    (readSupportedVersions.run' q).map fun xs =>
      { v with supportedVersions := v.supportedVersions ++ xs }
  else .ok v

/-- Lower case digits without leading zeros. -/
def lowerHex (n : Nat) : String := String.ofList (Nat.toDigits 16 n)

/-- The hello up to its extensions: the version and the suites. -/
def readOffer : Parse (UInt16 × List UInt16) := do
  let mt ← u8
  if mt ≠ 0x01 then throw (.malformed "clienthello" ("msg_type 0x" ++ lowerHex mt.toNat))
  let _ ← u24
  let legacyVersion ← u16
  skip 32
  let sid ← u8
  skip sid.toNat
  let csLen ← u16
  if csLen.toNat % 2 ≠ 0 then
    throw (.malformed "clienthello" ("odd cipher_suites length " ++ toString csLen.toNat))
  let cipherSuites ← u16s (csLen.toNat / 2)
  let comp ← u8
  skip comp.toNat
  return (legacyVersion, cipherSuites)

def ClientHelloView.parse (msg : Bytes) : Except TlsError ClientHelloView :=
  StateT.run' (do
    let (legacyVersion, cipherSuites) ← readOffer
    extensionsBlock onViewExtension ⟨legacyVersion, cipherSuites, [], [], [], [], [], false, []⟩)
    (Parser.new msg)

/-! ## JA4 -/

/-- Two decimal digits, or as many as it takes. -/
def dec2 (n : Nat) : String := if n < 10 then "0" ++ toString n else toString n

/-- Four hexadecimal digits. -/
def hex4 (x : UInt16) : String := hexEncode (beEncode 2 x.toNat)

def nonGrease (xs : List UInt16) : List UInt16 := xs.filter fun x => !isGrease x

/-- `sort_unstable` on `u16`. -/
def sortU16 (xs : List UInt16) : List UInt16 := xs.mergeSort fun a b => a ≤ b

def ja4Version (versions : List UInt16) : String :=
  match (nonGrease versions).max? with
  | some 0x0304 => "13"
  | some 0x0303 => "12"
  | some 0x0302 => "11"
  | some 0x0301 => "10"
  | _ => "12"

/-- The first and the last byte of the first protocol, each as a character. -/
def ja4Alpn (alpn : List String) : String :=
  match alpn.head? with
  | none => "00"
  | some a =>
    let b := utf8Bytes a
    let char (o : Option UInt8) := (o.map fun c => Char.ofNat c.toNat).getD '0'
    String.ofList [char b.head?, char b.getLast?]

namespace ClientHelloView

def ja4PartA (v : ClientHelloView) : String :=
  let sni := if v.hasSni then "d" else "i"
  "t" ++ ja4Version v.supportedVersions ++ sni ++ dec2 (nonGrease v.cipherSuites).length ++
    dec2 (nonGrease v.extensions).length ++ ja4Alpn v.alpn

def ja4Ciphers (v : ClientHelloView) : String :=
  ",".intercalate ((sortU16 (nonGrease v.cipherSuites)).map hex4)

/-- The name and the protocols are left out. -/
def ja4Exts (v : ClientHelloView) : String :=
  let exts := v.extensions.filter fun x => !isGrease x && x != 0x0000 && x != 0x0010
  ",".intercalate ((sortU16 exts).map hex4)

/-- In the order of the hello. -/
def ja4SigAlgs (v : ClientHelloView) : String := ",".intercalate ((nonGrease v.sigAlgs).map hex4)

def ja4 (sha256 : HashSuite 32) (v : ClientHelloView) : String :=
  let short (s : String) := hexEncode ((sha256.digest (utf8Bytes s)).1.take 6)
  let cInput := if v.ja4SigAlgs = "" then v.ja4Exts else v.ja4Exts ++ "_" ++ v.ja4SigAlgs
  v.ja4PartA ++ "_" ++ short v.ja4Ciphers ++ "_" ++ short cInput

/-- The same without hashing. -/
def ja4R (v : ClientHelloView) : String :=
  v.ja4PartA ++ "_" ++ v.ja4Ciphers ++ "_" ++ v.ja4Exts ++ "_" ++ v.ja4SigAlgs

/-- Two views that a reader of fingerprints does not tell apart: they may differ in their GREASE values
and in the order of the extensions. -/
structure Alike (v v' : ClientHelloView) : Prop where
  cipherSuites : nonGrease v.cipherSuites = nonGrease v'.cipherSuites
  extensions : (nonGrease v.extensions).Perm (nonGrease v'.extensions)
  sigAlgs : nonGrease v.sigAlgs = nonGrease v'.sigAlgs
  alpn : v.alpn = v'.alpn
  hasSni : v.hasSni = v'.hasSni
  supportedVersions : nonGrease v.supportedVersions = nonGrease v'.supportedVersions

end ClientHelloView

/-- A sorted list does not remember its order. -/
theorem sortU16_congr {xs ys : List UInt16} (h : xs.Perm ys) : sortU16 xs = sortU16 ys := by
  have hsorted : ∀ zs : List UInt16, (sortU16 zs).Pairwise fun a b => a ≤ b := by
    intro zs
    have htrans : ∀ a b c : UInt16, decide (a ≤ b) → decide (b ≤ c) → decide (a ≤ c) := by
      intro a b c hab hbc
      exact decide_eq_true (UInt16.le_trans (of_decide_eq_true hab) (of_decide_eq_true hbc))
    have htotal : ∀ a b : UInt16, decide (a ≤ b) || decide (b ≤ a) := by
      intro a b
      rcases UInt16.le_total a b with hab | hba
      · simp [hab]
      · simp [hba]
    exact (List.pairwise_mergeSort htrans htotal zs).imp fun hab => of_decide_eq_true hab
  have hperm : (sortU16 xs).Perm (sortU16 ys) :=
    (List.mergeSort_perm xs _).trans (h.trans (List.mergeSort_perm ys _).symm)
  exact hperm.eq_of_pairwise (fun a b _ _ hab hba => UInt16.le_antisymm hab hba) (hsorted xs)
    (hsorted ys)

/-- A list is sorted by any sorted arrangement of it. -/
theorem sortU16_eq {xs ys : List UInt16} (hperm : xs.Perm ys)
    (hsorted : ys.Pairwise fun a b => a ≤ b) : sortU16 xs = ys := by
  rw [sortU16_congr hperm]
  exact List.mergeSort_of_pairwise (hsorted.imp fun hab => decide_eq_true hab)

namespace ClientHelloView

variable {v v' : ClientHelloView}

theorem Alike.ja4PartA_eq (h : v.Alike v') : v.ja4PartA = v'.ja4PartA := by
  have hversion : ja4Version v.supportedVersions = ja4Version v'.supportedVersions := by
    rw [ja4Version, ja4Version, h.supportedVersions]
  rw [ja4PartA, ja4PartA, hversion, h.hasSni, h.cipherSuites, h.extensions.length_eq, h.alpn]

theorem Alike.ja4Ciphers_eq (h : v.Alike v') : v.ja4Ciphers = v'.ja4Ciphers := by
  rw [ja4Ciphers, ja4Ciphers, h.cipherSuites]

theorem Alike.ja4Exts_eq (h : v.Alike v') : v.ja4Exts = v'.ja4Exts := by
  have hfilter : ∀ xs : List UInt16, (xs.filter fun x => !isGrease x && x != 0x0000 && x != 0x0010) =
      (nonGrease xs).filter fun x => x != 0x0000 && x != 0x0010 := by
    intro xs
    rw [nonGrease, List.filter_filter]
    congr 1
    funext x
    cases isGrease x <;> simp
  simp only [ja4Exts, hfilter]
  rw [sortU16_congr (h.extensions.filter _)]

theorem Alike.ja4SigAlgs_eq (h : v.Alike v') : v.ja4SigAlgs = v'.ja4SigAlgs := by
  rw [ja4SigAlgs, ja4SigAlgs, h.sigAlgs]

/-- **Views that look alike have one JA4.** -/
theorem Alike.ja4_eq (h : v.Alike v') (sha256 : HashSuite 32) : v.ja4 sha256 = v'.ja4 sha256 := by
  rw [ja4, ja4, h.ja4PartA_eq, h.ja4Ciphers_eq, h.ja4Exts_eq, h.ja4SigAlgs_eq]

theorem Alike.ja4R_eq (h : v.Alike v') : v.ja4R = v'.ja4R := by
  rw [ja4R, ja4R, h.ja4PartA_eq, h.ja4Ciphers_eq, h.ja4Exts_eq, h.ja4SigAlgs_eq]

end ClientHelloView

end Leshiy.Tls
