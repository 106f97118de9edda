import Mathlib.Algebra.BigOperators.Group.List.Basic
import Leshiy.Core.Frame
import Leshiy.Lib.Crypto
import Leshiy.Lib.Utf8

/-!
# Reading a ClientHello

`leshiy-tls/src/ja.rs`: the bounds-checked `Parser` and `extract_client_hello_fields`, which
pulls out of a ClientHello what REALITY needs. (`ClientHelloView`, which describes a hello to a
reader of fingerprints, is in `Leshiy.Tls.View`.)

A reader of one well-formed part leaves the parser at the next part: each operation has one
lemma about the bytes it stands before (`rest`), and a hello is read by chaining them.
-/

namespace Leshiy.Tls

open Leshiy.Lib

/-- `leshiy-tls/src/error.rs`, the variants the modelled code returns. -/
inductive TlsError where
  | truncated (need avail : Nat)
  | malformed (what detail : String)
  deriving DecidableEq, Repr

/-! ## The parser -/

structure Parser where
  buf : Bytes
  pos : Nat

namespace Parser

def new (buf : Bytes) : Parser := ⟨buf, 0⟩

def remaining (p : Parser) : Nat := p.buf.length - p.pos

/-- What has not been read. -/
def rest (p : Parser) : Bytes := p.buf.drop p.pos

def advance (p : Parser) (n : Nat) : Parser := { p with pos := p.pos + n }

@[simp] theorem pos_advance (p : Parser) (n : Nat) : (p.advance n).pos = p.pos + n := rfl

@[simp] theorem buf_advance (p : Parser) (n : Nat) : (p.advance n).buf = p.buf := rfl

@[simp] theorem rest_new (buf : Bytes) : (new buf).rest = buf := rfl

theorem remaining_eq (p : Parser) : p.remaining = p.rest.length := by
  rw [remaining, rest, List.length_drop]

theorem rest_advance {p : Parser} {xs ys : Bytes} {n : Nat} (h : p.rest = xs ++ ys)
    (hn : xs.length = n) : (p.advance n).rest = ys := by
  subst hn
  have hdrop : (p.advance xs.length).rest = p.rest.drop xs.length := by
    simp [rest, List.drop_drop]
  rw [hdrop, h, List.drop_left]

end Parser

/-- A reading step: it fails, or gives a value and leaves the parser behind it. -/
abbrev Parse := StateT Parser (Except TlsError)

namespace Parse

variable {α β : Type} {p p' : Parser}

theorem run_bind {x : Parse α} {f : α → Parse β} {a : α} (h : x.run p = .ok (a, p')) :
    (x >>= f).run p = (f a).run p' := by
  rw [StateT.run_bind, h]
  rfl

theorem run_get {f : Parser → Parse β} : ((get : Parse Parser) >>= f).run p = (f p).run p := rfl

theorem run'_get {f : Parser → Parse β} :
    ((get : Parse Parser) >>= f).run' p = (f p).run' p := rfl

/-- A sequence that succeeds, taken apart. -/
theorem bind_eq_ok {x : Parse α} {f : α → Parse β} {b : β}
    (h : (x >>= f).run p = .ok (b, p')) :
    ∃ a p₁, x.run p = .ok (a, p₁) ∧ (f a).run p₁ = .ok (b, p') := by
  rw [StateT.run_bind] at h
  cases hx : x.run p with
  | error err =>
    rw [hx] at h
    cases h
  | ok r =>
    rw [hx] at h
    exact ⟨r.1, r.2, rfl, h⟩

/-- The value of a step, without the parser behind it. -/
theorem run'_eq {x : Parse α} {a : α} (h : x.run p = .ok (a, p')) : x.run' p = .ok a := by
  rw [StateT.run'_eq, h]
  rfl

theorem run'_bind {x : Parse α} {f : α → Parse β} {a : α} (h : x.run p = .ok (a, p')) :
    (x >>= f).run' p = (f a).run' p' := by
  rw [StateT.run'_eq, run_bind h, StateT.run'_eq]

theorem of_run'_eq {x : Parse α} {a : α} (h : x.run' p = .ok a) :
    ∃ p', x.run p = .ok (a, p') := by
  rw [StateT.run'_eq] at h
  cases hx : x.run p with
  | error err =>
    rw [hx] at h
    cases h
  | ok r =>
    rw [hx] at h
    cases h
    exact ⟨r.2, rfl⟩

theorem pure_eq_ok {a b : α} (h : (pure a : Parse α).run p = .ok (b, p')) : b = a ∧ p' = p := by
  cases h
  exact ⟨rfl, rfl⟩

def take (n : Nat) : Parse Bytes := do
  let p ← get
  if p.remaining < n then throw (.truncated n p.remaining)
  set (p.advance n)
  return p.rest.take n

def skip (n : Nat) : Parse Unit := do
  let _ ← take n
  return ()

def u8 : Parse UInt8 := do
  let b ← take 1
  return UInt8.ofNat (beDecode b)

def u16 : Parse UInt16 := do
  let b ← take 2
  return UInt16.ofNat (beDecode b)

def u24 : Parse UInt32 := do
  let b ← take 3
  return UInt32.ofNat (beDecode b)

variable {xs ys : Bytes} {n : Nat}

theorem run_take (n : Nat) (p : Parser) : (take n).run p =
    if p.remaining < n then .error (.truncated n p.remaining)
    else .ok (p.rest.take n, p.advance n) := by
  unfold take
  split
  · next h =>
    simp [h]
    rfl
  · next h =>
    simp [h]
    rfl

theorem take_run (h : p.rest = xs ++ ys) (hn : xs.length = n) :
    (take n).run p = .ok (xs, p.advance n) := by
  have hle : ¬ p.remaining < n := by
    rw [Parser.remaining_eq, h, List.length_append]
    omega
  rw [run_take, if_neg hle, h, List.take_left' hn]

theorem skip_run (h : p.rest = xs ++ ys) (hn : xs.length = n) :
    (skip n).run p = .ok ((), p.advance n) := by
  rw [skip, run_bind (take_run h hn)]
  rfl

theorem u8_run {b : UInt8} (h : p.rest = b :: ys) : u8.run p = .ok (b, p.advance 1) := by
  have hb : UInt8.ofNat (beDecode [b]) = b := by simp [beDecode]
  have htake : (take 1).run p = .ok ([b], p.advance 1) := take_run h rfl
  rw [u8, run_bind htake, hb]
  rfl

theorem u16_beDecode_beEncode (v : UInt16) : UInt16.ofNat (beDecode (beEncode 2 v.toNat)) = v := by
  have hlt : v.toNat < 256 ^ 2 := v.toNat_lt
  rw [beDecode_beEncode hlt, UInt16.ofNat_toNat]

theorem u16_run {v : UInt16} (h : p.rest = beEncode 2 v.toNat ++ ys) :
    u16.run p = .ok (v, p.advance 2) := by
  rw [u16, run_bind (take_run h (length_beEncode 2 _)), u16_beDecode_beEncode]
  rfl

theorem u24_run (h : p.rest = beEncode 3 n ++ ys) :
    ∃ v, u24.run p = .ok (v, p.advance 3) := by
  rw [u24, run_bind (take_run h (length_beEncode 3 _))]
  exact ⟨_, rfl⟩

/-- What a successful read says about the bytes. -/
theorem take_eq_ok {b : Bytes} (h : (take n).run p = .ok (b, p')) :
    p.rest = b ++ p'.rest ∧ b.length = n ∧ p' = p.advance n := by
  rw [run_take] at h
  split at h
  · cases h
  · next hle =>
    cases h
    rw [Parser.remaining_eq] at hle
    have hlen : (p.rest.take n).length = n := by
      rw [List.length_take]
      omega
    have hsplit : p.rest = p.rest.take n ++ p.rest.drop n := (List.take_append_drop n _).symm
    exact ⟨by rw [Parser.rest_advance hsplit hlen, ← hsplit], hlen, rfl⟩

theorem u8_eq_ok {b : UInt8} (h : u8.run p = .ok (b, p')) : p.rest = b :: p'.rest := by
  obtain ⟨c, p₁, htake, hret⟩ := bind_eq_ok h
  obtain ⟨hrest, hlen, -⟩ := take_eq_ok htake
  obtain ⟨x, rfl⟩ := List.length_eq_one_iff.mp hlen
  have hx : UInt8.ofNat (beDecode [x]) = x := by simp [beDecode]
  rw [hx] at hret
  cases hret
  exact hrest

theorem u16_eq_ok {v : UInt16} (h : u16.run p = .ok (v, p')) :
    ∃ b, p.rest = b ++ p'.rest ∧ b.length = 2 := by
  obtain ⟨b, p₁, htake, hret⟩ := bind_eq_ok h
  cases hret
  obtain ⟨hrest, hlen, -⟩ := take_eq_ok htake
  exact ⟨b, hrest, hlen⟩

theorem u24_eq_ok {v : UInt32} (h : u24.run p = .ok (v, p')) :
    ∃ b, p.rest = b ++ p'.rest ∧ b.length = 3 := by
  obtain ⟨b, p₁, htake, hret⟩ := bind_eq_ok h
  cases hret
  obtain ⟨hrest, hlen, -⟩ := take_eq_ok htake
  exact ⟨b, hrest, hlen⟩

end Parse

/-! ## `extract_client_hello_fields` -/

/-- ML-KEM-768 client share of the 0x11ec key share entry: `ek` and the x25519 part. -/
structure MlKemClientShare where
  ek : Bytes
  x25519 : Block 32
  deriving DecidableEq

structure ClientHelloFields where
  random : Block 32
  sessionId : Bytes
  keyShareX25519 : Option (Block 32)
  keyShareMlkem : Option MlKemClientShare
  sni : Option String
  deriving DecidableEq

/-- What the extensions have given so far. -/
structure Found where
  keyShareX25519 : Option (Block 32) := none
  keyShareMlkem : Option MlKemClientShare := none
  sni : Option String := none
  deriving DecidableEq

open Parse

/-- One entry of the key share list. Entries of other groups or lengths are passed over. -/
def onShare (acc : Found) (group : UInt16) (key : Bytes) : Found :=
  if group = 0x001d ∧ key.length = 32 then
    { acc with keyShareX25519 := some (Block.ofList 32 key) }
  else if group = 0x11ec ∧ key.length = 1216 then
    { acc with keyShareMlkem := some ⟨key.take 1184, Block.ofList 32 (key.drop 1184)⟩ }
  else acc

/-- The entries of a key share list, while a header of four bytes is left. Each round takes at
least these four, so the bytes of the list are fuel enough. -/
def readShares : Nat → Found → Parse Found
  | 0, acc => return acc
  | fuel + 1, acc => do
    if 4 ≤ (← get).remaining then
      let group ← u16
      let klen ← u16
      let key ← take klen.toNat
      readShares fuel (onShare acc group key)
    else return acc

/-- `server_name`: list length, entry type, name length, name. -/
def readServerName (acc : Found) : Parse Found := do
  let _ ← u16
  let _ ← u8
  let nlen ← u16
  let name ← take nlen.toNat
  return { acc with sni := some (fromUtf8Lossy name) }

/-- `key_share`: list length, entries. -/
def readKeyShare (acc : Found) : Parse Found := do
  let _ ← u16
  readShares (← get).remaining acc

/-- One extension. Only `server_name` and `key_share` are looked into. -/
def onExtension (acc : Found) (etype : UInt16) (ebody : Bytes) : Except TlsError Found :=
  if etype = 0x0000 then (readServerName acc).run' (Parser.new ebody)
  else if etype = 0x0033 then (readKeyShare acc).run' (Parser.new ebody)
  else .ok acc

/-- The extensions up to `endPos`. Each round takes at least the header of four bytes. -/
def readExtensions (endPos : Nat) : Nat → Found → Parse Found
  | 0, acc => return acc
  | fuel + 1, acc => do
    let p ← get
    if p.pos < endPos then
      if endPos - p.pos < 4 then
        throw (.malformed "clienthello" "extension header overruns extensions block")
      let etype ← u16
      let elen ← u16
      if endPos < (← get).pos + elen.toNat then
        throw (.malformed "clienthello" "extension body overruns extensions block")
      let ebody ← take elen.toNat
      match onExtension acc etype ebody with
      | .error err => throw err
      | .ok acc => readExtensions endPos fuel acc
    else return acc

/-- The extensions block, if there is one. -/
def readFound : Parse Found := do
  if 2 ≤ (← get).remaining then
    let extTotal ← u16
    let p ← get
    let endPos := p.pos + extTotal.toNat
    if p.buf.length < endPos then throw (.truncated endPos p.buf.length)
    readExtensions endPos extTotal.toNat {}
  else return {}

section

variable {σ : Type} (on : σ → UInt16 → Bytes → Except TlsError σ)

/-- The walk over the extensions with any reader of the single one. The source has the loop twice,
in `extract_client_hello_fields` and in `ClientHelloView::parse`. -/
def walkExtensions (endPos : Nat) : Nat → σ → Parse σ
  | 0, acc => return acc
  | fuel + 1, acc => do
    let p ← get
    if p.pos < endPos then
      if endPos - p.pos < 4 then
        throw (.malformed "clienthello" "extension header overruns extensions block")
      let etype ← u16
      let elen ← u16
      if endPos < (← get).pos + elen.toNat then
        throw (.malformed "clienthello" "extension body overruns extensions block")
      let ebody ← take elen.toNat
      match on acc etype ebody with
      | .error err => throw err
      | .ok acc => walkExtensions endPos fuel acc
    else return acc

/-- The block around the walk. -/
def extensionsBlock (acc : σ) : Parse σ := do
  if 2 ≤ (← get).remaining then
    let extTotal ← u16
    let p ← get
    let endPos := p.pos + extTotal.toNat
    if p.buf.length < endPos then throw (.truncated endPos p.buf.length)
    walkExtensions on endPos extTotal.toNat acc
  else return acc

end

theorem readExtensions_eq_walk (endPos : Nat) : ∀ (fuel : Nat) (acc : Found),
    readExtensions endPos fuel acc = walkExtensions onExtension endPos fuel acc
  | 0, _ => rfl
  | fuel + 1, acc => by
    unfold readExtensions walkExtensions
    simp only [readExtensions_eq_walk endPos fuel]
    refine bind_congr fun p => ?_
    split
    · split
      · rfl
      · refine bind_congr fun etype => bind_congr fun elen => bind_congr fun q => ?_
        split
        · rfl
        · refine bind_congr fun ebody => ?_
          cases onExtension acc etype ebody with
          | error err => rfl
          | ok acc' => rfl
    · rfl

theorem readFound_eq_block : readFound = extensionsBlock onExtension {} := by
  unfold readFound extensionsBlock
  simp only [readExtensions_eq_walk]

/-- The hello up to its session id. -/
def readHead : Parse (Block 32 × Bytes) := do
  let mt ← u8
  if mt ≠ 0x01 then throw (.malformed "clienthello" "not ClientHello")
  let _ ← u24
  let _ ← u16
  let random ← take 32
  let sidLen ← u8
  let sessionId ← take sidLen.toNat
  return (Block.ofList 32 random, sessionId)

/-- Cipher suites and compression methods are passed over. -/
def skipSuites : Parse Unit := do
  let csLen ← u16
  skip csLen.toNat
  let comp ← u8
  skip comp.toNat

def extractClientHelloFields (msg : Bytes) : Except TlsError ClientHelloFields :=
  StateT.run' (do
    let (random, sessionId) ← readHead
    skipSuites
    let found ← readFound
    return ⟨random, sessionId, found.keyShareX25519, found.keyShareMlkem, found.sni⟩)
    (Parser.new msg)

/-! ## Reading what was written -/

/-- A tagged entry with its length, as key shares and extensions are written. -/
def encodeEntry (e : UInt16 × Bytes) : Bytes :=
  beEncode 2 e.1.toNat ++ (beEncode 2 e.2.length ++ e.2)

theorem length_encodeEntry (e : UInt16 × Bytes) : (encodeEntry e).length = 4 + e.2.length := by
  simp [encodeEntry]
  omega

/-- An entry whose length fits its field. -/
def Fits (e : UInt16 × Bytes) : Prop := e.2.length < 2 ^ 16

section

variable {p p' : Parser} {ys : Bytes} {acc acc' : Found}

theorem u16_run_nat {n : Nat} (hn : n < 2 ^ 16) (h : p.rest = beEncode 2 n ++ ys) :
    u16.run p = .ok (UInt16.ofNat n, p.advance 2) ∧ (UInt16.ofNat n).toNat = n := by
  have hv : (UInt16.ofNat n).toNat = n := by
    rw [UInt16.toNat_ofNat']
    exact Nat.mod_eq_of_lt hn
  rw [← hv] at h
  exact ⟨u16_run h, hv⟩

/-- **A key share list is read entry by entry.** -/
theorem readShares_run : ∀ (entries : List (UInt16 × Bytes)) (fuel : Nat) (acc : Found)
    (p : Parser), (∀ e ∈ entries, Fits e) → p.rest = entries.flatMap encodeEntry →
    entries.length ≤ fuel → ∃ p', (readShares fuel acc).run p =
      .ok (entries.foldl (fun acc e => onShare acc e.1 e.2) acc, p')
  | [], fuel, acc, p, _, hrest, _ => by
    have hrem : ¬ 4 ≤ p.remaining := by
      rw [Parser.remaining_eq, hrest]
      simp
    cases fuel with
    | zero => exact ⟨p, rfl⟩
    | succ fuel =>
      refine ⟨p, ?_⟩
      rw [readShares, Parse.run_get, if_neg hrem]
      rfl
  | e :: entries, 0, _, _, _, _, hfuel => by simp at hfuel
  | e :: entries, fuel + 1, acc, p, hfits, hrest, hfuel => by
    have hlen : e.2.length < 2 ^ 16 := hfits e List.mem_cons_self
    rw [List.flatMap_cons, encodeEntry, List.append_assoc, List.append_assoc] at hrest
    have h2 := Parser.rest_advance hrest (length_beEncode 2 _)
    obtain ⟨hu, hv⟩ := u16_run_nat hlen h2
    have h4 := Parser.rest_advance h2 (length_beEncode 2 _)
    have h := Parser.rest_advance h4 rfl
    have hrem : 4 ≤ p.remaining := by
      rw [Parser.remaining_eq, hrest]
      simp only [List.length_append, length_beEncode]
      omega
    rw [readShares, Parse.run_get, if_pos hrem,
      Parse.run_bind (u16_run hrest), Parse.run_bind hu, hv, Parse.run_bind (take_run h4 rfl)]
    exact readShares_run entries fuel _ _ (fun e he => hfits e (List.mem_cons_of_mem _ he)) h
      (by simpa using hfuel)

section

variable {σ : Type} {on : σ → UInt16 → Bytes → Except TlsError σ} {st st' : σ}

/-- **The extensions are read one after the other.** -/
theorem walkExtensions_run : ∀ (exts : List (UInt16 × Bytes)) (fuel endPos : Nat) (st : σ)
    (p : Parser), (∀ e ∈ exts, Fits e) → p.rest = exts.flatMap encodeEntry →
    endPos = p.pos + (exts.flatMap encodeEntry).length → exts.length ≤ fuel →
    exts.foldlM (fun st e => on st e.1 e.2) st = .ok st' →
    ∃ p', (walkExtensions on endPos fuel st).run p = .ok (st', p')
  | [], fuel, endPos, st, p, _, _, hend, _, hfold => by
    cases hfold
    have hle : ¬ p.pos < endPos := by
      rw [hend]
      simp
    cases fuel with
    | zero => exact ⟨p, rfl⟩
    | succ fuel =>
      refine ⟨p, ?_⟩
      rw [walkExtensions, Parse.run_get, if_neg hle]
      rfl
  | e :: exts, 0, _, _, _, _, _, _, hfuel, _ => by simp at hfuel
  | e :: exts, fuel + 1, endPos, st, p, hfits, hrest, hend, hfuel, hfold => by
    have hlen : e.2.length < 2 ^ 16 := hfits e List.mem_cons_self
    rw [List.flatMap_cons, List.length_append, length_encodeEntry] at hend
    rw [List.flatMap_cons, encodeEntry, List.append_assoc, List.append_assoc] at hrest
    have h2 := Parser.rest_advance hrest (length_beEncode 2 _)
    obtain ⟨hu, hv⟩ := u16_run_nat hlen h2
    have h4 := Parser.rest_advance h2 (length_beEncode 2 _)
    have h := Parser.rest_advance h4 rfl
    have hpos : p.pos < endPos := by omega
    have hhead : ¬ endPos - p.pos < 4 := by omega
    have hbody : ¬ endPos < ((p.advance 2).advance 2).pos + e.2.length := by
      simp only [Parser.pos_advance]
      omega
    -- The handler decides what the rest starts from.
    rw [List.foldlM_cons] at hfold
    cases hon : on st e.1 e.2 with
    | error err =>
      rw [hon] at hfold
      cases hfold
    | ok st₁ =>
      rw [hon] at hfold
      rw [walkExtensions, Parse.run_get, if_pos hpos, if_neg hhead,
        Parse.run_bind (u16_run hrest), Parse.run_bind hu,
        Parse.run_get, hv,
        if_neg hbody, Parse.run_bind (take_run h4 rfl), hon]
      refine walkExtensions_run exts fuel endPos st₁ _
        (fun e he => hfits e (List.mem_cons_of_mem _ he)) h ?_ (by simpa using hfuel) hfold
      simp only [Parser.pos_advance]
      omega

/-- A block that is as long as its length field says goes to the reader of extensions. -/
theorem extensionsBlock_of_length {n : Nat} {tail : Bytes} {p : Parser} (hn : n < 2 ^ 16)
    (hle : n ≤ tail.length) (hrest : p.rest = beEncode 2 n ++ tail) (hpos : p.pos ≤ p.buf.length) :
    (extensionsBlock on st).run p =
      (walkExtensions on ((p.advance 2).pos + n) n st).run (p.advance 2) := by
  have hlen : p.buf.length = p.pos + 2 + tail.length := by
    have h := congrArg List.length hrest
    rw [Parser.rest, List.length_drop, List.length_append, length_beEncode] at h
    omega
  have hrem : 2 ≤ p.remaining := by
    rw [Parser.remaining]
    omega
  obtain ⟨hu, hv⟩ := u16_run_nat hn hrest
  have hroom : ¬ (p.advance 2).buf.length < (p.advance 2).pos + n := by
    simp only [Parser.pos_advance, Parser.buf_advance]
    omega
  rw [extensionsBlock, run_get, if_pos hrem, run_bind hu, run_get, hv]
  simp only [if_neg hroom]

/-- The extensions block with its length. -/
theorem extensionsBlock_run {exts : List (UInt16 × Bytes)} {p : Parser} (hfits : ∀ e ∈ exts, Fits e)
    (htotal : (exts.flatMap encodeEntry).length < 2 ^ 16)
    (hrest : p.rest = beEncode 2 (exts.flatMap encodeEntry).length ++ exts.flatMap encodeEntry)
    (hpos : p.pos ≤ p.buf.length)
    (hfold : exts.foldlM (fun st e => on st e.1 e.2) st = .ok st') :
    ∃ p', (extensionsBlock on st).run p = .ok (st', p') := by
  have hfuel : exts.length ≤ (exts.flatMap encodeEntry).length := by
    rw [List.length_flatMap]
    have hle := List.length_le_sum_of_one_le (exts.map fun e => (encodeEntry e).length) (by
      intro n hn
      obtain ⟨e, -, rfl⟩ := List.mem_map.mp hn
      rw [length_encodeEntry]
      omega)
    rwa [List.length_map] at hle
  rw [extensionsBlock_of_length htotal le_rfl hrest hpos]
  exact walkExtensions_run exts _ _ st _ hfits (Parser.rest_advance hrest (length_beEncode 2 _)) rfl
    hfuel hfold

end

/-- A ClientHello before its handshake header, with the lengths of its parts in their fields. -/
def helloBody (random : Block 32) (sid cs comp tail : Bytes) : Bytes :=
  [0x03, 0x03] ++ (random.1 ++ ([UInt8.ofNat sid.length] ++ (sid ++
    (beEncode 2 cs.length ++ (cs ++ ([UInt8.ofNat comp.length] ++ (comp ++ tail)))))))

def encodeHello (random : Block 32) (sid cs comp tail : Bytes) : Bytes :=
  [0x01] ++ (beEncode 3 (helloBody random sid cs comp tail).length ++
    helloBody random sid cs comp tail)

theorem toNat_ofNat_length {l : Bytes} (h : l.length < 2 ^ 8) :
    (UInt8.ofNat l.length).toNat = l.length := by
  rw [UInt8.toNat_ofNat']
  exact Nat.mod_eq_of_lt h

/-- The head of a hello is read back. -/
theorem readHead_run {blen : Nat} {random : Block 32} {sid : Bytes}
    (hsid : sid.length < 2 ^ 8) (h : p.rest = [0x01] ++ (beEncode 3 blen ++ ([0x03, 0x03] ++
      (random.1 ++ ([UInt8.ofNat sid.length] ++ (sid ++ ys)))))) :
    ∃ p', readHead.run p = .ok ((random, sid), p') ∧ p'.rest = ys ∧ p'.buf = p.buf ∧
      p'.pos = p.pos + (39 + sid.length) := by
  -- The bytes before each of the parts.
  have h1 := Parser.rest_advance (n := 1) h rfl
  have h4 := Parser.rest_advance h1 (length_beEncode 3 _)
  have h6 := Parser.rest_advance (n := 2) h4 rfl
  have h38 := Parser.rest_advance h6 random.2
  have h39 := Parser.rest_advance (n := 1) h38 rfl
  have hend := Parser.rest_advance h39 rfl
  obtain ⟨len, hlen⟩ := u24_run h1
  have hver : u16.run ((p.advance 1).advance 3) = .ok (0x0303, _) := u16_run h4
  have htype : u8.run p = .ok (0x01, p.advance 1) := u8_run h
  refine ⟨_, ?_, hend, rfl, ?_⟩
  · rw [readHead, run_bind htype, if_neg (by decide)]
    show StateT.run (u24 >>= _) _ = _
    rw [run_bind hlen, run_bind hver, run_bind (take_run h6 random.2), run_bind (u8_run h38),
      toNat_ofNat_length hsid, run_bind (take_run h39 rfl), Block.ofList_val]
    rfl
  · simp only [Parser.pos_advance]
    omega

/-- Suites and compression methods are passed over. -/
theorem skipSuites_run {cs comp : Bytes} (hcs : cs.length < 2 ^ 16) (hcomp : comp.length < 2 ^ 8)
    (h : p.rest = beEncode 2 cs.length ++ (cs ++ ([UInt8.ofNat comp.length] ++ (comp ++ ys)))) :
    ∃ p', skipSuites.run p = .ok ((), p') ∧ p'.rest = ys ∧ p'.buf = p.buf ∧
      p'.pos = p.pos + (3 + cs.length + comp.length) := by
  have h2 := Parser.rest_advance h (length_beEncode 2 _)
  have hc := Parser.rest_advance h2 rfl
  have h3 := Parser.rest_advance (n := 1) hc rfl
  have hend := Parser.rest_advance h3 rfl
  obtain ⟨hu, hv⟩ := u16_run_nat hcs h
  refine ⟨_, ?_, hend, rfl, ?_⟩
  · rw [skipSuites, run_bind hu, hv, run_bind (skip_run h2 rfl), run_bind (u8_run hc),
      toNat_ofNat_length hcomp]
    exact skip_run h3 rfl
  · simp only [Parser.pos_advance]
    omega

/-- A hello up to its extensions is read back, whatever is found in these. -/
theorem extract_encodeHello_of_found {random : Block 32} {sid cs comp tail : Bytes}
    (hsid : sid.length < 2 ^ 8) (hcs : cs.length < 2 ^ 16) (hcomp : comp.length < 2 ^ 8)
    (hfound : ∀ p : Parser, p.rest = tail → p.pos ≤ p.buf.length →
      ∃ p', readFound.run p = .ok (acc, p')) :
    extractClientHelloFields (encodeHello random sid cs comp tail) =
      .ok ⟨random, sid, acc.keyShareX25519, acc.keyShareMlkem, acc.sni⟩ := by
  have h0 := Parser.rest_new (encodeHello random sid cs comp tail)
  obtain ⟨p₁, hhead, h1, hb1, hp1⟩ := readHead_run hsid h0
  obtain ⟨p₂, hsuites, h2, hb2, hp2⟩ := skipSuites_run hcs hcomp h1
  have hpos : p₂.pos ≤ p₂.buf.length := by
    rw [hp2, hp1, hb2, hb1]
    simp only [Parser.new, encodeHello, helloBody, List.length_append, length_beEncode, random.2,
      List.length_cons, List.length_nil]
    omega
  obtain ⟨p₃, hread⟩ := hfound p₂ h2 hpos
  rw [extractClientHelloFields, run'_bind hhead, run'_bind hsuites, run'_bind hread]
  rfl

/-- **A hello is read back**: the random, the session id and what its extensions hold. -/
theorem extract_encodeHello {random : Block 32} {sid cs comp : Bytes}
    {exts : List (UInt16 × Bytes)} (hsid : sid.length < 2 ^ 8) (hcs : cs.length < 2 ^ 16)
    (hcomp : comp.length < 2 ^ 8) (hfits : ∀ e ∈ exts, Fits e)
    (htotal : (exts.flatMap encodeEntry).length < 2 ^ 16)
    (hfold : exts.foldlM (fun acc e => onExtension acc e.1 e.2) {} = .ok acc) :
    extractClientHelloFields (encodeHello random sid cs comp
      (beEncode 2 (exts.flatMap encodeEntry).length ++ exts.flatMap encodeEntry)) =
      .ok ⟨random, sid, acc.keyShareX25519, acc.keyShareMlkem, acc.sni⟩ :=
  extract_encodeHello_of_found hsid hcs hcomp fun _ hrest hpos =>
    readFound_eq_block ▸ extensionsBlock_run hfits htotal hrest hpos hfold

/-- Nothing is found in a block whose length field says zero, whatever follows it. -/
theorem readFound_zero {tail : Bytes} (hrest : p.rest = beEncode 2 0 ++ tail)
    (hpos : p.pos ≤ p.buf.length) : ∃ p', readFound.run p = .ok (({} : Found), p') := by
  rw [readFound_eq_block, extensionsBlock_of_length (by decide) (Nat.zero_le _) hrest hpos]
  exact ⟨_, rfl⟩

/-- What the head of an accepted hello consists of. -/
theorem readHead_eq_ok {random : Block 32} {sid : Bytes}
    (h : readHead.run p = .ok ((random, sid), p')) :
    ∃ head n, p.rest = head ++ (random.1 ++ ([n] ++ (sid ++ p'.rest))) ∧ head.length = 6 ∧
      sid.length = n.toNat := by
  obtain ⟨mt, p₁, htype, h⟩ := bind_eq_ok h
  split at h
  · cases h
  obtain ⟨len, p₂, hu24, h⟩ := bind_eq_ok h
  obtain ⟨ver, p₃, hu16, h⟩ := bind_eq_ok h
  obtain ⟨rand, p₄, hrand, h⟩ := bind_eq_ok h
  obtain ⟨n, p₅, hn, h⟩ := bind_eq_ok h
  obtain ⟨s, p₆, hs, h⟩ := bind_eq_ok h
  cases h
  have hr1 := u8_eq_ok htype
  obtain ⟨b, hr2, hb⟩ := u24_eq_ok hu24
  obtain ⟨c, hr3, hc⟩ := u16_eq_ok hu16
  obtain ⟨hr4, hlen, -⟩ := take_eq_ok hrand
  have hr5 := u8_eq_ok hn
  obtain ⟨hr6, hsid, -⟩ := take_eq_ok hs
  refine ⟨mt :: (b ++ c), n, ?_, ?_, hsid⟩
  · rw [hr1, hr2, hr3, hr4, hr5, hr6, Block.ofList_val ⟨rand, hlen⟩]
    simp
  · simp only [List.length_cons, List.length_append]
    omega

/-- **Where the session id of an accepted hello stands**: its length is byte 38 and it starts
at byte 39. -/
theorem extract_sessionId {msg : Bytes} {f : ClientHelloFields}
    (h : extractClientHelloFields msg = .ok f) :
    ∃ pre n post, msg = pre ++ ([n] ++ (f.sessionId ++ post)) ∧ pre.length = 38 ∧
      f.sessionId.length = n.toNat := by
  obtain ⟨p₀, hrun⟩ := of_run'_eq h
  obtain ⟨⟨random, sid⟩, p₁, hhead, h⟩ := bind_eq_ok hrun
  obtain ⟨_, p₂, -, h⟩ := bind_eq_ok h
  obtain ⟨found, p₃, -, h⟩ := bind_eq_ok h
  cases h
  obtain ⟨head, n, hrest, hlen, hsid⟩ := readHead_eq_ok hhead
  rw [Parser.rest_new] at hrest
  refine ⟨head ++ random.1, n, p₁.rest, ?_, ?_, hsid⟩
  · rw [hrest, List.append_assoc]
  · rw [List.length_append, hlen, random.2]

end

end Leshiy.Tls
