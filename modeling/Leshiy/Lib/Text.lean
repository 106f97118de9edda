/-!
# Bytes as text

Hexadecimal digits as the `hex` crate writes and reads them, and base64 with the URL alphabet and
without padding.
-/

namespace Leshiy.Lib

def hexDigit (n : Nat) : Char := "0123456789abcdef".toList.getD n '0'

def hexEncode (bs : List UInt8) : String :=
  String.ofList (bs.flatMap fun b => [hexDigit (b.toNat / 16), hexDigit (b.toNat % 16)])

/-- Digits of either case are read. -/
def hexVal (c : Char) : Option Nat :=
  if '0' ≤ c ∧ c ≤ '9' then some (c.toNat - '0'.toNat)
  else if 'a' ≤ c ∧ c ≤ 'f' then some (c.toNat - 'a'.toNat + 10)
  else if 'A' ≤ c ∧ c ≤ 'F' then some (c.toNat - 'A'.toNat + 10)
  else none

def hexPairs : List Char → Option (List UInt8)
  | [] => some []
  | [_] => none
  | hi :: lo :: rest => do
    let h ← hexVal hi
    let l ← hexVal lo
    let bs ← hexPairs rest
    return UInt8.ofNat (16 * h + l) :: bs

def hexDecode (s : String) : Option (List UInt8) := hexPairs s.toList

def base64Digit (n : Nat) : Char :=
  "ABCDEFGHIJKLMNOPQRSTUVWXYZabcdefghijklmnopqrstuvwxyz0123456789-_".toList.getD n 'A'

/-- `URL_SAFE_NO_PAD`. -/
def base64Chars : List UInt8 → List Char
  | [] => []
  | [a] =>
    let n := a.toNat * 16
    [base64Digit (n / 64), base64Digit (n % 64)]
  | [a, b] =>
    let n := (a.toNat * 256 + b.toNat) * 4
    [base64Digit (n / 4096), base64Digit (n / 64 % 64), base64Digit (n % 64)]
  | a :: b :: c :: rest =>
    let n := (a.toNat * 256 + b.toNat) * 256 + c.toNat
    base64Digit (n / 262144) :: base64Digit (n / 4096 % 64) :: base64Digit (n / 64 % 64) ::
      base64Digit (n % 64) :: base64Chars rest

def base64UrlEncode (bs : List UInt8) : String := String.ofList (base64Chars bs)

def base64Val (c : Char) : Option Nat :=
  if 'A' ≤ c ∧ c ≤ 'Z' then some (c.toNat - 'A'.toNat)
  else if 'a' ≤ c ∧ c ≤ 'z' then some (c.toNat - 'a'.toNat + 26)
  else if '0' ≤ c ∧ c ≤ '9' then some (c.toNat - '0'.toNat + 52)
  else if c = '-' then some 62
  else if c = '_' then some 63
  else none

/-- The bits that a last group has beyond its bytes must be zeros. -/
def base64Bytes : List Char → Option (List UInt8)
  | [] => some []
  | [_] => none
  | [a, b] => do
    let a ← base64Val a
    let b ← base64Val b
    let n := a * 64 + b
    if n % 16 = 0 then some [UInt8.ofNat (n / 16)] else none
  | [a, b, c] => do
    let a ← base64Val a
    let b ← base64Val b
    let c ← base64Val c
    let n := (a * 64 + b) * 64 + c
    if n % 4 = 0 then some [UInt8.ofNat (n / 1024), UInt8.ofNat (n / 4)] else none
  | a :: b :: c :: d :: rest => do
    let a ← base64Val a
    let b ← base64Val b
    let c ← base64Val c
    let d ← base64Val d
    let bs ← base64Bytes rest
    let n := ((a * 64 + b) * 64 + c) * 64 + d
    return UInt8.ofNat (n / 65536) :: UInt8.ofNat (n / 256) :: UInt8.ofNat n :: bs

def base64UrlDecode (s : String) : Option (List UInt8) := base64Bytes s.toList

/-! ## What was written is read again -/

theorem hexVal_hexDigit : ∀ n < 16, hexVal (hexDigit n) = some n := by decide

theorem base64Val_base64Digit : ∀ n < 64, base64Val (base64Digit n) = some n := by decide +kernel

/-- A byte is found from any number that ends in it. -/
theorem ofNat_eq_of_mod {n : Nat} {b : UInt8} (h : n % 256 = b.toNat) : UInt8.ofNat n = b :=
  UInt8.toNat_inj.mp (by rwa [UInt8.toNat_ofNat'])

theorem hexPairs_digits : ∀ bs : List UInt8,
    hexPairs (bs.flatMap fun b => [hexDigit (b.toNat / 16), hexDigit (b.toNat % 16)]) = some bs
  | [] => rfl
  | b :: bs => by
    have hb : b.toNat < 256 := b.toNat_lt
    have hbyte : UInt8.ofNat (16 * (b.toNat / 16) + b.toNat % 16) = b :=
      ofNat_eq_of_mod (by omega)
    simp only [List.flatMap_cons, List.cons_append, List.nil_append, hexPairs,
      hexVal_hexDigit (b.toNat / 16) (by omega), hexVal_hexDigit (b.toNat % 16) (by omega),
      hexPairs_digits bs, Option.bind_eq_bind, Option.bind_some, hbyte]
    rfl

theorem hexDecode_hexEncode (bs : List UInt8) : hexDecode (hexEncode bs) = some bs := by
  rw [hexDecode, hexEncode, String.toList_ofList]
  exact hexPairs_digits bs

/-- Every character written is a digit. -/
theorem hexEncode_mem {c : Char} {bs : List UInt8} (h : c ∈ (hexEncode bs).toList) :
    ∃ n < 16, c = hexDigit n := by
  rw [hexEncode, String.toList_ofList] at h
  obtain ⟨b, -, hc⟩ := List.mem_flatMap.mp h
  have hb : b.toNat < 256 := b.toNat_lt
  simp only [List.mem_cons, List.not_mem_nil, or_false] at hc
  rcases hc with rfl | rfl
  · exact ⟨_, by omega, rfl⟩
  · exact ⟨_, by omega, rfl⟩

theorem base64Bytes_chars : ∀ bs : List UInt8, base64Bytes (base64Chars bs) = some bs
  | [] => rfl
  | [a] => by
    have ha : a.toNat < 256 := a.toNat_lt
    have hzero : (a.toNat * 16 / 64 * 64 + a.toNat * 16 % 64) % 16 = 0 := by omega
    have hbyte : UInt8.ofNat ((a.toNat * 16 / 64 * 64 + a.toNat * 16 % 64) / 16) = a :=
      ofNat_eq_of_mod (by omega)
    simp only [base64Chars, base64Bytes, base64Val_base64Digit (a.toNat * 16 / 64) (by omega),
      base64Val_base64Digit (a.toNat * 16 % 64) (by omega), Option.bind_eq_bind, Option.bind_some,
      if_pos hzero, hbyte]
  | [a, b] => by
    have ha : a.toNat < 256 := a.toNat_lt
    have hb : b.toNat < 256 := b.toNat_lt
    generalize hn : (a.toNat * 256 + b.toNat) * 4 = n
    have hnum : (n / 4096 * 64 + n / 64 % 64) * 64 + n % 64 = n := by omega
    have hbyte₁ : UInt8.ofNat (n / 1024) = a := ofNat_eq_of_mod (by omega)
    have hbyte₂ : UInt8.ofNat (n / 4) = b := ofNat_eq_of_mod (by omega)
    simp only [base64Chars, base64Bytes, hn, base64Val_base64Digit (n / 4096) (by omega),
      base64Val_base64Digit (n / 64 % 64) (by omega), base64Val_base64Digit (n % 64) (by omega),
      Option.bind_eq_bind, Option.bind_some, hnum, if_pos (show n % 4 = 0 by omega), hbyte₁, hbyte₂]
  | a :: b :: c :: rest => by
    have ha : a.toNat < 256 := a.toNat_lt
    have hb : b.toNat < 256 := b.toNat_lt
    have hc : c.toNat < 256 := c.toNat_lt
    generalize hn : (a.toNat * 256 + b.toNat) * 256 + c.toNat = n
    have hnum : ((n / 262144 * 64 + n / 4096 % 64) * 64 + n / 64 % 64) * 64 + n % 64 = n := by omega
    have hbyte₁ : UInt8.ofNat (n / 65536) = a := ofNat_eq_of_mod (by omega)
    have hbyte₂ : UInt8.ofNat (n / 256) = b := ofNat_eq_of_mod (by omega)
    have hbyte₃ : UInt8.ofNat n = c := ofNat_eq_of_mod (by omega)
    simp only [base64Chars, base64Bytes, hn, base64Val_base64Digit (n / 262144) (by omega),
      base64Val_base64Digit (n / 4096 % 64) (by omega), base64Val_base64Digit (n / 64 % 64) (by omega),
      base64Val_base64Digit (n % 64) (by omega), base64Bytes_chars rest, Option.bind_eq_bind,
      Option.bind_some, hnum, hbyte₁, hbyte₂, hbyte₃]
    rfl

theorem base64UrlDecode_encode (bs : List UInt8) : base64UrlDecode (base64UrlEncode bs) = some bs := by
  rw [base64UrlDecode, base64UrlEncode, String.toList_ofList]
  exact base64Bytes_chars bs

/-- Every character written is a digit. -/
theorem base64Chars_mem {c : Char} : ∀ {bs : List UInt8}, c ∈ base64Chars bs →
    ∃ n < 64, c = base64Digit n
  | [a], h => by
    have ha : a.toNat < 256 := a.toNat_lt
    simp only [base64Chars, List.mem_cons, List.not_mem_nil, or_false] at h
    rcases h with rfl | rfl
    · exact ⟨_, by omega, rfl⟩
    · exact ⟨_, by omega, rfl⟩
  | [a, b], h => by
    have ha : a.toNat < 256 := a.toNat_lt
    have hb : b.toNat < 256 := b.toNat_lt
    simp only [base64Chars, List.mem_cons, List.not_mem_nil, or_false] at h
    rcases h with rfl | rfl | rfl
    · exact ⟨_, by omega, rfl⟩
    · exact ⟨_, by omega, rfl⟩
    · exact ⟨_, by omega, rfl⟩
  | a :: b :: c :: rest, h => by
    have ha : a.toNat < 256 := a.toNat_lt
    have hb : b.toNat < 256 := b.toNat_lt
    have hc : c.toNat < 256 := c.toNat_lt
    simp only [base64Chars, List.mem_cons] at h
    rcases h with rfl | rfl | rfl | rfl | hrest
    · exact ⟨_, by omega, rfl⟩
    · exact ⟨_, by omega, rfl⟩
    · exact ⟨_, by omega, rfl⟩
    · exact ⟨_, by omega, rfl⟩
    · exact base64Chars_mem hrest

end Leshiy.Lib
