import Mathlib.Data.List.Basic

/-!
# Cryptographic primitives as parameters

A protocol is verified over its primitives: each is a record of functions, and what the protocol
relies on is a predicate about the record. The correctness predicates (`Commutes`, `Correct`)
hold of real primitives. The predicates about two different keys are about those keys only: no
cipher with a fixed expansion is injective in all keys and messages at once.
-/

namespace Leshiy.Lib

/-- A byte string of a fixed length. -/
abbrev Block (n : Nat) := { b : List UInt8 // b.length = n }

namespace Block

/-- The first `n` bytes of a string, filled up with zeros. -/
def ofList (n : Nat) (l : List UInt8) : Block n := ⟨(l ++ List.replicate n 0).take n, by simp⟩

/-- `try_into` of a slice: it must have the length. -/
def tryFrom (n : Nat) (l : List UInt8) : Option (Block n) :=
  if h : l.length = n then some ⟨l, h⟩ else none

theorem tryFrom_val {n : Nat} (b : Block n) : tryFrom n b.1 = some b := dif_pos b.2

/-- `n` times the same byte. -/
def fill (n : Nat) (b : UInt8) : Block n := ⟨List.replicate n b, List.length_replicate⟩

variable {n : Nat}

def get (b : Block n) (i : Fin n) : UInt8 := b.1.get (i.cast b.2.symm)

/-- Bytes `i` to `j`. -/
def slice (b : Block n) (i j : Nat) (h : i ≤ j ∧ j ≤ n) : Block (j - i) :=
  ⟨(b.1.take j).drop i, by
    rw [List.length_drop, List.length_take, b.2]
    omega⟩

/-- A slice of a concatenation that starts and ends at its seams. -/
theorem slice_val {b : Block n} {i j : Nat} {h : i ≤ j ∧ j ≤ n} (xs ys zs : List UInt8)
    (hb : b.1 = xs ++ (ys ++ zs)) (hi : xs.length = i) (hj : xs.length + ys.length = j) :
    (b.slice i j h).1 = ys := by
  show (b.1.take j).drop i = ys
  have htake : b.1.take j = xs ++ ys := by
    rw [hb, ← List.append_assoc]
    exact List.take_left' (by rw [List.length_append, hj])
  rw [htake]
  exact List.drop_left' hi

theorem ofList_val (b : Block n) : ofList n b.1 = b := by
  apply Subtype.ext
  show (b.1 ++ List.replicate n 0).take n = b.1
  exact List.take_left' b.2

end Block

/-! ## Key agreement -/

/-- A key agreement: the public value of a secret, and the value two parties share. -/
structure KeyAgreement (S P K : Type) where
  pub : S → P
  shared : S → P → K

namespace KeyAgreement

variable {S P K : Type} (d : KeyAgreement S P K)

/-- Both parties compute the same value. -/
def Commutes : Prop := ∀ s t, d.shared s (d.pub t) = d.shared t (d.pub s)

/-- From `s`, the two public values give different shared values if they are different. -/
def Separates (s : S) (p p' : P) : Prop := d.shared s p = d.shared s p' → p = p'

end KeyAgreement

/-! ## Key encapsulation -/

/-- A key encapsulation mechanism; `R` is the randomness an operation draws. -/
structure Kem (R DK EK C K : Type) where
  generate : R → DK × EK
  encapsulate : R → EK → Option (C × K)
  decapsulate : DK → C → K

/-- What is encapsulated to a generated key is decapsulated with it. -/
def Kem.Correct {R DK EK C K : Type} (k : Kem R DK EK C K) : Prop :=
  ∀ r r', ∃ c key, k.encapsulate r' (k.generate r).2 = some (c, key) ∧
    k.decapsulate (k.generate r).1 c = key

/-! ## Authenticated encryption -/

/-- Authenticated encryption with associated data: key, nonce, associated data, text. -/
structure Aead (K N : Type) where
  encrypt : K → N → List UInt8 → List UInt8 → Option (List UInt8)
  decrypt : K → N → List UInt8 → List UInt8 → Option (List UInt8)

namespace Aead

variable {K N : Type} (a : Aead K N)

/-- A text of at most `bound` bytes is encrypted, grows by the tag and is decrypted again. -/
def Correct (tag bound : Nat) : Prop :=
  ∀ k n aad m, m.length ≤ bound → ∃ c, a.encrypt k n aad m = some c ∧
    c.length = m.length + tag ∧ a.decrypt k n aad c = some m

/-- What is encrypted under `k` is rejected under `k'`, unless the keys are the same. -/
def Separates (k k' : K) (n : N) (aad m : List UInt8) : Prop :=
  k ≠ k' → ∀ c, a.encrypt k n aad m = some c → a.decrypt k' n aad c = none

end Aead

/-! ## Signatures -/

structure Signature (SK PK S : Type) where
  pub : SK → PK
  sign : SK → List UInt8 → S
  verify : PK → List UInt8 → S → Bool

/-- A signature verifies under the signer's public key. -/
def Signature.Correct {SK PK S : Type} (s : Signature SK PK S) : Prop :=
  ∀ sk m, s.verify (s.pub sk) m (s.sign sk m) = true

/-! ## Hashing -/

/-- A hash with its keyed variants. The output lengths are part of the types. -/
structure HashSuite (len : Nat) where
  digest : List UInt8 → Block len
  hmac : List UInt8 → List UInt8 → Block len
  /-- HKDF-Extract: salt, input key. -/
  extract : List UInt8 → List UInt8 → Block len
  /-- HKDF-Expand: pseudorandom key, info, output length. -/
  expand : Block len → List UInt8 → (n : Nat) → Block n

/-- With the same salt and info the two inputs give different keys if they are different. -/
def HashSuite.Separates {len : Nat} (h : HashSuite len) (salt info : List UInt8) (n : Nat)
    (ikm ikm' : List UInt8) : Prop :=
  h.expand (h.extract salt ikm) info n = h.expand (h.extract salt ikm') info n → ikm = ikm'

/-! ## Instances

The smallest records with the properties above. They are not secure; they show that what is
assumed of primitives can hold together. -/

section

variable {n : Nat}

/-- Byte-wise exclusive or. -/
def Block.xor (a b : Block n) : Block n := ⟨List.zipWith (· ^^^ ·) a.1 b.1, by simp [a.2, b.2]⟩

/-- A secret is its own public value, and both parties share the exclusive or. -/
def KeyAgreement.xor (n : Nat) : KeyAgreement (Block n) (Block n) (Block n) where
  pub s := s
  shared s p := s.xor p

theorem KeyAgreement.xor_commutes : (KeyAgreement.xor n).Commutes := by
  intro s t
  apply Subtype.ext
  exact List.zipWith_comm_of_comm UInt8.xor_comm

/-- The text in clear, and the start of the key as its tag. -/
def Aead.tagged (N : Type) (n tag : Nat) : Aead (Block n) N where
  encrypt k _ _ m := some (m ++ (Block.ofList tag k.1).1)
  decrypt k _ _ c :=
    if c.drop (c.length - tag) = (Block.ofList tag k.1).1 then some (c.take (c.length - tag))
    else none

theorem Aead.tagged_correct {N : Type} {tag bound : Nat} : (Aead.tagged N n tag).Correct tag bound := by
  intro k nonce aad m _
  have hlen : (m ++ (Block.ofList tag k.1).1).length - tag = m.length := by
    rw [List.length_append, (Block.ofList tag k.1).2]
    omega
  refine ⟨_, rfl, by rw [List.length_append, (Block.ofList tag k.1).2], ?_⟩
  show (if _ then _ else _) = _
  rw [hlen, List.drop_left, if_pos rfl, List.take_left]

theorem Aead.tagged_separates {N : Type} {tag : Nat} {k k' : Block n} {nonce : N}
    {aad m : List UInt8} (hne : (Block.ofList tag k.1).1 ≠ (Block.ofList tag k'.1).1) :
    (Aead.tagged N n tag).Separates k k' nonce aad m := by
  rintro - c hc
  cases hc
  have hlen : (m ++ (Block.ofList tag k.1).1).length - tag = m.length := by
    rw [List.length_append, (Block.ofList tag k.1).2]
    omega
  show ite _ _ _ = none
  rw [hlen, List.drop_left, if_neg hne]

/-- Every output is the start of the input. -/
def HashSuite.start (len : Nat) : HashSuite len where
  digest b := Block.ofList len b
  hmac _ m := Block.ofList len m
  extract _ ikm := Block.ofList len ikm
  expand prk _ n := Block.ofList n prk.1

/-- The ciphertext is the randomness, and the key its start. -/
def Kem.start (e c k : Nat) : Kem (List UInt8) Unit (Block e) (Block c) (Block k) where
  generate r := ((), Block.ofList e r)
  encapsulate r _ := some (Block.ofList c r, Block.ofList k (Block.ofList c r).1)
  decapsulate _ ct := Block.ofList k ct.1

theorem Kem.start_correct {e c k : Nat} : (Kem.start e c k).Correct :=
  fun _ _ => ⟨_, _, rfl, rfl⟩

/-- A secret is its own public value, and its start is the signature of every text. -/
def Signature.start (n s : Nat) : Signature (Block n) (Block n) (Block s) where
  pub sk := sk
  sign sk _ := Block.ofList s sk.1
  verify pk _ sig := sig.1 == (Block.ofList s pk.1).1

theorem Signature.start_correct {s : Nat} : (Signature.start n s).Correct :=
  fun _ _ => beq_self_eq_true _

end

end Leshiy.Lib
