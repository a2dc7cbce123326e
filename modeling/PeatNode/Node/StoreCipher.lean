/-
# Encryption at rest

`StoreCipher` of `src/crypto.rs`: a document's JSON text is encrypted with
AES-256-GCM under a fresh nonce and stored as `ENC:v1:` followed by the Base64 of
nonce, ciphertext and tag.

The cipher under its key is a parameter (`Aead`): what it
seals it opens again, and the tag adds 16 bytes.
-/

import Mathlib.Data.String.Basic
import PeatNode.Ledger.Format
import PeatNode.Lib.Base64
import PeatNode.Reconcile.Scan

namespace PeatNode.Node

open List Option

open Ledger (asBytes)
open Reconcile (stripPrefix stripPrefix_eq_some_iff)

/-! ### UTF-8 -/

/-- `str::from_utf8`. -/
def fromUtf8 (bytes : List UInt8) : Option String := String.fromUTF8? ⟨bytes.toArray⟩

theorem fromUtf8_asBytes (s : String) : fromUtf8 (asBytes s) = some s := by
  have hbytes : (⟨(asBytes s).toArray⟩ : ByteArray) = s.toByteArray := by
    simp only [asBytes, Array.toArray_toList]
    rfl
  rw [fromUtf8, hbytes, String.fromUTF8?, dif_pos s.isValidUTF8]
  exact congrArg some (String.toByteArray_inj.1 rfl)

theorem asBytes_of_fromUtf8 (h : fromUtf8 bytes = some s) : asBytes s = bytes := by
  unfold fromUtf8 String.fromUTF8? at h
  split_ifs at h
  cases h
  simp [asBytes, String.fromUTF8, String.toUTF8]

theorem length_asBytes (s : String) : (asBytes s).length = s.utf8ByteSize := by
  simp only [asBytes, Array.length_toList]
  rfl

theorem utf8ByteSize_of_ascii {s : String} (h : ∀ c ∈ s.toList, c.utf8Size = 1) :
    s.utf8ByteSize = s.toList.length := by
  have hlen : ∀ cs : List Char, (∀ c ∈ cs, c.utf8Size = 1) → String.utf8Len cs = cs.length := by
    intro cs hcs
    induction cs with
    | nil => rfl
    | cons c cs ih =>
      rw [String.utf8Len_cons, length_cons, hcs c mem_cons_self,
        ih fun d hd => hcs d (mem_cons_of_mem c hd)]
  rw [← hlen s.toList h, String.utf8Len_toList]

/-! ### The cipher -/

def nonceBytes : ℕ := 12
def tagBytes : ℕ := 16

/-- `Aes256Gcm` under a key. -/
structure Aead where
  encrypt : List UInt8 → List UInt8 → Option (List UInt8)
  decrypt : List UInt8 → List UInt8 → Option (List UInt8)
  length_encrypt : ∀ nonce plaintext ciphertext, encrypt nonce plaintext = some ciphertext →
    ciphertext.length = plaintext.length + tagBytes
  decrypt_encrypt : ∀ nonce plaintext ciphertext, encrypt nonce plaintext = some ciphertext →
    decrypt nonce ciphertext = some plaintext

/-- `Aes256Gcm::generate_nonce`. -/
structure Nonce where
  bytes : List UInt8
  length_bytes : bytes.length = nonceBytes

structure StoreCipher where
  cipher : Aead

namespace StoreCipher

/-- `PREFIX`. -/
def lead : String := "ENC:v1:"

def isEncrypted (value : String) : Bool := (stripPrefix lead value).isSome

/-- With the nonce drawn. -/
def encrypt (c : StoreCipher) (nonce : Nonce) (plaintext : String) : Option String :=
  (c.cipher.encrypt nonce.bytes (asBytes plaintext)).map fun ciphertext =>
    lead ++ String.ofList (Base64.encode (nonce.bytes ++ ciphertext))

def decrypt (c : StoreCipher) (stored : String) : Option String :=
  match stripPrefix lead stored with
  | none => none
  | some encoded =>
    match Base64.decode encoded.toList with
    | none => none
    | some blob =>
      if blob.length < nonceBytes then none
      else (c.cipher.decrypt (blob.take nonceBytes) (blob.drop nonceBytes)).bind fromUtf8

variable {c : StoreCipher} {nonce : Nonce} {plaintext stored : String}

/-- **What is encrypted is decrypted again.** -/
theorem decrypt_encrypt (h : c.encrypt nonce plaintext = some stored) :
    c.decrypt stored = some plaintext := by
  obtain ⟨ciphertext, hseal, rfl⟩ := map_eq_some_iff.1 h
  have hnonce := nonce.length_bytes
  have hlead : stripPrefix lead
      (lead ++ String.ofList (Base64.encode (nonce.bytes ++ ciphertext))) = some _ :=
    stripPrefix_eq_some_iff.2 rfl
  simp only [decrypt, hlead, String.toList_ofList, Base64.decode_encode]
  rw [if_neg (by rw [length_append]; omega), ← hnonce, take_left, drop_left,
    c.cipher.decrypt_encrypt _ _ _ hseal, bind_some, fromUtf8_asBytes]

theorem isEncrypted_encrypt (h : c.encrypt nonce plaintext = some stored) :
    isEncrypted stored = true := by
  obtain ⟨ciphertext, -, rfl⟩ := map_eq_some_iff.1 h
  have hlead := stripPrefix_eq_some_iff.2
    (rfl : lead ++ String.ofList (Base64.encode (nonce.bytes ++ ciphertext)) = lead ++ _)
  rw [isEncrypted, hlead, isSome_some]

/-- What so many bytes take encrypted. -/
def encryptedBytes (n : ℕ) : ℕ := 7 + 4 * ((nonceBytes + n + tagBytes + 2) / 3)

/-- An encrypted text is ASCII. -/
theorem ascii_encrypt (h : c.encrypt nonce plaintext = some stored) :
    ∀ d ∈ stored.toList, d.utf8Size = 1 := by
  obtain ⟨ciphertext, -, rfl⟩ := map_eq_some_iff.1 h
  intro d hd
  rw [String.toList_append, String.toList_ofList] at hd
  rcases mem_append.1 hd with hd | hd
  · have hlead : ∀ d ∈ lead.toList, d.utf8Size = 1 := by simp [lead, Char.utf8Size]
    exact hlead d hd
  · have hascii := Base64.ascii_of_mem_encode hd
    rw [Char.utf8Size_eq_one_iff, UInt32.le_iff_toNat_le]
    exact Nat.le_of_lt_succ hascii

/-- **The size of an encrypted text** depends only on that of the text. -/
theorem utf8ByteSize_encrypt (h : c.encrypt nonce plaintext = some stored) :
    stored.utf8ByteSize = encryptedBytes plaintext.utf8ByteSize := by
  have hascii := utf8ByteSize_of_ascii (ascii_encrypt h)
  obtain ⟨ciphertext, hseal, rfl⟩ := map_eq_some_iff.1 h
  have hlength := c.cipher.length_encrypt _ _ _ hseal
  rw [length_asBytes] at hlength
  have hlead : lead.toList.length = 7 := by decide
  rw [hascii, String.toList_append, String.toList_ofList, length_append, hlead,
    Base64.length_encode, length_append, nonce.length_bytes, hlength, encryptedBytes,
    ← Nat.add_assoc nonceBytes]

end StoreCipher

end PeatNode.Node
