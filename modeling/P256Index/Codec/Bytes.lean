import Mathlib

/-!
# Byte strings and big-endian words

The common currency of the contract, the calldata builder and the proof checks: byte strings, the
32-byte values the hash functions return, and the big-endian reading of a fixed number of bytes as
a number. Everything else about layout (`Codec/Abi.lean`) is built from `beBytes` and `ofBe`, which
reads back what `beBytes` has written (`ofBe_beBytes`).
-/

namespace P256Index

abbrev Bytes := List UInt8

/-- A 32-byte value: a digest, a challenge, a binding. -/
abbrev Bytes32 := { b : Bytes // b.length = 32 }

/-- An EVM word as a number. -/
abbrev U256 := Fin (2 ^ 256)

/-- A 20-byte account address as a number. -/
abbrev Address := Fin (2 ^ 160)

instance neZero_u256 : NeZero (2 ^ 256) := ⟨by norm_num⟩

instance neZero_address : NeZero (2 ^ 160) := ⟨by norm_num⟩

instance lawfulBEq_bytes : LawfulBEq Bytes := inferInstance

/-! ## Big-endian numbers -/

/-- The `k` low bytes of `n`, most significant first. -/
def beBytes : Nat → Nat → Bytes
  | 0, _ => []
  | k + 1, n => beBytes k (n / 256) ++ [UInt8.ofNat (n % 256)]

/-- A byte string read as a big-endian number. -/
def ofBe (b : Bytes) : Nat := b.foldl (fun acc byte => acc * 256 + byte.toNat) 0

@[simp] theorem beBytes_length (k n : Nat) : (beBytes k n).length = k := by
  induction k generalizing n with
  | zero => rfl
  | succ k ih => simp [beBytes, ih]

@[simp] theorem ofBe_nil : ofBe [] = 0 := rfl

theorem ofBe_append_singleton (b : Bytes) (x : UInt8) :
    ofBe (b ++ [x]) = ofBe b * 256 + x.toNat := by
  simp [ofBe]

/-- Reading back a written number gives it up to the width. -/
theorem ofBe_beBytes (k n : Nat) : ofBe (beBytes k n) = n % 256 ^ k := by
  induction k generalizing n with
  | zero => simp [beBytes, Nat.mod_one]
  | succ k ih =>
      have hbyte : (UInt8.ofNat (n % 256)).toNat = n % 256 := by simp
      rw [beBytes, ofBe_append_singleton, ih, hbyte, pow_succ', Nat.mod_mul]
      omega

theorem ofBe_beBytes_of_lt {k n : Nat} (h : n < 256 ^ k) : ofBe (beBytes k n) = n := by
  rw [ofBe_beBytes, Nat.mod_eq_of_lt h]

theorem ofBe_lt (b : Bytes) : ofBe b < 256 ^ b.length := by
  induction b using List.reverseRecOn with
  | nil => simp
  | append_singleton b x ih =>
      rw [ofBe_append_singleton, List.length_append, List.length_singleton, pow_succ]
      have hx : x.toNat < 256 := x.toNat_lt
      omega

/-! ## Words -/

/-- A number as one 32-byte word. -/
def word (n : Nat) : Bytes := beBytes 32 n

@[simp] theorem word_length (n : Nat) : (word n).length = 32 := beBytes_length 32 n

theorem ofBe_word {n : Nat} (h : n < 2 ^ 256) : ofBe (word n) = n :=
  ofBe_beBytes_of_lt (by norm_num at h ⊢; exact h)

theorem word_injective {m n : Nat} (hm : m < 2 ^ 256) (hn : n < 2 ^ 256) (h : word m = word n) :
    m = n := by
  rw [← ofBe_word hm, ← ofBe_word hn, h]

/-- The number in the 32 bytes at position `pos`, if they are there. -/
def readWord (buf : Bytes) (pos : Nat) : Option Nat :=
  if pos + 32 ≤ buf.length then some (ofBe ((buf.drop pos).take 32)) else none

/-- A word written after `pos` bytes is read back at `pos`. -/
theorem readWord_append {p q : Bytes} {n : Nat} (h : n < 2 ^ 256) :
    readWord (p ++ (word n ++ q)) p.length = some n := by
  have hlen : p.length + 32 ≤ (p ++ (word n ++ q)).length := by
    simp only [List.length_append, word_length]
    omega
  rw [readWord, if_pos hlen, List.drop_left, List.take_left' (word_length n), ofBe_word h]

theorem readWord_word_append {post : Bytes} {n : Nat} (h : n < 2 ^ 256) :
    readWord (word n ++ post) 0 = some n := by
  have hread := readWord_append (n := n) (p := []) (q := post) h
  simpa using hread

end P256Index
