import P256Index.Codec.Text

/-!
# Unpadded base64url

The encoding of RFC 4648 section 5 without padding: three bytes are four characters, a remainder of
one or two bytes is two or three. `decode` is strict (unknown characters, impossible lengths and
non-zero filler bits are refused) and inverts `encode`, so `encode` is injective.
-/

namespace P256Index.Base64Url

/-- The URL-safe alphabet: capital letters, small letters, digits, `-` and `_`. -/
def alphabet : Bytes :=
  (List.range 26).map (fun i => UInt8.ofNat (65 + i)) ++
    (List.range 26).map (fun i => UInt8.ofNat (97 + i)) ++
      (List.range 10).map (fun i => UInt8.ofNat (48 + i)) ++ [45, 95]

theorem alphabet_length : alphabet.length = 64 := by decide +kernel

theorem alphabet_nodup : alphabet.Nodup := by decide +kernel

/-- The character of the low six bits of `n`. -/
def sextet (n : Nat) : UInt8 := alphabet.getD (n % 64) 0

/-- The six bits of a character. -/
def ofSextet (c : UInt8) : Option Nat :=
  if c ∈ alphabet then some (alphabet.idxOf c) else none

theorem ofSextet_sextet (n : Nat) : ofSextet (sextet n) = some (n % 64) := by
  have hlt : n % 64 < alphabet.length := by
    rw [alphabet_length]
    exact Nat.mod_lt _ (by norm_num)
  have hget : sextet n = alphabet[n % 64] := by
    rw [sextet, List.getD_eq_getElem _ _ hlt]
  have hidx : alphabet.idxOf alphabet[n % 64] = n % 64 := alphabet_nodup.idxOf_getElem _ hlt
  rw [hget, ofSextet, if_pos (List.getElem_mem hlt), hidx]

/-- Base64url without padding. -/
def encode : Bytes → Bytes
  | a :: b :: c :: rest =>
      let n := a.toNat * 65536 + b.toNat * 256 + c.toNat
      sextet (n / 262144) :: sextet (n / 4096) :: sextet (n / 64) :: sextet n :: encode rest
  | [a, b] =>
      let n := a.toNat * 256 + b.toNat
      [sextet (n / 1024), sextet (n / 16), sextet (n * 4)]
  | [a] => [sextet (a.toNat / 4), sextet (a.toNat * 16)]
  | [] => []

/-- The strict reading of an unpadded base64url text. -/
def decode : Bytes → Option Bytes
  | w :: x :: y :: z :: rest => do
      let w ← ofSextet w
      let x ← ofSextet x
      let y ← ofSextet y
      let z ← ofSextet z
      let tail ← decode rest
      let n := ((w * 64 + x) * 64 + y) * 64 + z
      pure (UInt8.ofNat (n / 65536) :: UInt8.ofNat (n / 256) :: UInt8.ofNat n :: tail)
  | [w, x, y] => do
      let w ← ofSextet w
      let x ← ofSextet x
      let y ← ofSextet y
      let n := (w * 64 + x) * 64 + y
      if n % 4 = 0 then pure [UInt8.ofNat (n / 1024), UInt8.ofNat (n / 4)] else none
  | [w, x] => do
      let w ← ofSextet w
      let x ← ofSextet x
      let n := w * 64 + x
      if n % 16 = 0 then pure [UInt8.ofNat (n / 16)] else none
  | [_] => none
  | [] => some []

/-- A byte is recovered from any number that agrees with it modulo 256. -/
theorem ofNat_eq_of_mod {a : UInt8} {n : Nat} (h : n % 256 = a.toNat) : UInt8.ofNat n = a := by
  apply UInt8.toNat_inj.mp
  rw [UInt8.toNat_ofNat']
  exact h

theorem decode_encode (b : Bytes) : decode (encode b) = some b := by
  induction b using encode.induct with
  | case1 a b c rest ih =>
      have ha := a.toNat_lt
      have hb := b.toNat_lt
      have hc := c.toNat_lt
      simp only [encode, decode, ofSextet_sextet, ih, Option.bind_eq_bind, Option.bind_some,
        Option.pure_def]
      congr 2
      · exact ofNat_eq_of_mod (by omega)
      · congr 1
        · exact ofNat_eq_of_mod (by omega)
        · congr 1
          exact ofNat_eq_of_mod (by omega)
  | case2 a b =>
      have ha := a.toNat_lt
      have hb := b.toNat_lt
      simp only [encode, decode, ofSextet_sextet, Option.bind_eq_bind, Option.bind_some,
        Option.pure_def]
      rw [if_pos (by omega)]
      congr 2
      · exact ofNat_eq_of_mod (by omega)
      · congr 1
        exact ofNat_eq_of_mod (by omega)
  | case3 a =>
      have ha := a.toNat_lt
      simp only [encode, decode, ofSextet_sextet, Option.bind_eq_bind, Option.bind_some,
        Option.pure_def]
      rw [if_pos (by omega)]
      congr 2
      exact ofNat_eq_of_mod (by omega)
  | case4 => rfl

theorem encode_injective : Function.Injective encode := by
  intro a b h
  have ha := decode_encode a
  rw [h, decode_encode] at ha
  exact (Option.some.inj ha).symm

theorem sextet_mem (n : Nat) : sextet n ∈ alphabet := by
  have hlt : n % 64 < alphabet.length := by
    rw [alphabet_length]
    exact Nat.mod_lt n (by decide)
  rw [sextet, List.getD_eq_getElem _ _ hlt]
  exact List.getElem_mem hlt

theorem encode_subset (b : Bytes) : encode b ⊆ alphabet := by
  fun_induction encode b <;> simp_all [sextet_mem]

/-- The text is ASCII. -/
theorem encode_ascii (b : Bytes) : ∀ c ∈ encode b, c.toNat < 128 := by
  have hascii : ∀ c ∈ alphabet, c.toNat < 128 := by decide +kernel
  exact fun c hc => hascii c (encode_subset b hc)

/-- Four characters for three bytes, and no padding. -/
theorem encode_length (b : Bytes) : (encode b).length = (4 * b.length + 2) / 3 := by
  fun_induction encode b
  case case1 a b c rest n ih =>
    simp only [List.length_cons]
    omega
  all_goals simp

end P256Index.Base64Url
