import P256Index.Codec.Text

/-!
# Hexadecimal text

Bytes as pairs of hex digits. The writer uses lower case; the reader takes either case, so that what
it accepts, once lowered, is exactly what the writer would have written (`lower_of_decode`). Two
texts of one byte string therefore have one normal form.
-/

namespace P256Index.Hex

/-- The digit of a value below sixteen. -/
def digit (n : Nat) : Char :=
  ['0', '1', '2', '3', '4', '5', '6', '7', '8', '9', 'a', 'b', 'c', 'd', 'e', 'f'].getD n '0'

/-- The value of a digit, in either case. -/
def value : Char → Option Nat
  | '0' => some 0
  | '1' => some 1
  | '2' => some 2
  | '3' => some 3
  | '4' => some 4
  | '5' => some 5
  | '6' => some 6
  | '7' => some 7
  | '8' => some 8
  | '9' => some 9
  | 'a' => some 10
  | 'b' => some 11
  | 'c' => some 12
  | 'd' => some 13
  | 'e' => some 14
  | 'f' => some 15
  | 'A' => some 10
  | 'B' => some 11
  | 'C' => some 12
  | 'D' => some 13
  | 'E' => some 14
  | 'F' => some 15
  | _ => none

/-- The two digits of a byte, high half first. -/
def byteDigits (b : UInt8) : List Char := [digit (b.toNat / 16), digit (b.toNat % 16)]

def encodeChars (b : Bytes) : List Char := b.flatMap byteDigits

/-- `hex::encode`. -/
def encode (b : Bytes) : String := String.ofList (encodeChars b)

/-- `hex::decode`: an odd number of digits or a character that is no digit is refused. -/
def decodeChars : List Char → Option Bytes
  | [] => some []
  | [_] => none
  | hi :: lo :: rest =>
      match value hi, value lo, decodeChars rest with
      | some h, some l, some b => some (UInt8.ofNat (16 * h + l) :: b)
      | _, _, _ => none

@[simp] theorem toList_encode (b : Bytes) : (encode b).toList = encodeChars b :=
  String.toList_ofList

theorem value_digit {n : Nat} (h : n < 16) : value (digit n) = some n := by
  interval_cases n <;> rfl

theorem value_lt {c : Char} {n : Nat} (h : value c = some n) : n < 16 := by
  unfold value at h
  split at h <;> cases h <;> decide

theorem eq_zero_of_value {c : Char} (h : value c = some 0) : c = '0' := by
  unfold value at h
  split at h <;> cases h
  rfl

theorem eq_four_of_value {c : Char} (h : value c = some 4) : c = '4' := by
  unfold value at h
  split at h <;> cases h
  rfl

/-- A digit, once lowered, is the digit the writer uses. -/
theorem toLower_of_value {c : Char} {n : Nat} (h : value c = some n) : c.toLower = digit n := by
  unfold value at h
  split at h <;> cases h <;> rfl

theorem decodeChars_cons {hi lo : Char} {rest : List Char} {b : Bytes} :
    decodeChars (hi :: lo :: rest) = some b ↔
      ∃ h l r, value hi = some h ∧ value lo = some l ∧ decodeChars rest = some r ∧
        b = UInt8.ofNat (16 * h + l) :: r := by
  rw [decodeChars]
  split
  · rename_i h l r hh hl hr
    constructor
    · intro hb
      exact ⟨h, l, r, hh, hl, hr, (Option.some.inj hb).symm⟩
    · rintro ⟨h', l', r', hh', hl', hr', rfl⟩
      cases hh.symm.trans hh'
      cases hl.symm.trans hl'
      cases hr.symm.trans hr'
      rfl
  · rename_i hno
    constructor
    · intro hb
      cases hb
    · rintro ⟨h', l', r', hh', hl', hr', -⟩
      exact (hno h' l' r' hh' hl' hr').elim

/-- The reader looks at the values of the digits only. -/
theorem decodeChars_congr {cs ds : List Char} (h : cs.map value = ds.map value) :
    decodeChars cs = decodeChars ds := by
  have hlen : cs.length = ds.length := by simpa using congrArg List.length h
  induction cs using decodeChars.induct generalizing ds with
  | case1 => rw [List.length_eq_zero_iff.mp hlen.symm]
  | case2 c =>
      obtain ⟨d, rfl⟩ := List.length_eq_one_iff.mp hlen.symm
      rfl
  | case3 hi lo rest x y r hr hy hx ih =>
      match ds, h, hlen with
      | hi' :: lo' :: rest', h, hlen =>
          simp only [List.map_cons, List.cons.injEq] at h
          simp only [List.length_cons, Nat.add_right_cancel_iff] at hlen
          simp only [decodeChars, h.1, h.2.1, ih h.2.2 hlen]
  | case4 hi lo rest hno ih =>
      match ds, h, hlen with
      | hi' :: lo' :: rest', h, hlen =>
          simp only [List.map_cons, List.cons.injEq] at h
          simp only [List.length_cons, Nat.add_right_cancel_iff] at hlen
          simp only [decodeChars, h.1, h.2.1, ih h.2.2 hlen]

theorem decodeChars_encodeChars (b : Bytes) : decodeChars (encodeChars b) = some b := by
  induction b with
  | nil => rfl
  | cons x b ih =>
      have hlt := x.toNat_lt
      show decodeChars
          (digit (x.toNat / 16) :: digit (x.toNat % 16) :: encodeChars b) = some (x :: b)
      apply decodeChars_cons.mpr
      refine ⟨x.toNat / 16, x.toNat % 16, b, value_digit (by omega), value_digit (by omega), ih, ?_⟩
      rw [Nat.div_add_mod, UInt8.ofNat_toNat]

theorem encodeChars_injective : Function.Injective encodeChars := by
  intro b b' h
  have hdec := decodeChars_encodeChars b
  rw [h, decodeChars_encodeChars] at hdec
  exact (Option.some.inj hdec).symm

theorem encode_injective : Function.Injective encode := by
  intro b b' h
  apply encodeChars_injective
  rw [← toList_encode, h, toList_encode]

theorem encodeChars_length (b : Bytes) : (encodeChars b).length = 2 * b.length := by
  induction b with
  | nil => rfl
  | cons x b ih =>
      show (encodeChars b).length + 2 = 2 * (b.length + 1)
      omega

/-- Accepted text is the written text up to case. -/
theorem lower_of_decode {cs : List Char} {b : Bytes} (h : decodeChars cs = some b) :
    cs.map Char.toLower = encodeChars b := by
  induction cs using decodeChars.induct generalizing b with
  | case1 =>
      cases h
      rfl
  | case2 c => cases h
  | case3 hi lo rest x y r hr hy hx ih =>
      obtain ⟨h', l', r', hh, hl, hr', rfl⟩ := decodeChars_cons.mp h
      have hh' := value_lt hh
      have hl' := value_lt hl
      have hbyte : (UInt8.ofNat (16 * h' + l')).toNat = 16 * h' + l' := by
        rw [UInt8.toNat_ofNat']
        omega
      have hdiv : (16 * h' + l') / 16 = h' := by omega
      have hmod : (16 * h' + l') % 16 = l' := by omega
      rw [List.map_cons, List.map_cons, toLower_of_value hh, toLower_of_value hl, ih hr']
      show _ = byteDigits (UInt8.ofNat (16 * h' + l')) ++ encodeChars r'
      rw [byteDigits, hbyte, hdiv, hmod]
      rfl
  | case4 hi lo rest hno ih =>
      obtain ⟨h', l', r', hh, hl, hr', -⟩ := decodeChars_cons.mp h
      exact (hno h' l' r' hh hl hr').elim

theorem length_of_decode {cs : List Char} {b : Bytes} (h : decodeChars cs = some b) :
    cs.length = 2 * b.length := by
  rw [← encodeChars_length, ← lower_of_decode h, List.length_map]

/-- Every digit of a text that is read has a value. -/
theorem value_isSome_of_decode {cs : List Char} {b : Bytes} (h : decodeChars cs = some b) :
    ∀ c ∈ cs, (value c).isSome := by
  induction cs using decodeChars.induct generalizing b with
  | case1 => simp
  | case2 c => cases h
  | case3 hi lo rest x y r hr hy hx ih =>
      rw [List.forall_mem_cons, List.forall_mem_cons, hx, hy]
      exact ⟨rfl, rfl, ih hr⟩
  | case4 hi lo rest hno ih =>
      obtain ⟨h', l', r', hh, hl, hr', -⟩ := decodeChars_cons.mp h
      exact (hno h' l' r' hh hl hr').elim

/-- Every text of digits of even length is accepted. -/
theorem exists_decode {cs : List Char} (hdig : ∀ c ∈ cs, (value c).isSome)
    (hlen : cs.length % 2 = 0) : ∃ b, decodeChars cs = some b := by
  induction cs using decodeChars.induct with
  | case1 => exact ⟨[], rfl⟩
  | case2 c => cases hlen
  | case3 hi lo rest x y r hr hy hx ih => exact ⟨_, decodeChars_cons.mpr ⟨x, y, r, hx, hy, hr, rfl⟩⟩
  | case4 hi lo rest hno ih =>
      simp only [List.forall_mem_cons] at hdig
      obtain ⟨h, hh⟩ := Option.isSome_iff_exists.mp hdig.1
      obtain ⟨l, hl⟩ := Option.isSome_iff_exists.mp hdig.2.1
      have hrest : rest.length % 2 = 0 := by
        rw [List.length_cons, List.length_cons] at hlen
        omega
      obtain ⟨b, hb⟩ := ih hdig.2.2 hrest
      exact (hno h l b hh hl hb).elim

/-! ## Digits as text -/

/-- A written digit is one that is read. -/
theorem value_isSome_of_mem {c : Char} {b : Bytes} (h : c ∈ encodeChars b) : (value c).isSome := by
  obtain ⟨x, -, hc⟩ := List.mem_flatMap.mp h
  have hlt := x.toNat_lt
  have hdigit : ∃ n < 16, c = digit n := by
    rcases List.mem_pair.mp hc with rfl | rfl
    · exact ⟨x.toNat / 16, by omega, rfl⟩
    · exact ⟨x.toNat % 16, by omega, rfl⟩
  obtain ⟨n, hn, rfl⟩ := hdigit
  rw [value_digit hn]
  rfl

/-- Digits are ASCII, so that digits and bytes of a text are counted alike. -/
theorem utf8_length_of_digits {cs : List Char} (h : ∀ c ∈ cs, (value c).isSome) :
    (utf8 (String.ofList cs)).length = cs.length := by
  rw [utf8, String.toList_ofList, List.length_flatMap]
  have hone : cs.map (fun c => (String.utf8EncodeChar c).length) = cs.map fun _ => 1 := by
    apply List.map_congr_left
    intro c hc
    obtain ⟨n, hn⟩ := Option.isSome_iff_exists.mp (h c hc)
    unfold value at hn
    split at hn <;> cases hn <;> rfl
  rw [hone]
  simp

theorem lower_encodeChars (b : Bytes) : (encodeChars b).map Char.toLower = encodeChars b :=
  lower_of_decode (decodeChars_encodeChars b)

end P256Index.Hex
