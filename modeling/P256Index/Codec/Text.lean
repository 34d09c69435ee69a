import P256Index.Codec.Bytes

/-!
# Text as bytes

Strings travel as their UTF-8 bytes. `utf8` is the byte view (`as_bytes` of the services, the bytes
of a literal in the contract); it loses nothing (`utf8_injective`).
-/

namespace P256Index

/-- The UTF-8 bytes of a string. -/
def utf8 (s : String) : Bytes := s.toList.flatMap String.utf8EncodeChar

theorem utf8_eq_data (s : String) : utf8 s = s.toByteArray.data.toList := by
  rw [← String.utf8Encode_toList, utf8, List.utf8Encode]
  simp

theorem utf8_injective : Function.Injective utf8 := by
  intro s t h
  rw [utf8_eq_data, utf8_eq_data] at h
  have hdata : s.toByteArray.data = t.toByteArray.data := Array.toList_inj.mp h
  exact String.toByteArray_inj.mp (ByteArray.ext hdata)

theorem utf8_append (s t : String) : utf8 (s ++ t) = utf8 s ++ utf8 t := by
  simp [utf8]

/-- A text has at least as many bytes as characters. -/
theorem length_le_utf8 (s : String) : s.toList.length ≤ (utf8 s).length := by
  rw [utf8, List.length_flatMap]
  have hsum := List.length_le_sum_of_one_le (s.toList.map fun c => (String.utf8EncodeChar c).length)
  rw [List.length_map] at hsum
  apply hsum
  intro n hn
  obtain ⟨c, -, rfl⟩ := List.mem_map.mp hn
  rw [String.length_utf8EncodeChar]
  exact Char.utf8Size_pos c

/-- ASCII bytes as text. -/
def asciiText (bytes : Bytes) : String :=
  String.ofList (bytes.map fun byte => Char.ofNat byte.toNat)

theorem utf8EncodeChar_ascii :
    ∀ n < 128, String.utf8EncodeChar (Char.ofNat n) = [UInt8.ofNat n] := by
  decide +kernel

theorem utf8_asciiText {bytes : Bytes} (h : ∀ byte ∈ bytes, byte.toNat < 128) :
    utf8 (asciiText bytes) = bytes := by
  rw [utf8, asciiText, String.toList_ofList]
  induction bytes with
  | nil => rfl
  | cons byte bytes ih =>
      rw [List.forall_mem_cons] at h
      rw [List.map_cons, List.flatMap_cons, ih h.2, utf8EncodeChar_ascii _ h.1, UInt8.ofNat_toNat]
      rfl

end P256Index
