import KalayRecord.LossyText

namespace KalayRecord.LossyText

theorem opening_one : ∀ k < 128, opening (.ofNat k) = .char (Char.ofNat k) := by decide

theorem opening_two : ∀ k < 32, 2 ≤ k →
    opening (.ofNat (k + 0xC0)) = .start { left := 1, bits := k } := by decide

theorem opening_three : ∀ k < 16, opening (.ofNat (k + 0xE0)) = .start
    { left := 2, low := if k = 0 then 0xA0 else 0x80, high := if k = 13 then 0x9F else 0xBF,
      bits := k } := by decide

theorem opening_four : ∀ k < 5, opening (.ofNat (k + 0xF0)) = .start
    { left := 3, low := if k = 0 then 0x90 else 0x80, high := if k = 4 then 0x8F else 0xBF,
      bits := k } := by decide

theorem toNat_tail {k : Nat} (hk : k < 64) : (UInt8.ofNat (k + 0x80)).toNat = k + 0x80 := by
  rw [UInt8.toNat_ofNat']
  omega

section Tail

variable {low high : UInt8} {bits k : Nat} (hk : k < 64) (hlow : low.toNat ≤ k + 0x80)
  (hhigh : k + 0x80 ≤ high.toNat) (bytes : Bytes)

include hk hlow hhigh

theorem tail_in_range : low ≤ .ofNat (k + 0x80) ∧ .ofNat (k + 0x80) ≤ high := by
  rw [UInt8.le_iff_toNat_le, UInt8.le_iff_toNat_le, toNat_tail hk]
  exact ⟨hlow, hhigh⟩

theorem decodeFrom_last :
    decodeFrom (some { left := 1, low, high, bits }) (.ofNat (k + 0x80) :: bytes) =
      Char.ofNat (64 * bits + k) :: decodeFrom none bytes := by
  rw [decodeFrom, if_pos (tail_in_range hk hlow hhigh), toNat_tail hk, Nat.add_sub_cancel]
  rfl

theorem decodeFrom_more (left : Nat) :
    decodeFrom (some { left := left + 2, low, high, bits }) (.ofNat (k + 0x80) :: bytes) =
      decodeFrom (some { left := left + 1, bits := 64 * bits + k }) bytes := by
  rw [decodeFrom, if_pos (tail_in_range hk hlow hhigh), toNat_tail hk, Nat.add_sub_cancel]
  rfl

end Tail

theorem decodeFrom_start {b : UInt8} {p : Pending} (h : opening b = .start p) (bytes : Bytes) :
    decodeFrom none (b :: bytes) = decodeFrom (some p) bytes := by
  rw [decodeFrom, resume, h]

theorem decodeFrom_utf8EncodeChar (c : Char) (bytes : Bytes) :
    decodeFrom none (String.utf8EncodeChar c ++ bytes) = c :: decodeFrom none bytes := by
  -- surrogates and all past U+10FFFF are no characters, so the bounds on second bytes hold
  have hvalid : c.val.toNat < 0xD800 ∨ 0xDFFF < c.val.toNat ∧ c.val.toNat < 0x110000 := c.valid
  have hchar : Char.ofNat c.val.toNat = c := Char.ofNat_toNat c
  unfold String.utf8EncodeChar
  generalize c.val.toNat = v at *
  have hmod (n : Nat) : n % 64 < 64 := Nat.mod_lt _ (by decide)
  have hlow (n : Nat) : (0x80 : UInt8).toNat ≤ n + 0x80 := Nat.le_add_left _ _
  have hhigh (n : Nat) : n % 64 + 0x80 ≤ (0xBF : UInt8).toNat := by
    have := hmod n
    simp
    omega
  dsimp only
  split
  · rw [List.singleton_append, decodeFrom, resume, opening_one v (by omega), hchar]
  split
  · rw [List.cons_append, List.singleton_append,
      decodeFrom_start (opening_two (v / 64 % 32) (by omega) (by omega)),
      decodeFrom_last (hmod v) (hlow _) (hhigh v)]
    rw [show 64 * (v / 64 % 32) + v % 64 = v by omega, hchar]
  split
  · have hsecond : (if v / 4096 % 16 = 0 then 0xA0 else 0x80 : UInt8).toNat ≤ v / 64 % 64 + 0x80 ∧
        v / 64 % 64 + 0x80 ≤ (if v / 4096 % 16 = 13 then 0x9F else 0xBF : UInt8).toNat := by
      constructor <;> split <;> simp <;> omega
    rw [List.cons_append, List.cons_append, List.singleton_append,
      decodeFrom_start (opening_three (v / 4096 % 16) (by omega)),
      decodeFrom_more (hmod _) hsecond.1 hsecond.2, decodeFrom_last (hmod v) (hlow _) (hhigh v)]
    rw [show 64 * (64 * (v / 4096 % 16) + v / 64 % 64) + v % 64 = v by omega, hchar]
  · have hsecond :
        (if v / 262144 % 8 = 0 then 0x90 else 0x80 : UInt8).toNat ≤ v / 4096 % 64 + 0x80 ∧
          v / 4096 % 64 + 0x80 ≤ (if v / 262144 % 8 = 4 then 0x8F else 0xBF : UInt8).toNat := by
      constructor <;> split <;> simp <;> omega
    rw [List.cons_append, List.cons_append, List.cons_append, List.singleton_append,
      decodeFrom_start (opening_four (v / 262144 % 8) (by omega)),
      decodeFrom_more (hmod _) hsecond.1 hsecond.2, decodeFrom_more (hmod _) (hlow _) (hhigh _),
      decodeFrom_last (hmod v) (hlow _) (hhigh v)]
    rw [show 64 * (64 * (64 * (v / 262144 % 8) + v / 4096 % 64) + v / 64 % 64) + v % 64 = v by
      omega, hchar]

/-- Text is read back from its UTF-8 bytes without loss. -/
theorem decode_toUTF8 (text : String) : decode text.toUTF8.data.toList = text := by
  have hbytes : text.toUTF8.data.toList = text.toList.flatMap String.utf8EncodeChar := by
    rw [show text.toUTF8 = text.toList.utf8Encode from String.utf8Encode_toList.symm]
    exact List.toList_data_toByteArray
  have hchars (chars : List Char) :
      decodeFrom none (chars.flatMap String.utf8EncodeChar) = chars := by
    induction chars with
    | nil => rfl
    | cons c chars ih => rw [List.flatMap_cons, decodeFrom_utf8EncodeChar, ih]
  rw [decode, hbytes, hchars, String.ofList_toList]

end KalayRecord.LossyText
