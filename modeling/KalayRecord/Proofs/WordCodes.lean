import Mathlib.Algebra.Group.Int.Defs
import Mathlib.Algebra.GroupWithZero.Nat
import KalayRecord.ByteOrder

namespace KalayRecord

theorem ofLittleEndian_lt (bytes : Bytes) : ofLittleEndian bytes < 256 ^ bytes.length := by
  induction bytes with
  | nil => simp [ofLittleEndian]
  | cons b bytes ih =>
    have hb := b.toNat_lt
    simp only [ofLittleEndian, List.length_cons, Nat.pow_succ]
    omega

theorem ofLittleEndian_toLittleEndian (n v : Nat) :
    ofLittleEndian (toLittleEndian n v) = v % 256 ^ n := by
  induction n generalizing v with
  | zero => simp [toLittleEndian, ofLittleEndian, Nat.mod_one]
  | succ n ih =>
    have hmod : v % 256 ^ (n + 1) = v % 256 + 256 * (v / 256 % 256 ^ n) := by
      rw [Nat.pow_succ', Nat.mod_mul]
    rw [hmod, toLittleEndian, ofLittleEndian, ih, UInt8.toNat_ofNat']

theorem toLittleEndian_of_length {n : Nat} {bytes : Bytes} (h : bytes.length = n) :
    toLittleEndian n (ofLittleEndian bytes) = bytes := by
  subst h
  exact toLittleEndian_ofLittleEndian bytes

theorem ofLittleEndian_lt_of_length {n : Nat} {bytes : Bytes} (h : bytes.length = n) :
    ofLittleEndian bytes < 256 ^ n := by
  subst h
  exact ofLittleEndian_lt bytes

theorem uint16_decode_encode (x : UInt16) :
    UInt16.ofNat (ofLittleEndian (toLittleEndian 2 x.toNat)) = x := by
  have hlt : x.toNat < 256 ^ 2 := x.toNat_lt
  rw [ofLittleEndian_toLittleEndian, Nat.mod_eq_of_lt hlt, UInt16.ofNat_toNat]

theorem uint16_encode_decode {bytes : Bytes} (h : bytes.length = 2) :
    toLittleEndian 2 (UInt16.ofNat (ofLittleEndian bytes)).toNat = bytes := by
  have hlt : ofLittleEndian bytes < UInt16.size := ofLittleEndian_lt_of_length h
  rw [UInt16.toNat_ofNat_of_lt' hlt, toLittleEndian_of_length h]

theorem uint32_decode_encode (x : UInt32) :
    UInt32.ofNat (ofLittleEndian (toLittleEndian 4 x.toNat)) = x := by
  have hlt : x.toNat < 256 ^ 4 := x.toNat_lt
  rw [ofLittleEndian_toLittleEndian, Nat.mod_eq_of_lt hlt, UInt32.ofNat_toNat]

theorem uint32_encode_decode {bytes : Bytes} (h : bytes.length = 4) :
    toLittleEndian 4 (UInt32.ofNat (ofLittleEndian bytes)).toNat = bytes := by
  have hlt : ofLittleEndian bytes < UInt32.size := ofLittleEndian_lt_of_length h
  rw [UInt32.toNat_ofNat_of_lt' hlt, toLittleEndian_of_length h]

theorem uint64_decode_encode (x : UInt64) :
    UInt64.ofNat (ofLittleEndian (toLittleEndian 8 x.toNat)) = x := by
  have hlt : x.toNat < 256 ^ 8 := x.toNat_lt
  rw [ofLittleEndian_toLittleEndian, Nat.mod_eq_of_lt hlt, UInt64.ofNat_toNat]

theorem uint64_encode_decode {bytes : Bytes} (h : bytes.length = 8) :
    toLittleEndian 8 (UInt64.ofNat (ofLittleEndian bytes)).toNat = bytes := by
  have hlt : ofLittleEndian bytes < UInt64.size := ofLittleEndian_lt_of_length h
  rw [UInt64.toNat_ofNat_of_lt' hlt, toLittleEndian_of_length h]

theorem uint32BigEndian_decode_encode (x : UInt32) :
    UInt32.ofNat (ofBigEndian (toBigEndian 4 x.toNat)) = x := by
  rw [ofBigEndian, toBigEndian, List.reverse_reverse, uint32_decode_encode]

theorem uint32BigEndian_encode_decode {bytes : Bytes} (h : bytes.length = 4) :
    toBigEndian 4 (UInt32.ofNat (ofBigEndian bytes)).toNat = bytes := by
  rw [ofBigEndian, toBigEndian, uint32_encode_decode (by rw [List.length_reverse, h]),
    List.reverse_reverse]

@[simp] theorem ofWords_cons (w : UInt32) (items : List UInt32) :
    ofWords (w :: items) = toLittleEndian 4 w.toNat ++ ofWords items := rfl

@[simp] theorem ofWords_length (items : List UInt32) : (ofWords items).length = 4 * items.length := by
  induction items with
  | nil => rfl
  | cons w items ih =>
    rw [ofWords_cons, List.length_append, ih, toLittleEndian_length, List.length_cons]
    omega

theorem words_append {bytes : Bytes} (h : bytes.length = 4) (rest : Bytes) :
    words (bytes ++ rest) = UInt32.ofNat (ofLittleEndian bytes) :: words rest := by
  match bytes, h with
  | [a, b, c, d], _ => rfl

theorem words_ofWords (items : List UInt32) : words (ofWords items) = items := by
  induction items with
  | nil => rfl
  | cons w items ih =>
    rw [ofWords_cons, words_append (toLittleEndian_length 4 _), uint32_decode_encode, ih]

/-- A run of bytes that parts into fours is that of its words. -/
theorem ofWords_words {n : Nat} {bytes : Bytes} (h : bytes.length = 4 * n) :
    ofWords (words bytes) = bytes ∧ (words bytes).length = n := by
  induction n generalizing bytes with
  | zero =>
    obtain rfl := List.length_eq_zero_iff.mp h
    exact ⟨rfl, rfl⟩
  | succ n ih =>
    have hfirst : (bytes.take 4).length = 4 := by
      rw [List.length_take]
      omega
    have hdrop : (bytes.drop 4).length = 4 * n := by
      rw [List.length_drop]
      omega
    obtain ⟨hrest, hlen⟩ := ih hdrop
    rw [← List.take_append_drop 4 bytes, words_append hfirst]
    constructor
    · rw [ofWords_cons, uint32_encode_decode hfirst, hrest]
    · rw [List.length_cons, hlen]

end KalayRecord
