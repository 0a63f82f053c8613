namespace KalayRecord

abbrev Bytes := List UInt8

def ofLittleEndian : Bytes → Nat
  | [] => 0
  | b :: bytes => b.toNat + 256 * ofLittleEndian bytes

def ofBigEndian (bytes : Bytes) : Nat := ofLittleEndian bytes.reverse

/-- The last `n` base-256 digits of `v`, least significant first. -/
def toLittleEndian : (n : Nat) → (v : Nat) → Bytes
  | 0, _ => []
  | n + 1, v => UInt8.ofNat v :: toLittleEndian n (v / 256)

def toBigEndian (n v : Nat) : Bytes := (toLittleEndian n v).reverse

@[simp] theorem toLittleEndian_length (n v : Nat) : (toLittleEndian n v).length = n := by
  induction n generalizing v with
  | zero => rfl
  | succ n ih => simp [toLittleEndian, ih]

@[simp] theorem toBigEndian_length (n v : Nat) : (toBigEndian n v).length = n := by
  simp [toBigEndian]

theorem toLittleEndian_ofLittleEndian (bytes : Bytes) :
    toLittleEndian bytes.length (ofLittleEndian bytes) = bytes := by
  induction bytes with
  | nil => rfl
  | cons b bytes ih =>
    have hb := b.toNat_lt
    have hdiv : (b.toNat + 256 * ofLittleEndian bytes) / 256 = ofLittleEndian bytes := by omega
    have hmod : UInt8.ofNat (b.toNat + 256 * ofLittleEndian bytes) = b := by
      apply UInt8.toNat_inj.mp
      rw [UInt8.toNat_ofNat']
      omega
    simp [toLittleEndian, ofLittleEndian, hdiv, hmod, ih]

/-- The little-endian 32-bit numbers in `bytes`; fewer than four bytes at the end are no number. -/
def words : Bytes → List UInt32
  | a :: b :: c :: d :: bytes => UInt32.ofNat (ofLittleEndian [a, b, c, d]) :: words bytes
  | _ => []

def ofWords (items : List UInt32) : Bytes := items.flatMap fun w => toLittleEndian 4 w.toNat

end KalayRecord
