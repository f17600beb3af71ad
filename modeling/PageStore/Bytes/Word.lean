import PageStore.Bytes.Basic

/-!
# Words

Natural numbers as words of a fixed number of bytes, least significant byte first (`little`) or
last (`big`).  A number that does not fit loses its high part.  Reading undoes writing up to that
loss (`ofLittle_little`, `ofBig_big`), and every byte string is the word of its own number
(`little_ofLittle`, `big_ofBig`).
-/

namespace PageStore.Word

/-- How many words of a width there are. -/
def limit : (width : Nat) → Nat
  | 0 => 1
  | width + 1 => 256 * limit width

/-- The low `width` bytes of a number, least significant first. -/
def little : (width : Nat) → Nat → Bytes
  | 0, _ => []
  | width + 1, n => UInt8.ofNat n :: little width (n / 256)

/-- The number whose bytes are given, least significant first. -/
def ofLittle : Bytes → Nat
  | [] => 0
  | b :: rest => b.toNat + 256 * ofLittle rest

/-- The low `width` bytes of a number, most significant first. -/
def big (width n : Nat) : Bytes := (little width n).reverse

/-- The number whose bytes are given, most significant first. -/
def ofBig (bytes : Bytes) : Nat := ofLittle bytes.reverse

@[simp] theorem length_little (width n : Nat) : (little width n).length = width := by
  induction width generalizing n with
  | zero => rfl
  | succ width ih => simp [little, ih]

@[simp] theorem length_big (width n : Nat) : (big width n).length = width := by
  simp [big]

theorem ofLittle_little (width n : Nat) : ofLittle (little width n) = n % limit width := by
  induction width generalizing n with
  | zero => simp [little, ofLittle, limit, Nat.mod_one]
  | succ width ih =>
    have hb : (UInt8.ofNat n).toNat = n % 256 := by simp
    simp only [little, ofLittle, limit, ih, hb]
    rw [Nat.mod_mul]

theorem ofBig_big (width n : Nat) : ofBig (big width n) = n % limit width := by
  simp [ofBig, big, ofLittle_little]

theorem little_ofLittle (bytes : Bytes) : little bytes.length (ofLittle bytes) = bytes := by
  induction bytes with
  | nil => rfl
  | cons b rest ih =>
    have hb : b.toNat < 256 := b.toNat_lt
    have hdiv : (b.toNat + 256 * ofLittle rest) / 256 = ofLittle rest := by omega
    have hmod : UInt8.ofNat (b.toNat + 256 * ofLittle rest) = b := by
      apply UInt8.toNat_inj.1
      simp only [UInt8.toNat_ofNat']
      omega
    simp only [List.length_cons, little, ofLittle, hdiv, hmod, ih]

theorem big_ofBig (bytes : Bytes) : big bytes.length (ofBig bytes) = bytes := by
  have := little_ofLittle bytes.reverse
  simp only [List.length_reverse] at this
  simp [big, ofBig, this]

theorem ofLittle_lt (bytes : Bytes) : ofLittle bytes < limit bytes.length := by
  induction bytes with
  | nil => simp [ofLittle, limit]
  | cons b rest ih =>
    have hb : b.toNat < 256 := b.toNat_lt
    simp only [ofLittle, List.length_cons, limit]
    omega

theorem ofBig_lt (bytes : Bytes) : ofBig bytes < limit bytes.length := by
  simpa [ofBig] using ofLittle_lt bytes.reverse

end PageStore.Word
