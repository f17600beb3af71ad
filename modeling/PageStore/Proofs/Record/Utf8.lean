import PageStore.Bytes.Utf8
import PageStore.Proofs.Answers

/-!
# Reading back encoded texts

The bytes of a text are read back as that text (`Utf8.decode_encode`).  One character after another
is read.  A character has one to four bytes, and for each number of bytes one lemma says which
character `decodeFrom` reads, given the bits that the bytes carry.

Nothing else is read as a text: bytes that are read are those of the text (`Utf8.decode_eq_ok_iff`).
-/

namespace PageStore.Utf8

variable {index : Nat} {lead b c d : UInt8} {bytes rest : Bytes} {text : List Char}
  {n u v w x : Nat}

theorem toNat_ofNat_of_lt (lt : n < 256) : (UInt8.ofNat n).toNat = n := by
  rw [UInt8.toNat_ofNat']
  exact Nat.mod_eq_of_lt lt

/-! ## One character -/

theorem isTail_iff : isTail b = true ↔ 0x80 ≤ b.toNat ∧ b.toNat < 0xC0 := by
  rw [isTail, Bool.and_eq_true, decide_eq_true_eq, decide_eq_true_eq]

/-- A byte after the first carries six bits. -/
theorem isTail_of_bits (byte : b.toNat = 0x80 + v) (lt : v < 64) :
    isTail b = true ∧ tailBits b = v :=
  ⟨isTail_iff.2 (by omega), Nat.sub_eq_of_eq_add (by rw [byte, Nat.add_comm])⟩

theorem isSecondOfThree_of (tail : isTail b = true) (low : lead.toNat = 0xE0 → 0xA0 ≤ b.toNat)
    (high : lead.toNat = 0xED → b.toNat < 0xA0) : isSecondOfThree lead b = true := by
  simp only [isSecondOfThree, tail, Bool.true_and, Bool.and_eq_true, Bool.or_eq_true,
    decide_eq_true_eq]
  refine ⟨?_, ?_⟩
  · by_cases same : lead = 0xE0
    · exact .inr (low (by rw [same]; rfl))
    · exact .inl same
  · by_cases same : lead = 0xED
    · exact .inr (high (by rw [same]; rfl))
    · exact .inl same

theorem isSecondOfFour_of (tail : isTail b = true) (low : lead.toNat = 0xF0 → 0x90 ≤ b.toNat)
    (high : lead.toNat = 0xF4 → b.toNat < 0x90) : isSecondOfFour lead b = true := by
  simp only [isSecondOfFour, tail, Bool.true_and, Bool.and_eq_true, Bool.or_eq_true,
    decide_eq_true_eq]
  refine ⟨?_, ?_⟩
  · by_cases same : lead = 0xF0
    · exact .inr (low (by rw [same]; rfl))
    · exact .inl same
  · by_cases same : lead = 0xF4
    · exact .inr (high (by rw [same]; rfl))
    · exact .inl same

theorem decodeFrom_one (first : lead.toNat = u) (lt : u < 0x80) :
    decodeFrom index (lead :: rest) = (decodeFrom (index + 1) rest).map (Char.ofNat u :: ·) := by
  have width : width lead = 1 := by rw [width, if_pos (by omega)]
  rw [decodeFrom.eq_def]
  simp only [width, first]

theorem decodeFrom_two (first : lead.toNat = 0xC0 + u) (second : b.toNat = 0x80 + v)
    (le : 2 ≤ u) (lt : u < 32) (bits : v < 64) :
    decodeFrom index (lead :: b :: rest) =
      (decodeFrom (index + 2) rest).map (Char.ofNat (u * 64 + v) :: ·) := by
  have width : width lead = 2 := by
    rw [width, if_neg (by omega), if_neg (by omega), if_pos (by omega)]
  obtain ⟨tail, value⟩ := isTail_of_bits second bits
  rw [decodeFrom.eq_def]
  simp only [width, tail, value, first, if_true, Nat.add_sub_cancel_left]

theorem decodeFrom_three (first : lead.toNat = 0xE0 + u) (second : b.toNat = 0x80 + v)
    (third : c.toNat = 0x80 + w) (lt : u < 16) (bits : v < 64) (bits' : w < 64)
    (low : u = 0 → 32 ≤ v) (high : u = 13 → v < 32) :
    decodeFrom index (lead :: b :: c :: rest) =
      (decodeFrom (index + 3) rest).map (Char.ofNat (u * 4096 + v * 64 + w) :: ·) := by
  have width : width lead = 3 := by
    rw [width, if_neg (by omega), if_neg (by omega), if_neg (by omega), if_pos (by omega)]
  obtain ⟨tail, value⟩ := isTail_of_bits second bits
  obtain ⟨tail', value'⟩ := isTail_of_bits third bits'
  have allowed : isSecondOfThree lead b = true :=
    isSecondOfThree_of tail (by omega) (by omega)
  rw [decodeFrom.eq_def]
  simp only [width, allowed, value, tail', value', first, if_true, Nat.add_sub_cancel_left]

theorem decodeFrom_four (first : lead.toNat = 0xF0 + u) (second : b.toNat = 0x80 + v)
    (third : c.toNat = 0x80 + w) (fourth : d.toNat = 0x80 + x) (lt : u < 5) (bits : v < 64)
    (bits' : w < 64) (bits'' : x < 64) (low : u = 0 → 16 ≤ v) (high : u = 4 → v < 16) :
    decodeFrom index (lead :: b :: c :: d :: rest) =
      (decodeFrom (index + 4) rest).map
        (Char.ofNat (u * 262144 + v * 4096 + w * 64 + x) :: ·) := by
  have width : width lead = 4 := by
    rw [width, if_neg (by omega), if_neg (by omega), if_neg (by omega), if_neg (by omega),
      if_pos (by omega)]
  obtain ⟨tail, value⟩ := isTail_of_bits second bits
  obtain ⟨tail', value'⟩ := isTail_of_bits third bits'
  obtain ⟨tail'', value''⟩ := isTail_of_bits fourth bits''
  have allowed : isSecondOfFour lead b = true := isSecondOfFour_of tail (by omega) (by omega)
  rw [decodeFrom.eq_def]
  simp only [width, allowed, value, tail', value', tail'', value'', first, if_true,
    Nat.add_sub_cancel_left]

theorem sixBits_twice (n : Nat) :
    n / 262144 * 262144 + n / 4096 % 64 * 4096 = n / 4096 * 4096 := by
  have high : n / 262144 = n / 4096 / 64 := by rw [Nat.div_div_eq_div_mul]
  rw [high]
  generalize n / 4096 = m
  omega

/-- Reading a byte string that begins with an encoded character gives that character first. -/
theorem decodeFrom_encodeChar (index : Nat) (char : Char) (rest : Bytes) :
    decodeFrom index (encodeChar char ++ rest) =
      (decodeFrom (index + (encodeChar char).length) rest).map (char :: ·) := by
  have valid : char.toNat < 0xD800 ∨ 0xDFFF < char.toNat ∧ char.toNat < 0x110000 := char.valid
  have same : Char.ofNat char.toNat = char := Char.ofNat_toNat char
  unfold encodeChar
  generalize char.toNat = n at valid same
  subst same
  have split₂ : n / 64 * 64 + n % 64 = n := by omega
  have split₃ : n / 4096 * 4096 + n / 64 % 64 * 64 + n % 64 = n := by omega
  have split₄ : n / 262144 * 262144 + n / 4096 % 64 * 4096 + n / 64 % 64 * 64 + n % 64 = n := by
    rw [sixBits_twice]
    exact split₃
  dsimp only
  split
  · exact decodeFrom_one (toNat_ofNat_of_lt (by omega)) (by omega)
  split
  · refine (decodeFrom_two
      (toNat_ofNat_of_lt (n := 0xC0 + n / 64) (by omega))
      (toNat_ofNat_of_lt (n := 0x80 + n % 64) (by omega)) (by omega) (by omega) (by omega)).trans ?_
    rw [split₂]
    rfl
  split
  · refine (decodeFrom_three
      (toNat_ofNat_of_lt (n := 0xE0 + n / 4096) (by omega))
      (toNat_ofNat_of_lt (n := 0x80 + n / 64 % 64) (by omega))
      (toNat_ofNat_of_lt (n := 0x80 + n % 64) (by omega)) (by omega) (by omega) (by omega)
      (by omega) (by omega)).trans ?_
    rw [split₃]
    rfl
  · refine (decodeFrom_four
      (toNat_ofNat_of_lt (n := 0xF0 + n / 262144) (by omega))
      (toNat_ofNat_of_lt (n := 0x80 + n / 4096 % 64) (by omega))
      (toNat_ofNat_of_lt (n := 0x80 + n / 64 % 64) (by omega))
      (toNat_ofNat_of_lt (n := 0x80 + n % 64) (by omega)) (by omega) (by omega) (by omega)
      (by omega) (by omega) (by omega)).trans ?_
    rw [split₄]
    rfl

theorem decodeFrom_encode (index : Nat) (text : List Char) :
    decodeFrom index (encode text) = .ok text := by
  induction text generalizing index with
  | nil => simp [decodeFrom]
  | cons c text ih =>
    rw [encode_cons, decodeFrom_encodeChar, ih]
    rfl

/-- An encoded text is read back. -/
theorem decode_encode (text : List Char) : decode (encode text) = .ok text :=
  decodeFrom_encode 0 text

/-! ## Bytes that are read -/

theorem toNat_charOfNat (valid : n < 0xD800 ∨ 0xDFFF < n ∧ n < 0x110000) :
    (Char.ofNat n).toNat = n := by
  rw [Char.ofNat, dif_pos (show n.isValidChar from valid)]
  rfl

theorem ofNat_eq (same : n = b.toNat) : UInt8.ofNat n = b := by
  rw [same, UInt8.ofNat_toNat]

/-- The number of bytes of a character says where its first byte lies. -/
theorem lead_of_width (lead : UInt8) :
    (width lead = 1 → lead.toNat < 0x80) ∧
      (width lead = 2 → 0xC2 ≤ lead.toNat ∧ lead.toNat < 0xE0) ∧
      (width lead = 3 → 0xE0 ≤ lead.toNat ∧ lead.toNat < 0xF0) ∧
      (width lead = 4 → 0xF0 ≤ lead.toNat ∧ lead.toNat < 0xF5) := by
  unfold width
  grind

theorem bound_of_or {first : UInt8} {bound : Prop} [Decidable bound]
    (either : (decide (lead ≠ first) || decide bound) = true) (same : lead.toNat = first.toNat) :
    bound := by
  rw [Bool.or_eq_true, decide_eq_true_eq, decide_eq_true_eq] at either
  exact either.resolve_left (not_not_intro (UInt8.toNat_inj.1 same))

theorem bounds_of_isSecondOfThree (second : isSecondOfThree lead b = true) :
    (0x80 ≤ b.toNat ∧ b.toNat < 0xC0) ∧ (lead.toNat = 0xE0 → 0xA0 ≤ b.toNat) ∧
      (lead.toNat = 0xED → b.toNat < 0xA0) := by
  rw [isSecondOfThree, Bool.and_eq_true, Bool.and_eq_true, isTail_iff] at second
  exact ⟨second.1.1, bound_of_or second.1.2, bound_of_or second.2⟩

theorem bounds_of_isSecondOfFour (second : isSecondOfFour lead b = true) :
    (0x80 ≤ b.toNat ∧ b.toNat < 0xC0) ∧ (lead.toNat = 0xF0 → 0x90 ≤ b.toNat) ∧
      (lead.toNat = 0xF4 → b.toNat < 0x90) := by
  rw [isSecondOfFour, Bool.and_eq_true, Bool.and_eq_true, isTail_iff] at second
  exact ⟨second.1.1, bound_of_or second.1.2, bound_of_or second.2⟩

theorem encodeChar_one (first : width lead = 1) : encodeChar (Char.ofNat lead.toNat) = [lead] := by
  have low := (lead_of_width lead).1 first
  unfold encodeChar
  rw [toNat_charOfNat (by omega), if_pos low, ofNat_eq rfl]

theorem encodeChar_two (first : width lead = 2) (tail : isTail b = true) :
    encodeChar (Char.ofNat ((lead.toNat - 0xC0) * 64 + tailBits b)) = [lead, b] := by
  have bounds := (lead_of_width lead).2.1 first
  have second := isTail_iff.1 tail
  unfold encodeChar tailBits
  rw [toNat_charOfNat (by omega), if_neg (by omega), if_pos (by omega),
    ofNat_eq (b := lead) (by omega), ofNat_eq (b := b) (by omega)]

theorem encodeChar_three (first : width lead = 3) (second : isSecondOfThree lead b = true)
    (tail : isTail c = true) :
    encodeChar (Char.ofNat ((lead.toNat - 0xE0) * 4096 + tailBits b * 64 + tailBits c)) =
      [lead, b, c] := by
  have bounds := (lead_of_width lead).2.2.1 first
  have allowed := bounds_of_isSecondOfThree second
  have third := isTail_iff.1 tail
  unfold encodeChar tailBits
  rw [toNat_charOfNat (by omega), if_neg (by omega), if_neg (by omega), if_pos (by omega),
    ofNat_eq (b := lead) (by omega), ofNat_eq (b := b) (by omega), ofNat_eq (b := c) (by omega)]

theorem encodeChar_four (first : width lead = 4) (second : isSecondOfFour lead b = true)
    (tail : isTail c = true) (tail' : isTail d = true) :
    encodeChar (Char.ofNat ((lead.toNat - 0xF0) * 262144 + tailBits b * 4096 + tailBits c * 64
      + tailBits d)) = [lead, b, c, d] := by
  have bounds := (lead_of_width lead).2.2.2 first
  have allowed := bounds_of_isSecondOfFour second
  have third := isTail_iff.1 tail
  have fourth := isTail_iff.1 tail'
  unfold encodeChar tailBits
  rw [toNat_charOfNat (by omega), if_neg (by omega), if_neg (by omega), if_neg (by omega),
    ofNat_eq (b := lead) (by omega), ofNat_eq (b := b) (by omega), ofNat_eq (b := c) (by omega),
    ofNat_eq (b := d) (by omega)]

theorem encode_of_decodeFrom (ok : decodeFrom index bytes = .ok text) : encode text = bytes := by
  fun_induction decodeFrom index bytes generalizing text with
  | case1 =>
    cases ok
    rfl
  | case2 index lead rest first ih =>
    obtain ⟨more, read, rfl⟩ := Answer.map_eq_ok.1 ok
    rw [encode_cons, encodeChar_one first, ih read]
    rfl
  | case4 index lead b rest first tail ih =>
    obtain ⟨more, read, rfl⟩ := Answer.map_eq_ok.1 ok
    rw [encode_cons, encodeChar_two first tail, ih read]
    rfl
  | case8 index lead b first second c rest tail ih =>
    obtain ⟨more, read, rfl⟩ := Answer.map_eq_ok.1 ok
    rw [encode_cons, encodeChar_three first second tail, ih read]
    rfl
  | case14 index lead b first second c tail d rest tail' ih =>
    obtain ⟨more, read, rfl⟩ := Answer.map_eq_ok.1 ok
    rw [encode_cons, encodeChar_four first second tail tail', ih read]
    rfl
  | _ => cases ok

/-- A text is read from its bytes and from no others. -/
theorem decode_eq_ok_iff : decode bytes = .ok text ↔ bytes = encode text := by
  constructor
  · exact fun ok => (encode_of_decodeFrom ok).symm
  · rintro rfl
    exact decode_encode text

end PageStore.Utf8
