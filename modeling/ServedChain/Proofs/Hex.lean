/-
  Hexadecimal texts with letters in either case.

  * `isSome_value?_iff`: the digits are those of `digits`;
  * `decode?_eq_some_iff`: a text is read as some bytes exactly if it is their
    writing, but for the case of its letters;
  * `isSome_decode?_iff`: every text of pairs of digits is read.
-/
import ServedChain.Hex

namespace ServedChain.Hex

/-! ## Texts in either case -/

/-- The digits, the letters among them in either case. -/
def digits : List Char := "0123456789abcdefABCDEF".toList

theorem toNat_lt_of_value? {c : Char} (h : (value? c).isSome = true) : c.toNat < 128 := by
  simp only [value?, Char.le_def, UInt32.le_iff_toNat_le] at h
  have hnat : c.val.toNat = c.toNat := rfl
  have hnine : '9'.val.toNat = 57 := rfl
  have hsmall : 'f'.val.toNat = 102 := rfl
  have hlarge : 'F'.val.toNat = 70 := rfl
  grind

theorem toLower_of_le {c : Char} (h : 128 ≤ c.toNat) : c.toLower = c := by
  have hnat : c.val.toNat = c.toNat := rfl
  have hlast : 'Z'.val.toNat = 90 := rfl
  unfold Char.toLower
  refine dif_neg fun hupper => ?_
  have hle := UInt32.le_iff_toNat_le.1 hupper.2
  omega

/-- A character of ASCII has a value, or is a digit in lower case, only if it is a digit. -/
theorem mem_digits_of_ascii {c : Char} (hascii : c.toNat < 128)
    (h : (value? c).isSome = true ∨ c.toLower ∈ digits) : c ∈ digits := by
  have hall : ∀ n < 128,
      ((value? (Char.ofNat n)).isSome = true ∨ (Char.ofNat n).toLower ∈ digits) →
        Char.ofNat n ∈ digits := by decide +kernel
  have hc := hall c.toNat hascii
  rw [Char.ofNat_toNat] at hc
  exact hc h

theorem isSome_value?_iff (c : Char) : (value? c).isSome = true ↔ c ∈ digits := by
  have hall : (digits.all fun c => (value? c).isSome) = true := by decide
  constructor
  · intro h
    exact mem_digits_of_ascii (toNat_lt_of_value? h) (.inl h)
  · exact List.all_eq_true.1 hall c

theorem mem_digits_of_toLower {c : Char} (h : c.toLower ∈ digits) : c ∈ digits := by
  by_cases hascii : c.toNat < 128
  · exact mem_digits_of_ascii hascii (.inr h)
  · rwa [toLower_of_le (Nat.le_of_not_lt hascii)] at h

/-- The value of a digit is that of the digit in lower case. -/
theorem value?_eq_some_iff {c : Char} {n : Nat} :
    value? c = some n ↔ n < 16 ∧ c.toLower = digit n := by
  have hvalue : (digits.all fun c => (value? c).all fun n => n < 16 && c.toLower == digit n)
      = true := by decide
  have hlower : (digits.all fun c => (List.range 16).all fun n =>
      c.toLower != digit n || value? c == some n) = true := by decide
  have hdigit : ∀ n < 16, digit n ∈ digits := by decide
  constructor
  · intro h
    have hmem := (isSome_value?_iff c).1 (Option.isSome_of_eq_some h)
    have hc := List.all_eq_true.1 hvalue c hmem
    rw [h] at hc
    simpa using hc
  · rintro ⟨hn, h⟩
    have hmem := mem_digits_of_toLower (h ▸ hdigit n hn)
    have hc := List.all_eq_true.1 (List.all_eq_true.1 hlower c hmem) n (List.mem_range.2 hn)
    simpa [h] using hc

theorem encode_cons (b : UInt8) (bs : Bytes) :
    encode (b :: bs) = digit (b.toNat / 16) :: digit (b.toNat % 16) :: encode bs := rfl

theorem decode?_cons_cons_eq_some_iff {h l : Char} {rest : List Char} {b : UInt8} {bs : Bytes} :
    decode? (h :: l :: rest) = some (b :: bs)
      ↔ value? h = some (b.toNat / 16) ∧ value? l = some (b.toNat % 16)
        ∧ decode? rest = some bs := by
  have hb := b.toNat_lt
  constructor
  · intro heq
    obtain ⟨high, hhigh, heq⟩ := Option.bind_eq_some_iff.1 heq
    obtain ⟨low, hlow, heq⟩ := Option.bind_eq_some_iff.1 heq
    obtain ⟨bytes, hbytes, heq⟩ := Option.bind_eq_some_iff.1 heq
    cases heq
    obtain ⟨hhigh16, -⟩ := value?_eq_some_iff.1 hhigh
    obtain ⟨hlow16, -⟩ := value?_eq_some_iff.1 hlow
    have hsum : (UInt8.ofNat (high * 16 + low)).toNat = high * 16 + low := by
      rw [UInt8.toNat_ofNat']
      omega
    rw [hsum, hhigh, hlow]
    refine ⟨?_, ?_, hbytes⟩ <;> congr 1 <;> omega
  · rintro ⟨hhigh, hlow, hrest⟩
    have hsum : b.toNat / 16 * 16 + b.toNat % 16 = b.toNat := by omega
    simp only [decode?, hhigh, hlow, hrest, Option.bind_eq_bind, Option.bind_some, hsum,
      UInt8.ofNat_toNat, Option.pure_def]

/-- **What is read as hexadecimal**: the writing of some bytes, whatever the case of its letters. -/
theorem decode?_eq_some_iff {text : List Char} {bs : Bytes} :
    decode? text = some bs ↔ text.map Char.toLower = encode bs := by
  match text, bs with
  | [], [] => exact iff_of_true rfl rfl
  | [], _ :: _ => simp [decode?, encode_cons]
  | [_], [] => simp [decode?, encode]
  | [_], _ :: _ => simp [decode?, encode_cons]
  | h :: l :: rest, [] =>
    refine iff_of_false (fun heq => ?_) (by simp [encode])
    obtain ⟨high, -, heq⟩ := Option.bind_eq_some_iff.1 heq
    obtain ⟨low, -, heq⟩ := Option.bind_eq_some_iff.1 heq
    obtain ⟨bytes, -, heq⟩ := Option.bind_eq_some_iff.1 heq
    cases heq
  | h :: l :: rest, b :: bs =>
    have hb := b.toNat_lt
    have hhigh : b.toNat / 16 < 16 := by omega
    have hlow : b.toNat % 16 < 16 := by omega
    have hrest : decode? rest = some bs ↔ rest.map Char.toLower = encode bs := decode?_eq_some_iff
    rw [decode?_cons_cons_eq_some_iff, value?_eq_some_iff, value?_eq_some_iff, hrest, encode_cons]
    simp [hhigh, hlow]

/-- Pairs of digits are always read. -/
theorem isSome_decode?_iff (text : List Char) :
    (decode? text).isSome = true ↔ text.length % 2 = 0 ∧ ∀ c ∈ text, c ∈ digits := by
  match text with
  | [] => simp [decode?]
  | [_] => simp [decode?]
  | h :: l :: rest =>
    have hrest := isSome_decode?_iff rest
    have hpair : (decode? (h :: l :: rest)).isSome = true ↔ (value? h).isSome = true
        ∧ (value? l).isSome = true ∧ (decode? rest).isSome = true := by
      cases hhigh : value? h <;> cases hlow : value? l <;> cases hdecoded : decode? rest <;>
        simp [decode?, hhigh, hlow, hdecoded]
    rw [hpair, isSome_value?_iff, isSome_value?_iff, hrest]
    simp only [List.length_cons, List.forall_mem_cons]
    constructor
    · rintro ⟨hh, hl, heven, hall⟩
      exact ⟨by omega, hh, hl, hall⟩
    · rintro ⟨heven, hh, hl, hall⟩
      exact ⟨hh, hl, by omega, hall⟩

end ServedChain.Hex
