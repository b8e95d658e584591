/-
  ServedChain — byte strings.

  A byte string is a list of bytes.  Integers of a fixed width are stored most
  significant byte first:

  * `Bytes.toNat` reads such an integer and `Bytes.ofNat` writes it;
  * `toNat_ofNat`: reading gives back what was written, up to the width, and
    `ofNat_toNat`: writing gives back what was read;
  * `cut?` splits off a number of bytes, if there are that many, and `uint?`
    an integer.
-/

namespace ServedChain

abbrev Bytes := List UInt8

namespace Bytes

/-! ## Integers -/

/-- The number that a byte string denotes, most significant byte first. -/
def toNat (bs : Bytes) : Nat :=
  bs.foldl (fun n b => n * 256 + b.toNat) 0

/-- The low `width` bytes of `n`, most significant byte first. -/
def ofNat : (width : Nat) → Nat → Bytes
  | 0, _ => []
  | width + 1, n => ofNat width (n / 256) ++ [UInt8.ofNat n]

@[simp] theorem length_ofNat (width n : Nat) : (ofNat width n).length = width := by
  induction width generalizing n with
  | zero => rfl
  | succ width ih => simp [ofNat, ih]

theorem toNat_append_singleton (bs : Bytes) (b : UInt8) :
    toNat (bs ++ [b]) = toNat bs * 256 + b.toNat := by
  simp [toNat]

theorem one_shiftLeft_succ (width : Nat) : 1 <<< (8 * (width + 1)) = 256 * 1 <<< (8 * width) := by
  rw [Nat.one_shiftLeft, Nat.one_shiftLeft, Nat.mul_succ, Nat.pow_add, Nat.mul_comm]

/-- Reading a written integer gives back its low bytes. -/
theorem toNat_ofNat (width n : Nat) : toNat (ofNat width n) = n % 1 <<< (8 * width) := by
  induction width generalizing n with
  | zero => simp [ofNat, toNat, Nat.mod_one]
  | succ width ih =>
    rw [ofNat, toNat_append_singleton, ih, one_shiftLeft_succ, Nat.mod_mul, UInt8.toNat_ofNat']
    omega

/-- The last byte apart. -/
theorem exists_append_singleton {width : Nat} {bs : Bytes} (h : bs.length = width + 1) :
    ∃ front b, bs = front ++ [b] ∧ front.length = width := by
  have hne : bs ≠ [] := List.ne_nil_of_length_eq_add_one h
  exact ⟨bs.dropLast, bs.getLast hne, (List.dropLast_concat_getLast hne).symm, by simp [h]⟩

theorem toNat_lt (bs : Bytes) : toNat bs < 1 <<< (8 * bs.length) := by
  induction hwidth : bs.length generalizing bs with
  | zero =>
    rw [List.eq_nil_of_length_eq_zero hwidth]
    decide
  | succ width ih =>
    obtain ⟨front, b, rfl, hfront⟩ := exists_append_singleton hwidth
    have hlt := ih front hfront
    have hb := b.toNat_lt
    rw [toNat_append_singleton, one_shiftLeft_succ]
    omega

/-- Writing a read integer gives back its bytes. -/
theorem ofNat_toNat (bs : Bytes) : ofNat bs.length (toNat bs) = bs := by
  induction hwidth : bs.length generalizing bs with
  | zero =>
    rw [List.eq_nil_of_length_eq_zero hwidth]
    rfl
  | succ width ih =>
    obtain ⟨front, b, rfl, hfront⟩ := exists_append_singleton hwidth
    have hb := b.toNat_lt
    have hupper : (toNat front * 256 + b.toNat) / 256 = toNat front := by omega
    have hlower : UInt8.ofNat (toNat front * 256 + b.toNat) = b := by
      rw [← UInt8.toNat_inj, UInt8.toNat_ofNat']
      omega
    rw [toNat_append_singleton, ofNat, hupper, hlower, ih front hfront]

/-! ## Splitting -/

/-- The first `n` bytes and the rest, if there are that many. -/
def cut? (n : Nat) (bs : Bytes) : Option (Bytes × Bytes) :=
  let front := bs.take n
  if front.length = n then some (front, bs.drop n) else none

/-- An integer of `width` bytes and the rest. -/
def uint? (width : Nat) (bs : Bytes) : Option (Nat × Bytes) :=
  (cut? width bs).map fun (front, rest) => (toNat front, rest)

theorem cut?_eq_some_iff {n : Nat} {bs front rest : Bytes} :
    cut? n bs = some (front, rest) ↔ bs = front ++ rest ∧ front.length = n := by
  constructor
  · intro h
    simp only [cut?] at h
    split at h
    · next hlen =>
      cases h
      exact ⟨(List.take_append_drop n bs).symm, hlen⟩
    · simp at h
  · rintro ⟨rfl, rfl⟩
    simp [cut?]

theorem cut?_eq_none_iff {n : Nat} {bs : Bytes} : cut? n bs = none ↔ bs.length < n := by
  simp only [cut?, List.length_take, ite_eq_right_iff, reduceCtorEq, imp_false]
  omega

theorem cut?_append {n : Nat} {front : Bytes} (h : front.length = n) (rest : Bytes) :
    cut? n (front ++ rest) = some (front, rest) :=
  cut?_eq_some_iff.2 ⟨rfl, h⟩

theorem cut?_of_le {n : Nat} {bs : Bytes} (h : n ≤ bs.length) :
    cut? n bs = some (bs.take n, bs.drop n) :=
  cut?_eq_some_iff.2 ⟨(List.take_append_drop n bs).symm, List.length_take_of_le h⟩

theorem uint?_eq_some {width n : Nat} {bs rest : Bytes} (h : uint? width bs = some (n, rest)) :
    ∃ front, bs = front ++ rest ∧ front.length = width ∧ toNat front = n := by
  obtain ⟨⟨front, rest'⟩, hcut, heq⟩ := Option.map_eq_some_iff.1 h
  cases heq
  obtain ⟨hbs, hlen⟩ := cut?_eq_some_iff.1 hcut
  exact ⟨front, hbs, hlen, rfl⟩

/-- Reading the integer written at the front. -/
theorem uint?_ofNat_append {width n : Nat} (h : n < 1 <<< (8 * width)) (rest : Bytes) :
    uint? width (ofNat width n ++ rest) = some (n, rest) := by
  rw [uint?, cut?_append (length_ofNat width n), Option.map_some]
  simp only [toNat_ofNat, Nat.mod_eq_of_lt h]

theorem uint?_of_le {width : Nat} {bs : Bytes} (h : width ≤ bs.length) :
    uint? width bs = some (toNat (bs.take width), bs.drop width) := by
  rw [uint?, cut?_of_le h, Option.map_some]

theorem uint?_eq_none_iff {width : Nat} {bs : Bytes} :
    uint? width bs = none ↔ bs.length < width := by
  rw [uint?, Option.map_eq_none_iff, cut?_eq_none_iff]

theorem uint?_eq_some_iff {width n : Nat} {bs rest : Bytes} :
    uint? width bs = some (n, rest) ↔ n < 1 <<< (8 * width) ∧ bs = ofNat width n ++ rest := by
  constructor
  · intro h
    obtain ⟨front, rfl, rfl, rfl⟩ := uint?_eq_some h
    exact ⟨toNat_lt front, by rw [ofNat_toNat]⟩
  · rintro ⟨h, rfl⟩
    exact uint?_ofNat_append h rest

/-! ## Splitting behind some bytes -/

section
variable {place n : Nat} {bs : Bytes}

theorem cut?_drop (h : place + n ≤ bs.length) :
    cut? n (bs.drop place) = some ((bs.drop place).take n, bs.drop (place + n)) := by
  rw [cut?_of_le (by rw [List.length_drop]; omega), List.drop_drop]

theorem uint?_drop (h : place + n ≤ bs.length) :
    uint? n (bs.drop place) = some (toNat ((bs.drop place).take n), bs.drop (place + n)) := by
  rw [uint?, cut?_drop h, Option.map_some]

theorem cut?_drop_eq_none (h : place ≤ bs.length) (hshort : bs.length < place + n) :
    cut? n (bs.drop place) = none := by
  rw [cut?_eq_none_iff, List.length_drop]
  omega

theorem uint?_drop_eq_none (h : place ≤ bs.length) (hshort : bs.length < place + n) :
    uint? n (bs.drop place) = none := by
  rw [uint?, cut?_drop_eq_none h hshort, Option.map_none]

end

/-! ## Pieces -/

/-- The pieces of `n + 1` bytes that a byte string consists of; the last one may be shorter. -/
def pieces (n : Nat) (bs : Bytes) : List Bytes :=
  match bs with
  | [] => []
  | b :: bs => (b :: bs.take n) :: pieces n (bs.drop n)
termination_by bs.length
decreasing_by
  simp only [List.length_drop, List.length_cons]
  omega

/-! ## Combining -/

/-- The bytewise exclusive or, as long as the shorter of the two. -/
def xor (a b : Bytes) : Bytes := List.zipWith (· ^^^ ·) a b

@[simp] theorem length_xor (a b : Bytes) : (xor a b).length = min a.length b.length := by
  simp [xor]

/-- Adding the same bytes twice changes nothing. -/
theorem xor_xor_cancel {a b : Bytes} (h : a.length ≤ b.length) : xor (xor a b) b = a := by
  induction a generalizing b with
  | nil => simp [xor]
  | cons x a ih =>
    match b with
    | [] => simp at h
    | y :: b =>
      simp only [List.length_cons, Nat.add_le_add_iff_right] at h
      simpa [xor, UInt8.xor_assoc] using ih h

/-- `bs` filled up with zero bytes to `n` bytes, or cut to them. -/
def fit (n : Nat) (bs : Bytes) : Bytes :=
  bs.take n ++ List.replicate (n - bs.length) 0

/-- As many zero bytes as fill up the last block of `n` bytes. -/
def blockPad (n : Nat) (bs : Bytes) : Bytes :=
  List.replicate ((n - bs.length % n) % n) 0

end Bytes

end ServedChain
