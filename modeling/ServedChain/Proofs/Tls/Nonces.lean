/-
  No two records are opened under one nonce.

  The nonce of a record is the initialization vector, to whose last eight bytes the number
  of the record is added bit by bit.

  * `TrafficKeys.take_nonce` and `TrafficKeys.drop_nonce`: the two parts of a nonce;
  * `TrafficKeys.xor_drop_nonce`: the number can be read off a nonce, so that
    `nonce_injOn`: numbers with eight bytes have nonces of their own;
  * `Opener.nonces_eq`: a run uses the nonces of the numbers one after another, whether
    its records open or not;
  * `nonces_never_repeat` puts this together.
-/
import Mathlib.Data.List.Nodup
import Mathlib.Data.Set.Function
import ServedChain.Proofs.Crypto.Expansion
import ServedChain.Proofs.Tls.Protection

namespace ServedChain

/-! ## Numbers and bits -/

namespace Bytes

theorem ofNat_injOn (width : Nat) : Set.InjOn (ofNat width) {n | n < 1 <<< (8 * width)} := by
  intro i hi j hj h
  calc i = i % 1 <<< (8 * width) := (Nat.mod_eq_of_lt hi).symm
    _ = j % 1 <<< (8 * width) := by rw [← toNat_ofNat, h, toNat_ofNat]
    _ = j := Nat.mod_eq_of_lt hj

theorem xor_comm (a b : Bytes) : xor a b = xor b a :=
  List.zipWith_comm_of_comm UInt8.xor_comm

theorem take_xor (n : Nat) (a b : Bytes) : (xor a b).take n = xor (a.take n) (b.take n) :=
  List.take_zipWith

theorem drop_xor (n : Nat) (a b : Bytes) : (xor a b).drop n = xor (a.drop n) (b.drop n) :=
  List.drop_zipWith

/-- Zero bytes change nothing. -/
theorem xor_replicate_zero {n : Nat} {bs : Bytes} (h : bs.length = n) :
    xor bs (List.replicate n 0) = bs := by
  induction bs generalizing n with
  | nil => rfl
  | cons b bs ih =>
    subst h
    rw [List.length_cons, List.replicate_succ]
    simpa [xor] using ih rfl

end Bytes

namespace Tls

/-! ## Nonces -/

namespace TrafficKeys

theorem length_iv (suite : CipherSuite) (secret : Bytes) :
    (ofSecret suite secret).iv.length = ivLength :=
  Hkdf.length_expand suite.hash secret _ ivLength

variable {keys : TrafficKeys} (hiv : keys.iv.length = ivLength)
include hiv

theorem length_nonce (number : Nat) : (keys.nonce number).length = ivLength := by
  rw [nonce, Bytes.length_xor, Bytes.length_ofNat, hiv, Nat.min_self]

/-- The first four bytes are those of the initialization vector. -/
theorem take_nonce {number : Nat} (h : number < 1 <<< 64) :
    (keys.nonce number).take 4 = keys.iv.take 4 := by
  have hfront : (List.replicate 4 0 ++ Bytes.ofNat 8 number).take 4 = List.replicate 4 0 :=
    List.take_left' List.length_replicate
  have hlength : (keys.iv.take 4).length = 4 := by
    rw [List.length_take, hiv]
    rfl
  rw [keys.nonce_eq h, Bytes.take_xor, hfront, Bytes.xor_replicate_zero hlength]

omit hiv in
/-- To the others the number is added. -/
theorem drop_nonce {number : Nat} (h : number < 1 <<< 64) :
    (keys.nonce number).drop 4 = Bytes.xor (keys.iv.drop 4) (Bytes.ofNat 8 number) := by
  have hback : (List.replicate 4 0 ++ Bytes.ofNat 8 number).drop 4 = Bytes.ofNat 8 number :=
    List.drop_left' List.length_replicate
  rw [keys.nonce_eq h, Bytes.drop_xor, hback]

/-- The number of a record can be read off its nonce. -/
theorem xor_drop_nonce {number : Nat} (h : number < 1 <<< 64) :
    Bytes.xor ((keys.nonce number).drop 4) (keys.iv.drop 4) = Bytes.ofNat 8 number := by
  have hlength : (Bytes.ofNat 8 number).length ≤ (keys.iv.drop 4).length := by
    rw [Bytes.length_ofNat, List.length_drop, hiv]
    decide
  rw [drop_nonce h, Bytes.xor_comm (keys.iv.drop 4), Bytes.xor_xor_cancel hlength]

theorem nonce_injOn : Set.InjOn keys.nonce {number | number < 1 <<< 64} := by
  intro i hi j hj h
  have hbytes : Bytes.ofNat 8 i = Bytes.ofNat 8 j := by
    rw [← xor_drop_nonce hiv hi, h, xor_drop_nonce hiv hj]
  exact Bytes.ofNat_injOn 8 hi hj hbytes

end TrafficKeys

/-! ## Runs -/

namespace Opener

/-- The nonces under which several fragments are decrypted, one after another.  One that cannot
    hold a tag is not decrypted. -/
def nonces (opener : Opener) : List (Bytes × Bytes) → List Bytes
  | [] => []
  | (header, fragment) :: rest =>
    let more := (opener.next header fragment).2.nonces rest
    if fragment.length < tagLength then more else opener.keys.nonce opener.sequence :: more

/-- A run uses the nonces of one number after another, whether its records open or not. -/
theorem nonces_eq (opener : Opener) (records : List (Bytes × Bytes)) :
    opener.nonces records
      = (List.range' opener.sequence (countRecords records)).map opener.keys.nonce := by
  induction records generalizing opener with
  | nil => rfl
  | cons record records ih =>
    obtain ⟨header, fragment⟩ := record
    rw [nonces, ih, next]
    by_cases h : fragment.length < tagLength
    · have hcount : countRecords ((header, fragment) :: records) = countRecords records :=
        List.countP_cons_of_neg (by simpa using h)
      simp only [if_pos h, hcount]
    · have hcount : countRecords ((header, fragment) :: records) = countRecords records + 1 :=
        List.countP_cons_of_pos (by simpa using h)
      simp only [if_neg h, hcount, List.range'_succ, List.map_cons]

theorem nodup_nonces {suite : CipherSuite} {secret : Bytes} {records : List (Bytes × Bytes)}
    (hfew : records.length ≤ 1 <<< 64) :
    ((Opener.ofSecret suite secret).nonces records).Nodup := by
  rw [nonces_eq]
  refine List.Nodup.map_on ?_ List.nodup_range'
  intro i hi j hj h
  have hcount : countRecords records ≤ 1 <<< 64 := (countRecords_le records).trans hfew
  have hsmall : ∀ {number}, number ∈ List.range' 0 (countRecords records) →
      number < 1 <<< 64 := by
    intro number hnumber
    have hrange := (List.mem_range'_1.1 hnumber).2
    omega
  exact TrafficKeys.nonce_injOn (TrafficKeys.length_iv suite secret) (hsmall hi) (hsmall hj) h

end Opener

/-- **Nonces never repeat.**  Under the keys of a secret, a record with a number of eight bytes has
    a nonce of twelve bytes, which agrees with the initialization vector in its first four and with
    the number, added to it, in the others.  Different numbers have different nonces; hence no two
    records of a run are decrypted under one nonce. -/
theorem nonces_never_repeat (suite : CipherSuite) (secret : Bytes) :
    let keys := TrafficKeys.ofSecret suite secret
    (∀ number < 1 <<< 64,
      (keys.nonce number).length = 12
        ∧ (keys.nonce number).take 4 = keys.iv.take 4
        ∧ Bytes.xor ((keys.nonce number).drop 4) (keys.iv.drop 4) = Bytes.ofNat 8 number)
    ∧ (∀ i < 1 <<< 64, ∀ j < 1 <<< 64, i ≠ j → keys.nonce i ≠ keys.nonce j)
    ∧ ∀ records : List (Bytes × Bytes), records.length ≤ 1 <<< 64 →
      ((Opener.ofSecret suite secret).nonces records).Nodup := by
  intro keys
  have hiv : keys.iv.length = TrafficKeys.ivLength := TrafficKeys.length_iv suite secret
  refine ⟨?_, ?_, ?_⟩
  · intro number hnumber
    exact ⟨TrafficKeys.length_nonce hiv number, TrafficKeys.take_nonce hiv hnumber,
      TrafficKeys.xor_drop_nonce hiv hnumber⟩
  · intro i hi j hj hne h
    exact hne (TrafficKeys.nonce_injOn hiv hi hj h)
  · intro records hfew
    exact Opener.nodup_nonces hfew

/-- The first and the last number. -/
theorem nonces_never_repeat_first_last :
    let keys := TrafficKeys.ofSecret .aes128GcmSha256 [7]
    let last := (1 <<< 64) - 1
    last < 1 <<< 64
      ∧ Bytes.xor ((keys.nonce last).drop 4) (keys.iv.drop 4) = List.replicate 8 255
      ∧ keys.nonce 0 ≠ keys.nonce last
      ∧ ((Opener.ofSecret .aes128GcmSha256 [7]).nonces Opener.sampleRecords).Nodup := by
  intro keys last
  have hlast : last < 1 <<< 64 := by decide
  obtain ⟨hparts, hne, hrun⟩ := nonces_never_repeat .aes128GcmSha256 [7]
  obtain ⟨-, -, hnumber⟩ := hparts last hlast
  have hbytes : Bytes.ofNat 8 last = List.replicate 8 255 := by decide
  exact ⟨hlast, hnumber.trans hbytes, hne 0 (by decide) last hlast (by decide), hrun _ (by decide)⟩

end Tls

end ServedChain
