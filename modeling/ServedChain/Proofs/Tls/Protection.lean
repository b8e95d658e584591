/-
  What opens is what was sealed.

  * `InnerText.decode?_eq_some_iff`: a plaintext is in one way a content, its type and
    zero bytes, unless all of it is zero bytes;
  * `TrafficKeys.unprotect_eq_ok_iff` and its siblings: what a fragment opens to, and why
    another one does not;
  * `Opener.after_eq`: the number of a record counts the fragments before it that could
    hold a tag, whether they opened or not;
  * `opens_exactly_sealed`: the records of a whole run.
-/
import ServedChain.Tls.Protection

namespace ServedChain

/-! ## Numbers -/

namespace Bytes

theorem ofNat_zero (width : Nat) : ofNat width 0 = List.replicate width 0 := by
  induction width with
  | zero => rfl
  | succ width ih => rw [ofNat, Nat.zero_div, ih, List.replicate_succ']; rfl

/-- A number written in two parts. -/
theorem ofNat_add (upper lower n : Nat) :
    ofNat (upper + lower) n = ofNat upper (n >>> (8 * lower)) ++ ofNat lower n := by
  induction lower generalizing n with
  | zero => simp [ofNat]
  | succ lower ih =>
    have hshift : (n / 256) >>> (8 * lower) = n >>> (8 * (lower + 1)) := by
      rw [Nat.mul_succ, Nat.add_comm, Nat.shiftRight_add, Nat.shiftRight_eq_div_pow n 8]
    rw [← Nat.add_assoc, ofNat, ih, hshift, ofNat, List.append_assoc]

/-- A number with zero bytes in front. -/
theorem ofNat_add_of_lt {upper lower n : Nat} (h : n < 1 <<< (8 * lower)) :
    ofNat (upper + lower) n = List.replicate upper 0 ++ ofNat lower n := by
  rw [Nat.one_shiftLeft] at h
  rw [ofNat_add, Nat.shiftRight_eq_div_pow, Nat.div_eq_of_lt h, ofNat_zero]

end Bytes

namespace Tls

/-! ## Plaintexts -/

namespace InnerText

/-- A byte string is zero bytes, and in front of them what does not end in one. -/
theorem eq_dropWhile_append (plaintext : Bytes) : ∃ padding,
    plaintext = (plaintext.reverse.dropWhile (· == 0)).reverse ++ List.replicate padding 0 := by
  refine ⟨(plaintext.reverse.takeWhile (· == 0)).length, ?_⟩
  have hzeros : plaintext.reverse.takeWhile (· == 0)
      = List.replicate (plaintext.reverse.takeWhile (· == 0)).length 0 := by
    refine List.eq_replicate_iff.2 ⟨rfl, fun b hb => ?_⟩
    simpa using List.all_eq_true.1 List.all_takeWhile b hb
  rw [← List.reverse_replicate, ← hzeros, ← List.reverse_append, List.takeWhile_append_dropWhile,
    List.reverse_reverse]

/-- A plaintext is that of a content and its type with some padding, and of no other one. -/
theorem decode?_eq_some_iff {plaintext : Bytes} {inner : InnerText} :
    decode? plaintext = some inner
      ↔ inner.contentType ≠ 0 ∧ ∃ padding, plaintext = inner.encode padding := by
  constructor
  · intro h
    obtain ⟨padding, hsplit⟩ := eq_dropWhile_append plaintext
    unfold decode? at h
    split at h
    · cases h
    · next contentType content hrest =>
      cases h
      have htype : (contentType == 0) = false := by
        have hhead := List.head_dropWhile_not (l := plaintext.reverse) (· == 0) (by simp [hrest])
        simpa only [hrest, List.head_cons] using hhead
      refine ⟨by simpa using htype, padding, ?_⟩
      rw [hsplit, hrest, encode]
      simp
  · rintro ⟨htype, padding, rfl⟩
    exact decode?_encode htype padding

theorem decode?_eq_none_iff {plaintext : Bytes} :
    decode? plaintext = none ↔ ∃ padding, plaintext = List.replicate padding 0 := by
  constructor
  · intro h
    obtain ⟨padding, hsplit⟩ := eq_dropWhile_append plaintext
    unfold decode? at h
    split at h
    · next hrest => exact ⟨padding, by rw [hsplit, hrest]; rfl⟩
    · cases h
  · rintro ⟨padding, rfl⟩
    simp [decode?]

end InnerText

/-! ## Fragments -/

namespace TrafficKeys

/-- The nonce of a record with a number of eight bytes. -/
theorem nonce_eq (keys : TrafficKeys) {sequence : Nat} (h : sequence < 1 <<< 64) :
    keys.nonce sequence
      = Bytes.xor keys.iv (List.replicate 4 0 ++ Bytes.ofNat 8 sequence) := by
  rw [nonce, show ivLength = 4 + 8 from rfl, Bytes.ofNat_add_of_lt h]

/-- The encryption of a plaintext as the record with a number and a header. -/
def encrypt (keys : TrafficKeys) (sequence : Nat) (header plaintext : Bytes) : Bytes :=
  keys.suite.aead.encrypt keys.key (keys.nonce sequence) header plaintext

/-- What a fragment opens to, or why it does not. -/
inductive Opens (keys : TrafficKeys) (sequence : Nat) (header fragment : Bytes) :
    Except OpenError InnerText → Prop
  | tooShort : fragment.length < tagLength →
    Opens keys sequence header fragment (.error (.shorterThanTag fragment.length))
  | forged : tagLength ≤ fragment.length →
    (∀ plaintext, fragment ≠ keys.encrypt sequence header plaintext) →
    Opens keys sequence header fragment (.error .notAuthentic)
  | untyped (padding : Nat) :
    fragment = keys.encrypt sequence header (List.replicate padding 0) →
    Opens keys sequence header fragment (.error .noContentType)
  | content {inner : InnerText} (padding : Nat) : inner.contentType ≠ 0 →
    fragment = keys.encrypt sequence header (inner.encode padding) →
    Opens keys sequence header fragment (.ok inner)

variable {keys : TrafficKeys} {sequence : Nat} {header fragment : Bytes}

theorem length_encrypt (keys : TrafficKeys) (sequence : Nat) (header plaintext : Bytes) :
    (keys.encrypt sequence header plaintext).length = plaintext.length + tagLength :=
  Aead.length_encrypt ..

/-- The plaintext of a fragment that can hold a tag. -/
theorem decrypt?_fragment {plaintext : Bytes} (h : tagLength ≤ fragment.length) :
    keys.suite.aead.decrypt? keys.key (keys.nonce sequence) header
        (fragment.take (fragment.length - tagLength)) (fragment.drop (fragment.length - tagLength))
        = some plaintext
      ↔ fragment = keys.encrypt sequence header plaintext := by
  have htag : (fragment.drop (fragment.length - tagLength)).length = tagLength := by
    rw [List.length_drop]
    omega
  rw [Aead.decrypt?_eq_some_iff, List.take_append_drop]
  exact and_iff_right htag

theorem unprotect_encrypt (keys : TrafficKeys) (sequence : Nat) (header plaintext : Bytes) :
    keys.unprotect sequence header (keys.encrypt sequence header plaintext)
      = (InnerText.decode? plaintext).elim (.error .noContentType) .ok := by
  have hle : tagLength ≤ (keys.encrypt sequence header plaintext).length := by
    rw [length_encrypt]
    exact Nat.le_add_left ..
  rw [unprotect, if_neg (Nat.not_lt.2 hle)]
  simp only [(decrypt?_fragment hle).2 rfl]
  cases InnerText.decode? plaintext <;> rfl

theorem opens_unprotect (keys : TrafficKeys) (sequence : Nat) (header fragment : Bytes) :
    Opens keys sequence header fragment (keys.unprotect sequence header fragment) := by
  unfold unprotect
  split
  · next hlength => exact .tooShort hlength
  · next hlength =>
    have hle := Nat.le_of_not_lt hlength
    simp only
    split
    · next hdecrypt =>
      refine .forged hle fun plaintext hfragment => ?_
      rw [(decrypt?_fragment hle).2 hfragment] at hdecrypt
      cases hdecrypt
    · next plaintext hdecrypt =>
      have hfragment := (decrypt?_fragment hle).1 hdecrypt
      split
      · next hdecode =>
        obtain ⟨padding, rfl⟩ := InnerText.decode?_eq_none_iff.1 hdecode
        exact .untyped padding hfragment
      · next inner hdecode =>
        obtain ⟨htype, padding, rfl⟩ := InnerText.decode?_eq_some_iff.1 hdecode
        exact .content padding htype hfragment

theorem Opens.unprotect_eq {result : Except OpenError InnerText}
    (h : Opens keys sequence header fragment result) :
    keys.unprotect sequence header fragment = result := by
  cases h with
  | tooShort hlength => rw [unprotect, if_pos hlength]
  | forged hle hforged =>
    rw [unprotect, if_neg (Nat.not_lt.2 hle)]
    simp only
    split
    · rfl
    · next plaintext hdecrypt =>
      exact absurd ((decrypt?_fragment hle).1 hdecrypt) (hforged plaintext)
  | untyped padding hfragment =>
    rw [hfragment, unprotect_encrypt, InnerText.decode?_eq_none_iff.2 ⟨padding, rfl⟩]
    rfl
  | content padding htype hfragment =>
    rw [hfragment, unprotect_encrypt, InnerText.decode?_encode htype]
    rfl

theorem unprotect_eq_iff {result : Except OpenError InnerText} :
    keys.unprotect sequence header fragment = result
      ↔ Opens keys sequence header fragment result :=
  ⟨fun h => h ▸ opens_unprotect keys sequence header fragment, Opens.unprotect_eq⟩

theorem unprotect_eq_ok_iff {inner : InnerText} :
    keys.unprotect sequence header fragment = .ok inner
      ↔ inner.contentType ≠ 0
        ∧ ∃ padding, fragment = keys.encrypt sequence header (inner.encode padding) := by
  rw [unprotect_eq_iff]
  constructor
  · rintro (_ | _ | _ | ⟨padding, htype, hfragment⟩)
    exact ⟨htype, padding, hfragment⟩
  · rintro ⟨htype, padding, hfragment⟩
    exact .content padding htype hfragment

theorem unprotect_eq_shorterThanTag_iff :
    keys.unprotect sequence header fragment = .error (.shorterThanTag fragment.length)
      ↔ fragment.length < tagLength := by
  rw [unprotect_eq_iff]
  constructor
  · rintro (hlength | _)
    exact hlength
  · exact .tooShort

theorem unprotect_eq_noContentType_iff :
    keys.unprotect sequence header fragment = .error .noContentType
      ↔ ∃ padding, fragment = keys.encrypt sequence header (List.replicate padding 0) := by
  rw [unprotect_eq_iff]
  constructor
  · rintro (_ | _ | ⟨padding, hfragment⟩)
    exact ⟨padding, hfragment⟩
  · rintro ⟨padding, hfragment⟩
    exact .untyped padding hfragment

theorem unprotect_eq_notAuthentic_iff :
    keys.unprotect sequence header fragment = .error .notAuthentic
      ↔ tagLength ≤ fragment.length
        ∧ ∀ plaintext, fragment ≠ keys.encrypt sequence header plaintext := by
  rw [unprotect_eq_iff]
  constructor
  · rintro (_ | ⟨hle, hforged⟩)
    exact ⟨hle, hforged⟩
  · rintro ⟨hle, hforged⟩
    exact .forged hle hforged

end TrafficKeys

/-! ## Runs -/

namespace Opener

/-- The opener after several fragments. -/
def after (opener : Opener) (records : List (Bytes × Bytes)) : Opener :=
  records.foldl (fun opener record => (opener.next record.1 record.2).2) opener

/-- How many of several fragments could hold a tag. -/
def countRecords (records : List (Bytes × Bytes)) : Nat :=
  records.countP fun record => decide (tagLength ≤ record.2.length)

theorem next_snd (opener : Opener) (record : Bytes × Bytes) :
    (opener.next record.1 record.2).2
      = { opener with sequence := opener.sequence + countRecords [record] } := by
  by_cases h : record.2.length < tagLength
  · have hcount : countRecords [record] = 0 := by simp [countRecords, h]
    rw [next, if_pos h, hcount]
    rfl
  · have hcount : countRecords [record] = 1 := by simp [countRecords, Nat.le_of_not_lt h]
    rw [next, if_neg h, hcount]

theorem after_cons (opener : Opener) (record : Bytes × Bytes) (records : List (Bytes × Bytes)) :
    opener.after (record :: records) = (opener.next record.1 record.2).2.after records := rfl

/-- The keys stay, and each fragment that could hold a tag takes a number. -/
theorem after_eq (opener : Opener) (records : List (Bytes × Bytes)) :
    opener.after records
      = { opener with sequence := opener.sequence + countRecords records } := by
  induction records generalizing opener with
  | nil => rfl
  | cons record records ih =>
    have hcount : countRecords (record :: records)
        = countRecords [record] + countRecords records := by
      rw [countRecords, ← List.singleton_append, List.countP_append]
      rfl
    rw [after_cons, ih, next_snd, hcount, ← Nat.add_assoc]

/-- The opener after the fragments up to one of them. -/
theorem after_take_succ (opener : Opener) {records : List (Bytes × Bytes)} {place : Nat}
    {record : Bytes × Bytes} (h : records[place]? = some record) :
    opener.after (records.take (place + 1))
      = ((opener.after (records.take place)).next record.1 record.2).2 := by
  rw [List.take_add_one, h, after, List.foldl_append]
  rfl

/-- Each fragment of a run is opened after those before it. -/
theorem getElem?_run (opener : Opener) (records : List (Bytes × Bytes)) (place : Nat) :
    (opener.run records)[place]? = records[place]?.map fun record =>
      ((opener.after (records.take place)).next record.1 record.2).1 := by
  induction records generalizing opener place with
  | nil => rfl
  | cons record records ih =>
    cases place with
    | zero => rfl
    | succ place => exact ih (opener.next record.1 record.2).2 place

theorem countRecords_le (records : List (Bytes × Bytes)) :
    countRecords records ≤ records.length := List.countP_le_length

/-- **Exactly what was sealed opens**: in a run of fewer than 2^64 records under one secret, the
    number of a record is how many fragments before it could hold a tag.  Its fragment opens to a
    content and a type exactly if it is the encryption of them, with any number of zero bytes
    behind them, under the key of the secret and the nonce of that number; otherwise there is an
    error.  The keys stay, and only a fragment that cannot hold a tag leaves the number as it is. -/
theorem opens_exactly_sealed (suite : CipherSuite) (secret : Bytes)
    {records : List (Bytes × Bytes)} {place : Nat} {header fragment : Bytes}
    (hfew : records.length < 1 <<< 64) (hrecord : records[place]? = some (header, fragment)) :
    let opener := Opener.ofSecret suite secret
    let key := Hkdf.expandLabel suite.hash secret "key" [] suite.aead.keyLength
    let iv := Hkdf.expandLabel suite.hash secret "iv" [] 12
    let number := (records.take place).countP fun record => decide (tagLength ≤ record.2.length)
    let nonce := Bytes.xor iv (List.replicate 4 0 ++ Bytes.ofNat 8 number)
    let encrypted := suite.aead.encrypt key nonce header
    ∃ result, (opener.run records)[place]? = some result
      ∧ (∀ contentType content, result = .ok ⟨contentType, content⟩ ↔
        contentType ≠ 0
          ∧ ∃ padding, fragment = encrypted (content ++ contentType :: List.replicate padding 0))
      ∧ (result = .error (.shorterThanTag fragment.length) ↔ fragment.length < tagLength)
      ∧ (result = .error .noContentType ↔
        ∃ padding, fragment = encrypted (List.replicate padding 0))
      ∧ (result = .error .notAuthentic ↔
        tagLength ≤ fragment.length ∧ ∀ plaintext, fragment ≠ encrypted plaintext)
      ∧ opener.after (records.take place) = ⟨⟨suite, key, iv⟩, number⟩
      ∧ opener.after (records.take (place + 1))
        = ⟨⟨suite, key, iv⟩, if fragment.length < tagLength then number else number + 1⟩ := by
  intro opener key iv number nonce encrypted
  let keys : TrafficKeys := ⟨suite, key, iv⟩
  have hbefore : opener.after (records.take place) = ⟨keys, number⟩ := by
    rw [after_eq]
    exact congrArg (Opener.mk keys) (Nat.zero_add _)
  have hnumber : number < 1 <<< 64 := by
    have hle : number ≤ (records.take place).length := countRecords_le _
    rw [List.length_take] at hle
    omega
  have hencrypted : encrypted = keys.encrypt number header := by
    funext plaintext
    rw [TrafficKeys.encrypt, keys.nonce_eq hnumber]
  rw [hencrypted]
  refine ⟨keys.unprotect number header fragment, ?_, fun _ _ => TrafficKeys.unprotect_eq_ok_iff,
    TrafficKeys.unprotect_eq_shorterThanTag_iff, TrafficKeys.unprotect_eq_noContentType_iff,
    TrafficKeys.unprotect_eq_notAuthentic_iff, hbefore, ?_⟩
  · rw [getElem?_run, hrecord, hbefore]
    rfl
  · rw [after_take_succ opener hrecord, hbefore, next]
    split <;> rfl

/-- The header of a record with a fragment of 22 bytes. -/
def sampleHeader : Bytes := [23, 3, 3, 0, 22]

/-- The fragment of the second record under a secret: three bytes that end in zero bytes, their
    type and two more zero bytes. -/
def sampleFragment : Bytes :=
  let suite := CipherSuite.aes128GcmSha256
  let key := Hkdf.expandLabel suite.hash [7] "key" [] suite.aead.keyLength
  let iv := Hkdf.expandLabel suite.hash [7] "iv" [] 12
  suite.aead.encrypt key (Bytes.xor iv (List.replicate 4 0 ++ Bytes.ofNat 8 1)) sampleHeader
    [1, 0, 0, 22, 0, 0]

/-- A fragment that cannot hold a tag, a forged one, and one that was sealed. -/
def sampleRecords : List (Bytes × Bytes) :=
  [(sampleHeader, [1]), (sampleHeader, List.replicate 22 0), (sampleHeader, sampleFragment)]

/-- The forged fragment takes a number, and the content keeps its zero bytes. -/
theorem opens_exactly_sealed_after_forged :
    sampleRecords.length < 1 <<< 64 ∧ sampleRecords[2]? = some (sampleHeader, sampleFragment)
    ∧ ((Opener.ofSecret .aes128GcmSha256 [7]).run sampleRecords)[2]?
      = some (.ok ⟨22, [1, 0, 0]⟩) := by
  have hfew : sampleRecords.length < 1 <<< 64 := by decide
  have hrecord : sampleRecords[2]? = some (sampleHeader, sampleFragment) := rfl
  obtain ⟨result, hrun, hok, -⟩ := opens_exactly_sealed .aes128GcmSha256 [7] hfew hrecord
  refine ⟨hfew, hrecord, ?_⟩
  rw [hrun, (hok 22 [1, 0, 0]).2 ⟨by decide, 2, rfl⟩]

end Opener

end Tls

end ServedChain
