/-
  The choices of a server, read where they stand in the body of its message.

  `ServerHello.parseInPlace` reads each part of the body at its place, as a reader does
  that keeps the body as it is; a read that went beyond the end of the body would fail.

  * `parse?_eq_some`: what the choices are by the places of their parts, and
    `parse?_eq_none_iff`: which bodies have none;
  * `parseInPlace_eq`: no read fails, and the choices are those that `parse?` finds;
  * `parse?_inverts_encode`: what is read of a body as it is written, and of a cut one.
-/
import ServedChain.Proofs.Tls.ServerHello

namespace ServedChain

/-- A read of some bytes at a place that goes beyond the end. -/
structure Overread where
  place : Nat
  width : Nat
  deriving DecidableEq, Repr

namespace Bytes

/-- Some bytes at a place. -/
def readAt (bs : Bytes) (place width : Nat) : Except Overread Bytes :=
  if place + width ≤ bs.length then .ok ((bs.drop place).take width) else .error ⟨place, width⟩

/-- The integer at a place. -/
def uintAt (bs : Bytes) (place width : Nat) : Except Overread Nat :=
  (bs.readAt place width).map toNat

theorem readAt_of_le {bs : Bytes} {place width : Nat} (h : place + width ≤ bs.length) :
    bs.readAt place width = .ok ((bs.drop place).take width) := if_pos h

theorem uintAt_of_le {bs : Bytes} {place width : Nat} (h : place + width ≤ bs.length) :
    bs.uintAt place width = .ok (toNat ((bs.drop place).take width)) := by
  rw [uintAt, readAt_of_le h]
  rfl

end Bytes

namespace Tls.ServerHello

open Bytes (readAt uintAt)

/-! ## Extensions -/

/-- The version after the extensions from a place up to another. -/
def versionInPlace (body : Bytes) (stop place version : Nat) : Except Overread Nat :=
  if _h : place + 4 ≤ stop then do
    let type ← body.uintAt place 2
    let length ← body.uintAt (place + 2) 2
    let stated ← if type = supportedVersions ∧ 2 ≤ length ∧ place + 4 + 2 ≤ stop then
      body.uintAt (place + 4) 2 else pure version
    versionInPlace body stop (place + 4 + length) stated
  else pure version
termination_by stop - place

theorem versionAfter_of_lt {block : Bytes} (h : block.length < 4) (version : Nat) :
    versionAfter version block = version := by
  rw [versionAfter.eq_def]
  split
  · simp only [List.length_cons] at h
    omega
  · rfl

theorem versionAfter_of_le {block : Bytes} (h : 4 ≤ block.length) (version : Nat) :
    versionAfter version block
      = versionAfter
        (if Bytes.toNat (block.take 2) = supportedVersions
            ∧ 2 ≤ Bytes.toNat ((block.drop 2).take 2) ∧ 2 ≤ (block.drop 4).length then
          Bytes.toNat ((block.drop 4).take 2) else version)
        ((block.drop 4).drop (Bytes.toNat ((block.drop 2).take 2))) := by
  rcases block with _ | ⟨t, _ | ⟨t', _ | ⟨l, _ | ⟨l', rest⟩⟩⟩⟩
  case cons.cons.cons.cons =>
    rw [versionAfter.eq_def]
    simp only [List.take_succ_cons, List.take_zero, List.drop_succ_cons, List.drop_zero]
    congr 1
    rcases rest with _ | ⟨v, _ | ⟨v', rest⟩⟩ <;> simp
  all_goals
    simp at h

section
variable {body : Bytes} {place stop : Nat}

/-- The bytes between two places without the first ones. -/
theorem drop_window (n : Nat) :
    ((body.drop place).take (stop - place)).drop n
      = (body.drop (place + n)).take (stop - (place + n)) := by
  rw [List.drop_take, List.drop_drop, Nat.sub_sub]

/-- The first ones of the bytes between two places. -/
theorem take_window {n : Nat} (h : place + n ≤ stop) :
    ((body.drop place).take (stop - place)).take n = (body.drop place).take n := by
  rw [List.take_take, Nat.min_eq_left (by omega)]

theorem length_window (h : stop ≤ body.length) :
    ((body.drop place).take (stop - place)).length = stop - place := by
  rw [List.length_take, List.length_drop]
  omega

end

/-- The bytes up to the end of the extensions can be read. -/
theorem versionInPlace_eq {body : Bytes} {stop : Nat} (hstop : stop ≤ body.length)
    (place version : Nat) :
    versionInPlace body stop place version
      = .ok (versionAfter version ((body.drop place).take (stop - place))) := by
  rw [versionInPlace]
  split
  · next h =>
    rw [Bytes.uintAt_of_le (by omega), Bytes.uintAt_of_le (by omega)]
    simp only [bind, Except.bind]
    rw [versionAfter_of_le (by rw [length_window hstop]; omega), drop_window, drop_window,
      drop_window, take_window (by omega), take_window (by omega), length_window hstop]
    generalize Bytes.toNat ((body.drop (place + 2)).take 2) = length
    have hdata : 2 ≤ stop - (place + 4) ↔ place + 4 + 2 ≤ stop := by omega
    simp only [hdata]
    split
    · next hstates =>
      rw [Bytes.uintAt_of_le (by omega), take_window hstates.2.2]
      exact versionInPlace_eq hstop (place + 4 + length) _
    · exact versionInPlace_eq hstop (place + 4 + length) version
  · next h =>
    rw [versionAfter_of_lt (by rw [length_window hstop]; omega)]
    rfl
termination_by stop - place

/-! ## Messages -/

/-- Where the cipher suite stands in the body. -/
def suitePlace (body : Bytes) : Nat := 2 + 32 + 1 + Bytes.toNat ((body.drop (2 + 32)).take 1)

/-- The choices in the body of a message, read in place. -/
def parseInPlace (body : Bytes) : Except Overread (Option ServerHello) := do
  if body.length < 34 + 1 then return none
  let sessionLength ← body.uintAt 34 1
  let place := 34 + 1 + sessionLength
  if body.length < place + 3 then return none
  let version ← body.uintAt 0 2
  let cipherSuite ← body.uintAt place 2
  let random ← body.readAt 2 32
  let isRetry := random = retryRandom
  if body.length < place + 3 + 2 then return some { version, cipherSuite, isRetry }
  let length ← body.uintAt (place + 3) 2
  let stop := min (place + 3 + 2 + length) body.length
  let version ← versionInPlace body stop (place + 3 + 2) version
  return some { version, cipherSuite, isRetry }

/-- The choices by the places of their parts. -/
theorem parse?_eq_some {body : Bytes} (h : suitePlace body + 3 ≤ body.length) :
    parse? body = some
      { version := (Bytes.uint? 2 (body.drop (suitePlace body + 3))).elim
          (Bytes.toNat (body.take 2))
          fun part => versionAfter (Bytes.toNat (body.take 2)) (part.2.take part.1)
        cipherSuite := Bytes.toNat ((body.drop (suitePlace body)).take 2)
        isRetry := (body.drop 2).take 32 = retryRandom } := by
  have hplace : 2 + 32 + 1 ≤ suitePlace body := Nat.le_add_right ..
  have hversion := @Bytes.uint?_of_le 2 body (by omega)
  have hrandom := @Bytes.cut?_drop 2 32 body (by omega)
  have hlength := @Bytes.uint?_drop (2 + 32) 1 body (by omega)
  have hsession : Bytes.cut? (Bytes.toNat ((body.drop (2 + 32)).take 1)) (body.drop (2 + 32 + 1))
      = some (_, body.drop (suitePlace body)) :=
    Bytes.cut?_drop (Nat.le_trans (Nat.le_add_right (suitePlace body) 3) h)
  have hsuite := @Bytes.uint?_drop (suitePlace body) 2 body (by omega)
  have hcompression := @Bytes.cut?_drop (suitePlace body + 2) 1 body (by omega)
  simp only [parse?, hversion, hrandom, hlength, hsession, hsuite, hcompression,
    Option.bind_eq_bind, Option.bind_some, Option.pure_def]
  rcases Bytes.uint? 2 (body.drop (suitePlace body + 3)) with _ | ⟨length, rest⟩ <;> rfl

theorem le_length_of_parse? {body : Bytes} {hello : ServerHello} (h : parse? body = some hello) :
    suitePlace body + 3 ≤ body.length := by
  simp only [parse?, Option.bind_eq_bind, Option.bind_eq_some_iff, Prod.exists] at h
  obtain ⟨_, _, hreadVersion, random, _, hcutRandom, _, _, hreadLength, session, _, hcutSession,
    _, _, hreadSuite, compression, rest, hcutCompression, -⟩ := h
  obtain ⟨version, rfl, hversion, -⟩ := Bytes.uint?_eq_some hreadVersion
  obtain ⟨rfl, hrandom⟩ := Bytes.cut?_eq_some_iff.1 hcutRandom
  obtain ⟨length, rfl, hlength, hvalue⟩ := Bytes.uint?_eq_some hreadLength
  obtain ⟨rfl, hsession⟩ := Bytes.cut?_eq_some_iff.1 hcutSession
  obtain ⟨suite, rfl, hsuite, -⟩ := Bytes.uint?_eq_some hreadSuite
  obtain ⟨rfl, hcompression⟩ := Bytes.cut?_eq_some_iff.1 hcutCompression
  have hfront : (version ++ random).length = 2 + 32 := by
    rw [List.length_append, hversion, hrandom]
  rw [suitePlace, ← List.append_assoc, List.drop_left' hfront, List.take_left' hlength, hvalue]
  simp only [List.length_append, hversion, hrandom, hlength, hsession, hsuite, hcompression]
  omega

/-- A body has choices exactly if everything up to the compression method is there. -/
theorem parse?_eq_none_iff {body : Bytes} :
    parse? body = none ↔ body.length < suitePlace body + 3 := by
  constructor
  · intro h
    refine Nat.lt_of_not_le fun hle => ?_
    rw [parse?_eq_some hle] at h
    cases h
  · intro h
    refine Option.eq_none_iff_forall_ne_some.2 fun hello hparse => ?_
    exact Nat.not_lt.2 (le_length_of_parse? hparse) h

/-- **No read goes beyond the end of the body**, and the choices that are read in place are those
    that are found from the front. -/
theorem parseInPlace_eq (body : Bytes) : parseInPlace body = .ok (parse? body) := by
  rcases Nat.lt_or_ge body.length (34 + 1) with hshort | hlong
  · have hnone : parse? body = none :=
      parse?_eq_none_iff.2 (by rw [suitePlace]; omega)
    rw [parseInPlace, if_pos hshort, hnone]
    rfl
  · have hplace : 34 + 1 + Bytes.toNat ((body.drop 34).take 1) = suitePlace body := rfl
    rw [parseInPlace, if_neg (Nat.not_lt.2 hlong), Bytes.uintAt_of_le hlong]
    simp only [bind, Except.bind, hplace]
    rcases Nat.lt_or_ge body.length (suitePlace body + 3) with hcut | hfront
    · rw [if_pos hcut, parse?_eq_none_iff.2 hcut]
      rfl
    · rw [if_neg (Nat.not_lt.2 hfront), Bytes.uintAt_of_le (by omega),
        Bytes.uintAt_of_le (by omega), Bytes.readAt_of_le (by omega), parse?_eq_some hfront]
      simp only [List.drop_zero]
      rcases Nat.lt_or_ge body.length (suitePlace body + 3 + 2) with hnone | hblock
      · rw [if_pos hnone, Bytes.uint?_drop_eq_none hfront hnone]
        rfl
      · rw [if_neg (Nat.not_lt.2 hblock), Bytes.uintAt_of_le hblock, Bytes.uint?_drop hblock]
        simp only [versionInPlace_eq (Nat.min_le_right ..), Option.elim_some]
        have hextensions : ∀ length, (body.drop (suitePlace body + 3 + 2)).take
              (min (suitePlace body + 3 + 2 + length) body.length - (suitePlace body + 3 + 2))
            = (body.drop (suitePlace body + 3 + 2)).take length := by
          intro length
          rw [List.take_eq_take_iff, List.length_drop]
          omega
        rw [hextensions]
        rfl

/-! ## Cut bodies -/

section
variable (fields : Fields) (tail : Bytes)

theorem suitePlace_take {n : Nat} (h : 2 + 32 + 1 ≤ n) :
    suitePlace ((fields.front ++ tail).take n) = 2 + 32 + 1 + fields.sessionId.length := by
  have hfront : (Bytes.ofNat 2 fields.legacyVersion ++ fields.random).length = 2 + 32 := by
    rw [List.length_append, Bytes.length_ofNat, fields.length_random]
  have hvalue : Bytes.toNat (Bytes.ofNat 1 fields.sessionId.length) = fields.sessionId.length := by
    rw [Bytes.toNat_ofNat]
    exact Nat.mod_eq_of_lt fields.length_sessionId
  rw [suitePlace, List.drop_take, List.take_take, Nat.min_eq_left (by omega), Fields.front]
  simp only [List.append_assoc]
  rw [← List.append_assoc, List.drop_left' hfront, List.take_left' (Bytes.length_ofNat ..), hvalue]

/-- A body that is cut in front of the extensions has no choices. -/
theorem parse?_take_eq_none {n : Nat} (h : n < fields.front.length) :
    parse? ((fields.front ++ tail).take n) = none := by
  have hlength : ((fields.front ++ tail).take n).length ≤ n := List.length_take_le ..
  rw [fields.length_front] at h
  rw [parse?_eq_none_iff]
  rcases Nat.lt_or_ge n (2 + 32 + 1) with hshort | hlong
  · rw [suitePlace]
    omega
  · rw [suitePlace_take fields tail hlong]
    omega

/-- A body that is cut behind that has the cipher suite and the request. -/
theorem exists_parse?_take {n : Nat} (h : fields.front.length ≤ n) :
    ∃ version, parse? ((fields.front ++ tail).take n)
      = some ⟨version, fields.cipherSuite, fields.isRetry⟩ := by
  rw [List.take_append, List.take_of_length_le h]
  exact ⟨_, parse?_front_append fields _⟩

end

/-- **A body as it is written reads back, a cut one as far as it goes, and nothing outside a body is
    read.**  The choices of a body are its cipher suite, whether its random value is the one that
    asks for another client hello, and the version of the last extension that states one, or else
    the version in front, whatever stands behind the block of extensions.  A body that is cut
    somewhere has no choices exactly if the compression method is cut off, and otherwise the same
    cipher suite and the same request.  Whatever the bytes are, they can be read in place without
    a read that goes beyond their end. -/
theorem parse?_inverts_encode :
    (∀ (fields : Fields) (rest : Bytes), (fields.extensions = none → rest = []) →
      let body := fields.encode ++ rest
      parse? body = some ⟨fields.version, fields.cipherSuite, fields.isRetry⟩
      ∧ ∀ n, (parse? (body.take n) = none ↔ n < 2 + 32 + 1 + fields.sessionId.length + 2 + 1)
        ∧ ∀ hello, parse? (body.take n) = some hello →
          hello.cipherSuite = fields.cipherSuite ∧ hello.isRetry = fields.isRetry)
    ∧ ∀ body : Bytes, parseInPlace body = .ok (parse? body) := by
  refine ⟨fun fields rest h => ⟨parse?_encode_append fields h, fun n => ?_⟩, parseInPlace_eq⟩
  rw [Fields.encode_eq, List.append_assoc, ← fields.length_front]
  rcases Nat.lt_or_ge n fields.front.length with hcut | hwhole
  · have hnone := parse?_take_eq_none fields (fields.block ++ rest) hcut
    refine ⟨iff_of_true hnone hcut, fun hello hparse => ?_⟩
    rw [hnone] at hparse
    cases hparse
  · obtain ⟨version, hsome⟩ := exists_parse?_take fields (fields.block ++ rest) hwhole
    refine ⟨iff_of_false (by simp [hsome]) (Nat.not_lt.2 hwhole), fun hello hparse => ?_⟩
    rw [hsome] at hparse
    cases hparse
    exact ⟨rfl, rfl⟩

/-- A hello with two versions of which one is cut short, and another extension between them. -/
def sampleFields : Fields where
  legacyVersion := 0x0302
  random := List.replicate 32 7
  sessionId := [1, 2, 3]
  cipherSuite := 0x1301
  compression := 0
  extensions := some [(43, [3, 4]), (0, []), (43, [3])]
  legacyVersion_lt := by decide
  length_random := by decide
  length_sessionId := by decide
  cipherSuite_lt := by decide
  extension_lt := by
    rintro _ ⟨⟩
    decide
  length_extensions := by
    rintro _ ⟨⟩
    decide

/-- Bytes behind the block of extensions, and a body that ends with the cipher suite. -/
theorem parse?_inverts_encode_short_version :
    parse? (sampleFields.encode ++ [0, 43]) = some ⟨0x0304, 0x1301, false⟩
      ∧ parse? ((sampleFields.encode ++ [0, 43]).take 40) = none := by
  obtain ⟨hwhole, hcut⟩ := parse?_inverts_encode.1 sampleFields [0, 43] (by rintro ⟨⟩)
  exact ⟨hwhole.trans (by decide), (hcut 40).1.2 (by decide)⟩

end Tls.ServerHello

end ServedChain
