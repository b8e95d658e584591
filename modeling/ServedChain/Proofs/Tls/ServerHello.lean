/-
  The choices of a server read back as they were written.

  * `Fields` is what a server may state, and `Fields.encode` the body of its message;
  * `versionAfter_flatMap`: a block of extensions states the version of the last one
    that states any;
  * `parse?_front_append`: what stands in front of the extensions reads back, whatever
    comes behind it;
  * `parse?_encode_append`: all choices read back, whatever stands behind the block.
-/
import ServedChain.Tls.ServerHello

namespace ServedChain.Tls.ServerHello

/-! ## Extensions -/

/-- An extension, a type and data, as it is written. -/
def encodeExtension (extension : Nat × Bytes) : Bytes :=
  Bytes.ofNat 2 extension.1 ++ Bytes.ofNat 2 extension.2.length ++ extension.2

/-- The version that an extension states. -/
def statedVersion? (extension : Nat × Bytes) : Option Nat :=
  if extension.1 = supportedVersions ∧ 2 ≤ extension.2.length then
    some (Bytes.toNat (extension.2.take 2))
  else none

theorem ofNat_two (n : Nat) : Bytes.ofNat 2 n = [UInt8.ofNat (n / 256), UInt8.ofNat n] := rfl

theorem toNat_ofNat_two {n : Nat} (h : n < 1 <<< 16) :
    Bytes.toNat [UInt8.ofNat (n / 256), UInt8.ofNat n] = n := by
  rw [← ofNat_two, Bytes.toNat_ofNat]
  exact Nat.mod_eq_of_lt h

theorem versionAfter_append (version : Nat) {extension : Nat × Bytes}
    (htype : extension.1 < 1 <<< 16) (hlength : extension.2.length < 1 <<< 16) (rest : Bytes) :
    versionAfter version (encodeExtension extension ++ rest)
      = versionAfter ((statedVersion? extension).getD version) rest := by
  obtain ⟨type, data⟩ := extension
  simp only [encodeExtension, ofNat_two, List.cons_append, List.nil_append]
  rw [versionAfter.eq_def]
  simp only [toNat_ofNat_two htype, toNat_ofNat_two hlength, List.drop_left, statedVersion?]
  congr 1
  rcases data with _ | ⟨v, _ | ⟨v', data⟩⟩
  case cons.cons =>
    simp only [List.cons_append, List.take_succ_cons, List.take_zero]
    split <;> simp only [Option.getD_some, Option.getD_none]
  all_goals
    rw [if_neg (by simp)]
    split
    · rw [if_neg (by simp)]; rfl
    · rfl

/-- A block of extensions states the version of the last one that states any. -/
theorem versionAfter_flatMap (version : Nat) {extensions : List (Nat × Bytes)}
    (h : ∀ e ∈ extensions, e.1 < 1 <<< 16 ∧ e.2.length < 1 <<< 16) :
    versionAfter version (extensions.flatMap encodeExtension)
      = (extensions.filterMap statedVersion?).getLastD version := by
  induction extensions generalizing version with
  | nil => rw [List.flatMap_nil, versionAfter]; rfl; rintro _ _ _ _ _ ⟨⟩
  | cons extension extensions ih =>
    obtain ⟨htype, hlength⟩ := h extension List.mem_cons_self
    rw [List.flatMap_cons, versionAfter_append version htype hlength,
      ih _ fun e he => h e (List.mem_cons_of_mem _ he), List.filterMap_cons]
    cases statedVersion? extension with
    | none => rfl
    | some stated => exact List.getLastD_cons.symm

/-! ## Messages -/

/-- What a server states. -/
structure Fields where
  legacyVersion : Nat
  random : Bytes
  sessionId : Bytes
  cipherSuite : Nat
  compression : UInt8
  /-- The extensions, if there is a block of them -/
  extensions : Option (List (Nat × Bytes))
  legacyVersion_lt : legacyVersion < 1 <<< 16
  length_random : random.length = 32
  length_sessionId : sessionId.length < 1 <<< 8
  cipherSuite_lt : cipherSuite < 1 <<< 16
  extension_lt : ∀ list, extensions = some list → ∀ e ∈ list, e.1 < 1 <<< 16
  length_extensions : ∀ list, extensions = some list →
    (list.flatMap encodeExtension).length < 1 <<< 16

namespace Fields

/-- The block of extensions behind its length. -/
def block (fields : Fields) : Bytes :=
  match fields.extensions with
  | none => []
  | some list =>
    let block := list.flatMap encodeExtension
    Bytes.ofNat 2 block.length ++ block

/-- The body of the message. -/
def encode (fields : Fields) : Bytes :=
  Bytes.ofNat 2 fields.legacyVersion ++ fields.random
    ++ Bytes.ofNat 1 fields.sessionId.length ++ fields.sessionId
    ++ Bytes.ofNat 2 fields.cipherSuite ++ [fields.compression] ++ fields.block

/-- The body up to the method of compression. -/
def front (fields : Fields) : Bytes :=
  Bytes.ofNat 2 fields.legacyVersion ++ fields.random
    ++ Bytes.ofNat 1 fields.sessionId.length ++ fields.sessionId
    ++ Bytes.ofNat 2 fields.cipherSuite ++ [fields.compression]

theorem encode_eq (fields : Fields) : fields.encode = fields.front ++ fields.block := rfl

theorem length_front (fields : Fields) :
    fields.front.length = 2 + 32 + 1 + fields.sessionId.length + 2 + 1 := by
  simp only [front, List.length_append, Bytes.length_ofNat, fields.length_random,
    List.length_singleton]

/-- The version that the server chooses. -/
def version (fields : Fields) : Nat :=
  ((fields.extensions.getD []).filterMap statedVersion?).getLastD fields.legacyVersion

/-- The server asks for another client hello. -/
def isRetry (fields : Fields) : Bool := fields.random = retryRandom

end Fields

theorem length_le_of_mem {extension : Nat × Bytes} {extensions : List (Nat × Bytes)}
    (h : extension ∈ extensions) :
    extension.2.length ≤ (extensions.flatMap encodeExtension).length := by
  obtain ⟨front, back, rfl⟩ := List.append_of_mem h
  simp only [List.flatMap_append, List.flatMap_cons, encodeExtension, List.length_append]
  omega

/-- The choices in front of the extensions read back, whatever stands behind them. -/
theorem parse?_front_append (fields : Fields) (tail : Bytes) :
    parse? (fields.front ++ tail)
      = some ⟨(Bytes.uint? 2 tail).elim fields.legacyVersion fun part =>
          versionAfter fields.legacyVersion (part.2.take part.1),
        fields.cipherSuite, fields.isRetry⟩ := by
  rcases htail : Bytes.uint? 2 tail with _ | ⟨length, rest⟩
  all_goals simp only [Fields.front, List.append_assoc, parse?,
    @Bytes.uint?_ofNat_append 2 _ fields.legacyVersion_lt, Bytes.cut?_append fields.length_random,
    @Bytes.uint?_ofNat_append 1 _ fields.length_sessionId, Bytes.cut?_append rfl,
    @Bytes.uint?_ofNat_append 2 _ fields.cipherSuite_lt,
    @Bytes.cut?_append 1 [fields.compression] rfl, Option.bind_eq_bind, Option.bind_some, Option.pure_def, Fields.isRetry, htail,
    Option.elim_none, Option.elim_some]

/-- The choices read back, whatever stands behind a block of extensions. -/
theorem parse?_encode_append (fields : Fields) {rest : Bytes}
    (h : fields.extensions = none → rest = []) :
    parse? (fields.encode ++ rest)
      = some ⟨fields.version, fields.cipherSuite, fields.isRetry⟩ := by
  rw [Fields.encode_eq, List.append_assoc, parse?_front_append]
  rcases hextensions : fields.extensions with _ | list
  · rw [h hextensions]
    simp only [Fields.block, Fields.version, hextensions]
    rfl
  · have hlength := fields.length_extensions list hextensions
    have hdata : ∀ e ∈ list, e.1 < 1 <<< 16 ∧ e.2.length < 1 <<< 16 := fun e he =>
      ⟨fields.extension_lt list hextensions e he, Nat.lt_of_le_of_lt (length_le_of_mem he) hlength⟩
    simp only [Fields.block, Fields.version, hextensions, List.append_assoc,
      @Bytes.uint?_ofNat_append 2 _ hlength, Option.elim_some, List.take_left,
      versionAfter_flatMap _ hdata, Option.getD_some]

end ServedChain.Tls.ServerHello
