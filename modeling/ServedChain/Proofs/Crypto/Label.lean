/-
  The labels of derived values (RFC 8446, section 7.1).

  A value is derived for a length, a label and a context, and the `info` of the
  expansion says which: two of its fields have no fixed length, and the first of
  them holds text of any kind.

  * `Label.encode`: the fields as the standard writes them, and
    `Label.info_eq_encode`: as far as they fit, `info` is that;
  * `Label.decode?`: the fields read one after another, and
    `Label.decode?_eq_some_iff`: it reads exactly what is written;
  * `labels_never_confused` puts this together.
-/
import Mathlib.Data.List.Basic
import ServedChain.Crypto.Hkdf
import ServedChain.Proofs.Division
import ServedChain.X509.Pem

namespace ServedChain.Hkdf

open X509.Pem (ascii)

/-! ## Texts in ASCII -/

/-- A text without a character outside ASCII. -/
def IsAscii (text : String) : Prop := ∀ c ∈ text.toList, c.toNat < 128

instance (text : String) : Decidable (IsAscii text) :=
  List.decidableBAll (fun c : Char => c.toNat < 128) text.toList

theorem length_ascii (text : String) : (ascii text).length = text.length := by
  rw [ascii, List.length_map, String.length_toList]

theorem ascii_append (front back : String) : ascii (front ++ back) = ascii front ++ ascii back := by
  rw [ascii, String.toList_append, List.map_append]
  rfl

theorem IsAscii.append {front back : String} (hfront : IsAscii front) (hback : IsAscii back) :
    IsAscii (front ++ back) := by
  rw [IsAscii, String.toList_append]
  exact List.forall_mem_append.2 ⟨hfront, hback⟩

theorem IsAscii.unitBytes_eq {text : String} (h : IsAscii text) : unitBytes text = ascii text := by
  rw [unitBytes, ascii, List.map_eq_flatMap]
  refine List.flatMap_congr ?_
  intro c hc
  have hsmall := h c hc
  rw [if_pos (by omega)]

/-- The text with the given bytes, if they are those of a text in ASCII. -/
def asciiText? (bs : Bytes) : Option String :=
  if bs.all (·.toNat < 128) then some (String.ofList (bs.map fun b => Char.ofNat b.toNat))
  else none

theorem toNat_charOfNat {n : Nat} (h : n < 128) : (Char.ofNat n).toNat = n := by
  revert h n
  decide

theorem asciiText?_eq_some_iff {bs : Bytes} {text : String} :
    asciiText? bs = some text ↔ IsAscii text ∧ bs = ascii text := by
  constructor
  · intro h
    obtain ⟨hall, htext⟩ := Option.ite_none_right_eq_some.1 h
    cases htext
    have hbs : ∀ b ∈ bs, b.toNat < 128 := by simpa using hall
    rw [IsAscii, ascii, String.toList_ofList, List.map_map]
    constructor
    · intro c hc
      obtain ⟨b, hb, rfl⟩ := List.mem_map.1 hc
      rw [toNat_charOfNat (hbs b hb)]
      exact hbs b hb
    · refine (List.map_id bs).symm.trans (List.map_congr_left ?_)
      intro b hb
      rw [Function.comp, toNat_charOfNat (hbs b hb), UInt8.ofNat_toNat]
      rfl
  · rintro ⟨htext, rfl⟩
    have hbyte : ∀ c ∈ text.toList, (UInt8.ofNat c.toNat).toNat = c.toNat := by
      intro c hc
      exact UInt8.toNat_ofNat_of_lt' (Nat.lt_trans (htext c hc) (by decide))
    have hbs : ∀ b ∈ ascii text, b.toNat < 128 := by
      intro b hb
      obtain ⟨c, hc, rfl⟩ := List.mem_map.1 hb
      rw [hbyte c hc]
      exact htext c hc
    have hchars : (ascii text).map (fun b => Char.ofNat b.toNat) = text.toList := by
      rw [ascii, List.map_map]
      refine (List.map_congr_left ?_).trans (List.map_id text.toList)
      intro c hc
      rw [Function.comp, hbyte c hc, Char.ofNat_toNat]
      rfl
    rw [asciiText?, if_pos (by simpa using hbs), hchars, String.ofList_toList]

/-! ## Labels -/

/-- What a value is derived for. -/
structure Label where
  length : Nat
  text : String
  context : Bytes

namespace Label

/-- Every part has room in its field.  What stands behind `tls13 ` has six bytes less than that. -/
structure Fits (label : Label) : Prop where
  length_lt : label.length < 1 <<< 16
  isAscii : IsAscii label.text
  length_text : label.text.length ≤ 249
  length_context : label.context.length ≤ 255

variable (label : Label)

/-- The fields of a label, as the standard has them. -/
def encode : Bytes :=
  Bytes.ofNat 2 label.length ++ Bytes.lengthFirst 1 (ascii ("tls13 " ++ label.text))
    ++ Bytes.lengthFirst 1 label.context

/-- The `info` under which a value is derived. -/
def info : Bytes := labelInfo label.text label.context label.length

variable {label}

theorem Fits.info_eq_encode (h : label.Fits) : label.info = label.encode := by
  have hlength : ((label.length : Int) % 65536).toNat = label.length := by
    have hlt := h.length_lt
    omega
  have hfull : unitBytes ("tls13 " ++ label.text) = ascii ("tls13 " ++ label.text) :=
    (IsAscii.append (by decide) h.isAscii).unitBytes_eq
  rw [info, labelInfo, hlength, hfull, encode]
  simp [Bytes.lengthFirst, Bytes.ofNat]

/-- A decoder that reads the fields one after another. -/
def decode? (bs : Bytes) : Option Label := do
  let (length, bs) ← Bytes.uint? 2 bs
  let (full, bs) ← Bytes.lengthFirst? 1 bs
  let (context, bs) ← Bytes.lengthFirst? 1 bs
  let (start, text) ← Bytes.cut? 6 full
  let text ← asciiText? text
  if start = ascii "tls13 " ∧ bs = [] then some ⟨length, text, context⟩ else none

/-- A byte can say how long the text is exactly if the label has at most 249 characters. -/
theorem length_full_lt_iff {text : String} :
    (ascii ("tls13 " ++ text)).length < 1 <<< (8 * 1) ↔ text.length ≤ 249 := by
  have hstart : "tls13 ".length = 6 := rfl
  rw [length_ascii, String.length_append, hstart]
  omega

/-- The decoder reads exactly what is written of a label that fits. -/
theorem decode?_eq_some_iff {bs : Bytes} :
    decode? bs = some label ↔ label.Fits ∧ bs = label.encode := by
  simp only [decode?, Option.bind_eq_bind, Option.bind_eq_some_iff, Prod.exists,
    Bytes.uint?_eq_some_iff, Bytes.lengthFirst?_eq_some_iff, Bytes.cut?_eq_some_iff,
    asciiText?_eq_some_iff, Option.ite_none_right_eq_some, Option.some.injEq]
  constructor
  · rintro ⟨length, -, ⟨hlength, rfl⟩, full, -, ⟨hfull, rfl⟩, context, -, ⟨hcontext, rfl⟩,
      start, -, ⟨rfl, -⟩, text, ⟨htext, rfl⟩, ⟨rfl, rfl⟩, rfl⟩
    rw [← ascii_append] at hfull ⊢
    refine ⟨⟨hlength, htext, length_full_lt_iff.1 hfull, Nat.le_of_lt_succ hcontext⟩, ?_⟩
    rw [encode, List.append_nil, List.append_assoc]
  · rintro ⟨hfits, rfl⟩
    have hfull := length_full_lt_iff.2 hfits.length_text
    have hcontext : label.context.length < 1 <<< (8 * 1) := Nat.lt_succ_of_le hfits.length_context
    -- one field after another
    refine ⟨label.length, _, ⟨hfits.length_lt, List.append_assoc ..⟩, ?_⟩
    refine ⟨ascii ("tls13 " ++ label.text), _, ⟨hfull, rfl⟩, ?_⟩
    refine ⟨label.context, [], ⟨hcontext, (List.append_nil _).symm⟩, ?_⟩
    refine ⟨ascii "tls13 ", ascii label.text, ⟨ascii_append .., rfl⟩, ?_⟩
    exact ⟨label.text, ⟨hfits.isAscii, rfl⟩, ⟨rfl, rfl⟩, rfl⟩

theorem decode?_info_iff : decode? label.info = some label ↔ label.Fits := by
  constructor
  · intro h
    exact (decode?_eq_some_iff.1 h).1
  · intro h
    exact decode?_eq_some_iff.2 ⟨h, h.info_eq_encode⟩

end Label

/-- **Labels are never confused.**  As far as a label fits, the `info` of its derivation has the
    fields of the standard, and these can be read off it.  Where it does not fit it reads as something
    else or not at all.  Two labels that fit are the same if their values are derived under one
    `info`. -/
theorem labels_never_confused :
    (∀ label : Label, label.Fits → label.info = label.encode
      ∧ ∀ (hash : Hash) (secret : Bytes),
        expandLabel hash secret label.text label.context label.length
          = expand hash secret label.encode label.length)
    ∧ (∀ label : Label, Label.decode? label.info = some label ↔ label.Fits)
    ∧ ∀ a b : Label, a.Fits → b.Fits → a.info = b.info → a = b := by
  refine ⟨?_, ?_, ?_⟩
  · intro label h
    refine ⟨h.info_eq_encode, ?_⟩
    intro hash secret
    exact congrArg (expand hash secret · label.length) h.info_eq_encode
  · intro label
    exact Label.decode?_info_iff
  · intro a b ha hb h
    have hread : some a = some b := by
      rw [← Label.decode?_info_iff.2 ha, h, Label.decode?_info_iff.2 hb]
    exact Option.some.inj hread

/-- The labels of the two parts of the traffic keys, and a context that is too long. -/
theorem labels_never_confused_key_iv :
    let key : Label := ⟨16, "key", []⟩
    let iv : Label := ⟨12, "iv", []⟩
    let long : Label := ⟨16, "key", List.replicate 256 0⟩
    key.Fits ∧ iv.Fits
      ∧ key.info = [0, 16, 9, 0x74, 0x6c, 0x73, 0x31, 0x33, 0x20, 0x6b, 0x65, 0x79, 0]
      ∧ (∀ secret, expandLabel .sha256 secret "key" [] 16 = expand .sha256 secret key.encode 16)
      ∧ Label.decode? key.info = some key
      ∧ key.info ≠ iv.info
      ∧ Label.decode? long.info ≠ some long := by
  intro key iv long
  have hkey : key.Fits := by constructor <;> decide
  have hiv : iv.Fits := by constructor <;> decide
  have hlong : ¬ long.Fits := by
    intro h
    have hlength : (List.replicate 256 (0 : UInt8)).length ≤ 255 := h.length_context
    rw [List.length_replicate] at hlength
    omega
  obtain ⟨hinfo, hread, hunique⟩ := labels_never_confused
  refine ⟨hkey, hiv, ?_, ?_, ?_, ?_, ?_⟩
  · exact (hinfo key hkey).1.trans (by decide)
  · exact (hinfo key hkey).2 .sha256
  · exact (hread key).2 hkey
  · intro h
    exact absurd (congrArg Label.length (hunique key iv hkey hiv h)) (by decide)
  · intro h
    exact hlong ((hread long).1 h)

end ServedChain.Hkdf
