/-
  What the text of a name shows as its common name.

  * `Name.lastCommonName` is the last common name in a name, and
    `Name.shownCommonName` what is read off the text of the name;
  * `commonNameIn_render`: the text shows the first attribute of a relative name,
    with the characters that escape it and all attributes behind it;
  * `isControl_of_mem_relativeName`: no text of a relative name has control characters
    in it, and hence none reaches beyond its line;
  * `shownCommonName_of_alone`: of common names that stand alone it shows the last one,
    and `escape_eq_self_iff` says which of those it shows as they are.
-/
import Mathlib.Data.List.Basic
import Mathlib.Tactic.MkIffOfInductiveProp
import Mathlib.Tactic.Tauto
import ServedChain.X509.Name

namespace ServedChain.X509

open Asn1 (Oid)

/-! ## Common names -/

def Attribute.isCommonName (a : Attribute) : Bool := a.type == commonName

theorem Attribute.isCommonName_iff (a : Attribute) :
    a.isCommonName = true ↔ a.type = commonName := beq_iff_eq

namespace Name

/-- The texts of the common names in a name, in encoded order. -/
def commonNames (name : Name) : List (List Char) :=
  (name.flatten.filter Attribute.isCommonName).map Attribute.value

/-- The last common name in encoded order, or nothing. -/
def lastCommonName (name : Name) : List Char := name.commonNames.getLastD []

/-- No common name shares a relative name with another attribute. -/
def CommonNamesAlone (name : Name) : Prop :=
  ∀ relative ∈ name, ∀ a ∈ relative, a.isCommonName = true → relative = [a]

instance (name : Name) : Decidable name.CommonNamesAlone :=
  inferInstanceAs
    (Decidable (∀ relative ∈ name, ∀ a ∈ relative, a.isCommonName = true → relative = [a]))

end Name

/-- The attributes behind the first one of a relative name, as they are written. -/
def renderBehind (as : List Attribute) : List Char := as.flatMap fun a => " + ".toList ++ a.render

/-- What the line of a relative name shows as a common name: the value of the first attribute, if
    that is a common name, as it is written, and whatever else stands in the line. -/
def RelativeName.shown? : RelativeName → Option (List Char)
  | [] => none
  | a :: as => if a.isCommonName then some (escape a.value ++ renderBehind as) else none

/-- What the text of a name shows as its common name. -/
def Name.shownCommonName (name : Name) : List Char :=
  (name.filterMap RelativeName.shown?).getLastD []

/-! ## Attribute types -/

theorem mem_of_lookup {table : List (Nat × String)} {n : Nat} {name : String}
    (h : table.lookup n = some name) : (n, name) ∈ table := by
  obtain ⟨front, back, rfl, -⟩ := List.lookup_eq_some_iff.1 h
  exact List.mem_append_right _ List.mem_cons_self

/-- The short names of attributes that are not known from directories. -/
def otherNames : List (Nat × String) := pilotNames ++ pkcs9Names ++ jurisdictionNames ++ personNames

theorem mem_of_shortName? {oid : Oid} {name : String} (h : shortName? oid = some name) :
    (∃ n, oid = [2, 5, 4, n] ∧ (n, name) ∈ directoryNames) ∨ ∃ n, (n, name) ∈ otherNames := by
  unfold shortName? at h
  simp only [otherNames, List.mem_append]
  split at h
  · exact .inl ⟨_, rfl, mem_of_lookup h⟩
  · exact .inr ⟨_, .inl (.inl (.inl (mem_of_lookup h)))⟩
  · exact .inr ⟨_, .inl (.inl (.inr (mem_of_lookup h)))⟩
  · exact .inr ⟨_, .inl (.inr (mem_of_lookup h))⟩
  · exact .inr ⟨_, .inr (mem_of_lookup h)⟩
  · cases h

/-- Digits and dots. -/
def isDotted (c : Char) : Bool := c.isDigit || c == '.'

theorem isDotted_of_mem_dotted {oid : Oid} {c : Char} (h : c ∈ oid.dotted.toList) :
    isDotted c = true := by
  have hpieces : ∀ pieces : List (List Char), (∀ piece ∈ pieces, ∀ c ∈ piece, isDotted c = true) →
      ∀ c ∈ ['.'].intercalate pieces, isDotted c = true := by
    intro pieces hp
    induction pieces with
    | nil => simp
    | cons piece pieces ih =>
      obtain ⟨hpiece, hrest⟩ := List.forall_mem_cons.1 hp
      cases pieces with
      | nil => simpa using hpiece
      | cons next pieces =>
        intro c hc
        simp only [List.intercalate_cons_cons, List.mem_append, List.mem_singleton] at hc
        rcases hc with (hc | rfl) | hc
        · exact hpiece c hc
        · rfl
        · exact ih hrest c hc
  rw [Oid.dotted, String.toList_intercalate] at h
  refine hpieces _ (fun piece hmem c hc => ?_) c h
  obtain ⟨text, htext, rfl⟩ := List.mem_map.1 hmem
  obtain ⟨n, -, rfl⟩ := List.mem_map.1 htext
  rw [show (toString n).toList = Nat.toDigits 10 n from Nat.toList_repr] at hc
  rw [isDotted, Nat.isDigit_of_mem_toDigits (by decide) (by decide) hc, Bool.true_or]

theorem isControl_iff (c : Char) : isControl c = true ↔ c.toNat < 0x20 ∨ c.toNat = 0x7f := by
  simp [isControl]

theorem isControl_of_isDotted {c : Char} (h : isDotted c = true) : isControl c = false := by
  refine Bool.eq_false_iff.2 fun hcontrol => ?_
  rw [isControl_iff] at hcontrol
  rw [isDotted, Bool.or_eq_true, beq_iff_eq] at h
  rcases h with hdigit | rfl
  · obtain ⟨hlow, hhigh⟩ := Char.isDigit_iff_toNat.1 hdigit
    have hzero : '0'.toNat = 48 := rfl
    have hnine : '9'.toNat = 57 := rfl
    omega
  · exact absurd hcontrol (by decide)

/-- All but the equals sign, where the text of a type ends, and control characters. -/
def isTypeChar (c : Char) : Bool := c != '=' && !isControl c

theorem isTypeChar_of_isDotted {c : Char} (h : isDotted c = true) : isTypeChar c = true := by
  have hequals : c ≠ '=' := by
    rintro rfl
    exact absurd h (by decide)
  simp [isTypeChar, hequals, isControl_of_isDotted h]

theorem isTypeChar_of_mem_typeText {oid : Oid} {c : Char} (h : c ∈ typeText oid) :
    isTypeChar c = true := by
  have hdirectory : directoryNames.all (fun entry => entry.2.toList.all isTypeChar) = true := by
    decide +kernel
  have hother : otherNames.all (fun entry => entry.2.toList.all isTypeChar) = true := by
    decide +kernel
  unfold typeText at h
  split at h
  · next hname =>
    rcases mem_of_shortName? hname with ⟨n, -, hmem⟩ | ⟨n, hmem⟩
    · exact List.all_eq_true.1 (List.all_eq_true.1 hdirectory _ hmem) c h
    · exact List.all_eq_true.1 (List.all_eq_true.1 hother _ hmem) c h
  · exact isTypeChar_of_isDotted (isDotted_of_mem_dotted (List.mem_of_mem_take h))

theorem equals_not_mem_typeText (oid : Oid) : '=' ∉ typeText oid := by
  intro h
  have htype := isTypeChar_of_mem_typeText h
  exact absurd htype (by decide)

theorem isControl_of_mem_typeText {oid : Oid} {c : Char} (h : c ∈ typeText oid) :
    isControl c = false := by
  have htype := isTypeChar_of_mem_typeText h
  rw [isTypeChar, Bool.and_eq_true, Bool.not_eq_true'] at htype
  exact htype.2

/-- Only a common name is written like one. -/
theorem typeText_eq_iff (oid : Oid) : typeText oid = ['C', 'N'] ↔ oid = commonName := by
  have hdirectory : ∀ entry ∈ directoryNames, entry.2 = "CN" → entry.1 = 3 := by
    decide +kernel
  have hother : ∀ entry ∈ otherNames, entry.2 ≠ "CN" := by
    decide +kernel
  constructor
  · intro h
    unfold typeText at h
    split at h
    · next hname =>
      have hwritten := String.toList_inj.1 (h.trans (by decide : ['C', 'N'] = "CN".toList))
      rcases mem_of_shortName? hname with ⟨n, rfl, hmem⟩ | ⟨n, hmem⟩
      · rw [show n = 3 from hdirectory _ hmem hwritten]
        rfl
      · exact absurd hwritten (hother _ hmem)
    · have hmem : 'C' ∈ oid.dotted.toList.take 79 := by rw [h]; decide
      exact absurd (isDotted_of_mem_dotted (List.mem_of_mem_take hmem)) (by decide)
  · rintro rfl
    decide

/-! ## Values -/

/-- The characters that stand behind a backslash in some place. -/
def specials : List Char := [',', '+', '"', '\\', '<', '>', ';', '#', ' ']

theorem mem_specials {place : Place} {c : Char} (h : isSpecial place c = true) : c ∈ specials := by
  simp only [isSpecial, List.contains_eq_mem, Bool.or_eq_true, Bool.and_eq_true,
    decide_eq_true_eq, beq_iff_eq] at h
  rcases h with (hmem | ⟨-, rfl | rfl⟩) | ⟨-, rfl⟩
  · exact List.mem_append_left ['#', ' '] hmem
  · decide
  · decide
  · decide

theorem isControl_of_isSpecial {place : Place} {c : Char} (h : isSpecial place c = true) :
    isControl c = false := by
  have hall : specials.any isControl = false := by decide
  exact Bool.eq_false_iff.2 (List.any_eq_false.1 hall c (mem_specials h))

/-- Whatever a character is, it is written with printable ones. -/
theorem isControl_of_mem_escapeChar {place : Place} {c d : Char} (h : d ∈ escapeChar place c) :
    isControl d = false := by
  unfold escapeChar at h
  split at h
  · next hspecial =>
    rcases List.mem_pair.1 h with rfl | rfl
    · decide
    · exact isControl_of_isSpecial hspecial
  · split at h
    · next hcontrol =>
      have hdigit : ∀ n < 16, isControl (Hex.upperDigit n) = false := by decide
      rw [isControl_iff] at hcontrol
      simp only [List.mem_cons, List.not_mem_nil, or_false] at h
      rcases h with rfl | rfl | rfl
      · decide
      · exact hdigit _ (by omega)
      · exact hdigit _ (by omega)
    · next hcontrol =>
      obtain rfl := List.mem_singleton.1 h
      exact Bool.eq_false_iff.2 hcontrol

theorem escapeFrom_cons_cons (place : Place) (c d : Char) (ds : List Char) :
    escapeFrom place (c :: d :: ds) = escapeChar place c ++ escapeFrom .inside (d :: ds) := rfl

theorem isControl_of_mem_escapeFrom {place : Place} {value : List Char} {d : Char}
    (h : d ∈ escapeFrom place value) : isControl d = false := by
  induction value generalizing place with
  | nil => cases h
  | cons c cs ih =>
    cases cs with
    | nil => exact isControl_of_mem_escapeChar h
    | cons e es =>
      rw [escapeFrom_cons_cons] at h
      rcases List.mem_append.1 h with hhere | hbehind
      · exact isControl_of_mem_escapeChar hhere
      · exact ih hbehind

theorem isControl_of_mem_attribute {a : Attribute} {d : Char} (h : d ∈ a.render) :
    isControl d = false := by
  rcases List.mem_append.1 h with htype | hvalue
  · exact isControl_of_mem_typeText htype
  · rcases List.mem_cons.1 hvalue with rfl | hvalue
    · decide
    · exact isControl_of_mem_escapeFrom hvalue

theorem isControl_of_mem_renderBehind {as : List Attribute} {d : Char} (h : d ∈ renderBehind as) :
    isControl d = false := by
  obtain ⟨a, -, hmem⟩ := List.mem_flatMap.1 h
  rcases List.mem_append.1 hmem with hbetween | hattribute
  · have hall : " + ".toList.any isControl = false := by decide
    exact Bool.eq_false_iff.2 (List.any_eq_false.1 hall d hbetween)
  · exact isControl_of_mem_attribute hattribute

/-! ## Lines -/

theorem RelativeName.render_cons (a : Attribute) (as : List Attribute) :
    RelativeName.render (a :: as) = a.render ++ renderBehind as := by
  induction as generalizing a with
  | nil => exact (List.append_nil _).symm
  | cons b bs ih =>
    have hcons : RelativeName.render (a :: b :: bs)
        = a.render ++ " + ".toList ++ RelativeName.render (b :: bs) := rfl
    rw [hcons, ih b]
    simp [renderBehind]

/-- **The text of a relative name has no control characters in it**, whatever its values hold. -/
theorem isControl_of_mem_relativeName {relative : RelativeName} {d : Char}
    (h : d ∈ relative.render) : isControl d = false := by
  cases relative with
  | nil => cases h
  | cons a as =>
    rw [RelativeName.render_cons] at h
    rcases List.mem_append.1 h with hfirst | hbehind
    · exact isControl_of_mem_attribute hfirst
    · exact isControl_of_mem_renderBehind hbehind

theorem newline_not_mem_relativeName (relative : RelativeName) : '\n' ∉ relative.render := by
  intro h
  have hprinted := isControl_of_mem_relativeName h
  exact absurd hprinted (by decide)

theorem commonNameInLine?_append {type : List Char} (h : '=' ∉ type) (rest : List Char) :
    commonNameInLine? (type ++ '=' :: rest) = if type = ['C', 'N'] then some rest else none := by
  match type with
  | [] => rfl
  | [c] => by_cases hc : c = 'C' <;> simp [commonNameInLine?, hc]
  | [c, d] => by_cases hc : c = 'C' <;> by_cases hd : d = 'N' <;> simp [commonNameInLine?, hc, hd]
  | c :: d :: e :: es =>
    have he : e ≠ '=' := by
      rintro rfl
      exact h (by simp)
    simp [commonNameInLine?, he]

/-- The line of a relative name shows what `shown?` says. -/
theorem commonNameInLine?_render {relative : RelativeName} (h : relative ≠ []) :
    commonNameInLine? relative.render = relative.shown? := by
  cases relative with
  | nil => exact absurd rfl h
  | cons a as =>
    have htype := equals_not_mem_typeText a.type
    rw [RelativeName.render_cons, Attribute.render, List.append_assoc, List.cons_append,
      commonNameInLine?_append htype, RelativeName.shown?]
    by_cases hname : a.type = commonName
    · rw [if_pos ((typeText_eq_iff _).2 hname), if_pos (a.isCommonName_iff.2 hname)]
    · rw [if_neg (mt (typeText_eq_iff _).1 hname), if_neg (mt a.isCommonName_iff.1 hname)]

/-- A relative name without attributes shows nothing. -/
theorem Name.filterMap_shown? (name : Name) :
    (name.filter (!·.isEmpty)).filterMap RelativeName.shown?
      = name.filterMap RelativeName.shown? := by
  induction name with
  | nil => rfl
  | cons relative name ih =>
    cases relative with
    | nil => exact ih
    | cons a as => rw [List.filter_cons_of_pos rfl, List.filterMap_cons, List.filterMap_cons, ih]

/-- **What the text of a name shows as its common name.** -/
theorem commonNameIn_render (name : Name) : commonNameIn name.render = name.shownCommonName := by
  have hline : ∀ line ∈ (name.filter (!·.isEmpty)).map RelativeName.render, '\n' ∉ line := by
    intro line hmem
    obtain ⟨relative, -, rfl⟩ := List.mem_map.1 hmem
    exact newline_not_mem_relativeName relative
  rw [Name.shownCommonName, ← Name.filterMap_shown?, commonNameIn, Name.render]
  by_cases hlines : name.filter (!·.isEmpty) = []
  · rw [hlines]
    rfl
  · rw [Text.split_join (mt List.map_eq_nil_iff.1 hlines) hline, List.filterMap_map]
    congr 1
    refine List.filterMap_congr fun relative hmem => ?_
    exact commonNameInLine?_render (by simpa using (List.mem_filter.1 hmem).2)

/-! ## Names without text -/

theorem RelativeName.render_ne_nil {relative : RelativeName} (h : relative ≠ []) :
    relative.render ≠ [] := by
  cases relative with
  | nil => exact absurd rfl h
  | cons a as =>
    rw [RelativeName.render_cons, Attribute.render]
    simp

/-- Only a name without attributes has no text. -/
theorem render_eq_nil_iff (name : Name) : name.render = [] ↔ name.flatten = [] := by
  constructor
  · intro h
    refine List.flatten_eq_nil_iff.2 fun relative hmem => Classical.byContradiction fun hne => ?_
    have hkept : relative ∈ name.filter (!·.isEmpty) :=
      List.mem_filter.2 ⟨hmem, by simpa using hne⟩
    obtain ⟨first, rest, hlines⟩ := List.exists_cons_of_ne_nil (List.ne_nil_of_mem hkept)
    have hfirst : first ≠ [] := by
      have hmem : first ∈ name.filter (!·.isEmpty) := by rw [hlines]; exact List.mem_cons_self
      simpa using (List.mem_filter.1 hmem).2
    rw [Name.render, hlines] at h
    cases rest with
    | nil => exact RelativeName.render_ne_nil hfirst h
    | cons next rest => exact RelativeName.render_ne_nil hfirst (List.append_eq_nil_iff.1 h).1
  · intro h
    have hnone : name.filter (!·.isEmpty) = [] := by
      refine List.filter_eq_nil_iff.2 fun relative hmem => ?_
      simp [List.flatten_eq_nil_iff.1 h relative hmem]
    rw [Name.render, hnone]
    rfl

/-! ## Common names that stand alone -/

theorem filterMap_shown?_of_alone {name : Name} (h : name.CommonNamesAlone) :
    name.filterMap RelativeName.shown? = name.commonNames.map escape := by
  induction name with
  | nil => rfl
  | cons relative name ih =>
    have hrest := ih fun other hmem => h other (List.mem_cons_of_mem _ hmem)
    have hnames : Name.commonNames (relative :: name) =
        (relative.filter Attribute.isCommonName).map Attribute.value ++ Name.commonNames name := by
      simp [Name.commonNames]
    have hhere := h relative List.mem_cons_self
    rw [hnames, List.map_append, ← hrest, List.filterMap_cons]
    by_cases hnone : ∀ a ∈ relative, a.isCommonName = false
    -- A relative name without a common name shows none
    · have hshown : relative.shown? = none := by
        cases relative with
        | nil => rfl
        | cons a as => simp [RelativeName.shown?, hnone a List.mem_cons_self]
      have hfilter : relative.filter Attribute.isCommonName = [] :=
        List.filter_eq_nil_iff.2 fun a hmem => by simp [hnone a hmem]
      rw [hshown, hfilter]
      rfl
    -- One with a common name consists of that alone
    · simp only [not_forall, Bool.not_eq_false] at hnone
      obtain ⟨a, hmem, ha⟩ := hnone
      obtain rfl := hhere a hmem ha
      simp [RelativeName.shown?, renderBehind, ha]

/-- **Of common names that stand alone the text shows the last one, as it is written.** -/
theorem shownCommonName_of_alone {name : Name} (h : name.CommonNamesAlone) :
    name.shownCommonName = escape name.lastCommonName := by
  have hlast : (name.commonNames.map escape).getLastD (escape []) = escape name.lastCommonName :=
    List.getLastD_map
  rw [Name.shownCommonName, filterMap_shown?_of_alone h]
  exact hlast

theorem shownCommonName_of_no_commonNames {name : Name} (h : name.commonNames = []) :
    name.shownCommonName = [] := by
  have halone : name.CommonNamesAlone := by
    intro relative hrelative a ha hcommon
    have hmem : a.value ∈ name.commonNames :=
      List.mem_map_of_mem (List.mem_filter.2 ⟨List.mem_flatten_of_mem hrelative ha, hcommon⟩)
    rw [h] at hmem
    cases hmem
  rw [shownCommonName_of_alone halone, Name.lastCommonName, h]
  rfl

/-! ## Values that are shown as they are -/

/-- A value without a character that would be escaped where it stands. -/
@[mk_iff]
structure IsPlain (value : List Char) : Prop where
  inside : ∀ c ∈ value, isSpecial .inside c = false ∧ isControl c = false
  first : 1 < value.length → value.head? ≠ some '#' ∧ value.head? ≠ some ' '
  last : value.getLast? ≠ some ' '

instance (value : List Char) : Decidable (IsPlain value) :=
  decidable_of_iff
    ((value.all fun c => !isSpecial .inside c && !isControl c) = true
      ∧ (1 < value.length → value.head? ≠ some '#' ∧ value.head? ≠ some ' ')
      ∧ value.getLast? ≠ some ' ')
    (by simp [isPlain_iff])

theorem isSpecial_first (c : Char) :
    isSpecial .first c = false ↔ isSpecial .inside c = false ∧ c ≠ '#' ∧ c ≠ ' ' := by
  simp [isSpecial]

theorem isSpecial_last (c : Char) :
    isSpecial .last c = false ↔ isSpecial .inside c = false ∧ c ≠ ' ' := by
  simp [isSpecial]

theorem length_escapeChar_pos (place : Place) (c : Char) : 0 < (escapeChar place c).length := by
  unfold escapeChar
  split
  · simp
  · split <;> simp

theorem escapeChar_eq_self_iff (place : Place) (c : Char) :
    escapeChar place c = [c] ↔ isSpecial place c = false ∧ isControl c = false := by
  unfold escapeChar
  by_cases hspecial : isSpecial place c
  · simp [hspecial]
  · by_cases hcontrol : isControl c <;> simp [hspecial, hcontrol]

theorem le_length_escapeFrom (place : Place) (value : List Char) :
    value.length ≤ (escapeFrom place value).length := by
  induction value generalizing place with
  | nil => exact Nat.zero_le _
  | cons c cs ih =>
    cases cs with
    | nil => exact length_escapeChar_pos .last c
    | cons d ds =>
      have hc := length_escapeChar_pos place c
      have hcs := ih .inside
      rw [escapeFrom_cons_cons, List.length_append, List.length_cons]
      omega

/-- No escape makes up for another: each is longer than what it stands for. -/
theorem escapeFrom_eq_self_cons (place : Place) (c d : Char) (ds : List Char) :
    escapeFrom place (c :: d :: ds) = c :: d :: ds
      ↔ escapeChar place c = [c] ∧ escapeFrom .inside (d :: ds) = d :: ds := by
  rw [escapeFrom_cons_cons]
  constructor
  · intro h
    have hc := length_escapeChar_pos place c
    have hcs := le_length_escapeFrom .inside (d :: ds)
    have hlength := congrArg List.length h
    rw [List.length_append] at hlength
    have hone : (escapeChar place c).length = [c].length := by
      simp only [List.length_cons, List.length_nil] at hlength hcs ⊢
      omega
    exact List.append_inj (h.trans List.singleton_append.symm) hone
  · rintro ⟨hc, hcs⟩
    rw [hc, hcs, List.singleton_append]

theorem escapeFrom_inside_eq_self_iff (value : List Char) :
    escapeFrom .inside value = value
      ↔ (∀ c ∈ value, isSpecial .inside c = false ∧ isControl c = false)
        ∧ value.getLast? ≠ some ' ' := by
  induction value with
  | nil => simp [escapeFrom]
  | cons c cs ih =>
    cases cs with
    | nil =>
      rw [escapeFrom, escapeChar_eq_self_iff, isSpecial_last]
      simp only [List.mem_singleton, forall_eq, List.getLast?_singleton, ne_eq, Option.some.injEq]
      exact and_right_comm
    | cons d ds =>
      rw [escapeFrom_eq_self_cons, escapeChar_eq_self_iff, ih, List.getLast?_cons_cons,
        List.forall_mem_cons (a := c)]
      simp only [and_assoc]

/-- **A value is shown as it is exactly if it is plain.** -/
theorem escape_eq_self_iff (value : List Char) : escape value = value ↔ IsPlain value := by
  rw [isPlain_iff, escape]
  match value with
  | [] => simp [escapeFrom]
  | [c] =>
    have hfirst : (1 < [c].length → [c].head? ≠ some '#' ∧ [c].head? ≠ some ' ') ↔ True := by simp
    rw [escapeFrom, escapeChar_eq_self_iff, isSpecial_last, hfirst, true_and]
    simp only [List.mem_singleton, forall_eq, List.getLast?_singleton, ne_eq, Option.some.injEq]
    exact and_right_comm
  | c :: d :: ds =>
    have hfirst : (1 < (c :: d :: ds).length →
        (c :: d :: ds).head? ≠ some '#' ∧ (c :: d :: ds).head? ≠ some ' ')
        ↔ c ≠ '#' ∧ c ≠ ' ' := by simp
    rw [escapeFrom_eq_self_cons, escapeChar_eq_self_iff, isSpecial_first,
      escapeFrom_inside_eq_self_iff, hfirst, List.forall_mem_cons (a := c),
      List.getLast?_cons_cons]
    tauto

end ServedChain.X509
