/-
  Byte strings as items of a code and a rest.

  * `IsSelfDelimiting` codes: a byte string begins with an item in one way at most;
  * `Divides`: a byte string consists of items, and of a rest that begins with none;
  * `Divides.unique` and `exists_divides`: there is one such division of every byte
    string;
  * `lengthFirst_unique`: what is written behind its length ends where the length says,
    and `lengthFirst?_eq_some_iff`: reading finds exactly what is written so.
-/
import ServedChain.Bytes

namespace ServedChain.Bytes

section
variable {Item : Type} (encode : Item → Bytes) (Fits : Item → Prop)

/-- A byte string begins in one way at most with an item that fits, and no item is empty. -/
structure IsSelfDelimiting : Prop where
  unique : ∀ {item item' : Item} {more more' : Bytes}, Fits item → Fits item' →
    encode item ++ more = encode item' ++ more' → item = item' ∧ more = more'
  ne_nil : ∀ item, encode item ≠ []

/-- A byte string consists of items that fit, and of a rest that begins with none. -/
structure Divides (bs : Bytes) (items : List Item) (rest : Bytes) : Prop where
  eq : bs = items.flatMap encode ++ rest
  fits : ∀ item ∈ items, Fits item
  ends : ∀ item more, Fits item → rest ≠ encode item ++ more

end

section
variable {Item : Type} {encode : Item → Bytes} {Fits : Item → Prop}

theorem Divides.cons {item : Item} {bs rest : Bytes} {items : List Item} (hitem : Fits item)
    (h : Divides encode Fits bs items rest) :
    Divides encode Fits (encode item ++ bs) (item :: items) rest where
  eq := by rw [h.eq, List.flatMap_cons, List.append_assoc]
  fits := by
    intro item' hmem
    rcases List.mem_cons.1 hmem with rfl | hmem
    · exact hitem
    · exact h.fits item' hmem
  ends := h.ends

/-- What is behind the first item has the division without it. -/
theorem Divides.tail {item : Item} {bs rest : Bytes} {items : List Item}
    (h : Divides encode Fits bs (item :: items) rest) :
    bs = encode item ++ (items.flatMap encode ++ rest)
      ∧ Divides encode Fits (items.flatMap encode ++ rest) items rest := by
  refine ⟨?_, rfl, fun i hi => h.fits i (List.mem_cons_of_mem _ hi), h.ends⟩
  rw [h.eq, List.flatMap_cons, List.append_assoc]

theorem divides_nil {bs : Bytes} (h : ∀ item more, Fits item → bs ≠ encode item ++ more) :
    Divides encode Fits bs [] bs :=
  ⟨rfl, fun _ hmem => absurd hmem List.not_mem_nil, h⟩

variable (hcode : IsSelfDelimiting encode Fits)
include hcode

/-- The items and the rest are determined. -/
theorem Divides.unique {bs rest rest' : Bytes} {items items' : List Item}
    (h : Divides encode Fits bs items rest) (h' : Divides encode Fits bs items' rest') :
    items = items' ∧ rest = rest' := by
  induction items generalizing bs items' with
  | nil =>
    cases items' with
    | nil => exact ⟨rfl, h.eq.symm.trans h'.eq⟩
    | cons item' items' =>
      have hbs : rest = bs := h.eq.symm
      exact absurd (hbs.trans h'.tail.1) (h.ends item' _ (h'.fits item' List.mem_cons_self))
  | cons item items ih =>
    have hitem := h.fits item List.mem_cons_self
    cases items' with
    | nil =>
      have hbs : rest' = bs := h'.eq.symm
      exact absurd (hbs.trans h.tail.1) (h'.ends item _ hitem)
    | cons item' items' =>
      have hfirst := h.tail.1.symm.trans h'.tail.1
      obtain ⟨rfl, hmore⟩ := hcode.unique hitem (h'.fits item' List.mem_cons_self) hfirst
      obtain ⟨rfl, rfl⟩ := ih h.tail.2 (hmore ▸ h'.tail.2)
      exact ⟨rfl, rfl⟩

/-- Items that fit divide with nothing behind them. -/
theorem divides_flatMap {items : List Item} (h : ∀ item ∈ items, Fits item) :
    Divides encode Fits (items.flatMap encode) items [] where
  eq := (List.append_nil _).symm
  fits := h
  ends item _ _ heq := hcode.ne_nil item (List.append_eq_nil_iff.1 heq.symm).1

/-- Every byte string has a division. -/
theorem exists_divides (bs : Bytes) : ∃ items rest, Divides encode Fits bs items rest := by
  by_cases hfirst : ∃ item more, Fits item ∧ bs = encode item ++ more
  · obtain ⟨item, more, hitem, hbs⟩ := hfirst
    have hshorter : more.length < bs.length := by
      have hpos := List.length_pos_iff.2 (hcode.ne_nil item)
      rw [hbs, List.length_append]
      omega
    obtain ⟨items, rest, h⟩ := exists_divides more
    exact ⟨item :: items, rest, hbs ▸ h.cons hitem⟩
  · exact ⟨[], bs, divides_nil fun item more hitem heq => hfirst ⟨item, more, hitem, heq⟩⟩
termination_by bs.length

end

/-! ## Lengths in front -/

/-- A byte string behind its length. -/
def lengthFirst (width : Nat) (bs : Bytes) : Bytes := ofNat width bs.length ++ bs

/-- What is written behind its length ends where the length says. -/
theorem lengthFirst_unique {width : Nat} {a b more more' : Bytes}
    (ha : a.length < 1 <<< (8 * width)) (hb : b.length < 1 <<< (8 * width))
    (h : lengthFirst width a ++ more = lengthFirst width b ++ more') : a = b ∧ more = more' := by
  rw [lengthFirst, lengthFirst, List.append_assoc, List.append_assoc] at h
  have hread := congrArg (uint? width) h
  rw [uint?_ofNat_append ha, uint?_ofNat_append hb] at hread
  obtain ⟨hlength, hrest⟩ := Prod.mk.inj (Option.some.inj hread)
  exact List.append_inj hrest hlength

/-- The byte string behind its length, and the rest. -/
def lengthFirst? (width : Nat) (bs : Bytes) : Option (Bytes × Bytes) := do
  let (length, rest) ← uint? width bs
  cut? length rest

theorem lengthFirst?_eq_some_iff {width : Nat} {bs front rest : Bytes} :
    lengthFirst? width bs = some (front, rest)
      ↔ front.length < 1 <<< (8 * width) ∧ bs = lengthFirst width front ++ rest := by
  constructor
  · intro h
    obtain ⟨⟨length, behind⟩, hlength, hcut⟩ := Option.bind_eq_some_iff.1 h
    obtain ⟨hlt, rfl⟩ := uint?_eq_some_iff.1 hlength
    obtain ⟨rfl, rfl⟩ := cut?_eq_some_iff.1 hcut
    exact ⟨hlt, (List.append_assoc ..).symm⟩
  · rintro ⟨hlt, rfl⟩
    refine Option.bind_eq_some_iff.2 ⟨(front.length, front ++ rest), ?_, cut?_append rfl rest⟩
    rw [lengthFirst, List.append_assoc, uint?_ofNat_append hlt]

end ServedChain.Bytes
