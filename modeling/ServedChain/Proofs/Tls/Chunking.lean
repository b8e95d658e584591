/-
  How the bytes of a server are cut into chunks does not matter to a tap.

  * `push_append`: two chunks are taken in like the two in one;
  * `settled_run`: between inputs a tap holds no complete record;
  * `run_eq_foldl_takeAtom`: inputs are taken in like their bytes one by one, with
    the secrets where they stand among them;
  * `chunking_irrelevant`: hence only these matter.
-/
import ServedChain.Proofs.Tls.Steps

namespace ServedChain.Tls.Tap

/-! ## Two chunks -/

/-- Records and what follows them taken in. -/
def takeAll (tap : Tap) (cut : List Record × Record.Tail) : Tap :=
  let last := cut.1.foldl takeRecord tap
  match cut.2 with
  | .malformed => if last.done then last else last.finish
  | .incomplete rest => last.withRecords rest

theorem takeAll_append (tap : Tap) (records records' : List Record) (tail : Record.Tail) :
    tap.takeAll (records ++ records', tail)
      = (records.foldl takeRecord tap).takeAll (records', tail) := by
  simp only [takeAll, List.foldl_append]

theorem takeAll_of_done {tap : Tap} (h : tap.done = true) (cut : List Record × Record.Tail) :
    tap.takeAll cut = tap := by
  rcases cut with ⟨records, _ | _⟩
  · simp only [takeAll, foldl_takeRecord_of_done h, withRecords_of_done h]
  · simp only [takeAll, foldl_takeRecord_of_done h, h, if_true]

theorem takeAll_withRecords (tap : Tap) (bs : Bytes) (cut : List Record × Record.Tail) :
    (tap.withRecords bs).takeAll cut = tap.takeAll cut := by
  rcases cut with ⟨records, _ | _⟩
  · simp only [takeAll, foldl_takeRecord_withRecords, withRecords_withRecords]
  · simp only [takeAll, foldl_takeRecord_withRecords]
    grind [withRecords, finish]

/-- A chunk is taken in record by record, and what is left of it is held. -/
theorem push_eq_takeAll (tap : Tap) (chunk : Bytes) :
    tap.push chunk = tap.takeAll (Record.cutAll (tap.records ++ chunk)) := by
  rcases h : tap.done with _ | _
  · rw [← takeAll_withRecords tap [], withRecords_of_not_done h, push, if_neg (by simp [h])]
    unfold takeAll
    rcases Record.cutAll (tap.records ++ chunk) with ⟨records, _ | _⟩ <;> grind [withRecords]
  · rw [push_of_done h, takeAll_of_done h]

theorem push_withRecords (tap : Tap) (bs chunk : Bytes) :
    (tap.withRecords bs).push chunk = tap.takeAll (Record.cutAll (bs ++ chunk)) := by
  rcases h : tap.done with _ | _
  · have hrecords : (tap.withRecords bs).records = bs := by rw [withRecords_of_not_done h]
    rw [push_eq_takeAll, hrecords, takeAll_withRecords]
  · rw [withRecords_of_done h, push_of_done h, takeAll_of_done h]

section
variable (tap : Tap) (cut : List Record × Record.Tail)

theorem reports_takeAll : (tap.takeAll cut).reports = (cut.1.foldl takeRecord tap).reports := by
  grind [takeAll, withRecords, finish]

theorem version_takeAll : (tap.takeAll cut).version = (cut.1.foldl takeRecord tap).version := by
  grind [takeAll, withRecords, finish]

theorem suite_takeAll : (tap.takeAll cut).suite = (cut.1.foldl takeRecord tap).suite := by
  grind [takeAll, withRecords, finish]

theorem done_takeAll :
    (tap.takeAll cut).done = ((cut.1.foldl takeRecord tap).done || cut.2 = .malformed) := by
  grind [takeAll, withRecords, finish]

end

/-- **Two chunks are taken in like the two in one.** -/
theorem push_append (tap : Tap) (a b : Bytes) : (tap.push a).push b = tap.push (a ++ b) := by
  have hcut := Record.cutAll_append (tap.records ++ a) b
  rw [push_eq_takeAll tap a, push_eq_takeAll tap (a ++ b), ← List.append_assoc, hcut]
  rcases Record.cutAll (tap.records ++ a) with ⟨records, rest | _⟩
  · -- What is left of the first chunk is the beginning of a record, or the tap is done
    simp only [takeAll_append]
    exact push_withRecords _ rest b
  · rw [push_of_done (by simp [done_takeAll])]

/-! ## Between inputs -/

/-- The tap is done or holds no complete record. -/
def Settled (tap : Tap) : Prop := tap.done = true ∨ Record.cut tap.records = .incomplete

theorem cut_of_cutAll {bs rest : Bytes} {records : List Record}
    (h : Record.cutAll bs = (records, .incomplete rest)) : Record.cut rest = .incomplete := by
  match hcut : Record.cut bs with
  | .incomplete =>
    rw [Record.cutAll_of_incomplete hcut] at h
    cases h
    exact hcut
  | .malformed =>
    rw [Record.cutAll_of_malformed hcut] at h
    cases h
  | .whole record more =>
    have := Record.length_lt_of_cut hcut
    rw [Record.cutAll_of_whole hcut] at h
    obtain ⟨-, htail⟩ := Prod.mk.inj h
    exact @cut_of_cutAll more _ _ (Prod.ext rfl htail)
termination_by bs.length

theorem settled_initial : initial.Settled := Or.inr rfl

theorem settled_push (tap : Tap) (chunk : Bytes) : (tap.push chunk).Settled := by
  rw [push_eq_takeAll]
  rcases hcut : Record.cutAll (tap.records ++ chunk) with ⟨records, rest | _⟩
  · simp only [takeAll]
    generalize records.foldl takeRecord tap = last
    rcases hl : last.done with _ | _
    · rw [withRecords_of_not_done hl]
      exact Or.inr (cut_of_cutAll hcut)
    · exact Or.inl (by simpa using hl)
  · exact Or.inl (by simp [done_takeAll])

theorem settled_supplySecret {tap : Tap} (h : tap.Settled) (secret : Bytes) :
    (tap.supplySecret secret).Settled := by
  rcases hd : (tap.supplySecret secret).done with _ | _
  · rcases h with h | h
    · rw [supplySecret_of_done h] at hd
      rw [h] at hd
      cases hd
    · have htap : tap.withRecords tap.records = tap := by unfold withRecords; split <;> rfl
      have hsupply := supplySecret_withRecords tap tap.records secret
      rw [htap, withRecords_of_not_done hd] at hsupply
      rw [hsupply]
      exact Or.inr h
  · exact Or.inl hd

theorem settled_take {tap : Tap} (h : tap.Settled) (input : Input) : (tap.take input).Settled := by
  cases input with
  | chunk bytes => exact settled_push tap bytes
  | secret secret => exact settled_supplySecret h secret

/-- **A tap that is reached holds no complete record.** -/
theorem settled_run {tap : Tap} (h : tap.Settled) (inputs : List Input) :
    (tap.run inputs).Settled := by
  induction inputs generalizing tap with
  | nil => exact h
  | cons input inputs ih => exact ih (settled_take h input)

theorem push_nil {tap : Tap} (h : tap.Settled) : tap.push [] = tap := by
  rcases h with h | h
  · exact push_of_done h []
  · rw [push_eq_takeAll, List.append_nil, Record.cutAll_of_incomplete h]
    simp only [takeAll, List.foldl_nil]
    unfold withRecords
    split <;> rfl

/-! ## Around a secret -/

theorem run_map_chunk {tap : Tap} (h : tap.Settled) (chunks : List Bytes) :
    tap.run (chunks.map .chunk) = tap.push chunks.flatten := by
  induction chunks generalizing tap with
  | nil => exact (push_nil h).symm
  | cons chunk chunks ih =>
    rw [List.flatten_cons, ← push_append, ← ih (settled_push tap chunk)]
    rfl

/-- Bytes around a secret are taken in like the records that they consist of. -/
theorem push_supplySecret_push {tap : Tap} {a b rest : Bytes} {records : List Record}
    (h : Record.cutAll (tap.records ++ (a ++ b)) = (records, .incomplete rest)) (secret : Bytes) :
    ∃ front back, records = front ++ back
      ∧ ((tap.push a).supplySecret secret).push b
        = (back.foldl takeRecord ((front.foldl takeRecord tap).supplySecret secret)).withRecords
          rest := by
  rw [← List.append_assoc, Record.cutAll_append] at h
  rcases hcut : Record.cutAll (tap.records ++ a) with ⟨front, middle | _⟩
  · simp only [hcut] at h
    obtain ⟨rfl, hrest⟩ := Prod.mk.inj h
    have hfront : tap.push a = (front.foldl takeRecord tap).withRecords middle := by
      rw [push_eq_takeAll, hcut, takeAll]
    refine ⟨front, _, rfl, ?_⟩
    rw [hfront, supplySecret_withRecords, push_withRecords, takeAll, hrest]
  · simp only [hcut] at h
    cases h

/-! ## Any chunks -/

/-- The single bytes and the secrets of an input, in order. -/
def Input.atoms : Input → List (UInt8 ⊕ Bytes)
  | chunk bytes => bytes.map .inl
  | secret s => [.inr s]

/-- A single byte or a secret taken in. -/
def takeAtom (tap : Tap) : UInt8 ⊕ Bytes → Tap
  | .inl byte => tap.push [byte]
  | .inr secret => tap.supplySecret secret

theorem push_eq_foldl_takeAtom {tap : Tap} (h : tap.Settled) (bytes : Bytes) :
    tap.push bytes = (bytes.map .inl).foldl takeAtom tap := by
  induction bytes generalizing tap with
  | nil => exact push_nil h
  | cons byte bytes ih =>
    calc tap.push (byte :: bytes) = (tap.push [byte]).push bytes :=
          (push_append tap [byte] bytes).symm
      _ = (bytes.map .inl).foldl takeAtom (tap.push [byte]) := ih (settled_push tap [byte])

theorem run_eq_foldl_takeAtom {tap : Tap} (h : tap.Settled) (inputs : List Input) :
    tap.run inputs = (inputs.flatMap Input.atoms).foldl takeAtom tap := by
  induction inputs generalizing tap with
  | nil => rfl
  | cons input inputs ih =>
    have hinput : tap.take input = input.atoms.foldl takeAtom tap := by
      cases input with
      | chunk bytes => exact push_eq_foldl_takeAtom h bytes
      | secret secret => rfl
    rw [List.flatMap_cons, List.foldl_append, ← hinput]
    exact ih (settled_take h input)

/-- **How the bytes are cut into chunks does not matter.**  From every tap that is reached, two
    chunks lead to the same reports and the same state as the two in one.  Hence two courses agree
    whenever they consist of the same bytes with the same secrets at the same places. -/
theorem chunking_irrelevant :
    (∀ (inputs : List Input) (a b : Bytes),
      ((initial.run inputs).push a).push b = (initial.run inputs).push (a ++ b))
    ∧ ∀ inputs inputs' : List Input, inputs.flatMap Input.atoms = inputs'.flatMap Input.atoms →
      initial.run inputs = initial.run inputs' := by
  refine ⟨fun inputs a b => push_append _ a b, fun inputs inputs' h => ?_⟩
  rw [run_eq_foldl_takeAtom settled_initial, run_eq_foldl_takeAtom settled_initial, h]

/-- A secret in the middle of a record, with the bytes around it cut in two ways. -/
theorem chunking_irrelevant_around_secret :
    let secret : Input := .secret [1, 2, 3]
    [.chunk [22, 3], .chunk [], .chunk [3], secret, .chunk [0, 1, 2]].flatMap Input.atoms
        = [.chunk [22, 3, 3], secret, .chunk [0], .chunk [1, 2]].flatMap Input.atoms
      ∧ initial.run [.chunk [22, 3], .chunk [], .chunk [3], secret, .chunk [0, 1, 2]]
        = initial.run [.chunk [22, 3, 3], secret, .chunk [0], .chunk [1, 2]] :=
  ⟨rfl, chunking_irrelevant.2 _ _ rfl⟩

end ServedChain.Tls.Tap
