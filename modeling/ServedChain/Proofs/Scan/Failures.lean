/-
  What a scan keeps of what its reporter throws.

  * `Reporter.thrown` lists what a reporter throws at its first findings, in order,
    and `Reporter.kept` is what is kept of it (`Thrown.foldl_keep`);
  * `Thrown.FirstStays` says when that is the first that was thrown, and is seen
    (`Thrown.firstStays_cons_iff`).
-/
import ServedChain.Scan.Reporter

namespace ServedChain

namespace Thrown

/-- It is neither of those that stand for no value. -/
def isValue : Thrown → Bool
  | undefined | null => false
  | value .. => true

theorem keep_of_isValue {kept : Thrown} (h : kept.isValue = true) (next : Thrown) :
    kept.keep next = kept := by
  cases kept with
  | value => rfl
  | undefined | null => cases h

theorem keep_of_not_isValue {kept : Thrown} (h : kept.isValue = false) (next : Thrown) :
    kept.keep next = next := by
  cases kept with
  | value => cases h
  | undefined | null => rfl

/-- **The first value is kept**, and without one the last that was thrown. -/
theorem foldl_keep (thrown : List Thrown) : thrown.foldl keep .undefined
    = (thrown.find? isValue).getD (thrown.getLastD .undefined) := by
  suffices h : ∀ kept : Thrown, thrown.foldl keep kept
      = if kept.isValue then kept else (thrown.find? isValue).getD (thrown.getLastD kept) from
    h .undefined
  induction thrown with
  | nil => intro kept; simp
  | cons next thrown ih =>
    intro kept
    rw [List.foldl_cons, ih]
    by_cases hkept : kept.isValue
    · rw [keep_of_isValue hkept, if_pos hkept, if_pos hkept]
    · rw [keep_of_not_isValue (by simpa using hkept), if_neg hkept, List.find?_cons,
        List.getLastD_cons]
      cases hnext : next.isValue <;> rfl

example : [undefined, null, value "Error" "late", null].foldl keep .undefined
    = value "Error" "late" := rfl

/-- When the first that was thrown is kept and seen: it is a value, or it is `null`, no value comes
    behind it, and the last is `null` too. -/
def FirstStays : List Thrown → Prop
  | [] => True
  | value .. :: _ => True
  | undefined :: _ => False
  | null :: rest => (∀ later ∈ rest, later.isValue = false) ∧ rest.getLastD null = null

theorem firstStays_cons_iff (first : Thrown) (rest : List Thrown) :
    FirstStays (first :: rest)
      ↔ first ≠ .undefined ∧ (first :: rest).foldl keep .undefined = first := by
  rw [foldl_keep, List.find?_cons, List.getLastD_cons]
  cases first with
  | value => simp [FirstStays, isValue]
  | undefined => simp [FirstStays]
  | null =>
    show _ ↔ null ≠ undefined ∧ (rest.find? isValue).getD (rest.getLastD null) = null
    rcases hfind : rest.find? isValue with _ | later
    · have hnone : ∀ later ∈ rest, later.isValue = false := by simpa using hfind
      exact ⟨fun hstays => ⟨nofun, hstays.2⟩, fun hkept => ⟨hnone, hkept.2⟩⟩
    · -- A value that comes later takes its place
      have hvalue : later.isValue = true := List.find?_some hfind
      have hmem : later ∈ rest := List.mem_of_find?_eq_some hfind
      constructor
      · rintro ⟨hnone, -⟩
        rw [hnone later hmem] at hvalue
        cases hvalue
      · rintro ⟨-, hkept⟩
        rw [show later = null from hkept] at hvalue
        cases hvalue

end Thrown

namespace Reporter
variable {reporter : Reporter} {count : Nat}

/-- What a reporter throws at its first findings, in order. -/
def thrown (reporter : Reporter) (count : Nat) : List Thrown :=
  (List.range count).filterMap reporter.findingError

theorem thrown_succ (reporter : Reporter) (count : Nat) : reporter.thrown (count + 1)
    = reporter.thrown count ++ (reporter.findingError count).toList := by
  rw [thrown, List.range_succ, List.filterMap_append, thrown]
  cases h : reporter.findingError count <;> simp [h]

/-- What is kept of what a reporter throws at its first findings. -/
def kept (reporter : Reporter) (count : Nat) : Thrown :=
  (reporter.thrown count).foldl Thrown.keep .undefined

theorem kept_succ (reporter : Reporter) (count : Nat) : reporter.kept (count + 1)
    = (reporter.findingError count).elim (reporter.kept count) (reporter.kept count).keep := by
  rw [kept, thrown_succ, List.foldl_append]
  cases reporter.findingError count <;> rfl

theorem thrown_eq_nil_iff :
    reporter.thrown count = [] ↔ ∀ number < count, reporter.findingError number = none := by
  simp [thrown]

/-- The first that is thrown is thrown at the smallest number. -/
theorem exists_of_thrown_eq_cons {first : Thrown} {rest : List Thrown}
    (h : reporter.thrown count = first :: rest) :
    ∃ number < count, reporter.findingError number = some first
      ∧ ∀ earlier < number, reporter.findingError earlier = none := by
  induction count generalizing rest with
  | zero => cases h
  | succ count ih =>
    rw [thrown_succ] at h
    rcases hthrown : reporter.thrown count with _ | ⟨first', rest'⟩
    · rw [hthrown, List.nil_append] at h
      obtain ⟨herror, -⟩ : reporter.findingError count = some first ∧ rest = [] := by
        cases herror : reporter.findingError count with
        | none => rw [herror] at h; cases h
        | some => rw [herror] at h; cases h; exact ⟨rfl, rfl⟩
      exact ⟨count, Nat.lt_succ_self count, herror, thrown_eq_nil_iff.1 hthrown⟩
    · rw [hthrown, List.cons_append] at h
      cases h
      obtain ⟨number, hnumber, herror, hearlier⟩ := ih hthrown
      exact ⟨number, Nat.lt_succ_of_lt hnumber, herror, hearlier⟩

/-- There is one number only at which the first is thrown. -/
theorem eq_of_first {number number' : Nat} {thrown thrown' : Thrown}
    (h : reporter.findingError number = some thrown)
    (hearlier : ∀ earlier < number, reporter.findingError earlier = none)
    (h' : reporter.findingError number' = some thrown')
    (hearlier' : ∀ earlier < number', reporter.findingError earlier = none) :
    thrown = thrown' := by
  rcases Nat.lt_trichotomy number number' with hlt | rfl | hlt
  · rw [hearlier' number hlt] at h; cases h
  · exact Option.some.inj (h.symm.trans h')
  · rw [hearlier number' hlt] at h'; cases h'

end Reporter

end ServedChain
