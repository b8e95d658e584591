/-
  How a probe ends, and what its inspector was shown by then.

  * `Probe.delivered` are the certificates that the tap reports on some events;
  * `Probe.Following` says what a probe has made of them, and `Probe.following_run` that
    every probe does so;
  * `Probe.settles_once`: a probe ends at the first event that can end it, with the
    verdict on what was delivered before.
-/
import Mathlib.Data.List.Induction
import ServedChain.Probe
import ServedChain.Proofs.Tls.Ending

namespace ServedChain

open Tls (Tap)

/-! ## Deliveries -/

/-- The certificates in a report. -/
def Tls.Report.certificates? : Tls.Report → Option (List Bytes)
  | certificates list => some list
  | failure _ => none

namespace ProbeEvent

/-- What a tap takes in from an event. -/
def input? : ProbeEvent → Option Tap.Input
  | chunk bytes => some (.chunk bytes)
  | keyLogLine line => (Tls.KeyLog.secret? Tls.KeyLog.serverHandshakeLabel line).map .secret
  | secured | connectionError | tlsError | closed | timeout => none

/-- An event that ends a probe is nothing to the tap. -/
theorem input?_of_isFinal {event : ProbeEvent} (h : event.isFinal = true) :
    event.input? = none := by
  cases event with
  | chunk | keyLogLine => cases h
  | secured | connectionError | tlsError | closed | timeout => rfl

end ProbeEvent

/-- The verdict of an inspector on what it was shown, if anything: there is no issue if it was shown
    nothing or fails. -/
def Inspector.verdictOn (inspector : Inspector) (host : String) (shown : List (List Bytes)) :
    Verdict :=
  match shown.getLast? with
  | none => .noIssue
  | some records =>
    match (inspector records host).1 with
    | .ok verdict => verdict
    | .error _ => .noIssue

theorem Inspector.verdictOn_concat (inspector : Inspector) (host : String)
    (shown : List (List Bytes)) (records : List Bytes) :
    inspector.verdictOn host (shown ++ [records]) = (inspector.counted records host).1 := by
  rw [verdictOn, List.getLast?_concat]
  rcases hverdict : inspector records host with ⟨error | verdict, notices⟩
  · simp [counted, hverdict]
  · simp [counted, hverdict]

namespace Probe

/-- The tap of a probe after some events. -/
def tapAfter (events : List ProbeEvent) : Tap :=
  Tap.initial.run (events.filterMap ProbeEvent.input?)

/-- The certificates that the tap reports on some events, one list for each report. -/
def delivered (events : List ProbeEvent) : List (List Bytes) :=
  (tapAfter events).reports.filterMap Tls.Report.certificates?

/-- The tap delivers once at most. -/
theorem length_delivered_le (events : List ProbeEvent) : (delivered events).length ≤ 1 := by
  have htidy := (Tap.changes_run Tap.tidy_initial (events.filterMap ProbeEvent.input?)).tidy
    Tap.tidy_initial
  exact Nat.le_trans (List.length_filterMap_le _ _) htidy.once

section
variable {events : List ProbeEvent} {event : ProbeEvent}

theorem tapAfter_concat_of_some {input : Tap.Input} (h : event.input? = some input) :
    tapAfter (events ++ [event]) = (tapAfter events).take input := by
  simp [tapAfter, h, Tap.run]

theorem tapAfter_concat_of_none (h : event.input? = none) :
    tapAfter (events ++ [event]) = tapAfter events := by
  simp [tapAfter, h]

/-- What was delivered is not taken back: more events add what the tap reports on them. -/
theorem delivered_concat (events : List ProbeEvent) (event : ProbeEvent) :
    delivered (events ++ [event]) = delivered events
      ++ ((tapAfter (events ++ [event])).reports.drop (tapAfter events).reports.length).filterMap
        Tls.Report.certificates? := by
  have hprefix : (tapAfter events).reports <+: (tapAfter (events ++ [event])).reports := by
    cases hinput : event.input? with
    | none => exact ⟨[], by rw [tapAfter_concat_of_none hinput, List.append_nil]⟩
    | some input =>
      have htidy := (Tap.changes_run Tap.tidy_initial (events.filterMap ProbeEvent.input?)).tidy
        Tap.tidy_initial
      rw [tapAfter_concat_of_some hinput]
      exact (Tap.changes_take _ input htidy).reports_isPrefix
  have hreports := (List.prefix_iff_eq_append.1 hprefix).symm
  rw [delivered, delivered, ← List.filterMap_append, ← hreports]

end

/-! ## What a probe makes of them -/

section
variable (inspector : Inspector) (host : String)

/-- A probe after some events: its tap has taken them in, and its inspector was shown what was
    delivered. -/
structure Following (events : List ProbeEvent) (probe : Probe) : Prop where
  tap : probe.tap = tapAfter events
  inspected : probe.inspected = delivered events
  verdict : probe.verdict = inspector.verdictOn host (delivered events)

/-- Reports taken in are shown to the inspector one after another; they do not end a probe. -/
theorem foldl_hear (reports : List Tls.Report) (probe : Probe)
    (hverdict : probe.verdict = inspector.verdictOn host probe.inspected) :
    let next := reports.foldl (hear inspector host) probe
    next.tap = probe.tap ∧ next.result = probe.result
      ∧ next.inspected = probe.inspected ++ reports.filterMap Tls.Report.certificates?
      ∧ next.verdict = inspector.verdictOn host next.inspected := by
  induction reports generalizing probe with
  | nil => exact ⟨rfl, rfl, (List.append_nil _).symm, hverdict⟩
  | cons report reports ih =>
    cases report with
    | failure error => exact ih probe hverdict
    | certificates records =>
      obtain ⟨htap, hresult, hinspected, hlast⟩ := ih (hear inspector host probe
        (.certificates records)) (inspector.verdictOn_concat host _ _).symm
      refine ⟨htap, hresult, ?_, hlast⟩
      rw [List.foldl_cons, hinspected]
      exact List.append_assoc ..

variable {inspector host} {events : List ProbeEvent} {event : ProbeEvent} {probe : Probe}

/-- A tap that has taken in an event is set. -/
theorem Following.setTap (h : Following inspector host events probe) :
    let next := probe.setTap inspector host (tapAfter (events ++ [event]))
    Following inspector host (events ++ [event]) next ∧ next.result = probe.result := by
  intro next
  have hverdict : probe.verdict = inspector.verdictOn host probe.inspected := by
    rw [h.inspected, h.verdict]
  obtain ⟨htap, hresult, hinspected, hlast⟩ := foldl_hear inspector host
    ((tapAfter (events ++ [event])).reports.drop probe.tap.reports.length)
    { probe with tap := tapAfter (events ++ [event]) } hverdict
  have hshown : next.inspected = delivered (events ++ [event]) := by
    rw [delivered_concat, ← h.inspected, ← h.tap]
    exact hinspected
  exact ⟨⟨htap, hshown, hshown ▸ hlast⟩, hresult⟩

/-- Nothing but the end changes for the probe. -/
theorem Following.finish (h : Following inspector host events probe)
    (hevent : event.isFinal = true) :
    Following inspector host (events ++ [event]) probe.finish
      ∧ probe.finish.result = probe.result.or (some probe.verdict) := by
  have htap : tapAfter (events ++ [event]) = tapAfter events :=
    tapAfter_concat_of_none (ProbeEvent.input?_of_isFinal hevent)
  have hdelivered : delivered (events ++ [event]) = delivered events := by
    rw [delivered, delivered, htap]
  unfold Probe.finish
  split
  · next result hresult =>
    rw [hresult]
    exact ⟨⟨h.tap.trans htap.symm, h.inspected.trans hdelivered.symm, hdelivered ▸ h.verdict⟩, rfl⟩
  · next hresult =>
    rw [hresult]
    exact ⟨⟨h.tap.trans htap.symm, h.inspected.trans hdelivered.symm, hdelivered ▸ h.verdict⟩, rfl⟩

/-- One more event: it is taken in, and ends the probe if it can and the probe goes on. -/
theorem Following.handle (h : Following inspector host events probe) (event : ProbeEvent) :
    let next := probe.handle inspector host event
    Following inspector host (events ++ [event]) next
      ∧ next.result = if event.isFinal then
          probe.result.or (some (inspector.verdictOn host (delivered events)))
        else probe.result := by
  cases event with
  | chunk bytes =>
    have hinput : (ProbeEvent.chunk bytes).input? = some (.chunk bytes) := rfl
    have htap : probe.tap.push bytes = tapAfter (events ++ [.chunk bytes]) := by
      rw [h.tap]
      exact (tapAfter_concat_of_some hinput).symm
    simp only [Probe.handle, htap]
    exact h.setTap
  | keyLogLine line =>
    cases hsecret : Tls.KeyLog.secret? Tls.KeyLog.serverHandshakeLabel line with
    | none =>
      have htap : tapAfter (events ++ [.keyLogLine line]) = tapAfter events :=
        tapAfter_concat_of_none (by rw [ProbeEvent.input?, hsecret, Option.map_none])
      have hdelivered : delivered (events ++ [.keyLogLine line]) = delivered events := by
        rw [delivered, delivered, htap]
      simp only [Probe.handle, hsecret]
      exact ⟨⟨h.tap.trans htap.symm, h.inspected.trans hdelivered.symm, hdelivered ▸ h.verdict⟩,
        rfl⟩
    | some secret =>
      have hinput : (ProbeEvent.keyLogLine line).input? = some (.secret secret) := by
        rw [ProbeEvent.input?, hsecret, Option.map_some]
      have htap : probe.tap.supplySecret secret = tapAfter (events ++ [.keyLogLine line]) := by
        rw [h.tap]
        exact (tapAfter_concat_of_some hinput).symm
      simp only [Probe.handle, hsecret, htap]
      exact h.setTap
  | secured | connectionError | tlsError | closed | timeout =>
    rw [← h.verdict]
    exact h.finish rfl

end

/-! ## The end -/

section
variable (inspector : Inspector) (host : String) (events : List ProbeEvent)

theorem following_run : Following inspector host events (run inspector host events) := by
  induction events using List.reverseRecOn with
  | nil => exact ⟨rfl, rfl, rfl⟩
  | append_singleton events event ih =>
    rw [run, List.foldl_append]
    exact (ih.handle event).1

theorem result_run_concat (event : ProbeEvent) : (run inspector host (events ++ [event])).result
    = if event.isFinal then
        (run inspector host events).result.or (some (inspector.verdictOn host (delivered events)))
      else (run inspector host events).result := by
  rw [run, List.foldl_append]
  exact ((following_run inspector host events).handle event).2

/-- The place of the first event that can end a probe, or behind all events. -/
def firstFinal (events : List ProbeEvent) : Nat := events.findIdx ProbeEvent.isFinal

/-- **A probe has ended once an event could end it**, with the verdict on what was delivered before
    the first such event. -/
theorem result_run : (run inspector host events).result
    = if firstFinal events < events.length then
        some (inspector.verdictOn host (delivered (events.take (firstFinal events))))
      else none := by
  induction events using List.reverseRecOn with
  | nil => rfl
  | append_singleton events event ih =>
    rw [result_run_concat, ih, firstFinal, firstFinal, List.findIdx_append, List.length_append]
    by_cases hended : events.findIdx ProbeEvent.isFinal < events.length
    -- The end was before, and stays as it is
    · rw [if_pos hended, if_pos hended, if_pos (Nat.lt_add_right _ hended),
        List.take_append_of_le_length (Nat.le_of_lt hended), Option.some_or, ite_self]
    -- The last event is the first that can end the probe, or it cannot
    · cases hfinal : event.isFinal with
      | true => simp [hended, hfinal]
      | false => simp [hended, hfinal, Nat.add_comm]

/-- After so many of its events a probe has ended if the first final one is among them. -/
theorem result_run_take {count : Nat} (h : count ≤ events.length) :
    (run inspector host (events.take count)).result
      = if firstFinal events < count then
          some (inspector.verdictOn host (delivered (events.take (firstFinal events))))
        else none := by
  rw [result_run, firstFinal, List.findIdx_take, List.length_take, Nat.min_eq_left h, ← firstFinal]
  by_cases hended : firstFinal events < count
  · rw [if_pos hended, Nat.min_eq_right (Nat.le_of_lt hended), if_pos hended, List.take_take,
      Nat.min_eq_left (Nat.le_of_lt hended)]
  · rw [if_neg hended, if_neg (by omega)]

/-- **A probe ends once, with what was delivered in time.**  Whatever happens in whatever order, it
    has a result exactly if an event could end it, and of all events only the first such one
    changes the result.  The result is then the verdict of the inspector on the certificates that
    the tap delivered before that event, once at most; there is no issue if it delivered none or
    the inspector failed.  The inspector is shown what is delivered and nothing else, and hence is
    called once at most. -/
theorem settles_once :
    (run inspector host events).result
        = (if firstFinal events < events.length then
            some (inspector.verdictOn host (delivered (events.take (firstFinal events))))
          else none)
      ∧ (∀ place < events.length,
        (run inspector host (events.take (place + 1))).result
            ≠ (run inspector host (events.take place)).result ↔ place = firstFinal events)
      ∧ (delivered (events.take (firstFinal events))).length ≤ 1
      ∧ (run inspector host events).inspected = delivered events
      ∧ (run inspector host events).inspected.length ≤ 1 := by
  have hinspected := (following_run inspector host events).inspected
  refine ⟨result_run inspector host events, fun place hplace => ?_, length_delivered_le _,
    hinspected, hinspected ▸ length_delivered_le events⟩
  rw [result_run_take inspector host events hplace,
    result_run_take inspector host events (Nat.le_of_lt hplace)]
  by_cases hbefore : firstFinal events < place
  · simp only [if_pos hbefore, if_pos (Nat.lt_succ_of_lt hbefore)]
    exact iff_of_false (fun h => h rfl) (Nat.ne_of_gt hbefore)
  · by_cases hhere : firstFinal events < place + 1
    · simp only [if_neg hbefore, if_pos hhere]
      exact iff_of_true (Option.some_ne_none _) (by omega)
    · simp only [if_neg hbefore, if_neg hhere]
      exact iff_of_false (fun h => h rfl) (by omega)

end

/-- The certificates come before the connection is closed; then the handshake is complete, and the
    time is over. -/
theorem settles_once_closed :
    let inspector : Inspector := fun records _ => (.ok (toString records.length), [])
    let events : List ProbeEvent :=
      [.chunk [22, 3, 3, 0, 7, 11, 0], .keyLogLine "CLIENT_RANDOM 00 00", .chunk [0, 3, 0, 0, 0],
        .closed, .secured, .timeout]
    3 < events.length
      ∧ (run inspector "host" events).result = some "0"
      ∧ (run inspector "host" (events.take 4)).result
        ≠ (run inspector "host" (events.take 3)).result
      ∧ (run inspector "host" events).inspected = [[]] := by
  intro inspector events
  have hfirst : firstFinal events = 3 := by decide
  have hbefore : delivered (events.take 3) = [[]] := by decide +kernel
  have hall : delivered events = [[]] := by decide +kernel
  obtain ⟨hresult, hchange, -, hinspected, -⟩ := settles_once inspector "host" events
  rw [hfirst, hbefore] at hresult
  exact ⟨by decide, hresult, (hchange 3 (by decide)).2 hfirst.symm, hinspected.trans hall⟩

end Probe

end ServedChain
