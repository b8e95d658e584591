/-
  The exit of a run.

  * `Options.workers_le_of_parse`: the numbers of workers that the command line accepts;
  * `prepare_eq`: those of them that a scan is prepared for;
  * `exits_unless_too_many_workers`: hence a run exits with 0 or 1, unless it was asked for
    more workers than a scan is prepared for, as in `exit_too_many_workers`.
-/
import ServedChain.CommandLine.Run
import ServedChain.Proofs.CommandLine.Numbers
import ServedChain.Proofs.Scan.Answered

namespace ServedChain.CommandLine

/-! ## Tasks -/

section
variable {arguments : List String} {settings : Settings} {options : Options}

theorem Options.workers_le_of_parse (h : Options.parse arguments settings = .ok options) :
    1 ≤ options.workers ∧ options.workers ≤ NumberOption.greatestExact :=
  Options.value_le_of_parse h .workers

theorem Task.options_of_parse {read : Reader} {hosts : List String}
    (h : Task.parse arguments settings read = .ok (.scan options hosts)) :
    Options.parse arguments settings = .ok options := by
  obtain ⟨parsed, hparsed, h⟩ := exists_of_bind_eq_ok h
  split at h
  · cases h
  · obtain ⟨_, -, h⟩ := exists_of_bind_eq_ok h
    cases h
    exact hparsed

end

/-! ## Exits -/

/-- Of the numbers of workers that the command line accepts a scan is prepared for those below its
    limit. -/
theorem prepare_eq {hosts : List String} {workers : Nat} (hpos : 1 ≤ workers)
    (hle : workers ≤ NumberOption.greatestExact) :
    Scan.prepare hosts (.ofNat workers)
      = if workers < Scan.workerLimit then .ok (Scan.initial hosts workers)
        else .error ⟨.error .tooManyWorkers, [], [.scanStarted hosts.length workers], []⟩ := by
  have hexact : workers < 1 <<< 53 := by
    rw [NumberOption.greatestExact] at hle
    omega
  obtain ⟨n, rfl⟩ := Nat.exists_eq_succ_of_ne_zero (Nat.ne_of_gt hpos)
  rw [Scan.prepare, Binary64.toInt?_ofNat_of_lt hexact]
  rfl

/-- A scan that is prepared for its workers exits with 0, and has probed all hosts by then. -/
theorem scan_of_lt {hosts : List String} {workers : Nat} (hpos : 1 ≤ workers)
    (hlimit : workers < Scan.workerLimit) (outcome : String → Outcome) :
    (scan hosts workers outcome).exit = .ok 0 ∧ (scan hosts workers outcome).probed = hosts := by
  have hle : workers ≤ NumberOption.greatestExact :=
    Nat.le_of_lt (Nat.lt_of_lt_of_le hlimit (by decide))
  have hcomplete := Scan.complete_answerAll hosts outcome hpos
  have hprepare : Scan.prepare hosts (.ofNat workers) = .ok (Scan.initial hosts workers) :=
    (prepare_eq hpos hle).trans (if_pos hlimit)
  rw [scan, hprepare]
  refine ⟨?_, hcomplete.probes⟩
  simp only [Scan.ending, hcomplete.result]
  rfl

theorem exit_scan_of_le {hosts : List String} {workers : Nat}
    (hle : workers ≤ NumberOption.greatestExact) (hlimit : Scan.workerLimit ≤ workers)
    (outcome : String → Outcome) :
    (scan hosts workers outcome).exit = .error .tooManyWorkers := by
  have hpos : 1 ≤ workers := Nat.le_trans (by decide) hlimit
  rw [scan, prepare_eq hpos hle, if_neg (Nat.not_lt.2 hlimit)]
  rfl

/-- **How a run exits**: with 1 if its input is rejected, and with 0 after the help text and after
    a scan, unless more workers were asked for than a scan is prepared for.  Such a number is
    accepted, and then there is no exit.  A scan that is prepared for its workers has probed all
    hosts by its exit; whatever its probes come to and whenever they end, it comes to a summary. -/
theorem exits_unless_too_many_workers (arguments : List String) (settings : Settings)
    (read : Reader) :
    (∀ outcome, (run arguments settings read outcome).exit
      = match Task.parse arguments settings read with
        | .error _ => .ok 1
        | .ok .help => .ok 0
        | .ok (.scan options _) =>
          if options.workers < Scan.workerLimit then .ok 0 else .error .tooManyWorkers)
    ∧ ∀ options hosts, Task.parse arguments settings read = .ok (.scan options hosts) →
      options.workers < Scan.workerLimit →
      Scan.prepare hosts (.ofNat options.workers) = .ok (Scan.initial hosts options.workers)
      ∧ (Scan.initial hosts options.workers).EndsWell
      ∧ ∀ outcome, (run arguments settings read outcome).probed = hosts := by
  refine ⟨fun outcome => ?_, fun options hosts hparse hlimit => ?_⟩
  · unfold run
    match hparse : Task.parse arguments settings read with
    | .error error => rfl
    | .ok .help => rfl
    | .ok (.scan options hosts) =>
      obtain ⟨hpos, hle⟩ := Options.workers_le_of_parse (Task.options_of_parse hparse)
      by_cases hlimit : options.workers < Scan.workerLimit
      · exact (scan_of_lt hpos hlimit outcome).1.trans (if_pos hlimit).symm
      · exact (exit_scan_of_le hle (Nat.not_lt.1 hlimit) outcome).trans (if_neg hlimit).symm
  · obtain ⟨hpos, hle⟩ := Options.workers_le_of_parse (Task.options_of_parse hparse)
    refine ⟨(prepare_eq hpos hle).trans (if_pos hlimit), Scan.endsWell_initial, fun outcome => ?_⟩
    rw [run, hparse]
    exact (scan_of_lt hpos hlimit outcome).2

/-- Two hosts and the number of workers of an empty environment. -/
theorem exits_unless_too_many_workers_two_hosts :
    let read : Reader := fun _ => .error .notFound
    let outcome : String → Outcome := fun _ => .rejected "reset"
    let transcript := run ["a.example", "b.example"] .default read outcome
    transcript.exit = .ok 0 ∧ transcript.probed = ["a.example", "b.example"] := by
  intro read outcome transcript
  have hparse : Task.parse ["a.example", "b.example"] .default read
      = .ok (.scan ⟨["a.example", "b.example"], none, false, false, "R3", 10, 1000, 443⟩
        ["a.example", "b.example"]) :=
    eq_ok_of_toOption (by decide +kernel)
  obtain ⟨hexit, hscan⟩ :=
    exits_unless_too_many_workers ["a.example", "b.example"] .default read
  refine ⟨(hexit outcome).trans ?_, (hscan _ _ hparse (by decide)).2.2 outcome⟩
  rw [hparse]
  rfl

/-- The least number of workers that is accepted although no scan is prepared for it. -/
theorem exit_too_many_workers :
    let read : Reader := fun _ => .error .notFound
    let arguments := ["--workers", "4294967296", "a.example"]
    (∃ options, Task.parse arguments .default read = .ok (.scan options ["a.example"]))
      ∧ (run arguments .default read fun _ => .verdict "").exit = .error .tooManyWorkers := by
  intro read arguments
  have hparse : Task.parse arguments .default read
      = .ok (.scan ⟨["a.example"], none, false, false, "R3", 4294967296, 1000, 443⟩
        ["a.example"]) :=
    eq_ok_of_toOption (by decide +kernel)
  refine ⟨⟨_, hparse⟩, ?_⟩
  rw [run, hparse]
  exact exit_scan_of_le (by decide) (by decide) _

end ServedChain.CommandLine
