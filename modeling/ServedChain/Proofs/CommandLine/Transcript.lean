/-
  What a run writes.

  * `findingLines`: the texts of the findings among some hosts, in the order of the list;
  * `stdout_scan_of_lt`: a scan writes these and that it is done, whatever the number of
    workers is that it is prepared for;
  * `all_or_nothing`: a run that exits has rejected its input before anything happened,
    or shown the help text, or scanned all of its hosts.
-/
import ServedChain.Proofs.CommandLine.Exit
import ServedChain.Proofs.Scan.Prompt

namespace ServedChain

/-! ## Texts -/

theorem map_zipIdx_of_fst {α β : Type} (f : α → β) (entries : List α) :
    (entries.zipIdx.map fun entry => f entry.1) = entries.map f := by
  have h := congrArg (List.map f) (List.zipIdx_map_fst 0 entries)
  rwa [List.map_map] at h

/-- The texts of a reporter that never fails, after it was told findings and then the end. -/
theorem Reporter.texts_reliable (findings : List Finding) (summary : Summary) :
    reliable.texts (findings.map .finding ++ [.done summary])
      = findings.map (fun finding => findingText finding.1) ++ [doneText] := by
  have hfindings : (findings.map Call.finding ++ [Call.done summary]).filterMap Call.finding?
      = findings := by
    simp [List.filterMap_append, Function.comp_def, Call.finding?]
  have hsummaries : (findings.map Call.finding ++ [Call.done summary]).filterMap Call.summary?
      = [summary] := by
    simp [List.filterMap_append, Function.comp_def, Call.summary?]
  have hall : findings.zipIdx.filter (fun entry => (reliable.findingError entry.2).isNone)
      = findings.zipIdx := List.filter_eq_self.2 fun _ _ => rfl
  rw [texts, hfindings, hsummaries]
  simp only [hall]
  rw [map_zipIdx_of_fst fun finding : Finding => findingText finding.1]
  rfl

namespace CommandLine

/-- The texts of the findings among some hosts, in the order of the list: each verdict that is not
    empty, and a line feed. -/
def findingLines (outcome : String → Outcome) (hosts : List String) : List String :=
  hosts.filterMap fun host =>
    match outcome host with
    | .verdict v => if v = "" then none else some (v ++ "\n")
    | .rejected _ | .thrown _ => none

theorem map_finding? (outcome : Outcome) (host : String) :
    (outcome.finding? host).map (fun finding => Reporter.findingText finding.1)
      = match outcome with
        | .verdict v => if v = "" then none else some (v ++ "\n")
        | .rejected _ | .thrown _ => none := by
  cases outcome with
  | verdict v => by_cases hv : v = "" <;> simp [Outcome.finding?, Reporter.findingText, hv]
  | rejected | thrown => rfl

theorem map_expected (outcome : String → Outcome) (hosts : List String) :
    (Scan.expected (fun _ => outcome) hosts).map (fun finding => Reporter.findingText finding.1)
      = findingLines outcome hosts := by
  have hresults : Scan.expected (fun _ => outcome) hosts
      = hosts.filterMap fun host => (outcome host).finding? host := by
    conv_rhs => rw [← List.zipIdx_map_fst 0 hosts, List.filterMap_map]
    rfl
  rw [hresults, List.map_filterMap]
  exact List.filterMap_congr fun host _ => map_finding? (outcome host) host

/-! ## Scans -/

/-- What a scan that is prepared for its workers writes, whatever their number. -/
theorem stdout_scan_of_lt {hosts : List String} {workers : Nat} (hpos : 1 ≤ workers)
    (hlimit : workers < Scan.workerLimit) (outcome : String → Outcome) :
    (scan hosts workers outcome).stdout = findingLines outcome hosts ++ [Reporter.doneText]
      ∧ (scan hosts workers outcome).stderr = [] := by
  have hle : workers ≤ NumberOption.greatestExact :=
    Nat.le_of_lt (Nat.lt_of_lt_of_le hlimit (by decide))
  have hprepare : Scan.prepare hosts (.ofNat workers) = .ok (Scan.initial hosts workers) :=
    (prepare_eq hpos hle).trans (if_pos hlimit)
  have hcomplete := Scan.complete_answerAll hosts outcome hpos
  rw [scan, hprepare]
  refine ⟨?_, rfl⟩
  simp only [Scan.ending, hcomplete.told, Scan.findings_answerAll hosts outcome hpos]
  rw [Reporter.texts_reliable, map_expected]

/-- A scan that exits was prepared for its workers. -/
theorem lt_of_exit_scan {hosts : List String} {workers code : Nat} {outcome : String → Outcome}
    (hle : workers ≤ NumberOption.greatestExact)
    (hexit : (scan hosts workers outcome).exit = .ok code) : workers < Scan.workerLimit := by
  refine Nat.lt_of_not_le fun hlimit => ?_
  rw [exit_scan_of_le hle hlimit] at hexit
  cases hexit

/-! ## Tasks -/

section
variable {arguments : List String} {settings : Settings} {read : Reader}

/-- The hosts that arguments name: those in the table of a file, if there is a path that is not
    empty, and else the positional ones. -/
def Arguments.Names (given : Arguments) (read : Reader) (hosts : List String) : Prop :=
  (∀ path, given.tsvFile = some path → path ≠ "" → ∃ contents, read path = .ok contents
      ∧ Hostname.ofTable (String.ofList (Utf8.decode contents)) = .ok hosts)
    ∧ (given.tsvFile.getD "" = "" → hosts = given.positionals)

/-- Hosts of a file are those in the table that it holds. -/
theorem exists_of_hostsOfFile {path : String} {hosts : List String}
    (h : hostsOfFile read path = .ok hosts) : ∃ contents, read path = .ok contents
      ∧ Hostname.ofTable (String.ofList (Utf8.decode contents)) = .ok hosts := by
  unfold hostsOfFile at h
  split at h
  · cases h
  · next contents hread =>
    split at h
    · cases h
    · next htable =>
      cases h
      exact ⟨contents, hread, htable⟩

theorem Options.hosts_eq (read : Reader) (options : Options) :
    options.hosts read = (options.tsvFile.elim (.ok options.hostnames) (hostsOfFile read)
      >>= fun hosts => if hosts.isEmpty then .error .noHosts else .ok hosts) := by
  unfold Options.hosts
  cases options.tsvFile <;> rfl

theorem Options.elim_of_hosts {options : Options} {hosts : List String}
    (h : options.hosts read = .ok hosts) : hosts ≠ []
      ∧ options.tsvFile.elim (.ok options.hostnames) (hostsOfFile read) = .ok hosts := by
  rw [Options.hosts_eq] at h
  obtain ⟨named, hnamed, hsome⟩ := exists_of_bind_eq_ok h
  split at hsome
  · cases hsome
  · next hempty =>
    cases hsome
    exact ⟨mt List.isEmpty_iff.2 hempty, hnamed⟩

theorem Task.exists_of_help (h : Task.parse arguments settings read = .ok .help) :
    ∃ given, Arguments.parse arguments = .ok given ∧ given.help = true := by
  obtain ⟨options, hoptions, h⟩ := exists_of_bind_eq_ok h
  obtain ⟨given, hgiven, -, -, -, hsame⟩ := Options.exists_of_parse hoptions
  split at h
  · next hhelp => exact ⟨given, hgiven, hsame ▸ hhelp⟩
  · obtain ⟨_, -, h⟩ := exists_of_bind_eq_ok h
    cases h

theorem Task.exists_of_scan {options : Options} {hosts : List String}
    (h : Task.parse arguments settings read = .ok (.scan options hosts)) :
    ∃ given, Arguments.parse arguments = .ok given ∧ given.help = false
      ∧ given.Names read hosts ∧ hosts ≠ []
      ∧ NumberOption.workers.resolve given.workers settings.workers = .ok options.workers := by
  obtain ⟨_, hoptions, h⟩ := exists_of_bind_eq_ok h
  obtain ⟨given, hgiven, hworkers, hpositionals, hfile, hhelp⟩ := Options.exists_of_parse hoptions
  split at h
  · cases h
  · next hgoing =>
    obtain ⟨_, hhosts, h⟩ := exists_of_bind_eq_ok h
    cases h
    obtain ⟨hne, hnamed⟩ := Options.elim_of_hosts hhosts
    rw [hfile, hpositionals] at hnamed
    refine ⟨given, hgiven, hhelp ▸ Bool.eq_false_iff.2 hgoing, ⟨fun path hpath hfull => ?_,
      fun hempty => ?_⟩, hne, hworkers⟩
    · rw [hpath, Option.filter_some_pos (by simpa using hfull)] at hnamed
      exact exists_of_hostsOfFile hnamed
    · have hnone : given.tsvFile.filter (· ≠ "") = none := by
        cases hpath : given.tsvFile with
        | none => rfl
        | some path =>
          rw [hpath] at hempty
          exact Option.filter_some_neg (by simpa using hempty)
      rw [hnone] at hnamed
      exact (Except.ok.inj hnamed).symm

end

/-! ## Runs -/

/-- **A run does all or nothing.**  If it exits with 1, its input was rejected, which is all that it
    writes, and no host was probed; if it exits with 0, it has shown the help text that was asked
    for, and nothing else, or it has probed the hosts that the arguments name, in order.  Then it
    has written the findings, in the order of the hosts, and that it is done, and would have
    written the same with any other number of workers with which it exits. -/
theorem all_or_nothing (arguments : List String) (settings : Settings) (read : Reader)
    (outcome : String → Outcome) {code : Nat}
    (hexit : (run arguments settings read outcome).exit = .ok code) :
    let transcript := run arguments settings read outcome
    (code = 1 ∧ ∃ error, Task.parse arguments settings read = .error error
        ∧ transcript.probed = [] ∧ transcript.stdout = []
        ∧ transcript.stderr = [error.message ++ "\n\n" ++ usage])
      ∨ (code = 0 ∧ (∃ given, Arguments.parse arguments = .ok given ∧ given.help = true)
        ∧ transcript.probed = [] ∧ transcript.stdout = [usage] ∧ transcript.stderr = [])
      ∨ (code = 0 ∧ ∃ given hosts workers, Arguments.parse arguments = .ok given
        ∧ given.help = false ∧ given.Names read hosts ∧ hosts ≠ []
        ∧ NumberOption.workers.resolve given.workers settings.workers = .ok workers
        ∧ transcript = scan hosts workers outcome
        ∧ transcript.probed = hosts
        ∧ transcript.stdout = findingLines outcome hosts ++ ["Done\n"]
        ∧ transcript.stderr = []
        ∧ ∀ others, 1 ≤ others → others ≤ NumberOption.greatestExact →
          (scan hosts others outcome).exit = .ok code →
          (scan hosts others outcome).stdout = transcript.stdout
            ∧ (scan hosts others outcome).stderr = transcript.stderr) := by
  intro transcript
  have htranscript : transcript = run arguments settings read outcome := rfl
  unfold run at htranscript hexit
  match hparse : Task.parse arguments settings read with
  | .error error =>
    rw [hparse] at htranscript hexit
    cases hexit
    rw [htranscript]
    exact .inl ⟨rfl, error, rfl, rfl, rfl, rfl⟩
  | .ok .help =>
    rw [hparse] at htranscript hexit
    cases hexit
    rw [htranscript]
    exact .inr (.inl ⟨rfl, Task.exists_of_help hparse, rfl, rfl, rfl⟩)
  | .ok (.scan options hosts) =>
    rw [hparse] at htranscript hexit
    obtain ⟨given, hgiven, hhelp, hnames, hne, hworkers⟩ := Task.exists_of_scan hparse
    obtain ⟨hpos, hle⟩ := NumberOption.le_of_resolve hworkers
    have hlimit := lt_of_exit_scan hle hexit
    obtain ⟨hzero, hprobed⟩ := scan_of_lt hpos hlimit outcome
    obtain ⟨hstdout, hstderr⟩ := stdout_scan_of_lt hpos hlimit outcome
    have hcode : code = 0 := Except.ok.inj (hexit.symm.trans hzero)
    rw [htranscript]
    refine .inr (.inr ⟨hcode, given, hosts, options.workers, hgiven, hhelp, hnames, hne, hworkers,
      rfl, hprobed, hstdout, hstderr, fun others hpos' hle' hexit' => ?_⟩)
    obtain ⟨hstdout', hstderr'⟩ := stdout_scan_of_lt hpos' (lt_of_exit_scan hle' hexit') outcome
    exact ⟨hstdout'.trans hstdout.symm, hstderr'.trans hstderr.symm⟩

/-- Two findings, and between them a probe that fails as it starts. -/
def interrupted : String → Outcome
  | "a.example" => .verdict "first"
  | "b.example" => .thrown "reset"
  | _ => .verdict "last"

/-- One file, with a table of two hosts. -/
def oneFile : Reader := fun path =>
  if path = "hosts.tsv" then
    .ok ("example.c\t1\nexample.b\t2\n".toList.map fun c => UInt8.ofNat c.toNat)
  else .error .notFound

/-- Hosts among the arguments, hosts in a file, a file that does not exist, and a call for help. -/
theorem all_or_nothing_each_way :
    let named := run ["a.example", "b.example", "c.example"] .default oneFile interrupted
    let listed := run ["--tsv-file", "hosts.tsv", "a.example"] .default oneFile interrupted
    let missing := run ["--tsv-file", "missing.tsv"] .default oneFile interrupted
    let helped := run ["--help", "a.example"] .default oneFile interrupted
    (named.exit = .ok 0 ∧ named.stdout = ["first\n", "last\n", "Done\n"]
      ∧ named.probed = ["a.example", "b.example", "c.example"])
    ∧ (listed.exit = .ok 0 ∧ listed.stdout = ["last\n", "Done\n"]
      ∧ listed.probed = ["c.example", "b.example"])
    ∧ (missing.exit = .ok 1 ∧ missing.stdout = [] ∧ missing.probed = []
      ∧ missing.stderr = ["Couldn't open the tsv file missing.tsv\n\n" ++ usage])
    ∧ (helped.exit = .ok 0 ∧ helped.stdout = [usage] ∧ helped.probed = []) := by
  intro named listed missing helped
  refine ⟨?_, ?_, ?_, ?_⟩
  · have hexit : named.exit = .ok 0 := by decide +kernel
    have hgiven : Arguments.parse ["a.example", "b.example", "c.example"] = .ok
        ⟨none, none, none, none, none, false, false, ["a.example", "b.example", "c.example"]⟩ := by
      decide +kernel
    rcases all_or_nothing _ _ _ _ hexit with ⟨hone, -⟩ | ⟨-, ⟨given, hsame, hhelp⟩, -⟩
      | ⟨-, given, hosts, _, hsame, -, hnames, -, -, -, hprobed, hstdout, -⟩
    · cases hone
    · rw [hgiven] at hsame
      cases hsame
      cases hhelp
    · rw [hgiven] at hsame
      cases hsame
      obtain rfl := hnames.2 rfl
      exact ⟨hexit, hstdout, hprobed⟩
  · have hexit : listed.exit = .ok 0 := by decide +kernel
    have hgiven : Arguments.parse ["--tsv-file", "hosts.tsv", "a.example"] = .ok
        ⟨some "hosts.tsv", none, none, none, none, false, false, ["a.example"]⟩ := by
      decide +kernel
    rcases all_or_nothing _ _ _ _ hexit with ⟨hone, -⟩ | ⟨-, ⟨given, hsame, hhelp⟩, -⟩
      | ⟨-, given, hosts, _, hsame, -, hnames, -, -, -, hprobed, hstdout, -⟩
    · cases hone
    · rw [hgiven] at hsame
      cases hsame
      cases hhelp
    · rw [hgiven] at hsame
      cases hsame
      obtain ⟨contents, hread, htable⟩ := hnames.1 "hosts.tsv" rfl (by decide)
      cases hread
      have hhosts : Hostname.ofTable (String.ofList (Utf8.decode
          ("example.c\t1\nexample.b\t2\n".toList.map fun c => UInt8.ofNat c.toNat)))
          = .ok ["c.example", "b.example"] := by decide +kernel
      rw [hhosts] at htable
      cases htable
      exact ⟨hexit, hstdout, hprobed⟩
  · have hexit : missing.exit = .ok 1 := by decide +kernel
    have herror : Task.parse ["--tsv-file", "missing.tsv"] .default oneFile
        = .error (.unreadableFile "missing.tsv" .notFound) := by decide +kernel
    rcases all_or_nothing _ _ _ _ hexit with ⟨-, error, hsame, hprobed, hstdout, hstderr⟩
      | ⟨hzero, -⟩ | ⟨hzero, -⟩
    · rw [herror] at hsame
      cases hsame
      exact ⟨hexit, hstdout, hprobed, hstderr⟩
    · cases hzero
    · cases hzero
  · have hexit : helped.exit = .ok 0 := by decide +kernel
    have hgiven : Arguments.parse ["--help", "a.example"] = .ok
        ⟨none, none, none, none, none, false, true, ["a.example"]⟩ := by
      decide +kernel
    rcases all_or_nothing _ _ _ _ hexit with ⟨hone, -⟩ | ⟨-, -, hprobed, hstdout, -⟩
      | ⟨-, given, _, _, hsame, hhelp, -⟩
    · cases hone
    · exact ⟨hexit, hstdout, hprobed⟩
    · rw [hgiven] at hsame
      cases hsame
      cases hhelp

end CommandLine

end ServedChain
