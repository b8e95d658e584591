/-
  Nothing gets lost in a scan.

  * `Sound` puts together where the hosts, the workers and the results are;
  * `Sound.exists_move`: a job makes a move, and hence keeps this (`Ready.perform`);
  * `Ready.run`: it holds whatever happens, from the start on (`Ready.initial`).
-/
import ServedChain.Proofs.Scan.Books

namespace ServedChain.Scan

/-! ## Sound states -/

/-- What holds of a scan, with the jobs that wait, whatever happens. -/
structure Sound (hosts : List String) (workers : Nat) (prober : Prober) (scan : Scan)
    (jobs : List Job) (busy : Bool) : Prop where
  supply : Supply hosts scan jobs
  parties : Parties workers scan jobs busy
  books : Books prober scan jobs
  report : Report (.scanStarted hosts.length workers) scan jobs

/-- All workers ask for a host. -/
def asks (workers : Nat) : List Job := (List.range workers).map .ask

theorem count_asks (workers : Nat) {job : Job} (h : ∀ worker, Job.ask worker ≠ job) :
    (asks workers).count job = 0 := by
  refine List.count_eq_zero.2 fun hmem => ?_
  obtain ⟨worker, -, rfl⟩ := List.mem_map.1 hmem
  exact h worker rfl

theorem countP_asks (workers : Nat) (p : Job → Bool) (answer : Bool)
    (h : ∀ worker, p (.ask worker) = answer) :
    (asks workers).countP p = bif answer then workers else 0 := by
  have hsame : p ∘ Job.ask = fun _ => answer := funext h
  rw [asks, List.countP_map, hsame]
  cases answer <;> simp

theorem filterMap_asks {α : Type} (workers : Nat) {f : Job → Option α}
    (h : ∀ worker, f (.ask worker) = none) : (asks workers).filterMap f = [] := by
  rw [asks, List.filterMap_map, List.filterMap_eq_nil_iff]
  exact fun worker _ => h worker

namespace Sound
variable {hosts : List String} {workers : Nat} {prober : Prober} {scan next : Scan} {job : Job}
  {jobs jobs' more : List Job} {busy : Bool}

theorem of_alike (h : Sound hosts workers prober scan jobs busy) (ha : Alike jobs jobs') :
    Sound hosts workers prober scan jobs' busy :=
  ⟨h.supply.of_alike ha, h.parties.of_alike ha, h.books.of_alike ha, h.report.of_alike ha⟩

/-- The queue itself does not matter. -/
theorem queue (h : Sound hosts workers prober scan jobs busy) (queue : List (Nat × Job)) :
    Sound hosts workers prober { scan with jobs := queue } jobs busy := by
  obtain ⟨hcapacity, hbuffer, hexclusive, hclosed, hle, heq, hactive, hclosing, hcollector, hending,
    hsane⟩ := h.parties
  refine ⟨h.supply.frame rfl rfl rfl rfl rfl, ?_, h.books.frame rfl rfl rfl rfl rfl rfl,
    h.report.frame rfl rfl rfl rfl rfl rfl rfl⟩
  exact ⟨hcapacity, hbuffer, hexclusive, hclosed, hle, heq, hactive, hclosing, hcollector, hending,
    hsane⟩

/-- A job of a sound scan makes a move. -/
theorem exists_move (h : Sound hosts workers prober scan (job :: jobs) busy) :
    ∃ next more, Move .reliable prober scan job next more
      ∧ scan.perform .reliable prober job = more.foldl enqueue next := by
  have hparties := h.parties
  have hfull : scan.results.capacity ≤ scan.results.buffer.length := by
    rw [hparties.capacity]
    exact Nat.zero_le _
  cases job with
  | produce =>
    obtain ⟨hopen, -⟩ := h.supply.isOpen
    refine exists_produce .reliable prober hopen h.supply.senders fun hunsent => ?_
    have horder := congrArg List.length h.supply.order
    have hpos := List.length_pos_iff.2 hunsent
    rw [h.supply.capacity]
    simp only [List.length_append] at horder
    omega
  | probe worker host =>
    rcases hprobe : prober scan.probes.length host with verdict | error | error
    · exact ⟨_, _, .start (by simp [hprobe]), by simp [perform, probe, hprobe]⟩
    · exact ⟨_, _, .start (by simp [hprobe]), by simp [perform, probe, hprobe]⟩
    · obtain ⟨next, more, hsend, heq⟩ := @exists_send
        { scan with
          probes := scan.probes ++ [host]
          endings := scan.endings ++ [(⟨scan.probes.length, worker, host⟩, .thrown error)]
          notices := scan.notices ++ (Outcome.thrown error).notices host }
        worker ((Outcome.thrown error).counted, host) (hparties.isOpen rfl) hfull
      exact ⟨next, more, .throw hprobe hsend, by simpa [perform, probe, hprobe, forward] using heq⟩
  | leave => exact ⟨_, _, .leave, rfl⟩
  | forward worker host outcome =>
    obtain ⟨next, more, hsend, heq⟩ := @exists_send
      { scan with notices := scan.notices ++ outcome.notices host } worker (outcome.counted, host)
      (hparties.isOpen rfl) hfull
    exact ⟨next, more, .forward hsend, heq⟩
  | ask worker => exact exists_ask .reliable prober worker h.supply.senders
  | collect result =>
    have hbuffer : (scan.collect .reliable result).results.buffer = [] := by
      rw [← hparties.buffer]
      unfold collect
      split <;> rfl
    obtain ⟨next, more, hlisten, heq⟩ := exists_listen hbuffer
    exact ⟨next, more, .collect hlisten, heq⟩
  | stop => exact ⟨_, _, .stop, rfl⟩
  | returned =>
    by_cases hactive : scan.active = 1
    · exact ⟨_, _, .lastReturned hactive, by simp [perform, countReturned, hactive]⟩
    · exact ⟨_, _, .returned hactive, by simp [perform, countReturned, hactive]⟩
  | close =>
    obtain ⟨hopen, hsenders⟩ := hparties.isOpen_of_close
    refine ⟨_, _, .close hsenders, ?_⟩
    have hstop : scan.results.receivers.map (resultJob ∘ fun receiver => (receiver, .finished))
        = List.replicate scan.results.receivers.length .stop := List.map_const' ..
    simp [perform, closeResults, Channel.close?, hopen, setResults_eq, hstop, hsenders]
  | conclude => exact ⟨_, _, .conclude, rfl⟩
  | abort => exact absurd hparties.sane (by simp)

theorem move (h : Sound hosts workers prober scan (job :: jobs) busy)
    (hm : Move .reliable prober scan job next more) :
    Sound hosts workers prober next (jobs ++ more) busy :=
  ⟨h.supply.move hm, h.parties.move h.supply hm, h.books.move h.parties.exclusive hm,
    h.report.move h.parties.going hm⟩

/-- The start: the producer and the workers are in hand, and the collector is busy. -/
theorem blank (hosts : List String) (workers : Nat) (prober : Prober) :
    Sound hosts workers prober (blank hosts workers) (.produce :: asks workers) true := by
  have hhosts : (asks workers).filterMap Job.host? = [] := filterMap_asks workers fun _ => rfl
  have hresults : (asks workers).filterMap Job.result? = [] := filterMap_asks workers fun _ => rfl
  have houtcomes : (asks workers).filterMap Job.outcome? = [] :=
    filterMap_asks workers fun _ => rfl
  have hworking : (asks workers).countP Job.isWorking = workers :=
    countP_asks workers Job.isWorking true fun _ => rfl
  have hleaving : (asks workers).countP Job.isLeaving = 0 :=
    countP_asks workers Job.isLeaving false fun _ => rfl
  have hcollector : (asks workers).countP Job.isCollector = 0 :=
    countP_asks workers Job.isCollector false fun _ => rfl
  have hending : (asks workers).countP Job.isEnding = 0 :=
    countP_asks workers Job.isEnding false fun _ => rfl
  refine ⟨⟨rfl, rfl, fun h => absurd rfl h, fun h => Bool.noConfusion h, ?_, ?_⟩, ?_, ?_, ?_⟩
  · simp [Scan.blank, Channel.empty, count_asks]
  · simp [Scan.blank, Channel.empty, List.filterMap_cons, Job.host?, hhosts]
  · constructor
    all_goals simp [Scan.blank, Channel.empty, working, count_asks, List.countP_cons, hworking,
      hleaving, hcollector, hending]
  · constructor
    all_goals simp [Scan.blank, Channel.empty, inFlight, reported, findings, hresults, houtcomes,
      List.filterMap_cons, Job.result?, Job.outcome?]
  · constructor
    all_goals simp [Scan.blank, unlogged, warnings, findings, houtcomes, List.filterMap_cons,
      Job.outcome?]

end Sound

/-! ## Courses -/

/-- A scan of which everything holds, with some jobs in hand that wait for nothing. -/
structure Ready (hosts : List String) (workers : Nat) (prober : Prober) (scan : Scan)
    (hand : List Job) (busy : Bool) : Prop where
  timely : Timely scan.jobs
  sound : Sound hosts workers prober scan (hand ++ turn scan.jobs) busy

namespace Ready
variable {hosts : List String} {workers : Nat} {prober : Prober} {scan : Scan} {hand : List Job}
  {busy : Bool}

/-- Jobs put into the queue wait from then on. -/
theorem enqueue {more : List Job} (htimely : Timely scan.jobs)
    (h : Sound hosts workers prober scan (hand ++ turn scan.jobs ++ more) busy) :
    Ready hosts workers prober (more.foldl Scan.enqueue scan) hand busy := by
  obtain ⟨htimely', halike⟩ := turn_foldl_enqueue_alike htimely more
  refine ⟨htimely', ?_⟩
  rw [List.append_assoc] at h
  have hall := h.of_alike ((Alike.refl hand).append fun rounds => (halike rounds).symm)
  rw [foldl_enqueue] at hall ⊢
  exact hall.queue _

/-- The first job in hand is done. -/
theorem perform {job : Job} (h : Ready hosts workers prober scan (job :: hand) busy) :
    Ready hosts workers prober (scan.perform .reliable prober job) hand busy := by
  obtain ⟨next, more, hmove, heq⟩ := h.sound.exists_move
  have htimely := h.timely
  have hnext := h.sound.move hmove
  rw [← hmove.jobs_eq] at htimely hnext
  rw [heq]
  exact enqueue htimely hnext

/-- The first job of the queue is taken in hand and done, or lets the others pass. -/
theorem step (h : Ready hosts workers prober scan [] busy) :
    Ready hosts workers prober (scan.step .reliable prober) [] busy := by
  obtain ⟨htimely, hsound⟩ := h
  unfold Scan.step
  split
  · exact ⟨htimely, hsound⟩
  · next rounds job jobs hjobs =>
    rw [hjobs] at htimely hsound
    rw [← turn_rotate htimely] at hsound
    exact ⟨timely_rotate htimely, hsound.queue _⟩
  · next job jobs hjobs =>
    rw [hjobs] at htimely hsound
    rw [turn_cons_zero] at hsound
    have htaken : Ready hosts workers prober { scan with jobs } [job] busy :=
      ⟨fun entry hentry => htimely entry (List.mem_cons_of_mem _ hentry), hsound.queue _⟩
    exact htaken.perform

/-- A probe ends in the way that the prober gives. -/
theorem settle (h : Ready hosts workers prober scan [] busy) (number : Nat) :
    Ready hosts workers prober
      (scan.settle number (prober number (scan.probes.getD number ""))) [] busy := by
  obtain ⟨htimely, hsound⟩ := h
  unfold Scan.settle
  split
  · next probing hfind =>
    have hmem := List.mem_of_find?_eq_some hfind
    obtain rfl : probing.number = number := by simpa using List.find?_some hfind
    rw [hsound.books.host_of_running hmem]
    have hgoing := hsound.parties.going_of_running (List.ne_nil_of_mem hmem)
    refine @enqueue hosts workers prober
      { scan with
        running := scan.running.erase probing
        endings := scan.endings ++ [(probing, prober probing.number probing.host)] } [] busy
      [.forward probing.worker probing.host (prober probing.number probing.host)] htimely ?_
    exact ⟨hsound.supply.frame rfl rfl rfl (by simp) (by simp [Job.host?]),
      hsound.parties.settle hmem, hsound.books.settle hmem rfl, hsound.report.settle _ hgoing⟩
  · exact ⟨htimely, hsound⟩

/-- Workers in hand ask one after another. -/
theorem foldl_ask {asking : List Nat}
    (h : Ready hosts workers prober scan (asking.map .ask) busy) :
    Ready hosts workers prober (asking.foldl ask scan) [] busy := by
  induction asking generalizing scan with
  | nil => exact h
  | cons worker asking ih =>
    -- To ask is what the job does
    exact ih (show Ready _ _ _ (scan.perform .reliable prober (.ask worker)) _ _ from h.perform)

/-- The collector, busy until then, asks for a result. -/
theorem listen (h : Ready hosts workers prober scan [] true) :
    Ready hosts workers prober scan.listen [] false := by
  obtain ⟨htimely, hsound⟩ := h
  obtain ⟨next, more, hlisten, heq⟩ := exists_listen hsound.parties.buffer
  have hnext : Sound hosts workers prober next (turn scan.jobs ++ more) false :=
    ⟨hsound.supply.listen hlisten, hsound.parties.listen hlisten, hsound.books.listen hlisten,
      hsound.report.listen hlisten⟩
  rw [← hlisten.jobs_eq] at htimely hnext
  rw [heq]
  exact enqueue htimely hnext

/-- The start of a scan. -/
theorem initial (hosts : List String) (workers : Nat) (prober : Prober) :
    Ready hosts workers prober (initial hosts workers) [] false := by
  have hblank : Ready hosts workers prober (Scan.blank hosts workers) (.produce :: asks workers)
      true := by
    refine ⟨fun _ hmem => absurd hmem List.not_mem_nil, ?_⟩
    have hnone : turn (Scan.blank hosts workers).jobs = [] := rfl
    rw [hnone, List.append_nil]
    exact Sound.blank hosts workers prober
  have hproduced : Ready hosts workers prober (Scan.blank hosts workers).produce (asks workers)
      true := hblank.perform
  exact hproduced.foldl_ask.listen

/-- **Whatever happens, nothing gets lost.** -/
theorem run (h : Ready hosts workers prober scan [] busy) (events : List Event) :
    Ready hosts workers prober (scan.run .reliable prober events) [] busy := by
  induction events generalizing scan with
  | nil => exact h
  | cons event events ih =>
    cases event with
    | step => exact ih h.step
    | settle number => exact ih (h.settle number)

end Ready

end ServedChain.Scan
