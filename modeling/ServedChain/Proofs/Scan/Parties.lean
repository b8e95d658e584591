/-
  Who takes part in a scan, and where everybody is.

  * `Supply` is about the hosts: each is probed, received, in the buffer or not yet
    sent, in the order of the list;
  * `Parties` is about the workers and the collector: nobody gets lost, and the
    channel of results is closed once all workers have returned.
-/
import ServedChain.Proofs.Scan.Moves

namespace ServedChain.Scan

/-! ## Hosts -/

/-- Where the hosts are, with the jobs that wait. -/
structure Supply (hosts : List String) (scan : Scan) (jobs : List Job) : Prop where
  capacity : scan.work.capacity = hosts.length
  senders : scan.work.senders = []
  receivers : scan.work.receivers ≠ [] → scan.work.buffer = []
  closed : scan.work.closed = true → scan.work.receivers = [] ∧ scan.unsent = []
  producing : jobs.count .produce = if scan.work.closed then 0 else 1
  order : hosts = scan.probes ++ jobs.filterMap Job.host? ++ scan.work.buffer ++ scan.unsent

namespace Supply
variable {hosts : List String} {scan next : Scan} {jobs more : List Job}

theorem of_alike {jobs' : List Job} (h : Supply hosts scan jobs) (ha : Alike jobs jobs') :
    Supply hosts scan jobs' where
  capacity := h.capacity
  senders := h.senders
  receivers := h.receivers
  closed := h.closed
  producing := by rw [← ha.perm.count_eq, h.producing]
  order := by rw [← ha.hosts_eq, ← h.order]

/-- Nothing changes for the hosts. -/
theorem frame (h : Supply hosts scan jobs) (hwork : next.work = scan.work)
    (hunsent : next.unsent = scan.unsent) (hprobes : next.probes = scan.probes)
    (hproducing : more.count .produce = jobs.count .produce)
    (hhosts : more.filterMap Job.host? = jobs.filterMap Job.host?) : Supply hosts next more where
  capacity := by rw [hwork, h.capacity]
  senders := by rw [hwork, h.senders]
  receivers := by rw [hwork]; exact h.receivers
  closed := by rw [hwork, hunsent]; exact h.closed
  producing := by rw [hwork, hproducing, h.producing]
  order := by rw [hwork, hunsent, hprobes, hhosts, ← h.order]

theorem isOpen (h : Supply hosts scan (.produce :: jobs)) :
    scan.work.closed = false ∧ jobs.count .produce = 0 := by
  have hproducing := h.producing
  rw [List.count_cons_self] at hproducing
  split at hproducing <;> simp_all

theorem listen (h : Supply hosts scan jobs) (hl : Listen scan next more) :
    Supply hosts next (jobs ++ more) := by
  cases hl <;> exact h.frame rfl rfl rfl (by simp) (by simp [List.filterMap_cons, Job.host?])

theorem send {worker : Nat} {result : Finding} (h : Supply hosts scan jobs)
    (hs : Send scan worker result next more) : Supply hosts next (jobs ++ more) := by
  cases hs <;> exact h.frame rfl rfl rfl (by simp) (by simp [List.filterMap_cons, Job.host?])

variable {reporter : Reporter} {prober : Prober} {job : Job}

/-- A probe starts, and something else changes. -/
theorem start {worker : Nat} {host : String} (h : Supply hosts scan (.probe worker host :: jobs))
    (hwork : next.work = scan.work) (hunsent : next.unsent = scan.unsent)
    (hprobes : next.probes = scan.probes ++ [host]) : Supply hosts next jobs := by
  have hproducing := h.producing
  have horder := h.order
  refine ⟨?_, ?_, ?_, ?_, ?_, ?_⟩
  · rw [hwork, h.capacity]
  · rw [hwork, h.senders]
  · rw [hwork]; exact h.receivers
  · rw [hwork, hunsent]; exact h.closed
  · rw [hwork, ← hproducing]; simp
  · rw [hwork, hunsent, hprobes]
    simpa [List.filterMap_cons, Job.host?] using horder

/-- A job keeps account of the hosts. -/
theorem move (h : Supply hosts scan (job :: jobs)) (hm : Move reporter prober scan job next more) :
    Supply hosts next (jobs ++ more) := by
  have horder := h.order
  cases hm with
  | handOver hunsent hreceivers =>
    obtain ⟨hopen, hcount⟩ := h.isOpen
    have hbuffer := h.receivers (by simp [hreceivers])
    refine ⟨h.capacity, h.senders, fun _ => hbuffer, by simp [hopen], by simp [hopen, hcount], ?_⟩
    simpa [List.filterMap_cons, Job.host?, hbuffer, hunsent] using horder
  | store hunsent hreceivers =>
    obtain ⟨hopen, hcount⟩ := h.isOpen
    refine ⟨h.capacity, h.senders, by simp [hreceivers], by simp [hopen], by simp [hopen, hcount],
      ?_⟩
    simpa [List.filterMap_cons, Job.host?, hunsent] using horder
  | finish hunsent =>
    obtain ⟨-, hcount⟩ := h.isOpen
    refine ⟨h.capacity, rfl, by simp, by simp [hunsent],
      by simp [hcount, List.count_replicate], ?_⟩
    simpa [List.filterMap_cons, Job.host?, List.filterMap_replicate] using horder
  | start => rw [List.append_nil]; exact h.start rfl rfl rfl
  | throw _ hs =>
    refine Supply.send ?_ hs
    exact h.start rfl rfl rfl
  | forward hs =>
    refine Supply.send ?_ hs
    exact h.frame rfl rfl rfl (by simp) (by simp [List.filterMap_cons, Job.host?])
  | serve hbuffer =>
    refine ⟨h.capacity, h.senders, fun hreceivers => ?_, h.closed, by simpa using h.producing, ?_⟩
    · have hnil := h.receivers hreceivers
      rw [hbuffer] at hnil
      cases hnil
    · simpa [List.filterMap_cons, Job.host?, hbuffer] using horder
  | queue hbuffer hopen =>
    refine ⟨h.capacity, h.senders, fun _ => hbuffer, by simp [hopen], by simpa using h.producing,
      ?_⟩
    simpa [List.filterMap_cons, Job.host?] using horder
  | collect hl =>
    refine Supply.listen (h.frame ?_ ?_ ?_ (by simp) (by simp [List.filterMap_cons, Job.host?])) hl
    all_goals unfold Scan.collect; simp only; split <;> rfl
  | close =>
    exact h.frame rfl rfl rfl (by simp [List.count_replicate])
      (by simp [List.filterMap_cons, Job.host?, List.filterMap_replicate])
  | conclude =>
    obtain ⟨_, _, _, heq⟩ := conclude_eq scan reporter
    rw [heq]
    exact h.frame rfl rfl rfl (by simp) (by simp [List.filterMap_cons, Job.host?])
  | leave | dismiss | stop | lastReturned | returned =>
    exact h.frame rfl rfl rfl (by simp) (by simp [List.filterMap_cons, Job.host?])

end Supply

/-! ## Workers and the collector -/

/-- A worker that has a host or a result in hand, or asks for a host. -/
@[simp]
def Job.isWorking : Job → Bool
  | probe .. | forward .. | ask _ => true
  | _ => false

/-- The producer or a worker that has nothing more to do. -/
@[simp]
def Job.isLeaving : Job → Bool
  | produce | leave | returned => true
  | _ => false

/-- The collector, with a result or without a further one. -/
@[simp]
def Job.isCollector : Job → Bool
  | collect _ | stop | conclude => true
  | _ => false

/-- The collector without a further result. -/
@[simp]
def Job.isEnding : Job → Bool
  | stop | conclude => true
  | _ => false

/-- The workers that have not been told that there is no further host. -/
def working (scan : Scan) (jobs : List Job) : Nat :=
  scan.work.receivers.length + scan.running.length + scan.results.senders.length
    + jobs.countP Job.isWorking

/-- Where the workers and the collector are, with the jobs that wait.  The collector may be busy
    with a result. -/
structure Parties (workers : Nat) (scan : Scan) (jobs : List Job) (busy : Bool) : Prop where
  capacity : scan.results.capacity = 0
  buffer : scan.results.buffer = []
  exclusive : scan.results.receivers = [] ∨ scan.results.senders = []
  closed : scan.results.closed = true → scan.results.receivers = [] ∧ scan.results.senders = []
  working_le : working scan jobs ≤ workers
  working_eq : working scan jobs = workers ∨ scan.work.closed = true ∧ scan.work.buffer = []
  active : scan.active = working scan jobs + jobs.countP Job.isLeaving
  closing : jobs.count .close + scan.results.closed.toNat = if scan.active = 0 then 1 else 0
  collector : scan.results.receivers.length + jobs.countP Job.isCollector
    + scan.result.isSome.toNat + busy.toNat = 1
  ending : jobs.countP Job.isEnding + scan.result.isSome.toNat ≠ 0 → scan.results.closed = true
  sane : jobs.count .abort = 0

namespace Parties
variable {workers : Nat} {scan next : Scan} {jobs more : List Job} {busy : Bool}

/-- Nothing changes in the channel of results, and nobody gets lost. -/
theorem frame {busy' : Bool} (h : Parties workers scan jobs busy)
    (hresults : next.results = scan.results) (hactive : next.active = scan.active)
    (hworking : working next more = working scan jobs ∨ working next more ≤ working scan jobs
      ∧ next.work.closed = true ∧ next.work.buffer = [])
    (hwork : scan.work.closed = true → scan.work.buffer = [] →
      next.work.closed = true ∧ next.work.buffer = [])
    (hstaff : working next more + more.countP Job.isLeaving
      = working scan jobs + jobs.countP Job.isLeaving)
    (hclose : more.count .close = jobs.count .close)
    (hcollector : more.countP Job.isCollector + next.result.isSome.toNat + busy'.toNat
      = jobs.countP Job.isCollector + scan.result.isSome.toNat + busy.toNat)
    (hending : more.countP Job.isEnding + next.result.isSome.toNat
      = jobs.countP Job.isEnding + scan.result.isSome.toNat)
    (habort : more.count .abort = jobs.count .abort) : Parties workers next more busy' where
  capacity := by rw [hresults]; exact h.capacity
  buffer := by rw [hresults]; exact h.buffer
  exclusive := by rw [hresults]; exact h.exclusive
  closed := by rw [hresults]; exact h.closed
  working_le := by
    have hle := h.working_le
    omega
  working_eq := by
    rcases hworking with hworking | ⟨-, hdone⟩
    · rw [hworking]
      exact h.working_eq.imp_right fun hdone => hwork hdone.1 hdone.2
    · exact Or.inr hdone
  active := by rw [hactive, hstaff]; exact h.active
  closing := by rw [hclose, hresults, hactive]; exact h.closing
  collector := by
    have hbefore := h.collector
    rw [hresults]
    omega
  ending := by rw [hending, hresults]; exact h.ending
  sane := by rw [habort]; exact h.sane

theorem of_alike {jobs' : List Job} (h : Parties workers scan jobs busy) (ha : Alike jobs jobs') :
    Parties workers scan jobs' busy := by
  have hcount := ha.perm.count_eq
  have hcountP := fun p => ha.perm.countP_eq p
  have hworking : working scan jobs' = working scan jobs := by rw [working, working, hcountP]
  exact h.frame rfl rfl (.inl hworking) .intro (by rw [hworking, hcountP]) (by rw [hcount])
    (by rw [hcountP]) (by rw [hcountP]) (by rw [hcount])

/-- The collector asks for a result: it waits, or a worker that waits is relieved. -/
theorem listen (h : Parties workers scan jobs true) (hl : Listen scan next more) :
    Parties workers next (jobs ++ more) false := by
  have hcollector := h.collector
  simp only [Bool.toNat_true] at hcollector
  have hreceivers : scan.results.receivers = [] := List.length_eq_zero_iff.1 (by omega)
  cases hl with
  | @receive worker result senders hsenders =>
    have hopen : scan.results.closed = false :=
      Bool.eq_false_iff.2 fun hclosed => by simp [(h.closed hclosed).2] at hsenders
    have hworking : working { scan with results := { scan.results with senders } }
        (jobs ++ [.ask worker, .collect result]) = working scan jobs := by
      simp [working, hsenders, List.countP_cons]
      omega
    refine ⟨h.capacity, h.buffer, .inl hreceivers, by simp [hopen], ?_, ?_, ?_, ?_, ?_, ?_, ?_⟩
    · rw [hworking]; exact h.working_le
    · rw [hworking]; exact h.working_eq
    · rw [hworking]; simpa [List.countP_cons] using h.active
    · simpa using h.closing
    · simp [hreceivers, List.countP_cons]
      omega
    · simpa [List.countP_cons] using h.ending
    · simpa using h.sane
  | stop hsenders hclosed =>
    refine ⟨h.capacity, h.buffer, .inl hreceivers, h.closed, ?_, ?_, ?_, ?_, ?_, fun _ => hclosed, ?_⟩
    · simpa [working, List.countP_cons] using h.working_le
    · simpa [working, List.countP_cons] using h.working_eq
    · simpa [working, List.countP_cons] using h.active
    · simpa using h.closing
    · simp [List.countP_cons]
      omega
    · simpa using h.sane
  | wait hsenders hopen =>
    rw [List.append_nil]
    refine ⟨h.capacity, h.buffer, .inr hsenders, by simp [hopen], h.working_le, h.working_eq,
      h.active, h.closing, ?_, h.ending, h.sane⟩
    simp
    omega

/-- A worker sends a result: it goes on, or waits for the collector. -/
theorem send {worker : Nat} {result : Finding} (h : Parties workers scan (.ask worker :: jobs) busy)
    (hs : Send scan worker result next more) (hopen : scan.results.closed = false) :
    Parties workers next (jobs ++ more) busy := by
  have hcollector := h.collector
  cases hs with
  | @deliver receiver receivers hreceivers =>
    have hsenders := h.exclusive.resolve_left (by simp [hreceivers])
    refine ⟨h.capacity, h.buffer, .inr hsenders, by simp [hopen], ?_, ?_, ?_, ?_, ?_, ?_, ?_⟩
    · simpa [working, List.countP_cons] using h.working_le
    · simpa [working, List.countP_cons] using h.working_eq
    · simpa [working, List.countP_cons] using h.active
    · simpa using h.closing
    · simp [hreceivers, List.countP_cons] at hcollector ⊢
      omega
    · simpa [List.countP_cons] using h.ending
    · simpa using h.sane
  | wait hreceivers =>
    have hworking : working { scan with
        results := { scan.results with senders := scan.results.senders ++ [(worker, result)] } }
        jobs = working scan (.ask worker :: jobs) := by
      simp [working, List.countP_cons]
      omega
    rw [List.append_nil]
    refine ⟨h.capacity, h.buffer, .inl hreceivers, by simp [hopen], ?_, ?_, ?_, ?_, ?_, ?_, ?_⟩
    · rw [hworking]; exact h.working_le
    · rw [hworking]; exact h.working_eq
    · rw [hworking]; simpa [List.countP_cons] using h.active
    · simpa using h.closing
    · simpa [List.countP_cons] using hcollector
    · simpa [List.countP_cons] using h.ending
    · simpa using h.sane

variable {reporter : Reporter} {prober : Prober} {job : Job}

/-- A worker that goes on does so because there is still something to do. -/
theorem isOpen (h : Parties workers scan (job :: jobs) busy) (hjob : job.isWorking = true) :
    scan.results.closed = false := by
  have hactive := h.active
  have hclosing := h.closing
  rw [working, List.countP_cons_of_pos hjob] at hactive
  rw [if_neg (by omega)] at hclosing
  simpa using (Nat.add_eq_zero_iff.1 hclosing).2

/-- When all workers have returned, the channel of results is open and empty. -/
theorem isOpen_of_close (h : Parties workers scan (.close :: jobs) busy) :
    scan.results.closed = false ∧ scan.results.senders = [] := by
  have hclosing := h.closing
  have hactive := h.active
  rw [List.count_cons_self] at hclosing
  split at hclosing
  · next hzero =>
    rw [hzero, working] at hactive
    refine ⟨?_, List.length_eq_zero_iff.1 (by omega)⟩
    cases hclosed : scan.results.closed with
    | false => rfl
    | true => simp [hclosed] at hclosing
  · omega

/-- As long as results can be sent the scan goes on. -/
theorem going_of_isOpen (h : Parties workers scan jobs busy)
    (hopen : scan.results.closed = false) : scan.result = none := by
  cases hresult : scan.result with
  | none => rfl
  | some result =>
    have hclosed := h.ending (by simp [hresult])
    rw [hopen] at hclosed
    cases hclosed

/-- A worker or the collector goes on before the end only. -/
theorem going (h : Parties workers scan (job :: jobs) busy)
    (hjob : job.isWorking = true ∨ job.isCollector = true) : scan.result = none := by
  rcases hjob with hjob | hjob
  · exact h.going_of_isOpen (h.isOpen hjob)
  · have hcollector := h.collector
    rw [List.countP_cons_of_pos hjob] at hcollector
    cases hresult : scan.result with
    | none => rfl
    | some result =>
      simp only [hresult, Option.isSome_some, Bool.toNat_true] at hcollector
      omega

/-- As long as a probe runs the scan goes on. -/
theorem going_of_running (h : Parties workers scan jobs busy) (hrunning : scan.running ≠ []) :
    scan.result = none := by
  have hpos := List.length_pos_iff.2 hrunning
  have hactive := h.active
  have hclosing := h.closing
  rw [working] at hactive
  rw [if_neg (by omega)] at hclosing
  exact h.going_of_isOpen (by simpa using (Nat.add_eq_zero_iff.1 hclosing).2)

/-- The last of the workers and the producer has returned: the channel of results is to be
    closed. -/
theorem lastReturned (h : Parties workers scan (.returned :: jobs) busy)
    (hlast : scan.active = 1) :
    Parties workers { scan with active := 0 } (jobs ++ [.close]) busy := by
  have hactive := h.active
  have hclosing := h.closing
  simp [working, List.countP_cons, hlast] at hactive
  simp [hlast] at hclosing
  refine ⟨h.capacity, h.buffer, h.exclusive, h.closed, ?_, ?_, ?_, ?_, ?_, ?_, ?_⟩
  · simpa [working, List.countP_cons] using h.working_le
  · simpa [working, List.countP_cons] using h.working_eq
  · simp [working]
    omega
  · simp [hclosing]
  · simpa [List.countP_cons] using h.collector
  · simpa [List.countP_cons] using h.ending
  · simpa using h.sane

/-- One of them has returned, and others have not. -/
theorem returned (h : Parties workers scan (.returned :: jobs) busy) (hmore : scan.active ≠ 1) :
    Parties workers { scan with active := scan.active - 1 } jobs busy := by
  have hactive := h.active
  have hclosing := h.closing
  simp [working, List.countP_cons] at hactive
  rw [if_neg (by omega)] at hclosing
  refine ⟨h.capacity, h.buffer, h.exclusive, h.closed, ?_, ?_, ?_, ?_, ?_, ?_, ?_⟩
  · simpa [working] using h.working_le
  · simpa [working] using h.working_eq
  · simp [working]
    omega
  · rw [if_neg (by simp; omega)]
    simpa using hclosing
  · simpa using h.collector
  · simpa using h.ending
  · simpa using h.sane

/-- The channel of results is closed: a collector that waits is told so. -/
theorem close (h : Parties workers scan (.close :: jobs) busy)
    (hsenders : scan.results.senders = []) :
    Parties workers
      { scan with
        results := { scan.results with closed := true, receivers := [], senders := [] } }
      (jobs ++ List.replicate scan.results.receivers.length .stop) busy := by
  obtain ⟨hopen, -⟩ := h.isOpen_of_close
  have hclosing := h.closing
  have hcollector := h.collector
  have hworking : working
      { scan with
        results := { scan.results with closed := true, receivers := [], senders := [] } }
      (jobs ++ List.replicate scan.results.receivers.length .stop)
      = working scan (.close :: jobs) := by
    simp [working, hsenders, List.countP_replicate]
  refine ⟨h.capacity, h.buffer, .inl rfl, fun _ => ⟨rfl, rfl⟩, ?_, ?_, ?_, ?_, ?_, fun _ => rfl,
    ?_⟩
  · rw [hworking]; exact h.working_le
  · rw [hworking]; exact h.working_eq
  · rw [hworking]; simpa [List.countP_replicate] using h.active
  · rw [← hclosing]
    simp [hopen, List.count_replicate]
  · rw [← hcollector]
    simp [List.countP_replicate]
    omega
  · simpa [List.count_replicate] using h.sane

/-- The collector counts a result and asks for the next one.  It is busy in between; it was not
    before, since it is in one place only. -/
theorem collect {result : Finding} (h : Parties workers scan (.collect result :: jobs) busy)
    (hl : Listen (scan.collect reporter result) next more) :
    Parties workers next (jobs ++ more) busy := by
  have hcollector := h.collector
  have hidle : busy = false := by
    cases busy with
    | false => rfl
    | true => simp [List.countP_cons] at hcollector
  subst hidle
  refine Parties.listen ?_ hl
  unfold Scan.collect
  split
  all_goals
    refine h.frame rfl rfl (.inl ?_) .intro ?_ ?_ ?_ ?_ ?_
    all_goals simp [working, List.countP_cons]
    all_goals omega

/-- A job keeps account of the workers and the collector. -/
theorem move {hosts : List String} (hsupply : Supply hosts scan (job :: jobs))
    (h : Parties workers scan (job :: jobs) busy) (hm : Move reporter prober scan job next more) :
    Parties workers next (jobs ++ more) busy := by
  cases hm with
  | @handOver host unsent receiver receivers hunsent hreceivers =>
    refine h.frame rfl rfl (.inl ?_) .intro ?_ ?_ ?_ ?_ ?_
    all_goals simp [working, hreceivers, List.countP_cons]
    all_goals omega
  | store =>
    obtain ⟨hopen, -⟩ := hsupply.isOpen
    refine h.frame rfl rfl (.inl ?_) (by simp [hopen]) ?_ ?_ ?_ ?_ ?_
    all_goals simp [working, List.countP_cons]
  | finish hunsent =>
    obtain ⟨hopen, -⟩ := hsupply.isOpen
    refine h.frame rfl rfl ?_ (by simp [hopen]) ?_ ?_ ?_ ?_ ?_
    · by_cases hreceivers : scan.work.receivers = []
      · exact .inl (by simp [working, hreceivers])
      · exact .inr ⟨by simp [working, List.countP_replicate], rfl, hsupply.receivers hreceivers⟩
    all_goals simp [working, List.countP_cons, List.countP_replicate, List.count_replicate]
    all_goals omega
  | start | queue =>
    refine h.frame rfl rfl (.inl ?_) .intro ?_ ?_ ?_ ?_ ?_
    all_goals simp [working, List.countP_cons]
    all_goals omega
  | leave | stop =>
    refine h.frame rfl rfl (.inl ?_) .intro ?_ ?_ ?_ ?_ ?_
    all_goals simp [working, List.countP_cons]
  | throw _ hs =>
    have hopen := h.isOpen rfl
    refine Parties.send ?_ hs hopen
    refine h.frame rfl rfl (.inl ?_) .intro ?_ ?_ ?_ ?_ ?_
    all_goals simp [working, List.countP_cons]
  | forward hs =>
    have hopen := h.isOpen rfl
    refine Parties.send ?_ hs hopen
    refine h.frame rfl rfl (.inl ?_) .intro ?_ ?_ ?_ ?_ ?_
    all_goals simp [working, List.countP_cons]
  | serve hbuffer =>
    refine h.frame rfl rfl (.inl ?_) (by simp [hbuffer]) ?_ ?_ ?_ ?_ ?_
    all_goals simp [working, List.countP_cons]
  | dismiss hbuffer hclosed =>
    refine h.frame rfl rfl (.inr ⟨?_, hclosed, hbuffer⟩) .intro ?_ ?_ ?_ ?_ ?_
    all_goals simp [working, List.countP_cons]
    all_goals omega
  | collect hl => exact h.collect hl
  | lastReturned hlast => exact h.lastReturned hlast
  | returned hmore => rw [List.append_nil]; exact h.returned hmore
  | close hsenders => exact h.close hsenders
  | conclude =>
    obtain ⟨result, told, notices, heq⟩ := conclude_eq scan reporter
    rw [heq]
    have hgoing := h.going (.inr rfl)
    refine h.frame rfl rfl (.inl ?_) .intro ?_ ?_ ?_ ?_ ?_
    all_goals simp [working, List.countP_cons, hgoing]

/-- A probe that ends leaves its worker with the outcome. -/
theorem settle {outcome : Outcome} {probing : Probing}
    (h : Parties workers scan jobs busy) (hmem : probing ∈ scan.running) :
    Parties workers
      { scan with
        running := scan.running.erase probing
        endings := scan.endings ++ [(probing, outcome)] }
      (jobs ++ [.forward probing.worker probing.host outcome]) busy := by
  have hlength := List.length_erase_of_mem hmem
  have hpos := List.length_pos_of_mem hmem
  have hworking : working
      { scan with
        running := scan.running.erase probing
        endings := scan.endings ++ [(probing, outcome)] }
      (jobs ++ [.forward probing.worker probing.host outcome]) = working scan jobs := by
    simp [working, hlength, List.countP_cons]
    omega
  exact h.frame rfl rfl (.inl hworking) .intro
    (by rw [hworking]; simp) (by simp)
    (by simp) (by simp) (by simp)

end Parties

end ServedChain.Scan
