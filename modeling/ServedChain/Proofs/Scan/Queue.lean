/-
  The order in which the jobs of a scan come up.

  A job comes up before those that let more rounds pass, and jobs that let the same
  number pass come up in their order in the queue.  To let others pass once more
  changes nothing in that (`turn_rotate`).  Among jobs that start with the same
  number of rounds the first one put into the queue comes up first
  (`turn_append_alike`).
-/
import ServedChain.Scan.Run

namespace ServedChain.Scan

/-! ## Jobs of a kind -/

/-- The host that a worker received. -/
def Job.host? : Job → Option String
  | probe _ host => some host
  | _ => none

/-- The result that the collector received. -/
def Job.result? : Job → Option Finding
  | collect result => some result
  | _ => none

/-- What a probe came to, and its host. -/
def Job.outcome? : Job → Option (Outcome × String)
  | forward _ host outcome => some (outcome, host)
  | _ => none

theorem Job.delay_le (job : Job) : job.delay ≤ 2 := by
  cases job <;> simp [delay]

/-- The jobs that start with a number of rounds, in order. -/
def lane (rounds : Nat) (jobs : List Job) : List Job := jobs.filter (·.delay = rounds)

/-- Two lists of jobs agree on the jobs of each number of rounds. -/
def Alike (jobs jobs' : List Job) : Prop := ∀ rounds, lane rounds jobs = lane rounds jobs'

namespace Alike
variable {jobs jobs' : List Job} (h : Alike jobs jobs')
include h

theorem filterMap_eq {α : Type} (rounds : Nat) {f : Job → Option α}
    (hf : ∀ job, f job ≠ none → job.delay = rounds) : jobs.filterMap f = jobs'.filterMap f := by
  have hlane : ∀ jobs : List Job, (lane rounds jobs).filterMap f = jobs.filterMap f := by
    intro jobs
    rw [lane, List.filterMap_filter]
    congr 1
    funext job
    by_cases hjob : f job = none
    · simp [hjob]
    · simp [hf job hjob]
  rw [← hlane, h rounds, hlane]

theorem hosts_eq : jobs.filterMap Job.host? = jobs'.filterMap Job.host? :=
  h.filterMap_eq 2 fun job hjob => by cases job <;> first | rfl | exact absurd rfl hjob

theorem results_eq : jobs.filterMap Job.result? = jobs'.filterMap Job.result? :=
  h.filterMap_eq 2 fun job hjob => by cases job <;> first | rfl | exact absurd rfl hjob

theorem outcomes_eq : jobs.filterMap Job.outcome? = jobs'.filterMap Job.outcome? :=
  h.filterMap_eq 0 fun job hjob => by cases job <;> first | rfl | exact absurd rfl hjob

theorem perm : jobs.Perm jobs' := by
  refine List.perm_iff_count.2 fun job => ?_
  have hlane : ∀ jobs : List Job, (lane job.delay jobs).count job = jobs.count job :=
    fun jobs => List.count_filter (by simp)
  rw [← hlane, h job.delay, hlane]

omit h in
theorem refl (jobs : List Job) : Alike jobs jobs := fun _ => rfl

theorem trans {jobs'' : List Job} (h' : Alike jobs' jobs'') : Alike jobs jobs'' :=
  fun rounds => (h rounds).trans (h' rounds)

theorem append {more more' : List Job} (hmore : Alike more more') :
    Alike (jobs ++ more) (jobs' ++ more') := by
  intro rounds
  have hlane := h rounds
  have hlane' := hmore rounds
  simp only [lane, List.filter_append] at hlane hlane' ⊢
  rw [hlane, hlane']

end Alike

/-! ## The queue -/

/-- The jobs that still let a number of rounds pass. -/
def part (rounds : Nat) (queue : List (Nat × Job)) : List Job :=
  (queue.filter (·.1 = rounds)).map Prod.snd

/-- The jobs of a queue in the order in which they come up if none is added. -/
def turn (queue : List (Nat × Job)) : List Job := part 0 queue ++ part 1 queue ++ part 2 queue

/-- No job lets more rounds pass than it did at first. -/
def Timely (queue : List (Nat × Job)) : Prop := ∀ entry ∈ queue, entry.1 ≤ entry.2.delay

theorem turn_cons_zero (job : Job) (queue : List (Nat × Job)) :
    turn ((0, job) :: queue) = job :: turn queue := by
  simp [turn, part]

/-- To let others pass once more does not change the order. -/
theorem turn_rotate {rounds : Nat} {job : Job} {queue : List (Nat × Job)}
    (h : Timely ((rounds + 1, job) :: queue)) :
    turn (queue ++ [(rounds, job)]) = turn ((rounds + 1, job) :: queue) := by
  have hrounds : rounds + 1 ≤ 2 := Nat.le_trans (h _ List.mem_cons_self) job.delay_le
  obtain rfl | rfl : rounds = 0 ∨ rounds = 1 := by omega
  · simp [turn, part]
  · simp [turn, part]

theorem timely_rotate {rounds : Nat} {job : Job} {queue : List (Nat × Job)}
    (h : Timely ((rounds + 1, job) :: queue)) : Timely (queue ++ [(rounds, job)]) := by
  intro entry hentry
  rcases List.mem_append.1 hentry with hentry | hentry
  · exact h entry (List.mem_cons_of_mem _ hentry)
  · rw [List.mem_singleton.1 hentry]
    exact Nat.le_of_succ_le (h _ List.mem_cons_self)

/-- Jobs that let more rounds pass than those of a lane are not in it. -/
theorem lane_part_of_lt {queue : List (Nat × Job)} (h : Timely queue) {lower rounds : Nat}
    (hlt : lower < rounds) : lane lower (part rounds queue) = [] := by
  refine List.filter_eq_nil_iff.2 fun job hjob => ?_
  obtain ⟨entry, hentry, rfl⟩ := List.mem_map.1 hjob
  obtain ⟨hmem, hrounds⟩ := List.mem_filter.1 hentry
  have hdelay := h entry hmem
  simp only [decide_eq_true_eq] at hrounds ⊢
  omega

theorem lane_append (rounds : Nat) (jobs jobs' : List Job) :
    lane rounds (jobs ++ jobs') = lane rounds jobs ++ lane rounds jobs' := List.filter_append ..

theorem part_append_singleton (rounds : Nat) (queue : List (Nat × Job)) (job : Job) :
    part rounds (queue ++ [(job.delay, job)]) = part rounds queue ++ lane rounds [job] := by
  rw [part, List.filter_append, List.map_append, part, lane]
  by_cases h : job.delay = rounds <;> simp [h]

/-- Among jobs that start with the same number of rounds a new one comes up last. -/
theorem turn_append_alike {queue : List (Nat × Job)} (h : Timely queue) (job : Job) :
    Alike (turn (queue ++ [(job.delay, job)])) (turn queue ++ [job]) := by
  intro rounds
  have hown : ∀ n, n ≠ rounds → lane rounds (lane n [job]) = [] := by
    intro n hn
    rw [lane, lane, List.filter_filter, List.filter_eq_nil_iff]
    intro j _
    simp only [Bool.and_eq_true, decide_eq_true_eq]
    omega
  have hsame : lane rounds (lane rounds [job]) = lane rounds [job] := by
    rw [lane, lane, List.filter_filter]
    simp
  simp only [turn, part_append_singleton, lane_append]
  match rounds with
  | 0 => simp [hsame, hown 1, hown 2, lane_part_of_lt h]
  | 1 => simp [hsame, hown 0, hown 2, lane_part_of_lt h]
  | 2 => simp [hsame, hown 0, hown 1]
  | n + 3 =>
    have hjob : lane (n + 3) [job] = [] := by
      have := job.delay_le
      exact List.filter_eq_nil_iff.2 fun j hj => by
        rw [List.mem_singleton.1 hj, decide_eq_true_eq]
        omega
    simp [hown 0, hown 1, hown 2, hjob]

theorem timely_append {queue : List (Nat × Job)} (h : Timely queue) (job : Job) :
    Timely (queue ++ [(job.delay, job)]) := by
  intro entry hentry
  rcases List.mem_append.1 hentry with hentry | hentry
  · exact h entry hentry
  · cases List.mem_singleton.1 hentry
    exact Nat.le_refl _

/-- A queue in which no job comes up is empty. -/
theorem eq_nil_of_turn_eq_nil {queue : List (Nat × Job)} (h : Timely queue)
    (hturn : turn queue = []) : queue = [] := by
  refine List.eq_nil_iff_forall_not_mem.2 fun entry hentry => ?_
  have hle : entry.1 ≤ 2 := Nat.le_trans (h entry hentry) entry.2.delay_le
  have hmem : ∀ rounds, entry.1 = rounds → entry.2 ∈ part rounds queue := fun rounds hrounds =>
    List.mem_map.2 ⟨entry, List.mem_filter.2 ⟨hentry, by simpa using hrounds⟩, rfl⟩
  have hall : entry.2 ∈ turn queue := by
    unfold turn
    simp only [List.mem_append]
    obtain hrounds | hrounds | hrounds : entry.1 = 0 ∨ entry.1 = 1 ∨ entry.1 = 2 := by omega
    · exact .inl (.inl (hmem 0 hrounds))
    · exact .inl (.inr (hmem 1 hrounds))
    · exact .inr (hmem 2 hrounds)
  rw [hturn] at hall
  cases hall

/-! ## Several jobs -/

theorem foldl_enqueue (scan : Scan) (jobs : List Job) :
    jobs.foldl enqueue scan
      = { scan with jobs := scan.jobs ++ jobs.map fun job => (job.delay, job) } := by
  induction jobs generalizing scan with
  | nil => simp
  | cons job jobs ih => rw [List.foldl_cons, ih, enqueue]; simp

/-- Several jobs put into the queue come up behind all of their kinds. -/
theorem turn_foldl_enqueue_alike {scan : Scan} (h : Timely scan.jobs) (jobs : List Job) :
    Timely (jobs.foldl enqueue scan).jobs
      ∧ Alike (turn (jobs.foldl enqueue scan).jobs) (turn scan.jobs ++ jobs) := by
  induction jobs generalizing scan with
  | nil => exact ⟨h, by rw [List.append_nil]; exact Alike.refl _⟩
  | cons job jobs ih =>
    obtain ⟨htimely, hrest⟩ := @ih (scan.enqueue job) (timely_append h job)
    refine ⟨htimely, hrest.trans ?_⟩
    rw [show turn scan.jobs ++ job :: jobs = turn scan.jobs ++ [job] ++ jobs by simp]
    exact (turn_append_alike h job).append (Alike.refl jobs)

end ServedChain.Scan
