/-
  Encrypted records that a tap holds are opened like those that come once it has
  the keys.

  * `foldl_takeRecord_of_suite`: a tap with the secret opens the records one by one;
  * `foldl_takeRecord_of_no_secret`: one without it holds them;
  * `supplySecret_foldl_takeRecord`: hence a secret can come before them as well as
    behind them.
-/
import ServedChain.Proofs.Tls.Reassembly

namespace ServedChain.Tls.Tap

/-! ## Records under encryption -/

/-- A record of which a tap at TLS 1.3 takes in at most what it hides. -/
def IsHidden (record : Record) : Prop :=
  record.type = .applicationData ∨ record.type = .changeCipherSpec

/-- The encrypted records among some. -/
def hidden (records : List Record) : List Record := records.filter (·.type = .applicationData)

theorem takeRecord_of_changeCipherSpec {tap : Tap} (hv : tap.version = .tls13) {record : Record}
    (h : record.type = .changeCipherSpec) : tap.takeRecord record = tap := by
  rw [takeRecord, hv, h]
  split <;> rfl

theorem takeRecord_of_applicationData {tap : Tap} (hd : tap.done = false)
    (hv : tap.version = .tls13) {record : Record} (h : record.type = .applicationData) :
    tap.takeRecord record = { tap with held := tap.held ++ [record] }.openHeld := by
  rw [takeRecord, if_neg (by simp [hd]), hv, h]

/-! ## With the keys -/

/-- The tap is at TLS 1.3, has the keys and holds nothing. -/
structure Opening (tap : Tap) : Prop where
  version : tap.version = .tls13
  opener : tap.opener.isSome
  held : tap.held = []

theorem held_takeHandshake {tap : Tap} (h : tap.held = []) (fragment : Bytes) :
    (tap.takeHandshake fragment).held = [] := by
  have hmessages : ∀ messages : List HandshakeMessage,
      (messages.foldl takeMessage tap).held = [] := by
    intro messages
    induction messages generalizing tap with
    | nil => exact h
    | cons message messages ih =>
      refine ih ?_
      simp only [takeMessage, takeServerHello, finishWith, finish]
      grind
  rw [takeHandshake_eq, withHandshake]
  split <;> exact hmessages _

theorem Opening.takeHandshake {tap : Tap} (h : tap.Opening) (fragment : Bytes) :
    (tap.takeHandshake fragment).Opening where
  version := lasting_tls13.takeHandshake tap h.version fragment
  opener := by rw [opener_takeHandshake]; exact h.opener
  held := held_takeHandshake h.held fragment

theorem Opening.openRecord {tap : Tap} (h : tap.Opening) (record : Record) :
    (tap.openRecord record).Opening := by
  rcases hd : tap.done with _ | _
  · obtain ⟨opener, hopener⟩ := Option.isSome_iff_exists.1 h.opener
    have hnext : ∀ opener : Opener, ({ tap with opener := some opener } : Tap).Opening :=
      fun opener => ⟨h.version, rfl, h.held⟩
    rw [Tap.openRecord, if_neg (by simp [hd]), hopener]
    simp only
    split
    · exact ⟨h.version, rfl, rfl⟩
    · unfold takeInner
      split
      · exact (hnext _).takeHandshake _
      · exact ⟨h.version, rfl, rfl⟩
      · exact hnext _
  · rwa [openRecord_of_done hd]

theorem Opening.foldl_openRecord {tap : Tap} (h : tap.Opening) (records : List Record) :
    (records.foldl Tap.openRecord tap).Opening := by
  induction records generalizing tap with
  | nil => exact h
  | cons record records ih => exact ih (h.openRecord record)

theorem takeRecord_of_opening {tap : Tap} (h : tap.Opening) {record : Record}
    (htype : record.type = .applicationData) : tap.takeRecord record = tap.openRecord record := by
  rcases hd : tap.done with _ | _
  · rw [takeRecord_of_applicationData hd h.version htype, openHeld_of_opener _ (by exact h.opener),
      h.held]
    have htap : ({ tap with held := [] } : Tap) = tap := by rw [← h.held]
    exact congrArg (Tap.openRecord · record) htap
  · rw [takeRecord_of_done hd, openRecord_of_done hd]

/-- A tap with the keys opens encrypted records one by one. -/
theorem foldl_takeRecord_of_opening {tap : Tap} (h : tap.Opening) {records : List Record}
    (hrecords : ∀ record ∈ records, IsHidden record) :
    records.foldl takeRecord tap = (hidden records).foldl openRecord tap := by
  induction records generalizing tap with
  | nil => rfl
  | cons record records ih =>
    have hrest : ∀ r ∈ records, IsHidden r := fun r hr => hrecords r (List.mem_cons_of_mem _ hr)
    rcases hrecords record List.mem_cons_self with htype | htype
    · rw [List.foldl_cons, takeRecord_of_opening h htype, ih (h.openRecord record) hrest, hidden,
        hidden, List.filter_cons_of_pos (by simpa using htype), List.foldl_cons]
    · rw [List.foldl_cons, takeRecord_of_changeCipherSpec h.version htype, ih h hrest, hidden,
        hidden, List.filter_cons_of_neg (by simp [htype])]

/-- A tap with a secret and a cipher suite gets the keys when the first encrypted record comes. -/
theorem foldl_takeRecord_of_suite {tap : Tap} (hd : tap.done = false) (hv : tap.version = .tls13)
    (ho : tap.opener = none) {secret : Bytes} (hs : tap.secret = some secret) {code : Nat}
    (hsuite : tap.suite = some code) {suite : CipherSuite}
    (hcode : CipherSuite.ofCode? code = some suite) {records : List Record}
    (h : ∀ record ∈ records, IsHidden record) (hne : hidden records ≠ []) :
    records.foldl takeRecord tap
      = records.foldl takeRecord { tap with opener := some (Opener.ofSecret suite secret) } := by
  induction records with
  | nil => exact absurd rfl hne
  | cons record records ih =>
    rcases h record List.mem_cons_self with htype | htype
    · have hkeys : { tap with held := tap.held ++ [record] }.openHeld
          = { tap with
            opener := some (Opener.ofSecret suite secret),
            held := tap.held ++ [record] }.openHeld := by
        rw [openHeld_of_suite { tap with held := tap.held ++ [record] } ho hs hsuite hcode,
          openHeld_of_opener { tap with
            opener := some (Opener.ofSecret suite secret), held := tap.held ++ [record] } rfl]
      rw [List.foldl_cons, List.foldl_cons, takeRecord_of_applicationData hd hv htype,
        takeRecord_of_applicationData (by exact hd) (by exact hv) htype, hkeys]
    · rw [hidden, List.filter_cons_of_neg (by simp [htype])] at hne
      rw [List.foldl_cons, List.foldl_cons, takeRecord_of_changeCipherSpec hv htype,
        takeRecord_of_changeCipherSpec (by exact hv) htype,
        ih (fun r hr => h r (List.mem_cons_of_mem _ hr)) hne]

/-! ## Without a secret -/

/-- A tap without a secret holds encrypted records. -/
theorem foldl_takeRecord_of_no_secret {tap : Tap} (hd : tap.done = false)
    (hv : tap.version = .tls13) (ho : tap.opener = none) (hs : tap.secret = none)
    {records : List Record} (h : ∀ record ∈ records, IsHidden record) :
    records.foldl takeRecord tap = { tap with held := tap.held ++ hidden records } := by
  induction records generalizing tap with
  | nil => rw [hidden, List.filter_nil, List.append_nil]; rfl
  | cons record records ih =>
    have hrest : ∀ r ∈ records, IsHidden r := fun r hr => h r (List.mem_cons_of_mem _ hr)
    rcases h record List.mem_cons_self with htype | htype
    · have htake : tap.takeRecord record = { tap with held := tap.held ++ [record] } := by
        rw [takeRecord_of_applicationData hd hv htype, openHeld_of_no_secret _ (by exact ho)
          (by exact hs)]
      rw [List.foldl_cons, htake]
      refine (@ih { tap with held := tap.held ++ [record] } hd hv ho hs hrest).trans ?_
      simp only [hidden, List.filter_cons_of_pos (p := fun r : Record => decide (r.type = _))
        (decide_eq_true htype), List.append_assoc, List.singleton_append]
    · rw [List.foldl_cons, takeRecord_of_changeCipherSpec hv htype, ih hd hv ho hs hrest, hidden,
        hidden, List.filter_cons_of_neg (by simp [htype])]

/-! ## Early and late secrets -/

/-- **A secret can come before encrypted records as well as behind them**, once the tap knows of a
    cipher suite. -/
theorem supplySecret_foldl_takeRecord (tap : Tap) (hd : tap.done = false)
    (hv : tap.version = .tls13) (ho : tap.opener = none) (hs : tap.secret = none) {code : Nat}
    (hsuite : tap.suite = some code) (secret : Bytes) {records : List Record}
    (h : ∀ record ∈ records, IsHidden record) :
    (records.foldl takeRecord tap).supplySecret secret
      = records.foldl takeRecord (tap.supplySecret secret) := by
  rw [foldl_takeRecord_of_no_secret hd hv ho hs h]
  rcases hcode : CipherSuite.ofCode? code with _ | suite
  · -- The tap cannot use the secret and ends, whatever it holds
    have hsupply : ∀ held, ({ tap with held } : Tap).supplySecret secret
        = { tap with secret := some secret }.finishWith (.failure (.unsupportedSuite code)) := by
      intro held
      rw [supplySecret, if_neg (by simp [hd])]
      exact openHeld_of_suite_unknown _ ho rfl hsuite hcode
    rw [hsupply, show tap = { tap with held := tap.held } from rfl, hsupply,
      foldl_takeRecord_of_done rfl]
  · have hsupply : ∀ held, ({ tap with held } : Tap).supplySecret secret
        = held.foldl openRecord { tap with
          secret := some secret, opener := some (Opener.ofSecret suite secret), held := [] } := by
      intro held
      rw [supplySecret, if_neg (by simp [hd])]
      exact openHeld_of_suite _ ho rfl hsuite hcode
    have hopening : (tap.held.foldl openRecord { tap with
        secret := some secret, opener := some (Opener.ofSecret suite secret),
        held := [] }).Opening := by
      refine Opening.foldl_openRecord ?_ tap.held
      exact ⟨hv, rfl, rfl⟩
    rw [hsupply, List.foldl_append, show tap.supplySecret secret = _ from hsupply tap.held,
      foldl_takeRecord_of_opening hopening h]

end ServedChain.Tls.Tap
