import RookieMac.Proofs.Broadcast

/-!
# One pass of the poll loop

The second loop reads the slots `poll` has reported, in order, up to one whose read returns nothing,
and no more of them than the counter says. The counter starts at the number of slots reported and is
lowered by one for the listening socket, be it among them or not; where it is not, one client too
few may be read. The first loop runs past the table where no slot is free.
-/

namespace RookieMac.Pi

open CMem Runs UpTo

/-- The slots past `maxi` are free, and nothing has been reported for them. -/
structure Tidy (s : PollState) : Prop where
  free : ∀ i : Fin maxClient, s.maxi < i.val → (s.client i).fd < 0
  quiet : ∀ i : Fin maxClient, s.maxi < i.val → ¬ (s.client i).ready

/-- The read of the slot returns nothing: the second loop leaves after it. -/
def hangsUp (w : WakeUp) (i : Fin maxClient) : Bool := (w.read i).isEmpty

/-- The clients that are ready. -/
def readyClients (s : PollState) : List (Fin maxClient) :=
  (slotsTo maxClient).filter fun i => (s.client i).ready

/-- The slots to be read: each client that is ready, up to the first whose read returns nothing. -/
def due (s : PollState) (w : WakeUp) : List (Fin maxClient) := upTo (hangsUp w) (readyClients s)

/-- What a wake-up has to be like for the pass to read the slots it is to read. Where the pass ends
before the slot loop no client may be ready; where it does not the slot loop has to find a free
slot, and there is a new connection, or no client is ready, or more slots are reported than there
are clients ready, or a client before the last one that is ready hangs up. -/
def ServesAll (s : PollState) (w : WakeUp) : Prop :=
  let ready := readyClients (poll s w.poll)
  if Calls s w ∧ w.accept < 0 then ready = []
  else (∃ i : Fin maxClient, 1 ≤ i.val ∧ (s.client i).fd < 0)
    ∧ (Calls s w ∨ ready = [] ∨ (ready.length : ℤ) < (poll s w.poll).nReady
      ∨ ∃ i ∈ ready.dropLast, hangsUp w i = true)

instance (s : PollState) (w : WakeUp) : Decidable (ServesAll s w) :=
  inferInstanceAs (Decidable (if _ ∧ _ then _ else _ ∧ (_ ∨ _ ∨ _ ∨ _)))

section Serve

variable {s : PollState} {w : WakeUp}

theorem serve_reads (w : WakeUp) : ∀ (is : List (Fin maxClient)) (s : PollState), 0 < s.nReady →
    (serve w is s).2 = (upTo (hangsUp w)
      (is.filter fun i => 0 ≤ (s.client i).fd ∧ (s.client i).ready)).take s.nReady.toNat
  | [], _, _ => by simp [serve, upTo]
  | i :: is, s, hn => by
    obtain ⟨n, hnat⟩ : ∃ n, s.nReady.toNat = n + 1 := ⟨s.nReady.toNat - 1, by omega⟩
    by_cases hread : 0 ≤ (s.client i).fd ∧ (s.client i).ready
    · have hfd := hread.1
      have hready := hread.2
      rw [List.filter_cons_of_pos (by simpa using hread), hnat, serve, if_neg (not_lt.2 hfd),
        if_pos hready]
      split
      · rename_i hnil
        rw [upTo_cons_pos (by rw [hangsUp, hnil]; rfl), List.take_succ_cons, List.take_nil]
      · rename_i hdata
        rw [upTo_cons_neg (by rw [hangsUp]; simpa using hdata), List.take_succ_cons]
        simp only
        split_ifs with hle
        · obtain rfl : n = 0 := by omega
          rw [List.take_zero]
        · have ih := serve_reads w is
            { s with queue := cliCommSscRead (w.mem i) s.queue (w.read i), nReady := s.nReady - 1 }
            (by simpa using hle)
          have hn' : (s.nReady - 1).toNat = n := by omega
          simp only [hn'] at ih
          rw [ih]
    · have hskip : serve w (i :: is) s = serve w is s := by
        rw [serve]
        split_ifs with hfd hready
        · rfl
        · exact absurd ⟨not_lt.1 hfd, hready⟩ hread
        · rfl
      rw [List.filter_cons_of_neg (by simpa using hread), hskip, serve_reads w is s hn]

theorem Tidy.of_ready (h : Tidy s) (hp : w.poll ≠ none) {i : Fin maxClient}
    (hr : ((poll s w.poll).client i).ready) :
    0 ≤ ((poll s w.poll).client i).fd ∧ i.val ≤ (poll s w.poll).maxi := by
  obtain ⟨found, hfound⟩ := Option.ne_none_iff_exists'.1 hp
  rw [poll_fd, (poll_maxi s w.poll).1]
  rw [hfound] at hr
  simp only [poll] at hr
  split_ifs at hr with hi hfd
  · exact absurd hr (by simp [Pollfd.ready])
  · exact ⟨not_lt.1 hfd, hi⟩
  · exact absurd hr (h.quiet i (not_le.1 hi))

/-- No more clients are ready than slots are reported, and one less where the listening socket is
among these. -/
theorem Tidy.length_ready (h : Tidy s) (hp : w.poll ≠ none) :
    ((readyClients (poll s w.poll)).length : ℤ) + (if Calls s w then 1 else 0)
      ≤ (poll s w.poll).nReady := by
  obtain ⟨found, hfound⟩ := Option.ne_none_iff_exists'.1 hp
  have hslots : List.finRange maxClient = 0 :: slotsTo maxClient := by decide
  have hsub : ∀ i ∈ List.finRange maxClient, decide ((poll s w.poll).client i).ready = true →
      decide (i.val ≤ s.maxi ∧ ((poll s w.poll).client i).revents ≠ 0) = true := by
    intro i _ hr
    rw [decide_eq_true_eq] at hr ⊢
    refine ⟨(poll_maxi s w.poll).1 ▸ (h.of_ready hp hr).2, fun h0 => hr ?_⟩
    rw [h0]
    rfl
  have hcount := List.countP_mono_left hsub
  have hn : (poll s w.poll).nReady = ((List.finRange maxClient).countP fun i =>
      i.val ≤ s.maxi ∧ ((poll s w.poll).client i).revents ≠ 0 : ℕ) := by
    rw [List.countP_eq_length_filter, hfound]
    rfl
  rw [hn]
  nth_rewrite 1 [hslots] at hcount
  rw [List.countP_cons, List.countP_eq_length_filter] at hcount
  simp only [decide_eq_true_eq] at hcount
  unfold readyClients
  by_cases hc : ((poll s w.poll).client 0).ready
  · rw [if_pos hc] at hcount
    rw [if_pos (show Calls s w from hc)]
    omega
  · rw [if_neg hc] at hcount
    rw [if_neg (show ¬ Calls s w from hc)]
    omega

/-- What the slot loop fills is not ready, so the ready clients are those before. -/
theorem readable_filled (hready : ∀ i, (s.client i).ready → 0 ≤ (s.client i).fd ∧ i.val ≤ s.maxi)
    {i : Fin maxClient} (hi : (s.client i).fd < 0) :
    ((slotsTo (s.filled i).maxi).filter fun j =>
      0 ≤ ((s.filled i).client j).fd ∧ ((s.filled i).client j).ready) = readyClients s := by
  unfold readyClients slotsTo
  rw [List.filter_filter, List.filter_filter]
  refine List.filter_congr fun j _ => ?_
  have hmax : (s.filled i).maxi = max s.maxi i.val := rfl
  have hlt := j.isLt
  rw [← Bool.decide_and, ← Bool.decide_and, decide_eq_decide, hmax]
  by_cases hr : (s.client j).ready
  · obtain ⟨h0, hj⟩ := hready j hr
    have hji : j ≠ i := by
      rintro rfl
      omega
    have hsame : (s.filled i).client j = s.client j := Function.update_of_ne hji _ _
    rw [hsame]
    refine ⟨fun h => ⟨hr, h.2.1, hlt.le⟩, fun h => ⟨⟨h0, hr⟩, h.2.1, hj.trans (le_max_left _ _)⟩⟩
  · have hnr : ¬ ((s.filled i).client j).ready := by
      rcases eq_or_ne j i with rfl | hji
      · simpa [PollState.filled, Pollfd.ready] using hr
      · have hsame : (s.filled i).client j = s.client j := Function.update_of_ne hji _ _
        rwa [hsame]
    exact iff_of_false (fun h => hnr h.1.2) fun h => hr h.1

theorem assign_reads (hready : ∀ i, (s.client i).ready → 0 ≤ (s.client i).fd ∧ i.val ≤ s.maxi)
    (w : WakeUp) {i : Fin maxClient} (hi : freeSlot s.client = some i) :
    ∃ s', assign w s = .ok (s', (due s w).take (s.nReady - 1).toNat) := by
  have hn : (s.filled i).nReady = s.nReady - 1 := rfl
  rw [assign_some hi]
  split_ifs with hle
  · have h0 : (s.nReady - 1).toNat = 0 := by omega
    exact ⟨s.filled i, by rw [h0, List.take_zero]⟩
  · have hreads := serve_reads w (slotsTo (s.filled i).maxi) (s.filled i) (not_le.1 hle)
    rw [readable_filled hready (freeSlot_some hi).2, hn] at hreads
    exact ⟨_, congrArg Except.ok (Prod.ext rfl hreads)⟩

end Serve

/-! ## Which passes serve every client -/

section Pass

variable {s : PollState} {w : WakeUp}

theorem freeSlot_poll (s : PollState) (w : WakeUp) :
    (∃ i, freeSlot (poll s w.poll).client = some i)
      ↔ ∃ i : Fin maxClient, 1 ≤ i.val ∧ (s.client i).fd < 0 := by
  constructor
  · rintro ⟨i, hi⟩
    obtain ⟨h1, hfd⟩ := freeSlot_some hi
    rw [poll_fd] at hfd
    exact ⟨i, h1, hfd⟩
  · rintro ⟨i, h1, hfd⟩
    rcases hfree : freeSlot (poll s w.poll).client with _ | j
    · have hall := freeSlot_eq_none.1 hfree i h1
      rw [poll_fd] at hall
      exact absurd hfd (not_lt.2 hall)
    · exact ⟨j, rfl⟩

theorem due_eq_nil : due s w = [] ↔ readyClients s = [] := by
  unfold due
  rcases readyClients s with _ | ⟨i, is⟩
  · simp [upTo]
  · unfold upTo
    split_ifs <;> simp

/-- Past the call of `accept` the pass is the slot loop and what comes after it, on the table `poll`
has left. -/
theorem init_assign (hacc : ¬ (Calls s w ∧ w.accept < 0)) :
    ∃ s₁, cliCommSscInit s w = assign w s₁ ∧ s₁.client = (poll s w.poll).client
      ∧ s₁.maxi = (poll s w.poll).maxi ∧ s₁.nReady = (poll s w.poll).nReady := by
  by_cases hc : Calls s w
  · exact ⟨_, init_accepted hc (not_lt.1 fun h => hacc ⟨hc, h⟩), rfl, rfl, rfl⟩
  · exact ⟨_, init_idle hc, rfl, rfl, rfl⟩

/-- What the pass reads: as many of the slots it is to read as the counter lets it. -/
theorem init_reads (ht : Tidy s) (hp : w.poll ≠ none) (hacc : ¬ (Calls s w ∧ w.accept < 0)) :
    ((∃ i : Fin maxClient, 1 ≤ i.val ∧ (s.client i).fd < 0) ∧ ∃ s', cliCommSscInit s w
        = .ok (s', (due (poll s w.poll) w).take ((poll s w.poll).nReady - 1).toNat))
      ∨ (¬ ∃ i : Fin maxClient, 1 ≤ i.val ∧ (s.client i).fd < 0)
        ∧ cliCommSscInit s w = .error .outOfBounds := by
  obtain ⟨s₁, hinit, hclient, hmaxi, hn⟩ := init_assign hacc
  have hdue : due s₁ w = due (poll s w.poll) w := by
    rw [due, due, readyClients, readyClients, hclient]
  rw [hinit, ← freeSlot_poll, ← hclient, ← hdue, ← hn]
  rcases hfree : freeSlot s₁.client with _ | i
  · refine .inr ⟨by simp, ?_⟩
    rw [assign, hfree]
  · refine .inl ⟨⟨i, rfl⟩, assign_reads (fun j hj => ?_) w hfree⟩
    rw [hclient] at hj ⊢
    rw [hmaxi]
    exact ht.of_ready hp hj

/-- With a budget of one less than `n`, which is enough for the list, or for one more in the case
`c`, a loop over it is left for want of budget unless this is so. -/
theorem budget_iff {α : Type*} {p : α → Bool} {l : List α} {n : ℤ} {c : Prop} [Decidable c]
    (hlen : (l.length : ℤ) + (if c then 1 else 0) ≤ n) :
    (l.length ≤ (n - 1).toNat ∨ ∃ a ∈ l.take (n - 1).toNat, p a = true)
      ↔ c ∨ l = [] ∨ (l.length : ℤ) < n ∨ ∃ a ∈ l.dropLast, p a = true := by
  by_cases hlt : (l.length : ℤ) < n
  · exact iff_of_true (.inl (by omega)) (.inr (.inr (.inl hlt)))
  · have hc : ¬ c := fun hc => by
      rw [if_pos hc] at hlen
      omega
    rw [if_neg hc] at hlen
    rcases eq_or_ne l [] with rfl | hl
    · exact iff_of_true (.inl (Nat.zero_le _)) (.inr (.inl rfl))
    · have hpos := List.length_pos_of_ne_nil hl
      have hn : (n - 1).toNat = l.length - 1 := by omega
      have hle : ¬ l.length ≤ l.length - 1 := by omega
      rw [hn, ← List.dropLast_eq_take]
      simp only [hle, hc, hl, hlt, false_or]

/-- For every table whose slots past `maxi` are free, and every answer of `poll`: the pass reads
each client that is ready once, in order, up to the first whose read returns nothing, and no other
slot, exactly when the wake-up is as `ServesAll` says. -/
theorem pass_serves_iff (ht : Tidy s) (hp : w.poll ≠ none) :
    (∃ s', cliCommSscInit s w = .ok (s', due (poll s w.poll) w)) ↔ ServesAll s w := by
  have hlen := ht.length_ready hp
  unfold ServesAll
  simp only
  split_ifs with hacc
  · rw [init_failed hacc.1 hacc.2, ← due_eq_nil]
    constructor
    · rintro ⟨s', h⟩
      exact (Prod.mk.inj (Except.ok.inj h)).2.symm
    · intro h
      rw [h]
      exact ⟨_, rfl⟩
  · rcases init_reads ht hp hacc with ⟨hfree, s', hr⟩ | ⟨hfull, hr⟩
    · rw [hr, and_iff_right hfree, ← budget_iff hlen, ← length_upTo_le, ← List.take_eq_self_iff]
      constructor
      · rintro ⟨s'', h⟩
        exact (Prod.mk.inj (Except.ok.inj h)).2
      · intro h
        exact ⟨s', congrArg Except.ok (Prod.ext rfl h)⟩
    · rw [hr]
      refine iff_of_false ?_ fun h => hfull h.1
      rintro ⟨s', h⟩
      cases h

/-- A connection is made while the one of slot 1 closes. -/
theorem pass_serves_iff_both :
    let s : PollState := { atRest with
      client := fun i => if i = 1 then ⟨4, pollin, 0⟩ else atRest.client i, maxi := 1 }
    ∃ s', cliCommSscInit s wakeBoth = .ok (s', [1]) := by
  intro s
  have ht : Tidy s := ⟨by decide, by decide⟩
  have hp : wakeBoth.poll ≠ none := by decide
  have hdue : due (poll s wakeBoth.poll) wakeBoth = [1] := by decide
  rw [← hdue]
  exact (pass_serves_iff ht hp).2 (by decide)

end Pass

/-! ## The tables of a run -/

section Run

variable {s s' : PollState} {w : WakeUp}

theorem Tidy.mono (h : Tidy s) (hmaxi : s.maxi ≤ s'.maxi) (hclient : ∀ i : Fin maxClient,
    s'.maxi < i.val → ((s'.client i).fd = (s.client i).fd ∨ (s'.client i).fd < 0)
      ∧ ((s'.client i).ready → (s.client i).ready)) : Tidy s' where
  free := fun i hi => by
    rcases (hclient i hi).1 with he | hlt
    · rw [he]
      exact h.free i (hmaxi.trans_lt hi)
    · exact hlt
  quiet := fun i hi hr => h.quiet i (hmaxi.trans_lt hi) ((hclient i hi).2 hr)

theorem Tidy.poll (h : Tidy s) (found : Option (Fin maxClient → BitVec 16)) :
    Tidy (poll s found) := by
  refine h.mono (poll_maxi s found).1.ge fun i hi => ⟨.inl (poll_fd s found i), fun hr => ?_⟩
  rw [(poll_maxi s found).1] at hi
  rcases found with _ | found
  · exact hr
  · simpa only [Pi.poll, if_neg (not_le.2 hi)] using hr

theorem Tidy.assign (h : Tidy s) {r : PollState × List (Fin maxClient)}
    (hr : assign w s = .ok r) : Tidy r.1 := by
  rcases hfree : freeSlot s.client with _ | i
  · rw [Pi.assign, hfree] at hr
    cases hr
  have hfilled : Tidy (s.filled i) := by
    refine h.mono (le_max_left _ _) fun j hj => ?_
    have hji : j ≠ i := by
      rintro rfl
      exact absurd hj (not_lt.2 (le_max_right _ _))
    have hsame : (s.filled i).client j = s.client j := Function.update_of_ne hji _ _
    rw [hsame]
    exact ⟨.inl rfl, id⟩
  rw [assign_some hfree] at hr
  split_ifs at hr
  · exact Except.ok.inj hr ▸ hfilled
  · obtain rfl := Except.ok.inj hr
    obtain ⟨hmaxi, ⟨hclient, -⟩ | ⟨k, -, -, -, hclient, -⟩⟩ :=
      serve_spec w (slotsTo (s.filled i).maxi) (s.filled i)
    · refine hfilled.mono hmaxi.ge fun j _ => ?_
      rw [hclient]
      exact ⟨.inl rfl, id⟩
    · refine hfilled.mono hmaxi.ge fun j _ => ?_
      rw [hclient]
      rcases eq_or_ne j k with rfl | hjk
      · rw [Function.update_self]
        exact ⟨.inr (by simp), id⟩
      · rw [Function.update_of_ne hjk]
        exact ⟨.inl rfl, id⟩

theorem Tidy.next (h : Tidy s) {r : PollState × List (Fin maxClient)}
    (hr : cliCommSscInit s w = .ok r) : Tidy r.1 := by
  have h₁ := h.poll w.poll
  have hacc : Tidy ((Pi.poll s w.poll).accepted w.accept) := ⟨h₁.free, h₁.quiet⟩
  simp only [cliCommSscInit] at hr
  split_ifs at hr
  · exact Except.ok.inj hr ▸ hacc
  · exact hacc.assign hr
  · exact h₁.assign hr

theorem Tidy.listening (sockFd tmp : ℤ) (queue : PiState × List U8) :
    Tidy (.listening sockFd tmp queue) := by
  have hne : ∀ i : Fin maxClient, 0 < i.val → i ≠ 0 := by
    rintro i hi rfl
    exact absurd hi (lt_irrefl _)
  refine ⟨fun i hi => ?_, fun i hi => ?_⟩
  · simp [PollState.listening, hne i hi]
  · simp [PollState.listening, hne i hi, Pollfd.ready]

theorem pollStep_eq_ok {s' : Except PollFault PollState} (h : pollStep (.ok s) w = some s') :
    (cliCommSscInit s w).map Prod.fst = s' := by
  simp only [pollStep] at h
  split_ifs at h
  exact Option.some.inj h

/-- In every run, whatever has happened in it, the slots past `maxi` are free. -/
theorem Tidy.of_path {sockFd tmp : ℤ} {queue : PiState × List U8} {es : List WakeUp}
    (hp : Path pollStep (.ok (.listening sockFd tmp queue)) es (.ok s)) : Tidy s := by
  refine hp.history (I := fun _ s => ∀ s₁, s = .ok s₁ → Tidy s₁) ?_ [] ?_ s rfl
  · rintro pre (fault | s) w s' h hs s₁ rfl
    · cases hs
    · have hr := pollStep_eq_ok hs
      rcases hr' : cliCommSscInit s w with fault | r
      · rw [hr'] at hr
        cases hr
      · rw [hr'] at hr
        exact Except.ok.inj hr ▸ (h s rfl).next hr'
  · intro s₁ hs
    exact Except.ok.inj hs ▸ .listening sockFd tmp queue

/-- One client is connected, and sends: nothing is read. -/
theorem pass_skips : ∃ s s', Path pollStep (.ok atRest) [wakeAccept 4] (.ok s)
    ∧ Possible s (wakeData [0]) ∧ due (poll s (wakeData [0]).poll) (wakeData [0]) = [1]
    ∧ cliCommSscInit s (wakeData [0]) = .ok (s', []) := by
  refine ⟨_, _, .cons (pollStep_ok ?_ rfl) (.nil _), ?_, ?_, rfl⟩
  all_goals decide

end Run

end RookieMac.Pi
