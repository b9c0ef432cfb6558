import RookieMac.Proofs.PollBounds

/-!
# How long the client table lasts

Every pass that comes to the slot loop uses up a free slot, be there a new connection or not: where
there is none the slot gets the descriptor `accept` returned last once more. Only the end of a
connection gives a slot back, one slot, and not those with copies of its descriptor. So the slots
taken are the open connections and the wake-ups that have brought none, and once these are as many
as the table has slots the next pass leaves it.
-/

namespace RookieMac.Pi

open CMem Runs Slots

/-- The slot loop puts a descriptor into the table that is not that of a new connection. -/
def Again (s : PollState) (w : WakeUp) : Prop := ¬ Calls s w ∧ 0 ≤ s.tmp

instance (s : PollState) (w : WakeUp) : Decidable (Again s w) :=
  inferInstanceAs (Decidable (_ ∧ _))

/-- `poll` finds data on the descriptors of open connections alone: a closed one is not open again
for another part of the program. -/
def Honest (s : PollState) (w : WakeUp) : Prop :=
  w.poll ≠ none → ∀ i : Fin maxClient, 1 ≤ i.val → ((poll s w.poll).client i).ready →
    (s.client i).fd ∈ s.conns

instance (s : PollState) (w : WakeUp) : Decidable (Honest s w) :=
  inferInstanceAs (Decidable (_ → _))

/-- For the events of a run, which stops with a fault. -/
def again : Except PollFault PollState → WakeUp → Prop
  | .error _, _ => False
  | .ok s, w => Again s w

instance : (s : Except PollFault PollState) → (w : WakeUp) → Decidable (again s w)
  | .error _, _ => isFalse id
  | .ok s, w => inferInstanceAs (Decidable (Again s w))

/-- With `n` wake-ups that have brought no connection. -/
structure Account (n : ℕ) (s : PollState) : Prop where
  tidy : Tidy s
  sum : n + s.conns.card = (taken (held s.client)).card

section Pass

variable {s : PollState} {w : WakeUp} {n : ℕ}

/-- The slot loop takes a slot, with a new connection, an old descriptor or none. -/
theorem filled_sum (h : n + s.conns.card = (taken (held s.client)).card) {i : Fin maxClient}
    (hi : freeSlot s.client = some i) {tmp : ℤ} {S : Finset ℤ} {d : ℕ}
    (hd : d + S.card = n + s.conns.card + if 0 ≤ tmp then 1 else 0) :
    d + S.card
      = (taken (held (PollState.filled { s with tmp := tmp, conns := S } i).client)).card := by
  obtain ⟨hi1, hfd⟩ := freeSlot_some hi
  have hnone : held s.client i = none := (held_eq_none hi1).2 hfd
  have hheld : held (PollState.filled { s with tmp := tmp, conns := S } i).client = _ :=
    held_update s.client { s.client i with fd := tmp, events := pollin } hi1
  rw [hheld, hd, h]
  split_ifs with h0
  · rw [taken_fill _ hnone]
  · rw [← hnone, Function.update_eq_self, Nat.add_zero]

/-- The second loop gives back the slot of a connection, if any. -/
theorem serve_sum (h : n + s.conns.card = (taken (held s.client)).card)
    {is : List (Fin maxClient)} (his : ∀ i ∈ is, 1 ≤ i.val)
    (hopen : ∀ i ∈ is, (s.client i).ready → (s.client i).fd ∈ s.conns) :
    n + (serve w is s).1.conns.card = (taken (held (serve w is s).1.client)).card := by
  obtain ⟨-, ⟨hclient, hconns⟩ | ⟨k, hk, h0, hready, hclient, hconns⟩⟩ := serve_spec w is s
  · rw [hclient, hconns]
    exact h
  · have hsome : held s.client k ≠ none := by
      rw [held_eq_some.2 ⟨his k hk, h0, rfl⟩]
      simp
    have hheld := held_update s.client { s.client k with fd := -1 } (his k hk)
    rw [if_neg (by simp)] at hheld
    have herase := Finset.card_erase_add_one (hopen k hk hready)
    have hfree := taken_free hsome
    rw [hclient, hconns, hheld]
    omega

theorem Account.next (h : Account n s) (hp : Possible s w) (hw : Honest s w)
    {r : PollState × List (Fin maxClient)} (hr : cliCommSscInit s w = .ok r) :
    Account (n + if Again s w then 1 else 0) r.1 := by
  refine ⟨h.tidy.next hr, ?_⟩
  obtain ⟨-, hconns, htmp⟩ := poll_maxi s w.poll
  have hheld : held (poll s w.poll).client = held s.client := held_congr (poll_fd s w.poll)
  have hsum : n + (poll s w.poll).conns.card = (taken (held (poll s w.poll).client)).card := by
    rw [hconns, hheld]
    exact h.sum
  -- after the slot loop has put in `tmp`, for the connections `S`
  have hassign : ∀ (tmp : ℤ) {S : Finset ℤ} {d : ℕ}, s.conns ⊆ S →
      d + S.card = n + s.conns.card + (if 0 ≤ tmp then 1 else 0) →
      assign w { poll s w.poll with tmp := tmp, conns := S } = .ok r →
      d + r.1.conns.card = (taken (held r.1.client)).card := by
    intro tmp S d hS hd hr
    set s₁ : PollState := { poll s w.poll with tmp := tmp, conns := S } with hs₁
    rcases hfree : freeSlot s₁.client with _ | i
    · rw [assign, hfree] at hr
      cases hr
    · have hfilled := filled_sum hsum hfree (by rwa [hconns])
      rcases assign_eq (w := w) hfree with he | ⟨hn, he⟩
      · obtain rfl := Except.ok.inj (he.symm.trans hr)
        exact hfilled
      · obtain rfl := Except.ok.inj (he.symm.trans hr)
        have hpoll : w.poll ≠ none := by
          intro hnone
          rw [hs₁, hnone] at hn
          have hlt : (1 : ℤ) < -1 := hn
          omega
        refine serve_sum hfilled (fun j hj => (mem_slotsTo.1 hj).1) fun j hj hready => ?_
        -- what the slot loop has filled has nothing to read
        have hready' : ((poll s w.poll).client j).ready := by
          rcases eq_or_ne j i with rfl | hji
          · simpa [PollState.filled, Pollfd.ready] using hready
          · simpa [PollState.filled, hji] using hready
        have hji : j ≠ i := by
          rintro rfl
          have := (h.tidy.of_ready hpoll hready').1
          exact absurd (freeSlot_some hfree).2 (not_lt.2 this)
        have hfd : ((s₁.filled i).client j).fd = (s.client j).fd := by
          simp [PollState.filled, hji, hs₁, poll_fd]
        rw [hfd]
        exact hS (hw hpoll j (mem_slotsTo.1 hj).1 hready')
  by_cases hc : Calls s w
  · rw [if_neg fun ha : Again s w => ha.1 hc]
    by_cases hfd : w.accept < 0
    · rw [init_failed hc hfd] at hr
      obtain rfl := Except.ok.inj hr
      exact hsum
    · have hnew := (hp.fresh hc (not_lt.1 hfd)).1
      rw [init_accepted hc (not_lt.1 hfd), hconns] at hr
      refine hassign w.accept (Finset.subset_insert _ _) ?_ hr
      rw [Finset.card_insert_of_notMem hnew, if_pos (not_lt.1 hfd)]
      rfl
  · have hsame : { poll s w.poll with tmp := s.tmp, conns := s.conns } = poll s w.poll := by
      rw [← hconns, ← htmp]
    rw [init_idle hc, ← hsame] at hr
    refine hassign s.tmp subset_rfl ?_ hr
    simp only [Again, hc, not_false_eq_true, true_and]
    omega

end Pass

section Run

variable {sockFd tmp : ℤ} {queue : PiState × List U8} {es : List WakeUp} {s : PollState}

theorem Account.listening : Account 0 (.listening sockFd tmp queue) := by
  refine ⟨.listening sockFd tmp queue, ?_⟩
  have hheld : held (PollState.listening sockFd tmp queue).client = fun _ => none := by
    funext i
    refine if_neg fun ⟨hi, h0⟩ => ?_
    have hne : i ≠ 0 := by
      rintro rfl
      exact absurd hi (by decide)
    simp [PollState.listening, hne] at h0
  rw [hheld]
  rfl

theorem Account.of_path (hp : Path pollStep (.ok (.listening sockFd tmp queue)) es (.ok s))
    (hw : EachStep pollStep (At Honest) (.ok (.listening sockFd tmp queue)) es) :
    Account (countSteps pollStep again (.ok (.listening sockFd tmp queue)) es) s := by
  have h := hp.count (C := again) (F := At Honest)
    (R := fun n s => ∀ s₁, s = .ok s₁ → Account n s₁) ?_ hw 0 ?_ s rfl
  · rwa [Nat.zero_add] at h
  · rintro n (fault | s) w s' h hF hs s₁ rfl
    · cases hs
    · obtain ⟨hposs, hs⟩ : Possible s w ∧ (cliCommSscInit s w).map Prod.fst = .ok s₁ := by
        simp only [pollStep] at hs
        split_ifs at hs with hposs
        exact ⟨hposs, Option.some.inj hs⟩
      rcases hr : cliCommSscInit s w with fault | r
      · rw [hr] at hs
        cases hs
      · rw [hr] at hs
        exact Except.ok.inj hs ▸ (h s rfl).next hposs hF hr
  · rintro s₁ hs
    exact Except.ok.inj hs ▸ .listening

/-- In every run in which `poll` reports data on open connections alone, the slots taken are as many
as the connections that are open and the wake-ups so far that have brought none and have put an old
descriptor into the table. So there are at most `MAX_CLIENT - 1` of these in the whole run, and once
they and the open connections are as many as that, and not before, the next wake-up that comes to
the slot loop goes out of bounds. -/
theorem client_slots_used_up (hp : Path pollStep (.ok (.listening sockFd tmp queue)) es (.ok s))
    (hw : EachStep pollStep (At Honest) (.ok (.listening sockFd tmp queue)) es) :
    let used := countSteps pollStep again (.ok (.listening sockFd tmp queue)) es + s.conns.card
    used = (taken (held s.client)).card ∧ used ≤ maxClient - 1
      ∧ ∀ w, cliCommSscInit s w = .error .outOfBounds
        ↔ ¬ (Calls s w ∧ w.accept < 0) ∧ used = maxClient - 1 := by
  intro used
  have hused : used = _ := (Account.of_path hp hw).sum
  have hclients : (Finset.univ.filter fun i : Fin maxClient => 1 ≤ i.val).card = maxClient - 1 := by
    decide
  have hsub : taken (held s.client) ⊆ Finset.univ.filter fun i : Fin maxClient => 1 ≤ i.val := by
    intro i hi
    obtain ⟨fd, hfd⟩ := Option.ne_none_iff_exists'.1 (Finset.mem_filter.1 hi).2
    exact Finset.mem_filter.2 ⟨Finset.mem_univ i, (held_eq_some.1 hfd).1⟩
  have hle := Finset.card_le_card hsub
  rw [hclients] at hle
  refine ⟨hused, hused ▸ hle, fun w => ?_⟩
  -- a slot is free unless all are taken
  have hfull : used = maxClient - 1
      ↔ ¬ ∃ i : Fin maxClient, 1 ≤ i.val ∧ (s.client i).fd < 0 := by
    rw [hused]
    constructor
    · rintro hcard ⟨i, hi, hfd⟩
      have heq := Finset.eq_of_subset_of_card_le hsub (hclients.trans hcard.symm).le
      have hmem : i ∈ taken (held s.client) := by
        rw [heq]
        exact Finset.mem_filter.2 ⟨Finset.mem_univ i, hi⟩
      exact (Finset.mem_filter.1 hmem).2 ((held_eq_none hi).2 hfd)
    · intro hno
      refine hle.antisymm ?_
      rw [← hclients]
      refine Finset.card_le_card fun i hi => ?_
      have hi1 := (Finset.mem_filter.1 hi).2
      refine Finset.mem_filter.2 ⟨Finset.mem_univ i, fun hnone => hno ⟨i, hi1, ?_⟩⟩
      exact (held_eq_none hi1).1 hnone
  have hfits := init_ok_iff s w
  unfold Fits at hfits
  rw [hfull, ← not_or, ← hfits]
  rcases cliCommSscInit s w with fault | r
  · cases fault
    simp
  · simp

/-- A connection is made and sends three times: the fourth time the loop goes out of bounds. -/
theorem client_slots_used_up_data : ∃ s,
    Path pollStep (.ok atRest) [wakeAccept 4, wakeData [0], wakeData [0], wakeData [0]] (.ok s)
      ∧ s.conns = {4} ∧ cliCommSscInit s (wakeData [0]) = .error .outOfBounds := by
  let es := [wakeAccept 4, wakeData [0], wakeData [0], wakeData [0]]
  obtain ⟨s, hp, hw, hconns, hidle, hagain⟩ : ∃ s, Path pollStep (.ok atRest) es (.ok s)
      ∧ EachStep pollStep (At Honest) (.ok atRest) es ∧ s.conns = {4}
      ∧ ¬ Calls s (wakeData [0]) ∧ countSteps pollStep again (.ok atRest) es = 3 := by
    refine ⟨_, .cons (pollStep_ok ?_ rfl) (.cons (pollStep_ok ?_ rfl) (.cons (pollStep_ok ?_ rfl)
      (.cons (pollStep_ok ?_ rfl) (.nil _)))), .cons (pollStep_ok ?_ rfl) ?_
      (.cons (pollStep_ok ?_ rfl) ?_ (.cons (pollStep_ok ?_ rfl) ?_
      (.cons (pollStep_ok ?_ rfl) ?_ trivial))), ?_, ?_, ?_⟩
    all_goals decide
  refine ⟨s, hp, hconns, ((client_slots_used_up hp hw).2.2 _).2 ⟨fun h => hidle h.1, ?_⟩⟩
  rw [hconns]
  exact congrArg (· + 1) hagain

end Run

end RookieMac.Pi
