import RookieMac.Proofs.PollPass

/-!
# The bounds of the client table

The first loop leaves the index at the slot it has filled, or, where none is free, at `MAX_CLIENT`,
and the pass goes on with that index: it is out of bounds then, and so is what `maxi` becomes. No
other access is, as long as this has not happened.
-/

namespace RookieMac.Pi

open CMem Runs

/-- What the first loop leaves in `i`. -/
def stop (client : Fin maxClient → Pollfd) : ℕ := (freeSlot client).elim maxClient Fin.val

/-- The indices a pass uses `g_client` at: those of the slots it hands to `poll`, that of the
listening socket, those the first loop looks at, the one it leaves, and those the second loop may
get to. -/
def indices (s : PollState) (w : WakeUp) : List ℕ :=
  let i := stop (poll s w.poll).client
  List.range (s.maxi + 1) ++ [0] ++
    if Calls s w ∧ w.accept < 0 then []
    else List.range' 1 (min i (maxClient - 1)) ++ [i] ++ List.range' 1 (max s.maxi i)

/-- The slot loop finds a free slot, or the pass ends before it. -/
def Fits (s : PollState) (w : WakeUp) : Prop :=
  Calls s w ∧ w.accept < 0 ∨ ∃ i : Fin maxClient, 1 ≤ i.val ∧ (s.client i).fd < 0

section Bounds

variable {s : PollState} {w : WakeUp}

theorem stop_lt_iff (s : PollState) (w : WakeUp) : stop (poll s w.poll).client < maxClient
    ↔ ∃ i : Fin maxClient, 1 ≤ i.val ∧ (s.client i).fd < 0 := by
  rw [← freeSlot_poll, stop]
  rcases freeSlot (poll s w.poll).client with _ | i
  · simp
  · simp [i.isLt]

theorem indices_iff (hmaxi : s.maxi < maxClient) :
    (∀ n ∈ indices s w, n < maxClient) ↔ Fits s w := by
  have hpos : 0 < maxClient := by decide
  unfold indices Fits
  simp only [List.mem_append, List.mem_range, List.mem_singleton]
  split_ifs with hacc
  · refine iff_of_true ?_ (.inl hacc)
    rintro n ((hn | rfl) | hn)
    · omega
    · exact hpos
    · cases hn
  · rw [or_iff_right hacc, ← stop_lt_iff]
    simp only [List.mem_append, List.mem_range'_1, List.mem_singleton]
    constructor
    · intro h
      exact h _ (.inr (.inl (.inr rfl)))
    · rintro hi n ((hn | rfl) | (hn | rfl) | hn) <;> omega

/-- The model stops with a fault exactly where an index is out of bounds. -/
theorem init_ok_iff (s : PollState) (w : WakeUp) :
    (∃ r, cliCommSscInit s w = .ok r) ↔ Fits s w := by
  unfold Fits
  by_cases hacc : Calls s w ∧ w.accept < 0
  · rw [init_failed hacc.1 hacc.2]
    exact iff_of_true ⟨_, rfl⟩ (.inl hacc)
  · obtain ⟨s₁, hinit, hclient, -, -⟩ := init_assign hacc
    rw [hinit, or_iff_right hacc, ← freeSlot_poll, ← hclient]
    rcases hfree : freeSlot s₁.client with _ | i
    · rw [assign, hfree]
      simp
    · refine iff_of_true ?_ ⟨i, rfl⟩
      rw [assign_some hfree]
      split_ifs
      · exact ⟨_, rfl⟩
      · exact ⟨_, rfl⟩

theorem init_maxi (hmaxi : s.maxi < maxClient) {r : PollState × List (Fin maxClient)}
    (hr : cliCommSscInit s w = .ok r) : r.1.maxi < maxClient := by
  by_cases hacc : Calls s w ∧ w.accept < 0
  · rw [init_failed hacc.1 hacc.2] at hr
    obtain rfl := Except.ok.inj hr
    rwa [show (poll s w.poll).maxi = s.maxi from (poll_maxi s w.poll).1]
  · obtain ⟨s₁, hinit, -, hs₁, -⟩ := init_assign hacc
    rw [(poll_maxi s w.poll).1] at hs₁
    rw [hinit] at hr
    rcases hfree : freeSlot s₁.client with _ | i
    · rw [assign, hfree] at hr
      cases hr
    · have hfilled : (s₁.filled i).maxi < maxClient := max_lt (hs₁ ▸ hmaxi) i.isLt
      rw [assign_some hfree] at hr
      split_ifs at hr
      · exact Except.ok.inj hr ▸ hfilled
      · obtain rfl := Except.ok.inj hr
        rw [(serve_spec w _ (s₁.filled i)).1]
        exact hfilled

end Bounds

/-- In every run each access of the client table is in bounds, by the loop and by `pi_send_msg_ssc`,
and so are the slots handed to `poll`, exactly when in each of its passes the slot loop finds a free
slot or is not run. -/
theorem accesses_in_bounds_iff (sockFd tmp : ℤ) (queue : PiState × List U8) (es : List WakeUp) :
    EachStep pollStep (At fun s w => ∀ n ∈ indices s w, n < maxClient)
          (.ok (.listening sockFd tmp queue)) es
        ∧ (∀ client mem write type msg,
          ∃ r, piSendMsgClients client mem write type msg = .ok r)
      ↔ EachStep pollStep (At Fits) (.ok (.listening sockFd tmp queue)) es := by
  have hsend : ∀ client mem write type msg,
      ∃ r, piSendMsgClients client mem write type msg = .ok r := by
    intro client mem write type msg
    cases mem with
    | false => exact ⟨none, rfl⟩
    | true => exact ⟨_, piSendMsgClients_eq client write type msg⟩
  rw [and_iff_left hsend]
  let I : Except PollFault PollState → Prop := fun s => ∀ s₁, s = .ok s₁ → s₁.maxi < maxClient
  refine EachStep.congr (I := I) ?_ ?_ es _ ?_
  · rintro (fault | s) w s' h hs s₁ rfl
    · cases hs
    · have hr := pollStep_eq_ok hs
      rcases hr' : cliCommSscInit s w with fault | r
      · rw [hr'] at hr
        cases hr
      · rw [hr'] at hr
        exact Except.ok.inj hr ▸ init_maxi (h s rfl) hr'
  · rintro (fault | s) w h
    · exact Iff.rfl
    · exact indices_iff (h s rfl)
  · intro s₁ hs
    obtain rfl := Except.ok.inj hs
    exact Nat.zero_lt_succ 4

/-- Four connections take the four slots; with the fifth the first loop leaves `MAX_CLIENT`. -/
theorem fifth_out_of_bounds : ∃ s,
    Path pollStep (.ok atRest) [wakeAccept 4, wakeAccept 5, wakeAccept 6, wakeAccept 7] (.ok s)
      ∧ Possible s (wakeAccept 8) ∧ maxClient ∈ indices s (wakeAccept 8)
      ∧ cliCommSscInit s (wakeAccept 8) = .error .outOfBounds := by
  refine ⟨_, .cons (pollStep_ok ?_ rfl) (.cons (pollStep_ok ?_ rfl) (.cons (pollStep_ok ?_ rfl)
    (.cons (pollStep_ok ?_ rfl) (.nil _)))), ?_, ?_, rfl⟩
  all_goals decide

end RookieMac.Pi
