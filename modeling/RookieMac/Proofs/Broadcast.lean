import RookieMac.Broadcast
import RookieMac.Proofs.PollLoop
import RookieMac.Lib.UpTo

/-!
# Who gets a message of PI

A slot has its turn where it is not free and its descriptor is not that of the slot before; the loop
writes to the slots that have one, up to the first whose write fails. So a descriptor that is in two
slots apart gets the message twice, and a write that fails keeps it from the slots after it.
-/

namespace RookieMac.Pi

open CMem Runs UpTo

/-- The loop does not pass over the slot. -/
def Turn (client : Fin maxClient → Pollfd) (i : Fin maxClient) : Prop :=
  1 ≤ i.val ∧ 0 ≤ (client i).fd ∧ (client i).fd ≠ (client (i - 1)).fd

instance (client : Fin maxClient → Pollfd) (i : Fin maxClient) : Decidable (Turn client i) :=
  inferInstanceAs (Decidable (_ ∧ _ ∧ _))

/-- The slots the loop writes to. -/
def served (client : Fin maxClient → Pollfd) (write : ℤ → Bool) : List (Fin maxClient) :=
  upTo (fun i => !write (client i).fd) ((slotsTo maxClient).filter fun i => Turn client i)

/-- Each descriptor of a slot after the first one gets the message in one write, and nothing else is
written. -/
structure Delivers (client : Fin maxClient → Pollfd) (msg : List U8) (sent : List (ℤ × List U8)) :
    Prop where
  once : sent.Nodup
  each : ∀ fd bytes, (fd, bytes) ∈ sent
    ↔ 0 ≤ fd ∧ bytes = msg ∧ ∃ i : Fin maxClient, 1 ≤ i.val ∧ (client i).fd = fd

/-- What the table and the writes have to be like for that. -/
structure OnceEach (client : Fin maxClient → Pollfd) (write : ℤ → Bool) : Prop where
  /-- A descriptor that has a second turn has it after a write that failed. -/
  again : ∀ i j, i < j → Turn client i → Turn client j → (client i).fd = (client j).fd →
    ∃ k, k < j ∧ Turn client k ∧ write (client k).fd = false
  /-- After a write that failed no slot has a descriptor that has not had its turn. -/
  fail : ∀ k, Turn client k → write (client k).fd = false → ∀ j, k < j → 0 ≤ (client j).fd →
    ∃ i, i ≤ k ∧ Turn client i ∧ (client i).fd = (client j).fd
  /-- Where slot 1 has the descriptor of the listening socket, another slot has its turn with it. -/
  first : 0 ≤ (client 1).fd → (client 1).fd = (client 0).fd →
    ∃ i, Turn client i ∧ (client i).fd = (client 1).fd

section Loop

variable {client : Fin maxClient → Pollfd} {write : ℤ → Bool} {i : Fin maxClient}

theorem clientAt_val (client : Fin maxClient → Pollfd) (i : Fin maxClient) :
    clientAt client i.val = .ok (client i) := by
  rw [clientAt, dif_pos i.isLt]

theorem val_pred : ∀ i : Fin maxClient, 1 ≤ i.val → (i - 1).val = i.val - 1 := by decide

theorem sendClients_eq (tmp : List U8) : ∀ is : List (Fin maxClient), (∀ i ∈ is, 1 ≤ i.val) →
    sendClients client write tmp (is.map Fin.val)
      = .ok ((upTo (fun i => !write (client i).fd) (is.filter fun i => Turn client i)).map
        fun i => ((client i).fd, tmp))
  | [], _ => rfl
  | i :: is, h => by
    have hi := h i (.head _)
    have ih := sendClients_eq tmp is fun j hj => h j (.tail _ hj)
    have hprev : clientAt client (i.val - 1) = .ok (client (i - 1)) := by
      rw [← val_pred i hi, clientAt_val]
    unfold sendClients
    simp only [List.map_cons, clientAt_val, hprev, bind, Except.bind, pure, Except.pure]
    by_cases ht : Turn client i
    · have h0 := ht.2.1
      have hne := ht.2.2
      rw [if_neg (not_lt.2 h0), if_neg hne, List.filter_cons_of_pos (by simpa using ht)]
      rcases hw : write (client i).fd with _ | _
      · rw [upTo_cons_pos (by simp [hw])]
        rfl
      · rw [upTo_cons_neg (by simp [hw]), ih]
        rfl
    · rw [List.filter_cons_of_neg (by simpa using ht), ← ih]
      by_cases h0 : (client i).fd < 0
      · rw [if_pos h0]
      · have heq : (client i).fd = (client (i - 1)).fd := by
          by_contra hne
          exact ht ⟨hi, not_lt.1 h0, hne⟩
        rw [if_neg h0, if_pos heq]

theorem piSendMsgClients_eq (client : Fin maxClient → Pollfd) (write : ℤ → Bool)
    (type : PiMacMsgid) (msg : List U8) : piSendMsgClients client true write type msg
      = .ok (some ((served client write).map fun i => ((client i).fd, piSendMsgSsc type msg))) := by
  have hslots : List.range' 1 (maxClient - 1) = (slotsTo maxClient).map Fin.val := by decide
  rw [piSendMsgClients, if_pos rfl, hslots, sendClients_eq _ _ fun i hi => (mem_slotsTo.1 hi).1]
  rfl

theorem sorted_slotsTo (n : ℕ) : (slotsTo n).Pairwise (· < ·) :=
  (List.pairwise_lt_finRange maxClient).filter _

theorem mem_served : i ∈ served client write
    ↔ Turn client i ∧ ∀ k, k < i → Turn client k → write (client k).fd = true := by
  have hmem : ∀ {j}, j ∈ (slotsTo maxClient).filter (fun i => Turn client i) ↔ Turn client j := by
    intro j
    simp only [List.mem_filter, decide_eq_true_eq, mem_slotsTo]
    exact ⟨fun h => h.2, fun h => ⟨⟨h.1, j.isLt.le⟩, h⟩⟩
  rw [served, mem_upTo ((sorted_slotsTo maxClient).filter _), hmem]
  refine and_congr_right fun _ => forall_congr' fun k => ?_
  rw [hmem, Bool.not_eq_false']
  exact ⟨fun h hk ht => h ht hk, fun h ht hk => h hk ht⟩

theorem nodup_served : (served client write).Nodup :=
  (((sorted_slotsTo maxClient).imp fun h => h.ne).filter _).sublist (upTo_sublist _)

theorem Turn.of_mem_served (h : i ∈ served client write) : Turn client i := (mem_served.1 h).1

/-- The first of the slots with a descriptor that has a turn with it is reached, unless a write
fails before. -/
theorem exists_served (h : OnceEach client write) {j : Fin maxClient} (hj : Turn client j) :
    ∃ i ∈ served client write, (client i).fd = (client j).fd := by
  induction j using WellFoundedLT.induction with
  | ind j ih =>
    by_cases hr : ∀ k, k < j → Turn client k → write (client k).fd = true
    · exact ⟨j, mem_served.2 ⟨hj, hr⟩, rfl⟩
    · push Not at hr
      obtain ⟨k, hkj, hk, hw⟩ := hr
      obtain ⟨i, hik, hi, hfd⟩ := h.fail k hk (Bool.eq_false_iff.2 hw) j hkj hj.2.1
      obtain ⟨i', hi', hfd'⟩ := ih i (hik.trans_lt hkj) hi
      exact ⟨i', hi', hfd'.trans hfd⟩

/-- Every descriptor has a turn, if only slot 1 has it where the listening socket does not. -/
theorem exists_turn (h : OnceEach client write) {j : Fin maxClient} (hj : 1 ≤ j.val)
    (h0 : 0 ≤ (client j).fd) : ∃ i, Turn client i ∧ (client i).fd = (client j).fd := by
  induction j using WellFoundedLT.induction with
  | ind j ih =>
    by_cases hne : (client j).fd = (client (j - 1)).fd
    · have hval := val_pred j hj
      rcases eq_or_lt_of_le hj with h1 | h1
      · obtain rfl : j = 1 := Fin.ext h1.symm
        exact h.first h0 hne
      · have hlt : j - 1 < j := Fin.lt_def.2 (by omega)
        rw [hne]
        exact ih (j - 1) hlt (by omega) (hne ▸ h0)
    · exact ⟨j, ⟨hj, h0, hne⟩, rfl⟩

theorem OnceEach.delivers (h : OnceEach client write) (m : List U8) :
    Delivers client m ((served client write).map fun i => ((client i).fd, m)) where
  once := by
    rw [List.nodup_map_iff_inj_on nodup_served]
    have hlt : ∀ i ∈ served client write, ∀ j ∈ served client write, i < j →
        (client i).fd ≠ (client j).fd := by
      intro i hi j hj hij hfd
      obtain ⟨k, hk, ht, hw⟩ := h.again i j hij (.of_mem_served hi) (.of_mem_served hj) hfd
      rw [(mem_served.1 hj).2 k hk ht] at hw
      cases hw
    intro i hi j hj he
    have hfd : (client i).fd = (client j).fd := (Prod.mk.inj he).1
    rcases lt_trichotomy i j with hij | hij | hij
    · exact absurd hfd (hlt i hi j hj hij)
    · exact hij
    · exact absurd hfd.symm (hlt j hj i hi hij)
  each := by
    intro fd bytes
    rw [List.mem_map]
    constructor
    · rintro ⟨i, hi, he⟩
      obtain ⟨rfl, rfl⟩ := Prod.mk.inj he
      have ht := Turn.of_mem_served hi
      exact ⟨ht.2.1, rfl, i, ht.1, rfl⟩
    · rintro ⟨h0, rfl, j, hj, rfl⟩
      obtain ⟨i, hi, hfd⟩ := exists_turn h hj h0
      obtain ⟨i', hi', hfd'⟩ := exists_served h hi
      exact ⟨i', hi', by rw [hfd', hfd]⟩

theorem Delivers.onceEach {m : List U8}
    (h : Delivers client m ((served client write).map fun i => ((client i).fd, m))) :
    OnceEach client write := by
  have hinj := (List.nodup_map_iff_inj_on nodup_served).1 h.once
  have hall : ∀ j : Fin maxClient, 1 ≤ j.val → 0 ≤ (client j).fd →
      ∃ i ∈ served client write, (client i).fd = (client j).fd := by
    intro j hj h0
    obtain ⟨i, hi, he⟩ := List.mem_map.1 ((h.each _ m).2 ⟨h0, rfl, j, hj, rfl⟩)
    exact ⟨i, hi, (Prod.mk.inj he).1⟩
  refine ⟨fun i j hij hi hj hfd => ?_, fun k hk hw j hkj h0 => ?_, fun h0 _ => ?_⟩
  · by_contra hno
    push Not at hno
    have hreach : ∀ k, k < j → Turn client k → write (client k).fd = true := fun k hk ht => by
      simpa using hno k hk ht
    have hi' : i ∈ served client write :=
      mem_served.2 ⟨hi, fun k hk ht => hreach k (hk.trans hij) ht⟩
    have hj' : j ∈ served client write := mem_served.2 ⟨hj, hreach⟩
    exact hij.ne (hinj i hi' j hj' (by rw [hfd]))
  · have hkj' : k.val < j.val := hkj
    obtain ⟨i, hi, hfd⟩ := hall j (by omega) h0
    refine ⟨i, not_lt.1 fun hki => ?_, .of_mem_served hi, hfd⟩
    rw [(mem_served.1 hi).2 k hki hk] at hw
    cases hw
  · obtain ⟨i, hi, hfd⟩ := hall 1 le_rfl h0
    exact ⟨i, .of_mem_served hi, hfd⟩

end Loop

/-- Whatever the table and whichever writes fail, each client gets the message in exactly one write
and no one else does, exactly when there is memory for the message and the table and the writes are
as `OnceEach` says. -/
theorem broadcast_once_iff (client : Fin maxClient → Pollfd) (mem : Bool) (write : ℤ → Bool)
    (type : PiMacMsgid) (msg : List U8) :
    (∃ sent, piSendMsgClients client mem write type msg = .ok (some sent)
        ∧ Delivers client (msgInfo type.val msg) sent)
      ↔ mem = true ∧ OnceEach client write := by
  cases mem with
  | false => simp [piSendMsgClients]
  | true =>
    rw [piSendMsgClients_eq]
    constructor
    · rintro ⟨sent, hsent, h⟩
      obtain rfl := Option.some.inj (Except.ok.inj hsent)
      exact ⟨rfl, h.onceEach⟩
    · rintro ⟨-, h⟩
      exact ⟨_, rfl, h.delivers _⟩

section Unequal

/-- A third connection is made while the first one closes. -/
def wakeBoth : WakeUp where
  poll := some fun i => if i ≤ 1 then pollin else 0
  accept := 6
  read := fun _ => []
  mem := fun _ _ => true

/-- The connection of slot 2 has sent data. -/
def wakeSecond : WakeUp := { wakeData [0] with poll := some fun i => if i = 2 then pollin else 0 }

/-- Two connections are made; a third takes slot 3 while the first leaves slot 1 free; then the
second one sends, and the loop enters the third one's descriptor in slot 1 as well. A message is
written to it twice. And while there are the first two, a write that fails keeps the message from
the second. -/
theorem broadcast_unequal :
    (∃ s, Path pollStep (.ok atRest) [wakeAccept 4, wakeAccept 5, wakeBoth, wakeSecond] (.ok s)
        ∧ (piSendMsgClients s.client true (fun _ => true) .dsStart []).map (Option.map
          (List.map Prod.fst)) = .ok (some [6, 5, 6]))
      ∧ ∃ s, Path pollStep (.ok atRest) [wakeAccept 4, wakeAccept 5] (.ok s)
        ∧ (piSendMsgClients s.client true (fun fd => fd ≠ 4) .dsStart []).map (Option.map
          (List.map Prod.fst)) = .ok (some [4]) := by
  refine ⟨⟨_, .cons (pollStep_ok ?_ rfl) (.cons (pollStep_ok ?_ rfl) (.cons (pollStep_ok ?_ rfl)
    (.cons (pollStep_ok ?_ rfl) (.nil _)))), ?_⟩, _, .cons (pollStep_ok ?_ rfl)
    (.cons (pollStep_ok ?_ rfl) (.nil _)), ?_⟩
  all_goals decide

end Unequal

end RookieMac.Pi
