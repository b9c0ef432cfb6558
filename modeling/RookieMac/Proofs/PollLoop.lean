import RookieMac.PollLoop
import RookieMac.Lib.Runs
import RookieMac.Lib.Slots
import RookieMac.System

/-!
# The client table

The slot loop runs on every wake-up, with the descriptor `accept` returned last, be it in this one
or an earlier one. The table stays an exact record of the open connections as long as it does not
run with a descriptor it has already put into a slot.
-/

namespace RookieMac.Pi

open CMem Runs Slots

/-- What the client table is to be: a record of the open connections. -/
structure Record (s : PollState) : Prop where
  /-- Each open connection is in exactly one slot. -/
  slot : ∀ fd ∈ s.conns, ∃! i : Fin maxClient, 1 ≤ i.val ∧ (s.client i).fd = fd
  /-- Each slot that is not free has an open connection. -/
  live : ∀ i : Fin maxClient, 1 ≤ i.val → 0 ≤ (s.client i).fd → (s.client i).fd ∈ s.conns
  distinct : ∀ i j : Fin maxClient, 1 ≤ i.val → 1 ≤ j.val → 0 ≤ (s.client i).fd →
    (s.client i).fd = (s.client j).fd → i = j
  maxi : ∀ i : Fin maxClient, 1 ≤ i.val → 0 ≤ (s.client i).fd → i.val ≤ s.maxi

/-- The record, where no access has been out of bounds. -/
def Recorded : Except PollFault PollState → Prop
  | .error _ => False
  | .ok s => Record s

/-- The slots but the listening one, as a table of descriptors. -/
def held (client : Fin maxClient → Pollfd) (i : Fin maxClient) : Option ℤ :=
  if 1 ≤ i.val ∧ 0 ≤ (client i).fd then some (client i).fd else none

/-- What the steps keep. -/
structure PollInv (s : PollState) : Prop where
  records : Records (held s.client) s.conns
  maxi : ∀ i, held s.client i ≠ none → i.val ≤ s.maxi
  /-- `poll` has not yet reported anything for the slots after `maxi`. -/
  quiet : ∀ i : Fin maxClient, s.maxi < i.val → ¬ (s.client i).ready

section Held

variable {client client' : Fin maxClient → Pollfd} {i j : Fin maxClient} {fd : ℤ}

theorem held_eq_some : held client i = some fd ↔ 1 ≤ i.val ∧ 0 ≤ fd ∧ (client i).fd = fd := by
  unfold held
  split_ifs with h
  · rw [Option.some.injEq]
    refine ⟨fun he => ⟨h.1, he ▸ h.2, he⟩, fun he => he.2.2⟩
  · refine iff_of_false (by simp) fun he => h ⟨he.1, ?_⟩
    rw [he.2.2]
    exact he.2.1

theorem held_eq_none (hi : 1 ≤ i.val) : held client i = none ↔ (client i).fd < 0 := by
  unfold held
  split_ifs with h
  · exact iff_of_false (by simp) (by omega)
  · exact iff_of_true rfl (by omega)

theorem held_congr (h : ∀ i, (client' i).fd = (client i).fd) : held client' = held client := by
  funext i
  simp only [held, h i]

theorem held_update (client : Fin maxClient → Pollfd) (p : Pollfd) (hi : 1 ≤ i.val) :
    held (Function.update client i p)
      = Function.update (held client) i (if 0 ≤ p.fd then some p.fd else none) := by
  funext j
  rcases eq_or_ne j i with rfl | hji
  · simp [held, hi]
  · simp [held, hji]

end Held

theorem PollInv.record {s : PollState} (h : PollInv s) : Record s where
  slot := fun fd hfd => by
    obtain ⟨i, hi⟩ := h.records.slot fd hfd
    obtain ⟨h1, h0, hfd'⟩ := held_eq_some.1 hi
    refine ⟨i, ⟨h1, hfd'⟩, fun j hj => ?_⟩
    exact h.records.inj j i fd (held_eq_some.2 ⟨hj.1, h0, hj.2⟩) hi
  live := fun i hi h0 => h.records.mem i _ (held_eq_some.2 ⟨hi, h0, rfl⟩)
  distinct := fun i j hi hj h0 he => h.records.inj i j _ (held_eq_some.2 ⟨hi, h0, rfl⟩)
    (held_eq_some.2 ⟨hj, h0, he.symm⟩)
  maxi := fun i hi h0 => h.maxi i (by simp [held_eq_some.2 ⟨hi, h0, rfl⟩])

theorem Record.records {s : PollState} (h : Record s) (h0 : ∀ fd ∈ s.conns, 0 ≤ fd) :
    Records (held s.client) s.conns where
  mem := fun i fd hi => by
    obtain ⟨h1, h0, rfl⟩ := held_eq_some.1 hi
    exact h.live i h1 h0
  slot := fun fd hfd => by
    obtain ⟨i, hi, -⟩ := h.slot fd hfd
    exact ⟨i, held_eq_some.2 ⟨hi.1, h0 fd hfd, hi.2⟩⟩
  inj := fun i j fd hi hj => by
    obtain ⟨hi1, h0, rfl⟩ := held_eq_some.1 hi
    obtain ⟨hj1, -, hj⟩ := held_eq_some.1 hj
    exact h.distinct i j hi1 hj1 h0 hj.symm

theorem PollInv.nonneg {s : PollState} (h : PollInv s) {fd : ℤ} (hfd : fd ∈ s.conns) : 0 ≤ fd := by
  obtain ⟨i, hi⟩ := h.records.slot fd hfd
  exact (held_eq_some.1 hi).2.1

/-! ## The parts of a pass -/

section Parts

variable {s s' : PollState} {w : WakeUp}

theorem poll_fd (s : PollState) (found : Option (Fin maxClient → BitVec 16)) (i : Fin maxClient) :
    ((poll s found).client i).fd = (s.client i).fd := by
  rcases found with _ | found
  · rfl
  · simp only [poll]
    split_ifs <;> rfl

theorem poll_maxi (s : PollState) (found : Option (Fin maxClient → BitVec 16)) :
    (poll s found).maxi = s.maxi ∧ (poll s found).conns = s.conns ∧ (poll s found).tmp = s.tmp := by
  cases found <;> exact ⟨rfl, rfl, rfl⟩

theorem PollInv.poll (h : PollInv s) (found : Option (Fin maxClient → BitVec 16)) :
    PollInv (poll s found) := by
  obtain ⟨hmaxi, hconns, -⟩ := poll_maxi s found
  have hheld : held (Pi.poll s found).client = held s.client := held_congr (poll_fd s found)
  refine ⟨?_, ?_, fun i hi => ?_⟩
  · rw [hheld, hconns]
    exact h.records
  · rw [hheld, hmaxi]
    exact h.maxi
  · rw [hmaxi] at hi
    rcases found with _ | found
    · exact h.quiet i hi
    · simp only [Pi.poll, if_neg (not_le.2 hi)]
      exact h.quiet i hi

/-- What the second loop does to the table: it closes at most one connection, of a slot that `poll`
has reported. -/
theorem serve_spec (w : WakeUp) : ∀ (is : List (Fin maxClient)) (s : PollState),
    (serve w is s).1.maxi = s.maxi ∧
    (((serve w is s).1.client = s.client ∧ (serve w is s).1.conns = s.conns)
      ∨ ∃ k ∈ is, 0 ≤ (s.client k).fd ∧ (s.client k).ready
        ∧ (serve w is s).1.client = Function.update s.client k { s.client k with fd := -1 }
        ∧ (serve w is s).1.conns = s.conns.erase (s.client k).fd)
  | [], s => ⟨rfl, .inl ⟨rfl, rfl⟩⟩
  | i :: is, s => by
    have hskip : ∀ s₁ : PollState, s₁.client = s.client → s₁.conns = s.conns → s₁.maxi = s.maxi →
        (serve w is s₁).1.maxi = s.maxi ∧
        (((serve w is s₁).1.client = s.client ∧ (serve w is s₁).1.conns = s.conns)
          ∨ ∃ k ∈ i :: is, 0 ≤ (s.client k).fd ∧ (s.client k).ready
            ∧ (serve w is s₁).1.client = Function.update s.client k { s.client k with fd := -1 }
            ∧ (serve w is s₁).1.conns = s.conns.erase (s.client k).fd) := by
      intro s₁ hclient hconns hmaxi
      have ih := serve_spec w is s₁
      rw [hclient, hconns, hmaxi] at ih
      exact ⟨ih.1, ih.2.imp id fun ⟨k, hk, h⟩ => ⟨k, .tail _ hk, h⟩⟩
    unfold serve
    split_ifs with hfd hready
    · exact hskip s rfl rfl rfl
    · split
      · exact ⟨rfl, .inr ⟨i, .head _, not_lt.1 hfd, hready, rfl, rfl⟩⟩
      · simp only []
        split_ifs
        · exact ⟨rfl, .inl ⟨rfl, rfl⟩⟩
        · exact hskip _ rfl rfl rfl
    · exact hskip s rfl rfl rfl

theorem mem_slotsTo {n : ℕ} {i : Fin maxClient} : i ∈ slotsTo n ↔ 1 ≤ i.val ∧ i.val ≤ n := by
  simp [slotsTo]

theorem PollInv.serve (h : PollInv s) (w : WakeUp) {is : List (Fin maxClient)}
    (his : ∀ i ∈ is, 1 ≤ i.val) : PollInv (serve w is s).1 := by
  obtain ⟨hmaxi, ⟨hclient, hconns⟩ | ⟨k, hk, h0, -, hclient, hconns⟩⟩ := serve_spec w is s
  · refine ⟨?_, ?_, ?_⟩
    · rw [hclient, hconns]
      exact h.records
    · rw [hclient, hmaxi]
      exact h.maxi
    · rw [hclient, hmaxi]
      exact h.quiet
  · have hheld := held_update s.client { s.client k with fd := -1 } (his k hk)
    rw [if_neg (by simp)] at hheld
    refine ⟨?_, fun i hi => ?_, fun i hi => ?_⟩
    · rw [hclient, hconns, hheld]
      exact h.records.erase (held_eq_some.2 ⟨his k hk, h0, rfl⟩)
    · rw [hclient, hheld] at hi
      rw [hmaxi]
      refine h.maxi i fun hn => hi ?_
      rcases eq_or_ne i k with rfl | hik
      · exact Function.update_self _ _ _
      · rw [Function.update_of_ne hik, hn]
    · rw [hmaxi] at hi
      rw [hclient]
      rcases eq_or_ne i k with rfl | hik
      · rw [Function.update_self]
        exact h.quiet i hi
      · rw [Function.update_of_ne hik]
        exact h.quiet i hi

theorem freeSlot_some {client : Fin maxClient → Pollfd} {i : Fin maxClient}
    (h : freeSlot client = some i) : 1 ≤ i.val ∧ (client i).fd < 0 := by
  have hmem := List.mem_of_find?_eq_some h
  have hp := List.find?_some h
  exact ⟨(mem_slotsTo.1 hmem).1, of_decide_eq_true hp⟩

theorem freeSlot_eq_none {client : Fin maxClient → Pollfd} :
    freeSlot client = none ↔ ∀ i : Fin maxClient, 1 ≤ i.val → 0 ≤ (client i).fd := by
  rw [freeSlot, List.find?_eq_none]
  refine ⟨fun h i hi => ?_, fun h i hi => ?_⟩
  · have := h i (mem_slotsTo.2 ⟨hi, i.isLt.le⟩)
    simpa using this
  · simpa using h i (mem_slotsTo.1 hi).1

/-- The state once the first loop has put `tmp` into the slot. -/
def PollState.filled (s : PollState) (i : Fin maxClient) : PollState :=
  { s with
    client := Function.update s.client i { s.client i with fd := s.tmp, events := pollin }
    maxi := max s.maxi i.val
    nReady := s.nReady - 1 }

theorem assign_some {i : Fin maxClient} (hi : freeSlot s.client = some i) :
    assign w s = if (s.filled i).nReady ≤ 0 then .ok (s.filled i, [])
      else .ok (serve w (slotsTo (s.filled i).maxi) (s.filled i)) := by
  unfold assign
  rw [hi]
  rfl

theorem assign_eq {i : Fin maxClient} (hi : freeSlot s.client = some i) :
    assign w s = .ok (s.filled i, []) ∨ 1 < s.nReady
      ∧ assign w s = .ok (serve w (slotsTo (s.filled i).maxi) (s.filled i)) := by
  rw [assign_some hi]
  split_ifs with hn
  · exact .inl rfl
  · have hready : (s.filled i).nReady = s.nReady - 1 := rfl
    exact .inr ⟨by omega, rfl⟩

theorem PollInv.filled (h : PollInv s) {i : Fin maxClient} (hi : freeSlot s.client = some i)
    {S : Finset ℤ} {tmp : ℤ} (hS : Records (Function.update (held s.client) i
      (if 0 ≤ tmp then some tmp else none)) S) :
    PollInv (PollState.filled { s with tmp := tmp, conns := S } i) := by
  obtain ⟨hi1, hfd⟩ := freeSlot_some hi
  have hheld := held_update s.client { s.client i with fd := tmp, events := pollin } hi1
  refine ⟨?_, fun j hj => ?_, fun j hj => ?_⟩
  · rw [PollState.filled, hheld]
    exact hS
  · rw [PollState.filled, hheld] at hj
    rcases eq_or_ne j i with rfl | hji
    · exact le_max_right _ _
    · rw [Function.update_of_ne hji] at hj
      exact (h.maxi j hj).trans (le_max_left _ _)
  · have hji : j ≠ i := by
      rintro rfl
      exact absurd hj (not_lt.2 (le_max_right _ _))
    have hquiet := h.quiet j ((le_max_left _ _).trans_lt hj)
    simpa only [PollState.filled, Function.update_of_ne hji] using hquiet

theorem PollInv.assign (h : PollInv s) (w : WakeUp) {i : Fin maxClient}
    (hi : freeSlot s.client = some i) {S : Finset ℤ} {tmp : ℤ} (hS : Records (Function.update
      (held s.client) i (if 0 ≤ tmp then some tmp else none)) S) :
    ∃ r, Pi.assign w { s with tmp := tmp, conns := S } = .ok r ∧ PollInv r.1 := by
  have hfilled := h.filled hi hS
  rcases assign_eq (w := w) (s := { s with tmp := tmp, conns := S }) hi with hr | ⟨-, hr⟩
  · exact ⟨_, hr, hfilled⟩
  · exact ⟨_, hr, hfilled.serve w fun j hj => (mem_slotsTo.1 hj).1⟩

end Parts

/-! ## Runs -/

/-- The first loop runs with a descriptor that is in no slot, and finds one for it: it is that of a
new connection, or what a failed `accept` left. -/
def Sound (s : PollState) (w : WakeUp) : Prop :=
  Calls s w ∨ s.tmp < 0 ∧ ∃ i : Fin maxClient, 1 ≤ i.val ∧ (s.client i).fd < 0

/-- There are no more connections than slots for them. -/
def Room (s : PollState) (w : WakeUp) : Prop :=
  Calls s w → 0 ≤ w.accept → s.conns.card < maxClient - 1

instance (s : PollState) (w : WakeUp) : Decidable (Sound s w) :=
  inferInstanceAs (Decidable (_ ∨ _ ∧ _))

instance (s : PollState) (w : WakeUp) : Decidable (Room s w) :=
  inferInstanceAs (Decidable (_ → _ → _))

/-- A condition on a wake-up, where there has been no fault. -/
def At (C : PollState → WakeUp → Prop) : Except PollFault PollState → WakeUp → Prop
  | .error _, _ => True
  | .ok s, w => C s w

instance {C : PollState → WakeUp → Prop} [∀ s w, Decidable (C s w)] :
    (s : Except PollFault PollState) → (w : WakeUp) → Decidable (At C s w)
  | .error _, _ => isTrue trivial
  | .ok s, w => inferInstanceAs (Decidable (C s w))

section Step

variable {s : PollState} {w : WakeUp}

theorem PollInv.exists_free (h : PollInv s) (hroom : s.conns.card < maxClient - 1) :
    ∃ i, freeSlot s.client = some i := by
  have hcard : (Finset.univ.filter fun i : Fin maxClient => 1 ≤ i.val).card = maxClient - 1 := by
    decide
  obtain ⟨i, hi, hnone⟩ := h.records.exists_none _ (hcard ▸ hroom)
  have hi1 : 1 ≤ i.val := (Finset.mem_filter.1 hi).2
  rcases hfree : freeSlot s.client with _ | j
  · have := (held_eq_none hi1).1 hnone
    exact absurd this (not_lt.2 (freeSlot_eq_none.1 hfree i hi1))
  · exact ⟨j, rfl⟩

/-- `accept` fails. -/
theorem init_failed (hc : Calls s w) (hfd : w.accept < 0) :
    cliCommSscInit s w = .ok ({ Pi.poll s w.poll with tmp := w.accept }, []) := by
  have hready : ((Pi.poll s w.poll).client 0).ready := hc
  have hacc : (Pi.poll s w.poll).accepted w.accept = { Pi.poll s w.poll with tmp := w.accept } := by
    rw [PollState.accepted, if_neg (not_le.2 hfd)]
  simp only [cliCommSscInit, if_pos hready, hacc, if_pos hfd]

/-- `accept` returns a connection. -/
theorem init_accepted (hc : Calls s w) (h0 : 0 ≤ w.accept) :
    cliCommSscInit s w = assign w { Pi.poll s w.poll with
      tmp := w.accept, conns := insert w.accept (Pi.poll s w.poll).conns } := by
  have hready : ((Pi.poll s w.poll).client 0).ready := hc
  have hacc : (Pi.poll s w.poll).accepted w.accept = { Pi.poll s w.poll with
      tmp := w.accept, conns := insert w.accept (Pi.poll s w.poll).conns } := by
    rw [PollState.accepted, if_pos h0]
  simp only [cliCommSscInit, if_pos hready, hacc, if_neg (not_lt.2 h0)]

/-- Nothing has happened to the listening socket. -/
theorem init_idle (hc : ¬ Calls s w) : cliCommSscInit s w = assign w (Pi.poll s w.poll) := by
  have hready : ¬ ((Pi.poll s w.poll).client 0).ready := hc
  simp only [cliCommSscInit, if_neg hready]

theorem PollInv.next (h : PollInv s) (hp : Possible s w) (hroom : Room s w) (hs : Sound s w) :
    ∃ r, cliCommSscInit s w = .ok r ∧ PollInv r.1 := by
  have h₁ := h.poll w.poll
  obtain ⟨-, hconns, htmp⟩ := poll_maxi s w.poll
  by_cases hc : Calls s w
  · by_cases hfd : w.accept < 0
    · exact ⟨_, init_failed hc hfd, h₁.records, h₁.maxi, h₁.quiet⟩
    · have h0 := not_lt.1 hfd
      obtain ⟨i, hi⟩ := h₁.exists_free (hconns.symm ▸ hroom hc h0)
      rw [init_accepted hc h0]
      refine h₁.assign w hi ?_
      rw [if_pos h0]
      refine h₁.records.insert ?_ (hconns.symm ▸ (hp.fresh hc h0).1)
      exact (held_eq_none (freeSlot_some hi).1).2 (freeSlot_some hi).2
  · rw [init_idle hc]
    obtain ⟨ht, j, hj, hfd⟩ := hs.resolve_left hc
    rcases hfree : freeSlot (Pi.poll s w.poll).client with _ | i
    · have := freeSlot_eq_none.1 hfree j hj
      rw [poll_fd] at this
      exact absurd hfd (not_lt.2 this)
    · have hrec : Records (Function.update (held (Pi.poll s w.poll).client) i
          (if 0 ≤ (Pi.poll s w.poll).tmp then some (Pi.poll s w.poll).tmp else none))
          (Pi.poll s w.poll).conns := by
        rw [htmp, if_neg (not_le.2 ht)]
        have hnone := (held_eq_none (freeSlot_some hfree).1).2 (freeSlot_some hfree).2
        rw [← hnone, Function.update_eq_self]
        exact h₁.records
      exact h₁.assign w hfree hrec

/-- `poll` reports nothing for a free slot. -/
theorem PollInv.not_ready (h : PollInv s) (hp : w.poll ≠ none) {i : Fin maxClient}
    (hfd : (s.client i).fd < 0) : ¬ ((Pi.poll s w.poll).client i).ready := by
  obtain ⟨found, hfound⟩ := Option.ne_none_iff_exists'.1 hp
  rw [hfound]
  simp only [Pi.poll]
  split_ifs with hi
  · simp [Pollfd.ready]
  · exact h.quiet i (not_le.1 hi)

/-- A free slot has got a descriptor that is in another slot, or that is closed. -/
theorem PollInv.not_record_of_stale (h : PollInv s) {s' : PollState} {i : Fin maxClient} (fd : ℤ)
    (hconns : s'.conns ⊆ s.conns) (hi : held s.client i = none) (hi' : held s'.client i = some fd)
    (hkeep : ∀ j, j ≠ i → held s.client j = some fd → fd ∈ s'.conns →
      held s'.client j = some fd) : ¬ Record s' := by
  intro hrec
  refine h.records.stale hconns hi hi' (fun j hj hfd => hkeep j ?_ hj hfd)
    (hrec.records fun fd hfd => h.nonneg (hconns hfd))
  rintro rfl
  rw [hi] at hj
  cases hj

/-- Where the first loop runs with a descriptor it has put into a slot before, the table is no
record after the pass: closing a connection in the same pass does not undo the second entry. -/
theorem PollInv.not_record (h : PollInv s) (hs : ¬ Sound s w)
    {r : PollState × List (Fin maxClient)} (hr : cliCommSscInit s w = .ok r) : ¬ Record r.1 := by
  obtain ⟨hc, hs⟩ := not_or.1 hs
  have h₁ := h.poll w.poll
  obtain ⟨-, -, htmp⟩ := poll_maxi s w.poll
  rw [init_idle hc] at hr
  rcases hfree : freeSlot (Pi.poll s w.poll).client with _ | i
  · rw [Pi.assign, hfree] at hr
    cases hr
  obtain ⟨hi1, hfd⟩ := freeSlot_some hfree
  have hnone := (held_eq_none hi1).2 hfd
  rw [poll_fd] at hfd
  have h0 : 0 ≤ (Pi.poll s w.poll).tmp := by
    rw [htmp]
    by_contra hneg
    exact hs ⟨not_le.1 hneg, i, hi1, hfd⟩
  have hnready : w.poll ≠ none → ¬ ((Pi.poll s w.poll).client i).ready :=
    fun hp => h.not_ready hp hfd
  have hfail : w.poll = none → (Pi.poll s w.poll).nReady = -1 := fun hp => by rw [hp]; rfl
  set s₁ := Pi.poll s w.poll
  have hheld : held (s₁.filled i).client = Function.update (held s₁.client) i (some s₁.tmp) := by
    rw [PollState.filled, held_update _ _ hi1, if_pos h0]
  have hfilled : ∀ s' : PollState, s'.client = (s₁.filled i).client → s'.conns = s₁.conns →
      ¬ Record s' := by
    intro s' hclient hconns
    refine h₁.not_record_of_stale s₁.tmp (hconns ▸ Finset.Subset.refl _) hnone ?_
      fun j hji hj _ => ?_
    · rw [hclient, hheld, Function.update_self]
    · rw [hclient, hheld, Function.update_of_ne hji, hj]
  rcases assign_eq hfree with he | ⟨hn, he⟩
  · obtain rfl := Except.ok.inj (he.symm.trans hr)
    exact hfilled _ rfl rfl
  · obtain rfl := Except.ok.inj (he.symm.trans hr)
    obtain ⟨-, ⟨hclient, hconns⟩ | ⟨k, hk, -, hready, hclient, hconns⟩⟩ :=
      serve_spec w (slotsTo (s₁.filled i).maxi) (s₁.filled i)
    · exact hfilled _ hclient hconns
    · have hki : k ≠ i := by
        rintro rfl
        have hp : w.poll ≠ none := fun hp => by
          rw [hfail hp] at hn
          omega
        simp only [PollState.filled, Function.update_self] at hready
        exact hnready hp hready
      have hk1 := (mem_slotsTo.1 hk).1
      have hheld' : held (Pi.serve w (slotsTo (s₁.filled i).maxi) (s₁.filled i)).1.client
          = Function.update (Function.update (held s₁.client) i (some s₁.tmp)) k none := by
        rw [hclient, held_update _ _ hk1, if_neg (by simp), hheld]
      refine h₁.not_record_of_stale s₁.tmp (hconns ▸ Finset.erase_subset _ _) hnone ?_
        fun j hji hj hmem => ?_
      · rw [hheld', Function.update_of_ne (Ne.symm hki), Function.update_self]
      · have hjk : j ≠ k := by
          rintro rfl
          obtain ⟨-, -, hfdj⟩ := held_eq_some.1 hj
          rw [hconns] at hmem
          simp only [PollState.filled, Function.update_of_ne hki, hfdj] at hmem
          exact Finset.notMem_erase _ _ hmem
        rw [hheld', Function.update_of_ne hjk, Function.update_of_ne hji, hj]

theorem PollInv.listening (sockFd tmp : ℤ) (queue : PiState × List U8) :
    PollInv (.listening sockFd tmp queue) := by
  have hheld : held (PollState.listening sockFd tmp queue).client = fun _ => none := by
    funext i
    refine if_neg fun ⟨hi, h0⟩ => ?_
    have hne : i ≠ 0 := by
      rintro rfl
      exact absurd hi (by decide)
    simp only [PollState.listening, if_neg hne] at h0
    omega
  refine ⟨?_, fun i hi => ?_, fun i hi => ?_⟩
  · rw [hheld]
    exact records_empty
  · rw [hheld] at hi
    exact absurd rfl hi
  · have hne : i ≠ 0 := by
      rintro rfl
      exact absurd hi (Nat.not_lt_zero _)
    simp [PollState.listening, hne, Pollfd.ready]

end Step

/-- In every run, with room in the table for every connection, the table is a record of the open
connections all along exactly when the first loop never runs with a descriptor it has put into a
slot before. -/
theorem client_table_iff (sockFd tmp : ℤ) (queue : PiState × List U8) {es : List WakeUp}
    {s : Except PollFault PollState} (hp : Path pollStep (.ok (.listening sockFd tmp queue)) es s)
    (hroom : EachStep pollStep (At Room) (.ok (.listening sockFd tmp queue)) es) :
    (∀ pre s', pre <+: es → Path pollStep (.ok (.listening sockFd tmp queue)) pre s' → Recorded s')
      ↔ EachStep pollStep (At Sound) (.ok (.listening sockFd tmp queue)) es := by
  have hstep : ∀ {s : PollState} {w : WakeUp} {s' : Except PollFault PollState},
      pollStep (.ok s) w = some s' → Possible s w ∧ (cliCommSscInit s w).map Prod.fst = s' := by
    intro s w s' h
    simp only [pollStep] at h
    split_ifs at h with hposs
    exact ⟨hposs, Option.some.inj h⟩
  let I : Except PollFault PollState → Prop := fun s => ∃ s₁, s = .ok s₁ ∧ PollInv s₁
  refine hp.always_iff (I := I) ?_ ?_ ?_ ⟨_, rfl, .listening sockFd tmp queue⟩ hroom
  · rintro _ ⟨s, rfl, h⟩
    exact h.record
  · rintro _ w s' ⟨s, rfl, h⟩ hroom hsound hs
    obtain ⟨hposs, rfl⟩ := hstep hs
    obtain ⟨r, hr, h'⟩ := h.next hposs hroom hsound
    exact ⟨r.1, by rw [hr]; rfl, h'⟩
  · rintro _ w s' ⟨s, rfl, h⟩ - hsound hs
    obtain ⟨-, rfl⟩ := hstep hs
    rcases hr : cliCommSscInit s w with fault | r
    · exact id
    · exact h.not_record hsound hr

/-! ## A connection that sends data -/

section Duplicate

/-- A connection is made. -/
def wakeAccept (fd : ℤ) : WakeUp where
  poll := some fun i => if i = 0 then pollin else 0
  accept := fd
  read := fun _ => []
  mem := fun _ _ => true

/-- The connection of slot 1 has sent data. -/
def wakeData (data : List U8) : WakeUp where
  poll := some fun i => if i = 1 then pollin else 0
  accept := -1
  read := fun _ => data
  mem := fun _ _ => true

/-- Before any connection, with an empty queue. -/
def atRest : PollState := .listening 3 0 (⟨.blank, [], 0, 0⟩, [])

theorem pollStep_ok {s : PollState} {w : WakeUp} {r : PollState × List (Fin maxClient)}
    (hp : Possible s w) (hr : cliCommSscInit s w = .ok r) : pollStep (.ok s) w = some (.ok r.1) := by
  rw [pollStep, if_pos hp, hr]
  rfl

/-- A connection is made, another one fails, and then the first one sends: the table is a record. -/
theorem client_table_iff_fails : ∃ s,
    Path pollStep (.ok atRest) [wakeAccept 4, wakeAccept (-1), wakeData [0]] s ∧ Recorded s := by
  have hrun : ∃ s, Path pollStep (.ok atRest) [wakeAccept 4, wakeAccept (-1), wakeData [0]] s
      ∧ EachStep pollStep (At Room) (.ok atRest) [wakeAccept 4, wakeAccept (-1), wakeData [0]]
      ∧ EachStep pollStep (At Sound) (.ok atRest) [wakeAccept 4, wakeAccept (-1), wakeData [0]] := by
    refine ⟨_, .cons (pollStep_ok ?_ rfl) (.cons (pollStep_ok ?_ rfl) (.cons (pollStep_ok ?_ rfl)
      (.nil _))), .cons (pollStep_ok ?_ rfl) ?_ (.cons (pollStep_ok ?_ rfl) ?_ (.cons
      (pollStep_ok ?_ rfl) ?_ trivial)), .cons (pollStep_ok ?_ rfl) ?_ (.cons (pollStep_ok ?_ rfl) ?_
      (.cons (pollStep_ok ?_ rfl) ?_ trivial))⟩
    all_goals decide
  obtain ⟨s, hp, hroom, hsound⟩ := hrun
  exact ⟨s, hp, (client_table_iff 3 0 _ hp hroom).2 hsound _ s (List.prefix_refl _) hp⟩

/-- A connection is made and then sends: the loop enters its descriptor a second time. -/
theorem client_table_duplicate : ∃ s,
    Path pollStep (.ok atRest) [wakeAccept 4, wakeData [0]] s
      ∧ EachStep pollStep (At Room) (.ok atRest) [wakeAccept 4, wakeData [0]] ∧ ¬ Recorded s := by
  refine ⟨_, .cons (pollStep_ok ?_ rfl) (.cons (pollStep_ok ?_ rfl) (.nil _)),
    .cons (pollStep_ok ?_ rfl) ?_ (.cons (pollStep_ok ?_ rfl) ?_ trivial), fun h => ?_⟩
  rotate_left 6
  · exact absurd (h.distinct 1 2 (by decide) (by decide) (by decide) (by decide)) (by decide)
  all_goals decide

end Duplicate

end RookieMac.Pi
