import RookieMac.Reconnect

/-!
# When SSC loses PI for good

A send that fails closes the descriptor but leaves `pthread_deal_func` where it is. Where that is the
loop that connects, the loop goes on with a descriptor that is not a socket any more, and SSC is
never connected again; nor is it where `socket` fails, which ends the function. From everywhere else
it gets back to a connection.
-/

namespace RookieMac.Ssc

open Runs

section Moves

inductive SockMoves (s : SockState) : SockEvent → SockState → Prop
  | socketFails (fd : ℤ) (hpc : s.pc = .socket) (hfd : fd < 0) :
      SockMoves s (.socket fd) { s with sockFd := fd, pc := .finished }
  | socket (fd : ℤ) (hpc : s.pc = .socket) (hfd : 0 ≤ fd) (hfree : s.fds fd = none) :
      SockMoves s (.socket fd) { s with
        fds := Function.update s.fds fd (some (.own false)), sockFd := fd, pc := .connect }
  | connect (hpc : s.pc = .connect) (hown : s.fds s.sockFd = some (.own false)) :
      SockMoves s (.connect true) { s with
        fds := Function.update s.fds s.sockFd (some (.own true)), pc := .fetch }
  | connectFails (hpc : s.pc = .connect) : SockMoves s (.connect false) s
  | write (who : Sender) (hfree : s.failed = none) (hpc : who = .deal → s.pc = .fetch) (hup : s.Up) :
      SockMoves s (.write who true) (s.sent who)
  | writeFails (who : Sender) (hfree : s.failed = none) (hpc : who = .deal → s.pc = .fetch) :
      SockMoves s (.write who false) { s with failed := some who }
  | sendClose (who : Sender) (hfailed : s.failed = some who) :
      SockMoves s .sendClose ({ s.closed with failed := none }.sent who)
  | read (hpc : s.pc = .read) (hup : s.Up) : SockMoves s .read s
  | readFails (hpc : s.pc = .read) : SockMoves s .readFails { s with pc := .close }
  | close (hpc : s.pc = .close) : SockMoves s .close { s.closed with pc := .socket }
  | otherOpen (fd : ℤ) (hfd : 0 ≤ fd) (hfree : s.fds fd = none) :
      SockMoves s (.otherOpen fd) { s with fds := Function.update s.fds fd (some .other) }
  | otherClose (fd : ℤ) (hother : s.fds fd = some .other) :
      SockMoves s (.otherClose fd) { s with fds := Function.update s.fds fd none }

variable {s s' : SockState} {e : SockEvent}

theorem sockStep_iff : sockStep s e = some s' ↔ SockMoves s e s' := by
  constructor
  · intro h
    rcases e with fd | ok | ⟨who, ok⟩ | _ | _ | _ | _ | fd | fd <;> simp only [sockStep] at h
    · split_ifs at h with hpc hfd hfree <;> cases h
      · exact .socketFails fd hpc hfd
      · exact .socket fd hpc (not_lt.1 hfd) hfree
    · split_ifs at h with hpc hok hown <;> cases h
      · rw [hok]
        exact .connect hpc hown
      · rw [Bool.not_eq_true] at hok
        rw [hok]
        exact .connectFails hpc
    · split_ifs at h with hfree hok hup <;> cases h
      · rw [hok]
        exact .write who hfree.1 hfree.2 hup
      · rw [Bool.not_eq_true] at hok
        rw [hok]
        exact .writeFails who hfree.1 hfree.2
    · rcases hf : s.failed with _ | who <;> rw [hf] at h <;> cases h
      exact .sendClose who hf
    · split_ifs at h with hread
      cases h
      exact .read hread.1 hread.2
    · split_ifs at h with hpc
      cases h
      exact .readFails hpc
    · split_ifs at h with hpc
      cases h
      exact .close hpc
    · split_ifs at h with hopen
      cases h
      exact .otherOpen fd hopen.1 hopen.2
    · split_ifs at h with hother
      cases h
      exact .otherClose fd hother
  · intro h
    cases h with
    | socketFails fd hpc hfd => simp [sockStep, hpc, hfd]
    | socket fd hpc hfd hfree => simp [sockStep, hpc, not_lt.2 hfd, hfree]
    | connect hpc hown => simp [sockStep, hpc, hown]
    | connectFails hpc => simp [sockStep, hpc]
    | write who hfree hpc hup => simpa [sockStep, hfree, hup] using hpc
    | writeFails who hfree hpc => simpa [sockStep, hfree] using hpc
    | sendClose who hfailed => simp [sockStep, hfailed]
    | read hpc hup => simp [sockStep, hpc, hup]
    | readFails hpc => simp [sockStep, hpc]
    | close hpc => simp [sockStep, hpc]
    | otherOpen fd hfd hfree => simp [sockStep, hfd, hfree]
    | otherClose fd hother => simp [sockStep, hother]

end Moves

section Invariant

/-- SSC has one socket open at most, the one the descriptor names. -/
structure SockInv (s : SockState) : Prop where
  own : ∀ fd b, s.fds fd = some (.own b) → fd = s.sockFd
  socket : s.pc = .socket ∨ s.pc = .finished → ∀ fd b, s.fds fd ≠ some (.own b)
  connect : s.pc = .connect → s.fds s.sockFd ≠ some (.own true)
  failed : s.failed = some .deal → s.pc = .fetch
  finite : {fd | s.fds fd ≠ none}.Finite

variable {s s' : SockState} {e : SockEvent}

theorem sockInv_start {fds : ℤ → Option Desc} (h : ∀ fd b, fds fd ≠ some (.own b))
    (hfin : {fd | fds fd ≠ none}.Finite) : SockInv (.start fds) where
  own fd b hfd := absurd hfd (h fd b)
  socket _ := h
  connect hpc := by cases hpc
  failed hf := by cases hf
  finite := hfin

theorem own_of_update {fd fd' : ℤ} {b : Bool} {d : Option Desc} (hd : ∀ b, d ≠ some (.own b))
    (h : Function.update s.fds fd d fd' = some (.own b)) : s.fds fd' = some (.own b) := by
  rcases eq_or_ne fd' fd with rfl | hne
  · rw [Function.update_self] at h
    exact absurd h (hd b)
  · rwa [Function.update_of_ne hne] at h

theorem finite_update (h : {fd | s.fds fd ≠ none}.Finite) (fd : ℤ) (d : Option Desc) :
    {fd' | Function.update s.fds fd d fd' ≠ none}.Finite := by
  refine (h.insert fd).subset fun fd' h' => ?_
  rcases eq_or_ne fd' fd with rfl | hne
  · exact .inl rfl
  · rw [Set.mem_ofPred_eq, Function.update_of_ne hne] at h'
    exact .inr h'

theorem SockInv.closed_own (h : SockInv s) (fd : ℤ) (b : Bool) :
    s.closed.fds fd ≠ some (.own b) := by
  unfold SockState.closed
  rcases eq_or_ne fd s.sockFd with rfl | hfd
  · simp
  · simp only [Function.update_of_ne hfd]
    exact fun h' => hfd (h.own fd b h')

theorem SockInv.failed_ne (h : SockInv s) (hpc : s.pc ≠ .fetch) : s.failed ≠ some .deal :=
  fun hf => hpc (h.failed hf)

/-- Another part of the process opens or closes a descriptor. -/
theorem SockInv.other (h : SockInv s) (fd : ℤ) {d : Option Desc} (hd : ∀ b, d ≠ some (.own b)) :
    SockInv { s with fds := Function.update s.fds fd d } where
  own fd' b h' := h.own fd' b (own_of_update hd h')
  socket hpc fd' b h' := h.socket hpc fd' b (own_of_update hd h')
  connect hpc h' := h.connect hpc (own_of_update hd h')
  failed := h.failed
  finite := finite_update h.finite fd d

/-- The descriptor is closed. -/
theorem SockInv.close (h : SockInv s) {pc : SockPc} {failed : Option Sender}
    (hf : failed ≠ some .deal) : SockInv { s.closed with pc := pc, failed := failed } where
  own fd b h' := absurd h' (h.closed_own fd b)
  socket _ := h.closed_own
  connect _ := h.closed_own _ _
  failed h' := absurd h' hf
  finite := finite_update h.finite _ _

theorem SockInv.step (h : SockInv s) (hm : SockMoves s e s') : SockInv s' := by
  cases hm with
  | socketFails fd hpc hfd =>
    refine ⟨fun fd' b h' => absurd h' (h.socket (.inl hpc) fd' b), fun _ => h.socket (.inl hpc),
      fun h' => (by cases h'), fun hf => ?_, h.finite⟩
    exact absurd hf (h.failed_ne (by simp [hpc]))
  | socket fd hpc hfd hfree =>
    refine ⟨fun fd' b h' => ?_, fun h' => (by simp at h'), fun _ => by simp, fun hf => ?_,
      finite_update h.finite _ _⟩
    · by_contra hne
      simp only [Function.update_of_ne hne] at h'
      exact h.socket (.inl hpc) fd' b h'
    · exact absurd hf (h.failed_ne (by simp [hpc]))
  | connect hpc hown =>
    refine ⟨fun fd' b h' => ?_, fun h' => (by simp at h'), fun h' => (by cases h'), fun _ => rfl,
      finite_update h.finite _ _⟩
    by_contra hne
    simp only [Function.update_of_ne hne] at h'
    exact hne (h.own fd' b h')
  | connectFails hpc => exact h
  | write who hfree hpc hup =>
    cases who with
    | deal =>
      refine ⟨h.own, fun h' => (by rcases h' with h' | h' <;> cases h'), fun h' => (by cases h'),
        fun hf => ?_, h.finite⟩
      exact absurd (hf.symm.trans hfree) (by simp)
    | other => exact h
  | writeFails who hfree hpc =>
    refine ⟨h.own, h.socket, h.connect, fun hf => hpc ?_, h.finite⟩
    simpa using hf
  | sendClose who hfailed =>
    cases who with
    | deal => exact h.close (by simp)
    | other => exact h.close (by simp)
  | read hpc hup => exact h
  | readFails hpc =>
    refine ⟨h.own, fun h' => (by simp at h'), fun h' => (by cases h'), fun hf => ?_, h.finite⟩
    exact absurd hf (h.failed_ne (by simp [hpc]))
  | close hpc => exact h.close (h.failed_ne (by simp [hpc]))
  | otherOpen fd hfd hfree => exact h.other fd (by simp)
  | otherClose fd hother => exact h.other fd (by simp)

theorem SockInv.path {es : List SockEvent} (hp : Path sockStep s es s') (h : SockInv s) :
    SockInv s' := by
  induction hp with
  | nil s => exact h
  | cons hstep _ ih => exact ih (h.step (sockStep_iff.1 hstep))

end Invariant

/-! ## Lost for good -/

section Lost

/-- The loop that connects has a descriptor that is no socket of it, or the function has ended. -/
def SockState.Lost (s : SockState) : Prop :=
  (s.pc = .connect ∨ s.pc = .finished) ∧ ∀ b, s.fds s.sockFd ≠ some (.own b)

/-- A failed send does not close the descriptor under the loop that connects, and `socket` does not
fail. -/
def Keeps (s : SockState) (e : SockEvent) : Prop :=
  (e = .sendClose → s.pc ≠ .connect) ∧ ∀ fd, e = .socket fd → 0 ≤ fd

variable {s s' : SockState} {e : SockEvent}

/-- The function goes on, and the socket is there to be connected. -/
def SockState.Ready (s : SockState) : Prop :=
  s.pc ≠ .finished ∧ (s.pc = .connect → s.fds s.sockFd = some (.own false))

theorem SockState.Ready.not_lost (h : s.Ready) : ¬ s.Lost := by
  rintro ⟨hpc | hpc, hown⟩
  · exact hown false (h.2 hpc)
  · exact h.1 hpc

theorem SockState.Ready.step (h : s.Ready) (hc : Keeps s e) (hm : SockMoves s e s') :
    s'.Ready := by
  have hother : ∀ {fd : ℤ} {d : Option Desc}, s.fds fd ≠ some (.own false) →
      { s with fds := Function.update s.fds fd d }.Ready := by
    refine fun {fd d} hfd => ⟨h.1, fun hpc => ?_⟩
    have hown := h.2 hpc
    have hne : s.sockFd ≠ fd := fun heq => hfd (heq ▸ hown)
    show Function.update s.fds fd d s.sockFd = _
    rw [Function.update_of_ne hne, hown]
  have haway : ∀ {s : SockState}, s.pc ≠ .finished → s.pc ≠ .connect → s.Ready :=
    fun hfin hpc => ⟨hfin, fun h' => absurd h' hpc⟩
  cases hm with
  | socketFails fd hpc hfd => exact absurd (hc.2 fd rfl) (not_le.2 hfd)
  | socket fd hpc hfd hfree => exact ⟨by simp, fun _ => Function.update_self _ _ _⟩
  | connect hpc hown => exact haway (by simp) (by simp)
  | connectFails hpc => exact h
  | write who hfree hpc hup =>
    cases who with
    | deal => exact haway (by simp [SockState.sent]) (by simp [SockState.sent])
    | other => exact h
  | writeFails who hfree hpc => exact h
  | sendClose who hfailed =>
    cases who with
    | deal => exact haway (by simp [SockState.sent]) (by simp [SockState.sent])
    | other => exact haway h.1 (hc.1 rfl)
  | read hpc hup => exact h
  | readFails hpc => exact haway (by simp) (by simp)
  | close hpc => exact haway (by simp) (by simp)
  | otherOpen fd hfd hfree => exact hother (by simp [hfree])
  | otherClose fd hfd => exact hother (by simp [hfd])

/-- Every step that does not keep the socket loses PI. -/
theorem SockInv.lost_of_not_keeps (h : SockInv s) (hc : ¬ Keeps s e) (hm : SockMoves s e s') :
    s'.Lost := by
  rw [Keeps, not_and_or] at hc
  push Not at hc
  rcases hc with ⟨rfl, hpc⟩ | ⟨fd, rfl, hfd⟩
  · cases hm with
    | sendClose who hfailed =>
      cases who with
      | deal => exact absurd hfailed (h.failed_ne (by simp [hpc]))
      | other => exact ⟨.inl hpc, h.closed_own _⟩
  · cases hm with
    | socketFails _ hpc _ => exact ⟨.inr rfl, h.socket (.inl hpc) fd⟩
    | socket _ _ hfd' _ => exact absurd hfd' (not_le.2 hfd)

/-- Once lost, SSC is not connected any more, and what it still sends goes elsewhere. -/
theorem SockState.Lost.step (hi : SockInv s) (h : s.Lost) (hm : SockMoves s e s') :
    s'.Lost ∧ e ≠ .connect true ∧ ∀ who, e = .write who true → s.fds s.sockFd = some .other := by
  obtain ⟨hpc, hown⟩ := h
  have hfetch : s.pc ≠ .fetch := by rcases hpc with hpc | hpc <;> simp [hpc]
  have hsocket : s.pc ≠ .socket := by rcases hpc with hpc | hpc <;> simp [hpc]
  have hread : s.pc ≠ .read := by rcases hpc with hpc | hpc <;> simp [hpc]
  have hclose : s.pc ≠ .close := by rcases hpc with hpc | hpc <;> simp [hpc]
  have hother : ∀ (fd : ℤ) {d : Option Desc}, (∀ b, d ≠ some (.own b)) →
      { s with fds := Function.update s.fds fd d }.Lost :=
    fun fd d hd => ⟨hpc, fun b h' => hown b (own_of_update hd h')⟩
  cases hm with
  | socketFails fd hpc' hfd => exact absurd hpc' hsocket
  | socket fd hpc' hfd hfree => exact absurd hpc' hsocket
  | connect hpc' hown' => exact absurd hown' (hown false)
  | connectFails _ => exact ⟨⟨hpc, hown⟩, by simp, by simp⟩
  | write who hfree hdeal hup =>
    cases who with
    | deal => exact absurd (hdeal rfl) hfetch
    | other =>
      refine ⟨⟨hpc, hown⟩, by simp, fun _ _ => ?_⟩
      exact hup.resolve_left (hown true)
  | writeFails who hfree hdeal => exact ⟨⟨hpc, hown⟩, by simp, by simp⟩
  | sendClose who hfailed =>
    cases who with
    | deal => exact absurd hfailed (hi.failed_ne hfetch)
    | other => exact ⟨⟨hpc, hi.closed_own _⟩, by simp, by simp⟩
  | read hpc' hup => exact absurd hpc' hread
  | readFails hpc' => exact absurd hpc' hread
  | close hpc' => exact absurd hpc' hclose
  | otherOpen fd hfd hfree => exact ⟨hother fd (by simp), by simp, by simp⟩
  | otherClose fd hfd => exact ⟨hother fd (by simp), by simp, by simp⟩

theorem SockState.Lost.path {es : List SockEvent} (hp : Path sockStep s es s') (hi : SockInv s)
    (h : s.Lost) : s'.Lost ∧ EachStep sockStep (fun s e => e ≠ .connect true
      ∧ ∀ who, e = .write who true → s.fds s.sockFd = some .other) s es := by
  induction hp with
  | nil s => exact ⟨h, trivial⟩
  | cons hstep _ ih =>
    have hm := sockStep_iff.1 hstep
    obtain ⟨h', hevent⟩ := h.step hi hm
    obtain ⟨hlost, heach⟩ := ih (hi.step hm) h'
    exact ⟨hlost, .cons hstep hevent heach⟩

end Lost

/-! ## Back to a connection -/

section Recover

/-- A run leads to a connection that is read from. -/
def SockState.Recovers (s : SockState) : Prop :=
  ∃ es s', Path sockStep s es s' ∧ s'.pc = .read ∧ s'.fds s'.sockFd = some (.own true)

variable {s s' : SockState} {e : SockEvent}

theorem SockState.Recovers.of_step (hm : SockMoves s e s') (h : s'.Recovers) : s.Recovers := by
  obtain ⟨es, s₁, hp, hs₁⟩ := h
  exact ⟨e :: es, s₁, .cons (sockStep_iff.2 hm) hp, hs₁⟩

theorem SockInv.exists_free (h : SockInv s) : ∃ fd, 0 ≤ fd ∧ s.fds fd = none := by
  by_contra hall
  push Not at hall
  refine Set.infinite_of_not_bddAbove (s := {fd | s.fds fd ≠ none}) ?_ h.finite
  rintro ⟨N, hN⟩
  have hmem : max (N + 1) 0 ∈ {fd | s.fds fd ≠ none} := hall _ (le_max_right _ _)
  have := hN hmem
  omega

/-- At `RE_CONN`, with no send in between. -/
theorem recovers_of_free (h : SockInv s) (hpc : s.pc = .socket) (hfree : s.failed = none) :
    s.Recovers := by
  obtain ⟨fd, hfd, hnone⟩ := h.exists_free
  refine .of_step (.socket fd hpc hfd hnone) ?_
  refine .of_step (.connect rfl (Function.update_self _ _ _)) ?_
  refine .of_step (.write .deal hfree (fun _ => rfl) (.inl (Function.update_self _ _ _))) ?_
  exact ⟨[], _, .nil _, rfl, Function.update_self _ _ _⟩

theorem recovers_of_socket (h : SockInv s) (hpc : s.pc = .socket) : s.Recovers := by
  rcases hf : s.failed with _ | _ | _
  · exact recovers_of_free h hpc hf
  · exact absurd hf (h.failed_ne (by simp [hpc]))
  · have hm := SockMoves.sendClose .other hf
    exact .of_step hm (recovers_of_free (h.step hm) hpc rfl)

theorem recovers_of_close (h : SockInv s) (hpc : s.pc = .close) : s.Recovers := by
  have hm := SockMoves.close hpc
  exact .of_step hm (recovers_of_socket (h.step hm) rfl)

theorem recovers_of_read (h : SockInv s) (hpc : s.pc = .read) : s.Recovers := by
  have hm := SockMoves.readFails hpc
  exact .of_step hm (recovers_of_close (h.step hm) rfl)

/-- The request for the configuration fails, which closes the descriptor. -/
theorem recovers_of_fetch (h : SockInv s) (hpc : s.pc = .fetch) : s.Recovers := by
  have hdeal : ∀ {s : SockState}, SockInv s → s.failed = some .deal → s.Recovers := by
    intro s h hf
    have hm := SockMoves.sendClose .deal hf
    exact .of_step hm (recovers_of_read (h.step hm) rfl)
  have hfree : ∀ {s : SockState}, SockInv s → s.pc = .fetch → s.failed = none → s.Recovers := by
    intro s h hpc hf
    have hm := SockMoves.writeFails .deal hf fun _ => hpc
    exact .of_step hm (hdeal (h.step hm) rfl)
  rcases hf : s.failed with _ | _ | _
  · exact hfree h hpc hf
  · exact hdeal h hf
  · have hm := SockMoves.sendClose .other hf
    exact .of_step hm (hfree (h.step hm) hpc rfl)

/-- From everywhere but where it is lost. -/
theorem recovers (h : SockInv s) (hlost : ¬ s.Lost) : s.Recovers := by
  rcases hs : s.pc with _ | _ | _ | _ | _ | _
  · exact recovers_of_socket h hs
  · have hown : s.fds s.sockFd = some (.own false) := by
      by_contra hne
      refine hlost ⟨.inl hs, fun b => ?_⟩
      cases b with
      | false => exact hne
      | true => exact h.connect hs
    have hm := SockMoves.connect hs hown
    exact .of_step hm (recovers_of_fetch (h.step hm) rfl)
  · exact recovers_of_fetch h hs
  · exact recovers_of_read h hs
  · exact recovers_of_close h hs
  · exact absurd ⟨.inr hs, h.socket (.inr hs) _⟩ hlost

end Recover

variable {fds : ℤ → Option Desc} {es : List SockEvent} {s : SockState}

/-- SSC does not lose PI in a run exactly when no send that fails closes the descriptor while
`pthread_deal_func` is connecting and no `socket` fails. Lost, it stays so, and what it sends goes
into another part's descriptor or nowhere; not lost, it can still get back to a connection. It has
one socket open at most. -/
theorem connection_lost_iff (hfds : ∀ fd b, fds fd ≠ some (.own b))
    (hfin : {fd | fds fd ≠ none}.Finite) (hp : Path sockStep (.start fds) es s) :
    ((∀ pre s₁, pre <+: es → Path sockStep (.start fds) pre s₁ → ¬ s₁.Lost)
        ↔ EachStep sockStep Keeps (.start fds) es)
      ∧ (s.Lost → ∀ es' s', Path sockStep s es' s' → s'.Lost
        ∧ EachStep sockStep (fun s e => e ≠ .connect true
          ∧ ∀ who, e = .write who true → s.fds s.sockFd = some .other) s es')
      ∧ (s.Recovers ↔ ¬ s.Lost)
      ∧ ∀ fd fd' b b', s.fds fd = some (.own b) → s.fds fd' = some (.own b') → fd = fd' := by
  have hstart := sockInv_start hfds hfin
  have hinv := hstart.path hp
  refine ⟨?_, fun h es' s' hp' => h.path hp' hinv, ⟨?_, recovers hinv⟩,
    fun fd fd' b b' h h' => (hinv.own fd b h).trans (hinv.own fd' b' h').symm⟩
  · refine hp.always_iff (I := fun s => SockInv s ∧ s.Ready) ?_ ?_ ?_
      ⟨hstart, by simp [SockState.start], fun h => by cases h⟩ (eachStep_true es _)
    · exact fun s h => h.2.not_lost
    · rintro s e s' ⟨h, hready⟩ - hc hstep
      have hm := sockStep_iff.1 hstep
      exact ⟨h.step hm, hready.step hc hm⟩
    · rintro s e s' ⟨h, -⟩ - hc hstep hnot
      exact hnot (h.lost_of_not_keeps hc (sockStep_iff.1 hstep))
  · rintro ⟨es', s', hp', hpc', -⟩ hlost
    have := (hlost.path hp' hinv).1.1
    rw [hpc'] at this
    rcases this with this | this <;> cases this

/-- A notification between `socket` and `connect`, after a connection that has been lost and made
again, while another part of the process gets the number of the closed descriptor. -/
theorem connection_lost_iff_notify : ∃ s, Path sockStep (.start fun _ => none)
    [.socket 3, .connect true, .write .deal true, .readFails, .close, .socket 3, .write .other false,
      .sendClose, .otherOpen 3, .connect false] s
      ∧ s.Lost ∧ s.fds s.sockFd = some .other ∧ ¬ s.Recovers := by
  have hs : ∃ s, [.socket 3, .connect true, .write .deal true, .readFails, .close, .socket 3,
      .write .other false, .sendClose, .otherOpen 3, .connect false].foldlM sockStep
      (.start fun _ => none) = some s ∧ s.pc = .connect ∧ s.fds s.sockFd = some .other :=
    ⟨_, rfl, rfl, rfl⟩
  obtain ⟨s, hs, hpc, hfd⟩ := hs
  have hlost : s.Lost := ⟨.inl hpc, fun b => by simp [hfd]⟩
  have h := connection_lost_iff (fun _ _ => by simp) (by simp) (.of_foldlM hs)
  exact ⟨s, .of_foldlM hs, hlost, hfd, fun hrec => h.2.2.1.1 hrec hlost⟩

end RookieMac.Ssc
