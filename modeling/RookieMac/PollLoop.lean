import RookieMac.PiCommSsc

/-!
# PI's connections

`cli_comm_ssc_init`: the table `g_client` of the descriptors `poll` watches, the listening socket
first, and the loop that accepts, reads and closes connections. What the kernel decides is an input
of each wake-up. An access of `g_client` outside its bounds is a fault.
-/

namespace RookieMac.Pi

open CMem

def maxClient : ℕ := 5

instance : NeZero maxClient := ⟨by decide⟩

def pollin : BitVec 16 := 1

structure Pollfd where
  fd : ℤ
  events : BitVec 16
  revents : BitVec 16
  deriving DecidableEq

inductive PollFault
  | outOfBounds
  deriving DecidableEq

structure PollState where
  client : Fin maxClient → Pollfd
  maxi : ℕ
  /-- What `accept` returned last; not set before the first call. -/
  tmp : ℤ
  nReady : ℤ
  /-- The message queue and `buff`. -/
  queue : PiState × List U8
  /-- The connections accepted and not yet closed. -/
  conns : Finset ℤ

/-- What the kernel answers in one wake-up. -/
structure WakeUp where
  /-- The events it found for each slot; `none` where `poll` fails. -/
  poll : Option (Fin maxClient → BitVec 16)
  accept : ℤ
  /-- What `read` returns for a slot: nothing where the peer has closed or the read fails. -/
  read : Fin maxClient → List U8
  /-- The outcomes of the allocations `pi_recevie_msg_ssc` makes. -/
  mem : Fin maxClient → ℕ → Bool

def Pollfd.ready (p : Pollfd) : Prop := p.revents &&& pollin ≠ 0

instance (p : Pollfd) : Decidable p.ready := inferInstanceAs (Decidable (_ ≠ _))

/-- `poll(g_client, maxi + 1, INFTIM)`. It leaves the slots alone where it fails. -/
def poll (s : PollState) : Option (Fin maxClient → BitVec 16) → PollState
  | none => { s with nReady := -1 }
  | some found =>
    let client := fun i => if i.val ≤ s.maxi then
      { s.client i with revents := if (s.client i).fd < 0 then 0 else found i } else s.client i
    { s with
      client := client
      nReady := ((List.finRange maxClient).filter fun i =>
        i.val ≤ s.maxi ∧ (client i).revents ≠ 0).length }

/-- The second loop, over the slots `1` to `maxi`. It also returns the slots it reads. -/
def serve (w : WakeUp) : List (Fin maxClient) → PollState → PollState × List (Fin maxClient)
  | [], s => (s, [])
  | i :: is, s =>
    if (s.client i).fd < 0 then serve w is s
    else if (s.client i).ready then
      match w.read i with
      | [] => ({ s with
          client := Function.update s.client i { s.client i with fd := -1 }
          conns := s.conns.erase (s.client i).fd }, [i])
      | data =>
        let s := { s with queue := cliCommSscRead (w.mem i) s.queue data, nReady := s.nReady - 1 }
        if s.nReady ≤ 0 then (s, [i])
        else
          let (s, reads) := serve w is s
          (s, i :: reads)
    else serve w is s

/-- The slots `1` to `n`. -/
def slotsTo (n : ℕ) : List (Fin maxClient) :=
  (List.finRange maxClient).filter fun i => 1 ≤ i.val ∧ i.val ≤ n

/-- Where the first loop stops; `none` where it runs to `MAX_CLIENT`. -/
def freeSlot (client : Fin maxClient → Pollfd) : Option (Fin maxClient) :=
  (slotsTo maxClient).find? fun i => (client i).fd < 0

/-- What comes after `accept`, on every wake-up but one where it has failed. -/
def assign (w : WakeUp) (s : PollState) : Except PollFault (PollState × List (Fin maxClient)) :=
  match freeSlot s.client with
  | none => .error .outOfBounds
  | some i =>
    let s := { s with
      client := Function.update s.client i { s.client i with fd := s.tmp, events := pollin }
      maxi := max s.maxi i.val
      nReady := s.nReady - 1 }
    if s.nReady ≤ 0 then .ok (s, []) else .ok (serve w (slotsTo s.maxi) s)

/-- `accept`. -/
def PollState.accepted (s : PollState) (fd : ℤ) : PollState :=
  { s with tmp := fd, conns := if 0 ≤ fd then insert fd s.conns else s.conns }

/-- One pass of the loop. It also returns the slots it reads. -/
def cliCommSscInit (s : PollState) (w : WakeUp) :
    Except PollFault (PollState × List (Fin maxClient)) :=
  let s := poll s w.poll
  if (s.client 0).ready then
    let s := s.accepted w.accept
    if s.tmp < 0 then .ok (s, []) else assign w s
  else assign w s

/-- The loop calls `accept` in this wake-up. -/
def Calls (s : PollState) (w : WakeUp) : Prop := ((poll s w.poll).client 0).ready

instance (s : PollState) (w : WakeUp) : Decidable (Calls s w) :=
  inferInstanceAs (Decidable (Pollfd.ready _))

/-- What the kernel can answer: `poll` waits until there is something to report, and the descriptor
of a new connection is not in use. -/
structure Possible (s : PollState) (w : WakeUp) : Prop where
  ready : w.poll ≠ none → 0 < (poll s w.poll).nReady
  fresh : Calls s w → 0 ≤ w.accept → w.accept ∉ s.conns ∧ w.accept ≠ (s.client 0).fd

instance (s : PollState) (w : WakeUp) : Decidable (Possible s w) :=
  decidable_of_iff ((w.poll ≠ none → 0 < (poll s w.poll).nReady)
    ∧ (Calls s w → 0 ≤ w.accept → w.accept ∉ s.conns ∧ w.accept ≠ (s.client 0).fd))
    ⟨fun h => ⟨h.1, h.2⟩, fun h => ⟨h.1, h.2⟩⟩

def pollStep : Except PollFault PollState → WakeUp → Option (Except PollFault PollState)
  | .error _, _ => none
  | .ok s, w => if Possible s w then some ((cliCommSscInit s w).map Prod.fst) else none

/-- The listening socket is the first slot, the other slots are free; `tmp` is whatever the stack
holds. -/
def PollState.listening (sockFd tmp : ℤ) (queue : PiState × List U8) : PollState where
  client := fun i => if i = 0 then ⟨sockFd, pollin, 0⟩ else ⟨-1, 0, 0⟩
  maxi := 0
  tmp := tmp
  nReady := 0
  queue := queue
  conns := ∅

end RookieMac.Pi
