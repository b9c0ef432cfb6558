import RookieMac.Lib.Runs

/-!
# SSC's socket

`pthread_deal_func` and the sends of the other threads, which share the descriptor
`g_sock_info.sock_fd`, over the descriptors of SSC's process. A send whose write fails closes the
descriptor, and the function that reads goes back to `socket` only where a read of its own fails.
The kernel gives out a number that is not in use. A `connect` succeeds only on a socket of
`pthread_deal_func` that is not connected yet: on a descriptor that another part of the process has
under the same number it is taken to fail.
-/

namespace RookieMac.Ssc

/-- What a descriptor is. -/
inductive Desc
  /-- A socket of `pthread_deal_func`. -/
  | own (connected : Bool)
  /-- Of another part of the process. -/
  | other
  deriving DecidableEq

/-- Where `pthread_deal_func` is. -/
inductive SockPc
  /-- At `RE_CONN`. -/
  | socket
  | connect
  /-- In `ssc_send_pi_fetch`. -/
  | fetch
  | read
  /-- Before the `close` after a read that failed. -/
  | close
  | finished
  deriving DecidableEq

/-- A thread that sends: `pthread_deal_func`, or one of the others. -/
inductive Sender
  | deal
  | other
  deriving DecidableEq

structure SockState where
  fds : ℤ → Option Desc
  sockFd : ℤ
  pc : SockPc
  /-- The thread in `ssc_send_msg_pi` whose write has failed, before its `close`; it holds
  `send_mutex`. -/
  failed : Option Sender

inductive SockEvent
  /-- What `socket` returns. -/
  | socket (fd : ℤ)
  | connect (ok : Bool)
  | write (who : Sender) (ok : Bool)
  | sendClose
  /-- A read that returns bytes, and the handler of the message. -/
  | read
  | readFails
  | close
  /-- Another part of the process opens or closes a descriptor. -/
  | otherOpen (fd : ℤ)
  | otherClose (fd : ℤ)
  deriving DecidableEq

/-- The descriptor can be written to and read from. -/
def SockState.Up (s : SockState) : Prop :=
  s.fds s.sockFd = some (.own true) ∨ s.fds s.sockFd = some .other

instance (s : SockState) : Decidable s.Up := inferInstanceAs (Decidable (_ ∨ _))

/-- `close(g_sock_info.sock_fd)`. -/
def SockState.closed (s : SockState) : SockState :=
  { s with fds := Function.update s.fds s.sockFd none }

/-- The send of `ssc_send_pi_fetch` is over. -/
def SockState.sent (s : SockState) : Sender → SockState
  | .deal => { s with pc := .read }
  | .other => s

def sockStep (s : SockState) : SockEvent → Option SockState
  | .socket fd =>
    if s.pc = .socket then
      if fd < 0 then some { s with sockFd := fd, pc := .finished }
      else if s.fds fd = none then some { s with
        fds := Function.update s.fds fd (some (.own false)), sockFd := fd, pc := .connect }
      else none
    else none
  | .connect ok =>
    if s.pc = .connect then
      if ok then
        if s.fds s.sockFd = some (.own false) then some { s with
          fds := Function.update s.fds s.sockFd (some (.own true)), pc := .fetch }
        else none
      else some s
    else none
  | .write who ok =>
    if s.failed = none ∧ (who = .deal → s.pc = .fetch) then
      if ok then
        if s.Up then some (s.sent who) else none
      else some { s with failed := some who }
    else none
  | .sendClose =>
    match s.failed with
    | none => none
    | some who => some ({ s.closed with failed := none }.sent who)
  | .read => if s.pc = .read ∧ s.Up then some s else none
  | .readFails => if s.pc = .read then some { s with pc := .close } else none
  | .close => if s.pc = .close then some { s.closed with pc := .socket } else none
  | .otherOpen fd =>
    if 0 ≤ fd ∧ s.fds fd = none then
      some { s with fds := Function.update s.fds fd (some .other) }
    else none
  | .otherClose fd =>
    if s.fds fd = some .other then some { s with fds := Function.update s.fds fd none } else none

/-- Before the first `socket`: `g_sock_info` is zero. -/
def SockState.start (fds : ℤ → Option Desc) : SockState := ⟨fds, 0, .socket, none⟩

end RookieMac.Ssc
