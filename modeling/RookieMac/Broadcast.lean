import RookieMac.PollLoop

/-!
# The message to every client

The loop of `pi_send_msg_ssc` over the client table. It passes over a slot that is free, and one
with the descriptor of the slot before; it leaves after a write that fails. `write` is the outcome
of the write to each descriptor.
-/

namespace RookieMac.Pi

open CMem

/-- `g_client[i]`. -/
def clientAt (client : Fin maxClient → Pollfd) (i : ℕ) : Except PollFault Pollfd :=
  if h : i < maxClient then .ok (client ⟨i, h⟩) else .error .outOfBounds

/-- The loop over the slots listed: the writes it makes, each with its descriptor and its bytes. -/
def sendClients (client : Fin maxClient → Pollfd) (write : ℤ → Bool) (tmp : List U8) :
    List ℕ → Except PollFault (List (ℤ × List U8))
  | [] => return []
  | i :: is => do
    let p ← clientAt client i
    if p.fd < 0 then sendClients client write tmp is
    else
      let q ← clientAt client (i - 1)
      if p.fd = q.fd then sendClients client write tmp is
      else if write p.fd then
        let sent ← sendClients client write tmp is
        return (p.fd, tmp) :: sent
      else return [(p.fd, tmp)]

/-- `pi_send_msg_ssc`, or `none` where there is no memory for the message: the process exits. -/
def piSendMsgClients (client : Fin maxClient → Pollfd) (mem : Bool) (write : ℤ → Bool)
    (type : PiMacMsgid) (msg : List U8) : Except PollFault (Option (List (ℤ × List U8))) :=
  if mem then
    (sendClients client write (piSendMsgSsc type msg) (List.range' 1 (maxClient - 1))).map some
  else .ok none

end RookieMac.Pi
