import RookieMac.PiCommSsc
import RookieMac.Lib.Circular

/-!
# PI's message queue in memory

`insert_msg_to_queue`, `get_msg_data` and `del_dealed_msg` on the list's pointers, and the two
threads that share the queue: the one that calls `pi_recevie_msg_ssc`, and `deal_info_func`. What a
thread does with `msg_mutex` held by it alone is one step where the other cannot be in between; the
processing thread takes its steps one by one.
-/

namespace RookieMac.Pi

open CMem Circular

variable {α : Type} [DecidableEq α]

/-- The addresses the code names: `&g_msg_head`, `NULL`, and what `list_del` leaves in an entry. -/
structure QueueAddrs (α : Type) where
  msgHead : α
  null : α
  poison₁ : α
  poison₂ : α
  msgHead_ne_null : msgHead ≠ null

/-- The memory of the queue: the list pointers, and for the address of the `list` of each allocated
`struct msg_queue` its data. An entry without memory for its data is freed at once, so `data` is
never null. -/
structure QueueMem (α : Type) where
  list : Links α
  entry : α → Option (List U8)

namespace QueueMem

variable (addrs : QueueAddrs α)

def insertMsgToQueue (entry : α) (m : QueueMem α) : QueueMem α :=
  { m with list := m.list.add entry addrs.msgHead }

/-- `none` where `head->next` is not in a `struct msg_queue`, which the C code would read anyway. -/
def getMsgData (m : QueueMem α) : Option (List U8) :=
  m.entry (m.list.next addrs.msgHead)

/-- `none` where what it frees was not allocated. -/
def delDealedMsg (m : QueueMem α) : Option (QueueMem α) :=
  let next := m.list.next addrs.msgHead
  if next ≠ addrs.null then
    match m.entry next with
    | some _ => some {
        list := m.list.del addrs.poison₁ addrs.poison₂ next
        entry := Function.update m.entry next none }
    | none => none
  else some m

end QueueMem

/-- Where `deal_info_func` is. -/
inductive DealPc (α : Type)
  /-- Before `pthread_mutex_lock`. -/
  | lock
  /-- At the test of `g_data`. -/
  | check
  /-- Blocked in `pthread_cond_wait`. -/
  | wait
  /-- Woken up in `pthread_cond_wait`, without the mutex. -/
  | woken
  /-- At the test of `list_empty`. -/
  | loop
  /-- Before `get_msg_data`. -/
  | deal
  /-- Before `del_dealed_msg`; `rece_msg` is the data of `entry`. -/
  | del (entry : α)
  /-- After the inner loop. -/
  | reset
  deriving DecidableEq

/-- It does not hold `msg_mutex`. -/
def DealPc.Free : DealPc α → Prop
  | .lock | .wait | .woken => True
  | _ => False

instance : (pc : DealPc α) → Decidable pc.Free
  | .lock | .wait | .woken => isTrue trivial
  | .check | .loop | .deal | .del _ | .reset => isFalse id

structure DealState (α : Type) where
  mem : QueueMem α
  gData : ℤ
  pc : DealPc α
  /-- The calls of `pi_recevie_msg_ssc` that have still to signal `msg_cond`. -/
  signals : ℕ
  db : PiDbMacInfo
  dsThreads : ℕ

inductive DealEvent (α : Type)
  /-- `pi_recevie_msg_ssc`, up to the unlock; `entry` is what its allocation returned. -/
  | recv (entry : α) (msgText : List U8)
  | signal
  /-- A wakeup of `pthread_cond_wait` without a signal. -/
  | spurious
  | lock
  | check
  | loop
  /-- `get_msg_data` and the `switch`. `mem` is the outcome of the allocation a handler makes. -/
  | deal (mem : Bool) (entry : α) (receMsg : List U8)
  | del (entry : α)
  | reset

section Step

variable (addrs : QueueAddrs α) (hash : HashFn)

def dealStep (s : DealState α) : DealEvent α → Option (DealState α)
  | .recv entry msgText =>
    if s.pc.Free ∧ entry ≠ addrs.null ∧ entry ≠ addrs.msgHead ∧ s.mem.entry entry = none then
      some { s with
        mem := QueueMem.insertMsgToQueue addrs entry
          { s.mem with entry := Function.update s.mem.entry entry (some msgText) }
        gData := 1
        signals := s.signals + 1 }
    else none
  | .signal =>
    match s.signals with
    | 0 => none
    | signals + 1 => some { s with
        signals := signals, pc := if s.pc = .wait then .woken else s.pc }
  | .spurious => if s.pc = .wait then some { s with pc := .woken } else none
  | .lock => if s.pc = .lock ∨ s.pc = .woken then some { s with pc := .check } else none
  | .check =>
    if s.pc = .check then some { s with pc := if s.gData = 0 then .wait else .loop } else none
  | .loop =>
    if s.pc = .loop then
      some { s with pc := if s.mem.list.Empty addrs.msgHead then .reset else .deal }
    else none
  | .deal mem entry receMsg =>
    if s.pc = .deal ∧ s.mem.list.next addrs.msgHead = entry
        ∧ QueueMem.getMsgData addrs s.mem = some receMsg then
      some { s with
        db := dealReceMsg hash mem receMsg s.db
        dsThreads :=
          if msgType receMsg = SscMacMsgid.macFetch.val then s.dsThreads + 1 else s.dsThreads
        pc := .del entry }
    else none
  | .del entry =>
    match s.pc, QueueMem.delDealedMsg addrs s.mem with
    | .del _, some mem =>
      if s.mem.list.next addrs.msgHead = entry then some { s with mem := mem, pc := .loop }
      else none
    | _, _ => none
  | .reset => if s.pc = .reset then some { s with gData := 0, pc := .lock } else none

end Step

/-- `LIST_HEAD(g_msg_head)`, before any message and with the processing thread about to start. -/
def DealState.start (addrs : QueueAddrs α) (list : Links α) (db : PiDbMacInfo) : DealState α where
  mem := ⟨list.init addrs.msgHead, fun _ => none⟩
  gData := 0
  pc := .lock
  signals := 0
  db := db
  dsThreads := 0

/-- The messages received in a run, with the entries they were put in. -/
def arrivals (es : List (DealEvent α)) : List (α × List U8) :=
  es.filterMap fun
    | .recv entry msgText => some (entry, msgText)
    | _ => none

/-- The messages dispatched in a run, with the entries they were taken from. -/
def dispatches (es : List (DealEvent α)) : List (α × List U8) :=
  es.filterMap fun
    | .deal _ entry receMsg => some (entry, receMsg)
    | _ => none

/-- The queue holds the messages, first to last. -/
structure DealState.Queue (addrs : QueueAddrs α) (s : DealState α) (q : List (α × List U8)) :
    Prop where
  ring : Ring s.mem.list addrs.msgHead (q.map Prod.fst)
  entry_eq : ∀ x ∈ q, s.mem.entry x.1 = some x.2

/-- What of the queue has still to be dispatched: between `get_msg_data` and `del_dealed_msg` the
first entry has been. -/
def DealState.pending (s : DealState α) (q : List (α × List U8)) : List (α × List U8) :=
  match s.pc with
  | .del _ => q.tail
  | _ => q

end RookieMac.Pi
