import RookieMac.System
import RookieMac.Lib.Runs

/-!
# The connection while it is busy

The threads of the two programs, one step at a time, over two queues of whole messages, oldest
first. SSC's notification handler sends to PI and then updates SSC's table under the mutex; its
transfer thread holds the mutex while it sends the dynamic table; its reading thread handles what PI
sent. At PI a command sends to SSC and then clears PI's table, and the processing thread takes
SSC's messages one by one, in the order of their arrival. A step that would wait is not enabled.

PI's queue stands between the two (`QueuedConn`): the poll loop puts each message on it, and the
processing thread takes the newest. That is the order of arrival as long as each message is taken
before the next one is put (`QueuedConn.InOrder`).
-/

namespace RookieMac

open CMem

structure Conn where
  pi : Pi.PiDbMacInfo
  ssc : Ssc.MacOpraClass
  /-- From PI to SSC. -/
  down : List (List U8)
  /-- From SSC to PI. -/
  up : List (List U8)
  /-- The command has sent its message and not yet cleared PI's table. -/
  clearing : Bool
  /-- What the notification handler has sent and not yet done. -/
  handling : Option PiMacEntry
  /-- What the transfer has still to send; it holds the mutex. -/
  dumping : Option (List PiMacEntry)

/-- The steps. `mem` is the outcome of the allocation a step makes. -/
inductive ConnEvent
  | sscSend (payload : List U8) (mem : Bool)
  | sscUpdate (mem : Bool)
  | dumpLock
  | dumpSend (x : PiMacEntry) (mem : Bool)
  | dumpUnlock
  | piRecv (mem : Bool)
  | piSend
  | piClear
  | sscRecv (mem : ℕ → Bool)

namespace ConnEvent

def ofClear : ConnEvent → Bool
  | .piSend | .piClear | .sscRecv _ => true
  | _ => false

end ConnEvent

def connStep (env : Ssc.SscEnv) (s : Conn) : ConnEvent → Option Conn
  | .sscSend payload mem =>
    match s.handling with
    | some _ => none
    | none =>
      let data := Ssc.notifyData env payload
      some { s with
        up := s.up ++ (Ssc.sscSendMsgPi mem .macAddrNotify data.bytes).toList
        handling := some data }
  | .sscUpdate mem =>
    match s.handling with
    | none => none
    | some data =>
      match Ssc.sscNotifyUpdate env mem data s.ssc with
      | .error _ => none
      | .ok ssc => some { s with ssc := ssc, handling := none }
  | .dumpLock =>
    match Ssc.pthreadMutexLock s.ssc with
    | .error _ => none
    | .ok ssc =>
      some { s with ssc := ssc, dumping := some (Chained.entries ssc.dynMacTblHead) }
  | .dumpSend x mem =>
    match s.dumping with
    | some (y :: xs) =>
      if y = x then
        some { s with
          up := s.up ++ (Ssc.sscSendMsgPi mem .macUpIng (Ssc.dsInfo sscDyn x.bytes)).toList
          dumping := some xs }
      else none
    | _ => none
  | .dumpUnlock =>
    match s.dumping with
    | some [] => some { s with ssc := Ssc.pthreadMutexUnlock s.ssc, dumping := none }
    | _ => none
  | .piRecv mem =>
    match s.up with
    | [] => none
    | m :: up => some { s with pi := Pi.dealReceMsg env.hash mem m s.pi, up := up }
  | .piSend =>
    if s.clearing then none
    else some { s with
      down := s.down ++ [Pi.piSendMsgSsc .macClearDyn []]
      clearing := true }
  | .piClear =>
    if s.clearing then
      some { s with
        pi := Pi.piUpdateLocalDb env.hash true .macClearDyn [] s.pi
        clearing := false }
    else none
  | .sscRecv mem =>
    match s.down with
    | [] => none
    | m :: down =>
      match Ssc.sscRecevieMsgPi env mem m s.ssc with
      | .error _ => none
      | .ok (ssc, _) => some { s with ssc := ssc, down := down }

/-- PI and SSC with nothing on its way and no thread at work, SSC's handlers registered. -/
def Conn.idle (pi : Pi.PiDbMacInfo) (ssc : Ssc.MacOpraClass) : Conn :=
  ⟨pi, Ssc.sscMacOperaInit ssc, [], [], false, none, none⟩

/-- Every message has been processed and every thread has finished. -/
structure Conn.Quiet (s : Conn) : Prop where
  down : s.down = []
  up : s.up = []
  clearing : s.clearing = false
  handling : s.handling = none
  dumping : s.dumping = none

/-! ## With PI's queue -/

structure QueuedConn where
  conn : Conn
  msgHead : List (List U8)
  gData : ℤ
  /-- The threads of `pthread_ds_fun` started so far. -/
  dsThreads : ℕ
  /-- The processing thread is in its inner loop and holds `msg_mutex`. -/
  draining : Bool

namespace QueuedConn

end QueuedConn

namespace QueuedEvent

end QueuedEvent

def QueuedConn.idle (pi : Pi.PiDbMacInfo) (ssc : Ssc.MacOpraClass) : QueuedConn :=
  ⟨.idle pi ssc, [], 0, 0, false⟩

structure QueuedConn.Quiet (s : QueuedConn) : Prop where
  conn : s.conn.Quiet
  msgHead : s.msgHead = []

section Alone

open Runs

variable {env : Ssc.SscEnv} {s : Conn}

/-- The two steps of the notification handler are `ssc_mac_update_recv`. -/
theorem handler_path {mem : ℕ → Bool} {payload : List U8} {ssc : Ssc.MacOpraClass}
    {sent : List (List U8)} (hh : s.handling = none)
    (hr : Ssc.sscMacUpdateRecv env mem payload s.ssc = .ok (ssc, sent)) :
    Path (connStep env) s [.sscSend payload (mem 0), .sscUpdate (mem 1)]
      { s with ssc := ssc, up := s.up ++ sent } := by
  unfold Ssc.sscMacUpdateRecv at hr
  rcases hu : Ssc.sscNotifyUpdate env (mem 1) (Ssc.notifyData env payload) s.ssc with f | ssc'
  · simp [hu, bind, Except.bind] at hr
  · simp only [hu, bind, Except.bind, pure, Except.pure, Except.ok.injEq, Prod.mk.injEq] at hr
    obtain ⟨rfl, rfl⟩ := hr
    have hsend : connStep env s (.sscSend payload (mem 0)) = some { s with
        up := s.up ++ (Ssc.sscSendMsgPi (mem 0) .macAddrNotify
          (Ssc.notifyData env payload).bytes).toList
        handling := some (Ssc.notifyData env payload) } := by
      simp only [connStep, hh]
    refine .cons hsend (.single ?_)
    simp only [connStep, hu, hh]

/-- The two steps of the command are `exec_clear_rookie_mac_dynamic_cmd`. -/
theorem command_path (hc : s.clearing = false) :
    Path (connStep env) s [.piSend, .piClear]
      { s with
        pi := (Pi.execClearRookieMacDynamicCmd env.hash s.pi).1
        down := s.down ++ (Pi.execClearRookieMacDynamicCmd env.hash s.pi).2 } := by
  have hsend : connStep env s .piSend = some { s with
      down := s.down ++ [Pi.piSendMsgSsc .macClearDyn []]
      clearing := true } := by
    simp only [connStep, hc, Bool.false_eq_true, ↓reduceIte]
  refine .cons hsend (.single ?_)
  simp only [connStep, hc, ↓reduceIte, Pi.execClearRookieMacDynamicCmd, Pi.sendAndUpdate]

/-- The sends of a transfer, from the entry after which `n` allocations have been made. -/
def dumpSends (mem : ℕ → Bool) (xs : List PiMacEntry) (n : ℕ) : List ConnEvent :=
  (xs.zipIdx n).map fun q => .dumpSend q.1 (mem (q.2 + 1))

theorem dumpSends_path (mem : ℕ → Bool) : ∀ (xs : List PiMacEntry) (n : ℕ) (s : Conn),
    s.dumping = some xs → Path (connStep env) s (dumpSends mem xs n)
      { s with
        up := s.up ++ (xs.zipIdx n).flatMap fun q =>
          (Ssc.sscSendMsgPi (mem (q.2 + 1)) .macUpIng (Ssc.dsInfo sscDyn q.1.bytes)).toList
        dumping := some [] }
  | [], n, s, hd => by
    simp only [dumpSends, List.zipIdx_nil, List.map_nil, List.flatMap_nil, List.append_nil, ← hd]
    exact .nil s
  | x :: xs, n, s, hd => by
    set sent := (Ssc.sscSendMsgPi (mem (n + 1)) .macUpIng (Ssc.dsInfo sscDyn x.bytes)).toList
    have hsend : connStep env s (.dumpSend x (mem (n + 1)))
        = some { s with up := s.up ++ sent, dumping := some xs } := by
      simp only [connStep, hd, ↓reduceIte, sent]
    have hrest := dumpSends_path mem xs (n + 1)
      { s with up := s.up ++ sent, dumping := some xs } rfl
    rw [dumpSends, List.zipIdx_cons, List.map_cons, ← dumpSends, List.flatMap_cons,
      ← List.append_assoc]
    exact .cons hsend hrest

/-- The steps of the transfer are `ssc_ds_dyn_info`. -/
theorem dump_path {mem : ℕ → Bool} {sent : List (List U8)} (h0 : mem 0 = true)
    (hm : s.ssc.mutex = false) (hd : s.dumping = none)
    (hr : Ssc.sscDsDynInfo mem s.ssc = .ok (s.ssc, sent)) :
    Path (connStep env) s
      (.dumpLock :: (dumpSends mem (Chained.entries s.ssc.dynMacTblHead) 0 ++ [.dumpUnlock]))
      { s with up := s.up ++ sent } := by
  simp only [Ssc.sscDsDynInfo, h0, ↓reduceIte, Ssc.lock_free hm, bind, Except.bind, pure,
    Except.pure, Except.ok.injEq, Prod.mk.injEq] at hr
  obtain ⟨-, rfl⟩ := hr
  have hlock : connStep env s .dumpLock = some { s with
      ssc := { s.ssc with mutex := true }
      dumping := some (Chained.entries s.ssc.dynMacTblHead) } := by
    simp only [connStep, Ssc.lock_free hm]
  refine .cons hlock ((dumpSends_path mem _ 0 _ rfl).append (.single ?_))
  simp only [connStep, Ssc.pthreadMutexUnlock, ← hm, ← hd, Ssc.dsEntries,
    List.filterMap_eq_flatMap_toList]

end Alone

end RookieMac
