import RookieMac.PiCommSsc
import RookieMac.SscCommPi
import RookieMac.Lib.Sections

/-!
# What the threads lock and write

The threads of PI and of the SSC programs connected to it, each call as the mutexes it takes and
releases and the bytes it writes, in order. A `write` waits for room byte by byte, and a reader
takes some of the bytes there are before it handles them. What a call finds in a table or in a
message, and the outcomes of its allocations and writes, are any; PI's process ends where
`pi_send_msg_ssc` has no memory, so there is no such call. PI's loop is taken to come round to a
connection with something to read; what one pass of it reads is in `PollLoop`.
-/

namespace RookieMac.Threads

open CMem WaitOrder

inductive Mutex (ι : Type*)
  /-- `send_mutex` of PI. -/
  | piSend
  | msgMutex
  /-- `g_mac_local_db.mutex`. -/
  | piDb
  /-- `g_ssc_mac_opera.mutex` of an SSC program. -/
  | sscDb (i : ι)
  /-- `send_mutex` of an SSC program. -/
  | sscSend (i : ι)
  deriving DecidableEq

/-- The two directions of a connection, from PI and to PI. -/
inductive Stream (ι : Type*)
  | down (i : ι)
  | up (i : ι)
  deriving DecidableEq, Fintype

/-- The threads, under the function each one runs. Any number of them send PI's and SSC's data, and
any number take the messages of SSD. -/
inductive Thread (ι : Type*)
  | main
  | cliCommSscInit
  | dealInfoFunc
  | pthreadDsFun (k : ℕ)
  | pthreadDealFunc (i : ι)
  | sscMacUpdateRecv (i : ι) (k : ℕ)
  | sscDsDataPi (i : ι) (k : ℕ)
  deriving DecidableEq

abbrev Prog (ι : Type*) := List (Act (Mutex ι) (Stream ι) U8)

variable {ι : Type*}

/-- A `write` of the message, and how many bytes of it are out if it fails. -/
def write (c : Stream ι) (failed : Option ℕ) (msg : List U8) : Prog ι :=
  (failed.elim msg msg.take).map (.put c)

def locked (r : Mutex ι) (p : Prog ι) : Prog ι := .lock r :: (p ++ [.unlock r])

/-! ## PI -/

section Pi

/-- A write for each client the loop comes to. -/
def piSendMsgSsc (type : PiMacMsgid) (msg : List U8) (writes : List (ι × Option ℕ)) : Prog ι :=
  locked .piSend (writes.flatMap fun w => write (.down w.1) w.2 (Pi.piSendMsgSsc type msg))

/-- `pi_show_vlan_mac`, `pi_show_static_mac` and `pi_show_all_mac`. -/
def piShowMac : Prog ι := locked .piDb []

def piUpdateLocalDb (mem : Bool) : PiMacMsgid → Prog ι
  | .macAddAddr => if mem then locked .piDb [] else []
  | .macClearDyn | .clearVlanMac | .clearInterDyn => locked .piDb []
  | .macInterLearn | .macAgetime | .dsStart | .dsIng | .dsEnd => []

def piRecevieMsgSsc (mem : ℕ → Bool) : Prog ι :=
  if mem 0 then
    if mem 1 then locked .msgMutex [] else []
  else []

def piAddLocalDyn (mem : Bool) : Prog ι := if mem then locked .piDb [] else []

def piDealNotifyMsg (mem : Bool) (receMsg : List U8) : Prog ι :=
  let data := PiMacEntry.read (msgBody receMsg)
  if data.flags ≠ 0 then piAddLocalDyn mem else locked .piDb []

def piDealDsIng (mem : Bool) (receMsg : List U8) : Prog ι :=
  let type := readU32 (msgBody receMsg) 0
  if type = sscConf then locked .piDb []
  else if type = sscStatic then if mem then locked .piDb [] else []
  else if type = sscDyn then piAddLocalDyn mem
  else []

/-- The `switch` of `deal_info_func`; a fetch request starts another thread. -/
def dealReceMsg (mem : Bool) (receMsg : List U8) : Prog ι :=
  let type := msgType receMsg
  if type = SscMacMsgid.macUpIng.val then piDealDsIng mem receMsg
  else if type = SscMacMsgid.macAddrNotify.val then piDealNotifyMsg mem receMsg
  else []

/-- From one `pthread_cond_wait` to the next, over the messages it takes off the queue. -/
def dealInfoFunc (receMsgs : List (Bool × List U8)) : Prog ι :=
  locked .msgMutex (receMsgs.flatMap fun m => dealReceMsg m.1 m.2)

def pthreadDsFun (tmp : ConfInfo) (start ing fin : List (ι × Option ℕ)) : Prog ι :=
  piSendMsgSsc .dsStart [] start
    ++ (piSendMsgSsc .dsIng tmp.bytes ing ++ piSendMsgSsc .dsEnd [] fin)

end Pi

/-! ## SSC -/

section Ssc

/-- The outcome of a send: that of its allocation and that of its write. -/
structure Out where
  mem : Bool
  failed : Option ℕ

variable (i : ι)

def sscSendMsgPi (type : SscMacMsgid) (msg : List U8) (out : Out) : Prog ι :=
  locked (.sscSend i) ((Ssc.sscSendMsgPi out.mem type msg).elim [] (write (.up i) out.failed))

def sscSendPiFetch (out : Out) : Prog ι := sscSendMsgPi i .macFetch [] out

/-- `ssc_add_dyn_addr` and `ssc_del_age_entry` release the mutex on every path. -/
def sscMacUpdateRecv (data : PiMacEntry) (out : Out) : Prog ι :=
  sscSendMsgPi i .macAddrNotify data.bytes out ++ locked (.sscDb i) []

/-- Where the entry is not found and there is no memory for it the mutex is not released. -/
def sscLocalAddAddr (found mem : Bool) : Prog ι :=
  if found then locked (.sscDb i) []
  else if mem then locked (.sscDb i) []
  else [.lock (.sscDb i)]

/-- What the registered handler does to SSC's database. -/
def call (found mem : Bool) : Ssc.SscMacFunc → Prog ι
  | .sscAddStaticFunc => sscLocalAddAddr i found mem
  | .sscClearDynFunc | .sscClearVlanFunc | .sscClearInterFunc | .sscModifyInterLeanSta
  | .sscModifyAgeTime | .sscRecePiDsData => locked (.sscDb i) []
  | .sscRecePiDsStart | .sscRecePiDsEnd => []

def sscDsConfInfo (mem : Bool) (confInfo : ConfInfo) (out : Out) : Prog ι :=
  if mem then
    locked (.sscDb i) [] ++ sscSendMsgPi i .macUpIng (Ssc.dsInfo sscConf confInfo.bytes) out
  else []

/-- `ssc_ds_static_info` and `ssc_ds_dyn_info`, over the entries of the table. -/
def sscDsInfo (type : U32) (mem : Bool) (entries : List (PiMacEntry × Out)) : Prog ι :=
  if mem then
    locked (.sscDb i) (entries.flatMap fun x =>
      sscSendMsgPi i .macUpIng (Ssc.dsInfo type x.1.bytes) x.2)
  else []

/-- What `ssc_ds_data_pi` finds, for each of the functions it calls. -/
structure DsOut where
  start : Out
  confMem : Bool
  confInfo : ConfInfo
  conf : Out
  statMem : Bool
  stat : List (PiMacEntry × Out)
  dynMem : Bool
  dyn : List (PiMacEntry × Out)
  fin : Out

def sscDsDataPi (ds : DsOut) : Prog ι :=
  sscSendMsgPi i .macUpStart [] ds.start ++ (sscDsConfInfo i ds.confMem ds.confInfo ds.conf
    ++ (sscDsInfo i sscStatic ds.statMem ds.stat ++ (sscDsInfo i sscDyn ds.dynMem ds.dyn
      ++ sscSendMsgPi i .macUpEnd [] ds.fin)))

end Ssc

/-! ## The system -/

/-- What the threads begin of themselves. -/
inductive Call (ι : Type*)
  /-- A command of the CLI. -/
  | command (type : PiMacMsgid) (msg : List U8) (writes : List (ι × Option ℕ)) (mem : Bool)
  | showMac
  | deal (receMsgs : List (Bool × List U8))
  | ds (k : ℕ) (tmp : ConfInfo) (start ing fin : List (ι × Option ℕ))
  | fetch (i : ι) (out : Out)
  | update (i : ι) (k : ℕ) (data : PiMacEntry) (out : Out)
  | sync (i : ι) (k : ℕ) (out : DsOut)

namespace Call

def thread : Call ι → Thread ι
  | .command _ _ _ _ | .showMac => .main
  | .deal _ => .dealInfoFunc
  | .ds k _ _ _ _ => .pthreadDsFun k
  | .fetch i _ => .pthreadDealFunc i
  | .update i k _ _ => .sscMacUpdateRecv i k
  | .sync i k _ => .sscDsDataPi i k

def prog : Call ι → Prog ι
  | .command type msg writes mem => piSendMsgSsc type msg writes ++ piUpdateLocalDb mem type
  | .showMac => piShowMac
  | .deal receMsgs => Threads.dealInfoFunc receMsgs
  | .ds _ tmp start ing fin => Threads.pthreadDsFun tmp start ing fin
  | .fetch i out => sscSendPiFetch i out
  | .update i _ data out => Threads.sscMacUpdateRecv i data out
  | .sync i _ out => Threads.sscDsDataPi i out

/-- Every write of the call puts out the whole message. -/
def Whole : Call ι → Prop
  | .command _ _ writes _ => ∀ w ∈ writes, w.2 = none
  | .showMac | .deal _ => True
  | .ds _ _ start ing fin => ∀ w ∈ start ++ (ing ++ fin), w.2 = none
  | .fetch _ out | .update _ _ _ out => out.failed = none
  | .sync _ _ out => out.start.failed = none ∧ out.conf.failed = none
    ∧ (∀ x ∈ out.stat ++ out.dyn, x.2.failed = none) ∧ out.fin.failed = none

end Call

/-- What a reader does with what it has read: PI puts it on its queue, an SSC program calls a
handler. -/
inductive Handles : Stream ι → Prog ι → Prop
  | piRecv (i : ι) (mem : ℕ → Bool) : Handles (.up i) (piRecevieMsgSsc mem)
  | sscRecv (i : ι) (found mem : Bool) (f : Ssc.SscMacFunc) : Handles (.down i) (call i found mem f)

def reader : Stream ι → Thread ι
  | .down i => .pthreadDealFunc i
  | .up _ => .cliCommSscInit

/-- PI and the SSC programs, with room for so many bytes on each connection. -/
def threads (cap : Stream ι → ℕ) : System (Thread ι) (Mutex ι) (Stream ι) U8 where
  cap := cap
  reader := reader
  Calls t p := ∃ c : Call ι, c.thread = t ∧ c.prog = p
  Handles := Handles

end RookieMac.Threads
