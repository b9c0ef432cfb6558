import RookieMac.SscDbManger

/-!
# SSC's handlers and its messages to PI and SSD

`ssc_comm_pi.c`. A handler takes the message PI sent and returns the database with what it sends to
SSD; the functions that speak to PI return the messages in the order they are written. A function
that allocates several times takes the outcomes in order (`mem`).
-/

namespace RookieMac.Ssc

open CMem

/-- What SSC's code calls and the source does not hold: the bucket of a key, the two port
conversions (for unit 0), and what an uninitialised word of the stack holds. -/
structure SscEnv where
  hash : HashFn
  ssCommIfxDbGetPhyid : U32 → U32
  ssCommGetPhyidUserIfx : U32 → U32
  stack : U32

/-! ## To SSD -/

section Ssd

inductive MsgRole
  | ssc | ssd | ssa
  deriving DecidableEq

inductive MsgDst
  | allDistNode | selfNode
  deriving DecidableEq

structure SsInfo where
  msgid : U32
  msgVer : U32
  concurrent : U32
  sender : MsgRole
  reciver : MsgRole
  dstType : MsgDst
  payload : List U8
  deriving DecidableEq

def sscMsgidMacComm : U32 := 1 <<< 16 ||| 1 <<< 8 ||| 1

def sscSendSsdConf (mem : Bool) (msgid : SscMacMsgid) (msg : List U8) : List SsInfo :=
  if mem then
    [{ msgid := sscMsgidMacComm, msgVer := 1, concurrent := 1, sender := .ssc, reciver := .ssd,
       dstType := .allDistNode, payload := msgInfo msgid.val msg }]
  else []

end Ssd

/-! ## Handlers of PI's messages -/

section Handlers

variable (env : SscEnv)

def sscAddStaticFunc (mem : ℕ → Bool) (data : List U8) (db : MacOpraClass) :
    Except Fault (MacOpraClass × List SsInfo) := do
  let staticMac := BaseStaticMac.read (msgBody data)
  let phyId := env.ssCommIfxDbGetPhyid staticMac.portId
  let staticMac := { staticMac with portId := phyId }
  let out := sscSendSsdConf (mem 0) .macAddAddr staticMac.bytes
  let db ← sscLocalAddAddr env.hash (mem 1) staticMac db
  return (db, out)

def sscClearDynFunc (mem : ℕ → Bool) (db : MacOpraClass) :
    Except Fault (MacOpraClass × List SsInfo) := do
  let out := sscSendSsdConf (mem 0) .macClearDyn []
  let db ← sscDelDynAddr db
  return (db, out)

def sscClearVlanFunc (mem : ℕ → Bool) (data : List U8) (db : MacOpraClass) :
    Except Fault (MacOpraClass × List SsInfo) := do
  let vlanId := readU32 (msgBody data) 0
  let out := sscSendSsdConf (mem 0) .clearVlanMac (toBytes vlanId)
  let db ← sscDelVlanAddr vlanId db
  return (db, out)

def sscClearInterFunc (mem : ℕ → Bool) (data : List U8) (db : MacOpraClass) :
    Except Fault (MacOpraClass × List SsInfo) := do
  let portId := env.ssCommIfxDbGetPhyid (readU32 (msgBody data) 0)
  let out := sscSendSsdConf (mem 0) .clearInterDyn (toBytes portId)
  let db ← sscDelIntAddr portId db
  return (db, out)

def sscModifyAgeTime (mem : ℕ → Bool) (data : List U8) (db : MacOpraClass) :
    Except Fault (MacOpraClass × List SsInfo) := do
  let seconds := readU32 (msgBody data) 0
  let out := sscSendSsdConf (mem 0) .macAgetime (toBytes seconds)
  let db ← pthreadMutexLock db
  return (pthreadMutexUnlock { db with ageTime := seconds }, out)

def sscModifyInterLeanSta (mem : ℕ → Bool) (data : List U8) (db : MacOpraClass) :
    Except Fault (MacOpraClass × List SsInfo) := do
  let status := readU32 (msgBody data) 0
  let portId : Fin (portNum + 1) → U32 := fun i =>
    if 1 ≤ i.val then env.ssCommIfxDbGetPhyid (BitVec.ofNat 32 i) else env.stack
  let out := sscSendSsdConf (mem 0) .macInterLearn (interLearnBytes portId status)
  let db ← pthreadMutexLock db
  return (pthreadMutexUnlock { db with portStatus := fun _ => status }, out)

def sscRecePiDsData (data : List U8) (db : MacOpraClass) :
    Except Fault (MacOpraClass × List SsInfo) := do
  let tmp := ConfInfo.read (msgBody data)
  let db ← pthreadMutexLock db
  return (pthreadMutexUnlock { db with
    ageTime := tmp.ageTime
    portStatus := fun i =>
      if 1 ≤ i.val ∧ i.val < portNum then tmp.portStatus i else db.portStatus i }, [])

/-- The call of a registered handler. The start and end of PI's transfer only set the flag a waiting
thread polls. -/
def SscMacFunc.call (mem : ℕ → Bool) (data : List U8) (db : MacOpraClass) :
    SscMacFunc → Except Fault (MacOpraClass × List SsInfo)
  | .sscAddStaticFunc => Ssc.sscAddStaticFunc env mem data db
  | .sscClearDynFunc => Ssc.sscClearDynFunc mem db
  | .sscClearVlanFunc => Ssc.sscClearVlanFunc mem data db
  | .sscClearInterFunc => Ssc.sscClearInterFunc env mem data db
  | .sscModifyInterLeanSta => Ssc.sscModifyInterLeanSta env mem data db
  | .sscModifyAgeTime => Ssc.sscModifyAgeTime mem data db
  | .sscRecePiDsData => Ssc.sscRecePiDsData data db
  | .sscRecePiDsStart | .sscRecePiDsEnd => .ok (db, [])

def sscRecevieMsgPi (mem : ℕ → Bool) (msgText : List U8) (db : MacOpraClass) :
    Except Fault (MacOpraClass × List SsInfo) :=
  let type := (msgType msgText).toNat
  if h : type < piMsgidMacIdNum then
    match db.sscMacFunc ⟨type, h⟩ with
    | some f => f.call env mem msgText db
    | none => .error .nullCall
  else .error .outOfBounds

/-- What the handler of a message leaves of the buffer it is in: `ssc_add_static_func` converts the
port in place. -/
def sscBuffAfter (buff : List U8) : List U8 :=
  if msgType buff = PiMacMsgid.macAddAddr.val then
    buff.take 20
      ++ toBytes (env.ssCommIfxDbGetPhyid (BaseStaticMac.read (msgBody buff)).portId)
      ++ buff.drop 24
  else buff

/-- The buffers the loop of `pthread_deal_func` hands to `ssc_recevie_msg_pi`, one a read. -/
def pthreadDealFunc (buff : List U8) (reads : List (List U8)) : List (List U8) :=
  Framing.handed (sscBuffAfter env) buff reads

def sscHandler : PiMacMsgid → SscMacFunc
  | .macAddAddr => .sscAddStaticFunc
  | .macClearDyn => .sscClearDynFunc
  | .clearVlanMac => .sscClearVlanFunc
  | .clearInterDyn => .sscClearInterFunc
  | .macInterLearn => .sscModifyInterLeanSta
  | .macAgetime => .sscModifyAgeTime
  | .dsStart => .sscRecePiDsStart
  | .dsIng => .sscRecePiDsData
  | .dsEnd => .sscRecePiDsEnd

def sscMacOperaInit (db : MacOpraClass) : MacOpraClass :=
  { db with sscMacFunc := fun i => match i with
      | 0 => some (sscHandler .macAddAddr)
      | 1 => some (sscHandler .macClearDyn)
      | 2 => some (sscHandler .clearVlanMac)
      | 3 => some (sscHandler .clearInterDyn)
      | 4 => some (sscHandler .macInterLearn)
      | 5 => some (sscHandler .macAgetime)
      | 6 => some (sscHandler .dsStart)
      | 7 => some (sscHandler .dsIng)
      | 8 => some (sscHandler .dsEnd) }

end Handlers

/-! ## To PI -/

section ToPi

/-- The bytes `ssc_send_msg_pi` writes, if it gets memory for them. -/
def sscSendMsgPi (mem : Bool) (type : SscMacMsgid) (msg : List U8) : Option (List U8) :=
  if mem then some (msgInfo type.val msg) else none

variable (env : SscEnv)

def notifyData (payload : List U8) : PiMacEntry :=
  let data := PiMacEntry.read (msgBody payload)
  { data with portId := env.ssCommGetPhyidUserIfx data.portId }

/-- The second half of `ssc_mac_update_recv`, after the message to PI: `ssc_add_dyn_func` or
`ssc_del_age_time_mac`. -/
def sscNotifyUpdate (mem : Bool) (data : PiMacEntry) (db : MacOpraClass) :
    Except Fault MacOpraClass :=
  if data.flags ≠ 0 then sscAddDynAddr env.hash mem data db else sscDelAgeEntry env.hash data db

def sscMacUpdateRecv (mem : ℕ → Bool) (payload : List U8) (db : MacOpraClass) :
    Except Fault (MacOpraClass × List (List U8)) := do
  let data := notifyData env payload
  let sent := (sscSendMsgPi (mem 0) .macAddrNotify data.bytes).toList
  let db ← sscNotifyUpdate env (mem 1) data db
  return (db, sent)

def dsInfo (type : U32) (context : List U8) : List U8 := toBytes type ++ context

def sscDsConfInfo (mem : ℕ → Bool) (db : MacOpraClass) :
    Except Fault (MacOpraClass × List (List U8)) := do
  if mem 0 then
    let db ← pthreadMutexLock db
    let confInfo : ConfInfo := ⟨db.ageTime, fun i => if 1 ≤ i.val then db.portStatus i
      else env.stack⟩
    return (pthreadMutexUnlock db,
      (sscSendMsgPi (mem 1) .macUpIng (dsInfo sscConf confInfo.bytes)).toList)
  else return (db, [])

/-- The loop of the two functions below: one message for each entry, chain after chain. -/
def dsEntries (mem : ℕ → Bool) (type : U32) (head : HashTbl) : List (List U8) :=
  (Chained.entries head).zipIdx.filterMap fun (assist, i) =>
    sscSendMsgPi (mem (i + 1)) .macUpIng (dsInfo type assist.bytes)

def sscDsStaticInfo (mem : ℕ → Bool) (db : MacOpraClass) :
    Except Fault (MacOpraClass × List (List U8)) := do
  if mem 0 then
    let db ← pthreadMutexLock db
    return (pthreadMutexUnlock db, dsEntries mem sscStatic db.staticMacTblHead)
  else return (db, [])

def sscDsDynInfo (mem : ℕ → Bool) (db : MacOpraClass) :
    Except Fault (MacOpraClass × List (List U8)) := do
  if mem 0 then
    let db ← pthreadMutexLock db
    return (pthreadMutexUnlock db, dsEntries mem sscDyn db.dynMacTblHead)
  else return (db, [])

/-- The outcomes of the allocations of `ssc_ds_data_pi`, for each of the functions it calls. -/
structure DsMem where
  start : Bool
  conf : ℕ → Bool
  stat : ℕ → Bool
  dyn : ℕ → Bool
  fin : Bool

def sscDsDataPi (mem : DsMem) (db : MacOpraClass) :
    Except Fault (MacOpraClass × List (List U8)) := do
  let start := (sscSendMsgPi mem.start .macUpStart []).toList
  let (db, conf) ← sscDsConfInfo env mem.conf db
  let (db, stat) ← sscDsStaticInfo mem.stat db
  let (db, dyn) ← sscDsDynInfo mem.dyn db
  let fin := (sscSendMsgPi mem.fin .macUpEnd []).toList
  return (db, start ++ conf ++ stat ++ dyn ++ fin)

end ToPi

end RookieMac.Ssc
