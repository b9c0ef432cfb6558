import RookieMac.HashTabOper

/-!
# PI's database and its messages

`pi_comm_ssc.c`. A function that allocates takes the outcome of its allocation (`mem`); one that
allocates several times takes the outcomes in order. `rest` is what an uninitialised word of the
stack holds. The mutex of the database is taken and released around each change, so a change is
one step here.
-/

namespace RookieMac.Pi

open CMem

/-- `pi_db_mac_info_t`. The table of local functions is filled once, by `pi_default_args_init`, and
is the match of `piUpdateLocalDb`. -/
structure PiDbMacInfo where
  ageTime : U32
  dynAddrCount : U32
  staticAddrCount : U32
  portStatus : Fin (portNum + 1) → U32
  staticMacTblHead : HashTbl
  dynMacTblHead : HashTbl

def PiDbMacInfo.setDyn (db : PiDbMacInfo) (dyn : HashTbl × U32) : PiDbMacInfo :=
  { db with dynMacTblHead := dyn.1, dynAddrCount := dyn.2 }

def PiDbMacInfo.setStatic (db : PiDbMacInfo) (stat : HashTbl × U32) : PiDbMacInfo :=
  { db with staticMacTblHead := stat.1, staticAddrCount := stat.2 }

section Fields

variable (db : PiDbMacInfo) (tbl : HashTbl × U32)

@[simp] theorem setDyn_dyn : (db.setDyn tbl).dynMacTblHead = tbl.1 := rfl

@[simp] theorem setDyn_static : (db.setDyn tbl).staticMacTblHead = db.staticMacTblHead := rfl

@[simp] theorem setStatic_dyn : (db.setStatic tbl).dynMacTblHead = db.dynMacTblHead := rfl

@[simp] theorem setStatic_static : (db.setStatic tbl).staticMacTblHead = tbl.1 := rfl

end Fields

/-! ## What the CLI shows -/

section Show

/-- A printed line of the table: `STATIC` or `DYNAMIC`, and the three columns before and after. -/
structure MacRow where
  vlanId : U32
  mac : Mac
  isStatic : Bool
  portId : U32
  deriving DecidableEq

def piShowMacCount (db : PiDbMacInfo) : U32 × U32 × U32 :=
  (db.dynAddrCount, db.staticAddrCount, db.dynAddrCount + db.staticAddrCount)

def macRow (isStatic : Bool) (assist : PiMacEntry) : MacRow :=
  ⟨assist.vlanId, assist.mac, isStatic, assist.portId⟩

def piShowAllMac (db : PiDbMacInfo) : List MacRow :=
  (List.finRange hashSize).flatMap fun i =>
    (db.staticMacTblHead i).map (macRow true) ++ (db.dynMacTblHead i).map (macRow false)

end Show

/-! ## Clearing -/

section Clear

/-- A `clear_mac` callback: its return code, and whether it unlinked and freed the entry. -/
abbrev ClearMac := List U8 → PiMacEntry → ℤ × Bool

def clearDynMac : ClearMac := fun _ _ => (SUCC, true)

def clearVlanMac : ClearMac := fun data entry =>
  let vlan := readU32 data 0
  if entry.vlanId = vlan then (SUCC, true) else (ERR, false)

def clearInterMac : ClearMac := fun data entry =>
  let inface := readU32 data 0
  if entry.portId = inface then (SUCC, true) else (ERR, false)

/-- `hlist_for_each_safe` over one chain: the entries left, and the counter, which a return code of
zero lowers. -/
def clearChain (fn : PiMacEntry → ℤ × Bool) : List PiMacEntry → U32 → List PiMacEntry × U32
  | [], count => ([], count)
  | assist :: chain, count =>
    let (ret, freed) := fn assist
    let (chain, count) := clearChain fn chain (if ret = 0 then count - 1 else count)
    (if freed then chain else assist :: chain, count)

def clearTable (fn : PiMacEntry → ℤ × Bool) (head : HashTbl) (count : U32) : HashTbl × U32 :=
  (List.finRange hashSize).foldl (fun s i =>
    let (chain, count) := clearChain fn (s.1 i) s.2
    (Function.update s.1 i chain, count)) (head, count)

def callClearLocalMac (type : PiMacMsgid) (data : List U8) (fn : ClearMac) (db : PiDbMacInfo) :
    PiDbMacInfo :=
  let db' := db.setDyn (clearTable (fn data) db.dynMacTblHead db.dynAddrCount)
  if type = .macClearDyn then db'
  else db'.setStatic (clearTable (fn data) db.staticMacTblHead db.staticAddrCount)

def clearLocalMac (type : PiMacMsgid) (data : List U8) (db : PiDbMacInfo) : PiDbMacInfo :=
  match type with
  | .macClearDyn => callClearLocalMac type data clearDynMac db
  | .clearVlanMac => callClearLocalMac type data clearVlanMac db
  | .clearInterDyn => callClearLocalMac type data clearInterMac db
  | _ => db

end Clear

/-! ## The other local functions -/

section Local

def chars (s : String) : List U8 := s.toList.map fun c => BitVec.ofNat 8 c.toNat

def piLocalLearnSta (str : List U8) (db : PiDbMacInfo) : PiDbMacInfo :=
  { db with portStatus := fun i =>
      if i.val < portNum then
        if strncmp 6 str (chars "enable") = 0 then macFwdLearn
        else if strncmp 7 str (chars "disable") = 0 then macUnfwdUnlearn
        -- the error branch leaves the loop
        else db.portStatus i
      else db.portStatus i }

def piLocalSetAgetime (data : List U8) (db : PiDbMacInfo) : PiDbMacInfo :=
  { db with ageTime := readU32 data 0 }

variable (hash : HashFn)

def piLocalSetStaticAddr (mem : Bool) (data : List U8) (db : PiDbMacInfo) : PiDbMacInfo :=
  let macInfo := BaseStaticMac.read data
  if mem then
    let tmp : PiMacEntry := { PiMacEntry.zero with
      portId := macInfo.portId, vlanId := macInfo.vlanId, mac := macInfo.mac }
    let (ret, head) := insertHashTable hash tmp db.staticMacTblHead
    { db with
      staticMacTblHead := head
      staticAddrCount := if ret = 0 then db.staticAddrCount + 1 else db.staticAddrCount }
  else db

/-- The function `pi_default_args_init` registers for the type. No command has one of the other
types, whose slot is a null pointer. -/
def piUpdateLocalDb (mem : Bool) (type : PiMacMsgid) (data : List U8) (db : PiDbMacInfo) :
    PiDbMacInfo :=
  match type with
  | .macAddAddr => piLocalSetStaticAddr hash mem data db
  | .macClearDyn | .clearVlanMac | .clearInterDyn => clearLocalMac type data db
  | .macInterLearn => piLocalLearnSta data db
  | .macAgetime => piLocalSetAgetime data db
  | .dsStart | .dsIng | .dsEnd => db

end Local

/-! ## What SSC's messages do -/

section Deal

variable (hash : HashFn)

def piAddLocalDyn (mem : Bool) (data : PiMacEntry) (db : PiDbMacInfo) : PiDbMacInfo :=
  if mem then
    let (ret, head) := insertHashTable hash data db.dynMacTblHead
    { db with
      dynMacTblHead := head
      dynAddrCount := if ret = 0 then db.dynAddrCount + 1 else db.dynAddrCount }
  else db

def piDelLocalDyn (data : PiMacEntry) (db : PiDbMacInfo) : PiDbMacInfo :=
  let (ret, head) := delHashEntry hash data db.dynMacTblHead
  { db with
    dynMacTblHead := head
    dynAddrCount := if ret = 0 then db.dynAddrCount - 1 else db.dynAddrCount }

def piDealNotifyMsg (mem : Bool) (receMsg : List U8) (db : PiDbMacInfo) : PiDbMacInfo :=
  let data := PiMacEntry.read (msgBody receMsg)
  if data.flags ≠ 0 then piAddLocalDyn hash mem data db else piDelLocalDyn hash data db

def dealConfInfo (data : List U8) (db : PiDbMacInfo) : PiDbMacInfo :=
  let tmp := ConfInfo.read (data.drop 4)
  { db with
    ageTime := tmp.ageTime
    portStatus := fun i => if i.val < portNum then tmp.portStatus i else db.portStatus i }

/-- The `memset` is on the received context, before it is copied. -/
def dealStaticInfo (mem : Bool) (data : List U8) (db : PiDbMacInfo) : PiDbMacInfo :=
  if mem then
    let tmp := zeroFirst sizeofPiMacEntry (data.drop 4)
    let entry := PiMacEntry.read tmp
    let (ret, head) := insertHashTable hash entry db.staticMacTblHead
    { db with
      staticMacTblHead := head
      staticAddrCount := if ret = 0 then db.staticAddrCount + 1 else db.staticAddrCount }
  else db

def dealDynInfo (mem : Bool) (data : List U8) (db : PiDbMacInfo) : PiDbMacInfo :=
  piAddLocalDyn hash mem (PiMacEntry.read (data.drop 4)) db

/-- The handler only prints. -/
def piDealDsStart (db : PiDbMacInfo) : PiDbMacInfo := db

def piDealDsIng (mem : Bool) (receMsg : List U8) (db : PiDbMacInfo) : PiDbMacInfo :=
  let tmp := msgBody receMsg
  let type := readU32 tmp 0
  if type = sscConf then dealConfInfo tmp db
  else if type = sscStatic then dealStaticInfo hash mem tmp db
  else if type = sscDyn then dealDynInfo hash mem tmp db
  else db

def piDealDsEnd (db : PiDbMacInfo) : PiDbMacInfo := db

/-- What the `switch` of `deal_info_func` does to the database. A fetch request leaves it as it
is: it starts a thread of `pthread_ds_fun`. -/
def dealReceMsg (mem : Bool) (receMsg : List U8) (db : PiDbMacInfo) : PiDbMacInfo :=
  let type := msgType receMsg
  if type = SscMacMsgid.macFetch.val then db
  else if type = SscMacMsgid.macUpStart.val then piDealDsStart db
  else if type = SscMacMsgid.macUpIng.val then piDealDsIng hash mem receMsg db
  else if type = SscMacMsgid.macUpEnd.val then piDealDsEnd db
  else if type = SscMacMsgid.macAddrNotify.val then piDealNotifyMsg hash mem receMsg db
  else db

end Deal

/-! ## The queue -/

section Queue

/-- The database, the queue `g_msg_head`, the flag `g_data`, and the threads of `pthread_ds_fun`
started by `pi_to_ssc_conf`. -/
structure PiState where
  db : PiDbMacInfo
  msgHead : List (List U8)
  gData : ℤ
  dsThreads : ℕ

def piRecevieMsgSsc (mem : ℕ → Bool) (msgText : List U8) (s : PiState) : PiState :=
  if mem 0 then
    if mem 1 then { s with msgHead := insertMsgToQueue msgText s.msgHead, gData := 1 } else s
  else s

/-- The loop of `cli_comm_ssc_init` for one client, with its buffer: what a read returned is handed
on with all of the buffer. -/
def cliCommSscRead (mem : ℕ → Bool) (s : PiState × List U8) (data : List U8) :
    PiState × List U8 :=
  let buff := Framing.readInto s.2 data
  (piRecevieMsgSsc mem buff s.1, buff)

variable (hash : HashFn)

def dealInfoBody (mem : Bool) (s : PiState) : PiState :=
  match getMsgData s.msgHead with
  | none => s
  | some receMsg =>
    { s with
      db := dealReceMsg hash mem receMsg s.db
      msgHead := delDealedMsg s.msgHead
      dsThreads :=
        if msgType receMsg = SscMacMsgid.macFetch.val then s.dsThreads + 1 else s.dsThreads }

theorem dealInfoBody_msgHead (mem : Bool) (s : PiState) :
    (dealInfoBody hash mem s).msgHead = s.msgHead.tail := by
  unfold dealInfoBody
  rcases s with ⟨db, _ | ⟨m, q⟩, gd, th⟩ <;> rfl

def dealInfoLoop (mem : ℕ → Bool) (s : PiState) : PiState :=
  if s.msgHead = [] then s
  else dealInfoLoop (fun i => mem (i + 1)) (dealInfoBody hash (mem 0) s)
termination_by s.msgHead.length
decreasing_by
  rename_i h
  rw [dealInfoBody_msgHead, List.length_tail]
  have := List.length_pos_of_ne_nil h
  omega

/-- One pass of the outer loop of `deal_info_func`: it waits while `g_data` is zero. -/
def dealInfoPass (mem : ℕ → Bool) (s : PiState) : Option PiState :=
  if s.gData = 0 then none else some { dealInfoLoop hash mem s with gData := 0 }

end Queue

/-- `pi_default_args_init`. The status of port 0 is not set. -/
def piDefaultArgsInit (db : PiDbMacInfo) : PiDbMacInfo where
  ageTime := 300
  dynAddrCount := 0
  staticAddrCount := 0
  portStatus := fun i => if 1 ≤ i.val then macFwdLearn else db.portStatus i
  staticMacTblHead := Chained.empty
  dynMacTblHead := Chained.empty

def piSendMsgSsc (type : PiMacMsgid) (msg : List U8) : List U8 := msgInfo type.val msg

/-- What `pthread_ds_fun` sends. `stack` is what an uninitialised word of `tmp` holds. -/
def pthreadDsFun (stack : U32) (db : PiDbMacInfo) : List (List U8) :=
  let tmp : ConfInfo := ⟨db.ageTime, fun i => if 1 ≤ i.val then db.portStatus i else stack⟩
  [piSendMsgSsc .dsStart [], piSendMsgSsc .dsIng tmp.bytes, piSendMsgSsc .dsEnd []]

end RookieMac.Pi
