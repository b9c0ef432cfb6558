import RookieMac.SscCommPi
import RookieMac.Lib.Atomic

/-!
# SSC's database, one access at a time

The functions of `ssc_db_manger.c` and `ssc_comm_pi.c` on `g_ssc_mac_opera` between the lock and the
unlock, access by access: to one chain or one word of the configuration. A function returns what it
has sent to PI, and whether it has kept the mutex.
-/

namespace RookieMac.Ssc

open CMem Atomic

abbrev DbAccesses := Accesses MacOpraClass Unit

namespace DbAccesses

def setDynChain (i : Fin hashSize) (chain : List PiMacEntry) (db : MacOpraClass) : MacOpraClass :=
  { db with dynMacTblHead := Function.update db.dynMacTblHead i chain }

def setStaticChain (i : Fin hashSize) (chain : List PiMacEntry) (db : MacOpraClass) :
    MacOpraClass :=
  { db with staticMacTblHead := Function.update db.staticMacTblHead i chain }

/-! ## The tables -/

section Tables

variable (hash : HashFn)

def sscAddDynAddr (mem : Bool) (entry : PiMacEntry) : DbAccesses (Bool × List (List U8)) := do
  let index := hash entry.mac entry.vlanId
  let chain ← .read (·.dynMacTblHead index)
  match Chained.modifyFirst (sameKeyDyn entry) (setPort entry.portId) chain with
  | some chain => do
    .write (setDynChain index chain)
    return (false, [])
  | none =>
    if mem then do
      let chain ← .read (·.dynMacTblHead index)
      .write (setDynChain index (entry :: chain))
      return (false, [])
    else return (false, [])

def sscLocalAddAddr (mem : Bool) (entry : BaseStaticMac) :
    DbAccesses (Bool × List (List U8)) := do
  let index := hash entry.mac entry.vlanId
  let chain ← .read (·.staticMacTblHead index)
  match Chained.modifyFirst (sameKey entry.mac entry.vlanId) (setPort entry.portId) chain with
  | some chain => do
    .write (setStaticChain index chain)
    return (false, [])
  | none =>
    if mem then do
      let tmp : PiMacEntry := ⟨entry.mac, 0, entry.vlanId, entry.portId, staticType⟩
      let chain ← .read (·.staticMacTblHead index)
      .write (setStaticChain index (tmp :: chain))
      return (false, [])
    -- the mutex is not released
    else return (true, [])

/-- The loop over a chain that unlinks what `p` picks; `kept` are the entries passed. -/
def delChain (p : PiMacEntry → Bool) (i : Fin hashSize) :
    List PiMacEntry → List PiMacEntry → DbAccesses Unit
  | _, [] => return ()
  | kept, assist :: chain => do
    if p assist then .write (setDynChain i (kept ++ chain))
    delChain p i (if p assist then kept else kept ++ [assist]) chain

def sscDelAgeEntry (entry : PiMacEntry) : DbAccesses (Bool × List (List U8)) := do
  let index := hash entry.mac entry.vlanId
  let chain ← .read (·.dynMacTblHead index)
  delChain (sameKey entry.mac entry.vlanId) index [] chain
  return (false, [])

def delHeads (p : PiMacEntry → Bool) : List (Fin hashSize) → DbAccesses Unit
  | [] => return ()
  | i :: is => do
    let chain ← .read (·.dynMacTblHead i)
    delChain p i [] chain
    delHeads p is

def delFromDyn (p : PiMacEntry → Bool) : DbAccesses (Bool × List (List U8)) := do
  delHeads p (List.finRange hashSize)
  return (false, [])

end Tables

/-! ## The configuration -/

section Configuration

def setPortStatus (i : Fin (portNum + 1)) (status : U32) (db : MacOpraClass) : MacOpraClass :=
  { db with portStatus := Function.update db.portStatus i status }

def writePorts (status : Fin (portNum + 1) → U32) : List (Fin (portNum + 1)) → DbAccesses Unit
  | [] => return ()
  | i :: is => do
    .write (setPortStatus i (status i))
    writePorts status is

def readPorts : List (Fin (portNum + 1)) → (Fin (portNum + 1) → U32) →
    DbAccesses (Fin (portNum + 1) → U32)
  | [], status => return status
  | i :: is, status => do
    let word ← .read (·.portStatus i)
    readPorts is (Function.update status i word)

def sscModifyAgeTime (data : List U8) : DbAccesses (Bool × List (List U8)) := do
  .write fun db => { db with ageTime := readU32 (msgBody data) 0 }
  return (false, [])

def sscModifyInterLeanSta (data : List U8) : DbAccesses (Bool × List (List U8)) := do
  writePorts (fun _ => readU32 (msgBody data) 0) (List.finRange (portNum + 1))
  return (false, [])

def sscRecePiDsData (data : List U8) : DbAccesses (Bool × List (List U8)) := do
  let tmp := ConfInfo.read (msgBody data)
  .write fun db => { db with ageTime := tmp.ageTime }
  writePorts tmp.portStatus
    ((List.finRange (portNum + 1)).filter fun i => 1 ≤ i.val ∧ i.val < portNum)
  return (false, [])

end Configuration

/-! ## The transfer to PI -/

section Transfer

def sscDsConfInfo (env : SscEnv) (mem : ℕ → Bool) : DbAccesses (Bool × List (List U8)) := do
  let ageTime ← .read (·.ageTime)
  let portStatus ← readPorts ((List.finRange (portNum + 1)).filter (1 ≤ ·.val)) fun _ => env.stack
  let confInfo : ConfInfo := ⟨ageTime, portStatus⟩
  return (false, (sscSendMsgPi (mem 1) .macUpIng (dsInfo sscConf confInfo.bytes)).toList)

/-- The loop over the buckets, where `n` entries have been sent before. -/
def dsHeads (mem : ℕ → Bool) (type : U32) (head : MacOpraClass → HashTbl) :
    List (Fin hashSize) → ℕ → DbAccesses (List (List U8))
  | [], _ => return []
  | i :: is, n => do
    let chain ← .read (head · i)
    let sent := (chain.zipIdx n).filterMap fun (assist, j) =>
      sscSendMsgPi (mem (j + 1)) .macUpIng (dsInfo type assist.bytes)
    let rest ← dsHeads mem type head is (n + chain.length)
    return sent ++ rest

def dsTable (mem : ℕ → Bool) (type : U32) (head : MacOpraClass → HashTbl) :
    DbAccesses (Bool × List (List U8)) := do
  let sent ← dsHeads mem type head (List.finRange hashSize) 0
  return (false, sent)

end Transfer

end DbAccesses

/-! ## The calls -/

/-- The functions that take the mutex. -/
inductive SscDbCall
  | sscAddDynAddr (mem : Bool) (entry : PiMacEntry)
  | sscLocalAddAddr (mem : Bool) (entry : BaseStaticMac)
  | sscDelAgeEntry (entry : PiMacEntry)
  | sscDelDynAddr
  | sscDelVlanAddr (vlan : U32)
  | sscDelIntAddr (phyId : U32)
  | sscModifyAgeTime (mem : ℕ → Bool) (data : List U8)
  | sscModifyInterLeanSta (mem : ℕ → Bool) (data : List U8)
  | sscRecePiDsData (data : List U8)
  | sscDsConfInfo (mem : ℕ → Bool)
  | sscDsStaticInfo (mem : ℕ → Bool)
  | sscDsDynInfo (mem : ℕ → Bool)

/-- A transfer that gets no memory for its message returns before it takes the mutex. -/
def sscSystem (env : SscEnv) : System MacOpraClass Unit SscDbCall Empty (List (List U8)) where
  call
    | .sscAddDynAddr mem entry => .inr (DbAccesses.sscAddDynAddr env.hash mem entry)
    | .sscLocalAddAddr mem entry => .inr (DbAccesses.sscLocalAddAddr env.hash mem entry)
    | .sscDelAgeEntry entry => .inr (DbAccesses.sscDelAgeEntry env.hash entry)
    | .sscDelDynAddr => .inr (DbAccesses.delFromDyn fun _ => true)
    | .sscDelVlanAddr vlan => .inr (DbAccesses.delFromDyn fun assist => assist.vlanId = vlan)
    | .sscDelIntAddr phyId => .inr (DbAccesses.delFromDyn fun assist => assist.portId = phyId)
    | .sscModifyAgeTime _ data => .inr (DbAccesses.sscModifyAgeTime data)
    | .sscModifyInterLeanSta _ data => .inr (DbAccesses.sscModifyInterLeanSta data)
    | .sscRecePiDsData data => .inr (DbAccesses.sscRecePiDsData data)
    | .sscDsConfInfo mem => if mem 0 then .inr (DbAccesses.sscDsConfInfo env mem) else .inl []
    | .sscDsStaticInfo mem =>
      if mem 0 then .inr (DbAccesses.dsTable mem sscStatic (·.staticMacTblHead)) else .inl []
    | .sscDsDynInfo mem =>
      if mem 0 then .inr (DbAccesses.dsTable mem sscDyn (·.dynMacTblHead)) else .inl []
  bare := Empty.elim

/-- The function on the database, with what it sends to PI. -/
def SscDbCall.run (env : SscEnv) (db : MacOpraClass) :
    SscDbCall → Except Fault (MacOpraClass × List (List U8))
  | .sscAddDynAddr mem entry => (Ssc.sscAddDynAddr env.hash mem entry db).map (·, [])
  | .sscLocalAddAddr mem entry => (Ssc.sscLocalAddAddr env.hash mem entry db).map (·, [])
  | .sscDelAgeEntry entry => (Ssc.sscDelAgeEntry env.hash entry db).map (·, [])
  | .sscDelDynAddr => (Ssc.sscDelDynAddr db).map (·, [])
  | .sscDelVlanAddr vlan => (Ssc.sscDelVlanAddr vlan db).map (·, [])
  | .sscDelIntAddr phyId => (Ssc.sscDelIntAddr phyId db).map (·, [])
  | .sscModifyAgeTime mem data => (Ssc.sscModifyAgeTime mem data db).map fun x => (x.1, [])
  | .sscModifyInterLeanSta mem data =>
    (Ssc.sscModifyInterLeanSta env mem data db).map fun x => (x.1, [])
  | .sscRecePiDsData data => (Ssc.sscRecePiDsData data db).map fun x => (x.1, [])
  | .sscDsConfInfo mem => Ssc.sscDsConfInfo env mem db
  | .sscDsStaticInfo mem => Ssc.sscDsStaticInfo mem db
  | .sscDsDynInfo mem => Ssc.sscDsDynInfo mem db

end RookieMac.Ssc
