import RookieMac.CliShow
import RookieMac.TableNodes
import RookieMac.Lib.Atomic

/-!
# PI's database, one access at a time

The functions of `pi_comm_ssc.c` on `g_mac_local_db`, access by access: to one chain, one counter or
one word of the configuration. Those on the tables take the mutex; `pi_local_learn_sta`,
`pi_local_set_agetime`, `pthread_ds_fun` and two of the functions that show do not.
-/

namespace RookieMac.Pi

open CMem Atomic

/-- What the mutex of `pi_db_mac_info_t` guards. -/
structure PiTables where
  head : MacTblHead → HashTbl
  count : MacTblHead → U32

/-- The rest of `pi_db_mac_info_t`, the messages of `pthread_ds_fun`, and what the functions without
the mutex have shown. -/
structure PiBeside where
  ageTime : U32
  portStatus : Fin (portNum + 1) → U32
  sent : List (List U8)
  shown : List (List Char)

def PiDbMacInfo.tables (db : PiDbMacInfo) : PiTables where
  head := fun h => match h with
    | .static => db.staticMacTblHead
    | .dyn => db.dynMacTblHead
  count := fun h => match h with
    | .static => db.staticAddrCount
    | .dyn => db.dynAddrCount

def PiDbMacInfo.beside (db : PiDbMacInfo) : PiBeside := ⟨db.ageTime, db.portStatus, [], []⟩

abbrev TblAccesses := Accesses PiTables PiBeside

namespace PiTables

def setChain (h : MacTblHead) (i : Fin hashSize) (chain : List PiMacEntry) (s : PiTables) :
    PiTables :=
  { s with head := Function.update s.head h (Function.update (s.head h) i chain) }

def setCount (h : MacTblHead) (f : U32 → U32) (s : PiTables) : PiTables :=
  { s with count := Function.update s.count h (f (s.count h)) }

/-! ## The table functions -/

section Table

variable (hash : HashFn)

def findHashKey (index : Fin hashSize) (entry : PiMacEntry) (h : MacTblHead) : TblAccesses ℤ := do
  let chain ← .read (·.head h index)
  match Chained.modifyFirst (sameKey entry) (setPort entry.portId) chain with
  | some chain => do
    .write (setChain h index chain)
    return 1
  | none => return 0

def insertHashTable (entry : PiMacEntry) (h : MacTblHead) : TblAccesses ℤ := do
  let index := hash entry.mac entry.vlanId
  let ret ← findHashKey index entry h
  if ret = 1 then return ret
  else do
    let chain ← .read (·.head h index)
    .write (setChain h index (entry :: chain))
    return 0

def delHashEntry (entry : PiMacEntry) (h : MacTblHead) : TblAccesses ℤ := do
  let index := hash entry.mac entry.vlanId
  let chain ← .read (·.head h index)
  if chain.any (sameEntryDel entry) then do
    .write (setChain h index (chain.eraseP (sameEntryDel entry)))
    return SUCC
  else return ERR

/-- The counter is changed where the table function returns zero. -/
def counted (h : MacTblHead) (f : U32 → U32) (p : TblAccesses ℤ) : TblAccesses Unit := do
  let ret ← p
  if ret = 0 then .write (setCount h f)

def piLocalSetStaticAddr (data : List U8) : TblAccesses Unit :=
  let macInfo := BaseStaticMac.read data
  let tmp : PiMacEntry := { PiMacEntry.zero with
    portId := macInfo.portId, vlanId := macInfo.vlanId, mac := macInfo.mac }
  counted .static (· + 1) (insertHashTable hash tmp .static)

def piAddLocalDyn (data : PiMacEntry) : TblAccesses Unit :=
  counted .dyn (· + 1) (insertHashTable hash data .dyn)

def piDelLocalDyn (data : PiMacEntry) : TblAccesses Unit :=
  counted .dyn (· - 1) (delHashEntry hash data .dyn)

def dealStaticInfo (data : List U8) : TblAccesses Unit :=
  let tmp := zeroFirst sizeofPiMacEntry (data.drop 4)
  counted .static (· + 1) (insertHashTable hash (PiMacEntry.read tmp) .static)

end Table

/-! ## Clearing -/

section Clear

/-- The loop over a chain; `kept` are the entries passed. -/
def clearChain (fn : PiMacEntry → ℤ × Bool) (h : MacTblHead) (i : Fin hashSize) :
    List PiMacEntry → List PiMacEntry → TblAccesses Unit
  | _, [] => return ()
  | kept, assist :: chain => do
    let (ret, freed) := fn assist
    if freed then .write (setChain h i (kept ++ chain))
    if ret = 0 then .write (setCount h (· - 1))
    clearChain fn h i (if freed then kept else kept ++ [assist]) chain

def clearHeads (fn : PiMacEntry → ℤ × Bool) (h : MacTblHead) :
    List (Fin hashSize) → TblAccesses Unit
  | [] => return ()
  | i :: is => do
    let chain ← .read (·.head h i)
    clearChain fn h i [] chain
    clearHeads fn h is

def callClearLocalMac (type : PiMacMsgid) (data : List U8) (fn : ClearMac) : TblAccesses Unit := do
  clearHeads (fn data) .dyn (List.finRange hashSize)
  if type = .macClearDyn then return ()
  clearHeads (fn data) .static (List.finRange hashSize)

/-- The function clears under the mutex, or its `default` branch prints. -/
def clearLocalMac (type : PiMacMsgid) (data : List U8) : Option (TblAccesses Unit) :=
  match type with
  | .macClearDyn => some (callClearLocalMac type data clearDynMac)
  | .clearVlanMac => some (callClearLocalMac type data clearVlanMac)
  | .clearInterDyn => some (callClearLocalMac type data clearInterMac)
  | _ => none

end Clear

/-! ## Showing -/

section Show

/-- The loop over the buckets. -/
def showHeads (lines : Fin hashSize → TblAccesses (List MacRow)) :
    List (Fin hashSize) → TblAccesses (List MacRow)
  | [] => return []
  | i :: is => do
    let first ← lines i
    let rest ← showHeads lines is
    return first ++ rest

def showTable (lines : Fin hashSize → TblAccesses (List MacRow)) : TblAccesses (List Char) := do
  let rows ← showHeads lines (List.finRange hashSize)
  return printTable rows

def piShowVlanMac (numVlan : U32) : TblAccesses (List Char) := showTable fun i => do
  let stat ← .read (·.head .static i)
  let dyn ← .read (·.head .dyn i)
  return (stat.filter fun assist => assist.vlanId = numVlan).map (macRow true)
    ++ (dyn.filter fun assist => assist.vlanId = numVlan).map (macRow false)

def piShowStaticMac : TblAccesses (List Char) := showTable fun i => do
  let stat ← .read (·.head .static i)
  return stat.map (macRow true)

def piShowAllMac : TblAccesses (List Char) := showTable fun i => do
  let stat ← .read (·.head .static i)
  let dyn ← .read (·.head .dyn i)
  return stat.map (macRow true) ++ dyn.map (macRow false)

end Show

/-- The configuration is not in the tables; here it is written under their mutex. -/
def dealConfInfo (data : List U8) : TblAccesses Unit :=
  let tmp := ConfInfo.read (data.drop 4)
  let ports : List (Fin (portNum + 1)) := (List.finRange (portNum + 1)).filter (·.val < portNum)
  let writeStatus : Fin (portNum + 1) → TblAccesses Unit := fun i => .writeBeside fun k =>
    { k with portStatus := Function.update k.portStatus i (tmp.portStatus i) }
  do
    .writeBeside fun k => { k with ageTime := tmp.ageTime }
    ports.forM writeStatus

end PiTables

/-! ## Without the mutex -/

namespace PiBeside

abbrev Untaken := Bare PiTables PiBeside

def print (text : List Char) (next : Untaken) : Untaken :=
  .step (fun _ k => { k with shown := k.shown ++ [text] }) fun _ _ => next

def piLocalLearnSta (str : List U8) : List (Fin (portNum + 1)) → Untaken
  | [] => .ended
  | i :: is =>
    let store (status : U32) : Untaken := .step
      (fun _ k => { k with portStatus := Function.update k.portStatus i status })
      fun _ _ => piLocalLearnSta str is
    if strncmp 6 str (chars "enable") = 0 then store macFwdLearn
    else if strncmp 7 str (chars "disable") = 0 then store macUnfwdUnlearn
    else print "the args is invliad! \n".toList .ended

def piLocalSetAgetime (data : List U8) : Untaken :=
  .step (fun _ k => { k with ageTime := readU32 data 0 }) fun _ _ => .ended

def send (msg : List U8) (next : Untaken) : Untaken :=
  .step (fun _ k => { k with sent := k.sent ++ [msg] }) fun _ _ => next

/-- The statuses of the ports listed are read one by one into `tmp`, which is then sent. -/
def readPorts (tmp : ConfInfo) : List (Fin (portNum + 1)) → Untaken
  | [] =>
    send (piSendMsgSsc .dsStart []) (send (piSendMsgSsc .dsIng tmp.bytes)
      (send (piSendMsgSsc .dsEnd []) .ended))
  | i :: is => .step (fun _ k => k) fun _ k =>
    readPorts { tmp with portStatus := Function.update tmp.portStatus i (k.portStatus i) } is

def pthreadDsFun (stack : U32) : Untaken :=
  .step (fun _ k => k) fun _ k =>
    readPorts ⟨k.ageTime, fun _ => stack⟩ ((List.finRange (portNum + 1)).filter (1 ≤ ·.val))

/-- The counters are read for each line again, and the last line takes two reads. -/
def piShowMacCount : Untaken :=
  .step (fun _ k => k) fun s _ =>
    print ("Dynamic Address Count : ".toList ++ Printing.decimal (s.count .dyn).toInt
      ++ "\n".toList)
    <| .step (fun _ k => k) fun s _ =>
    print ("Static  Address Count : ".toList ++ Printing.decimal (s.count .static).toInt
      ++ "\n".toList)
    <| .step (fun _ k => k) fun s _ => .step (fun _ k => k) fun s' _ =>
    print ("Total Mac Addresses   : ".toList
      ++ Printing.decimal (s.count .dyn + s'.count .static).toInt ++ "\n".toList) .ended

def piShowMacAgetime : Untaken :=
  .step (fun _ k => k) fun _ k =>
    print ("Aging time    : ".toList ++ Printing.decimal k.ageTime.toInt ++ " seconds \n".toList)
      .ended

end PiBeside

/-! ## The calls -/

inductive PiCall
  | piLocalSetStaticAddr (mem : Bool) (data : List U8)
  | piAddLocalDyn (mem : Bool) (data : PiMacEntry)
  | piDelLocalDyn (data : PiMacEntry)
  | dealStaticInfo (mem : Bool) (data : List U8)
  | clearLocalMac (type : PiMacMsgid) (data : List U8)
  | dealConfInfo (data : List U8)
  | piShowAllMac
  | piShowVlanMac (numVlan : U32)
  | piShowStaticMac

inductive PiBareCall
  | piLocalLearnSta (str : List U8)
  | piLocalSetAgetime (data : List U8)
  | pthreadDsFun (stack : U32)
  | piShowMacCount
  | piShowMacAgetime

/-- Under the mutex, which is released at the end; the function prints nothing. -/
def PiTables.silent (p : TblAccesses Unit) : List Char ⊕ TblAccesses (Bool × List Char) :=
  .inr do
    p
    return (false, [])

def PiTables.showing (p : TblAccesses (List Char)) : List Char ⊕ TblAccesses (Bool × List Char) :=
  .inr do
    let text ← p
    return (false, text)

/-- The function prints before it comes to the mutex, and returns. -/
def PiTables.refused (text : String) : List Char ⊕ TblAccesses (Bool × List Char) :=
  .inl text.toList

open PiTables in
def piSystem (hash : HashFn) : System PiTables PiBeside PiCall PiBareCall (List Char) where
  call
    | .piLocalSetStaticAddr mem data =>
      if mem then silent (PiTables.piLocalSetStaticAddr hash data) else refused "no mem \n"
    | .piAddLocalDyn mem data =>
      if mem then silent (PiTables.piAddLocalDyn hash data) else refused "no mem \n"
    | .piDelLocalDyn data => silent (PiTables.piDelLocalDyn hash data)
    | .dealStaticInfo mem data =>
      if mem then silent (PiTables.dealStaticInfo hash data) else refused "no mem \n"
    | .clearLocalMac type data =>
      match PiTables.clearLocalMac type data with
      | some clear => silent clear
      | none => refused "unknew order! \n"
    | .dealConfInfo data => silent (PiTables.dealConfInfo data)
    | .piShowAllMac => showing PiTables.piShowAllMac
    | .piShowVlanMac numVlan => showing (PiTables.piShowVlanMac numVlan)
    | .piShowStaticMac => showing PiTables.piShowStaticMac
  bare
    | .piLocalLearnSta str =>
      PiBeside.piLocalLearnSta str ((List.finRange (portNum + 1)).filter (·.val < portNum))
    | .piLocalSetAgetime data => PiBeside.piLocalSetAgetime data
    | .pthreadDsFun stack => PiBeside.pthreadDsFun stack
    | .piShowMacCount => PiBeside.piShowMacCount
    | .piShowMacAgetime => PiBeside.piShowMacAgetime

end RookieMac.Pi
