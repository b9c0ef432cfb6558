import RookieMac.PiCommSsc
import RookieMac.TableNodes

/-!
# PI's tables in memory

The functions of `hash_tab_oper.c` and the ones of `pi_comm_ssc.c` that call them, on the nodes and
pointers of the two tables.
-/

namespace RookieMac.Pi

open CMem Hlist

/-- The nodes and the two counters of `pi_db_mac_info_t`. -/
structure TblMem (α : Type) where
  mem : NodeMem α
  dynAddrCount : U32
  staticAddrCount : U32

namespace TblMem

variable {α : Type} [DecidableEq α]

section Table

variable (env : TblEnv α)

/-- The body of the loop of `find_hash_key`, with what it returns. -/
def findHashKeyBody (entry tmp : α) (s : NodeMem α × ℤ) :
    Except Hlist.Fault ((NodeMem α × ℤ) × Bool) := do
  let assist ← s.1.entry tmp
  let e ← s.1.entry entry
  if sameKey e assist then
    let m ← s.1.setEntry tmp (setPort e.portId assist)
    .ok ((m, 1), true)
  else .ok (s, false)

def findHashKey (index : Fin hashSize) (entry : α) (head : MacTblHead) (m : NodeMem α) :
    Except Hlist.Fault (NodeMem α × ℤ) :=
  checkWalk (head, index) (findHashKeyBody entry) (m, 0)

/-- `entry` is not in a table: it is in a message. -/
def findHashKeyDelBody (entry : PiMacEntry) (tmp : α) (s : NodeMem α × ℤ) :
    Except Hlist.Fault ((NodeMem α × ℤ) × Bool) := do
  let assist ← s.1.entry tmp
  if sameEntryDel entry assist then
    let m ← del env.poison₁ env.poison₂ tmp s.1
    let m ← m.free tmp
    .ok ((m, SUCC), true)
  else .ok (s, false)

def findHashKeyDel (index : Fin hashSize) (entry : PiMacEntry) (head : MacTblHead)
    (m : NodeMem α) : Except Hlist.Fault (NodeMem α × ℤ) :=
  checkWalk (head, index) (findHashKeyDelBody env entry) (m, ERR)

def insertHashTable (entry : α) (head : MacTblHead) (m : NodeMem α) :
    Except Hlist.Fault (NodeMem α × ℤ) := do
  let e ← m.entry entry
  let index := env.hash e.mac e.vlanId
  let (m, ret) ← findHashKey index entry head m
  if ret = 1 then
    let m ← m.free entry
    .ok (m, ret)
  else
    let m ← push entry (head, index) m
    .ok (m, 0)

def delHashEntry (entry : PiMacEntry) (head : MacTblHead) (m : NodeMem α) :
    Except Hlist.Fault (NodeMem α × ℤ) :=
  findHashKeyDel env (env.hash entry.mac entry.vlanId) entry head m

end Table

/-! ## Clearing -/

section Clear

variable (env : TblEnv α)

/-- A `clear_mac` callback. -/
abbrev ClearFn (α : Type) := List U8 → α → NodeMem α → Except Hlist.Fault (NodeMem α × ℤ)

def clearDynMac : ClearFn α := fun _ entry m => do
  let m ← del env.poison₁ env.poison₂ entry m
  let m ← m.free entry
  .ok (m, SUCC)

def clearVlanMac : ClearFn α := fun data entry m => do
  let vlan := readU32 data 0
  let e ← m.entry entry
  if e.vlanId = vlan then
    let m ← del env.poison₁ env.poison₂ entry m
    let m ← m.free entry
    .ok (m, SUCC)
  else .ok (m, ERR)

def clearInterMac : ClearFn α := fun data entry m => do
  let inface := readU32 data 0
  let e ← m.entry entry
  if e.portId = inface then
    let m ← del env.poison₁ env.poison₂ entry m
    let m ← m.free entry
    .ok (m, SUCC)
  else .ok (m, ERR)

def clearBody (fn : ClearFn α) (data : List U8) (tmp : α) (s : NodeMem α × U32) :
    Except Hlist.Fault ((NodeMem α × U32) × Bool) := do
  let (m, ret) ← fn data tmp s.1
  .ok ((m, if ret = 0 then s.2 - 1 else s.2), false)

/-- The loop over the buckets of one table. -/
def clearHeads (fn : ClearFn α) (data : List U8) (head : MacTblHead) (s : NodeMem α × U32) :
    Except Hlist.Fault (NodeMem α × U32) :=
  (List.finRange hashSize).foldlM (fun s i => checkWalk (head, i) (clearBody fn data) s) s

def callClearLocalMac (type : PiMacMsgid) (data : List U8) (fn : ClearFn α) (s : TblMem α) :
    Except Hlist.Fault (TblMem α) := do
  let (m, dyn) ← clearHeads fn data .dyn (s.mem, s.dynAddrCount)
  if type = .macClearDyn then .ok { s with mem := m, dynAddrCount := dyn }
  else
    let (m, stat) ← clearHeads fn data .static (m, s.staticAddrCount)
    .ok ⟨m, dyn, stat⟩

def clearLocalMac (type : PiMacMsgid) (data : List U8) (s : TblMem α) :
    Except Hlist.Fault (TblMem α) :=
  match type with
  | .macClearDyn => callClearLocalMac type data (clearDynMac env) s
  | .clearVlanMac => callClearLocalMac type data (clearVlanMac env) s
  | .clearInterDyn => callClearLocalMac type data (clearInterMac env) s
  | _ => .ok s

end Clear

/-! ## The functions that allocate, and the one that shows the tables -/

section Callers

variable (env : TblEnv α)

def piLocalSetStaticAddr (malloc : Option α) (data : List U8) (s : TblMem α) :
    Except Hlist.Fault (TblMem α) :=
  match malloc with
  | none => .ok s
  | some tmp => do
    let macInfo := BaseStaticMac.read data
    let m := s.mem.malloc tmp { PiMacEntry.zero with
      portId := macInfo.portId, vlanId := macInfo.vlanId, mac := macInfo.mac }
    let (m, ret) ← insertHashTable env tmp .static m
    .ok { s with
      mem := m
      staticAddrCount := if ret = 0 then s.staticAddrCount + 1 else s.staticAddrCount }

def piAddLocalDyn (malloc : Option α) (data : PiMacEntry) (s : TblMem α) :
    Except Hlist.Fault (TblMem α) :=
  match malloc with
  | none => .ok s
  | some tmp => do
    let (m, ret) ← insertHashTable env tmp .dyn (s.mem.malloc tmp data)
    .ok { s with
      mem := m
      dynAddrCount := if ret = 0 then s.dynAddrCount + 1 else s.dynAddrCount }

def piDelLocalDyn (data : PiMacEntry) (s : TblMem α) : Except Hlist.Fault (TblMem α) := do
  let (m, ret) ← delHashEntry env data .dyn s.mem
  .ok { s with
    mem := m
    dynAddrCount := if ret = 0 then s.dynAddrCount - 1 else s.dynAddrCount }

def dealStaticInfo (malloc : Option α) (data : List U8) (s : TblMem α) :
    Except Hlist.Fault (TblMem α) :=
  match malloc with
  | none => .ok s
  | some entry => do
    let tmp := zeroFirst sizeofPiMacEntry (data.drop 4)
    let (m, ret) ← insertHashTable env entry .static (s.mem.malloc entry (PiMacEntry.read tmp))
    .ok { s with
      mem := m
      staticAddrCount := if ret = 0 then s.staticAddrCount + 1 else s.staticAddrCount }

/-- The loop over one bucket, and the rows before. -/
def showHead (isStatic : Bool) (h : HeadId) (m : NodeMem α) (rows : List MacRow) :
    Except Hlist.Fault (List MacRow) := do
  let first ← m.load (.first h)
  forEach m (fun rows assist => rows ++ [macRow isStatic assist]) m.live.card first rows

def piShowAllMac (s : TblMem α) : Except Hlist.Fault (List MacRow) :=
  (List.finRange hashSize).foldlM (fun rows i => do
    let rows ← showHead true (.static, i) s.mem rows
    showHead false (.dyn, i) s.mem rows) []

/-- The lists are empty and no node is allocated. -/
def piDefaultArgsInit (m : NodeMem α) : TblMem α := ⟨init { m with live := ∅ }, 0, 0⟩

end Callers

end TblMem

end RookieMac.Pi
