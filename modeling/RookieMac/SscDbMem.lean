import RookieMac.SscDbManger
import RookieMac.TableNodes

/-!
# SSC's tables in memory

The functions of `ssc_db_manger.c` on the nodes and pointers of the two tables, and the loop of
`ssc_ds_static_info` and `ssc_ds_dyn_info` that reads one. Taking the mutex while it is held is the
fault `deadlock`.
-/

namespace RookieMac.Ssc

open CMem Hlist

inductive DbFault
  | deadlock
  | mem (f : Hlist.Fault)

/-- The nodes and the mutex of `mac_opra_class_t`. -/
structure DbMem (α : Type) where
  mem : NodeMem α
  mutex : Bool

namespace DbMem

variable {α : Type} [DecidableEq α]

def lock (s : DbMem α) : Except DbFault (DbMem α) :=
  if s.mutex then .error .deadlock else .ok { s with mutex := true }

def unlock (s : DbMem α) : DbMem α := { s with mutex := false }

/-- What the nodes' operations return or fail with. -/
def onMem {β : Type} (r : Except Hlist.Fault β) : Except DbFault β := r.mapError .mem

section Insert

variable (env : TblEnv α)

/-- The body of the loops of `find_hash_key` and `find_hash_key_dyn`, for their comparisons. -/
def findBody (same : PiMacEntry → Bool) (port : U32) (tmp : α) (s : NodeMem α × ℤ) :
    Except Hlist.Fault ((NodeMem α × ℤ) × Bool) := do
  let assist ← s.1.entry tmp
  if same assist then
    let m ← s.1.setEntry tmp (setPort port assist)
    .ok ((m, SUCC), true)
  else .ok (s, false)

def findHashKey (index : Fin hashSize) (entry : BaseStaticMac) (head : MacTblHead)
    (m : NodeMem α) : Except Hlist.Fault (NodeMem α × ℤ) :=
  checkWalk (head, index) (findBody (sameKey entry.mac entry.vlanId) entry.portId) (m, ERR)

def findHashKeyDyn (index : Fin hashSize) (entry : PiMacEntry) (head : MacTblHead)
    (m : NodeMem α) : Except Hlist.Fault (NodeMem α × ℤ) :=
  checkWalk (head, index) (findBody (sameKeyDyn entry) entry.portId) (m, ERR)

def sscAddDynAddr (malloc : Option α) (entry : PiMacEntry) (s : DbMem α) :
    Except DbFault (DbMem α) := do
  let index := env.hash entry.mac entry.vlanId
  let s ← s.lock
  let (m, ret) ← onMem (findHashKeyDyn index entry .dyn s.mem)
  if ret = SUCC then return unlock { s with mem := m }
  else match malloc with
    | none => return unlock { s with mem := m }
    | some tmp =>
      let m ← onMem (push tmp (.dyn, index) (m.malloc tmp entry))
      return unlock { s with mem := m }

def sscLocalAddAddr (malloc : Option α) (entry : BaseStaticMac) (s : DbMem α) :
    Except DbFault (DbMem α) := do
  let index := env.hash entry.mac entry.vlanId
  let s ← s.lock
  let (m, ret) ← onMem (findHashKey index entry .static s.mem)
  if ret = SUCC then return unlock { s with mem := m }
  else match malloc with
    -- this branch does not release the mutex
    | none => return { s with mem := m }
    | some tmp =>
      let m ← onMem (push tmp (.static, index)
        (m.malloc tmp ⟨entry.mac, 0, entry.vlanId, entry.portId, staticType⟩))
      return unlock { s with mem := m }

/-- The body of the loops that take out the entries `p` picks. -/
def delBody (p : PiMacEntry → Bool) (tmp : α) (s : NodeMem α × Unit) :
    Except Hlist.Fault ((NodeMem α × Unit) × Bool) := do
  let assist ← s.1.entry tmp
  if p assist then
    let m ← del env.poison₁ env.poison₂ tmp s.1
    let m ← m.free tmp
    .ok ((m, ()), false)
  else .ok (s, false)

def sscDelAgeEntry (entry : PiMacEntry) (s : DbMem α) : Except DbFault (DbMem α) := do
  let index := env.hash entry.mac entry.vlanId
  let s ← s.lock
  let (m, _) ← onMem (checkWalk (.dyn, index) (delBody env (sameKey entry.mac entry.vlanId))
    (s.mem, ()))
  return unlock { s with mem := m }

/-- The loop of the three functions below. -/
def delFromDyn (p : PiMacEntry → Bool) (s : DbMem α) : Except DbFault (DbMem α) := do
  let s ← s.lock
  let (m, _) ← onMem ((List.finRange hashSize).foldlM (fun r i =>
    checkWalk (.dyn, i) (delBody env p) r) (s.mem, ()))
  return unlock { s with mem := m }

def sscDelDynAddr (s : DbMem α) : Except DbFault (DbMem α) := delFromDyn env (fun _ => true) s

def sscDelVlanAddr (vlan : U32) (s : DbMem α) : Except DbFault (DbMem α) :=
  delFromDyn env (fun assist => assist.vlanId = vlan) s

def sscDelIntAddr (phyId : U32) (s : DbMem α) : Except DbFault (DbMem α) :=
  delFromDyn env (fun assist => assist.portId = phyId) s

end Insert

/-- The entries of one bucket, after the ones read before. -/
def readHead (h : HeadId) (m : NodeMem α) (es : List PiMacEntry) :
    Except Hlist.Fault (List PiMacEntry) := do
  let first ← m.load (.first h)
  forEach m (fun es assist => es ++ [assist]) m.live.card first es

/-- What `ssc_ds_static_info` or `ssc_ds_dyn_info` sends, in order. -/
def dsEntries (head : MacTblHead) (m : NodeMem α) : Except Hlist.Fault (List PiMacEntry) :=
  (List.finRange hashSize).foldlM (fun es i => readHead (head, i) m es) []

def sscDbInit (m : NodeMem α) : DbMem α := ⟨init { m with live := ∅ }, false⟩

end DbMem

end RookieMac.Ssc
