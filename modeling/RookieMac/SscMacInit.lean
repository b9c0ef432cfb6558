import RookieMac.SscCommPi

/-!
# SSC's initialisation

`ssc_mac_rookie_init` starts the thread that talks to PI first and fills the handler table and the
bucket heads after that, without the mutex. The two are a system of steps: the assignments of
`ssc_mac_opera_init` and `ssc_db_init` one by one, and the thread's, of which a dispatch is one.
-/

namespace RookieMac.Ssc

open CMem

/-- An assignment of the initialisation after `ssc_comm_init`. -/
inductive InitStep
  | sscMacFunc (type : PiMacMsgid)
  | dynAddrCount
  | staticAddrCount
  | staticMacTblHead (i : Fin hashSize)
  | dynMacTblHead (i : Fin hashSize)
  | mutex
  deriving DecidableEq

def funcIndex (type : PiMacMsgid) : Fin piMsgidMacIdNum :=
  ⟨type.val.toNat, by cases type <;> decide⟩

def InitStep.run (db : MacOpraClass) : InitStep → MacOpraClass
  | .sscMacFunc type => { db with
      sscMacFunc := Function.update db.sscMacFunc (funcIndex type) (some (sscHandler type)) }
  | .dynAddrCount => { db with dynAddrCount := 0 }
  | .staticAddrCount => { db with staticAddrCount := 0 }
  | .staticMacTblHead i => { db with staticMacTblHead := Function.update db.staticMacTblHead i [] }
  | .dynMacTblHead i => { db with dynMacTblHead := Function.update db.dynMacTblHead i [] }
  | .mutex => { db with mutex := false }

/-- `ssc_mac_opera_init`. -/
def operaSteps : List InitStep :=
  [.macAddAddr, .macClearDyn, .clearVlanMac, .clearInterDyn, .macInterLearn, .macAgetime, .dsStart,
    .dsIng, .dsEnd].map .sscMacFunc

/-- The loop of `ssc_db_init` over the buckets. -/
def headSteps (is : List (Fin hashSize)) : List InitStep :=
  is.flatMap fun i => [.staticMacTblHead i, .dynMacTblHead i]

/-- `ssc_db_init`. -/
def dbSteps : List InitStep :=
  .dynAddrCount :: .staticAddrCount :: headSteps (List.finRange hashSize) ++ [.mutex]

structure InitState where
  db : MacOpraClass
  /-- What the initialisation has still to do. -/
  todo : List InitStep
  connected : Bool
  /-- The addresses the handlers have stored. -/
  stored : List Key

inductive InitEvent
  | init
  | connect
  /-- `read` fails: the thread closes the connection and makes a new one. -/
  | close
  /-- A message of PI has been read and is dispatched. `mem` are the outcomes of the handler's
  allocations. -/
  | dispatch (type : PiMacMsgid) (mem : ℕ → Bool) (buff : List U8)

/-- The key of the address in a message. -/
def addedKey (buff : List U8) : Key :=
  ((BaseStaticMac.read (msgBody buff)).mac, (BaseStaticMac.read (msgBody buff)).vlanId)

/-- The handler stores an address: it gets memory for it. -/
def Stores (type : PiMacMsgid) (mem : ℕ → Bool) : Prop := type = .macAddAddr ∧ mem 1 = true

instance (type : PiMacMsgid) (mem : ℕ → Bool) : Decidable (Stores type mem) :=
  inferInstanceAs (Decidable (_ ∧ _))

/-- A step. A dispatch that would wait for the mutex is not enabled. -/
def initStep (env : SscEnv) : Except Fault InitState → InitEvent → Option (Except Fault InitState)
  | .error _, _ => none
  | .ok s, .init =>
    match s.todo with
    | [] => none
    | step :: todo => some (.ok { s with db := step.run s.db, todo := todo })
  | .ok s, .connect => if s.connected then none else some (.ok { s with connected := true })
  | .ok s, .close => if s.connected then some (.ok { s with connected := false }) else none
  | .ok s, .dispatch type mem buff =>
    if s.connected ∧ msgType buff = type.val then
      match sscRecevieMsgPi env mem buff s.db with
      | .error .deadlock => none
      | .error fault => some (.error fault)
      | .ok (db, _) => some (.ok { s with
          db := db
          stored := if Stores type mem then addedKey buff :: s.stored else s.stored })
    else none

/-- `g_ssc_mac_opera` before the program has written to it. -/
def MacOpraClass.zero : MacOpraClass :=
  ⟨0, fun _ => 0, 0, 0, Chained.empty, Chained.empty, fun _ => none, false⟩

/-- `ssc_comm_init` has started the thread. -/
def InitState.started : InitState := ⟨.zero, operaSteps ++ dbSteps, false, []⟩

/-! ## The steps together are the two functions -/

section Together

theorem operaSteps_run (db : MacOpraClass) :
    operaSteps.foldl InitStep.run db = sscMacOperaInit db := by
  simp only [operaSteps, List.map_cons, List.map_nil, List.foldl_cons, List.foldl_nil, InitStep.run,
    sscMacOperaInit]
  congr 1
  funext i
  fin_cases i <;> rfl

theorem headSteps_run : ∀ (is : List (Fin hashSize)) (db : MacOpraClass),
    (headSteps is).foldl InitStep.run db = { db with
      staticMacTblHead := fun i => if i ∈ is then [] else db.staticMacTblHead i
      dynMacTblHead := fun i => if i ∈ is then [] else db.dynMacTblHead i }
  | [], db => by simp [headSteps]
  | j :: is, db => by
    have hcons : headSteps (j :: is)
        = .staticMacTblHead j :: .dynMacTblHead j :: headSteps is := rfl
    rw [hcons, List.foldl_cons, List.foldl_cons, headSteps_run is]
    simp only [InitStep.run, List.mem_cons, Function.update_apply]
    congr 1 <;>
    · funext i
      by_cases hij : i = j <;> simp [hij]

theorem dbSteps_run (db : MacOpraClass) : dbSteps.foldl InitStep.run db = sscDbInit db := by
  rw [dbSteps, List.cons_append, List.cons_append, List.foldl_cons, List.foldl_cons,
    List.foldl_append, headSteps_run]
  simp only [List.mem_finRange, if_true]
  rfl

end Together

end RookieMac.Ssc
