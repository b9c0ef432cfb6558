import RookieMac.PiCommSsc
import RookieMac.SscCommPi
import RookieMac.Lib.Runs

/-!
# The connection handshake

When SSC has connected, its reading thread asks PI for its configuration and starts a thread that
sends SSC's own. PI's processing thread starts a thread for the request, which reads the settings
one by one without a lock, and stores the settings of SSC one by one. Messages are whole and in
order on the way; PI's queue hands on the newest first. A step that would wait is not enabled.
-/

namespace RookieMac

open CMem

/-- A setting the two programs transfer. -/
inductive Setting
  | age
  | port (i : Fin (portNum + 1))
  deriving DecidableEq

namespace Setting

def ofPi (db : Pi.PiDbMacInfo) : Setting → U32
  | .age => db.ageTime
  | .port i => db.portStatus i

def ofSsc (db : Ssc.MacOpraClass) : Setting → U32
  | .age => db.ageTime
  | .port i => db.portStatus i

def ofConf (tmp : ConfInfo) : Setting → U32
  | .age => tmp.ageTime
  | .port i => tmp.portStatus i

def setPi (v : U32) (db : Pi.PiDbMacInfo) : Setting → Pi.PiDbMacInfo
  | .age => { db with ageTime := v }
  | .port i => { db with portStatus := Function.update db.portStatus i v }

def setConf (v : U32) (tmp : ConfInfo) : Setting → ConfInfo
  | .age => { tmp with ageTime := v }
  | .port i => { tmp with portStatus := Function.update tmp.portStatus i v }

/-- The settings both transfers carry: all but the status of the last port. -/
def Shared : Setting → Prop
  | .age => True
  | .port i => 1 ≤ i.val ∧ i.val < portNum

end Setting

/-- What `pthread_ds_fun` reads, in order. -/
def dsReads : List Setting := .age :: (List.finRange (portNum + 1)).tail.map .port

/-- What `deal_conf_info` stores, in order. -/
def confStores : List Setting := .age :: (List.finRange (portNum + 1)).dropLast.map .port

/-- Where `pthread_ds_fun` is. -/
inductive DsThread
  | reading (todo : List Setting) (tmp : ConfInfo)
  | sendIng (tmp : ConfInfo)
  | sendEnd
  | finished

/-- Where `ssc_ds_data_pi` is; for a table, `false` is the static one. -/
inductive SyncThread
  | start
  | conf
  | confSend (confInfo : ConfInfo)
  | table (dyn : Bool)
  | tableSend (dyn : Bool) (todo : List PiMacEntry)
  | fin
  | finished

structure Shake where
  pi : Pi.PiDbMacInfo
  ssc : Ssc.MacOpraClass
  /-- From PI to SSC. -/
  down : List (List U8)
  /-- From SSC to PI. -/
  up : List (List U8)
  msgHead : List (List U8)
  gData : ℤ
  /-- The processing thread is in its inner loop and holds `msg_mutex`. -/
  draining : Bool
  /-- What `deal_conf_info` has still to store. -/
  storing : List (Setting × U32)
  ds : Option DsThread
  sync : Option SyncThread

/-- The steps. `mem` is the outcome of the allocations a step makes. -/
inductive ShakeEvent
  | sscFetch (mem : Bool)
  | sscSync (mem : Bool)
  | sscRead
  | sscRecv (type : PiMacMsgid) (mem : ℕ → Bool)
  | piRecv (mem : ℕ → Bool)
  | piWake
  | piDeal (mem : Bool)
  | piStore (f : Setting)
  | piSleep
  | piRead (f : Setting)
  | piSend

def isConf (m : List U8) : Prop :=
  msgType m = SscMacMsgid.macUpIng.val ∧ readU32 (msgBody m) 0 = sscConf

instance (m : List U8) : Decidable (isConf m) := inferInstanceAs (Decidable (_ ∧ _))

section Steps

variable (env : Ssc.SscEnv)

/-- The sync thread after `ssc_ds_static_info` or `ssc_ds_dyn_info`. -/
def SyncThread.afterTable : Bool → SyncThread
  | false => .table true
  | true => .fin

/-- A step of `ssc_ds_data_pi` other than the reading of the configuration. -/
def syncStep (mem : Bool) (s : Shake) : SyncThread → Option Shake
  | .start => some { s with
      up := s.up ++ (Ssc.sscSendMsgPi mem .macUpStart []).toList
      sync := some .conf }
  | .conf => if mem then none else some { s with sync := some (.table false) }
  | .confSend confInfo => some { s with
      up := s.up ++ (Ssc.sscSendMsgPi mem .macUpIng (Ssc.dsInfo sscConf confInfo.bytes)).toList
      sync := some (.table false) }
  | .table dyn =>
    if mem then
      match Ssc.pthreadMutexLock s.ssc with
      | .error _ => none
      | .ok ssc => some { s with
          ssc := ssc
          sync := some (.tableSend dyn (Chained.entries
            (if dyn then ssc.dynMacTblHead else ssc.staticMacTblHead))) }
    else some { s with sync := some (.afterTable dyn) }
  | .tableSend dyn (x :: todo) => some { s with
      up := s.up ++ (Ssc.sscSendMsgPi mem .macUpIng
        (Ssc.dsInfo (if dyn then sscDyn else sscStatic) x.bytes)).toList
      sync := some (.tableSend dyn todo) }
  | .tableSend dyn [] => some { s with
      ssc := Ssc.pthreadMutexUnlock s.ssc
      sync := some (.afterTable dyn) }
  | .fin => some { s with
      up := s.up ++ (Ssc.sscSendMsgPi mem .macUpEnd []).toList
      sync := some .finished }
  | .finished => none

/-- The processing thread takes the message at the head of its queue. A connection asks for the
configuration once, so there is no second thread for a request. -/
def piDealStep (mem : Bool) (s : Shake) (m : List U8) : Option Shake :=
  if msgType m = SscMacMsgid.macFetch.val then
    match s.ds with
    | none => some { s with
        msgHead := Pi.delDealedMsg s.msgHead
        ds := some (.reading dsReads ⟨env.stack, fun _ => env.stack⟩) }
    | some _ => none
  else if isConf m then some { s with
    msgHead := Pi.delDealedMsg s.msgHead
    storing := confStores.map fun f => (f, f.ofConf (ConfInfo.read ((msgBody m).drop 4))) }
  else some { s with
    msgHead := Pi.delDealedMsg s.msgHead
    pi := Pi.dealReceMsg env.hash mem m s.pi }

def shakeStep (s : Shake) : ShakeEvent → Option Shake
  | .sscFetch mem =>
    match s.sync with
    | some _ => none
    | none => some { s with
        up := s.up ++ (Ssc.sscSendMsgPi mem .macFetch []).toList
        sync := some .start }
  | .sscSync mem =>
    match s.sync with
    | none => none
    | some thread => syncStep mem s thread
  | .sscRead =>
    match s.sync, Ssc.pthreadMutexLock s.ssc with
    | some .conf, .ok ssc => some { s with
        ssc := Ssc.pthreadMutexUnlock ssc
        sync := some (.confSend
          ⟨ssc.ageTime, fun i => if 1 ≤ i.val then ssc.portStatus i else env.stack⟩) }
    | _, _ => none
  | .sscRecv type mem =>
    match s.sync, s.down with
    | some _, m :: down =>
      if msgType m = type.val then
        match Ssc.sscRecevieMsgPi env mem m s.ssc with
        | .error _ => none
        | .ok (ssc, _) => some { s with ssc := ssc, down := down }
      else none
    | _, _ => none
  | .piRecv mem =>
    match s.draining, s.up with
    | false, m :: up =>
      if mem 0 ∧ mem 1 then some { s with
        up := up
        msgHead := Pi.insertMsgToQueue m s.msgHead
        gData := 1 }
      else some { s with up := up }
    | _, _ => none
  | .piWake =>
    if s.draining = true ∨ s.gData = 0 then none else some { s with draining := true }
  | .piDeal mem =>
    match s.draining, s.storing, Pi.getMsgData s.msgHead with
    | true, [], some m => piDealStep env mem s m
    | _, _, _ => none
  | .piStore f =>
    match s.storing with
    | (g, v) :: storing =>
      if g = f then some { s with pi := f.setPi v s.pi, storing := storing } else none
    | [] => none
  | .piSleep =>
    match s.draining, s.storing, s.msgHead with
    | true, [], [] => some { s with draining := false, gData := 0 }
    | _, _, _ => none
  | .piRead f =>
    match s.ds with
    | some (.reading (g :: todo) tmp) =>
      if g = f then some { s with ds := some (.reading todo (f.setConf (f.ofPi s.pi) tmp)) }
      else none
    | _ => none
  | .piSend =>
    match s.ds with
    | some (.reading [] tmp) => some { s with
        down := s.down ++ [Pi.piSendMsgSsc .dsStart []]
        ds := some (.sendIng tmp) }
    | some (.sendIng tmp) => some { s with
        down := s.down ++ [Pi.piSendMsgSsc .dsIng tmp.bytes]
        ds := some .sendEnd }
    | some .sendEnd => some { s with
        down := s.down ++ [Pi.piSendMsgSsc .dsEnd []]
        ds := some .finished }
    | _ => none

end Steps

/-- SSC has just connected: its handlers are registered, nothing is on its way. -/
def Shake.connected (pi : Pi.PiDbMacInfo) (ssc : Ssc.MacOpraClass) : Shake :=
  ⟨pi, Ssc.sscMacOperaInit { ssc with mutex := false }, [], [], [], 0, false, [], none, none⟩

/-- Every message of the handshake has been processed and every thread of it has finished. -/
structure Shake.Quiet (s : Shake) : Prop where
  down : s.down = []
  up : s.up = []
  msgHead : s.msgHead = []
  storing : s.storing = []
  ds : ∀ thread, s.ds = some thread → thread = .finished
  sync : s.sync = some .finished

/-- A message is lost in the step for want of memory. -/
def ShakeEvent.Fails : ShakeEvent → Prop
  | .sscFetch mem | .sscSync mem => mem = false
  | .piRecv mem => mem 0 = false ∨ mem 1 = false
  | _ => False

/-! ## The steps one after another are the source's functions -/

section Alone

open Runs

variable {env : Ssc.SscEnv}

/-- The reads of `pthread_ds_fun`, with nothing in between, take the settings as they are. -/
theorem reads_path : ∀ (todo : List Setting) (tmp : ConfInfo) (s : Shake),
    s.ds = some (.reading todo tmp) → Path (shakeStep env) s (todo.map .piRead)
      { s with ds := some (.reading [] (todo.foldl (fun tmp f => f.setConf (f.ofPi s.pi) tmp) tmp)) }
  | [], tmp, s, h => by
    rw [List.foldl_nil, ← h]
    exact .nil s
  | f :: todo, tmp, s, h => by
    have hstep : shakeStep env s (.piRead f)
        = some { s with ds := some (.reading todo (f.setConf (f.ofPi s.pi) tmp)) } := by
      simp only [shakeStep, h, ↓reduceIte]
    exact .cons hstep (reads_path todo _
      { s with ds := some (.reading todo (f.setConf (f.ofPi s.pi) tmp)) } rfl)

/-- The stores of `deal_conf_info`, with nothing in between. -/
theorem stores_path : ∀ (storing : List (Setting × U32)) (s : Shake), s.storing = storing →
    Path (shakeStep env) s (storing.map fun q => .piStore q.1)
      { s with pi := storing.foldl (fun db q => q.1.setPi q.2 db) s.pi, storing := [] }
  | [], s, h => by
    rw [List.foldl_nil, List.map_nil, ← h]
    exact .nil s
  | (f, v) :: storing, s, h => by
    have hstep : shakeStep env s (.piStore f)
        = some { s with pi := f.setPi v s.pi, storing := storing } := by
      simp only [shakeStep, h, ↓reduceIte]
    exact .cons hstep (stores_path storing { s with pi := f.setPi v s.pi, storing := storing } rfl)

theorem setPi_ports (c : ConfInfo) : ∀ (is : List (Fin (portNum + 1))) (db : Pi.PiDbMacInfo),
    ((is.map Setting.port).map fun f => (f, f.ofConf c)).foldl (fun db q => q.1.setPi q.2 db) db
      = { db with portStatus := fun i => if i ∈ is then c.portStatus i else db.portStatus i }
  | [], db => by simp
  | j :: is, db => by
    rw [List.map_cons, List.map_cons, List.foldl_cons, setPi_ports c is]
    congr 1
    funext i
    rcases eq_or_ne i j with rfl | hij
    · simp [Setting.setPi, Setting.ofConf]
    · simp [Setting.setPi, hij]

theorem setConf_ports (db : Pi.PiDbMacInfo) : ∀ (is : List (Fin (portNum + 1))) (tmp : ConfInfo),
    (is.map Setting.port).foldl (fun tmp f => f.setConf (f.ofPi db) tmp) tmp
      = { tmp with portStatus := fun i => if i ∈ is then db.portStatus i else tmp.portStatus i }
  | [], tmp => by simp
  | j :: is, tmp => by
    rw [List.map_cons, List.foldl_cons, setConf_ports db is]
    congr 1
    funext i
    rcases eq_or_ne i j with rfl | hij
    · simp [Setting.setConf, Setting.ofPi]
    · simp [Setting.setConf, hij]

theorem mem_dsReads_port {i : Fin (portNum + 1)} :
    i ∈ (List.finRange (portNum + 1)).tail ↔ 1 ≤ i.val := by
  revert i
  decide

theorem mem_confStores_port {i : Fin (portNum + 1)} :
    i ∈ (List.finRange (portNum + 1)).dropLast ↔ i.val < portNum := by
  revert i
  decide

theorem confStores_eq (data : List U8) (db : Pi.PiDbMacInfo) :
    (confStores.map fun f => (f, f.ofConf (ConfInfo.read (data.drop 4)))).foldl
      (fun db q => q.1.setPi q.2 db) db = Pi.dealConfInfo data db := by
  rw [confStores, List.map_cons, List.foldl_cons, setPi_ports]
  simp only [mem_confStores_port]
  rfl

/-- The steps of PI's thread for a request are `pthread_ds_fun`. -/
theorem ds_path {s : Shake}
    (h : s.ds = some (.reading dsReads ⟨env.stack, fun _ => env.stack⟩)) :
    Path (shakeStep env) s (dsReads.map .piRead ++ [.piSend, .piSend, .piSend])
      { s with down := s.down ++ Pi.pthreadDsFun env.stack s.pi, ds := some .finished } := by
  refine (reads_path _ _ s h).append ?_
  have htmp : dsReads.foldl (fun tmp f => f.setConf (f.ofPi s.pi) tmp)
      ⟨env.stack, fun _ => env.stack⟩
      = ⟨s.pi.ageTime, fun i => if 1 ≤ i.val then s.pi.portStatus i else env.stack⟩ := by
    rw [dsReads, List.foldl_cons, setConf_ports]
    simp only [mem_dsReads_port]
    rfl
  rw [htmp]
  refine .cons rfl (.cons rfl (.cons rfl ?_))
  simp only [List.append_assoc, List.singleton_append, Pi.pthreadDsFun]
  exact .nil _

/-- The steps of PI's processing thread for SSC's configuration are `deal_conf_info`. -/
theorem conf_path {s : Shake} {m : List U8} (hd : s.draining = true) (hst : s.storing = [])
    (hm : s.msgHead.head? = some m) (hc : isConf m) (mem : Bool) :
    Path (shakeStep env) s (.piDeal mem :: confStores.map .piStore)
      { s with pi := Pi.piDealDsIng env.hash mem m s.pi, msgHead := s.msgHead.tail } := by
  have hf : msgType m ≠ SscMacMsgid.macFetch.val := fun h =>
    absurd (h.symm.trans hc.1) (by decide)
  have hdeal : shakeStep env s (.piDeal mem) = some { s with
      msgHead := s.msgHead.tail
      storing := confStores.map fun f => (f, f.ofConf (ConfInfo.read ((msgBody m).drop 4))) } := by
    simp only [shakeStep, hd, hst, Pi.getMsgData, hm, piDealStep, if_neg hf, if_pos hc,
      Pi.delDealedMsg]
  have hpi : Pi.piDealDsIng env.hash mem m s.pi = Pi.dealConfInfo (msgBody m) s.pi := by
    simp only [Pi.piDealDsIng, if_pos hc.2]
  have hstores : Path (shakeStep env) { s with
        msgHead := s.msgHead.tail
        storing := confStores.map fun f => (f, f.ofConf (ConfInfo.read ((msgBody m).drop 4))) } _ _ :=
    stores_path _ _ rfl
  rw [List.map_map, confStores_eq, ← hpi, ← hst] at hstores
  exact .cons hdeal hstores

end Alone

end RookieMac
