import RookieMac.Proofs.Relay

/-!
# The configuration after a sequence of commands

Each layer takes an age time as it comes. A learn status reaches every port at SSC, the ports below
`PORT_NUM` at PI, and the ports from 1 and below `PORT_NUM` at the chip: the last port is left out
at both ends.
-/

namespace RookieMac

open CMem

namespace ConfCmd

/-- The status a learn command sets. -/
def status : ConfCmd → Option U32
  | .learn arg => Pi.learnStatus (Pi.learnBuff arg)
  | .ageTime _ => none

def seconds : ConfCmd → Option U32
  | .learn _ => none
  | .ageTime seconds => some seconds

/-- The text of a learn command is one to enable or to disable learning. -/
def Valid : ConfCmd → Prop
  | .learn arg => Pi.learnStatus (Pi.learnBuff arg) ≠ none
  | .ageTime _ => True

end ConfCmd

/-- The last value the commands set, if one does. -/
def lastOf (f : ConfCmd → Option U32) (cmds : List ConfCmd) : Option U32 :=
  cmds.foldl (fun a cmd => (f cmd).or a) none

theorem lastOf_concat (f : ConfCmd → Option U32) (cmds : List ConfCmd) (cmd : ConfCmd) :
    lastOf f (cmds ++ [cmd]) = (f cmd).or (lastOf f cmds) := by
  rw [lastOf, List.foldl_append]
  rfl

/-! ## The chip -/

section Chip

variable (env : DownEnv)

/-- The unit and the port of the chip for a port of the CLI. -/
def chipPort (p : ℕ) : U32 × U32 :=
  env.ssa.ssaMacGetUnitPortFromPhyid
    (env.ssPhyidCe2fe (env.ssc.ssCommIfxDbGetPhyid (BitVec.ofNat 32 p)))

def learnMask : U32 :=
  env.ssa.bcmPortLearnArl ||| env.ssa.bcmPortLearnFwd ||| env.ssa.bcmPortLearnCpu

/-- The SDK has been called to set the status, in place of the learn bits, for the port. -/
def LearnSet (calls : List Ssa.BcmCall) (status : U32) (p : ℕ) : Prop :=
  ∃ flags, Ssa.BcmCall.portLearnSet (chipPort env p).1 (chipPort env p).2
    (flags &&& ~~~ learnMask env ||| status) ∈ calls

/-- Ports the chip was never asked to set are none of these. -/
def OnlyPorts (ps : Set ℕ) (calls : List Ssa.BcmCall) : Prop :=
  ∀ unit port flags, Ssa.BcmCall.portLearnSet unit port flags ∈ calls →
    ∃ p ∈ ps, chipPort env p = (unit, port)

/-- The ports the loop over the ports passes. -/
def loopPorts : Set ℕ := {p | 1 ≤ p ∧ p < portNum}

variable {env} {calls : List Ssa.BcmCall} {ps : Set ℕ}

theorem ssaLearnPort_extends (portId status : U32) :
    calls <+: Ssa.ssaLearnPort env.ssa calls portId status :=
  List.prefix_append _ _

theorem learnLoop_extends (ids : ℕ → U32) (status : U32) :
    ∀ (is : List ℕ) (calls : List Ssa.BcmCall),
    calls <+: is.foldl (fun calls i => Ssa.ssaLearnPort env.ssa calls (ids i) status) calls
  | [], _ => List.prefix_rfl
  | i :: is, _ =>
    (ssaLearnPort_extends (ids i) status).trans (learnLoop_extends ids status is _)

theorem learnSet_step (env : DownEnv) (calls : List Ssa.BcmCall) (status : U32) (p : ℕ) :
    LearnSet env (Ssa.ssaLearnPort env.ssa calls
      (env.ssPhyidCe2fe (env.ssc.ssCommIfxDbGetPhyid (BitVec.ofNat 32 p))) status) status p :=
  ⟨_, List.mem_append_right _ (List.mem_singleton.2 rfl)⟩

theorem LearnSet.mono {calls' : List Ssa.BcmCall} {status : U32} {p : ℕ}
    (h : LearnSet env calls status p) (hp : calls <+: calls') : LearnSet env calls' status p :=
  let ⟨flags, hf⟩ := h
  ⟨flags, hp.subset hf⟩

theorem OnlyPorts.step (h : OnlyPorts env ps calls) (status : U32) {p : ℕ} (hp : p ∈ ps) :
    OnlyPorts env ps (Ssa.ssaLearnPort env.ssa calls
      (env.ssPhyidCe2fe (env.ssc.ssCommIfxDbGetPhyid (BitVec.ofNat 32 p))) status) := by
  intro unit port flags hc
  rcases List.mem_append.1 hc with hc | hc
  · exact h unit port flags hc
  · obtain ⟨rfl, rfl, -⟩ := Ssa.BcmCall.portLearnSet.inj (List.mem_singleton.1 hc)
    exact ⟨p, hp, rfl⟩

/-- The loop over the ports sets the status for each and touches no other. -/
theorem learnLoop_spec {ids : ℕ → U32} (status : U32) : ∀ (is : List ℕ) (calls : List Ssa.BcmCall),
    (∀ i ∈ is, ids i = env.ssPhyidCe2fe (env.ssc.ssCommIfxDbGetPhyid (BitVec.ofNat 32 i))
      ∧ i ∈ ps) →
    OnlyPorts env ps calls →
    OnlyPorts env ps (is.foldl (fun calls i => Ssa.ssaLearnPort env.ssa calls (ids i) status) calls)
      ∧ ∀ i ∈ is, LearnSet env
        (is.foldl (fun calls i => Ssa.ssaLearnPort env.ssa calls (ids i) status) calls) status i
  | [], calls, _, ho => ⟨ho, fun _ hi => absurd hi List.not_mem_nil⟩
  | i :: is, calls, h, ho => by
    obtain ⟨hid, hps⟩ := h i (.head _)
    have ho' := ho.step status hps
    have hset := learnSet_step env calls status i
    rw [← hid] at ho' hset
    obtain ⟨hrest, hset'⟩ := learnLoop_spec status is _ (fun j hj => h j (.tail _ hj)) ho'
    refine ⟨hrest, fun j hj => ?_⟩
    rcases List.mem_cons.1 hj with rfl | hj
    · exact hset.mono (learnLoop_extends ids status is _)
    · exact hset' j hj

theorem ssaModifyInterLeanSta_spec {st : U32} {m : List U8}
    (hm : (ConfMsg.learnStatus st).Carries (env.ssPhyidCe2fe ∘ env.ssc.ssCommIfxDbGetPhyid) m)
    (ho : OnlyPorts env loopPorts calls) :
    OnlyPorts env loopPorts (Ssa.ssaModifyInterLeanSta env.ssa calls m)
      ∧ ∀ i ∈ loopPorts, LearnSet env (Ssa.ssaModifyInterLeanSta env.ssa calls m) st i := by
  obtain ⟨hids, hstat⟩ := hm
  have hmem : ∀ i, i ∈ List.range' 1 (portNum - 1) ↔ i ∈ loopPorts := fun i => by
    rw [List.mem_range'_1]
    rfl
  have hloop : ∀ i ∈ List.range' 1 (portNum - 1), readU32 (msgBody m) (4 * i)
      = env.ssPhyidCe2fe (env.ssc.ssCommIfxDbGetPhyid (BitVec.ofNat 32 i)) ∧ i ∈ loopPorts :=
    fun i hi => ⟨hids i ((hmem i).1 hi).1 ((hmem i).1 hi).2.le, (hmem i).1 hi⟩
  rw [Ssa.ssaModifyInterLeanSta, hstat]
  obtain ⟨honly, hset⟩ := learnLoop_spec st _ calls hloop ho
  exact ⟨honly, fun i hi => hset i ((hmem i).2 hi)⟩

end Chip

/-! ## The databases -/

section Databases

variable {env : DownEnv}

theorem piLocalLearnSta_eq (str : List U8) (db : Pi.PiDbMacInfo) : Pi.piLocalLearnSta str db
    = { db with portStatus := fun i =>
          if i.val < portNum then (Pi.learnStatus str).getD (db.portStatus i)
          else db.portStatus i } := by
  simp only [Pi.piLocalLearnSta, Pi.learnStatus]
  split_ifs <;> rfl

/-- PI reads in the text what the command read in the buffer. -/
theorem learnStatus_cstr (arg : List U8) : Pi.learnStatus (cstr (Pi.learnBuff arg) ++ [0])
    = Pi.learnStatus (Pi.learnBuff arg) := by
  have hz : 0#8 ∈ Pi.learnBuff arg := List.mem_append_right _ (.head _)
  rw [Pi.learnStatus, Pi.learnStatus, strncmp_cstr _ _ hz, strncmp_cstr _ _ hz]

/-- What a learn command makes of PI's database, and what it sends. -/
theorem exec_text (arg : List U8) (pi : Pi.PiDbMacInfo) : (ConfCmd.learn arg).exec env pi
    = ({ pi with portStatus := fun i =>
          if i.val < portNum then (Pi.learnStatus (Pi.learnBuff arg)).getD (pi.portStatus i)
          else pi.portStatus i },
      [(ConfMsg.learnStatus ((Pi.learnStatus (Pi.learnBuff arg)).getD env.piStack)).send]) := by
  simp only [ConfCmd.exec, Pi.cfgRookieMacLearnCmd, Pi.piUpdateLocalDb, piLocalLearnSta_eq,
    learnStatus_cstr]
  rfl

/-- A command with its status or its seconds known: what PI's database becomes, and what is sent. -/
theorem exec_learn {arg : List U8} {st : U32} (h : Pi.learnStatus (Pi.learnBuff arg) = some st)
    (pi : Pi.PiDbMacInfo) : (ConfCmd.learn arg).exec env pi
      = ({ pi with portStatus := fun i => if i.val < portNum then st else pi.portStatus i },
        [(ConfMsg.learnStatus st).send]) := by
  rw [exec_text, h]
  rfl

theorem exec_ageTime (seconds : U32) (pi : Pi.PiDbMacInfo) : (ConfCmd.ageTime seconds).exec env pi
    = ({ pi with ageTime := seconds }, [(ConfMsg.ageTime seconds).send]) := by
  simp only [ConfCmd.exec, Pi.cfgRookieMacTableAgetimeNumCmd, Pi.sendAndUpdate, Pi.piUpdateLocalDb,
    Pi.piLocalSetAgetime, readU32_toBytes_self]
  rfl

variable {ssc : Ssc.MacOpraClass}

theorem call_learn (env : DownEnv) (hm : ssc.mutex = false) (st : U32) :
    (Ssc.sscHandler .macInterLearn).call env.ssc (fun _ => true) (ConfMsg.learnStatus st).send ssc
      = .ok ({ ssc with portStatus := fun _ => st }, Ssc.sscSendSsdConf true .macInterLearn
        ((ConfMsg.learnStatus st).relayed env.ssc.ssCommIfxDbGetPhyid env.ssc.stack)) := by
  simp only [ConfMsg.send, ConfMsg.type, ConfMsg.payload, Pi.piSendMsgSsc, Ssc.sscHandler,
    Ssc.SscMacFunc.call, Ssc.sscModifyInterLeanSta, msgBody_msgInfo_self, readU32_toBytes_self,
    Ssc.lock_free hm]
  simp [hm, bind, Except.bind, pure, Except.pure, Ssc.pthreadMutexUnlock, ConfMsg.relayed]

theorem call_ageTime (env : DownEnv) (hm : ssc.mutex = false) (seconds : U32) :
    (Ssc.sscHandler .macAgetime).call env.ssc (fun _ => true) (ConfMsg.ageTime seconds).send ssc
      = .ok ({ ssc with ageTime := seconds }, Ssc.sscSendSsdConf true .macAgetime
        ((ConfMsg.ageTime seconds).relayed env.ssc.ssCommIfxDbGetPhyid env.ssc.stack)) := by
  simp only [ConfMsg.send, ConfMsg.type, ConfMsg.payload, Pi.piSendMsgSsc, Ssc.sscHandler,
    Ssc.SscMacFunc.call, Ssc.sscModifyAgeTime, msgBody_msgInfo_self, readU32_toBytes_self,
    Ssc.lock_free hm]
  simp [hm, bind, Except.bind, pure, Except.pure, Ssc.pthreadMutexUnlock, ConfMsg.relayed]

/-- The message SSA receives of a configuration message. -/
def atSsa (env : DownEnv) (cmd : ConfMsg) : List U8 :=
  msgInfo cmd.sscType.val
    (cmd.relayed (env.ssPhyidCe2fe ∘ env.ssc.ssCommIfxDbGetPhyid) env.ssc.stack)

theorem deliverSsc_conf (hr : Ssc.Registered ssc) {cmd : ConfMsg} {ssc' : Ssc.MacOpraClass}
    (hcall : (Ssc.sscHandler cmd.type).call env.ssc (fun _ => true) cmd.send ssc
      = .ok (ssc', Ssc.sscSendSsdConf true cmd.sscType
        (cmd.relayed env.ssc.ssCommIfxDbGetPhyid env.ssc.stack))) (calls : List Ssa.BcmCall) :
    deliverSsc env (ssc, calls) cmd.send
      = .ok (ssc', cmd.ssaFunc.call env.ssa calls (atSsa env cmd)) := by
  have hrecv := (Ssc.sscRecevieMsgPi_call hr (fun _ => true) cmd.type cmd.payload).trans hcall
  rw [← ConfMsg.send] at hrecv
  have hssd := Ssd.relay_ssd env.ssPhyidCe2fe env.ssc.ssCommIfxDbGetPhyid env.ssc.stack true cmd
  have hssa := cmd.ssaMacRecvSsdComm_call env.ssa calls
    (cmd.relayed (env.ssPhyidCe2fe ∘ env.ssc.ssCommIfxDbGetPhyid) env.ssc.stack)
  simp only [deliverSsc, hrecv, bind, Except.bind, Ssc.sscSendSsdConf, ↓reduceIte,
    List.foldlM_cons, List.foldlM_nil, deliverSsd, hssd, hssa, pure, Except.pure, atSsa]

/-- What a command does at every layer. -/
theorem confStep_text (env : DownEnv) (hr : Ssc.Registered ssc) (hm : ssc.mutex = false)
    (pi : Pi.PiDbMacInfo) (calls : List Ssa.BcmCall) (arg : List U8) :
    let st := (Pi.learnStatus (Pi.learnBuff arg)).getD env.piStack
    confStep env (.ok ⟨pi, ssc, calls⟩) (.learn arg) = .ok
      ⟨((ConfCmd.learn arg).exec env pi).1, { ssc with portStatus := fun _ => st },
        Ssa.ssaModifyInterLeanSta env.ssa calls (atSsa env (.learnStatus st))⟩ := by
  intro st
  have hd := deliverSsc_conf hr (call_learn env hm st) calls
  simp only [confStep, bind, Except.bind, exec_text, List.foldlM_cons, List.foldlM_nil, hd, pure,
    Except.pure, ConfMsg.ssaFunc, Ssa.SsaMacFunc.call, st]

theorem confStep_learn (env : DownEnv) (hr : Ssc.Registered ssc) (hm : ssc.mutex = false)
    (pi : Pi.PiDbMacInfo) (calls : List Ssa.BcmCall) {arg : List U8} {st : U32}
    (h : Pi.learnStatus (Pi.learnBuff arg) = some st) :
    confStep env (.ok ⟨pi, ssc, calls⟩) (.learn arg) = .ok
      ⟨{ pi with portStatus := fun i => if i.val < portNum then st else pi.portStatus i },
        { ssc with portStatus := fun _ => st },
        Ssa.ssaModifyInterLeanSta env.ssa calls (atSsa env (.learnStatus st))⟩ := by
  have hstep := confStep_text env hr hm pi calls arg
  rw [h, exec_learn h] at hstep
  exact hstep

theorem confStep_ageTime (env : DownEnv) (hr : Ssc.Registered ssc) (hm : ssc.mutex = false)
    (pi : Pi.PiDbMacInfo) (calls : List Ssa.BcmCall) (seconds : U32) :
    confStep env (.ok ⟨pi, ssc, calls⟩) (.ageTime seconds) = .ok
      ⟨{ pi with ageTime := seconds }, { ssc with ageTime := seconds },
        Ssa.ssaModifyAgeTime calls (atSsa env (.ageTime seconds))⟩ := by
  have hd := deliverSsc_conf hr (call_ageTime env hm seconds) calls
  simp only [confStep, bind, Except.bind, exec_ageTime, List.foldlM_cons, List.foldlM_nil, hd, pure,
    Except.pure, ConfMsg.ssaFunc, Ssa.SsaMacFunc.call]

end Databases

/-! ## A sequence of commands -/

section Sequence

variable {env : DownEnv} {cmds : List ConfCmd} {s : Layers}

/-- PI and SSC hold the last age time commanded. -/
def AgeAgrees (cmds : List ConfCmd) (s : Layers) : Prop :=
  ∀ a, lastOf ConfCmd.seconds cmds = some a → s.pi.ageTime = a ∧ s.ssc.ageTime = a

/-- PI and SSC hold the last status commanded for the port, and the chip has been set to it. -/
def PortAgrees (env : DownEnv) (cmds : List ConfCmd) (s : Layers) (p : Fin (portNum + 1)) : Prop :=
  ∀ st, lastOf ConfCmd.status cmds = some st →
    s.pi.portStatus p = st ∧ s.ssc.portStatus p = st ∧ LearnSet env s.calls st p

def ConfigAgrees (env : DownEnv) (cmds : List ConfCmd) (s : Layers) : Prop :=
  AgeAgrees cmds s ∧ ∀ p : Fin (portNum + 1), 1 ≤ p.val → PortAgrees env cmds s p

/-- What holds after any sequence of commands. -/
structure ConfInv (env : DownEnv) (cmds : List ConfCmd) (s : Layers) : Prop where
  registered : Ssc.Registered s.ssc
  mutex : s.ssc.mutex = false
  age : AgeAgrees cmds s
  ports : ∀ p : Fin (portNum + 1), p.val ∈ loopPorts → PortAgrees env cmds s p
  only : OnlyPorts env loopPorts s.calls

theorem ConfInv.ageTime (h : ConfInv env cmds s) (seconds : U32) :
    ∃ s', confStep env (.ok s) (.ageTime seconds) = .ok s'
      ∧ ConfInv env (cmds ++ [.ageTime seconds]) s' := by
  obtain ⟨pi, ssc, calls⟩ := s
  have hstep := confStep_ageTime env h.registered h.mutex pi calls seconds
  refine ⟨_, hstep, h.registered, h.mutex, ?_, ?_, ?_⟩
  · intro a ha
    rw [lastOf_concat] at ha
    obtain rfl := Option.some.inj ha
    exact ⟨rfl, rfl⟩
  · intro p hp st hst
    rw [lastOf_concat] at hst
    obtain ⟨hpi, hssc, hset⟩ := h.ports p hp st hst
    exact ⟨hpi, hssc, hset.mono (List.prefix_append _ _)⟩
  · intro unit port flags hc
    rcases List.mem_append.1 hc with hc | hc
    · exact h.only unit port flags hc
    · cases List.mem_singleton.1 hc

theorem ConfInv.learn (h : ConfInv env cmds s) {arg : List U8} {st : U32}
    (hst : Pi.learnStatus (Pi.learnBuff arg) = some st) :
    ∃ s', confStep env (.ok s) (.learn arg) = .ok s'
      ∧ ConfInv env (cmds ++ [.learn arg]) s' := by
  obtain ⟨pi, ssc, calls⟩ := s
  have hstep := confStep_learn env h.registered h.mutex pi calls hst
  have hcar : (ConfMsg.learnStatus st).Carries (env.ssPhyidCe2fe ∘ env.ssc.ssCommIfxDbGetPhyid)
      (atSsa env (.learnStatus st)) := ConfMsg.carries_relayed _ _ _ _
  generalize atSsa env (.learnStatus st) = m at hstep hcar
  obtain ⟨honly, hset⟩ := ssaModifyInterLeanSta_spec hcar h.only
  refine ⟨_, hstep, h.registered, h.mutex, fun a ha => ?_, fun p hp st' hst' => ?_, honly⟩
  · rw [lastOf_concat] at ha
    exact h.age a ha
  · rw [lastOf_concat, ConfCmd.status, hst] at hst'
    obtain rfl := Option.some.inj hst'
    exact ⟨if_pos hp.2, rfl, hset p.val hp⟩

theorem confRun_inv (env : DownEnv) (pi₀ : Pi.PiDbMacInfo) (ssc₀ : Ssc.MacOpraClass)
    (cmds : List ConfCmd) (hv : ∀ cmd ∈ cmds, cmd.Valid) :
    ∃ s, cmds.foldl (confStep env)
        (.ok ⟨pi₀, Ssc.sscMacOperaInit { ssc₀ with mutex := false }, []⟩) = .ok s
      ∧ ConfInv env cmds s := by
  induction cmds using List.reverseRecOn with
  | nil =>
    refine ⟨_, rfl, rfl, rfl, fun a ha => ?_, fun p _ st hst => ?_, fun _ _ _ hc => ?_⟩
    · cases ha
    · cases hst
    · cases hc
  | append_singleton cmds cmd ih =>
    obtain ⟨s, hs, h⟩ := ih fun c hc => hv c (List.mem_append_left _ hc)
    have hvc := hv cmd (List.mem_append_right _ (.head _))
    rw [List.foldl_append, hs, List.foldl_cons, List.foldl_nil]
    cases cmd with
    | learn arg =>
      obtain ⟨st, hst⟩ := Option.ne_none_iff_exists'.1 hvc
      exact h.learn hst
    | ageTime seconds => exact h.ageTime seconds

theorem lastOf_status_none (h : ∀ cmd ∈ cmds, cmd.status = none) :
    lastOf ConfCmd.status cmds = none := by
  induction cmds using List.reverseRecOn with
  | nil => rfl
  | append_singleton cmds cmd ih =>
    rw [lastOf_concat, h cmd (List.mem_append_right _ (.head _)),
      ih fun c hc => h c (List.mem_append_left _ hc)]
    rfl

theorem lastOf_status_ne_none {cmd : ConfCmd} (hc : cmd ∈ cmds) (h : cmd.status ≠ none) :
    lastOf ConfCmd.status cmds ≠ none := by
  induction cmds using List.reverseRecOn with
  | nil => cases hc
  | append_singleton cmds last ih =>
    rw [lastOf_concat, Ne, Option.or_eq_none_iff, not_and_or]
    rcases List.mem_append.1 hc with hc | hc
    · exact .inr (ih hc)
    · rw [← List.mem_singleton.1 hc]
      exact .inl h

/-- After any commands every layer has what they say for the age time and for the ports below the
last; for the last port as well exactly when none of them is a learn command. -/
theorem config_agrees_iff (env : DownEnv)
    (hinj : Set.InjOn (chipPort env) {p | 1 ≤ p ∧ p ≤ portNum}) (pi₀ : Pi.PiDbMacInfo)
    (ssc₀ : Ssc.MacOpraClass) (cmds : List ConfCmd) (hv : ∀ cmd ∈ cmds, cmd.Valid) :
    ∃ s, cmds.foldl (confStep env)
        (.ok ⟨pi₀, Ssc.sscMacOperaInit { ssc₀ with mutex := false }, []⟩) = .ok s
      ∧ (AgeAgrees cmds s
        ∧ ∀ p : Fin (portNum + 1), 1 ≤ p.val → p.val < portNum → PortAgrees env cmds s p)
      ∧ (ConfigAgrees env cmds s ↔ ∀ arg, ConfCmd.learn arg ∉ cmds) := by
  obtain ⟨s, hs, h⟩ := confRun_inv env pi₀ ssc₀ cmds hv
  refine ⟨s, hs, ⟨h.age, fun p h1 hp => h.ports p ⟨h1, hp⟩⟩, fun hc arg hmem => ?_, fun hno => ?_⟩
  · obtain ⟨st, hst⟩ := Option.ne_none_iff_exists'.1 (lastOf_status_ne_none hmem (hv _ hmem))
    obtain ⟨-, -, flags, hset⟩ := hc.2 (Fin.last portNum) (by decide) st hst
    -- the call would be for a port of the loop, which is not the last
    obtain ⟨p, hp, heq⟩ := h.only _ _ _ hset
    have hlast : p = portNum := hinj ⟨hp.1, hp.2.le⟩ ⟨by decide, le_rfl⟩ heq
    exact absurd hp.2 (by omega)
  · refine ⟨h.age, fun p _ st hst => ?_⟩
    rw [lastOf_status_none fun cmd hc => ?_] at hst
    · cases hst
    · cases cmd with
      | learn arg => exact absurd hc (hno arg)
      | ageTime seconds => rfl

/-- A chip whose unit 0 has each port under its own id, and whose learn bits are the two low ones
and the next. -/
def plainEnv : DownEnv where
  ssc := littleEnv
  ssPhyidCe2fe := id
  ssa := { bcmL2Static := 0x20, bcmL2ReplaceDynamic := 0x400, bcmL2SrcHit := 2,
           bcmL2ReplaceDelete := 0x40, bcmPortLearnArl := 1, bcmPortLearnFwd := 4,
           bcmPortLearnCpu := 2, macFlagStatic := staticType, macFlushVid := 1, macFlushPhyid := 2,
           eswMacPortToHw := fun _ port => port.portId,
           ssaMacGetUnitPortFromPhyid := fun phyid => (0, phyid),
           bcmPortLearnGet := fun _ _ _ => 0 }
  piStack := 0

theorem chipPort_plainEnv_injOn : Set.InjOn (chipPort plainEnv) {p | 1 ≤ p ∧ p ≤ portNum} := by
  rintro p ⟨-, hp⟩ q ⟨-, hq⟩ h
  have h2 : BitVec.ofNat 32 p = BitVec.ofNat 32 q := (Prod.mk.inj h).2
  have h3 := congrArg BitVec.toNat h2
  rw [BitVec.toNat_ofNat, BitVec.toNat_ofNat] at h3
  have hport : portNum = 24 := rfl
  omega

theorem config_agrees_iff_two :
    let cmds : List ConfCmd := [.learn (Pi.chars "disable"), .ageTime 300]
    ∃ s, cmds.foldl (confStep plainEnv) (.ok ⟨.blank, .blank, []⟩) = .ok s
      ∧ s.pi.ageTime = 300 ∧ s.ssc.portStatus 23 = macUnfwdUnlearn
      ∧ ¬ ConfigAgrees plainEnv cmds s := by
  intro cmds
  have hv : ∀ cmd ∈ cmds, cmd.Valid := by
    intro cmd hc
    simp only [cmds, List.mem_cons, List.not_mem_nil, or_false] at hc
    rcases hc with rfl | rfl
    · change Pi.learnStatus _ ≠ none
      decide
    · trivial
  obtain ⟨s, hs, ⟨hage, hports⟩, hall⟩ :=
    config_agrees_iff plainEnv chipPort_plainEnv_injOn .blank .blank cmds hv
  refine ⟨s, hs, (hage 300 rfl).1, (hports 23 (by decide) (by decide) _ ?_).2.1, fun hc => ?_⟩
  · decide
  · exact hall.1 hc _ (.head _)

/-- Learning is enabled: PI's status of port 24 stays as it was. -/
theorem config_disagrees :
    Set.InjOn (chipPort plainEnv) {p | 1 ≤ p ∧ p ≤ portNum}
      ∧ ∃ s, [ConfCmd.learn (Pi.chars "enable")].foldl (confStep plainEnv) (.ok ⟨.blank, .blank, []⟩)
          = .ok s
        ∧ ¬ ConfigAgrees plainEnv [.learn (Pi.chars "enable")] s := by
  have hst : Pi.learnStatus (Pi.learnBuff (Pi.chars "enable")) = some macFwdLearn := by decide
  have hreg : Ssc.Registered .blank := rfl
  refine ⟨chipPort_plainEnv_injOn, _, confStep_learn plainEnv hreg rfl .blank [] hst,
    fun hc => ?_⟩
  obtain ⟨hpi, -, -⟩ := hc.2 (Fin.last portNum) (by decide) macFwdLearn (by decide)
  exact absurd hpi (by decide)

end Sequence

end RookieMac
