import RookieMac.SscDbManger

/-!
# SSA and the chip

`ssa_mac_init.c`, downwards. A handler reads SSD's message and calls the SDK; what it does is the
list of its calls, oldest first. The SDK and the conversions of a physical id are not in the source.
What the SDK reads back of a port may depend on every call before (`bcmPortLearnGet`).
-/

namespace RookieMac.Ssa

open CMem Ssc

/-- `bcm_l2_addr_t`, the fields that are not left zero. -/
structure BcmL2Addr where
  mac : Mac
  vid : BitVec 16
  port : U32
  flags : U32
  deriving DecidableEq

structure SsaMacPort where
  macFlag : U32
  portId : U32
  portType : U32
  deriving DecidableEq

/-- The SDK calls that change the chip, with their arguments from the unit on. -/
inductive BcmCall
  | l2AddrAdd (unit : U32) (l2Addr : BcmL2Addr)
  | l2Replace (unit flags : U32)
  | l2AddrDeleteByVlan (unit : U32) (vid : BitVec 16) (flags : U32)
  | l2AddrDeleteByPort (unit mod port flags : U32)
  | l2AgeTimerSet (unit ageTimer : U32)
  | portLearnSet (unit port flags : U32)
  deriving DecidableEq

structure SsaEnv where
  bcmL2Static : U32
  bcmL2ReplaceDynamic : U32
  bcmL2SrcHit : U32
  bcmL2ReplaceDelete : U32
  bcmPortLearnArl : U32
  bcmPortLearnFwd : U32
  bcmPortLearnCpu : U32
  macFlagStatic : U32
  macFlushVid : U32
  macFlushPhyid : U32
  eswMacPortToHw : U32 → SsaMacPort → U32
  ssaMacGetUnitPortFromPhyid : U32 → U32 × U32
  bcmPortLearnGet : List BcmCall → U32 → U32 → U32

inductive SsaMacFunc
  | ssaAddStaticFunc | ssaClearDynFunc | ssaClearVlanFunc | ssaClearInterFunc
  | ssaModifyInterLeanSta | ssaModifyAgeTime
  deriving DecidableEq

section Handlers

variable (env : SsaEnv) (log : List BcmCall)

def eswMacFlagToHw (usrFlag : U32) : U32 :=
  let tmpFlag := if usrFlag &&& env.macFlagStatic ≠ 0
    then env.bcmL2Static ||| env.bcmL2ReplaceDynamic else 0
  tmpFlag ||| env.bcmL2SrcHit

def ssaAddStaticFunc (msg : List U8) : List BcmCall :=
  let data := BaseStaticMac.read (msgBody msg)
  let portInfo : SsaMacPort := ⟨env.macFlagStatic, data.portId, 0⟩
  log ++ [.l2AddrAdd 0 ⟨data.mac, data.vlanId.setWidth 16, env.eswMacPortToHw 0 portInfo,
    eswMacFlagToHw env env.macFlagStatic⟩]

def ssaClearDynFunc : List BcmCall := log ++ [.l2Replace 0 env.bcmL2ReplaceDelete]

def ssaClearVlanFunc (msg : List U8) : List BcmCall :=
  let vlan := readU32 (msgBody msg) 0
  log ++ [.l2AddrDeleteByVlan 0 (vlan.setWidth 16) env.macFlushVid]

def ssaClearInterFunc (msg : List U8) : List BcmCall :=
  let portInfo : SsaMacPort := ⟨macFlagDyn, readU32 (msgBody msg) 0, 0⟩
  log ++ [.l2AddrDeleteByPort 0 0 (env.eswMacPortToHw 0 portInfo) env.macFlushPhyid]

def ssaModifyAgeTime (msg : List U8) : List BcmCall :=
  log ++ [.l2AgeTimerSet 0 (readU32 (msgBody msg) 0)]

/-- One pass of the loop of `ssa_modify_inter_lean_sta`. -/
def ssaLearnPort (portId status : U32) : List BcmCall :=
  let (unit, port) := env.ssaMacGetUnitPortFromPhyid portId
  let flags := env.bcmPortLearnGet log unit port
  let flags := flags &&& ~~~(env.bcmPortLearnArl ||| env.bcmPortLearnFwd ||| env.bcmPortLearnCpu)
  log ++ [.portLearnSet unit port (flags ||| status)]

/-- The loop ends one port early. -/
def ssaModifyInterLeanSta (msg : List U8) : List BcmCall :=
  (List.range' 1 (portNum - 1)).foldl
    (fun log i => ssaLearnPort env log (readU32 (msgBody msg) (4 * i))
      (readU32 (msgBody msg) (4 * (portNum + 1)))) log

def SsaMacFunc.call (msg : List U8) : SsaMacFunc → List BcmCall
  | .ssaAddStaticFunc => Ssa.ssaAddStaticFunc env log msg
  | .ssaClearDynFunc => Ssa.ssaClearDynFunc env log
  | .ssaClearVlanFunc => Ssa.ssaClearVlanFunc env log msg
  | .ssaClearInterFunc => Ssa.ssaClearInterFunc env log msg
  | .ssaModifyInterLeanSta => Ssa.ssaModifyInterLeanSta env log msg
  | .ssaModifyAgeTime => Ssa.ssaModifyAgeTime log msg

end Handlers

def ssaMacDrvFuncInit : Fin ssdMsgidMacIdNum → Option SsaMacFunc
  | 0 => some .ssaAddStaticFunc
  | 1 => some .ssaClearDynFunc
  | 2 => some .ssaClearVlanFunc
  | 3 => some .ssaClearInterFunc
  | 4 => some .ssaModifyInterLeanSta
  | 5 => some .ssaModifyAgeTime

def ssaMacRecvSsdComm (env : SsaEnv) (payload : List U8) (log : List BcmCall) :
    Except Fault (List BcmCall) :=
  let msgid := (msgType payload).toNat
  if h : msgid < ssdMsgidMacIdNum then
    match ssaMacDrvFuncInit ⟨msgid, h⟩ with
    | some f => .ok (f.call env log payload)
    | none => .error .nullCall
  else .error .outOfBounds

end RookieMac.Ssa
