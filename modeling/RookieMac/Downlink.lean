import RookieMac.CliMacCommand
import RookieMac.SsdMacInit
import RookieMac.SsaMacInit

/-!
# The way down

A configuration command goes from PI through SSC and SSD to SSA, each program handing what it sends
to the next. The three programs declare their message ids apart; the messaging layer between SSC,
SSD and SSA delivers a payload as it was sent.
-/

namespace RookieMac

open CMem

/-- What the programs below PI call and the source does not hold, and an uninitialised word of PI's
stack. -/
structure DownEnv where
  ssc : Ssc.SscEnv
  ssPhyidCe2fe : U32 → U32
  ssa : Ssa.SsaEnv
  piStack : U32

/-- The configuration messages of the CLI, with the values they carry. -/
inductive ConfMsg
  | addStatic (tmp : BaseStaticMac)
  | clearDynamic
  | clearVlan (vlanNum : U32)
  | clearInterface (numInter : U32)
  | learnStatus (status : U32)
  | ageTime (seconds : U32)

namespace ConfMsg

def type : ConfMsg → PiMacMsgid
  | .addStatic _ => .macAddAddr
  | .clearDynamic => .macClearDyn
  | .clearVlan _ => .clearVlanMac
  | .clearInterface _ => .clearInterDyn
  | .learnStatus _ => .macInterLearn
  | .ageTime _ => .macAgetime

def payload : ConfMsg → List U8
  | .addStatic tmp => tmp.bytes
  | .clearDynamic => []
  | .clearVlan vlanNum => toBytes vlanNum
  | .clearInterface numInter => toBytes numInter
  | .learnStatus status => toBytes status
  | .ageTime seconds => toBytes seconds

def send (cmd : ConfMsg) : List U8 := Pi.piSendMsgSsc cmd.type cmd.payload

end ConfMsg

/-! ## Commands at all layers -/

inductive ConfCmd
  | learn (arg : List U8)
  | ageTime (seconds : U32)

def ConfCmd.exec (env : DownEnv) : ConfCmd → Pi.Exec
  | .learn arg => Pi.cfgRookieMacLearnCmd env.ssc.hash env.piStack arg
  | .ageTime seconds => Pi.cfgRookieMacTableAgetimeNumCmd env.ssc.hash seconds

/-- The two databases and the calls to the SDK so far. -/
structure Layers where
  pi : Pi.PiDbMacInfo
  ssc : Ssc.MacOpraClass
  calls : List Ssa.BcmCall

/-- What SSC sends, through SSD to SSA. -/
def deliverSsd (env : DownEnv) (calls : List Ssa.BcmCall) (sent : Ssc.SsInfo) :
    Except Ssc.Fault (List Ssa.BcmCall) := do
  let down ← Ssd.ssdMacRecvSscCommand env.ssPhyidCe2fe true sent.payload
  down.foldlM (fun calls m => Ssa.ssaMacRecvSsdComm env.ssa m.payload calls) calls

def deliverSsc (env : DownEnv) (s : Ssc.MacOpraClass × List Ssa.BcmCall) (m : List U8) :
    Except Ssc.Fault (Ssc.MacOpraClass × List Ssa.BcmCall) := do
  let (ssc, sent) ← Ssc.sscRecevieMsgPi env.ssc (fun _ => true) m s.1
  let calls ← sent.foldlM (deliverSsd env) s.2
  return (ssc, calls)

def confStep (env : DownEnv) (s : Except Ssc.Fault Layers) (cmd : ConfCmd) :
    Except Ssc.Fault Layers := do
  let s ← s
  let (pi, sent) := cmd.exec env s.pi
  let (ssc, calls) ← sent.foldlM (deliverSsc env) (s.ssc, s.calls)
  return ⟨pi, ssc, calls⟩

end RookieMac
