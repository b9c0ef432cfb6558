import RookieMac.CliMacCommand
import RookieMac.SscCommPi

/-!
# PI and SSC together

What one event does to both programs while the connection is idle: a notification of SSD, which SSC
handles and forwards, and a command, which PI sends and applies. SSC stops at a fault.
-/

namespace RookieMac

open CMem

abbrev Both := Except Ssc.Fault (Pi.PiDbMacInfo × Ssc.MacOpraClass)

/-- One notification from SSD: SSC handles it and PI what SSC sends. -/
def notifyStep (env : Ssc.SscEnv) (s : Both) (payload : List U8) : Both := do
  let (pi, ssc) ← s
  let (ssc, sent) ← Ssc.sscMacUpdateRecv env (fun _ => true) payload ssc
  return (sent.foldl (fun db m => Pi.piDealNotifyMsg env.hash true m db) pi, ssc)

inductive MacCmd
  | tableStatic (tmp : BaseStaticMac)
  | clearDynamic
  | clearVlan (vlanNum : U32)
  | clearInterface (numInter : U32)

def MacCmd.exec (hash : HashFn) : MacCmd → Pi.Exec
  | .tableStatic tmp => Pi.cfgRookieMacTableStaticCmd hash true tmp
  | .clearDynamic => Pi.execClearRookieMacDynamicCmd hash
  | .clearVlan vlanNum => Pi.execClearRookieMacVlanNumCmd hash vlanNum
  | .clearInterface numInter => Pi.execClearRookieMacInterfaceNumCmd hash numInter

/-- A command at PI, and what it sends delivered to SSC. -/
def cmdStep (env : Ssc.SscEnv) (s : Both) (cmd : MacCmd) : Both := do
  let (pi, ssc) ← s
  let (pi, sent) := cmd.exec env.hash pi
  let ssc ← sent.foldlM (fun ssc m =>
    (Ssc.sscRecevieMsgPi env (fun _ => true) m ssc).map Prod.fst) ssc
  return (pi, ssc)

def ssdNotify (e : PiMacEntry) : List U8 := msgInfo SscMacMsgid.macAddrNotify.val e.bytes

/-! ## A small system to run examples on -/

/-- A target that stores words low byte first, whose ports need no conversion. -/
def littleEnv : Ssc.SscEnv := ⟨hashFunction .little 0, id, id, 0⟩

def Pi.PiDbMacInfo.blank : Pi.PiDbMacInfo :=
  ⟨0, 0, 0, fun _ => 0, Chained.empty, Chained.empty⟩

def Ssc.MacOpraClass.blank : Ssc.MacOpraClass :=
  Ssc.sscMacOperaInit ⟨0, fun _ => 0, 0, 0, Chained.empty, Chained.empty, fun _ => none, false⟩

end RookieMac
