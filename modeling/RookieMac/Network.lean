import RookieMac.Uplink
import RookieMac.System
import RookieMac.Lib.Runs

/-!
# The programs from the CLI to the chip

The four programs at work, one step at a time, over the queues of messages between them, oldest
first; there is one distributed node, PI's connection to SSC lasts, a read returns one message, and
the transfers that follow a connect are over. SSC's notification handler sends to PI and then updates
SSC's table. A step whose program would wait for ever is not enabled. The outcomes of the allocations
of a step are `mem`.
-/

namespace RookieMac

open CMem

structure NetEnv extends DownEnv where
  ssaMacGetPhyidFromChipPort : U32 → U32 → Option U32
  ssPhyidFe2ce : U32 → U32
  word : U32

def NetEnv.clbk (env : NetEnv) : Ssa.ClbkEnv :=
  ⟨env.ssa.bcmL2Static, env.ssaMacGetPhyidFromChipPort, env.word⟩

inductive CliCmd
  | mac (cmd : MacCmd)
  | conf (cmd : ConfCmd)

def CliCmd.exec (env : DownEnv) : CliCmd → Pi.Exec
  | .mac cmd => cmd.exec env.ssc.hash
  | .conf cmd => cmd.exec env

structure Net where
  pi : Pi.PiState
  ssc : Ssc.MacOpraClass
  /-- What SSA has called of the SDK. -/
  calls : List Ssa.BcmCall
  piToSsc : List (List U8)
  sscToSsd : List Ssc.SsInfo
  ssdToSsa : List Ssc.SsInfo
  ssaToSsd : List Ssc.SsInfo
  ssdToSsc : List Ssc.SsInfo
  /-- What the notification handler has sent and not yet done. -/
  handling : Option PiMacEntry
  sscToPi : List (List U8)

inductive NetEvent
  | command (cmd : CliCmd)
  | sscRecv (mem : ℕ → Bool)
  | ssdRecvSsc (mem : Bool)
  | ssaRecv
  | macClbk (l2addr : Ssa.BcmL2Event) (insert : U32) (mem : Bool)
  | ssdRecvSsa (mem : Bool)
  | sscSend (mem : Bool)
  | sscUpdate (mem : Bool)
  | piRecv (mem : ℕ → Bool)
  | piDeal (mem : ℕ → Bool)

def netStep (env : NetEnv) (net : Net) : NetEvent → Option Net
  | .command cmd =>
    let (db, sent) := cmd.exec env.toDownEnv net.pi.db
    some { net with pi := { net.pi with db := db }, piToSsc := net.piToSsc ++ sent }
  | .sscRecv mem =>
    match net.piToSsc with
    | [] => none
    | m :: ms =>
      match Ssc.sscRecevieMsgPi env.ssc mem m net.ssc with
      | .error _ => none
      | .ok (ssc, out) =>
        some { net with ssc := ssc, piToSsc := ms, sscToSsd := net.sscToSsd ++ out }
  | .ssdRecvSsc mem =>
    match net.sscToSsd with
    | [] => none
    | m :: ms =>
      match Ssd.ssdMacRecvSscCommand env.ssPhyidCe2fe mem m.payload with
      | .error _ => none
      | .ok out => some { net with sscToSsd := ms, ssdToSsa := net.ssdToSsa ++ out }
  | .ssaRecv =>
    match net.ssdToSsa with
    | [] => none
    | m :: ms =>
      match Ssa.ssaMacRecvSsdComm env.ssa m.payload net.calls with
      | .error _ => none
      | .ok calls => some { net with ssdToSsa := ms, calls := calls }
  | .macClbk l2addr insert mem =>
    some { net with ssaToSsd := net.ssaToSsd ++ Ssa.macClbk env.clbk mem l2addr insert }
  | .ssdRecvSsa mem =>
    match net.ssaToSsd with
    | [] => none
    | m :: ms =>
      let out := Ssd.ssdMacRecvSsaMsg env.ssPhyidFe2ce mem m.payload
      some { net with ssaToSsd := ms, ssdToSsc := net.ssdToSsc ++ out }
  | .sscSend mem =>
    match net.handling, net.ssdToSsc with
    | none, m :: ms =>
      let data := Ssc.notifyData env.ssc m.payload
      some { net with
        ssdToSsc := ms
        sscToPi := net.sscToPi ++ (Ssc.sscSendMsgPi mem .macAddrNotify data.bytes).toList
        handling := some data }
    | _, _ => none
  | .sscUpdate mem =>
    match net.handling with
    | none => none
    | some data =>
      match Ssc.sscNotifyUpdate env.ssc mem data net.ssc with
      | .error _ => none
      | .ok ssc => some { net with ssc := ssc, handling := none }
  | .piRecv mem =>
    match net.sscToPi with
    | [] => none
    | m :: ms => some { net with pi := Pi.piRecevieMsgSsc mem m net.pi, sscToPi := ms }
  | .piDeal mem =>
    (Pi.dealInfoPass env.ssc.hash mem net.pi).map fun pi => { net with pi := pi }

/-- The programs after their initialisation, with nothing on its way. -/
def Net.start (pi : Pi.PiDbMacInfo) (ssc : Ssc.MacOpraClass) : Net :=
  ⟨⟨Pi.piDefaultArgsInit pi, [], 0, 0⟩, Ssc.sscMacOperaInit (Ssc.sscDbInit ssc), [], [], [], [], [],
    [], none, []⟩

end RookieMac
