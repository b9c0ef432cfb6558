import RookieMac.SscCommPi

/-!
# SSD between SSC and SSA

`ssd_mac_init.c`, downwards. A handler converts the ports of SSC's message in place and sends the
whole message on. `ssd_send_ssa_conf` first writes a header of its own, which the copy then covers.
The conversion of a physical id is not in the source (`ssPhyidCe2fe`); `mem` is the outcome of the
one allocation of a handler.
-/

namespace RookieMac.Ssd

open CMem Ssc

inductive SsdMacFunc
  | ssdAddStaticFunc | ssdClearDynFunc | ssdClearVlanFunc | ssdClearInterFunc
  | ssdModifyInterLeanSta | ssdModifyAgeTime
  deriving DecidableEq

def ssdMsgidMacComm : U32 := (1 <<< 16 ||| 1 <<< 8 ||| 0x40) ||| 1

/-- The payload is as long as asked for; what it holds before it is written does not matter. -/
def ssdSendSsaConf (mem : Bool) (msgid : SsdMacMsgid) (msgLen : U32) (msg : List U8) :
    List SsInfo :=
  if mem then
    let reveInfo := List.replicate msgLen.toNat 0
    let reveInfo := writeU32 4 msgLen (writeU32 0 msgid.val reveInfo)
    let reveInfo := if msgLen.toInt > 0 then memcpy msgLen.toNat reveInfo msg else reveInfo
    [{ msgid := ssdMsgidMacComm, msgVer := 1, concurrent := 1, sender := .ssd, reciver := .ssa,
       dstType := .selfNode, payload := reveInfo }]
  else []

section Handlers

variable (ssPhyidCe2fe : U32 → U32) (mem : Bool)

/-- The id is not that of the command. -/
def ssdAddStaticFunc (msg : List U8) : List SsInfo :=
  let staticMac := BaseStaticMac.read (msgBody msg)
  let msg := writeU32 20 (ssPhyidCe2fe staticMac.portId) msg
  ssdSendSsaConf mem .clearVlanMac (msgLen msg) msg

def ssdClearDynFunc (msg : List U8) : List SsInfo :=
  ssdSendSsaConf mem .macClearDyn (msgLen msg) msg

def ssdClearVlanFunc (msg : List U8) : List SsInfo :=
  ssdSendSsaConf mem .clearVlanMac (msgLen msg) msg

def ssdClearInterFunc (msg : List U8) : List SsInfo :=
  let port := ssPhyidCe2fe (readU32 (msgBody msg) 0)
  let msg := writeU32 8 port msg
  ssdSendSsaConf mem .clearInterDyn (msgLen msg) msg

def ssdModifyAgeTime (msg : List U8) : List SsInfo :=
  ssdSendSsaConf mem .macAgetime (msgLen msg) msg

def ssdModifyInterLeanSta (msg : List U8) : List SsInfo :=
  let msg := (List.range' 1 portNum).foldl
    (fun msg i => writeU32 (8 + 4 * i) (ssPhyidCe2fe (readU32 msg (8 + 4 * i))) msg) msg
  ssdSendSsaConf mem .macInterLearn (msgLen msg) msg

def SsdMacFunc.call (msg : List U8) : SsdMacFunc → List SsInfo
  | .ssdAddStaticFunc => Ssd.ssdAddStaticFunc ssPhyidCe2fe mem msg
  | .ssdClearDynFunc => Ssd.ssdClearDynFunc mem msg
  | .ssdClearVlanFunc => Ssd.ssdClearVlanFunc mem msg
  | .ssdClearInterFunc => Ssd.ssdClearInterFunc ssPhyidCe2fe mem msg
  | .ssdModifyInterLeanSta => Ssd.ssdModifyInterLeanSta ssPhyidCe2fe mem msg
  | .ssdModifyAgeTime => Ssd.ssdModifyAgeTime mem msg

end Handlers

/-- `ssd_mac_func_init`: a handler for each configuration message, none for the ids above. -/
def ssdMacFuncInit : Fin sscMsgidMacIdNum → Option SsdMacFunc
  | 0 => some .ssdAddStaticFunc
  | 1 => some .ssdClearDynFunc
  | 2 => some .ssdClearVlanFunc
  | 3 => some .ssdClearInterFunc
  | 4 => some .ssdModifyInterLeanSta
  | 5 => some .ssdModifyAgeTime
  | _ => none

def ssdMacRecvSscCommand (ssPhyidCe2fe : U32 → U32) (mem : Bool) (payload : List U8) :
    Except Fault (List SsInfo) :=
  let msgid := (msgType payload).toNat
  if h : msgid < sscMsgidMacIdNum then
    match ssdMacFuncInit ⟨msgid, h⟩ with
    | some f => .ok (f.call ssPhyidCe2fe mem payload)
    | none => .error .nullCall
  else .error .outOfBounds

/-! ## What is sent -/

/-- A message with its own length in the header is sent as it is. -/
theorem ssdSendSsaConf_msgInfo (mem : Bool) (msgid : SsdMacMsgid) (ty : U32) (msg : List U8)
    (h : msg.length + 8 < 2 ^ 31) :
    ssdSendSsaConf mem msgid (msgLen (msgInfo ty msg)) (msgInfo ty msg) = if mem then
      [{ msgid := ssdMsgidMacComm, msgVer := 1, concurrent := 1, sender := .ssd, reciver := .ssa,
         dstType := .selfNode, payload := msgInfo ty msg }] else [] := by
  have hlen : msgLen (msgInfo ty msg) = BitVec.ofNat 32 (msg.length + 8) := by
    simpa using msgLen_msgInfo ty msg []
  have hnat : (BitVec.ofNat 32 (msg.length + 8)).toNat = msg.length + 8 := by
    rw [BitVec.toNat_ofNat, Nat.mod_eq_of_lt (by omega)]
  have hpos : (BitVec.ofNat 32 (msg.length + 8)).toInt > 0 := by
    rw [BitVec.toInt_eq_toNat_of_lt (by omega)]
    omega
  rw [ssdSendSsaConf, hlen, hnat]
  simp only [if_pos hpos]
  have hdrop : (writeU32 4 (BitVec.ofNat 32 (msg.length + 8))
      (writeU32 0 msgid.val (List.replicate (msg.length + 8) 0))).drop (msg.length + 8) = [] := by
    apply List.drop_eq_nil_of_le
    simp only [writeU32, List.length_append, List.length_take, List.length_drop, length_toBytes,
      List.length_replicate]
    omega
  rw [memcpy, hdrop, List.append_nil, List.take_of_length_le (by rw [length_msgInfo])]

end RookieMac.Ssd
