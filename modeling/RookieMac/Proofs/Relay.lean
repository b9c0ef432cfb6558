import RookieMac.Downlink
import RookieMac.Proofs.StaticTable

/-!
# The relay of a configuration message

Between two programs a configuration message is its id, its own length and its values with the
conversions so far applied to its ports (`relayed`). SSC makes the message that, SSD keeps it that,
and SSA reads its fields from it.
-/

namespace RookieMac

open CMem

/-- The length in the header is the length of the header and of what follows it. -/
def WellSized (m : List U8) : Prop := (msgLen m).toNat = 8 + (msgBody m).length

theorem wellSized_msgInfo {ty : U32} {msg : List U8} (h : msg.length + 8 < 2 ^ 32) :
    WellSized (msgInfo ty msg) := by
  have hlen := msgLen_msgInfo ty msg []
  rw [List.append_nil] at hlen
  rw [WellSized, hlen, msgBody_msgInfo_self, BitVec.toNat_ofNat, Nat.mod_eq_of_lt h]
  omega

namespace ConfMsg

/-- The values of the message with `f` applied to its ports; entry 0 of the ports of a learn status,
which no loop writes, is `word`. -/
def relayed (f : U32 → U32) (word : U32) : ConfMsg → List U8
  | .addStatic tmp => ({ tmp with portId := f tmp.portId } : BaseStaticMac).bytes
  | .clearDynamic => []
  | .clearVlan vlanNum => toBytes vlanNum
  | .clearInterface numInter => toBytes (f numInter)
  | .learnStatus status =>
    interLearnBytes (fun i => if 1 ≤ i.val then f (BitVec.ofNat 32 i) else word) status
  | .ageTime seconds => toBytes seconds

theorem length_payload_le (cmd : ConfMsg) : cmd.payload.length ≤ 16 := by
  cases cmd <;> simp [payload, BaseStaticMac.bytes, macLen]

theorem length_relayed_le (cmd : ConfMsg) (f : U32 → U32) (word : U32) :
    (cmd.relayed f word).length ≤ 104 := by
  cases cmd <;> simp [relayed, BaseStaticMac.bytes, interLearnBytes, macLen]

def sscType : ConfMsg → SscMacMsgid
  | .addStatic _ => .macAddAddr
  | .clearDynamic => .macClearDyn
  | .clearVlan _ => .clearVlanMac
  | .clearInterface _ => .clearInterDyn
  | .learnStatus _ => .macInterLearn
  | .ageTime _ => .macAgetime

end ConfMsg

/-! ## SSC -/

namespace Ssc

variable {db : MacOpraClass}

theorem sscLocalAddAddr_returns (hash : HashFn) (hm : db.mutex = false) (mem : Bool)
    (entry : BaseStaticMac) : ∃ db', sscLocalAddAddr hash mem entry db = .ok db' := by
  cases mem with
  | true => exact ⟨_, sscLocalAddAddr_ok hm entry⟩
  | false =>
    rcases sscLocalAddAddr_noMem hm entry with hn | hn
    · exact ⟨_, hn⟩
    · exact ⟨_, hn.trans (sscLocalAddAddr_ok hm entry)⟩

/-- A handler sends the message on with its ports converted to physical ids, and returns. -/
theorem handler_sends (env : SscEnv) (hm : db.mutex = false) (mem : ℕ → Bool) (cmd : ConfMsg)
    (rest : List U8) :
    ∃ db', (sscHandler cmd.type).call env mem (cmd.send ++ rest) db = .ok (db',
      sscSendSsdConf (mem 0) cmd.sscType (cmd.relayed env.ssCommIfxDbGetPhyid env.stack)) := by
  cases cmd with
  | addStatic tmp =>
    simp only [ConfMsg.send, ConfMsg.type, ConfMsg.payload, Pi.piSendMsgSsc, sscHandler,
      SscMacFunc.call, sscAddStaticFunc, msgBody_msgInfo, BaseStaticMac.read_bytes]
    obtain ⟨db', hdb⟩ := sscLocalAddAddr_returns env.hash hm (mem 1)
      { tmp with portId := env.ssCommIfxDbGetPhyid tmp.portId }
    rw [hdb]
    exact ⟨db', rfl⟩
  | clearDynamic =>
    simp only [ConfMsg.type, sscHandler, SscMacFunc.call, sscClearDynFunc, sscDelDynAddr,
      delFromDyn_ok hm]
    exact ⟨_, rfl⟩
  | clearVlan vlanNum =>
    simp only [ConfMsg.send, ConfMsg.type, ConfMsg.payload, Pi.piSendMsgSsc, sscHandler,
      SscMacFunc.call, sscClearVlanFunc, msgBody_msgInfo, readU32_toBytes, sscDelVlanAddr,
      delFromDyn_ok hm]
    exact ⟨_, rfl⟩
  | clearInterface numInter =>
    simp only [ConfMsg.send, ConfMsg.type, ConfMsg.payload, Pi.piSendMsgSsc, sscHandler,
      SscMacFunc.call, sscClearInterFunc, msgBody_msgInfo, readU32_toBytes, sscDelIntAddr,
      delFromDyn_ok hm]
    exact ⟨_, rfl⟩
  | learnStatus status =>
    simp only [ConfMsg.send, ConfMsg.type, ConfMsg.payload, Pi.piSendMsgSsc, sscHandler,
      SscMacFunc.call, sscModifyInterLeanSta, msgBody_msgInfo, readU32_toBytes, lock_free hm]
    exact ⟨_, rfl⟩
  | ageTime seconds =>
    simp only [ConfMsg.send, ConfMsg.type, ConfMsg.payload, Pi.piSendMsgSsc, sscHandler,
      SscMacFunc.call, sscModifyAgeTime, msgBody_msgInfo, readU32_toBytes, lock_free hm]
    exact ⟨_, rfl⟩

end Ssc

/-! ## SSD -/

namespace Ssd

theorem writeU32_static (ty w : U32) (b : BaseStaticMac) :
    writeU32 20 w (msgInfo ty b.bytes)
      = msgInfo ty ({ b with portId := w } : BaseStaticMac).bytes := by
  simp only [msgInfo, BaseStaticMac.bytes, List.length_append, length_toBytes]
  rw [writeU32_skip _ _ _ 16 (by simp), writeU32_skip _ _ _ 12 (by simp),
    writeU32_skip _ _ _ 6 (by simp), writeU32_skip _ _ _ 4 (by simp),
    writeU32_skip _ _ _ 0 (by simp), writeU32_toBytes_self]

theorem writeU32_first (ty v w : U32) :
    writeU32 8 w (msgInfo ty (toBytes v)) = msgInfo ty (toBytes w) := by
  simp only [msgInfo, length_toBytes]
  rw [writeU32_skip _ _ _ 4 (by simp), writeU32_skip _ _ _ 0 (by simp), writeU32_toBytes_self]

theorem convert_ports (ty status : U32) (f : U32 → U32) (portId : Fin (portNum + 1) → U32)
    {is : List ℕ} (hnd : is.Nodup) (hlt : ∀ i ∈ is, i < portNum + 1) :
    is.foldl (fun msg i => writeU32 (8 + 4 * i) (f (readU32 msg (8 + 4 * i))) msg)
        (msgInfo ty (interLearnBytes portId status))
      = msgInfo ty (interLearnBytes (fun i => if i.val ∈ is then f (portId i) else portId i)
        status) := by
  have hws : ∀ i ∈ is, i < (List.ofFn portId).length := fun i hi => by
    rw [List.length_ofFn]
    exact hlt i hi
  have hmap : ((List.ofFn portId).mapIdx fun i w => if i ∈ is then f w else w)
      = List.ofFn fun i => if i.val ∈ is then f (portId i) else portId i := by
    apply List.ext_getElem (by simp)
    intro i hi hi'
    rw [List.getElem_mapIdx, List.getElem_ofFn, List.getElem_ofFn]
  simp only [msgInfo, interLearnBytes, List.length_append, length_wordsBytes, List.length_ofFn,
    length_toBytes]
  rw [← List.append_assoc, foldl_convert f _ _ (by simp) is _ hnd hws, hmap, List.append_assoc]

/-- The loop over the ports converts each that SSC set. -/
theorem convert_learn (ty status : U32) (f g : U32 → U32) (word : U32) :
    (List.range' 1 portNum).foldl
        (fun msg i => writeU32 (8 + 4 * i) (f (readU32 msg (8 + 4 * i))) msg)
        (msgInfo ty ((ConfMsg.learnStatus status).relayed g word))
      = msgInfo ty ((ConfMsg.learnStatus status).relayed (f ∘ g) word) := by
  have hlt : ∀ i ∈ List.range' 1 portNum, i < portNum + 1 := fun i hi => by
    rw [List.mem_range'_1] at hi
    omega
  rw [ConfMsg.relayed, convert_ports ty status f _ List.nodup_range' hlt, ConfMsg.relayed]
  congr 2
  funext i
  have hmem : i.val ∈ List.range' 1 portNum ↔ 1 ≤ i.val := by
    rw [List.mem_range'_1]
    omega
  by_cases h1 : 1 ≤ i.val
  · rw [if_pos (hmem.2 h1), if_pos h1, if_pos h1, Function.comp_apply]
  · rw [if_neg (mt hmem.1 h1), if_neg h1, if_neg h1]

/-- A handler applies its conversion to the ports and sends the message on. -/
theorem relay_ssd (f g : U32 → U32) (word : U32) (mem : Bool) (cmd : ConfMsg) :
    ssdMacRecvSscCommand f mem (msgInfo cmd.sscType.val (cmd.relayed g word)) = .ok (if mem then
      [{ msgid := ssdMsgidMacComm, msgVer := 1, concurrent := 1, sender := .ssd, reciver := .ssa,
         dstType := .selfNode,
         payload := msgInfo cmd.sscType.val (cmd.relayed (f ∘ g) word) }] else []) := by
  have hsend := fun msgid ty => ssdSendSsaConf_msgInfo mem msgid ty (cmd.relayed (f ∘ g) word)
    ((Nat.add_le_add_right (cmd.length_relayed_le _ _) 8).trans_lt (by omega))
  unfold ssdMacRecvSscCommand
  simp only [msgType_msgInfo_self]
  cases cmd with
  | addStatic tmp =>
    refine congrArg Except.ok ?_
    change ssdAddStaticFunc f mem (msgInfo _ _) = _
    simp only [ssdAddStaticFunc, msgBody_msgInfo_self, ConfMsg.relayed,
      BaseStaticMac.read_bytes_self]
    rw [writeU32_static]
    exact hsend .clearVlanMac _
  | clearDynamic => exact congrArg Except.ok (hsend .macClearDyn _)
  | clearVlan vlanNum => exact congrArg Except.ok (hsend .clearVlanMac _)
  | clearInterface numInter =>
    refine congrArg Except.ok ?_
    change ssdClearInterFunc f mem (msgInfo _ _) = _
    simp only [ssdClearInterFunc, msgBody_msgInfo_self, ConfMsg.relayed, readU32_toBytes_self]
    rw [writeU32_first]
    exact hsend .clearInterDyn _
  | learnStatus status =>
    refine congrArg Except.ok ?_
    change ssdModifyInterLeanSta f mem (msgInfo _ _) = _
    rw [ssdModifyInterLeanSta, convert_learn]
    exact hsend .macInterLearn _
  | ageTime seconds => exact congrArg Except.ok (hsend .macAgetime _)

end Ssd

/-! ## SSA -/

namespace ConfMsg

open Ssa

def ssaFunc : ConfMsg → SsaMacFunc
  | .addStatic _ => .ssaAddStaticFunc
  | .clearDynamic => .ssaClearDynFunc
  | .clearVlan _ => .ssaClearVlanFunc
  | .clearInterface _ => .ssaClearInterFunc
  | .learnStatus _ => .ssaModifyInterLeanSta
  | .ageTime _ => .ssaModifyAgeTime

/-- The message holds the command's values, with `f` of each port. -/
def Carries (f : U32 → U32) (m : List U8) : ConfMsg → Prop
  | .addStatic tmp =>
    let data := BaseStaticMac.read (msgBody m)
    data.mac = tmp.mac ∧ data.vlanId = tmp.vlanId ∧ data.portId = f tmp.portId
  | .clearDynamic => msgBody m = []
  | .clearVlan vlanNum => readU32 (msgBody m) 0 = vlanNum
  | .clearInterface numInter => readU32 (msgBody m) 0 = f numInter
  | .learnStatus status =>
    (∀ i, 1 ≤ i → i ≤ portNum → readU32 (msgBody m) (4 * i) = f (BitVec.ofNat 32 i))
      ∧ readU32 (msgBody m) (4 * (portNum + 1)) = status
  | .ageTime seconds => readU32 (msgBody m) 0 = seconds

theorem carries_relayed (f : U32 → U32) (word ty : U32) (cmd : ConfMsg) :
    cmd.Carries f (msgInfo ty (cmd.relayed f word)) := by
  cases cmd with
  | addStatic tmp => simp [Carries, relayed]
  | clearDynamic => exact msgBody_msgInfo_self _ _
  | clearVlan vlanNum => simp [Carries, relayed]
  | clearInterface numInter => simp [Carries, relayed]
  | learnStatus status =>
    simp only [Carries, relayed, msgBody_msgInfo_self, interLearnBytes]
    constructor
    · intro i h1 hi
      rw [readU32_wordsBytes _ _ i (by rw [List.length_ofFn]; omega), List.getElem_ofFn, if_pos h1]
    · rw [readU32_skip _ _ 0 (by rw [length_wordsBytes, List.length_ofFn, add_zero]),
        readU32_toBytes_self]
  | ageTime seconds => simp [Carries, relayed]

theorem ssaMacRecvSsdComm_call (env : SsaEnv) (log : List BcmCall) (cmd : ConfMsg)
    (msg : List U8) : ssaMacRecvSsdComm env (msgInfo cmd.sscType.val msg) log
      = .ok (cmd.ssaFunc.call env log (msgInfo cmd.sscType.val msg)) := by
  unfold ssaMacRecvSsdComm
  simp only [msgType_msgInfo_self]
  cases cmd <;> rfl

/-- The slot of the message's type holds the handler of the command. -/
theorem ssaMacDrvFuncInit_type (cmd : ConfMsg) (msg : List U8) :
    ∃ h : (msgType (msgInfo cmd.sscType.val msg)).toNat < ssdMsgidMacIdNum,
      Ssa.ssaMacDrvFuncInit ⟨_, h⟩ = some cmd.ssaFunc := by
  simp only [msgType_msgInfo_self]
  cases cmd <;> exact ⟨of_decide_eq_true rfl, rfl⟩

end ConfMsg

/-- Of a configuration message from PI, whatever follows it in SSC's buffer, SSD and then SSA
receive one message each (none where the allocation for it fails), sized by what it carries, and SSA
dispatches it to the handler of the command, which its table has in the slot of the message's type,
with the command's values and the chip's port ids. -/
theorem relay_preserves (env : DownEnv) (ssc₀ : Ssc.MacOpraClass) (mem : ℕ → Bool) (memSsd : Bool)
    (cmd : ConfMsg) (rest : List U8) :
    WellSized cmd.send ∧ ∃ (ssc : Ssc.MacOpraClass) (toSsd toSsa : Ssc.SsInfo),
      Ssc.sscRecevieMsgPi env.ssc mem (cmd.send ++ rest)
          (Ssc.sscMacOperaInit { ssc₀ with mutex := false })
        = .ok (ssc, if mem 0 then [toSsd] else [])
      ∧ WellSized toSsd.payload
      ∧ Ssd.ssdMacRecvSscCommand env.ssPhyidCe2fe memSsd toSsd.payload
        = .ok (if memSsd then [toSsa] else [])
      ∧ WellSized toSsa.payload
      ∧ cmd.Carries (env.ssPhyidCe2fe ∘ env.ssc.ssCommIfxDbGetPhyid) toSsa.payload
      ∧ (∃ h : (msgType toSsa.payload).toNat < ssdMsgidMacIdNum,
        Ssa.ssaMacDrvFuncInit ⟨_, h⟩ = some cmd.ssaFunc)
      ∧ ∀ calls, Ssa.ssaMacRecvSsdComm env.ssa toSsa.payload calls
        = .ok (cmd.ssaFunc.call env.ssa calls toSsa.payload) := by
  set db := Ssc.sscMacOperaInit { ssc₀ with mutex := false }
  have hreg : Ssc.Registered db := rfl
  have hm : db.mutex = false := rfl
  clear_value db
  have hsized : ∀ f word, (cmd.relayed f word).length + 8 < 2 ^ 32 := fun f word =>
    (Nat.add_le_add_right (cmd.length_relayed_le f word) 8).trans_lt (by norm_num)
  refine ⟨wellSized_msgInfo ?_, ?_⟩
  · exact (Nat.add_le_add_right cmd.length_payload_le 8).trans_lt (by norm_num)
  obtain ⟨ssc, hssc⟩ := Ssc.handler_sends env.ssc hm mem cmd rest
  have hssd := Ssd.relay_ssd env.ssPhyidCe2fe env.ssc.ssCommIfxDbGetPhyid env.ssc.stack memSsd cmd
  have hrecv := (Ssc.sscRecevieMsgPi_append hreg mem cmd.type cmd.payload rest).trans hssc
  exact ⟨ssc, _, _, hrecv, wellSized_msgInfo (hsized _ _), hssd, wellSized_msgInfo (hsized _ _),
    cmd.carries_relayed _ _ _, cmd.ssaMacDrvFuncInit_type _,
    fun calls => cmd.ssaMacRecvSsdComm_call _ _ _⟩

end RookieMac
