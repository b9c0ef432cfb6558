import RookieMac.Proofs.Commands
import RookieMac.Proofs.Arrival

/-!
# PI's dynamic table is the chip's

What the chip learns and forgets goes up through four programs, and each of SSC and PI keeps a table
of it. While no clear is under way and no allocation fails, SSC's table is the chip's as it was a
number of notifications ago, and PI's as it was some more ago; with nothing on its way both are the
chip's, with the user's id of each port.
-/

namespace RookieMac

open CMem Chained Hops

/-! ## The chip's table -/

section Chip

/-- The module and port the chip forwards an address to. -/
abbrev ChipTable := Mac × BitVec 16 → Option (U32 × U32)

variable (env : NetEnv)

/-- What an event says the chip has learnt or forgotten. -/
def chipStep (t : ChipTable) : NetEvent → ChipTable
  | .macClbk l2addr insert _ =>
    if l2addr.flags &&& env.ssa.bcmL2Static ≠ 0 then t
    else Function.update t (l2addr.mac, l2addr.vid)
      (if insert = 0 then none else some (l2addr.modid, l2addr.port))
  | _ => t

def NetEnv.userPort (p : U32 × U32) : U32 :=
  env.ssc.ssCommGetPhyidUserIfx (env.ssPhyidFe2ce ((env.ssaMacGetPhyidFromChipPort p.1 p.2).getD 0))

/-- The table as PI and SSC can hold it. -/
def mirror (t : ChipTable) : MacMap := fun k =>
  if k.2.toNat < 2 ^ 16 then (t (k.1, k.2.setWidth 16)).map env.userPort else none

/-- The entry SSA sends up, and as it is once SSC has converted its port. -/
def NetEvent.news : NetEvent → List PiMacEntry
  | .macClbk l2addr insert _ =>
    if l2addr.flags &&& env.ssa.bcmL2Static ≠ 0 then []
    else [Ssa.clbkEntry env.clbk l2addr insert]
  | _ => []

def atPi (e : PiMacEntry) : PiMacEntry :=
  { e with portId := env.ssc.ssCommGetPhyidUserIfx (env.ssPhyidFe2ce e.portId) }

/-- The chip says 1 for an address it has learnt and 0 for one it has forgotten. -/
def NetEvent.Says : NetEvent → Prop
  | .macClbk _ insert _ => insert = 0 ∨ insert = 1
  | _ => True

variable {env}

theorem mirror_update (t : ChipTable) (mac : Mac) (vid : BitVec 16) (p : Option (U32 × U32)) :
    mirror env (Function.update t (mac, vid) p)
      = Function.update (mirror env t) (mac, vid.setWidth 32) (p.map env.userPort) := by
  have hvid : (vid.setWidth 32).toNat = vid.toNat := by
    rw [BitVec.toNat_setWidth]
    omega
  funext ⟨m, v⟩
  by_cases hk : (m, v) = (mac, vid.setWidth 32)
  · obtain ⟨rfl, rfl⟩ := Prod.mk.inj hk
    have hback : (vid.setWidth 32).setWidth 16 = vid := by
      apply BitVec.eq_of_toNat_eq
      rw [BitVec.toNat_setWidth, hvid]
      omega
    rw [Function.update_self, mirror, if_pos (by rw [hvid]; omega), hback, Function.update_self]
  · rw [Function.update_of_ne hk, mirror, mirror]
    split_ifs with hv
    · have hne : (m, v.setWidth 16) ≠ (mac, vid) := by
        rintro heq
        obtain ⟨rfl, rfl⟩ := Prod.mk.inj heq
        refine hk (Prod.ext rfl (BitVec.eq_of_toNat_eq ?_))
        have hv' : v.toNat < 2 ^ 16 := hv
        show v.toNat = _
        rw [BitVec.toNat_setWidth, BitVec.toNat_setWidth]
        omega
      rw [Function.update_of_ne hne]
    · rfl

/-- An event changes the table as its notification does. -/
theorem mirror_chipStep (t : ChipTable) {e : NetEvent} (he : e.Says) :
    mirror env (chipStep env t e) = ((e.news env).map (atPi env)).foldl MacMap.notify
      (mirror env t) := by
  cases e with
  | macClbk l2addr insert mem =>
    by_cases hs : l2addr.flags &&& env.ssa.bcmL2Static ≠ 0
    · rw [chipStep, NetEvent.news, if_pos hs, if_pos hs]
      rfl
    · rw [chipStep, NetEvent.news, if_neg hs, if_neg hs, mirror_update]
      rcases he with rfl | rfl <;> rfl
  | _ => rfl

theorem mirror_foldl : ∀ (es : List NetEvent) (t : ChipTable), (∀ e ∈ es, e.Says) →
    mirror env (es.foldl (chipStep env) t)
      = ((es.flatMap (NetEvent.news env)).map (atPi env)).foldl MacMap.notify (mirror env t)
  | [], _, _ => rfl
  | e :: es, t, h => by
    rw [List.foldl_cons, mirror_foldl es _ fun e he => h e (.tail _ he),
      mirror_chipStep t (h e (.head _)), List.flatMap_cons, List.map_append, List.foldl_append]

theorem mirror_empty : mirror env (fun _ => none) = fun _ => none := by
  funext k
  simp [mirror]

end Chip

/-! ## A notification in the queues -/

section Queues

variable (env : NetEnv)

def ssaMsg (e : PiMacEntry) : Ssc.SsInfo where
  msgid := Ssa.ssaMsgidMacUpdate
  msgVer := 1
  concurrent := 1
  sender := .ssa
  reciver := .ssd
  dstType := .selfNode
  payload := msgInfo env.word e.bytes

def ssdMsg (e : PiMacEntry) : Ssc.SsInfo where
  msgid := Ssd.ssdMsgidMacUpdate
  msgVer := 1
  concurrent := 1
  sender := .ssd
  reciver := .ssc
  dstType := .selfNode
  payload := msgInfo env.word ({ e with portId := env.ssPhyidFe2ce e.portId } : PiMacEntry).bytes

variable {env}

theorem length_entry (e : PiMacEntry) : e.bytes.length = sizeofPiMacEntry := by
  simp [PiMacEntry.bytes, macLen]

theorem writeU32_entry (ty w : U32) (e : PiMacEntry) :
    writeU32 20 w (msgInfo ty e.bytes) = msgInfo ty ({ e with portId := w } : PiMacEntry).bytes := by
  simp only [msgInfo, PiMacEntry.bytes, List.length_append, length_toBytes, List.length_replicate]
  rw [writeU32_skip _ _ _ 16 (by simp), writeU32_skip _ _ _ 12 (by simp),
    writeU32_skip _ _ _ 6 (by simp), writeU32_skip _ _ _ 4 (by simp),
    writeU32_skip _ _ _ 0 (by simp), writeU32_toBytes]

theorem macClbk_news (l2addr : Ssa.BcmL2Event) (insert : U32) (mem : Bool) :
    Ssa.macClbk env.clbk true l2addr insert
      = ((NetEvent.macClbk l2addr insert mem).news env).map (ssaMsg env) := by
  by_cases hs : l2addr.flags &&& env.ssa.bcmL2Static ≠ 0
  · rw [Ssa.macClbk, NetEvent.news, if_pos hs, NetEnv.clbk, if_pos hs]
    rfl
  · rw [Ssa.macClbk, NetEvent.news, if_neg hs, NetEnv.clbk, if_neg hs]
    rfl

theorem ssdMacRecvSsaMsg_ssaMsg (e : PiMacEntry) :
    Ssd.ssdMacRecvSsaMsg env.ssPhyidFe2ce true (ssaMsg env e).payload = [ssdMsg env e] := by
  have hread : PiMacEntry.read (msgBody (msgInfo env.word e.bytes)) = e := by
    rw [msgBody_msgInfo_self, PiMacEntry.read_bytes_self]
  have hrecv := recvMsg_msgInfo env.word
    ({ e with portId := env.ssPhyidFe2ce e.portId } : PiMacEntry).bytes []
    (by rw [length_msgInfo, length_entry]; decide)
  rw [List.append_nil] at hrecv
  simp only [Ssd.ssdMacRecvSsaMsg, Ssd.ssdSendMsgSsc, ssaMsg, hread, writeU32_entry, hrecv, if_true]
  rfl

theorem notifyData_ssdMsg (e : PiMacEntry) :
    Ssc.notifyData env.ssc (ssdMsg env e).payload = atPi env e := by
  simp only [Ssc.notifyData, ssdMsg, msgBody_msgInfo_self, PiMacEntry.read_bytes_self]
  rfl

variable {net : Net} {e : PiMacEntry} {ms : List Ssc.SsInfo}

theorem netStep_macClbk {l2addr : Ssa.BcmL2Event}
    (hs : ¬ l2addr.flags &&& env.ssa.bcmL2Static ≠ 0) (insert : U32) :
    netStep env net (.macClbk l2addr insert true) = some { net with
      ssaToSsd := net.ssaToSsd ++ [ssaMsg env (Ssa.clbkEntry env.clbk l2addr insert)] } := by
  simp only [netStep, macClbk_news l2addr insert true, NetEvent.news, if_neg hs, List.map_cons,
    List.map_nil]

theorem netStep_ssdRecvSsa (hq : net.ssaToSsd = ssaMsg env e :: ms) :
    netStep env net (.ssdRecvSsa true)
      = some { net with ssaToSsd := ms, ssdToSsc := net.ssdToSsc ++ [ssdMsg env e] } := by
  simp only [netStep, hq, ssdMacRecvSsaMsg_ssaMsg]

theorem netStep_sscSend (hh : net.handling = none) (hq : net.ssdToSsc = ssdMsg env e :: ms) :
    netStep env net (.sscSend true) = some { net with
      ssdToSsc := ms
      sscToPi := net.sscToPi ++ [Pi.notifyMsg (atPi env e).bytes]
      handling := some (atPi env e) } := by
  simp only [netStep, hh, hq, notifyData_ssdMsg]
  rfl

theorem netStep_sscUpdate (hh : net.handling = some e) (hm : net.ssc.mutex = false) :
    netStep env net (.sscUpdate true) = some { net with
      ssc := { net.ssc with
        dynMacTblHead := Ssc.notifyDyn env.ssc.hash net.ssc.dynMacTblHead e }
      handling := none } := by
  simp only [netStep, hh, Ssc.sscNotifyUpdate_ok hm]

end Queues

/-! ## What does not touch the dynamic tables -/

section Aside

def ConfMsg.Clears : ConfMsg → Prop
  | .clearDynamic | .clearVlan _ | .clearInterface _ => True
  | _ => False

def NetEvent.Clears (env : NetEnv) (e : NetEvent) : Prop := ∃ cmd ∈ e.sent env, cmd.Clears

variable {env : NetEnv} {ssc ssc' : Ssc.MacOpraClass}

/-- A command that clears nothing leaves PI's dynamic table. -/
theorem exec_dyn (cmd : CliCmd) (db : Pi.PiDbMacInfo)
    (hc : ¬ (NetEvent.command cmd).Clears env) :
    (cmd.exec env.toDownEnv db).1.dynMacTblHead = db.dynMacTblHead := by
  rcases cmd with (tmp | - | vlanNum | numInter) | (arg | seconds)
  · rfl
  · exact absurd ⟨_, .head _, trivial⟩ hc
  · simp only [CliCmd.exec, MacCmd.exec, Pi.execClearRookieMacVlanNumCmd]
    split_ifs with hv
    · rfl
    · refine absurd ⟨.clearVlan vlanNum, ?_, trivial⟩ hc
      simp [NetEvent.sent, CliCmd.sent, hv]
  · exact absurd ⟨_, .head _, trivial⟩ hc
  · rfl
  · rfl

variable (env) in
/-- So does its message, at SSC. -/
theorem Ssc.recv_dyn (hr : Registered ssc) (hm : ssc.mutex = false) {cmd : ConfMsg}
    (hc : ¬ cmd.Clears) : ∃ ssc', Registered ssc' ∧ ssc'.mutex = false
      ∧ ssc'.dynMacTblHead = ssc.dynMacTblHead
      ∧ sscRecevieMsgPi env.ssc (fun _ => true) cmd.send ssc = .ok (ssc', [cmd.toSsd env]) := by
  suffices h : ∃ ssc' out, (sscHandler cmd.type).call env.ssc (fun _ => true) cmd.send ssc
      = .ok (ssc', out) ∧ ssc'.mutex = false ∧ ssc'.dynMacTblHead = ssc.dynMacTblHead by
    obtain ⟨ssc', out, hok, hm', hdyn⟩ := h
    rw [← recv_call hr] at hok
    obtain ⟨hreg, -, rfl⟩ := recv_command hr hok
    exact ⟨ssc', hreg, hm', hdyn, hok⟩
  cases cmd with
  | addStatic tmp =>
    have hok : ((sscHandler .macAddAddr).call env.ssc (fun _ => true)
        (ConfMsg.addStatic tmp).send ssc).map Prod.fst = _ := sscAddStaticFunc_ok hm tmp
    rcases hcall : (sscHandler .macAddAddr).call env.ssc (fun _ => true)
      (ConfMsg.addStatic tmp).send ssc with f | ⟨ssc', out⟩
    · rw [hcall] at hok
      cases hok
    · rw [hcall] at hok
      obtain rfl := Except.ok.inj hok
      exact ⟨_, out, hcall, hm, rfl⟩
  | learnStatus status =>
    simp only [ConfMsg.type, sscHandler, SscMacFunc.call, sscModifyInterLeanSta, lock_free hm]
    exact ⟨_, _, rfl, rfl, rfl⟩
  | ageTime seconds =>
    simp only [ConfMsg.type, sscHandler, SscMacFunc.call, sscModifyAgeTime, lock_free hm]
    exact ⟨_, _, rfl, rfl, rfl⟩
  | _ => exact absurd trivial hc

end Aside

/-! ## In every run -/

section Run

/-- Every allocation of the step succeeds. -/
def NetEvent.Allocated : NetEvent → Prop
  | .command _ | .ssaRecv => True
  | .sscRecv mem | .piRecv mem | .piDeal mem => ∀ i, mem i = true
  | .ssdRecvSsc mem | .macClbk _ _ mem | .ssdRecvSsa mem | .sscSend mem | .sscUpdate mem => mem = true

/-- A notification that comes to PI's queue can change places with those still in it. -/
def NetApart (env : NetEnv) (net : Net) : NetEvent → Prop
  | .piRecv _ => ∀ m ∈ net.sscToPi.head?, ∀ m' ∈ net.pi.msgHead,
      Pi.Commute env.ssc.hash (PiMacEntry.read (msgBody m')) (PiMacEntry.read (msgBody m))
  | _ => True

/-- The notifications in each queue and in the hands of SSC's handler, those SSC has applied, and
those PI has received. -/
structure Up (env : NetEnv) (all : List PiMacEntry) (net : Net)
    (p₀ p₁ held applied onWay got : List PiMacEntry) : Prop where
  fed : Fed true all [p₀, p₁, held, applied]
  ssaToSsd : net.ssaToSsd = p₀.map (ssaMsg env)
  ssdToSsc : net.ssdToSsc = p₁.map (ssdMsg env)
  handling : net.handling.toList = held.map (atPi env)
  registered : Ssc.Registered net.ssc
  mutex : net.ssc.mutex = false
  sscDyn : net.ssc.dynMacTblHead
    = (applied.map (atPi env)).foldl (Ssc.notifyDyn env.ssc.hash) empty
  sscToPi : net.sscToPi = onWay.map fun e => Pi.notifyMsg (atPi env e).bytes
  order : applied ++ held = got ++ onWay
  plain : ∃ cmds : List ConfMsg, net.piToSsc = cmds.map ConfMsg.send ∧ ∀ cmd ∈ cmds, ¬ cmd.Clears
  pi : ∃ q, Pi.Pending env.ssc.hash
    (Pi.notifyAll env.ssc.hash empty (got.map fun e => (atPi env e).bytes)) q net.pi

variable {env : NetEnv} {net net' : Net} {all p₀ p₁ held applied onWay got : List PiMacEntry}

theorem Pi.Pending.congr {hash : HashFn} {ref : HashTbl} {q : List (List U8)} {s : PiState}
    (h : Pending hash ref q s) {db : PiDbMacInfo} (hdyn : db.dynMacTblHead = s.db.dynMacTblHead) :
    Pending hash ref q { s with db := db } where
  msgHead := h.msgHead
  ready := h.ready
  wf := hdyn ▸ h.wf
  refWf := h.refWf
  pairwise := h.pairwise
  order := by
    have horder := h.order
    rw [← hdyn] at horder
    exact horder

theorem Up.command (h : Up env all net p₀ p₁ held applied onWay got) {cmd : CliCmd}
    (hc : ¬ (NetEvent.command cmd).Clears env) (hs : netStep env net (.command cmd) = some net') :
    Up env all net' p₀ p₁ held applied onWay got := by
  obtain rfl := Option.some.inj hs
  obtain ⟨cmds, hq, hplain⟩ := h.plain
  obtain ⟨q, hpi⟩ := h.pi
  refine ⟨h.fed, h.ssaToSsd, h.ssdToSsc, h.handling, h.registered, h.mutex, h.sscDyn, h.sscToPi,
    h.order, ⟨cmds ++ cmd.sent env.toDownEnv, ?_, fun c hmem => ?_⟩, q, hpi.congr (exec_dyn cmd _ hc)⟩
  · have hsent := cmd.exec_sent env.toDownEnv net.pi.db
    show net.piToSsc ++ (cmd.exec env.toDownEnv net.pi.db).2 = _
    rw [hsent, hq, List.map_append]
  · rcases List.mem_append.1 hmem with hmem | hmem
    · exact hplain c hmem
    · exact fun hclear => hc ⟨c, hmem, hclear⟩

theorem Up.sscRecv (h : Up env all net p₀ p₁ held applied onWay got)
    (hs : netStep env net (.sscRecv fun _ => true) = some net') :
    Up env all net' p₀ p₁ held applied onWay got := by
  obtain ⟨cmds, hq, hplain⟩ := h.plain
  rcases cmds with _ | ⟨cmd, cmds⟩
  · simp [netStep, hq] at hs
  obtain ⟨ssc, hreg, hm, hdyn, hok⟩ :=
    Ssc.recv_dyn env h.registered h.mutex (hplain cmd (.head _))
  simp only [netStep, hq, List.map_cons, hok, Option.some.injEq] at hs
  subst hs
  exact ⟨h.fed, h.ssaToSsd, h.ssdToSsc, h.handling, hreg, hm, hdyn.trans h.sscDyn, h.sscToPi,
    h.order, ⟨cmds, rfl, fun c hc => hplain c (.tail _ hc)⟩, h.pi⟩

theorem Up.macClbk (h : Up env all net p₀ p₁ held applied onWay got) (l2addr : Ssa.BcmL2Event)
    (insert : U32) (hs : netStep env net (.macClbk l2addr insert true) = some net') :
    Up env (all ++ (NetEvent.macClbk l2addr insert true).news env) net'
      (p₀ ++ (NetEvent.macClbk l2addr insert true).news env) p₁ held applied onWay got := by
  obtain rfl := Option.some.inj hs
  refine ⟨h.fed.feed_all _, ?_, h.ssdToSsc, h.handling, h.registered, h.mutex, h.sscDyn, h.sscToPi,
    h.order, h.plain, h.pi⟩
  simp only [h.ssaToSsd, macClbk_news l2addr insert true, List.map_append]

theorem Up.ssdRecvSsa (h : Up env all net p₀ p₁ held applied onWay got)
    (hs : netStep env net (.ssdRecvSsa true) = some net') :
    ∃ p₀' p₁', Up env all net' p₀' p₁' held applied onWay got := by
  rcases p₀ with _ | ⟨e, p₀⟩
  · simp [netStep, h.ssaToSsd] at hs
  rw [netStep_ssdRecvSsa h.ssaToSsd, Option.some.injEq] at hs
  subst hs
  refine ⟨p₀, p₁ ++ [e], h.fed.relay [] true, rfl, ?_, h.handling, h.registered, h.mutex, h.sscDyn,
    h.sscToPi, h.order, h.plain, h.pi⟩
  simp only [h.ssdToSsc, List.map_append, List.map_cons, List.map_nil]

theorem Up.sscSend (h : Up env all net p₀ p₁ held applied onWay got)
    (hs : netStep env net (.sscSend true) = some net') :
    ∃ p₁' held' onWay', Up env all net' p₀ p₁' held' applied onWay' got := by
  have hheld := h.handling
  rcases hh : net.handling with _ | data
  · obtain rfl : held = [] := by simpa [hh] using hheld.symm
    rcases p₁ with _ | ⟨e, p₁⟩
    · simp [netStep, hh, h.ssdToSsc] at hs
    rw [netStep_sscSend hh h.ssdToSsc, Option.some.injEq] at hs
    subst hs
    refine ⟨p₁, [e], onWay ++ [e], h.fed.relay [p₀] true, h.ssaToSsd, rfl, rfl, h.registered, h.mutex,
      h.sscDyn, ?_, ?_, h.plain, h.pi⟩
    · rw [h.sscToPi, List.map_append]
      rfl
    · have horder := h.order
      rw [List.append_nil] at horder
      rw [horder, List.append_assoc]
  · simp [netStep, hh] at hs

theorem Up.sscUpdate (h : Up env all net p₀ p₁ held applied onWay got)
    (hs : netStep env net (.sscUpdate true) = some net') :
    ∃ held' applied', Up env all net' p₀ p₁ held' applied' onWay got := by
  have hheld := h.handling
  rcases hh : net.handling with _ | data
  · simp [netStep, hh] at hs
  rw [hh, Option.toList_some] at hheld
  rcases held with _ | ⟨e, held⟩
  · simp at hheld
  obtain ⟨rfl, hnil⟩ := List.cons.inj (hheld.trans (List.map_cons ..))
  obtain rfl : held = [] := List.map_eq_nil_iff.1 hnil.symm
  rw [netStep_sscUpdate hh h.mutex, Option.some.injEq] at hs
  subst hs
  refine ⟨[], applied ++ [e], h.fed.relay [p₀, p₁] true, h.ssaToSsd, h.ssdToSsc, rfl, h.registered,
    h.mutex, ?_, h.sscToPi, ?_, h.plain, h.pi⟩
  · simp only [h.sscDyn, List.map_append, List.foldl_append, List.map_cons, List.map_nil,
      List.foldl_cons, List.foldl_nil]
  · rw [List.append_nil, h.order]

theorem Up.piRecv (h : Up env all net p₀ p₁ held applied onWay got)
    {mem : ℕ → Bool} (hmem : ∀ i, mem i = true) (hc : NetApart env net (.piRecv mem))
    (hs : netStep env net (.piRecv mem) = some net') :
    ∃ onWay' got', Up env all net' p₀ p₁ held applied onWay' got' := by
  obtain rfl : mem = fun _ => true := funext hmem
  rcases onWay with _ | ⟨e, onWay⟩
  · simp [netStep, h.sscToPi] at hs
  obtain ⟨q, hpi⟩ := h.pi
  have hapart : Pi.Apart env.ssc.hash net.pi (.recv (atPi env e).bytes) := by
    intro m hm
    have := hc (Pi.notifyMsg (atPi env e).bytes) (by rw [h.sscToPi]; rfl) m hm
    rwa [Pi.notifyMsg, msgBody_msgInfo_self] at this
  simp only [netStep, h.sscToPi, List.map_cons, Option.some.injEq] at hs
  subst hs
  refine ⟨onWay, got ++ [e], h.fed, h.ssaToSsd, h.ssdToSsc, h.handling, h.registered, h.mutex,
    h.sscDyn, rfl, ?_, h.plain, (atPi env e).bytes :: q, ?_⟩
  · rw [h.order, List.append_assoc]
    rfl
  · have hnext := hpi.recv hapart
    rw [List.map_append, Pi.notifyAll, List.foldl_append]
    exact hnext

theorem Up.piDeal (h : Up env all net p₀ p₁ held applied onWay got)
    {mem : ℕ → Bool} (hmem : ∀ i, mem i = true) (hs : netStep env net (.piDeal mem) = some net') :
    Up env all net' p₀ p₁ held applied onWay got := by
  obtain rfl : mem = fun _ => true := funext hmem
  simp only [netStep, Option.map_eq_some_iff] at hs
  obtain ⟨pi, hpass, rfl⟩ := hs
  obtain ⟨q, hpi⟩ := h.pi
  have hdrain := hpi.drain
  rw [Pi.queueStep, hpass, Option.getD_some] at hdrain
  exact ⟨h.fed, h.ssaToSsd, h.ssdToSsc, h.handling, h.registered, h.mutex, h.sscDyn, h.sscToPi,
    h.order, h.plain, [], hdrain⟩

theorem Up.step (h : Up env all net p₀ p₁ held applied onWay got) {e : NetEvent}
    (ha : e.Allocated) (hc : ¬ e.Clears env) (hap : NetApart env net e)
    (hs : netStep env net e = some net') :
    ∃ p₀ p₁ held applied onWay got,
      Up env (all ++ e.news env) net' p₀ p₁ held applied onWay got := by
  cases e with
  | macClbk l2addr insert mem =>
    obtain rfl : mem = true := ha
    exact ⟨_, _, _, _, _, _, h.macClbk l2addr insert hs⟩
  | command cmd =>
    rw [show (NetEvent.command cmd).news env = [] from rfl, List.append_nil]
    exact ⟨_, _, _, _, _, _, h.command hc hs⟩
  | sscRecv mem =>
    obtain rfl : mem = fun _ => true := funext ha
    rw [show (NetEvent.sscRecv fun _ => true).news env = [] from rfl, List.append_nil]
    exact ⟨_, _, _, _, _, _, h.sscRecv hs⟩
  | ssdRecvSsc mem =>
    rw [show (NetEvent.ssdRecvSsc mem).news env = [] from rfl, List.append_nil]
    rcases hq : net.sscToSsd with _ | ⟨m, ms⟩ <;> simp only [netStep, hq, reduceCtorEq] at hs
    split at hs <;> cases hs
    exact ⟨_, _, _, _, _, _, h.fed, h.ssaToSsd, h.ssdToSsc, h.handling, h.registered, h.mutex,
      h.sscDyn, h.sscToPi, h.order, h.plain, h.pi⟩
  | ssaRecv =>
    rw [show NetEvent.ssaRecv.news env = [] from rfl, List.append_nil]
    rcases hq : net.ssdToSsa with _ | ⟨m, ms⟩ <;> simp only [netStep, hq, reduceCtorEq] at hs
    split at hs <;> cases hs
    exact ⟨_, _, _, _, _, _, h.fed, h.ssaToSsd, h.ssdToSsc, h.handling, h.registered, h.mutex,
      h.sscDyn, h.sscToPi, h.order, h.plain, h.pi⟩
  | ssdRecvSsa mem =>
    obtain rfl : mem = true := ha
    rw [show (NetEvent.ssdRecvSsa true).news env = [] from rfl, List.append_nil]
    obtain ⟨_, _, h'⟩ := h.ssdRecvSsa hs
    exact ⟨_, _, _, _, _, _, h'⟩
  | sscSend mem =>
    obtain rfl : mem = true := ha
    rw [show (NetEvent.sscSend true).news env = [] from rfl, List.append_nil]
    obtain ⟨_, _, _, h'⟩ := h.sscSend hs
    exact ⟨_, _, _, _, _, _, h'⟩
  | sscUpdate mem =>
    obtain rfl : mem = true := ha
    rw [show (NetEvent.sscUpdate true).news env = [] from rfl, List.append_nil]
    obtain ⟨_, _, h'⟩ := h.sscUpdate hs
    exact ⟨_, _, _, _, _, _, h'⟩
  | piRecv mem =>
    rw [show (NetEvent.piRecv mem).news env = [] from rfl, List.append_nil]
    obtain ⟨_, _, h'⟩ := h.piRecv ha hap hs
    exact ⟨_, _, _, _, _, _, h'⟩
  | piDeal mem =>
    rw [show (NetEvent.piDeal mem).news env = [] from rfl, List.append_nil]
    exact ⟨_, _, _, _, _, _, h.piDeal ha hs⟩

theorem up_start (pi₀ : Pi.PiDbMacInfo) (ssc₀ : Ssc.MacOpraClass) :
    Up env [] (.start pi₀ ssc₀) [] [] [] [] [] [] where
  fed := .start 4
  ssaToSsd := rfl
  ssdToSsc := rfl
  handling := rfl
  registered := rfl
  mutex := rfl
  sscDyn := rfl
  sscToPi := rfl
  order := rfl
  plain := ⟨[], rfl, fun _ hc => nomatch hc⟩
  pi := ⟨[], rfl, fun hq => absurd rfl hq, WF.empty, WF.empty, .nil, rfl⟩

theorem up_run {es : List NetEvent} (hp : Runs.Path (netStep env) net es net') :
    ∀ {all p₀ p₁ held applied onWay got : List PiMacEntry},
      Up env all net p₀ p₁ held applied onWay got → (∀ e ∈ es, e.Allocated) →
      (∀ e ∈ es, ¬ e.Clears env) → Runs.EachStep (netStep env) (NetApart env) net es →
      ∃ p₀ p₁ held applied onWay got,
        Up env (all ++ es.flatMap (NetEvent.news env)) net' p₀ p₁ held applied onWay got := by
  induction hp with
  | nil net =>
    intro all p₀ p₁ held applied onWay got h _ _ _
    rw [List.flatMap_nil, List.append_nil]
    exact ⟨_, _, _, _, _, _, h⟩
  | @cons net net₁ net' e es hs _ ih =>
    intro all p₀ p₁ held applied onWay got h ha hc hap
    obtain ⟨_, _, _, _, _, _, h₁⟩ := h.step (ha e (.head _)) (hc e (.head _)) hap.1 hs
    obtain ⟨_, _, _, _, _, _, h'⟩ := ih h₁ (fun e he => ha e (.tail _ he))
      (fun e he => hc e (.tail _ he)) (hap.2 _ hs)
    rw [List.flatMap_cons, ← List.append_assoc]
    exact ⟨_, _, _, _, _, _, h'⟩

/-! The tables of a faithful list of notifications. -/

theorem MacMap.FaithfulRun.take {hash : HashFn} : ∀ (n : ℕ) {es : List PiMacEntry} {m : MacMap},
    MacMap.FaithfulRun hash m es → MacMap.FaithfulRun hash m (es.take n)
  | 0, _, _, _ => trivial
  | _ + 1, [], _, _ => trivial
  | n + 1, _ :: _, _, h => ⟨h.1, MacMap.FaithfulRun.take n h.2⟩

/-- The first of two addresses that are not alike is forgotten after both have been learnt. -/
theorem MacMap.FaithfulRun.forget {hash : HashFn} {a b c : PiMacEntry} (hkey : c.key = a.key)
    (hport : c.portId = a.portId) (hapart : ¬ Alike hash a.key b.key) :
    MacMap.FaithfulRun hash (fun _ => none) [a, b, c] := by
  have hbound : ∀ {k p}, MacMap.notify (fun _ => none) a k = some p →
      k = a.key ∧ p = a.portId := by
    intro k p hk
    rw [MacMap.notify, Function.update_apply] at hk
    split_ifs at hk with hka hf
    exact ⟨hka, (Option.some.inj hk).symm⟩
  refine ⟨fun k p hk _ => ?_, fun k p hk hb => ?_, fun k p hk hc => ?_, trivial⟩
  · cases hk
  · exact absurd ((hbound hk).1 ▸ hb) hapart
  · rw [hkey] at hc
    rw [hkey, hport]
    rw [MacMap.notify, Function.update_apply] at hk
    split_ifs at hk with hkb hf
    · exact absurd (hkb ▸ hc).symm hapart
    · obtain ⟨rfl, rfl⟩ := hbound hk
      split_ifs
      · rfl
      · exact iff_of_true rfl rfl

/-- Notifications applied to a table do to its map what they mean. -/
theorem toMap_foldl {hash : HashFn} {f : HashTbl → PiMacEntry → HashTbl}
    (hf : ∀ (t : HashTbl) (e : PiMacEntry), WF (layout hash) t →
      WF (layout hash) (f t e) ∧ (MacMap.Faithful hash (toMap (layout hash) t) e →
        toMap (layout hash) (f t e) = MacMap.notify (toMap (layout hash) t) e)) :
    ∀ (es : List PiMacEntry) {t : HashTbl}, WF (layout hash) t →
      MacMap.FaithfulRun hash (toMap (layout hash) t) es →
      toMap (layout hash) (es.foldl f t) = es.foldl MacMap.notify (toMap (layout hash) t)
  | [], _, _, _ => rfl
  | e :: es, t, hwf, hrun => by
    obtain ⟨hwf', hmap⟩ := hf t e hwf
    have hmap' := hmap hrun.1
    rw [List.foldl_cons, List.foldl_cons, ← hmap']
    refine toMap_foldl hf es hwf' ?_
    rw [hmap']
    exact hrun.2

/-- In every run in which no command clears, no allocation fails, the chip says 0 or 1, the
notifications are faithful and those that come to PI's queue can change places with those still in
it: SSC's dynamic table is the map of the first `n` notifications of the chip and PI's, whenever its
queue is empty, that of the first `m`, where all but `n` are on their way to SSC and all but `m` on
their way to PI; and the map of all of them is the chip's table with the user's port ids. -/
theorem dynamic_tables_mirror_chip (env : NetEnv) (pi₀ : Pi.PiDbMacInfo) (ssc₀ : Ssc.MacOpraClass)
    {es : List NetEvent} {net : Net} (hp : Runs.Path (netStep env) (.start pi₀ ssc₀) es net)
    (htells : ∀ e ∈ es, e.Says) (halloc : ∀ e ∈ es, e.Allocated)
    (hclear : ∀ e ∈ es, ¬ e.Clears env)
    (hfaith : MacMap.FaithfulRun env.ssc.hash (fun _ => none)
      ((es.flatMap (NetEvent.news env)).map (atPi env)))
    (hapart : Runs.EachStep (netStep env) (NetApart env) (.start pi₀ ssc₀) es) :
    let news := es.flatMap (NetEvent.news env)
    let after := fun n => ((news.take n).map (atPi env)).foldl MacMap.notify fun _ => none
    after news.length = mirror env (es.foldl (chipStep env) fun _ => none)
      ∧ ∃ n m, n + net.handling.toList.length + net.ssdToSsc.length + net.ssaToSsd.length
            = news.length
          ∧ m + net.sscToPi.length = n + net.handling.toList.length
          ∧ toMap (layout env.ssc.hash) net.ssc.dynMacTblHead = after n
          ∧ (net.pi.msgHead = [] →
            toMap (layout env.ssc.hash) net.pi.db.dynMacTblHead = after m) := by
  intro news after
  obtain ⟨p₀, p₁, held, applied, onWay, got, h⟩ :=
    up_run hp (up_start pi₀ ssc₀) halloc hclear hapart
  rw [List.nil_append] at h
  have hall : applied ++ held ++ p₁ ++ p₀ = news := by simpa using h.fed.content_eq rfl
  have hheld := congrArg List.length h.handling
  rw [List.length_map] at hheld
  have hlen := congrArg List.length hall
  have hord := congrArg List.length h.order
  simp only [List.length_append] at hlen hord
  have happlied : news.take applied.length = applied := by
    rw [← hall, List.append_assoc, List.append_assoc, List.take_left]
  have hgot : news.take got.length = got := by
    rw [← hall, h.order, List.append_assoc, List.append_assoc, List.take_left]
  have hempty : toMap (layout env.ssc.hash) empty = fun _ => none := toMap_empty
  have hrun : ∀ n, MacMap.FaithfulRun env.ssc.hash (toMap (layout env.ssc.hash) empty)
      ((news.take n).map (atPi env)) := by
    intro n
    rw [hempty, List.map_take]
    exact hfaith.take n
  refine ⟨?_, applied.length, got.length, ?_, ?_, ?_, fun hq => ?_⟩
  · rw [mirror_foldl es _ htells, mirror_empty]
    simp only [after, List.take_length, news]
  · rw [h.ssdToSsc, h.ssaToSsd, List.length_map, List.length_map]
    omega
  · rw [h.sscToPi, List.length_map]
    omega
  · have hmap := toMap_foldl
      (fun t e hwf => ⟨Ssc.notifyDyn_wf hwf, Ssc.toMap_notifyDyn hwf⟩) _ WF.empty
      (hrun applied.length)
    rw [happlied, ← h.sscDyn, hempty] at hmap
    rw [hmap]
    simp only [after, happlied]
  · obtain ⟨q, hpi⟩ := h.pi
    obtain rfl : q = [] := List.map_eq_nil_iff.1 (hpi.msgHead.symm.trans hq)
    have hview := Pi.toMap_eq_of_view_eq hpi.wf hpi.refWf hpi.order
    have hbodies : Pi.notifyAll env.ssc.hash empty (got.map fun e => (atPi env e).bytes)
        = (got.map (atPi env)).foldl (Pi.notifyDyn env.ssc.hash) empty := by
      simp only [Pi.notifyAll, List.foldl_map, PiMacEntry.read_bytes_self]
    have hmap := toMap_foldl
      (fun t e hwf => ⟨Pi.notifyDyn_wf hwf, Pi.toMap_notifyDyn hwf⟩) _ WF.empty (hrun got.length)
    rw [hgot, ← hbodies, ← hview, hempty] at hmap
    rw [hmap]
    simp only [after, hgot]

/-- The chip learns two addresses and forgets the first. SSC has not heard of the last, and PI not of
the last two. -/
theorem dynamic_tables_mirror_chip_behind :
    let x : Ssa.BcmL2Event := ⟨0, #v[2, 0x11, 0x22, 0x33, 0x44, 0x55], 10, 0, 3⟩
    let y : Ssa.BcmL2Event := ⟨0, #v[2, 0x11, 0x22, 0x33, 0x44, 0x66], 10, 0, 4⟩
    let es : List NetEvent := [.macClbk x 1 true, .ssdRecvSsa true, .macClbk y 1 true, .sscSend true,
      .ssdRecvSsa true, .sscUpdate true, .piRecv fun _ => true, .piDeal fun _ => true, .sscSend true,
      .sscUpdate true, .macClbk x 0 true]
    let chip := mirror plainNet (es.foldl (chipStep plainNet) fun _ => none)
    ∃ net, Runs.Path (netStep plainNet) (.start .blank .blank) es net
      ∧ chip (x.mac, 10) = none ∧ chip (y.mac, 10) = some 4
      ∧ toMap (layout plainNet.ssc.hash) net.ssc.dynMacTblHead (x.mac, 10) = some 3
      ∧ toMap (layout plainNet.ssc.hash) net.ssc.dynMacTblHead (y.mac, 10) = some 4
      ∧ toMap (layout plainNet.ssc.hash) net.pi.db.dynMacTblHead (x.mac, 10) = some 3
      ∧ toMap (layout plainNet.ssc.hash) net.pi.db.dynMacTblHead (y.mac, 10) = none := by
  intro x y es chip
  set a := Ssa.clbkEntry plainNet.clbk x 1
  set b := Ssa.clbkEntry plainNet.clbk y 1
  set c := Ssa.clbkEntry plainNet.clbk x 0
  let s₀ : Net := .start .blank .blank
  let s₁ : Net := { s₀ with ssaToSsd := [ssaMsg plainNet a] }
  let s₂ : Net := { s₁ with ssaToSsd := [], ssdToSsc := [ssdMsg plainNet a] }
  let s₃ : Net := { s₂ with ssaToSsd := [ssaMsg plainNet b] }
  let s₄ : Net := { s₃ with
    ssdToSsc := []
    sscToPi := [Pi.notifyMsg (atPi plainNet a).bytes]
    handling := some (atPi plainNet a) }
  let s₅ : Net := { s₄ with ssaToSsd := [], ssdToSsc := [ssdMsg plainNet b] }
  let s₆ : Net := { s₅ with
    ssc := { s₅.ssc with
      dynMacTblHead := Ssc.notifyDyn littleEnv.hash s₅.ssc.dynMacTblHead (atPi plainNet a) }
    handling := none }
  let s₇ : Net := { s₆ with
    pi := { s₆.pi with msgHead := [Pi.notifyMsg (atPi plainNet a).bytes], gData := 1 }
    sscToPi := [] }
  let s₈ : Net := { s₇ with
    pi := { Pi.dealInfoLoop plainNet.ssc.hash (fun _ => true) s₇.pi with gData := 0 } }
  let s₉ : Net := { s₈ with
    ssdToSsc := []
    sscToPi := [Pi.notifyMsg (atPi plainNet b).bytes]
    handling := some (atPi plainNet b) }
  let s₁₀ : Net := { s₉ with
    ssc := { s₉.ssc with
      dynMacTblHead := Ssc.notifyDyn littleEnv.hash s₉.ssc.dynMacTblHead (atPi plainNet b) }
    handling := none }
  let s₁₁ : Net := { s₁₀ with ssaToSsd := [ssaMsg plainNet c] }
  have hx : ¬ x.flags &&& plainNet.ssa.bcmL2Static ≠ 0 := by decide
  have hy : ¬ y.flags &&& plainNet.ssa.bcmL2Static ≠ 0 := by decide
  have h₁ : netStep plainNet s₀ (.macClbk x 1 true) = some s₁ := netStep_macClbk hx 1
  have h₂ : netStep plainNet s₁ (.ssdRecvSsa true) = some s₂ := netStep_ssdRecvSsa rfl
  have h₃ : netStep plainNet s₂ (.macClbk y 1 true) = some s₃ := netStep_macClbk hy 1
  have h₄ : netStep plainNet s₃ (.sscSend true) = some s₄ := netStep_sscSend rfl rfl
  have h₅ : netStep plainNet s₄ (.ssdRecvSsa true) = some s₅ := netStep_ssdRecvSsa rfl
  have h₆ : netStep plainNet s₅ (.sscUpdate true) = some s₆ := netStep_sscUpdate rfl rfl
  have h₇ : netStep plainNet s₆ (.piRecv fun _ => true) = some s₇ := rfl
  have h₈ : netStep plainNet s₇ (.piDeal fun _ => true) = some s₈ := by
    rw [netStep, Pi.dealInfoPass, if_neg (by decide)]
    rfl
  have h₉ : netStep plainNet s₈ (.sscSend true) = some s₉ := netStep_sscSend rfl rfl
  have h₁₀ : netStep plainNet s₉ (.sscUpdate true) = some s₁₀ := netStep_sscUpdate rfl rfl
  have h₁₁ : netStep plainNet s₁₀ (.macClbk x 0 true) = some s₁₁ := netStep_macClbk hx 0
  have hpath : Runs.Path (netStep plainNet) s₀ es s₁₁ :=
    .cons h₁ (.cons h₂ (.cons h₃ (.cons h₄ (.cons h₅ (.cons h₆ (.cons h₇ (.cons h₈ (.cons h₉
      (.cons h₁₀ (.single h₁₁))))))))))
  have hapart : Runs.EachStep (netStep plainNet) (NetApart plainNet) s₀ es :=
    .cons h₁ trivial (.cons h₂ trivial (.cons h₃ trivial (.cons h₄ trivial (.cons h₅ trivial
      (.cons h₆ trivial (.cons h₇ (fun _ _ _ hm => absurd hm List.not_mem_nil) (.cons h₈ trivial
        (.cons h₉ trivial (.cons h₁₀ trivial (.cons h₁₁ trivial trivial))))))))))
  have hclear : ∀ e ∈ es, ¬ e.Clears plainNet := by
    simp [es, NetEvent.Clears, NetEvent.sent]
  have hnews : es.flatMap (NetEvent.news plainNet) = [a, b, c] := by
    have ha : (NetEvent.macClbk x 1 true).news plainNet = [a] := if_neg hx
    have hb : (NetEvent.macClbk y 1 true).news plainNet = [b] := if_neg hy
    have hc : (NetEvent.macClbk x 0 true).news plainNet = [c] := if_neg hx
    simp only [es, List.flatMap_cons, ha, hb, hc]
    rfl
  have hfaith : MacMap.FaithfulRun plainNet.ssc.hash (fun _ => none)
      ((es.flatMap (NetEvent.news plainNet)).map (atPi plainNet)) := by
    rw [hnews]
    exact .forget rfl rfl fun h => absurd h.2.1 (by decide)
  obtain ⟨hchip, n, m, hn, hm, hssc, hpi⟩ := dynamic_tables_mirror_chip plainNet .blank .blank hpath
    (by simp [es, NetEvent.Says]) (by simp [es, NetEvent.Allocated]) hclear hfaith hapart
  rw [hnews] at hchip hn hssc hpi
  obtain rfl : n = 2 := by
    have hn' : n + 1 = 3 := hn
    omega
  obtain rfl : m = 1 := by
    have hm' : m + 1 = 2 := hm
    omega
  have hmsg : s₇.pi.msgHead = [(atPi plainNet a).bytes].map Pi.notifyMsg := rfl
  have hq : s₁₁.pi.msgHead = [] := (Pi.dealInfoLoop_spec _ _ hmsg).1
  refine ⟨s₁₁, hpath, by decide, by decide, ?_, ?_, ?_, ?_⟩
  · rw [hssc]
    decide
  · rw [hssc]
    decide
  · rw [hpi hq]
    decide
  · rw [hpi hq]
    decide

end Run

end RookieMac
