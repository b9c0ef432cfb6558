import RookieMac.Proofs.Handshake

/-!
# The handshake and agreement

Neither transfer waits for the other, and neither side's configuration takes precedence. Where the
two cross, each reading a setting before it stores the other's, the programs swap their values.
-/

namespace RookieMac

open CMem Runs Exchange

/-- The event in which SSC stores PI's configuration. -/
def SscStores : ShakeEvent → Prop
  | .sscRecv .dsIng _ => True
  | _ => False

/-- Each side reads the setting for its transfer before it stores the other's. -/
def Crossed (f : Setting) (es : List ShakeEvent) : Prop :=
  Before (· = .piRead f) (· = .piStore f) es ∧ Before (· = .sscRead) SscStores es

section Run

variable {env : Ssc.SscEnv} {f : Setting} {es : List ShakeEvent} {s s' : Shake} {t : Pair U32}

theorem ShakeInv.next (h : ShakeInv f es s t) (hf : f.Shared) {e : ShakeEvent}
    (hs : shakeStep env s e = some s') : ∃ t', Moves f e t t' ∧ ShakeInv f (es ++ [e]) s' t' := by
  cases e with
  | sscFetch mem => exact ⟨t, rfl, h.sscFetch hs⟩
  | sscSync mem => exact ⟨t, rfl, h.sscSync hs⟩
  | sscRead => exact h.sscRead hf hs
  | sscRecv type mem => exact h.sscRecv hf hs
  | piRecv mem => exact ⟨t, rfl, h.piRecv hs⟩
  | piWake => exact ⟨t, rfl, h.piWake hs⟩
  | piDeal mem => exact ⟨t, rfl, h.piDeal hf hs⟩
  | piStore g => exact h.piStore hs
  | piSleep => exact ⟨t, rfl, h.piSleep hs⟩
  | piRead g => exact h.piRead hs
  | piSend => exact ⟨t, rfl, h.piSend hs⟩

theorem Moves.path {v₀ : Bool → U32} {e : ShakeEvent} {t' : Pair U32} (hm : Moves f e t t')
    (hp : Path step (start v₀) (es.filterMap (moveOf f)) t) :
    Path step (start v₀) ((es ++ [e]).filterMap (moveOf f)) t' := by
  rw [List.filterMap_append]
  rw [Moves] at hm
  rcases he : moveOf f e with _ | m
  · rw [he] at hm
    rw [hm, List.filterMap_cons_none he, List.filterMap_nil, List.append_nil]
    exact hp
  · rw [he] at hm
    rw [List.filterMap_cons_some he]
    exact hp.append (.single hm)

/-- The values of a setting in PI (`true`) and in SSC. -/
def settingOf (f : Setting) (pi : Pi.PiDbMacInfo) (ssc : Ssc.MacOpraClass) : Bool → U32
  | true => f.ofPi pi
  | false => f.ofSsc ssc

theorem shakeInv_connected (f : Setting) (pi : Pi.PiDbMacInfo) (ssc : Ssc.MacOpraClass) :
    ShakeInv f [] (.connected pi ssc) (start (settingOf f pi ssc)) := by
  refine ⟨rfl, fun m hm => absurd hm List.not_mem_nil, rfl, ?_, ⟨⟨rfl, rfl⟩, rfl⟩,
    ⟨⟨rfl, rfl⟩, rfl⟩, fun hsync => absurd rfl hsync⟩
  cases f <;> rfl

/-- A run of the handshake is one of the exchange of each setting. -/
theorem shake_run (hf : f.Shared) {pi₀ : Pi.PiDbMacInfo} {ssc₀ : Ssc.MacOpraClass}
    (hp : Path (shakeStep env) (.connected pi₀ ssc₀) es s) :
    ∃ t, Path step (start (settingOf f pi₀ ssc₀)) (es.filterMap (moveOf f)) t
      ∧ ShakeInv f es s t := by
  refine hp.history (I := fun es s => ∃ t,
    Path step (start (settingOf f pi₀ ssc₀)) (es.filterMap (moveOf f)) t ∧ ShakeInv f es s t)
    ?_ [] ⟨_, .nil _, shakeInv_connected f pi₀ ssc₀⟩
  rintro pre s e s' ⟨t, hpath, hinv⟩ hs
  obtain ⟨t', hm, hinv'⟩ := hinv.next hf hs
  exact ⟨t', hm.path hpath, hinv'⟩

end Run

section Order

variable {f : Setting} {e : ShakeEvent} {es : List ShakeEvent}

theorem moveOf_read_true : moveOf f e = some (.read true) ↔ e = .piRead f := by
  cases e with
  | piRead g => simp [moveOf]
  | piStore g => by_cases h : g = f <;> simp [moveOf, h]
  | sscRecv type mem => cases type <;> simp [moveOf]
  | _ => simp [moveOf]

theorem moveOf_store_true : moveOf f e = some (.store true) ↔ e = .piStore f := by
  cases e with
  | piRead g => by_cases h : g = f <;> simp [moveOf, h]
  | piStore g => simp [moveOf]
  | sscRecv type mem => cases type <;> simp [moveOf]
  | _ => simp [moveOf]

theorem moveOf_read_false : moveOf f e = some (.read false) ↔ e = .sscRead := by
  cases e with
  | piRead g => by_cases h : g = f <;> simp [moveOf, h]
  | piStore g => by_cases h : g = f <;> simp [moveOf, h]
  | sscRecv type mem => cases type <;> simp [moveOf]
  | _ => simp [moveOf]

theorem moveOf_store_false : moveOf f e = some (.store false) ↔ SscStores e := by
  cases e with
  | piRead g => by_cases h : g = f <;> simp [moveOf, SscStores, h]
  | piStore g => by_cases h : g = f <;> simp [moveOf, SscStores, h]
  | sscRecv type mem => cases type <;> simp [moveOf, SscStores]
  | _ => simp [moveOf, SscStores]

theorem readFirst_true : ReadFirst true (es.filterMap (moveOf f))
    ↔ Before (· = .piRead f) (· = .piStore f) es := by
  rw [ReadFirst, before_filterMap]
  simp only [exists_eq_right, moveOf_read_true, moveOf_store_true]

theorem readFirst_false : ReadFirst false (es.filterMap (moveOf f))
    ↔ Before (· = .sscRead) SscStores es := by
  rw [ReadFirst, before_filterMap]
  simp only [exists_eq_right, moveOf_read_false, moveOf_store_false]

theorem crossed_iff : Crossed f es ↔ ∀ p, ReadFirst p (es.filterMap (moveOf f)) := by
  rw [Bool.forall_bool, readFirst_true, readFirst_false, Crossed, and_comm]

theorem stored_true_iff : .store true ∈ es.filterMap (moveOf f) ↔ .piStore f ∈ es := by
  simp only [List.mem_filterMap, moveOf_store_true, exists_eq_right]

theorem stored_false_iff : .store false ∈ es.filterMap (moveOf f) ↔ ∃ e ∈ es, SscStores e := by
  simp only [List.mem_filterMap, moveOf_store_false]

end Order

section Agreement

variable {env : Ssc.SscEnv} {f : Setting} {es : List ShakeEvent} {s : Shake} {t : Pair U32}

/-- When all is processed and nothing was lost, each side has stored the other's setting. -/
theorem ShakeInv.stored_of_quiet (h : ShakeInv f es s t) (hq : s.Quiet) (hm : ¬ Failed es) :
    ∀ p, t.stored p = true := by
  have hds : s.ds = some .finished := by
    rcases hs : s.ds with _ | thread
    · rcases h.fetch (by simp [hq.sync]) hs with ⟨m, hm', -⟩ | hf
      · simp [hq.up, hq.msgHead] at hm'
      · exact absurd hf hm
    · rw [hq.ds thread hs]
  have hdown := h.down
  have hup := h.up
  rw [hds] at hdown
  rw [hq.sync] at hup
  rintro (_ | _)
  · rcases hdown with ⟨v, hv, -⟩ | ⟨-, hst | hf⟩
    · simp [downVals, hq.down] at hv
    · exact hst
    · exact hf.elim
  · rcases hup with ⟨v, hv, -⟩ | ⟨-, hst | hf⟩
    · simp [upVals, storingVals, hq.up, hq.msgHead, hq.storing] at hv
    · exact hst
    · exact absurd hf hm

/-- Each side has stored: either one value is left, or each has the other's. -/
theorem swapped_of_crossed {v₀ : Bool → U32} {ms : List Move} (hp : Path step (start v₀) ms t)
    (hr : ∀ p, ReadFirst p ms) : ∀ p, t.val p = v₀ (!p) := by
  intro p
  obtain ⟨hh, hs | ⟨v, hs⟩⟩ := run_cases hp
  · obtain ⟨e, he, rfl⟩ := (hr p).exists_right
    rw [hs.val_eq, if_pos ((hh.stored_iff p).2 he)]
  · obtain ⟨q, -, hq⟩ := hs.early
    exact absurd (hr q) hq

/-- What the handshake does to a setting, in any order of its steps: where the transfers cross the
programs swap their values; otherwise they agree as soon as one has stored the other's. -/
theorem handshake_agree_iff (env : Ssc.SscEnv) (pi₀ : Pi.PiDbMacInfo) (ssc₀ : Ssc.MacOpraClass)
    {es : List ShakeEvent} {s : Shake} (hp : Path (shakeStep env) (.connected pi₀ ssc₀) es s)
    {f : Setting} (hf : f.Shared) :
    (f.ofPi s.pi = f.ofSsc s.ssc ↔ f.ofPi pi₀ = f.ofSsc ssc₀
        ∨ (.piStore f ∈ es ∨ ∃ e ∈ es, SscStores e) ∧ ¬ Crossed f es)
      ∧ (Crossed f es → f.ofPi s.pi = f.ofSsc ssc₀ ∧ f.ofSsc s.ssc = f.ofPi pi₀)
      ∧ (s.Quiet → (∀ e ∈ es, ¬ e.Fails) → .piStore f ∈ es ∧ ∃ e ∈ es, SscStores e) := by
  obtain ⟨t, hpath, hinv⟩ := shake_run hf hp
  have hstored : ∀ p, t.stored p = true ↔ .store p ∈ es.filterMap (moveOf f) :=
    (run_cases hpath).1.stored_iff
  refine ⟨?_, fun hc => ?_, fun hq hm => ?_⟩
  · have hagree := agree_iff hpath
    rw [hinv.valPi, hinv.valSsc, Bool.exists_bool, stored_true_iff, stored_false_iff,
      ← not_forall, ← crossed_iff, or_comm (a := ∃ e ∈ es, SscStores e)] at hagree
    exact hagree
  · have hswap := swapped_of_crossed hpath (crossed_iff.1 hc)
    exact ⟨hinv.valPi.symm.trans (hswap true), hinv.valSsc.symm.trans (hswap false)⟩
  · have hall := hinv.stored_of_quiet hq fun ⟨e, he, hfail⟩ => hm e he hfail
    exact ⟨stored_true_iff.1 ((hstored true).1 (hall true)),
      stored_false_iff.1 ((hstored false).1 (hall false))⟩

end Agreement

/-! ## A handshake whose transfers cross -/

section Crossing

variable {env : Ssc.SscEnv}

/-- PI takes a message that has arrived while it is idle. -/
def deliver (m : List U8) : List ShakeEvent :=
  .piRecv (fun _ => true) :: .piWake
    :: (.piDeal true :: if isConf m then confStores.map .piStore else []) ++ [.piSleep]

theorem deliver_path {s : Shake} {m : List U8} {up : List (List U8)} (hd : s.draining = false)
    (hst : s.storing = []) (hq : s.msgHead = []) (hup : s.up = m :: up)
    (hf : msgType m ≠ SscMacMsgid.macFetch.val) : Path (shakeStep env) s (deliver m)
      { s with up := up, pi := Pi.dealReceMsg env.hash true m s.pi, gData := 0 } := by
  obtain ⟨pi, ssc, down, up', msgHead, gData, draining, storing, ds, sync⟩ := s
  obtain rfl : draining = false := hd
  obtain rfl : storing = [] := hst
  obtain rfl : msgHead = [] := hq
  obtain rfl : up' = m :: up := hup
  have hrecv : shakeStep env ⟨pi, ssc, down, m :: up, [], gData, false, [], ds, sync⟩
      (.piRecv fun _ => true) = some ⟨pi, ssc, down, up, [m], 1, false, [], ds, sync⟩ := rfl
  have hwake : shakeStep env ⟨pi, ssc, down, up, [m], 1, false, [], ds, sync⟩ .piWake
      = some ⟨pi, ssc, down, up, [m], 1, true, [], ds, sync⟩ := rfl
  have hsleep : ∀ pi', shakeStep env ⟨pi', ssc, down, up, [], 1, true, [], ds, sync⟩ .piSleep
      = some ⟨pi', ssc, down, up, [], 0, false, [], ds, sync⟩ := fun _ => rfl
  refine .cons hrecv (.cons hwake (Path.append ?_ (.single (hsleep _))))
  by_cases hc : isConf m
  · have hdeal : Pi.dealReceMsg env.hash true m pi = Pi.piDealDsIng env.hash true m pi := by
      have hs : msgType m ≠ SscMacMsgid.macUpStart.val := fun h =>
        absurd (h.symm.trans hc.1) (by decide)
      simp only [Pi.dealReceMsg, if_neg hf, if_neg hs, if_pos hc.1]
    rw [if_pos hc, hdeal]
    exact conf_path rfl rfl rfl hc true
  · rw [if_neg hc]
    refine .single ?_
    simp only [shakeStep, Pi.getMsgData, List.head?_cons, piDealStep, if_neg hf, if_neg hc]
    rfl

/-- It takes them one by one as they come. -/
theorem deliver_all : ∀ (ms : List (List U8)) (s : Shake), s.draining = false → s.storing = [] →
    s.msgHead = [] → s.gData = 0 → s.up = ms →
    (∀ m ∈ ms, msgType m ≠ SscMacMsgid.macFetch.val) →
    Path (shakeStep env) s (ms.flatMap deliver)
      { s with up := [], pi := ms.foldl (fun db m => Pi.dealReceMsg env.hash true m db) s.pi }
  | [], ⟨pi, ssc, down, up, msgHead, gData, draining, storing, ds, sync⟩, _, _, _, _, hup, _ => by
    obtain rfl : up = [] := hup
    exact .nil _
  | m :: ms, s, hd, hst, hq, hg, hup, hf => by
    rw [List.flatMap_cons, List.foldl_cons]
    refine (deliver_path hd hst hq hup (hf m (.head _))).append ?_
    have := deliver_all ms { s with
        up := ms, pi := Pi.dealReceMsg env.hash true m s.pi, gData := 0 }
      hd hst hq rfl rfl fun m' hm' => hf m' (.tail _ hm')
    rwa [← hg] at this ⊢

/-- SSC's configuration as its thread reads it. -/
def sscConfOf (env : Ssc.SscEnv) (ssc : Ssc.MacOpraClass) : ConfInfo :=
  ⟨ssc.ageTime, fun i => if 1 ≤ i.val then ssc.portStatus i else env.stack⟩

/-- What SSC's thread sends where both tables are empty. -/
def sscSends (env : Ssc.SscEnv) (ssc : Ssc.MacOpraClass) : List (List U8) :=
  [msgInfo SscMacMsgid.macUpStart.val [],
    msgInfo SscMacMsgid.macUpIng.val (Ssc.dsInfo sscConf (sscConfOf env ssc).bytes),
    msgInfo SscMacMsgid.macUpEnd.val []]

def syncEvents : List ShakeEvent :=
  .sscSync true :: .sscRead :: List.replicate 6 (.sscSync true)

theorem sync_path {s : Shake} (hsync : s.sync = some .start) (hm : s.ssc.mutex = false)
    (hst : s.ssc.staticMacTblHead = Chained.empty) (hdyn : s.ssc.dynMacTblHead = Chained.empty) :
    Path (shakeStep env) s syncEvents
      { s with up := s.up ++ sscSends env s.ssc, sync := some .finished } := by
  obtain ⟨pi, ⟨ageTime, portStatus, dynCount, staticCount, stat, dyn, func, mutex⟩, down, up,
    msgHead, gData, draining, storing, ds, sync⟩ := s
  obtain rfl : sync = some .start := hsync
  obtain rfl : mutex = false := hm
  obtain rfl : stat = Chained.empty := hst
  obtain rfl : dyn = Chained.empty := hdyn
  have htable : ∀ (up : List (List U8)) (dyn : Bool), shakeStep env ⟨pi, ⟨ageTime, portStatus,
      dynCount, staticCount, Chained.empty, Chained.empty, func, false⟩, down, up, msgHead, gData,
      draining, storing, ds, some (.table dyn)⟩ (.sscSync true) = some ⟨pi, ⟨ageTime, portStatus,
      dynCount, staticCount, Chained.empty, Chained.empty, func, true⟩, down, up, msgHead, gData,
      draining, storing, ds, some (.tableSend dyn [])⟩ := by
    intro up dyn
    cases dyn <;> simp [shakeStep, syncStep, Ssc.pthreadMutexLock, Chained.entries_empty]
  have hup : up ++ sscSends env ⟨ageTime, portStatus, dynCount, staticCount, Chained.empty,
      Chained.empty, func, false⟩ = up ++ [msgInfo SscMacMsgid.macUpStart.val []]
        ++ [msgInfo SscMacMsgid.macUpIng.val (Ssc.dsInfo sscConf (sscConfOf env ⟨ageTime,
          portStatus, dynCount, staticCount, Chained.empty, Chained.empty, func, false⟩).bytes)]
        ++ [msgInfo SscMacMsgid.macUpEnd.val []] := by
    simp [sscSends]
  rw [hup]
  refine .cons rfl (.cons rfl (.cons rfl (.cons (htable _ _) (.cons rfl (.cons (htable _ _) ?_)))))
  exact .cons rfl (.cons rfl (.nil _))

theorem sscRecePiDsData_ok (env : Ssc.SscEnv) {ssc : Ssc.MacOpraClass} (hr : Ssc.Registered ssc)
    (hm : ssc.mutex = false) (conf : ConfInfo) : ∃ ssc',
      ((Ssc.sscHandler .dsIng).call env (fun _ => true) (Pi.piSendMsgSsc .dsIng conf.bytes)
        ssc).map Prod.fst = .ok ssc' ∧ ssc'.ageTime = conf.ageTime ∧ Ssc.Registered ssc' := by
  have hlock : Ssc.pthreadMutexLock ssc = .ok { ssc with mutex := true } := by
    rw [Ssc.pthreadMutexLock, hm]
    rfl
  refine ⟨{ ssc with
    ageTime := conf.ageTime
    portStatus := fun i =>
      if 1 ≤ i.val ∧ i.val < portNum then conf.portStatus i else ssc.portStatus i
    mutex := false }, ?_, rfl, hr⟩
  simp only [Ssc.sscHandler, Ssc.SscMacFunc.call, Ssc.sscRecePiDsData, Pi.piSendMsgSsc,
    msgBody_msgInfo_self, ConfInfo.read_bytes_self, hlock]
  rfl

def recvEvents : List ShakeEvent :=
  [.sscRecv .dsStart fun _ => true, .sscRecv .dsIng fun _ => true, .sscRecv .dsEnd fun _ => true]

/-- SSC takes PI's configuration. -/
theorem recv_path (env : Ssc.SscEnv) {s : Shake} {pi₀ : Pi.PiDbMacInfo} {thread : SyncThread}
    (hsync : s.sync = some thread) (hm : s.ssc.mutex = false) (hr : Ssc.Registered s.ssc)
    (hdown : s.down = Pi.pthreadDsFun env.stack pi₀) : ∃ ssc,
      Path (shakeStep env) s recvEvents { s with down := [], ssc := ssc }
        ∧ ssc.ageTime = pi₀.ageTime := by
  obtain ⟨pi, ssc, down, up, msgHead, gData, draining, storing, ds, sync⟩ := s
  obtain rfl : sync = some thread := hsync
  obtain rfl : down = Pi.pthreadDsFun env.stack pi₀ := hdown
  have hrecv : ∀ {ssc ssc' : Ssc.MacOpraClass} {type : PiMacMsgid} {msg : List U8}
      (down : List (List U8)), Ssc.Registered ssc →
      ((Ssc.sscHandler type).call env (fun _ => true) (Pi.piSendMsgSsc type msg) ssc).map Prod.fst
        = .ok ssc' →
      shakeStep env ⟨pi, ssc, Pi.piSendMsgSsc type msg :: down, up, msgHead, gData, draining,
        storing, ds, some thread⟩ (.sscRecv type fun _ => true)
        = some ⟨pi, ssc', down, up, msgHead, gData, draining, storing, ds, some thread⟩ := by
    intro ssc ssc' type msg down hr hcall
    have hty : msgType (Pi.piSendMsgSsc type msg) = type.val := msgType_msgInfo_self _ _
    simp only [shakeStep, if_pos hty, Ssc.sscRecevieMsgPi_type hr _ hty]
    rcases hc : (Ssc.sscHandler type).call env (fun _ => true) (Pi.piSendMsgSsc type msg) ssc
      with e | ⟨db, out⟩
    · rw [hc] at hcall
      cases hcall
    · rw [hc] at hcall
      obtain rfl := Except.ok.inj hcall
      rfl
  have hstart : ((Ssc.sscHandler .dsStart).call env (fun _ => true) (Pi.piSendMsgSsc .dsStart [])
      ssc).map Prod.fst = .ok ssc := rfl
  obtain ⟨ssc', hing, hage, hr'⟩ := sscRecePiDsData_ok env hr hm
    ⟨pi₀.ageTime, fun i => if 1 ≤ i.val then pi₀.portStatus i else env.stack⟩
  have hend : ((Ssc.sscHandler .dsEnd).call env (fun _ => true) (Pi.piSendMsgSsc .dsEnd [])
      ssc').map Prod.fst = .ok ssc' := rfl
  refine ⟨ssc', ?_, hage⟩
  exact .cons (hrecv _ hr hstart) (.cons (hrecv _ hr hing) (.cons (hrecv _ hr' hend) (.nil _)))

def fetchEvents : List ShakeEvent :=
  [.sscFetch true, .piRecv fun _ => true, .piWake, .piDeal true, .piSleep]

theorem fetch_path (env : Ssc.SscEnv) (pi₀ : Pi.PiDbMacInfo) (ssc₀ : Ssc.MacOpraClass) :
    Path (shakeStep env) (.connected pi₀ ssc₀)
      fetchEvents { Shake.connected pi₀ ssc₀ with
        ds := some (.reading dsReads ⟨env.stack, fun _ => env.stack⟩)
        sync := some .start } := by
  have hdeal : ∀ s : Shake, s.draining = true → s.storing = [] → s.ds = none →
      s.msgHead = [msgInfo SscMacMsgid.macFetch.val []] →
      shakeStep env s (.piDeal true) = some { s with
        msgHead := [], ds := some (.reading dsReads ⟨env.stack, fun _ => env.stack⟩) } := by
    intro s hd hst hds hq
    simp only [shakeStep, hd, hst, hq, Pi.getMsgData, List.head?_cons, piDealStep,
      msgType_msgInfo_self, ↓reduceIte, hds]
    rfl
  refine .cons rfl (.cons rfl (.cons rfl (.cons (hdeal _ rfl rfl rfl rfl) (.single rfl))))

def dsEvents : List ShakeEvent := dsReads.map .piRead ++ [.piSend, .piSend, .piSend]

def crossing (env : Ssc.SscEnv) (ssc : Ssc.MacOpraClass) : List ShakeEvent :=
  fetchEvents ++ dsEvents ++ syncEvents ++ (sscSends env ssc).flatMap deliver ++ recvEvents

theorem crossing_fails {ssc : Ssc.MacOpraClass} : ∀ e ∈ crossing env ssc, ¬ e.Fails := by
  have hdeliver : ∀ m, ∀ e ∈ deliver m, ¬ e.Fails := by
    intro m e he
    by_cases hc : isConf m
    · simp only [deliver, if_pos hc, List.cons_append, List.mem_cons, List.mem_append, List.mem_map,
        List.not_mem_nil, or_false] at he
      rcases he with rfl | rfl | rfl | ⟨f, -, rfl⟩ | rfl <;> simp [ShakeEvent.Fails]
    · simp only [deliver, if_neg hc, List.cons_append, List.nil_append, List.mem_cons,
        List.not_mem_nil, or_false] at he
      rcases he with rfl | rfl | rfl | rfl <;> simp [ShakeEvent.Fails]
  intro e he
  simp only [crossing, List.mem_append, List.mem_flatMap] at he
  rcases he with (((he | he) | he) | ⟨m, -, he⟩) | he
  · simp only [fetchEvents, List.mem_cons, List.not_mem_nil, or_false] at he
    rcases he with rfl | rfl | rfl | rfl | rfl <;> simp [ShakeEvent.Fails]
  · simp only [dsEvents, List.mem_append, List.mem_map, List.mem_cons, List.not_mem_nil, or_false,
      or_self] at he
    rcases he with ⟨f, -, rfl⟩ | rfl <;> exact id
  · simp only [syncEvents, List.mem_cons, List.mem_replicate] at he
    rcases he with rfl | rfl | ⟨-, rfl⟩ <;> simp [ShakeEvent.Fails]
  · exact hdeliver m e he
  · simp only [recvEvents, List.mem_cons, List.not_mem_nil, or_false] at he
    rcases he with rfl | rfl | rfl <;> exact id

/-- What SSC sends leaves PI with SSC's age time. -/
theorem dealReceMsg_conf (hash : HashFn) (conf : ConfInfo) (db : Pi.PiDbMacInfo) :
    (Pi.dealReceMsg hash true (msgInfo SscMacMsgid.macUpIng.val (Ssc.dsInfo sscConf conf.bytes))
      db).ageTime = conf.ageTime := by
  have h1 : SscMacMsgid.macUpIng.val ≠ SscMacMsgid.macFetch.val := by decide
  have h2 : SscMacMsgid.macUpIng.val ≠ SscMacMsgid.macUpStart.val := by decide
  simp only [Pi.dealReceMsg, msgType_msgInfo_self, if_neg h1, if_neg h2, ↓reduceIte,
    Pi.piDealDsIng, msgBody_msgInfo_self, Ssc.dsInfo, readU32_toBytes, Pi.dealConfInfo,
    List.drop_left' (length_toBytes _), ConfInfo.read_bytes_self]

/-- Where SSC's tables are empty there is a handshake in which no message is lost and which ends
with each side at the other's age time. -/
theorem crossing_path (env : Ssc.SscEnv) (pi₀ : Pi.PiDbMacInfo) (ssc₀ : Ssc.MacOpraClass)
    (hst : ssc₀.staticMacTblHead = Chained.empty) (hdyn : ssc₀.dynMacTblHead = Chained.empty) :
    ∃ es s, Path (shakeStep env) (.connected pi₀ ssc₀) es s ∧ s.Quiet ∧ (∀ e ∈ es, ¬ e.Fails)
      ∧ s.pi.ageTime = ssc₀.ageTime ∧ s.ssc.ageTime = pi₀.ageTime := by
  set ssc := Ssc.sscMacOperaInit { ssc₀ with mutex := false } with hssc
  have hnot : ∀ m ∈ sscSends env ssc, msgType m ≠ SscMacMsgid.macFetch.val := by
    intro m hm
    simp only [sscSends, List.mem_cons, List.not_mem_nil, or_false] at hm
    rcases hm with rfl | rfl | rfl <;> rw [msgType_msgInfo_self] <;> decide
  set pi := (sscSends env ssc).foldl (fun db m => Pi.dealReceMsg env.hash true m db) pi₀ with hpi
  have hds := (fetch_path env pi₀ ssc₀).append (ds_path rfl)
  have hsync := hds.append (sync_path rfl rfl hst hdyn)
  have hp := hsync.append (deliver_all _ _ rfl rfl rfl rfl rfl hnot)
  obtain ⟨ssc', hrecv, hage⟩ := recv_path env (s := ⟨pi, ssc, Pi.pthreadDsFun env.stack pi₀, [],
    [], 0, false, [], some .finished, some .finished⟩) rfl rfl rfl rfl
  refine ⟨_, _, hp.append hrecv, ⟨rfl, rfl, rfl, rfl, ?_, rfl⟩, crossing_fails, ?_, hage⟩
  · rintro thread ⟨⟩
    rfl
  · have hends : ∀ (type : SscMacMsgid) (db : Pi.PiDbMacInfo),
        type = .macUpStart ∨ type = .macUpEnd →
        (Pi.dealReceMsg env.hash true (msgInfo type.val []) db).ageTime = db.ageTime := by
      intro type db ht
      refine dealReceMsg_settings env.hash true (fun hc => ?_) db .age
      have hty := hc.1
      rw [msgType_msgInfo_self] at hty
      rcases ht with rfl | rfl <;> exact absurd hty (by decide)
    rw [hpi, sscSends, List.foldl_cons, List.foldl_cons, List.foldl_cons, List.foldl_nil,
      hends .macUpEnd _ (.inr rfl), dealReceMsg_conf]
    rfl

/-- In that handshake, from two different age times, the transfers of the age time cross. -/
theorem handshake_agree_iff_crossing : ∃ es s,
    Path (shakeStep littleEnv) (.connected { Pi.PiDbMacInfo.blank with ageTime := 300 } .blank) es s
      ∧ s.Quiet ∧ Crossed .age es ∧ s.pi.ageTime = 0 ∧ s.ssc.ageTime = 300 := by
  obtain ⟨es, s, hp, hq, hm, hpi, hssc⟩ := crossing_path littleEnv
    { Pi.PiDbMacInfo.blank with ageTime := 300 } .blank rfl rfl
  obtain ⟨hagree, -, hstored⟩ := handshake_agree_iff littleEnv _ _ hp (f := .age) trivial
  refine ⟨es, s, hp, hq, ?_, hpi, hssc⟩
  by_contra hc
  have heq : s.pi.ageTime = s.ssc.ageTime := hagree.2 (.inr ⟨.inl (hstored hq hm).1, hc⟩)
  rw [hpi, hssc] at heq
  exact absurd heq (by decide)

/-- All messages have been processed and the programs hold different age times. -/
theorem handshake_disagrees : ∃ es s,
    Path (shakeStep littleEnv) (.connected { Pi.PiDbMacInfo.blank with ageTime := 300 } .blank) es s
      ∧ s.Quiet ∧ (∀ e ∈ es, ¬ e.Fails) ∧ Setting.age.ofPi s.pi ≠ Setting.age.ofSsc s.ssc := by
  obtain ⟨es, s, hp, hq, hm, hpi, hssc⟩ := crossing_path littleEnv
    { Pi.PiDbMacInfo.blank with ageTime := 300 } .blank rfl rfl
  refine ⟨es, s, hp, hq, hm, ?_⟩
  rw [Setting.ofPi, Setting.ofSsc, hpi, hssc]
  decide

end Crossing

end RookieMac
