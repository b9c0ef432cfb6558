import RookieMac.Handshake
import RookieMac.Lib.Exchange
import RookieMac.Proofs.StaticTable

/-!
# What the handshake makes of a setting

For one setting the handshake is an exchange: each program reads it once for the other and stores
once what the other read. What is on the way between a read and its store is one message
(`Carried`). So the two agree on it afterwards unless each read it before it stored the other's,
which leaves each with the other's value.
-/

namespace RookieMac

open CMem Runs Exchange

/-! ## The messages -/

section Messages

variable {f : Setting} {m : List U8}

/-- The value of the setting in a message with PI's configuration. -/
def ingVal (f : Setting) (m : List U8) : Option U32 :=
  if msgType m = PiMacMsgid.dsIng.val then some (f.ofConf (ConfInfo.read (msgBody m))) else none

/-- The value of the setting in a message with SSC's configuration. -/
def confVal (f : Setting) (m : List U8) : Option U32 :=
  if isConf m then some (f.ofConf (ConfInfo.read ((msgBody m).drop 4))) else none

theorem ConfInfo.read_bytes_self (c : ConfInfo) : ConfInfo.read c.bytes = c := by
  simpa using c.read_bytes []

theorem ingVal_ing (c : ConfInfo) :
    ingVal f (Pi.piSendMsgSsc .dsIng c.bytes) = some (f.ofConf c) := by
  rw [ingVal, Pi.piSendMsgSsc, msgType_msgInfo_self, if_pos rfl, msgBody_msgInfo_self,
    ConfInfo.read_bytes_self]

theorem confVal_conf (c : ConfInfo) :
    confVal f (msgInfo SscMacMsgid.macUpIng.val (Ssc.dsInfo sscConf c.bytes))
      = some (f.ofConf c) := by
  have hc : isConf (msgInfo SscMacMsgid.macUpIng.val (Ssc.dsInfo sscConf c.bytes)) := by
    rw [isConf, msgType_msgInfo_self, msgBody_msgInfo_self, Ssc.dsInfo, readU32_toBytes]
    exact ⟨rfl, rfl⟩
  rw [confVal, if_pos hc, msgBody_msgInfo_self, Ssc.dsInfo, List.drop_left' (length_toBytes _),
    ConfInfo.read_bytes_self]

theorem confVal_table (dyn : Bool) (x : PiMacEntry) : confVal f (msgInfo SscMacMsgid.macUpIng.val
    (Ssc.dsInfo (if dyn then sscDyn else sscStatic) x.bytes)) = none := by
  refine if_neg fun hc => ?_
  have ht := hc.2
  rw [msgBody_msgInfo_self, Ssc.dsInfo, readU32_toBytes] at ht
  revert ht
  cases dyn <;> decide

theorem confVal_other {ty : U32} (h : ty ≠ SscMacMsgid.macUpIng.val) (msg : List U8) :
    confVal f (msgInfo ty msg) = none :=
  if_neg fun hc => h ((msgType_msgInfo_self ty msg).symm.trans hc.1)

end Messages

/-! ## Settings -/

namespace Setting

variable {f g : Setting} {v : U32}

theorem ofPi_setPi (db : Pi.PiDbMacInfo) :
    f.ofPi (g.setPi v db) = if g = f then v else f.ofPi db := by
  cases f <;> cases g <;> simp [ofPi, setPi, Function.update_apply, eq_comm]

theorem ofConf_setConf (tmp : ConfInfo) :
    f.ofConf (g.setConf v tmp) = if g = f then v else f.ofConf tmp := by
  cases f <;> cases g <;> simp [ofConf, setConf, Function.update_apply, eq_comm]

theorem Shared.mem_dsReads (h : f.Shared) : f ∈ dsReads := by
  cases f with
  | age => exact .head _
  | port i => exact .tail _ (List.mem_map_of_mem (mem_dsReads_port.2 h.1))

theorem Shared.mem_confStores (h : f.Shared) : f ∈ confStores := by
  cases f with
  | age => exact .head _
  | port i => exact .tail _ (List.mem_map_of_mem (mem_confStores_port.2 h.2))

theorem dsReads_nodup : dsReads.Nodup := by decide

theorem confStores_nodup : confStores.Nodup := by decide

end Setting

/-- PI's handlers of the other messages leave the settings. -/
theorem dealReceMsg_settings (hash : HashFn) (mem : Bool) {m : List U8} (hm : ¬ isConf m)
    (db : Pi.PiDbMacInfo) (f : Setting) : f.ofPi (Pi.dealReceMsg hash mem m db) = f.ofPi db := by
  have hadd : ∀ data, f.ofPi (Pi.piAddLocalDyn hash mem data db) = f.ofPi db := fun data => by
    unfold Pi.piAddLocalDyn
    cases mem <;> cases f <;> rfl
  unfold Pi.dealReceMsg
  simp only []
  split_ifs with h1 h2 h3 h4 h5
  · rfl
  · rfl
  · unfold Pi.piDealDsIng
    simp only []
    split_ifs with hc hs hd
    · exact absurd ⟨h3, hc⟩ hm
    · unfold Pi.dealStaticInfo
      cases mem <;> cases f <;> rfl
    · exact hadd _
    · rfl
  · rfl
  · unfold Pi.piDealNotifyMsg
    simp only []
    split_ifs
    · exact hadd _
    · cases f <;> rfl
  · rfl

/-! ## What is on the way -/

/-- Between the read and the store there is one value on the way; otherwise the store has been done,
or the value was lost. -/
def Carried (sent : Option U32) (stored : Bool) (vals : List U32) (lost : Prop) : Prop :=
  (∃ v, vals = [v] ∧ sent = some v ∧ stored = false) ∨ (vals = [] ∧ (stored = true ∨ lost))

/-- Nothing is on the way and nothing has been stored. -/
def Unsent (stored : Bool) (vals : List U32) : Prop := vals = [] ∧ stored = false

/-- From PI to SSC, by where PI's thread is. -/
def DownInv (f : Setting) (vals : List U32) (sent : Option U32) (stored : Bool) :
    Option DsThread → Prop
  | none => Unsent stored vals ∧ sent = none
  | some (.reading todo tmp) =>
    Unsent stored vals ∧ todo.Nodup ∧ sent = if f ∈ todo then none else some (f.ofConf tmp)
  | some (.sendIng tmp) => Unsent stored vals ∧ sent = some (f.ofConf tmp)
  | some .sendEnd | some .finished => Carried sent stored vals False

/-- From SSC to PI, by where SSC's thread is. -/
def UpInv (f : Setting) (vals : List U32) (sent : Option U32) (stored : Bool) (lost : Prop) :
    Option SyncThread → Prop
  | none | some .start | some .conf => Unsent stored vals ∧ sent = none
  | some (.confSend confInfo) => Unsent stored vals ∧ sent = some (f.ofConf confInfo)
  | some (.table _) | some (.tableSend _ _) | some .fin | some .finished =>
    Carried sent stored vals lost

section Carry

variable {f : Setting} {vals vals' : List U32} {sent : Option U32} {stored : Bool}
  {lost lost' : Prop} {v : U32}

theorem Carried.mono (h : Carried sent stored vals lost) (hl : lost → lost') :
    Carried sent stored vals lost' :=
  h.imp id fun ⟨hv, hs⟩ => ⟨hv, hs.imp id hl⟩

theorem UpInv.mono {sync : Option SyncThread} (h : UpInv f vals sent stored lost sync)
    (hl : lost → lost') : UpInv f vals sent stored lost' sync := by
  rcases sync with _ | _ | _ | _ | _ | _ | _ | _ <;> first | exact h | exact Carried.mono h hl

/-- The order of what is on the way does not matter. -/
theorem UpInv.perm {sync : Option SyncThread} (h : UpInv f vals sent stored lost sync)
    (hp : vals'.Perm vals) : UpInv f vals' sent stored lost sync := by
  have nil : vals = [] → vals' = [] := fun hv => List.Perm.eq_nil (hv ▸ hp)
  have unsent : Unsent stored vals → Unsent stored vals' := fun h => ⟨nil h.1, h.2⟩
  have carried : Carried sent stored vals lost → Carried sent stored vals' lost := by
    rintro (⟨v, rfl, hs⟩ | ⟨hv, hs⟩)
    · exact .inl ⟨v, List.perm_singleton.1 hp, hs⟩
    · exact .inr ⟨nil hv, hs⟩
  rcases sync with _ | _ | _ | _ | _ | _ | _ | _ <;>
    first | exact h.imp unsent id | exact carried h

/-- A value on the way is the only one and what was read, and the sender is past its sending. -/
theorem UpInv.carried {sync : Option SyncThread} {rest : List U32}
    (h : UpInv f vals sent stored lost sync) (hp : vals.Perm (v :: rest)) :
    sent = some v ∧ stored = false ∧ ∀ stored' lost', (stored' = true ∨ lost') →
      UpInv f rest sent stored' lost' sync := by
  have unsent : Unsent stored vals → False := fun h => by
    rw [h.1] at hp
    exact List.cons_ne_nil _ _ hp.nil_eq.symm
  have carried : Carried sent stored vals lost → rest = [] ∧ sent = some v ∧ stored = false := by
    rintro (⟨w, rfl, hs⟩ | ⟨rfl, -⟩)
    · obtain ⟨rfl, rfl⟩ := List.cons.inj (List.perm_singleton.1 hp.symm)
      exact ⟨rfl, hs⟩
    · exact absurd hp.nil_eq.symm (List.cons_ne_nil _ _)
  have done : Carried sent stored vals lost → ∀ stored' lost', (stored' = true ∨ lost') →
      Carried sent stored' rest lost' := fun h _ _ hl => .inr ⟨(carried h).1, hl⟩
  rcases sync with _ | _ | _ | _ | _ | _ | _ | _ <;>
    first
    | exact (unsent h.1).elim
    | exact ⟨(carried h).2.1, (carried h).2.2, done h⟩

theorem DownInv.carried {ds : Option DsThread} {rest : List U32}
    (h : DownInv f (v :: rest) sent stored ds) :
    sent = some v ∧ stored = false ∧ DownInv f rest sent true ds := by
  have unsent : Unsent stored (v :: rest) → False := fun h => List.cons_ne_nil _ _ h.1
  have carried : Carried sent stored (v :: rest) False →
      rest = [] ∧ sent = some v ∧ stored = false := by
    rintro (⟨w, hw, hs⟩ | ⟨hw, -⟩)
    · obtain ⟨rfl, rfl⟩ := List.cons.inj hw
      exact ⟨rfl, hs⟩
    · exact absurd hw (List.cons_ne_nil _ _)
  have done : Carried sent stored (v :: rest) False → Carried sent true rest False :=
    fun h => .inr ⟨(carried h).1, .inl rfl⟩
  rcases ds with _ | _ | _ | _ | _ <;>
    first
    | exact (unsent h.1).elim
    | exact ⟨(carried h).2.1, (carried h).2.2, done h⟩

end Carry

/-! ## The invariant -/

def downVals (f : Setting) (s : Shake) : List U32 := s.down.filterMap (ingVal f)

def storingVal (f : Setting) (q : Setting × U32) : Option U32 := if q.1 = f then some q.2 else none

def storingVals (f : Setting) (s : Shake) : List U32 := s.storing.filterMap (storingVal f)

def upVals (f : Setting) (s : Shake) : List U32 :=
  (s.up ++ s.msgHead).filterMap (confVal f) ++ storingVals f s

def Failed (es : List ShakeEvent) : Prop := ∃ e ∈ es, e.Fails

/-- The handshake so far, and the exchange of the setting it is. -/
structure ShakeInv (f : Setting) (es : List ShakeEvent) (s : Shake) (t : Pair U32) : Prop where
  registered : Ssc.Registered s.ssc
  downTypes : ∀ m ∈ s.down, msgType m = PiMacMsgid.dsStart.val ∨ msgType m = PiMacMsgid.dsIng.val
    ∨ msgType m = PiMacMsgid.dsEnd.val
  valPi : t.val true = f.ofPi s.pi
  valSsc : t.val false = f.ofSsc s.ssc
  down : DownInv f (downVals f s) (t.sent true) (t.stored false) s.ds
  up : UpInv f (upVals f s) (t.sent false) (t.stored true) (Failed es) s.sync
  fetch : s.sync ≠ none → s.ds = none →
    (∃ m ∈ s.up ++ s.msgHead, msgType m = SscMacMsgid.macFetch.val) ∨ Failed es

/-- The move of the exchange an event is. -/
def moveOf (f : Setting) : ShakeEvent → Option Move
  | .piRead g => if g = f then some (.read true) else none
  | .piStore g => if g = f then some (.store true) else none
  | .sscRead => some (.read false)
  | .sscRecv .dsIng _ => some (.store false)
  | _ => none

/-- The state after the event's move. -/
def Moves (f : Setting) (e : ShakeEvent) (t t' : Pair U32) : Prop :=
  match moveOf f e with
  | none => t' = t
  | some m => step t m = some t'

section Inv

variable {env : Ssc.SscEnv} {f : Setting} {es : List ShakeEvent} {s s' : Shake} {t : Pair U32}

theorem Failed.concat (h : Failed es) (e : ShakeEvent) : Failed (es ++ [e]) :=
  let ⟨e', he, hf⟩ := h
  ⟨e', List.mem_append_left _ he, hf⟩

theorem failed_last {e : ShakeEvent} (h : e.Fails) : Failed (es ++ [e]) :=
  ⟨e, List.mem_append_right _ (.head _), h⟩

theorem upVals_send (s : Shake) {l : List (List U8)} (hl : l.filterMap (confVal f) = []) :
    upVals f { s with up := s.up ++ l } = upVals f s := by
  simp [upVals, storingVals, hl]

theorem filterMap_cons_toList {α β : Type*} (g : α → Option β) (a : α) (l : List α) :
    (a :: l).filterMap g = (g a).toList ++ l.filterMap g := by
  rcases h : g a with _ | b
  · rw [List.filterMap_cons_none h]
    rfl
  · rw [List.filterMap_cons_some h]
    rfl

theorem upVals_up {m : List U8} {up : List (List U8)} (h : s.up = m :: up) :
    upVals f s = (confVal f m).toList ++ upVals f { s with up := up } := by
  rw [upVals, h, List.cons_append, filterMap_cons_toList, List.append_assoc]
  rfl

theorem upVals_msgHead {m : List U8} {msgHead : List (List U8)} (h : s.msgHead = m :: msgHead) :
    (upVals f s).Perm ((confVal f m).toList ++ upVals f { s with msgHead := msgHead }) := by
  have hperm : (s.up ++ s.msgHead).Perm (m :: (s.up ++ msgHead)) := by
    rw [h]
    exact List.perm_middle
  have := (hperm.filterMap (confVal f)).append_right (storingVals f s)
  rwa [filterMap_cons_toList, List.append_assoc] at this

theorem upVals_storing (f : Setting) {q : Setting × U32} {storing : List (Setting × U32)}
    (h : s.storing = q :: storing) :
    (upVals f s).Perm ((storingVal f q).toList ++ upVals f { s with storing := storing }) := by
  rw [upVals, storingVals, h, filterMap_cons_toList, ← List.append_assoc, upVals,
    ← List.append_assoc]
  exact List.perm_append_comm.append_right _

/-- A step of SSC that sends `l` and reads or stores no setting. -/
theorem ShakeInv.sscStep (h : ShakeInv f es s t) (e : ShakeEvent) (l : List (List U8))
    {sync : Option SyncThread} {ssc : Ssc.MacOpraClass} (hr : Ssc.Registered ssc)
    (hssc : f.ofSsc ssc = f.ofSsc s.ssc)
    (hup : UpInv f (upVals f { s with up := s.up ++ l }) (t.sent false) (t.stored true)
      (Failed (es ++ [e])) sync)
    (hfetch : s.sync = none → (∃ m ∈ l, msgType m = SscMacMsgid.macFetch.val)
      ∨ Failed (es ++ [e])) :
    ShakeInv f (es ++ [e]) { s with up := s.up ++ l, ssc := ssc, sync := sync } t := by
  refine ⟨hr, h.downTypes, h.valPi, h.valSsc.trans hssc.symm, h.down, hup, fun _ hds => ?_⟩
  by_cases hs : s.sync = none
  · refine (hfetch hs).imp (fun ⟨m, hm, hty⟩ => ⟨m, ?_, hty⟩) id
    simp [hm]
  · refine (h.fetch hs hds).imp (fun ⟨m, hm, hty⟩ => ⟨m, ?_, hty⟩) fun hf => hf.concat e
    rcases List.mem_append.1 hm with hm | hm
    · simp [hm]
    · simp [hm]

/-- A step of SSC's sync thread that sends nothing. -/
theorem ShakeInv.sscQuiet (h : ShakeInv f es s t) (e : ShakeEvent) {sync : Option SyncThread}
    {ssc : Ssc.MacOpraClass} (hr : Ssc.Registered ssc) (hssc : f.ofSsc ssc = f.ofSsc s.ssc)
    (hup : UpInv f (upVals f s) (t.sent false) (t.stored true) (Failed (es ++ [e])) sync)
    (hsync : s.sync ≠ none) : ShakeInv f (es ++ [e]) { s with ssc := ssc, sync := sync } t := by
  have hl : ([] : List (List U8)).filterMap (confVal f) = [] := rfl
  rw [← upVals_send s hl] at hup
  have := h.sscStep e [] hr hssc hup fun hn => absurd hn hsync
  simpa only [List.append_nil] using this

theorem sent_confVal (f : Setting) (mem : Bool) (type : SscMacMsgid) (msg : List U8)
    (h : type ≠ .macUpIng) :
    ((Ssc.sscSendMsgPi mem type msg).toList).filterMap (confVal f) = [] := by
  have hty : type.val ≠ SscMacMsgid.macUpIng.val := by
    revert h
    cases type <;> decide
  cases mem with
  | false => rfl
  | true => simp [Ssc.sscSendMsgPi, confVal_other hty]

theorem ShakeInv.sscFetch (h : ShakeInv f es s t) {mem : Bool}
    (hs : shakeStep env s (.sscFetch mem) = some s') : ShakeInv f (es ++ [.sscFetch mem]) s' t := by
  simp only [shakeStep] at hs
  split at hs
  · cases hs
  · rename_i hsync
    obtain rfl := Option.some.inj hs
    have hup := h.up
    rw [hsync, ← upVals_send s (sent_confVal f mem .macFetch [] (by decide))] at hup
    refine h.sscStep _ _ h.registered rfl hup fun _ => ?_
    cases mem with
    | false => exact .inr (failed_last rfl)
    | true => exact .inl ⟨_, .head _, msgType_msgInfo_self _ _⟩

theorem confSend_up {confInfo : ConfInfo} (mem dyn : Bool)
    (h : Unsent (t.stored true) (upVals f s) ∧ t.sent false = some (f.ofConf confInfo)) :
    UpInv f (upVals f { s with up := s.up ++ (Ssc.sscSendMsgPi mem .macUpIng
        (Ssc.dsInfo sscConf confInfo.bytes)).toList }) (t.sent false) (t.stored true)
      (Failed (es ++ [.sscSync mem])) (some (.table dyn)) := by
  obtain ⟨⟨hvals, hst⟩, hsent⟩ := h
  cases mem with
  | false => exact .inr ⟨(upVals_send s rfl).trans hvals, .inr (failed_last rfl)⟩
  | true =>
    obtain ⟨hmsgs, hstoring⟩ := List.append_eq_nil_iff.1 hvals
    rw [List.filterMap_append, List.append_eq_nil_iff] at hmsgs
    refine .inl ⟨f.ofConf confInfo, ?_, hsent, hst⟩
    rw [upVals, Ssc.sscSendMsgPi, if_pos rfl, Option.toList_some, List.filterMap_append,
      List.filterMap_append, hmsgs.1, hmsgs.2, List.filterMap_cons_some (confVal_conf confInfo)]
    exact congrArg (_ :: ·) hstoring

theorem ShakeInv.sscSync (h : ShakeInv f es s t) {mem : Bool}
    (hs : shakeStep env s (.sscSync mem) = some s') : ShakeInv f (es ++ [.sscSync mem]) s' t := by
  simp only [shakeStep] at hs
  split at hs
  · cases hs
  rename_i thread hsync
  have hup := h.up.mono fun hl => hl.concat (.sscSync mem)
  have hne : s.sync ≠ none := by simp [hsync]
  rw [hsync] at hup
  cases thread with
  | start =>
    obtain rfl := Option.some.inj hs
    rw [← upVals_send s (sent_confVal f mem .macUpStart [] (by decide))] at hup
    exact h.sscStep _ _ h.registered rfl hup fun hn => absurd hn hne
  | conf =>
    simp only [syncStep] at hs
    split_ifs at hs with hmem
    obtain rfl := Option.some.inj hs
    have hlost : Failed (es ++ [.sscSync mem]) := failed_last (Bool.eq_false_iff.2 hmem)
    exact h.sscQuiet _ h.registered rfl (.inr ⟨hup.1.1, .inr hlost⟩) hne
  | confSend confInfo =>
    obtain rfl := Option.some.inj hs
    exact h.sscStep _ _ h.registered rfl (confSend_up mem false hup) fun hn => absurd hn hne
  | table dyn =>
    cases mem with
    | false =>
      obtain rfl := Option.some.inj hs
      refine h.sscQuiet _ h.registered rfl ?_ hne
      cases dyn <;> exact hup
    | true =>
      simp only [syncStep, ↓reduceIte] at hs
      split at hs
      · cases hs
      · rename_i ssc hlock
        obtain ⟨-, rfl⟩ := Ssc.lock_eq hlock
        obtain rfl := Option.some.inj hs
        exact h.sscQuiet _ h.registered (by cases f <;> rfl) hup hne
  | tableSend dyn todo =>
    cases todo with
    | nil =>
      obtain rfl := Option.some.inj hs
      refine h.sscQuiet _ h.registered (by cases f <;> rfl) ?_ hne
      cases dyn <;> exact hup
    | cons x todo =>
      obtain rfl := Option.some.inj hs
      have hl : ((Ssc.sscSendMsgPi mem .macUpIng (Ssc.dsInfo (if dyn then sscDyn else sscStatic)
          x.bytes)).toList).filterMap (confVal f) = [] := by
        cases mem with
        | false => rfl
        | true => simp [Ssc.sscSendMsgPi, confVal_table]
      rw [← upVals_send s hl] at hup
      exact h.sscStep _ _ h.registered rfl hup fun hn => absurd hn hne
  | fin =>
    obtain rfl := Option.some.inj hs
    rw [← upVals_send s (sent_confVal f mem .macUpEnd [] (by decide))] at hup
    exact h.sscStep _ _ h.registered rfl hup fun hn => absurd hn hne
  | finished => cases hs

theorem ShakeInv.sscRead (h : ShakeInv f es s t) (hf : f.Shared)
    (hs : shakeStep env s .sscRead = some s') :
    ∃ t', step t (.read false) = some t' ∧ ShakeInv f (es ++ [.sscRead]) s' t' := by
  simp only [shakeStep] at hs
  split at hs
  · rename_i ssc hsync hlock
    obtain ⟨-, rfl⟩ := Ssc.lock_eq hlock
    obtain rfl := Option.some.inj hs
    have hup := h.up
    rw [hsync] at hup
    obtain ⟨hun, hsent⟩ := hup
    have hval : f.ofConf ⟨s.ssc.ageTime, fun i => if 1 ≤ i.val then s.ssc.portStatus i else env.stack⟩
        = t.val false := by
      rw [h.valSsc]
      cases f with
      | age => rfl
      | port i => exact if_pos hf.1
    refine ⟨t.send false, by simp only [step, hsent], h.registered, h.downTypes, h.valPi, ?_, ?_,
      ⟨hun, ?_⟩, fun _ hds => ?_⟩
    · rw [send_val, h.valSsc]
      cases f <;> rfl
    · rw [send_sent, Function.update_of_ne (by decide)]
      exact h.down
    · rw [send_sent, Function.update_self]
      exact congrArg some hval.symm
    · exact (h.fetch (by simp [hsync]) hds).imp id fun hl => hl.concat _
  · cases hs

/-- A step of PI's own, or of the queue, that reads and stores no setting. -/
theorem ShakeInv.piRecv (h : ShakeInv f es s t) {mem : ℕ → Bool}
    (hs : shakeStep env s (.piRecv mem) = some s') : ShakeInv f (es ++ [.piRecv mem]) s' t := by
  simp only [shakeStep] at hs
  split at hs
  · rename_i m up hdrain hups
    have hup := h.up.mono fun hl => hl.concat (.piRecv mem)
    split_ifs at hs with hmem
    · obtain rfl := Option.some.inj hs
      have hperm : (up ++ m :: s.msgHead).Perm (s.up ++ s.msgHead) := by
        rw [hups]
        exact List.perm_middle
      refine ⟨h.registered, h.downTypes, h.valPi, h.valSsc, h.down,
        hup.perm ((hperm.filterMap _).append_right _), fun hsync hds => ?_⟩
      rcases h.fetch hsync hds with ⟨m', hm', hty⟩ | hl
      · exact .inl ⟨m', hperm.mem_iff.2 hm', hty⟩
      · exact .inr (hl.concat _)
    · obtain rfl := Option.some.inj hs
      have hlost : Failed (es ++ [.piRecv mem]) := by
        refine failed_last ?_
        rw [not_and_or] at hmem
        exact hmem.imp (by simp) (by simp)
      refine ⟨h.registered, h.downTypes, h.valPi, h.valSsc, h.down, ?_, fun _ _ => .inr hlost⟩
      rw [upVals_up hups] at hup
      rcases hc : confVal f m with _ | v
      · rw [hc] at hup
        exact hup
      · rw [hc] at hup
        obtain ⟨-, -, hdone⟩ := hup.carried (.refl _)
        exact hdone _ _ (.inr hlost)
  · cases hs

theorem ShakeInv.piWake (h : ShakeInv f es s t) (hs : shakeStep env s .piWake = some s') :
    ShakeInv f (es ++ [.piWake]) s' t := by
  simp only [shakeStep] at hs
  split_ifs at hs
  obtain rfl := Option.some.inj hs
  exact ⟨h.registered, h.downTypes, h.valPi, h.valSsc, h.down, h.up.mono fun hl => hl.concat _,
    fun hsync hds => (h.fetch hsync hds).imp id fun hl => hl.concat _⟩

theorem ShakeInv.piSleep (h : ShakeInv f es s t) (hs : shakeStep env s .piSleep = some s') :
    ShakeInv f (es ++ [.piSleep]) s' t := by
  simp only [shakeStep] at hs
  split at hs
  · obtain rfl := Option.some.inj hs
    exact ⟨h.registered, h.downTypes, h.valPi, h.valSsc, h.down, h.up.mono fun hl => hl.concat _,
      fun hsync hds => (h.fetch hsync hds).imp id fun hl => hl.concat _⟩
  · cases hs

theorem ShakeInv.piRead (h : ShakeInv f es s t) {g : Setting}
    (hs : shakeStep env s (.piRead g) = some s') :
    ∃ t', Moves f (.piRead g) t t' ∧ ShakeInv f (es ++ [.piRead g]) s' t' := by
  simp only [shakeStep] at hs
  split at hs
  · rename_i g' todo tmp hds
    split_ifs at hs with hg
    obtain rfl := hg
    obtain rfl := Option.some.inj hs
    have hdown := h.down
    rw [hds] at hdown
    obtain ⟨hun, hnd, hsent⟩ := hdown
    obtain ⟨hg, hnd⟩ := List.nodup_cons.1 hnd
    have hup := h.up.mono fun hl => hl.concat (.piRead g')
    by_cases hgf : g' = f
    · subst hgf
      rw [if_pos (.head _)] at hsent
      refine ⟨t.send true, ?_, h.registered, h.downTypes, h.valPi, h.valSsc, ⟨hun, hnd, ?_⟩, ?_,
        fun _ hd => by cases hd⟩
      · simp only [Moves, moveOf, ↓reduceIte, step, hsent]
      · rw [send_sent, Function.update_self, if_neg hg, Setting.ofConf_setConf, if_pos rfl, h.valPi]
      · rw [send_sent, Function.update_of_ne (by decide)]
        exact hup
    · refine ⟨t, ?_, h.registered, h.downTypes, h.valPi, h.valSsc, ⟨hun, hnd, ?_⟩, hup,
        fun _ hd => by cases hd⟩
      · simp only [Moves, moveOf, if_neg hgf]
      · simp only [hsent, Setting.ofConf_setConf, if_neg hgf, List.mem_cons, Ne.symm hgf, false_or]
  · cases hs

theorem ShakeInv.piStore (h : ShakeInv f es s t) {g : Setting}
    (hs : shakeStep env s (.piStore g) = some s') :
    ∃ t', Moves f (.piStore g) t t' ∧ ShakeInv f (es ++ [.piStore g]) s' t' := by
  simp only [shakeStep] at hs
  split at hs
  · rename_i g' v storing hst
    split_ifs at hs with hg
    obtain rfl := hg
    obtain rfl := Option.some.inj hs
    have hup := h.up.mono fun hl => hl.concat (.piStore g')
    have hfetch : s.sync ≠ none → s.ds = none →
        (∃ m ∈ s.up ++ s.msgHead, msgType m = SscMacMsgid.macFetch.val)
          ∨ Failed (es ++ [.piStore g']) :=
      fun hsync hds => (h.fetch hsync hds).imp id fun hl => hl.concat _
    by_cases hgf : g' = f
    · subst hgf
      have hvals := upVals_storing g' hst
      rw [storingVal, if_pos rfl] at hvals
      obtain ⟨hsent, hstored, hdone⟩ := hup.carried hvals
      have hstep : step t (.store true) = some (t.take true v) := by
        simp only [step, Bool.not_true, hsent, hstored]
      refine ⟨t.take true v, ?_, h.registered, h.downTypes, ?_, ?_, ?_, ?_, hfetch⟩
      · simpa only [Moves, moveOf, ↓reduceIte] using hstep
      · rw [take_val, Function.update_self, Setting.ofPi_setPi, if_pos rfl]
      · rw [take_val, Function.update_of_ne (by decide)]
        exact h.valSsc
      · rw [take_stored, Function.update_of_ne (by decide)]
        exact h.down
      · rw [take_stored, Function.update_self]
        exact hdone _ _ (.inl rfl)
    · refine ⟨t, ?_, h.registered, h.downTypes, ?_, h.valSsc, h.down, ?_, hfetch⟩
      · simp only [Moves, moveOf, if_neg hgf]
      · rw [Setting.ofPi_setPi, if_neg hgf]
        exact h.valPi
      · have hvals := upVals_storing f hst
        rw [storingVal, if_neg hgf] at hvals
        exact hup.perm hvals.symm
  · cases hs

theorem confStores_vals (hf : f.Shared) (c : ConfInfo) :
    (confStores.map fun g => (g, g.ofConf c)).filterMap (storingVal f) = [f.ofConf c] := by
  have go : ∀ l : List Setting, l.Nodup → (l.map fun g => (g, g.ofConf c)).filterMap (storingVal f)
      = if f ∈ l then [f.ofConf c] else [] := by
    intro l hl
    induction l with
    | nil => rfl
    | cons g l ih =>
      obtain ⟨hg, hl⟩ := List.nodup_cons.1 hl
      rw [List.map_cons, filterMap_cons_toList, ih hl, storingVal]
      rcases eq_or_ne g f with rfl | hgf
      · simp [hg]
      · simp [hgf, Ne.symm hgf]
  rw [go _ Setting.confStores_nodup, if_pos hf.mem_confStores]

theorem ShakeInv.piDeal (h : ShakeInv f es s t) (hf : f.Shared) {mem : Bool}
    (hs : shakeStep env s (.piDeal mem) = some s') : ShakeInv f (es ++ [.piDeal mem]) s' t := by
  simp only [shakeStep] at hs
  split at hs
  · rename_i m hdrain hst hm
    obtain ⟨tail, hhead⟩ : ∃ tail, s.msgHead = m :: tail := by
      rcases hq : s.msgHead with _ | ⟨m', tail⟩
      · simp [hq, Pi.getMsgData] at hm
      · simp only [hq, Pi.getMsgData, List.head?_cons, Option.some.injEq] at hm
        exact ⟨tail, by rw [hm]⟩
    have htail : Pi.delDealedMsg s.msgHead = tail := by rw [hhead]; rfl
    have hvals := upVals_msgHead (f := f) hhead
    have hup := (h.up.mono fun hl => hl.concat (.piDeal mem)).perm hvals.symm
    -- a message that is not the request stays where it was
    have hfetch : msgType m ≠ SscMacMsgid.macFetch.val → s.sync ≠ none → s.ds = none →
        (∃ m' ∈ s.up ++ tail, msgType m' = SscMacMsgid.macFetch.val)
          ∨ Failed (es ++ [.piDeal mem]) := by
      intro hne hsync hds
      rcases h.fetch hsync hds with ⟨m', hm', hty⟩ | hl
      · rw [hhead, List.mem_append, List.mem_cons] at hm'
        rcases hm' with hm' | rfl | hm'
        · exact .inl ⟨m', List.mem_append_left _ hm', hty⟩
        · exact absurd hty hne
        · exact .inl ⟨m', List.mem_append_right _ hm', hty⟩
      · exact .inr (hl.concat _)
    simp only [piDealStep, htail] at hs
    split_ifs at hs with hty hc
    · have hno : confVal f m = none := if_neg fun hc => absurd (hty.symm.trans hc.1) (by decide)
      rw [hno] at hup
      split at hs
      · rename_i hds
        obtain rfl := Option.some.inj hs
        have hdown := h.down
        rw [hds] at hdown
        refine ⟨h.registered, h.downTypes, h.valPi, h.valSsc, ⟨hdown.1, Setting.dsReads_nodup, ?_⟩,
          hup, fun _ hd => by cases hd⟩
        rw [hdown.2, if_pos hf.mem_dsReads]
      · cases hs
    · obtain rfl := Option.some.inj hs
      refine ⟨h.registered, h.downTypes, h.valPi, h.valSsc, h.down, ?_, hfetch hty⟩
      rw [confVal, if_pos hc, Option.toList_some] at hup
      refine hup.perm ?_
      have hnil : storingVals f s = [] := by rw [storingVals, hst]; rfl
      have hold : upVals f { s with msgHead := tail } = (s.up ++ tail).filterMap (confVal f) := by
        rw [upVals]
        exact (congrArg (_ ++ ·) hnil).trans (List.append_nil _)
      rw [hold, upVals, storingVals, confStores_vals hf]
      exact List.perm_append_comm
    · obtain rfl := Option.some.inj hs
      have hno : confVal f m = none := if_neg hc
      rw [hno] at hup
      exact ⟨h.registered, h.downTypes, (dealReceMsg_settings env.hash mem hc s.pi f).symm ▸ h.valPi,
        h.valSsc, h.down, hup, hfetch hty⟩
  · cases hs

theorem ShakeInv.piSend (h : ShakeInv f es s t) (hs : shakeStep env s .piSend = some s') :
    ShakeInv f (es ++ [.piSend]) s' t := by
  have hup := h.up.mono fun hl => hl.concat .piSend
  have htypes : ∀ (type : PiMacMsgid) (msg : List U8),
      type = .dsStart ∨ type = .dsIng ∨ type = .dsEnd →
      ∀ m ∈ s.down ++ [Pi.piSendMsgSsc type msg], msgType m = PiMacMsgid.dsStart.val
        ∨ msgType m = PiMacMsgid.dsIng.val ∨ msgType m = PiMacMsgid.dsEnd.val := by
    intro type msg ht m hm
    rcases List.mem_append.1 hm with hm | hm
    · exact h.downTypes m hm
    · rw [List.mem_singleton.1 hm, Pi.piSendMsgSsc, msgType_msgInfo_self]
      rcases ht with rfl | rfl | rfl <;> simp
  have hvals : ∀ (type : PiMacMsgid), type ≠ .dsIng →
      (s.down ++ [Pi.piSendMsgSsc type []]).filterMap (ingVal f) = downVals f s := by
    intro type ht
    have hno : ingVal f (Pi.piSendMsgSsc type []) = none := by
      rw [ingVal, Pi.piSendMsgSsc, msgType_msgInfo_self]
      refine if_neg ?_
      revert ht
      cases type <;> decide
    rw [List.filterMap_append, List.filterMap_cons_none hno]
    exact List.append_nil _
  have hdown := h.down
  simp only [shakeStep] at hs
  split at hs
  · rename_i tmp hds
    obtain rfl := Option.some.inj hs
    rw [hds] at hdown
    refine ⟨h.registered, htypes _ _ (.inl rfl), h.valPi, h.valSsc, ?_, hup,
      fun _ hd => by cases hd⟩
    rw [downVals, hvals .dsStart (by decide)]
    exact ⟨hdown.1, hdown.2.2⟩
  · rename_i tmp hds
    obtain rfl := Option.some.inj hs
    rw [hds] at hdown
    obtain ⟨⟨hnil, hst⟩, hsent⟩ := hdown
    refine ⟨h.registered, htypes _ _ (.inr (.inl rfl)), h.valPi, h.valSsc,
      .inl ⟨f.ofConf tmp, ?_, hsent, hst⟩, hup, fun _ hd => by cases hd⟩
    rw [downVals, List.filterMap_append, List.filterMap_cons_some (ingVal_ing tmp), ← downVals,
      hnil]
    rfl
  · rename_i hds
    obtain rfl := Option.some.inj hs
    rw [hds] at hdown
    refine ⟨h.registered, htypes _ _ (.inr (.inr rfl)), h.valPi, h.valSsc, ?_, hup,
      fun _ hd => by cases hd⟩
    rw [downVals, hvals .dsEnd (by decide)]
    exact hdown
  · cases hs

theorem downVals_cons {m : List U8} {down : List (List U8)} (h : s.down = m :: down) :
    downVals f s = (ingVal f m).toList ++ down.filterMap (ingVal f) := by
  rw [downVals, h, filterMap_cons_toList]

/-- The handlers of PI's transfer: the start and the end leave the settings, the rest is a store. -/
theorem sscRecePiDs_ssc {mem : ℕ → Bool} {m : List U8} {ssc : Ssc.MacOpraClass}
    {out : List Ssc.SsInfo} (hr : Ssc.Registered s.ssc) (hf : f.Shared) {type : PiMacMsgid}
    (hty : msgType m = type.val) (ht : type = .dsStart ∨ type = .dsIng ∨ type = .dsEnd)
    (hrun : Ssc.sscRecevieMsgPi env mem m s.ssc = .ok (ssc, out)) :
    Ssc.Registered ssc ∧ f.ofSsc ssc = (ingVal f m).getD (f.ofSsc s.ssc) := by
  rw [Ssc.sscRecevieMsgPi_type hr mem hty] at hrun
  have hno : type ≠ .dsIng → ingVal f m = none := fun hne => if_neg fun h => by
    have hval : type.val = PiMacMsgid.dsIng.val := hty.symm.trans h
    revert hval hne
    cases type <;> decide
  rcases ht with rfl | rfl | rfl
  · obtain ⟨rfl, -⟩ := Prod.mk.inj (Except.ok.inj hrun)
    rw [hno (by decide)]
    exact ⟨hr, rfl⟩
  · simp only [Ssc.sscHandler, Ssc.SscMacFunc.call, Ssc.sscRecePiDsData] at hrun
    rcases hlock : Ssc.pthreadMutexLock s.ssc with e | db
    · rw [hlock] at hrun
      cases hrun
    · rw [hlock] at hrun
      obtain ⟨-, rfl⟩ := Ssc.lock_eq hlock
      obtain ⟨rfl, -⟩ := Prod.mk.inj (Except.ok.inj hrun)
      rw [ingVal, if_pos hty]
      refine ⟨hr, ?_⟩
      cases f with
      | age => rfl
      | port i => exact if_pos hf
  · obtain ⟨rfl, -⟩ := Prod.mk.inj (Except.ok.inj hrun)
    rw [hno (by decide)]
    exact ⟨hr, rfl⟩

theorem ShakeInv.sscRecv (h : ShakeInv f es s t) (hf : f.Shared) {type : PiMacMsgid}
    {mem : ℕ → Bool} (hs : shakeStep env s (.sscRecv type mem) = some s') :
    ∃ t', Moves f (.sscRecv type mem) t t' ∧ ShakeInv f (es ++ [.sscRecv type mem]) s' t' := by
  simp only [shakeStep] at hs
  split at hs
  · rename_i thread m down hsync hdown
    split_ifs at hs with hty
    split at hs
    · cases hs
    rename_i ssc out hrun
    obtain rfl := Option.some.inj hs
    have ht : type = .dsStart ∨ type = .dsIng ∨ type = .dsEnd := by
      have hm := h.downTypes m (hdown ▸ .head _)
      rw [hty] at hm
      revert hm
      cases type <;> decide
    obtain ⟨hr, hssc⟩ := sscRecePiDs_ssc h.registered hf hty ht hrun
    have hup := h.up.mono fun hl => hl.concat (.sscRecv type mem)
    have htypes := fun m' (hm' : m' ∈ down) => h.downTypes m' (hdown ▸ .tail _ hm')
    have hfetch : s.sync ≠ none → s.ds = none →
        (∃ m ∈ s.up ++ s.msgHead, msgType m = SscMacMsgid.macFetch.val)
          ∨ Failed (es ++ [.sscRecv type mem]) :=
      fun hsync hds => (h.fetch hsync hds).imp id fun hl => hl.concat _
    have hd := h.down
    rw [downVals_cons hdown] at hd
    by_cases hing : type = .dsIng
    · subst hing
      obtain ⟨v, hv⟩ : ∃ v, ingVal f m = some v := ⟨_, if_pos hty⟩
      rw [hv] at hd hssc
      obtain ⟨hsent, hstored, hdone⟩ := hd.carried
      have hstep : step t (.store false) = some (t.take false v) := by
        simp only [step, Bool.not_false, hsent, hstored]
      refine ⟨_, hstep, hr, htypes, ?_, ?_, ?_, ?_, hfetch⟩
      · rw [take_val, Function.update_of_ne (by decide)]
        exact h.valPi
      · rw [take_val, Function.update_self]
        exact hssc.symm
      · rw [take_stored, Function.update_self]
        exact hdone
      · rw [take_stored, Function.update_of_ne (by decide)]
        exact hup
    · have hno : ingVal f m = none := by
        refine if_neg fun hval => hing ?_
        rw [hty] at hval
        revert hval
        cases type <;> decide
      rw [hno] at hd hssc
      refine ⟨t, ?_, hr, htypes, h.valPi, h.valSsc.trans hssc.symm, hd, hup, hfetch⟩
      revert hing
      cases type <;> simp [Moves, moveOf]
  · cases hs

end Inv

end RookieMac
