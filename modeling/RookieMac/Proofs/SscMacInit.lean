import RookieMac.SscMacInit
import RookieMac.Proofs.StaticTable

/-!
# SSC's initialisation and its communication thread

The thread can dispatch a message before the handler of its type is set, which is a call through a
null pointer, and an address it stores is lost when the head of its bucket is initialised after
that.
-/

namespace RookieMac.Ssc

open CMem Runs Chained

/-- No handler was missing, and the addresses stored are in the table. -/
def Safe (env : SscEnv) : Except Fault InitState → Prop
  | .error _ => False
  | .ok s => ∀ k ∈ s.stored, k ∈ keys (layout env.hash) s.db.staticMacTblHead

/-- A message is dispatched after the handler of its type has been set and, where the handler stores
an address, after the head of the bucket has been initialised. -/
def Ordered (env : SscEnv) : Except Fault InitState → InitEvent → Prop
  | .ok s, .dispatch type mem buff => .sscMacFunc type ∉ s.todo ∧ (Stores type mem →
      .staticMacTblHead (env.hash (addedKey buff).1 (addedKey buff).2) ∉ s.todo)
  | _, _ => True

/-! ## The handlers and the static table -/

section Handlers

variable {env : SscEnv} {db db' : MacOpraClass} {mem : ℕ → Bool} {buff : List U8}

/-- The bucket of the address in a message. -/
def addedBucket (env : SscEnv) (buff : List U8) : Fin hashSize :=
  env.hash (addedKey buff).1 (addedKey buff).2

/-- The static table with the address of a message. -/
def withAdded (env : SscEnv) (buff : List U8) (head : HashTbl) : HashTbl :=
  let entry := BaseStaticMac.read (msgBody buff)
  let port := env.ssCommIfxDbGetPhyid entry.portId
  upsert (sameKey entry.mac entry.vlanId) (setPort port)
    ⟨entry.mac, 0, entry.vlanId, port, staticType⟩ (addedBucket env buff) head

theorem withAdded_spec {head : HashTbl} (h : WF (layout env.hash) head) (buff : List U8) :
    WF (layout env.hash) (withAdded env buff head) ∧
      ∀ k, k ∈ keys (layout env.hash) (withAdded env buff head)
        ↔ k = addedKey buff ∨ k ∈ keys (layout env.hash) head := by
  obtain ⟨hwf, hmap⟩ := sscLocalAddAddr_spec h ⟨(addedKey buff).1, (addedKey buff).2,
    env.ssCommIfxDbGetPhyid (BaseStaticMac.read (msgBody buff)).portId⟩
  refine ⟨hwf, fun k => ?_⟩
  have hmem : k ∈ keys (layout env.hash) (withAdded env buff head) ↔ _ := hwf.mem_keys
  rw [hmem, hmap, h.mem_keys, Function.update_apply]
  by_cases hk : k = addedKey buff
  · exact iff_of_true (by simp [hk]) (.inl hk)
  · have hk' : ¬ k = ((addedKey buff).1, (addedKey buff).2) := hk
    rw [if_neg hk']
    exact ⟨.inr, fun h => h.resolve_left hk⟩

theorem withAdded_ne (head : HashTbl) {i : Fin hashSize} (hi : i ≠ addedBucket env buff) :
    withAdded env buff head i = head i :=
  Function.update_of_ne hi _ _

/-- An addition that does not wait: without memory it finds its key, or adds nothing. -/
theorem sscLocalAddAddr_static {m : Bool} {entry : BaseStaticMac}
    (hrun : sscLocalAddAddr env.hash m entry db = .ok db') :
    db'.sscMacFunc = db.sscMacFunc ∧ (db'.staticMacTblHead = upsert
        (sameKey entry.mac entry.vlanId) (setPort entry.portId)
        ⟨entry.mac, 0, entry.vlanId, entry.portId, staticType⟩
        (env.hash entry.mac entry.vlanId) db.staticMacTblHead
          ∧ (m = false → ∃ x ∈ db.staticMacTblHead (env.hash entry.mac entry.vlanId),
            x.key = (entry.mac, entry.vlanId))
      ∨ m = false ∧ db'.staticMacTblHead = db.staticMacTblHead) := by
  obtain ⟨-, ⟨hmem, rfl⟩ | ⟨rfl, hfound⟩⟩ := sscLocalAddAddr_cases hrun
  · exact ⟨rfl, .inr ⟨hmem, rfl⟩⟩
  · refine ⟨rfl, .inl ⟨rfl, fun hmem => ?_⟩⟩
    obtain ⟨x, hx, hk⟩ := hfound hmem
    exact ⟨x, hx, sameKey_iff.1 hk⟩

theorem delFromDyn_static {p : PiMacEntry → Bool} (hrun : delFromDyn p db = .ok db') :
    db'.sscMacFunc = db.sscMacFunc ∧ db'.staticMacTblHead = db.staticMacTblHead := by
  obtain ⟨-, rfl⟩ := delFromDyn_eq hrun
  exact ⟨rfl, rfl⟩

/-- What a handler that does not wait does to the static table. -/
theorem call_static {type : PiMacMsgid} {out : List SsInfo}
    (hrun : (sscHandler type).call env mem buff db = .ok (db', out)) :
    db'.sscMacFunc = db.sscMacFunc ∧
      (type = .macAddAddr ∧ db'.staticMacTblHead = withAdded env buff db.staticMacTblHead
          ∧ (mem 1 = false → ∃ x ∈ db.staticMacTblHead (addedBucket env buff),
            x.key = addedKey buff)
        ∨ ¬ Stores type mem ∧ db'.staticMacTblHead = db.staticMacTblHead) := by
  have bind_ok : ∀ {x : Except Fault MacOpraClass} {out' : List SsInfo},
      (x >>= fun db => Except.ok (db, out')) = .ok (db', out) → x = .ok db' := by
    intro x out' h
    rcases x with e | db₁
    · cases h
    · obtain ⟨rfl, -⟩ := Prod.mk.inj (Except.ok.inj h)
      rfl
  have other : type ≠ .macAddAddr → db'.sscMacFunc = db.sscMacFunc ∧
        db'.staticMacTblHead = db.staticMacTblHead → db'.sscMacFunc = db.sscMacFunc ∧
      (type = .macAddAddr ∧ db'.staticMacTblHead = withAdded env buff db.staticMacTblHead
          ∧ (mem 1 = false → ∃ x ∈ db.staticMacTblHead (addedBucket env buff),
            x.key = addedKey buff)
        ∨ ¬ Stores type mem ∧ db'.staticMacTblHead = db.staticMacTblHead) :=
    fun hne h => ⟨h.1, .inr ⟨fun hs => hne hs.1, h.2⟩⟩
  have lock_ok : ∀ {f : MacOpraClass → MacOpraClass} {out' : List SsInfo},
      (pthreadMutexLock db >>= fun db => Except.ok (f db, out')) = .ok (db', out) →
      (∀ db, (f db).sscMacFunc = db.sscMacFunc ∧ (f db).staticMacTblHead = db.staticMacTblHead) →
      db'.sscMacFunc = db.sscMacFunc ∧ db'.staticMacTblHead = db.staticMacTblHead := by
    intro f out' h hf
    obtain ⟨rfl, -⟩ := Prod.mk.inj (Except.ok.inj (lock_bind h).2)
    exact hf _
  cases type with
  | macAddAddr =>
    obtain ⟨hfunc, ⟨hstat, hne⟩ | ⟨hm, hstat⟩⟩ := sscLocalAddAddr_static (bind_ok hrun)
    · exact ⟨hfunc, .inl ⟨rfl, hstat, hne⟩⟩
    · exact ⟨hfunc, .inr ⟨fun hs => absurd hs.2 (by simp [hm]), hstat⟩⟩
  | macClearDyn => exact other (by decide) (delFromDyn_static (bind_ok hrun))
  | clearVlanMac => exact other (by decide) (delFromDyn_static (bind_ok hrun))
  | clearInterDyn => exact other (by decide) (delFromDyn_static (bind_ok hrun))
  | macInterLearn => exact other (by decide) (lock_ok hrun fun _ => ⟨rfl, rfl⟩)
  | macAgetime => exact other (by decide) (lock_ok hrun fun _ => ⟨rfl, rfl⟩)
  | dsIng => exact other (by decide) (lock_ok hrun fun _ => ⟨rfl, rfl⟩)
  | dsStart =>
    obtain ⟨rfl, -⟩ := Prod.mk.inj (Except.ok.inj hrun)
    exact other (by decide) ⟨rfl, rfl⟩
  | dsEnd =>
    obtain ⟨rfl, -⟩ := Prod.mk.inj (Except.ok.inj hrun)
    exact other (by decide) ⟨rfl, rfl⟩

/-- An addition that fails waits for the mutex. -/
theorem sscLocalAddAddr_error {m : Bool} {entry : BaseStaticMac} {fault : Fault}
    (hrun : sscLocalAddAddr env.hash m entry db = .error fault) : fault = .deadlock := by
  rcases hm : db.mutex with _ | _
  · rcases m with _ | _
    · rcases sscLocalAddAddr_noMem hm entry with hn | hn
      · cases hn.symm.trans hrun
      · cases (hn.trans (sscLocalAddAddr_ok hm entry)).symm.trans hrun
    · cases (sscLocalAddAddr_ok hm entry).symm.trans hrun
  · simp only [sscLocalAddAddr, lock_held hm, bind, Except.bind] at hrun
    cases hrun
    rfl

theorem delFromDyn_error {p : PiMacEntry → Bool} {fault : Fault}
    (hrun : delFromDyn p db = .error fault) : fault = .deadlock :=
  lock_bind_error hrun

/-- A handler that is called either returns or waits for the mutex. -/
theorem call_error {type : PiMacMsgid} {fault : Fault}
    (hrun : (sscHandler type).call env mem buff db = .error fault) : fault = .deadlock := by
  have bind_error : ∀ {x : Except Fault MacOpraClass} {out : List SsInfo},
      (x >>= fun db => Except.ok (db, out)) = .error fault → x = .error fault := by
    intro x out h
    rcases x with e | db₁
    · cases h
      rfl
    · cases h
  cases type with
  | macAddAddr => exact sscLocalAddAddr_error (bind_error hrun)
  | macClearDyn => exact delFromDyn_error (bind_error hrun)
  | clearVlanMac => exact delFromDyn_error (bind_error hrun)
  | clearInterDyn => exact delFromDyn_error (bind_error hrun)
  | macInterLearn => exact lock_bind_error hrun
  | macAgetime => exact lock_bind_error hrun
  | dsIng => exact lock_bind_error hrun
  | dsStart => cases hrun
  | dsEnd => cases hrun

/-- The dispatch: a call through the entry of the message's type. -/
theorem sscRecevieMsgPi_func {type : PiMacMsgid} (hty : msgType buff = type.val) :
    sscRecevieMsgPi env mem buff db = match db.sscMacFunc (funcIndex type) with
      | some f => f.call env mem buff db
      | none => .error .nullCall := by
  unfold sscRecevieMsgPi
  simp only [hty]
  cases type <;> rfl

end Handlers

/-! ## The order of the initialisation -/

section Order

theorem funcIndex_injective : Function.Injective funcIndex := by
  intro type type' h
  revert h
  cases type <;> cases type' <;> decide

theorem mem_headSteps {is : List (Fin hashSize)} {step : InitStep} : step ∈ headSteps is
    ↔ ∃ i ∈ is, step = .staticMacTblHead i ∨ step = .dynMacTblHead i := by
  simp [headSteps]

theorem headSteps_nodup {is : List (Fin hashSize)} (h : is.Nodup) : (headSteps is).Nodup := by
  induction is with
  | nil => exact List.nodup_nil
  | cons i is ih =>
    obtain ⟨hi, his⟩ := List.nodup_cons.1 h
    have hcons : headSteps (i :: is)
        = .staticMacTblHead i :: .dynMacTblHead i :: headSteps is := rfl
    rw [hcons, List.nodup_cons, List.nodup_cons, List.mem_cons]
    refine ⟨?_, ?_, ih his⟩
    · rintro (hs | hs)
      · cases hs
      · obtain ⟨j, hj, hs | hs⟩ := mem_headSteps.1 hs
        · exact hi (InitStep.staticMacTblHead.inj hs ▸ hj)
        · cases hs
    · intro hs
      obtain ⟨j, hj, hs | hs⟩ := mem_headSteps.1 hs
      · cases hs
      · exact hi (InitStep.dynMacTblHead.inj hs ▸ hj)

theorem mem_operaSteps (type : PiMacMsgid) : .sscMacFunc type ∈ operaSteps := by
  cases type <;> decide

theorem mem_dbSteps {step : InitStep} : step ∈ dbSteps ↔ step = .dynAddrCount
    ∨ step = .staticAddrCount ∨ (∃ i, step = .staticMacTblHead i ∨ step = .dynMacTblHead i)
    ∨ step = .mutex := by
  simp [dbSteps, mem_headSteps]

theorem sscMacFunc_not_mem_dbSteps (type : PiMacMsgid) : .sscMacFunc type ∉ dbSteps := by
  simp [mem_dbSteps]

theorem dbSteps_nodup : dbSteps.Nodup := by
  have hhead := headSteps_nodup (List.nodup_finRange hashSize)
  rw [dbSteps, List.cons_append, List.cons_append, List.nodup_cons, List.nodup_cons,
    List.nodup_append]
  refine ⟨by simp [mem_headSteps], by simp [mem_headSteps], hhead, List.nodup_singleton _, ?_⟩
  intro step hstep step' hstep'
  obtain ⟨i, -, rfl | rfl⟩ := mem_headSteps.1 hstep <;> rw [List.mem_singleton.1 hstep'] <;> simp

theorem initSteps_nodup : (operaSteps ++ dbSteps).Nodup := by
  rw [List.nodup_append]
  refine ⟨by decide, dbSteps_nodup, fun step hstep step' hstep' => ?_⟩
  rintro rfl
  obtain ⟨type, -, rfl⟩ := List.mem_map.1 hstep
  exact sscMacFunc_not_mem_dbSteps type hstep'

end Order

/-! ## Steps -/

/-- What the steps keep. -/
structure InitInv (env : SscEnv) (s : InitState) : Prop where
  nodup : s.todo.Nodup
  func : ∀ type, s.db.sscMacFunc (funcIndex type)
    = if .sscMacFunc type ∈ s.todo then none else some (sscHandler type)
  wf : WF (layout env.hash) s.db.staticMacTblHead
  /-- The table has the addresses stored and no others. -/
  keys_eq : ∀ k, k ∈ keys (layout env.hash) s.db.staticMacTblHead ↔ k ∈ s.stored
  /-- Nothing is in a bucket whose head has still to be initialised. -/
  fresh : ∀ i, .staticMacTblHead i ∈ s.todo → s.db.staticMacTblHead i = []

section Steps

variable {env : SscEnv} {s : InitState} {s' : Except Fault InitState}

theorem InitInv.started (env : SscEnv) : InitInv env .started where
  nodup := initSteps_nodup
  func := fun type => by
    have hmem : .sscMacFunc type ∈ InitState.started.todo :=
      List.mem_append_left _ (mem_operaSteps type)
    rw [if_pos hmem]
    rfl
  wf := WF.empty
  keys_eq := fun k => by simp [InitState.started, MacOpraClass.zero]
  fresh := fun _ _ => rfl

/-- A step of the initialisation. -/
theorem InitInv.init (h : InitInv env s) (hs : initStep env (.ok s) .init = some s') :
    ∃ s₁, s' = .ok s₁ ∧ InitInv env s₁ := by
  simp only [initStep] at hs
  split at hs
  · cases hs
  rename_i step todo htodo
  obtain rfl := Option.some.inj hs
  refine ⟨_, rfl, ?_⟩
  have hnodup := h.nodup
  have hfunc := h.func
  have hfresh := h.fresh
  rw [htodo] at hnodup hfunc hfresh
  obtain ⟨hnot, hnd⟩ := List.nodup_cons.1 hnodup
  have hfresh' : ∀ i, .staticMacTblHead i ∈ todo → s.db.staticMacTblHead i = [] :=
    fun i hi => hfresh i (.tail _ hi)
  have hfunc' : (∀ type, step ≠ .sscMacFunc type) → ∀ type, s.db.sscMacFunc (funcIndex type)
      = if .sscMacFunc type ∈ todo then none else some (sscHandler type) := by
    intro hne type
    simp only [hfunc type, List.mem_cons, (hne type).symm, false_or]
  cases step with
  | sscMacFunc type =>
    refine ⟨hnd, fun type' => ?_, h.wf, h.keys_eq, hfresh'⟩
    rcases eq_or_ne type' type with rfl | hne
    · simp only [InitStep.run, Function.update_self, if_neg hnot]
    · have hidx : funcIndex type' ≠ funcIndex type := fun he => hne (funcIndex_injective he)
      simp only [InitStep.run, Function.update_of_ne hidx, hfunc type', List.mem_cons,
        InitStep.sscMacFunc.injEq, hne, false_or]
  | staticMacTblHead i =>
    have hsame : Function.update s.db.staticMacTblHead i [] = s.db.staticMacTblHead := by
      rw [← hfresh i (.head _), Function.update_eq_self]
    simp only [InitStep.run, hsame]
    exact ⟨hnd, hfunc' (by simp), h.wf, h.keys_eq, hfresh'⟩
  | dynAddrCount => exact ⟨hnd, hfunc' (by simp), h.wf, h.keys_eq, hfresh'⟩
  | staticAddrCount => exact ⟨hnd, hfunc' (by simp), h.wf, h.keys_eq, hfresh'⟩
  | dynMacTblHead i => exact ⟨hnd, hfunc' (by simp), h.wf, h.keys_eq, hfresh'⟩
  | mutex => exact ⟨hnd, hfunc' (by simp), h.wf, h.keys_eq, hfresh'⟩

/-- A dispatch in its order. -/
theorem InitInv.dispatch (h : InitInv env s) {type : PiMacMsgid} {mem : ℕ → Bool} {buff : List U8}
    (ho : Ordered env (.ok s) (.dispatch type mem buff))
    (hs : initStep env (.ok s) (.dispatch type mem buff) = some s') :
    ∃ s₁, s' = .ok s₁ ∧ InitInv env s₁ := by
  simp only [initStep] at hs
  by_cases hcond : s.connected = true ∧ msgType buff = type.val
  swap
  · rw [if_neg hcond] at hs
    cases hs
  have hty := hcond.2
  rw [if_pos hcond, sscRecevieMsgPi_func hty, h.func type, if_neg ho.1] at hs
  simp only [] at hs
  rcases hcall : (sscHandler type).call env mem buff s.db with fault | ⟨db, out⟩
  · obtain rfl := call_error hcall
    rw [hcall] at hs
    cases hs
  rw [hcall] at hs
  obtain rfl := Option.some.inj hs
  refine ⟨_, rfl, ?_⟩
  obtain ⟨hfunc, ⟨rfl, hstat, hfound⟩ | ⟨hno, hstat⟩⟩ := call_static hcall
  · -- the bucket's head has been initialised, for the handler stores or finds the address there
    have hdone : .staticMacTblHead (addedBucket env buff) ∉ s.todo := by
      rcases hm : mem 1 with _ | _
      · intro hi
        obtain ⟨x, hx, -⟩ := hfound hm
        rw [h.fresh _ hi] at hx
        cases hx
      · exact ho.2 ⟨rfl, hm⟩
    obtain ⟨hwf, hkeys⟩ := withAdded_spec h.wf buff
    refine ⟨h.nodup, fun type => ?_, ?_, fun k => ?_, fun i hi => ?_⟩
    · simp only [hfunc, h.func]
    · simp only [hstat]
      exact hwf
    · simp only [hstat]
      rw [hkeys k, h.keys_eq]
      split_ifs with hst
      · rw [List.mem_cons]
      · have hm : mem 1 = false := by
          rcases hm : mem 1 with _ | _
          · rfl
          · exact absurd ⟨rfl, hm⟩ hst
        obtain ⟨x, hx, hk⟩ := hfound hm
        have hmem : addedKey buff ∈ s.stored :=
          (h.keys_eq _).1 ⟨x, mem_entries.2 ⟨_, hx⟩, hk⟩
        exact ⟨fun h => h.elim (fun h => h ▸ hmem) id, .inr⟩
    · have hib : i ≠ addedBucket env buff := by
        rintro rfl
        exact hdone hi
      simp only [hstat]
      rw [withAdded_ne _ hib]
      exact h.fresh i hi
  · refine ⟨h.nodup, fun type => ?_, ?_, fun k => ?_, fun i hi => ?_⟩
    · simp only [hfunc, h.func]
    · simp only [hstat]
      exact h.wf
    · simp only [hstat, if_neg hno]
      exact h.keys_eq k
    · simp only [hstat]
      exact h.fresh i hi

theorem InitInv.next (h : InitInv env s) {e : InitEvent} (ho : Ordered env (.ok s) e)
    (hs : initStep env (.ok s) e = some s') : ∃ s₁, s' = .ok s₁ ∧ InitInv env s₁ := by
  cases e with
  | init => exact h.init hs
  | dispatch type mem buff => exact h.dispatch ho hs
  | connect =>
    simp only [initStep] at hs
    split_ifs at hs
    obtain rfl := Option.some.inj hs
    exact ⟨_, rfl, h.nodup, h.func, h.wf, h.keys_eq, h.fresh⟩
  | close =>
    simp only [initStep] at hs
    split_ifs at hs
    obtain rfl := Option.some.inj hs
    exact ⟨_, rfl, h.nodup, h.func, h.wf, h.keys_eq, h.fresh⟩

/-- A message that comes before its handler is set. -/
theorem InitInv.dispatch_null (h : InitInv env s) {type : PiMacMsgid} {mem : ℕ → Bool}
    {buff : List U8} (hn : .sscMacFunc type ∈ s.todo)
    (hs : initStep env (.ok s) (.dispatch type mem buff) = some s') : s' = .error .nullCall := by
  simp only [initStep] at hs
  by_cases hcond : s.connected = true ∧ msgType buff = type.val
  · rw [if_pos hcond, sscRecevieMsgPi_func hcond.2, h.func type, if_pos hn] at hs
    exact (Option.some.inj hs).symm
  · rw [if_neg hcond] at hs
    cases hs

end Steps

/-! ## An address in a bucket still to be initialised -/

/-- An address has been stored whose bucket's head has still to be initialised. -/
structure Doomed (env : SscEnv) (s : InitState) (k : Key) : Prop where
  wf : WF (layout env.hash) s.db.staticMacTblHead
  func : ∀ type f, s.db.sscMacFunc (funcIndex type) = some f → f = sscHandler type
  stored : k ∈ s.stored
  waits : .staticMacTblHead (env.hash k.1 k.2) ∈ s.todo

section Doomed

variable {env : SscEnv} {s : InitState} {s' : Except Fault InitState} {k : Key}

theorem InitInv.func_eq (h : InitInv env s) (type : PiMacMsgid) (f : SscMacFunc)
    (hf : s.db.sscMacFunc (funcIndex type) = some f) : f = sscHandler type := by
  rw [h.func type] at hf
  split_ifs at hf
  exact (Option.some.inj hf).symm

/-- What a dispatch that goes through changes, in any order of the steps. -/
theorem dispatch_ok {type : PiMacMsgid} {mem : ℕ → Bool} {buff : List U8} {s₁ : InitState}
    (hwf : WF (layout env.hash) s.db.staticMacTblHead)
    (hfunc : ∀ type f, s.db.sscMacFunc (funcIndex type) = some f → f = sscHandler type)
    (hs : initStep env (.ok s) (.dispatch type mem buff) = some (.ok s₁)) :
    WF (layout env.hash) s₁.db.staticMacTblHead ∧ s₁.db.sscMacFunc = s.db.sscMacFunc
      ∧ s₁.todo = s.todo
      ∧ s₁.stored = if Stores type mem then addedKey buff :: s.stored else s.stored := by
  simp only [initStep] at hs
  by_cases hcond : s.connected = true ∧ msgType buff = type.val
  swap
  · rw [if_neg hcond] at hs
    cases hs
  rw [if_pos hcond, sscRecevieMsgPi_func hcond.2] at hs
  rcases hf : s.db.sscMacFunc (funcIndex type) with _ | f
  · rw [hf] at hs
    cases hs
  obtain rfl := hfunc type f hf
  rw [hf] at hs
  simp only [] at hs
  rcases hcall : (sscHandler type).call env mem buff s.db with fault | ⟨db, out⟩
  · obtain rfl := call_error hcall
    rw [hcall] at hs
    cases hs
  rw [hcall] at hs
  obtain rfl := Except.ok.inj (Option.some.inj hs)
  obtain ⟨hfunc', ⟨-, hstat, -⟩ | ⟨-, hstat⟩⟩ := call_static hcall
  · refine ⟨?_, hfunc', rfl, rfl⟩
    simp only [hstat]
    exact (withAdded_spec hwf buff).1
  · refine ⟨?_, hfunc', rfl, rfl⟩
    simp only [hstat]
    exact hwf

/-- Until the head is initialised it stays so, and then the address is lost. -/
theorem Doomed.next (h : Doomed env s k) {e : InitEvent}
    (hs : initStep env (.ok s) e = some s') (hsafe : Safe env s') :
    ∃ s₁, s' = .ok s₁ ∧ Doomed env s₁ k := by
  rcases s' with fault | s₁
  · exact hsafe.elim
  refine ⟨s₁, rfl, ?_⟩
  cases e with
  | dispatch type mem buff =>
    obtain ⟨hwf, hfunc, htodo, hstored⟩ := dispatch_ok h.wf h.func hs
    refine ⟨hwf, hfunc ▸ h.func, ?_, htodo ▸ h.waits⟩
    rw [hstored]
    split_ifs
    · exact .tail _ h.stored
    · exact h.stored
  | connect =>
    simp only [initStep] at hs
    split_ifs at hs
    obtain rfl := Except.ok.inj (Option.some.inj hs)
    exact ⟨h.wf, h.func, h.stored, h.waits⟩
  | close =>
    simp only [initStep] at hs
    split_ifs at hs
    obtain rfl := Except.ok.inj (Option.some.inj hs)
    exact ⟨h.wf, h.func, h.stored, h.waits⟩
  | init =>
    simp only [initStep] at hs
    split at hs
    · cases hs
    rename_i step todo htodo
    obtain rfl := Except.ok.inj (Option.some.inj hs)
    have hwaits := h.waits
    rw [htodo, List.mem_cons] at hwaits
    cases step with
    | staticMacTblHead i =>
      refine ⟨h.wf.clear i, h.func, h.stored, hwaits.resolve_left fun hi => ?_⟩
      obtain rfl := InitStep.staticMacTblHead.inj hi
      exact h.wf.not_mem_keys_clear k (hsafe k h.stored)
    | sscMacFunc type =>
      refine ⟨h.wf, fun type' f hf => ?_, h.stored, hwaits.resolve_left (by simp)⟩
      rcases eq_or_ne type' type with rfl | hne
      · simp only [InitStep.run, Function.update_self] at hf
        exact (Option.some.inj hf).symm
      · have hidx : funcIndex type' ≠ funcIndex type := fun he => hne (funcIndex_injective he)
        simp only [InitStep.run, Function.update_of_ne hidx] at hf
        exact h.func type' f hf
    | dynAddrCount => exact ⟨h.wf, h.func, h.stored, hwaits.resolve_left (by simp)⟩
    | staticAddrCount => exact ⟨h.wf, h.func, h.stored, hwaits.resolve_left (by simp)⟩
    | dynMacTblHead i => exact ⟨h.wf, h.func, h.stored, hwaits.resolve_left (by simp)⟩
    | mutex => exact ⟨h.wf, h.func, h.stored, hwaits.resolve_left (by simp)⟩

/-- Where no state of a run is unsafe, the initialisation has not come to the head. -/
theorem Doomed.run {s₁ : Except Fault InitState} {es : List InitEvent}
    (hp : Path (initStep env) s₁ es s') : ∀ s, s₁ = .ok s → Doomed env s k →
    (∀ pre s₂, pre <+: es → Path (initStep env) s₁ pre s₂ → Safe env s₂) →
    ∃ s₂, s' = .ok s₂ ∧ Doomed env s₂ k := by
  induction hp with
  | nil s₁ => exact fun s hs h _ => ⟨s, hs, h⟩
  | @cons s₁ s₂ s' e es hstep hp ih =>
    rintro s rfl h hsafe
    have hone : [e] <+: e :: es := List.cons_prefix_cons.2 ⟨rfl, List.nil_prefix⟩
    obtain ⟨s₃, rfl, h₃⟩ := h.next hstep (hsafe [e] s₂ hone (.single hstep))
    refine ih s₃ rfl h₃ fun pre s₂ hpre hp₂ => ?_
    exact hsafe (e :: pre) s₂ (List.cons_prefix_cons.2 ⟨rfl, hpre⟩) (.cons hstep hp₂)

end Doomed

/-! ## Runs -/

section Runs

variable {env : SscEnv}

theorem InitInv.safe {s : InitState} (h : InitInv env s) : Safe env (.ok s) :=
  fun k hk => (h.keys_eq k).2 hk

/-- A dispatch out of its order makes a state unsafe by the end of the initialisation. -/
theorem InitInv.breaks {s : InitState} {s₁ s' : Except Fault InitState} {e : InitEvent}
    {es : List InitEvent} (h : InitInv env s) (ho : ¬ Ordered env (.ok s) e)
    (hstep : initStep env (.ok s) e = some s₁) (hp : Path (initStep env) s₁ es s')
    (hdone : ∀ s₂, s' = .ok s₂ → s₂.todo = []) :
    ¬ ∀ pre s₂, pre <+: es → Path (initStep env) s₁ pre s₂ → Safe env s₂ := by
  intro hsafe
  cases e with
  | dispatch type mem buff =>
    by_cases hn : .sscMacFunc type ∈ s.todo
    · obtain rfl := h.dispatch_null hn hstep
      exact hsafe [] _ List.nil_prefix (.nil _)
    · obtain ⟨hst, hwaits⟩ : Stores type mem
          ∧ .staticMacTblHead (addedBucket env buff) ∈ s.todo := by
        by_contra hno
        exact ho ⟨hn, fun hst hi => hno ⟨hst, hi⟩⟩
      rcases s₁ with fault | s₁
      · exact hsafe [] _ List.nil_prefix (.nil _)
      obtain ⟨hwf, hfunc, htodo, hstored⟩ := dispatch_ok h.wf h.func_eq hstep
      have hdoomed : Doomed env s₁ (addedKey buff) := by
        refine ⟨hwf, hfunc ▸ h.func_eq, ?_, htodo ▸ hwaits⟩
        rw [hstored, if_pos hst]
        exact .head _
      obtain ⟨s₂, rfl, h₂⟩ := hdoomed.run hp s₁ rfl hsafe
      have hlast := h₂.waits
      rw [hdone s₂ rfl] at hlast
      cases hlast
  | _ => exact ho trivial

/-- Where every message is dispatched in its order, no dispatch calls a missing handler and no
stored address leaves the table; and in no other run in which the initialisation gets to its end. -/
theorem init_safe_iff (env : SscEnv) {es : List InitEvent} {s : Except Fault InitState}
    (hp : Path (initStep env) (.ok .started) es s) :
    (EachStep (initStep env) (Ordered env) (.ok .started) es →
        ∀ pre s₁, pre <+: es → Path (initStep env) (.ok .started) pre s₁ → Safe env s₁)
      ∧ ((∀ s₁, s = .ok s₁ → s₁.todo = []) →
        (∀ pre s₁, pre <+: es → Path (initStep env) (.ok .started) pre s₁ → Safe env s₁) →
        EachStep (initStep env) (Ordered env) (.ok .started) es) := by
  have hI : ∀ s, (∃ s₁, s = .ok s₁ ∧ InitInv env s₁) → Safe env s := by
    rintro _ ⟨s, rfl, h⟩
    exact h.safe
  have hgood : ∀ s e s', (∃ s₁, s = .ok s₁ ∧ InitInv env s₁) → True → Ordered env s e →
      initStep env s e = some s' → ∃ s₁, s' = .ok s₁ ∧ InitInv env s₁ := by
    rintro _ e s' ⟨s, rfl, h⟩ - ho hstep
    exact h.next ho hstep
  have hbad : ∀ s e s₁ es s', (∃ s₁, s = .ok s₁ ∧ InitInv env s₁) → True → ¬ Ordered env s e →
      initStep env s e = some s₁ → Path (initStep env) s₁ es s' →
      (∀ s₂, s' = .ok s₂ → s₂.todo = []) →
      ¬ ∀ pre s₂, pre <+: es → Path (initStep env) s₁ pre s₂ → Safe env s₂ := by
    rintro _ e s₁ es s' ⟨s, rfl, h⟩ - ho hstep hp hdone
    exact h.breaks ho hstep hp hdone
  refine ⟨hp.always_of_each hI hgood ⟨_, rfl, .started env⟩ (eachStep_true _ _), fun hdone => ?_⟩
  exact (hp.always_iff_of_last hI hgood hbad hdone ⟨_, rfl, .started env⟩ (eachStep_true _ _)).1

/-- Assignments of the initialisation one after another. -/
theorem init_path (env : SscEnv) (post : List InitStep) : ∀ (pre : List InitStep) (s : InitState),
    s.todo = pre ++ post →
    Path (initStep env) (.ok s) (pre.map fun _ => .init)
        (.ok { s with db := pre.foldl InitStep.run s.db, todo := post })
      ∧ EachStep (initStep env) (Ordered env) (.ok s) (pre.map fun _ => .init)
  | [], ⟨db, todo, connected, stored⟩, h => by
    obtain rfl : todo = post := h
    exact ⟨.nil _, trivial⟩
  | step :: pre, s, h => by
    have hstep : initStep env (.ok s) .init
        = some (.ok { s with db := step.run s.db, todo := pre ++ post }) := by
      simp only [initStep, h, List.cons_append]
    obtain ⟨hp, ho⟩ := init_path env post pre { s with db := step.run s.db, todo := pre ++ post } rfl
    exact ⟨.cons hstep hp, .cons hstep trivial ho⟩

/-- The address of a message whose handler is set, in a table the mutex is free of. -/
theorem dispatch_path (env : SscEnv) {s : InitState} (hm : s.db.mutex = false)
    (hreg : Registered s.db) (hconn : s.connected = true) (tmp : BaseStaticMac) :
    ∃ s', initStep env (.ok s) (.dispatch .macAddAddr (fun _ => true)
        (Pi.piSendMsgSsc .macAddAddr tmp.bytes)) = some (.ok s')
      ∧ s'.todo = s.todo ∧ addedKey (Pi.piSendMsgSsc .macAddAddr tmp.bytes) ∈ s'.stored := by
  have hty : msgType (Pi.piSendMsgSsc .macAddAddr tmp.bytes) = PiMacMsgid.macAddAddr.val :=
    msgType_msgInfo_self _ _
  have hst : Stores .macAddAddr fun _ => true := ⟨rfl, rfl⟩
  obtain ⟨db', hcall⟩ : ∃ db', ((sscHandler .macAddAddr).call env (fun _ => true)
      (Pi.piSendMsgSsc .macAddAddr tmp.bytes) s.db).map Prod.fst = .ok db' :=
    ⟨_, sscAddStaticFunc_ok hm tmp⟩
  simp only [initStep]
  rw [if_pos ⟨hconn, hty⟩, sscRecevieMsgPi_type hreg _ hty]
  rcases hrun : (sscHandler .macAddAddr).call env (fun _ => true)
    (Pi.piSendMsgSsc .macAddAddr tmp.bytes) s.db with e | ⟨db, out⟩
  · rw [hrun] at hcall
    cases hcall
  · refine ⟨_, rfl, rfl, ?_⟩
    rw [if_pos hst]
    exact .head _

/-- The assignments up to the head of a bucket, and those after it. -/
theorem exists_split (i : Fin hashSize) : ∃ is is' : List (Fin hashSize),
    operaSteps ++ dbSteps = (operaSteps ++ .dynAddrCount :: .staticAddrCount :: headSteps is)
        ++ (headSteps is' ++ [.mutex])
      ∧ .staticMacTblHead i ∉ headSteps is' ++ [.mutex]
      ∧ ∀ type, .sscMacFunc type ∉ headSteps is' ++ [.mutex] := by
  obtain ⟨is, is', his⟩ := List.mem_iff_append.1 (List.mem_finRange i)
  have hnd := List.nodup_finRange hashSize
  rw [his, List.nodup_append, List.nodup_cons] at hnd
  refine ⟨is ++ [i], is', ?_, ?_, ?_⟩
  · rw [dbSteps, his, List.append_cons]
    simp [headSteps]
  · simpa [headSteps] using hnd.2.1.1
  · simp [headSteps]

/-- A message with an address between two assignments of the initialisation. -/
theorem init_store_path (env : SscEnv) (tmp : BaseStaticMac) : ∃ pre post s,
    let buff := Pi.piSendMsgSsc .macAddAddr tmp.bytes
    let es : List InitEvent := (pre.map fun _ => .init)
      ++ .connect :: .dispatch .macAddAddr (fun _ => true) buff :: post.map fun _ => .init
    pre ++ post = operaSteps ++ dbSteps ∧ post ≠ []
      ∧ Path (initStep env) (.ok .started) es (.ok s)
      ∧ EachStep (initStep env) (Ordered env) (.ok .started) es
      ∧ s.todo = [] ∧ addedKey buff ∈ s.stored := by
  set buff := Pi.piSendMsgSsc .macAddAddr tmp.bytes
  obtain ⟨is, is', hsplit, hhead, hfunc⟩ := exists_split (addedBucket env buff)
  set pre := operaSteps ++ .dynAddrCount :: .staticAddrCount :: headSteps is
  set post := headSteps is' ++ [InitStep.mutex]
  obtain ⟨hp, ho⟩ := init_path env post pre .started hsplit
  have hdb : pre.foldl InitStep.run .zero = sscMacOperaInit .zero := by
    have hempty : (fun i => if i ∈ is then ([] : List PiMacEntry) else []) = Chained.empty :=
      funext fun _ => ite_self []
    rw [List.foldl_append, operaSteps_run, List.foldl_cons, List.foldl_cons, headSteps_run]
    exact congrArg (fun t =>
      { sscMacOperaInit .zero with staticMacTblHead := t, dynMacTblHead := t }) hempty
  rw [show InitState.started.db = .zero from rfl, hdb] at hp
  set db := sscMacOperaInit .zero
  have hconn : initStep env (.ok ⟨db, post, false, []⟩) .connect
      = some (.ok ⟨db, post, true, []⟩) := rfl
  obtain ⟨s, hadd, htodo, hk⟩ := dispatch_path env (s := ⟨db, post, true, []⟩) rfl rfl rfl tmp
  obtain ⟨hp', ho'⟩ := init_path env [] post s (htodo.trans (List.append_nil _).symm)
  refine ⟨pre, post, _, hsplit.symm, by simp [post], hp.append (.cons hconn (.cons hadd hp')),
    ho.append hp (.cons hconn trivial (.cons hadd ⟨hfunc _, fun _ => hhead⟩ ho')), rfl, hk⟩

/-- In that run the address of the message is in the table. -/
theorem init_safe_iff_between : ∃ pre post buff s k,
    Path (initStep littleEnv) (.ok .started) ((pre.map fun _ => .init)
        ++ .connect :: .dispatch .macAddAddr (fun _ => true) buff :: post.map fun _ => .init) (.ok s)
      ∧ pre ++ post = operaSteps ++ dbSteps ∧ post ≠ [] ∧ s.todo = [] ∧ k ∈ s.stored
      ∧ Safe littleEnv (.ok s) := by
  obtain ⟨pre, post, s, hall, hpost, hp, ho, htodo, hk⟩ :=
    init_store_path littleEnv ⟨.replicate macLen 2, 1, 3⟩
  have hsafe := (init_safe_iff littleEnv hp).1 ho
  exact ⟨pre, post, _, s, _, hp, hall, hpost, htodo, hk, hsafe _ _ List.prefix_rfl hp⟩

/-- A message comes before any handler is set. -/
theorem init_null_call : ∃ es s, Path (initStep littleEnv) (.ok .started) es s
    ∧ ¬ Safe littleEnv s := by
  refine ⟨[.connect, .dispatch .dsStart (fun _ => true) (Pi.piSendMsgSsc .dsStart [])],
    .error .nullCall, ?_, id⟩
  exact .cons rfl (.single rfl)

end Runs

end RookieMac.Ssc
