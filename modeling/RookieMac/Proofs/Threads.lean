import RookieMac.Threads

/-!
# Calls end, and messages stay whole

The threads of PI and SSC take their mutexes and write to their connections in one order: PI's send
mutex, the connection from PI, SSC's database, SSC's send mutex, the connection to PI, PI's queue,
PI's database. So no call waits for ever, but for the insertion that keeps SSC's database, which in
the end stops all that PI sends. Each connection is written to under one mutex, so what goes out of
one call of a send function stays in one piece.
-/

namespace RookieMac.Threads

open CMem WaitOrder Runs

variable {ι : Type*}

/-! ## The order -/

section Order

def ranks : Ranks (Mutex ι) (Stream ι) where
  mutex
    | .piSend => 1
    | .sscDb _ => 3
    | .sscSend _ => 4
    | .msgMutex => 6
    | .piDb => 7
  conn
    | .down _ => 2
    | .up _ => 5

/-- The mutex a connection is written to under. -/
def guard : Stream ι → Mutex ι
  | .down _ => .piSend
  | .up i => .sscSend i

/-- A call, or a part of one, that takes and writes above the rank. -/
abbrev Fine (n : ℕ) (held : Set (Mutex ι)) (p : Prog ι) : Prop := Sound ranks guard n held p

variable {n : ℕ} {held : Set (Mutex ι)}

theorem fine_locked {r : Mutex ι} {p : Prog ι} (hr : ∀ q ∈ held, ranks.mutex q < ranks.mutex r)
    (hn : n < ranks.mutex r) (h : Fine n (insert r held) p) : Fine n held (locked r p) :=
  Sound.around hr hn h

/-- A mutex taken and released by a thread that holds nothing. -/
theorem fine_locked_nil {r : Mutex ι} (hn : n < ranks.mutex r) : Fine n ∅ (locked r []) :=
  fine_locked (fun _ hq => hq.elim) hn .nil

theorem fine_piSendMsgSsc (type : PiMacMsgid) (msg : List U8) (writes : List (ι × Option ℕ)) :
    Fine 0 ∅ (piSendMsgSsc type msg writes) := by
  refine fine_locked (fun _ hq => hq.elim) Nat.one_pos (.flatMap fun w _ => .writes ?_ ?_ ?_ _)
  · simp [ranks]
  · simp [ranks]
  · simp [guard]

theorem fine_piUpdateLocalDb (mem : Bool) (type : PiMacMsgid) :
    Fine 0 ∅ (piUpdateLocalDb mem type : Prog ι) := by
  have hdb : Fine 0 ∅ (locked .piDb [] : Prog ι) := fine_locked_nil (by simp [ranks])
  cases type <;> simp only [piUpdateLocalDb] <;> first | exact hdb | exact .nil | skip
  split_ifs
  · exact hdb
  · exact .nil

theorem fine_dealReceMsg (mem : Bool) (receMsg : List U8) :
    Fine 0 {.msgMutex} (dealReceMsg mem receMsg : Prog ι) := by
  have hdb : Fine 0 {.msgMutex} (locked .piDb [] : Prog ι) := by
    refine fine_locked ?_ (by simp [ranks]) .nil
    simp [ranks]
  have hadd : Fine 0 {.msgMutex} (piAddLocalDyn mem : Prog ι) := by
    unfold piAddLocalDyn
    split_ifs
    · exact hdb
    · exact .nil
  unfold dealReceMsg piDealDsIng piDealNotifyMsg
  simp only []
  split_ifs <;> first | exact hdb | exact hadd | exact .nil

theorem fine_piRecevieMsgSsc (mem : ℕ → Bool) : Fine 5 ∅ (piRecevieMsgSsc mem : Prog ι) := by
  unfold piRecevieMsgSsc
  split_ifs
  · exact fine_locked_nil (by simp [ranks])
  · exact .nil
  · exact .nil

variable (i : ι)

/-- A send of SSC, by a thread that holds nothing above SSC's database. -/
theorem fine_sscSendMsgPi (hheld : ∀ q ∈ held, ranks.mutex q < 4) (hn : n < 4)
    (type : SscMacMsgid) (msg : List U8) (out : Out) :
    Fine n held (sscSendMsgPi i type msg out) := by
  refine fine_locked hheld hn ?_
  rcases Ssc.sscSendMsgPi out.mem type msg with _ | m
  · exact .nil
  · have hup : 4 < ranks.conn (.up i) := by simp [ranks]
    refine .writes (fun q hq => ?_) (hn.trans hup) (Set.mem_insert _ _) _
    rcases Set.mem_insert_iff.1 hq with rfl | hq
    · exact hup
    · exact (hheld q hq).trans hup

theorem fine_sscSendPiFetch (out : Out) : Fine 2 ∅ (sscSendPiFetch i out) :=
  fine_sscSendMsgPi i (fun _ hq => hq.elim) (by omega) _ _ _

theorem fine_sscDb : Fine 2 ∅ (locked (.sscDb i) []) :=
  fine_locked_nil (by simp [ranks])

theorem fine_sscDsInfo (type : U32) (mem : Bool) (entries : List (PiMacEntry × Out)) :
    Fine 2 ∅ (sscDsInfo i type mem entries) := by
  unfold sscDsInfo
  split_ifs
  · refine fine_locked (fun _ hq => hq.elim) (by simp [ranks]) (.flatMap fun x _ => ?_)
    exact fine_sscSendMsgPi i (by simp [ranks]) (by omega) _ _ _
  · exact .nil

theorem fine_sscDsDataPi (ds : DsOut) : Fine 2 ∅ (sscDsDataPi i ds) := by
  have hsend : ∀ type msg out, Fine 2 ∅ (sscSendMsgPi i type msg out) :=
    fine_sscSendMsgPi i (fun _ hq => hq.elim) (by omega)
  have hconf : Fine 2 ∅ (sscDsConfInfo i ds.confMem ds.confInfo ds.conf) := by
    unfold sscDsConfInfo
    split_ifs
    · exact (fine_sscDb i).append (hsend _ _ _)
    · exact .nil
  exact (hsend _ _ _).append (hconf.append ((fine_sscDsInfo i _ _ _).append
    ((fine_sscDsInfo i _ _ _).append (hsend _ _ _))))

/-- A handler, but for the insertion that finds no memory. -/
theorem fine_call (found mem : Bool) (f : Ssc.SscMacFunc)
    (h : call i found mem f ≠ sscLocalAddAddr i false false) : Fine 2 ∅ (call i found mem f) := by
  cases f with
  | sscAddStaticFunc =>
    unfold call sscLocalAddAddr at h ⊢
    split_ifs with hfound hmem
    · exact fine_sscDb i
    · exact fine_sscDb i
    · simp [hfound, hmem] at h
  | sscRecePiDsStart => exact .nil
  | sscRecePiDsEnd => exact .nil
  | _ => exact fine_sscDb i

theorem fine_prog (c : Call ι) : Fine 0 ∅ c.prog := by
  have hsend : ∀ (i : ι) type msg out, Fine 0 ∅ (sscSendMsgPi i type msg out) :=
    fun i => fine_sscSendMsgPi i (fun _ hq => hq.elim) (by omega)
  cases c with
  | command type msg writes mem =>
    exact (fine_piSendMsgSsc type msg writes).append (fine_piUpdateLocalDb mem type)
  | showMac => exact fine_locked_nil (by simp [ranks])
  | deal receMsgs =>
    refine fine_locked (fun _ hq => hq.elim) (by simp [ranks]) (.flatMap fun m _ => ?_)
    simpa using fine_dealReceMsg m.1 m.2
  | ds k tmp start ing fin =>
    exact (fine_piSendMsgSsc _ _ _).append ((fine_piSendMsgSsc _ _ _).append
      (fine_piSendMsgSsc _ _ _))
  | fetch i out => exact (fine_sscSendPiFetch i out).mono (Nat.zero_le 2)
  | update i k data out => exact (hsend i _ _ _).append ((fine_sscDb i).mono (Nat.zero_le 2))
  | sync i k out => exact (fine_sscDsDataPi i out).mono (Nat.zero_le 2)

end Order

section System

variable (cap : Stream ι → ℕ)

variable {cap}

theorem guarded : WaitOrder.Guarded guard (threads cap) where
  calls := by
    rintro _ _ ⟨c, rfl, rfl⟩
    exact (fine_prog c).keeps
  handles := by
    rintro _ _ (⟨i, mem⟩ | ⟨i, found, mem, f⟩)
    · exact (fine_piRecevieMsgSsc mem).keeps
    · by_cases hrel : call i found mem f = sscLocalAddAddr i false false
      · rw [hrel]
        trivial
      · exact (fine_call i found mem f hrel).keeps

variable [DecidableEq ι] {es : List (Event (Thread ι) (Mutex ι) (Stream ι) U8)}
  {s : State (Thread ι) (Mutex ι) (Stream ι) U8}

end System

/-! ## The streams -/

section Streams

/-- Whole messages, one after the other. -/
def Messages (w : List U8) : Prop :=
  ∃ ms : List (U32 × List U8), w = ms.flatMap fun m => msgInfo m.1 m.2

theorem messages_nil : Messages [] := ⟨[], rfl⟩

theorem Messages.append {w w' : List U8} : Messages w → Messages w' → Messages (w ++ w') := by
  rintro ⟨ms, rfl⟩ ⟨ms', rfl⟩
  exact ⟨ms ++ ms', by rw [List.flatMap_append]⟩

theorem messages_flatten : ∀ {ws : List (List U8)}, (∀ w ∈ ws, Messages w) → Messages ws.flatten
  | [], _ => messages_nil
  | w :: ws, h => by
    rw [List.flatten_cons]
    exact (h w (.head _)).append (messages_flatten fun w' hw' => h w' (.tail _ hw'))

theorem messages_msgInfo (type : U32) (msg : List U8) : Messages (msgInfo type msg) :=
  ⟨[(type, msg)], by simp⟩

variable [DecidableEq ι] {c : Stream ι} {r : Mutex ι}

/-- What a send writes between the lock and the unlock. -/
theorem cut_writes_unlock {α : Type*} (dst : α → Stream ι) (msg : α → List U8) : ∀ xs : List α,
    (∀ x ∈ xs, Messages (msg x)) →
    Messages (cut guard c ((xs.flatMap fun x => (msg x).map (Act.put (dst x))) ++ [.unlock r])).1
      ∧ (cut guard c ((xs.flatMap fun x => (msg x).map (Act.put (dst x))) ++ [.unlock r])).2 = []
  | [], _ => ⟨messages_nil, rfl⟩
  | x :: xs, h => by
    obtain ⟨hfst, hsnd⟩ := cut_writes_unlock dst msg xs fun y hy => h y (.tail _ hy)
    rw [List.flatMap_cons, List.append_assoc, cut_writes]
    refine ⟨Messages.append ?_ hfst, hsnd⟩
    split_ifs
    · exact h x (.head _)
    · exact messages_nil

theorem cuts_puts {c' : Stream ι} (hc : c' ≠ c) (bs : List U8) :
    Cuts guard c Messages (bs.map (.put c') : Prog ι) := by
  have heq : cut guard c (bs.map (.put c') ++ []) = _ := cut_writes c' [] bs
  rw [List.append_nil, if_neg hc] at heq
  refine ⟨by rw [heq]; rfl, fun w hw => ?_⟩
  rw [heq] at hw
  exact absurd hw List.not_mem_nil

theorem cuts_locked {p : Prog ι} (hr : r ≠ guard c) (h : Cuts guard c Messages p) :
    Cuts guard c Messages (locked r p) :=
  Cuts.around hr h

theorem cuts_piSendMsgSsc (type : PiMacMsgid) (msg : List U8) {writes : List (ι × Option ℕ)}
    (hw : ∀ w ∈ writes, w.2 = none) : Cuts guard c Messages (piSendMsgSsc type msg writes) := by
  cases c with
  | up j =>
    refine cuts_locked (by simp [guard]) (.flatMap fun w _ => cuts_puts (by simp) _)
  | down j =>
    obtain ⟨hfst, hsnd⟩ := cut_writes_unlock (c := .down j) (r := .piSend)
      (fun w : ι × Option ℕ => .down w.1)
      (fun w => w.2.elim (Pi.piSendMsgSsc type msg) (Pi.piSendMsgSsc type msg).take) writes
      fun w hmem => by
        rw [hw w hmem]
        exact messages_msgInfo _ _
    refine Cuts.lock hfst fun w hmem => ?_
    exact absurd (hsnd ▸ hmem) List.not_mem_nil

theorem cuts_sscSendMsgPi (i : ι) (type : SscMacMsgid) (msg : List U8) {out : Out}
    (hout : out.failed = none) : Cuts guard c Messages (sscSendMsgPi i type msg out) := by
  by_cases hc : c = .up i
  · subst hc
    unfold sscSendMsgPi locked Ssc.sscSendMsgPi write
    rw [hout]
    split_ifs
    · have heq : cut guard (.up i) ((msgInfo type.val msg).map (.put (.up i))
          ++ [.unlock (.sscSend i)]) = _ := cut_writes _ _ _
      rw [if_pos rfl] at heq
      refine Cuts.lock ?_ fun w hw => ?_
      · show Messages (cut guard (.up i) ((msgInfo type.val msg).map (.put (.up i)) ++ _)).1
        rw [heq]
        exact (messages_msgInfo _ _).append messages_nil
      · have hw : w ∈ (cut guard (.up i) ((msgInfo type.val msg).map (.put (.up i))
            ++ [.unlock (.sscSend i)])).2 := hw
        rw [heq] at hw
        exact absurd hw List.not_mem_nil
    · exact Cuts.lock messages_nil fun _ hw => absurd hw List.not_mem_nil
  · have hr : Mutex.sscSend i ≠ guard c := by
      cases c with
      | down j => simp [guard]
      | up j =>
        intro h
        exact hc (congrArg Stream.up (Mutex.sscSend.inj h).symm)
    refine cuts_locked hr ?_
    rcases Ssc.sscSendMsgPi out.mem type msg with _ | m
    · exact .nil
    · exact cuts_puts (Ne.symm hc) _

theorem cuts_sscDb (i : ι) : Cuts guard c Messages (locked (.sscDb i) [] : Prog ι) :=
  cuts_locked (by cases c <;> simp [guard]) .nil

theorem cuts_piDb : Cuts guard c Messages (locked .piDb [] : Prog ι) :=
  cuts_locked (by cases c <;> simp [guard]) .nil

theorem cuts_piUpdateLocalDb (mem : Bool) (type : PiMacMsgid) :
    Cuts guard c Messages (piUpdateLocalDb mem type : Prog ι) := by
  cases type <;> simp only [piUpdateLocalDb] <;> first | exact cuts_piDb | exact .nil | skip
  split_ifs
  · exact cuts_piDb
  · exact .nil

theorem cuts_dealReceMsg (mem : Bool) (receMsg : List U8) :
    Cuts guard c Messages (dealReceMsg mem receMsg : Prog ι) := by
  have hadd : Cuts guard c Messages (piAddLocalDyn mem : Prog ι) := by
    unfold piAddLocalDyn
    split_ifs
    · exact cuts_piDb
    · exact .nil
  unfold dealReceMsg piDealDsIng piDealNotifyMsg
  simp only []
  split_ifs <;> first | exact cuts_piDb | exact hadd | exact .nil

theorem cuts_sscDsInfo (i : ι) (type : U32) (mem : Bool) {entries : List (PiMacEntry × Out)}
    (h : ∀ x ∈ entries, x.2.failed = none) :
    Cuts guard c Messages (sscDsInfo i type mem entries) := by
  unfold sscDsInfo
  split_ifs
  · refine cuts_locked (by cases c <;> simp [guard]) (.flatMap fun x hx => ?_)
    exact cuts_sscSendMsgPi i _ _ (h x hx)
  · exact .nil

theorem cuts_prog {k : Call ι} (h : k.Whole) : Cuts guard c Messages k.prog := by
  cases k with
  | command type msg writes mem =>
    exact (cuts_piSendMsgSsc type msg h).append (cuts_piUpdateLocalDb mem type)
  | showMac => exact cuts_piDb
  | deal receMsgs =>
    refine cuts_locked (by cases c <;> simp [guard]) (.flatMap fun m _ => ?_)
    exact cuts_dealReceMsg m.1 m.2
  | ds k tmp start ing fin =>
    obtain ⟨hstart, hing, hfin⟩ : (∀ w ∈ start, w.2 = none) ∧ (∀ w ∈ ing, w.2 = none)
        ∧ ∀ w ∈ fin, w.2 = none := by
      simpa only [Call.Whole, List.mem_append, or_imp, forall_and] using h
    exact (cuts_piSendMsgSsc _ _ hstart).append ((cuts_piSendMsgSsc _ _ hing).append
      (cuts_piSendMsgSsc _ _ hfin))
  | fetch i out => exact cuts_sscSendMsgPi i _ _ h
  | update i k data out => exact (cuts_sscSendMsgPi i _ _ h).append (cuts_sscDb i)
  | sync i k out =>
    obtain ⟨hstart, hconf, htables, hfin⟩ := h
    have hconf' : Cuts guard c Messages (sscDsConfInfo i out.confMem out.confInfo out.conf) := by
      unfold sscDsConfInfo
      split_ifs
      · exact (cuts_sscDb i).append (cuts_sscSendMsgPi i _ _ hconf)
      · exact .nil
    have hstat := cuts_sscDsInfo (c := c) i sscStatic out.statMem
      fun x hx => htables x (List.mem_append_left _ hx)
    have hdyn := cuts_sscDsInfo (c := c) i sscDyn out.dynMem
      fun x hx => htables x (List.mem_append_right _ hx)
    exact (cuts_sscSendMsgPi i _ _ hstart).append (hconf'.append (hstat.append (hdyn.append
      (cuts_sscSendMsgPi i _ _ hfin))))

theorem cuts_handles {c' : Stream ι} {p : Prog ι} (h : Handles c' p) :
    Cuts guard c Messages p := by
  cases h with
  | piRecv i mem =>
    unfold piRecevieMsgSsc
    split_ifs
    · exact cuts_locked (by cases c <;> simp [guard]) .nil
    · exact .nil
    · exact .nil
  | sscRecv i found mem f =>
    cases f with
    | sscAddStaticFunc =>
      unfold call sscLocalAddAddr
      have hr : Mutex.sscDb i ≠ guard c := by cases c <;> simp [guard]
      split_ifs
      · exact cuts_sscDb i
      · exact cuts_sscDb i
      · have heq : cut guard c [.lock (.sscDb i)] = (([] : List U8), []) := by
          rw [cut, if_neg hr]
          rfl
        exact ⟨by rw [heq], fun w hw => absurd (heq ▸ hw) List.not_mem_nil⟩
    | sscRecePiDsStart => exact .nil
    | sscRecePiDsEnd => exact .nil
    | _ => exact cuts_sscDb i

variable {cap : Stream ι → ℕ} {es : List (Event (Thread ι) (Mutex ι) (Stream ι) U8)}
  {s : State (Thread ι) (Mutex ι) (Stream ι) U8}

/-- What goes out on a connection is, while its mutex is free, a row of blocks: what each call of the
send function writes is in one piece, and each thread's pieces are in the order of its calls. Where
no write fails they are whole messages. -/
theorem streams_whole (hp : Path (threads cap).step .idle es s)
    (hes : ∀ e ∈ es, (threads cap).Allowed e) (c : Stream ι) :
    ∃ blocks, Serial guard c (threads cap) es blocks s
      ∧ ((∀ t p, .call t p ∈ es → ∃ k : Call ι, k.thread = t ∧ k.prog = p ∧ k.Whole) →
        s.holder (guard c) = none → Messages (s.sent c)) := by
  obtain ⟨blocks, h⟩ := guarded.serial (c := c) hp hes
  refine ⟨blocks, h, fun hwhole hfree => ?_⟩
  have hbegun : ∀ t, ∀ w ∈ begun guard c (threads cap) t es, Messages w := by
    intro t w hw
    obtain ⟨e, he, hw⟩ := List.mem_flatMap.1 hw
    rcases e with ⟨t', p⟩ | ⟨c', k, p⟩ | t'
    · simp only [] at hw
      split_ifs at hw with ht
      · obtain ⟨k, -, rfl, hk⟩ := hwhole t' p he
        exact (cuts_prog hk).snd w hw
      · exact absurd hw List.not_mem_nil
    · simp only [] at hw
      split_ifs at hw with ht
      · exact (cuts_handles (hes _ he)).snd w hw
      · exact absurd hw List.not_mem_nil
    · exact absurd hw List.not_mem_nil
  rw [h.sent]
  refine messages_flatten fun w hw => ?_
  obtain ⟨x, hx, rfl⟩ := List.mem_map.1 hw
  exact h.all hfree hbegun x hx

/-- The request for the configuration goes out between the first and the last message of a
transfer, having waited for the first to be whole. -/
theorem streams_whole_two : ∃ s : State (Thread Unit) (Mutex Unit) (Stream Unit) U8,
    (s.sent (.up ())).length = 24 ∧ Messages (s.sent (.up ())) := by
  let out : Out := ⟨true, none⟩
  let conf : ConfInfo := ⟨0, fun _ => 0⟩
  let sync : Call Unit := .sync () 0 ⟨out, false, conf, out, false, [], false, [], out⟩
  let fetch : Call Unit := .fetch () out
  let es : List (Event (Thread Unit) (Mutex Unit) (Stream Unit) U8) :=
    .call sync.thread sync.prog :: (List.replicate 3 (.run sync.thread)
      ++ .call fetch.thread fetch.prog :: (List.replicate 7 (.run sync.thread)
        ++ (List.replicate 10 (.run fetch.thread) ++ List.replicate 10 (.run sync.thread))))
  have hrun : ((es.foldlM (threads fun _ => 24).step .idle).map fun s =>
      ((s.sent (.up ())).length, s.holder (.sscSend ()))) = some (24, none) := by
    decide +kernel
  obtain ⟨s, hs, hend⟩ := Option.map_eq_some_iff.1 hrun
  obtain ⟨hsent, hfree⟩ := Prod.mk.inj hend
  have hcall : ∀ t p, .call t p ∈ es → ∃ k : Call Unit, k.thread = t ∧ k.prog = p ∧ k.Whole := by
    intro t p he
    simp only [es, List.mem_cons, List.mem_append, List.mem_replicate, Event.call.injEq,
      reduceCtorEq, and_false, false_or, or_false] at he
    rcases he with ⟨rfl, rfl⟩ | ⟨rfl, rfl⟩
    · exact ⟨sync, rfl, rfl, rfl, rfl, nofun, rfl⟩
    · exact ⟨fetch, rfl, rfl, rfl⟩
  have hes : ∀ e ∈ es, (threads fun _ => 24).Allowed e := by
    intro e he
    simp only [es, List.mem_cons, List.mem_append, List.mem_replicate] at he
    rcases he with rfl | ⟨-, rfl⟩ | rfl | ⟨-, rfl⟩ | ⟨-, rfl⟩ | ⟨-, rfl⟩
    · exact ⟨sync, rfl, rfl⟩
    · trivial
    · exact ⟨fetch, rfl, rfl⟩
    · trivial
    · trivial
    · trivial
  obtain ⟨blocks, -, h⟩ := streams_whole (.of_foldlM hs) hes (.up ())
  exact ⟨s, hsent, h hcall hfree⟩

end Streams

end RookieMac.Threads
