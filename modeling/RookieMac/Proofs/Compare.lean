import RookieMac.Proofs.PiTable
import RookieMac.Proofs.SscTable
import RookieMac.MacMap

/-!
# Where `strncmp` looks for an entry

SSC's dynamic insertion and PI's deletion look for their entry with a comparison that ends at a zero
byte of the MAC. The insertion is the update of its key, and the deletion the removal of its entry,
exactly when no other entry of the bucket is found in its place.
-/

namespace RookieMac

open CMem Chained

/-! ## SSC's insertion -/

namespace Ssc

variable {hash : HashFn}

/-- The dynamic table never binds two alike keys: the second would have been taken for the first. -/
structure DynInv (hash : HashFn) (head : HashTbl) : Prop where
  wf : WF (layout hash) head
  noClash : MacMap.NoClash hash (toMap (layout hash) head)

theorem bound_filter {head : HashTbl} (h : WF (layout hash) head)
    (q : Fin hashSize → PiMacEntry → Bool) {k : Key}
    (hk : toMap (layout hash) (fun i => (head i).filter (q i)) k ≠ none) :
    toMap (layout hash) head k ≠ none := by
  rw [(h.filter q).toMap_isSome] at hk
  obtain ⟨x, hx, hxk⟩ := hk
  obtain ⟨i, hi⟩ := mem_entries.1 hx
  exact h.toMap_isSome.2 ⟨x, mem_entries.2 ⟨i, (List.mem_filter.1 hi).1⟩, hxk⟩

theorem DynInv.filter {head : HashTbl} (h : DynInv hash head)
    (q : Fin hashSize → PiMacEntry → Bool) : DynInv hash fun i => (head i).filter (q i) :=
  ⟨h.wf.filter q, h.noClash.of_bound fun _ hk => bound_filter h.wf q hk⟩

/-- An alike key that is bound is found. -/
theorem sameKeyDyn_of_bound {head : HashTbl} (h : WF (layout hash) head) {e : PiMacEntry} {k : Key}
    (hk : toMap (layout hash) head k ≠ none) (ha : Alike hash k e.key) :
    ∃ x ∈ head (hash e.mac e.vlanId), x.key = k ∧ sameKeyDyn e x = true := by
  obtain ⟨p, hp⟩ := Option.ne_none_iff_exists'.1 hk
  obtain ⟨x, hx, rfl, -⟩ := exists_of_toMap h hp
  have hi : hash x.key.1 x.key.2 = hash e.mac e.vlanId := ha.1
  rw [hi] at hx
  exact ⟨x, hx, rfl, sameKeyDyn_iff.2 ha.2⟩

theorem DynInv.upsert {head : HashTbl} (h : DynInv hash head) (e : PiMacEntry) :
    DynInv hash (Chained.upsert (sameKeyDyn e) (setPort e.portId) e (hash e.mac e.vlanId) head) := by
  obtain ⟨hwf, ⟨hno, hmap⟩ | ⟨a, ha, -, hmap⟩⟩ := sscAddDynAddr_spec h.wf e
  · refine ⟨hwf, ?_⟩
    -- no bound key is alike to the new one
    have hnew : ∀ k, toMap (layout hash) head k ≠ none → ¬ Alike hash k e.key := by
      intro k hk hal
      obtain ⟨x, hx, -, hs⟩ := sameKeyDyn_of_bound h.wf hk hal
      rw [hno x hx] at hs
      cases hs
    intro k k' hk hk' hal
    rw [hmap] at hk hk'
    rcases eq_or_ne k e.key with rfl | hke <;> rcases eq_or_ne k' e.key with rfl | hke'
    · rfl
    · rw [Function.update_of_ne hke'] at hk'
      exact absurd hal.symm (hnew k' hk')
    · rw [Function.update_of_ne hke] at hk
      exact absurd hal (hnew k hk)
    · rw [Function.update_of_ne hke] at hk
      rw [Function.update_of_ne hke'] at hk'
      exact h.noClash k k' hk hk' hal
  · refine ⟨hwf, h.noClash.of_bound fun k hk => ?_⟩
    rcases eq_or_ne k a.key with rfl | hka
    · exact h.wf.toMap_isSome.2 ⟨a, mem_entries.2 ⟨_, ha⟩, rfl⟩
    · rwa [hmap, Function.update_of_ne hka] at hk

theorem sscRun_dynInv {db₀ db : MacOpraClass} {ops : List SscOp}
    (hr : sscRun hash db₀ ops = .ok db) : DynInv hash db.dynMacTblHead := by
  have hstep : ∀ (db : MacOpraClass) (op : SscOp) (db' : MacOpraClass),
      DynInv hash db.dynMacTblHead → op.run hash db = .ok db' → DynInv hash db'.dynMacTblHead := by
    intro db op db' h hr
    rcases op.run_dyn hr with heq | ⟨e, heq⟩ | ⟨q, heq⟩ <;> rw [heq]
    · exact h
    · exact h.upsert e
    · exact h.filter q
  refine Runs.foldlM_invariant (I := fun db => DynInv hash db.dynMacTblHead) hstep ops _ db ?_ hr
  exact ⟨WF.empty, by rw [sscDbInit, toMap_empty]; exact MacMap.NoClash.none⟩

/-- In every reachable database an insertion binds its key to its port and leaves every other key
alone exactly when the mutex is free and no entry of another MAC in its bucket has its VLAN and the
C string of its MAC. -/
theorem dyn_insert_is_update_iff (hash : HashFn) (db₀ : MacOpraClass) (ops : List SscOp)
    (db : MacOpraClass) (hr : sscRun hash db₀ ops = .ok db) (e : PiMacEntry) :
    (∃ db', sscAddDynAddr hash true e db = .ok db' ∧ toMap (layout hash) db'.dynMacTblHead
        = Function.update (toMap (layout hash) db.dynMacTblHead) e.key (some e.portId))
      ↔ db.mutex = false ∧ ∀ x ∈ db.dynMacTblHead (hash e.mac e.vlanId), x.vlanId = e.vlanId →
        cstr x.mac.toList = cstr e.mac.toList → x.mac = e.mac := by
  rcases hm : db.mutex with _ | _
  · have h := sscRun_dynInv hr
    rw [sscAddDynAddr_ok hm]
    simp only [Except.ok.injEq, exists_eq_left', true_and]
    obtain ⟨-, ⟨hno, hmap⟩ | ⟨a, ha, hs, hmap⟩⟩ := sscAddDynAddr_spec h.wf e
    · refine iff_of_true hmap fun x hx hv hc => ?_
      have := hno x hx
      rw [sameKeyDyn_iff.2 ⟨hc, hv⟩] at this
      cases this
    · obtain ⟨hc, hv⟩ := sameKeyDyn_iff.1 hs
      rw [hmap]
      constructor
      · intro heq x hx hxv hxc
        by_contra hne
        -- the entry found is the only one of the bucket that is alike
        have hbound : ∀ y ∈ db.dynMacTblHead (hash e.mac e.vlanId),
            toMap (layout hash) db.dynMacTblHead y.key ≠ none := fun y hy =>
          h.wf.toMap_isSome.2 ⟨y, mem_entries.2 ⟨_, hy⟩, rfl⟩
        have hxa : x.key = a.key := h.noClash _ _ (hbound x hx) (hbound a ha)
          ⟨(hash_of_mem h.wf hx).trans (hash_of_mem h.wf ha).symm, hxc.trans hc.symm,
            hxv.trans hv.symm⟩
        have hae : e.key ≠ a.key := fun hk => hne (by rw [(Prod.mk.inj (hxa.trans hk.symm)).1])
        have hat := congrFun heq e.key
        rw [Function.update_of_ne hae, Function.update_self] at hat
        have hk := h.noClash _ _ (by rw [hat]; exact Option.some_ne_none _) (hbound a ha)
          ⟨(hash_of_mem h.wf ha).symm, hc.symm, hv.symm⟩
        exact hae hk
      · intro hall
        have hk : a.key = e.key := Prod.ext (hall a ha hv hc) hv
        rw [hk]
  · refine iff_of_false ?_ fun h => Bool.noConfusion h.1
    rintro ⟨db', hok, -⟩
    exact Bool.noConfusion (hm.symm.trans (sscAddDynAddr_cases hok).1)

/-- Two MACs of one bucket that differ in their last byte: the ports of both are bound. -/
theorem dyn_insert_is_update_iff_two :
    let hash := hashFunction .little 0
    let x : PiMacEntry := ⟨#v[2, 0x11, 0x22, 0x33, 0x44, 0x55], 1, 10, 1, 0⟩
    let y : PiMacEntry := ⟨#v[2, 0x11, 0x22, 0x33, 0x44, 0x66], 1, 10, 2, 0⟩
    let db := { sscDbInit .blank with
      dynMacTblHead := Function.update empty (hash y.mac y.vlanId) [x] }
    ∃ db', sscAddDynAddr hash true y db = .ok db'
      ∧ toMap (layout hash) db'.dynMacTblHead
        = Function.update (toMap (layout hash) db.dynMacTblHead) y.key (some 2) := by
  intro hash x y
  have hi : ∀ z ∈ [x], hash z.mac z.vlanId = hash y.mac y.vlanId := by decide
  have hother : cstr x.mac.toList ≠ cstr y.mac.toList := by decide
  have hport : some 2 = some y.portId := rfl
  rw [hport]
  clear_value hash x y
  intro db
  refine (dyn_insert_is_update_iff hash .blank [.sscAddDynAddr true x] db (sscRun_addDyn [x] hi)
    y).2 ⟨rfl, fun z hz _ hc => ?_⟩
  have hchain : db.dynMacTblHead (hash y.mac y.vlanId) = [x] := Function.update_self _ _ _
  rw [hchain] at hz
  obtain rfl := List.mem_singleton.1 hz
  exact absurd hc hother

/-- Two MACs that start with a zero byte: the second is taken for the first. -/
theorem dyn_insert_overwrites :
    let hash := hashFunction .little 0
    let a : PiMacEntry := ⟨#v[0x00, 0x11, 0x22, 0x33, 0x44, 0x55], 1, 10, 1, 0⟩
    let b : PiMacEntry := ⟨#v[0x00, 0x11, 0x22, 0x33, 0x44, 0x66], 1, 10, 2, 0⟩
    let db := { sscDbInit .blank with
      dynMacTblHead := Function.update empty (hash a.mac a.vlanId) [a] }
    sscRun hash .blank [.sscAddDynAddr true a] = .ok db
      ∧ ¬ ∃ db', sscAddDynAddr hash true b db = .ok db' ∧ toMap (layout hash) db'.dynMacTblHead
        = Function.update (toMap (layout hash) db.dynMacTblHead) b.key (some b.portId) := by
  intro hash a b db
  refine ⟨rfl, ?_⟩
  rintro ⟨db', hok, hmap⟩
  rw [sscAddDynAddr_ok rfl, Except.ok.injEq] at hok
  subst hok
  have hat := congrFun hmap b.key
  revert hat
  decide

end Ssc

/-! ## PI's deletion -/

namespace Pi

variable {hash : HashFn} {head : HashTbl} {e x : PiMacEntry}

/-- The entry has the six MAC bytes, the VLAN and the port of `e`. -/
def SameEntry (e x : PiMacEntry) : Prop :=
  x.mac = e.mac ∧ x.vlanId = e.vlanId ∧ x.portId = e.portId

instance : DecidableRel SameEntry := fun _ _ => inferInstanceAs (Decidable (_ ∧ _))

/-- The deletion says whether the table holds the entry, removes it and nothing else, and changes
nothing where the table does not hold it; so a deletion takes no other station's address. -/
structure DeletesExactly (hash : HashFn) (head : HashTbl) (e : PiMacEntry) : Prop where
  succ_iff : (delHashEntry hash e head).1 = SUCC ↔ ∃ x ∈ entries head, SameEntry e x
  removed : (∃ x ∈ entries head, SameEntry e x) →
    (delHashEntry hash e head).2 = fun i => (head i).filter fun x => !decide (SameEntry e x)
  unchanged : (¬ ∃ x ∈ entries head, SameEntry e x) → (delHashEntry hash e head).2 = head
  station : ∀ db : PiDbMacInfo, db.dynMacTblHead = head → ∀ x ∈ entries head,
    x ∉ entries (piDelLocalDyn hash e db).dynMacTblHead → x.key = e.key

theorem sameEntryDel_of_same (h : SameEntry e x) : sameEntryDel e x = true := by
  obtain ⟨hm, hv, hp⟩ := h
  rw [sameEntryDel, decide_eq_true_eq, strncmp_eq_zero_iff (by simp) (by simp), hm]
  exact ⟨rfl, hv, hp⟩

theorem mem_chain_of_same (h : WF (layout hash) head) (hx : x ∈ entries head)
    (hs : SameEntry e x) : x ∈ head (hash e.mac e.vlanId) := by
  obtain ⟨i, hi⟩ := mem_entries.1 hx
  have hidx := hash_of_mem h hi
  rw [hs.1, hs.2.1] at hidx
  exact hidx ▸ hi

/-- Without its first match, which is the entry itself, the chain has lost that entry only. -/
theorem filter_same {l₁ l₂ : List PiMacEntry} {a : PiMacEntry} (h : WF (layout hash) head)
    (hc : head (hash e.mac e.vlanId) = l₁ ++ a :: l₂) (ha : SameEntry e a) :
    (fun i => (head i).filter fun x => !decide (SameEntry e x))
      = Function.update head (hash e.mac e.vlanId) (l₁ ++ l₂) := by
  funext i
  rcases eq_or_ne i (hash e.mac e.vlanId) with rfl | hi
  · have hnd := h.nodup (hash e.mac e.vlanId)
    rw [hc, List.map_append, List.map_cons, List.nodup_middle, List.nodup_cons,
      ← List.map_append] at hnd
    have hother : ∀ y ∈ l₁ ++ l₂, ¬ SameEntry e y := by
      intro y hy hs
      refine hnd.1 (List.mem_map.2 ⟨y, hy, ?_⟩)
      exact Prod.ext (hs.1.trans ha.1.symm) (hs.2.1.trans ha.2.1.symm)
    have hall : (l₁ ++ l₂).filter (fun x => !decide (SameEntry e x)) = l₁ ++ l₂ :=
      List.filter_eq_self.2 fun y hy => by simp [hother y hy]
    rw [Function.update_self, hc, List.filter_append, List.filter_cons_of_neg (by simp [ha]),
      ← List.filter_append, hall]
  · rw [Function.update_of_ne hi, List.filter_eq_self]
    intro y hy
    have : ¬ SameEntry e y := fun hs => hi (by rw [← hash_of_mem h hy, hs.1, hs.2.1])
    simp [this]

/-- The first entry the comparison finds, with no match before it. -/
theorem first_match (p : PiMacEntry → Bool) (l : List PiMacEntry) :
    (∀ x ∈ l, p x = false) ∨ ∃ l₁ a l₂, l = l₁ ++ a :: l₂ ∧ (∀ x ∈ l₁, p x = false) ∧ p a = true
      ∧ l.eraseP p = l₁ ++ l₂ := by
  by_cases h : ∃ x ∈ l, p x = true
  · obtain ⟨x, hx, hp⟩ := h
    obtain ⟨a, l₁, l₂, hl₁, ha, hl, he⟩ := List.exists_of_eraseP hx hp
    exact .inr ⟨l₁, a, l₂, hl, fun x hx => by simpa using hl₁ x hx, ha, he⟩
  · push Not at h
    exact .inl fun x hx => by simpa using h x hx

/-- Of two places in a list one comes first. -/
theorem middle_cases {l₁ l₂ m₁ m₂ : List PiMacEntry} {x a : PiMacEntry}
    (h : l₁ ++ x :: l₂ = m₁ ++ a :: m₂) : x = a ∨ a ∈ l₁ ∨ x ∈ m₁ := by
  rcases List.append_eq_append_iff.1 h with ⟨c, hm, hrest⟩ | ⟨c, hl, hrest⟩
  · rcases c with _ | ⟨b, c⟩
    · exact .inl (List.cons.inj hrest).1
    · obtain ⟨rfl, -⟩ := List.cons.inj hrest
      exact .inr (.inr (by simp [hm]))
  · rcases c with _ | ⟨b, c⟩
    · exact .inl (List.cons.inj hrest).1.symm
    · obtain ⟨rfl, -⟩ := List.cons.inj hrest
      exact .inr (.inl (by simp [hl]))

theorem sameEntryDel_cases : sameEntryDel e x = true ↔ cstr x.mac.toList = cstr e.mac.toList
    ∧ x.vlanId = e.vlanId ∧ x.portId = e.portId := by
  simp only [sameEntryDel, decide_eq_true_eq]
  rw [strncmp_eq_zero_iff (by simp) (by simp)]

/-- Where nothing is found nothing is there. -/
theorem deletesExactly_of_none (h : WF (layout hash) head)
    (hno : ∀ x ∈ head (hash e.mac e.vlanId), sameEntryDel e x = false) :
    DeletesExactly hash head e := by
  obtain ⟨h2, h1⟩ := delHashEntry_eq hash e head
  have hnone : ¬ ∃ x ∈ entries head, SameEntry e x := by
    rintro ⟨x, hx, hs⟩
    have := hno x (mem_chain_of_same h hx hs)
    rw [sameEntryDel_of_same hs] at this
    cases this
  have hret : (delHashEntry hash e head).1 ≠ SUCC := by
    rw [h1, if_neg]
    · decide
    · rintro ⟨x, hx, hp⟩
      rw [hno x hx] at hp
      cases hp
  have hsame : (delHashEntry hash e head).2 = head := by
    rw [h2, eraseFirst, List.eraseP_of_forall_not fun x hx => by simp [hno x hx],
      Function.update_eq_self]
  refine ⟨iff_of_false hret hnone, fun hs => absurd hs hnone, fun _ => hsame, ?_⟩
  rintro db rfl x hx hx'
  exact absurd hx (by rwa [← hsame])

section Found

variable {m₁ m₂ : List PiMacEntry} {a : PiMacEntry}

theorem delHashEntry_found (hc : head (hash e.mac e.vlanId) = m₁ ++ a :: m₂)
    (ha : sameEntryDel e a = true)
    (he : (head (hash e.mac e.vlanId)).eraseP (sameEntryDel e) = m₁ ++ m₂) :
    (delHashEntry hash e head).1 = SUCC ∧ (delHashEntry hash e head).2
      = Function.update head (hash e.mac e.vlanId) (m₁ ++ m₂) := by
  obtain ⟨h2, h1⟩ := delHashEntry_eq hash e head
  refine ⟨by rw [h1, if_pos ⟨a, by simp [hc], ha⟩], by rw [h2, eraseFirst, he]⟩

theorem deletesExactly_of_own (h : WF (layout hash) head)
    (hc : head (hash e.mac e.vlanId) = m₁ ++ a :: m₂)
    (he : (head (hash e.mac e.vlanId)).eraseP (sameEntryDel e) = m₁ ++ m₂) (hown : SameEntry e a) :
    DeletesExactly hash head e := by
  obtain ⟨hret, hdel⟩ := delHashEntry_found hc (sameEntryDel_of_same hown) he
  have hex : ∃ x ∈ entries head, SameEntry e x :=
    ⟨a, mem_entries.2 ⟨hash e.mac e.vlanId, by simp [hc]⟩, hown⟩
  have hrem := hdel.trans (filter_same h hc hown).symm
  refine ⟨iff_of_true hret hex, fun _ => hrem, fun hn => absurd hex hn, ?_⟩
  rintro db rfl x hx hx'
  obtain ⟨i, hi⟩ := mem_entries.1 hx
  by_contra hk
  refine hx' (mem_entries.2 ⟨i, ?_⟩)
  change x ∈ (delHashEntry hash e db.dynMacTblHead).2 i
  rw [hrem, List.mem_filter]
  have : ¬ SameEntry e x := fun hs => hk (Prod.ext hs.1 hs.2.1)
  exact ⟨hi, by simp [this]⟩

/-- The first match is what is removed, so an exact deletion finds the entry itself. -/
theorem DeletesExactly.own (hd : DeletesExactly hash head e) (h : WF (layout hash) head)
    (hc : head (hash e.mac e.vlanId) = m₁ ++ a :: m₂) (ha : sameEntryDel e a = true)
    (he : (head (hash e.mac e.vlanId)).eraseP (sameEntryDel e) = m₁ ++ m₂) : SameEntry e a := by
  obtain ⟨hret, hdel⟩ := delHashEntry_found hc ha he
  by_contra hna
  have hat := congrFun (hd.removed (hd.succ_iff.1 hret)) (hash e.mac e.vlanId)
  rw [hdel, Function.update_self] at hat
  have hin : a ∈ m₁ ++ m₂ := by
    rw [hat, List.mem_filter]
    exact ⟨by simp [hc], by simp [hna]⟩
  have hnd := (h.nodup (hash e.mac e.vlanId)).of_map
  rw [hc, List.nodup_middle, List.nodup_cons] at hnd
  exact hnd.1 hin

end Found

/-- In a well-formed table the deletion is exact exactly when an entry of its bucket with its VLAN,
its port and the C string of its MAC has its MAC, unless the entry itself comes before. -/
theorem delete_exact_iff (hash : HashFn) (head : HashTbl) (h : WF (layout hash) head)
    (e : PiMacEntry) : DeletesExactly hash head e
      ↔ ∀ l₁ x l₂, head (hash e.mac e.vlanId) = l₁ ++ x :: l₂ →
        cstr x.mac.toList = cstr e.mac.toList → x.vlanId = e.vlanId → x.portId = e.portId →
        (∀ y ∈ l₁, ¬ SameEntry e y) → x.mac = e.mac := by
  rcases first_match (sameEntryDel e) (head (hash e.mac e.vlanId)) with
    hno | ⟨m₁, a, m₂, hc, hm₁, ha, he⟩
  · refine iff_of_true (deletesExactly_of_none h hno) fun l₁ x l₂ hl hcs hv hp _ => ?_
    have := hno x (by simp [hl])
    rw [sameEntryDel_cases.2 ⟨hcs, hv, hp⟩] at this
    cases this
  · constructor
    · intro hd l₁ x l₂ hl hcs hv hp hl₁
      have hown := hd.own h hc ha he
      rcases middle_cases (hl.symm.trans hc) with rfl | hal | hxm
      · exact hown.1
      · exact absurd hown (hl₁ a hal)
      · have := hm₁ x hxm
        rw [sameEntryDel_cases.2 ⟨hcs, hv, hp⟩] at this
        cases this
    · intro hall
      obtain ⟨hcs, hv, hp⟩ := sameEntryDel_cases.1 ha
      have hbefore : ∀ y ∈ m₁, ¬ SameEntry e y := fun y hy hs => by
        have := hm₁ y hy
        rw [sameEntryDel_of_same hs] at this
        cases this
      exact deletesExactly_of_own h hc he ⟨hall m₁ a m₂ hc hcs hv hp hbefore, hv, hp⟩

theorem wf_single (hash : HashFn) (x : PiMacEntry) :
    WF (layout hash) (Function.update empty (hash x.mac x.vlanId) [x]) :=
  WF.empty.cons (a := x) rfl (by rw [toMap_empty])

/-- A station of the same bucket, VLAN and port stays. -/
theorem delete_exact_iff_one :
    let hash := hashFunction .little 0
    let x : PiMacEntry := ⟨#v[2, 0x11, 0x22, 0x33, 0x44, 0x55], 1, 10, 1, 0⟩
    let e : PiMacEntry := ⟨#v[2, 0x11, 0x22, 0x33, 0x44, 0x66], 0, 10, 1, 0⟩
    hash e.mac e.vlanId = hash x.mac x.vlanId
      ∧ DeletesExactly hash (Function.update empty (hash x.mac x.vlanId) [x]) e := by
  intro hash x e
  have hidx : hash e.mac e.vlanId = hash x.mac x.vlanId := by decide
  refine ⟨hidx, (delete_exact_iff hash _ (wf_single hash x) e).2 ?_⟩
  intro l₁ y l₂ hl hcs _ _ _
  rw [hidx, Function.update_self] at hl
  have hy : y ∈ [x] := hl ▸ List.mem_append_right _ (.head _)
  obtain rfl := List.mem_singleton.1 hy
  exact absurd hcs (by decide)

/-- One station is bound, another whose MAC starts with the same zero byte is forgotten. -/
theorem delete_takes_another :
    let hash := hashFunction .little 0
    let x : PiMacEntry := ⟨#v[0x00, 0x11, 0x22, 0x33, 0x44, 0x55], 1, 10, 1, 0⟩
    let e : PiMacEntry := ⟨#v[0x00, 0x11, 0x22, 0x33, 0x44, 0x66], 0, 10, 1, 0⟩
    let head := Function.update empty (hash x.mac x.vlanId) [x]
    WF (layout hash) head ∧ ¬ DeletesExactly hash head e := by
  intro hash x e head
  refine ⟨wf_single hash x, fun hd => ?_⟩
  have hidx : hash e.mac e.vlanId = hash x.mac x.vlanId := by decide
  have hchain : head (hash x.mac x.vlanId) = [x] := Function.update_self _ _ _
  have hin : x ∈ head (hash e.mac e.vlanId) := by
    rw [hidx, hchain]
    exact .head _
  have hret : (delHashEntry hash e head).1 = SUCC := by
    rw [(delHashEntry_eq hash e head).2, if_pos ⟨x, hin, by decide⟩]
  obtain ⟨y, hy, hs⟩ := hd.succ_iff.1 hret
  rw [entries_update_empty] at hy
  obtain rfl := List.mem_singleton.1 hy
  exact absurd hs.1 (by decide)

end Pi

end RookieMac
