import RookieMac.Public
import RookieMac.Lib.Runs

/-!
# Address tables as maps

An address table is for one thing: to say which port a (mac, vlan) key was learnt on. A notification
binds its key or unbinds it. The tables of the two programs compare keys, here and there, with a
comparison that takes two keys for one; while no notification meets a key its own is taken for
(`Faithful`), that does not show.
-/

namespace RookieMac

open CMem Chained

abbrev MacMap := Key → Option U32

namespace MacMap

/-- What a notification means: `flags` is whether the key is learnt or forgotten. -/
def notify (m : MacMap) (e : PiMacEntry) : MacMap :=
  Function.update m e.key (if e.flags ≠ 0 then some e.portId else none)

end MacMap

/-- `strncmp` takes the two keys for one when it meets them in a chain. -/
def Alike (hash : HashFn) (k k' : Key) : Prop :=
  hash k.1 k.2 = hash k'.1 k'.2 ∧ cstr k.1.toList = cstr k'.1.toList ∧ k.2 = k'.2

namespace Alike

variable {hash : HashFn} {k k' k'' : Key}

@[refl] theorem refl (k : Key) : Alike hash k k := ⟨rfl, rfl, rfl⟩

@[symm] theorem symm (h : Alike hash k k') : Alike hash k' k := ⟨h.1.symm, h.2.1.symm, h.2.2.symm⟩

theorem trans (h : Alike hash k k') (h' : Alike hash k' k'') : Alike hash k k'' :=
  ⟨h.1.trans h'.1, h.2.1.trans h'.2.1, h.2.2.trans h'.2.2⟩

end Alike

namespace MacMap

/-- No two bound keys are alike. -/
def NoClash (hash : HashFn) (m : MacMap) : Prop :=
  ∀ k k', m k ≠ none → m k' ≠ none → Alike hash k k' → k = k'

/-- No bound key is taken for the notification's: a key that is alike to a learnt one is that key,
and a key that is alike to a forgotten one is that key exactly where it has that port. -/
def Faithful (hash : HashFn) (m : MacMap) (e : PiMacEntry) : Prop :=
  ∀ k p, m k = some p → Alike hash k e.key →
    if e.flags ≠ 0 then k = e.key else (k = e.key ↔ p = e.portId)

/-- Every notification of the list is faithful where the ones before it lead. -/
def FaithfulRun (hash : HashFn) (m : MacMap) (es : List PiMacEntry) : Prop :=
  Runs.Each notify (Faithful hash) m es

variable {hash : HashFn} {m : MacMap} {e : PiMacEntry}

theorem NoClash.of_bound {m' : MacMap} (hn : NoClash hash m) (h : ∀ k, m' k ≠ none → m k ≠ none) :
    NoClash hash m' :=
  fun k k' hk hk' ha => hn k k' (h k hk) (h k' hk') ha

theorem NoClash.none : NoClash hash fun _ => none := fun _ _ h => absurd rfl h

theorem Faithful.eq_of_bound (h : Faithful hash m e) (hb : notify m e e.key ≠ none) {k : Key}
    (hk : notify m e k ≠ none) (ha : Alike hash k e.key) : k = e.key := by
  by_contra hne
  simp only [notify, Function.update_self, Function.update_of_ne hne] at hb hk
  obtain ⟨p, hp⟩ := Option.ne_none_iff_exists'.1 hk
  have hf := h k p hp ha
  split_ifs at hf hb with hflags
  · exact hne hf
  · exact hb rfl

theorem NoClash.notify (hn : NoClash hash m) (h : Faithful hash m e) :
    NoClash hash (MacMap.notify m e) := by
  intro k k' hk hk' ha
  rcases eq_or_ne k e.key with rfl | hke
  · exact (h.eq_of_bound hk hk' ha.symm).symm
  rcases eq_or_ne k' e.key with rfl | hke'
  · exact h.eq_of_bound hk' hk ha
  · simp only [MacMap.notify, Function.update_of_ne hke, Function.update_of_ne hke'] at hk hk'
    exact hn k k' hk hk' ha

end MacMap

/-! ## The tables hold maps -/

def triples (t : HashTbl) : Set (Mac × U32 × U32) :=
  {q | ∃ x ∈ entries t, (x.mac, x.vlanId, x.portId) = q}

section Tables

variable {hash : HashFn} {t u : HashTbl} {e x : PiMacEntry} {k : Key} {p : U32}

theorem mem_triples (h : WF (layout hash) t) {mac : Mac} {vlan : U32} :
    (mac, vlan, p) ∈ triples t ↔ toMap (layout hash) t (mac, vlan) = some p := by
  rw [h.toMap_eq_some]
  refine exists_congr fun x => and_congr_right fun _ => ?_
  simp only [layout, PiMacEntry.key, Prod.mk.injEq, and_assoc]

theorem triples_eq_iff (h : WF (layout hash) t) (h' : WF (layout hash) u) :
    triples t = triples u ↔ toMap (layout hash) t = toMap (layout hash) u := by
  constructor
  · intro he
    funext ⟨mac, vlan⟩
    exact Option.ext fun p => by rw [← mem_triples h, he, mem_triples h']
  · intro he
    ext ⟨mac, vlan, p⟩
    rw [mem_triples h, he, mem_triples h']

theorem hash_of_mem (h : WF (layout hash) t) {i : Fin hashSize} (hx : x ∈ t i) :
    hash x.mac x.vlanId = i := h.placed i x hx

theorem toMap_of_mem (h : WF (layout hash) t) {i : Fin hashSize} (hx : x ∈ t i) :
    toMap (layout hash) t x.key = some x.portId := h.toMap_of_mem hx

theorem exists_of_toMap (h : WF (layout hash) t) (hk : toMap (layout hash) t k = some p) :
    ∃ x ∈ t (hash k.1 k.2), x.key = k ∧ x.portId = p := by
  obtain ⟨x, hx, rfl, rfl⟩ := h.toMap_eq_some.1 hk
  obtain ⟨i, hi⟩ := mem_entries.1 hx
  obtain rfl := hash_of_mem h hi
  exact ⟨x, hi, rfl, rfl⟩

end Tables

end RookieMac
