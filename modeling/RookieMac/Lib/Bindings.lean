import Mathlib

/-!
# Binding a list of keys

A partial map overridden by the keys and values of a list. Where no key is in the list twice,
binding them one after the other comes to the same in any order, and so does the number of keys that
are new.
-/

namespace Bindings

variable {β κ ν : Type*} [DecidableEq κ] (key : β → κ) (val : β → ν)

/-- The map, with the bindings of the list in place of its own. -/
def override (m : κ → Option ν) (es : List β) : κ → Option ν :=
  fun k => ((es.find? fun e => key e = k).map val).or (m k)

/-- How many elements of the list have a key the map does not bind. -/
def unbound (m : κ → Option ν) (es : List β) : ℕ := es.countP fun e => (m (key e)).isNone

def bind (m : κ → Option ν) (e : β) : κ → Option ν := Function.update m (key e) (some (val e))

variable {key val} {m : κ → Option ν} {e : β} {es es' : List β}

@[simp] theorem override_nil : override key val m [] = m := by
  funext k
  simp [override]

theorem find?_of_mem (hnd : (es.map key).Nodup) (he : e ∈ es) :
    es.find? (fun e' => key e' = key e) = some e := by
  rcases hf : es.find? (fun e' => key e' = key e) with _ | e'
  · exact absurd (List.find?_eq_none.1 hf e he) (by simp)
  · have hk := List.find?_some hf
    simp only [decide_eq_true_eq] at hk
    rw [List.inj_on_of_nodup_map hnd (List.mem_of_find?_eq_some hf) he hk]

theorem override_of_mem (hnd : (es.map key).Nodup) (he : e ∈ es) :
    override key val m es (key e) = some (val e) := by
  rw [override, find?_of_mem hnd he]
  rfl

theorem override_of_notMem {k : κ} (hk : k ∉ es.map key) : override key val m es k = m k := by
  have hf : es.find? (fun e => key e = k) = none := by
    refine List.find?_eq_none.2 fun e he => ?_
    simp only [decide_eq_true_eq]
    rintro rfl
    exact hk (List.mem_map_of_mem he)
  rw [override, hf]
  rfl

/-- The order of the list does not matter. -/
theorem override_perm (hnd : (es.map key).Nodup) (h : es'.Perm es) :
    override key val m es' = override key val m es := by
  have hnd' : (es'.map key).Nodup := (h.map key).nodup_iff.2 hnd
  funext k
  by_cases hk : k ∈ es.map key
  · obtain ⟨e, he, rfl⟩ := List.mem_map.1 hk
    rw [override_of_mem hnd he, override_of_mem hnd' (h.mem_iff.2 he)]
  · rw [override_of_notMem hk, override_of_notMem (mt (h.map key).mem_iff.1 hk)]

theorem override_cons (hk : key e ∉ es.map key) :
    override key val m (e :: es) = override key val (bind key val m e) es := by
  funext k
  rcases eq_or_ne (key e) k with rfl | hne
  · rw [override_of_notMem hk, bind, Function.update_self, override,
      List.find?_cons_of_pos (by simp)]
    rfl
  · rw [override, override, bind, Function.update_of_ne hne.symm,
      List.find?_cons_of_neg (by simpa using hne)]

omit [DecidableEq κ] in
theorem unbound_perm (h : es'.Perm es) : unbound key m es' = unbound key m es :=
  h.countP_eq _

/-- Binding a key that is not in the list does not change which of its keys are new. -/
theorem unbound_bind (hk : key e ∉ es.map key) :
    unbound key (bind key val m e) es = unbound key m es := by
  refine List.countP_congr fun e' he' => ?_
  have hne : key e' ≠ key e := fun h => hk (h ▸ List.mem_map_of_mem he')
  rw [bind, Function.update_of_ne hne]

/-- Binding the keys of the list, and counting those that were new. -/
theorem foldl_bind_count {γ : Type*} (succ : γ → γ) : ∀ (es : List β) (m : κ → Option ν) (n : γ),
    (es.map key).Nodup →
    es.foldl (fun s e => (bind key val s.1 e, if s.1 (key e) = none then succ s.2 else s.2)) (m, n)
      = (override key val m es, succ^[unbound key m es] n)
  | [], m, n, _ => by simp [unbound]
  | e :: es, m, n, hnd => by
    obtain ⟨hk, hnd⟩ := List.nodup_cons.1 hnd
    rw [List.foldl_cons, foldl_bind_count succ es _ _ hnd, override_cons hk, unbound_bind hk]
    refine Prod.ext rfl ?_
    simp only [unbound, List.countP_cons, Option.isNone_iff_eq_none]
    split_ifs
    · rw [Function.iterate_succ_apply]
    · rfl

end Bindings
