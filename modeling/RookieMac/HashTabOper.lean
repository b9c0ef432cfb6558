import RookieMac.Public

/-!
# PI's hash table and message queue

`hash_tab_oper.c`. An insertion looks for its key with `memcmp` and a deletion with `strncmp`; both
walk the chain of the bucket they are given. The message queue is a circular list whose head is
left out: the list runs from `head->next` on.
-/

namespace RookieMac.Pi

open CMem

/-- The comparison of `find_hash_key`. -/
def sameKey (entry assist : PiMacEntry) : Bool :=
  memcmp macLen assist.mac.toList entry.mac.toList = 0 ∧ assist.vlanId = entry.vlanId

/-- The comparison of `find_hash_key_del`. -/
def sameEntryDel (entry assist : PiMacEntry) : Bool :=
  strncmp macLen assist.mac.toList entry.mac.toList = 0 ∧ assist.vlanId = entry.vlanId
    ∧ assist.portId = entry.portId

def findHashKey (index : Fin hashSize) (entry : PiMacEntry) (head : HashTbl) : ℤ × HashTbl :=
  match Chained.modifyFirst (sameKey entry) (setPort entry.portId) (head index) with
  | some chain => (1, Function.update head index chain)
  | none => (0, head)

def findHashKeyDel (index : Fin hashSize) (entry : PiMacEntry) (head : HashTbl) : ℤ × HashTbl :=
  if (head index).any (sameEntryDel entry) then
    (SUCC, Chained.eraseFirst (sameEntryDel entry) index head)
  else (ERR, head)

section Table

variable (hash : HashFn)

def insertHashTable (entry : PiMacEntry) (head : HashTbl) : ℤ × HashTbl :=
  let index := hash entry.mac entry.vlanId
  let (ret, head) := findHashKey index entry head
  if ret = 1 then (ret, head)
  -- before the first node, whether or not there is one
  else (0, Function.update head index (entry :: head index))

def delHashEntry (entry : PiMacEntry) (head : HashTbl) : ℤ × HashTbl :=
  findHashKeyDel (hash entry.mac entry.vlanId) entry head

end Table

/-- `list_add` links the message right after the head. -/
def insertMsgToQueue (entry : List U8) (head : List (List U8)) : List (List U8) := entry :: head

def getMsgData (head : List (List U8)) : Option (List U8) := head.head?

def delDealedMsg (head : List (List U8)) : List (List U8) := head.tail

/-! ## What the table functions do -/

section Spec

@[simp] theorem sameKey_iff {entry assist : PiMacEntry} :
    sameKey entry assist = true ↔ assist.key = entry.key := by
  simp only [sameKey, decide_eq_true_eq, PiMacEntry.key, Prod.mk.injEq]
  rw [memcmp_eq_zero_iff (by simp) (by simp), Vector.toList_inj]

theorem insertHashTable_eq (hash : HashFn) (entry : PiMacEntry) (head : HashTbl) :
    (insertHashTable hash entry head).2 = Chained.upsert (sameKey entry) (setPort entry.portId)
      entry (hash entry.mac entry.vlanId) head
    ∧ (insertHashTable hash entry head).1 = if Chained.modifyFirst (sameKey entry)
        (setPort entry.portId) (head (hash entry.mac entry.vlanId)) = none then 0 else 1 := by
  unfold insertHashTable findHashKey Chained.upsert
  rcases hm : Chained.modifyFirst (sameKey entry) (setPort entry.portId)
    (head (hash entry.mac entry.vlanId)) with _ | chain <;> simp [hm]

theorem delHashEntry_eq (hash : HashFn) (entry : PiMacEntry) (head : HashTbl) :
    (delHashEntry hash entry head).2
      = Chained.eraseFirst (sameEntryDel entry) (hash entry.mac entry.vlanId) head
    ∧ (delHashEntry hash entry head).1
      = if ∃ x ∈ head (hash entry.mac entry.vlanId), sameEntryDel entry x = true then SUCC
        else ERR := by
  unfold delHashEntry findHashKeyDel
  simp only [List.any_eq_true]
  split_ifs with h
  · exact ⟨rfl, rfl⟩
  · refine ⟨?_, rfl⟩
    push Not at h
    rw [Chained.eraseFirst, List.eraseP_of_forall_not h, Function.update_eq_self]

end Spec

end RookieMac.Pi
