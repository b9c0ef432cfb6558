import RookieMac.Public
import RookieMac.Lib.HlistTable

/-!
# The nodes of the address tables

PI and SSC each keep their two tables in arrays of list heads, with the entries in allocated nodes.
The operations on the lists are those of `rg_sys/list.h`, which are the Linux kernel's. A function
that allocates takes the address its `malloc` returns, or `none`.
-/

namespace RookieMac

open Hlist

/-- The two arrays of list heads of `pi_db_mac_info_t` and `mac_opra_class_t`. -/
inductive MacTblHead
  | static | dyn
  deriving DecidableEq

abbrev HeadId := MacTblHead × Fin hashSize

abbrev NodeMem (α : Type) := Mem HeadId α PiMacEntry

/-- The bucket of a key, and what `hlist_del` leaves in a node. -/
structure TblEnv (α : Type) where
  hash : HashFn
  poison₁ : α
  poison₂ : Loc HeadId α

/-- The chains of both tables. -/
def tables (stat dyn : HashTbl) : HeadId → List PiMacEntry
  | (.static, i) => stat i
  | (.dyn, i) => dyn i

/-- One of the two tables replaced. -/
def setHead (tbl : HeadId → List PiMacEntry) (head : MacTblHead) (t : HashTbl) :
    HeadId → List PiMacEntry :=
  fun h => if h.1 = head then t h.2 else tbl h

section Tables

variable {tbl : HeadId → List PiMacEntry} {head : MacTblHead} {stat dyn t : HashTbl}

theorem setHead_self : (fun i => setHead tbl head t (head, i)) = t := by
  funext i
  simp [setHead]

theorem update_head (i : Fin hashSize) (chain : List PiMacEntry) :
    Function.update tbl (head, i) chain
      = setHead tbl head (Function.update (fun i => tbl (head, i)) i chain) := by
  funext ⟨head', j⟩
  by_cases hh : head' = head
  · subst hh
    rcases eq_or_ne j i with rfl | hj
    · simp [setHead]
    · simp [setHead, hj]
  · simp [setHead, hh]

@[simp] theorem setHead_setHead (t' : HashTbl) :
    setHead (setHead tbl head t) head t' = setHead tbl head t' := by
  funext h
  by_cases hh : h.1 = head <;> simp [setHead, hh]

theorem setHead_get : setHead tbl head (fun i => tbl (head, i)) = tbl := by
  funext ⟨head', i⟩
  by_cases hh : head' = head
  · subst hh
    simp [setHead]
  · simp [setHead, hh]

theorem tables_static : (fun i => tables stat dyn (.static, i)) = stat := rfl

theorem tables_dyn : (fun i => tables stat dyn (.dyn, i)) = dyn := rfl

theorem setHead_static : setHead (tables stat dyn) .static t = tables t dyn := by
  funext ⟨head, i⟩
  cases head <;> simp [setHead, tables]

theorem setHead_dyn : setHead (tables stat dyn) .dyn t = tables stat t := by
  funext ⟨head, i⟩
  cases head <;> simp [setHead, tables]

end Tables

end RookieMac
