import Mathlib.Data.List.Perm.Basic
import Mathlib.Data.List.Nodup
import Std.Data.ExtTreeMap

/-!
# Entries of extensional tree maps

Generic lemmas about the entries of an `ExtTreeMap` as a list: the values are those of the
entries, and inserting under a key puts one entry in the place of the entry of that key, whatever
the order of the others.
-/

namespace Std.ExtTreeMap

variable {α β : Type} {cmp : α → α → Ordering} [TransCmp cmp]

/-- The values of a map are those of its entries, in the same order. -/
theorem values_eq_map_snd_toList (t : ExtTreeMap α β cmp) : t.values = t.toList.map Prod.snd := by
  -- A map is a class of trees with the same entries, and both sides read off the entries.
  obtain ⟨⟨m⟩⟩ := t
  induction m using Quotient.ind with
  | _ m =>
    show m.inner.values = (DTreeMap.Internal.Impl.Const.toList m.inner).map Prod.snd
    rw [DTreeMap.Internal.Impl.values, DTreeMap.Internal.Impl.Const.foldr_eq_foldr_toList]
    generalize DTreeMap.Internal.Impl.Const.toList m.inner = entries
    induction entries with
    | nil => rfl
    | cons x xs ih => simp only [List.foldr_cons, List.map_cons, ih]

/-- No entry occurs twice. -/
theorem nodup_toList (t : ExtTreeMap α β cmp) : t.toList.Nodup := by
  refine (distinct_keys_toList (t := t)).imp fun {a b} hne heq => hne ?_
  rw [heq]
  exact ReflCmp.compare_self

variable [LawfulEqCmp cmp]

/-- Inserting under a key puts one entry in the place of what the key had. -/
theorem toList_insert_perm (t : ExtTreeMap α β cmp) (k : α) (v : β) :
    (t.insert k v).toList.Perm ((k, v) :: (t.erase k).toList) := by
  have hnew : (k, v) ∉ (t.erase k).toList := by
    intro h
    rw [mem_toList_iff_getElem?_eq_some] at h
    simp at h
  -- No list here has an entry twice, so it is enough that both have the same entries.
  rw [List.perm_ext_iff_of_nodup (nodup_toList _) (List.nodup_cons.2 ⟨hnew, nodup_toList _⟩)]
  intro entry
  obtain ⟨a, b⟩ := entry
  rw [List.mem_cons, mem_toList_iff_getElem?_eq_some, mem_toList_iff_getElem?_eq_some,
    getElem?_insert, getElem?_erase]
  by_cases hk : cmp k a = .eq
  · obtain rfl : k = a := LawfulEqCmp.eq_of_compare hk
    rw [if_pos hk, if_pos hk]
    simp [eq_comm]
  · have hak : a ≠ k := fun h => hk (by rw [h]; exact ReflCmp.compare_self)
    simp [hk, hak]

/-- A map is what it holds under a key together with the rest. -/
theorem toList_perm_cons_erase {t : ExtTreeMap α β cmp} {k : α} {v : β} (h : t[k]? = some v) :
    t.toList.Perm ((k, v) :: (t.erase k).toList) := by
  -- Inserting what is there already changes nothing.
  have hsame : t.insert k v = t := by
    refine ExtTreeMap.ext_getElem? fun a => ?_
    rw [getElem?_insert]
    split
    · rename_i hk
      rw [← LawfulEqCmp.eq_of_compare hk, h]
    · rfl
  have hperm := toList_insert_perm t k v
  rwa [hsame] at hperm

/-- Erasing a key without an entry changes nothing. -/
theorem erase_eq_self {t : ExtTreeMap α β cmp} {k : α} (h : t[k]? = none) : t.erase k = t := by
  refine ExtTreeMap.ext_getElem? fun a => ?_
  rw [getElem?_erase]
  split
  · rename_i hk
    rw [← LawfulEqCmp.eq_of_compare hk, h]
  · rfl

end Std.ExtTreeMap
