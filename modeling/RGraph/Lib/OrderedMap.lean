import Mathlib

/-!
# Ordered maps

Lookups in a map after an insertion or a removal, with equality of keys in
place of their comparison, and how the entries of two maps are related when
their lookups are.
-/

namespace RGraph.Lib

open List

variable {κ β : Type} [Ord κ] [Std.TransOrd κ] [Std.LawfulEqOrd κ]
  [DecidableEq κ]

theorem getElem?_insert_eq (m : Std.ExtTreeMap κ β) (key key' : κ) (b : β) :
    (m.insert key b)[key']? = if key' = key then some b else m[key']? := by
  rw [Std.ExtTreeMap.getElem?_insert]
  by_cases hk : key' = key
  · subst hk
    rw [if_pos Std.ReflOrd.compare_self, if_pos rfl]
  · rw [if_neg, if_neg hk]
    exact fun heq => hk (Std.LawfulEqOrd.eq_of_compare heq).symm

theorem getElem?_erase_eq (m : Std.ExtTreeMap κ β) (key key' : κ) :
    (m.erase key)[key']? = if key' = key then none else m[key']? := by
  rw [Std.ExtTreeMap.getElem?_erase]
  by_cases hk : key' = key
  · subst hk
    rw [if_pos Std.ReflOrd.compare_self, if_pos rfl]
  · rw [if_neg, if_neg hk]
    exact fun heq => hk (Std.LawfulEqOrd.eq_of_compare heq).symm

omit [DecidableEq κ] in
theorem mem_map_fst_toList {m : Std.ExtTreeMap κ β} {key : κ} :
    key ∈ m.toList.map Prod.fst ↔ (m[key]?).isSome := by
  rw [Std.ExtTreeMap.map_fst_toList_eq_keys, Std.ExtTreeMap.mem_keys,
    Std.ExtTreeMap.mem_iff_isSome_getElem?]

omit [DecidableEq κ] in
/-- A map that has the entries of another which pass a test lists them in the
same order. -/
theorem toList_eq_filter {m m' : Std.ExtTreeMap κ β} {q : κ × β → Bool}
    (h : ∀ key b, m'[key]? = some b ↔ m[key]? = some b ∧ q (key, b) = true) :
    m'.toList = m.toList.filter q := by
  have hm : m' = m.filter fun key b => q (key, b) := by
    apply Std.ExtTreeMap.ext_getElem?
    intro key
    ext b
    rw [h, Std.ExtTreeMap.getElem?_filter', Option.filter_eq_some_iff]
  rw [hm, Std.ExtTreeMap.toList_filter]

end RGraph.Lib
