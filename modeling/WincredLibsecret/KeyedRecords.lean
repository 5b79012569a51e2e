import Mathlib

/-! Lists of records that carry their own key. Sorting such a list by the key gives the values of the
map from keys to records in key order, whatever the order of the list was, as long as no key occurs
twice. -/

namespace KeyedRecords

variable {α β κ : Type} [Ord κ]

/-- A stable sort by a key. -/
def sortByKey (key : α → κ) (records : List α) : List α :=
  records.mergeSort fun left right => (compare (key left) (key right)).isLE

/-- The records of a list by their keys. -/
def index (key : α → κ) (records : List α) : Std.ExtTreeMap κ α compare :=
  .ofList (records.map fun record => (key record, record)) compare

variable {key : α → κ} {records : List α}

theorem mem_sortByKey {record : α} : record ∈ sortByKey key records ↔ record ∈ records :=
  List.mem_mergeSort

variable [Std.TransOrd κ]

theorem pairwise_sortByKey (key : α → κ) (records : List α) :
    (sortByKey key records).Pairwise fun left right => (compare (key left) (key right)).isLE := by
  refine List.pairwise_mergeSort (fun a b c hab hbc => ?_) (fun a b => ?_) records
  · exact Std.TransCmp.isLE_trans hab hbc
  · have hswap : compare (key b) (key a) = (compare (key a) (key b)).swap := Std.OrientedCmp.eq_swap
    cases h : compare (key a) (key b) <;> simp [hswap, h]

variable [Std.LawfulEqOrd κ]

theorem index_getElem? (hkeys : (records.map key).Nodup) {k : κ} {record : α} :
    (index key records)[k]? = some record ↔ record ∈ records ∧ key record = k := by
  classical
  have hpairs : (records.map fun record => (key record, record)).Pairwise
      fun a b => ¬ compare a.1 b.1 = .eq := by
    rw [List.pairwise_map]
    exact (List.pairwise_map.mp hkeys).imp fun hne heq => hne (Std.LawfulEqOrd.eq_of_compare heq)
  have hmem : ∀ {k record}, record ∈ records → key record = k → (index key records)[k]? = some record := by
    rintro k record hrecord rfl
    exact Std.ExtTreeMap.getElem?_ofList_of_mem Std.ReflOrd.compare_self hpairs
      (List.mem_map.mpr ⟨record, hrecord, rfl⟩)
  refine ⟨fun h => ?_, fun h => hmem h.1 h.2⟩
  by_cases hk : ∃ found ∈ records, key found = k
  · obtain ⟨found, hfound, hkey⟩ := hk
    have : found = record := Option.some.inj ((hmem hfound hkey).symm.trans h)
    exact this ▸ ⟨hfound, hkey⟩
  · exfalso
    have hnone : (index key records)[k]? = none := by
      apply Std.ExtTreeMap.getElem?_ofList_of_contains_eq_false
      simpa [List.map_map] using fun found hfound hkey => hk ⟨found, hfound, hkey⟩
    rw [hnone] at h
    cases h

/-- The sorted records are the values of any map that holds exactly them. -/
theorem sortByKey_eq (hkeys : (records.map key).Nodup) {map : Std.ExtTreeMap κ β compare} {record : β → α}
    (hmap : ∀ k r, (∃ value, map[k]? = some value ∧ record value = r) ↔ r ∈ records ∧ key r = k) :
    sortByKey key records = map.toList.map fun entry => record entry.2 := by
  have hentry : ∀ entry ∈ map.toList, key (record entry.2) = entry.1 := fun entry hentry =>
    ((hmap entry.1 (record entry.2)).mp
      ⟨entry.2, Std.ExtTreeMap.mem_toList_iff_getElem?_eq_some.mp hentry, rfl⟩).2
  -- along the map the keys of the records increase strictly
  have hstrict : (map.toList.map fun entry => record entry.2).Pairwise
      fun left right => compare (key left) (key right) = .lt := by
    rw [List.pairwise_map]
    refine Std.ExtTreeMap.ordered_keys_toList.imp_of_mem fun ha hb hlt => ?_
    rw [hentry _ ha, hentry _ hb]
    exact hlt
  have hinjective : ∀ left right, left ∈ records → right ∈ records → key left = key right → left = right :=
    fun left right hleft hright heq => List.inj_on_of_nodup_map hkeys hleft hright heq
  have hmem : ∀ r, r ∈ (map.toList.map fun entry => record entry.2) ↔ r ∈ records := by
    intro r
    rw [List.mem_map]
    constructor
    · rintro ⟨entry, hentry, rfl⟩
      exact ((hmap entry.1 _).mp ⟨entry.2, Std.ExtTreeMap.mem_toList_iff_getElem?_eq_some.mp hentry, rfl⟩).1
    · intro hr
      obtain ⟨value, hvalue, rfl⟩ := (hmap (key r) r).mpr ⟨hr, rfl⟩
      exact ⟨(key (record value), value), Std.ExtTreeMap.mem_toList_iff_getElem?_eq_some.mpr hvalue, rfl⟩
  have hnodup : (map.toList.map fun entry => record entry.2).Nodup :=
    hstrict.imp fun hlt heq => by rw [heq, Std.ReflOrd.compare_self] at hlt; cases hlt
  have hperm : (sortByKey key records).Perm (map.toList.map fun entry => record entry.2) :=
    (List.mergeSort_perm _ _).trans
      ((List.perm_ext_iff_of_nodup hkeys.of_map hnodup).mpr fun r => (hmem r).symm)
  refine hperm.eq_of_pairwise (fun left right hleft hright hle hge => ?_) (pairwise_sortByKey key records)
    (hstrict.imp fun hlt => by rw [hlt]; rfl)
  exact hinjective left right (mem_sortByKey.mp hleft) ((hmem right).mp hright)
    (Std.LawfulEqOrd.eq_of_compare (Std.OrientedCmp.isLE_antisymm hle hge))

/-- Two lists of the same records are sorted alike. -/
theorem sortByKey_congr {others : List α} (hkeys : (records.map key).Nodup) (hothers : (others.map key).Nodup)
    (hmem : ∀ record, record ∈ others ↔ record ∈ records) : sortByKey key others = sortByKey key records := by
  have hlisted : ∀ {others : List α}, (others.map key).Nodup → (∀ record, record ∈ others ↔ record ∈ records) →
      sortByKey key others = (index key records).toList.map fun entry => id entry.2 :=
    fun hothers hmem => sortByKey_eq hothers fun k record => by simp [index_getElem? hkeys, hmem]
  rw [hlisted hothers hmem, hlisted hkeys fun _ => Iff.rfl]

/-- Sorted records have strictly increasing keys if no key occurs twice. -/
theorem strict_sortByKey (hkeys : (records.map key).Nodup) :
    (sortByKey key records).Pairwise fun left right => compare (key left) (key right) = .lt := by
  have hperm : ((sortByKey key records).map key).Perm (records.map key) := (List.mergeSort_perm _ _).map key
  have hnodup := List.pairwise_map.mp (hperm.nodup_iff.mpr hkeys)
  refine ((pairwise_sortByKey key records).and hnodup).imp fun ⟨hle, hne⟩ => ?_
  exact (Ordering.isLE_iff_eq_lt_or_eq_eq.mp hle).resolve_right fun heq => hne (Std.LawfulEqOrd.eq_of_compare heq)

/-- The values entered into a map one after the other, no key twice. -/
theorem getElem?_foldl_insert {value : α → β} (hkeys : (records.map key).Nodup) (map : Std.ExtTreeMap κ β compare)
    {k : κ} {x : β} :
    (records.foldl (fun map record => map.insert (key record) (value record)) map)[k]? = some x ↔
      (∃ record ∈ records, key record = k ∧ value record = x) ∨
        (map[k]? = some x ∧ ∀ record ∈ records, key record ≠ k) := by
  induction records generalizing map with
  | nil => simp
  | cons record rest ih =>
      obtain ⟨hnotin, hrest⟩ := List.nodup_cons.mp hkeys
      rw [List.foldl_cons, ih hrest, Std.ExtTreeMap.getElem?_insert]
      by_cases hk : key record = k
      · have hself : compare k k = .eq := Std.ReflOrd.compare_self
        have hother : ∀ other ∈ rest, key other ≠ k := fun other hother heq =>
          hnotin (hk ▸ heq ▸ List.mem_map_of_mem hother)
        simp only [hk, hself, if_true, Option.some.injEq, List.exists_mem_cons_iff, true_and, List.forall_mem_cons,
          ne_eq, not_true_eq_false, false_and, and_false, or_false]
        constructor
        · rintro (⟨other, hmem, heq, -⟩ | ⟨hx, -⟩)
          · exact absurd heq (hother other hmem)
          · exact .inl hx
        · rintro (hx | ⟨other, hmem, heq, -⟩)
          · exact .inr ⟨hx, hother⟩
          · exact absurd heq (hother other hmem)
      · simp [hk]

/-- The keys taken out of a map one after the other. -/
theorem getElem?_foldl_erase [DecidableEq κ] (keys : List κ) (map : Std.ExtTreeMap κ β compare) (k : κ) :
    (keys.foldl (fun map key => map.erase key) map)[k]? = if k ∈ keys then none else map[k]? := by
  induction keys generalizing map with
  | nil => simp
  | cons key rest ih =>
      rw [List.foldl_cons, ih, Std.ExtTreeMap.getElem?_erase]
      by_cases hk : k = key
      · subst hk
        simp [Std.ReflOrd.compare_self]
      · have hne : ¬ compare key k = .eq := fun heq => hk (Std.LawfulEqOrd.eq_of_compare heq).symm
        simp [hk, hne]

/-- A map is the map of its entries. -/
theorem ofList_toList (map : Std.ExtTreeMap κ β compare) : .ofList map.toList compare = map := by
  classical
  apply Std.ExtTreeMap.ext_getElem?
  intro k
  cases h : map[k]? with
  | some value =>
      exact Std.ExtTreeMap.getElem?_ofList_of_mem Std.ReflOrd.compare_self Std.ExtTreeMap.distinct_keys_toList
        (Std.ExtTreeMap.mem_toList_iff_getElem?_eq_some.mpr h)
  | none =>
      apply Std.ExtTreeMap.getElem?_ofList_of_contains_eq_false
      simp only [List.contains_eq_mem, List.mem_map, Prod.exists, exists_and_right, exists_eq_right,
        decide_eq_false_iff_not, not_exists]
      intro value hvalue
      rw [Std.ExtTreeMap.mem_toList_iff_getElem?_eq_some, h] at hvalue
      cases hvalue

/-- What a map of a list of entries holds under a key is in the list, whichever of several entries it is. -/
theorem exists_getElem?_ofList {entries : List (κ × β)} {k : κ} (h : k ∈ entries.map Prod.fst) :
    ∃ value, (Std.ExtTreeMap.ofList entries compare)[k]? = some value ∧ (k, value) ∈ entries := by
  classical
  have hcontains : k ∈ Std.ExtTreeMap.ofList entries compare := by
    rw [Std.ExtTreeMap.mem_ofList, List.contains_iff_mem]
    exact h
  obtain ⟨value, hvalue⟩ := Option.isSome_iff_exists.mp (Std.ExtTreeMap.isSome_getElem?_iff_mem.mpr hcontains)
  refine ⟨value, hvalue, ?_⟩
  rw [Std.ExtTreeMap.ofList_eq_insertMany_empty, Std.ExtTreeMap.getElem?_insertMany_list,
    Std.ExtTreeMap.getElem?_empty, Option.or_none, List.findSomeRev?_eq_findSome?_reverse] at hvalue
  obtain ⟨entry, hentry, hfound⟩ := List.exists_of_findSome?_eq_some hvalue
  obtain ⟨hkey, hsome⟩ := Option.ite_none_right_eq_some.mp hfound
  cases hsome
  rw [← Std.LawfulEqOrd.eq_of_compare hkey]
  exact List.mem_reverse.mp hentry

end KeyedRecords
