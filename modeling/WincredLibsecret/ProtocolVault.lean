import WincredLibsecret.ProtocolTarget

/-! The generation commit of an item and the plan by which an interrupted one is recovered. Metadata
is the commit record: a stored generation that the metadata of its item does not name is abandoned,
and metadata that names a generation that is not stored is reported and left alone. -/

namespace WincredLibsecret

inductive CommitStep where
  | writeSecret (target : TargetName)
  | writeMetadata (target : TargetName)
  | deleteSecret (target : TargetName)
  deriving DecidableEq

structure GenerationCommit where
  itemId : Uuid
  newGeneration : Uuid
  previousGeneration : Option Uuid

def GenerationCommit.steps (commit : GenerationCommit) : List CommitStep :=
  [.writeSecret (.itemSecret commit.itemId commit.newGeneration),
    .writeMetadata (.itemMetadata commit.itemId)] ++
  match commit.previousGeneration with
  | some previous =>
      if previous ≠ commit.newGeneration then [.deleteSecret (.itemSecret commit.itemId previous)] else []
  | none => []

structure RecoveryInventory where
  committedGenerations : BTreeMap Uuid Uuid
  storedGenerations : BTreeSet GenerationKey

def RecoveryInventory.empty : RecoveryInventory := ⟨∅, ∅⟩

inductive RecoveryAction where
  | deleteAbandonedGeneration (itemId generation : Uuid)
  | reportMissingCommittedGeneration (itemId generation : Uuid)
  deriving DecidableEq

def planRecovery (inventory : RecoveryInventory) : List RecoveryAction :=
  (inventory.storedGenerations.toList.filterMap fun key =>
    if inventory.committedGenerations[(ofLex key).1]? ≠ some (ofLex key).2 then
      some (.deleteAbandonedGeneration (ofLex key).1 (ofLex key).2)
    else none) ++
  inventory.committedGenerations.toList.filterMap fun entry =>
    if toLex (entry.1, entry.2) ∉ inventory.storedGenerations then
      some (.reportMissingCommittedGeneration entry.1 entry.2)
    else none

theorem deleteAbandoned_mem_planRecovery {inventory : RecoveryInventory} {itemId generation : Uuid} :
    .deleteAbandonedGeneration itemId generation ∈ planRecovery inventory ↔
      toLex (itemId, generation) ∈ inventory.storedGenerations ∧
        inventory.committedGenerations[itemId]? ≠ some generation := by
  simp only [planRecovery, List.mem_append, List.mem_filterMap, Std.ExtTreeSet.mem_toList,
    Option.ite_none_right_eq_some, Option.some.injEq, reduceCtorEq, and_false, exists_false, or_false,
    RecoveryAction.deleteAbandonedGeneration.injEq]
  constructor
  · rintro ⟨key, hkey, hcommitted, rfl, rfl⟩
    exact ⟨hkey, hcommitted⟩
  · rintro ⟨hkey, hcommitted⟩
    exact ⟨toLex (itemId, generation), hkey, hcommitted, rfl, rfl⟩

theorem reportMissing_mem_planRecovery {inventory : RecoveryInventory} {itemId generation : Uuid} :
    .reportMissingCommittedGeneration itemId generation ∈ planRecovery inventory ↔
      inventory.committedGenerations[itemId]? = some generation ∧
        toLex (itemId, generation) ∉ inventory.storedGenerations := by
  simp only [planRecovery, List.mem_append, List.mem_filterMap, Prod.exists,
    Std.ExtTreeMap.mem_toList_iff_getElem?_eq_some, Option.ite_none_right_eq_some, Option.some.injEq,
    reduceCtorEq, and_false, exists_false, false_or, RecoveryAction.reportMissingCommittedGeneration.injEq]
  constructor
  · rintro ⟨item, found, hfound, hstored, rfl, rfl⟩
    exact ⟨hfound, hstored⟩
  · rintro ⟨hfound, hstored⟩
    exact ⟨itemId, generation, hfound, hstored, rfl, rfl⟩

/-- The generation an action deletes. -/
def RecoveryAction.removed : RecoveryAction → Option (Uuid × Uuid)
  | .deleteAbandonedGeneration itemId generation => some (itemId, generation)
  | .reportMissingCommittedGeneration _ _ => none

/-- The item an action reports. -/
def RecoveryAction.reported : RecoveryAction → Option Uuid
  | .deleteAbandonedGeneration _ _ => none
  | .reportMissingCommittedGeneration itemId _ => some itemId

theorem mem_filterMap_removed {plan : List RecoveryAction} {itemId generation : Uuid} :
    (itemId, generation) ∈ plan.filterMap RecoveryAction.removed ↔
      .deleteAbandonedGeneration itemId generation ∈ plan := by
  rw [List.mem_filterMap]
  constructor
  · rintro ⟨action, haction, hremoved⟩
    cases action with
    | deleteAbandonedGeneration => cases hremoved; exact haction
    | reportMissingCommittedGeneration => cases hremoved
  · exact fun h => ⟨_, h, rfl⟩

/-- A plan deletes at most what is stored and reports at most what is committed. -/
theorem length_planRecovery_le (inventory : RecoveryInventory) :
    ((planRecovery inventory).filterMap RecoveryAction.removed).length ≤ inventory.storedGenerations.size ∧
      ((planRecovery inventory).filterMap RecoveryAction.reported).length ≤ inventory.committedGenerations.size := by
  have hdeletions : ∀ keys : List GenerationKey, (keys.filterMap fun key =>
      if inventory.committedGenerations[(ofLex key).1]? ≠ some (ofLex key).2 then
        some (RecoveryAction.deleteAbandonedGeneration (ofLex key).1 (ofLex key).2)
      else none).filterMap RecoveryAction.reported = [] := by
    intro keys
    rw [List.filterMap_filterMap, List.filterMap_eq_nil_iff]
    intro key _
    split_ifs <;> rfl
  have hreports : ∀ entries : List (Uuid × Uuid), (entries.filterMap fun entry =>
      if toLex (entry.1, entry.2) ∉ inventory.storedGenerations then
        some (RecoveryAction.reportMissingCommittedGeneration entry.1 entry.2)
      else none).filterMap RecoveryAction.removed = [] := by
    intro entries
    rw [List.filterMap_filterMap, List.filterMap_eq_nil_iff]
    intro entry _
    split_ifs <;> rfl
  rw [planRecovery, List.filterMap_append, List.filterMap_append, hdeletions, hreports, List.append_nil,
    List.nil_append]
  constructor
  · rw [← Std.ExtTreeSet.length_toList]
    exact (List.length_filterMap_le _ _).trans (List.length_filterMap_le _ _)
  · rw [← Std.ExtTreeMap.length_toList]
    exact (List.length_filterMap_le _ _).trans (List.length_filterMap_le _ _)

/-- A plan deletes no generation twice. -/
theorem nodup_removed_planRecovery (inventory : RecoveryInventory) :
    ((planRecovery inventory).filterMap RecoveryAction.removed).Nodup := by
  have hreports : ∀ entries : List (Uuid × Uuid), (entries.filterMap fun entry =>
      if toLex (entry.1, entry.2) ∉ inventory.storedGenerations then
        some (RecoveryAction.reportMissingCommittedGeneration entry.1 entry.2)
      else none).filterMap RecoveryAction.removed = [] := by
    intro entries
    rw [List.filterMap_filterMap, List.filterMap_eq_nil_iff]
    intro entry _
    split_ifs <;> rfl
  rw [planRecovery, List.filterMap_append, hreports, List.append_nil, List.filterMap_filterMap]
  have hkeys : inventory.storedGenerations.toList.Pairwise (· ≠ ·) :=
    Std.ExtTreeSet.distinct_toList.imp fun hne heq => hne (by simp [heq])
  refine hkeys.filterMap _ fun left right hne removed hremoved other hother heq => hne ?_
  simp only [Option.bind_eq_some_iff, Option.ite_none_right_eq_some, Option.some.injEq] at hremoved hother
  obtain ⟨_, ⟨-, rfl⟩, hleft⟩ := hremoved
  obtain ⟨_, ⟨-, rfl⟩, hright⟩ := hother
  cases hleft
  cases hright
  exact ofLex.injective (Prod.ext (Prod.ext_iff.mp heq).1 (Prod.ext_iff.mp heq).2)

end WincredLibsecret
