import WincredLibsecret.BrokerView

/-! Recovery of interrupted commits. Reconciling deletes the secrets of a vault that no readable metadata
commits, in the order of a plan. Wherever it is interrupted it has carried out a prefix of the plan, and
the plan of what is left is the rest of it. -/

namespace WincredLibsecret

open Effect

/-- Deletes the secrets of the given generations. -/
def Vault.sweep : List (Uuid × Uuid) → Vault → Vault
  | [], vault => vault
  | removed :: rest, vault => Vault.sweep rest (vault.drop (.itemSecret removed.1 removed.2))

namespace Vault

variable {vault : Vault} {removed : List (Uuid × Uuid)}

theorem sweep_eq_of_forall_ne {name : String}
    (h : ∀ entry ∈ removed, (TargetName.itemSecret entry.1 entry.2).toString ≠ name) :
    (sweep removed vault)[name]? = vault[name]? := by
  induction removed generalizing vault with
  | nil => rfl
  | cons entry rest ih =>
      obtain ⟨hfirst, hrest⟩ := List.forall_mem_cons.mp h
      rw [sweep, ih hrest, drop, Std.ExtTreeMap.getElem?_erase, if_neg]
      exact fun heq => hfirst (Std.LawfulEqOrd.eq_of_compare heq)

theorem sweep_eq_none_of_none {name : String} (h : vault[name]? = none) :
    (sweep removed vault)[name]? = none := by
  induction removed generalizing vault with
  | nil => exact h
  | cons entry rest ih =>
      refine ih ?_
      rw [drop, Std.ExtTreeMap.getElem?_erase, h, ite_self]

theorem sweep_eq_none_of_mem {itemId generation : Uuid} (h : (itemId, generation) ∈ removed) :
    (sweep removed vault).lookup (.itemSecret itemId generation) = none := by
  induction removed generalizing vault with
  | nil => cases h
  | cons entry rest ih =>
      rw [sweep]
      rcases List.mem_cons.mp h with rfl | hrest
      · exact sweep_eq_none_of_none (lookup_drop_self vault _)
      · exact ih hrest

theorem lookup_sweep_of_not_mem {target : TargetName}
    (h : ∀ entry ∈ removed, TargetName.itemSecret entry.1 entry.2 ≠ target) :
    (sweep removed vault).lookup target = vault.lookup target :=
  sweep_eq_of_forall_ne fun entry hentry heq => h entry hentry (TargetName.toString_injective heq)

/-- A sweep leaves metadata alone. -/
theorem lookup_sweep_of_ne_itemSecret {target : TargetName}
    (h : ∀ itemId generation, target ≠ .itemSecret itemId generation) :
    (sweep removed vault).lookup target = vault.lookup target :=
  lookup_sweep_of_not_mem fun _ _ heq => h _ _ heq.symm

end Vault

namespace Broker

variable {broker : Broker} {vault : Vault} {faults : BackendError → Prop} {err : BrokerError → Vault → Prop}
  {crash : Vault → Prop}

/-- The rule of recovery: it stops after a prefix of its deletions or carries all of them out. -/
theorem wp_recover {plan : List RecoveryAction} {ok : Nat × List Uuid → Vault → Prop}
    (hstop : ∀ done, done <+: plan.filterMap RecoveryAction.removed →
      crash (vault.sweep done) ∧ ∀ error, faults error → err error.toBrokerError (vault.sweep done))
    (hok : ok ((plan.filterMap RecoveryAction.removed).length, plan.filterMap RecoveryAction.reported)
      (vault.sweep (plan.filterMap RecoveryAction.removed))) :
    Action.wp broker.backend.serve faults (recover plan) ok err crash vault := by
  induction plan generalizing vault ok with
  | nil => exact ⟨(hstop [] List.nil_prefix).1, hok⟩
  | cons action rest ih =>
      cases action with
      | deleteAbandonedGeneration itemId generation =>
          obtain ⟨hcrash, herr⟩ := hstop [] List.nil_prefix
          simp only [recover, Action.wp_bind, wp_deleteCredential, Action.wp_pure]
          have hrest : ∀ done, done <+: rest.filterMap RecoveryAction.removed →
              crash ((vault.drop (.itemSecret itemId generation)).sweep done) ∧ ∀ error, faults error →
                err error.toBrokerError ((vault.drop (.itemSecret itemId generation)).sweep done) :=
            fun done hdone => hstop ((itemId, generation) :: done) ((List.prefix_cons_inj _).mpr hdone)
          exact ⟨hcrash, herr, (hrest [] List.nil_prefix).1,
            ih hrest ⟨(hrest _ (List.prefix_refl _)).1, hok⟩⟩
      | reportMissingCommittedGeneration itemId generation =>
          simp only [recover, Action.wp_bind, Action.wp_pure]
          exact ih hstop ⟨(hstop _ (List.prefix_refl _)).1, hok⟩

variable (broker) in
/-- The stored generations that no readable metadata commits. -/
def abandoned (vault : Vault) : List (Uuid × Uuid) :=
  (planRecovery (broker.inventoryOf vault)).filterMap RecoveryAction.removed

variable (broker) in
/-- The items whose committed generation is not stored. -/
def missing (vault : Vault) : List Uuid :=
  (planRecovery (broker.inventoryOf vault)).filterMap RecoveryAction.reported

variable (broker) in
/-- The vault without its abandoned generations. -/
def recovered (vault : Vault) : Vault := vault.sweep (broker.abandoned vault)

theorem mem_abandoned {itemId generation : Uuid} :
    (itemId, generation) ∈ broker.abandoned vault ↔
      (∃ blob, vault.lookup (.itemSecret itemId generation) = some blob) ∧
        broker.Uncommitted vault itemId generation :=
  mem_filterMap_removed.trans deleteAbandoned_mem_plan

theorem wp_reconcile {ok : ResponseBody → Vault → Prop}
    (hstop : ∀ done, done <+: broker.abandoned vault →
      crash (vault.sweep done) ∧ ∀ error, faults error → err error.toBrokerError (vault.sweep done))
    (hok : ok (.reconciled (broker.abandoned vault).length (broker.missing vault)) (broker.recovered vault)) :
    Action.wp broker.backend.serve faults (broker.execute .reconcile) ok err crash vault := by
  obtain ⟨hcrash, herr⟩ := hstop [] List.nil_prefix
  simp only [execute, perform, reconcileLocked, Action.wp_bind, wp_acquireLock, wp_entries, Action.wp_pure]
  exact ⟨hcrash, herr, hcrash, herr, wp_recover hstop ⟨(hstop _ (List.prefix_refl _)).1, hok⟩⟩

theorem respond_reconcile (broker : Broker) (vault : Vault) :
    broker.respond ⟨.reconcile, undisturbed⟩ vault =
      ⟨.returned (.ok (.reconciled (broker.abandoned vault).length (broker.missing vault))),
        broker.recovered vault, undisturbed⟩ :=
  Action.execute_undisturbed_of_wp (wp_reconcile (fun _ _ => ⟨trivial, fun _ h => h.elim⟩) ⟨rfl, rfl⟩)

/-- The vaults a disturbed recovery goes through are those left by a prefix of its deletions. -/
theorem passes_reconcile {fates : Fates BackendError} {passed : Vault}
    (h : passed ∈ broker.passes ⟨.reconcile, fates⟩ vault) :
    ∃ done, done <+: broker.abandoned vault ∧ passed = vault.sweep done := by
  have hwp : Action.wp broker.backend.serve (fun _ => True) (broker.execute .reconcile) (fun _ _ => True)
      (fun _ _ => True) (fun passed => ∃ done, done <+: broker.abandoned vault ∧ passed = vault.sweep done) vault :=
    wp_reconcile (fun done hdone => ⟨⟨done, hdone, rfl⟩, fun _ _ => trivial⟩) trivial
  exact Action.visited_of_wp hwp (within_any fates) passed h

variable (broker) in
/-- Recovery deletes the secret of an item only if the item has no metadata or readable metadata that
commits another generation. -/
def DeletesOnlyAbandoned (vault : Vault) : Prop :=
  ∀ fates, ∀ passed ∈ broker.passes ⟨.reconcile, fates⟩ vault, ∀ itemId generation blob,
    vault.lookup (.itemSecret itemId generation) = some blob →
    passed.lookup (.itemSecret itemId generation) = none →
    vault.lookup (.itemMetadata itemId) = none ∨
      ∃ item, broker.itemKind.stored vault itemId = some item ∧ item.currentGeneration ≠ generation

variable (broker) in
/-- The metadata of every item with a stored secret is absent or readable. -/
def MetadataReadable (vault : Vault) : Prop :=
  ∀ itemId generation blob, vault.lookup (.itemSecret itemId generation) = some blob →
    vault.lookup (.itemMetadata itemId) = none ∨ ∃ item, broker.itemKind.stored vault itemId = some item

/-- Recovery spares the secrets of items whose metadata it cannot read exactly if there are none. -/
theorem reconcile_spares_unreadable_iff (broker : Broker) (vault : Vault) :
    broker.DeletesOnlyAbandoned vault ↔ broker.MetadataReadable vault := by
  constructor
  · intro hdeletes itemId generation blob hblob
    by_contra! hunreadable
    obtain ⟨hmetadata, hitem⟩ := hunreadable
    have habandoned : (itemId, generation) ∈ broker.abandoned vault :=
      mem_abandoned.mpr ⟨⟨blob, hblob⟩, fun item hstored => absurd hstored (hitem item)⟩
    have hlast := broker.respond_state_mem_passes ⟨.reconcile, undisturbed⟩ vault
    rw [respond_reconcile] at hlast
    rcases hdeletes undisturbed _ hlast itemId generation blob hblob (Vault.sweep_eq_none_of_mem habandoned) with
      hnone | ⟨item, hstored, -⟩
    · exact hmetadata hnone
    · exact hitem item hstored
  · intro hreadable fates passed hpassed itemId generation blob hblob hgone
    obtain ⟨done, hdone, rfl⟩ := passes_reconcile hpassed
    have hmem : (itemId, generation) ∈ done := by
      by_contra hnot
      rw [Vault.lookup_sweep_of_not_mem, hblob] at hgone
      · cases hgone
      · rintro ⟨other, deleted⟩ hother heq
        cases heq
        exact hnot hother
    have hfree := (mem_abandoned.mp (hdone.subset hmem)).2
    exact (hreadable itemId generation blob hblob).imp_right (.imp fun item hitem => ⟨hitem, hfree item hitem⟩)

/-- The metadata of an item is one of a later schema; its only secret is deleted. -/
theorem reconcile_deletes_secret_of_later_schema :
    let broker := cborBroker inMemoryBackend
    let later : ItemMetadata := ⟨2, ⟨9⟩, ⟨7⟩, "token", ∅, "text/plain", 5, 5, ⟨8⟩⟩
    let vault := ((∅ : Vault).put (.itemMetadata ⟨9⟩) later.encode).put (.itemSecret ⟨9⟩ ⟨8⟩) [115, 51]
    let ending := broker.respond ⟨.reconcile, undisturbed⟩ vault
    vault.lookup (.itemMetadata ⟨9⟩) = some later.encode ∧ broker.itemKind.stored vault ⟨9⟩ = none ∧
      vault.lookup (.itemSecret ⟨9⟩ ⟨8⟩) = some [115, 51] ∧
      ending.outcome = .returned (.ok (.reconciled 1 [])) ∧
      ending.state.lookup (.itemSecret ⟨9⟩ ⟨8⟩) = none := by
  decide +kernel

theorem nodup_abandoned (broker : Broker) (vault : Vault) : (broker.abandoned vault).Nodup :=
  nodup_removed_planRecovery _

theorem stored_sweep {α κ : Type} [DecidableEq κ] (kind : RecordKind α κ) (removed : List (Uuid × Uuid))
    (vault : Vault) : kind.stored (vault.sweep removed) = kind.stored vault :=
  funext fun key => RecordKind.stored_congr (Vault.lookup_sweep_of_ne_itemSecret (kind.target_ne_itemSecret key))

theorem uncommitted_sweep {removed : List (Uuid × Uuid)} {itemId generation : Uuid} :
    broker.Uncommitted (vault.sweep removed) itemId generation ↔ broker.Uncommitted vault itemId generation := by
  rw [Uncommitted, Uncommitted, stored_sweep]

/-- The secret a readable item commits survives a sweep of abandoned generations. -/
theorem lookup_sweep_committed {done : List (Uuid × Uuid)} (hdone : done ⊆ broker.abandoned vault) {id : Uuid}
    {item : ItemMetadata} (hitem : broker.itemKind.stored vault id = some item) :
    (vault.sweep done).lookup (.itemSecret id item.currentGeneration) =
      vault.lookup (.itemSecret id item.currentGeneration) := by
  refine Vault.lookup_sweep_of_not_mem ?_
  rintro ⟨itemId, generation⟩ hentry heq
  obtain ⟨rfl, rfl⟩ := TargetName.itemSecret.inj heq
  exact (mem_abandoned.mp (hdone hentry)).2 item hitem rfl

theorem visible_sweep {done : List (Uuid × Uuid)} (hdone : done ⊆ broker.abandoned vault) :
    broker.visible (vault.sweep done) = broker.visible vault :=
  VisibleVault.ext (visible_collections_congr fun _ => Vault.lookup_sweep_of_ne_itemSecret nofun)
    (visible_aliases_congr (fun _ => Vault.lookup_sweep_of_ne_itemSecret nofun)
      fun _ => Vault.lookup_sweep_of_ne_itemSecret nofun)
    (visible_items_congr (fun _ => Vault.lookup_sweep_of_ne_itemSecret nofun)
      fun _ _ hitem => lookup_sweep_committed hdone hitem)

/-- Recovery of what an interrupted recovery left ends where the undisturbed one ends. -/
theorem recovered_sweep {done : List (Uuid × Uuid)} (hdone : done ⊆ broker.abandoned vault) :
    broker.recovered (vault.sweep done) = broker.recovered vault := by
  have hsubset : broker.abandoned (vault.sweep done) ⊆ broker.abandoned vault := by
    rintro ⟨itemId, generation⟩ hmem
    obtain ⟨⟨blob, hblob⟩, hfree⟩ := mem_abandoned.mp hmem
    refine mem_abandoned.mpr ⟨?_, uncommitted_sweep.mp hfree⟩
    by_contra! hnone
    rw [show (vault.sweep done).lookup (.itemSecret itemId generation) = none from
      Vault.sweep_eq_none_of_none (Option.eq_none_iff_forall_ne_some.mpr hnone)] at hblob
    cases hblob
  apply Std.ExtTreeMap.ext_getElem?
  intro name
  by_cases hname : ∃ entry ∈ broker.abandoned vault, (TargetName.itemSecret entry.1 entry.2).toString = name
  · obtain ⟨⟨itemId, generation⟩, hmem, rfl⟩ := hname
    have hgone : (broker.recovered (vault.sweep done)).lookup (.itemSecret itemId generation) = none := by
      by_cases hleft : (itemId, generation) ∈ broker.abandoned (vault.sweep done)
      · exact Vault.sweep_eq_none_of_mem hleft
      · refine Vault.sweep_eq_none_of_none (Option.eq_none_iff_forall_ne_some.mpr fun blob hblob => hleft ?_)
        exact mem_abandoned.mpr ⟨⟨blob, hblob⟩, uncommitted_sweep.mpr (mem_abandoned.mp hmem).2⟩
    exact hgone.trans (Vault.sweep_eq_none_of_mem hmem).symm
  · push Not at hname
    rw [recovered, recovered, Vault.sweep_eq_of_forall_ne fun entry hentry => hname entry (hsubset hentry),
      Vault.sweep_eq_of_forall_ne fun entry hentry => hname entry (hdone hentry), Vault.sweep_eq_of_forall_ne hname]

/-- However often recovery is interrupted, what it converges to stays the same. -/
theorem recovered_after_reconciles (interrupted : List (Fates BackendError)) :
    broker.recovered (broker.after (interrupted.map fun fates => ⟨.reconcile, fates⟩) vault) =
      broker.recovered vault := by
  induction interrupted generalizing vault with
  | nil => rfl
  | cons fates rest ih =>
      obtain ⟨done, hdone, hend⟩ := passes_reconcile (broker.respond_state_mem_passes ⟨.reconcile, fates⟩ vault)
      rw [List.map_cons, after, ih, hend, recovered_sweep hdone.subset]

/-- A recovered vault holds no abandoned generation. -/
theorem abandoned_recovered (broker : Broker) (vault : Vault) : broker.abandoned (broker.recovered vault) = [] := by
  rw [List.eq_nil_iff_forall_not_mem]
  rintro ⟨itemId, generation⟩ hmem
  obtain ⟨⟨blob, hblob⟩, hfree⟩ := mem_abandoned.mp hmem
  have hnot : (itemId, generation) ∉ broker.abandoned vault := by
    intro habandoned
    rw [recovered, Vault.sweep_eq_none_of_mem habandoned] at hblob
    cases hblob
  refine hnot (mem_abandoned.mpr ⟨⟨blob, ?_⟩, uncommitted_sweep.mp hfree⟩)
  rw [← hblob]
  refine (Vault.lookup_sweep_of_not_mem ?_).symm
  rintro ⟨other, deleted⟩ hother heq
  cases heq
  exact hnot hother

/-- A sound vault misses no committed generation. -/
theorem Sound.missing_eq_nil (hsound : broker.Sound vault) : broker.missing vault = [] := by
  rw [missing, List.filterMap_eq_nil_iff]
  rintro (⟨itemId, generation⟩ | ⟨itemId, generation⟩) haction
  · rfl
  · obtain ⟨⟨item, hitem, rfl⟩, hnone⟩ := reportMissing_mem_plan.mp haction
    obtain ⟨secret, hsecret⟩ := hsound.secret_of_stored hitem
    cases hnone.symm.trans hsecret

/-- A secret of a recovered sound vault is stored exactly if the metadata of its item commits it. -/
theorem Sound.secret_recovered_iff (hsound : broker.Sound vault) {itemId generation : Uuid} :
    (∃ blob, (broker.recovered vault).lookup (.itemSecret itemId generation) = some blob) ↔
      ∃ item, broker.itemKind.stored (broker.recovered vault) itemId = some item ∧
        item.currentGeneration = generation := by
  have hstored : broker.itemKind.stored (broker.recovered vault) = broker.itemKind.stored vault :=
    stored_sweep _ _ _
  constructor
  · rintro ⟨blob, hblob⟩
    by_contra! hfree
    have hmem : (itemId, generation) ∈ broker.abandoned (broker.recovered vault) :=
      mem_abandoned.mpr ⟨⟨blob, hblob⟩, hfree⟩
    rw [abandoned_recovered] at hmem
    cases hmem
  · rintro ⟨item, hitem, rfl⟩
    rw [hstored] at hitem
    obtain ⟨secret, hsecret⟩ := hsound.secret_of_stored hitem
    exact ⟨secret.bytes, (lookup_sweep_committed (List.Subset.refl _) hitem).trans hsecret⟩

theorem recovered_getElem? (broker : Broker) (vault : Vault) (name : String) :
    (broker.recovered vault)[name]? = vault[name]? ∨
      (broker.recovered vault)[name]? = none ∧
        ∃ itemId generation, TargetName.toString (.itemSecret itemId generation) = name := by
  by_cases hname : ∃ entry ∈ broker.abandoned vault, (TargetName.itemSecret entry.1 entry.2).toString = name
  · obtain ⟨⟨itemId, generation⟩, hmem, rfl⟩ := hname
    exact .inr ⟨Vault.sweep_eq_none_of_mem hmem, itemId, generation, rfl⟩
  · push Not at hname
    exact .inl (Vault.sweep_eq_of_forall_ne hname)

/-- An undisturbed recovery of any vault that runs with failures and kills leave succeeds, changes no
reader's answer, keeps of each item exactly the secret its metadata commits and touches nothing but
secrets; it counts what it deletes and reports nothing missing. A second one changes nothing, and one
that follows any number of interrupted ones ends in the same vault. -/
theorem recovery_converges (broker : Broker) (steps : List BrokerStep) (interrupted : List (Fates BackendError)) :
    let vault := broker.after steps ∅
    let ending := broker.respond ⟨.reconcile, undisturbed⟩ vault
    let again := broker.respond ⟨.reconcile, undisturbed⟩ ending.state
    let left := broker.after (interrupted.map fun fates => ⟨.reconcile, fates⟩) vault
    (∃ removed : List (Uuid × Uuid), removed.Nodup ∧
      (∀ itemId generation, (itemId, generation) ∈ removed ↔
        (∃ blob, vault.lookup (.itemSecret itemId generation) = some blob) ∧
          ending.state.lookup (.itemSecret itemId generation) = none) ∧
      ending.outcome = .returned (.ok (.reconciled removed.length []))) ∧
    broker.view ending.state = broker.view vault ∧
    (∀ itemId generation, (∃ blob, ending.state.lookup (.itemSecret itemId generation) = some blob) ↔
      ∃ item, broker.itemKind.stored ending.state itemId = some item ∧ item.currentGeneration = generation) ∧
    (∀ name, ending.state[name]? = vault[name]? ∨
      ending.state[name]? = none ∧ ∃ itemId generation, TargetName.toString (.itemSecret itemId generation) = name) ∧
    (again.outcome = .returned (.ok (.reconciled 0 [])) ∧ again.state = ending.state) ∧
    (broker.respond ⟨.reconcile, undisturbed⟩ left).state = ending.state := by
  intro vault ending again left
  have hsound : broker.Sound vault := sound_empty.after steps
  have hending : ending = ⟨.returned (.ok (.reconciled (broker.abandoned vault).length [])),
      broker.recovered vault, undisturbed⟩ := by
    rw [← hsound.missing_eq_nil]
    exact broker.respond_reconcile vault
  have hstate : ending.state = broker.recovered vault := by rw [hending]
  have hrecovered : broker.Sound (broker.recovered vault) := hstate ▸ hsound.respond _
  rw [hstate]
  refine ⟨⟨broker.abandoned vault, broker.nodup_abandoned vault, fun itemId generation => ?_, by rw [hending]⟩,
    ?_, fun _ _ => hsound.secret_recovered_iff, broker.recovered_getElem? vault, ?_, ?_⟩
  · refine ⟨fun hmem => ⟨(mem_abandoned.mp hmem).1, Vault.sweep_eq_none_of_mem hmem⟩, fun ⟨hsome, hnone⟩ => ?_⟩
    refine mem_abandoned.mpr ⟨hsome, fun item hitem hgeneration => ?_⟩
    obtain ⟨blob, hblob⟩ := hsome
    subst hgeneration
    rw [recovered, lookup_sweep_committed (List.Subset.refl _) hitem, hblob] at hnone
    cases hnone
  · rw [hrecovered.view_eq, hsound.view_eq, recovered, visible_sweep (List.Subset.refl _)]
  · have hagain : again = _ := broker.respond_reconcile ending.state
    have hsame : broker.recovered (broker.recovered vault) = broker.recovered vault :=
      recovered_sweep (List.Subset.refl _)
    rw [hagain, hstate, abandoned_recovered, hrecovered.missing_eq_nil, hsame]
    exact ⟨rfl, rfl⟩
  · rw [respond_reconcile]
    exact recovered_after_reconciles interrupted

end Broker

end WincredLibsecret
