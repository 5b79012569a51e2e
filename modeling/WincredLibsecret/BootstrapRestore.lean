import WincredLibsecret.ProtocolModel
import WincredLibsecret.BootstrapRules

/-! What the provisioning script takes back: a restore puts the last entry of each path in its place, a removal
takes the project's files away and leaves those of others. -/

namespace WincredLibsecret

namespace Bootstrap

open Effect Shell

/-- Every definition is the one its last line restores, if there is such a line, and no other file has changed. -/
structure Restores (lines : List ManifestLine) (fs world : FileSystem) : Prop where
  definition : ∀ path, world.definition path = (lastEntry path lines).elim (fs.definition path) fs.restored
  others : ∀ path, (∀ target, path ≠ .definition target) → world.files path = fs.files path
  manifest : world.manifest = fs.manifest

/-- All lines are entries with a backup. -/
def Complete (fs : FileSystem) (lines : List ManifestLine) : Prop :=
  ∀ line ∈ lines, ∃ entry, line = .entry entry ∧ fs.recorded entry ≠ none

theorem recorded_put_definition (fs : FileSystem) (target : DefinitionPath) (file : Option File) :
    (fs.put (.definition target) file).recorded = fs.recorded := by
  funext entry
  have hne : Path.backup entry.stamp entry.index ≠ .definition target := nofun
  rw [FileSystem.recorded, FileSystem.files_put, Function.update_of_ne hne, FileSystem.recorded]

variable {lines : List ManifestLine} {fs : FileSystem} {err : Exit Command → FileSystem → Prop}

theorem Restores.cons {entry : BackupEntry} {world : FileSystem}
    (h : Restores lines (fs.put (.definition entry.target) (fs.restored entry)) world) :
    Restores (.entry entry :: lines) fs world where
  definition := by
    intro path
    rw [h.definition, lastEntry]
    cases lastEntry path lines with
    | some last => exact congrFun (FileSystem.restored_congr (recorded_put_definition ..)) last
    | none =>
        by_cases hpath : entry.target = path
        · rw [if_pos hpath, ← hpath]
          exact Function.update_self ..
        · rw [if_neg hpath]
          exact FileSystem.definition_put_of_ne fun heq => hpath (Path.definition.inj heq)
  others := by
    intro path hpath
    rw [h.others path hpath, FileSystem.files_put, Function.update_of_ne (hpath entry.target)]
  manifest := h.manifest

theorem wp_restoreLines :
    Action.wp (serve FileSystem.effect) (fun _ => False) (restoreLines lines fs)
      (fun _ => Restores lines fs) (fun _ _ => ¬ Complete fs lines) (fun _ => True) fs := by
  induction lines generalizing fs with
  | nil => exact ⟨trivial, fun _ => rfl, fun _ _ => rfl, rfl⟩
  | cons line rest ih =>
      cases line with
      | malformed =>
          refine ⟨trivial, fun hcomplete => ?_⟩
          obtain ⟨entry, hentry, -⟩ := hcomplete _ List.mem_cons_self
          cases hentry
      | entry entry =>
          rw [restoreLines]
          cases hbackup : fs.files (.backup entry.stamp entry.index) with
          | none =>
              refine ⟨trivial, fun hcomplete => ?_⟩
              obtain ⟨other, hother, hrecorded⟩ := hcomplete _ List.mem_cons_self
              cases hother
              simp [FileSystem.recorded, hbackup] at hrecorded
          | some file =>
              have hrestored : fs.restored entry =
                  some ⟨file.content, entry.uid, entry.gid, chownMode entry.mode⟩ := by
                rw [FileSystem.restored, FileSystem.recorded, hbackup, Option.map_some, Option.map_some,
                  File.givenBack]
              have hinstall : FileSystem.effect
                  (.install (.backup entry.stamp entry.index) (.definition entry.target) entry.mode) fs =
                    some (fs.put (.definition entry.target) (some ⟨file.content, 0, 0, entry.mode⟩)) := by
                rw [FileSystem.effect, hbackup, Option.map_some]
              have howner : FileSystem.effect (.changeOwner (.definition entry.target) entry.uid entry.gid)
                  (fs.put (.definition entry.target) (some ⟨file.content, 0, 0, entry.mode⟩)) =
                    some (fs.put (.definition entry.target) (fs.restored entry)) := by
                simp [FileSystem.effect, hrestored]
              rw [if_neg (by simp)]
              simp only [Action.wp_bind]
              refine wp_run_undisturbed hinstall trivial trivial (wp_run_undisturbed howner trivial trivial ?_)
              refine Action.wp_mono (fun _ _ h => h.cons) (fun _ _ hrest hcomplete => hrest fun line hline => ?_)
                (fun _ h => h) ih
              obtain ⟨other, hother, hkept⟩ := hcomplete line (List.mem_cons_of_mem _ hline)
              exact ⟨other, hother, by rwa [recorded_put_definition]⟩

theorem wp_dropBackups {world : FileSystem} {ok : Unit → FileSystem → Prop}
    (hworld : ∀ path, (∀ stamp index, path ≠ .backup stamp index) → world.files path = fs.files path)
    (hok : ∀ final : FileSystem, (∀ path, (∀ stamp index, path ≠ .backup stamp index) →
      final.files path = fs.files path) → ok () final) :
    Action.wp (serve FileSystem.effect) (fun _ => False) (dropBackups lines) ok err (fun _ => True) world := by
  induction lines generalizing world with
  | nil => exact ⟨trivial, hok world hworld⟩
  | cons line rest ih =>
      cases line with
      | malformed => exact ih hworld
      | entry entry =>
          simp only [dropBackups, Action.wp_bind, Action.wp_attempt]
          refine wp_run_undisturbed rfl trivial trivial
            (wp_run_undisturbed rfl trivial trivial (ih fun path hpath => ?_))
          rw [← hworld path hpath]
          exact Function.update_of_ne (hpath entry.stamp entry.index) _ _

/-- The backups can be restored: every line is an entry with a backup, for a path no other provider owns. -/
def Restorable (fs : FileSystem) : Prop :=
  Complete fs fs.lines ∧ ∀ entry, .entry entry ∈ fs.lines → ¬ fs.HoldsForeign entry.target

theorem verifyBackupsCanRestore_eq_ok :
    verifyBackupsCanRestore fs = .ok () ↔
      ∀ line ∈ fs.lines, ∃ entry, line = .entry entry ∧ ¬ fs.HoldsForeign entry.target := by
  have hline : ∀ line, verifyLine fs line = .ok () ↔ ∃ entry, line = .entry entry ∧ ¬ fs.HoldsForeign entry.target := by
    intro line
    cases line <;> simp [verifyLine]
  rw [verifyBackupsCanRestore, forM_eq_ok]
  exact forall₂_congr fun line _ => hline line

/-- What a restore leaves that is not given up. -/
structure RestoredAll (fs world : FileSystem) : Prop where
  definition : ∀ path, world.definition path = (lastEntry path fs.lines).elim (fs.definition path) fs.restored
  others : ∀ path, path.IsElsewhere → world.files path = fs.files path
  manifest : world.manifest = none

theorem wp_restoreBackups :
    Action.wp (serve FileSystem.effect) (fun _ => False) (restoreBackups fs) (fun _ => RestoredAll fs)
      (fun _ _ => ¬ Restorable fs) (fun _ => True) fs := by
  unfold restoreBackups
  cases hmanifest : fs.manifest with
  | none =>
      have hlines : fs.lines = [] := by rw [FileSystem.lines, hmanifest, Option.elim_none]
      exact ⟨trivial, fun path => by rw [hlines]; rfl, fun _ _ => rfl, hmanifest⟩
  | some manifest =>
      have hlines : fs.lines = manifest.lines := by rw [FileSystem.lines, hmanifest, Option.elim_some]
      simp only [Action.wp_bind, wp_orDie]
      refine ⟨trivial, fun _ hverified => ?_, fun message hrefused hrestorable => ?_⟩
      · refine Action.wp_mono (fun _ restored hrestored => ?_) (fun _ _ hmissing hrestorable => ?_) (fun _ h => h)
          wp_restoreLines
        · refine wp_dropBackups (fun _ _ => rfl) fun final hfinal => ?_
          refine wp_run_undisturbed rfl trivial trivial ⟨trivial, fun path => ?_, fun path hpath => ?_, rfl⟩
          · rw [hlines, ← hrestored.definition]
            exact hfinal _ (by simp)
          · have hbackup : ∀ stamp index, path ≠ .backup stamp index := by
              rintro stamp index rfl
              exact hpath
            have hdefinition : ∀ target, path ≠ .definition target := by
              rintro target rfl
              exact hpath
            exact (hfinal path hbackup).trans (hrestored.others path hdefinition)
        · rw [Restorable, hlines] at hrestorable
          exact hmissing hrestorable.1
      · have hverified : verifyBackupsCanRestore fs = .ok () := verifyBackupsCanRestore_eq_ok.mpr fun line hline => by
          obtain ⟨entry, rfl, -⟩ := hrestorable.1 line hline
          exact ⟨entry, rfl, hrestorable.2 entry hline⟩
        rw [hverified] at hrefused
        cases hrefused

/-- A file, unless it is the project's. -/
def foreignOnly (file : Option File) : Option File := file.filter fun file => decide ¬ file.IsProjectOwned

/-- A file system without the project's definition and units. -/
def FileSystem.withoutServices (fs : FileSystem) : FileSystem :=
  (((fs.put (.definition .global) (foreignOnly (fs.definition .global))).put .userUnit
    (foreignOnly (fs.files .userUnit))).put .refreshUnit (foreignOnly (fs.files .refreshUnit))).put .interopUnit
    (foreignOnly (fs.files .interopUnit))

theorem foreignOnly_of_not_owned {path : Path} (h : ¬ fs.IsProjectOwned path) :
    foreignOnly (fs.files path) = fs.files path := by
  cases hfile : fs.files path with
  | none => rfl
  | some file =>
      have hforeign : ¬ file.IsProjectOwned := fun howned => h ⟨file, hfile, howned⟩
      simp [foreignOnly, hforeign]

theorem foreignOnly_of_owned {path : Path} (h : fs.IsProjectOwned path) : foreignOnly (fs.files path) = none := by
  obtain ⟨file, hfile, howned⟩ := h
  simp [foreignOnly, Option.mem_def.mp hfile, howned]

theorem wp_removeProjectFile {ok : FileSystem → FileSystem → Prop} {path : Path}
    (hok : ok (fs.put path (foreignOnly (fs.files path))) (fs.put path (foreignOnly (fs.files path)))) :
    Action.wp (serve FileSystem.effect) (fun _ => False) (removeProjectFile path fs) ok err (fun _ => True) fs := by
  unfold removeProjectFile
  split_ifs with howned
  · rw [foreignOnly_of_owned howned] at hok
    exact wp_run_undisturbed rfl trivial trivial hok
  · have hsame : fs.put path (foreignOnly (fs.files path)) = fs := by
      rw [foreignOnly_of_not_owned howned, FileSystem.put, Function.update_eq_self]
    rw [hsame] at hok
    exact ⟨trivial, hok⟩

theorem wp_removeProjectServices {ok : FileSystem → FileSystem → Prop}
    (hok : ok fs.withoutServices fs.withoutServices) :
    Action.wp (serve FileSystem.effect) (fun _ => False) (removeProjectServices fs) ok err (fun _ => True) fs := by
  simp only [removeProjectServices, Action.wp_bind]
  exact wp_removeProjectFile (wp_removeProjectFile (wp_removeProjectFile (wp_removeProjectFile hok)))

end Bootstrap

end WincredLibsecret
