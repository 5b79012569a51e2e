import WincredLibsecret.ProtocolTarget

/-! The registry key that enables a distribution. The command line writes it under the text of an identifier
and the plugin looks it up under the fields of a GUID. Both print the same text, so that the plugin reads what
was written for this distribution and for no other one. -/

namespace WincredLibsecret

open TextCodec

/-- An identifier of a distribution as the plugin receives it. -/
structure Guid where
  data1 : UInt32
  data2 : UInt16
  data3 : UInt16
  data4 : Vector UInt8 8
  deriving DecidableEq

namespace Guid

/-- The canonical text of a GUID. -/
def text (guid : Guid) : String :=
  String.ofList (['-'].intercalate [hexDigits 8 guid.data1.toNat, hexDigits 4 guid.data2.toNat,
    hexDigits 4 guid.data3.toNat, (guid.data4.toList.take 2).flatMap fun byte => hexDigits 2 byte.toNat,
    (guid.data4.toList.drop 2).flatMap fun byte => hexDigits 2 byte.toNat])

/-- The fields of a GUID read as one number. -/
def toUuid (guid : Guid) : Uuid :=
  ⟨BitVec.ofNat 128 (guid.data4.toList.foldl (fun read byte => read * 16 ^ 2 + byte.toNat)
    ((guid.data1.toNat * 16 ^ 4 + guid.data2.toNat) * 16 ^ 4 + guid.data3.toNat))⟩

theorem hexDigits_foldl (bytes : List UInt8) (width read : Nat) :
    hexDigits (width + 2 * bytes.length) (bytes.foldl (fun read byte => read * 16 ^ 2 + byte.toNat) read) =
      hexDigits width read ++ bytes.flatMap fun byte => hexDigits 2 byte.toNat := by
  induction bytes generalizing width read with
  | nil => simp
  | cons byte bytes ih =>
      have hwidth : width + 2 * (byte :: bytes).length = width + 2 + 2 * bytes.length := by
        rw [List.length_cons]
        omega
      rw [List.foldl_cons, hwidth, ih, hexDigits_mul_add width 2 read byte.toNat byte.toNat_lt, List.append_assoc,
        List.flatMap_cons]

theorem digits_toUuid (guid : Guid) :
    guid.toUuid.digits = hexDigits 8 guid.data1.toNat ++ (hexDigits 4 guid.data2.toNat ++
      (hexDigits 4 guid.data3.toNat ++ guid.data4.toList.flatMap fun byte => hexDigits 2 byte.toNat)) := by
  have hlength : 32 = 8 + 4 + 4 + 2 * guid.data4.toList.length := by rw [Vector.length_toList]
  rw [Uuid.digits, toUuid, BitVec.toNat_ofNat, show 2 ^ 128 = 16 ^ 32 by norm_num, hexDigits_mod]
  rw [hlength, hexDigits_foldl, hexDigits_mul_add _ 4 _ _ guid.data3.toNat_lt,
    hexDigits_mul_add _ 4 _ _ guid.data2.toNat_lt,
    List.append_assoc, List.append_assoc]

theorem length_flatMap_hexDigits (bytes : List UInt8) :
    (bytes.flatMap fun byte => hexDigits 2 byte.toNat).length = 2 * bytes.length := by
  induction bytes with
  | nil => rfl
  | cons byte bytes ih =>
      rw [List.flatMap_cons, List.length_append, ih, length_hexDigits, List.length_cons]
      omega

/-- The identifier with the fields of a GUID has its text. -/
theorem toString_toUuid (guid : Guid) : guid.toUuid.toString = guid.text := by
  have hbytes : guid.data4.toList.flatMap (fun byte => hexDigits 2 byte.toNat) =
      (guid.data4.toList.take 2).flatMap (fun byte => hexDigits 2 byte.toNat) ++
        (guid.data4.toList.drop 2).flatMap fun byte => hexDigits 2 byte.toNat := by
    rw [← List.flatMap_append, List.take_append_drop]
  have hfirst : ((guid.data4.toList.take 2).flatMap fun byte => hexDigits 2 byte.toNat).length = 4 := by
    rw [length_flatMap_hexDigits, List.length_take, Vector.length_toList]
    rfl
  have hgroups : guid.toUuid.groups = [hexDigits 8 guid.data1.toNat, hexDigits 4 guid.data2.toNat,
      hexDigits 4 guid.data3.toNat, (guid.data4.toList.take 2).flatMap (fun byte => hexDigits 2 byte.toNat),
      (guid.data4.toList.drop 2).flatMap fun byte => hexDigits 2 byte.toNat] := by
    have hnil : ∀ width n k, width ≤ k → (hexDigits width n).drop k = [] := fun width n k hle =>
      List.drop_of_length_le (by rwa [length_hexDigits])
    rw [Uuid.groups, digits_toUuid, hbytes]
    simp [List.drop_append, hfirst, hnil]
  rw [Uuid.toString, Uuid.hyphenated, hgroups, text]

theorem flatMap_hexDigits_injective {left right : List UInt8}
    (h : left.flatMap (fun byte => hexDigits 2 byte.toNat) = right.flatMap fun byte => hexDigits 2 byte.toNat) :
    left = right := by
  induction left generalizing right with
  | nil =>
      have hlength := congrArg List.length h
      rw [length_flatMap_hexDigits, length_flatMap_hexDigits] at hlength
      exact (List.eq_nil_of_length_eq_zero (by simpa using hlength.symm)).symm
  | cons byte left ih =>
      cases right with
      | nil =>
          have hlength := congrArg List.length h
          simp at hlength
      | cons other right =>
          rw [List.flatMap_cons, List.flatMap_cons] at h
          obtain ⟨hbyte, hrest⟩ := List.append_inj h (by rw [length_hexDigits, length_hexDigits])
          rw [UInt8.toNat_inj.mp (hexDigits_inj byte.toNat_lt other.toNat_lt hbyte), ih hrest]

theorem toUuid_injective : Function.Injective toUuid := by
  intro left right h
  have hdigits := congrArg Uuid.digits h
  rw [digits_toUuid, digits_toUuid] at hdigits
  obtain ⟨hdata1, hdigits⟩ := List.append_inj hdigits (by simp)
  obtain ⟨hdata2, hdigits⟩ := List.append_inj hdigits (by simp)
  obtain ⟨hdata3, hdata4⟩ := List.append_inj hdigits (by simp)
  have h1 := UInt32.toNat_inj.mp (hexDigits_inj left.data1.toNat_lt right.data1.toNat_lt hdata1)
  have h2 := UInt16.toNat_inj.mp (hexDigits_inj left.data2.toNat_lt right.data2.toNat_lt hdata2)
  have h3 := UInt16.toNat_inj.mp (hexDigits_inj left.data3.toNat_lt right.data3.toNat_lt hdata3)
  have h4 := Vector.toList_inj.mp (flatMap_hexDigits_injective hdata4)
  cases left
  cases right
  simp only [mk.injEq]
  exact ⟨h1, h2, h3, h4⟩

end Guid

/-- A value of the registry: its type and its bytes. -/
structure RegistryValue where
  type : UInt32
  data : List UInt8
  deriving DecidableEq

/-- The keys of a user by their path, each with its values by name. -/
abbrev Registry := String → Option (String → Option RegistryValue)

namespace Registry

/-- A key lies below another one when its path goes on behind a separator. -/
def IsBelow (path ancestor : String) : Prop := ancestor.toList ++ ['\\'] <+: path.toList

instance (path ancestor : String) : Decidable (IsBelow path ancestor) :=
  inferInstanceAs (Decidable (_ <+: _))

/-- Creates a key with the keys above it, as far as they are missing. -/
def createSubkey (registry : Registry) (path : String) : Registry := fun key =>
  if key = path ∨ IsBelow path key then some ((registry key).getD fun _ => none) else registry key

def setValue (registry : Registry) (path name : String) (value : RegistryValue) : Registry := fun key =>
  if key = path then (registry key).map fun values => Function.update values name (some value) else registry key

/-- Deletes a key with the keys below it; nothing is to be done for a missing one. -/
def deleteSubkeyAll (registry : Registry) (path : String) : Registry := fun key =>
  if key = path ∨ IsBelow key path then none else registry key

end Registry

def regDword : UInt32 := 4

namespace Plugin

def registryPrefix : String := "Software\\wincred-libsecret\\WSLPlugin\\Distributions\\"

def enabledValueName : String := "Enabled"

def hexDigitTable : List Char := "0123456789abcdef".toList

/-- Appends the digits of a number from the highest of the given ones on. -/
def appendHex (result : String) (value : UInt64) : Nat → String
  | 0 => result
  | index + 1 =>
      let nibble := (value >>> UInt64.ofNat (index * 4)) &&& 0xF
      appendHex (result.push (hexDigitTable.getD nibble.toNat '0')) value index

def distributionRegistryPath (guid : Guid) : String :=
  let path := registryPrefix.push '\x7b'
  let path := (appendHex path guid.data1.toUInt64 8).push '-'
  let path := (appendHex path guid.data2.toUInt64 4).push '-'
  let path := (appendHex path guid.data3.toUInt64 4).push '-'
  let path := appendHex path (guid.data4.get 0).toUInt64 2
  let path := (appendHex path (guid.data4.get 1).toUInt64 2).push '-'
  let path := [2, 3, 4, 5, 6, 7].foldl (fun path index => appendHex path (guid.data4.get index).toUInt64 2) path
  path.push '\x7d'

structure EnablementResult where
  enabled : Bool
  status : UInt32
  deriving DecidableEq

def sOk : UInt32 := 0

def hresultFromWin32 (status : UInt32) : UInt32 :=
  if status = 0 then 0x80004005 else (status &&& 0xFFFF) ||| 0x80070000

def errorMoreData : UInt32 := 234

def errorDatatypeMismatch : UInt32 := 1629

/-- Reads the flag of a distribution once the user's registry is open. A value that is longer than the flag is
refused by the query, another one of a wrong type or size by the reader. -/
def read (registry : Registry) (guid : Guid) : EnablementResult :=
  match registry (distributionRegistryPath guid) with
  | none => ⟨false, sOk⟩
  | some values =>
      match values enabledValueName with
      | none => ⟨false, sOk⟩
      | some value =>
          if 4 < value.data.length then ⟨false, hresultFromWin32 errorMoreData⟩
          else if value.type ≠ regDword ∨ value.data.length ≠ 4 then
            ⟨false, hresultFromWin32 errorDatatypeMismatch⟩
          else ⟨value.data.any fun byte => byte != 0, sOk⟩

theorem hexDigitTable_getD : ∀ n : Fin 16, hexDigitTable.getD n '0' = Nat.digitChar n := by decide

theorem toList_appendHex (result : String) (value : UInt64) (width : Nat) (hwidth : width ≤ 16) :
    (appendHex result value width).toList = result.toList ++ hexDigits width value.toNat := by
  induction width generalizing result with
  | zero => simp [appendHex, hexDigits]
  | succ index ih =>
      have hnibble : ((value >>> UInt64.ofNat (index * 4)) &&& 0xF).toNat = value.toNat / 16 ^ index % 16 := by
        have hshift : (UInt64.ofNat (index * 4)).toNat % 64 = index * 4 := by
          rw [UInt64.toNat_ofNat']
          omega
        rw [UInt64.toNat_and, UInt64.toNat_shiftRight, hshift, Nat.shiftRight_eq_div_pow, Nat.mul_comm, pow_mul]
        exact Nat.and_two_pow_sub_one_eq_mod _ 4
      have hdigit := hexDigitTable_getD ⟨value.toNat / 16 ^ index % 16, Nat.mod_lt _ (by decide)⟩
      rw [appendHex, ih _ (by omega), String.toList_push, hnibble, hdigit, hexDigits_succ, List.append_assoc]
      rfl

theorem toList_distributionRegistryPath (guid : Guid) :
    (distributionRegistryPath guid).toList =
      registryPrefix.toList ++ ('\x7b' :: (guid.text.toList ++ ['\x7d'])) := by
  have hbytes : guid.data4.toList = [guid.data4.get 0, guid.data4.get 1, guid.data4.get 2, guid.data4.get 3,
      guid.data4.get 4, guid.data4.get 5, guid.data4.get 6, guid.data4.get 7] := by
    apply List.ext_getElem
    · rw [Vector.length_toList]
      rfl
    · intro index hleft hright
      match index with
      | 0 | 1 | 2 | 3 | 4 | 5 | 6 | 7 => rfl
      | index + 8 =>
          rw [Vector.length_toList] at hleft
          omega
  rw [Guid.text, hbytes]
  simp [distributionRegistryPath, toList_appendHex, List.intercalate]

end Plugin

namespace Cli

def distributionEnablementPrefix : String := "Software\\wincred-libsecret\\WSLPlugin\\Distributions\\"

def distributionEnablementValue : String := "Enabled"

def distributionRegistryPath (id : Uuid) : String :=
  distributionEnablementPrefix ++ "\x7b" ++ id.toString ++ "\x7d"

/-- Writes or removes the flag of a distribution, with every call of the registry succeeding. -/
def setDistributionEnabled (registry : Registry) (id : Uuid) (enabled : Bool) : Registry :=
  let path := distributionRegistryPath id
  if enabled then
    (registry.createSubkey path).setValue path distributionEnablementValue ⟨regDword, [1, 0, 0, 0]⟩
  else registry.deleteSubkeyAll path

theorem toList_distributionRegistryPath (id : Uuid) :
    (distributionRegistryPath id).toList =
      distributionEnablementPrefix.toList ++ ('\x7b' :: (id.toString.toList ++ ['\x7d'])) := by
  simp [distributionRegistryPath, String.toList_append]

theorem distributionRegistryPath_injective : Function.Injective distributionRegistryPath := by
  intro left right h
  have hlist := congrArg String.toList h
  rw [toList_distributionRegistryPath, toList_distributionRegistryPath] at hlist
  have htext := (List.cons.inj (List.append_cancel_left hlist)).2
  exact Uuid.toString_injective (String.toList_injective (List.append_cancel_right htext))

/-- All flags lie at the same depth, so that none is created or deleted along with another one. -/
theorem not_isBelow (left right : Uuid) :
    ¬ Registry.IsBelow (distributionRegistryPath left) (distributionRegistryPath right) := by
  have hlength : ∀ id, (distributionRegistryPath id).toList.length =
      distributionEnablementPrefix.toList.length + 38 := by
    intro id
    rw [toList_distributionRegistryPath, Uuid.toString, String.toList_ofList]
    simp [Uuid.length_hyphenated]
  intro hbelow
  have hle := hbelow.length_le
  rw [List.length_append, hlength, hlength, List.length_singleton] at hle
  omega

theorem setDistributionEnabled_of_ne (registry : Registry) {id other : Uuid} (hne : other ≠ id) (enabled : Bool) :
    setDistributionEnabled registry id enabled (distributionRegistryPath other) =
      registry (distributionRegistryPath other) := by
  have hpath : distributionRegistryPath other ≠ distributionRegistryPath id := fun h =>
    hne (distributionRegistryPath_injective h)
  cases enabled <;>
    simp [setDistributionEnabled, Registry.createSubkey, Registry.setValue, Registry.deleteSubkeyAll, hpath,
      not_isBelow]

end Cli

namespace Plugin

/-- The plugin looks a distribution up under the path the command line writes for the same identifier. -/
theorem distributionRegistryPath_eq (guid : Guid) :
    distributionRegistryPath guid = Cli.distributionRegistryPath guid.toUuid := by
  apply String.toList_injective
  rw [toList_distributionRegistryPath, Cli.toList_distributionRegistryPath, Guid.toString_toUuid]
  rfl

theorem distributionRegistryPath_injective : Function.Injective distributionRegistryPath := by
  intro left right h
  rw [distributionRegistryPath_eq, distributionRegistryPath_eq] at h
  exact Guid.toUuid_injective (Cli.distributionRegistryPath_injective h)

theorem read_setDistributionEnabled (registry : Registry) (guid : Guid) (enabled : Bool) :
    read (Cli.setDistributionEnabled registry guid.toUuid enabled) guid = ⟨enabled, sOk⟩ := by
  rw [read, distributionRegistryPath_eq]
  cases enabled with
  | false => simp [Cli.setDistributionEnabled, Registry.deleteSubkeyAll]
  | true =>
      simp [Cli.setDistributionEnabled, Registry.createSubkey, Registry.setValue, enabledValueName,
        Cli.distributionEnablementValue]

theorem read_setDistributionEnabled_of_ne (registry : Registry) {guid other : Guid} (hne : other ≠ guid)
    (enabled : Bool) :
    read (Cli.setDistributionEnabled registry guid.toUuid enabled) other = read registry other := by
  rw [read, read, distributionRegistryPath_eq,
    Cli.setDistributionEnabled_of_ne registry fun h => hne (Guid.toUuid_injective h)]

/-- Each GUID is the text of one identifier. The path of the plugin for the GUID is the path of the command line
for that identifier, the flag the command line writes there is the flag the plugin reads, the flags of other
distributions stay, and different GUIDs have different paths. -/
theorem plugin_and_cli_share_enablement_key :
    (∀ guid : Guid, ∃! id : Uuid, id.toString = guid.text) ∧
    (∀ (guid : Guid) (id : Uuid), id.toString = guid.text →
      distributionRegistryPath guid = Cli.distributionRegistryPath id ∧
      ∀ (registry : Registry) (enabled : Bool),
        read (Cli.setDistributionEnabled registry id enabled) guid = ⟨enabled, sOk⟩ ∧
        ∀ other ≠ guid, read (Cli.setDistributionEnabled registry id enabled) other = read registry other) ∧
    Function.Injective distributionRegistryPath := by
  refine ⟨fun guid => ⟨guid.toUuid, guid.toString_toUuid, ?_⟩, ?_, distributionRegistryPath_injective⟩
  · intro id hid
    exact Uuid.toString_injective (hid.trans guid.toString_toUuid.symm)
  · intro guid id hid
    obtain rfl := Uuid.toString_injective (hid.trans guid.toString_toUuid.symm)
    exact ⟨distributionRegistryPath_eq guid, fun registry enabled =>
      ⟨read_setDistributionEnabled registry guid enabled, fun other hne =>
        read_setDistributionEnabled_of_ne registry hne enabled⟩⟩

def sampleGuid : Guid := ⟨0x01234567, 0x0089, 0x00AB, #v[0x0C, 0xDE, 0xF0, 1, 2, 3, 4, 5]⟩

theorem plugin_and_cli_share_sample_key :
    ∃ id : Uuid, id.toString = sampleGuid.text ∧
      distributionRegistryPath sampleGuid = Cli.distributionRegistryPath id ∧
      read (Cli.setDistributionEnabled (fun _ => none) id true) sampleGuid = ⟨true, sOk⟩ := by
  obtain ⟨hexists, hshared, -⟩ := plugin_and_cli_share_enablement_key
  obtain ⟨id, hid, -⟩ := hexists sampleGuid
  obtain ⟨hpath, hread⟩ := hshared sampleGuid id hid
  exact ⟨id, hid, hpath, (hread _ true).1⟩

example : sampleGuid.text = "01234567-0089-00ab-0cde-f00102030405" := by decide +kernel

end Plugin

end WincredLibsecret
