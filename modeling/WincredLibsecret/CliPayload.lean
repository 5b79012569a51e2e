import WincredLibsecret.TextCase
import WincredLibsecret.TextScan
import WincredLibsecret.WindowsPath
import WincredLibsecret.ProtocolModel

/-! The verification of the Linux payload before it is installed: every line of the manifest names a file below the
payload and its digest, and the required files have to be there. What is proved is how far that goes: a required
file is only vouched for if some line names it, and a file is only sure to lie below the payload if its line has no
drive. -/

namespace WincredLibsecret.Cli

open TextCodec TextScan

/-- The regular files of the machine, found by their paths, and what can be read of them. Several paths may lead to
one file. -/
structure FileStore (File : Type) where
  locate : WindowsPath → Option File
  content : File → Option Blob

namespace FileStore

variable {File : Type} (store : FileStore File)

def read (path : WindowsPath) : Option Blob := (store.locate path).bind store.content

def isFile (path : WindowsPath) : Bool := (store.locate path).isSome

end FileStore

inductive PayloadError where
  | manifestMissing (manifest : WindowsPath)
  | invalidEntry
  | invalidHash
  | unsafePath
  | fileMissing (relative : List Char)
  | hashMismatch (relative : List Char)
  | noFiles
  | requiredMissing (name : String)
  deriving DecidableEq

def linuxPayloadManifest : String := "manifest.sha256"

def linuxBootstrap : String := "wincred-libsecret-bootstrap.sh"

def requiredFiles : List String :=
  [linuxBootstrap, "wincred-libsecret-provider", "org.freedesktop.secrets.service", "wincred-libsecret.service",
    "wincred-libsecret-refresh.service"]

/-- The payload's path to a name that the tool itself knows. -/
def payloadFile (root : WindowsPath) (name : String) : WindowsPath := root.join (WindowsPath.parse name.toList)

def isHash (expected : List Char) : Bool := expected.length = 64 && expected.all fun c => (hexValue c).isSome

def isSafe (relative : WindowsPath) : Bool :=
  !relative.isAbsolute &&
    !relative.components.any fun component => component = .parentDir || component = .rootDir

section

variable {File : Type} (sha256 : Blob → Vector UInt8 32) (store : FileStore File) (root : WindowsPath)

/-- The digest as it is printed. -/
def digestText (content : Blob) : List Char := (sha256 content).toList.flatMap fun byte => hexDigits 2 byte.toNat

/-- One line of the manifest: the files it reads, and whether they are as it says. -/
def verifyLine (line : List Char) : List WindowsPath × Except PayloadError Unit :=
  match splitOnce [' ', ' '] line with
  | none => ([], .error .invalidEntry)
  | some (expected, text) =>
      let relative := WindowsPath.parse text
      if !isHash expected then ([], .error .invalidHash)
      else if !isSafe relative then ([], .error .unsafePath)
      else
        let path := root.join relative
        match store.read path with
        | none => ([path], .error (.fileMissing text))
        | some content =>
            let actual := digestText sha256 content
            if actual.map Char.toLower = expected.map Char.toLower then ([path], .ok ())
            else ([path], .error (.hashMismatch text))

/-- The lines in order, up to the first that fails; the files read, and the number of lines. -/
def verifyLines : List (List Char) → Nat → List WindowsPath × Except PayloadError Nat
  | [], count => ([], .ok count)
  | line :: lines, count =>
      match verifyLine sha256 store root line with
      | (reads, .error error) => (reads, .error error)
      | (reads, .ok ()) => (reads ++ (verifyLines lines (count + 1)).1, (verifyLines lines (count + 1)).2)

def checkRequired : List String → Except PayloadError Unit
  | [] => .ok ()
  | name :: names =>
    if store.isFile (payloadFile root name) then checkRequired names else .error (.requiredMissing name)

/-- The lines of a manifest that count. -/
def entries (text : String) : List (List Char) := (lines text.toList).filter fun line => trim line ≠ []

/-- The manifest is a text. -/
def readManifest : Option String := (store.read (payloadFile root linuxPayloadManifest)).bind textOfBytes

def verifyPayload : List WindowsPath × Except PayloadError Unit :=
  match readManifest store root with
  | none => ([], .error (.manifestMissing (payloadFile root linuxPayloadManifest)))
  | some text =>
      match verifyLines sha256 store root (entries text) 0 with
      | (reads, .error error) => (reads, .error error)
      | (reads, .ok count) => (reads, if count = 0 then .error .noFiles else checkRequired store root requiredFiles)

/-- The line names a file by a well-formed digest and an acceptable path. -/
def Names (line expected relative : List Char) : Prop :=
  splitOnce [' ', ' '] line = some (expected, relative) ∧ isHash expected ∧ isSafe (WindowsPath.parse relative)

/-- The line names a file that has the digest. -/
def Passes (line : List Char) : Prop :=
  ∃ expected relative content, Names line expected relative ∧
    store.read (root.join (WindowsPath.parse relative)) = some content ∧
    digestText sha256 content = expected.map Char.toLower

variable {sha256 store root}

theorem map_toLower_digestText (content : Blob) :
    (digestText sha256 content).map Char.toLower = digestText sha256 content := by
  rw [digestText, List.map_flatMap]
  simp only [map_toLower_hexDigits]

theorem Names.unique {line expected relative otherExpected otherRelative : List Char} (h : Names line expected relative)
    (hother : Names line otherExpected otherRelative) : otherExpected = expected ∧ otherRelative = relative := by
  have heq := Option.some.inj (hother.1.symm.trans h.1)
  exact ⟨(Prod.mk.inj heq).1, (Prod.mk.inj heq).2⟩

variable (sha256 store root) in
/-- A line without an acceptable path reads nothing and fails; any other reads the file it names. -/
theorem verifyLine_cases (line : List Char) :
    ((∀ expected relative, ¬Names line expected relative) ∧
      ∃ error, verifyLine sha256 store root line = ([], .error error)) ∨
    ∃ expected relative, Names line expected relative ∧
      (verifyLine sha256 store root line).1 = [root.join (WindowsPath.parse relative)] ∧
      ((verifyLine sha256 store root line).2 = .ok () ↔
        ∃ content, store.read (root.join (WindowsPath.parse relative)) = some content ∧
          digestText sha256 content = expected.map Char.toLower) := by
  rw [verifyLine]
  cases hsplit : splitOnce [' ', ' '] line with
  | none =>
      refine .inl ⟨fun expected relative hnames => ?_, _, rfl⟩
      rw [Names, hsplit] at hnames
      cases hnames.1
  | some entry =>
      obtain ⟨expected, relative⟩ := entry
      have hnames : ∀ otherExpected otherRelative, Names line otherExpected otherRelative →
          isHash expected ∧ isSafe (WindowsPath.parse relative) := by
        rintro otherExpected otherRelative ⟨hother, hhash, hsafe⟩
        cases hsplit.symm.trans hother
        exact ⟨hhash, hsafe⟩
      dsimp only
      by_cases hhash : isHash expected
      · by_cases hsafe : isSafe (WindowsPath.parse relative)
        · refine .inr ⟨expected, relative, ⟨hsplit, hhash, hsafe⟩, ?_⟩
          rw [hhash, hsafe]
          cases hread : store.read (root.join (WindowsPath.parse relative)) with
          | none => exact ⟨rfl, fun h => (nomatch h), fun ⟨_, h, _⟩ => (nomatch h)⟩
          | some content =>
              simp only [Bool.not_true, Bool.false_eq_true, if_false, map_toLower_digestText, Option.some.injEq,
                exists_eq_left']
              split
              · rename_i hdigest
                exact ⟨rfl, fun _ => hdigest, fun _ => rfl⟩
              · rename_i hdigest
                exact ⟨rfl, fun h => (nomatch h), fun h => absurd h hdigest⟩
        · refine .inl ⟨fun _ _ h => hsafe (hnames _ _ h).2, .unsafePath, ?_⟩
          rw [hhash, (Bool.not_eq_true _).mp hsafe]
          rfl
      · refine .inl ⟨fun _ _ h => hhash (hnames _ _ h).1, .invalidHash, ?_⟩
        rw [(Bool.not_eq_true _).mp hhash]
        rfl

theorem verifyLine_eq_ok_iff {line : List Char} :
    (verifyLine sha256 store root line).2 = .ok () ↔ Passes sha256 store root line := by
  rcases verifyLine_cases sha256 store root line with
    ⟨hnone, error, herror⟩ | ⟨expected, relative, hnames, -, hok⟩
  · rw [herror]
    exact ⟨fun h => (nomatch h), fun ⟨_, _, _, h, _⟩ => absurd h (hnone _ _)⟩
  · rw [hok]
    refine ⟨fun ⟨content, hread, hdigest⟩ => ⟨expected, relative, content, hnames, hread, hdigest⟩, ?_⟩
    rintro ⟨otherExpected, otherRelative, content, hother, hread, hdigest⟩
    obtain ⟨rfl, rfl⟩ := hnames.unique hother
    exact ⟨content, hread, hdigest⟩

theorem mem_verifyLine {line : List Char} {path : WindowsPath} :
    path ∈ (verifyLine sha256 store root line).1 ↔
      ∃ expected relative, Names line expected relative ∧ path = root.join (WindowsPath.parse relative) := by
  rcases verifyLine_cases sha256 store root line with
    ⟨hnone, error, herror⟩ | ⟨expected, relative, hnames, hreads, -⟩
  · rw [herror]
    exact ⟨fun h => absurd h List.not_mem_nil, fun ⟨_, _, h, _⟩ => absurd h (hnone _ _)⟩
  · rw [hreads, List.mem_singleton]
    refine ⟨fun h => ⟨expected, relative, hnames, h⟩, ?_⟩
    rintro ⟨otherExpected, otherRelative, hother, rfl⟩
    obtain ⟨rfl, rfl⟩ := hnames.unique hother
    rfl

variable (sha256 store root) in
theorem verifyLines_cons (line : List Char) (lines : List (List Char)) (count : Nat) :
    (Passes sha256 store root line ∧ verifyLines sha256 store root (line :: lines) count =
      ((verifyLine sha256 store root line).1 ++ (verifyLines sha256 store root lines (count + 1)).1,
        (verifyLines sha256 store root lines (count + 1)).2)) ∨
    (¬Passes sha256 store root line ∧ ∃ error, verifyLines sha256 store root (line :: lines) count =
      ((verifyLine sha256 store root line).1, .error error)) := by
  rw [← verifyLine_eq_ok_iff, verifyLines]
  rcases verifyLine sha256 store root line with ⟨reads, error | ⟨⟨⟩⟩⟩
  · exact .inr ⟨nofun, error, rfl⟩
  · exact .inl ⟨rfl, rfl⟩

theorem verifyLines_eq_ok_iff {lines : List (List Char)} {count total : Nat} :
    (verifyLines sha256 store root lines count).2 = .ok total ↔
      (∀ line ∈ lines, Passes sha256 store root line) ∧ total = count + lines.length := by
  induction lines generalizing count with
  | nil =>
      refine ⟨fun h => ⟨fun line hline => absurd hline List.not_mem_nil, (Except.ok.inj h).symm⟩, ?_⟩
      rintro ⟨-, rfl⟩
      rfl
  | cons line lines ih =>
      rcases verifyLines_cons sha256 store root line lines count with
        ⟨hpasses, heq⟩ | ⟨hfails, error, heq⟩
      · rw [heq, ih, List.forall_mem_cons, List.length_cons]
        refine ⟨fun h => ⟨⟨hpasses, h.1⟩, by omega⟩, fun h => ⟨h.1.2, by omega⟩⟩
      · rw [heq]
        exact ⟨fun h => (nomatch h), fun h => absurd (h.1 line List.mem_cons_self) hfails⟩

/-- The files that are read belong to the lines up to the first that fails. -/
theorem mem_verifyLines {lines : List (List Char)} {count : Nat} {path : WindowsPath} :
    path ∈ (verifyLines sha256 store root lines count).1 ↔
      ∃ before line after, lines = before ++ line :: after ∧ (∀ earlier ∈ before, Passes sha256 store root earlier) ∧
        path ∈ (verifyLine sha256 store root line).1 := by
  induction lines generalizing count with
  | nil =>
      refine ⟨fun h => absurd h List.not_mem_nil, fun ⟨before, line, after, h, _⟩ => ?_⟩
      exact absurd h.symm (List.append_ne_nil_of_right_ne_nil _ (List.cons_ne_nil _ _))
  | cons line lines ih =>
      rcases verifyLines_cons sha256 store root line lines count with ⟨hpasses, heq⟩ | ⟨hfails, error, heq⟩
      · rw [heq, List.mem_append, ih]
        constructor
        · rintro (hline | ⟨before, other, after, rfl, hbefore, hother⟩)
          · exact ⟨[], line, lines, rfl, nofun, hline⟩
          · exact ⟨line :: before, other, after, rfl, List.forall_mem_cons.mpr ⟨hpasses, hbefore⟩, hother⟩
        · rintro ⟨before, other, after, hlines, hbefore, hother⟩
          rcases before with - | ⟨first, before⟩
          · cases hlines
            exact .inl hother
          · cases hlines
            exact .inr ⟨before, other, after, rfl, (List.forall_mem_cons.mp hbefore).2, hother⟩
      · rw [heq]
        refine ⟨fun h => ⟨[], line, lines, rfl, nofun, h⟩, ?_⟩
        rintro ⟨before, other, after, hlines, hbefore, hother⟩
        rcases before with - | ⟨first, before⟩
        · cases hlines
          exact hother
        · cases hlines
          exact absurd (hbefore _ List.mem_cons_self) hfails

theorem checkRequired_eq_ok_iff {names : List String} :
    checkRequired store root names = .ok () ↔ ∀ name ∈ names, store.isFile (payloadFile root name) := by
  induction names with
  | nil => exact ⟨fun _ name hname => absurd hname List.not_mem_nil, fun _ => rfl⟩
  | cons name names ih =>
      rw [checkRequired, List.forall_mem_cons]
      split
      · rename_i hfile
        rw [ih]
        exact ⟨fun h => ⟨hfile, h⟩, And.right⟩
      · rename_i hfile
        exact ⟨fun h => (nomatch h), fun h => absurd h.1 hfile⟩

/-! ### Files outside of the payload -/

variable (sha256 store root) in
/-- The verification gets to a line with this path: all lines before it pass, and its own digest and path are
acceptable. -/
def Reaches (relative : List Char) : Prop :=
  ∃ text before line after expected, readManifest store root = some text ∧
    entries text = before ++ line :: after ∧ (∀ earlier ∈ before, Passes sha256 store root earlier) ∧
    Names line expected relative

theorem mem_verifyPayload {path : WindowsPath} :
    path ∈ (verifyPayload sha256 store root).1 ↔
      ∃ relative, Reaches sha256 store root relative ∧ path = root.join (WindowsPath.parse relative) := by
  rw [verifyPayload]
  cases hmanifest : readManifest store root with
  | none =>
      refine ⟨fun h => absurd h List.not_mem_nil, ?_⟩
      rintro ⟨relative, ⟨text, before, line, after, expected, htext, -⟩, -⟩
      rw [hmanifest] at htext
      cases htext
  | some text =>
      have hreads : path ∈ (verifyLines sha256 store root (entries text) 0).1 ↔
          ∃ relative, Reaches sha256 store root relative ∧ path = root.join (WindowsPath.parse relative) := by
        rw [mem_verifyLines]
        constructor
        · rintro ⟨before, line, after, hlines, hbefore, hline⟩
          obtain ⟨expected, relative, hnames, rfl⟩ := mem_verifyLine.mp hline
          exact ⟨relative, ⟨text, before, line, after, expected, hmanifest, hlines, hbefore, hnames⟩, rfl⟩
        · rintro ⟨relative, ⟨other, before, line, after, expected, hother, hlines, hbefore, hnames⟩, rfl⟩
          cases hmanifest.symm.trans hother
          exact ⟨before, line, after, hlines, hbefore, mem_verifyLine.mpr ⟨expected, relative, hnames, rfl⟩⟩
      rw [← hreads]
      dsimp only
      rcases verifyLines sha256 store root (entries text) 0 with ⟨reads, error | count⟩ <;> rfl

theorem isSafe_iff {relative : WindowsPath} : isSafe relative ↔
    relative.physicalRoot = false ∧ .parentDir ∉ relative.body ∧
      ∀ volume ∈ relative.volume, ∃ drive, volume = .disk drive := by
  rw [← WindowsPath.relative_iff, isSafe, Bool.and_eq_true, Bool.not_eq_true', Bool.not_eq_true']
  simp only [List.any_eq_false, Bool.or_eq_true, decide_eq_true_eq, not_or]
  refine and_congr Iff.rfl ⟨fun h => ⟨fun hmem => (h _ hmem).1 rfl, fun hmem => (h _ hmem).2 rfl⟩, ?_⟩
  rintro ⟨hparent, hroot⟩ component hmem
  exact ⟨fun heq => hparent (heq ▸ hmem), fun heq => hroot (heq ▸ hmem)⟩

/-- An acceptable path leads below the payload unless it has a drive. -/
theorem join_isUnder_iff {relative : WindowsPath} (hsafe : isSafe relative) :
    (root.join relative).IsUnder root ↔
      ∀ drive, relative.volume = some (.disk drive) → relative.IsUnder root := by
  obtain ⟨hphysical, hparent, hvolume⟩ := isSafe_iff.mp hsafe
  cases hcase : relative.volume with
  | none => exact ⟨fun _ drive h => (nomatch h), fun _ => WindowsPath.join_isUnder hcase hphysical hparent⟩
  | some volume =>
      obtain ⟨drive, rfl⟩ := hvolume volume hcase
      rw [WindowsPath.join_of_volume (by rw [hcase]; rfl)]
      exact ⟨fun h _ _ => h, fun h => h drive rfl⟩

theorem Reaches.isSafe {relative : List Char} (h : Reaches sha256 store root relative) :
    isSafe (WindowsPath.parse relative) := by
  obtain ⟨_, _, _, _, _, _, _, _, hnames⟩ := h
  exact hnames.2.2

/-- Below an absolute directory there is no path that only names a drive. -/
theorem not_isUnder_of_disk {relative : WindowsPath} (hsafe : isSafe relative) (hroot : root.isAbsolute) {drive : Char}
    (hdrive : relative.volume = some (.disk drive)) : ¬relative.IsUnder root := by
  rintro ⟨hvolume, hphysical, -⟩
  rw [WindowsPath.isAbsolute, WindowsPath.hasRoot, ← hphysical, ← hvolume, (isSafe_iff.mp hsafe).1, hdrive] at hroot
  cases hroot

/-- The files that are read lie below the payload, except those whose path starts with a drive, which replaces the
payload's path. -/
theorem payload_reads_stay_below_root_iff (sha256 : Blob → Vector UInt8 32) (store : FileStore File)
    (root : WindowsPath) :
    ((∀ path ∈ (verifyPayload sha256 store root).1, path.IsUnder root) ↔
      ∀ relative, Reaches sha256 store root relative →
        ∀ drive, (WindowsPath.parse relative).volume = some (.disk drive) → (WindowsPath.parse relative).IsUnder root) ∧
    (root.isAbsolute → ((∀ path ∈ (verifyPayload sha256 store root).1, path.IsUnder root) ↔
      ∀ relative, Reaches sha256 store root relative →
        ∀ drive, (WindowsPath.parse relative).volume ≠ some (.disk drive))) := by
  have hiff : (∀ path ∈ (verifyPayload sha256 store root).1, path.IsUnder root) ↔
      ∀ relative, Reaches sha256 store root relative →
        ∀ drive, (WindowsPath.parse relative).volume = some (.disk drive) →
          (WindowsPath.parse relative).IsUnder root := by
    refine ⟨fun h relative hreaches => ?_, fun h path hpath => ?_⟩
    · exact (join_isUnder_iff hreaches.isSafe).mp (h _ (mem_verifyPayload.mpr ⟨relative, hreaches, rfl⟩))
    · obtain ⟨relative, hreaches, rfl⟩ := mem_verifyPayload.mp hpath
      exact (join_isUnder_iff hreaches.isSafe).mpr (h relative hreaches)
  refine ⟨hiff, fun hroot => hiff.trans ?_⟩
  refine forall_congr' fun relative => forall_congr' fun hreaches => forall_congr' fun drive => ?_
  exact ⟨fun h hdrive => not_isUnder_of_disk hreaches.isSafe hroot hdrive (h hdrive), fun h hdrive => absurd hdrive h⟩

end

/-- All files are empty but the manifest. -/
def plainStore (root : WindowsPath) (manifest : String) : FileStore WindowsPath where
  locate := some
  content path := some (if path = payloadFile root linuxPayloadManifest then utf8Bytes manifest else [])

theorem readManifest_plainStore (root : WindowsPath) (manifest : String) :
    readManifest (plainStore root manifest) root = some manifest := by
  have hread : (plainStore root manifest).read (payloadFile root linuxPayloadManifest) = some (utf8Bytes manifest) :=
    congrArg some (if_pos rfl)
  rw [readManifest, hread, Option.bind_some, textOfBytes_eq_some]

def zeroDigest (_ : Blob) : Vector UInt8 32 := Vector.replicate 32 0

def payloadRoot : WindowsPath := WindowsPath.parse "D:\\payload\\linux".toList

/-- A manifest of lines that all give the digest zero. -/
def manifestOf (names : List (List Char)) : List Char :=
  names.flatMap fun name => List.replicate 64 '0' ++ ' ' :: ' ' :: (name ++ ['\n'])

theorem verifyPayload_plainStore (manifest : List Char) :
    verifyPayload zeroDigest (plainStore payloadRoot (String.ofList manifest)) payloadRoot =
      match verifyLines zeroDigest (plainStore payloadRoot (String.ofList manifest)) payloadRoot
        ((lines manifest).filter fun line => trim line ≠ []) 0 with
      | (reads, .error error) => (reads, .error error)
      | (reads, .ok count) => (reads, if count = 0 then .error .noFiles else
          checkRequired (plainStore payloadRoot (String.ofList manifest)) payloadRoot requiredFiles) := by
  rw [verifyPayload, readManifest_plainStore]
  dsimp only
  rw [entries, String.toList_ofList]

/-- A path with a drive is read where it leads, far from the payload. -/
theorem drive_path_leaves_payload :
    (verifyPayload zeroDigest (plainStore payloadRoot (String.ofList (manifestOf [['C', ':', 'a']]))) payloadRoot).1 =
      [WindowsPath.parse ['C', ':', 'a']] ∧ ¬(WindowsPath.parse ['C', ':', 'a']).IsUnder payloadRoot := by
  constructor
  · rw [verifyPayload_plainStore]
    decide +kernel
  · rintro ⟨hvolume, -⟩
    exact absurd hvolume (by decide +kernel)

def toolLine : List Char := List.replicate 64 '0' ++ [' ', ' ', 'b', 'i', 'n', '/', 't']

theorem splitOnce_toolLine :
    splitOnce [' ', ' '] toolLine = some (List.replicate 64 '0', ['b', 'i', 'n', '/', 't']) := by
  decide +kernel

theorem entries_toolLine : entries (String.ofList (manifestOf [['b', 'i', 'n', '/', 't']])) = [toolLine] := by
  rw [entries, String.toList_ofList]
  decide +kernel

theorem relative_path_stays_in_payload :
    ∀ path ∈ (verifyPayload zeroDigest (plainStore payloadRoot (String.ofList (manifestOf [['b', 'i', 'n', '/', 't']])))
      payloadRoot).1, path.IsUnder payloadRoot := by
  refine ((payload_reads_stay_below_root_iff zeroDigest _ payloadRoot).2 (by decide +kernel)).mpr ?_
  rintro relative ⟨text, before, line, after, expected, htext, hlines, -, hnames⟩ drive hdrive
  cases (readManifest_plainStore payloadRoot _).symm.trans htext
  rw [entries_toolLine, eq_comm, List.append_eq_singleton_iff] at hlines
  rcases hlines with ⟨-, hline⟩ | ⟨-, hline⟩
  · cases hline
    cases splitOnce_toolLine.symm.trans hnames.1
    have hvolume : (WindowsPath.parse ['b', 'i', 'n', '/', 't']).volume = none := by decide +kernel
    rw [hvolume] at hdrive
    cases hdrive
  · cases hline

section

variable {File : Type} (sha256 : Blob → Vector UInt8 32) (store : FileStore File) (root : WindowsPath)

/-- A line of the manifest is about the payload's file of this name, however it spells the path. -/
def Lists (name : String) : Prop :=
  ∃ text, readManifest store root = some text ∧ ∃ line ∈ entries text, ∃ expected relative,
    splitOnce [' ', ' '] line = some (expected, relative) ∧
    store.locate (root.join (WindowsPath.parse relative)) = store.locate (payloadFile root name)

/-- A line of the manifest is about the payload's file of this name, and the file has the digest of the line. -/
def VouchesFor (name : String) : Prop :=
  ∃ text, readManifest store root = some text ∧ ∃ line ∈ entries text, ∃ expected relative content,
    splitOnce [' ', ' '] line = some (expected, relative) ∧
    store.locate (root.join (WindowsPath.parse relative)) = store.locate (payloadFile root name) ∧
    store.read (payloadFile root name) = some content ∧ digestText sha256 content = expected.map Char.toLower

variable {sha256 store root}

theorem verifyPayload_eq_ok_iff :
    (verifyPayload sha256 store root).2 = .ok () ↔
      ∃ text, readManifest store root = some text ∧ entries text ≠ [] ∧
        (∀ line ∈ entries text, Passes sha256 store root line) ∧
        ∀ name ∈ requiredFiles, store.isFile (payloadFile root name) := by
  rw [verifyPayload]
  cases hmanifest : readManifest store root with
  | none => exact ⟨fun h => (nomatch h), fun ⟨_, h, _⟩ => (nomatch h)⟩
  | some text =>
      simp only [Option.some.injEq, exists_eq_left']
      have hlines : ∀ total, (verifyLines sha256 store root (entries text) 0).2 = .ok total ↔ _ := fun total =>
        verifyLines_eq_ok_iff
      rcases hcase : verifyLines sha256 store root (entries text) 0 with ⟨reads, error | count⟩
      · rw [hcase] at hlines
        refine ⟨fun h => (nomatch h), fun ⟨_, hpass, _⟩ => ?_⟩
        exact (nomatch (hlines (0 + (entries text).length)).mpr ⟨hpass, rfl⟩)
      · rw [hcase] at hlines
        obtain ⟨hpass, hcount⟩ := (hlines count).mp rfl
        dsimp only
        split
        · rename_i hzero
          refine ⟨fun h => (nomatch h), fun ⟨hne, _⟩ => absurd (List.length_eq_zero_iff.mp ?_) hne⟩
          omega
        · rename_i hpositive
          rw [checkRequired_eq_ok_iff]
          refine ⟨fun h => ⟨?_, hpass, h⟩, fun h => h.2.2⟩
          rintro hempty
          rw [hempty] at hcount
          exact hpositive hcount

/-- A payload that is accepted is vouched for as far as its manifest lists the required files. -/
theorem accepted_payload_is_vouched_for_iff (sha256 : Blob → Vector UInt8 32) (store : FileStore File)
    (root : WindowsPath) (hok : (verifyPayload sha256 store root).2 = .ok ()) :
    (∀ name ∈ requiredFiles, VouchesFor sha256 store root name) ↔ ∀ name ∈ requiredFiles, Lists store root name := by
  obtain ⟨text, hmanifest, -, hpass, -⟩ := verifyPayload_eq_ok_iff.mp hok
  refine forall_congr' fun name => forall_congr' fun _ => ⟨?_, ?_⟩
  · rintro ⟨text, htext, line, hline, expected, relative, content, hsplit, hfile, -⟩
    exact ⟨text, htext, line, hline, expected, relative, hsplit, hfile⟩
  · rintro ⟨other, hother, line, hline, expected, relative, hsplit, hfile⟩
    cases hmanifest.symm.trans hother
    obtain ⟨passExpected, passRelative, content, hnames, hread, hdigest⟩ := hpass line hline
    cases hsplit.symm.trans hnames.1
    refine ⟨text, hmanifest, line, hline, expected, relative, content, hsplit, hfile, ?_, hdigest⟩
    rw [FileStore.read, ← hfile]
    exact hread

end

def fullManifest : List Char := manifestOf (requiredFiles.map String.toList)

theorem full_manifest_vouches_for_payload :
    (verifyPayload zeroDigest (plainStore payloadRoot (String.ofList fullManifest)) payloadRoot).2 = .ok () ∧
      ∀ name ∈ requiredFiles,
        VouchesFor zeroDigest (plainStore payloadRoot (String.ofList fullManifest)) payloadRoot name := by
  have hok : (verifyPayload zeroDigest (plainStore payloadRoot (String.ofList fullManifest)) payloadRoot).2 =
      .ok () := by
    rw [verifyPayload_plainStore]
    decide +kernel
  refine ⟨hok, (accepted_payload_is_vouched_for_iff _ _ _ hok).mpr fun name hname => ?_⟩
  refine ⟨_, readManifest_plainStore _ _, List.replicate 64 '0' ++ ' ' :: ' ' :: name.toList, ?_, List.replicate 64 '0',
    name.toList, ?_, rfl⟩
  · rw [entries, String.toList_ofList]
    revert name
    decide +kernel
  · revert name
    decide +kernel

/-- A manifest of one file is enough for a payload whose other files nobody vouches for. -/
theorem short_manifest_is_accepted :
    (verifyPayload zeroDigest (plainStore payloadRoot (String.ofList (manifestOf [['b', 'i', 'n', '/', 't']])))
      payloadRoot).2 = .ok () ∧
      ¬VouchesFor zeroDigest (plainStore payloadRoot (String.ofList (manifestOf [['b', 'i', 'n', '/', 't']])))
        payloadRoot
        "wincred-libsecret-provider" := by
  constructor
  · rw [verifyPayload_plainStore]
    decide +kernel
  · rintro ⟨text, htext, line, hline, expected, relative, content, hsplit, hfile, -⟩
    cases (readManifest_plainStore payloadRoot _).symm.trans htext
    rw [entries_toolLine, List.mem_singleton] at hline
    cases hline
    cases splitOnce_toolLine.symm.trans hsplit
    exact absurd (Option.some.inj hfile) (by decide +kernel)

end WincredLibsecret.Cli
