import SherryAgent.Source.FileTools.ReadFile
import SherryAgent.Source.FileTools.WriteFile

/-!
# What the file tools do to the disk and the licenses

* `readFile_spec` — a read leaves the disk alone and licenses a complete page.
* `overwriteLocked_spec`, `writeLocked_append`, `applyPatch_spec` — one file, or nothing.
-/

namespace SherryAgent.Contracts.FileTools

open SherryAgent.Source.PubBase SherryAgent.Source.FileTools

/-! ## Licenses -/

section Licenses

variable {licenses : Licenses} {sessionId path encoding : String} {revision : Revision}
  {entry : (String × String) × FileLicense}

theorem mem_assign {key : String × String} {license : FileLicense} :
    entry ∈ licenses.assign key license ↔ entry ∈ licenses ∧ entry.1 ≠ key ∨ entry = (key, license) := by
  simp [Licenses.assign]

theorem mem_of_trim (member : entry ∈ licenses.trim) : entry ∈ licenses :=
  List.mem_of_mem_drop member

theorem mem_of_get {key : String × String} {license : FileLicense}
    (got : licenses.get key = some license) : (key, license) ∈ licenses := by
  unfold Licenses.get at got
  obtain ⟨⟨other, found⟩, hit, rfl⟩ := Option.map_eq_some_iff.mp got
  have same := List.find?_some hit
  rw [beq_iff_eq] at same
  exact same ▸ List.mem_of_find?_eq_some hit

theorem mem_store {source : LicenseSource}
    (member : entry ∈ licenses.store sessionId path revision encoding source) :
    entry ∈ licenses ∧ entry.1 ≠ (sessionId, path) ∨
      entry = ((sessionId, path), { revision, encoding, source }) :=
  mem_assign.mp (mem_of_trim member)

/-- An edit renews the license that is held. -/
theorem mem_noteEdit (member : entry ∈ licenses.noteEdit sessionId path revision) :
    entry ∈ licenses ∧ entry.1 ≠ (sessionId, path) ∨
      ∃ license, ((sessionId, path), license) ∈ licenses ∧
        entry = ((sessionId, path), { license with revision }) := by
  unfold Licenses.noteEdit at member
  cases got : licenses.get (sessionId, path) with
  | none =>
    rw [got] at member
    refine .inl ⟨member, fun same => ?_⟩
    have missing := List.find?_eq_none.mp (Option.map_eq_none_iff.mp got) entry member
    simp [same] at missing
  | some license =>
    rw [got] at member
    rcases mem_assign.mp member with kept | renewed
    · exact .inl kept
    · exact .inr ⟨license, mem_of_get got, renewed⟩

theorem mem_licensed (member : entry ∈ (licenses.licensed sessionId path).2) : entry ∈ licenses := by
  unfold Licenses.licensed at member
  cases got : licenses.get (sessionId, path) with
  | none =>
    rw [got] at member
    exact member
  | some license =>
    rw [got] at member
    rcases mem_assign.mp member with kept | renewed
    · exact kept.1
    · exact renewed ▸ mem_of_get got

theorem licensed_mem {license : FileLicense} (held : (licenses.licensed sessionId path).1 = some license) :
    ((sessionId, path), license) ∈ licenses := by
  unfold Licenses.licensed at held
  cases got : licenses.get (sessionId, path) with
  | none =>
    rw [got] at held
    cases held
  | some other =>
    rw [got] at held
    exact Option.some.inj held ▸ mem_of_get got

end Licenses

/-! ## Reads -/

/-- The page starts with the first line and is not truncated. -/
def completeRead (offset : Int) : ReadResult → Bool
  | .page _ totalLines _ truncated _ _ => clampFrom1 offset (totalLines + 1) == 1 && !truncated
  | _ => false

/-- What a read does to the licenses. -/
structure Reads (licenses after : Licenses) (file : Option File) (sessionId path : String)
    (complete : Bool) : Prop where
  kept : ∀ entry ∈ after, entry ∈ licenses ∨
    complete = true ∧ ∃ found encoding, file = some found ∧
      entry = ((sessionId, path), { revision := revisionId (some found), encoding, source := .read })
  exists_of_complete : complete = true → ∃ found, file = some found

variable {codecs : Codecs} {limits : ReadLimits} {licenses : Licenses} {sessionId path : String}

theorem paginateText_complete {raw : List Char} {fileSize : Nat} {offset limit : Int} :
    completeRead offset (paginateText limits raw fileSize
        (clampFrom1 offset ((splitLines raw).length + 1)) (clampFrom1 limit limits.readMaxLimit)).1 =
      (paginateText limits raw fileSize (clampFrom1 offset ((splitLines raw).length + 1))
        (clampFrom1 limit limits.readMaxLimit)).2 :=
  rfl

theorem paginate_spec {file : File} {offset limit : Int} :
    Reads licenses (paginate codecs limits licenses path file offset limit sessionId).2 (some file)
      sessionId path
      (completeRead offset
        (paginate codecs limits licenses path file offset limit sessionId).1) := by
  unfold paginate
  cases sniffTextEncoding codecs file.data with
  | none => exact ⟨fun _ member => .inl member, fun _ => ⟨file, rfl⟩⟩
  | some encoding =>
    dsimp only
    cases decodeText codecs file.data encoding with
    | none => exact ⟨fun _ member => .inl member, fun _ => ⟨file, rfl⟩⟩
    | some text =>
      dsimp only
      generalize asking : (if clampFrom1 offset ((splitLines text.toList).length + 1) != 1 ||
          sessionId == "" then (none, licenses) else licenses.licensed sessionId path) = asked
      have touched : ∀ entry ∈ asked.2, entry ∈ licenses := by
        intro entry member
        subst asking
        split at member
        · exact member
        · exact mem_licensed member
      split
      · exact ⟨fun entry member => .inl (touched entry member), fun _ => ⟨file, rfl⟩⟩
      · refine ⟨fun entry member => ?_, fun _ => ⟨file, rfl⟩⟩
        dsimp only at member ⊢
        rw [paginateText_complete]
        split at member
        · rename_i whole
          rcases mem_store member with ⟨kept, -⟩ | noted
          · exact .inl (touched entry kept)
          · exact .inr ⟨whole, file, encoding, rfl, noted⟩
        · exact .inl (touched entry member)

theorem readFile_spec {disk : Disk} {offset limit : Int} :
    Reads licenses (readFile codecs limits disk licenses path offset limit sessionId).2
      (disk.files path) sessionId path
      (completeRead offset
        (readFile codecs limits disk licenses path offset limit sessionId).1) := by
  unfold readFile
  cases found : disk.files path with
  | none => exact ⟨fun _ member => .inl member, nofun⟩
  | some file =>
    dsimp only
    split
    · exact ⟨fun _ member => .inl member, nofun⟩
    split
    · exact ⟨fun _ member => .inl member, nofun⟩
    · exact paginate_spec

/-! ## Writes -/

/-- The bytes that a text makes of a file it is appended to. -/
def appendTo (env : FileEnv) (path text : String) (data : Bytes) : Option Bytes :=
  (sniffTextEncoding env.codecs data).bind fun encoding =>
    if ["utf-8", "utf-8-sig"].contains encoding then appendedBytes env path text encoding data
    else none

/-- The bytes that a patch makes of a file. -/
def patchTo (env : FileEnv) (oldString newString : String) (replaceAll : Bool) (data : Bytes) :
    Option Bytes :=
  (patchedBytes env oldString newString replaceAll data).toOption

/-- What an edit of one file leaves: nothing changed, or the file with its new bytes and the
license that is held for it renewed. -/
def Edits (change : Bytes → Option Bytes) (sessionId path : String) (st after : FileState)
    (result : WriteResult) : Prop :=
  result ≠ .success ∧ after = st ∨
    result = .success ∧ ∃ file data, st.disk.files path = some file ∧ change file.data = some data ∧
      after = { disk := st.disk.write path data
                licenses := st.licenses.noteEdit sessionId path
                  ((st.disk.write path data).fileRevision path) }

/-- What an overwrite leaves: licenses and disk alone, or the file with its new bytes, which
had no old ones or those of the revision that was licensed. -/
def Overwrites (sessionId path : String) (st after : FileState) (result : WriteResult) : Prop :=
  result ≠ .success ∧ after.disk = st.disk ∧ (∀ entry ∈ after.licenses, entry ∈ st.licenses) ∨
    result = .success ∧ ∃ (data : Bytes) (encoding : String) (licenses : Licenses), after.disk = st.disk.write path data ∧
      (∀ entry ∈ licenses, entry ∈ st.licenses) ∧
      after.licenses = licenses.noteOverwrite sessionId path
        ((st.disk.write path data).fileRevision path) encoding ∧
      ∀ file, st.disk.files path = some file → ∃ license,
        ((sessionId, path), license) ∈ st.licenses ∧ license.revision = revisionId (some file)

variable {env : FileEnv} {st : FileState} {text : String}

theorem write_self (disk : Disk) (data : Bytes) :
    (disk.write path data).files path = some { data, mtime := disk.clock } :=
  Function.update_self ..

theorem write_of_ne (disk : Disk) (data : Bytes) {other : String} (differs : other ≠ path) :
    (disk.write path data).files other = disk.files other :=
  Function.update_of_ne differs ..

theorem atomicWrite_eq_some {disk after : Disk} {data : Bytes} {expected : Revision}
    (written : atomicWrite disk path data (some expected) = some after) :
    disk.fileRevision path = expected ∧ after = disk.write path data := by
  unfold atomicWrite at written
  split at written
  · cases written
  · rename_i current
    simp only [Option.any_some, bne_iff_ne, ne_eq, not_not] at current
    exact ⟨current.symm, (Option.some.inj written).symm⟩

theorem overwriteLocked_spec :
    Overwrites sessionId path st (overwriteLocked env st sessionId path text).1
      (overwriteLocked env st sessionId path text).2 := by
  unfold overwriteLocked
  generalize asking : overwritePrecondition st sessionId path = asked
  have touched : (∀ entry ∈ asked.2, entry ∈ st.licenses) ∧ ∀ license, asked.1 = some license →
      st.disk.files path = none ∨ ((sessionId, path), license) ∈ st.licenses := by
    subst asking
    unfold overwritePrecondition
    cases st.disk.files path with
    | none => exact ⟨fun _ => id, fun _ _ => .inl rfl⟩
    | some file => exact ⟨fun _ => mem_licensed, fun _ held => .inr (licensed_mem held)⟩
  obtain ⟨license, licenses⟩ := asked
  cases license with
  | none => exact .inl ⟨by simp [unreadFile], rfl, touched.1⟩
  | some license =>
    dsimp only
    generalize encodeText env.codecs (if env.isPython path then env.formatPyCode text else text)
      license.encoding = data
    cases written : atomicWrite st.disk path data (some license.revision) with
    | none => exact .inl ⟨by simp [staleWrite], rfl, touched.1⟩
    | some disk =>
      obtain ⟨current, rfl⟩ := atomicWrite_eq_some written
      dsimp only
      unfold Overwrites
      refine .inr ⟨rfl, data, license.encoding, licenses, rfl, touched.1, ?_, ?_⟩
      · dsimp only
      · intro file found
        rcases touched.2 license rfl with absent | held
        · rw [found] at absent
          cases absent
        · refine ⟨license, held, ?_⟩
          rw [← current, Disk.fileRevision, found]

theorem appendLocked_spec {encoding : String} {file : File} (found : st.disk.files path = some file)
    (sniffed : sniffTextEncoding env.codecs file.data = some encoding)
    (text_file : ["utf-8", "utf-8-sig"].contains encoding = true) :
    Edits (appendTo env path text) sessionId path st
      (appendLocked env st sessionId path text encoding).1
      (appendLocked env st sessionId path text encoding).2 := by
  have change : appendTo env path text file.data = appendedBytes env path text encoding file.data := by
    rw [appendTo, sniffed, Option.bind_some, if_pos text_file]
  unfold appendLocked
  rw [found]
  dsimp only
  cases appended : appendedBytes env path text encoding file.data with
  | none => exact .inl ⟨nofun, rfl⟩
  | some data => exact .inr ⟨rfl, file, data, found, change.trans appended, rfl⟩

theorem writeLocked_append :
    Edits (appendTo env path text) sessionId path st (writeLocked env st sessionId path text true).1
      (writeLocked env st sessionId path text true).2 := by
  unfold writeLocked
  cases found : st.disk.files path with
  | none => exact .inl ⟨by simp [existingTextEncoding, appendNotUtf8], by simp [existingTextEncoding]⟩
  | some file =>
    rw [existingTextEncoding]
    cases sniffed : sniffTextEncoding env.codecs file.data with
    | none => exact .inl ⟨by simp [binaryTarget], rfl⟩
    | some encoding =>
      dsimp only
      split
      · exact .inl ⟨by simp [appendNotUtf8], rfl⟩
      · rename_i text_file
        rw [if_pos rfl]
        simp only [Bool.true_and, Bool.not_eq_true', Bool.not_eq_false] at text_file
        exact appendLocked_spec found sniffed text_file

theorem writeLocked_overwrite :
    Overwrites sessionId path st (writeLocked env st sessionId path text false).1
      (writeLocked env st sessionId path text false).2 := by
  unfold writeLocked
  cases existingTextEncoding env.codecs (st.disk.files path) with
  | none => exact .inl ⟨by simp [binaryTarget], rfl, fun _ => id⟩
  | some encoding =>
    simp only [Bool.false_and, Bool.false_eq_true, if_false]
    exact overwriteLocked_spec

theorem patchedBytes_error {oldString newString : String} {replaceAll : Bool} {data : Bytes}
    {message : WriteResult} (failed : patchedBytes env oldString newString replaceAll data = .error message) :
    message ≠ .success := by
  unfold patchedBytes at failed
  split at failed
  · cases failed
    simp [patchBinary]
  split at failed
  · cases failed
    simp
  dsimp only at failed
  split at failed
  · cases failed
    simp
  · cases failed

theorem applyPatch_spec {oldString newString : String} {replaceAll : Bool} :
    Edits (patchTo env oldString newString replaceAll) sessionId path st
      (applyPatch env st sessionId path oldString newString replaceAll).1
      (applyPatch env st sessionId path oldString newString replaceAll).2 := by
  unfold applyPatch
  cases found : st.disk.files path with
  | none => exact .inl ⟨by simp, rfl⟩
  | some file =>
    dsimp only
    cases patched : patchedBytes env oldString newString replaceAll file.data with
    | error message =>
      refine .inl ⟨?_, rfl⟩
      exact patchedBytes_error patched
    | ok data =>
      dsimp only
      cases written : atomicWrite st.disk path data (some (revisionId (some file))) with
      | none => exact .inl ⟨by simp, rfl⟩
      | some disk =>
        obtain ⟨-, rfl⟩ := atomicWrite_eq_some written
        exact .inr ⟨rfl, file, data, found, by rw [patchTo, patched]; rfl, rfl⟩

/-! ## Dates -/

/-- Every file, and every revision of a license, was written before now. -/
structure Dated (st : FileState) : Prop where
  fresh : ∀ path file, st.disk.files path = some file → file.mtime < st.disk.clock
  old : ∀ entry ∈ st.licenses, ∃ mtime size, entry.2.revision = .stamp mtime size ∧
    mtime < st.disk.clock

namespace Dated

variable {st : FileState} {licenses : Licenses} {data : Bytes} {entry : (String × String) × FileLicense}

theorem forget (dated : Dated st) (fewer : ∀ entry ∈ licenses, entry ∈ st.licenses) :
    Dated { st with licenses } where
  fresh := dated.fresh
  old entry member := dated.old entry (fewer entry member)

theorem read (dated : Dated st) {complete : Bool}
    (reads : Reads st.licenses licenses (st.disk.files path) sessionId path complete) :
    Dated { st with licenses } where
  fresh := dated.fresh
  old entry member := by
    rcases reads.kept entry member with held | ⟨-, file, encoding, found, rfl⟩
    · exact dated.old entry held
    · exact ⟨_, _, rfl, dated.fresh path file found⟩

theorem write (dated : Dated st)
    (kept : ∀ entry ∈ licenses, entry ∈ st.licenses ∨
      entry.2.revision = (st.disk.write path data).fileRevision path) :
    Dated { disk := st.disk.write path data, licenses } where
  fresh other file found := by
    by_cases same : other = path
    · subst same
      rw [write_self] at found
      cases found
      exact Nat.lt_succ_self _
    · rw [write_of_ne _ _ same] at found
      exact Nat.lt_succ_of_lt (dated.fresh other file found)
  old entry member := by
    rcases kept entry member with held | revision
    · obtain ⟨mtime, size, revision, past⟩ := dated.old entry held
      exact ⟨mtime, size, revision, Nat.lt_succ_of_lt past⟩
    · refine ⟨st.disk.clock, data.length, ?_, Nat.lt_succ_self _⟩
      rw [revision, Disk.fileRevision, write_self, revisionId]

/-- No license of before is of the revision that a write makes. -/
theorem stale (dated : Dated st) (held : entry ∈ st.licenses) :
    entry.2.revision ≠ revisionId (some { data, mtime := st.disk.clock }) := by
  obtain ⟨mtime, size, revision, past⟩ := dated.old entry held
  rw [revision, revisionId, ne_eq, Revision.stamp.injEq]
  exact fun same => Nat.ne_of_lt past same.1

end Dated

/-! ## Calls of any sessions -/

/-- A call of a tool under the path lock, or a loss of licenses; `evict` loses the oldest one. -/
inductive FileCall where
  | read (sessionId path : String) (offset limit : Int)
  | write (sessionId path text : String) (append : Bool)
  | patch (sessionId path oldString newString : String) (replaceAll : Bool)
  | forgetLicense (sessionId path : String)
  | forgetSession (sessionId : String)
  | forgetAll
  | evict

/-- What a call did: the bytes that were read and the answer, or a write that succeeded, an
overwrite with the bytes it replaced. -/
inductive Event where
  | read (sessionId path : String) (data : Bytes) (offset : Int) (result : ReadResult)
  | overwrite (sessionId path : String) (replaced : Option Bytes) (written : Bytes)
  | append (sessionId path text : String)
  | patch (sessionId path oldString newString : String) (replaceAll : Bool)

/-- The files and licenses, and what has happened to them. -/
structure Desk where
  st : FileState
  log : List Event := []

/-- The event of a write, if it succeeded. -/
def writeEvent (sessionId path text : String) (append : Bool) (st after : FileState)
    (result : WriteResult) : List Event :=
  if result = .success then
    [if append then .append sessionId path text
      else .overwrite sessionId path ((st.disk.files path).map (·.data))
        (((after.disk.files path).map (·.data)).getD [])]
  else []

def Desk.step (env : FileEnv) (limits : ReadLimits) (desk : Desk) : FileCall → Option Desk
  | .read sessionId path offset limit =>
    let (result, licenses) :=
      readFile env.codecs limits desk.st.disk desk.st.licenses path offset limit sessionId
    some { st := { desk.st with licenses }
           log := desk.log ++ (desk.st.disk.files path).toList.map fun file =>
            .read sessionId path file.data offset result }
  | .write sessionId path text append =>
    let (st, result) := writeLocked env desk.st sessionId path text append
    some { st, log := desk.log ++ writeEvent sessionId path text append desk.st st result }
  | .patch sessionId path oldString newString replaceAll =>
    let (st, result) := applyPatch env desk.st sessionId path oldString newString replaceAll
    some { st
           log := desk.log ++ if result = .success then
            [.patch sessionId path oldString newString replaceAll] else [] }
  | .forgetLicense sessionId path =>
    some { desk with st.licenses := desk.st.licenses.forgetLicense sessionId path }
  | .forgetSession sessionId =>
    some { desk with st.licenses := desk.st.licenses.forgetSession sessionId }
  | .forgetAll => some { desk with st.licenses := [] }
  | .evict => some { desk with st.licenses := desk.st.licenses.drop 1 }

/-! ## A plain disk -/

/-- ASCII text, an exact match of a patch, and no formatter. -/
def plainEnv : FileEnv where
  codecs :=
    { decode _ data := some (String.ofList (data.map fun byte => Char.ofNat byte.toNat))
      encode _ text := text.toList.map fun c => UInt8.ofNat c.toNat }
  formatPyCode := id
  fuzzyFindAndReplace content oldString newString _ :=
    if content == oldString then { newContent := newString, matchCount := 1 }
    else { newContent := content, matchCount := 0 }
  isPython path := ".py".toList.isSuffixOf path.toList

def oneFile : Disk where
  files path := if path == "notes.txt" then some { data := [97], mtime := 0 } else none
  clock := 1

theorem oneFile_fresh (path : String) (file : File) (found : oneFile.files path = some file) :
    file.mtime < oneFile.clock := by
  unfold oneFile at found
  dsimp only at found
  split at found
  · cases found
    exact Nat.zero_lt_one
  · cases found

end SherryAgent.Contracts.FileTools
