import SherryAgent.Source.PubBase.Files

/-!
# `write_file` and `patch_file`

`agent/tools/file_tools/write_file.py` and `patch_file.py`, under the path lock. The formatter
of Python code and the matcher of a patch are parameters.
-/

namespace SherryAgent.Source.FileTools

open SherryAgent.Source.PubBase

/-- `fuzzy_find_and_replace`: the new content, the number of matches and the error. -/
structure Replacement where
  newContent : String
  matchCount : Nat
  error : Option String := none

/-- What the tools take from elsewhere: the codecs, `_format_py_code`, `fuzzy_find_and_replace`
and the suffix check of a path. -/
structure FileEnv where
  codecs : Codecs
  formatPyCode : String → String
  fuzzyFindAndReplace : (content oldString newString : String) → (replaceAll : Bool) → Replacement
  isPython : String → Bool

/-- What a write answers; `raised` for the text of an exception. -/
inductive WriteResult where
  | success
  | error (message : String)
  | raised
  deriving DecidableEq

/-- The disk and the licenses. -/
structure FileState where
  disk : Disk := {}
  licenses : Licenses := []

/-! ## `write_file` -/

/-- `_existing_text_encoding`; `none` for bytes that are no text. -/
def existingTextEncoding (codecs : Codecs) : Option File → Option String
  | none => some "absent"
  | some file => sniffTextEncoding codecs file.data

def binaryTarget : WriteResult := .error
  "Target is a binary or non-UTF-8 file (only UTF-8 and BOM-marked UTF-16 text is edited)."

def appendNotUtf8 (encoding : String) : WriteResult := .error <|
  "Cannot append to a non-UTF-8 text file " ++ s!"(detected {encoding}); append is UTF-8 only."

def unreadFile : WriteResult := .error <|
  "File exists but has not been read in this session; " ++
  "refusing to overwrite content the agent has not seen."

def staleWrite : WriteResult := .error "File changed on disk since it was read."

/-- The bytes after an append: the whole file formatted, or the text behind what is there;
`none` where the old bytes do not decode. -/
def appendedBytes (env : FileEnv) (path text encoding : String) (data : Bytes) : Option Bytes :=
  if env.isPython path then
    (decodeText env.codecs data encoding).map fun existing =>
      encodeText env.codecs (env.formatPyCode (existing ++ text)) encoding
  else some (data ++ env.codecs.encode "utf-8" text)

/-- `_overwrite_precondition`; `none` for an `UnreadFileError`. -/
def overwritePrecondition (st : FileState) (sessionId path : String) :
    Option FileLicense × Licenses :=
  match st.disk.files path with
  | none => (some { revision := .absent }, st.licenses)
  | some _ => st.licenses.licensed sessionId path

/-- The append of `_write_locked`. -/
def appendLocked (env : FileEnv) (st : FileState) (sessionId path text encoding : String) :
    FileState × WriteResult :=
  match st.disk.files path with
  -- an absent target has been refused
  | none => (st, appendNotUtf8 encoding)
  | some file =>
    match appendedBytes env path text encoding file.data with
    | none => (st, .raised)
    | some data =>
      let disk := st.disk.write path data
      ({ disk, licenses := st.licenses.noteEdit sessionId path (disk.fileRevision path) }, .success)

/-- The overwrite of `_write_locked`. -/
def overwriteLocked (env : FileEnv) (st : FileState) (sessionId path text : String) :
    FileState × WriteResult :=
  match overwritePrecondition st sessionId path with
  | (none, licenses) => ({ st with licenses }, unreadFile)
  | (some license, licenses) =>
    let payload := if env.isPython path then env.formatPyCode text else text
    let written := encodeText env.codecs payload license.encoding
    match atomicWrite st.disk path written (some license.revision) with
    | none => ({ st with licenses }, staleWrite)
    | some disk =>
      ({ disk
         licenses := licenses.noteOverwrite sessionId path (disk.fileRevision path)
           license.encoding }, .success)

/-- `_write_locked`. -/
def writeLocked (env : FileEnv) (st : FileState) (sessionId path text : String) (append : Bool) :
    FileState × WriteResult :=
  match existingTextEncoding env.codecs (st.disk.files path) with
  | none => (st, binaryTarget)
  | some encoding =>
    if append && !(["utf-8", "utf-8-sig"].contains encoding) then (st, appendNotUtf8 encoding)
    else if append then appendLocked env st sessionId path text encoding
    else overwriteLocked env st sessionId path text

/-! ## `patch_file` -/

def patchBinary : WriteResult :=
  .error "File is binary or not UTF-8/UTF-16 text; patch_file edits text only."

/-- The bytes after a patch, or the error; the closest lines, which an error may go on with, are
left out. -/
def patchedBytes (env : FileEnv) (oldString newString : String) (replaceAll : Bool) (data : Bytes) :
    Except WriteResult Bytes :=
  match sniffTextEncoding env.codecs data with
  | none => .error patchBinary
  | some encoding =>
    match decodeText env.codecs data encoding with
    | none => .error .raised
    | some content =>
      let replacement := env.fuzzyFindAndReplace content oldString newString replaceAll
      if replacement.error.isSome || replacement.matchCount == 0 then
        .error (.error (replacement.error.getD "No match found"))
      else .ok (encodeText env.codecs replacement.newContent encoding)

/-- `_apply_patch`; under the path lock the file is the one that was read. -/
def applyPatch (env : FileEnv) (st : FileState) (sessionId path oldString newString : String)
    (replaceAll : Bool) : FileState × WriteResult :=
  match st.disk.files path with
  | none => (st, .error s!"File not found: {path}")
  | some file =>
    match patchedBytes env oldString newString replaceAll file.data with
    | .error message => (st, message)
    | .ok data =>
      match atomicWrite st.disk path data (some (revisionId (some file))) with
      | none => (st, .error "File changed on disk since it was read (another writer touched it).")
      | some disk =>
        ({ disk, licenses := st.licenses.noteEdit sessionId path (disk.fileRevision path) }, .success)

end SherryAgent.Source.FileTools
