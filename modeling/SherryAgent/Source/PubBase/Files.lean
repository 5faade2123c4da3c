import Mathlib.Logic.Function.Basic

/-!
# Text files and read licenses

`agent/tools/pub_base/file_utils.py` and `atomic_write.py`: the codec of a file's bytes, its
revision, and a write that checks it. Python's codecs are parameters. The clock of the disk
moves with every write, so that every write gives a new revision. `read_state.py`: what each session
knows of each file, in LRU order.
-/

namespace SherryAgent.Source.PubBase

abbrev Bytes := List UInt8

/-- `bytes.decode`, `none` where it raises, and `str.encode`. -/
structure Codecs where
  decode : String → Bytes → Option String
  encode : String → String → Bytes

/-- `_SNIFF_BYTES`. -/
def sniffBytes : Nat := 8192

def bomUtf8 : Bytes := [0xEF, 0xBB, 0xBF]
def bomUtf16Be : Bytes := [0xFE, 0xFF]
def bomUtf16Le : Bytes := [0xFF, 0xFE]

/-- `sniff_text_encoding`. -/
def sniffTextEncoding (codecs : Codecs) (data : Bytes) : Option String :=
  if bomUtf8.isPrefixOf data then some "utf-8-sig"
  else if bomUtf16Be.isPrefixOf data then some "utf-16-be"
  else if bomUtf16Le.isPrefixOf data then some "utf-16"
  else if (data.take sniffBytes).contains 0 then none
  else if (codecs.decode "utf-8" data).isSome then some "utf-8"
  else none

/-- `decode_text`. -/
def decodeText (codecs : Codecs) (data : Bytes) (encoding : String) : Option String :=
  if encoding == "utf-16-be" && bomUtf16Be.isPrefixOf data then
    codecs.decode encoding (data.drop bomUtf16Be.length)
  else codecs.decode encoding data

/-- `encode_text`. -/
def encodeText (codecs : Codecs) (text encoding : String) : Bytes :=
  if encoding == "utf-16-be" then bomUtf16Be ++ codecs.encode "utf-16-be" text
  else codecs.encode encoding text

/-! ## Revisions -/

/-- A regular file: its bytes and its modification time in milliseconds. -/
structure File where
  data : Bytes
  mtime : Nat

inductive Revision where
  | absent
  | stamp (mtime size : Nat)
  deriving DecidableEq

/-- `revision_id`. -/
def revisionId : Option File → Revision
  | none => .absent
  | some file => .stamp file.mtime file.data.length

/-- The files by their resolved paths. -/
structure Disk where
  files : String → Option File := fun _ => none
  clock : Nat := 0

/-- `file_revision`. -/
def Disk.fileRevision (disk : Disk) (path : String) : Revision := revisionId (disk.files path)

/-- The file after a write of these bytes. -/
def Disk.write (disk : Disk) (path : String) (data : Bytes) : Disk where
  files := Function.update disk.files path (some { data, mtime := disk.clock })
  clock := disk.clock + 1

/-- `atomic_write_bytes_no_follow`; `none` for a `StaleWriteError`. -/
def atomicWrite (disk : Disk) (path : String) (data : Bytes)
    (expectedRevision : Option Revision := none) : Option Disk :=
  if expectedRevision.any (· != disk.fileRevision path) then none else some (disk.write path data)

/-! ## Read licenses -/

/-- How a session came to know a file. -/
inductive LicenseSource where
  | read | overwrite
  deriving DecidableEq

structure FileLicense where
  revision : Revision
  encoding : String := "utf-8"
  source : LicenseSource := .read

/-- `_MAX_LICENSES`. -/
def maxLicenses : Nat := 4096

/-- `_LICENSES`, the oldest entry first; a key is a session and a path. -/
abbrev Licenses := List ((String × String) × FileLicense)

namespace Licenses

/-- The entry under this key as the most recent one. -/
def assign (licenses : Licenses) (key : String × String) (license : FileLicense) : Licenses :=
  licenses.filter (·.1 != key) ++ [(key, license)]

/-- `popitem` while there are too many. -/
def trim (licenses : Licenses) : Licenses := licenses.drop (licenses.length - maxLicenses)

/-- `_store`. -/
def store (licenses : Licenses) (sessionId path : String) (revision : Revision) (encoding : String)
    (source : LicenseSource) : Licenses :=
  (licenses.assign (sessionId, path) { revision, encoding, source }).trim

/-- `note_read`. -/
def noteRead (licenses : Licenses) (sessionId path : String) (revision : Revision)
    (encoding : String) : Licenses :=
  licenses.store sessionId path revision encoding .read

/-- `note_overwrite`. -/
def noteOverwrite (licenses : Licenses) (sessionId path : String) (revision : Revision)
    (encoding : String) : Licenses :=
  licenses.store sessionId path revision encoding .overwrite

/-- `_LICENSES.get(key)`. -/
def get (licenses : Licenses) (key : String × String) : Option FileLicense :=
  (licenses.find? (·.1 == key)).map (·.2)

/-- `note_edit`. -/
def noteEdit (licenses : Licenses) (sessionId path : String) (revision : Revision) : Licenses :=
  match licenses.get (sessionId, path) with
  | some license => licenses.assign (sessionId, path) { license with revision }
  | none => licenses

/-- `licensed`: the license, which becomes the most recent one. -/
def licensed (licenses : Licenses) (sessionId path : String) : Option FileLicense × Licenses :=
  match licenses.get (sessionId, path) with
  | some license => (some license, licenses.assign (sessionId, path) license)
  | none => (none, licenses)

/-- `forget_session`. -/
def forgetSession (licenses : Licenses) (sessionId : String) : Licenses :=
  licenses.filter (·.1.1 != sessionId)

/-- `forget_license`. -/
def forgetLicense (licenses : Licenses) (sessionId path : String) : Licenses :=
  licenses.filter (·.1 != (sessionId, path))

end Licenses

end SherryAgent.Source.PubBase
