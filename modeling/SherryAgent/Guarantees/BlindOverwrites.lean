import SherryAgent.Contracts.FileTools
import SherryAgent.Library.Machine

/-!
# No blind overwrite

A license is one revision per session and file. Reads and overwrites store the revision of what
the session has seen; an append or a patch moves the license on without a look at whether it
was still that of the file.

* `overwrites_known` — without an edit under a stale license every overwrite replaces what its
  session knows.
* `append_hides_change` — one append under a stale license.
-/

namespace SherryAgent.Guarantees.BlindOverwrites

open SherryAgent.Source.PubBase SherryAgent.Source.FileTools SherryAgent.Contracts.FileTools
open SherryAgent.Library.Machine

/-! ## What a session knows -/

/-- What an event tells a session about a file: all of it, or how its own edit changes it. -/
def learn (env : FileEnv) (sessionId path : String) (known : Option Bytes) : Event → Option Bytes
  | .read session file data offset result =>
    if (session, file) = (sessionId, path) ∧ completeRead offset result = true then some data else known
  | .overwrite session file _ written =>
    if (session, file) = (sessionId, path) then some written else known
  | .append session file text =>
    if (session, file) = (sessionId, path) then known.bind (appendTo env path text) else known
  | .patch session file oldString newString replaceAll =>
    if (session, file) = (sessionId, path) then
      known.bind (patchTo env oldString newString replaceAll) else known

/-- The content of the session's last complete read or overwrite of the file with its own later
appends and patches. -/
def known (env : FileEnv) (sessionId path : String) (log : List Event) : Option Bytes :=
  log.foldl (learn env sessionId path) none

/-- Every overwrite of an existing file replaces a content that its session knows. -/
def OverwritesKnown (env : FileEnv) (log : List Event) : Prop :=
  ∀ before sessionId path replaced written after,
    log = before ++ .overwrite sessionId path (some replaced) written :: after →
      known env sessionId path before = some replaced

/-- The file that a call edits in place, and what it makes of the bytes. -/
def edit? (env : FileEnv) : FileCall → Option ((String × String) × (Bytes → Option Bytes))
  | .write sessionId path text true => some ((sessionId, path), appendTo env path text)
  | .patch sessionId path oldString newString replaceAll =>
    some ((sessionId, path), patchTo env oldString newString replaceAll)
  | _ => none

/-- No edit that goes through meets a license of its session that is not of the file's current
revision. -/
def EditsCurrent (env : FileEnv) (desk : Desk) (call : FileCall) : Prop :=
  ∀ key change, edit? env call = some (key, change) →
    ∀ file, desk.st.disk.files key.2 = some file → (change file.data).isSome = true →
      ∀ license, (key, license) ∈ desk.st.licenses → license.revision = revisionId (some file)

/-! ## The invariant -/

/-- The bytes at a path, if the license is of their revision, are known to the license's
session. -/
structure Inv (env : FileEnv) (desk : Desk) : Prop where
  fresh : ∀ path file, desk.st.disk.files path = some file → file.mtime < desk.st.disk.clock
  old : ∀ entry ∈ desk.st.licenses, ∃ mtime size, entry.2.revision = .stamp mtime size ∧
    mtime < desk.st.disk.clock
  current : ∀ entry ∈ desk.st.licenses, ∀ file, desk.st.disk.files entry.1.2 = some file →
    entry.2.revision = revisionId (some file) →
      known env entry.1.1 entry.1.2 desk.log = some file.data
  final : OverwritesKnown env desk.log

variable {env : FileEnv} {limits : ReadLimits} {desk : Desk} {sessionId path : String}

theorem known_append (log events : List Event) :
    known env sessionId path (log ++ events) =
      events.foldl (learn env sessionId path) (known env sessionId path log) :=
  List.foldl_append

theorem overwritesKnown_append {log : List Event} {event : Event} (final : OverwritesKnown env log)
    (last : ∀ session file replaced written, event = .overwrite session file (some replaced) written →
      known env session file log = some replaced) : OverwritesKnown env (log ++ [event]) := by
  intro before session file replaced written after shape
  rcases List.eq_nil_or_concat after with rfl | ⟨others, other, rfl⟩
  · obtain ⟨rfl, same⟩ := List.append_inj' shape rfl
    exact last session file replaced written (List.cons.inj same).1
  · rw [List.concat_eq_append, ← List.cons_append, ← List.append_assoc] at shape
    exact final before session file replaced written others (List.append_inj' shape rfl).1

theorem Inv.dated (inv : Inv env desk) : Dated desk.st := ⟨inv.fresh, inv.old⟩

/-- Losing licenses loses nothing else. -/
theorem Inv.forget (inv : Inv env desk) {licenses : Licenses}
    (fewer : ∀ entry ∈ licenses, entry ∈ desk.st.licenses) :
    Inv env { desk with st.licenses := licenses } where
  fresh := inv.fresh
  old entry member := inv.old entry (fewer entry member)
  current entry member := inv.current entry (fewer entry member)
  final := inv.final

/-- A write by a session: its license, if it has one, is of the new bytes and it knows them;
the other sessions know what they knew. -/
theorem Inv.write (inv : Inv env desk) {data : Bytes} {licenses : Licenses} {event : Event}
    (kept : ∀ entry ∈ licenses, entry ∈ desk.st.licenses ∧ entry.1 ≠ (sessionId, path) ∨
      entry.1 = (sessionId, path) ∧
        entry.2.revision = (desk.st.disk.write path data).fileRevision path ∧
        learn env sessionId path (known env sessionId path desk.log) event = some data)
    (others : ∀ session file before, (session, file) ≠ (sessionId, path) →
      learn env session file before event = before)
    (last : ∀ session file replaced written, event = .overwrite session file (some replaced) written →
      known env session file desk.log = some replaced) :
    Inv env { st := { disk := desk.st.disk.write path data, licenses }, log := desk.log ++ [event] } where
  fresh := (inv.dated.write fun entry member => (kept entry member).imp And.left (·.2.1)).fresh
  old := (inv.dated.write fun entry member => (kept entry member).imp And.left (·.2.1)).old
  current entry member file found valid := by
    rw [known_append, List.foldl_cons, List.foldl_nil]
    rcases kept entry member with ⟨held, other⟩ | ⟨same, -, learned⟩
    · rw [others entry.1.1 entry.1.2 _ other]
      by_cases same : entry.1.2 = path
      · -- the license is older than the write
        rw [same, write_self] at found
        cases found
        exact absurd valid (inv.dated.stale held)
      · rw [write_of_ne _ _ same] at found
        exact inv.current entry held file found valid
    · rw [same] at found ⊢
      rw [write_self] at found
      cases found
      exact learned
  final := overwritesKnown_append inv.final last

/-- An edit by a session whose license, if it has one, is of the current revision. -/
theorem Inv.edit (inv : Inv env desk) {change : Bytes → Option Bytes} {after : FileState}
    {result : WriteResult} {event : Event}
    (edits : Edits change sessionId path desk.st after result)
    (current : ∀ file, desk.st.disk.files path = some file → (change file.data).isSome = true →
      ∀ license, ((sessionId, path), license) ∈ desk.st.licenses →
        license.revision = revisionId (some file))
    (learns : ∀ before, learn env sessionId path before event = before.bind change)
    (others : ∀ session file before, (session, file) ≠ (sessionId, path) →
      learn env session file before event = before)
    (edited : ∀ session file replaced written, event ≠ .overwrite session file replaced written) :
    Inv env { st := after, log := desk.log ++ if result = .success then [event] else [] } := by
  rcases edits with ⟨failed, rfl⟩ | ⟨rfl, file, data, found, changed, rfl⟩
  · rw [if_neg failed, List.append_nil]
    exact inv
  · rw [if_pos rfl]
    apply inv.write
    · intro entry member
      rcases mem_noteEdit member with kept | ⟨license, held, rfl⟩
      · exact .inl kept
      · refine .inr ⟨rfl, rfl, ?_⟩
        have valid := current file found (by simp [changed]) license held
        rw [learns, inv.current _ held file found valid]
        exact changed
    · exact others
    · intro session other replaced written same
      exact absurd same (edited session other _ written)

/-! ## The calls -/

theorem Inv.read (inv : Inv env desk) {offset limit : Int} {next : Desk}
    (stepped : desk.step env limits (.read sessionId path offset limit) = some next) :
    Inv env next := by
  have reads := @readFile_spec env.codecs limits desk.st.licenses sessionId path desk.st.disk offset
    limit
  unfold Desk.step at stepped
  dsimp only at stepped
  generalize readFile env.codecs limits desk.st.disk desk.st.licenses path offset limit sessionId =
    answer at reads stepped
  obtain ⟨result, licenses⟩ := answer
  dsimp only at reads stepped
  obtain rfl := Option.some.inj stepped
  cases found : desk.st.disk.files path with
  | none =>
    rw [Option.toList_none, List.map_nil, List.append_nil]
    apply inv.forget
    intro entry member
    rcases reads.kept entry member with held | ⟨-, file, _, exists_file, -⟩
    · exact held
    · rw [found] at exists_file
      cases exists_file
  | some file =>
    rw [Option.toList_some, List.map_singleton]
    refine ⟨inv.fresh, (inv.dated.read reads).old, fun entry member other at_path valid => ?_, ?_⟩
    · rw [known_append, List.foldl_cons, List.foldl_nil]
      rcases reads.kept entry member with held | ⟨complete, read, encoding, exists_file, rfl⟩
      · have before := inv.current entry held other at_path valid
        rw [before, learn]
        split
        · rename_i same
          have here : path = entry.1.2 := congrArg Prod.snd same.1
          rw [← here] at at_path
          exact congrArg (fun file => some file.data) (Option.some.inj (found.symm.trans at_path))
        · rfl
      · rw [learn, if_pos ⟨rfl, complete⟩]
        exact congrArg (fun file => some file.data) (Option.some.inj (found.symm.trans at_path))
    · exact overwritesKnown_append inv.final fun _ _ _ _ same => by cases same

theorem Inv.overwrite (inv : Inv env desk) {text : String} {next : Desk}
    (stepped : desk.step env limits (.write sessionId path text false) = some next) :
    Inv env next := by
  have overwrites := @writeLocked_overwrite sessionId path env desk.st text
  unfold Desk.step at stepped
  dsimp only at stepped
  generalize writeLocked env desk.st sessionId path text false = answer at overwrites stepped
  obtain ⟨after, result⟩ := answer
  dsimp only at overwrites stepped
  obtain rfl := Option.some.inj stepped
  rcases overwrites with ⟨failed, disk, fewer⟩ | ⟨rfl, data, encoding, licenses, disk, fewer, noted, valid⟩
  · rw [writeEvent, if_neg failed, List.append_nil]
    obtain ⟨_, _⟩ := after
    dsimp only at disk fewer
    subst disk
    exact inv.forget fewer
  · obtain ⟨_, _⟩ := after
    dsimp only at disk noted
    subst disk
    rw [writeEvent, if_pos rfl, if_neg Bool.false_ne_true, write_self, Option.map_some, Option.getD_some]
    apply inv.write
    · intro entry member
      rw [noted] at member
      rcases mem_store member with ⟨held, other⟩ | rfl
      · exact .inl ⟨fewer entry held, other⟩
      · exact .inr ⟨rfl, rfl, by rw [learn, if_pos rfl]⟩
    · intro session file before other
      rw [learn, if_neg fun same => other same.symm]
    · intro session file replaced written same
      cases found : desk.st.disk.files path with
      | none =>
        rw [found] at same
        cases same
      | some old =>
        rw [found] at same
        cases same
        obtain ⟨license, held, revision⟩ := valid old found
        exact inv.current _ held old found revision

theorem Inv.step (inv : Inv env desk) {call : FileCall} {next : Desk}
    (current : EditsCurrent env desk call) (stepped : desk.step env limits call = some next) :
    Inv env next := by
  cases call with
  | read sessionId path offset limit => exact inv.read stepped
  | write sessionId path text append =>
    cases append with
    | false => exact inv.overwrite stepped
    | true =>
      obtain rfl := Option.some.inj stepped
      simp only [writeEvent, if_true]
      apply inv.edit writeLocked_append (current _ _ rfl)
      · intro before
        rw [learn, if_pos rfl]
      · intro session file before other
        rw [learn, if_neg fun same => other same.symm]
      · exact fun _ _ _ _ => nofun
  | patch sessionId path oldString newString replaceAll =>
    obtain rfl := Option.some.inj stepped
    apply inv.edit applyPatch_spec (current _ _ rfl)
    · intro before
      rw [learn, if_pos rfl]
    · intro session file before other
      rw [learn, if_neg fun same => other same.symm]
    · exact fun _ _ _ _ => nofun
  | forgetLicense sessionId path =>
    obtain rfl := Option.some.inj stepped
    exact inv.forget fun entry member => List.mem_of_mem_filter member
  | forgetSession sessionId =>
    obtain rfl := Option.some.inj stepped
    exact inv.forget fun entry member => List.mem_of_mem_filter member
  | forgetAll =>
    obtain rfl := Option.some.inj stepped
    exact inv.forget fun entry member => absurd member List.not_mem_nil
  | evict =>
    obtain rfl := Option.some.inj stepped
    exact inv.forget fun entry member => List.mem_of_mem_drop member

/-- From files of any contents and no licenses: if no edit goes through under a stale license,
every overwrite replaces the content of its session's last complete read or overwrite with its
own later edits. -/
theorem overwrites_known {env : FileEnv} {limits : ReadLimits} {disk : Disk} {desk : Desk}
    (fresh : ∀ path file, disk.files path = some file → file.mtime < disk.clock)
    (run : Runs (Desk.step env limits) (EditsCurrent env) { st := { disk } } desk) :
    OverwritesKnown env desk.log := by
  have inv : Inv env desk := by
    apply run.invariant (Inv env)
    · refine ⟨fresh, fun _ member => absurd member List.not_mem_nil,
        fun _ member => absurd member List.not_mem_nil, ?_⟩
      intro before session file replaced written after shape
      cases before <;> cases shape
    · intro u u' call inv current stepped
      exact inv.step current stepped
  exact inv.final

/-! ## A stale license -/

def editsCurrent (env : FileEnv) (desk : Desk) (call : FileCall) : Bool :=
  match edit? env call with
  | none => true
  | some (key, change) =>
    match desk.st.disk.files key.2 with
    | none => true
    | some file => (change file.data).isNone || desk.st.licenses.all fun entry =>
      entry.1 != key || entry.2.revision == revisionId (some file)

theorem editsCurrent_of_check {call : FileCall} (checked : editsCurrent env desk call = true) :
    EditsCurrent env desk call := by
  intro key change edits file found goes license held
  rw [editsCurrent, edits] at checked
  dsimp only at checked
  rw [found] at checked
  dsimp only at checked
  rw [Bool.or_eq_true, Option.isNone_iff_eq_none, List.all_eq_true] at checked
  rcases checked with stops | valid
  · rw [stops] at goes
    cases goes
  · simpa using valid _ held

/-- The last event overwrites what its session does not know. -/
def destroys (env : FileEnv) (log : List Event) : Bool :=
  match log.reverse with
  | .overwrite sessionId path (some replaced) _ :: before =>
    known env sessionId path before.reverse != some replaced
  | _ => false

theorem not_known_of_destroys {log : List Event} (destroyed : destroys env log = true) :
    ¬OverwritesKnown env log := by
  unfold destroys at destroyed
  split at destroyed
  · rename_i sessionId path replaced written before shape
    intro final
    have split : log = before.reverse ++ [.overwrite sessionId path (some replaced) written] := by
      rw [← List.reverse_reverse log, shape, List.reverse_cons]
    rw [final _ _ _ _ _ _ split, bne_self_eq_false] at destroyed
    cases destroyed
  · cases destroyed

/-- Session `a` has read the file, session `b` overwrites it, and the append of `a` makes its
license current again. -/
theorem append_hides_change : ∃ desk,
    Runs (Desk.step plainEnv {}) (fun _ _ => True) { st := { disk := oneFile } } desk ∧
      ¬OverwritesKnown plainEnv desk.log := by
  have played : (play (Desk.step plainEnv {}) (fun _ _ => true) { st := { disk := oneFile } }
      [.read "a" "notes.txt" 1 500, .read "b" "notes.txt" 1 500, .write "b" "notes.txt" "peer" false,
        .write "a" "notes.txt" "mine" true, .write "a" "notes.txt" "all mine" false]).any
      (fun desk => destroys plainEnv desk.log) = true := by
    decide +kernel
  obtain ⟨desk, run, destroyed⟩ := Runs.exists_of_play played
  exact ⟨desk, run.mono fun _ _ _ => trivial, not_known_of_destroys destroyed⟩

/-- Without the append of `a`, its overwrite is refused and that of `b` is of what `b` knows. -/
theorem stale_overwrite_refused : ∃ desk : Desk, desk.log.length = 5 ∧
    OverwritesKnown plainEnv desk.log := by
  have played : (play (Desk.step plainEnv {}) (editsCurrent plainEnv) { st := { disk := oneFile } }
      [.read "a" "notes.txt" 1 500, .read "b" "notes.txt" 1 500, .write "b" "notes.txt" "peer" false,
        .write "b" "notes.txt" "more" true, .write "a" "notes.txt" "all mine" false,
        .write "b" "notes.txt" "new" false]).any
      (fun desk => desk.log.length == 5) = true := by
    decide +kernel
  obtain ⟨desk, run, length⟩ := Runs.exists_of_play played
  exact ⟨desk, by simpa using length,
    overwrites_known oneFile_fresh (run.mono fun _ _ => editsCurrent_of_check)⟩

end SherryAgent.Guarantees.BlindOverwrites
