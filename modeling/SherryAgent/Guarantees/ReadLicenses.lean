import SherryAgent.Contracts.Pages
import SherryAgent.Contracts.Texts
import SherryAgent.Library.Machine

/-!
# Licenses and the conversation

A whole page licenses an overwrite, and lets a later read answer that the file is unchanged. The
conversation keeps a slice of the page, and an edit carries the license, still one from a read,
to another content.

* `licensed_shown` — whole pages that end within the slice, and no edit before an answer that
  the file is unchanged.
* `long_line_cut` — one line that is longer.
-/

namespace SherryAgent.Guarantees.ReadLicenses

open SherryAgent.Source SherryAgent.Source.PubBase SherryAgent.Source.FileTools
open SherryAgent.Source.Agent SherryAgent.Contracts.FileTools
open SherryAgent.Contracts.Texts (splitLinesFrom_line)
open SherryAgent.Library.Machine

/-! ## What the conversation holds -/

/-- A complete read of the file: its bytes and the answer. -/
structure Licensing where
  data : Bytes
  result : ReadResult

/-- The session's last complete read of the file. -/
def licensingRead (sessionId path : String) (log : List Event) : Option Licensing :=
  log.foldl (fun last event =>
    match event with
    | .read session file data offset result =>
      if (session, file) = (sessionId, path) ∧ completeRead offset result = true then
        some ⟨data, result⟩
      else last
    | _ => last) none

/-- The session has appended to the file or patched it since its last complete read. -/
def edited (sessionId path : String) (log : List Event) : Bool :=
  log.foldl (fun edited event =>
    match event with
    | .read session file _ offset result =>
      if (session, file) = (sessionId, path) ∧ completeRead offset result = true then false else edited
    | .append session file _ => if (session, file) = (sessionId, path) then true else edited
    | .patch session file _ _ _ => if (session, file) = (sessionId, path) then true else edited
    | .overwrite _ _ _ _ => edited) false

/-- The message with this answer contains every line of the file. -/
def Shows (env : FileEnv) (loads : List Char → Option Json) (data : Bytes) (result : ReadResult) :
    Prop :=
  ∃ raw shown, fileText env.codecs data = some raw ∧ shownText loads result = some shown ∧
    ShowsEveryLine shown raw

/-- What is in the conversation after each read that records a license, and after each one that
answers that the file is unchanged. -/
def LicensedShown (env : FileEnv) (loads : List Char → Option Json) (log : List Event) : Prop :=
  ∀ before sessionId path data offset result after,
    log = before ++ .read sessionId path data offset result :: after →
      (completeRead offset result = true → Shows env loads data result) ∧
      ∀ total size, result = .unchanged total size →
        ∃ read, licensingRead sessionId path before = some read ∧ Shows env loads data read.result

/-- A read from the start whose page covers the file is of a text that ends within the slice; one
that finds a license from a read for the file's revision is by a session that has not edited the
file since its last complete read. -/
def Shown (env : FileEnv) (limits : ReadLimits) (desk : Desk) : FileCall → Prop
  | .read sessionId path offset limit =>
    ∀ file raw, desk.st.disk.files path = some file → fileText env.codecs file.data = some raw →
      FromStart offset raw →
      (paginates limits file offset limit = true →
        Covers limits raw (clampFrom1 limit limits.readMaxLimit) → Fits raw) ∧
      ∀ license, ((sessionId, path), license) ∈ desk.st.licenses → license.source = .read →
        license.revision = revisionId (some file) → edited sessionId path desk.log = false
  | _ => True

/-! ## The invariant -/

/-- A license from a read stands for a complete read that is shown, and without an edit since
it is one of the bytes that were read. -/
structure Inv (env : FileEnv) (loads : List Char → Option Json) (desk : Desk) : Prop where
  dated : Dated desk.st
  read : ∀ entry ∈ desk.st.licenses, entry.2.source = .read →
    ∃ read, licensingRead entry.1.1 entry.1.2 desk.log = some read ∧
      Shows env loads read.data read.result ∧
      (edited entry.1.1 entry.1.2 desk.log = false → ∀ file,
        desk.st.disk.files entry.1.2 = some file → entry.2.revision = revisionId (some file) →
          file.data = read.data)
  final : LicensedShown env loads desk.log

variable {env : FileEnv} {limits : ReadLimits} {loads : List Char → Option Json} {desk : Desk}
  {sessionId path : String}

theorem licensedShown_append {log : List Event} {event : Event} (final : LicensedShown env loads log)
    (last : ∀ session file data offset result, event = .read session file data offset result →
      (completeRead offset result = true → Shows env loads data result) ∧
      ∀ total size, result = .unchanged total size →
        ∃ read, licensingRead session file log = some read ∧ Shows env loads data read.result) :
    LicensedShown env loads (log ++ [event]) := by
  intro before session file data offset result after shape
  rcases List.eq_nil_or_concat after with rfl | ⟨others, other, rfl⟩
  · obtain ⟨rfl, same⟩ := List.append_inj' shape rfl
    exact last session file data offset result (List.cons.inj same).1
  · rw [List.concat_eq_append, ← List.cons_append, ← List.append_assoc] at shape
    exact final before session file data offset result others (List.append_inj' shape rfl).1

theorem licensingRead_concat (log : List Event) (event : Event) :
    licensingRead sessionId path (log ++ [event]) = (match event with
      | .read session file data offset result =>
        if (session, file) = (sessionId, path) ∧ completeRead offset result = true then
          some ⟨data, result⟩
        else licensingRead sessionId path log
      | _ => licensingRead sessionId path log) := by
  rw [licensingRead, List.foldl_append]
  rfl

theorem edited_concat (log : List Event) (event : Event) :
    edited sessionId path (log ++ [event]) = (match event with
      | .read session file _ offset result =>
        if (session, file) = (sessionId, path) ∧ completeRead offset result = true then false
        else edited sessionId path log
      | .append session file _ =>
        if (session, file) = (sessionId, path) then true else edited sessionId path log
      | .patch session file _ _ _ =>
        if (session, file) = (sessionId, path) then true else edited sessionId path log
      | .overwrite _ _ _ _ => edited sessionId path log) := by
  rw [edited, List.foldl_append]
  rfl

theorem Inv.forget (inv : Inv env loads desk) {licenses : Licenses}
    (fewer : ∀ entry ∈ licenses, entry ∈ desk.st.licenses) :
    Inv env loads { desk with st.licenses := licenses } where
  dated := inv.dated.forget fewer
  read entry member := inv.read entry (fewer entry member)
  final := inv.final

/-- A write by a session: a license from a read that it holds afterwards is one of before, and
the session has edited the file. -/
theorem Inv.write (inv : Inv env loads desk) {data : Bytes} {licenses : Licenses} {event : Event}
    (kept : ∀ entry ∈ licenses, entry ∈ desk.st.licenses ∧ entry.1 ≠ (sessionId, path) ∨
      entry.1 = (sessionId, path) ∧
        entry.2.revision = (desk.st.disk.write path data).fileRevision path ∧
        (entry.2.source = .read →
          (∃ license, ((sessionId, path), license) ∈ desk.st.licenses ∧ license.source = .read) ∧
            edited sessionId path (desk.log ++ [event]) = true))
    (reads : ∀ session file, licensingRead session file (desk.log ++ [event]) =
      licensingRead session file desk.log)
    (edits : ∀ session file, (session, file) ≠ (sessionId, path) →
      edited session file (desk.log ++ [event]) = edited session file desk.log)
    (written : ∀ session file data offset result, event ≠ .read session file data offset result) :
    Inv env loads
      { st := { disk := desk.st.disk.write path data, licenses }, log := desk.log ++ [event] } where
  dated := inv.dated.write fun entry member => (kept entry member).imp And.left (·.2.1)
  read entry member source := by
    rw [reads]
    rcases kept entry member with ⟨held, other⟩ | ⟨same, -, noted⟩
    · obtain ⟨read, last, shows, current⟩ := inv.read entry held source
      refine ⟨read, last, shows, fun unedited file found valid => ?_⟩
      rw [edits _ _ other] at unedited
      by_cases same : entry.1.2 = path
      · -- the license is older than the write
        rw [same, write_self] at found
        cases found
        exact absurd valid (inv.dated.stale held)
      · rw [write_of_ne _ _ same] at found
        exact current unedited file found valid
    · obtain ⟨⟨license, held, from_read⟩, edited_now⟩ := noted source
      obtain ⟨read, last, shows, -⟩ := inv.read _ held from_read
      rw [same]
      refine ⟨read, last, shows, fun unedited => ?_⟩
      rw [edited_now] at unedited
      cases unedited
  final := licensedShown_append inv.final fun _ _ _ _ _ same => absurd same (written _ _ _ _ _)

theorem Inv.edit (inv : Inv env loads desk) {change : Bytes → Option Bytes} {after : FileState}
    {result : WriteResult} {event : Event}
    (edits : Edits change sessionId path desk.st after result)
    (reads : ∀ session file, licensingRead session file (desk.log ++ [event]) =
      licensingRead session file desk.log)
    (own : edited sessionId path (desk.log ++ [event]) = true)
    (others : ∀ session file, (session, file) ≠ (sessionId, path) →
      edited session file (desk.log ++ [event]) = edited session file desk.log)
    (written : ∀ session file data offset result, event ≠ .read session file data offset result) :
    Inv env loads { st := after, log := desk.log ++ if result = .success then [event] else [] } := by
  rcases edits with ⟨failed, rfl⟩ | ⟨rfl, file, data, found, changed, rfl⟩
  · rw [if_neg failed, List.append_nil]
    exact inv
  · rw [if_pos rfl]
    apply inv.write _ reads others written
    intro entry member
    rcases mem_noteEdit member with kept | ⟨license, held, rfl⟩
    · exact .inl kept
    · exact .inr ⟨rfl, rfl, fun source => ⟨⟨license, held, source⟩, own⟩⟩

/-! ## The calls -/

/-- A complete read shows its file. -/
theorem shows_of_paged {file : File} {offset limit : Int} {result : ReadResult}
    (paged : Paged env.codecs limits desk.st.licenses file sessionId path offset limit result)
    (pages : completeRead offset result = true → paginates limits file offset limit = true)
    (shown : Shown env limits desk (.read sessionId path offset limit))
    (found : desk.st.disk.files path = some file)
    (complete : completeRead offset result = true) : Shows env loads file.data result := by
  obtain ⟨raw, total, size, capped, content, start, covers, rfl⟩ := paged.whole complete
  have fits := (shown file raw found content start).1 (pages complete) covers
  obtain ⟨shown, text, every⟩ := @shown_of_fits loads raw total size capped fits
  exact ⟨raw, shown, content, text, every⟩

theorem Inv.read_step (inv : Inv env loads desk) {offset limit : Int} {next : Desk}
    (shown : Shown env limits desk (.read sessionId path offset limit))
    (stepped : desk.step env limits (.read sessionId path offset limit) = some next) :
    Inv env loads next := by
  have reads := @readFile_spec env.codecs limits desk.st.licenses sessionId path desk.st.disk offset
    limit
  have pages := @readFile_paged env.codecs limits desk.st.licenses desk.st.disk sessionId path offset
    limit
  unfold Desk.step at stepped
  dsimp only at stepped
  generalize readFile env.codecs limits desk.st.disk desk.st.licenses path offset limit sessionId =
    answer at reads stepped pages
  obtain ⟨result, licenses⟩ := answer
  dsimp only at reads stepped
  obtain rfl := Option.some.inj stepped
  cases found : desk.st.disk.files path with
  | none =>
    rw [Option.toList_none, List.map_nil, List.append_nil]
    apply inv.forget
    intro entry member
    rcases reads.kept entry member with held | ⟨-, file, _, exists_file, -⟩
    · exact held
    · rw [found] at exists_file
      cases exists_file
  | some file =>
    obtain ⟨paged, pages⟩ := pages rfl found
    rw [Option.toList_some, List.map_singleton]
    refine ⟨inv.dated.read reads, fun entry member source => ?_, ?_⟩
    · rw [licensingRead_concat, edited_concat]
      dsimp only
      by_cases now : (sessionId, path) = (entry.1.1, entry.1.2) ∧ completeRead offset result = true
      · rw [if_pos now, if_pos now]
        refine ⟨_, rfl, shows_of_paged paged pages shown found now.2, fun _ other at_path _ => ?_⟩
        have here : path = entry.1.2 := congrArg Prod.snd now.1
        rw [← here] at at_path
        exact congrArg File.data (Option.some.inj (at_path.symm.trans found))
      · rw [if_neg now, if_neg now]
        rcases reads.kept entry member with held | ⟨complete, read, encoding, exists_file, rfl⟩
        · exact inv.read entry held source
        · exact absurd ⟨rfl, complete⟩ now
    · apply licensedShown_append inv.final
      intro session path' data offset' result' same
      cases same
      refine ⟨shows_of_paged paged pages shown found, fun total size unchanged => ?_⟩
      obtain ⟨⟨raw, content, start⟩, license, held, source, current⟩ :=
        paged.unchanged total size unchanged
      have unedited := (shown file raw found content start).2 license held source current
      obtain ⟨read, last, shows, same⟩ := inv.read _ held source
      refine ⟨read, last, ?_⟩
      have data := same unedited file found current
      exact data ▸ shows

theorem Inv.overwrite (inv : Inv env loads desk) {text : String} {next : Desk}
    (stepped : desk.step env limits (.write sessionId path text false) = some next) :
    Inv env loads next := by
  have overwrites := @writeLocked_overwrite sessionId path env desk.st text
  unfold Desk.step at stepped
  dsimp only at stepped
  generalize writeLocked env desk.st sessionId path text false = answer at overwrites stepped
  obtain ⟨after, result⟩ := answer
  dsimp only at overwrites stepped
  obtain rfl := Option.some.inj stepped
  rcases overwrites with ⟨failed, disk, fewer⟩ | ⟨rfl, data, encoding, licenses, disk, fewer, noted, -⟩
  · rw [writeEvent, if_neg failed, List.append_nil]
    obtain ⟨_, _⟩ := after
    dsimp only at disk fewer
    subst disk
    exact inv.forget fewer
  · obtain ⟨_, _⟩ := after
    dsimp only at disk noted
    subst disk
    rw [writeEvent, if_pos rfl, if_neg Bool.false_ne_true]
    apply inv.write
    · intro entry member
      rw [noted] at member
      rcases mem_store member with ⟨held, other⟩ | rfl
      · exact .inl ⟨fewer entry held, other⟩
      · exact .inr ⟨rfl, rfl, nofun⟩
    · exact fun _ _ => licensingRead_concat _ _
    · exact fun _ _ _ => edited_concat _ _
    · exact fun _ _ _ _ _ => nofun

theorem Inv.step (inv : Inv env loads desk) {call : FileCall} {next : Desk}
    (shown : Shown env limits desk call) (stepped : desk.step env limits call = some next) :
    Inv env loads next := by
  cases call with
  | read sessionId path offset limit => exact inv.read_step shown stepped
  | write sessionId path text append =>
    cases append with
    | false => exact inv.overwrite stepped
    | true =>
      obtain rfl := Option.some.inj stepped
      simp only [writeEvent, if_true]
      apply inv.edit writeLocked_append
      · exact fun _ _ => licensingRead_concat _ _
      · rw [edited_concat]
        exact if_pos rfl
      · intro session file other
        rw [edited_concat]
        exact if_neg fun same => other same.symm
      · exact fun _ _ _ _ _ => nofun
  | patch sessionId path oldString newString replaceAll =>
    obtain rfl := Option.some.inj stepped
    apply inv.edit applyPatch_spec
    · exact fun _ _ => licensingRead_concat _ _
    · rw [edited_concat]
      exact if_pos rfl
    · intro session file other
      rw [edited_concat]
      exact if_neg fun same => other same.symm
    · exact fun _ _ _ _ _ => nofun
  | forgetLicense sessionId path =>
    obtain rfl := Option.some.inj stepped
    exact inv.forget fun entry member => List.mem_of_mem_filter member
  | forgetSession sessionId =>
    obtain rfl := Option.some.inj stepped
    exact inv.forget fun entry member => List.mem_of_mem_filter member
  | forgetAll =>
    obtain rfl := Option.some.inj stepped
    exact inv.forget fun entry member => absurd member List.not_mem_nil
  | evict =>
    obtain rfl := Option.some.inj stepped
    exact inv.forget fun entry member => List.mem_of_mem_drop member

/-- From files of any contents and no licenses: if every whole page ends within the slice, and
no read finds a valid license from a read after an own edit, then each read that records a
license, or that answers that the file is unchanged, has every line of the file in the
conversation. -/
theorem licensed_shown {env : FileEnv} {limits : ReadLimits} {loads : List Char → Option Json}
    {disk : Disk} {desk : Desk}
    (fresh : ∀ path file, disk.files path = some file → file.mtime < disk.clock)
    (run : Runs (Desk.step env limits) (Shown env limits) { st := { disk } } desk) :
    LicensedShown env loads desk.log := by
  have inv : Inv env loads desk := by
    apply run.invariant (Inv env loads)
    · refine ⟨⟨fresh, fun _ member => absurd member List.not_mem_nil⟩,
        fun _ member => absurd member List.not_mem_nil, ?_⟩
      intro before session file data offset result after shape
      cases before <;> cases shape
    · intro u u' call inv shown stepped
      exact inv.step shown stepped
  exact inv.final

/-! ## A long line -/

theorem splitNewlinesFrom_line {line text : List Char} (plain : '\n' ∉ text) :
    splitNewlinesFrom line text = [line ++ text] := by
  induction text generalizing line with
  | nil => simp [splitNewlinesFrom]
  | cons c rest ih =>
    rw [List.mem_cons, not_or] at plain
    rw [splitNewlinesFrom, ih plain.2, List.append_assoc]
    · rfl
    · exact fun same => plain.1 same.symm

/-- `n` letters without a line break. -/
def letters (n : Nat) : List Char := List.replicate n 'a'

variable {n : Nat}

theorem splitLines_letters (positive : 0 < n) : splitLines (letters n) = [letters n] := by
  rw [splitLines, splitLinesFrom_line]
  · simp [letters, Nat.ne_of_gt positive]
  · intro c member
    rw [List.eq_of_mem_replicate member]
    decide

theorem newline_not_mem_letters : '\n' ∉ letters n := by
  intro member
  exact absurd (List.eq_of_mem_replicate member) (by decide)

theorem pageText_letters : pageText [letters n] = letters n := by
  unfold pageText
  simp only [List.flatten_singleton]
  rw [if_neg]
  intro ends
  rw [beq_iff_eq] at ends
  exact newline_not_mem_letters (List.mem_of_getLast? ends)

theorem wholePage_letters (positive : 0 < n) : wholePage (letters n) = '1' :: '|' :: letters n := by
  unfold wholePage
  dsimp only
  rw [pageText_letters, if_neg, addLineNumbers, splitNewlinesFrom_line newline_not_mem_letters]
  · rfl
  · simp [letters, Nat.ne_of_gt positive]

theorem numberedLines_letters (positive : 0 < n) :
    numberedLines (letters n) = ['1' :: '|' :: letters n] := by
  unfold numberedLines
  rw [pageText_letters, if_neg, splitNewlinesFrom_line newline_not_mem_letters]
  · rfl
  · simp [letters, Nat.ne_of_gt positive]

theorem lineTokenCost_letters : lineTokenCost {} (letters n) = n / 4 := by
  have cost : charCost {} 'a' = 1 / 4 := by decide +kernel
  rw [lineTokenCost, letters, List.map_replicate, cost, List.sum_replicate, nsmul_eq_mul, mul_one_div]

theorem pageBudgetLimits_default : pageBudgetLimits {} = (some 3400, some 3400) := by decide +kernel

theorem window_letters (short : n < 13600) {limit : Nat} (positive : 0 < limit) :
    window {} [letters n] 1 limit = { pageLines := [letters n], spent := n / 4 } := by
  have small : (n : ℚ) / 4 < 3400 := by
    have cast : (n : ℚ) < 13600 := by exact_mod_cast short
    linarith
  have room : (some (3400 : ℚ)).filter (· < (n : ℚ) / 4) = none := by
    simpa [Option.filter] using small.le
  rw [window, Nat.sub_self, List.drop_zero, windowFrom, if_neg]
  · simp [lineTokenCost_letters, pageBudgetLimits_default, room, windowFrom]
  · exact Nat.not_le_of_gt positive

/-- One file, of one line. -/
def oneLine (n : Nat) : Disk where
  files path := if path == "notes.txt" then some { data := List.replicate n 97, mtime := 0 } else none
  clock := 1

theorem sniffTextEncoding_letters : sniffTextEncoding plainEnv.codecs (List.replicate n 97) =
    some "utf-8" := by
  have no_mark : ∀ mark : Bytes, 97 ∉ mark → mark ≠ [] →
      mark.isPrefixOf (List.replicate n 97) = false := by
    intro mark absent filled
    cases mark with
    | nil => exact absurd rfl filled
    | cons byte rest =>
      cases n with
      | zero => rfl
      | succ n =>
        rw [List.replicate_succ, List.isPrefixOf_cons_cons, Bool.and_eq_false_iff]
        exact .inl (beq_eq_false_iff_ne.mpr fun same => absent (same ▸ List.mem_cons_self))
  have no_zero : ((List.replicate n (97 : UInt8)).take sniffBytes).contains 0 = false := by
    simp [List.take_replicate, List.mem_replicate]
  rw [sniffTextEncoding, no_mark, no_mark, no_mark, no_zero]
  · rfl
  all_goals decide

theorem decodeText_letters : decodeText plainEnv.codecs (List.replicate n 97) "utf-8" =
    some (String.ofList (letters n)) := by
  simp [decodeText, plainEnv, letters]

theorem fileText_letters : fileText plainEnv.codecs (List.replicate n 97) = some (letters n) := by
  rw [fileText, sniffTextEncoding_letters, Option.bind_some, decodeText_letters, Option.map_some,
    String.toList_ofList]

theorem paginateText_letters (positive : 0 < n) (short : n < 13600) {size limit : Nat}
    (lines : 0 < limit) : paginateText {} (letters n) size 1 limit =
      (.page ('1' :: '|' :: letters n) 1 size false false none, true) := by
  have small : ¬(3400 : ℚ) ≤ n / 4 := by
    have cast : (n : ℚ) < 13600 := by exact_mod_cast short
    linarith
  have page := wholePage_letters positive
  unfold wholePage at page
  unfold paginateText
  dsimp only at page ⊢
  rw [pageText_letters] at page
  rw [splitLines_letters positive, window_letters short lines, pageText_letters, page,
    pageBudgetLimits_default]
  simp [small]

theorem readFile_letters (positive : 0 < n) (short : n < 13600) :
    (readFile plainEnv.codecs {} (oneLine n) [] "notes.txt" 1 500 "a").1 =
      .page ('1' :: '|' :: letters n) 1 n false false none := by
  have found : (oneLine n).files "notes.txt" = some { data := List.replicate n 97, mtime := 0 } := rfl
  have small : ¬262144 ≤ (n : Int) := by omega
  have not_huge : ¬10485760 ≤ (n : Int) := by omega
  rw [readFile, found]
  simp only [List.length_replicate, small, not_huge, decide_false, Bool.and_false,
    Bool.false_eq_true, if_false]
  rw [paginate, sniffTextEncoding_letters]
  dsimp only
  rw [decodeText_letters]
  dsimp only
  rw [String.toList_ofList, splitLines_letters positive]
  have start : clampFrom1 1 (([letters n].length : Nat) + 1 : Int) = 1 := rfl
  have whole := @paginateText_letters n positive short n (clampFrom1 500 2000) (by decide)
  rw [start, List.length_replicate, whole]
  rfl

/-- `json.loads` of a page that is not truncated, by the one item that is asked for. -/
def wholeLoads (_ : List Char) : Option Json := some (.obj [("truncated", .bool false)])

theorem jsonChars_letters : jsonChars ('1' :: '|' :: letters n) = '1' :: '|' :: letters n := by
  have letter : jsonChar 'a' = ['a'] := by decide
  have numbered : jsonChars ['1', '|'] = ['1', '|'] := by decide
  have text : jsonChars (letters n) = letters n := by
    rw [jsonChars, letters, List.flatMap_replicate, letter, List.flatten_replicate_singleton]
  calc jsonChars ('1' :: '|' :: letters n)
      = jsonChars ['1', '|'] ++ jsonChars (letters n) := by simp [jsonChars]
    _ = '1' :: '|' :: letters n := by rw [numbered, text]; rfl

/-- The slice is not longer than the limit with the notice behind it. -/
theorem sliceReadFileResult_short {content : List Char} (long : readFileSliceChars < content.length)
    (newline : '\n' ∉ content) : (sliceReadFileResult wholeLoads content).length ≤ 4200 := by
  have told : ¬readFileSliceNotice.toList <:+: content := by
    intro inside
    exact newline (inside.subset (by decide +kernel))
  have declared : readFileIsSelfTruncated wholeLoads content = false := rfl
  have notice : readFileSliceNotice.toList.length ≤ 200 := by decide +kernel
  have limit : readFileSliceChars = 4000 := rfl
  rw [sliceReadFileResult, if_neg]
  · rw [List.length_append, List.length_take]
    omega
  · simp [told, declared]
    omega

/-- The answer to the read of a line that is longer than that does not show the line. -/
theorem not_shows_letters (long : 4200 ≤ n) {size : Nat}
    (closing : '\n' ∉ contentClosing 1 size false false []) :
    ¬Shows plainEnv wholeLoads (List.replicate n 97)
      (.page ('1' :: '|' :: letters n) 1 size false false none) := by
  rintro ⟨raw, shown, content, text, every⟩
  rw [fileText_letters, Option.some.injEq] at content
  subst content
  have line := every ('1' :: '|' :: letters n) (by simp [numberedLines_letters (by omega : 0 < n)])
  rw [jsonChars_letters] at line
  unfold shownText answerText at text
  dsimp only at text
  rw [Option.map_some, Option.some.injEq, jsonChars_letters] at text
  subst text
  have length := line.length_le
  have short := @sliceReadFileResult_short
    (contentOpening ++ '1' :: '|' :: letters n ++ contentClosing 1 size false false []) ?_ ?_
  · simp only [List.length_cons, letters, List.length_replicate] at length
    exact absurd (length.trans short) (by omega)
  · have limit : readFileSliceChars = 4000 := rfl
    simp only [List.length_append, List.length_cons, letters, List.length_replicate]
    omega
  · have opening : '\n' ∉ contentOpening := by decide +kernel
    simp [opening, closing, newline_not_mem_letters]

/-- One read of a line of `n` letters. -/
theorem line_cut (long : 4200 ≤ n) (short : n < 13600)
    (closing : '\n' ∉ contentClosing 1 n false false []) : ∃ desk,
    Runs (Desk.step plainEnv {}) (fun _ _ => True) { st := { disk := oneLine n } } desk ∧
      ¬LicensedShown plainEnv wholeLoads desk.log := by
  refine ⟨_, .single ⟨.read "a" "notes.txt" 1 500, trivial, rfl⟩, fun final => ?_⟩
  let answer := (readFile plainEnv.codecs {} (oneLine n) [] "notes.txt" 1 500 "a").1
  have shows := (final [] "a" "notes.txt" (List.replicate n 97) 1 answer [] rfl).1
  dsimp only [answer] at shows
  rw [readFile_letters (by omega) short] at shows
  exact not_shows_letters long closing (shows rfl)

theorem long_line_cut : ∃ desk,
    Runs (Desk.step plainEnv {}) (fun _ _ => True) { st := { disk := oneLine 5000 } } desk ∧
      ¬LicensedShown plainEnv wholeLoads desk.log :=
  line_cut (by decide) (by decide) (by decide +kernel)

/-! ## A short file -/

def fitsWithin (raw : List Char) : Bool :=
  decide (contentOpening.length + (jsonChars (wholePage raw)).length ≤ readFileSliceChars)

/-- The read of a file that ends within the slice, by a session that has not edited it. -/
def shownCheck (env : FileEnv) (desk : Desk) : FileCall → Bool
  | .read sessionId path _ _ =>
    (match desk.st.disk.files path with
      | some file => ((fileText env.codecs file.data).all fitsWithin)
      | none => true) && !edited sessionId path desk.log
  | _ => true

theorem shown_of_check {call : FileCall} (checked : shownCheck env desk call = true) :
    Shown env limits desk call := by
  cases call with
  | read sessionId path offset limit =>
    intro file raw found content start
    rw [shownCheck, found] at checked
    dsimp only at checked
    rw [content, Bool.and_eq_true, Option.all_some, fitsWithin, decide_eq_true_eq,
      Bool.not_eq_true'] at checked
    exact ⟨fun _ _ => checked.1, fun _ _ _ _ => checked.2⟩
  | _ => trivial

/-- Two reads of a short file: a page, and the answer that it is unchanged. -/
theorem short_file_shown : ∃ desk : Desk, desk.log.length = 2 ∧
    LicensedShown plainEnv wholeLoads desk.log := by
  have played : (play (Desk.step plainEnv {}) (shownCheck plainEnv) { st := { disk := oneFile } }
      [.read "a" "notes.txt" 1 500, .read "a" "notes.txt" 1 500]).any
      (fun desk => desk.log.length == 2) = true := by
    decide +kernel
  obtain ⟨desk, run, length⟩ := Runs.exists_of_play played
  exact ⟨desk, by simpa using length,
    licensed_shown oneFile_fresh (run.mono fun _ _ => shown_of_check)⟩

end SherryAgent.Guarantees.ReadLicenses
