import Clinch.RemoteControl.Frame

/-!
# Staging and publishing an upload

`stage_upload`, `finalize_upload` and `publish_without_overwrite` of
`app/src/remote_control/gateway.rs`. The files of the Mac are their contents by path; whether a call
fails for another reason than a file that exists is up to the `Mac`. Removing a file does not fail.

* `FileSystem`, `createNew`, `append`, `hardLink`;
* `Mac`, `ActiveUpload`, `stageUpload`, `publishWithoutOverwrite`, `finalizeUpload`;
* `publishWithoutOverwrite_spec`, `finalizeUpload_spec`: what they leave of the files.
-/

set_option autoImplicit false

namespace Clinch

/-! ## Files -/

abbrev FileSystem := HashMap String (List UInt8)

inductive LinkError
  | alreadyExists
  | other (text : String)

namespace FileSystem

/-- `OpenOptions::create_new`. -/
def createNew (path : String) (error : Option String) (files : FileSystem) :
    Except String FileSystem :=
  match files.get path, error with
  | some _, error => .error (error.getD "File exists (os error 17)")
  | none, some error => .error error
  | none, none => .ok (files.insert path [])

/-- What is written to a file that was removed is lost. -/
def append (path : String) (bytes : List UInt8) (files : FileSystem) : FileSystem :=
  match files.get path with
  | some content => files.insert path (content ++ bytes)
  | none => files

/-- `std::fs::hard_link`. -/
def hardLink (original link : String) (error : Option String) (files : FileSystem) :
    Except LinkError FileSystem :=
  match files.get link, error, files.get original with
  | some _, _, _ => .error .alreadyExists
  | none, some error, _ => .error (.other error)
  | none, none, none => .error (.other "No such file or directory (os error 2)")
  | none, none, some content => .ok (files.insert link content)

end FileSystem

/-- What the Mac answers to the calls of one message. -/
structure Mac where
  openError : Option String
  writeFails : Bool
  flushError : Option String
  syncError : Option String
  /-- For the candidate with the suffix. -/
  linkError : ℕ → Option String

/-! ## Uploads -/

structure ActiveUpload where
  plan : UploadPlan
  stagingPath : String
  nextChunkIndex : UInt64
  received : ℕ
  /-- What the digest was updated with. -/
  digest : List UInt8
deriving DecidableEq

/-- `Path::join` with the name of a file. -/
def joinPath (directory name : String) : String :=
  if directory.endsWith "/" then directory ++ name else directory ++ "/" ++ name

def UploadPlan.stagingPath (plan : UploadPlan) : String :=
  joinPath plan.destinationDirectory
    (".clinch-upload-" ++ String.ofList plan.uploadId.uuid.toText ++ ".part")

def cleanupStagingFile (path : String) (files : FileSystem) : FileSystem := files.remove path

def stageUpload (mac : Mac) (plan : UploadPlan) (files : FileSystem) :
    Except String ActiveUpload × FileSystem :=
  match files.createNew plan.stagingPath mac.openError with
  | .error error => (.error ("Could not stage the upload in the terminal directory: " ++ error), files)
  | .ok files => (.ok ⟨plan, plan.stagingPath, 0, 0, []⟩, files)

/-- The part of a name up to its last dot, and the part behind it. -/
def splitAtLastDot (name : List Char) : Option (List Char × List Char) :=
  let after := (name.reverse.takeWhile (· ≠ '.')).reverse
  if after.length = name.length then none
  else some (name.take (name.length - after.length - 1), after)

/-- `file_stem` and `extension`; a dot at the beginning does not count. -/
def fileStem (filename : String) : String × Option String :=
  if filename = "" ∨ filename = "." ∨ filename = ".." then ("upload", none)
  else match splitAtLastDot filename.toList with
    | none | some ([], _) => (filename, none)
    | some (stem, extension) => (String.ofList stem, some (String.ofList extension))

/-- The name for the suffix. -/
def candidateName (filename : String) (suffix : ℕ) : String :=
  if suffix = 0 then filename
  else match fileStem filename with
    | (stem, some extension) => stem ++ " (" ++ toString suffix ++ ")." ++ extension
    | (stem, none) => stem ++ " (" ++ toString suffix ++ ")"

/-- The loop of `publish_without_overwrite`. -/
def publishAs (mac : Mac) (stagingPath directory filename : String) (files : FileSystem) :
    List ℕ → Except String String × FileSystem
  | [] => (.error "Could not choose a collision-free filename for the upload.",
      cleanupStagingFile stagingPath files)
  | suffix :: suffixes =>
    let candidate := joinPath directory (candidateName filename suffix)
    match files.hardLink stagingPath candidate (mac.linkError suffix) with
    | .ok files => (.ok candidate, cleanupStagingFile stagingPath files)
    | .error .alreadyExists => publishAs mac stagingPath directory filename files suffixes
    | .error (.other error) =>
      (.error ("Could not publish the uploaded file: " ++ error), cleanupStagingFile stagingPath files)

def publishWithoutOverwrite (mac : Mac) (stagingPath directory filename : String)
    (files : FileSystem) : Except String String × FileSystem :=
  publishAs mac stagingPath directory filename files (List.range 10000)

def finalizeUpload (k : Crypto) (mac : Mac) (upload : ActiveUpload) (files : FileSystem) :
    Except String (UploadPlan × String) × FileSystem :=
  if upload.received ≠ upload.plan.size then
    (.error "The upload ended before the declared file size was received.",
      cleanupStagingFile upload.stagingPath files)
  else match mac.flushError with
  | some error => (.error ("Could not flush the uploaded file: " ++ error),
      cleanupStagingFile upload.stagingPath files)
  | none => match mac.syncError with
    | some error => (.error ("Could not securely finish the uploaded file: " ++ error),
        cleanupStagingFile upload.stagingPath files)
    | none =>
      if k.hexEncode (k.sha256 upload.digest) ≠ upload.plan.sha256 then
        (.error "The uploaded file failed its SHA-256 integrity check.",
          cleanupStagingFile upload.stagingPath files)
      else
        let (result, files) := publishWithoutOverwrite mac upload.stagingPath
          upload.plan.destinationDirectory upload.plan.filename files
        (result.map fun finalPath => (upload.plan, finalPath), files)

/-! ## What they leave -/

/-- The staging file is gone, and every other file is as it was. -/
def Unstaged (stagingPath : String) (files files' : FileSystem) : Prop :=
  ∀ path, files'.get path = if path = stagingPath then none else files.get path

/-- The staging file has become the file at the path, where there was none. -/
def Published (stagingPath path : String) (content : List UInt8) (files files' : FileSystem) :
    Prop :=
  path ≠ stagingPath ∧ files.get path = none ∧ files.get stagingPath = some content ∧
    ∀ path', files'.get path' = if path' = path then some content
      else if path' = stagingPath then none else files.get path'

variable {mac : Mac} {files : FileSystem}

theorem unstaged_cleanup (stagingPath : String) (files : FileSystem) :
    Unstaged stagingPath files (cleanupStagingFile stagingPath files) := by
  intro path
  rw [cleanupStagingFile]
  split
  · rename_i h
    rw [h, HashMap.get_remove_self]
  · rename_i h
    exact HashMap.get_remove_of_ne _ h

theorem hardLink_eq_ok {original link : String} {error : Option String} {files' : FileSystem}
    (h : files.hardLink original link error = .ok files') : ∃ content,
      files.get link = none ∧ files.get original = some content ∧ files' = files.insert link content := by
  unfold FileSystem.hardLink at h
  split at h
  · cases h
  · cases h
  · cases h
  · rename_i content hl ho
    exact ⟨content, hl, ho, (Except.ok.inj h).symm⟩

theorem publishAs_spec (mac : Mac) (stagingPath directory filename : String) (files : FileSystem)
    (suffixes : List ℕ) :
    (∃ path content, (publishAs mac stagingPath directory filename files suffixes).1 = .ok path ∧
      Published stagingPath path content files
        (publishAs mac stagingPath directory filename files suffixes).2) ∨
    ((publishAs mac stagingPath directory filename files suffixes).1.toOption = none ∧
      Unstaged stagingPath files (publishAs mac stagingPath directory filename files suffixes).2) := by
  induction suffixes with
  | nil => exact Or.inr ⟨rfl, unstaged_cleanup stagingPath files⟩
  | cons suffix suffixes ih =>
    rw [publishAs]
    split
    · rename_i files' h
      obtain ⟨content, hl, ho, rfl⟩ := hardLink_eq_ok h
      have hne : joinPath directory (candidateName filename suffix) ≠ stagingPath := by
        intro heq
        rw [heq, ho] at hl
        exact nomatch hl
      refine Or.inl ⟨_, content, rfl, hne, hl, ho, fun path => ?_⟩
      rw [unstaged_cleanup, HashMap.get_insert]
      by_cases hp : path = joinPath directory (candidateName filename suffix)
      · rw [if_neg (hp ▸ hne), if_pos hp, if_pos hp]
      · rw [if_neg hp, if_neg hp]
    · exact ih
    · exact Or.inr ⟨rfl, unstaged_cleanup stagingPath files⟩

/-- **A finished upload is published where there was no file, or its staging file is removed.** It is
published only if it has the declared size and digest. -/
theorem finalizeUpload_spec (k : Crypto) (mac : Mac) (upload : ActiveUpload) (files : FileSystem) :
    (∃ path content, (finalizeUpload k mac upload files).1 = .ok (upload.plan, path) ∧
      upload.received = upload.plan.size ∧
      k.hexEncode (k.sha256 upload.digest) = upload.plan.sha256 ∧
      Published upload.stagingPath path content files (finalizeUpload k mac upload files).2) ∨
    ((∃ error, (finalizeUpload k mac upload files).1 = .error error) ∧
      Unstaged upload.stagingPath files (finalizeUpload k mac upload files).2) := by
  have hclean := unstaged_cleanup upload.stagingPath files
  rw [finalizeUpload]
  split
  · exact Or.inr ⟨⟨_, rfl⟩, hclean⟩
  rename_i hsize
  split
  · exact Or.inr ⟨⟨_, rfl⟩, hclean⟩
  split
  · exact Or.inr ⟨⟨_, rfl⟩, hclean⟩
  split
  · exact Or.inr ⟨⟨_, rfl⟩, hclean⟩
  rename_i hdigest
  simp only
  rcases publishAs_spec mac upload.stagingPath upload.plan.destinationDirectory upload.plan.filename
    files (List.range 10000) with ⟨path, content, hok, hpub⟩ | ⟨hnone, huns⟩
  · refine Or.inl ⟨path, content, ?_, not_not.mp hsize, not_not.mp hdigest, hpub⟩
    rw [publishWithoutOverwrite, hok]
    rfl
  · refine Or.inr ⟨?_, huns⟩
    rw [publishWithoutOverwrite]
    cases hr : (publishAs mac upload.stagingPath upload.plan.destinationDirectory
      upload.plan.filename files (List.range 10000)).1 with
    | ok path => rw [hr] at hnone; exact nomatch hnone
    | error error => exact ⟨error, rfl⟩

end Clinch
