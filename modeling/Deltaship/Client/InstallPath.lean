import Deltaship.Client.Frame
import Deltaship.Lib.Text

/-!
# Deltaship.Client.InstallPath

`validate_install_path`: an install path may be no symlink, may not lie in a
privileged directory, and may not belong to root unless the client runs as
root.

The check asks the operating system (`Host`) and the file store, and changes
nothing.
-/

namespace Deltaship

/-! ## privileged directories -/

/-- `PRIVILEGED_PATHS`. -/
def privilegedPaths : List String :=
  ["/etc", "/usr", "/bin", "/sbin", "/lib", "/lib64", "/boot", "/sys", "/proc", "/dev",
   "/var/run", "/run", "C:\\Windows", "C:\\Program Files", "C:\\Program Files (x86)"]

/-- `strip_verbatim_prefix`. -/
def stripVerbatimPrefix (p : List Char) : List Char :=
  match Text.stripPrefix "\\\\?\\UNC\\".toList p with
  | some rest => rest
  | none => (Text.stripPrefix "\\\\?\\".toList p).getD p

/-- `strip_drive`. -/
def stripDrive : List Char → List Char
  | a :: ':' :: rest => if a.isAlpha then rest else a :: ':' :: rest
  | p => p

/-- `unix_path_under`. -/
def unixPathUnder (candidate pre : List Char) : Bool :=
  match Text.stripPrefix pre candidate with
  | some rest => rest.isEmpty || rest.head? == some '/'
  | none => false

/-- `windows_path_under`; lower-casing is by Unicode. -/
def windowsPathUnder (h : Host) (candidate pre : String) : Bool :=
  let normalize := fun (s : String) =>
    (h.toLowercase s).toList.map fun c => if c = '/' then '\\' else c
  let cand := stripDrive (stripVerbatimPrefix (normalize candidate))
  match Text.stripPrefix (stripDrive (normalize pre)) cand with
  | some rest => rest.isEmpty || rest.head? == some '\\'
  | none => false

/-- `matched_privileged_path`. -/
def matchedPrivilegedPath (h : Host) (candidate : String) : Option String :=
  privilegedPaths.find? fun privileged =>
    if privileged.toList.contains '\\' || privileged.toList.contains ':' then
      windowsPathUnder h candidate privileged
    else unixPathUnder candidate.toList privileged.toList

/-! ## validation -/

/-- `Path::file_name`, for paths without trailing slashes; `..` has none. -/
def fileName (p : String) : Option String :=
  let name := (p.toList.reverse.takeWhile fun c => c != '/').reverse
  if name = [] ∨ name = ['.', '.'] then none else some (String.ofList name)

/-- The path `validate_install_path` checks: the canonical path of a file that
exists, else the canonical parent with the file's name. -/
def checkPath (h : Host) (path : String) : M String := do
  if ← pathExists path then
    orThrow (h.canonicalize path) s!"Failed to resolve canonical path for '{path}'"
  else
    match parentPath path with
    | none => pure path
    | some parent =>
      if ← pathExists parent then
        bailIf (h.isSymlink parent)
          s!"Security error: parent directory '{parent}' is a symlink. This could be used for a symlink attack. Please use a path with no symlinks in the directory chain."
        let canonicalParent ← orThrow (h.canonicalize parent)
          s!"Failed to resolve canonical path for parent '{parent}'"
        match fileName path with
        | some name => pure (joinPath canonicalParent name)
        | none => pure canonicalParent
      else pure path

/-- The owner check of `validate_install_path` on Unix. -/
def checkOwner (h : Host) (path : String) : M Unit :=
  match h.uid path with
  | some uid =>
    if uid = 0 ∧ h.isRoot = false then
      throw s!"Security error: install path '{path}' is owned by root and current user is not root. This could indicate an attempt to overwrite system files."
    else pure ()
  | none =>
    match (parentPath path).bind fun parent => (h.uid parent).map (parent, ·) with
    | some (parent, 0) =>
      if h.isRoot = false then
        throw s!"Security error: parent directory '{parent}' is owned by root and current user is not root. Cannot create files in root-owned directories."
      else pure ()
    | _ => pure ()

/-- `validate_install_path`. -/
def validateInstallPath (h : Host) (path : String) : M Unit := do
  bailIf (h.isSymlink path)
    s!"Security error: install path '{path}' is a symlink. Symlinks are not allowed as install paths to prevent symlink attacks. Please use the actual file path instead."
  let checked ← checkPath h path
  match matchedPrivilegedPath h checked with
  | some privileged =>
    throw s!"Security error: cannot update binary in privileged location '{checked}'. Deltaship does not support updating system binaries in protected directories like {privileged}. Install the binary in a user-accessible location (e.g., ~/.local/bin/)."
  | none => checkOwner h checked

/-! ## the check changes nothing -/

section Preorder

open Prog

variable {R : World → World → Prop} [IsPreorder World R]

theorem preserves_checkPath (h : Host) (path : String) : Preserves R (checkPath h path) := by
  unfold checkPath
  refine .bind preserves_pathExists fun found => .ite preserves_orThrow ?_
  cases parentPath path with
  | none => exact .pure
  | some parent =>
      refine .bind preserves_pathExists fun above => .ite ?_ .pure
      refine .bind preserves_bailIf fun _ => .bind preserves_orThrow fun _ => ?_
      split
      · exact .pure
      · exact .pure

theorem preserves_checkOwner (h : Host) (path : String) : Preserves R (checkOwner h path) := by
  unfold checkOwner
  split
  · exact .ite .throw .pure
  · split
    · exact .ite .throw .pure
    · exact .pure

/-- Validating a path changes nothing. -/
theorem preserves_validateInstallPath (h : Host) (path : String) :
    Preserves R (validateInstallPath h path) := by
  unfold validateInstallPath
  refine .bind preserves_bailIf fun _ => .bind (preserves_checkPath h path) fun checked => ?_
  split
  · exact .throw
  · exact preserves_checkOwner h checked

end Preorder

end Deltaship
