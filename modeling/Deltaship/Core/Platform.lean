import Deltaship.Lib.Text

/-!
# Deltaship.Core.Platform

`deltaship-core::Platform`: the supported targets and their texts.
-/

namespace Deltaship

/-- `Platform`. -/
inductive Platform where
  | linuxX86_64
  | linuxAarch64
  | windowsX86_64
  | macosX86_64
  | macosAarch64
deriving DecidableEq, Repr

namespace Platform

/-- `Platform::as_str`. -/
def asStr : Platform → String
  | linuxX86_64 => "linux-x86_64"
  | linuxAarch64 => "linux-aarch64"
  | windowsX86_64 => "windows-x86_64"
  | macosX86_64 => "macos-x86_64"
  | macosAarch64 => "macos-aarch64"

/-- `FromStr for Platform`.  The source lower-cases by Unicode; no letter outside
ASCII becomes one of the letters of a platform. -/
def parse (s : String) : Option Platform :=
  match Text.asciiLower s with
  | "linux-x86_64" | "linux_x86_64" => some linuxX86_64
  | "linux-aarch64" | "linux_aarch64" => some linuxAarch64
  | "windows-x86_64" | "windows_x86_64" => some windowsX86_64
  | "macos-x86_64" | "macos_x86_64" => some macosX86_64
  | "macos-aarch64" | "macos_aarch64" => some macosAarch64
  | _ => none

/-- The text of a platform is read back as the platform. -/
theorem parse_asStr (p : Platform) : parse p.asStr = some p := by
  cases p <;> decide

/-- The text of a platform behind a hyphen, at the end of a text, can be read
back. -/
theorem suffix_inj {p q : Platform} {a b : List Char}
    (h : a ++ ("-" ++ p.asStr).toList = b ++ ("-" ++ q.asStr).toList) : a = b ∧ p = q := by
  have hpq : p = q := by
    have hp : ("-" ++ p.asStr).toList <:+ b ++ ("-" ++ q.asStr).toList := ⟨a, h⟩
    have hq : ("-" ++ q.asStr).toList <:+ b ++ ("-" ++ q.asStr).toList := List.suffix_append _ _
    rcases List.suffix_or_suffix_of_suffix hp hq with hsuffix | hsuffix <;> revert hsuffix <;>
      cases p <;> cases q <;> decide
  subst hpq
  exact ⟨List.append_cancel_right h, rfl⟩

end Platform

end Deltaship
