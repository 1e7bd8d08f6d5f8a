import Deltaship.Client.Frame
import Deltaship.Client.Patcher
import Deltaship.Diff.Ceiling

/-!
# Deltaship.Client.Sniffing

The client tells a compressed diff from a raw one by its first bytes.

A raw patch starts with the length of what its first record mixes.  Read as such a length, the
magic number of zstd is above the ceiling of the output.
-/

namespace Deltaship

open Prog

/-! ## the first record -/

/-- Words that start with the magic number are large. -/
theorem maxOutputSize_lt_fromLeBytes {b : Bytes} (h : zstdMagic <+: b) :
    maxOutputSize < fromLeBytes b := by
  obtain ⟨rest, rfl⟩ := h
  simp only [zstdMagic, maxOutputSize, List.cons_append, List.nil_append, fromLeBytes]
  simp
  omega

/-- A patch that is accepted does not start with the magic number. -/
theorem not_prefix_of_applyPatch {old patch new : Bytes} (h : applyPatch old patch = .ok new) :
    ¬ zstdMagic <+: patch := by
  intro hmagic
  unfold applyPatch applyPatchBounded at h
  by_cases hshort : patch.length < 24
  · have hne : patch ≠ [] := by
      rintro rfl
      exact absurd (List.prefix_nil.mp hmagic) (by decide)
    rw [boundedPatch_short hne hshort] at h
    contradiction
  · rw [boundedPatch_checks hshort] at h
    obtain ⟨toRead, hceiling, -⟩ := Except.bind_eq_ok.mp h
    obtain ⟨rfl, hfits⟩ := ceilingCheck_eq_ok hceiling
    have hlarge := maxOutputSize_lt_fromLeBytes (List.prefix_take_iff.mpr
      (⟨hmagic, by decide⟩ : zstdMagic <+: patch ∧ zstdMagic.length ≤ 8))
    omega

/-! ## the update -/

section Update

variable {X : Crates} {e : Env} {mb : ManagedBinary} {upd : UpdateInfo} {old patch new : Bytes}

/-- A patch that can be applied is no zstd frame, so it is taken as it is. -/
theorem decodeDiff_of_applyPatch (h : applyPatch old patch = .ok new) :
    decodeDiff X patch = .ok patch := by
  simp [decodeDiff, not_prefix_of_applyPatch h]

/-- On a raw patch the decompressor does not matter. -/
theorem exec_patchWithDiff_raw {w : World} (h : applyPatch old patch = .ok new)
    (hpatch : w.file (diffPath e.config mb upd) = some patch)
    (Z : ZstdCrate) :
    exec (patchWithDiff X e mb upd) w = exec (patchWithDiff { X with zstd := Z } e mb upd) w := by
  unfold patchWithDiff
  refine exec_bind_congr (wp_orThrow (fun text _ => ?_) fun _ => trivial)
  unfold hashFile
  refine exec_bind_congr ?_
  unfold ofCrypto
  rw [wp_ofExcept]
  cases Hash.fromHex text with
  | error err => trivial
  | ok expected =>
      refine exec_bind_congr ?_
      rw [wp_bind]
      refine wp_readFile (fun raw _ _ => ?_) fun _ _ => trivial
      rw [wp_pure]
      split
      · rfl
      · refine exec_bind_congr (wp_readFile (fun current _ _ => ?_) fun _ _ => trivial)
        refine exec_bind_congr (wp_readFile (fun raw' _ hraw' => ?_) fun _ _ => trivial)
        obtain rfl := Option.some.inj (hraw'.symm.trans hpatch)
        rw [decodeDiff_of_applyPatch h, decodeDiff_of_applyPatch h]

/-- What is downloaded is the same. -/
theorem exec_applyDiffUpdate_raw {w : World} (metrics : UpdateMetrics)
    (h : applyPatch old patch = .ok new)
    (hpatch : ∀ url n w₁, upd.diffUrl = some url →
      exec (downloadFileWithProgress X e url (diffPath e.config mb upd)) w = (.ok n, w₁) →
      w₁.file (diffPath e.config mb upd) = some patch) (Z : ZstdCrate) :
    exec (applyDiffUpdate X e mb upd metrics) w =
      exec (applyDiffUpdate { X with zstd := Z } e mb upd metrics) w := by
  unfold applyDiffUpdate
  cases hurl : upd.diffUrl with
  | none => rfl
  | some url =>
      refine exec_bind_congr (wp_attempt.mpr (wp_mono (fun n w₁ hdownload => ?_)
        (fun _ _ _ => rfl) wp_self))
      refine exec_bind_congr (wp_attempt.mpr (wp_fileLen (fun b _ _ => ?_) fun _ _ => rfl))
      have hraw : exec (patchWithDiff X e mb upd) w₁ = _ :=
        exec_patchWithDiff_raw h (hpatch url n w₁ hurl hdownload) Z
      simp only [exec_bind, exec_attempt, hraw]

end Update

/-- A patch that can be applied to anything does not start with the magic number of zstd, and
a diff update that has downloaded it comes out the same whatever the decompressor does. -/
theorem rawPatch_unambiguous {old patch new : Bytes} (h : applyPatch old patch = .ok new) :
    zstdMagic.isPrefixOf patch = false ∧
    ∀ (X : Crates) (Z : ZstdCrate) (e : Env) (mb : ManagedBinary) (upd : UpdateInfo)
      (metrics : UpdateMetrics) (w : World),
      (∀ url n w₁, upd.diffUrl = some url →
        exec (downloadFileWithProgress X e url (diffPath e.config mb upd)) w = (.ok n, w₁) →
        w₁.file (diffPath e.config mb upd) = some patch) →
      exec (applyDiffUpdate X e mb upd metrics) w =
        exec (applyDiffUpdate { X with zstd := Z } e mb upd metrics) w := by
  constructor
  · rw [← Bool.not_eq_true, List.isPrefixOf_iff_prefix]
    exact not_prefix_of_applyPatch h
  · intro X Z e mb upd metrics w hpatch
    exact exec_applyDiffUpdate_raw metrics h hpatch Z

/-- A patch of one record. -/
theorem rawPatch_unambiguous_sample : zstdMagic.isPrefixOf sampleRecord.bytes = false :=
  (@rawPatch_unambiguous [10, 20] _ [11, 14, 7]
    ((applyPatchBounded_eq_ok (by decide) (by decide)).mpr
      ⟨[sampleRecord], by decide, by decide, by decide⟩)).1

end Deltaship
