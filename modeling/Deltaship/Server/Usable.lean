import Deltaship.Client.Checker
import Deltaship.Db.Normalization
import Deltaship.Server.Deletion

/-!
# Deltaship.Server.Usable

The versions that the server offers, on the client: whether a version that was
published and is offered passes the client's check of its format and is recorded as
it is.

The server accepts 255 bytes, build metadata and versions of 0.0.0.  The client's
format has 64 bytes and no plus sign, and its database no version of 0.0.0; in
everything else the three validators agree.
-/

namespace Deltaship

open Runs

/-- `Version::parse` accepts no text that ends with a dot. -/
def SemverCrate.EndsWithoutDot (S : SemverCrate) : Prop :=
  ∀ {s : String} {v : Version}, S.parse s = some v → s.toList.getLast? ≠ some '.'

/-- The client neither refuses an update to the version nor fails to record it. -/
structure Usable (S : SemverCrate) (version : String) : Prop where
  format : validateVersionFormat version = .ok ()
  recorded : normalizeVersionString S version = .ok version

/-- A version of 0.0.0. -/
def Version.IsZero (v : Version) : Prop := v.major = 0 ∧ v.minor = 0 ∧ v.patch = 0

instance (v : Version) : Decidable v.IsZero := inferInstanceAs (Decidable (_ ∧ _ ∧ _))

/-! ## the client's checks -/

/-- What the client's format is. -/
theorem validateVersionFormat_eq_ok {version : String} :
    validateVersionFormat version = .ok () ↔
      version.isEmpty = false ∧ Text.byteLen version ≤ maxVersionLength ∧
      version.toList.head? ≠ some '.' ∧ version.toList.getLast? ≠ some '.' ∧
      Text.contains version ".." = false ∧
      ∀ c ∈ version.toList, (isAsciiAlphanumeric c || c == '.' || c == '-' || c == '_') = true := by
  unfold validateVersionFormat
  constructor
  · intro h
    split at h
    · contradiction
    split at h
    · contradiction
    split at h
    · contradiction
    split at h
    · contradiction
    split at h
    · contradiction
    · next hempty hlength hends hdots hchars =>
        rw [not_or] at hends
        simp only [Bool.not_eq_true', Bool.not_eq_false] at hchars
        exact ⟨by simpa using hempty, Nat.le_of_not_lt hlength, hends.1, hends.2,
          by simpa using hdots, List.all_eq_true.mp hchars⟩
  · rintro ⟨hempty, hlength, hhead, hlast, hdots, hchars⟩
    have hall : version.toList.all (fun c =>
        isAsciiAlphanumeric c || c == '.' || c == '-' || c == '_') = true :=
      List.all_eq_true.mpr hchars
    simp [hempty, Nat.not_lt.mpr hlength, hhead, hlast, hdots, hall]

/-- The server's characters are ASCII, and none is white space. -/
theorem ascii_of_versionChar {c : Char} (h : versionChar c = true) :
    Text.isAscii c = true ∧ Text.isWhitespace c = false := by
  have hbound : 32 < c.toNat ∧ c.toNat < 127 := by
    simp only [versionChar, nameChar, Bool.or_eq_true, beq_iff_eq] at h
    rcases h with (((hletter | rfl) | rfl) | rfl) | rfl
    · rcases hletter with hletter | hdigit
      · have hletter := Text.isAlpha_iff.mp hletter
        omega
      · have hdigit := Text.isDigit_iff.mp hdigit
        omega
    all_goals decide
  exact ⟨decide_eq_true (by omega), Text.isWhitespace_of_printing hbound.1 hbound.2⟩

/-- The client's characters are the server's without the plus sign. -/
theorem versionChar_iff {c : Char} (h : versionChar c = true) :
    (isAsciiAlphanumeric c || c == '.' || c == '-' || c == '_') = true ↔ c ≠ '+' := by
  constructor
  · rintro hc rfl
    revert hc
    decide
  · intro hne
    simp only [versionChar, nameChar, Bool.or_eq_true, beq_iff_eq] at h
    simp only [isAsciiAlphanumeric, Bool.or_eq_true, beq_iff_eq]
    tauto

section Accepted

variable {S : SemverCrate} {text : String} {v : Version}

/-- An accepted version is normalized to itself, unless it is one of 0.0.0. -/
theorem normalizeVersionString_eq_ok (hdigit : S.StartsWithDigit)
    (hvalid : validateVersion text = .ok ()) (hparse : S.parse text = some v) :
    normalizeVersionString S text = .ok text ↔ ¬ v.IsZero := by
  obtain ⟨-, hlength, -, -, hchars⟩ := validateText_ok hvalid
  obtain ⟨c, rest, htext, hc⟩ := hdigit hparse
  have hlast : ∀ d ∈ (c :: rest).getLast?, Text.isWhitespace d = false := by
    intro d hd
    rw [← htext] at hd
    exact (ascii_of_versionChar (hchars d (List.mem_of_getLast? hd))).2
  have hunadorned : Unadorned text := by
    rw [← String.ofList_toList (s := text), htext]
    exact unadorned_of_digit hc hlast
  rw [normalizeVersionString_eq_ok_iff, hunadorned.1, stripV_eq_self_iff.mpr hunadorned.2,
    String.ofList_toList]
  constructor
  · rintro ⟨-, -, -, v', hparse', hzero⟩
    obtain rfl := Option.some.inj (hparse.symm.trans hparse')
    exact hzero
  · intro hzero
    exact ⟨fun d hd => (ascii_of_versionChar (hchars d hd)).1, rfl, hlength, v, hparse, hzero⟩

/-- What the client needs of a version that the server accepts. -/
theorem usable_iff (hdigit : S.StartsWithDigit) (hdot : S.EndsWithoutDot)
    (hvalid : validateVersion text = .ok ()) (hparse : S.parse text = some v) :
    Usable S text ↔
      Text.byteLen text ≤ maxVersionLength ∧ '+' ∉ text.toList ∧ ¬ v.IsZero := by
  have hrecorded := normalizeVersionString_eq_ok hdigit hvalid hparse
  obtain ⟨hempty, -, hdots, -, hchars⟩ := validateText_ok hvalid
  constructor
  · rintro ⟨hformat, hnormal⟩
    obtain ⟨-, hlength, -, -, -, hclient⟩ := validateVersionFormat_eq_ok.mp hformat
    refine ⟨hlength, fun hplus => ?_, hrecorded.mp hnormal⟩
    exact (versionChar_iff (hchars _ hplus)).mp (hclient _ hplus) rfl
  · rintro ⟨hlength, hplus, hzero⟩
    obtain ⟨c, rest, htext, hc⟩ := hdigit hparse
    refine ⟨validateVersionFormat_eq_ok.mpr ⟨hempty, hlength, ?_, hdot hparse, hdots, ?_⟩,
      hrecorded.mpr hzero⟩
    · rw [htext, List.head?_cons]
      rintro ⟨⟩
      contradiction
    · intro c hc
      refine (versionChar_iff (hchars c hc)).mpr ?_
      rintro rfl
      contradiction

end Accepted

/-! ## whole runs -/

/- A version comes into a catalog through `publish_version` only, which has validated its text. A
client validates the text once more, by a rule that is not the same. -/

/-- A version that was published: `publish_version` accepts its text. -/
def Publishable (S : SemverCrate) (v : Version) : Prop :=
  validateVersion (S.display v) = .ok () ∧ S.parse (S.display v) = some v

/-- The versions of the catalogs were published, and the latest ones as well. -/
def CatalogsPublished (S : SemverCrate) (a : Artifacts) : Prop :=
  ∀ appName catalog, a.getAppCatalog appName = some catalog →
    Publishable S catalog.latestVersion ∧ ∀ info ∈ catalog.versions, Publishable S info.version

section Runs

variable {X : ServerCrates} {a a' : Artifacts} {q : Request} {ok : Bool}

/-- A catalog of versions that may be published leaves the others. -/
theorem CatalogsPublished.setCatalog (h : CatalogsPublished X.semver a) {appName : String}
    {catalog : AppCatalog} (hlatest : Publishable X.semver catalog.latestVersion)
    (hversions : ∀ info ∈ catalog.versions, Publishable X.semver info.version) :
    CatalogsPublished X.semver (a.setCatalog appName catalog) := by
  intro n c hread
  by_cases hn : n = appName
  · subst hn
    rw [Artifacts.getAppCatalog_setCatalog_self] at hread
    obtain rfl := Option.some.inj hread
    exact ⟨hlatest, hversions⟩
  · rw [Artifacts.getAppCatalog_setCatalog_ne hn] at hread
    exact h n c hread

/-- A version of a catalog is the one that its text parses to. -/
theorem publishable_of_parse {catalog : AppCatalog} {text : String} {v : Version}
    (h : ∀ info ∈ catalog.versions, Publishable X.semver info.version)
    (htext : ∃ info ∈ catalog.versions, X.semver.display info.version = text)
    (hparse : X.semver.parse text = some v) : Publishable X.semver v := by
  obtain ⟨info, hinfo, rfl⟩ := htext
  have hpublished := h info hinfo
  obtain rfl := Option.some.inj (hpublished.2.symm.trans hparse)
  exact hpublished

theorem CatalogsPublished.effect (h : CatalogsPublished X.semver a) (hS : X.semver.DisplayParse)
    (heffect : q.Effect X a ok a') : CatalogsPublished X.semver a' := by
  cases heffect with
  | @published e publisher p form r o b b' hr =>
      have hnew : Publishable X.semver r.version := by
        unfold Publishable
        rw [hS hr.parse]
        exact ⟨hr.versionOk, hr.parse⟩
      have hcurrent : ∀ catalog, (if b' = true then a.getAppCatalog p.appName else none) =
          some catalog → a.getAppCatalog p.appName = some catalog :=
        fun _ hread => (Option.ite_none_right_eq_some.mp hread).2
      refine CatalogsPublished.setCatalog (a := a.storeRelease p r o b) h ?_ fun info hinfo => ?_
      · rcases @latestVersion_publishCatalog X.semver p.appName r.info
          (if b' then a.getAppCatalog p.appName else none) with hlatest | ⟨catalog, hread, hlatest⟩
        · rw [hlatest]
          exact hnew
        · rw [hlatest]
          exact (h _ _ (hcurrent catalog hread)).1
      · rcases version_of_mem_publishCatalog hinfo with hversion | ⟨catalog, hread, old, hold, hversion⟩
        · rw [hversion]
          exact hnew
        · rw [← hversion]
          exact (h _ _ (hcurrent catalog hread)).2 old hold
  | diffAdded => exact h
  | activated hcatalog hchange =>
      obtain ⟨htext, latestVersion, hparse, rfl⟩ := activateCatalog_ok hchange
      have hversions := (h _ _ hcatalog).2
      exact h.setCatalog (publishable_of_parse hversions htext hparse) hversions
  | rolledOut => exact h
  | marked => exact h
  | @deleted e publisher p catalog hcatalog =>
      obtain ⟨hlatest, hversions⟩ := h _ _ hcatalog
      refine CatalogsPublished.setCatalog (a := a.markDeleted p) h ?_ ?_
      · rcases latestVersion_deleteCatalog with hsame | ⟨text, havailable, hparse⟩
        · rw [hsame]
          exact hlatest
        · exact publishable_of_parse hversions (mem_availableVersions.mp havailable).1 hparse
      · rw [versions_deleteCatalog]
        exact hversions
  | failed hsame =>
      intro appName catalog hread
      exact h appName catalog (hsame.catalog appName ▸ hread)

end Runs

/-- The client can use a version that it is offered, in any state of the server,
exactly if the version has at most 64 bytes and no build metadata, and is not one of
0.0.0. -/
theorem offered_version_usable_iff (X : ServerCrates) (hS : X.semver.DisplayParse)
    (hdigit : X.semver.StartsWithDigit) (hdot : X.semver.EndsWithoutDot) (s : Store)
    (hrun : Reaches (Request.next X) (fun _ _ => True) Store.empty s) (appName : String)
    (query : UpdateCheckQuery) (resp : UpdateCheckResponse) (target : Version)
    (hresp : checkUpdate X s.toArtifacts appName query = .ok resp)
    (havailable : resp.updateAvailable = true) (htarget : resp.targetVersion = some target) :
    Usable X.semver (X.semver.display target) ↔
      Text.byteLen (X.semver.display target) ≤ maxVersionLength ∧
      '+' ∉ (X.semver.display target).toList ∧ ¬ target.IsZero := by
  have hpublished : CatalogsPublished X.semver s.toArtifacts := by
    refine hrun.invariant (I := fun s => CatalogsPublished X.semver s.toArtifacts)
      (fun appName catalog hread => ?_) fun s q h _ => h.effect hS (Request.effect X s q)
    contradiction
  obtain ⟨platform, current, catalog, info, hoffer, rfl⟩ := offerOf_of_checkUpdate hresp havailable
  obtain rfl := Option.some.inj htarget
  obtain ⟨⟨hvalid, hparse⟩, -⟩ := hpublished appName catalog hoffer.catalogRead
  exact usable_iff hdigit hdot hvalid hparse

/-- The sample crate displays no version with a dot at its end. -/
theorem semverOf_endsWithoutDot {versions : List Version}
    (h : ∀ v ∈ versions, v.text.toList.getLast? ≠ some '.') :
    (semverOf versions).EndsWithoutDot := by
  intro s v hparse
  obtain rfl := semverOf_displayParse versions hparse
  have hfind : versions.find? (fun w => w.text == v.text) = some v := hparse
  exact h v (List.mem_of_find?_eq_some hfind)

/-- The first version is offered, and can be used. -/
theorem offered_version_usable_first :
    Usable sampleSemver (sampleSemver.display (.new 1 0 0)) ↔
      Text.byteLen (sampleSemver.display (.new 1 0 0)) ≤ maxVersionLength ∧
      '+' ∉ (sampleSemver.display (.new 1 0 0)).toList ∧ ¬ (Version.new 1 0 0).IsZero := by
  have hdot : sampleSemver.EndsWithoutDot := semverOf_endsWithoutDot (by decide)
  have hrun : Reaches (Request.next sampleServer) (fun _ _ => True) Store.empty
      (Request.next sampleServer Store.empty (samplePublish .linuxX86_64 [1] sampleSig1)) :=
    (Reaches.refl _).tail trivial
  rw [Request.next, samplePublish_run] at hrun
  exact offered_version_usable_iff sampleServer sampleSemver_displayParse
    (semverOf_startsWithDigit sampleVersions) hdot sampleFirstStore hrun "app"
    ⟨none, "linux-x86_64", none⟩ _ (.new 1 0 0) rfl rfl rfl

/-! ### build metadata -/

/-- Two versions that differ in their build metadata. -/
def buildVersions : List Version := [⟨1, 0, 0, "", "a"⟩, ⟨1, 0, 0, "", "b"⟩]

/-- The crates of a server that parses these versions. -/
def buildServer : ServerCrates := ⟨semverOf buildVersions, sampleCrypto, fun _ => none⟩

/-- A publisher without a key. -/
def keylessPublisher : Publisher := ⟨"publisher", none, none⟩

/-- The request that publishes this as a version. -/
def buildPublish (version : String) (platform : Platform) (binary : Bytes) : Request :=
  .publish sampleServerEnv keylessPublisher ⟨"app", version⟩ (sampleForm platform binary sampleSig1)

/-- The server after 1.0.0+a was published for Linux. -/
def buildStore : Store where
  catalogs := Files.ofList [("app", some ⟨"app",
    [⟨⟨1, 0, 0, "", "a"⟩, [.linuxX86_64], none, false, none⟩], ⟨1, 0, 0, "", "a"⟩⟩)]
  manifests := Files.ofList [(⟨"app", "1.0.0+a"⟩, some ⟨⟨1, 0, 0, "", "a"⟩,
    Files.ofList [(.linuxX86_64, ⟨(sampleBlake3 [1]).toHex, 1, []⟩)]⟩)]
  binaries := Files.ofList [((⟨"app", "1.0.0+a"⟩, .linuxX86_64), [1])]
  signatures := Files.ofList [(⟨"app", "1.0.0+a"⟩, sampleSig1.val)]
  deleted := []
  rollouts := Files.empty
  diffs := Files.empty
  dirs := [.diffs "app", .app "app", .versions "app", .version ⟨"app", "1.0.0+a"⟩]
  uploads := Files.empty
  temps := Files.empty

theorem buildPublish_run :
    (buildPublish "1.0.0+a" .linuxX86_64 [1]).run buildServer Store.empty = (true, buildStore) := by
  decide +kernel

/-- The client refuses 1.0.0+a, which was published and is offered. -/
theorem build_metadata_unusable :
    ¬ ∀ (X : ServerCrates) (s : Store), X.semver.DisplayParse → X.semver.StartsWithDigit →
      X.semver.EndsWithoutDot → Reaches (Request.next X) (fun _ _ => True) Store.empty s →
      ∀ (appName : String) (query : UpdateCheckQuery) (resp : UpdateCheckResponse)
        (target : Version),
      checkUpdate X s.toArtifacts appName query = .ok resp → resp.updateAvailable = true →
      resp.targetVersion = some target → Usable X.semver (X.semver.display target) := by
  intro h
  have hdot : buildServer.semver.EndsWithoutDot := semverOf_endsWithoutDot (by decide)
  have hrun : Reaches (Request.next buildServer) (fun _ _ => True) Store.empty
      (Request.next buildServer Store.empty (buildPublish "1.0.0+a" .linuxX86_64 [1])) :=
    (Reaches.refl _).tail trivial
  rw [Request.next, buildPublish_run] at hrun
  have husable := h buildServer buildStore (semverOf_displayParse buildVersions)
    (semverOf_startsWithDigit buildVersions) hdot hrun "app" ⟨none, "linux-x86_64", none⟩ _
    ⟨1, 0, 0, "", "a"⟩ rfl rfl rfl
  exact absurd husable.format (by decide)

end Deltaship
