import Deltaship.Server.Signed
import Deltaship.Server.Urls
import Deltaship.Server.Usable

/-!
# Deltaship.Server.Offers

What an answer that offers an update promises: that its addresses can be downloaded,
and that what is downloaded has the checksums of the answer.

An answer is made from the catalog, which knows versions up to their build metadata,
and leads to files whose names have the whole version; diffs are found up to build
metadata as well.  The promise is kept if no two versions of an application differ in
their build metadata only, if the names of the diffs can be taken apart, and if the
client's own version is that of the diff.
-/

namespace Deltaship

open Runs

/-- Everything an answer offers can be downloaded, and has the checksum that the
answer gives. -/
structure Fulfilled (X : ServerCrates) (a : Artifacts) (resp : UpdateCheckResponse) : Prop where
  binary : ∃ checksum url b, resp.checksum = some checksum ∧ resp.fullBinaryUrl = some url ∧
    resolve X a url = .ok b ∧ ChecksumOf X b checksum
  signature : ∃ url sig, resp.signatureUrl = some url ∧ resolve X a url = .ok sig
  diff : ∀ url, resp.diffUrl = some url → ∃ checksum b, resp.diffChecksum = some checksum ∧
    resolve X a url = .ok b ∧ ChecksumOf X b checksum

/-- A request that releases something, and succeeds. -/
def Releases (X : ServerCrates) (s : Store) (q : Request) : Prop :=
  q.Succeeds X s ∧
    match q with
    | .publish .. | .uploadDiff .. | .activate .. => True
    | .rollout .. | .delete .. => False

/-- What keeps the promises of later answers: a publication can read the manifest of
its version, and the catalog has no other version that differs in build metadata only;
the name of a diff can be taken apart. -/
def KeepsPromises (X : ServerCrates) (s : Store) : Request → Prop
  | .publish e _ p _ => e.faults (.manifest .read) = none ∧
      ∀ catalog v, s.getAppCatalog p.appName = some catalog → X.semver.parse p.version = some v →
        ∀ info ∈ catalog.versions, Version.eq info.version v = true → info.version = v
  | .uploadDiff _ _ p _ => Separable p.fromVersion p.toVersion
  | _ => True

/-- What the manifest of a version has for a platform. -/
def Artifacts.artifactAt (a : Artifacts) (p : VersionPath) (platform : Platform) :
    Option PlatformArtifact :=
  (a.getVersionManifest p).bind fun m => m.platforms.read platform

/-- The diffs to the latest version from versions that count as the client's are from
exactly that version. -/
def ExactDiffs (X : ServerCrates) (a : Artifacts) (appName : String) (query : UpdateCheckQuery) :
    Prop :=
  ∀ platform current catalog artifact, Platform.parse query.platform = some platform →
    parseCurrent X query.currentVersion = .ok current → a.getAppCatalog appName = some catalog →
    a.artifactAt ⟨appName, X.semver.display catalog.latestVersion⟩ platform = some artifact →
    ∀ d ∈ artifact.diffsFrom, Version.eq d.fromVersion current = true → d.fromVersion = current

/-! ## what the files have to do with each other -/

/-- A version can be downloaded for a platform. -/
structure ReleaseStored (X : ServerCrates) (a : Artifacts) (p : VersionPath) (platform : Platform)
    (artifact : PlatformArtifact) (b sig : Bytes) : Prop where
  manifest : a.artifactAt p platform = some artifact
  binary : a.binaries.read (p, platform) = some b
  checksum : ChecksumOf X b artifact.checksum
  signature : a.signatures.read p = some sig

/-- The versions of a catalog can be downloaded for their platforms, and can be told
apart without their build metadata. -/
structure CatalogStored (X : ServerCrates) (a : Artifacts) (appName : String)
    (catalog : AppCatalog) : Prop where
  published : ∀ info ∈ catalog.versions, Publishable X.semver info.version
  distinct : ∀ info ∈ catalog.versions, ∀ info' ∈ catalog.versions,
    Version.eq info.version info'.version = true → info.version = info'.version
  latest : ∃ info ∈ catalog.versions, info.version = catalog.latestVersion
  stored : ∀ info ∈ catalog.versions, ∀ platform ∈ info.platforms,
    ∃ artifact b sig,
      ReleaseStored X a ⟨appName, X.semver.display info.version⟩ platform artifact b sig

/-- A diff to a version can be downloaded. -/
structure DiffStored (X : ServerCrates) (a : Artifacts) (p : VersionPath) (platform : Platform)
    (d : DiffInfo) : Prop where
  separable : Separable (X.semver.display d.fromVersion) p.version
  publishable : Publishable X.semver d.fromVersion
  parses : (X.semver.parse p.version).isSome = true
  stored : ∃ b, a.diffs.read
    (p.appName, diffFileName (X.semver.display d.fromVersion) p.version platform) = some b ∧
    ChecksumOf X b d.checksum

/-- The diffs of an artifact can be downloaded, and are from different versions. -/
structure DiffsStored (X : ServerCrates) (a : Artifacts) (p : VersionPath) (platform : Platform)
    (diffs : List DiffInfo) : Prop where
  distinct : diffs.Pairwise fun d d' => Version.eq d.fromVersion d'.fromVersion = false
  stored : ∀ d ∈ diffs, DiffStored X a p platform d

/-- Whatever the catalogs and manifests name can be downloaded. -/
structure Servable (X : ServerCrates) (a : Artifacts) : Prop where
  catalogs : ∀ appName catalog, a.getAppCatalog appName = some catalog →
    CatalogStored X a appName catalog
  diffs : ∀ p platform artifact, a.artifactAt p platform = some artifact →
    DiffsStored X a p platform artifact.diffsFrom

/-! ## downloads -/

section Downloads

variable {X : ServerCrates} {a : Artifacts} {p : VersionPath} {platform : Platform}
  {artifact : PlatformArtifact} {b sig : Bytes} {d : DiffInfo}

/-- A file with the expected checksum is served. -/
theorem serveFile_eq_ok {checksum : String} (h : ChecksumOf X b checksum) :
    serveFile X (some b) (some checksum) = .ok b := by
  show (Except.ensure _ _ >>= fun _ => pure b) = _
  rw [Except.ensure_pos h.value]
  rfl

/-- A binary that is stored can be downloaded. -/
theorem ReleaseStored.downloadBinary (h : ReleaseStored X a p platform artifact b sig)
    (hname : validateName p.appName = .ok ()) (hversion : validateVersion p.version = .ok ()) :
    downloadBinary X a p.appName p.version platform.asStr = .ok b := by
  have hexpected : ((a.getVersionManifest p).bind fun m =>
      (m.platforms.read platform).map (·.checksum)) = some artifact.checksum := by
    obtain ⟨manifest, hmanifest, hartifact⟩ := Option.bind_eq_some_iff.mp h.manifest
    simp [hmanifest, hartifact]
  simp only [Deltaship.downloadBinary, requireName, hname, hversion, requirePlatform,
    Platform.parse_asStr, Except.ofOption]
  show serveFile X (a.binaries.read (p, platform)) _ = _
  rw [h.binary, hexpected]
  exact serveFile_eq_ok h.checksum

/-- The download of a diff checks it against an entry with the same version, if there
is one; all of these have the checksum of the file. -/
theorem DiffsStored.downloadDiff (h : DiffsStored X a p platform artifact.diffsFrom)
    (hd : d ∈ artifact.diffsFrom)
    (hartifact : a.artifactAt p platform = some artifact)
    (hname : validateName p.appName = .ok ()) (hversion : validateVersion p.version = .ok ()) :
    ∃ b, downloadDiff X a p.appName (diffSpec (X.semver.display d.fromVersion) p.version)
      platform.asStr = .ok b ∧ ChecksumOf X b d.checksum := by
  have hstored := h.stored d hd
  obtain ⟨b, hread, hchecksum⟩ := hstored.stored
  refine ⟨b, ?_, hchecksum⟩
  obtain ⟨hfrom, -⟩ := hstored.publishable
  have hspec := (parseDiffSpec_diffSpec_iff (validateText_ok hfrom).1
    (validateText_ok hversion).1).mpr hstored.separable
  obtain ⟨manifest, hmanifest, hplatform⟩ := Option.bind_eq_some_iff.mp hartifact
  simp only [Deltaship.downloadDiff, requireName, hname, requirePlatform, Platform.parse_asStr,
    Except.ofOption, hspec, bind, Except.bind, Except.mapError, hfrom, hversion, hmanifest,
    hplatform, hread, Option.bind]
  cases hfind : artifact.diffsFrom.find? fun d' =>
      X.semver.display d'.fromVersion == X.semver.display d.fromVersion with
  | none => rfl
  | some d' =>
      have hsame : X.semver.display d'.fromVersion = X.semver.display d.fromVersion := by
        simpa using List.find?_some hfind
      obtain ⟨b', hread', hchecksum'⟩ := (h.stored d' (List.mem_of_find?_eq_some hfind)).stored
      rw [hsame, hread] at hread'
      obtain rfl := Option.some.inj hread'
      exact serveFile_eq_ok hchecksum'

end Downloads

/-- An answer keeps its promise if everything can be downloaded and the diff is from
the client's version. -/
theorem Servable.fulfilled {X : ServerCrates} {a : Artifacts} {appName : String}
    {query : UpdateCheckQuery} {resp : UpdateCheckResponse} (h : Servable X a)
    (hresp : checkUpdate X a appName query = .ok resp) (havailable : resp.updateAvailable = true)
    (hexact : ExactDiffs X a appName query) : Fulfilled X a resp := by
  obtain ⟨platform, current, catalog, info, hoffer, rfl⟩ := offerOf_of_checkUpdate hresp havailable
  have hcatalog := h.catalogs appName catalog hoffer.catalogRead
  have hfound := List.mem_of_find?_eq_some hoffer.found
  have hmatch := List.find?_some hoffer.found
  simp only [Bool.and_eq_true, List.contains_eq_mem, decide_eq_true_eq] at hmatch
  -- the entry is the one of the latest version, build metadata included
  obtain ⟨latest, hlatest, heq⟩ := hcatalog.latest
  have hinfo : info.version = catalog.latestVersion := by
    rw [← heq]
    exact hcatalog.distinct info hfound latest hlatest (heq ▸ hmatch.1)
  obtain ⟨hvalid, -⟩ := hcatalog.published info hfound
  obtain ⟨artifact, b, sig, hstored⟩ := hcatalog.stored info hfound platform hmatch.2
  rw [hinfo] at hvalid hstored
  have hname := plain_of_validateName hoffer.nameOk
  have hversion := plain_of_validateVersion hvalid
  refine ⟨⟨artifact.checksum, _, b, ?_, rfl, ?_, hstored.checksum⟩, ⟨_, sig, rfl, ?_⟩, ?_⟩
  · exact congrArg (Option.map (·.checksum)) hstored.manifest
  · rw [resolve_binaryUrl hname hversion]
    exact hstored.downloadBinary hoffer.nameOk hvalid
  · rw [resolve_signatureUrl hname hversion]
    exact downloadSignature_eq_ok (p := ⟨appName, _⟩) hoffer.nameOk hvalid hstored.signature
  · intro url hurl
    obtain ⟨d, hfind, rfl⟩ := Option.map_eq_some_iff.mp hurl
    have hartifact := hstored.manifest
    unfold Artifacts.artifactAt at hartifact
    rw [hartifact] at hfind
    have hfirst : artifact.diffsFrom.find? (fun d => Version.eq d.fromVersion current) = some d :=
      hfind
    have hd := List.mem_of_find?_eq_some hfirst
    have hsame := List.find?_some hfirst
    have hcurrent : d.fromVersion = current :=
      hexact platform current catalog artifact hoffer.parsePlatform hoffer.parseCurrent
        hoffer.catalogRead hstored.manifest d hd hsame
    have hdiffs := h.diffs _ platform artifact hstored.manifest
    obtain ⟨bytes, hdownload, hchecksum⟩ :=
      hdiffs.downloadDiff hd hstored.manifest hoffer.nameOk hvalid
    have hfrom := plain_of_validateVersion (hdiffs.stored d hd).publishable.1
    refine ⟨d.checksum, bytes, ?_, ?_, hchecksum⟩
    · show Option.map DiffInfo.checksum (Option.bind (Option.bind _ _) _) = _
      rw [hartifact, hfind]
      rfl
    · rw [← hcurrent, resolve_diffUrl hname hfrom hversion]
      exact hdownload

/-! ## steps -/

/- One request from a store that can serve its offers to the next one. -/

section Steps

variable {X : ServerCrates} {a : Artifacts} {p q : VersionPath} {r : Release} {o : MapOrder}
  {b' : Bool} {platform : Platform}

/-- The artifact of a release is the one that was published. -/
theorem artifactAt_publish_self :
    (a.publish X.semver p r o true b').artifactAt p r.platform = some r.artifact := by
  simp [Artifacts.artifactAt, Artifacts.publish, Artifacts.setCatalog, Artifacts.storeRelease,
    Artifacts.getVersionManifest, publishManifest]

/-- A publication that reads the manifest keeps every other entry. -/
theorem artifactAt_publish_ne (h : (q, platform) ≠ (p, r.platform)) :
    (a.publish X.semver p r o true b').artifactAt q platform = a.artifactAt q platform := by
  unfold Artifacts.artifactAt Artifacts.getVersionManifest
  show Option.bind (Option.join ((a.manifests.write p _).read q)) _ = _
  by_cases hq : q = p
  · subst hq
    have hplatform : platform ≠ r.platform := fun heq => h (heq ▸ rfl)
    rw [Files.read_write_self]
    show ((publishManifest _ _ _ (a.getVersionManifest q)).inOrder o).platforms.read platform = _
    rw [VersionManifest.read_inOrder]
    unfold publishManifest
    dsimp only
    rw [Files.read_write_ne _ _ hplatform]
    show _ = (a.getVersionManifest q).bind _
    cases a.getVersionManifest q with
    | none => rfl
    | some manifest => rfl
  · rw [Files.read_write_ne _ _ hq]

/-- What is stored is stored behind another publication, possibly another one's. -/
theorem ReleaseStored.publish {artifact : PlatformArtifact} {b sig : Bytes}
    (h : ReleaseStored X a q platform artifact b sig) (hr : ChecksumOf X r.binary r.checksum) :
    ∃ artifact b sig,
      ReleaseStored X (a.publish X.semver p r o true b') q platform artifact b sig := by
  have hsig : ∃ sig, (a.publish X.semver p r o true b').signatures.read q = some sig := by
    show ∃ sig, (a.signatures.write p _).read q = some sig
    by_cases hq : q = p
    · subst hq
      exact ⟨_, Files.read_write_self _ _ _⟩
    · rw [Files.read_write_ne _ _ hq]
      exact ⟨sig, h.signature⟩
  obtain ⟨sig', hsig⟩ := hsig
  by_cases hkey : (q, platform) = (p, r.platform)
  · obtain ⟨rfl, rfl⟩ := Prod.mk.inj hkey
    exact ⟨r.artifact, r.binary, sig', artifactAt_publish_self, Files.read_write_self _ _ _, hr,
      hsig⟩
  · refine ⟨artifact, b, sig', ?_, ?_, h.checksum, hsig⟩
    · rw [artifactAt_publish_ne hkey]
      exact h.manifest
    · exact (Files.read_write_ne _ _ hkey).trans h.binary

theorem releaseStored_publish_self (hr : ChecksumOf X r.binary r.checksum) :
    ∃ artifact b sig,
      ReleaseStored X (a.publish X.semver p r o true b') p r.platform artifact b sig :=
  ⟨r.artifact, r.binary, r.signature.val, artifactAt_publish_self, Files.read_write_self _ _ _, hr,
    Files.read_write_self _ _ _⟩

/-- The catalog of an application after a publication, given the one that was read. -/
theorem catalogStored_publish {publisher : Publisher} {fields : List Field}
    {current : Option AppCatalog} (hS : X.semver.DisplayParse)
    (hr : r.Accepted X publisher p fields)
    (hcurrent : ∀ catalog, current = some catalog → CatalogStored X a p.appName catalog)
    (hdistinct : ∀ catalog, current = some catalog → ∀ info ∈ catalog.versions,
      Version.eq info.version r.version = true → info.version = r.version) :
    CatalogStored X (a.publish X.semver p r o true b') p.appName
      (publishCatalog X.semver p.appName r.info current) := by
  have hdisplay : X.semver.display r.version = p.version := hS hr.parse
  have hnew : Publishable X.semver r.version := by
    unfold Publishable
    rw [hdisplay]
    exact ⟨hr.versionOk, hr.parse⟩
  -- an entry that counts as the published version is that version
  have hsame : ∀ info ∈ (publishCatalog X.semver p.appName r.info current).versions,
      Version.eq info.version r.version = true → info.version = r.version := by
    intro info hinfo heq
    rcases version_of_mem_publishCatalog hinfo with hversion | ⟨catalog, hread, old, hold, hversion⟩
    · exact hversion
    · rw [← hversion] at heq ⊢
      exact hdistinct catalog hread old hold heq
  refine ⟨fun info hinfo => ?_, fun info hinfo info' hinfo' heq => ?_, ?_,
    fun info hinfo platform hplatform => ?_⟩
  · rcases version_of_mem_publishCatalog hinfo with hversion | ⟨catalog, hread, old, hold, hversion⟩
    · rw [hversion]
      exact hnew
    · rw [← hversion]
      exact (hcurrent catalog hread).published old hold
  · rcases version_of_mem_publishCatalog hinfo with hversion | ⟨catalog, hread, old, hold, hversion⟩
    · rw [hversion] at heq ⊢
      exact (hsame info' hinfo' (Version.eq_symm heq)).symm
    · rcases version_of_mem_publishCatalog hinfo' with hversion' | ⟨_, hread', old', hold', hversion'⟩
      · rw [hversion'] at heq ⊢
        exact hsame info hinfo heq
      · obtain rfl := Option.some.inj (hread.symm.trans hread')
        rw [← hversion, ← hversion'] at heq ⊢
        exact (hcurrent catalog hread).distinct old hold old' hold' heq
  · rcases @latestVersion_publishCatalog X.semver p.appName r.info current with
      hlatest | ⟨catalog, hread, hlatest⟩
    · obtain ⟨w, hw, heq⟩ := @exists_eq_mem_publishCatalog X.semver p.appName r.info current
      exact ⟨w, hw, (hsame w hw heq).trans hlatest.symm⟩
    · obtain ⟨old, hold, heq⟩ := (hcurrent catalog hread).latest
      obtain ⟨w, hw, hversion⟩ := exists_mem_publishCatalog hread hold
      exact ⟨w, hw, hversion.trans (heq.trans hlatest.symm)⟩
  · rcases platform_of_mem_publishCatalog hinfo hplatform with
      ⟨catalog, hread, old, hold, hversion, hmem⟩ | ⟨heq, hmem⟩
    · obtain ⟨artifact, b, sig, hstored⟩ := (hcurrent catalog hread).stored old hold platform hmem
      rw [hversion] at hstored
      exact hstored.publish hr.checksum
    · obtain rfl := List.mem_singleton.mp hmem
      rw [hsame info hinfo heq, hdisplay]
      exact releaseStored_publish_self hr.checksum

/-- Whatever a catalog lists stays stored behind another publication. -/
theorem CatalogStored.publish {appName : String} {catalog : AppCatalog}
    (h : CatalogStored X a appName catalog) (hr : ChecksumOf X r.binary r.checksum) :
    CatalogStored X (a.publish X.semver p r o true b') appName catalog := by
  refine ⟨h.published, h.distinct, h.latest, fun info hinfo platform hplatform => ?_⟩
  obtain ⟨artifact, b, sig, hstored⟩ := h.stored info hinfo platform hplatform
  exact hstored.publish hr

/-- A new release has no diffs yet. -/
theorem diffsStored_nil : DiffsStored X a p platform [] :=
  ⟨List.Pairwise.nil, fun d hd => by contradiction⟩

/-- Diffs stay stored where their files do not change. -/
theorem DiffsStored.congr {a' : Artifacts} {diffs : List DiffInfo}
    (h : DiffsStored X a p platform diffs) (hdiffs : a'.diffs = a.diffs) :
    DiffsStored X a' p platform diffs := by
  refine ⟨h.distinct, fun d hd => ?_⟩
  obtain ⟨hsep, hpub, hparse, hstored⟩ := h.stored d hd
  exact ⟨hsep, hpub, hparse, hdiffs ▸ hstored⟩

/-- A publication keeps every promise, if no other build of its version is in the catalog. -/
theorem Servable.publish {publisher : Publisher} {fields : List Field} (h : Servable X a)
    (hS : X.semver.DisplayParse) (hr : r.Accepted X publisher p fields)
    (hdistinct : ∀ catalog, a.getAppCatalog p.appName = some catalog → ∀ info ∈ catalog.versions,
      Version.eq info.version r.version = true → info.version = r.version) :
    Servable X (a.publish X.semver p r o true b') := by
  refine ⟨fun appName catalog hread => ?_, fun q platform artifact hread => ?_⟩
  · by_cases hname : appName = p.appName
    · subst hname
      rw [Artifacts.getAppCatalog_publish_self] at hread
      obtain rfl := Option.some.inj hread
      have hcurrent : ∀ catalog, (if b' = true then a.getAppCatalog p.appName else none) =
          some catalog → a.getAppCatalog p.appName = some catalog :=
        fun _ hread => (Option.ite_none_right_eq_some.mp hread).2
      exact catalogStored_publish hS hr
        (fun catalog hread => h.catalogs _ catalog (hcurrent catalog hread))
        fun catalog hread => hdistinct catalog (hcurrent catalog hread)
    · rw [Artifacts.getAppCatalog_publish_ne hname] at hread
      exact (h.catalogs appName catalog hread).publish hr.checksum
  · by_cases hkey : (q, platform) = (p, r.platform)
    · obtain ⟨rfl, rfl⟩ := Prod.mk.inj hkey
      rw [artifactAt_publish_self] at hread
      obtain rfl := Option.some.inj hread
      exact diffsStored_nil
    · rw [artifactAt_publish_ne hkey] at hread
      exact (h.diffs q platform artifact hread).congr rfl

/-! ### diffs -/

/-- The diffs after a merge are the new one and those from other versions. -/
theorem mem_mergeDiff {diff d : DiffInfo} {diffs : List DiffInfo}
    (hdistinct : diffs.Pairwise fun d d' => Version.eq d.fromVersion d'.fromVersion = false)
    (h : d ∈ mergeDiff diff diffs) :
    d = diff ∨ (d ∈ diffs ∧ Version.eq d.fromVersion diff.fromVersion = false) := by
  induction diffs with
  | nil => exact .inl (List.mem_singleton.mp h)
  | cons x rest ih =>
      obtain ⟨hx, hrest⟩ := List.pairwise_cons.mp hdistinct
      unfold mergeDiff at h
      split at h
      · next heq =>
          rcases List.mem_cons.mp h with rfl | hmem
          · exact .inl rfl
          · refine .inr ⟨List.mem_cons_of_mem x hmem, Bool.eq_false_iff.mpr fun hd => ?_⟩
            exact Bool.eq_false_iff.mp (hx d hmem) (Version.eq_trans heq (Version.eq_symm hd))
      · next hne =>
          rcases List.mem_cons.mp h with rfl | hmem
          · exact .inr ⟨List.mem_cons_self, Bool.eq_false_iff.mpr hne⟩
          · rcases ih hrest hmem with hnew | ⟨hold, hother⟩
            · exact .inl hnew
            · exact .inr ⟨List.mem_cons_of_mem x hold, hother⟩

/-- Merging a diff leaves one diff for every source version. -/
theorem pairwise_mergeDiff {diff : DiffInfo} {diffs : List DiffInfo}
    (hdistinct : diffs.Pairwise fun d d' => Version.eq d.fromVersion d'.fromVersion = false) :
    (mergeDiff diff diffs).Pairwise fun d d' =>
      Version.eq d.fromVersion d'.fromVersion = false := by
  induction diffs with
  | nil => exact List.pairwise_singleton _ _
  | cons x rest ih =>
      obtain ⟨hx, hrest⟩ := List.pairwise_cons.mp hdistinct
      unfold mergeDiff
      split
      · next heq =>
          refine List.pairwise_cons.mpr ⟨fun d hd => Bool.eq_false_iff.mpr fun hsame => ?_, hrest⟩
          exact Bool.eq_false_iff.mp (hx d hd) (Version.eq_trans heq hsame)
      · next hne =>
          refine List.pairwise_cons.mpr ⟨fun d hd => ?_, ih hrest⟩
          rcases mem_mergeDiff hrest hd with rfl | ⟨hold, -⟩
          · exact Bool.eq_false_iff.mpr hne
          · exact hx d hold

section AddDiff

variable {p : DiffPath} {diff d : DiffInfo} {b : Bytes} {manifest : VersionManifest}
  {artifact : PlatformArtifact} {o : MapOrder} {platform' : Platform}

/-- The artifact that a diff was added to has it among its diffs. -/
theorem artifactAt_addDiff_self :
    (a.addDiff p platform diff b manifest artifact o).artifactAt ⟨p.appName, p.toVersion⟩
        platform =
      some { artifact with diffsFrom := mergeDiff diff artifact.diffsFrom } := by
  simp [Artifacts.artifactAt, Artifacts.addDiff, Artifacts.getVersionManifest]

theorem artifactAt_addDiff_ne
    (hmanifest : a.getVersionManifest ⟨p.appName, p.toVersion⟩ = some manifest)
    (h : (q, platform') ≠ (⟨p.appName, p.toVersion⟩, platform)) :
    (a.addDiff p platform diff b manifest artifact o).artifactAt q platform' =
      a.artifactAt q platform' := by
  unfold Artifacts.artifactAt
  by_cases hq : q = ⟨p.appName, p.toVersion⟩
  · subst hq
    have hplatform : platform' ≠ platform := fun heq => h (heq ▸ rfl)
    rw [hmanifest]
    simp [Artifacts.addDiff, Artifacts.getVersionManifest, Files.read_write_ne _ _ hplatform]
  · simp [Artifacts.addDiff, Artifacts.getVersionManifest, Files.read_write_ne _ _ hq]

/-- A diff keeps its file if the new one is from another version, to another version
or for another platform. -/
theorem DiffStored.addDiff (h : DiffStored X a q platform' d) (hS : X.semver.StartsWithDigit)
    (haccepted : AcceptedDiff X p diff b) (hsep : Separable p.fromVersion p.toVersion)
    (hother : q = ⟨p.appName, p.toVersion⟩ → platform' = platform →
      Version.eq d.fromVersion diff.fromVersion = false) :
    DiffStored X (a.addDiff p platform diff b manifest artifact o) q platform' d := by
  refine ⟨h.separable, h.publishable, h.parses, ?_⟩
  obtain ⟨bytes, hread, hchecksum⟩ := h.stored
  refine ⟨bytes, ?_, hchecksum⟩
  show (a.diffs.write _ b).read _ = _
  rw [Files.read_write_ne _ _ fun hkey => ?_, hread]
  obtain ⟨happ, hfile⟩ := Prod.mk.inj hkey
  have hlist := congrArg String.toList hfile
  rw [toList_diffFileName, toList_diffFileName] at hlist
  obtain ⟨hspec, hplatform⟩ := Platform.suffix_inj hlist
  obtain ⟨v, hv⟩ := Option.isSome_iff_exists.mp haccepted.parseTo
  obtain ⟨hfrom, hto⟩ := diffSpec_inj hsep (hS hv) hspec
  have hsame : d.fromVersion = diff.fromVersion := by
    have hparse := h.publishable.2
    rw [hfrom, haccepted.parseFrom] at hparse
    exact (Option.some.inj hparse).symm
  have hdifferent := hother (by rw [← happ, ← hto]) hplatform
  rw [hsame, Version.eq_refl] at hdifferent
  contradiction

/-- A diff that was uploaded is stored, if its name can be taken apart. -/
theorem diffStored_addDiff_self (hS : X.semver.DisplayParse) (haccepted : AcceptedDiff X p diff b)
    (hsep : Separable p.fromVersion p.toVersion) :
    DiffStored X (a.addDiff p platform diff b manifest artifact o) ⟨p.appName, p.toVersion⟩
      platform diff := by
  have hdisplay : X.semver.display diff.fromVersion = p.fromVersion := hS haccepted.parseFrom
  refine ⟨hdisplay ▸ hsep, ⟨hdisplay ▸ haccepted.fromOk, hdisplay ▸ haccepted.parseFrom⟩,
    haccepted.parseTo, b, ?_, haccepted.checksum⟩
  rw [hdisplay]
  exact Files.read_write_self _ _ _

/-- A release stays stored when a diff is added. -/
theorem ReleaseStored.addDiff {artifact' : PlatformArtifact} {bytes sig : Bytes}
    (h : ReleaseStored X a q platform' artifact' bytes sig)
    (hmanifest : a.getVersionManifest ⟨p.appName, p.toVersion⟩ = some manifest)
    (hartifact : manifest.platforms.read platform = some artifact) :
    ∃ artifact' bytes sig,
      ReleaseStored X
        (a.addDiff p platform diff b manifest artifact o) q platform' artifact' bytes sig := by
  by_cases hkey : (q, platform') = (⟨p.appName, p.toVersion⟩, platform)
  · obtain ⟨rfl, rfl⟩ := Prod.mk.inj hkey
    have hold := h.manifest
    rw [Artifacts.artifactAt, hmanifest, Option.bind_some, hartifact] at hold
    obtain rfl := Option.some.inj hold
    exact ⟨_, bytes, sig, artifactAt_addDiff_self, h.binary, h.checksum, h.signature⟩
  · refine ⟨artifact', bytes, sig, ?_, h.binary, h.checksum, h.signature⟩
    rw [artifactAt_addDiff_ne hmanifest hkey]
    exact h.manifest

/-- The upload of a diff keeps every promise. -/
theorem Servable.addDiff (h : Servable X a) (hS : X.semver.DisplayParse)
    (hdigit : X.semver.StartsWithDigit) (haccepted : AcceptedDiff X p diff b)
    (hsep : Separable p.fromVersion p.toVersion)
    (hmanifest : a.getVersionManifest ⟨p.appName, p.toVersion⟩ = some manifest)
    (hartifact : manifest.platforms.read platform = some artifact) :
    Servable X (a.addDiff p platform diff b manifest artifact o) := by
  have hold : a.artifactAt ⟨p.appName, p.toVersion⟩ platform = some artifact := by
    rw [Artifacts.artifactAt, hmanifest]
    exact hartifact
  refine ⟨fun appName catalog hread => ?_, fun q platform' artifact' hread => ?_⟩
  · have hcatalog := h.catalogs appName catalog hread
    refine ⟨hcatalog.published, hcatalog.distinct, hcatalog.latest,
      fun info hinfo platform hplatform => ?_⟩
    obtain ⟨artifact', bytes, sig, hstored⟩ := hcatalog.stored info hinfo platform hplatform
    exact hstored.addDiff hmanifest hartifact
  · by_cases hkey : (q, platform') = (⟨p.appName, p.toVersion⟩, platform)
    · obtain ⟨rfl, rfl⟩ := Prod.mk.inj hkey
      rw [artifactAt_addDiff_self] at hread
      obtain rfl := Option.some.inj hread
      have hdiffs := h.diffs _ platform' artifact hold
      refine ⟨pairwise_mergeDiff hdiffs.distinct, fun d hd => ?_⟩
      rcases mem_mergeDiff hdiffs.distinct hd with rfl | ⟨hmem, hother⟩
      · exact diffStored_addDiff_self hS haccepted hsep
      · exact (hdiffs.stored d hmem).addDiff hdigit haccepted hsep fun _ _ => hother
    · rw [artifactAt_addDiff_ne hmanifest hkey] at hread
      have hdiffs := h.diffs q platform' artifact' hread
      refine ⟨hdiffs.distinct, fun d hd => ?_⟩
      refine (hdiffs.stored d hd).addDiff hdigit haccepted hsep fun hq hplatform => ?_
      exact absurd (by rw [hq, hplatform]) hkey

end AddDiff

/-! ### activations and whole runs -/

/-- An activation keeps every promise, as it adds nothing to the catalog. -/
theorem Servable.activate {appName version : String} {catalog catalog' : AppCatalog}
    (h : Servable X a) (hcatalog : a.getAppCatalog appName = some catalog)
    (hchange : activateCatalog X.semver version catalog = .ok catalog') :
    Servable X (a.setCatalog appName catalog') := by
  obtain ⟨⟨info, hinfo, htext⟩, latestVersion, hparse, rfl⟩ := activateCatalog_ok hchange
  have hold := h.catalogs appName catalog hcatalog
  have hlatest : info.version = latestVersion := by
    have hpublished := (hold.published info hinfo).2
    rw [htext, hparse] at hpublished
    exact (Option.some.inj hpublished).symm
  have hsame : ∀ {n : String} {c : AppCatalog}, CatalogStored X a n c →
      CatalogStored X (a.setCatalog appName { catalog with latestVersion }) n c := by
    intro n c hc
    refine ⟨hc.published, hc.distinct, hc.latest, fun info hinfo platform hplatform => ?_⟩
    obtain ⟨artifact, b, sig, hstored⟩ := hc.stored info hinfo platform hplatform
    exact ⟨artifact, b, sig, hstored.manifest, hstored.binary, hstored.checksum, hstored.signature⟩
  refine ⟨fun n c hread => ?_, fun q platform artifact hread => ?_⟩
  · by_cases hn : n = appName
    · subst hn
      rw [Artifacts.getAppCatalog_setCatalog_self] at hread
      obtain rfl := Option.some.inj hread
      exact hsame ⟨hold.published, hold.distinct, ⟨info, hinfo, hlatest⟩, hold.stored⟩
    · rw [Artifacts.getAppCatalog_setCatalog_ne hn] at hread
      exact hsame (h.catalogs n c hread)
  · exact (h.diffs q platform artifact hread).congr rfl

theorem servable_empty : Servable X Artifacts.empty :=
  ⟨fun appName catalog hread => by contradiction, fun q platform artifact hread => by contradiction⟩

/-- Every request that keeps its promises leaves the others kept. -/
theorem Servable.next {s : Store} {q : Request} (h : Servable X s.toArtifacts)
    (hS : X.semver.DisplayParse) (hdigit : X.semver.StartsWithDigit) (hq : Releases X s q)
    (hkeeps : KeepsPromises X s q) : Servable X (q.next X s).toArtifacts := by
  obtain ⟨hok, hkind⟩ := hq
  have heffect := Request.effect X s q
  rw [show (q.run X s).1 = true from hok] at heffect
  cases q with
  | publish e publisher p form =>
      obtain ⟨hread, hdistinct⟩ := hkeeps
      obtain ⟨r, hr, heq⟩ := Request.publish_next hok
      rw [heq, hread]
      exact h.publish hS hr fun catalog hcatalog => hdistinct catalog r.version hcatalog hr.parse
  | uploadDiff e publisher p form =>
      generalize (Request.next X s _).toArtifacts = a' at heffect ⊢
      cases heffect with
      | diffAdded haccepted hmanifest hartifact =>
          exact h.addDiff hS hdigit haccepted hkeeps hmanifest hartifact
  | activate e publisher p request =>
      generalize (Request.next X s _).toArtifacts = a' at heffect ⊢
      cases heffect with
      | activated hcatalog hchange => exact h.activate hcatalog hchange
  | rollout e publisher p request => contradiction
  | delete e publisher p => contradiction

end Steps

/-- Every offer in a run of releases is fulfilled, if the versions of an application
differ in more than build metadata, the manifests can be read, the names of the diffs
can be taken apart, and the diffs are from the client's own version. -/
theorem offers_fulfilled (X : ServerCrates) (hS : X.semver.DisplayParse)
    (hdigit : X.semver.StartsWithDigit) (s : Store)
    (hrun : Reaches (Request.next X) (fun s q => Releases X s q ∧ KeepsPromises X s q)
      Store.empty s) (appName : String) (query : UpdateCheckQuery) (resp : UpdateCheckResponse)
    (hresp : checkUpdate X s.toArtifacts appName query = .ok resp)
    (havailable : resp.updateAvailable = true)
    (hexact : ExactDiffs X s.toArtifacts appName query) : Fulfilled X s.toArtifacts resp := by
  have hservable : Servable X s.toArtifacts :=
    hrun.invariant (I := fun s => Servable X s.toArtifacts) servable_empty
      fun s q h hq => h.next hS hdigit hq.1 hq.2
  exact hservable.fulfilled hresp havailable hexact

/-! ### a diff, and two builds of a version -/

/-- The request that uploads the diff `[3]` between the sample versions. -/
def sampleUpload : Request :=
  .uploadDiff sampleServerEnv samplePublisher ⟨"app", "1.0.0", "1.1.0"⟩
    ⟨[⟨"platform", [utf8 "linux-x86_64"], false⟩, ⟨"diff", [[3]], false⟩,
      ⟨"checksum", [utf8 (sampleBlake3 [3]).toHex], false⟩], false⟩

/-- The server after versions 1.0.0 and 1.1.0 and a diff were published. -/
def sampleDiffStore : Store :=
  { sampleNewerStore with
    manifests := sampleFirstStore.manifests.write ⟨"app", "1.1.0"⟩ (some ⟨.new 1 1 0,
      Files.ofList [(.linuxX86_64, ⟨(sampleBlake3 [2]).toHex, 1,
        [⟨.new 1 0 0, (sampleBlake3 [3]).toHex, 1, "bsdiff"⟩]⟩)]⟩)
    diffs := Files.ofList [(("app", "1.0.0-to-1.1.0-linux-x86_64"), [3])] }

/-- The upload succeeds, and leaves the store with the diff. -/
theorem sampleUpload_run :
    sampleUpload.run sampleServer sampleNewerStore = (true, sampleDiffStore) := by
  decide +kernel

/-- Two versions and a diff are released, and the offer of the diff is fulfilled. -/
theorem offers_fulfilled_sample :
    ∃ resp, checkUpdate sampleServer sampleDiffStore.toArtifacts "app"
        ⟨some "1.0.0", "linux-x86_64", none⟩ = .ok resp ∧
      resp.diffUrl = some "/api/v1/apps/app/diffs/1.0.0-to-1.1.0?platform=linux-x86_64" ∧
      Fulfilled sampleServer sampleDiffStore.toArtifacts resp := by
  have hrun : Reaches (Request.next sampleServer)
      (fun s q => Releases sampleServer s q ∧ KeepsPromises sampleServer s q) Store.empty
      (Request.next sampleServer Store.empty (samplePublish .linuxX86_64 [1] sampleSig1)) := by
    refine (Reaches.refl _).tail
      ⟨⟨congrArg Prod.fst samplePublish_run, trivial⟩, rfl, fun catalog v hread => ?_⟩
    contradiction
  rw [Request.next, samplePublish_run] at hrun
  have hrun := hrun.tail (a := samplePublishNewer)
    ⟨⟨congrArg Prod.fst samplePublishNewer_run, trivial⟩, rfl, fun catalog v hread hparse => by
      obtain rfl := Option.some.inj hread
      obtain rfl := Option.some.inj hparse
      decide +kernel⟩
  rw [Request.next, samplePublishNewer_run] at hrun
  have hrun := hrun.tail (a := sampleUpload)
    ⟨⟨congrArg Prod.fst sampleUpload_run, trivial⟩, by
      show Separable "1.0.0" "1.1.0"
      decide +kernel⟩
  rw [Request.next, sampleUpload_run] at hrun
  have hexact : ExactDiffs sampleServer sampleDiffStore.toArtifacts "app"
      ⟨some "1.0.0", "linux-x86_64", none⟩ := by
    intro platform current catalog artifact hplatform hcurrent hcatalog hartifact
    obtain rfl := Option.some.inj hplatform
    obtain rfl := Except.ok.inj hcurrent
    obtain rfl := Option.some.inj hcatalog
    obtain rfl := Option.some.inj hartifact
    decide +kernel
  exact ⟨_, rfl, by decide +kernel,
    offers_fulfilled sampleServer sampleSemver_displayParse
      (semverOf_startsWithDigit sampleVersions) sampleDiffStore hrun "app" _ _ rfl rfl hexact⟩

/-- The server after 1.0.0+a was published for Linux and 1.0.0+b for Windows. -/
def buildSecondStore : Store :=
  { buildStore with
    catalogs := Files.ofList [("app", some ⟨"app",
      [⟨⟨1, 0, 0, "", "a"⟩, [.linuxX86_64, .windowsX86_64], none, false, none⟩],
      ⟨1, 0, 0, "", "a"⟩⟩)]
    manifests := buildStore.manifests.write ⟨"app", "1.0.0+b"⟩ (some ⟨⟨1, 0, 0, "", "b"⟩,
      Files.ofList [(.windowsX86_64, ⟨(sampleBlake3 [2]).toHex, 1, []⟩)]⟩)
    binaries := buildStore.binaries.write (⟨"app", "1.0.0+b"⟩, .windowsX86_64) [2]
    signatures := buildStore.signatures.write ⟨"app", "1.0.0+b"⟩ sampleSig1.val
    dirs := .version ⟨"app", "1.0.0+b"⟩ :: buildStore.dirs }

/-- A client on Windows is offered 1.0.0+a, which was published for Linux only. -/
theorem other_build_offered :
    ¬ ∀ (X : ServerCrates) (s : Store), X.semver.DisplayParse → X.semver.StartsWithDigit →
      Reaches (Request.next X) (Releases X) Store.empty s →
      ∀ (appName : String) (query : UpdateCheckQuery) (resp : UpdateCheckResponse),
      checkUpdate X s.toArtifacts appName query = .ok resp → resp.updateAvailable = true →
      Fulfilled X s.toArtifacts resp := by
  intro h
  have hsecond : (buildPublish "1.0.0+b" .windowsX86_64 [2]).run buildServer buildStore =
      (true, buildSecondStore) := by decide +kernel
  have hrun : Reaches (Request.next buildServer) (Releases buildServer) Store.empty
      (Request.next buildServer Store.empty (buildPublish "1.0.0+a" .linuxX86_64 [1])) :=
    (Reaches.refl _).tail ⟨congrArg Prod.fst buildPublish_run, trivial⟩
  rw [Request.next, buildPublish_run] at hrun
  have hrun := hrun.tail (a := buildPublish "1.0.0+b" .windowsX86_64 [2])
    ⟨congrArg Prod.fst hsecond, trivial⟩
  rw [Request.next, hsecond] at hrun
  have hoffer := h buildServer buildSecondStore (semverOf_displayParse buildVersions)
    (semverOf_startsWithDigit buildVersions) hrun "app" ⟨none, "windows-x86_64", none⟩ _ rfl rfl
  obtain ⟨checksum, url, b, hchecksum, -⟩ := hoffer.binary
  have hmissing : none = some checksum := hchecksum
  simp at hmissing

end Deltaship
