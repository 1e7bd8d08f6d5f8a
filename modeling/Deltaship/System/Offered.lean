import Deltaship.System.Connection

/-!
# Deltaship.System.Offered

What the server offers is what the client installs: the addresses in the answer lead to the files
of the version, and their checksums and signature are accepted.
-/

namespace Deltaship

open Prog Runs

/-! ## an offer -/

/- An answer of the server is followed from the catalog to the bytes. The checksums it contains are
texts that the server has read with one parser and that the client reads with the other one; its
addresses are texts that the client completes and requests, and that the router of the server takes
apart again. -/

section Offer

variable {X : Crates} {e : Env} {r : ServerUpdateResponse} {upd : UpdateInfo}

/-- What an accepted answer becomes. -/
theorem updateInfoOf_eq_some (h : updateInfoOf X e r = .ok (some upd)) :
    ∃ version checksum, r.updateAvailable = true ∧ r.targetVersion = some version ∧
      r.checksum = some checksum ∧ validateVersionFormat (X.semver.display version) = .ok () ∧
      upd =
        { version, checksum
          versionId := r.versionId.getD (X.semver.display version)
          diffUrl := absolutize (trimEndSlashes e.config.serverUrl) r.diffUrl
          diffChecksum := r.diffChecksum
          diffSize := r.diffSize
          fullBinaryUrl := absolutize (trimEndSlashes e.config.serverUrl) r.fullBinaryUrl
          fullBinarySize := r.fullBinarySize
          signatureUrl := absolutize (trimEndSlashes e.config.serverUrl) r.signatureUrl
          forced := r.forced
          releaseNotes := sanitizeReleaseNotes r.releaseNotes } := by
  obtain ⟨havailable, htarget⟩ := targetVersion_of_updateInfoOf h
  unfold updateInfoOf at h
  rw [havailable, htarget] at h
  obtain ⟨_, hformat, h⟩ := Except.bind_eq_ok.mp h
  cases hchecksum : r.checksum with
  | none => rw [hchecksum] at h; contradiction
  | some checksum =>
      rw [hchecksum] at h
      obtain ⟨-, -, h⟩ := Except.bind_eq_ok.mp h
      exact ⟨upd.version, checksum, havailable, htarget, rfl, hformat,
        (Option.some.inj (Except.ok.inj h)).symm⟩

end Offer

section Delivery

variable {X : Crates} {Y : ServerCrates} {e : Env} {a : Artifacts}
  {later : List HttpRequest → Artifacts} {pubkey : ByteVec 32} {mb : ManagedBinary}
  {resp : UpdateCheckResponse} {upd : UpdateInfo}

/-- The client reads a checksum that the server has accepted as the hash that it is of. -/
theorem ChecksumOf.fromHex {b : Bytes} {checksum : String} (h : ChecksumOf Y b checksum) :
    Hash.fromHex checksum = .ok (Y.crypto.blake3 b) := by
  have hdigits : ∀ c ∈ checksum.toList, isAsciiHexdigit c = true := List.all_eq_true.mp h.digits
  have hbytes : utf8 checksum = checksum.toList.map charByte := by
    have hascii := utf8_ofList_of_ascii fun c hc =>
      (printing_of_isAsciiHexdigit (hdigits c hc)).2.trans (by decide)
    rwa [String.ofList_toList] at hascii
  have hlength : (utf8 checksum).length = 64 := by
    rw [← h.length]
    rfl
  have haccepted : HexDigits checksum := ⟨by simpa [hbytes] using hlength, hdigits⟩
  obtain ⟨hash, hhash⟩ := Option.isSome_iff_exists.mp (isSome_strictFromHex_iff.mpr haccepted)
  have hsame : hash.toHex = (Y.crypto.blake3 b).toHex := by
    rw [toHex_of_strictFromHex hhash, ← h.value,
      ← toHex_of_strictFromHex (strictFromHex_toHex (Y.crypto.blake3 b))]
  rw [fromHex_of_strictFromHex hhash, ← fromHex_toHex hash, hsame, fromHex_toHex]

/-- The client checks a signature as the server does. -/
theorem exists_verify_of_verifies {hash : Hash} {version : String} {sig : Signature}
    (hcrypto : X.crypto = Y.crypto) (h : verifies Y pubkey hash version sig = true) :
    ∃ vk : VerifyingKey X.crypto, VerifyingKey.fromBytes X.crypto pubkey = .ok vk ∧
      vk.verify (signingPayload hash.val version) sig = true := by
  unfold verifies at h
  split at h
  · next vk hvk =>
      rw [hcrypto]
      exact ⟨vk, hvk, h⟩
  · contradiction

/-- What the client needs of the server: the binary and the signature of a version that is offered,
and its diff from the client's version if there is one. -/
structure Stocked (Y : ServerCrates) (a : Artifacts) (pubkey : ByteVec 32) (p : VersionPath)
    (platform : Platform) (current : Version) (artifact : PlatformArtifact) (data raw : Bytes) :
    Prop where
  nameOk : validateName p.appName = .ok ()
  versionOk : validateVersion p.version = .ok ()
  listed : a.artifactAt p platform = some artifact
  binary : downloadBinary Y a p.appName p.version platform.asStr = .ok data
  checksum : ChecksumOf Y data artifact.checksum
  signature : ∃ sig : Signature, downloadSignature Y a p.appName p.version = .ok sig.val ∧
    verifies Y pubkey (Y.crypto.blake3 data) p.version sig = true
  diff : ∀ d, findDiff artifact current = some d →
    validateVersion (Y.semver.display current) = .ok () ∧
      Separable (Y.semver.display current) p.version ∧ ChecksumOf Y raw d.checksum ∧
      downloadDiff Y a p.appName (diffSpec (Y.semver.display current) p.version) platform.asStr =
        .ok raw

section Response

variable {appName : String} (query : UpdateCheckQuery) {platform : Platform}
  (current : Version) {latest : Version} (info : VersionInfo) {artifact : PlatformArtifact}

/-- The answer names the diff that the artifact of the version lists. -/
theorem offer_diffUrl
    (hlisted : a.artifactAt ⟨appName, Y.semver.display latest⟩ platform = some artifact) :
    (offer Y a appName query platform current info latest).diffUrl =
      (findDiff artifact current).map fun _ =>
        diffUrl appName (Y.semver.display current) (Y.semver.display latest) platform := by
  show Option.map _ (Option.bind (a.artifactAt _ _) _) = _
  rw [hlisted]
  rfl

/-- With the diff goes the checksum that is listed for it. -/
theorem offer_diffChecksum
    (hlisted : a.artifactAt ⟨appName, Y.semver.display latest⟩ platform = some artifact) :
    (offer Y a appName query platform current info latest).diffChecksum =
      (findDiff artifact current).map (·.checksum) := by
  show Option.map _ (Option.bind (a.artifactAt _ _) _) = _
  rw [hlisted]
  rfl

/-- The checksum of the answer is the one of the artifact. -/
theorem offer_checksum
    (hlisted : a.artifactAt ⟨appName, Y.semver.display latest⟩ platform = some artifact) :
    (offer Y a appName query platform current info latest).checksum = some artifact.checksum := by
  show Option.map _ (a.artifactAt _ _) = _
  rw [hlisted]
  rfl

end Response

theorem read_of_downloadSignature {p : VersionPath} {sig : Bytes}
    (h : downloadSignature Y a p.appName p.version = .ok sig) : a.signatures.read p = some sig := by
  obtain ⟨-, -, h⟩ := Except.bind_eq_ok.mp h
  obtain ⟨-, -, h⟩ := Except.bind_eq_ok.mp h
  obtain ⟨b, hread, h⟩ := Except.bind_eq_ok.mp h
  obtain rfl := Except.ok.inj h
  exact Except.ofOption_eq_ok.mp hread

/-- What an offer leads to is stocked. -/
theorem exists_stocked {appName : String} {query : UpdateCheckQuery} {platform : Platform}
    {current : Version} {catalog : AppCatalog} {info : VersionInfo} {checksum : String}
    {data raw : Bytes} (hservable : Servable Y a) (hsigned : Signed Y pubkey a)
    (hexact : ExactDiffs Y a appName query)
    (hoffer : OfferOf Y a appName query platform current catalog info)
    (hchecksum : (offer Y a appName query platform current info catalog.latestVersion).checksum =
      some checksum)
    (hdata : ∀ url, (offer Y a appName query platform current info
      catalog.latestVersion).fullBinaryUrl = some url → resolve Y a url = .ok data)
    (hraw : ∀ url, (offer Y a appName query platform current info catalog.latestVersion).diffUrl =
      some url → resolve Y a url = .ok raw) :
    Publishable Y.semver catalog.latestVersion ∧ ∃ artifact,
      Stocked Y a pubkey ⟨appName, Y.semver.display catalog.latestVersion⟩ platform current artifact
        data raw := by
  have hcatalog := hservable.catalogs appName catalog hoffer.catalogRead
  obtain ⟨latest, hlatest, heq⟩ := hcatalog.latest
  have hpublishable : Publishable Y.semver catalog.latestVersion := by
    rw [← heq]
    exact hcatalog.published latest hlatest
  have hname := plain_of_validateName hoffer.nameOk
  have hversion := plain_of_validateVersion hpublishable.1
  obtain ⟨artifact, hartifact, -⟩ := Option.map_eq_some_iff.mp hchecksum
  have hlisted : a.artifactAt ⟨appName, Y.semver.display catalog.latestVersion⟩ platform =
      some artifact := hartifact
  obtain ⟨manifest, hmanifest, hplatform⟩ := Option.bind_eq_some_iff.mp hartifact
  obtain ⟨stored, sig, hbinary, hsum, hsig, hverifies⟩ :=
    hsigned _ manifest platform artifact hmanifest hplatform
  have hdownload := ReleaseStored.downloadBinary
    ⟨hlisted, hbinary, hsum, read_of_downloadSignature hsig⟩ hoffer.nameOk hpublishable.1
  obtain rfl : stored = data := by
    have hfull := hdata _ rfl
    rw [resolve_binaryUrl hname hversion] at hfull
    exact Except.ok.inj (hdownload.symm.trans hfull)
  refine ⟨hpublishable, artifact, hoffer.nameOk, hpublishable.1, hlisted, hdownload, hsum,
    ⟨sig, hsig, hverifies⟩, fun d hdiff => ?_⟩
  have hfirst : artifact.diffsFrom.find? (fun d => Version.eq d.fromVersion current) = some d :=
    hdiff
  have hmem := List.mem_of_find?_eq_some hfirst
  have hsame := List.find?_some hfirst
  have hfrom : d.fromVersion = current :=
    hexact platform current catalog artifact hoffer.parsePlatform hoffer.parseCurrent
      hoffer.catalogRead hlisted d hmem hsame
  have hdiffs := hservable.diffs _ platform artifact hlisted
  obtain ⟨raw', hdownload', hrawsum⟩ :=
    hdiffs.downloadDiff hmem hlisted hoffer.nameOk hpublishable.1
  have hstored := hdiffs.stored d hmem
  have hurl := hraw (diffUrl appName (Y.semver.display current)
    (Y.semver.display catalog.latestVersion) platform) (by
      rw [offer_diffUrl _ _ _ hlisted, hdiff]
      rfl)
  rw [← hfrom, resolve_diffUrl hname (plain_of_validateVersion hstored.publishable.1) hversion]
    at hurl
  obtain rfl := Except.ok.inj (hdownload'.symm.trans hurl)
  rw [← hfrom]
  exact ⟨hstored.publishable.1, hstored.separable, hrawsum, hdownload'⟩

section Stocked

variable {version : String} {platform : Platform} {current : Version} {artifact : PlatformArtifact}
  {data raw : Bytes}

/-- The binary of a stocked version is delivered, also while the server goes on with other
versions. -/
theorem Stocked.delivers_binary
    (h : Stocked Y a pubkey ⟨mb.binaryName, version⟩ platform current artifact data raw)
    (happ : Segment mb.binaryName) (hversion : Segment version)
    (hconn : Connected Y mb.binaryName a later e)
    (hlater : ∀ sent, SameVersion ⟨mb.binaryName, version⟩ a (later sent)) :
    e.Delivers (trimEndSlashes e.config.serverUrl ++ binaryUrl ⟨mb.binaryName, version⟩ platform)
      data := by
  refine hconn.delivers (dotFree_binaryUrl happ hversion) fun sent => ?_
  rw [resolve_binaryUrl happ.1 hversion.1, (hlater sent).downloadBinary]
  exact h.binary

/-- So is the diff that it lists for the version of the client. -/
theorem Stocked.delivers_diff {d : DiffInfo}
    (h : Stocked Y a pubkey ⟨mb.binaryName, version⟩ platform current artifact data raw)
    (happ : Segment mb.binaryName) (hversion : Segment version)
    (hconn : Connected Y mb.binaryName a later e)
    (hlater : ∀ sent, SameVersion ⟨mb.binaryName, version⟩ a (later sent))
    (hdiff : findDiff artifact current = some d) :
    e.Delivers (trimEndSlashes e.config.serverUrl ++
      diffUrl mb.binaryName (Y.semver.display current) version platform) raw := by
  obtain ⟨hfrom, hsep, -, hraw⟩ := h.diff d hdiff
  have hfrom' := plain_of_validateVersion hfrom
  refine hconn.delivers (dotFree_diffUrl happ hfrom' hversion.1) fun sent => ?_
  rw [resolve_diffUrl happ.1 hfrom' hversion.1,
    (hlater sent).downloadDiff hsep (validateText_ok hfrom).1 (validateText_ok h.versionOk).1]
  exact hraw

/-- The client is sent the signature, and accepts it. -/
theorem Stocked.signatureSent
    (h : Stocked Y a pubkey ⟨mb.binaryName, version⟩ platform current artifact data raw)
    (hcrypto : X.crypto = Y.crypto) (hsemver : X.semver = Y.semver)
    (happ : Segment mb.binaryName) (hversion : Segment version)
    (hconn : Connected Y mb.binaryName a later e)
    (hlater : ∀ sent, SameVersion ⟨mb.binaryName, version⟩ a (later sent))
    (hkey : mb.publisherPublicKey = pubkey.val) (hshown : Y.semver.display upd.version = version)
    (hurl : upd.signatureUrl =
      some (trimEndSlashes e.config.serverUrl ++ signatureUrl ⟨mb.binaryName, version⟩)) :
    SignatureSent X e mb upd data := by
  obtain ⟨sig, hsig, hverifies⟩ := h.signature
  obtain ⟨vk, hvk, haccepted⟩ := exists_verify_of_verifies hcrypto hverifies
  refine ⟨_, sig, pubkey, vk, hurl, fun sent => ?_, ?_, hvk, ?_⟩
  · have hget := hconn.get sent _ none (dotFree_signatureUrl happ hversion)
    rw [resolve_signatureUrl happ.1 hversion.1, (hlater sent).downloadSignature, hsig] at hget
    obtain ⟨length, body, hreply, hbody⟩ := hget
    exact ⟨200, length, body, hreply, rfl, by rw [hbody]; exact ByteVec.tryInto_eq_some.mpr rfl⟩
  · rw [hkey]
    exact ByteVec.tryInto_eq_some.mpr rfl
  · have hpayload : updatePayload X upd data =
        signingPayload (Y.crypto.blake3 data).val version := by
      rw [updatePayload, hcrypto, hsemver, hshown]
    rw [hpayload]
    exact haccepted

end Stocked

/-- What is stocked is delivered to a client that is offered it, also when the server goes on with
other versions in between. -/
theorem Stocked.delivered {query : UpdateCheckQuery} {platform : Platform}
    {current latest : Version} {info : VersionInfo} {artifact : PlatformArtifact} {data raw : Bytes}
    (h : Stocked Y a pubkey ⟨mb.binaryName, Y.semver.display latest⟩ platform current artifact data
      raw)
    (hcrypto : X.crypto = Y.crypto) (hsemver : X.semver = Y.semver)
    (hdigit : Y.semver.StartsWithDigit) (hconn : Connected Y mb.binaryName a later e)
    (hlater : ∀ sent, SameVersion ⟨mb.binaryName, Y.semver.display latest⟩ a (later sent))
    (hname : mb.binaryName ≠ ".") (hkey : mb.publisherPublicKey = pubkey.val)
    (hpublishable : Publishable Y.semver latest)
    (hupd : updateInfoOf X e (offer Y a mb.binaryName query platform current info latest).received =
      .ok (some upd)) : Delivered X e mb upd data raw := by
  obtain ⟨version, checksum, -, htarget, hchecksum, -, rfl⟩ := updateInfoOf_eq_some hupd
  obtain rfl := Option.some.inj htarget
  have happ := segment_of_validateName h.nameOk hname
  have hversion := segment_of_publishable hdigit hpublishable
  have hdiffUrl :
      ((offer Y a mb.binaryName query platform current info latest).received).diffUrl =
        (findDiff artifact current).map fun _ => diffUrl mb.binaryName (Y.semver.display current)
          (Y.semver.display latest) platform := offer_diffUrl query current info h.listed
  refine ⟨⟨_, trimEndSlashes_absolutize (dotFree_binaryUrl happ hversion).1,
    h.delivers_binary happ hversion hconn hlater⟩, fun url hurl => ?_,
    h.signatureSent hcrypto hsemver happ hversion hconn hlater hkey rfl
      (trimEndSlashes_absolutize (dotFree_signatureUrl happ hversion).1), ?_, fun hsome => ?_⟩
  · dsimp only at hurl
    rw [hdiffUrl] at hurl
    cases hdiff : findDiff artifact current with
    | none => rw [hdiff] at hurl; contradiction
    | some d =>
        have hfrom := plain_of_validateVersion (h.diff d hdiff).1
        rw [hdiff] at hurl
        obtain rfl := Option.some.inj ((trimEndSlashes_absolutize
          (dotFree_diffUrl happ hfrom hversion.1).1).symm.trans hurl)
        exact h.delivers_diff happ hversion hconn hlater hdiff
  · obtain rfl := Option.some.inj
      ((offer_checksum query current info h.listed).symm.trans hchecksum)
    rw [hcrypto]
    exact h.checksum.fromHex
  · dsimp only at hsome ⊢
    rw [hdiffUrl] at hsome
    cases hdiff : findDiff artifact current with
    | none => rw [hdiff] at hsome; contradiction
    | some d =>
        obtain ⟨-, -, hrawsum, -⟩ := h.diff d hdiff
        refine ⟨d.checksum, (offer_diffChecksum query current info h.listed).trans ?_, ?_⟩
        · rw [hdiff]
          rfl
        · rw [hcrypto]
          exact hrawsum.fromHex

end Delivery

end Deltaship
