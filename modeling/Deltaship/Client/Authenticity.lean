import Deltaship.Client.Apply
import Mathlib.Algebra.Order.BigOperators.Group.List
import Mathlib.Algebra.Order.Group.Nat
import Mathlib.Algebra.Ring.Nat

/-!
# Deltaship.Client.Authenticity

Whatever the server sends, `apply_update` leaves only authentic bytes at the
install path: bytes with the announced hash, signed by the pinned key for
exactly these bytes and this version; and no other bytes are ever renamed
there.
-/

namespace Deltaship

open Prog Trace

variable (X : Crates) (e : Env) (mb : ManagedBinary) (upd : UpdateInfo) (w : World)

/-- The log of any run of `execute_update`: each rename onto the install path
comes after both checks of the renamed bytes. -/
theorem wp_executeUpdate_log :
    wp (executeUpdate X e mb upd)
      (fun _ w' => ∃ evs, w'.log = w.log ++ evs ∧ Guarded (RenameOk X mb upd) [] evs)
      (fun _ w' => ∃ evs, w'.log = w.log ++ evs ∧ Guarded (RenameOk X mb upd) [] evs) w := by
  refine wp_mono ?_ ?_ wp_executeUpdate
  · rintro _ w' ⟨data, sig, h, -⟩
    obtain ⟨evs, hlog, hok, -⟩ := h.log
    exact ⟨evs, hlog, hok⟩
  · rintro _ w' (h | ⟨-, data, sig, h⟩)
    · obtain ⟨evs, hlog, hq⟩ := h.log
      exact ⟨evs, hlog, guarded_of_quiet hq⟩
    · obtain ⟨evs, hlog, hok, -⟩ := h.log
      exact ⟨evs, hlog, hok⟩

/-- What a successful `apply_update` leaves: the bytes the checksum announces,
and beside them a signature that the pinned key was asked about during this
call and accepted. -/
theorem wp_applyUpdate_installed :
    wp (applyUpdate X e mb upd)
      (fun _ w' => ∃ data sig, w'.file mb.installPath = some data ∧
        Hash.fromHex upd.checksum = .ok (X.crypto.blake3 data) ∧
        w'.file (sigPathFor mb.installPath) = some sig.val ∧ Accepted X mb upd data sig ∧
        ∃ evs, w'.log = w.log ++ evs ∧ ∃ key : ByteVec 32, key.val = mb.publisherPublicKey ∧
          Event.verify key (updatePayload X upd data) sig true ∈ evs)
      (fun _ _ => True) w := by
  unfold applyUpdate
  rw [wp_bind]
  refine wp_mono ?_ (fun _ _ _ => trivial) wp_prepareUpdate
  rintro ⟨updateId, backup⟩ w₁ h₁
  simp only [wp_bind, wp_attempt]
  refine wp_mono ?_ ?_ wp_executeUpdate
  · rintro metrics w₂ ⟨data, sig, h₂, hsidecar⟩
    refine preserves_finishUpdate.wp (fun _ w₃ h₃ => ?_) fun _ _ _ => trivial
    have hfile : ∀ p, w₃.file p = w₂.file p := fun p => congrArg (Files.read · p) h₃.files
    obtain ⟨evs₁, hlog₁, -⟩ := h₁.aside.log
    obtain ⟨evs₂, hlog₂, -, key, hkey, hmem⟩ := h₂.log
    refine ⟨data, sig, (hfile _).trans h₂.file, h₂.checksum, (hfile _).trans hsidecar,
      h₂.accepted, evs₁ ++ evs₂, ?_, key, hkey, List.mem_append_right _ hmem⟩
    rw [h₃.log, hlog₂, hlog₁, List.append_assoc]
  · intro err w₂ _
    -- the failure arm never returns
    exact wp_mono (fun _ _ h => h.elim) (fun _ _ _ => trivial) wp_abortUpdate

/-- Client authenticity.  For every server and every state: if `apply_update`
succeeds, the bytes at the install path have the announced hash, and the pinned
key accepted, during this call, a 64-byte signature for exactly these bytes and
this version, which is kept beside them; and in every run of `execute_update`,
bytes are renamed onto the install path only after their checksum and their
signature have both been checked.  The payload determines the hash and the
version, so the signature is for nothing else. -/
theorem applyUpdate_authentic :
    (∀ w', exec (applyUpdate X e mb upd) w = (.ok (), w') →
      ∃ data sig, w'.file mb.installPath = some data ∧
        Hash.fromHex upd.checksum = .ok (X.crypto.blake3 data) ∧
        w'.file (sigPathFor mb.installPath) = some sig.val ∧ Accepted X mb upd data sig ∧
        ∃ evs, w'.log = w.log ++ evs ∧ ∃ key : ByteVec 32, key.val = mb.publisherPublicKey ∧
          Event.verify key (updatePayload X upd data) sig true ∈ evs) ∧
    (∀ r w', exec (executeUpdate X e mb upd) w = (r, w') →
      ∃ evs, w'.log = w.log ++ evs ∧
        ∀ before src data after, evs = before ++ .rename src mb.installPath data :: after →
          Hash.fromHex upd.checksum = .ok (X.crypto.blake3 data) ∧
          Event.checksum (X.crypto.blake3 data) (X.crypto.blake3 data) ∈ before ∧
          ∃ (key : ByteVec 32) (sig : Signature), key.val = mb.publisherPublicKey ∧
            Event.verify key (updatePayload X upd data) sig true ∈ before) ∧
    (∀ (h h' : Hash) (v v' : String),
      signingPayload h.val v = signingPayload h'.val v' → h = h' ∧ v = v') := by
  refine ⟨fun w' hrun => ?_, fun r w' hrun => ?_, fun _ _ _ _ => signingPayload_inj⟩
  · exact wp_exec_ok (wp_applyUpdate_installed X e mb upd w) hrun
  · have hlog : ∃ evs, w'.log = w.log ++ evs ∧ Guarded (RenameOk X mb upd) [] evs := by
      cases r with
      | ok metrics => exact wp_exec_ok (wp_executeUpdate_log X e mb upd w) hrun
      | error err => exact wp_exec_error (wp_executeUpdate_log X e mb upd w) hrun
    obtain ⟨evs, hlog, hok⟩ := hlog
    refine ⟨evs, hlog, fun before src data after heq => ?_⟩
    subst heq
    exact ok_of_guarded hok src data rfl

/-! ## a sample client -/

/- A client with one binary, a host where everything is as it should be, and a server with the files
of a release. Later modules run their worked cases on them. -/

/-- A server that answers each download with a fixed file. -/
def serveFiles (files : List (String × Bytes)) (sent : List HttpRequest) : Reply :=
  match sent.getLast? with
  | some (.get url _) =>
    match files.find? fun f => f.1 == url with
    | some f => .response 200 (some f.2.length) [f.2] none
    | none => .response 404 none [] none
  | _ => .failed "connection refused"

/-- A host without symlinks, where every file belongs to an ordinary user. -/
def sampleHost : Host where
  isSymlink _ := false
  canonicalize p := some p
  uid _ := some 1000
  isRoot := false
  toLowercase := Text.asciiLower

/-- The sample publisher's crates. -/
def sampleCrates : Crates where
  semver := sampleSemver
  crypto := sampleCrypto
  zstd := ⟨fun _ => .error "Unknown frame descriptor"⟩
  -- thirty days after the epoch, where the sample client's clock stands
  chrono := ⟨fun _ => "1970-01-31 00:00:00", fun _ => none, fun now days => some (now - 86400 * days)⟩
  statusReason _ := "<unknown status code>"

/-- A name that is longer than every path, so that it is new in every
directory. -/
def longName (w : World) : String :=
  String.ofList (List.replicate (((w.files.paths ++ w.dirs).map String.length).sum + 1) 'x')

/-- The name is no longer than a path that ends in it. -/
theorem length_longName_le (w : World) (dir : String) :
    (longName w).length ≤ (joinPath dir (longName w)).length := by
  unfold joinPath
  split
  · exact Nat.le_refl _
  · split
    · rw [String.length_append]
      exact Nat.le_add_left _ _
    · rw [String.length_append]
      exact Nat.le_add_left _ _

theorem not_pathExists_longName (w : World) (dir : String) :
    w.pathExists (joinPath dir (longName w)) = false := by
  refine Bool.eq_false_iff.mpr fun hex => ?_
  have hmem : joinPath dir (longName w) ∈ w.files.paths ++ w.dirs := by
    rw [World.pathExists, Bool.or_eq_true] at hex
    rcases hex with hfile | hdir
    · exact List.mem_append_left _ (Files.mem_paths.mpr hfile)
    · exact List.mem_append_right _ (List.contains_iff_mem.mp hdir)
  have hle : (joinPath dir (longName w)).length ≤
      ((w.files.paths ++ w.dirs).map String.length).sum :=
    List.le_sum_of_mem (List.mem_map_of_mem hmem)
  have hlong := length_longName_le w dir
  have hlen : (longName w).length = ((w.files.paths ++ w.dirs).map String.length).sum + 1 := by
    rw [longName, String.length_ofList, List.length_replicate]
  omega

/-- Where the sample client keeps its data. -/
def sampleConfig : ClientConfig := ⟨"http://localhost:3000", "/data"⟩

/-- A client without faults and a server with these files. -/
def sampleEnv (files : List (String × Bytes)) : Env where
  config := sampleConfig
  host := sampleHost
  faults _ := none
  tempName _ := longName
  now := 0
  serve := serveFiles files
  serveCheck _ := .status 404 ""

/-- The temporary names of the sample client are new. -/
theorem sampleEnv_tempFresh (files : List (String × Bytes)) : (sampleEnv files).TempFresh :=
  fun _ w dir => not_pathExists_longName w dir

/-- The binary `app`, as registered. -/
def sampleBinary : ManagedBinary where
  binaryId := "b1"
  binaryName := "app"
  platform := "linux-x86_64"
  installPath := "/opt/app"
  currentVersionId := none
  currentVersionString := none
  publisherPublicKey := sampleKey.val
  autoUpdate := true
  lastCheckAt := none

/-- An update to a full binary. -/
def sampleUpdate (version : Version) (binary : Bytes) : UpdateInfo where
  version := version
  versionId := version.text
  diffUrl := none
  diffChecksum := none
  diffSize := none
  fullBinaryUrl := some "/binary"
  fullBinarySize := some binary.length
  checksum := (sampleBlake3 binary).toHex
  signatureUrl := some "/signature"
  forced := false
  releaseNotes := none

/-- The server's files for such an update. -/
def sampleFiles (binary : Bytes) (sig : Signature) : List (String × Bytes) :=
  [("/binary", binary), ("/signature", sig.val)]

/-- The database with `app` registered. -/
def sampleDb : ClientDb :=
  { ClientDb.empty with managed := ⟨[sampleBinary], List.nodup_singleton _⟩ }

/-- A client that has registered `app` and installed nothing. -/
def sampleWorld : World := ⟨Files.empty, ["/opt"], sampleDb, [], [], []⟩

/-- The first install of version 1.0.0. -/
def sampleFirstInstall : M Unit :=
  applyUpdate sampleCrates (sampleEnv (sampleFiles [1] sampleSig1)) sampleBinary
    (sampleUpdate (.new 1 0 0) [1])

theorem sampleFirstInstall_ok : (exec sampleFirstInstall sampleWorld).1 = .ok () := by
  decide +kernel

/-- The first install of `app` succeeds and leaves signed bytes. -/
theorem applyUpdate_authentic_first_install :
    (exec sampleFirstInstall sampleWorld).1 = .ok () ∧
      ∃ data sig,
        (exec sampleFirstInstall sampleWorld).2.file sampleBinary.installPath = some data ∧
        Accepted sampleCrates sampleBinary (sampleUpdate (.new 1 0 0) [1]) data sig := by
  obtain ⟨data, sig, hfile, -, -, haccepted, -⟩ :=
    (applyUpdate_authentic sampleCrates (sampleEnv (sampleFiles [1] sampleSig1)) sampleBinary
      (sampleUpdate (.new 1 0 0) [1]) sampleWorld).1 _ (exec_of_fst sampleFirstInstall_ok)
  exact ⟨sampleFirstInstall_ok, data, sig, hfile, haccepted⟩

end Deltaship
