import Deltaship.Crypto.Hashing
import Deltaship.Lib.Text
import Deltaship.Server.Models

/-!
# Deltaship.Server.KeyScope

The scope of an API key: `parse_publisher_meta` of `state.rs`.

What the fields say is a function of the tokens of the text, but whether `apps=` was given
at all is decided by a search in the text as a whole.
-/

namespace Deltaship

/-- `hex::decode`, for a key of 32 bytes. -/
def decodePubkey (value : String) : Option (ByteVec 32) :=
  (decodePairs strictHexByte (utf8 value)).bind (ByteVec.tryInto 32)

namespace Publisher

/-- `split_once('=')` of a token, with the key in lower case. -/
def field (token : List Char) : Option (String × String) :=
  (Text.splitFirst ['='] token).map fun e =>
    (Text.asciiLower (String.ofList e.1), String.ofList e.2)

/-- The names of an `apps` list. -/
def appNames (value : String) : List String :=
  ((Text.split value ",").map Text.trim).filter (· ≠ "")

/-- The scope that an `apps` field gives. -/
def appsOf (value : String) : Option (List String) :=
  if value = "*" then none else some (appNames value)

/-- What a token changes. -/
def addToken (p : Publisher) (token : List Char) : Publisher :=
  match field token with
  | none => p
  | some (key, value) =>
    if key = "owner" then { p with owner := value }
    else if key = "apps" then { p with allowedApps := appsOf value }
    else if key = "pubkey" then
      match decodePubkey value with
      | some pubkey => { p with pubkey := some pubkey }
      | none => p
    else p

/-- The tokens of the metadata of a key. -/
def tokens (metadata : String) : List (List Char) := Text.words metadata.toList

/-- `parse_publisher_meta`. -/
def parsePublisherMeta (metadata : String) : Publisher :=
  let p := (tokens metadata).foldl addToken ⟨"unknown", some [], none⟩
  match p.allowedApps with
  | some [] =>
    if Text.contains (Text.asciiLower metadata) "apps=" then p else { p with allowedApps := none }
  | _ => p

/-! ## what the tokens say -/

/-- The value of a token, if it is an `apps` field. -/
def appsValue (token : List Char) : Option String :=
  (field token).bind fun e => if e.1 = "apps" then some e.2 else none

/-- The value of the last `apps` field. -/
def lastApps (metadata : String) : Option String :=
  ((tokens metadata).filterMap appsValue).getLast?

/-- Two tokens are not fields of the same key. -/
def KeysApart (token token' : List Char) : Prop :=
  ∀ e ∈ field token, ∀ e' ∈ field token', e.1 ≠ e'.1

/-- The scope is the one that the last `apps` field gives, all apps without one, and does
not depend on the order of fields with different keys. -/
structure ScopeRight (metadata : String) : Prop where
  all_iff : (parsePublisherMeta metadata).allowedApps = none ↔
    lastApps metadata = none ∨ lastApps metadata = some "*"
  names : ∀ value ∈ lastApps metadata, value ≠ "*" →
    ∃ set, (parsePublisherMeta metadata).allowedApps = some set ∧
      ∀ name, name ∈ set ↔ name ≠ "" ∧ ∃ piece ∈ Text.split value ",", Text.trim piece = name
  order : (tokens metadata).Pairwise KeysApart →
    ∀ metadata', (tokens metadata').Perm (tokens metadata) →
      parsePublisherMeta metadata' = parsePublisherMeta metadata

instance : Std.Symm KeysApart := ⟨fun _ _ h e he e' he' => (h e' he' e he).symm⟩

variable {p : Publisher} {token token' : List Char} {metadata : String}

/-- A token sets the applications exactly if it begins as it should. -/
theorem allowedApps_addToken :
    (p.addToken token).allowedApps = (appsValue token).elim p.allowedApps appsOf := by
  unfold addToken appsValue
  cases field token with
  | none => rfl
  | some e =>
      obtain ⟨key, value⟩ := e
      simp only [Option.bind_some]
      by_cases howner : key = "owner"
      · simp [howner]
      · by_cases happs : key = "apps"
        · simp [happs]
        · by_cases hpubkey : key = "pubkey"
          · simp only [hpubkey]
            cases decodePubkey value <;> rfl
          · simp [howner, happs, hpubkey]

/-- The last `apps` field counts. -/
theorem allowedApps_foldl (ts : List (List Char)) (p : Publisher) :
    (ts.foldl addToken p).allowedApps =
      (ts.filterMap appsValue).getLast?.elim p.allowedApps appsOf := by
  induction ts generalizing p with
  | nil => rfl
  | cons t ts ih =>
      rw [List.foldl_cons, ih, allowedApps_addToken, List.filterMap_cons]
      cases appsValue t with
      | none => rfl
      | some value =>
          rw [List.getLast?_cons]
          cases (ts.filterMap appsValue).getLast? <;> rfl

/-- Fields of different keys change different things. -/
theorem addToken_comm (h : KeysApart token token') :
    (p.addToken token).addToken token' = (p.addToken token').addToken token := by
  unfold KeysApart at h
  unfold addToken
  cases hfield : field token with
  | none => rfl
  | some e =>
      cases hfield' : field token' with
      | none => rfl
      | some e' =>
          obtain ⟨key, value⟩ := e
          obtain ⟨key', value'⟩ := e'
          have hne : key ≠ key' := h _ hfield _ hfield'
          cases decodePubkey value <;> cases decodePubkey value' <;> grind

/-- The order of tokens with different keys does not matter. -/
theorem foldl_addToken_perm {ts ts' : List (List Char)} (hperm : ts'.Perm ts)
    (hkeys : ts.Pairwise KeysApart) (p : Publisher) :
    ts'.foldl addToken p = ts.foldl addToken p := by
  refine (hperm.symm.foldl_eq' (fun x hx y hy z => ?_) p).symm
  by_cases heq : x = y
  · rw [heq]
  · exact addToken_comm (hkeys.forall hx hy heq)

/-! ## the search in the text -/

/- Whether a key is restricted is decided by a search for `apps=` in its metadata, and which
applications it may change by the fields. The two agree unless the text is found inside another
field. -/

/-- The text contains `apps=`, in any case. -/
def Mentions (metadata : String) : Prop :=
  Text.contains (Text.asciiLower metadata) "apps=" = true

instance (metadata : String) : Decidable (Mentions metadata) := by
  unfold Mentions
  infer_instance

/-- The text mentions them exactly if one of its tokens does. -/
theorem mentions_iff :
    Mentions metadata ↔ ∃ token ∈ tokens metadata, "apps=".toList <:+: token.map Char.toLower := by
  have hlower : (Text.asciiLower metadata).toList = metadata.toList.map Char.toLower :=
    String.toList_ofList
  unfold Mentions Text.contains
  rw [Text.hasInfix_iff, hlower]
  constructor
  · intro h
    have hwhite : "apps=".toList.all (fun c => !Text.isWhitespace c) = true := by decide
    exact Text.infix_lower_words (by decide)
      (fun c hc => by simpa using List.all_eq_true.mp hwhite c hc) h
  · intro ⟨token, htoken, h⟩
    exact h.trans ((Text.infix_of_mem_words htoken).map Char.toLower)

/-- An `apps` field is one that the search finds. -/
theorem mentions_of_appsValue (htoken : token ∈ tokens metadata)
    (h : (appsValue token).isSome = true) : Mentions metadata := by
  refine mentions_iff.mpr ⟨token, htoken, ?_⟩
  unfold appsValue field at h
  cases hsplit : Text.splitFirst ['='] token with
  | none => simp [hsplit] at h
  | some e =>
      obtain ⟨key, value⟩ := e
      simp only [hsplit, Option.map_some, Option.bind_some] at h
      by_cases hkey : Text.asciiLower (String.ofList key) = "apps"
      · have hlower : key.map Char.toLower = "apps".toList := by
          rw [← hkey, Text.asciiLower, String.toList_ofList, String.toList_ofList]
        refine ⟨[], value.map Char.toLower, ?_⟩
        rw [Text.eq_of_splitFirst hsplit, List.map_append, hlower]
        rfl
      · simp [hkey] at h

/-- No token sets them exactly if none begins as it should. -/
theorem lastApps_eq_none_iff :
    lastApps metadata = none ↔ ∀ token ∈ tokens metadata, appsValue token = none := by
  rw [lastApps, List.getLast?_eq_none_iff, List.filterMap_eq_nil_iff]

theorem mentions_of_lastApps {value : String} (h : lastApps metadata = some value) :
    Mentions metadata := by
  by_contra hnot
  have hnone : lastApps metadata = none := by
    refine lastApps_eq_none_iff.mpr fun token htoken => ?_
    by_contra hsome
    exact hnot (mentions_of_appsValue htoken (Option.isSome_iff_ne_none.mpr hsome))
  simp [h] at hnone

/-- The scope that is parsed: the one of the last `apps` field, or else no apps or all of
them, as the search tells. -/
theorem allowedApps_parse (metadata : String) :
    (parsePublisherMeta metadata).allowedApps =
      (lastApps metadata).elim (if Mentions metadata then some [] else none) appsOf := by
  have hfold : ((tokens metadata).foldl addToken ⟨"unknown", some [], none⟩).allowedApps =
      (lastApps metadata).elim (some []) appsOf := allowedApps_foldl (tokens metadata) _
  unfold parsePublisherMeta
  generalize (tokens metadata).foldl addToken ⟨"unknown", some [], none⟩ = p at hfold ⊢
  cases hlast : lastApps metadata with
  | none =>
      rw [hlast] at hfold
      simp only [hfold, Option.elim_none]
      unfold Mentions
      split <;> simp_all
  | some value =>
      have hmentions : Text.contains (Text.asciiLower metadata) "apps=" = true :=
        mentions_of_lastApps hlast
      rw [hlast] at hfold
      simp only [Option.elim_some] at hfold ⊢
      rw [← hfold]
      split <;> simp_all

/-- The search finds the same in texts with the same tokens. -/
theorem mentions_perm {metadata' : String} (h : (tokens metadata').Perm (tokens metadata)) :
    Mentions metadata' ↔ Mentions metadata := by
  simp only [mentions_iff, h.mem_iff]

/-- The order of the tokens does not matter if no two set the same. -/
theorem parse_perm {metadata' : String} (hkeys : (tokens metadata).Pairwise KeysApart)
    (h : (tokens metadata').Perm (tokens metadata)) :
    parsePublisherMeta metadata' = parsePublisherMeta metadata := by
  have hsearch : Text.contains (Text.asciiLower metadata') "apps=" =
      Text.contains (Text.asciiLower metadata) "apps=" :=
    Bool.eq_iff_iff.mpr (mentions_perm h)
  unfold parsePublisherMeta
  rw [foldl_addToken_perm h hkeys, hsearch]

end Publisher

open Publisher in
/-- The scope of a key is the one that its last `apps` field gives, in any order of the
fields, if and only if there is such a field or the text does not mention `apps=`. -/
theorem key_scope_iff (metadata : String) :
    ScopeRight metadata ↔
      (∃ token ∈ tokens metadata, (appsValue token).isSome = true) ∨ ¬ Mentions metadata := by
  constructor
  · intro h
    by_contra hnot
    push Not at hnot
    obtain ⟨hnone, hmentions⟩ := hnot
    have hlast : lastApps metadata = none :=
      lastApps_eq_none_iff.mpr fun token htoken => by simpa using hnone token htoken
    have hall := h.all_iff.mpr (.inl hlast)
    simp [allowedApps_parse, hlast, hmentions] at hall
  · intro h
    refine ⟨?_, fun value hvalue hstar => ?_, fun hkeys metadata' hperm => parse_perm hkeys hperm⟩
    · rw [allowedApps_parse]
      cases hlast : lastApps metadata with
      | none =>
          have hnot : ¬ Mentions metadata := by
            rcases h with ⟨token, htoken, hsome⟩ | hnot
            · simp [lastApps_eq_none_iff.mp hlast token htoken] at hsome
            · exact hnot
          simp [hnot]
      | some value => by_cases hstar : value = "*" <;> simp [appsOf, hstar]
    · have hlast : lastApps metadata = some value := hvalue
      refine ⟨appNames value, by simp [allowedApps_parse, hlast, appsOf, hstar], fun name => ?_⟩
      simp only [appNames, List.mem_filter, List.mem_map, decide_eq_true_eq]
      exact and_comm

open Publisher in
/-- A key without an `apps` field that is locked out of all apps. -/
theorem key_scope_mentioned : ¬ ∀ metadata, ScopeRight metadata := by
  intro h
  have hall := (h "owner=x myapps=foo").all_iff
  revert hall
  decide

end Deltaship
