import Deltaship.Client.Authenticity
import Deltaship.Client.Checker

/-!
# Deltaship.Client.RetryClass

Which failed update checks are made again.

An error has lost its status when this is decided: `should_retry_error` looks for words and
numbers in its text, into which the server's reason phrase, the beginning of the body and the
version texts of an offer are written.  `Settles` is what an answer must be like for the check
to end with it; that it should is `Rejects`.
-/

namespace Deltaship

open Prog

/-! ## answers -/

/-- The answers that no further attempt changes: a client error other than 429, a success with
a body that does not parse, or an offer with an invalid version. -/
def Rejects (X : Crates) (e : Env) : CheckReply → Prop
  | .failed _ _ => False
  | .status code _ => 400 ≤ code ∧ code < 500 ∧ code ≠ 429 ∨ isSuccess code = true
  | .json r => ∃ version msg, validateVersionFormat version = .error msg ∧
      updateInfoOf X e r = .error msg

/-- The answers that may be others at the next attempt: a timeout or a failed connection, 429,
or a server error. -/
def Transient : CheckReply → Prop
  | .failed _ transient => transient = true
  | .status code _ => code = 429 ∨ 500 ≤ code ∧ code < 600
  | .json _ => False

/-! ## the text of an error -/

/- Whether an error is retried is decided by its text. The error of an error status contains the
status code as a word, and whatever the server has sent as its body behind it; both are searched. -/

/-- A text names a failure of the connection. -/
def namesFailure (text : String) : Bool :=
  Text.contains text "timeout" || Text.contains text "connection"

/-- What the first number that counts says: retry or not. -/
def firstRuling (text : String) : Option Bool := (Text.words text.toList).findSome? retryWord

/-- What stands behind the status code in the error of an error status. -/
def statusTail (X : Crates) (code : Nat) (body : String) : String :=
  let sanitized := String.ofList ((body.toList.take 200).map fun c =>
    if isControl c && c != '\n' then ' ' else c)
  let truncated := if Text.byteLen body > 200 then "... [truncated]" else ""
  s!"{X.statusReason code}: {sanitized}{truncated}"

/-- A check ends with this answer: no text in it names a failure of the connection, and the
first number that counts is a permanent status. -/
def Settles (X : Crates) (e : Env) : CheckReply → Prop
  | .failed _ _ => False
  | .status code body =>
    isSuccess code = false ∧
      namesFailure (e.host.toLowercase (statusTail X code body)) = false ∧
      (code ∈ permanentErrorCodes ∨
        firstRuling (e.host.toLowercase (statusTail X code body)) = some false)
  | .json r => ∀ msg, updateInfoOf X e r = .error msg →
      namesFailure (e.host.toLowercase msg) = false ∧
        firstRuling (e.host.toLowercase msg) = some false

section Words

/-- A decimal number is a word for itself. -/
theorem words_toDigits (n : Nat) : Text.words (Nat.toDigits 10 n) = [Nat.toDigits 10 n] := by
  have hdigit : ∀ c ∈ Nat.toDigits 10 n, Text.isWhitespace c = false := by
    intro c hc
    have hd := Text.toNat_of_mem_toDigits hc
    exact Text.isWhitespace_of_printing (by omega) (by omega)
  cases hl : Nat.toDigits 10 n with
  | nil => exact absurd hl Nat.toDigits_ne_nil
  | cons d ds =>
      rw [hl] at hdigit
      have hall : ∀ c ∈ d :: ds, (!Text.isWhitespace c) = true := by
        intro c hc
        simp [hdigit c hc]
      rw [Text.words_cons_black (hdigit d List.mem_cons_self),
        List.takeWhile_eq_self_iff.mpr hall, List.dropWhile_eq_nil_iff.mpr hall, Text.words_nil]

/-- A status code is found in its word. -/
theorem statusWord_toDigits {code : Nat} (hlow : 100 ≤ code) (hhigh : code < 600) :
    statusWord (Nat.toDigits 10 code) = some code := by
  have hdigit : ∀ c ∈ Nat.toDigits 10 code, (!c.isDigit) = false := by
    intro c hc
    simp [Nat.isDigit_of_mem_toDigits (by decide) (by decide) hc]
  unfold statusWord
  rw [Text.trimMatches_of_forall hdigit, Text.parseUnsigned_toDigits (by omega)]
  exact if_pos ⟨hlow, hhigh⟩

/-- The error of an error status, word by word up to the status code. -/
theorem statusError_eq (X : Crates) (code : Nat) (body : String) :
    statusError X code body = "Update check failed with status" ++
      (" " ++ (toString code ++ (" " ++ statusTail X code body))) := by
  have hspace : "Update check failed with status " = "Update check failed with status" ++ " " := by
    decide
  have htext : ∀ s : String, toString s = s := fun _ => rfl
  unfold statusError statusTail statusText
  simp only [htext, hspace, String.append_assoc]

variable {h : Host}

/-- Two parts of a text with a space between them are lower-cased one by one. -/
theorem Host.Lowercases.append_space (hlower : h.Lowercases) (a b : String) :
    h.toLowercase (a ++ (" " ++ b)) = h.toLowercase a ++ (" " ++ h.toLowercase b) := by
  have hlist : a ++ (" " ++ b) = String.ofList (a.toList ++ ' ' :: b.toList) := by
    rw [← String.toList_inj, String.toList_ofList, String.toList_append, String.toList_append]
    rfl
  rw [hlist, hlower.apart _ _ ' ' (.inl rfl), String.ofList_toList, String.ofList_toList,
    String.append_assoc]
  rfl

/-- A number has no case. -/
theorem Host.Lowercases.toString (hlower : h.Lowercases) (n : Nat) :
    h.toLowercase (ToString.toString n) = ToString.toString n := by
  have hsmall : ∀ c ∈ (ToString.toString n).toList, c.toNat ≤ 57 := by
    intro c hc
    rw [show (ToString.toString n).toList = Nat.toDigits 10 n from String.toList_ofList] at hc
    exact (Text.toNat_of_mem_toDigits hc).2
  have hascii : ∀ c ∈ (ToString.toString n).toList, Text.isAscii c = true := by
    intro c hc
    have hc := hsmall c hc
    simp only [Text.isAscii, decide_eq_true_eq]
    omega
  have hsame : ∀ c ∈ (ToString.toString n).toList, c.toLower = c := by
    intro c hc
    have hc := hsmall c hc
    rcases Text.toLower_cases c with ⟨hlow, -⟩ | ⟨-, hsame⟩
    · omega
    · exact hsame
  rw [hlower.ascii _ hascii, Text.asciiLower, List.map_congr_left hsame, List.map_id',
    String.ofList_toList]

/-- ASCII text is lowered letter by letter. -/
theorem Host.Lowercases.ascii_of_all (hlower : h.Lowercases) {s : String}
    (hall : s.toList.all Text.isAscii = true) : h.toLowercase s = Text.asciiLower s :=
  hlower.ascii s (List.all_eq_true.mp hall)

/-- It is lower-cased word by word, too. -/
theorem toLowercase_statusError (hlower : h.Lowercases) (X : Crates) (code : Nat) (body : String) :
    h.toLowercase (statusError X code body) = "update check failed with status" ++
      (" " ++ (toString code ++ (" " ++ h.toLowercase (statusTail X code body)))) := by
  have hfront : h.toLowercase "Update check failed with status" =
      "update check failed with status" := by
    rw [hlower.ascii_of_all (by decide)]
    decide
  rw [statusError_eq, hlower.append_space, hlower.append_space, hfront, hlower.toString]

/-- A text without a space that is in none of two parts is not in the whole. -/
theorem contains_append_space {needle a b : String} (hneedle : ' ' ∉ needle.toList) :
    Text.contains (a ++ (" " ++ b)) needle = (Text.contains a needle || Text.contains b needle) := by
  have hlist : (a ++ (" " ++ b)).toList = a.toList ++ ' ' :: b.toList := by
    rw [String.toList_append, String.toList_append]
    rfl
  unfold Text.contains
  rw [hlist, Bool.eq_iff_iff, Bool.or_eq_true, Text.hasInfix_iff, Text.hasInfix_iff,
    Text.hasInfix_iff]
  constructor
  · exact Text.infix_append_cons hneedle
  · rintro (h | h)
    · exact h.trans (List.prefix_append _ _).isInfix
    · exact h.trans ((List.suffix_cons _ _).trans (List.suffix_append _ _)).isInfix

theorem firstRuling_append_space (a b : String) :
    firstRuling (a ++ (" " ++ b)) = (firstRuling a).or (firstRuling b) := by
  have hlist : (a ++ (" " ++ b)).toList = a.toList ++ ' ' :: b.toList := by
    rw [String.toList_append, String.toList_append]
    rfl
  unfold firstRuling
  rw [hlist, Text.words_append_cons (by decide), List.findSome?_append]

/-- What a status code says about itself. -/
theorem firstRuling_toString (code : Nat) :
    firstRuling (toString code) = retryWord (Nat.toDigits 10 code) := by
  unfold firstRuling
  rw [show (toString code).toList = Nat.toDigits 10 code from String.toList_ofList,
    words_toDigits]
  cases h : retryWord (Nat.toDigits 10 code) <;> simp [h]

/-- A number names nothing. -/
theorem contains_toString {needle : String} {c : Char} (hc : c ∈ needle.toList)
    (hletter : 57 < c.toNat) (n : Nat) : Text.contains (toString n) needle = false := by
  unfold Text.contains
  rw [Bool.eq_false_iff, Ne, Text.hasInfix_iff]
  intro hin
  have hmem := hin.subset hc
  rw [show (toString n).toList = Nat.toDigits 10 n from String.toList_ofList] at hmem
  have hd := Text.toNat_of_mem_toDigits hmem
  omega

section Status

variable (hlower : h.Lowercases) (X : Crates) (code : Nat) (body : String)
include hlower

/-- In the error of an error status only what the server wrote can name a failure. -/
theorem namesFailure_statusError : namesFailure (h.toLowercase (statusError X code body)) =
    namesFailure (h.toLowercase (statusTail X code body)) := by
  have hfront : namesFailure "update check failed with status" = false := by decide
  unfold namesFailure at hfront ⊢
  rw [Bool.or_eq_false_iff] at hfront
  rw [toLowercase_statusError hlower, contains_append_space (by decide),
    contains_append_space (by decide), contains_append_space (by decide),
    contains_append_space (by decide), hfront.1, hfront.2,
    contains_toString (c := 't') (by decide) (by decide),
    contains_toString (c := 't') (by decide) (by decide)]
  simp only [Bool.false_or]

/-- Its first number is the status code, unless that does not count. -/
theorem firstRuling_statusError : firstRuling (h.toLowercase (statusError X code body)) =
    (retryWord (Nat.toDigits 10 code)).or
      (firstRuling (h.toLowercase (statusTail X code body))) := by
  have hfront : firstRuling "update check failed with status" = none := by decide
  rw [toLowercase_statusError hlower, firstRuling_append_space, firstRuling_append_space, hfront,
    firstRuling_toString, Option.none_or]

end Status

end Words

/-! ## one answer -/

section Answers

variable {X : Crates} {e : Env}

/-- What an attempt makes of an answer. -/
def attemptOutcome (X : Crates) (e : Env) : CheckReply → Except CheckError (Option UpdateInfo)
  | .failed msg transient => .error (.transport msg transient)
  | .status code body =>
    if isSuccess code then .error (.transport "error decoding response body" false)
    else .error (.other (statusError X code body))
  | .json response => (updateInfoOf X e response).mapError .other

/-- Whether the check goes on after an answer. -/
def retried (X : Crates) (e : Env) (reply : CheckReply) : Bool :=
  match attemptOutcome X e reply with
  | .ok _ => false
  | .error err => shouldRetryError e.host err

/-- An error that names no failure is retried unless its first ruling says no. -/
theorem shouldRetryError_other (msg : String) :
    shouldRetryError e.host (.other msg) = false ↔
      namesFailure (e.host.toLowercase msg) = false ∧
        firstRuling (e.host.toLowercase msg) = some false := by
  show (if namesFailure (e.host.toLowercase msg) = true then true
    else (firstRuling (e.host.toLowercase msg)).getD true) = false ↔ _
  cases namesFailure (e.host.toLowercase msg) <;>
    cases firstRuling (e.host.toLowercase msg) <;> simp

theorem retryWord_toDigits {code : Nat} (hlow : 400 ≤ code) (hhigh : code < 600) :
    retryWord (Nat.toDigits 10 code) =
      if code = 429 ∨ 500 ≤ code then some true
      else if code ∈ permanentErrorCodes then some false else none := by
  unfold retryWord
  rw [statusWord_toDigits (by omega) hhigh]
  simp only [hhigh, and_true, List.contains_iff_mem]

/-- An error of an attempt is classified by its text. -/
theorem retried_of_error {reply : CheckReply} {err : CheckError}
    (h : attemptOutcome X e reply = .error err) :
    retried X e reply = shouldRetryError e.host err := by
  unfold retried
  rw [h]

/-- A body that does not parse is asked for again: its error has no number in it. -/
theorem retried_of_isSuccess (hlower : e.host.Lowercases) {code : Nat} {body : String}
    (h : isSuccess code = true) : retried X e (.status code body) = true := by
  have htext : e.host.toLowercase "error decoding response body" =
      "error decoding response body" := by
    rw [hlower.ascii_of_all (by decide)]
    decide
  have hnames : namesFailure "error decoding response body" = false := by decide
  have hruling : firstRuling "error decoding response body" = none := by decide
  rw [retried_of_error (show attemptOutcome X e (.status code body) = _ from if_pos h)]
  show (if namesFailure (e.host.toLowercase "error decoding response body") = true then true
    else (firstRuling (e.host.toLowercase "error decoding response body")).getD true) = true
  rw [htext, hnames, hruling]
  rfl

/-- So is the status of an answer, with the reason and the body. -/
theorem retried_of_status {code : Nat} {body : String} (h : isSuccess code = false) :
    retried X e (.status code body) = shouldRetryError e.host (.other (statusError X code body)) :=
  retried_of_error (show attemptOutcome X e (.status code body) = _ from if_neg (by simp [h]))

/-- So is an answer that is not accepted. -/
theorem retried_of_invalid {r : ServerUpdateResponse} {msg : String}
    (h : updateInfoOf X e r = .error msg) :
    retried X e (.json r) = shouldRetryError e.host (.other msg) := by
  refine retried_of_error ?_
  show (updateInfoOf X e r).mapError CheckError.other = _
  rw [h]
  rfl

/-- After an answer that no further attempt changes, the check ends exactly if it settles. -/
theorem retried_eq_false_iff (hlower : e.host.Lowercases) {reply : CheckReply}
    (hrejects : Rejects X e reply) : retried X e reply = false ↔ Settles X e reply := by
  cases reply with
  | failed msg transient => exact hrejects.elim
  | status code body =>
      show _ ↔ isSuccess code = false ∧ _ ∧ (_ ∨ _)
      cases hsuccess : isSuccess code with
      | true => simp [retried_of_isSuccess hlower hsuccess]
      | false =>
          have hcode : 400 ≤ code ∧ code < 500 ∧ code ≠ 429 := by
            rcases hrejects with h | h
            · exact h
            · rw [hsuccess] at h
              contradiction
          rw [retried_of_status hsuccess, shouldRetryError_other, namesFailure_statusError hlower,
            firstRuling_statusError hlower, retryWord_toDigits hcode.1 (by omega),
            if_neg (by omega)]
          by_cases hpermanent : code ∈ permanentErrorCodes <;> simp [hpermanent]
  | json r =>
      obtain ⟨version, msg, -, hmsg⟩ := hrejects
      rw [retried_of_invalid hmsg, shouldRetryError_other]
      constructor
      · intro h msg' hmsg'
        rw [hmsg] at hmsg'
        rwa [← Except.error.inj hmsg']
      · intro h
        exact h msg hmsg

/-- After an answer that may be another one the next time, there is a next time. -/
theorem retried_of_transient (hlower : e.host.Lowercases) {reply : CheckReply}
    (h : Transient reply) : retried X e reply = true := by
  cases reply with
  | failed msg transient =>
      obtain rfl : transient = true := h
      rfl
  | status code body =>
      have hcode : code = 429 ∨ 500 ≤ code ∧ code < 600 := h
      have hsuccess : isSuccess code = false := by
        simp only [isSuccess, Bool.and_eq_false_iff, decide_eq_false_iff_not]
        omega
      rw [retried_of_status hsuccess, ← Bool.not_eq_false, shouldRetryError_other,
        firstRuling_statusError hlower,
        retryWord_toDigits (by omega) (by omega), if_pos (by omega)]
      simp
  | json r => exact h.elim

end Answers

/-! ## a whole check -/

/- The loop of a check asks again as long as attempts are left and the error of the last one is
worth another. What it has asked is therefore decided by the answers alone. -/

section Attempts

variable {X : Crates} {e : Env} {binary : ManagedBinary} {w : World}

/-- The request of an update check. -/
def checkRequest (e : Env) (binary : ManagedBinary) : CheckRequest :=
  ⟨s!"{trimEndSlashes e.config.serverUrl}/api/v1/apps/{urlEncodePathSegment binary.binaryName}/check-update",
    binary.platform, binary.currentVersionString⟩

/-- The answer to the attempt with this number, from zero on, if it is made. -/
def replyAt (e : Env) (binary : ManagedBinary) (w : World) (i : Nat) : CheckReply :=
  e.serveCheck (w.asked ++ List.replicate (i + 1) (checkRequest e binary))

/-- How many attempts a check makes. -/
def attempts (X : Crates) (e : Env) (binary : ManagedBinary) (w : World) : Nat :=
  (exec (checkForUpdates X e binary) w).2.asked.length - w.asked.length

/-- The world after one more request. -/
def askedOnce (binary : ManagedBinary) (url : String) (w : World) : World :=
  { w with asked := w.asked ++ [⟨url, binary.platform, binary.currentVersionString⟩] }

theorem exec_checkForUpdatesAttempt (url : String) :
    exec (checkForUpdatesAttempt X e binary url) w =
      (.ok (attemptOutcome X e (e.serveCheck (askedOnce binary url w).asked)),
        askedOnce binary url w) := by
  unfold checkForUpdatesAttempt
  have hask : exec (askServer e ⟨url, binary.platform, binary.currentVersionString⟩) w =
      (.ok (e.serveCheck (askedOnce binary url w).asked), askedOnce binary url w) := rfl
  rw [exec_bind_ok hask]
  cases e.serveCheck (askedOnce binary url w).asked with
  | failed msg transient => rfl
  | status code body =>
      show exec (if isSuccess code = true then _ else _) _ = (.ok (if isSuccess code = true then _
        else _), _)
      split <;> rfl
  | json response => rfl

/-- A loop goes on behind an attempt whose error is retried. -/
theorem exec_checkLoop_cons {url : String} {k : Nat} {rest : List Nat} {errors : List String} :
    exec (checkLoop X e binary url (k :: rest) errors) w =
      exec (match attemptOutcome X e (e.serveCheck (askedOnce binary url w).asked) with
        | .ok result => pure result
        | .error err =>
          if shouldRetryError e.host err then
            checkLoop X e binary url rest (errors ++ [s!"Attempt {k + 1}: {err.text}"])
          else throw (checkLoop.checkFailure (errors ++ [s!"Attempt {k + 1}: {err.text}"])))
        (askedOnce binary url w) := by
  conv_lhs => unfold checkLoop
  refine (exec_bind_ok (exec_checkForUpdatesAttempt url)).trans ?_
  cases attemptOutcome X e (e.serveCheck (askedOnce binary url w).asked) <;> rfl

section Step

variable {url : String} {k : Nat} {rest : List Nat} {errors : List String}

/-- A check that does not go on has asked once more. -/
theorem asked_checkLoop_of_settled
    (h : retried X e (e.serveCheck (askedOnce binary url w).asked) = false) :
    (exec (checkLoop X e binary url (k :: rest) errors) w).2 = askedOnce binary url w := by
  rw [exec_checkLoop_cons]
  unfold retried at h
  cases hout : attemptOutcome X e (e.serveCheck (askedOnce binary url w).asked) with
  | ok result => rfl
  | error err =>
      rw [hout] at h
      dsimp only at h ⊢
      rw [h]
      rfl

/-- A check that goes on does what is left of it. -/
theorem asked_checkLoop_of_retried (k : Nat) (rest : List Nat) (errors : List String)
    (h : retried X e (e.serveCheck (askedOnce binary url w).asked) = true) :
    ∃ errors', (exec (checkLoop X e binary url (k :: rest) errors) w).2 =
      (exec (checkLoop X e binary url rest errors') (askedOnce binary url w)).2 := by
  rw [exec_checkLoop_cons]
  unfold retried at h
  cases hout : attemptOutcome X e (e.serveCheck (askedOnce binary url w).asked) with
  | ok result =>
      rw [hout] at h
      contradiction
  | error err =>
      rw [hout] at h
      dsimp only at h ⊢
      rw [h]
      exact ⟨_, rfl⟩

end Step

theorem length_askedOnce (binary : ManagedBinary) (url : String) (w : World) :
    (askedOnce binary url w).asked.length = w.asked.length + 1 := by simp [askedOnce]

/-- What a check asked for before is still there. -/
theorem length_asked_checkLoop {url : String} (ks : List Nat) (errors : List String) :
    w.asked.length ≤ (exec (checkLoop X e binary url ks errors) w).2.asked.length := by
  induction ks generalizing w errors with
  | nil => exact Nat.le_refl _
  | cons k rest ih =>
      have honce := length_askedOnce binary url w
      cases h : retried X e (e.serveCheck (askedOnce binary url w).asked) with
      | false =>
          rw [asked_checkLoop_of_settled h]
          omega
      | true =>
          obtain ⟨errors', hrest⟩ := asked_checkLoop_of_retried k rest errors h
          rw [hrest]
          have hlater := ih (w := askedOnce binary url w) errors'
          omega

/-- A check with an attempt left makes it. -/
theorem length_asked_checkLoop_cons {url : String} (k : Nat) (rest : List Nat)
    (errors : List String) :
    w.asked.length < (exec (checkLoop X e binary url (k :: rest) errors) w).2.asked.length := by
  have honce := length_askedOnce binary url w
  cases h : retried X e (e.serveCheck (askedOnce binary url w).asked) with
  | false =>
      rw [asked_checkLoop_of_settled h]
      omega
  | true =>
      obtain ⟨errors', hrest⟩ := asked_checkLoop_of_retried k rest errors h
      rw [hrest]
      have hlater : (askedOnce binary url w).asked.length ≤
          (exec (checkLoop X e binary url rest errors') (askedOnce binary url w)).2.asked.length :=
        length_asked_checkLoop rest errors'
      omega

/-- The loop of a check. -/
theorem attempts_eq : attempts X e binary w = (exec (checkLoop X e binary
    (checkRequest e binary).url [0, 1, 2] []) w).2.asked.length - w.asked.length := rfl

/-- A check ends with its first attempt exactly if it does not go on after it. -/
theorem attempts_eq_one_iff :
    attempts X e binary w = 1 ↔ retried X e (replyAt e binary w 0) = false := by
  have hreply : replyAt e binary w 0 =
      e.serveCheck (askedOnce binary (checkRequest e binary).url w).asked := rfl
  have honce := length_askedOnce binary (checkRequest e binary).url w
  rw [attempts_eq, hreply]
  cases h : retried X e (e.serveCheck (askedOnce binary (checkRequest e binary).url w).asked) with
  | false =>
      rw [asked_checkLoop_of_settled h]
      simp [honce]
  | true =>
      obtain ⟨errors', hrest⟩ := asked_checkLoop_of_retried 0 [1, 2] [] h
      have hmore : (askedOnce binary (checkRequest e binary).url w).asked.length <
          (exec (checkLoop X e binary (checkRequest e binary).url [1, 2] errors')
            (askedOnce binary (checkRequest e binary).url w)).2.asked.length :=
        length_asked_checkLoop_cons 1 [2] errors'
      rw [hrest]
      simp only [Bool.true_eq_false, iff_false]
      omega

/-- A check that goes on after each attempt makes all of them. -/
theorem asked_checkLoop_of_all {url : String} (ks : List Nat) (errors : List String)
    (h : ∀ i < ks.length, retried X e (e.serveCheck (w.asked ++
      List.replicate (i + 1) ⟨url, binary.platform, binary.currentVersionString⟩)) = true) :
    (exec (checkLoop X e binary url ks errors) w).2.asked.length =
      w.asked.length + ks.length := by
  induction ks generalizing w errors with
  | nil => rfl
  | cons k rest ih =>
      obtain ⟨errors', hrest⟩ := asked_checkLoop_of_retried k rest errors
        (h 0 (Nat.zero_lt_succ _))
      have hlater : ∀ i < rest.length, retried X e (e.serveCheck ((askedOnce binary url w).asked ++
          List.replicate (i + 1) ⟨url, binary.platform, binary.currentVersionString⟩)) = true := by
        intro i hi
        have hnext := h (i + 1) (by simpa using hi)
        rwa [List.replicate_succ, List.append_cons] at hnext
      rw [hrest, ih errors' hlater, length_askedOnce, List.length_cons]
      omega

/-- An update check makes all attempts when each may be followed by another answer; and it ends
with an answer that no further attempt changes exactly if that settles. -/
theorem check_attempts_iff (hlower : e.host.Lowercases) :
    ((Rejects X e (replyAt e binary w 0) → attempts X e binary w = 1) ∧
        ((∀ i < maxRetries, Transient (replyAt e binary w i)) →
          attempts X e binary w = maxRetries)) ↔
      (Rejects X e (replyAt e binary w 0) → Settles X e (replyAt e binary w 0)) := by
  have hall : (∀ i < maxRetries, Transient (replyAt e binary w i)) →
      attempts X e binary w = maxRetries := by
    intro h
    have hretried : ∀ i < maxRetries, retried X e (replyAt e binary w i) = true :=
      fun i hi => retried_of_transient hlower (h i hi)
    have hloop := @asked_checkLoop_of_all X e binary w (checkRequest e binary).url [0, 1, 2] []
      hretried
    rw [attempts_eq, hloop, Nat.add_sub_cancel_left]
    rfl
  constructor
  · intro h hrejects
    exact (retried_eq_false_iff hlower hrejects).mp (attempts_eq_one_iff.mp (h.1 hrejects))
  · intro h
    exact ⟨fun hrejects => attempts_eq_one_iff.mpr
      ((retried_eq_false_iff hlower hrejects).mpr (h hrejects)), hall⟩

/-- A server with one answer to every update check. -/
def sampleAnswering (reply : CheckReply) : Env := { sampleEnv [] with serveCheck := fun _ => reply }

/-- A 404 with an empty body ends the check. -/
theorem check_attempts_iff_missing :
    attempts sampleCrates (sampleAnswering (.status 404 "")) sampleBinary sampleWorld = 1 := by
  have hlower : (sampleAnswering (.status 404 "")).host.Lowercases :=
    Host.lowercases_of_asciiLower rfl
  refine ((@check_attempts_iff sampleCrates _ sampleBinary sampleWorld hlower).mpr
    fun _ => ?_).1 (.inl (by decide))
  exact ⟨by decide, by decide, .inl (by decide)⟩

/-- A check makes more than one attempt with this answer, which no further attempt changes. -/
def RetriesRejected (reply : CheckReply) : Prop :=
  Rejects sampleCrates (sampleAnswering reply)
      (replyAt (sampleAnswering reply) sampleBinary sampleWorld 0) ∧
    attempts sampleCrates (sampleAnswering reply) sampleBinary sampleWorld = 3

/-- A 404 whose body speaks of a connection, a 409, and a body that does not parse. -/
theorem rejected_is_retried :
    RetriesRejected (.status 404 "no connection to this app") ∧
      RetriesRejected (.status 409 "") ∧ RetriesRejected (.status 200 "\x7b") := by
  refine ⟨⟨.inl (by decide), ?_⟩, ⟨.inl (by decide), ?_⟩, ⟨.inr (by decide), ?_⟩⟩
  · decide +kernel
  · decide
  · decide

end Attempts

end Deltaship
