import Mathlib.Data.List.Basic
import Mathlib.Data.Rat.Defs
import PackageRegistry.Lib.Checks
import PackageRegistry.Registry.Immutability

/-! # Downloading an artifact

`download_artifact` of `scripts/verify_artifacts.py`, against a server that redirects as it
likes and sends as much as it likes.
-/

namespace PackageRegistry

def DOWNLOAD_CHUNK_BYTES : Int := 1024 * 1024

def GITHUB_RELEASE_REDIRECT_HOSTS : List Text := [text "release-assets.githubusercontent.com"]

/-- The exceptions that the code tells apart, and the others -/
inductive DownloadException where
  /-- `ArtifactVerificationError` -/
  | verification (message : Text)
  | http_error (code : Int)
  | timeout_error
  /-- `URLError`; there is a type unless the reason is a `TimeoutError`. -/
  | url_error (reason : Option Text)
  | os_error (type_name : Text)
  | registry (e : RegistryError)
  | other (type_name : Text)

/-- The `except` clauses -/
def DownloadException.translated : DownloadException → DownloadException
  | .http_error code =>
      .verification (text "artifact request failed with HTTP " ++ Json.ofInt code)
  | .timeout_error => .verification (text "artifact request timed out")
  | .url_error reason =>
      .verification (text "artifact network request failed (" ++ reason.getD (text "timeout") ++
        text ")")
  | .os_error type_name =>
      .verification (text "artifact download failed (" ++ type_name ++ text ")")
  | e => e

abbrev Downloads := Except DownloadException

def refuse {α : Type} (message : String) : Downloads α :=
  .error (.verification (text message))

/-! ## What the server does -/

/-- The bytes that a response yields, and how many there are unless they never end -/
structure Body where
  byte : Nat → UInt8
  length : Option Nat

namespace Body

variable (body : Body)

def slice (offset n : Nat) : List UInt8 :=
  (List.range n).map fun i => body.byte (offset + i)

/-- How many of the next `n` bytes there are -/
def left (offset n : Nat) : Nat :=
  match body.length with
  | some length => min n (length - offset)
  | none => n

def Longer (n : Int) : Prop := ∀ length : Nat, body.length = some length → n < length

end Body

/-- A response, with how many bytes each `read` returns at most: never none before the end -/
structure Response where
  status : Option Int
  content_length : Option Text
  body : Body
  reads : Nat → Downloads Nat

def Response.read (response : Response) (i offset n : Nat) : Downloads (List UInt8) :=
  (response.reads i).map fun k =>
    response.body.slice offset (min (k + 1) (response.body.left offset n))

/-- What comes of a request: `redirect_request` is called, or `open` returns or raises. -/
inductive Answer where
  | redirect (code : Int) (new_url : Text)
  | response (r : Response)
  | raised (e : DownloadException)

/-- What the code meets with -/
structure DownloadWorld where
  /-- The answer to the last of these requests -/
  answer : List Text → Answer
  monotonic : Nat → ℚ
  /-- What `open("xb")` raises -/
  opened : Option DownloadException
  /-- Where a `write` and the closing of the file break off, and what they raise -/
  write : Nat → Option (Nat × DownloadException)
  close : Option (Nat × DownloadException)

/-! ## Validators -/

section

variable (lib : Library)

def validate_candidate_url (candidate : ReleaseCandidate) : Downloads SplitResult :=
  match validate_artifact_url lib (.str candidate.artifact_url) candidate.classification
      candidate.module_id candidate.version (candidate.identity ++ text " artifact URL") with
  | .error e => .error (.registry e)
  | .ok url =>
      match urlsplit lib url with
      | some parsed => .ok parsed
      | none => .error (.other (text "ValueError"))

def redirectAllowed (target_url initial_hostname : Text) (parsed : SplitResult) : Bool :=
  initial_hostname == text "github.com" && parsed.scheme == text "https" &&
    (parsed.hostname lib).any GITHUB_RELEASE_REDIRECT_HOSTS.contains &&
    parsed.username.isNone && parsed.password.isNone && !parsed.invalid_port &&
    parsed.fragment.isEmpty &&
    Text.startsWith (text "/github-production-release-asset/") parsed.path &&
    !target_url.contains (.ofChar '\\') && target_url.all fun c => !c.isSpace && 32 ≤ c.val

def validate_redirect_target (target_url initial_hostname : Text) : Downloads Unit :=
  match urlsplit lib target_url with
  | none => .error (.other (text "ValueError"))
  | some parsed =>
      if redirectAllowed lib target_url initial_hostname parsed then .ok ()
      else refuse "artifact redirect target is not policy-approved"

/-- GitHub alone may redirect, and only to its service for release assets. -/
theorem validate_redirect_target_ok {target_url initial_hostname : Text}
    (accepted : validate_redirect_target lib target_url initial_hostname = .ok ()) :
    initial_hostname = text "github.com" ∧
      ∃ parsed, urlsplit lib target_url = some parsed ∧ parsed.scheme = text "https" ∧
        ∃ host, parsed.hostname lib = some host ∧ host ∈ GITHUB_RELEASE_REDIRECT_HOSTS := by
  rw [validate_redirect_target] at accepted
  split at accepted
  · cases accepted
  · rename_i parsed split_ok
    split at accepted
    · rename_i allowed
      simp only [redirectAllowed, Bool.and_eq_true, beq_iff_eq] at allowed
      obtain ⟨⟨⟨⟨⟨⟨⟨⟨⟨github, https⟩, host⟩, -⟩, -⟩, -⟩, -⟩, -⟩, -⟩, -⟩ := allowed
      obtain ⟨name, named, listed⟩ := Option.any_eq_true _ _ |>.mp host
      exact ⟨github, parsed, split_ok, https, name, named, List.contains_iff_mem.mp listed⟩
    · cases accepted

end

/-! ## The download -/

/-- `int` of a text in Latin-1, which has no other decimal digits than the ASCII ones -/
def intOfText (t : Text) : Option Int :=
  let stripped := Text.strip t
  let negative := Text.startsWith (text "-") stripped
  let signed := negative || Text.startsWith (text "+") stripped
  let groups := Text.splitOn (.ofChar '_') (if signed then stripped.drop 1 else stripped)
  let digits := groups.flatten
  if groups.all (fun group => !group.isEmpty && group.all CodePoint.isDigit) &&
      digits.length ≤ 4300 then
    some (if negative then -(Text.toNat digits : Int) else Text.toNat digits)
  else none

structure DownloadLimits where
  timeout : ℚ
  max_bytes : Int
  max_download_seconds : ℚ
  max_redirects : Int

/-- The defaults -/
def DownloadLimits.default : DownloadLimits where
  timeout := 30
  max_bytes := 512 * 1024 * 1024
  max_download_seconds := 600
  max_redirects := 3

/-- A download that has ended: the URLs that it has requested, what is in the file if it has been
    created, and what it returns -/
structure Download where
  requests : List Text
  file : Option (List UInt8)
  result : Downloads Text

section

variable (world : DownloadWorld) (limits : DownloadLimits)

/-- `HTTPRedirectHandler.redirect_request` -/
def followsCode (code : Int) : Downloads Unit :=
  if code = 301 ∨ code = 302 ∨ code = 303 ∨ code = 307 ∨ code = 308 then .ok ()
  else .error (.http_error code)

/-- `_PolicyRedirectHandler.redirect_request` after so many redirects -/
def redirect_request (validator : Text → Text → Downloads Unit) (initial_hostname : Text)
    (redirects : Nat) (code : Int) (new_url : Text) : Downloads Unit :=
  if (redirects : Int) + 1 > limits.max_redirects then refuse "artifact redirect limit exceeded"
  else do
    validator new_url initial_hostname
    followsCode code

/-- `opener.open` from the last of these requests on. Nothing is known of it when the fuel is used
    up. -/
def openFrom (validator : Text → Text → Downloads Unit) (initial_hostname : Text) :
    Nat → List Text → Nat → Option (List Text × Downloads Response)
  | 0, _, _ => none
  | fuel + 1, requests, redirects =>
      match world.answer requests with
      | .raised e => some (requests, .error e)
      | .response r => some (requests, .ok r)
      | .redirect code new_url =>
          match redirect_request limits validator initial_hostname redirects code new_url with
          | .error e => some (requests, .error e)
          | .ok () =>
              openFrom validator initial_hostname fuel (requests ++ [new_url]) (redirects + 1)

/-- What is looked at before the first byte -/
def checkResponse (response : Response) : Downloads Unit :=
  match response.status with
  | none => refuse "artifact request returned HTTP None"
  | some status =>
      if ¬(200 ≤ status ∧ status < 300) then
        .error (.verification (text "artifact request returned HTTP " ++ Json.ofInt status))
      else
        match response.content_length with
        | none => .ok ()
        | some content_length =>
            match intOfText content_length with
            | none => refuse "artifact Content-Length is invalid"
            | some declared_size =>
                if declared_size < 0 ∨ limits.max_bytes < declared_size then
                  refuse "artifact Content-Length exceeds size limit"
                else .ok ()

/-- The loop from its `i`-th read on, with the bytes that are in the file and those in the digest -/
def streamFrom (response : Response) :
    Nat → Nat → Nat → List UInt8 → List UInt8 → Option (List UInt8 × Downloads (List UInt8))
  | 0, _, _, _, _ => none
  | fuel + 1, i, downloaded, written, hashed =>
      if world.monotonic (i + 1) > world.monotonic 0 + limits.max_download_seconds then
        some (written, refuse "artifact download exceeded total timeout")
      else
        match response.read i downloaded
            (min DOWNLOAD_CHUNK_BYTES (limits.max_bytes + 1 - downloaded)).toNat with
        | .error e => some (written, .error e)
        | .ok chunk =>
            if chunk.isEmpty then some (written, .ok hashed)
            else if ((downloaded + chunk.length : Nat) : Int) > limits.max_bytes then
              some (written, refuse "artifact download exceeds size limit")
            else
              match world.write i with
              | some (k, e) => some (written ++ chunk.take k, .error e)
              | none =>
                  streamFrom response fuel (i + 1) (downloaded + chunk.length) (written ++ chunk)
                    (hashed ++ chunk)

/-- The end of `with destination.open("xb")` -/
def closeFile (written : List UInt8) (result : Downloads (List UInt8)) :
    Option (List UInt8) × Downloads (List UInt8) :=
  match world.close with
  | some (k, e) => (some (written.take k), .error e)
  | none => (some written, result)

def save (response : Response) (fuel : Nat) :
    Option (Option (List UInt8) × Downloads (List UInt8)) :=
  match world.opened with
  | some e => some (none, .error e)
  | none =>
      (streamFrom world limits response fuel 0 0 [] []).map fun streamed =>
        closeFile world streamed.1 streamed.2

/-- What is done with the opener -/
def fetch (validator : Text → Text → Downloads Unit) (sha256 : List UInt8 → Text)
    (artifact_url initial_hostname : Text) (fuel : Nat) : Option Download :=
  match openFrom world limits validator initial_hostname fuel [artifact_url] 0 with
  | none => none
  | some (requests, .error e) => some ⟨requests, none, .error e.translated⟩
  | some (requests, .ok response) =>
      match checkResponse limits response with
      | .error e => some ⟨requests, none, .error e.translated⟩
      | .ok () =>
          (save world limits response fuel).map fun saved =>
            ⟨requests, saved.1, (saved.2.map sha256).mapError DownloadException.translated⟩

def download_artifact (lib : Library) (sha256 : List UInt8 → Text)
    (initial_url_validator : ReleaseCandidate → Downloads SplitResult)
    (redirect_target_validator : Text → Text → Downloads Unit) (candidate : ReleaseCandidate)
    (fuel : Nat) : Option Download :=
  if limits.timeout ≤ 0 ∨ limits.max_download_seconds ≤ 0 ∨ limits.max_bytes ≤ 0 ∨
      limits.max_redirects < 0 then
    some ⟨[], none, refuse "download limits must be positive"⟩
  else
    match initial_url_validator candidate with
    | .error e => some ⟨[], none, .error e⟩
    | .ok initial =>
        match (initial.hostname lib).filter (· ≠ []) with
        | none => some ⟨[], none, refuse "artifact URL has no hostname"⟩
        | some hostname =>
            fetch world limits redirect_target_validator sha256 candidate.artifact_url hostname
              fuel

end

/-! ## One read -/

namespace Body

variable (body : Body)

@[simp] theorem length_slice (offset n : Nat) : (body.slice offset n).length = n := by
  rw [slice, List.length_map, List.length_range]

theorem slice_append (n k : Nat) : body.slice 0 n ++ body.slice n k = body.slice 0 (n + k) := by
  simp only [slice, Nat.zero_add, List.range_add, List.map_append, List.map_map]
  rfl

theorem left_le (offset n : Nat) : body.left offset n ≤ n := by
  rw [left]
  split
  · exact Nat.min_le_left _ _
  · exact le_rfl

/-- Only the end leaves nothing to read. -/
theorem ended_of_left {offset n : Nat} (positive : 0 < n) (nothing : body.left offset n = 0) :
    ∃ length, body.length = some length ∧ length ≤ offset := by
  rw [left] at nothing
  split at nothing
  · rename_i length known
    exact ⟨length, known, by omega⟩
  · omega

end Body

section

variable {world : DownloadWorld} {limits : DownloadLimits} {response : Response}

/-- A read yields the next bytes, and none only at the end. -/
theorem read_ok {i offset n : Nat} {chunk : List UInt8} (positive : 0 < n)
    (read : response.read i offset n = .ok chunk) :
    chunk = response.body.slice offset chunk.length ∧
      (chunk = [] → ∃ length, response.body.length = some length ∧ length ≤ offset) := by
  obtain ⟨k, -, rfl⟩ := Checks.map_ok.mp read
  constructor
  · rw [Body.length_slice]
  · intro empty
    have none := congrArg List.length empty
    rw [Body.length_slice, List.length_nil] at none
    exact response.body.ended_of_left (n := n) positive (by omega)

/-! ## The loops -/

/-- What the loop may leave in the file, and what it may return -/
structure Streamed (limits : DownloadLimits) (response : Response) (written : List UInt8)
    (result : Downloads (List UInt8)) : Prop where
  size : (written.length : Int) ≤ limits.max_bytes
  whole : ∀ hashed, result = .ok hashed → hashed = written ∧ ¬response.body.Longer limits.max_bytes

theorem streamed_error {written : List UInt8} {e : DownloadException}
    (size : (written.length : Int) ≤ limits.max_bytes) :
    Streamed limits response written (.error e) :=
  ⟨size, nofun⟩

/-- Every round reads something unless it is the last, so the loop ends. -/
theorem streamFrom_ends (world : DownloadWorld) (response : Response) (fuel i downloaded : Nat)
    (within : (downloaded : Int) ≤ limits.max_bytes)
    (enough : limits.max_bytes < downloaded + fuel) :
    ∃ written result,
      streamFrom world limits response fuel i downloaded (response.body.slice 0 downloaded)
          (response.body.slice 0 downloaded) = some (written, result) ∧
        Streamed limits response written result := by
  induction fuel generalizing i downloaded with
  | zero => omega
  | succ fuel ih =>
      have sofar : ((response.body.slice 0 downloaded).length : Int) ≤ limits.max_bytes := by
        rwa [Body.length_slice]
      rw [streamFrom]
      split
      · exact ⟨_, _, rfl, streamed_error sofar⟩
      · split
        · exact ⟨_, _, rfl, streamed_error sofar⟩
        · rename_i chunk read
          have asked : 0 < (min DOWNLOAD_CHUNK_BYTES (limits.max_bytes + 1 - downloaded)).toNat := by
            rw [DOWNLOAD_CHUNK_BYTES]
            omega
          obtain ⟨next, ended⟩ := read_ok asked read
          split
          · rename_i empty
            refine ⟨_, _, rfl, sofar, fun hashed returned => ?_⟩
            cases returned
            refine ⟨rfl, fun longer => ?_⟩
            obtain ⟨length, known, reached⟩ := ended (List.isEmpty_iff.mp empty)
            have beyond := longer length known
            omega
          · rename_i more
            split
            · exact ⟨_, _, rfl, streamed_error sofar⟩
            · rename_i fits
              have grown := response.body.slice_append downloaded chunk.length
              rw [← next] at grown
              split
              · rename_i k e _
                refine ⟨_, _, rfl, streamed_error ?_⟩
                rw [List.length_append, Body.length_slice, List.length_take]
                omega
              · rw [grown]
                have some_read : 0 < chunk.length :=
                  List.length_pos_iff.mpr fun empty => more (List.isEmpty_iff.mpr empty)
                exact ih (i + 1) (downloaded + chunk.length) (by omega) (by omega)

/-- The requests after the initial one are to targets that the validator has accepted. -/
structure Followed (limits : DownloadLimits) (validator : Text → Text → Downloads Unit)
    (initial_hostname : Text) (followed : List Text) : Prop where
  count : (followed.length : Int) ≤ limits.max_redirects
  accepted : ∀ target ∈ followed, validator target initial_hostname = .ok ()

theorem refuse_ok {α : Type} {message : String} {a : α} :
    (refuse message : Downloads α) = .ok a ↔ False :=
  Checks.error_ok

theorem redirect_request_ok {validator : Text → Text → Downloads Unit}
    {initial_hostname new_url : Text} {redirects : Nat} {code : Int}
    (follows : redirect_request limits validator initial_hostname redirects code new_url = .ok ()) :
    (redirects : Int) + 1 ≤ limits.max_redirects ∧ validator new_url initial_hostname = .ok () := by
  rw [redirect_request, Checks.guard_ok refuse_ok, Checks.check_ok] at follows
  exact ⟨not_lt.mp follows.1, follows.2.1⟩

/-- Every round but the last follows a redirect, so `open` ends. -/
theorem openFrom_ends {validator : Text → Text → Downloads Unit} {initial_hostname : Text}
    (world : DownloadWorld) (artifact_url : Text) (fuel : Nat) {followed : List Text}
    (sofar : Followed limits validator initial_hostname followed)
    (enough : limits.max_redirects < followed.length + fuel) :
    ∃ followed' result,
      openFrom world limits validator initial_hostname fuel (artifact_url :: followed)
          followed.length = some (artifact_url :: followed', result) ∧
        Followed limits validator initial_hostname followed' ∧
        ∀ r, world.answer (artifact_url :: followed') = .response r → result = .ok r := by
  induction fuel generalizing followed with
  | zero =>
      have := sofar.count
      omega
  | succ fuel ih =>
      rw [openFrom]
      split
      · rename_i e answered
        refine ⟨followed, _, rfl, sofar, fun r response => ?_⟩
        rw [answered] at response
        cases response
      · rename_i r' answered
        refine ⟨followed, _, rfl, sofar, fun r response => ?_⟩
        rw [answered] at response
        cases response
        rfl
      · rename_i code new_url answered
        split
        · refine ⟨followed, _, rfl, sofar, fun r response => ?_⟩
          rw [answered] at response
          cases response
        · rename_i follows
          obtain ⟨room, accepted⟩ := redirect_request_ok follows
          have further : Followed limits validator initial_hostname (followed ++ [new_url]) := by
            constructor
            · rw [List.length_append, List.length_singleton]
              exact_mod_cast room
            · intro target mem
              rcases List.mem_append.mp mem with before | last
              · exact sofar.accepted target before
              · rwa [List.mem_singleton.mp last]
          have more := ih further (by
            rw [List.length_append, List.length_singleton]
            push_cast
            omega)
          rwa [List.length_append, List.length_singleton] at more

/-! ## The whole download -/

theorem save_ends (world : DownloadWorld) (response : Response) (fuel : Nat)
    (positive : 0 < limits.max_bytes) (enough : limits.max_bytes < fuel) :
    ∃ file result, save world limits response fuel = some (file, result) ∧
      (∀ written, file = some written → (written.length : Int) ≤ limits.max_bytes) ∧
      ∀ hashed, result = .ok hashed →
        file = some hashed ∧ ¬response.body.Longer limits.max_bytes := by
  rw [save]
  split
  · exact ⟨none, _, rfl, nofun, nofun⟩
  · obtain ⟨written, result, ends, streamed⟩ :=
      streamFrom_ends world response fuel 0 0 positive.le (by omega)
    have started : response.body.slice 0 0 = [] := rfl
    rw [started] at ends
    refine ⟨_, _, congrArg (Option.map _) ends, ?_⟩
    dsimp only
    cases world.close with
    | none =>
        refine ⟨fun kept file => ?_, fun hashed returned => ?_⟩
        · cases file
          exact streamed.size
        · obtain ⟨same, short⟩ := streamed.whole hashed returned
          exact ⟨same ▸ rfl, short⟩
    | some broken =>
        refine ⟨fun kept file => ?_, nofun⟩
        cases file
        have size := streamed.size
        rw [List.length_take]
        omega

/-- What is bounded in a download -/
structure Download.Bounded (d : Download) (lib : Library) (sha256 : List UInt8 → Text)
    (initial_url_validator : ReleaseCandidate → Downloads SplitResult)
    (redirect_target_validator : Text → Text → Downloads Unit) (candidate : ReleaseCandidate)
    (limits : DownloadLimits) (world : DownloadWorld) : Prop where
  requests : d.requests = [] ∨
    ∃ initial hostname followed, initial_url_validator candidate = .ok initial ∧
      initial.hostname lib = some hostname ∧
      d.requests = candidate.artifact_url :: followed ∧
      Followed limits redirect_target_validator hostname followed
  size : ∀ written, d.file = some written → (written.length : Int) ≤ limits.max_bytes
  digest : ∀ digest, d.result = .ok digest →
    ∃ written, d.file = some written ∧ digest = sha256 written
  longer : ∀ response, world.answer d.requests = .response response →
    response.body.Longer limits.max_bytes → ∃ e, d.result = .error e

theorem mapError_ok {ε ε' α : Type} {x : Except ε α} {f : ε → ε'} {a : α} :
    x.mapError f = .ok a ↔ x = .ok a := by
  cases x with
  | error e => exact ⟨nofun, nofun⟩
  | ok b =>
      constructor
      · rintro ⟨⟩
        rfl
      · rintro ⟨⟩
        rfl

theorem error_of_not_ok {ε α : Type} {x : Except ε α} (never : ∀ a, x ≠ .ok a) :
    ∃ e, x = .error e := by
  cases x with
  | error e => exact ⟨e, rfl⟩
  | ok a => exact absurd rfl (never a)

variable {lib : Library} {sha256 : List UInt8 → Text}
  {initial_url_validator : ReleaseCandidate → Downloads SplitResult}
  {redirect_target_validator : Text → Text → Downloads Unit} {candidate : ReleaseCandidate}

/-- Nothing has been requested. -/
theorem bounded_unrequested (e : DownloadException) :
    Download.Bounded ⟨[], none, .error e⟩ lib sha256 initial_url_validator
      redirect_target_validator candidate limits world where
  requests := .inl rfl
  size := nofun
  digest := nofun
  longer _ _ _ := ⟨e, rfl⟩

theorem fetch_ends {initial : SplitResult} {hostname : Text}
    (validated : initial_url_validator candidate = .ok initial)
    (named : initial.hostname lib = some hostname) (positive : 0 < limits.max_bytes)
    (redirects : 0 ≤ limits.max_redirects) (fuel : Nat)
    (enough : limits.max_bytes + limits.max_redirects < fuel) :
    ∃ d, fetch world limits redirect_target_validator sha256 candidate.artifact_url hostname fuel =
        some d ∧
      d.Bounded lib sha256 initial_url_validator redirect_target_validator candidate limits
        world := by
  have start : Followed limits redirect_target_validator hostname [] := ⟨redirects, nofun⟩
  obtain ⟨followed, opened, ends, allowed, answered⟩ :=
    openFrom_ends world candidate.artifact_url fuel start (by simp; omega)
  have requests : candidate.artifact_url :: followed = [] ∨
      ∃ initial hostname others, initial_url_validator candidate = .ok initial ∧
        initial.hostname lib = some hostname ∧
        candidate.artifact_url :: followed = candidate.artifact_url :: others ∧
        Followed limits redirect_target_validator hostname others :=
    .inr ⟨initial, hostname, followed, validated, named, rfl, allowed⟩
  rw [List.length_nil] at ends
  rw [fetch, ends]
  cases opened with
  | error e =>
      refine ⟨_, rfl, requests, nofun, nofun, fun response _ _ => ⟨e.translated, rfl⟩⟩
  | ok response =>
      simp only
      split
      · rename_i e _
        exact ⟨_, rfl, requests, nofun, nofun, fun response _ _ => ⟨e.translated, rfl⟩⟩
      · obtain ⟨file, result, saved, size, whole⟩ := save_ends world response fuel positive
          (by omega)
        rw [saved]
        refine ⟨_, rfl, requests, size, fun digest returned => ?_, fun r answer longer => ?_⟩
        · obtain ⟨hashed, streamed, rfl⟩ := Checks.map_ok.mp (mapError_ok.mp returned)
          exact ⟨hashed, (whole hashed streamed).1, rfl⟩
        · cases answered r answer
          refine error_of_not_ok fun digest returned => ?_
          obtain ⟨hashed, streamed, -⟩ := Checks.map_ok.mp (mapError_ok.mp returned)
          exact (whole hashed streamed).2 longer

end

end PackageRegistry
