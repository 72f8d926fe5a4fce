import PackageRegistry.Builder.Accepted
import PackageRegistry.Registry.Completeness
import PackageRegistry.Promotion.Reviewed

/-! # A digest binds the whole record

What `decode_json` returns survives `canonical_json`, two values with the same canonical
text are the same, and so a digest that a pull request approves stands for one record.
-/

namespace PackageRegistry.Promotion

open Checks
open Builder (Document validate_candidate validate_candidate_ok)
open Json (Plain Same)

variable {lib : Library}

theorem decode_json_ok {t origin : Text} {v : Dict} :
    decode_json lib t origin = .ok v ↔ Json.loads t = some (.obj v) := by
  unfold decode_json
  cases Json.loads t with
  | none => simp
  | some w => cases w <;> simp [invalid]

theorem plain_decoded {t origin : Text} {v : Dict} (read : decode_json lib t origin = .ok v) :
    Plain (.obj v) :=
  Json.plain_loads (decode_json_ok.mp read)

/-- Two different byte strings with one digest -/
def Collision (sha256 : Hash) : Prop := ∃ a b : ByteArray, a ≠ b ∧ sha256 a = sha256 b

theorem encode_injective {s t : Text} {bytes : ByteArray} (first : Text.encode s = some bytes)
    (second : Text.encode t = some bytes) : s = t := by
  have read := Text.decode_encode first
  rw [Text.decode_encode second] at read
  exact (Option.some.inj read).symm

/-- Without a collision a digest belongs to one record. -/
theorem same_of_digest {sha256 : Hash} {v w : Dict} {digest : Text} (plain : Plain (.obj v))
    (plain' : Plain (.obj w)) (first : candidate_digest sha256 v = some digest)
    (second : candidate_digest sha256 w = some digest) :
    Same (.obj v) (.obj w) ∨ Collision sha256 := by
  obtain ⟨a, written, rfl⟩ := Option.map_eq_some_iff.mp first
  obtain ⟨b, written', hashed⟩ := Option.map_eq_some_iff.mp second
  by_cases same : a = b
  · subst same
    exact .inl ((Json.canonical_json_iff plain plain').mp (encode_injective written written'))
  · exact .inr ⟨a, b, same, hashed.symm⟩

/-! ## The approved record -/

variable {config : Document} {environment_policy : Dict} {api : Text → Approving Json}

theorem mapError_ok {ε ε' α : Type} {f : ε → ε'} {x : Except ε α} {a : α} :
    x.mapError f = .ok a ↔ x = .ok a := by
  cases x <;> simp [Except.mapError]

theorem loadAt_plain {path ref : Text} {v : Dict}
    (read : loadAt lib config environment_policy api path ref = .ok v) : Plain (.obj v) := by
  unfold loadAt at read
  simp only [bind_ok] at read
  obtain ⟨content, -, encoding, -, read⟩ := read
  split at read
  · cases read
  · obtain ⟨body, -, read⟩ := bind_ok.mp read
    split at read
    · split at read
      · cases read
      · obtain ⟨document, decoded, validated⟩ := bind_ok.mp read
        rw [mapError_ok] at decoded validated
        rw [(validate_candidate_ok.mp validated).1]
        exact plain_decoded decoded
    · cases read

theorem checkDigests_ok {sha256 : Hash} {expected : Text} {values : List Dict} :
    checkDigests sha256 expected values = .ok () ↔
      ∀ v ∈ values, candidate_digest sha256 v = some expected := by
  induction values with
  | nil => simp [checkDigests]
  | cons v rest ih =>
      rw [checkDigests, List.forall_mem_cons, ← ih]
      cases candidate_digest sha256 v with
      | none => simp
      | some digest =>
          simp only [guard_ok error_ok, disapprove, not_not, Option.some.injEq]

/-- What `load` returns is the record of the reviewed commit, of the merge commit and of the
    main branch, which all have the approved digest. -/
structure Approved (lib : Library) (config : Document) (environment_policy : Dict)
    (api : Text → Approving Json) (sha256 : Hash) (expected : Text)
    (reviewed : ReviewedCandidate) (value : Dict) : Prop where
  canonical : reviewed.canonical = Json.canonical_json (.obj value)
  digest : candidate_digest sha256 value = some expected
  plain : Plain (.obj value)
  current : ∃ path v, loadAt lib config environment_policy api path (text "main") = .ok v ∧
    candidate_digest sha256 v = some expected

theorem load_ok {sha256 : Hash} {module_id version expected : Text} {approval_pr : Int}
    {reviewed : ReviewedCandidate}
    (loaded : load lib config environment_policy api sha256 module_id version approval_pr expected =
      .ok reviewed) :
    ∃ value, Approved lib config environment_policy api sha256 expected reviewed value := by
  unfold load at loaded
  simp only [bind_ok, guard_ok error_ok, disapprove, Except.ok.injEq] at loaded
  obtain ⟨_, -, _, -, -, pr, -, merged, -, -, head, -, sha, -, merge_sha, -, commit, -, merge, -,
    files, -, _, -, value, first, merged, -, current, third, _, digests, -, _, -, merged_by, -,
    login, -, built⟩ := loaded
  have each := checkDigests_ok.mp digests
  refine ⟨value, ?_, each value (by simp), loadAt_plain first, _, current, third,
    each current (by simp)⟩
  rw [← built]

/-- A record, and the same one with its keys in another order and another literal for a float -/
def written : Text := text "\x7b\"b\": 1.50, \"a\": 1\x7d"

def rewritten : Text := text "\x7b\"a\": 1, \"b\": 15e-1\x7d"

end PackageRegistry.Promotion
