import PackageRegistry.Accounts.Mfa
import PackageRegistry.Accounts.Rules

/-! # Rules for the steps of the MFA service

What the helpers of `mfa_service` have found when the call goes on.
-/

namespace PackageRegistry.Accounts

open Transactions Relational
open PackageRegistry.Auth (UserId Time AuthError)

/-- The code is right for the secret at this time, and `counter` is its time step. -/
def ValidCode (env : Environment) (secret code : Text) (now : Time) (counter : Int) : Prop :=
  code.length = 6 ∧ env.isdigit code = true ∧ code.all CodePoint.isAscii = true ∧
    matchingCounter env secret code now = some counter

/-- Users who are gone do not come back. -/
def noNewUsers : Restraint Db where
  allows a b := ∀ id, a.row .users id = none → b.row .users id = none
  refl _ _ gone := gone
  trans first second id gone := second id (first id gone)

section

variable {α : Type} {needs : Needed} {extra : Restraint Db} {post : Ending α} {fin : Db}
  {pending : List (Write Row)} {held : Held Lock} {env : Environment}

/-- A user who has been loaded is there, or has been. -/
theorem signedIn_ends {user_id : UserId} {request : User → Program α}
    (refused : ∀ failure, post (.error failure) fin pending held)
    (rest : ∀ user, Closing needs extra post (request user) fin pending held) :
    Closing needs extra post (signedIn user_id request) fin pending held := by
  refine get_ends fun db _ => ?_
  split
  · exact refused _
  · split
    · exact rest _
    · exact refused _

/-- `_matching_counter` answers with the time step of a valid code, or with nothing. -/
theorem matching_counter_ends {secret code : Text} {now : Time} {f : Option Int → Program α}
    (refused : ∀ failure, post (.error failure) fin pending held)
    (wrong : Closing needs extra post (f none) fin pending held)
    (right : ∀ counter, ValidCode env secret code now counter →
      Closing needs extra post (f (some counter)) fin pending held) :
    Closing needs extra post ((_matching_counter env secret code now).bind f) fin pending held := by
  unfold _matching_counter
  split
  · exact wrong
  · rename_i digits
    obtain ⟨six, digits⟩ : code.length = 6 ∧ env.isdigit code = true := by simpa using digits
    split
    · rename_i ascii
      cases found : matchingCounter env secret code now with
      | none => exact wrong
      | some counter => exact right counter ⟨six, digits, ascii, found⟩
    · exact refused _

theorem secret_decrypt_ends {ciphertext : Text} {f : Text → Program α}
    (refused : ∀ failure, post (.error failure) fin pending held)
    (rest : ∀ secret, env.decrypt_mfa_secret ciphertext = some secret →
      Closing needs extra post (f secret) fin pending held) :
    Closing needs extra post ((_secret_decrypt env ciphertext).bind f) fin pending held := by
  unfold _secret_decrypt
  split
  · exact rest _ ‹_›
  · exact refused _

/-- What a factor that is used up leaves behind: a later time step, or a recovery code that
    was unused until now. -/
theorem consume_factor_ends {method_id : Text} {method : UserMfaMethod}
    {code recovery_code : Option Text} {clock : Clock} {f : Option Consumed → Program α}
    (refused : ∀ failure pending held, post (.error failure) fin pending held)
    (wrong : ∀ held', (∀ l ∈ held, l ∈ held') → Closing needs extra post (f none) fin pending held')
    (totp : ∀ counter, (∀ last, method.last_used_counter = some last → last < counter) →
      Closing needs extra post (f (some (.totp counter))) fin
        (pending ++ [⟨.user_mfa_methods, method_id, .update (·.use counter (clock 1))⟩])
        ((.row .user_mfa_methods method_id, .noKeyUpdate) :: held))
    (recovery : ∀ code_id row held', (∀ l ∈ held, l ∈ held') →
      rowAfter pending .user_mfa_recovery_codes code_id (fin.row .user_mfa_recovery_codes code_id) =
        some row → row.used_at = none →
      (.row .user_mfa_recovery_codes code_id, .noKeyUpdate) ∈ held' →
      (.row .user_mfa_methods method_id, .noKeyUpdate) ∈ held' →
      Closing needs extra post (f (some (.recovery code_id))) fin
        (pending ++ [⟨.user_mfa_recovery_codes, code_id, .update ({ · with used_at := some (clock 1) })⟩,
          ⟨.user_mfa_methods, method_id, .update ({ · with last_used_at := some (clock 1) })⟩]) held') :
    Closing needs extra post
      ((_consume_factor env method_id method code recovery_code clock).bind f) fin pending held := by
  unfold _consume_factor
  split
  · simp only [Tx.bind_eq, Tx.bind_assoc]
    refine secret_decrypt_ends (fun _ => refused _ _ _) fun secret _ => ?_
    refine matching_counter_ends (fun _ => refused _ _ _) (wrong held fun _ mem => mem)
      fun counter _ => ?_
    dsimp only
    split
    · exact wrong held fun _ mem => mem
    · rename_i later
      rw [Tx.bind_assoc]
      refine update_ends refused fun _ _ => totp counter fun last same => ?_
      simpa [same] using later
  · split
    · exact refused _ _ _
    · simp only [Tx.bind_eq, Tx.bind_assoc]
      refine findForUpdate_either wrong fun code_id row here matches_ => ?_
      simp only [Tx.bind_assoc]
      refine update_ends refused fun _ _ => update_ends refused fun _ _ => ?_
      rw [List.append_assoc]
      have unused : row.used_at = none := by
        simp only [Bool.and_eq_true, Option.isNone_iff_eq_none] at matches_
        exact matches_.2
      exact recovery code_id row _ (fun l mem => by simp [mem]) here unused (by simp) (by simp)

end

end PackageRegistry.Accounts
