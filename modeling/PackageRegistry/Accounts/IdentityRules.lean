import PackageRegistry.Accounts.MfaRules
import PackageRegistry.Accounts.OAuth
import PackageRegistry.Lib.Evolution

/-! # What becomes of the accounts of other providers

An account never changes its user or its identity. It is added only under a lock on its
identity in the unique index, and every call has an effect on accounts and users that its
result tells.
-/

namespace PackageRegistry.Accounts

open Transactions Relational
open PackageRegistry.Auth (UserId Time AuthError)

/-- A provider, and the subject that it knows its user by -/
abbrev ProviderIdentity := Text × Text

def UserOAuthAccount.identity (account : UserOAuthAccount) : ProviderIdentity :=
  (account.provider, account.provider_subject)

/-- What never changes of an account -/
abbrev Title := UserId × ProviderIdentity

def UserOAuthAccount.title (account : UserOAuthAccount) : Title := (account.user_id, account.identity)

/-- The identity that is looked up -/
def OAuthIdentity.key (env : Environment) (identity : OAuthIdentity) : ProviderIdentity :=
  (normalize_provider env (normalize_provider env identity.provider), identity.subject)

/-- The names of the two providers are in small letters. -/
structure Lowers (env : Environment) : Prop where
  github : env.str_lower (text "github") = text "github"
  google : env.str_lower (text "google") = text "google"

/-- The name of a provider that has an account is in its normal form. -/
theorem Lowers.normal {env : Environment} (h : Lowers env) {provider : Text}
    (known : normalize_provider env provider = text "github" ∨
      normalize_provider env provider = text "google") :
    normalize_provider env (normalize_provider env provider) = normalize_provider env provider := by
  rcases known with github | google
  · rw [github]
    exact h.github
  · rw [google]
    exact h.google

/-- The user has an account with this identity. -/
def Owner (db : Db) (i : ProviderIdentity) (u : UserId) : Prop :=
  ∃ key account, db.row .user_oauth_accounts key = some account ∧ account.title = (u, i)

/-! ## Effects -/

/-- What a transaction may do to accounts and users -/
structure Effect where
  opens : Text → Title → Prop
  closes : Title → Prop
  touches : UserId → Prop
  creates : UserId → Prop

namespace Effect

/-- No account is added or removed, and no user is changed. -/
def none : Effect := ⟨fun _ _ => False, fun _ => False, fun _ => False, fun _ => False⟩

def Within (a b : Effect) : Prop :=
  (∀ key title, a.opens key title → b.opens key title) ∧ (∀ title, a.closes title → b.closes title) ∧
    (∀ u, a.touches u → b.touches u) ∧ ∀ u, a.creates u → b.creates u

end Effect

/-- What may become of a row. Accounts keep their titles, but for the ones that are opened or
    closed. -/
def titlesRel (effect : Effect) : (T : TableName) → Text → Option (Row T) → Option (Row T) → Prop
  | .user_oauth_accounts, key, old, new =>
      (∀ account, old = some account →
        (∃ account', new = some account' ∧ account'.title = account.title) ∨ effect.closes account.title) ∧
      ∀ account', new = some account' →
        (∃ account, old = some account ∧ account.title = account'.title) ∨ effect.opens key account'.title
  | .users, key, old, new =>
      (new = old ∨ effect.touches key) ∧ (old = none → new = none ∨ effect.creates key)
  | _, _, _, _ => True

def titles (effect : Effect) : Evolution Row where
  rel := titlesRel effect
  refl T key row := by
    cases T with
    | user_oauth_accounts => exact ⟨fun account here => .inl ⟨account, here, rfl⟩,
        fun account here => .inl ⟨account, here, rfl⟩⟩
    | users => exact ⟨.inl rfl, .inl⟩
    | _ => trivial
  trans {T key a b c} first second := by
    cases T with
    | user_oauth_accounts =>
        refine ⟨fun account here => ?_, fun account'' there => ?_⟩
        · rcases first.1 account here with ⟨account', between, same⟩ | closed
          · rcases second.1 account' between with ⟨account'', there, same'⟩ | closed
            · exact .inl ⟨account'', there, same'.trans same⟩
            · exact .inr (same ▸ closed)
          · exact .inr closed
        · rcases second.2 account'' there with ⟨account', between, same'⟩ | opened
          · rcases first.2 account' between with ⟨account, here, same⟩ | opened
            · exact .inl ⟨account, here, same.trans same'⟩
            · exact .inr (same' ▸ opened)
          · exact .inr opened
    | users =>
        refine ⟨?_, fun free => ?_⟩
        · rcases first.1, second.1 with ⟨rfl | touched, rfl | touched'⟩
          · exact .inl rfl
          · exact .inr touched'
          · exact .inr touched
          · exact .inr touched'
        · rcases first.2 free with gone | created
          · exact second.2 gone
          · exact .inr created
    | _ => trivial

section

variable {effect wider : Effect} {fin : Db} {pending : List (Write Row)} {key : Text}

theorem titles_mono (within : effect.Within wider) {T : TableName} {old new : Option (Row T)}
    (h : (titles effect).rel T key old new) : (titles wider).rel T key old new := by
  cases T with
  | user_oauth_accounts =>
      exact ⟨fun account was => (h.1 account was).imp_right (within.2.1 _),
        fun account is => (h.2 account is).imp_right (within.1 _ _)⟩
  | users => exact ⟨h.1.imp_right (within.2.2.1 _), fun free => (h.2 free).imp_right (within.2.2.2 _)⟩
  | _ => trivial

theorem across_mono {a b : Db} (within : effect.Within wider) (h : (titles effect).Across a b) :
    (titles wider).Across a b := h.mono fun _ _ _ _ => titles_mono within

theorem titles_user {u : UserId} {g : User → User} (touches : effect.touches u) :
    (titles effect).Keeps ⟨.users, u, .update g⟩ :=
  Evolution.keeps_update fun _ => ⟨.inr touches, fun there => by cases there⟩

theorem titles_account {g : UserOAuthAccount → UserOAuthAccount}
    (same : ∀ account, (g account).title = account.title) :
    (titles effect).Keeps ⟨.user_oauth_accounts, key, .update g⟩ := by
  refine Evolution.keeps_update fun account => ⟨fun row here => .inl ?_, fun row' here => .inl ?_⟩
  · obtain rfl := Option.some.inj here
    exact ⟨g account, rfl, same account⟩
  · obtain rfl := Option.some.inj here
    exact ⟨account, rfl, (same account).symm⟩

theorem titles_opened {account : UserOAuthAccount} (opens : effect.opens key account.title) :
    (titles effect).rel .user_oauth_accounts key none (some account) := by
  refine ⟨fun account here => ?_, fun account' here => .inr ?_⟩
  · cases here
  · obtain rfl := Option.some.inj here
    exact opens

theorem titles_closed {account : UserOAuthAccount} (closes : effect.closes account.title) :
    (titles effect).rel .user_oauth_accounts key (some account) none := by
  refine ⟨fun account' here => .inr ?_, fun account' here => ?_⟩
  · obtain rfl := Option.some.inj here
    exact closes
  · cases here

theorem titles_audit {change : Change AuthAuditLog} :
    (titles effect).Keeps ⟨.auth_audit_logs, key, change⟩ := fun _ => trivial

end

/-! ## What the ids of accounts stand for -/

/-- The accounts are the ones that their ids stand for. -/
def Conforms (stands : Text → Title → Prop) (db : Db) : Prop :=
  ∀ key account, db.row .user_oauth_accounts key = some account → stands key account.title

/-- An id stands for one account at most. -/
def Unambiguous (stands : Text → Title → Prop) : Prop :=
  ∀ key t t', stands key t → stands key t' → t = t'

/-- What conforms in the end has conformed before. -/
def conforming (stands : Text → Title → Prop) : Restraint Db where
  allows a b := Conforms stands b → Conforms stands a
  refl _ conforms := conforms
  trans first second conforms := first (second conforms)

/-- An account needs the entry of its identity in the unique index. -/
def identityNeeds : Needed
  | .user_oauth_accounts, account, r, m =>
      r = .index (.user_oauth_accounts_identity account.provider account.provider_subject) ∧ m = .update
  | _, _, _, _ => False

end PackageRegistry.Accounts
