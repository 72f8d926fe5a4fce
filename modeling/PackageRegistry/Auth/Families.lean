import Mathlib.Data.List.Chain
import PackageRegistry.Auth.Sessions

/-! # Families of sessions

The table of sessions, seen through its keys, and the turns it can take: live sessions
are revoked, a live session is replaced by its successor, or a new family begins. Every
family is a chain of sessions in which all but the last have been replaced, so at most
the last one is alive.
-/

namespace PackageRegistry.Auth

/-- The rows of `user_sessions` by `jti` -/
abbrev Rows := Text → Option UserSession

def Db.sessionAt (db : Db) : Rows := fun jti => db.user_sessions[jti]?

/-- A session as `create_session_record` makes it -/
structure UserSession.IsNew (record : UserSession) : Prop where
  alive : record.revoked_at = none
  unrotated : record.rotated_at = none
  last : record.replaced_by_jti = none

/-- What a commit does to the sessions. `presented` is the session whose token the call
    presents, `family` the family that it starts. -/
inductive Turn (presented : Option Text) (family : Option FamilyId) (before after : Rows) : Prop
  | revoke (rows : ∀ jti, after jti = before jti ∨ ∃ r revoked_at reason, before jti = some r ∧
      r.revoked_at = none ∧ after jti = some (r.revoke revoked_at reason))
  | rotate (parent child : Text) (old record : UserSession) (now : Time)
      (of_presented : presented = some parent) (here : before parent = some old)
      (alive : old.revoked_at = none) (free : before child = none)
      (same_user : record.user_id = old.user_id) (same_family : record.family_id = old.family_id)
      (new : record.IsNew)
      (rows : ∀ jti, after jti = if jti = child then some record
        else if jti = parent then some (old.rotate now child) else before jti)
  | issue (jti : Text) (record : UserSession) (of_family : family = some record.family_id)
      (free : before jti = none) (new : record.IsNew)
      (rows : ∀ key, after key = if key = jti then some record else before key)

/-- A revoked session is final, and a live one keeps its user and family. -/
structure Later (old new : UserSession) : Prop where
  user : new.user_id = old.user_id
  family : new.family_id = old.family_id
  final : old.revoked_at ≠ none → new = old

theorem Later.refl (r : UserSession) : Later r r := ⟨rfl, rfl, fun _ => rfl⟩

theorem Later.trans {a b c : UserSession} (first : Later a b) (second : Later b c) : Later a c where
  user := second.user.trans first.user
  family := second.family.trans first.family
  final revoked := by
    have same := first.final revoked
    subst same
    exact second.final revoked

/-- Sessions are never removed, and revoked ones never change. -/
def Grows (before after : Rows) : Prop :=
  ∀ jti r, before jti = some r → ∃ r', after jti = some r' ∧ Later r r'

theorem Grows.refl (rows : Rows) : Grows rows rows := fun _ r h => ⟨r, h, .refl r⟩

theorem Grows.trans {a b c : Rows} (first : Grows a b) (second : Grows b c) : Grows a c := by
  intro jti r here
  obtain ⟨r', there, once⟩ := first jti r here
  obtain ⟨r'', later, twice⟩ := second jti r' there
  exact ⟨r'', later, once.trans twice⟩

section

variable {presented : Option Text} {family : Option FamilyId} {before after : Rows}

theorem Turn.grows (turn : Turn presented family before after) : Grows before after := by
  intro jti r here
  cases turn with
  | revoke rows =>
      rcases rows jti with same | ⟨r', revoked_at, reason, here', alive, there⟩
      · exact ⟨r, same.trans here, .refl r⟩
      · obtain rfl : r = r' := Option.some.inj (here.symm.trans here')
        exact ⟨_, there, rfl, rfl, fun revoked => absurd alive revoked⟩
  | rotate parent child old record now _ here' alive free _ _ _ rows =>
      have notChild : jti ≠ child := by
        rintro rfl
        rw [free] at here
        cases here
      rw [rows jti, if_neg notChild]
      split
      · rename_i same
        obtain rfl : r = old := Option.some.inj (here.symm.trans (same ▸ here'))
        exact ⟨_, rfl, rfl, rfl, fun revoked => absurd alive revoked⟩
      · exact ⟨r, here, .refl r⟩
  | issue key record _ free _ rows =>
      have other : jti ≠ key := by
        rintro rfl
        rw [free] at here
        cases here
      exact ⟨r, by rw [rows jti, if_neg other, here], .refl r⟩

/-- A session that was not there belongs to the family of the presented session or to
    the family that the call starts. -/
theorem Turn.new_row (turn : Turn presented family before after) {jti : Text} {r : UserSession}
    (absent : before jti = none) (there : after jti = some r) :
    (∃ parent old, presented = some parent ∧ before parent = some old ∧ old.revoked_at = none ∧
      r.user_id = old.user_id ∧ r.family_id = old.family_id) ∨ family = some r.family_id := by
  cases turn with
  | revoke rows =>
      rcases rows jti with same | ⟨_, _, _, here, _⟩
      · rw [same, absent] at there
        cases there
      · rw [absent] at here
        cases here
  | rotate parent child old record now of_presented here alive _ same_user same_family _ rows =>
      rw [rows jti] at there
      split at there
      · obtain rfl := Option.some.inj there
        exact .inl ⟨parent, old, of_presented, here, alive, same_user, same_family⟩
      · split at there
        · rename_i same
          rw [same, here] at absent
          cases absent
        · rw [absent] at there
          cases there
  | issue key record of_family _ _ rows =>
      rw [rows jti] at there
      split at there
      · obtain rfl := Option.some.inj there
        exact .inr of_family
      · rw [absent] at there
        cases there

end

/-! ## Chains -/

/-- One session replaced by the next one, for the same user -/
def Replaced (rows : Rows) (jti next : Text) : Prop :=
  ∃ r r', rows jti = some r ∧ rows next = some r' ∧ r.replaced_by_jti = some next ∧
    r.revoked_at ≠ none ∧ r'.user_id = r.user_id

/-- The sessions of a family from the first to the last -/
structure IsChain (rows : Rows) (family : FamilyId) (chain : List Text) : Prop where
  nodup : chain.Nodup
  members : ∀ jti, jti ∈ chain ↔ ∃ r, rows jti = some r ∧ r.family_id = family
  linked : chain.IsChain (Replaced rows)
  ends : ∀ jti ∈ chain.getLast?, ∃ r, rows jti = some r ∧ r.replaced_by_jti = none

/-- Every family is a chain. -/
def Chained (rows : Rows) : Prop := ∀ family, ∃ chain, IsChain rows family chain

theorem Replaced.grows {before after : Rows} (grows : Grows before after) {jti next : Text}
    (h : Replaced before jti next) : Replaced after jti next := by
  obtain ⟨r, r', here, there, replaced, revoked, user⟩ := h
  obtain ⟨s, here', later⟩ := grows jti r here
  obtain ⟨s', there', later'⟩ := grows next r' there
  obtain rfl := later.final revoked
  exact ⟨s, s', here', there', replaced, revoked, later'.user.trans user⟩

/-- A live session of a chain is its last one. -/
theorem IsChain.live_last {rows : Rows} {family : FamilyId} {chain : List Text}
    (h : IsChain rows family chain) {jti : Text} {r : UserSession} (mem : jti ∈ chain)
    (here : rows jti = some r) (alive : r.revoked_at = none) : ∃ front, chain = front ++ [jti] := by
  obtain ⟨front, back, rfl⟩ := List.append_of_mem mem
  cases back with
  | nil => exact ⟨front, rfl⟩
  | cons next rest =>
      obtain ⟨s, -, here', -, -, revoked, -⟩ := (List.isChain_append_cons_cons.mp h.linked).2.1
      rw [here] at here'
      exact absurd (Option.some.inj here' ▸ alive) revoked

/-- At most one session of a family is alive. -/
theorem Chained.one_alive {rows : Rows} (h : Chained rows) {jti jti' : Text} {r r' : UserSession}
    (here : rows jti = some r) (here' : rows jti' = some r') (same : r.family_id = r'.family_id)
    (alive : r.revoked_at = none) (alive' : r'.revoked_at = none) : jti = jti' := by
  obtain ⟨chain, isChain⟩ := h r'.family_id
  obtain ⟨front, split⟩ := isChain.live_last ((isChain.members jti).mpr ⟨r, here, same⟩) here alive
  obtain ⟨front', split'⟩ := isChain.live_last ((isChain.members jti').mpr ⟨r', here', rfl⟩) here' alive'
  rw [split] at split'
  simpa using (List.append_inj_right' split' rfl)

section

variable {presented : Option Text} {family : Option FamilyId} {before after : Rows}

/-- A family that gets no new session keeps its chain, if its last session is not replaced. -/
theorem IsChain.kept {name : FamilyId} {chain : List Text} (h : IsChain before name chain)
    (grows : Grows before after)
    (no_new : ∀ jti r, before jti = none → after jti = some r → r.family_id ≠ name)
    (unreplaced : ∀ jti r r', before jti = some r → after jti = some r' → r.family_id = name →
      r.replaced_by_jti = none → r'.replaced_by_jti = none) : IsChain after name chain where
  nodup := h.nodup
  members jti := by
    rw [h.members]
    constructor
    · rintro ⟨r, here, named⟩
      obtain ⟨r', there, later⟩ := grows jti r here
      exact ⟨r', there, later.family.trans named⟩
    · rintro ⟨r', there, named⟩
      cases here : before jti with
      | none => exact absurd named (no_new jti r' here there)
      | some r =>
          obtain ⟨r'', there', later⟩ := grows jti r here
          obtain rfl : r' = r'' := Option.some.inj (there.symm.trans there')
          exact ⟨r, rfl, later.family.symm.trans named⟩
  linked := h.linked.imp fun _ _ => Replaced.grows grows
  ends jti isLast := by
    obtain ⟨r, here, last⟩ := h.ends jti isLast
    obtain ⟨r', there, -⟩ := grows jti r here
    obtain ⟨s, here', named⟩ := (h.members jti).mp (List.mem_of_getLast? isLast)
    obtain rfl : r = s := Option.some.inj (here.symm.trans here')
    exact ⟨r', there, unreplaced jti r r' here there named last⟩

/-- The successor of the last session is appended to the chain of its family. -/
theorem IsChain.extend {name : FamilyId} {front : List Text} {parent child : Text}
    {record replaced : UserSession} (h : IsChain before name (front ++ [parent]))
    (grows : Grows before after) (free : before child = none)
    (parentRow : after parent = some replaced) (next : replaced.replaced_by_jti = some child)
    (revoked : replaced.revoked_at ≠ none) (childRow : after child = some record)
    (same_user : record.user_id = replaced.user_id) (same_family : record.family_id = name)
    (last : record.replaced_by_jti = none)
    (no_other : ∀ jti r, jti ≠ child → before jti = none → after jti ≠ some r) :
    IsChain after name ((front ++ [parent]) ++ [child]) where
  nodup := by
    refine List.nodup_append.mpr ⟨h.nodup, by simp, ?_⟩
    intro jti mem jti' single same
    obtain ⟨r, here, -⟩ := (h.members jti).mp mem
    rw [same, List.mem_singleton.mp single, free] at here
    cases here
  members jti := by
    rw [List.mem_append, h.members, List.mem_singleton]
    constructor
    · rintro (⟨r, here, named⟩ | rfl)
      · obtain ⟨r', there, later⟩ := grows jti r here
        exact ⟨r', there, later.family.trans named⟩
      · exact ⟨record, childRow, same_family⟩
    · rintro ⟨r', there, named⟩
      by_cases isChild : jti = child
      · exact .inr isChild
      · cases here : before jti with
        | none => exact absurd there (no_other jti r' isChild here)
        | some r =>
            obtain ⟨r'', there', later⟩ := grows jti r here
            obtain rfl : r' = r'' := Option.some.inj (there.symm.trans there')
            exact .inl ⟨r, rfl, later.family.symm.trans named⟩
  linked := by
    rw [List.append_assoc]
    refine List.isChain_append_cons_cons.mpr ⟨?_, ?_, List.isChain_singleton child⟩
    · exact h.linked.imp fun _ _ => Replaced.grows grows
    · exact ⟨replaced, record, parentRow, childRow, next, revoked, same_user⟩
  ends jti isLast := by
    rw [List.getLast?_concat, Option.mem_some_iff] at isLast
    exact ⟨record, isLast ▸ childRow, last⟩

/-- A family begins with one session. -/
theorem IsChain.begin {name : FamilyId} {jti : Text} {record : UserSession}
    (row : after jti = some record) (named : record.family_id = name)
    (last : record.replaced_by_jti = none)
    (only : ∀ jti' r, jti' ≠ jti → after jti' = some r → r.family_id ≠ name) :
    IsChain after name [jti] where
  nodup := by simp
  members jti' := by
    rw [List.mem_singleton]
    constructor
    · rintro rfl
      exact ⟨record, row, named⟩
    · rintro ⟨r, there, named'⟩
      by_cases same : jti' = jti
      · exact same
      · exact absurd named' (only jti' r same there)
  linked := List.isChain_singleton jti
  ends jti' isLast := by
    have same : jti = jti' := by simpa using isLast
    exact ⟨record, same ▸ row, last⟩

theorem Chained.revoke (h : Chained before)
    (rows : ∀ jti, after jti = before jti ∨ ∃ r revoked_at reason, before jti = some r ∧
      r.revoked_at = none ∧ after jti = some (r.revoke revoked_at reason)) : Chained after := by
  intro name
  obtain ⟨chain, isChain⟩ := h name
  have turn : Turn none none before after := .revoke rows
  refine ⟨chain, isChain.kept turn.grows (fun jti r absent there => ?_) ?_⟩
  · rcases turn.new_row absent there with ⟨_, _, impossible, _⟩ | impossible <;> cases impossible
  · intro jti r r' here there _ last
    rcases rows jti with same | ⟨s, _, _, here', _, there'⟩
    · obtain rfl : r = r' := Option.some.inj (here.symm.trans (same.symm.trans there))
      exact last
    · obtain rfl : r = s := Option.some.inj (here.symm.trans here')
      obtain rfl := Option.some.inj (there.symm.trans there')
      exact last

theorem Chained.rotate (h : Chained before) {parent child : Text} {old record : UserSession}
    {now : Time} (here : before parent = some old) (alive : old.revoked_at = none)
    (free : before child = none) (same_user : record.user_id = old.user_id)
    (same_family : record.family_id = old.family_id) (new : record.IsNew)
    (rows : ∀ jti, after jti = if jti = child then some record
      else if jti = parent then some (old.rotate now child) else before jti) : Chained after := by
  intro name
  obtain ⟨chain, isChain⟩ := h name
  have turn : Turn (some parent) none before after :=
    .rotate parent child old record now rfl here alive free same_user same_family new rows
  have grows := turn.grows
  have notChild : parent ≠ child := by
    rintro rfl
    rw [free] at here
    cases here
  have childRow : after child = some record := by rw [rows child, if_pos rfl]
  have parentRow : after parent = some (old.rotate now child) := by
    rw [rows parent, if_neg notChild, if_pos rfl]
  have elsewhere : ∀ jti, jti ≠ child → jti ≠ parent → after jti = before jti := by
    intro jti notC notP
    rw [rows jti, if_neg notC, if_neg notP]
  have no_other : ∀ jti r, jti ≠ child → before jti = none → after jti ≠ some r := by
    intro jti r notC absent
    have notP : jti ≠ parent := by
      rintro rfl
      rw [here] at absent
      cases absent
    simp [elsewhere jti notC notP, absent]
  by_cases named : old.family_id = name
  · obtain ⟨front, rfl⟩ := isChain.live_last ((isChain.members parent).mpr ⟨old, here, named⟩)
      here alive
    exact ⟨_, isChain.extend grows free parentRow rfl nofun childRow same_user
      (same_family.trans named) new.last no_other⟩
  · refine ⟨chain, isChain.kept grows (fun jti r absent there => ?_) ?_⟩
    · by_cases isChild : jti = child
      · obtain rfl : record = r := Option.some.inj (childRow.symm.trans (isChild ▸ there))
        exact fun same => named (same_family.symm.trans same)
      · exact absurd there (no_other jti r isChild absent)
    · intro jti r r' here' there named' last
      have notC : jti ≠ child := by
        rintro rfl
        rw [free] at here'
        cases here'
      have notP : jti ≠ parent := by
        rintro rfl
        obtain rfl : r = old := Option.some.inj (here'.symm.trans here)
        exact named named'
      rw [elsewhere jti notC notP, here'] at there
      exact Option.some.inj there ▸ last

theorem Chained.issue (h : Chained before) {key : Text} {record : UserSession}
    (new_family : ∀ jti r, before jti = some r → r.family_id ≠ record.family_id)
    (free : before key = none) (new : record.IsNew)
    (rows : ∀ jti, after jti = if jti = key then some record else before jti) : Chained after := by
  intro name
  have keyRow : after key = some record := by rw [rows key, if_pos rfl]
  have elsewhere : ∀ jti, jti ≠ key → after jti = before jti := fun jti other => by
    rw [rows jti, if_neg other]
  by_cases named : record.family_id = name
  · refine ⟨[key], .begin keyRow named new.last fun jti r other there => ?_⟩
    exact named ▸ new_family jti r ((elsewhere jti other).symm.trans there)
  · obtain ⟨chain, isChain⟩ := h name
    have turn : Turn none (some record.family_id) before after := .issue key record rfl free new rows
    have grows := turn.grows
    refine ⟨chain, isChain.kept grows (fun jti r absent there => ?_) ?_⟩
    · by_cases isKey : jti = key
      · obtain rfl : record = r := Option.some.inj (keyRow.symm.trans (isKey ▸ there))
        exact named
      · rw [elsewhere jti isKey, absent] at there
        cases there
    · intro jti r r' here there _ last
      have other : jti ≠ key := by
        rintro rfl
        rw [free] at here
        cases here
      rw [elsewhere jti other, here] at there
      exact Option.some.inj there ▸ last

/-- Every turn keeps every family a chain, as long as a family that begins is new. -/
theorem Chained.turn (h : Chained before) (turn : Turn presented family before after)
    (new_family : ∀ name, family = some name → ∀ jti r, before jti = some r → r.family_id ≠ name) :
    Chained after := by
  cases turn with
  | revoke rows => exact h.revoke rows
  | rotate _ _ _ _ _ _ here alive free same_user same_family new rows =>
      exact h.rotate here alive free same_user same_family new rows
  | issue _ _ of_family free new rows => exact h.issue (new_family _ of_family) free new rows

end

end PackageRegistry.Auth
