/-
# Tokens and roles

`crates/server/src/auth.rs`: a request carries a bearer token, the token set
gives it the highest role it is known for, and a route asks for a role. The
privileged routes ask for the admin token once more in their body.

Key definitions: `Role`, `TokenSet.roleFor`, `TokenSet.authorize`,
`TokenSet.privileged`.
Key theorem: `TokenSet.privileged_ok`.
-/
import Mathlib.Order.Defs.LinearOrder
import Mathlib.Tactic.Common

namespace Sherwood

/-- Access level, in increasing order. -/
inductive Role where
  | viewer
  | operator
  | admin
  deriving DecidableEq, Repr

/-- The place of a role in the order `Viewer < Operator < Admin`. -/
def Role.rank : Role → ℕ
  | .viewer => 0
  | .operator => 1
  | .admin => 2

/-- `Role`'s `Debug`. -/
def Role.name : Role → String
  | .viewer => "Viewer"
  | .operator => "Operator"
  | .admin => "Admin"

/-- The errors of the API. -/
inductive ApiError where
  | unauthorized
  | forbidden (message : String)
  | badRequest (message : String)
  | notFound (message : String)
  | unprocessable (message : String)
  deriving DecidableEq, Repr

/-- The configured tokens, one a role. Only the admin's is required. -/
structure TokenSet where
  admin : String
  operator : Option String
  viewer : Option String

namespace TokenSet

/-- `TokenSet::role_for`: the highest role a token grants. -/
def roleFor (t : TokenSet) (presented : String) : Option Role :=
  if t.admin = presented then some .admin
  else if t.operator = some presented then some .operator
  else if t.viewer = some presented then some .viewer
  else none

/-- `TokenSet::is_admin`. -/
def isAdmin (t : TokenSet) (presented : String) : Prop := t.admin = presented

instance (t : TokenSet) (presented : String) : Decidable (t.isAdmin presented) :=
  inferInstanceAs (Decidable (_ = _))

/-- `require_auth` and then `Caller::require`: the role of the bearer token, if
it is at least `needed`. -/
def authorize (t : TokenSet) (bearer : Option String) (needed : Role) : Except ApiError Role :=
  match bearer.bind t.roleFor with
  | none => .error .unauthorized
  | some role =>
    if needed.rank ≤ role.rank then .ok role
    else .error (.forbidden s!"this action needs the `{needed.name}` role")

/-- `check_reauth`. -/
def checkReauth (t : TokenSet) (reauth : String) : Except ApiError Unit :=
  if t.isAdmin reauth then .ok ()
  else .error (.forbidden "re-authentication failed: `reauth` must be the admin token")

/-- A privileged request: the admin's bearer token, and the admin token again. -/
def privileged (t : TokenSet) (bearer : Option String) (reauth : String) : Except ApiError Unit :=
  match t.authorize bearer .admin with
  | .error e => .error e
  | .ok _ => t.checkReauth reauth

theorem roleFor_admin {t : TokenSet} {presented : String} :
    t.roleFor presented = some .admin ↔ t.admin = presented := by
  unfold roleFor
  split_ifs <;> simp_all

theorem authorize_ok {t : TokenSet} {bearer : Option String} {needed role : Role}
    (h : t.authorize bearer needed = .ok role) :
    bearer.bind t.roleFor = some role ∧ needed.rank ≤ role.rank := by
  unfold authorize at h
  cases hrole : bearer.bind t.roleFor with
  | none => simp [hrole] at h
  | some role' =>
    simp only [hrole] at h
    split_ifs at h with hrank
    obtain rfl := Except.ok.inj h
    exact ⟨rfl, hrank⟩

theorem authorize_admin {t : TokenSet} {bearer : Option String} {role : Role}
    (h : t.authorize bearer .admin = .ok role) : bearer = some t.admin := by
  obtain ⟨hrole, hrank⟩ := authorize_ok h
  have hr : role = .admin := by cases role <;> simp [Role.rank] at hrank ⊢
  obtain ⟨presented, rfl, hp⟩ := Option.bind_eq_some_iff.mp hrole
  rw [hr, roleFor_admin] at hp
  rw [hp]

theorem privileged_ok {t : TokenSet} {bearer : Option String} {reauth : String}
    (h : t.privileged bearer reauth = .ok ()) : bearer = some t.admin ∧ reauth = t.admin := by
  unfold privileged at h
  cases hauth : t.authorize bearer .admin with
  | error e => simp [hauth] at h
  | ok role =>
    refine ⟨authorize_admin hauth, ?_⟩
    simp only [hauth, checkReauth, isAdmin] at h
    by_cases hr : t.admin = reauth
    · exact hr.symm
    · simp [hr] at h

end TokenSet

end Sherwood
