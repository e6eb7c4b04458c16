import Gateway.Auth.Jwt
import Gateway.Auth.PortalTokens

/-! `gateway/auth/dependencies.py`: the identity of a caller, built from the
claims of a verified token or from the payload of the portal, and the check for
the role `admin`. -/
namespace Gateway.Auth

open Json

/-- `UserIdentity`. The code checks the type of no field. -/
structure UserIdentity where
  sub : Value
  email : Value
  roles : Value
  isServiceAccount : Bool
  rawClaims : Members

/-- How a dependency ends: it returns, it raises `HTTPException`, or another
exception escapes. -/
inductive Outcome (α : Type*) where
  | ok (a : α)
  | http (statusCode : ℕ)
  | escaped

def Outcome.bind {α β : Type*} (o : Outcome α) (f : α → Outcome β) : Outcome β :=
  match o with
  | .ok a => f a
  | .http statusCode => .http statusCode
  | .escaped => .escaped

/-- `claims.get("realm_access", {}).get("roles", [])`, which needs an object. -/
def realmRoles (claims : Members) : Option Value :=
  match member? claims "realm_access" with
  | none => some (.arr [])
  | some (.obj access) => some ((member? access "roles").getD (.arr []))
  | some _ => none

/-- The roles of a verified token, with their fallback. -/
def claimedRoles (claims : Members) : Option Value :=
  let roles := (member? claims "roles").getD (.arr [])
  if roles.truthy then some roles else realmRoles claims

/-- The end of `_validate_jwt`. -/
def claimsIdentity (claims : Members) : Outcome UserIdentity :=
  match claimedRoles claims, member? claims "sub" with
  | some roles, some sub =>
      .ok
        { sub := sub
          email := (member? claims "email").getD .null
          roles := roles
          isServiceAccount := (member? claims "email").isNone
          rawClaims := claims }
  | _, _ => .escaped

/-- The end of `_validate_portal_token`. -/
def portalIdentity (result : Members) : Outcome UserIdentity :=
  if valid result then
    match member? result "user_id" with
    | some sub =>
        .ok
          { sub := sub
            email := (member? result "email").getD .null
            roles := .arr [(member? result "role").getD (.str "user")]
            isServiceAccount := false
            rawClaims := result }
    | none => .escaped
  else .http 401

/-- `require_admin` -/
def requireAdmin (user : UserIdentity) : Outcome UserIdentity :=
  match user.roles.contains "admin" with
  | some true => .ok user
  | some false => .http 403
  | none => .escaped

section Admin

/-- What a caller proves its identity with. -/
inductive Proven where
  | jwt (claims : Members)
  | portal (result : Members)

def Proven.identity : Proven → Outcome UserIdentity
  | .jwt claims => claimsIdentity claims
  | .portal result => portalIdentity result

/-- `require_admin` lets the caller through. -/
def LetsThrough (proven : Proven) : Prop :=
  ∃ user, proven.identity.bind requireAdmin = .ok user

/-- The role collection as it is meant: `roles`, or `realm_access.roles` when
`roles` is absent or empty, or the one role of the portal. -/
def roleCollection : Proven → Option Value
  | .jwt claims =>
      match (member? claims "roles").filter Value.truthy, member? claims "realm_access" with
      | some roles, _ => some roles
      | none, some (.obj access) => member? access "roles"
      | none, _ => none
  | .portal result => some (.arr [(member? result "role").getD (.str "user")])

/-- The role collection is a list with the element `admin`. -/
def HoldsAdmin (proven : Proven) : Prop :=
  ∃ items, roleCollection proven = some (.arr items) ∧ Value.str "admin" ∈ items

/-- The claims or the payload name the caller. -/
def Named : Proven → Prop
  | .jwt claims => (member? claims "sub").isSome
  | .portal result => valid result = true ∧ (member? result "user_id").isSome

/-- A list with the role `admin` comes with a name, and a named caller's roles
are no text that contains `admin` and no object that has it as a key. -/
def Regular (proven : Proven) : Prop :=
  match roleCollection proven with
  | some (.arr items) => Value.str "admin" ∈ items → Named proven
  | some (.str s) => Named proven → ¬"admin".toList <:+: s.toList
  | some (.obj members) => Named proven → ∀ m ∈ members, m.1 ≠ "admin"
  | _ => True

theorem contains_none (text : String) : (Value.arr []).contains text = some false := rfl

/-- The membership test on the roles of a token is the one on its role collection. -/
theorem contains_claimedRoles (claims : Members) :
    (∃ roles, claimedRoles claims = some roles ∧ roles.contains "admin" = some true) ↔
      ∃ roles, roleCollection (.jwt claims) = some roles ∧ roles.contains "admin" = some true := by
  cases hRoles : (member? claims "roles").filter Value.truthy with
  | some roles =>
      obtain ⟨hMember, hTruthy⟩ := Option.filter_eq_some_iff.mp hRoles
      have hClaimed : claimedRoles claims = some roles := by
        simp [claimedRoles, hMember, hTruthy]
      have hCollection : roleCollection (.jwt claims) = some roles := by
        simp only [roleCollection, hRoles]
      rw [hClaimed, hCollection]
  | none =>
      have hFalsy : ((member? claims "roles").getD (.arr [])).truthy = false := by
        cases hMember : member? claims "roles" with
        | none => rfl
        | some roles =>
            have hNot := Option.filter_eq_none_iff.mp hRoles roles hMember
            simpa using hNot
      have hClaimed : claimedRoles claims = realmRoles claims := by
        simp [claimedRoles, hFalsy]
      rw [hClaimed]
      simp only [realmRoles, roleCollection, hRoles]
      cases hAccess : member? claims "realm_access" with
      | none => simp [contains_none]
      | some value =>
          cases value with
          | obj access =>
              cases hInner : member? access "roles" with
              | none => simp [hInner, contains_none]
              | some roles => simp [hInner]
          | _ => simp

/-- A caller is let through if it is named and passes the membership test. -/
theorem letsThrough_iff (proven : Proven) :
    LetsThrough proven ↔ Named proven ∧
      ∃ roles, roleCollection proven = some roles ∧ roles.contains "admin" = some true := by
  cases proven with
  | jwt claims =>
      rw [← contains_claimedRoles]
      simp only [LetsThrough, Proven.identity, claimsIdentity, Named]
      cases claimedRoles claims with
      | none => simp [Outcome.bind]
      | some roles =>
          cases member? claims "sub" with
          | none => simp [Outcome.bind]
          | some sub =>
              simp only [Outcome.bind, requireAdmin, Option.isSome_some, true_and]
              cases hAdmin : roles.contains "admin" with
              | none => simp [hAdmin]
              | some b => cases b <;> simp [hAdmin]
  | portal result =>
      simp only [LetsThrough, Proven.identity, portalIdentity, Named, roleCollection]
      cases hValid : valid result with
      | false => simp [Outcome.bind]
      | true =>
          cases member? result "user_id" with
          | none => simp [Outcome.bind]
          | some sub =>
              simp only [Outcome.bind, requireAdmin, if_true, Option.isSome_some, true_and]
              cases hAdmin : (Value.arr [(member? result "role").getD (.str "user")]).contains
                  "admin" with
              | none => simp [hAdmin]
              | some b => cases b <;> simp [hAdmin]

/-- Admin access is list membership exactly for regular claims and payloads. -/
theorem admin_is_membership (proven : Proven) :
    (LetsThrough proven ↔ HoldsAdmin proven) ↔ Regular proven := by
  rw [letsThrough_iff]
  unfold HoldsAdmin Regular
  cases roleCollection proven with
  | none => simp
  | some roles =>
      cases roles with
      | arr items =>
          simp only [Option.some.injEq, exists_eq_left', Value.contains_arr, Value.arr.injEq]
          tauto
      | str s => simp [Value.contains]
      | obj members =>
          have hKey : (Value.obj members).contains "admin" = some true ↔
              ¬∀ m ∈ members, m.1 ≠ "admin" := by
            simp [Value.contains]
          simp only [Option.some.injEq, exists_eq_left', hKey, reduceCtorEq, false_and,
            exists_false, iff_false, not_and, not_not]
      | _ => simp [Value.contains]

/-- A verified token whose `roles` is the text `superadmin`. -/
def superadmin : Members := [("sub", .str "u1"), ("roles", .str "superadmin")]

/-- A text that contains `admin` grants admin. -/
theorem admin_by_substring : LetsThrough (.jwt superadmin) ∧ ¬HoldsAdmin (.jwt superadmin) := by
  have hCollection : roleCollection (.jwt superadmin) = some (.str "superadmin") := rfl
  constructor
  · have hInfix : "admin".toList <:+: "superadmin".toList := ⟨"super".toList, [], by decide⟩
    rw [letsThrough_iff]
    exact ⟨rfl, _, hCollection, congrArg some (decide_eq_true hInfix)⟩
  · rintro ⟨items, hItems, -⟩
    rw [hCollection] at hItems
    cases hItems

end Admin

end Gateway.Auth
