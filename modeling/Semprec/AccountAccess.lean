import Mathlib.Data.List.Nodup
import Semprec.Lib.LockingPrograms

/-!
# Accounts and their access

The transactions that change who may use the deployment: logins and password resets, the suspension
and reactivation of accounts, role changes, deletions by the user or by an admin or replayed from
the ledger, the end of a tenant's purge and of its provisioning.  Each runs statement by statement
under READ COMMITTED, with the row locks its statements take and the advisory lock on the admin
membership.  The advisory lock is taken before the target is read, but the status of its tenant is
read by a statement that does not lock the tenant's row.

Row locks of `sessions` and `push_subscriptions` are left out: to revoke a row twice is to revoke it
once.
-/

namespace Semprec

namespace AccountAccess

open ReadCommitted (Program Programs)

inductive TenantStatus where
  | provisioning
  | active
  | suspended
  | deleting
deriving DecidableEq

inductive UserRole where
  | admin
  | member
deriving DecidableEq

structure UserRow where
  id : ℕ
  tenantId : ℕ
  email : String
  role : UserRole
  passwordHash : String
deriving DecidableEq

structure TenantRow where
  id : ℕ
  status : TenantStatus
deriving DecidableEq

structure SessionRow where
  id : ℕ
  userId : ℕ
  revoked : Bool
deriving DecidableEq

structure PushSubscriptionRow where
  id : ℕ
  userId : ℕ
  revoked : Bool
deriving DecidableEq

/-- `users_tenant_id_key` allows one user for each tenant. -/
structure Tables where
  users : List UserRow
  tenants : List TenantRow
  sessions : List SessionRow
  pushSubscriptions : List PushSubscriptionRow
  users_pkey : (users.map UserRow.id).Nodup
  users_tenant_id_key : (users.map UserRow.tenantId).Nodup

inductive Write where
  | setTenantStatus (tenantId : ℕ) (status : TenantStatus)
  | setUserRole (userId : ℕ) (role : UserRole)
  | setPasswordHash (userId : ℕ) (passwordHash : String)
  | insertSession (row : SessionRow)
  | revokeSessions (ids : List ℕ)
  | revokePushSubscriptions (ids : List ℕ)
  | deleteSessions (ids : List ℕ)
  | deletePushSubscriptions (ids : List ℕ)
  | deleteUser (userId : ℕ)
  | deleteTenant (tenantId : ℕ)
deriving DecidableEq

namespace Tables

variable (t : Tables)

def user (userId : ℕ) : Option UserRow := t.users.find? (·.id == userId)

def tenantStatus (tenantId : ℕ) : Option TenantStatus :=
  (t.tenants.find? (·.id == tenantId)).map (·.status)

/-- The condition `id = $1 AND status = ANY($2)`. -/
def tenantIn (tenantId : ℕ) (statuses : List TenantStatus) : Bool :=
  (t.tenantStatus tenantId).any (· ∈ statuses)

def usersOf (tenantId : ℕ) : List UserRow := t.users.filter (·.tenantId == tenantId)

/-- The rows that `assertAnotherActiveAdminRemains` counts. -/
def remaining (userId : ℕ) : List UserRow :=
  t.users.filter fun u =>
    u.role == .admin && t.tenantStatus u.tenantId == some .active && u.id != userId

def activeSessionIds (userId : ℕ) : List ℕ :=
  (t.sessions.filter fun row => row.userId == userId && !row.revoked).map (·.id)

def activePushSubscriptionIds (userId : ℕ) : List ℕ :=
  (t.pushSubscriptions.filter fun row => row.userId == userId && !row.revoked).map (·.id)

/-- An `UPDATE` of a user that sets neither the key nor the tenant. -/
def updateUser (userId : ℕ) (f : UserRow → UserRow)
    (hf : ∀ u, (f u).id = u.id ∧ (f u).tenantId = u.tenantId) : Tables :=
  { t with
    users := t.users.map fun u => if u.id = userId then f u else u
    users_pkey := by
      have h : UserRow.id ∘ (fun u => if u.id = userId then f u else u) = UserRow.id := by
        funext u
        simp only [Function.comp]
        split_ifs
        · exact (hf u).1
        · rfl
      rw [List.map_map, h]
      exact t.users_pkey
    users_tenant_id_key := by
      have h : UserRow.tenantId ∘ (fun u => if u.id = userId then f u else u) =
          UserRow.tenantId := by
        funext u
        simp only [Function.comp]
        split_ifs
        · exact (hf u).2
        · rfl
      rw [List.map_map, h]
      exact t.users_tenant_id_key }

def apply : Write → Tables
  | .setTenantStatus tenantId status =>
    { t with
      tenants := t.tenants.map fun x => if x.id = tenantId then { x with status } else x }
  | .setUserRole userId role =>
    t.updateUser userId (fun u => { u with role }) fun _ => ⟨rfl, rfl⟩
  | .setPasswordHash userId passwordHash =>
    t.updateUser userId (fun u => { u with passwordHash }) fun _ => ⟨rfl, rfl⟩
  | .insertSession row => { t with sessions := t.sessions ++ [row] }
  | .revokeSessions ids =>
    { t with
      sessions := t.sessions.map fun x => if x.id ∈ ids then { x with revoked := true } else x }
  | .revokePushSubscriptions ids =>
    { t with
      pushSubscriptions := t.pushSubscriptions.map fun x =>
        if x.id ∈ ids then { x with revoked := true } else x }
  | .deleteSessions ids => { t with sessions := t.sessions.filter (·.id ∉ ids) }
  | .deletePushSubscriptions ids =>
    { t with pushSubscriptions := t.pushSubscriptions.filter (·.id ∉ ids) }
  | .deleteUser userId =>
    { t with
      users := t.users.filter (·.id ≠ userId)
      users_pkey := (List.filter_sublist.map _).nodup t.users_pkey
      users_tenant_id_key := (List.filter_sublist.map _).nodup t.users_tenant_id_key }
  | .deleteTenant tenantId => { t with tenants := t.tenants.filter (·.id ≠ tenantId) }

end Tables

/-- The modes of a row lock, from the weakest. -/
inductive LockMode where
  | keyShare
  | share
  | noKeyUpdate
  | update
deriving DecidableEq

def LockMode.conflicts : LockMode → LockMode → Bool
  | .keyShare, .update | .update, .keyShare => true
  | .share, .noKeyUpdate | .noKeyUpdate, .share => true
  | .share, .update | .update, .share => true
  | .noKeyUpdate, .noKeyUpdate | .noKeyUpdate, .update | .update, .noKeyUpdate => true
  | .update, .update => true
  | _, _ => false

/-- `adminMembership` is the advisory lock `semprec_admin_membership`. -/
inductive Lock where
  | adminMembership
  | user (userId : ℕ) (mode : LockMode)
  | tenant (tenantId : ℕ) (mode : LockMode)
deriving DecidableEq

def Lock.conflicts : Lock → Lock → Bool
  | .adminMembership, .adminMembership => true
  | .user i m, .user j n => i == j && m.conflicts n
  | .tenant i m, .tenant j n => i == j && m.conflicts n
  | _, _ => false

abbrev Transaction := Program Tables Write Lock

/-! ### Statements -/

/-- A `SELECT` of one row that locks it: where a row is found its lock is waited for, and the row is
read again as the transactions waited for left it. -/
def selectForLock {α : Type} (lock : Lock) (read : Tables → Option α)
    (next : Option α → Transaction) : Transaction :=
  .statement (fun _ => []) fun t =>
    match read t with
    | none => next none
    | some _ => .acquire lock (.statement (fun _ => []) fun t => next (read t))

/-- An `UPDATE` or `DELETE` of one row, whose condition is checked again under the row's lock. -/
def writeRow (lock : Lock) (found : Tables → Bool) (w : Write)
    (missing next : Transaction) : Transaction :=
  .statement (fun _ => []) fun t =>
    if found t then
      .acquire lock (.statement (fun t => if found t then [w] else []) fun t =>
        if found t then next else missing)
    else missing

def lockUserTenantBinding (userId : ℕ) (next : Option (ℕ × TenantStatus) → Transaction) :
    Transaction :=
  selectForLock (.user userId .keyShare) (·.user userId) fun
    | none => next none
    | some u =>
      selectForLock (.tenant u.tenantId .share) (·.tenantStatus u.tenantId) fun status =>
        next (status.map fun status => (u.tenantId, status))

def transitionTenantStatus (tenantId : ℕ) (sources : List TenantStatus) (target : TenantStatus)
    (next : Transaction) : Transaction :=
  writeRow (.tenant tenantId .noKeyUpdate) (·.tenantIn tenantId sources)
    (.setTenantStatus tenantId target) .rollback next

def revokeAllSessionsForUser (userId : ℕ) (next : Transaction) : Transaction :=
  .statement (fun t => [.revokeSessions (t.activeSessionIds userId)]) fun _ => next

def revokeAllPushSubscriptionsForUser (userId : ℕ) (next : Transaction) : Transaction :=
  .statement (fun t => [.revokePushSubscriptions (t.activePushSubscriptionIds userId)]) fun _ => next

def lockAdminMembership (next : Transaction) : Transaction :=
  .acquire .adminMembership next

/-- `refused` is what the caller does with a `LastAdminError`. -/
def assertAnotherActiveAdminRemains (userId : ℕ) (refused next : Transaction) : Transaction :=
  .statement (fun _ => []) fun t => if (t.remaining userId).isEmpty then refused else next

structure LockedTarget where
  tenantId : ℕ
  role : UserRole
  status : TenantStatus
  passwordHash : String

def LockedTarget.isActiveAdmin (target : LockedTarget) : Bool :=
  target.role == .admin && target.status == .active

/-- Takes the membership lock, then reads the user `FOR UPDATE OF u` in a join with the tenant. -/
def lockTarget (targetUserId : ℕ) (next : LockedTarget → Transaction) : Transaction :=
  lockAdminMembership <| .statement (fun _ => []) fun t =>
    match (t.user targetUserId).bind fun u => t.tenantStatus u.tenantId with
    | none => .rollback
    -- the user's row is read again under its lock, the tenant's as the statement found it
    | some status => .acquire (.user targetUserId .update) <| .statement (fun _ => []) fun t =>
      match t.user targetUserId with
      | none => .rollback
      | some u => next ⟨u.tenantId, u.role, status, u.passwordHash⟩

/-! ### The transactions -/

/-- `lockedOut` is what the lockout decides and `verifies` what the password verifies against. -/
def login (email : String) (lockedOut : Bool) (verifies : String → Bool) (sessionId : ℕ) :
    Transaction :=
  .statement (fun _ => []) fun t =>
    match t.users.find? (·.email == email) with
    | none => .rollback
    | some user =>
      if lockedOut || !verifies user.passwordHash || t.tenantStatus user.tenantId != some .active then
        .rollback
      else
        lockUserTenantBinding user.id fun
          | some (_, .active) =>
            .statement (fun _ => [.insertSession ⟨sessionId, user.id, false⟩]) fun _ => .commit
          | _ => .commit

def resetPassword (userId : ℕ) (passwordHash : String) : Transaction :=
  lockUserTenantBinding userId fun
    | some (_, .active) =>
      let revoke := revokeAllSessionsForUser userId
        (revokeAllPushSubscriptionsForUser userId .commit)
      writeRow (.user userId .noKeyUpdate) (fun t => (t.user userId).isSome)
        (.setPasswordHash userId passwordHash) revoke revoke
    | _ => .rollback

def suspendAccount (targetUserId : ℕ) : Transaction :=
  lockTarget targetUserId fun target =>
    let suspend := transitionTenantStatus target.tenantId [.active] .suspended <|
      revokeAllSessionsForUser targetUserId <|
      revokeAllPushSubscriptionsForUser targetUserId .commit
    if target.isActiveAdmin then assertAnotherActiveAdminRemains targetUserId .rollback suspend
    else suspend

def reactivateAccount (targetUserId : ℕ) : Transaction :=
  lockTarget targetUserId fun target =>
    transitionTenantStatus target.tenantId [.suspended] .active .commit

def changeAccountRole (targetUserId : ℕ) (role : UserRole) : Transaction :=
  lockTarget targetUserId fun target =>
    if target.role = role then .commit
    else
      let update := writeRow (.user targetUserId .noKeyUpdate)
        (fun t => (t.user targetUserId).isSome) (.setUserRole targetUserId role) .rollback .commit
      if target.isActiveAdmin && role == .member then
        assertAnotherActiveAdminRemains targetUserId .rollback update
      else update

def revokeUsers (next : Transaction) : List ℕ → Transaction
  | [] => next
  | userId :: userIds =>
    revokeAllSessionsForUser userId <| revokeAllPushSubscriptionsForUser userId <|
      revokeUsers next userIds

def beginTenantDeletion (scope tenantId : ℕ) (next : Transaction) : Transaction :=
  if scope = tenantId then
    transitionTenantStatus tenantId [.active, .suspended] .deleting <|
      .statement (fun _ => []) fun t => revokeUsers next ((t.usersOf tenantId).map (·.id))
  else .rollback

def lockUserAndGuardLastAdmin (userId : ℕ) (next : LockedTarget → Transaction) : Transaction :=
  lockTarget userId fun locked =>
    if locked.isActiveAdmin then assertAnotherActiveAdminRemains userId .rollback (next locked)
    else next locked

def deleteOwnAccount (userId tenantId : ℕ) (lockedOut : Bool) (verifies : String → Bool) :
    Transaction :=
  .statement (fun _ => []) fun t =>
    match t.user userId with
    | none => .rollback
    | some user =>
      if lockedOut || !verifies user.passwordHash then .rollback
      else
        lockUserAndGuardLastAdmin userId fun locked =>
          if locked.passwordHash ≠ user.passwordHash then .rollback
          else beginTenantDeletion tenantId locked.tenantId .commit

def deleteAccountAsAdmin (actorUserId targetUserId : ℕ) : Transaction :=
  if targetUserId = actorUserId then .rollback
  else
    .statement (fun _ => []) fun t =>
      match t.user targetUserId with
      | none => .rollback
      | some user =>
        lockUserAndGuardLastAdmin targetUserId fun locked =>
          beginTenantDeletion user.tenantId locked.tenantId .commit

/-- The guard of a replay, for each admin of the tenant; a refusal is reported, not thrown. -/
def guardAdmins (next : Transaction) : List ℕ → Transaction
  | [] => next
  | userId :: userIds =>
    assertAnotherActiveAdminRemains userId .commit (guardAdmins next userIds)

def replayOneTenant (tenantId : ℕ) : Transaction :=
  lockAdminMembership <|
    selectForLock (.tenant tenantId .update) (·.tenantStatus tenantId) fun
      | some .active =>
        .statement (fun _ => []) fun t =>
          guardAdmins (beginTenantDeletion tenantId tenantId .commit)
            (((t.usersOf tenantId).filter (·.role == .admin)).map (·.id))
      | some .suspended => beginTenantDeletion tenantId tenantId .commit
      | _ => .commit

def deleteUsers (next : Transaction) : List ℕ → Transaction
  | [] => next
  | userId :: userIds =>
    .statement (fun t => [.deletePushSubscriptions
      ((t.pushSubscriptions.filter (·.userId == userId)).map (·.id))]) fun _ =>
    .statement (fun t => [.deleteSessions
      ((t.sessions.filter (·.userId == userId)).map (·.id))]) fun _ =>
    writeRow (.user userId .update) (fun t => (t.user userId).isSome) (.deleteUser userId)
      .rollback (deleteUsers next userIds)

def finalise (tenantId : ℕ) : Transaction :=
  .statement (fun _ => []) fun t =>
    if t.tenantIn tenantId [.deleting] then
      .statement (fun _ => []) fun t =>
        deleteUsers
          (writeRow (.tenant tenantId .update) (·.tenantIn tenantId [.deleting])
            (.deleteTenant tenantId) .rollback .commit)
          ((t.usersOf tenantId).map (·.id))
    else .rollback

/-- The last transaction of `provisionTenant`. -/
def activateTenant (tenantId : ℕ) : Transaction :=
  selectForLock (.tenant tenantId .update) (·.tenantStatus tenantId) fun
    | some .provisioning =>
      writeRow (.tenant tenantId .noKeyUpdate) (fun t => (t.tenantStatus tenantId).isSome)
        (.setTenantStatus tenantId .active) .rollback .commit
    | some .active | some .suspended => .commit
    | _ => .rollback

inductive Op where
  | login (email : String) (lockedOut : Bool) (verifies : String → Bool) (sessionId : ℕ)
  | resetPassword (userId : ℕ) (passwordHash : String)
  | suspendAccount (targetUserId : ℕ)
  | reactivateAccount (targetUserId : ℕ)
  | changeAccountRole (targetUserId : ℕ) (role : UserRole)
  | deleteOwnAccount (userId tenantId : ℕ) (lockedOut : Bool) (verifies : String → Bool)
  | deleteAccountAsAdmin (actorUserId targetUserId : ℕ)
  | replayOneTenant (tenantId : ℕ)
  | finalise (tenantId : ℕ)
  | activateTenant (tenantId : ℕ)

def Op.transaction : Op → Transaction
  | .login email lockedOut verifies sessionId =>
    AccountAccess.login email lockedOut verifies sessionId
  | .resetPassword userId passwordHash => AccountAccess.resetPassword userId passwordHash
  | .suspendAccount targetUserId => AccountAccess.suspendAccount targetUserId
  | .reactivateAccount targetUserId => AccountAccess.reactivateAccount targetUserId
  | .changeAccountRole targetUserId role => AccountAccess.changeAccountRole targetUserId role
  | .deleteOwnAccount userId tenantId lockedOut verifies =>
    AccountAccess.deleteOwnAccount userId tenantId lockedOut verifies
  | .deleteAccountAsAdmin actorUserId targetUserId =>
    AccountAccess.deleteAccountAsAdmin actorUserId targetUserId
  | .replayOneTenant tenantId => AccountAccess.replayOneTenant tenantId
  | .finalise tenantId => AccountAccess.finalise tenantId
  | .activateTenant tenantId => AccountAccess.activateTenant tenantId

abbrev Sys := Programs Tables Write Lock

abbrev Act := ReadCommitted.ProgramAct Op

def step : Sys → Act → Option Sys := Programs.step Tables.apply Lock.conflicts Op.transaction

/-! ### What the transactions keep -/

def Tables.AdminRemains (t : Tables) : Prop :=
  ∃ u ∈ t.users, u.role = .admin ∧ t.tenantStatus u.tenantId = some .active

/-- No user of a tenant that is not active has a session or a push registration that is not
revoked. -/
def Tables.AccessEnded (t : Tables) : Prop :=
  ∀ u ∈ t.users, ∀ status, t.tenantStatus u.tenantId = some status → status ≠ .active →
    (∀ row ∈ t.sessions, row.userId = u.id → row.revoked = true) ∧
    ∀ row ∈ t.pushSubscriptions, row.userId = u.id → row.revoked = true

end AccountAccess

end Semprec
