import Mathlib.Data.List.Basic
import Semprec.Lib.Runs

/-!
# The tenant scope and the connection pool

Tasks enter and leave tenant scopes and take connections from the pool; each connection is a
session of the server with its `app.tenant_id`, the callers' statements queued on its client, and
behind them the statement the pool waits for.  A caller's statements neither open or end a
transaction nor write the setting.
-/

namespace Semprec

namespace TenantPool

inductive TenantScope where
  | tenant (tenantId : String)
  | system (reason : String)
deriving DecidableEq

inductive ScopeError where
  | typeError
  | conflict
  | missing
  | unknownMode
deriving DecidableEq

def isHexDigit (c : Char) : Bool :=
  c.isDigit || ('a' ≤ c && c ≤ 'f') || ('A' ≤ c && c ≤ 'F')

/-- Whether the string matches `UUID_PATTERN`. -/
def matchesUuidPattern (s : String) : Bool :=
  s.toList.length = 36 && s.toList.zipIdx.all fun (c, i) =>
    if i ∈ [8, 13, 18, 23] then c = '-' else isHexDigit c

def runInTenant (current : Option TenantScope) (tenantId : String) :
    Except ScopeError TenantScope :=
  if ¬ matchesUuidPattern tenantId then .error .typeError
  else match current with
    | some (.tenant t) =>
      if t = tenantId.toLower then .ok (.tenant t) else .error .conflict
    | _ => .ok (.tenant tenantId.toLower)

def runAsSystem (current : Option TenantScope) (reason : String) :
    Except ScopeError TenantScope :=
  if reason = "" then .error .typeError
  else match current with
    | some (.tenant _) => .error .conflict
    | _ => .ok (.system reason)

/-- `mode` is the value of `SEMPREC_TENANT_SCOPE`. -/
def enforceTenantScope (current : Option TenantScope) (mode : Option String) :
    Except ScopeError (Option TenantScope) :=
  match current with
  | some scope => .ok (some scope)
  | none =>
    match mode with
    | none | some "" | some "strict" => .error .missing
    | some "warn" => .ok none
    | some _ => .error .unknownMode

/-- The value of `app.tenant_id` for a scope; empty also when there is none. -/
def scopeGucValue : Option TenantScope → String
  | some (.tenant tenantId) => tenantId
  | _ => ""

structure Stmt where
  issuedIn : Option TenantScope
  takenIn : Option TenantScope
deriving DecidableEq

/-- The statements the pool's own code runs. -/
inductive OwnStmt where
  | setSession (value : String)
  | begin
  | setLocal (value : String)
  | commit
  | rollback
  | reset
deriving DecidableEq

/-- An open transaction, with the session's value of the setting when it began. -/
structure OpenTx where
  saved : String
  aborted : Bool
deriving DecidableEq

inductive Mode where
  | session
  | raw
  | query
  | transaction
deriving DecidableEq

/-- What a connection is out for, and the scope of the call. -/
structure Checkout where
  mode : Mode
  scope : Option TenantScope
deriving DecidableEq

structure Conn where
  session : String
  localValue : Option String
  tx : Option OpenTx
  queued : List Stmt
  own : Option OwnStmt
  holder : Option Checkout
deriving DecidableEq

namespace Conn

/-- `current_setting('app.tenant_id')`. -/
def tenantId (conn : Conn) : String := conn.localValue.getD conn.session

def aborted (conn : Conn) : Bool := (conn.tx.map (·.aborted)).getD false

def opened : Conn := ⟨"", none, none, [], none, none⟩

/-- A failed statement aborts the transaction it is in. -/
def abort (conn : Conn) : Conn :=
  { conn with tx := conn.tx.map fun tx => { tx with aborted := true } }

/-- The transaction ends without effect. -/
def rolledBack (conn : Conn) : Conn :=
  match conn.tx with
  | some tx => { conn with session := tx.saved, localValue := none, tx := none }
  | none => conn

/-- What the server does with a caller's statement; in an aborted transaction it fails. -/
def serve (conn : Conn) (ok : Bool) : Option Conn :=
  if ok then if conn.aborted then none else some conn else some conn.abort

def serveOwn (conn : Conn) : OwnStmt → Bool → Option Conn
  | .commit, true =>
    some (if conn.aborted then conn.rolledBack else { conn with localValue := none, tx := none })
  | .commit, false => some conn.rolledBack
  | .rollback, true => some conn.rolledBack
  | .rollback, false => some conn
  | _, false => some conn.abort
  | .setSession value, true =>
    if conn.aborted then none else some { conn with session := value, localValue := none }
  | .reset, true =>
    if conn.aborted then none else some { conn with session := "", localValue := none }
  | .begin, true =>
    if conn.aborted then none
    else match conn.tx with
      | some _ => some conn
      | none => some { conn with tx := some ⟨conn.session, false⟩ }
  | .setLocal value, true =>
    if conn.aborted then none
    else match conn.tx with
      | some _ => some { conn with localValue := some value }
      | none => some conn

def giveBack (conn : Conn) : Conn := { conn with own := none, holder := none }

def answered (conn : Conn) (k : Checkout) : OwnStmt → Bool → Option Conn
  | .setSession _, true => some { conn with own := none }
  | .setSession _, false => none
  | .begin, true =>
    match k.mode, k.scope with
    | .transaction, none => some { conn with own := none }
    | _, scope => some { conn with own := some (.setLocal (scopeGucValue scope)) }
  | .begin, false =>
    match k.mode with
    | .transaction => some conn.giveBack
    | _ => some { conn with own := some .rollback }
  | .setLocal _, true =>
    match k.mode with
    | .query => some { conn with own := none, queued := conn.queued ++ [⟨k.scope, k.scope⟩] }
    | _ => some { conn with own := none }
  | .setLocal _, false => some { conn with own := some .rollback }
  | .commit, true => some conn.giveBack
  | .commit, false => some { conn with own := some .rollback }
  | .rollback, true => some conn.giveBack
  | .rollback, false => none
  | .reset, true => some conn.giveBack
  | .reset, false => none

def stmtAnswered (conn : Conn) (ok : Bool) : Conn :=
  match conn.holder, conn.own with
  | some ⟨.query, _⟩, none => { conn with own := some (if ok then .commit else .rollback) }
  | _, _ => conn

end Conn

structure Sys where
  scopeMode : Option String
  /-- The scopes each task is in, the current one first. -/
  scopes : ℕ → List TenantScope
  conns : ℕ → Option Conn

def Sys.init (scopeMode : Option String) : Sys := ⟨scopeMode, fun _ => [], fun _ => none⟩

def Sys.currentTenantScope (s : Sys) (t : ℕ) : Option TenantScope := (s.scopes t).head?

def Sys.enter (s : Sys) (t : ℕ) (scope : Except ScopeError TenantScope) : Option Sys :=
  scope.toOption.map fun scope =>
    { s with scopes := Function.update s.scopes t (scope :: s.scopes t) }

def Sys.setConn (s : Sys) (c : ℕ) (conn : Option Conn) : Sys :=
  { s with conns := Function.update s.conns c conn }

def Sys.take (s : Sys) (t c : ℕ) (use : Option TenantScope → Conn → Conn) : Option Sys :=
  match enforceTenantScope (s.currentTenantScope t) s.scopeMode, s.conns c with
  | .ok scope, some conn =>
    if conn.holder = none then some (s.setConn c (some (use scope conn))) else none
  | _, _ => none

def useSession : Option TenantScope → Conn → Conn
  | none, conn => { conn with holder := some ⟨.raw, none⟩ }
  | some scope, conn =>
    { conn with
      holder := some ⟨.session, some scope⟩
      own := some (.setSession (scopeGucValue (some scope))) }

def useQuery : Option TenantScope → Conn → Conn
  | none, conn =>
    { conn with holder := some ⟨.raw, none⟩, queued := conn.queued ++ [⟨none, none⟩] }
  | some scope, conn => { conn with holder := some ⟨.query, some scope⟩, own := some .begin }

def useTransaction (scope : Option TenantScope) (conn : Conn) : Conn :=
  { conn with holder := some ⟨.transaction, scope⟩, own := some .begin }

/-- The server answers the next statement of a connection; `none` when it can not so answer. -/
def Conn.exec (conn : Conn) (ok : Bool) : Option (Option Conn) :=
  match conn.queued with
  | _ :: rest =>
    (Conn.serve { conn with queued := rest } ok).map fun conn => some (conn.stmtAnswered ok)
  | [] =>
    match conn.own, conn.holder with
    | some own, some k => (conn.serveOwn own ok).map fun conn => conn.answered k own ok
    | _, _ => none

def Conn.release (conn : Conn) (err : Bool) : Option (Option Conn) :=
  match conn.holder, conn.own with
  | some ⟨.session, _⟩, none =>
    some (if err then none else some { conn with own := some .reset })
  | some ⟨.raw, _⟩, none => some (if err then none else some conn.giveBack)
  | _, _ => none

/-- The function of a `withTransaction` returns or throws. -/
def Conn.settle (conn : Conn) (own : OwnStmt) : Option Conn :=
  match conn.holder, conn.own with
  | some ⟨.transaction, _⟩, none => some { conn with own := some own }
  | _, _ => none

/-- The code that holds the connection issues a statement, in the scope `issuedIn`. -/
def Conn.issue (conn : Conn) (issuedIn : Option TenantScope) : Option Conn :=
  match conn.holder, conn.own with
  | some ⟨.query, _⟩, _ => none
  | some k, none => some { conn with queued := conn.queued ++ [⟨issuedIn, k.scope⟩] }
  | _, _ => none

inductive Act where
  /-- The pool opens a connection, detached from the caller's scope. -/
  | openConnection (c : ℕ)
  | runInTenant (t : ℕ) (tenantId : String)
  | runAsSystem (t : ℕ) (reason : String)
  /-- The function of the innermost scope is done. -/
  | leave (t : ℕ)
  | connect (t c : ℕ)
  | query (t c : ℕ)
  | withTransaction (t c : ℕ)
  | issue (t c : ℕ)
  | exec (c : ℕ) (ok : Bool)
  | release (c : ℕ) (err : Bool)
  | resolve (c : ℕ)
  | reject (c : ℕ)

def step (s : Sys) : Act → Option Sys
  | .openConnection c =>
    match s.conns c with
    | none => some (s.setConn c (some .opened))
    | some _ => none
  | .runInTenant t tenantId =>
    s.enter t (TenantPool.runInTenant (s.currentTenantScope t) tenantId)
  | .runAsSystem t reason => s.enter t (TenantPool.runAsSystem (s.currentTenantScope t) reason)
  | .leave t => some { s with scopes := Function.update s.scopes t (s.scopes t).tail }
  | .connect t c => s.take t c useSession
  | .query t c => s.take t c useQuery
  | .withTransaction t c => s.take t c useTransaction
  | .issue t c =>
    (s.conns c).bind fun conn =>
      (conn.issue (s.currentTenantScope t)).map fun conn => s.setConn c (some conn)
  | .exec c ok =>
    (s.conns c).bind fun conn => (conn.exec ok).map (s.setConn c)
  | .release c err =>
    (s.conns c).bind fun conn => (conn.release err).map (s.setConn c)
  | .resolve c =>
    (s.conns c).bind fun conn => (conn.settle .commit).map fun conn => s.setConn c (some conn)
  | .reject c =>
    (s.conns c).bind fun conn => (conn.settle .rollback).map fun conn => s.setConn c (some conn)

end TenantPool

end Semprec
