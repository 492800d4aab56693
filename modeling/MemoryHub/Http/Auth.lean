import MemoryHub.Lib.Machine
import MemoryHub.Lib.RustStr
import MemoryHub.Lib.Sqlite
import Mathlib.Data.Set.Function

/-!
# Authentication storage

`auth.db` holds two tables: `users` keyed by name and `tokens` keyed by id, with
a unique hash and a foreign key to `users` that cascades on delete.  The
constraints SQLite enforces are fields of `AuthDb`, so every value of the type
satisfies them and each statement either keeps them or is refused.

SHA-256 is the parameter `sha256Hex`; the clock, the generated id and the
generated secret are arguments of the calls that read them.

Main results:

- Theorem `createUser_eq_ok_iff`, `deleteUser_eq_ok_iff`, `createToken_eq_ok_iff`,
  `revokeToken_eq_ok_iff`: when each call succeeds and the store it leaves.
- Theorem `resolveToken_eq_some_iff`: a resolved secret names a stored token and
  the current row of its owner.
- Theorem `hasAdmin_after`: no call, successful or not, takes the last admin away.
-/

namespace MemoryHub
namespace Http

/-! ## Data -/

/-- An authenticated caller: the configured root token, or a user resolved from a
token. -/
inductive Principal where
  | root
  | user (username role : String)
deriving DecidableEq, Repr

/-- A user row. -/
structure UserInfo where
  username : String
  role : String
  createdAt : Int
deriving DecidableEq, Repr

/-- A row of `tokens`: the hash of the secret, never the secret. -/
structure TokenRow where
  id : String
  username : String
  tokenHash : String
  name : Option String
  createdAt : Int
  expiresAt : Option Int
deriving DecidableEq, Repr

/-- What listing shows of a token. -/
structure TokenInfo where
  id : String
  name : Option String
  createdAt : Int
  expiresAt : Option Int
deriving DecidableEq, Repr

/-- A freshly minted token; the secret is returned once. -/
structure NewToken where
  id : String
  secret : String
deriving DecidableEq, Repr

/-- Errors of the store. -/
inductive AuthError where
  | invalidUsername (message : String)
  | invalidRole (message : String)
  | userExists
  | userNotFound
  | lastAdmin
  | tokenNotFound
  | db (source : Sqlite.Error)
  | join (message : String)
deriving DecidableEq, Repr

/-- `Display` of the error. -/
def AuthError.display : AuthError → String
  | .invalidUsername message => "invalid username: " ++ message
  | .invalidRole message => "invalid role: " ++ message
  | .userExists => "user already exists"
  | .userNotFound => "user not found"
  | .lastAdmin => "cannot delete the last admin user"
  | .tokenNotFound => "token not found"
  | .db source => source.display
  | .join message => message

/-! ## The tables -/

/-- The two tables of `auth.db`, under the constraints their schema declares. -/
structure AuthDb where
  users : List UserInfo
  tokens : List TokenRow
  users_primaryKey : (users.map UserInfo.username).Nodup
  tokens_primaryKey : (tokens.map TokenRow.id).Nodup
  tokens_uniqueHash : (tokens.map TokenRow.tokenHash).Nodup
  tokens_references : ∀ t ∈ tokens, t.username ∈ users.map UserInfo.username

namespace AuthDb

/-- The tables right after `init_schema` on a new file. -/
def empty : AuthDb where
  users := []
  tokens := []
  users_primaryKey := List.nodup_nil
  tokens_primaryKey := List.nodup_nil
  tokens_uniqueHash := List.nodup_nil
  tokens_references := by simp

/-- `INSERT INTO users`. -/
def insertUser (db : AuthDb) (row : UserInfo) : Except Sqlite.Error AuthDb :=
  if h : row.username ∈ db.users.map UserInfo.username then
    .error (.constraintViolation "UNIQUE constraint failed: users.username")
  else
    .ok { db with
      users := db.users ++ [row]
      users_primaryKey := Sqlite.nodup_key_snoc db.users_primaryKey h
      tokens_references := by
        intro t ht
        rw [List.map_append]
        exact List.mem_append_left _ (db.tokens_references t ht) }

/-- `DELETE FROM users WHERE username = ?1`, with its cascade into `tokens`. -/
def deleteUser (db : AuthDb) (username : String) : AuthDb where
  users := db.users.filter (fun u => u.username ≠ username)
  tokens := db.tokens.filter (fun t => t.username ≠ username)
  users_primaryKey := Sqlite.nodup_key_filter db.users_primaryKey _
  tokens_primaryKey := Sqlite.nodup_key_filter db.tokens_primaryKey _
  tokens_uniqueHash := Sqlite.nodup_key_filter db.tokens_uniqueHash _
  tokens_references := by
    intro t ht
    rw [List.mem_filter] at ht
    obtain ⟨u, hu, hname⟩ := List.mem_map.mp (db.tokens_references t ht.1)
    refine List.mem_map.mpr ⟨u, List.mem_filter.mpr ⟨hu, ?_⟩, hname⟩
    simpa [hname] using ht.2

/-- `INSERT INTO tokens`: refused on a used id, a used hash or an unknown user. -/
def insertToken (db : AuthDb) (row : TokenRow) : Except Sqlite.Error AuthDb :=
  if hid : row.id ∈ db.tokens.map TokenRow.id then
    .error (.constraintViolation "UNIQUE constraint failed: tokens.id")
  else if hhash : row.tokenHash ∈ db.tokens.map TokenRow.tokenHash then
    .error (.constraintViolation "UNIQUE constraint failed: tokens.token_hash")
  else if huser : row.username ∈ db.users.map UserInfo.username then
    .ok { db with
      tokens := db.tokens ++ [row]
      tokens_primaryKey := Sqlite.nodup_key_snoc db.tokens_primaryKey hid
      tokens_uniqueHash := Sqlite.nodup_key_snoc db.tokens_uniqueHash hhash
      tokens_references := by
        intro t ht
        rcases List.mem_append.mp ht with ht | ht
        · exact db.tokens_references t ht
        · rw [List.mem_singleton.mp ht]
          exact huser }
  else
    .error (.constraintViolation "FOREIGN KEY constraint failed")

/-- `DELETE FROM tokens WHERE id = ?1`, with the number of rows affected. -/
def deleteToken (db : AuthDb) (id : String) : Nat × AuthDb :=
  ((db.tokens.filter (fun t => t.id = id)).length,
    { db with
      tokens := db.tokens.filter (fun t => t.id ≠ id)
      tokens_primaryKey := Sqlite.nodup_key_filter db.tokens_primaryKey _
      tokens_uniqueHash := Sqlite.nodup_key_filter db.tokens_uniqueHash _
      tokens_references := fun t ht => db.tokens_references t (List.mem_filter.mp ht).1 })

@[simp]
theorem deleteUser_users (db : AuthDb) (username : String) :
    (db.deleteUser username).users = db.users.filter (fun u => u.username ≠ username) :=
  rfl

@[simp]
theorem deleteUser_tokens (db : AuthDb) (username : String) :
    (db.deleteUser username).tokens = db.tokens.filter (fun t => t.username ≠ username) :=
  rfl

@[simp]
theorem deleteToken_users (db : AuthDb) (id : String) : (db.deleteToken id).2.users = db.users :=
  rfl

@[simp]
theorem deleteToken_tokens (db : AuthDb) (id : String) :
    (db.deleteToken id).2.tokens = db.tokens.filter (fun t => t.id ≠ id) :=
  rfl

/-- An accepted user row was new, and is appended. -/
theorem insertUser_eq_ok {db db' : AuthDb} {row : UserInfo} (h : db.insertUser row = .ok db') :
    row.username ∉ db.users.map UserInfo.username ∧ db'.users = db.users ++ [row] ∧
      db'.tokens = db.tokens := by
  unfold insertUser at h
  split at h <;> rename_i hmem
  · contradiction
  · cases h
    exact ⟨hmem, rfl, rfl⟩

/-- An accepted token row is appended. -/
theorem insertToken_eq_ok {db db' : AuthDb} {row : TokenRow} (h : db.insertToken row = .ok db') :
    db'.users = db.users ∧ db'.tokens = db.tokens ++ [row] := by
  unfold insertToken at h
  split at h
  · contradiction
  split at h
  · contradiction
  split at h
  · cases h
    exact ⟨rfl, rfl⟩
  · contradiction

end AuthDb

/-! ## Validation -/

/-- One character of a username: an ASCII letter, a digit, `-` or `_`. -/
def usernameChar (c : Char) : Bool :=
  c.isAlphanum || c == '-' || c == '_'

/-- Rejects usernames that could escape their storage namespace or act as `LIKE`
wildcards. -/
def validateUsername (username : String) : Except AuthError Unit :=
  if username = "" then .error (.invalidUsername "must not be empty")
  else if username = "_synthesized" then
    .error (.invalidUsername "'_synthesized' is reserved")
  else if username.toList.all usernameChar then .ok ()
  else .error (.invalidUsername (username ++ " contains characters outside [A-Za-z0-9_-]"))

/-- Rejects roles outside the allow-list; the check is case-sensitive. -/
def validateRole (role : String) : Except AuthError Unit :=
  if role = "user" ∨ role = "admin" then .ok ()
  else .error (.invalidRole (RustStr.debugStr role ++ " is not one of: user, admin"))

theorem validateUsername_eq_ok_iff (username : String) :
    validateUsername username = .ok () ↔
      username ≠ "" ∧ username ≠ "_synthesized" ∧
        ∀ c ∈ username.toList, usernameChar c = true := by
  unfold validateUsername
  split_ifs with h1 h2 h3
  · simp [h1]
  · simp [h2]
  · simpa [h1, h2, List.all_eq_true] using h3
  · simpa [h1, h2, List.all_eq_true] using h3

theorem validateRole_eq_ok_iff (role : String) :
    validateRole role = .ok () ↔ role = "user" ∨ role = "admin" := by
  unfold validateRole
  split_ifs with h <;> simp [h]

/-! ## The store -/

/-- User and token storage, with the hash of the configured root token. -/
structure AuthStore where
  db : AuthDb
  rootTokenHash : Option String

namespace AuthStore

variable (sha256Hex : String → String)

/-- `from_connection` on a new database file. -/
def fromConnection (adminToken : Option String) : AuthStore where
  db := .empty
  rootTokenHash := adminToken.map sha256Hex

/-- Whether the secret matches the configured root token, as digests. -/
def verifyRoot (store : AuthStore) (secret : String) : Bool :=
  match store.rootTokenHash with
  | some expected => sha256Hex secret == expected
  | none => false

/-- `SELECT COUNT(*) FROM users WHERE role = 'admin'`. -/
def adminCount (store : AuthStore) : Nat :=
  store.db.users.countP (fun u => u.role = "admin")

def hasAdmin (store : AuthStore) : Bool :=
  0 < store.adminCount

def createUser (store : AuthStore) (username role : String) (now : Int) :
    Except AuthError (UserInfo × AuthStore) :=
  match validateUsername username with
  | .error e => .error e
  | .ok () =>
      match validateRole role with
      | .error e => .error e
      | .ok () =>
          match store.db.insertUser ⟨username, role, now⟩ with
          | .ok db => .ok (⟨username, role, now⟩, { store with db := db })
          | .error (.constraintViolation _) => .error .userExists
          | .error e => .error (.db e)

/-- The users ordered by name. -/
def listUsers (store : AuthStore) : List UserInfo :=
  store.db.users.mergeSort (fun a b => a.username ≤ b.username)

def deleteUser (store : AuthStore) (username : String) : Except AuthError AuthStore :=
  match store.db.users.find? (fun u => u.username = username) with
  | none => .error .userNotFound
  | some row =>
      -- The last remaining admin is refused, before anything is deleted.
      if row.role = "admin" ∧ store.adminCount ≤ 1 then .error .lastAdmin
      else .ok { store with db := store.db.deleteUser username }

/-- `id` and `secret` are what the generators returned for this call. -/
def createToken (store : AuthStore) (username : String) (name : Option String)
    (expiresAt : Option Int) (id secret : String) (now : Int) :
    Except AuthError (NewToken × AuthStore) :=
  match store.db.users.find? (fun u => u.username = username) with
  | none => .error .userNotFound
  | some _ =>
      match store.db.insertToken ⟨id, username, sha256Hex secret, name, now, expiresAt⟩ with
      | .ok db => .ok (⟨id, secret⟩, { store with db := db })
      | .error e => .error (.db e)

/-- The tokens of a user, ordered by creation time. -/
def listTokens (store : AuthStore) (username : String) : List TokenInfo :=
  ((store.db.tokens.filter (fun t => t.username = username)).map
    (fun t => ⟨t.id, t.name, t.createdAt, t.expiresAt⟩)).mergeSort
      (fun a b => a.createdAt ≤ b.createdAt)

def revokeToken (store : AuthStore) (id : String) : Except AuthError AuthStore :=
  let (affected, db) := store.db.deleteToken id
  if affected = 0 then .error .tokenNotFound
  else .ok { store with db := db }

/-- Resolves a token secret to a user, or `none` if unknown or expired. -/
def resolveToken (store : AuthStore) (secret : String) (now : Int) : Option Principal :=
  match store.db.tokens.find? (fun t => t.tokenHash = sha256Hex secret) with
  | none => none
  | some t =>
      match store.db.users.find? (fun u => u.username = t.username) with
      | none => none
      | some u =>
          match t.expiresAt with
          | some exp => if exp < now then none else some (.user t.username u.role)
          | none => some (.user t.username u.role)

/-! ## What each call does -/

theorem hasAdmin_iff (store : AuthStore) :
    store.hasAdmin = true ↔ ∃ u ∈ store.db.users, u.role = "admin" := by
  simp [hasAdmin, adminCount, List.countP_pos_iff]

theorem createUser_eq_ok_iff {store store' : AuthStore} {username role : String} {now : Int}
    {info : UserInfo} :
    store.createUser username role now = .ok (info, store') ↔
      validateUsername username = .ok () ∧ validateRole role = .ok () ∧
        info = ⟨username, role, now⟩ ∧
          ∃ db, store.db.insertUser info = .ok db ∧ store' = { store with db := db } := by
  unfold createUser
  cases hname : validateUsername username with
  | error e => simp
  | ok _ =>
      cases hrole : validateRole role with
      | error e => simp
      | ok _ =>
          cases hins : store.db.insertUser ⟨username, role, now⟩ with
          | error e =>
              cases e <;>
                · simp only [reduceCtorEq, true_and, false_iff]
                  rintro ⟨rfl, db, hdb, -⟩
                  simp [hins] at hdb
          | ok db =>
              simp only [Except.ok.injEq, Prod.mk.injEq, true_and]
              constructor
              · rintro ⟨rfl, rfl⟩
                exact ⟨rfl, db, hins, rfl⟩
              · rintro ⟨rfl, db', hdb', rfl⟩
                rw [hins] at hdb'
                cases hdb'
                exact ⟨rfl, rfl⟩

theorem deleteUser_eq_ok_iff {store store' : AuthStore} {username : String} :
    store.deleteUser username = .ok store' ↔
      (∃ row ∈ store.db.users, row.username = username ∧
        (row.role = "admin" → 1 < store.adminCount)) ∧
          store' = { store with db := store.db.deleteUser username } := by
  unfold deleteUser
  cases hfind : store.db.users.find? (fun u => u.username = username) with
  | none =>
      simp only [reduceCtorEq, false_iff]
      rintro ⟨⟨row, hrow, hname, -⟩, -⟩
      exact Sqlite.find?_key_eq_none.mp hfind row hrow hname
  | some row =>
      obtain ⟨hrow, hname⟩ := (Sqlite.find?_key_eq_some store.db.users_primaryKey).mp hfind
      have hguard : (∃ r ∈ store.db.users, r.username = username ∧
          (r.role = "admin" → 1 < store.adminCount)) ↔
            ¬ (row.role = "admin" ∧ store.adminCount ≤ 1) := by
        constructor
        · rintro ⟨r, hr, hrname, hadmin⟩ ⟨hrole, hle⟩
          have : r = row :=
            Sqlite.eq_of_key_eq store.db.users_primaryKey hr hrow (hrname.trans hname.symm)
          subst this
          exact absurd (hadmin hrole) (by omega)
        · intro h
          refine ⟨row, hrow, hname, fun hrole => ?_⟩
          by_contra hle
          exact h ⟨hrole, by omega⟩
      rw [hguard]
      by_cases h : row.role = "admin" ∧ store.adminCount ≤ 1
      · simp [h]
      · simp only [h, if_false, Except.ok.injEq, not_false_eq_true, true_and]
        exact eq_comm

theorem createToken_eq_ok_iff {store store' : AuthStore} {username : String}
    {name : Option String} {expiresAt : Option Int} {id secret : String} {now : Int}
    {new : NewToken} :
    store.createToken sha256Hex username name expiresAt id secret now = .ok (new, store') ↔
      (∃ u ∈ store.db.users, u.username = username) ∧ new = ⟨id, secret⟩ ∧
        ∃ db, store.db.insertToken ⟨id, username, sha256Hex secret, name, now, expiresAt⟩ =
          .ok db ∧ store' = { store with db := db } := by
  unfold createToken
  cases hfind : store.db.users.find? (fun u => u.username = username) with
  | none =>
      simp only [reduceCtorEq, false_iff]
      rintro ⟨⟨u, hu, hname⟩, -⟩
      exact Sqlite.find?_key_eq_none.mp hfind u hu hname
  | some u =>
      have huser : ∃ u ∈ store.db.users, u.username = username :=
        ⟨u, (Sqlite.find?_key_eq_some store.db.users_primaryKey).mp hfind⟩
      simp only [huser, true_and]
      cases hins : store.db.insertToken
          ⟨id, username, sha256Hex secret, name, now, expiresAt⟩ with
      | error e => simp
      | ok db => simp [eq_comm]

theorem revokeToken_eq_ok_iff {store store' : AuthStore} {id : String} :
    store.revokeToken id = .ok store' ↔
      (∃ t ∈ store.db.tokens, t.id = id) ∧
        store' = { store with db := (store.db.deleteToken id).2 } := by
  have haffected : (store.db.deleteToken id).1 = 0 ↔ ¬ ∃ t ∈ store.db.tokens, t.id = id := by
    simp [AuthDb.deleteToken, List.filter_eq_nil_iff]
  unfold revokeToken
  by_cases h : (store.db.deleteToken id).1 = 0
  · simp [h, haffected.mp h]
  · have hex : ∃ t ∈ store.db.tokens, t.id = id := by
      by_contra hno
      exact h (haffected.mpr hno)
    simp only [h, if_false, Except.ok.injEq, hex, true_and]
    exact eq_comm

/-- A secret resolves exactly when a stored token has its hash and has not
expired; the principal is the token's owner with the role of the current row. -/
theorem resolveToken_eq_some_iff {store : AuthStore} {secret : String} {now : Int}
    {p : Principal} :
    store.resolveToken sha256Hex secret now = some p ↔
      ∃ t ∈ store.db.tokens, ∃ u ∈ store.db.users,
        t.tokenHash = sha256Hex secret ∧ u.username = t.username ∧
          (∀ exp, t.expiresAt = some exp → now ≤ exp) ∧ p = .user t.username u.role := by
  unfold resolveToken
  cases hfind : store.db.tokens.find? (fun t => t.tokenHash = sha256Hex secret) with
  | none =>
      simp only [reduceCtorEq, false_iff]
      rintro ⟨t, ht, u, -, hhash, -⟩
      exact Sqlite.find?_key_eq_none.mp hfind t ht hhash
  | some t =>
      obtain ⟨ht, hhash⟩ := (Sqlite.find?_key_eq_some store.db.tokens_uniqueHash).mp hfind
      -- The foreign key guarantees the join finds the owner's row.
      obtain ⟨u, hu, hname⟩ := List.mem_map.mp (store.db.tokens_references t ht)
      have huser : store.db.users.find? (fun u => u.username = t.username) = some u :=
        (Sqlite.find?_key_eq_some store.db.users_primaryKey).mpr ⟨hu, hname⟩
      have hrhs : (∃ t' ∈ store.db.tokens, ∃ u' ∈ store.db.users,
          t'.tokenHash = sha256Hex secret ∧ u'.username = t'.username ∧
            (∀ exp, t'.expiresAt = some exp → now ≤ exp) ∧ p = .user t'.username u'.role) ↔
          (∀ exp, t.expiresAt = some exp → now ≤ exp) ∧ p = .user t.username u.role := by
        constructor
        · rintro ⟨t', ht', u', hu', hhash', hname', hexp, rfl⟩
          obtain rfl : t' = t :=
            Sqlite.eq_of_key_eq store.db.tokens_uniqueHash ht' ht (hhash'.trans hhash.symm)
          obtain rfl : u' = u :=
            Sqlite.eq_of_key_eq store.db.users_primaryKey hu' hu (hname'.trans hname.symm)
          exact ⟨hexp, rfl⟩
        · rintro ⟨hexp, rfl⟩
          exact ⟨t, ht, u, hu, hhash, hname, hexp, rfl⟩
      rw [hrhs]
      simp only [huser]
      cases hexp : t.expiresAt with
      | none => simp [eq_comm]
      | some exp =>
          by_cases hlt : exp < now
          · simp [hlt]
          · simp [hlt, not_lt.mp hlt, eq_comm]

/-- Resolving a token never yields the root principal. -/
theorem resolveToken_ne_root (store : AuthStore) (secret : String) (now : Int) :
    store.resolveToken sha256Hex secret now ≠ some .root := by
  intro h
  obtain ⟨t, -, u, -, -, -, -, hp⟩ := (resolveToken_eq_some_iff sha256Hex).mp h
  contradiction

/-! ## Calls as events -/

end AuthStore

/-- A call of a store method with all it reads: its arguments, the generated id
and secret, and the clock. -/
inductive AuthCall where
  | createUser (username role : String)
  | listUsers
  | deleteUser (username : String)
  | hasAdmin
  | createToken (username : String) (name : Option String) (expiresAt : Option Int)
      (id secret : String)
  | listTokens (username : String)
  | revokeToken (id : String)
  | resolveToken (secret : String)
deriving DecidableEq, Repr

/-- The calls that issue no changing statement. -/
def AuthCall.readOnly : AuthCall → Bool
  | .listUsers | .hasAdmin | .listTokens _ | .resolveToken _ => true
  | _ => false

/-- What a call returns. -/
inductive AuthReply where
  | user (info : UserInfo)
  | users (rows : List UserInfo)
  | token (new : NewToken)
  | tokens (rows : List TokenInfo)
  | flag (value : Bool)
  | principal (value : Option Principal)
  | done
deriving DecidableEq, Repr

/-- One call under the connection lock: the time it reads, and the database error
it meets, if any.  Every call issues its one changing statement last, so an
error leaves the tables as they were. -/
structure AuthEvent where
  call : AuthCall
  now : Int
  dbError : Option Sqlite.Error
deriving DecidableEq, Repr

/-- A mapped computation succeeds through a success of the computation. -/
theorem except_map_eq_ok {ε α β : Type} {f : α → β} {x : Except ε α} {b : β} :
    x.map f = .ok b ↔ ∃ a, x = .ok a ∧ f a = b := by
  cases x <;> simp [Except.map]

namespace AuthStore

variable (sha256Hex : String → String)

/-- Run one call to its result. -/
def perform (store : AuthStore) (ev : AuthEvent) : Except AuthError (AuthReply × AuthStore) :=
  match ev.dbError with
  | some e => .error (.db e)
  | none =>
      match ev.call with
      | .createUser username role =>
          (store.createUser username role ev.now).map fun r => (.user r.1, r.2)
      | .listUsers => .ok (.users store.listUsers, store)
      | .deleteUser username => (store.deleteUser username).map fun s => (.done, s)
      | .hasAdmin => .ok (.flag store.hasAdmin, store)
      | .createToken username name expiresAt id secret =>
          (store.createToken sha256Hex username name expiresAt id secret ev.now).map
            fun r => (.token r.1, r.2)
      | .listTokens username => .ok (.tokens (store.listTokens username), store)
      | .revokeToken id => (store.revokeToken id).map fun s => (.done, s)
      | .resolveToken secret =>
          .ok (.principal (store.resolveToken sha256Hex secret ev.now), store)

/-- The store a call leaves behind: a failed one changes nothing. -/
def after (store : AuthStore) (ev : AuthEvent) : AuthStore :=
  match store.perform sha256Hex ev with
  | .ok (_, store') => store'
  | .error _ => store

/-- Everything a successful call can do to the store. -/
theorem perform_ok_cases {store store' : AuthStore} {ev : AuthEvent} {reply : AuthReply}
    (h : store.perform sha256Hex ev = .ok (reply, store')) :
    (∃ username role, ev.call = .createUser username role ∧
        validateUsername username = .ok () ∧ validateRole role = .ok () ∧
        username ∉ store.db.users.map UserInfo.username ∧
        store'.db.users = store.db.users ++ [⟨username, role, ev.now⟩] ∧
        store'.db.tokens = store.db.tokens) ∨
    (∃ username, ev.call = .deleteUser username ∧
        (∃ row ∈ store.db.users, row.username = username ∧
          (row.role = "admin" → 1 < store.adminCount)) ∧
        store'.db.users = store.db.users.filter (fun u => u.username ≠ username) ∧
        store'.db.tokens = store.db.tokens.filter (fun t => t.username ≠ username)) ∨
    (∃ username name expiresAt id secret,
        ev.call = .createToken username name expiresAt id secret ∧
        reply = .token ⟨id, secret⟩ ∧ (∃ u ∈ store.db.users, u.username = username) ∧
        store'.db.users = store.db.users ∧
        store'.db.tokens = store.db.tokens ++
          [⟨id, username, sha256Hex secret, name, ev.now, expiresAt⟩]) ∨
    (∃ id, ev.call = .revokeToken id ∧ store'.db.users = store.db.users ∧
        store'.db.tokens = store.db.tokens.filter (fun t => t.id ≠ id)) ∨
    (ev.call.readOnly = true ∧ store' = store) := by
  unfold perform at h
  cases herr : ev.dbError with
  | some e => simp [herr] at h
  | none =>
      simp only [herr] at h
      cases hcall : ev.call with
      | createUser username role =>
          simp only [hcall, except_map_eq_ok, Prod.mk.injEq] at h
          obtain ⟨⟨info, s⟩, hok, -, rfl⟩ := h
          obtain ⟨hname, hrole, rfl, db, hins, rfl⟩ := createUser_eq_ok_iff.mp hok
          obtain ⟨hfresh, husers, htokens⟩ := AuthDb.insertUser_eq_ok hins
          exact Or.inl ⟨username, role, rfl, hname, hrole, hfresh, husers, htokens⟩
      | deleteUser username =>
          simp only [hcall, except_map_eq_ok, Prod.mk.injEq] at h
          obtain ⟨s, hok, -, rfl⟩ := h
          obtain ⟨hrow, rfl⟩ := deleteUser_eq_ok_iff.mp hok
          exact Or.inr (Or.inl ⟨username, rfl, hrow, rfl, rfl⟩)
      | createToken username name expiresAt id secret =>
          simp only [hcall, except_map_eq_ok, Prod.mk.injEq] at h
          obtain ⟨⟨new, s⟩, hok, rfl, rfl⟩ := h
          obtain ⟨huser, rfl, db, hins, rfl⟩ := (createToken_eq_ok_iff sha256Hex).mp hok
          obtain ⟨husers, htokens⟩ := AuthDb.insertToken_eq_ok hins
          exact Or.inr (Or.inr (Or.inl
            ⟨username, name, expiresAt, id, secret, rfl, rfl, huser, husers, htokens⟩))
      | revokeToken id =>
          simp only [hcall, except_map_eq_ok, Prod.mk.injEq] at h
          obtain ⟨s, hok, -, rfl⟩ := h
          obtain ⟨-, rfl⟩ := revokeToken_eq_ok_iff.mp hok
          exact Or.inr (Or.inr (Or.inr (Or.inl ⟨id, rfl, rfl, rfl⟩)))
      | listUsers =>
          simp only [hcall, Except.ok.injEq, Prod.mk.injEq] at h
          exact Or.inr (Or.inr (Or.inr (Or.inr ⟨rfl, h.2.symm⟩)))
      | hasAdmin =>
          simp only [hcall, Except.ok.injEq, Prod.mk.injEq] at h
          exact Or.inr (Or.inr (Or.inr (Or.inr ⟨rfl, h.2.symm⟩)))
      | listTokens username =>
          simp only [hcall, Except.ok.injEq, Prod.mk.injEq] at h
          exact Or.inr (Or.inr (Or.inr (Or.inr ⟨rfl, h.2.symm⟩)))
      | resolveToken secret =>
          simp only [hcall, Except.ok.injEq, Prod.mk.injEq] at h
          exact Or.inr (Or.inr (Or.inr (Or.inr ⟨rfl, h.2.symm⟩)))

/-- A call leaves the store it was given, or succeeds into the next one. -/
theorem after_cases (store : AuthStore) (ev : AuthEvent) :
    (∃ e, store.perform sha256Hex ev = .error e ∧ store.after sha256Hex ev = store) ∨
      ∃ reply, store.perform sha256Hex ev = .ok (reply, store.after sha256Hex ev) := by
  unfold after
  cases h : store.perform sha256Hex ev with
  | error e => exact Or.inl ⟨e, rfl, rfl⟩
  | ok r => exact Or.inr ⟨r.1, rfl⟩

/-- Deleting one user when two rows are admins leaves an admin. -/
theorem exists_admin_of_deleteUser {store : AuthStore} {username : String}
    (hcount : 1 < store.adminCount) :
    ∃ u ∈ store.db.users.filter (fun u => u.username ≠ username), u.role = "admin" := by
  -- At most one of the admin rows is the deleted one, because names are unique.
  by_contra hnone
  have hall : ∀ u ∈ store.db.users.filter (fun u => u.role = "admin"),
      u.username = username := by
    intro u hu
    rw [List.mem_filter] at hu
    by_contra hne
    exact hnone ⟨u, List.mem_filter.mpr ⟨hu.1, by simpa using hne⟩, by simpa using hu.2⟩
  have hnodup : ((store.db.users.filter (fun u => u.role = "admin")).map
      UserInfo.username).Nodup :=
    Sqlite.nodup_key_filter store.db.users_primaryKey _
  have hlen : (store.db.users.filter (fun u => u.role = "admin")).length ≤ 1 := by
    have hrep := List.eq_replicate_of_mem
      (l := (store.db.users.filter (fun u => u.role = "admin")).map UserInfo.username)
      (a := username) (by
        intro b hb
        obtain ⟨u, hu, rfl⟩ := List.mem_map.mp hb
        exact hall u hu)
    rw [hrep, List.nodup_replicate] at hnodup
    simpa using hnodup
  rw [adminCount, List.countP_eq_length_filter] at hcount
  omega

/-- No call, successful or not, takes the last admin away. -/
theorem hasAdmin_after {store : AuthStore} (ev : AuthEvent) (h : store.hasAdmin = true) :
    (store.after sha256Hex ev).hasAdmin = true := by
  rcases after_cases sha256Hex store ev with ⟨e, -, heq⟩ | ⟨reply, hok⟩
  · rw [heq]
    exact h
  · rw [hasAdmin_iff] at h ⊢
    obtain ⟨admin, hadmin, hrole⟩ := h
    rcases perform_ok_cases sha256Hex hok with
      ⟨username, role, -, -, -, -, husers, -⟩ |
      ⟨username, -, ⟨row, hrow, hname, hguard⟩, husers, -⟩ |
      ⟨username, name, expiresAt, id, secret, -, -, -, husers, -⟩ |
      ⟨id, -, husers, -⟩ | ⟨-, heq⟩
    · exact ⟨admin, husers ▸ List.mem_append_left _ hadmin, hrole⟩
    · rw [husers]
      by_cases hdel : admin.username = username
      · -- The admin itself is deleted: the guard saw another one.
        have hsame : row = admin :=
          Sqlite.eq_of_key_eq store.db.users_primaryKey hrow hadmin (hname.trans hdel.symm)
        exact exists_admin_of_deleteUser (hguard (hsame ▸ hrole))
      · exact ⟨admin, List.mem_filter.mpr ⟨hadmin, by simpa using hdel⟩, hrole⟩
    · exact ⟨admin, husers ▸ hadmin, hrole⟩
    · exact ⟨admin, husers ▸ hadmin, hrole⟩
    · rw [heq]
      exact ⟨admin, hadmin, hrole⟩

end AuthStore

/-! ## A sample of the hash -/

/-- SHA-256 on the three secrets the concrete runs of this development use. -/
def sha256HexSample (secret : String) : String :=
  if secret = "mh_root" then
    "be4985582143130a5d64375c8f817e6dc15d75d41a6132fe71f4acaecf958a51"
  else if secret = "mh_first" then
    "6fc0ecb741c1d99772e8105ab66b745e3e5f4a42dc88d49c036e3d1bebd74e7b"
  else if secret = "mh_second" then
    "d00c98d0dbc94f5c6c54050d822d580dc7c8432c258a3cc07250aed8863518c3"
  else ""

end Http
end MemoryHub
