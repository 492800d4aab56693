import MemoryHub.Http.Auth

/-!
# Middleware, extractors and admin handlers

`authMiddleware` turns the `Authorization` header into a principal; the
extractors read the principal; each admin handler runs behind `adminPrincipal`
and makes one call to the store.  The middleware takes the lock twice, so it is
given the store each of its two queries sees; without concurrency the two are
the same.

Main results:

- Theorem `authMiddleware_eq_root_iff`: when a request is given the root
  principal.
- Theorem `adminPrincipal_authMiddleware_iff`: when a request passes both the
  middleware and the admin extractor.
- Theorem `handle_eq_ok`: an admin handler that answers made a successful
  store call under an admin principal.
-/

namespace MemoryHub
namespace Http

variable (sha256Hex : String → String)

/-! ## HTTP errors -/

/-- The errors the authentication layer answers with. -/
inductive HttpError where
  | notFound
  | unauthorized
  | forbidden
  | conflict
  | badRequest (message : String)
  | internal (message : String)
deriving DecidableEq, Repr

/-- `From<AuthError> for HttpError`. -/
def HttpError.ofAuthError : AuthError → HttpError
  | .invalidUsername message => .badRequest message
  | .invalidRole message => .badRequest message
  | .userExists => .conflict
  | .lastAdmin => .badRequest AuthError.lastAdmin.display
  | .userNotFound => .notFound
  | .tokenNotFound => .notFound
  | .db source => .internal (AuthError.db source).display
  | .join message => .internal (AuthError.join message).display

/-! ## The middleware -/

/-- `HeaderValue::to_str`: only visible ASCII and tabs can be read as text. -/
def headerToStr (value : String) : Option String :=
  if value.toList.all (fun c => (0x20 ≤ c.toNat && c.toNat < 0x7F) || c == '\t') then
    some value
  else none

/-- The secret of an `Authorization: Bearer <secret>` header. -/
def bearer (authorization : Option String) : Option String :=
  match authorization.bind headerToStr with
  | none => none
  | some value => (RustStr.stripPrefix value "Bearer ").map RustStr.trim

/-- The middleware's test for the root token: the secret matches and no admin user
exists. -/
def rootHonored (store : AuthStore) (secret : String) : Bool :=
  store.verifyRoot sha256Hex secret && !store.hasAdmin

/-- The principal of a request; `checked` is the store its `has_admin` query sees
and `resolved` the one its `resolve_token` query sees. -/
def authMiddleware (checked resolved : AuthStore) (authorization : Option String)
    (now : Int) : Except HttpError Principal :=
  match bearer authorization with
  | none => .error .unauthorized
  | some secret =>
      if rootHonored sha256Hex checked secret then .ok .root
      else
        match resolved.resolveToken sha256Hex secret now with
        | none => .error .unauthorized
        | some principal => .ok principal

/-! ## Extractors -/

/-- An authenticated real user. -/
structure AuthUser where
  username : String
  role : String
deriving DecidableEq, Repr

/-- The `AuthUser` extractor; the root principal has no memory namespace. -/
def authUser : Option Principal → Except HttpError AuthUser
  | some (.user username role) => .ok ⟨username, role⟩
  | some .root => .error .forbidden
  | none => .error .unauthorized

/-- The `AdminPrincipal` extractor: root, or a user whose role is `admin`. -/
def adminPrincipal : Option Principal → Except HttpError Unit
  | some .root => .ok ()
  | some (.user _ role) => if role = "admin" then .ok () else .error .forbidden
  | none => .error .unauthorized

/-! ## Admin requests and handlers -/

/-- The role of a `create_user` body that names none. -/
def defaultRole : String :=
  "user"

/-- The body of `POST /admin/users`. -/
structure CreateUserRequest where
  username : String
  role : String := defaultRole
deriving DecidableEq, Repr

/-- The body of `POST /admin/users/:username/tokens`. -/
structure CreateTokenRequest where
  name : Option String := none
  expiresAt : Option Int := none
deriving DecidableEq, Repr

/-- The admin routes that change the store. -/
inductive AdminAction where
  | createUser (req : CreateUserRequest)
  | deleteUser (username : String)
  | createToken (username : String) (req : CreateTokenRequest)
  | revokeToken (id : String)
deriving DecidableEq, Repr

/-- What the handlers answer with. -/
inductive AdminReply where
  | user (view : UserInfo)
  | token (id token : String)
  | empty
deriving DecidableEq, Repr

/-- What a handler reads besides its request: the clock and what the generators
return to it. -/
structure Draw where
  now : Int
  id : String
  secret : String
deriving DecidableEq, Repr

namespace Admin

/-- `?` on a store call, then the handler's answer. -/
def answer {α : Type} (result : Except AuthError α) (reply : α → AdminReply × AuthStore) :
    Except HttpError (AdminReply × AuthStore) :=
  match result with
  | .ok a => .ok (reply a)
  | .error e => .error (.ofAuthError e)

def createUser (store : AuthStore) (req : CreateUserRequest) (draw : Draw) :
    Except HttpError (AdminReply × AuthStore) :=
  answer (store.createUser req.username req.role draw.now)
    fun (info, store') => (.user info, store')

def deleteUser (store : AuthStore) (username : String) :
    Except HttpError (AdminReply × AuthStore) :=
  answer (store.deleteUser username) fun store' => (.empty, store')

def createToken (store : AuthStore) (username : String) (req : CreateTokenRequest)
    (draw : Draw) : Except HttpError (AdminReply × AuthStore) :=
  answer (store.createToken sha256Hex username req.name req.expiresAt draw.id draw.secret
      draw.now)
    fun (new, store') => (.token new.id new.secret, store')

def revokeToken (store : AuthStore) (id : String) :
    Except HttpError (AdminReply × AuthStore) :=
  answer (store.revokeToken id) fun store' => (.empty, store')

theorem answer_eq_ok {α : Type} {result : Except AuthError α}
    {reply : α → AdminReply × AuthStore} {out : AdminReply × AuthStore} :
    answer result reply = .ok out ↔ ∃ a, result = .ok a ∧ reply a = out := by
  cases result <;> simp [answer]

/-- The handler of an admin route, behind its `AdminPrincipal` extractor. -/
def handle (principal : Option Principal) (store : AuthStore) (action : AdminAction)
    (draw : Draw) : Except HttpError (AdminReply × AuthStore) :=
  match adminPrincipal principal with
  | .error e => .error e
  | .ok () =>
      match action with
      | .createUser req => createUser store req draw
      | .deleteUser username => deleteUser store username
      | .createToken username req => createToken sha256Hex store username req draw
      | .revokeToken id => revokeToken store id

end Admin

/-- The store call an admin route makes. -/
def AdminAction.call (draw : Draw) : AdminAction → AuthCall
  | .createUser req => .createUser req.username req.role
  | .deleteUser username => .deleteUser username
  | .createToken username req =>
      .createToken username req.name req.expiresAt draw.id draw.secret
  | .revokeToken id => .revokeToken id

/-- The store event an admin route amounts to. -/
def AdminAction.event (draw : Draw) (action : AdminAction) : AuthEvent :=
  ⟨action.call draw, draw.now, none⟩

/-! ## What the layer guarantees -/

/-- A request is given the root principal exactly when its secret is the
configured one and no admin user existed at the check. -/
theorem authMiddleware_eq_root_iff {checked resolved : AuthStore}
    {authorization : Option String} {now : Int} :
    authMiddleware sha256Hex checked resolved authorization now = .ok .root ↔
      ∃ secret, bearer authorization = some secret ∧
        rootHonored sha256Hex checked secret = true := by
  unfold authMiddleware
  cases hbearer : bearer authorization with
  | none => simp
  | some secret =>
      by_cases hroot : rootHonored sha256Hex checked secret = true
      · simp [hroot]
      · cases hres : resolved.resolveToken sha256Hex secret now with
        | none => simp [hroot, hres]
        | some principal =>
            have hne : principal ≠ .root := by
              intro h
              exact resolved.resolveToken_ne_root sha256Hex secret now (h ▸ hres)
            simp [hroot, hres, hne]

/-- The root token is not honored while an admin user exists. -/
theorem rootHonored_eq_false {store : AuthStore} (h : store.hasAdmin = true)
    (secret : String) : rootHonored sha256Hex store secret = false := by
  simp [rootHonored, h]

/-- A request passes the middleware and the admin extractor with the root token
while no admin exists, or with a live token of an admin. -/
theorem adminPrincipal_authMiddleware_iff {checked resolved : AuthStore}
    {authorization : Option String} {now : Int} :
    (∃ principal, authMiddleware sha256Hex checked resolved authorization now =
        .ok principal ∧ adminPrincipal (some principal) = .ok ()) ↔
      ∃ secret, bearer authorization = some secret ∧
        (rootHonored sha256Hex checked secret = true ∨
          ∃ username, rootHonored sha256Hex checked secret = false ∧
            resolved.resolveToken sha256Hex secret now = some (.user username "admin")) := by
  unfold authMiddleware
  cases hbearer : bearer authorization with
  | none => simp
  | some secret =>
      cases hroot : rootHonored sha256Hex checked secret with
      | true => simp [hroot, adminPrincipal]
      | false =>
          cases hres : resolved.resolveToken sha256Hex secret now with
          | none => simp [hroot, hres]
          | some principal =>
              cases principal with
              | root => exact absurd hres (resolved.resolveToken_ne_root sha256Hex secret now)
              | user username role => simp [hroot, hres, adminPrincipal]

/-- A handler that answers made its store call, successfully, under an admin
principal. -/
theorem handle_eq_ok {principal : Option Principal} {store store' : AuthStore}
    {action : AdminAction} {draw : Draw} {reply : AdminReply}
    (h : Admin.handle sha256Hex principal store action draw = .ok (reply, store')) :
    adminPrincipal principal = .ok () ∧
      ∃ r, store.perform sha256Hex (action.event draw) = .ok (r, store') := by
  unfold Admin.handle at h
  cases hadmin : adminPrincipal principal with
  | error e => simp [hadmin] at h
  | ok _ =>
      refine ⟨rfl, ?_⟩
      simp only [hadmin] at h
      simp only [AuthStore.perform, AdminAction.event]
      cases action with
      | createUser req =>
          rcases Admin.answer_eq_ok.mp h with ⟨⟨info, s⟩, hcall, heq⟩
          cases heq
          exact ⟨.user info, except_map_eq_ok.mpr ⟨_, hcall, rfl⟩⟩
      | deleteUser username =>
          rcases Admin.answer_eq_ok.mp h with ⟨s, hcall, heq⟩
          cases heq
          exact ⟨.done, except_map_eq_ok.mpr ⟨_, hcall, rfl⟩⟩
      | createToken username req =>
          rcases Admin.answer_eq_ok.mp h with ⟨⟨new, s⟩, hcall, heq⟩
          cases heq
          exact ⟨.token new, except_map_eq_ok.mpr ⟨_, hcall, rfl⟩⟩
      | revokeToken id =>
          rcases Admin.answer_eq_ok.mp h with ⟨s, hcall, heq⟩
          cases heq
          exact ⟨.done, except_map_eq_ok.mpr ⟨_, hcall, rfl⟩⟩

end Http
end MemoryHub
