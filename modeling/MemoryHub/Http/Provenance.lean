import MemoryHub.Http.Router

/-!
# Who changes what

Requests run side by side, and each acts on what the middleware was told about its caller,
whatever has happened to the store since.  A user's files are changed by the user's own
requests only, and the tables of users and tokens by admins' requests only: at one of its
earlier turns, the request was told so.

Main results:

- Theorem `serve_meets`: every call of a request is within what its caller may do.
- Theorem `files_changed_with_token`: in every interleaving of requests, whoever changes a file
  of a user has shown a token that was the user's at one of the request's turns.
- Theorem `store_changed_by_admin`: whoever changes users or tokens was an admin, or the root of
  a store without admins, at the request's turns.
-/

namespace MemoryHub
namespace Http

open Memory FileSystem Machine
open Prog (Meets MeetsOk meetsOk_pure meetsOk_lift meets_perform)

variable (sha256Hex : String → String)

/-! ## Callers -/

section

variable (r : Request) (s : ServerState)

/-- In this state, the bearer of the request is the user. -/
def Request.CallerAt (username : String) : Prop :=
  ∃ secret role, bearer r.authorization = some secret ∧
    s.auth.resolveToken sha256Hex secret r.resolve.now = some (.user username role)

/-- In this state, the bearer of the request is a user who is an admin. -/
def Request.AdminAt : Prop :=
  ∃ secret username, bearer r.authorization = some secret ∧
    s.auth.resolveToken sha256Hex secret r.resolve.now = some (.user username "admin")

/-- In this state, the bearer of the request has the root token. -/
def Request.RootAt : Prop :=
  ∃ secret, bearer r.authorization = some secret ∧ s.auth.verifyRoot sha256Hex secret = true

end

/-- The response is given in one of some states. -/
def GivenIn (seen : ServerState → Prop) (c : ServerCall) (response : c.Response) : Prop :=
  ∃ s, seen s ∧ response = (ServerState.answer sha256Hex c s).1

/-- What the middleware has found out about the caller, in some states. -/
def Known (r : Request) (seen : ServerState → Prop) : Principal → Prop
  | .root => (∃ s, seen s ∧ r.RootAt sha256Hex s) ∧ ∃ s, seen s ∧ s.auth.hasAdmin = false
  | .user username role => ∃ secret s, bearer r.authorization = some secret ∧ seen s ∧
      s.auth.resolveToken sha256Hex secret r.resolve.now = some (.user username role)

/-- The caller may make the call: a message is for the caller's own files, and the store is
changed by admins, or by the root of a store without admins. -/
def Permitted (mm : MemoryManager) (r : Request) (seen : ServerState → Prop) :
    ServerCall → Prop
  | .verifyRoot _ => True
  | .store ev => ev.call.readOnly = true ∨ (∃ s, seen s ∧ r.AdminAt sha256Hex s) ∨
      ((∃ s, seen s ∧ r.RootAt sha256Hex s) ∧ ∃ s, seen s ∧ s.auth.hasAdmin = false)
  | .actor c => ∃ (s : ServerState) (message : MemoryMessage), seen s ∧
      r.CallerAt sha256Hex s message.username ∧ message.Sends mm c

section

variable {sha256Hex} {mm : MemoryManager} {r : Request} {seen : ServerState → Prop}

/-! ## The middleware -/

/-- A call to the store, and what its reply says. -/
theorem store_meets {ev : AuthEvent} (h : Permitted sha256Hex mm r seen (.store ev)) :
    MeetsOk (GivenIn sha256Hex seen) (Permitted sha256Hex mm r seen)
      (fun reply => ∃ s, seen s ∧ s.auth.outcome sha256Hex ev = .ok reply) (Router.store ev) := by
  have hcall : Meets (GivenIn sha256Hex seen) (Permitted sha256Hex mm r seen)
      (fun reply => ∃ s, seen s ∧ reply = s.auth.outcome sha256Hex ev)
      (Prog.perform (ServerCall.store ev) : RouteProg (Except AuthError AuthReply)) :=
    ⟨h, fun _ hreply => hreply⟩
  refine Meets.bind hcall ?_
  rintro reply ⟨s, hs, rfl⟩ a ha
  refine ⟨s, hs, ?_⟩
  cases hout : s.auth.outcome sha256Hex ev with
  | error e =>
      rw [hout] at ha
      cases ha
  | ok b =>
      rw [hout] at ha
      cases ha
      rfl

theorem hasAdmin_meets (script : StoreScript) :
    MeetsOk (GivenIn sha256Hex seen) (Permitted sha256Hex mm r seen)
      (fun admin => ∃ s, seen s ∧ admin = s.auth.hasAdmin) (Router.hasAdmin script) := by
  have hreads : Permitted sha256Hex mm r seen (.store (script.event .hasAdmin)) := Or.inl rfl
  refine MeetsOk.bind (store_meets hreads) ?_
  rintro reply ⟨s, hs, hreply⟩
  have hflag : reply = .flag s.auth.hasAdmin := by
    unfold AuthStore.outcome AuthStore.perform StoreScript.event at hreply
    cases hfault : script.dbError with
    | some e => simp [hfault, Except.map] at hreply
    | none =>
        simp only [hfault, Except.map, Except.ok.injEq] at hreply
        exact hreply.symm
  rw [hflag]
  exact meetsOk_pure ⟨s, hs, rfl⟩

theorem resolveToken_meets (secret : String) (script : StoreScript) :
    MeetsOk (GivenIn sha256Hex seen) (Permitted sha256Hex mm r seen)
      (fun principal => ∃ s, seen s ∧
        principal = s.auth.resolveToken sha256Hex secret script.now)
      (Router.resolveToken secret script) := by
  have hreads : Permitted sha256Hex mm r seen (.store (script.event (.resolveToken secret))) :=
    Or.inl rfl
  refine MeetsOk.bind (store_meets hreads) ?_
  rintro reply ⟨s, hs, hreply⟩
  have hprincipal : reply = .principal (s.auth.resolveToken sha256Hex secret script.now) := by
    unfold AuthStore.outcome AuthStore.perform StoreScript.event at hreply
    cases hfault : script.dbError with
    | some e => simp [hfault, Except.map] at hreply
    | none =>
        simp only [hfault, Except.map, Except.ok.injEq] at hreply
        exact hreply.symm
  rw [hprincipal]
  exact meetsOk_pure ⟨s, hs, rfl⟩

theorem verifyRoot_meets (secret : String) :
    MeetsOk (GivenIn sha256Hex seen) (Permitted sha256Hex mm r seen)
      (fun verified => ∃ s, seen s ∧ verified = s.auth.verifyRoot sha256Hex secret)
      (Router.verifyRoot secret) := by
  refine meetsOk_lift ?_
  exact ⟨trivial, fun _ hreply => hreply⟩

theorem isRoot_meets {secret : String} (hbearer : bearer r.authorization = some secret) :
    MeetsOk (GivenIn sha256Hex seen) (Permitted sha256Hex mm r seen)
      (fun root => root = true → Known sha256Hex r seen .root)
      (Router.isRoot secret r.check) := by
  refine MeetsOk.bind (verifyRoot_meets secret) ?_
  rintro verified ⟨s, hs, hverified⟩
  cases verified with
  | true =>
      refine MeetsOk.bind (hasAdmin_meets r.check) ?_
      rintro admin ⟨s', hs', rfl⟩
      refine meetsOk_pure ?_
      intro hnone
      exact ⟨⟨s, hs, secret, hbearer, hverified.symm⟩, s', hs', by simpa using hnone⟩
  | false =>
      refine meetsOk_pure ?_
      intro h
      cases h

/-- The middleware names no principal without having been told. -/
theorem authMiddleware_meets :
    MeetsOk (GivenIn sha256Hex seen) (Permitted sha256Hex mm r seen) (Known sha256Hex r seen)
      (Router.authMiddleware r) := by
  unfold Router.authMiddleware
  cases hbearer : bearer r.authorization with
  | none =>
      intro a ha
      cases ha
  | some secret =>
      refine MeetsOk.bind (isRoot_meets hbearer) ?_
      intro root hknown
      cases root with
      | true => exact meetsOk_pure (hknown rfl)
      | false =>
          refine MeetsOk.bind (resolveToken_meets secret r.resolve) ?_
          rintro found ⟨s', hs', hfound⟩
          cases found with
          | none =>
              intro a ha
              cases ha
          | some principal =>
              refine meetsOk_pure ?_
              cases principal with
              | root => exact absurd hfound.symm (s'.auth.resolveToken_ne_root sha256Hex _ _)
              | user username role => exact ⟨secret, s', hbearer, hs', hfound.symm⟩

/-! ## The handlers -/

/-- Behind an extractor, a handler runs for a caller the extractor has passed. -/
theorem extract_meets {α : Type} {ok : ∀ c : ServerCall, c.Response → Prop}
    {P : ServerCall → Prop} (result : Except HttpError α) :
    MeetsOk ok P (fun a => result = .ok a) (Router.extract result) := by
  intro a ha
  cases result with
  | error e => cases ha
  | ok b =>
      cases ha
      rfl

/-- A message that is sent and answered meets what its actor meets. -/
theorem send_meets {hop : Hop} {message : MemoryMessage}
    {ok : ∀ c : ServerCall, c.Response → Prop} {P : ServerCall → Prop}
    {okActor : ∀ c : ActorCall, c.Response → Prop} {PActor : ActorCall → Prop}
    {Q : MemoryReply → Prop} (h : Meets okActor PActor Q (message.prog mm))
    (hok : ∀ c response, ok (.actor c) response → okActor c response)
    (hP : ∀ c, PActor c → P (.actor c)) : MeetsOk ok P Q (Router.send mm hop message) := by
  have hprog : Meets ok P (fun result => ∀ reply, result = .ok reply → Q reply)
      (Prog.lift ServerCall.actor
        ((⟨hop.started, hop.delivery, message⟩ : Dispatch).prog mm) :
          RouteProg (Except MemoryError MemoryReply)) :=
    Meets.lift (dispatch_meets (r := ⟨hop.started, hop.delivery, message⟩) h) hok hP
  unfold Router.send
  cases hop.manager with
  | unsent => exact fun _ ha => by cases ha
  | dropped => exact fun _ ha => by cases ha
  | unanswered => exact MeetsOk.bind (meetsOk_lift hprog) fun _ _ _ ha => by cases ha
  | answered =>
      refine Meets.bind hprog ?_
      intro result hresult a ha
      cases result with
      | ok reply =>
          cases ha
          exact hresult a rfl
      | error e => cases ha

/-- What is sent for the caller is permitted. -/
theorem sendAndAnswer_meets {hop : Hop} {message : MemoryMessage}
    (hcaller : ∃ s, seen s ∧ r.CallerAt sha256Hex s message.username) :
    MeetsOk (GivenIn sha256Hex seen) (Permitted sha256Hex mm r seen) (fun _ => True)
      (Router.sendAndAnswer mm hop message) := by
  refine MeetsOk.bind (send_meets (message.prog_sends mm) (fun _ _ _ => trivial) ?_)
    fun _ _ _ _ => trivial
  intro c hc
  rcases hcaller with ⟨s, hs, hcaller⟩
  exact ⟨s, message, hs, hcaller, hc⟩

theorem admin_meets {ev : AuthEvent} (h : Permitted sha256Hex mm r seen (.store ev)) :
    MeetsOk (GivenIn sha256Hex seen) (Permitted sha256Hex mm r seen) (fun _ => True)
      (Router.admin ev) :=
  MeetsOk.bind (store_meets h) fun _ _ => meetsOk_pure trivial

/-- A known user passes the extractor under its own name. -/
theorem callerAt_of_authUser {principal : Principal} (h : Known sha256Hex r seen principal)
    {user : AuthUser} (huser : authUser (some principal) = .ok user) :
    ∃ s, seen s ∧ r.CallerAt sha256Hex s user.username := by
  cases principal with
  | root => cases huser
  | user username role =>
      cases huser
      rcases h with ⟨secret, s, hbearer, hs, hresolve⟩
      exact ⟨s, hs, secret, role, hbearer, hresolve⟩

/-- Who passes the admin extractor may change the store. -/
theorem permitted_of_adminPrincipal {principal : Principal}
    (h : Known sha256Hex r seen principal)
    (hadmin : adminPrincipal (some principal) = .ok ()) (ev : AuthEvent) :
    Permitted sha256Hex mm r seen (.store ev) := by
  cases principal with
  | root => exact Or.inr (Or.inr h)
  | user username role =>
      rcases h with ⟨secret, s, hbearer, hs, hresolve⟩
      unfold adminPrincipal at hadmin
      simp only at hadmin
      split at hadmin <;> rename_i hrole
      · rw [hrole] at hresolve
        exact Or.inr (Or.inl ⟨s, hs, secret, username, hbearer, hresolve⟩)
      · cases hadmin

theorem handle_meets {principal : Principal} (h : Known sha256Hex r seen principal)
    (route : ProtectedRoute) :
    MeetsOk (GivenIn sha256Hex seen) (Permitted sha256Hex mm r seen) (fun _ => True)
      (Router.handle mm principal route) := by
  cases route with
  | writeMemory req hop script =>
      refine MeetsOk.bind (extract_meets _) ?_
      intro user huser
      exact sendAndAnswer_meets (callerAt_of_authUser h huser)
  | readMemory req hop storage =>
      refine MeetsOk.bind (extract_meets _) ?_
      intro user huser
      exact sendAndAnswer_meets (callerAt_of_authUser h huser)
  | deleteMemory req hop script =>
      refine MeetsOk.bind (extract_meets _) ?_
      intro user huser
      exact sendAndAnswer_meets (callerAt_of_authUser h huser)
  | searchMemory req hop script =>
      refine MeetsOk.bind (extract_meets _) ?_
      intro user huser
      exact sendAndAnswer_meets (callerAt_of_authUser h huser)
  | getSummary req manager reply =>
      refine MeetsOk.bind (extract_meets _) ?_
      intro user _
      unfold Router.getSummary
      cases manager with
      | unsent => exact fun _ _ => trivial
      | dropped => exact fun _ _ => trivial
      | unanswered => exact fun _ _ => trivial
      | answered =>
          simp only
          split <;> exact fun _ _ => trivial
  | me =>
      refine MeetsOk.bind (extract_meets _) ?_
      intro user _
      exact meetsOk_pure trivial
  | change action draw dbError =>
      refine MeetsOk.bind (extract_meets _) ?_
      intro _ hadmin
      exact admin_meets (permitted_of_adminPrincipal h hadmin _)
  | listUsers s =>
      refine MeetsOk.bind (extract_meets _) ?_
      intro _ hadmin
      exact admin_meets (permitted_of_adminPrincipal h hadmin _)
  | listTokens username s =>
      refine MeetsOk.bind (extract_meets _) ?_
      intro _ hadmin
      exact admin_meets (permitted_of_adminPrincipal h hadmin _)

/-- Every call of a request is within what its caller may do. -/
theorem serve_meets (sha256Hex : String → String) (mm : MemoryManager) (r : Request)
    (seen : ServerState → Prop) :
    MeetsOk (GivenIn sha256Hex seen) (Permitted sha256Hex mm r seen) (fun _ => True)
      (Router.serve mm r) := by
  unfold Router.serve
  cases r.route with
  | health => exact meetsOk_pure trivial
  | v1 route => exact MeetsOk.bind authMiddleware_meets fun _ h => handle_meets h route

end

/-! ## Requests side by side -/

/-- Requests none of which has made a call yet. -/
def Router.start {ι : Type} (mm : MemoryManager) (s : ServerState) (requests : ι → Request) :
    Pool ι ServerCall ServerCall.Response (Except RouteError ApiReply) ServerState where
  env := s
  prog i := (Router.serve mm (requests i)).run

section

variable {ι : Type} [DecidableEq ι] (mm : MemoryManager) (s₀ : ServerState)
  (requests : ι → Request)

/-- The state is one in which the request had its turn. -/
abbrev AtTurn (turns : List ι) (i : ι) (s : ServerState) : Prop :=
  Pool.AtTurn (ServerState.answer sha256Hex) (Router.start mm s₀ requests) turns i s

variable {sha256Hex} {mm} {s₀} {requests}

/-- Whatever call a request is about to make, it is permitted by what the request was told at its
turns. -/
theorem permitted_of_run {turns : List ι}
    {p : Pool ι ServerCall ServerCall.Response (Except RouteError ApiReply) ServerState}
    (hrun : run (Pool.step (ServerState.answer sha256Hex)) (Router.start mm s₀ requests) turns =
      some p) {i : ι} {c : ServerCall} {k : c.Response → RouteProg (Except RouteError ApiReply)}
    (hturn : p.prog i = .call c k) :
    Permitted sha256Hex mm (requests i) (AtTurn sha256Hex mm s₀ requests turns i) c := by
  have hseen : ∀ before rest r, turns = before ++ i :: rest →
      run (Pool.step (ServerState.answer sha256Hex)) (Router.start mm s₀ requests) before =
        some r → AtTurn sha256Hex mm s₀ requests turns i r.env := by
    intro before rest r hsplit hr
    exact ⟨before, rest, r, hsplit, hr, rfl⟩
  have hmeets := Pool.run_seen hseen (serve_meets sha256Hex mm (requests i) _) hrun
  rw [hturn] at hmeets
  exact hmeets.1

end

/-! ## What the store's calls have left -/

/-- The store is what its calls have made of an empty one. -/
def Logged (adminToken : Option String) (s : ServerState) : Prop :=
  run (AuthStore.step sha256Hex) (AuthStore.fromConnection sha256Hex adminToken) s.calls =
    some s.auth

section

variable {sha256Hex} {adminToken : Option String}

theorem Logged.answer {s : ServerState} (h : Logged sha256Hex adminToken s) (c : ServerCall) :
    Logged sha256Hex adminToken (ServerState.answer sha256Hex c s).2 := by
  cases c with
  | verifyRoot secret => exact h
  | store ev => exact run_append_eq_some.mpr ⟨_, h, rfl⟩
  | actor c => exact h

/-- Only valid names are in the table of users. -/
theorem Logged.validUsername {s : ServerState} (h : Logged sha256Hex adminToken s)
    {secret username role : String} {now : Int}
    (hresolve : s.auth.resolveToken sha256Hex secret now = some (.user username role)) :
    validateUsername username = .ok () := by
  have hvalid : ∀ u ∈ s.auth.db.users, validateUsername u.username = .ok () := by
    refine run_invariant
      (I := fun store : AuthStore => ∀ u ∈ store.db.users, validateUsername u.username = .ok ())
      ?_ ?_ h
    · intro store ev store' hstore hstep
      cases hstep
      rcases store.after_cases sha256Hex ev with ⟨e, -, heq⟩ | ⟨reply, hok⟩
      · rw [heq]
        exact hstore
      · rcases AuthStore.perform_ok_cases sha256Hex hok with
          ⟨name, role, -, hname, -, -, husers, -⟩ | ⟨name, -, -, husers, -⟩ |
          ⟨name, tokenName, expiresAt, id, minted, -, -, -, husers, -⟩ |
          ⟨id, -, husers, -⟩ | ⟨-, heq⟩
        · intro u hu
          rw [husers, List.mem_append, List.mem_singleton] at hu
          rcases hu with hu | rfl
          · exact hstore u hu
          · exact hname
        · intro u hu
          rw [husers] at hu
          exact hstore u (List.mem_filter.mp hu).1
        · rw [husers]
          exact hstore
        · rw [husers]
          exact hstore
        · rw [heq]
          exact hstore
    · intro u hu
      cases hu
  rcases (AuthStore.resolveToken_eq_some_iff sha256Hex).mp hresolve with
    ⟨t, -, u, hu, -, hname, -, hp⟩
  cases hp
  rw [← hname]
  exact hvalid u hu

/-- By what the store was asked for up to now, the secret is a token of the user: it was given
out for the user, and since then neither revoked nor deleted with its user; it has not
expired. -/
def IsTokenOf (sha256Hex : String → String) (adminToken : Option String) (calls : List AuthEvent)
    (username secret : String) (now : Int) : Prop :=
  ∃ pre ev post name expiresAt id,
    AuthStore.history sha256Hex (AuthStore.fromConnection sha256Hex adminToken) calls =
        pre ++ (ev, .ok (.token ⟨id, secret⟩)) :: post ∧
      ev.call = .createToken username name expiresAt id secret ∧
      (∀ record ∈ post, record.2.isOk = true →
        record.1.call ≠ .revokeToken id ∧ record.1.call ≠ .deleteUser username) ∧
      ∀ exp, expiresAt = some exp → now ≤ exp

/-- A secret resolves to a user only if it is a token of the user. -/
theorem Logged.isTokenOf {s : ServerState} (h : Logged sha256Hex adminToken s)
    {secret username role : String} {now : Int}
    (hinj : Set.InjOn sha256Hex (insert secret (AuthStore.mintedSecrets s.calls)))
    (hresolve : s.auth.resolveToken sha256Hex secret now = some (.user username role)) :
    IsTokenOf sha256Hex adminToken s.calls username secret now := by
  rcases (AuthStore.resolveToken_iff_minted sha256Hex h hinj now _).mp hresolve with
    ⟨name, role', pre, ev, post, tokenName, expiresAt, id, hsplit, hcall, hpost, hexp, -, hp⟩
  cases hp
  exact ⟨pre, ev, post, tokenName, expiresAt, id, hsplit, hcall, hpost, hexp⟩

end

/-- A reading call leaves the store as it is. -/
theorem after_of_readOnly (sha256Hex : String → String) (store : AuthStore) {ev : AuthEvent}
    (h : ev.call.readOnly = true) : store.after sha256Hex ev = store := by
  rcases store.after_cases sha256Hex ev with ⟨e, -, heq⟩ | ⟨reply, hok⟩
  · exact heq
  · rcases AuthStore.perform_ok_cases sha256Hex hok with
      ⟨name, role, hcall, -⟩ | ⟨name, hcall, -⟩ |
      ⟨name, tokenName, expiresAt, id, minted, hcall, -⟩ |
      ⟨id, hcall, -⟩ | ⟨-, heq⟩
    · rw [hcall] at h
      cases h
    · rw [hcall] at h
      cases h
    · rw [hcall] at h
      cases h
    · rw [hcall] at h
      cases h
    · exact heq

/-! ## Who changes what -/

/-- What is sent for another user leaves a user's files alone. -/
theorem files_spared_of_sends {mm : MemoryManager} {message : MemoryMessage} {username : String}
    (hvalid : validateUsername message.username = .ok ()) (hne : message.username ≠ username)
    {c : ActorCall} (hsends : message.Sends mm c) (w : World) :
    (World.answer c w).2.Alike username w := by
  cases message with
  | write msg script =>
      cases hsends with
      | index hpath hbuild =>
          intro l _
          simp only [World.answer, World.sendInsert_fs]
      | store hpath =>
          intro l hl
          simp only [World.answer, World.sendStorageWrite]
          split
          · exact storageWrite_spares hvalid hpath hne _ _ l hl
          · rfl
      | undo hpath =>
          intro l _
          simp only [World.answer, World.sendDelete_fs]
  | read msg storage =>
      cases hsends with
      | read hpath => exact fun _ _ => rfl
  | delete msg script =>
      cases hsends with
      | index hpath =>
          intro l _
          simp only [World.answer, World.sendDelete_fs]
      | store hpath =>
          intro l hl
          simp only [World.answer, World.sendStorageDelete]
          split
          · exact storageDelete_spares hvalid hpath hne _ l hl
          · rfl
  | search msg script =>
      rw [ActorCall.LooksUp.unchanged hsends]
      exact fun _ _ => rfl

section

variable {sha256Hex} {adminToken : Option String} {ι : Type} [DecidableEq ι]
  {mm : MemoryManager} {s₀ : ServerState} {requests : ι → Request}

/-- The store is what its calls have made of it throughout a run, and its calls are never
forgotten. -/
theorem logged_of_run (hs₀ : Logged sha256Hex adminToken s₀) {turns : List ι}
    {p : Pool ι ServerCall ServerCall.Response (Except RouteError ApiReply) ServerState}
    (hrun : run (Pool.step (ServerState.answer sha256Hex)) (Router.start mm s₀ requests) turns =
      some p) : Logged sha256Hex adminToken p.env := by
  exact Pool.run_keeps (I := Logged sha256Hex adminToken) (fun c s hs => hs.answer c) hs₀ hrun

theorem calls_prefix_of_run {turns : List ι}
    {p q : Pool ι ServerCall ServerCall.Response (Except RouteError ApiReply) ServerState}
    (hrun : run (Pool.step (ServerState.answer sha256Hex)) p turns = some q) :
    p.env.calls <+: q.env.calls := by
  refine Pool.run_keeps (I := fun s : ServerState => p.env.calls <+: s.calls) ?_
    (List.prefix_refl _) hrun
  intro c s hs
  cases c with
  | verifyRoot secret => exact hs
  | store ev => exact hs.trans (List.prefix_append _ _)
  | actor c => exact hs

/-- In every interleaving of requests, a step that changes a file of a user is one of a request that
has shown a token which was the user's at one of the request's earlier turns. -/
theorem files_changed_with_token (hs₀ : Logged sha256Hex adminToken s₀) {turns : List ι}
    {p q : Pool ι ServerCall ServerCall.Response (Except RouteError ApiReply) ServerState}
    (hrun : run (Pool.step (ServerState.answer sha256Hex)) (Router.start mm s₀ requests) turns =
      some p) {i : ι} (hstep : Pool.step (ServerState.answer sha256Hex) p i = some q)
    (hinj : ∀ secret, bearer (requests i).authorization = some secret →
      Set.InjOn sha256Hex (insert secret (AuthStore.mintedSecrets p.env.calls)))
    {username : String} (hchanged : ¬ q.env.world.Alike username p.env.world) :
    ∃ secret s, bearer (requests i).authorization = some secret ∧
      AtTurn sha256Hex mm s₀ requests turns i s ∧
        IsTokenOf sha256Hex adminToken s.calls username secret (requests i).resolve.now := by
  rcases Pool.step_eq_some hstep with ⟨c, k, hturn, henv, -⟩
  have hpermitted := permitted_of_run hrun hturn
  have hunchanged : ∀ w : World, w.Alike username w := fun _ _ _ => rfl
  cases c with
  | verifyRoot secret =>
      rw [henv] at hchanged
      exact absurd (hunchanged _) hchanged
  | store ev =>
      rw [henv] at hchanged
      exact absurd (hunchanged _) hchanged
  | actor c =>
      rcases hpermitted with ⟨s, message, hseen, ⟨secret, role, hbearer, hresolve⟩, hsends⟩
      rcases hseen with ⟨before, rest, p₁, hturns, hbefore, rfl⟩
      have hlogged := logged_of_run hs₀ hbefore
      have huser : message.username = username := by
        by_contra hne
        rw [henv] at hchanged
        exact hchanged
          (files_spared_of_sends (hlogged.validUsername hresolve) hne hsends p.env.world)
      subst huser
      refine ⟨secret, p₁.env, hbearer, ⟨before, rest, p₁, hturns, hbefore, rfl⟩, ?_⟩
      refine hlogged.isTokenOf ((hinj secret hbearer).mono ?_) hresolve
      rw [hturns, run_append_eq_some] at hrun
      rcases hrun with ⟨p₂, hp₂, hrest⟩
      rw [hbefore, Option.some.injEq] at hp₂
      subst hp₂
      refine Set.insert_subset_insert ?_
      rintro minted ⟨ev, hev, hminted⟩
      exact ⟨ev, (calls_prefix_of_run hrest).subset hev, hminted⟩

/-- A store with a user and a token. -/
def sampleCalls : List AuthEvent :=
  [⟨.createUser "alice" "user", 1, none⟩,
    ⟨.createToken "alice" none none "t1" "mh_first", 2, none⟩]

/-- The server after these calls. -/
def sampleState : ServerState where
  auth := ((AuthStore.fromConnection sha256HexSample (some "mh_root")).after sha256HexSample
    ⟨.createUser "alice" "user", 1, none⟩).after sha256HexSample
      ⟨.createToken "alice" none none "t1" "mh_first", 2, none⟩
  calls := sampleCalls
  world := .fresh

/-- Alice writes a note. -/
def sampleRequest : Request where
  authorization := some "Bearer mh_first"
  check := ⟨3, none⟩
  resolve := ⟨3, none⟩
  route := .v1 (.writeMemory ⟨.nil, none, "a.md", "x"⟩ .answered .sample)

theorem files_changed_with_token_sample :
    ∃ secret s, bearer sampleRequest.authorization = some secret ∧
      AtTurn sha256HexSample ⟨400, 80, none⟩ sampleState (fun _ : Unit => sampleRequest)
        [(), (), ()] () s ∧
      IsTokenOf sha256HexSample (some "mh_root") s.calls "alice" secret 3 := by
  have hend : ((run (Pool.step (ServerState.answer sha256HexSample))
      (Router.start ⟨400, 80, none⟩ sampleState fun _ : Unit => sampleRequest)
        [(), (), ()]).bind fun p =>
          (Pool.step (ServerState.answer sha256HexSample) p ()).map fun q =>
            (p.env.calls, p.env.world.fs.node ["alice"], q.env.world.fs.node ["alice"])) =
      some (sampleCalls ++ [⟨.resolveToken "mh_first", 3, none⟩], none, some .dir) := by
    decide +kernel
  rcases Option.bind_eq_some_iff.mp hend with ⟨p, hp, hmap⟩
  rcases Option.map_eq_some_iff.mp hmap with ⟨q, hq, hfacts⟩
  simp only [Prod.mk.injEq] at hfacts
  rcases hfacts with ⟨hcalls, hbefore, hafter⟩
  have hlogged : Logged sha256HexSample (some "mh_root") sampleState := rfl
  have hbearer : bearer sampleRequest.authorization = some "mh_first" := by decide
  refine files_changed_with_token hlogged hp hq ?_ ?_
  · intro secret hsecret
    rw [hbearer, Option.some.injEq] at hsecret
    subst hsecret
    have honly : ∀ minted ∈ insert "mh_first" (AuthStore.mintedSecrets p.env.calls),
        minted = "mh_first" := by
      rintro minted (rfl | ⟨ev, hev, username, name, expiresAt, id, hcall⟩)
      · rfl
      · rw [hcalls] at hev
        simp only [sampleCalls, List.cons_append, List.nil_append, List.mem_cons,
          List.not_mem_nil, or_false] at hev
        rcases hev with rfl | rfl | rfl
        · cases hcall
        · cases hcall
          rfl
        · cases hcall
    intro a ha b hb _
    rw [honly a ha, honly b hb]
  · intro hsame
    have hnode := hsame ["alice"] (Or.inr ⟨[], rfl⟩)
    rw [hbefore, hafter] at hnode
    cases hnode

/-- In every interleaving of requests, a step that changes the users or the tokens is one of a
request whose bearer was an admin at one of the request's earlier turns, or had the root token
while there was no admin. -/
theorem store_changed_by_admin {turns : List ι}
    {p q : Pool ι ServerCall ServerCall.Response (Except RouteError ApiReply) ServerState}
    (hrun : run (Pool.step (ServerState.answer sha256Hex)) (Router.start mm s₀ requests) turns =
      some p) {i : ι} (hstep : Pool.step (ServerState.answer sha256Hex) p i = some q)
    (hchanged : q.env.auth ≠ p.env.auth) :
    (∃ s, AtTurn sha256Hex mm s₀ requests turns i s ∧ (requests i).AdminAt sha256Hex s) ∨
      ((∃ s, AtTurn sha256Hex mm s₀ requests turns i s ∧ (requests i).RootAt sha256Hex s) ∧
        ∃ s, AtTurn sha256Hex mm s₀ requests turns i s ∧ s.auth.hasAdmin = false) := by
  rcases Pool.step_eq_some hstep with ⟨c, k, hturn, henv, -⟩
  have hpermitted := permitted_of_run hrun hturn
  cases c with
  | verifyRoot secret =>
      rw [henv] at hchanged
      exact absurd rfl hchanged
  | actor c =>
      rw [henv] at hchanged
      exact absurd rfl hchanged
  | store ev =>
      rcases hpermitted with hreads | hadmin
      · rw [henv] at hchanged
        exact absurd (after_of_readOnly sha256Hex p.env.auth hreads) hchanged
      · exact hadmin

/-- The root makes the first admin. -/
def sampleBootstrap : Request where
  authorization := some "Bearer mh_root"
  check := ⟨1, none⟩
  resolve := ⟨1, none⟩
  route := .v1 (.change (.createUser ⟨"alice", "admin"⟩) ⟨1, "", ""⟩ none)

/-- A server whose store is empty. -/
def emptyState : ServerState :=
  ⟨AuthStore.fromConnection sha256HexSample (some "mh_root"), [], .fresh⟩

theorem store_changed_by_admin_sample :
    (∃ s, AtTurn sha256HexSample ⟨400, 80, none⟩ emptyState (fun _ : Unit => sampleBootstrap)
        [(), ()] () s ∧ sampleBootstrap.AdminAt sha256HexSample s) ∨
      ((∃ s, AtTurn sha256HexSample ⟨400, 80, none⟩ emptyState (fun _ : Unit => sampleBootstrap)
          [(), ()] () s ∧ sampleBootstrap.RootAt sha256HexSample s) ∧
        ∃ s, AtTurn sha256HexSample ⟨400, 80, none⟩ emptyState
          (fun _ : Unit => sampleBootstrap) [(), ()] () s ∧ s.auth.hasAdmin = false) := by
  have hend : ((run (Pool.step (ServerState.answer sha256HexSample))
      (Router.start ⟨400, 80, none⟩ emptyState fun _ : Unit => sampleBootstrap) [(), ()]).bind
        fun p => (Pool.step (ServerState.answer sha256HexSample) p ()).map fun q =>
          (p.env.auth.hasAdmin, q.env.auth.hasAdmin)) = some (false, true) := by
    decide +kernel
  rcases Option.bind_eq_some_iff.mp hend with ⟨p, hp, hmap⟩
  rcases Option.map_eq_some_iff.mp hmap with ⟨q, hq, hfacts⟩
  simp only [Prod.mk.injEq] at hfacts
  refine store_changed_by_admin hp hq ?_
  intro hsame
  rw [hsame, hfacts.1] at hfacts
  exact Bool.false_ne_true hfacts.2

end

end Http
end MemoryHub
