import MemoryHub.Http.TokenHistory
import MemoryHub.Http.Middleware

/-!
# Bootstrap

The root token provisions a fresh deployment and is ignored from the first admin
user on.  This module follows the store through runs of calls and of admin
requests served one after another.

Main results:

- Theorem `root_stays_off`: once an admin user exists, none of the later states
  lacks one and no request is given the root principal.
- Theorem `administrable_iff`: in a state reached through admin requests, some
  credential is accepted exactly while no admin user exists.
- Theorem `administrable_throughout_iff`: the admin interface stays usable over a
  run exactly when the root token can be presented and no request of the run
  creates an admin user.
-/

namespace MemoryHub
namespace Http

open Machine

variable (sha256Hex : String → String)

/-! ## The root token never comes back -/

/-- Once an admin user exists, every later state has one, and from then on the
middleware's check gives no request the root principal. -/
theorem root_stays_off {s t : AuthStore} {evs : List AuthEvent} (hadmin : s.hasAdmin = true)
    (hrun : run (AuthStore.step sha256Hex) s evs = some t) :
    t.hasAdmin = true ∧ ∀ resolved authorization now,
      authMiddleware sha256Hex t resolved authorization now ≠ .ok .root := by
  have ht : t.hasAdmin = true := by
    refine run_invariant (I := fun s => s.hasAdmin = true) ?_ hadmin hrun
    intro s ev t hs hstep
    cases hstep
    exact AuthStore.hasAdmin_after sha256Hex ev hs
  refine ⟨ht, ?_⟩
  intro resolved authorization now hroot
  rcases (authMiddleware_eq_root_iff sha256Hex).mp hroot with ⟨secret, -, hhonored⟩
  rw [rootHonored_eq_false sha256Hex ht] at hhonored
  contradiction

/-- Two admins are created and the first is deleted: the root token stays off. -/
theorem root_stays_off_two_admins :
    let s := (AuthStore.fromConnection sha256HexSample (some "mh_root")).after sha256HexSample
      ⟨.createUser "boss" "admin", 1, none⟩
    let t := (s.after sha256HexSample ⟨.createUser "deputy" "admin", 2, none⟩).after
      sha256HexSample ⟨.deleteUser "boss", 3, none⟩
    t.hasAdmin = true ∧ ∀ resolved authorization now,
      authMiddleware sha256HexSample t resolved authorization now ≠ .ok .root :=
  have hrun : ∀ s : AuthStore, run (AuthStore.step sha256HexSample) s
      [⟨.createUser "deputy" "admin", 2, none⟩, ⟨.deleteUser "boss", 3, none⟩] =
        some ((s.after sha256HexSample ⟨.createUser "deputy" "admin", 2, none⟩).after
          sha256HexSample ⟨.deleteUser "boss", 3, none⟩) :=
    fun _ => rfl
  root_stays_off sha256HexSample (by decide) (hrun _)

/-! ## Admin requests one after another -/

/-- An admin request: its `Authorization` header and its route. -/
structure AdminRequest where
  authorization : Option String
  action : AdminAction
deriving DecidableEq, Repr

/-- A request with this header passes the middleware and the admin extractor. -/
def Accepts (store : AuthStore) (authorization : Option String) (now : Int) : Prop :=
  ∃ principal, authMiddleware sha256Hex store store authorization now = .ok principal ∧
    adminPrincipal (some principal) = .ok ()

/-- Serve an accepted request; `none` when it is turned away. -/
def serve (store : AuthStore) (req : AdminRequest × Draw) : Option AuthStore :=
  match authMiddleware sha256Hex store store req.1.authorization req.2.now with
  | .error _ => none
  | .ok principal =>
      match adminPrincipal (some principal) with
      | .error _ => none
      | .ok () =>
          match Admin.handle sha256Hex (some principal) store req.1.action req.2 with
          | .ok (_, store') => some store'
          | .error _ => some store

/-- Some credential is accepted, whenever it is sent. -/
def Administrable (store : AuthStore) : Prop :=
  ∃ authorization, ∀ now, Accepts sha256Hex store authorization now

/-- Some header carries a secret that verifies as the root token. -/
def RootPresentable (store : AuthStore) : Prop :=
  ∃ authorization secret, bearer authorization = some secret ∧
    store.verifyRoot sha256Hex secret = true

/-- The route creates an admin user in this state: the role is `admin`, the name
is valid and not taken. -/
def createsAdmin (store : AuthStore) : AdminAction → Bool
  | .createUser req =>
      req.role == "admin" && (validateUsername req.username).isOk &&
        !(store.db.users.map UserInfo.username).contains req.username
  | _ => false

/-- Tokens of an admin user do not exist. -/
def NoAdminToken (store : AuthStore) : Prop :=
  ∀ t ∈ store.db.tokens, ∀ u ∈ store.db.users, u.username = t.username → u.role ≠ "admin"

variable {sha256Hex}

private theorem isOk_iff_eq_ok {ε : Type} {x : Except ε Unit} : x.isOk = true ↔ x = .ok () := by
  cases x <;> simp [Except.isOk, Except.toBool]

/-- A successful handler leaves an admin behind exactly if there was one or its
route creates one. -/
theorem hasAdmin_handle_iff {principal : Option Principal} {store store' : AuthStore}
    {action : AdminAction} {draw : Draw} {reply : AdminReply}
    (h : Admin.handle sha256Hex principal store action draw = .ok (reply, store')) :
    store'.hasAdmin = true ↔ store.hasAdmin = true ∨ createsAdmin store action = true := by
  rcases handle_eq_ok sha256Hex h with ⟨-, r, hperform⟩
  have hafter : store.after sha256Hex (action.event draw) = store' := by
    simp [AuthStore.after, hperform]
  constructor
  · intro hadmin
    rw [AuthStore.hasAdmin_iff] at hadmin ⊢
    rcases hadmin with ⟨u, hu, hrole⟩
    rcases AuthStore.perform_ok_cases sha256Hex hperform with
      ⟨username, role, hcall, hname, -, hfresh, husers, -⟩ |
      ⟨username, -, -, husers, -⟩ |
      ⟨username, name, expiresAt, id, secret, -, -, -, husers, -⟩ |
      ⟨id, -, husers, -⟩ | ⟨-, heq⟩
    · rw [husers] at hu
      rcases List.mem_append.mp hu with hu | hu
      · exact Or.inl ⟨u, hu, hrole⟩
      · -- The new row is the admin, so the route was `create_user` with that role.
        have hnew := List.mem_singleton.mp hu
        cases action with
        | createUser req =>
            simp only [AdminAction.event, AdminAction.call, AuthCall.createUser.injEq] at hcall
            rcases hcall with ⟨rfl, rfl⟩
            have hadminRole : req.role = "admin" := by
              rw [hnew] at hrole
              exact hrole
            apply Or.inr
            simp [createsAdmin, hadminRole, isOk_iff_eq_ok.mpr hname]
            simpa using hfresh
        | deleteUser username => simp [AdminAction.event, AdminAction.call] at hcall
        | createToken username req => simp [AdminAction.event, AdminAction.call] at hcall
        | revokeToken id => simp [AdminAction.event, AdminAction.call] at hcall
    · rw [husers] at hu
      exact Or.inl ⟨u, (List.mem_filter.mp hu).1, hrole⟩
    · exact Or.inl ⟨u, husers ▸ hu, hrole⟩
    · exact Or.inl ⟨u, husers ▸ hu, hrole⟩
    · rw [heq] at hu
      exact Or.inl ⟨u, hu, hrole⟩
  · intro hor
    rcases hor with hadmin | hcreates
    · rw [← hafter]
      exact AuthStore.hasAdmin_after sha256Hex _ hadmin
    · cases action with
      | createUser req =>
          simp only [createsAdmin, Bool.and_eq_true, beq_iff_eq] at hcreates
          rw [AuthStore.hasAdmin_iff]
          rcases AuthStore.perform_ok_cases sha256Hex hperform with
            ⟨username, role, hcall, -, -, -, husers, -⟩ |
            ⟨username, hcall, -⟩ | ⟨username, name, expiresAt, id, secret, hcall, -⟩ |
            ⟨id, hcall, -⟩ | ⟨hread, -⟩
          · simp only [AdminAction.event, AdminAction.call, AuthCall.createUser.injEq] at hcall
            rcases hcall with ⟨rfl, rfl⟩
            exact ⟨_, husers ▸ List.mem_append_right _ (List.mem_singleton.mpr rfl),
              hcreates.1.1⟩
          · simp [AdminAction.event, AdminAction.call] at hcall
          · simp [AdminAction.event, AdminAction.call] at hcall
          · simp [AdminAction.event, AdminAction.call] at hcall
          · simp [AdminAction.event, AdminAction.call, AuthCall.readOnly] at hread
      | deleteUser username => simp [createsAdmin] at hcreates
      | createToken username req => simp [createsAdmin] at hcreates
      | revokeToken id => simp [createsAdmin] at hcreates

/-- Without tokens of admins, only the root token opens the admin interface, and
only while no admin user exists. -/
theorem accepts_iff {store : AuthStore} (htokens : NoAdminToken store)
    {authorization : Option String} {now : Int} :
    Accepts sha256Hex store authorization now ↔
      ∃ secret, bearer authorization = some secret ∧
        store.verifyRoot sha256Hex secret = true ∧ store.hasAdmin = false := by
  unfold Accepts
  rw [adminPrincipal_authMiddleware_iff]
  refine exists_congr fun secret => and_congr_right fun _ => ?_
  constructor
  · intro h
    rcases h with hroot | ⟨username, -, hres⟩
    · simpa [rootHonored] using hroot
    · rcases (AuthStore.resolveToken_eq_some_iff sha256Hex).mp hres with
        ⟨t, ht, u, hu, -, hname, -, hp⟩
      have hrole : "admin" = u.role := (Principal.user.inj hp).2
      exact absurd hrole.symm (htokens t ht u hu hname)
  · intro h
    exact Or.inl (by simp [rootHonored, h.1, h.2])

/-- In a state without tokens of admins, some credential is accepted exactly while
no admin user exists, if the root token can be presented at all. -/
theorem administrable_iff {store : AuthStore} (htokens : NoAdminToken store) :
    Administrable sha256Hex store ↔
      RootPresentable sha256Hex store ∧ store.hasAdmin = false := by
  constructor
  · intro h
    rcases h with ⟨authorization, haccepts⟩
    rcases (accepts_iff htokens).mp (haccepts 0) with ⟨secret, hbearer, hroot, hadmin⟩
    exact ⟨⟨authorization, secret, hbearer, hroot⟩, hadmin⟩
  · intro h
    rcases h with ⟨⟨authorization, secret, hbearer, hroot⟩, hadmin⟩
    exact ⟨authorization, fun now => (accepts_iff htokens).mpr ⟨secret, hbearer, hroot, hadmin⟩⟩

/-- A served request was accepted, and its handler answered or failed. -/
theorem serve_eq_some {store store' : AuthStore} {req : AdminRequest × Draw}
    (h : serve sha256Hex store req = some store') :
    Accepts sha256Hex store req.1.authorization req.2.now ∧
      ∃ principal, (∃ reply, Admin.handle sha256Hex (some principal) store req.1.action req.2 =
          .ok (reply, store')) ∨
        ((∃ e, Admin.handle sha256Hex (some principal) store req.1.action req.2 = .error e) ∧
          store' = store ∧ adminPrincipal (some principal) = .ok ()) := by
  unfold serve at h
  cases hauth : authMiddleware sha256Hex store store req.1.authorization req.2.now with
  | error e => simp [hauth] at h
  | ok principal =>
      cases hadmin : adminPrincipal (some principal) with
      | error e => simp [hauth, hadmin] at h
      | ok _ =>
          refine ⟨⟨principal, hauth, hadmin⟩, principal, ?_⟩
          cases hhandle : Admin.handle sha256Hex (some principal) store req.1.action req.2 with
          | error e =>
              simp only [hauth, hadmin, hhandle, Option.some.injEq] at h
              exact Or.inr ⟨⟨e, rfl⟩, h.symm, hadmin⟩
          | ok r =>
              simp only [hauth, hadmin, hhandle, Option.some.injEq] at h
              exact Or.inl ⟨r.1, by rw [← h]⟩

/-- The route that creates an admin succeeds behind an admin principal. -/
theorem handle_ok_of_createsAdmin {principal : Option Principal} {store : AuthStore}
    {action : AdminAction} (draw : Draw) (hadmin : adminPrincipal principal = .ok ())
    (hcreates : createsAdmin store action = true) :
    ∃ r, Admin.handle sha256Hex principal store action draw = .ok r := by
  cases action with
  | createUser req =>
      simp only [createsAdmin, Bool.and_eq_true, beq_iff_eq, isOk_iff_eq_ok,
        Bool.not_eq_true', List.contains_eq_mem, decide_eq_false_iff_not] at hcreates
      rcases hcreates with ⟨⟨hrole, hname⟩, hfresh⟩
      have hcall : ∃ r, store.createUser req.username req.role draw.now = .ok r := by
        simp only [AuthStore.createUser, hname, hrole]
        simp [validateRole, AuthDb.insertUser, hfresh]
      rcases hcall with ⟨r, hr⟩
      exact ⟨_, by simp only [Admin.handle, hadmin]; exact Admin.answer_eq_ok.mpr ⟨r, hr, rfl⟩⟩
  | deleteUser username => simp [createsAdmin] at hcreates
  | createToken username req => simp [createsAdmin] at hcreates
  | revokeToken id => simp [createsAdmin] at hcreates

/-- A call mints no token for an admin while there is no admin. -/
theorem noAdminToken_perform {store store' : AuthStore} {ev : AuthEvent} {reply : AuthReply}
    (hadmin : store.hasAdmin = false)
    (h : store.perform sha256Hex ev = .ok (reply, store')) : NoAdminToken store' := by
  have hnone : ∀ u ∈ store.db.users, u.role ≠ "admin" := by
    intro u hu hrole
    have : store.hasAdmin = true := store.hasAdmin_iff.mpr ⟨u, hu, hrole⟩
    simp [this] at hadmin
  intro t ht u hu hname
  rcases AuthStore.perform_ok_cases sha256Hex h with
    ⟨username, role, -, -, -, hfresh, husers, htoks⟩ |
    ⟨username, -, -, husers, htoks⟩ |
    ⟨username, name, expiresAt, id, secret, -, -, -, husers, -⟩ |
    ⟨id, -, husers, -⟩ | ⟨-, heq⟩
  · rw [husers] at hu
    rw [htoks] at ht
    rcases List.mem_append.mp hu with hu | hu
    · exact hnone u hu
    · -- The new name owns no token: the foreign key points at older rows.
      have howner := store.db.tokens_references t ht
      have hnew : u.username = username := by rw [List.mem_singleton.mp hu]
      rw [← hname, hnew] at howner
      exact absurd howner hfresh
  · rw [husers] at hu
    exact hnone u (List.mem_filter.mp hu).1
  · exact hnone u (husers ▸ hu)
  · exact hnone u (husers ▸ hu)
  · rw [heq] at hu
    exact hnone u hu

/-- A call does not change the configured root token. -/
theorem rootTokenHash_handle {principal : Option Principal} {store store' : AuthStore}
    {action : AdminAction} {draw : Draw} {reply : AdminReply}
    (h : Admin.handle sha256Hex principal store action draw = .ok (reply, store')) :
    store'.rootTokenHash = store.rootTokenHash := by
  unfold Admin.handle at h
  cases hadmin : adminPrincipal principal with
  | error e => simp [hadmin] at h
  | ok _ =>
      simp only [hadmin] at h
      cases action with
      | createUser req =>
          rcases Admin.answer_eq_ok.mp h with ⟨⟨info, s⟩, hcall, heq⟩
          cases heq
          rcases AuthStore.createUser_eq_ok_iff.mp hcall with ⟨-, -, -, db, -, rfl⟩
          rfl
      | deleteUser username =>
          rcases Admin.answer_eq_ok.mp h with ⟨s, hcall, heq⟩
          cases heq
          rcases AuthStore.deleteUser_eq_ok_iff.mp hcall with ⟨-, rfl⟩
          rfl
      | createToken username req =>
          rcases Admin.answer_eq_ok.mp h with ⟨⟨new, s⟩, hcall, heq⟩
          cases heq
          rcases (AuthStore.createToken_eq_ok_iff sha256Hex).mp hcall with ⟨-, -, db, -, rfl⟩
          rfl
      | revokeToken id =>
          rcases Admin.answer_eq_ok.mp h with ⟨s, hcall, heq⟩
          cases heq
          rcases AuthStore.revokeToken_eq_ok_iff.mp hcall with ⟨-, rfl⟩
          rfl

/-- Serving an accepted request keeps the absence of admin tokens and the root
token. -/
theorem serve_keeps {store store' : AuthStore} {req : AdminRequest × Draw}
    {root : Option String} (hinv : NoAdminToken store ∧ store.rootTokenHash = root)
    (h : serve sha256Hex store req = some store') :
    NoAdminToken store' ∧ store'.rootTokenHash = root := by
  rcases serve_eq_some h with ⟨haccepts, principal, ⟨reply, hok⟩ | ⟨-, rfl, -⟩⟩
  · rcases (accepts_iff hinv.1).mp haccepts with ⟨-, -, -, hadmin⟩
    rcases handle_eq_ok sha256Hex hok with ⟨-, r, hperform⟩
    exact ⟨noAdminToken_perform hadmin hperform,
      (rootTokenHash_handle hok).trans hinv.2⟩
  · exact hinv

/-- After an accepted request an admin exists exactly if the request created it. -/
theorem hasAdmin_serve_iff {store store' : AuthStore} {req : AdminRequest × Draw}
    (htokens : NoAdminToken store) (h : serve sha256Hex store req = some store') :
    store'.hasAdmin = true ↔ createsAdmin store req.1.action = true := by
  rcases serve_eq_some h with ⟨haccepts, principal, ⟨reply, hok⟩ | ⟨⟨e, herr⟩, rfl, hadm⟩⟩
  · rcases (accepts_iff htokens).mp haccepts with ⟨-, -, -, hadmin⟩
    simp [hasAdmin_handle_iff hok, hadmin]
  · rcases (accepts_iff htokens).mp haccepts with ⟨-, -, -, hadmin⟩
    simp only [hadmin, Bool.false_eq_true, false_iff]
    intro hcreates
    rcases handle_ok_of_createsAdmin req.2 hadm hcreates with ⟨r, hr⟩
    rw [hr] at herr
    contradiction

theorem noAdminToken_fromConnection (adminToken : Option String) :
    NoAdminToken (AuthStore.fromConnection sha256Hex adminToken) := by
  intro t ht
  simp [AuthStore.fromConnection, AuthDb.empty] at ht

/-- Presenting the root token depends on the configured hash alone. -/
theorem rootPresentable_congr {s t : AuthStore} (h : s.rootTokenHash = t.rootTokenHash) :
    RootPresentable sha256Hex s ↔ RootPresentable sha256Hex t := by
  simp [RootPresentable, AuthStore.verifyRoot, h]

variable (sha256Hex) in
/-- Starting from an empty store, the admin interface stays usable through a run of
accepted admin requests exactly when the root token can be presented and no request
of the run creates an admin user. -/
theorem administrable_throughout_iff (root : String) (reqs : List (AdminRequest × Draw)) :
    Throughout (serve sha256Hex) (Administrable sha256Hex)
        (AuthStore.fromConnection sha256Hex (some root)) reqs ↔
      RootPresentable sha256Hex (AuthStore.fromConnection sha256Hex (some root)) ∧
        StepsMeet (serve sha256Hex)
          (fun store req => createsAdmin store req.1.action = false)
          (AuthStore.fromConnection sha256Hex (some root)) reqs := by
  have hstart : NoAdminToken (AuthStore.fromConnection sha256Hex (some root)) :=
    noAdminToken_fromConnection (some root)
  by_cases hroot : RootPresentable sha256Hex (AuthStore.fromConnection sha256Hex (some root))
  · simp only [hroot, true_and]
    refine throughout_iff_stepsMeet
      (J := fun s => NoAdminToken s ∧ s.rootTokenHash = some (sha256Hex root)) ?_ ?_ ?_
      ⟨hstart, rfl⟩
    · intro s req t hJ hserve
      exact serve_keeps hJ hserve
    · intro s req t hJ _ hserve
      have hJt := serve_keeps hJ hserve
      have hpresent : RootPresentable sha256Hex t :=
        (rootPresentable_congr (t := t) (hJt.2.symm)).mp hroot
      rw [administrable_iff hJt.1, ← Bool.not_eq_true (createsAdmin _ _),
        ← hasAdmin_serve_iff hJ.1 hserve]
      simp [hpresent]
    · rw [administrable_iff hstart]
      exact ⟨hroot, rfl⟩
  · simp only [hroot, false_and, iff_false]
    intro h
    have hfirst := throughout_iff.mp h [] List.nil_prefix _ rfl
    exact hroot ((administrable_iff hstart).mp hfirst).1

/-- The documented bootstrap locks everyone out: after the root token has created
the first admin user, no credential is accepted. -/
theorem not_administrable_after_bootstrap :
    ¬ ∀ (root : String) (reqs : List (AdminRequest × Draw)) (store : AuthStore),
      run (serve sha256HexSample) (AuthStore.fromConnection sha256HexSample (some root)) reqs =
        some store → Administrable sha256HexSample store := by
  intro h
  let boss : AdminRequest × Draw :=
    (⟨some "Bearer mh_root", .createUser ⟨"boss", "admin"⟩⟩, ⟨1, "id", "mh_first"⟩)
  cases hserve : serve sha256HexSample
      (AuthStore.fromConnection sha256HexSample (some "mh_root")) boss with
  | none => exact absurd hserve (by decide)
  | some store =>
      have hrun : run (serve sha256HexSample)
          (AuthStore.fromConnection sha256HexSample (some "mh_root")) [boss] = some store :=
        run_cons_eq_some.mpr ⟨store, hserve, rfl⟩
      have htokens : NoAdminToken store :=
        (serve_keeps ⟨noAdminToken_fromConnection _, rfl⟩ hserve).1
      have hadmin : store.hasAdmin = true :=
        (hasAdmin_serve_iff (noAdminToken_fromConnection _) hserve).mpr (by decide)
      have husable := (administrable_iff htokens).mp (h _ _ store hrun)
      rw [hadmin] at husable
      exact absurd husable.2 (by decide)

end Http
end MemoryHub
