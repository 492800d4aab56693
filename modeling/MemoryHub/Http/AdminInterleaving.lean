import MemoryHub.Http.Bootstrap

/-!
# Concurrent admin requests

Requests run side by side.  Each takes the store's lock once for the root check,
once more for its token if it is not root, and once in its handler; between these
steps any other request may move.  The handler acts on the principal the earlier
steps left in the request, whatever has happened to the store since.

Main results:

- Theorem `rootSettled_move`: under the overlap condition, no request that passed as
  root is waiting while an admin user exists.
- Theorem `rootActs_before_admin`: under the overlap condition, every change made
  on root's authority takes effect before there is an admin user.
-/

namespace MemoryHub
namespace Http

open Machine

/-! ## Requests in flight -/

/-- How far a request has come. -/
inductive Phase where
  | arrived
  | unresolved (secret : String)
  | authenticated (principal : Principal)
  | answered (result : Except HttpError AdminReply)

/-- The server: the shared store and the requests it has received. -/
structure Server where
  store : AuthStore
  requests : List (AdminRequest × Phase)

/-- One atomic step of the server. -/
inductive Move where
  | arrive (req : AdminRequest)
  | checkRoot (i : Nat)
  | resolve (i : Nat) (now : Int)
  | handle (i : Nat) (draw : Draw)
  | dbError (i : Nat) (message : String)

namespace Server

/-- Request `i` enters a phase. -/
def setPhase (server : Server) (i : Nat) (req : AdminRequest) (phase : Phase) : Server :=
  { server with requests := server.requests.set i (req, phase) }

variable (sha256Hex : String → String)

/-- `bearer`, then `verify_root && !has_admin`: the first query of the middleware. -/
def checkRoot (server : Server) (i : Nat) (req : AdminRequest) : Server :=
  match bearer req.authorization with
  | none => server.setPhase i req (.answered (.error .unauthorized))
  | some secret =>
      if rootHonored sha256Hex server.store secret then
        server.setPhase i req (.authenticated .root)
      else server.setPhase i req (.unresolved secret)

/-- `resolve_token`: the second query of the middleware. -/
def resolve (server : Server) (i : Nat) (req : AdminRequest) (secret : String) (now : Int) :
    Server :=
  match server.store.resolveToken sha256Hex secret now with
  | none => server.setPhase i req (.answered (.error .unauthorized))
  | some principal => server.setPhase i req (.authenticated principal)

/-- The extractor and the handler, with the handler's store call. -/
def handle (server : Server) (i : Nat) (req : AdminRequest) (principal : Principal)
    (draw : Draw) : Server :=
  match Admin.handle sha256Hex (some principal) server.store req.action draw with
  | .ok (reply, store') => { server with store := store' }.setPhase i req (.answered (.ok reply))
  | .error e => server.setPhase i req (.answered (.error e))

/-- One step of the server; `none` when the request is not at that step. -/
def move (server : Server) : Move → Option Server
  | .arrive req => some { server with requests := server.requests ++ [(req, .arrived)] }
  | .checkRoot i =>
      match server.requests[i]? with
      | some (req, .arrived) => some (server.checkRoot sha256Hex i req)
      | _ => none
  | .resolve i now =>
      match server.requests[i]? with
      | some (req, .unresolved secret) => some (server.resolve sha256Hex i req secret now)
      | _ => none
  | .handle i draw =>
      match server.requests[i]? with
      | some (req, .authenticated principal) =>
          some (server.handle sha256Hex i req principal draw)
      | _ => none
  | .dbError i message =>
      match server.requests[i]? with
      | some (_, .answered _) => none
      | some (req, _) => some (server.setPhase i req (.answered (.error (.internal message))))
      | none => none

/-- Request `i` has passed as root and waits for its handler. -/
def rootPending (server : Server) (i : Nat) : Bool :=
  match server.requests[i]? with
  | some (_, .authenticated .root) => true
  | _ => false

/-- The handler of request `i` is about to create an admin user. -/
def handlerCreatesAdmin (server : Server) (i : Nat) : Bool :=
  match server.requests[i]? with
  | some (req, .authenticated principal) =>
      (adminPrincipal (some principal)).isOk && createsAdmin server.store req.action
  | _ => false

/-- The overlap condition: a handler creates an admin user only while no other
request that passed as root is waiting. -/
def noRootOverlap (server : Server) : Move → Bool
  | .handle i _ =>
      !server.handlerCreatesAdmin i ||
        (List.range server.requests.length).all fun j => j == i || !server.rootPending j
  | _ => true

/-- The step is a change made on root's authority that takes effect while an admin
user exists. -/
def rootActsAfterAdmin (server : Server) : Move → Bool
  | .handle i draw =>
      match server.requests[i]? with
      | some (req, .authenticated .root) =>
          (Admin.handle sha256Hex (some .root) server.store req.action draw).isOk &&
            server.store.hasAdmin
      | _ => false
  | _ => false

/-- A server that has received nothing yet. -/
def start (store : AuthStore) : Server :=
  ⟨store, []⟩

/-! ## One step -/

variable {sha256Hex}

@[simp]
theorem setPhase_store (server : Server) (i : Nat) (req : AdminRequest) (phase : Phase) :
    (server.setPhase i req phase).store = server.store :=
  rfl

/-- Entering a phase other than root's leaves only the other pending requests. -/
theorem rootPending_setPhase {server : Server} {i j : Nat} {req : AdminRequest} {phase : Phase}
    (hphase : phase ≠ .authenticated .root)
    (h : (server.setPhase i req phase).rootPending j = true) :
    j ≠ i ∧ server.rootPending j = true := by
  by_cases hij : i = j
  · subst hij
    cases hget : server.requests[i]? with
    | none => simp [rootPending, setPhase, List.getElem?_set_self', hget] at h
    | some entry =>
        unfold rootPending setPhase at h
        simp only [List.getElem?_set_self', hget, Functor.map, Option.map_some,
          Function.const_apply] at h
        split at h
        · rename_i heq
          simp only [Option.some.injEq, Prod.mk.injEq] at heq
          exact absurd heq.2 hphase
        · contradiction
  · refine ⟨fun hji => hij hji.symm, ?_⟩
    simpa only [rootPending, setPhase, List.getElem?_set_ne hij] using h

/-- A pending request is one of those received. -/
theorem lt_length_of_rootPending {server : Server} {j : Nat}
    (h : server.rootPending j = true) : j < server.requests.length := by
  by_contra hlt
  simp [rootPending, List.getElem?_eq_none (not_lt.mp hlt)] at h

/-- No request that passed as root waits while an admin user exists. -/
def RootSettled (server : Server) : Prop :=
  server.store.hasAdmin = true → ∀ j, server.rootPending j = false

/-- Entering a phase other than root's, with the store unchanged, keeps root
settled. -/
theorem rootSettled_setPhase {server : Server} {i : Nat} {req : AdminRequest} {phase : Phase}
    (hphase : phase ≠ .authenticated .root) (hinv : server.RootSettled) :
    (server.setPhase i req phase).RootSettled := by
  intro hadmin j
  by_contra hpending
  have hj := (rootPending_setPhase hphase (by simpa using hpending)).2
  simp [hinv hadmin j] at hj

/-- A handler under the overlap condition keeps root settled. -/
theorem rootSettled_handle {server : Server} {i : Nat} {req : AdminRequest}
    {principal : Principal} {draw : Draw} (hinv : server.RootSettled)
    (hget : server.requests[i]? = some (req, .authenticated principal))
    (hcond : server.noRootOverlap (.handle i draw) = true) :
    (server.handle sha256Hex i req principal draw).RootSettled := by
  unfold handle
  split <;> rename_i hhandle
  · rename_i reply store'
    intro hadmin j
    by_contra hpending
    have hpending' : ({ server with store := store' }.setPhase i req
        (.answered (.ok reply))).rootPending j = true := by simpa using hpending
    rcases rootPending_setPhase (by simp) hpending' with ⟨hji, hj⟩
    have hj' : server.rootPending j = true := hj
    rcases (hasAdmin_handle_iff hhandle).mp hadmin with hbefore | hcreates
    · simp [hinv hbefore j] at hj'
    · -- The handler created the admin, so nobody else was pending as root.
      have hadm := (handle_eq_ok sha256Hex hhandle).1
      have hcr : server.handlerCreatesAdmin i = true := by
        simp [handlerCreatesAdmin, hget, hadm, hcreates, Except.isOk, Except.toBool]
      simp only [noRootOverlap, hcr, Bool.not_true, Bool.false_or, List.all_eq_true,
        List.mem_range, Bool.or_eq_true, beq_iff_eq, Bool.not_eq_true'] at hcond
      rcases hcond j (lt_length_of_rootPending hj') with heq | hfalse
      · exact hji heq
      · simp [hfalse] at hj'
  · exact rootSettled_setPhase (by simp) hinv

/-- Every step under the overlap condition keeps root settled. -/
theorem rootSettled_move {server server' : Server} {m : Move} (hinv : server.RootSettled)
    (hcond : server.noRootOverlap m = true) (h : server.move sha256Hex m = some server') :
    server'.RootSettled := by
  cases m with
  | arrive req =>
      simp only [move, Option.some.injEq] at h
      subst h
      intro hadmin j
      have hj := hinv hadmin j
      unfold rootPending at hj ⊢
      by_cases hlt : j < server.requests.length
      · simpa [List.getElem?_append_left hlt] using hj
      · rw [List.getElem?_append_right (not_lt.mp hlt)]
        cases hsub : j - server.requests.length <;> simp
  | checkRoot i =>
      simp only [move] at h
      split at h <;> rename_i hget
      · cases h
        unfold checkRoot
        split
        · exact rootSettled_setPhase (by simp) hinv
        · split <;> rename_i hroot
          · -- Passing as root needs a store without an admin.
            intro hadmin
            rw [setPhase_store] at hadmin
            rw [rootHonored_eq_false sha256Hex hadmin] at hroot
            contradiction
          · exact rootSettled_setPhase (by simp) hinv
      · contradiction
  | resolve i now =>
      simp only [move] at h
      split at h <;> rename_i hget
      · cases h
        unfold resolve
        split <;> rename_i hres
        · exact rootSettled_setPhase (by simp) hinv
        · refine rootSettled_setPhase ?_ hinv
          intro hroot
          cases hroot
          exact server.store.resolveToken_ne_root sha256Hex _ now hres
      · contradiction
  | handle i draw =>
      simp only [move] at h
      split at h <;> rename_i hget
      · cases h
        exact rootSettled_handle hinv hget hcond
      · contradiction
  | dbError i message =>
      simp only [move] at h
      split at h
      · contradiction
      · cases h
        exact rootSettled_setPhase (by simp) hinv
      · contradiction

/-- With root settled, no step acts on root's authority after an admin exists. -/
theorem rootActsAfterAdmin_eq_false {server : Server} (hinv : server.RootSettled) (m : Move) :
    server.rootActsAfterAdmin sha256Hex m = false := by
  cases m with
  | handle i draw =>
      simp only [rootActsAfterAdmin]
      split <;> rename_i hget
      · cases hadmin : server.store.hasAdmin with
        | false => simp
        | true =>
            have hi := hinv hadmin i
            simp [rootPending, hget] at hi
      · rfl
  | arrive req => rfl
  | checkRoot i => rfl
  | resolve i now => rfl
  | dbError i message => rfl

variable (sha256Hex)

/-! ## Every interleaving -/

/-- In every interleaving in which no admin user is created while another request
that passed as root is waiting, every change made on root's authority takes effect
before there is an admin user. -/
theorem rootActs_before_admin (store : AuthStore) {moves : List Move}
    (hcond : StepsMeet (move sha256Hex) (fun server m => server.noRootOverlap m = true)
      (start store) moves) :
    StepsMeet (move sha256Hex) (fun server m => server.rootActsAfterAdmin sha256Hex m = false)
      (start store) moves := by
  refine StepsMeet.of_invariant (I := RootSettled) ?_ ?_ ?_ hcond
  · intro s m t hs hm hstep
    exact rootSettled_move hs hm hstep
  · intro s m t hs _
    exact rootActsAfterAdmin_eq_false hs m
  · intro _ j
    simp [rootPending, start]

/-- A deployment whose root token is `mh_root`. -/
def sampleStore : AuthStore :=
  AuthStore.fromConnection sha256HexSample (some "mh_root")

/-- Root's request for an admin user of this name. -/
def sampleCreateAdmin (username : String) : AdminRequest :=
  ⟨some "Bearer mh_root", .createUser ⟨username, "admin"⟩⟩

/-- One root request after the other: the second is turned away by the check. -/
theorem rootActs_before_admin_in_turn :
    StepsMeet (move sha256HexSample)
      (fun server m => server.rootActsAfterAdmin sha256HexSample m = false)
      (start sampleStore)
      [.arrive (sampleCreateAdmin "boss"), .checkRoot 0, .handle 0 ⟨1, "a", "mh_first"⟩,
        .arrive (sampleCreateAdmin "deputy"), .checkRoot 1, .resolve 1 2] :=
  rootActs_before_admin sha256HexSample sampleStore (by decide)

/-- Two root requests are checked before either is handled: the second handler
creates a user on root's authority although the first has created an admin. -/
theorem root_acts_after_admin :
    ¬ ∀ (store : AuthStore) (moves : List Move),
      StepsMeet (move sha256HexSample)
        (fun server m => server.rootActsAfterAdmin sha256HexSample m = false)
        (start store) moves := by
  intro h
  have hrace := h sampleStore
    [.arrive (sampleCreateAdmin "boss"), .arrive (sampleCreateAdmin "deputy"),
      .checkRoot 0, .checkRoot 1,
      .handle 0 ⟨1, "a", "mh_first"⟩, .handle 1 ⟨2, "b", "mh_second"⟩]
  exact absurd hrace (by decide)

end Server

end Http
end MemoryHub
