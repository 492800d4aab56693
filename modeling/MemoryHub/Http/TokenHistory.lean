import MemoryHub.Http.Auth

/-!
# Tokens over whole runs

The store keeps two joined tables; what a secret resolves to is a statement
about the whole history of calls.  This module runs the store's calls one after
another, records each with its outcome, and reads the token table off the
record.

Main results:

- Theorem `mem_tokens_iff_since`: a row is stored exactly when a call minted it
  and none has revoked it or deleted its owner since.
- Theorem `resolveToken_iff_minted`: the meaning of resolving a secret after any
  run.
-/

namespace MemoryHub
namespace Http

open Machine

/-- A call with its outcome. -/
abbrev AuthRecord := AuthEvent × Except AuthError AuthReply

namespace AuthStore

variable (sha256Hex : String → String)

/-- The calls as a machine; each runs atomically under the connection lock. -/
def step (store : AuthStore) (ev : AuthEvent) : Option AuthStore :=
  some (store.after sha256Hex ev)

/-- The outcome of one call. -/
def outcome (store : AuthStore) (ev : AuthEvent) : Except AuthError AuthReply :=
  (store.perform sha256Hex ev).map Prod.fst

/-- The calls of a run with their outcomes. -/
def history : AuthStore → List AuthEvent → List AuthRecord
  | _, [] => []
  | store, ev :: evs =>
      (ev, store.outcome sha256Hex ev) :: history (store.after sha256Hex ev) evs

/-- The secrets the calls of a run have generated. -/
def mintedSecrets (evs : List AuthEvent) : Set String :=
  { secret | ∃ ev ∈ evs, ∃ username name expiresAt id,
      ev.call = .createToken username name expiresAt id secret }

/-- The record of a call that returned the token stored in this row. -/
def Mints (row : TokenRow) (record : AuthRecord) : Prop :=
  ∃ username name expiresAt id secret,
    record.1.call = .createToken username name expiresAt id secret ∧
      record.2 = .ok (.token ⟨id, secret⟩) ∧
      row = ⟨id, username, sha256Hex secret, name, record.1.now, expiresAt⟩

/-- The record of a successful call that removes this row. -/
def Drops (row : TokenRow) (record : AuthRecord) : Prop :=
  record.2.isOk = true ∧
    (record.1.call = .revokeToken row.id ∨ record.1.call = .deleteUser row.username)

theorem history_snoc {store t : AuthStore} {evs : List AuthEvent} (ev : AuthEvent)
    (hrun : run (step sha256Hex) store evs = some t) :
    history sha256Hex store (evs ++ [ev]) =
      history sha256Hex store evs ++ [(ev, t.outcome sha256Hex ev)] := by
  induction evs generalizing store with
  | nil =>
      cases hrun
      rfl
  | cons e evs ih =>
      obtain ⟨r, hr, hrt⟩ := run_cons_eq_some.mp hrun
      cases hr
      simp only [List.cons_append, history, ih hrt]

/-- One call adds the row it mints, drops the rows it removes, and keeps the
others. -/
theorem mem_tokens_after_iff (store : AuthStore) (ev : AuthEvent) (row : TokenRow) :
    row ∈ (store.after sha256Hex ev).db.tokens ↔
      Mints sha256Hex row (ev, store.outcome sha256Hex ev) ∨
        (row ∈ store.db.tokens ∧ ¬ Drops row (ev, store.outcome sha256Hex ev)) := by
  rcases after_cases sha256Hex store ev with ⟨e, herr, heq⟩ | ⟨reply, hok⟩
  · have hout : store.outcome sha256Hex ev = .error e := by
      simp [outcome, herr, Except.map]
    simp [heq, hout, Mints, Drops, Except.isOk, Except.toBool]
  · have hout : store.outcome sha256Hex ev = .ok reply := by
      simp [outcome, hok, Except.map]
    rw [hout]
    rcases perform_ok_cases sha256Hex hok with
      ⟨username, role, hcall, -, -, -, -, htokens⟩ |
      ⟨username, hcall, -, -, htokens⟩ |
      ⟨username, name, expiresAt, id, secret, hcall, hreply, -, -, htokens⟩ |
      ⟨id, hcall, -, htokens⟩ | ⟨hread, heq⟩
    · simp [htokens, Mints, Drops, hcall]
    · simp only [htokens, Mints, Drops, hcall, Except.isOk, Except.toBool]
      simp [ne_comm]
    · simp only [htokens, List.mem_append, List.mem_singleton, Mints, Drops, hcall, hreply,
        Except.ok.injEq, AuthReply.token.injEq, NewToken.mk.injEq, reduceCtorEq, or_false,
        and_false, not_false_eq_true, and_true, AuthCall.createToken.injEq]
      constructor
      · rintro (hrow | hrow)
        · exact Or.inr hrow
        · exact Or.inl ⟨_, _, _, _, _, ⟨rfl, rfl, rfl, rfl, rfl⟩, ⟨rfl, rfl⟩, hrow⟩
      · rintro (⟨_, _, _, _, _, ⟨rfl, rfl, rfl, rfl, rfl⟩, -, hrow⟩ | hrow)
        · exact Or.inr hrow
        · exact Or.inl hrow
    · simp only [htokens, Mints, Drops, hcall, Except.isOk, Except.toBool]
      simp [ne_comm]
    · -- A reading call mints nothing and drops nothing.
      rw [heq]
      cases hcall : ev.call <;> simp [hcall, AuthCall.readOnly] at hread <;>
        simp [Mints, Drops, hcall]

/-- After any run from an empty store, a row is stored exactly when some call
minted it and no later one revoked it or deleted its owner. -/
theorem mem_tokens_iff_since {adminToken : Option String} {evs : List AuthEvent}
    {store : AuthStore}
    (hrun : run (step sha256Hex) (fromConnection sha256Hex adminToken) evs = some store)
    (row : TokenRow) :
    row ∈ store.db.tokens ↔
      Since (Mints sha256Hex row) (Drops row)
        (history sha256Hex (fromConnection sha256Hex adminToken) evs) := by
  refine run_history
    (P := fun evs store => row ∈ store.db.tokens ↔
      Since (Mints sha256Hex row) (Drops row)
        (history sha256Hex (fromConnection sha256Hex adminToken) evs))
    ?_ ?_ hrun
  · simp [fromConnection, AuthDb.empty, history]
  · intro evs ev s t hs ih hst
    cases hst
    rw [history_snoc sha256Hex ev hs, since_snoc, mem_tokens_after_iff, ih]

/-- Only generated secrets are ever minted. -/
theorem mem_mintedSecrets_of_history {store : AuthStore} {evs : List AuthEvent}
    {record : AuthRecord} (h : record ∈ history sha256Hex store evs) {username : String}
    {name : Option String} {expiresAt : Option Int} {id secret : String}
    (hcall : record.1.call = .createToken username name expiresAt id secret) :
    secret ∈ mintedSecrets evs := by
  induction evs generalizing store with
  | nil => simp [history] at h
  | cons ev evs ih =>
      rcases List.mem_cons.mp h with rfl | h
      · exact ⟨ev, List.mem_cons_self, username, name, expiresAt, id, hcall⟩
      · obtain ⟨e, he, hex⟩ := ih h
        exact ⟨e, List.mem_cons_of_mem ev he, hex⟩

/-- After any run of calls on an empty store, a secret resolves to a user exactly
when some call minted it for that user, its id has not been revoked and its user
not deleted since, it has not expired, and the role is that of the user's current
row. -/
theorem resolveToken_iff_minted {adminToken : Option String} {evs : List AuthEvent}
    {store : AuthStore}
    (hrun : run (step sha256Hex) (fromConnection sha256Hex adminToken) evs = some store)
    {secret : String} (hinj : Set.InjOn sha256Hex (insert secret (mintedSecrets evs)))
    (now : Int) (p : Principal) :
    store.resolveToken sha256Hex secret now = some p ↔
      ∃ username role pre ev post name expiresAt id,
        history sha256Hex (fromConnection sha256Hex adminToken) evs =
            pre ++ (ev, .ok (.token ⟨id, secret⟩)) :: post ∧
          ev.call = .createToken username name expiresAt id secret ∧
          (∀ record ∈ post, record.2.isOk = true →
            record.1.call ≠ .revokeToken id ∧ record.1.call ≠ .deleteUser username) ∧
          (∀ exp, expiresAt = some exp → now ≤ exp) ∧
          (∃ row ∈ store.db.users, row.username = username ∧ row.role = role) ∧
          p = .user username role := by
  rw [resolveToken_eq_some_iff]
  constructor
  · rintro ⟨row, hrow, u, hu, hhash, hname, hexp, rfl⟩
    obtain ⟨pre, ⟨ev, reply⟩, post, hsplit, hmint, hpost⟩ :=
      (mem_tokens_iff_since sha256Hex hrun row).mp hrow
    obtain ⟨username, name, expiresAt, id, minted, hcall, hreply, rfl⟩ := hmint
    -- Equal digests of the queried and the minted secret make them equal.
    have hmem : minted ∈ mintedSecrets evs :=
      mem_mintedSecrets_of_history sha256Hex
        (hsplit ▸ List.mem_append_right pre List.mem_cons_self) hcall
    obtain rfl : minted = secret :=
      hinj (Set.mem_insert_of_mem _ hmem) (Set.mem_insert _ _) hhash
    simp only at hreply hname
    subst hreply
    refine ⟨username, u.role, pre, ev, post, name, expiresAt, id, hsplit, hcall, ?_, hexp,
      ⟨u, hu, hname, rfl⟩, rfl⟩
    intro record hrecord hok
    have hkeep : ¬ Drops _ record := hpost record hrecord
    exact ⟨fun h => hkeep ⟨hok, Or.inl h⟩, fun h => hkeep ⟨hok, Or.inr h⟩⟩
  · rintro ⟨username, role, pre, ev, post, name, expiresAt, id, hsplit, hcall, hpost, hexp,
      ⟨u, hu, hname, rfl⟩, rfl⟩
    refine ⟨⟨id, username, sha256Hex secret, name, ev.now, expiresAt⟩, ?_, u, hu, rfl, hname,
      hexp, rfl⟩
    rw [mem_tokens_iff_since sha256Hex hrun]
    refine ⟨pre, _, post, hsplit, ⟨username, name, expiresAt, id, secret, hcall, rfl, rfl⟩, ?_⟩
    rintro record hrecord ⟨hok, hdrop | hdrop⟩
    · exact (hpost record hrecord hok).1 hdrop
    · exact (hpost record hrecord hok).2 hdrop

/-- A user is deleted and created again with another role, with a token minted
before and one after. -/
def sampleEvents : List AuthEvent :=
  [⟨.createUser "alice" "user", 1, none⟩,
    ⟨.createToken "alice" none none "t1" "mh_first", 2, none⟩,
    ⟨.deleteUser "alice", 3, none⟩,
    ⟨.createUser "alice" "admin", 4, none⟩,
    ⟨.createToken "alice" (some "cli") (some 10) "t2" "mh_second", 5, none⟩]

/-- The token of the second life resolves, with the new role. -/
theorem resolveToken_iff_minted_sample :
    ((run (step sha256HexSample) (fromConnection sha256HexSample (some "mh_root"))
        sampleEvents).bind fun store => store.resolveToken sha256HexSample "mh_second" 10) =
      some (.user "alice" "admin") := by
  have hinj : Set.InjOn sha256HexSample
      (insert "mh_second" (mintedSecrets sampleEvents)) := by
    have hmem : ∀ s ∈ insert "mh_second" (mintedSecrets sampleEvents),
        s = "mh_first" ∨ s = "mh_second" := by
      intro s hs
      simp only [mintedSecrets, sampleEvents, Set.mem_insert_iff, Set.mem_ofPred_eq,
        List.mem_cons, List.not_mem_nil, or_false, exists_eq_or_imp, exists_eq_left,
        reduceCtorEq, AuthCall.createToken.injEq, exists_false, false_or] at hs
      rcases hs with rfl | ⟨_, _, _, _, -, -, -, -, rfl⟩ | ⟨_, _, _, _, -, -, -, -, rfl⟩
      · exact Or.inr rfl
      · exact Or.inl rfl
      · exact Or.inr rfl
    intro a ha b hb hab
    rcases hmem a ha with rfl | rfl <;> rcases hmem b hb with rfl | rfl
    · rfl
    · exact absurd hab (by decide)
    · exact absurd hab (by decide)
    · rfl
  cases hrun : run (step sha256HexSample) (fromConnection sha256HexSample (some "mh_root"))
      sampleEvents with
  | none => exact absurd hrun (by decide)
  | some store =>
      have hminted := (resolveToken_iff_minted sha256HexSample hrun hinj 10
        (.user "alice" "admin")).mpr
      cases hrun
      exact hminted ⟨"alice", "admin", (history sha256HexSample
        (fromConnection sha256HexSample (some "mh_root")) sampleEvents).take 4,
        ⟨.createToken "alice" (some "cli") (some 10) "t2" "mh_second", 5, none⟩, [],
        some "cli", some 10, "t2", rfl, rfl, by simp, by simp, by decide, rfl⟩

end AuthStore

end Http
end MemoryHub
