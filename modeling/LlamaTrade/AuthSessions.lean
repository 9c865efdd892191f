import LlamaTrade.TransitionRuns
import Mathlib.Algebra.Order.Floor.Ring
import Mathlib.Data.Rat.Floor

/-!
# Sessions of a user

The tokens of one user in the auth service (`grpc/servicer.py`), with the revocation store in
Redis (`revocation.py`). A login and a refresh mint an access and a refresh token; a refresh and a
logout put tokens on the denylist until they expire; a password change writes a cut-off, and a
token issued before the second of the cut-off is revoked. Redis is healthy, and every command to
it is a step of its own; between any two steps of a request other requests run and time passes.

Each number is one request, which ends in `done`.
-/

namespace LlamaTrade

inductive TokenKind where
  | access | refresh
  deriving DecidableEq, Repr

/-- The claims of a token, of which `iat` and `exp` are whole seconds; its `jti` is its place in
the list of all tokens. `credential` is the password that it goes back to, and `ended` says that a
change of this password has returned since. -/
structure AuthToken where
  kind : TokenKind
  iat : ℤ
  exp : ℤ
  credential : ℕ
  ended : Bool
  deriving DecidableEq

/-- `ACCESS_TOKEN_EXPIRE_MINUTES` and `REFRESH_TOKEN_EXPIRE_DAYS`, in seconds. -/
structure Lifetimes where
  access : ℚ
  refresh : ℚ

/-- `_DEFAULT_USER_TTL_SECONDS`. -/
def userTtlSeconds : ℚ := 7 * 86400

/-- `mint_access_refresh`. -/
def mintAccessRefresh (life : Lifetimes) (now : ℚ) (credential : ℕ) (ended : Bool) : List AuthToken :=
  [⟨.access, ⌊now⌋, ⌊now + life.access⌋, credential, ended⟩,
    ⟨.refresh, ⌊now⌋, ⌊now + life.refresh⌋, credential, ended⟩]

/-- Where a request waits. A token is named by its place; `seen` are the requests that had denied
it when this one asked for the denylist. -/
inductive AuthPhase where
  | idle
  | done
  -- `login`, with the password checked
  | loggingIn (credential : ℕ)
  -- the middleware with an access token, or `refresh_token`: decoded, and not on the denylist
  | presented (token : ℕ)
  | notDenied (token : ℕ) (seen : List ℕ)
  -- `refresh_token`: checked, with the lifetime of the denial computed, and before it mints
  | checked (token : ℕ) (seen : List ℕ)
  | denying (token : ℕ) (seen : List ℕ) (ttl : ℤ)
  | rotating (token : ℕ) (seen : List ℕ)
  -- `logout`: tokens to deny, and those that it has denied
  | loggingOut (tokens denied : List ℕ)
  | loggingOutOf (token : ℕ) (ttl : ℤ) (tokens denied : List ℕ)
  -- `change_password` and `reset_password`: checked, committed, with the cut-off computed, written
  | changing
  | changed (generation : ℕ)
  | cutting (generation : ℕ) (cutoff : ℤ)
  | cut (generation : ℕ)

structure AuthWorld where
  now : ℚ
  /-- The number of password changes so far: the password that is stored. -/
  password : ℕ
  tokens : List AuthToken
  /-- The denylist: when the entry of a token expires. -/
  denylist : ℕ → Option ℚ
  /-- The requests that have written the entry. -/
  deniers : ℕ → List ℕ
  /-- The cut-off of the user, and when its key expires. -/
  cutoff : Option (ℤ × ℚ)
  /-- The last password change that has written its cut-off. -/
  cutGeneration : ℕ
  /-- The tokens that the middleware and `refresh_token` have accepted, those that have been
  refreshed, and those denied by a logout that has returned. -/
  accepted : List ℕ
  refreshed : List ℕ
  loggedOut : List ℕ
  tasks : ℕ → AuthPhase

inductive AuthAction where
  | wait (seconds : ℚ)
  | login (t : ℕ)
  | mintLogin (t : ℕ)
  | present (t token : ℕ)
  /-- `EXISTS` of the denylist entry, and `GET` of the cut-off. -/
  | askDenylist (t : ℕ)
  | askCutoff (t : ℕ)
  /-- `ttl = exp - int(time.time())`, and `SETEX` of the denylist entry. -/
  | computeTtl (t : ℕ)
  | deny (t : ℕ)
  | mint (t : ℕ)
  | logout (t access : ℕ) (refresh : Option ℕ)
  | returnLogout (t : ℕ)
  | change (t : ℕ)
  | commitPassword (t : ℕ)
  /-- `int(datetime.now(UTC).timestamp())`, and `SET` of the cut-off. -/
  | computeCutoff (t : ℕ)
  | setCutoff (t : ℕ)
  | returnChange (t : ℕ)
  /-- An error or a crash. -/
  | abandon (t : ℕ)

namespace AuthWorld

variable (w : AuthWorld)

def setTask (t : ℕ) (phase : AuthPhase) : AuthWorld :=
  { w with tasks := Function.update w.tasks t phase }

/-- The `exp` of a token. -/
def expOf (token : ℕ) : ℤ := w.tokens[token]?.elim 0 (·.exp)

def isRefresh (token : ℕ) : Bool := w.tokens[token]?.any (·.kind = .refresh)

/-- The signature and the expiry of a presented token are checked. -/
def unexpired (token : ℕ) : Bool := token < w.tokens.length && w.now < w.expOf token

/-- The entry of the token is on the denylist. -/
def isDenied (token : ℕ) : Bool := (w.denylist token).any (w.now < ·)

/-- The token was issued before the cut-off of the user. -/
def isCutOff (token : ℕ) : Bool :=
  match w.cutoff, w.tokens[token]? with
  | some (cutoff, expires), some claims => w.now < expires && claims.iat < cutoff
  | _, _ => false

/-- `ttl` of `revoke_token`. -/
def denyTtl (token : ℕ) : ℤ := w.expOf token - ⌊w.now⌋

/-- `SETEX` of the denylist entry. -/
def writeDenial (t token : ℕ) (ttl : ℤ) : AuthWorld :=
  { w with
    denylist := Function.update w.denylist token (some (w.now + ttl))
    deniers := Function.update w.deniers token (t :: w.deniers token) }

/-- The token passes its check. -/
def accept (t token : ℕ) (seen : List ℕ) : AuthWorld :=
  { w.setTask t (if w.isRefresh token then .checked token seen else .done) with
    accepted := token :: w.accepted }

/-- Tokens of older passwords are ended when a password change returns. -/
def endOlder (generation : ℕ) : AuthWorld :=
  { w with tokens := w.tokens.map fun claims =>
      { claims with ended := claims.ended || claims.credential < generation } }

end AuthWorld

/-- One step of the system; `none` when it is not enabled. A check that fails ends the request. -/
def authStep (life : Lifetimes) (w : AuthWorld) : AuthAction → Option AuthWorld
  | .wait seconds => if 0 ≤ seconds then some { w with now := w.now + seconds } else none
  | .login t =>
    match w.tasks t with
    | .idle => some (w.setTask t (.loggingIn w.password))
    | _ => none
  | .mintLogin t =>
    match w.tasks t with
    | .loggingIn credential =>
      some { w.setTask t .done with
        tokens := w.tokens ++ mintAccessRefresh life w.now credential false }
    | _ => none
  | .present t token =>
    match w.tasks t with
    | .idle => some (w.setTask t (if w.unexpired token then .presented token else .done))
    | _ => none
  | .askDenylist t =>
    match w.tasks t with
    | .presented token =>
      some (w.setTask t (if w.isDenied token then .done else .notDenied token (w.deniers token)))
    | _ => none
  | .askCutoff t =>
    match w.tasks t with
    | .notDenied token seen =>
      some (if w.isCutOff token then w.setTask t .done else w.accept t token seen)
    | _ => none
  | .computeTtl t =>
    match w.tasks t with
    | .checked token seen =>
      let ttl := w.denyTtl token
      some (w.setTask t (if ttl ≤ 0 then .rotating token seen else .denying token seen ttl))
    | .loggingOut (token :: tokens) denied =>
      let ttl := w.denyTtl token
      some (w.setTask t
        (if ttl ≤ 0 then .loggingOut tokens denied else .loggingOutOf token ttl tokens denied))
    | _ => none
  | .deny t =>
    match w.tasks t with
    | .denying token seen ttl => some ((w.writeDenial t token ttl).setTask t (.rotating token seen))
    | .loggingOutOf token ttl tokens denied =>
      some ((w.writeDenial t token ttl).setTask t (.loggingOut tokens (token :: denied)))
    | _ => none
  | .mint t =>
    match w.tasks t with
    | .rotating token _ =>
      w.tokens[token]?.map fun claims =>
        { w.setTask t .done with
          tokens := w.tokens ++ mintAccessRefresh life w.now claims.credential claims.ended
          refreshed := token :: w.refreshed }
    | _ => none
  | .logout t access refresh =>
    match w.tasks t with
    | .idle =>
      some (w.setTask t
        (if w.unexpired access then .loggingOut (access :: (refresh.filter w.isRefresh).toList) []
        else .done))
    | _ => none
  | .returnLogout t =>
    match w.tasks t with
    | .loggingOut [] denied => some { w.setTask t .done with loggedOut := denied ++ w.loggedOut }
    | _ => none
  | .change t =>
    match w.tasks t with
    | .idle => some (w.setTask t .changing)
    | _ => none
  | .commitPassword t =>
    match w.tasks t with
    | .changing => some { w.setTask t (.changed (w.password + 1)) with password := w.password + 1 }
    | _ => none
  | .computeCutoff t =>
    match w.tasks t with
    | .changed generation => some (w.setTask t (.cutting generation ⌊w.now⌋))
    | _ => none
  | .setCutoff t =>
    match w.tasks t with
    | .cutting generation cutoff =>
      some { w.setTask t (.cut generation) with
        cutoff := some (cutoff, w.now + userTtlSeconds)
        cutGeneration := max generation w.cutGeneration }
    | _ => none
  | .returnChange t =>
    match w.tasks t with
    | .cut generation => some ((w.endOlder generation).setTask t .done)
    | _ => none
  | .abandon t =>
    match w.tasks t with
    | .idle => none
    | _ => some (w.setTask t .done)

/-- No request has been made yet. -/
structure AuthWorld.New (w : AuthWorld) : Prop where
  tokens : w.tokens = []
  deniers : ∀ token, w.deniers token = []
  cutGeneration : w.cutGeneration = 0
  refreshed : w.refreshed = []
  loggedOut : w.loggedOut = []
  tasks : ∀ t, w.tasks t = .idle

/-! ## What a step can do -/

/-- The moves of one request that write nothing: where it waits before and after. -/
inductive AuthMove (w : AuthWorld) : AuthAction → ℕ → AuthPhase → AuthPhase → Prop
  | login {t} : AuthMove w (.login t) t .idle (.loggingIn w.password)
  | present {t token} (h : w.unexpired token = true) :
    AuthMove w (.present t token) t .idle (.presented token)
  | notDenied {t token} (h : w.isDenied token = false) :
    AuthMove w (.askDenylist t) t (.presented token) (.notDenied token (w.deniers token))
  | tooLate {t token seen} (h : w.denyTtl token ≤ 0) :
    AuthMove w (.computeTtl t) t (.checked token seen) (.rotating token seen)
  | ttl {t token seen} :
    AuthMove w (.computeTtl t) t (.checked token seen) (.denying token seen (w.denyTtl token))
  | logout {t access refresh} (h : w.unexpired access = true) :
    AuthMove w (.logout t access refresh) t .idle
      (.loggingOut (access :: (refresh.filter w.isRefresh).toList) [])
  | logoutSkips {t token tokens denied} :
    AuthMove w (.computeTtl t) t (.loggingOut (token :: tokens) denied) (.loggingOut tokens denied)
  | logoutTtl {t token tokens denied} :
    AuthMove w (.computeTtl t) t (.loggingOut (token :: tokens) denied)
      (.loggingOutOf token (w.denyTtl token) tokens denied)
  | change {t} : AuthMove w (.change t) t .idle .changing
  | computeCutoff {t generation} :
    AuthMove w (.computeCutoff t) t (.changed generation) (.cutting generation ⌊w.now⌋)
  | ended {action t phase} : AuthMove w action t phase .done

/-- What a step leaves behind, by the kind of the step. -/
inductive AuthEffect (life : Lifetimes) (w : AuthWorld) : AuthAction → AuthWorld → Prop
  | waited {seconds} (h : 0 ≤ seconds) :
    AuthEffect life w (.wait seconds) { w with now := w.now + seconds }
  | moved {action t phase} (h : AuthMove w action t (w.tasks t) phase) :
    AuthEffect life w action (w.setTask t phase)
  | loggedIn {t credential} (htask : w.tasks t = .loggingIn credential) :
    AuthEffect life w (.mintLogin t) { w.setTask t .done with
      tokens := w.tokens ++ mintAccessRefresh life w.now credential false }
  | accepted {t token seen} (htask : w.tasks t = .notDenied token seen)
    (h : w.isCutOff token = false) : AuthEffect life w (.askCutoff t) (w.accept t token seen)
  | denied {t token seen ttl} (htask : w.tasks t = .denying token seen ttl) :
    AuthEffect life w (.deny t) ((w.writeDenial t token ttl).setTask t (.rotating token seen))
  | logoutDenied {t token ttl tokens denied} (htask : w.tasks t = .loggingOutOf token ttl tokens denied) :
    AuthEffect life w (.deny t)
      ((w.writeDenial t token ttl).setTask t (.loggingOut tokens (token :: denied)))
  | minted {t token seen claims} (htask : w.tasks t = .rotating token seen)
    (hclaims : w.tokens[token]? = some claims) :
    AuthEffect life w (.mint t) { w.setTask t .done with
      tokens := w.tokens ++ mintAccessRefresh life w.now claims.credential claims.ended
      refreshed := token :: w.refreshed }
  | loggedOut {t denied} (htask : w.tasks t = .loggingOut [] denied) :
    AuthEffect life w (.returnLogout t)
      { w.setTask t .done with loggedOut := denied ++ w.loggedOut }
  | committed {t} (htask : w.tasks t = .changing) : AuthEffect life w (.commitPassword t)
      { w.setTask t (.changed (w.password + 1)) with password := w.password + 1 }
  | cut {t generation cutoff} (htask : w.tasks t = .cutting generation cutoff) :
    AuthEffect life w (.setCutoff t) { w.setTask t (.cut generation) with
      cutoff := some (cutoff, w.now + userTtlSeconds)
      cutGeneration := max generation w.cutGeneration }
  | returned {t generation} (htask : w.tasks t = .cut generation) :
    AuthEffect life w (.returnChange t) ((w.endOlder generation).setTask t .done)

section Effects

variable {life : Lifetimes} {w w' : AuthWorld} {action : AuthAction}

/-- A step that only moves a request. -/
theorem AuthEffect.of_move {t : ℕ} {old new : AuthPhase} (htask : w.tasks t = old)
    (h : AuthMove w action t old new) : AuthEffect life w action (w.setTask t new) :=
  .moved (htask ▸ h)

theorem authStep_effect (h : authStep life w action = some w') : AuthEffect life w action w' := by
  cases action with
  | wait seconds =>
    simp only [authStep, Option.ite_none_right_eq_some, Option.some.injEq] at h
    obtain ⟨hseconds, rfl⟩ := h
    exact .waited hseconds
  | login t =>
    simp only [authStep] at h
    split at h <;> cases h
    exact .of_move ‹_› .login
  | mintLogin t =>
    simp only [authStep] at h
    split at h <;> cases h
    exact .loggedIn ‹_›
  | present t token =>
    simp only [authStep] at h
    split at h <;> cases h
    split_ifs with hunexpired
    · exact .of_move ‹_› (.present hunexpired)
    · exact .moved .ended
  | askDenylist t =>
    simp only [authStep] at h
    split at h <;> cases h
    split_ifs with hdenied
    · exact .moved .ended
    · exact .of_move ‹_› (.notDenied (Bool.not_eq_true _ ▸ hdenied))
  | askCutoff t =>
    simp only [authStep] at h
    split at h <;> cases h
    split_ifs with hcut
    · exact .moved .ended
    · exact .accepted ‹_› (Bool.not_eq_true _ ▸ hcut)
  | computeTtl t =>
    simp only [authStep] at h
    split at h <;> cases h
    · split_ifs with hlate
      · exact .of_move ‹_› (.tooLate hlate)
      · exact .of_move ‹_› .ttl
    · split_ifs
      · exact .of_move ‹_› .logoutSkips
      · exact .of_move ‹_› .logoutTtl
  | deny t =>
    simp only [authStep] at h
    split at h <;> cases h
    · exact .denied ‹_›
    · exact .logoutDenied ‹_›
  | mint t =>
    simp only [authStep] at h
    split at h
    · obtain ⟨claims, hclaims, rfl⟩ := Option.map_eq_some_iff.mp h
      exact .minted ‹_› hclaims
    · cases h
  | logout t access refresh =>
    simp only [authStep] at h
    split at h <;> cases h
    split_ifs with hunexpired
    · exact .of_move ‹_› (.logout hunexpired)
    · exact .moved .ended
  | returnLogout t =>
    simp only [authStep] at h
    split at h <;> cases h
    exact .loggedOut ‹_›
  | change t =>
    simp only [authStep] at h
    split at h <;> cases h
    exact .of_move ‹_› .change
  | commitPassword t =>
    simp only [authStep] at h
    split at h <;> cases h
    exact .committed ‹_›
  | computeCutoff t =>
    simp only [authStep] at h
    split at h <;> cases h
    exact .of_move ‹_› .computeCutoff
  | setCutoff t =>
    simp only [authStep] at h
    split at h <;> cases h
    exact .cut ‹_›
  | returnChange t =>
    simp only [authStep] at h
    split at h <;> cases h
    exact .returned ‹_›
  | abandon t =>
    simp only [authStep] at h
    split at h <;> cases h
    exact .moved .ended

/-- A request that has ended stays ended. -/
theorem done_step (hstep : authStep life w action = some w') {r : ℕ} (hdone : w.tasks r = .done) :
    w'.tasks r = .done := by
  have hupdate : ∀ {t : ℕ} {phase : AuthPhase}, w.tasks t ≠ .done ∨ phase = .done →
      Function.update w.tasks t phase r = .done := by
    intro t phase h
    by_cases hr : r = t
    · subst hr
      rw [Function.update_self]
      exact h.resolve_left (not_not_intro hdone)
    · rwa [Function.update_of_ne hr]
  cases authStep_effect hstep with
  | waited => exact hdone
  | @moved _ t phase h =>
    refine hupdate ?_
    by_cases ht : w.tasks t = .done
    · rw [ht] at h
      cases h
      exact .inr rfl
    · exact .inl ht
  | @accepted t token seen htask _ => exact hupdate (.inl (by simp [htask]))
  | denied htask => exact hupdate (.inl (by simp [htask]))
  | logoutDenied htask => exact hupdate (.inl (by simp [htask]))
  | committed htask => exact hupdate (.inl (by simp [htask]))
  | cut htask => exact hupdate (.inl (by simp [htask]))
  | _ => exact hupdate (.inr rfl)

end Effects

namespace Sample

/-- Half an hour and seven days. -/
def tokenLifetimes : Lifetimes := ⟨1800, 604800⟩

def noSessions : AuthWorld where
  now := 1000
  password := 0
  tokens := []
  denylist _ := none
  deniers _ := []
  cutoff := none
  cutGeneration := 0
  accepted := []
  refreshed := []
  loggedOut := []
  tasks _ := .idle

theorem noSessions_new : noSessions.New := ⟨rfl, fun _ => rfl, rfl, rfl, rfl, fun _ => rfl⟩

end Sample

end LlamaTrade
