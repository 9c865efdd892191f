import LlamaTrade.FillMessages
import LlamaTrade.PythonUuid

/-!
# The kinds of tokens

The tokens of the platform (`llamatrade_common/auth.py`, `session.py`, `oauth_state.py`) share keys
and the names of their claims: access, refresh and handoff tokens are signed with the user key,
service tokens and OAuth states with the shared secret. Each is given to every verifier here. A
token is its claims and what they were signed with; it decodes under this key and algorithm only.
-/

namespace LlamaTrade.Credentials

/-- What the environment variables hold. -/
structure Environment where
  jwtSecret : Option String
  authPrivateKey : Option String
  authPublicKey : Option String
  production : Bool

def defaultSecret : String := "dev-secret-change-in-production"

def defaultAlgorithm : String := "HS256"

def asymmetricAlgorithm : String := "RS256"

def serviceAudience : String := "llamatrade-internal"

def handoffPurpose : String := "alpaca_oauth_handoff"

def statePurpose : String := "alpaca_oauth_state"

def nilUuid : UUID := ⟨0, by decide⟩

/-- The empty text counts as missing. -/
def given (value : Option String) : Option String := value.filter (· ≠ "")

/-- `require_secret`. -/
def requireSecret (env : Environment) : Except String String :=
  match given env.jwtSecret with
  | some value => .ok value
  | none => if env.production then .error "JWT_SECRET must be set" else .ok defaultSecret

/-- `secret or require_secret(...)`. -/
def secretOr (env : Environment) (secret : Option String) : Except String String :=
  match given secret with
  | some value => .ok value
  | none => requireSecret env

/-- `user_token_signing_key`. -/
def userTokenSigningKey (env : Environment) : Except String (String × String) :=
  match given env.authPrivateKey, given env.authPublicKey with
  | some privatePem, some _ => .ok (privatePem, asymmetricAlgorithm)
  | none, none =>
    if env.production then .error "user tokens must be asymmetrically signed"
    else (requireSecret env).map fun secret => (secret, defaultAlgorithm)
  | _, _ => .error "AUTH_JWT_PRIVATE_KEY and AUTH_JWT_PUBLIC_KEY must be configured together"

/-- `user_token_verification_key`. -/
def userTokenVerificationKey (env : Environment) : Except String (String × String) :=
  match given env.authPublicKey with
  | some publicPem => .ok (publicPem, asymmetricAlgorithm)
  | none => (requireSecret env).map fun secret => (secret, defaultAlgorithm)

/-! ## Tokens -/

/-- A token: the key and the algorithm of its signature, and its claims. -/
structure Jwt where
  key : String
  algorithm : String
  claims : Payload

structure User where
  id : UUID
  tenantId : UUID
  email : String
  role : String

/-- The times and random ids that a mint draws. -/
structure Draw where
  iat : ℤ
  exp : ℤ
  nonce : String

/-- The access token of `mint_access_refresh`. -/
def mintAccess (env : Environment) (user : User) (draw : Draw) : Except String Jwt :=
  (userTokenSigningKey env).map fun signing =>
    ⟨signing.1, signing.2,
      [("sub", .str user.id.text), ("tenant_id", .str user.tenantId.text),
        ("email", .str user.email), ("roles", .list [.str user.role]), ("type", .str "access"),
        ("jti", .str draw.nonce), ("iat", .int draw.iat), ("exp", .int draw.exp)]⟩

/-- The refresh token of `mint_access_refresh`. -/
def mintRefresh (env : Environment) (user : User) (draw : Draw) : Except String Jwt :=
  (userTokenSigningKey env).map fun signing =>
    ⟨signing.1, signing.2,
      [("sub", .str user.id.text), ("tenant_id", .str user.tenantId.text),
        ("type", .str "refresh"), ("jti", .str draw.nonce), ("iat", .int draw.iat),
        ("exp", .int draw.exp)]⟩

def mintServiceToken (env : Environment) (serviceName : String) (secret : Option String)
    (algorithm : String) (draw : Draw) : Except String Jwt :=
  (secretOr env secret).map fun key =>
    ⟨key, algorithm,
      [("sub", .str "llamatrade-service"), ("type", .str "service"), ("svc", .str serviceName),
        ("aud", .str serviceAudience), ("iat", .int draw.iat), ("exp", .int draw.exp)]⟩

def mintHandoff (env : Environment) (userId : String) (draw : Draw) : Except String Jwt :=
  (userTokenSigningKey env).map fun signing =>
    ⟨signing.1, signing.2,
      [("purpose", .str handoffPurpose), ("sub", .str userId), ("jti", .str draw.nonce),
        ("iat", .int draw.iat), ("exp", .int draw.exp)]⟩

def mintState (env : Environment) (intent : String) (tenantId userId secret : Option String)
    (draw : Draw) : Except String Jwt :=
  (secretOr env secret).map fun key =>
    ⟨key, defaultAlgorithm,
      [("purpose", .str statePurpose), ("intent", .str intent), ("nonce", .str draw.nonce),
        ("iat", .int draw.iat), ("exp", .int draw.exp)] ++
        ((given tenantId).map fun id => ("tenant_id", Json.str id)).toList ++
        ((given userId).map fun id => ("user_id", Json.str id)).toList⟩

/-! ## Verifiers -/

inductive JwtError where
  | expired
  | invalid
  deriving DecidableEq

section Verifiers

/- The key that verifies what was signed with an algorithm and a key. -/
variable (verifying : String → String → String)

def seconds (claims : Payload) (key : String) : Option ℤ :=
  match claims.get key with
  | .int n => some n
  | _ => none

/-- `jwt.decode` with one algorithm. With `verifyAud` a token for some audience is refused. -/
def jwtDecode (now : ℚ) (token : Jwt) (key algorithm : String) (verifyAud : Bool) :
    Except JwtError Payload :=
  if token.algorithm ≠ algorithm ∨ key ≠ verifying algorithm token.key then .error .invalid
  else if (seconds token.claims "iat").any (now < ·) then .error .invalid
  else if (seconds token.claims "exp").any (· ≤ now) then .error .expired
  else if verifyAud && (token.claims.get "aud").truthy then .error .invalid
  else .ok token.claims

/-- `_acceptable_user_claims`. -/
def acceptableUserClaims (claims : Payload) : Bool :=
  !claims.isText "type" "service" && !claims.isText "aud" serviceAudience

/-- `_decode`, with what the caller asks of the claims. -/
def decodeIf (now : ℚ) (token : Jwt) (key algorithm : String) (accept : Payload → Bool) :
    Option Payload :=
  match jwtDecode verifying now token key algorithm false with
  | .ok claims => if accept claims then some claims else none
  | .error _ => none

/-- The optional arguments of `decode_token_claims`. -/
structure KeyArguments where
  secret : Option String
  algorithm : Option String
  publicKey : Option String

/-- `decode_token_claims`. -/
def decodeTokenClaims (env : Environment) (now : ℚ) (args : KeyArguments) (token : Jwt) :
    Except String (Option Payload) :=
  let publicPem := (given args.publicKey).or (given env.authPublicKey)
  let symmetric : Except String (Option Payload) :=
    let hmacAlgorithm := (given args.algorithm).getD defaultAlgorithm
    if token.algorithm ≠ hmacAlgorithm then .ok none
    else
      (secretOr env args.secret).map fun hmacSecret =>
        decodeIf verifying now token hmacSecret hmacAlgorithm fun claims =>
          if claims.isText "type" "service" then claims.isText "aud" serviceAudience
          else publicPem.isNone && acceptableUserClaims claims
  match publicPem with
  | some pem =>
    if token.algorithm = asymmetricAlgorithm then
      .ok (decodeIf verifying now token pem asymmetricAlgorithm acceptableUserClaims)
    else symmetric
  | none => symmetric

structure TenantContext where
  tenantId : UUID
  userId : UUID
  email : String
  roles : List String
  isService : Bool
  svc : String

/-- `str(claims.get(key, ""))`. -/
def textOf (claims : Payload) (key : String) : String := (claims.lookup key).elim "" Json.pyStr

/-- `str(x) if x else None`. -/
def textIf (x : Json) : Option String := if x.truthy then some x.pyStr else none

/-- `str(x or "")`. -/
def textOr (x : Json) : String := if x.truthy then x.pyStr else ""

/-- `context_from_claims`. -/
def contextFromClaims (claims : Payload) : Option TenantContext :=
  if claims.isText "type" "service" then
    if claims.isText "aud" serviceAudience then
      some ⟨nilUuid, nilUuid, "", [], true, textOr (claims.get "svc")⟩
    else none
  else if claims.has "type" && !claims.isText "type" "access" then none
  else
    let tenantId := claims.get "tenant_id"
    let userId := claims.get "sub"
    if tenantId.truthy && userId.truthy then
      match UUID.parse tenantId.pyStr, UUID.parse userId.pyStr with
      | .ok tenantId, .ok userId =>
        let roles := match claims.get "roles" with
          | .list roles => roles.map Json.pyStr
          | _ => []
        some ⟨tenantId, userId, textOr (claims.get "email"), roles, false, ""⟩
      | _, _ => none
    else none

/-- `verify_credential`. -/
def verifyCredential (env : Environment) (now : ℚ) (args : KeyArguments) (token : Jwt) :
    Except String (Option TenantContext) :=
  (decodeTokenClaims verifying env now args token).map fun claims => claims.bind contextFromClaims

/-- An `AuthMiddleware`: its arguments, and what the revocation store says about claims. -/
structure AuthMiddleware where
  args : KeyArguments
  publicPaths : List String
  publicSuffixes : List String
  isRevoked : Option (Payload → Bool)

structure Request where
  scopeType : String
  method : String
  path : String
  bearerToken : Option Jwt

/-- How the middleware ends: the websocket is closed, the app is called with or without a context
of its own, or the answer is 401. -/
inductive Answer where
  | closed
  | passed (context : Option TenantContext)
  | rejected

/-- `_is_public`. -/
def AuthMiddleware.isPublic (m : AuthMiddleware) (path : String) : Bool :=
  m.publicPaths.contains path || path.startsWith "/health/" ||
    m.publicSuffixes.any fun suffix => path.endsWith suffix

/-- `AuthMiddleware.__call__`. -/
def AuthMiddleware.call (m : AuthMiddleware) (env : Environment) (now : ℚ) (request : Request) :
    Except String Answer :=
  if request.scopeType = "websocket" then .ok .closed
  else if request.scopeType ≠ "http" then .ok (.passed none)
  else if request.method = "OPTIONS" ∨ m.isPublic request.path then .ok (.passed none)
  else
    match request.bearerToken with
    | none => .ok .rejected
    | some token =>
      (decodeTokenClaims verifying env now m.args token).map fun claims =>
        match claims, claims.bind contextFromClaims with
        | some claims, some ctx =>
          if m.isRevoked.any (· claims) && !ctx.isService then .rejected else .passed (some ctx)
        | _, _ => .rejected

inductive RefreshError where
  | expired
  | invalid
  | notRefresh
  | missingUser
  | revoked
  | misconfigured

/-- The checks of `refresh_token`: the user id of the accepted token. -/
def refreshToken (env : Environment) (now : ℚ) (isRevoked : Option (Payload → Bool)) (token : Jwt) :
    Except RefreshError String :=
  match userTokenVerificationKey env with
  | .error _ => .error .misconfigured
  | .ok (key, algorithm) =>
    match jwtDecode verifying now token key algorithm true with
    | .error .expired => .error .expired
    | .error .invalid => .error .invalid
    | .ok claims =>
      if !claims.isText "type" "refresh" then .error .notRefresh
      else if !(claims.get "sub").truthy then .error .missingUser
      else if isRevoked.any (· claims) then .error .revoked
      else .ok (claims.get "sub").pyStr

structure Handoff where
  userId : String
  jti : String

/-- `verify_handoff`. -/
def verifyHandoff (env : Environment) (now : ℚ) (token : Jwt) : Option Handoff :=
  match userTokenVerificationKey env with
  | .error _ => none
  | .ok (key, algorithm) =>
    match jwtDecode verifying now token key algorithm true with
    | .error _ => none
    | .ok claims =>
      if !claims.isText "purpose" handoffPurpose then none
      else if !(claims.get "sub").truthy then none
      else some ⟨(claims.get "sub").pyStr, textOf claims "jti"⟩

structure OAuthState where
  intent : String
  tenantId : Option String
  userId : Option String
  nonce : String

/-- `verify_state`. -/
def verifyState (env : Environment) (now : ℚ) (secret : Option String) (token : Jwt) :
    Except String (Option OAuthState) :=
  (secretOr env secret).map fun key =>
    match jwtDecode verifying now token key defaultAlgorithm true with
    | .error _ => none
    | .ok claims =>
      if !claims.isText "purpose" statePurpose then none
      else if !(claims.isText "intent" "link" || claims.isText "intent" "auth") then none
      else
        some
          { intent := (claims.get "intent").pyStr
            tenantId := textIf (claims.get "tenant_id")
            userId := textIf (claims.get "user_id")
            nonce := textOf claims "nonce" }

end Verifiers

/-! ## What the verifiers accept -/

/-- The kinds of tokens, with what they are minted for. -/
inductive Kind where
  | access (user : User)
  | refresh (user : User)
  | service (serviceName : String)
  | handoff (userId : String)
  | state (intent : String)

/-- The tokens that the mints return. -/
inductive Minted (env : Environment) : Kind → Jwt → Prop
  | access {user : User} {draw : Draw} {token : Jwt} :
      mintAccess env user draw = .ok token → Minted env (.access user) token
  | refresh {user : User} {draw : Draw} {token : Jwt} :
      mintRefresh env user draw = .ok token → Minted env (.refresh user) token
  | service {serviceName : String} {secret : Option String} {algorithm : String} {draw : Draw}
      {token : Jwt} : mintServiceToken env serviceName secret algorithm draw = .ok token →
        Minted env (.service serviceName) token
  | handoff {userId : String} {draw : Draw} {token : Jwt} :
      mintHandoff env userId draw = .ok token → Minted env (.handoff userId) token
  | state {intent : String} {tenantId userId secret : Option String} {draw : Draw} {token : Jwt} :
      mintState env intent tenantId userId secret draw = .ok token → Minted env (.state intent) token

/-- The context that a kind of token may yield. -/
def Kind.Grants : Kind → TenantContext → Prop
  | .access user, ctx =>
    ctx.isService = false ∧ ctx.tenantId = user.tenantId ∧ ctx.userId = user.id
  | .service serviceName, ctx => ctx.isService = true ∧ ctx.svc = serviceName
  | _, _ => False

/-- What each verifier asks of the claims tells the kinds apart. -/
structure Separated (kind : Kind) (claims : Payload) : Prop where
  context : ∀ ctx, contextFromClaims claims = some ctx → kind.Grants ctx
  refresh : claims.isText "type" "refresh" → ∃ user, kind = .refresh user ∧
    (claims.get "sub").pyStr = user.id.text
  handoff : claims.isText "purpose" handoffPurpose → ∃ userId, kind = .handoff userId ∧
    (claims.get "sub").pyStr = userId
  state : claims.isText "purpose" statePurpose → ∃ intent, kind = .state intent ∧
    (claims.get "intent").pyStr = intent

theorem map_eq_ok {α β : Type} {x : Except String α} {f : α → β} {b : β} (h : x.map f = .ok b) :
    ∃ a, x = .ok a ∧ f a = b := by
  cases x with
  | error => cases h
  | ok a => exact ⟨a, rfl, Except.ok.inj h⟩

theorem get_nil (key : String) : Payload.get [] key = .null := rfl

theorem has_cons (key other : String) (value : Json) (rest : Payload) :
    Payload.has ((other, value) :: rest) key = (key == other || Payload.has rest key) := by
  by_cases h : key = other
  · simp [Payload.has, h]
  · simp [Payload.has, List.lookup_cons, beq_eq_false_iff_ne.mpr h]

/-- A context comes from claims of a service, or from claims of a tenant and a user without another
type. -/
theorem context_cases {claims : Payload} {ctx : TenantContext}
    (h : contextFromClaims claims = some ctx) :
    (claims.isText "type" "service" ∧ ctx.isService = true ∧ ctx.svc = textOr (claims.get "svc")) ∨
    ((claims.has "type" → claims.isText "type" "access") ∧ (claims.get "tenant_id").truthy ∧
      (claims.get "sub").truthy ∧ ctx.isService = false ∧
      UUID.parse (claims.get "tenant_id").pyStr = .ok ctx.tenantId ∧
      UUID.parse (claims.get "sub").pyStr = .ok ctx.userId) := by
  unfold contextFromClaims at h
  split at h
  · next hservice =>
    split at h
    · cases h
      exact .inl ⟨hservice, rfl, rfl⟩
    · cases h
  · split at h
    · cases h
    · next htype =>
      simp only at h
      split at h
      · next hpresent =>
        rw [Bool.and_eq_true] at hpresent
        split at h
        · next tenantId userId htenant huser =>
          cases h
          refine .inr ⟨fun hhas => ?_, hpresent.1, hpresent.2, rfl, htenant, huser⟩
          by_contra haccess
          exact htype (by simp [hhas, haccess])
        · cases h
      · cases h

theorem str_truthy {s : String} : (Json.str s).truthy = true ↔ s ≠ "" := by
  simp [Json.truthy]

theorem separated_access (user : User) (draw : Draw) {claims : Payload}
    (h : claims = [("sub", .str user.id.text), ("tenant_id", .str user.tenantId.text),
        ("email", .str user.email), ("roles", .list [.str user.role]), ("type", .str "access"),
        ("jti", .str draw.nonce), ("iat", .int draw.iat), ("exp", .int draw.exp)]) :
    Separated (.access user) claims := by
  subst h
  refine ⟨fun ctx hctx => ?_, ?_, ?_, ?_⟩
  · obtain ⟨hservice, -⟩ | ⟨-, -, -, huser, htenant, hid⟩ := context_cases hctx
    · simp [Payload.isText, Payload.get_cons] at hservice
    · simp [Payload.get_cons, UUID.parse_text] at htenant hid
      exact ⟨huser, htenant.symm, hid.symm⟩
  · simp [Payload.isText, Payload.get_cons]
  · simp [Payload.isText, Payload.get_cons, get_nil]
  · simp [Payload.isText, Payload.get_cons, get_nil]

theorem separated_refresh (user : User) (draw : Draw) {claims : Payload}
    (h : claims = [("sub", .str user.id.text), ("tenant_id", .str user.tenantId.text),
        ("type", .str "refresh"), ("jti", .str draw.nonce), ("iat", .int draw.iat),
        ("exp", .int draw.exp)]) :
    Separated (.refresh user) claims := by
  subst h
  refine ⟨fun ctx hctx => ?_, fun _ => ⟨user, rfl, ?_⟩, ?_, ?_⟩
  · obtain ⟨hservice, -⟩ | ⟨htype, -⟩ := context_cases hctx
    · simp [Payload.isText, Payload.get_cons] at hservice
    · simp [Payload.isText, Payload.get_cons, has_cons] at htype
  · simp [Payload.get_cons]
  · simp [Payload.isText, Payload.get_cons, get_nil]
  · simp [Payload.isText, Payload.get_cons, get_nil]

theorem separated_service (serviceName : String) (draw : Draw) {claims : Payload}
    (h : claims = [("sub", .str "llamatrade-service"), ("type", .str "service"),
        ("svc", .str serviceName), ("aud", .str serviceAudience), ("iat", .int draw.iat),
        ("exp", .int draw.exp)]) :
    Separated (.service serviceName) claims := by
  subst h
  refine ⟨fun ctx hctx => ?_, ?_, ?_, ?_⟩
  · obtain ⟨-, hservice, hsvc⟩ | ⟨htype, -⟩ := context_cases hctx
    · refine ⟨hservice, hsvc.trans ?_⟩
      by_cases hname : serviceName = "" <;> simp [Payload.get_cons, textOr, str_truthy, hname]
    · simp [Payload.isText, Payload.get_cons, has_cons] at htype
  · simp [Payload.isText, Payload.get_cons]
  · simp [Payload.isText, Payload.get_cons, get_nil]
  · simp [Payload.isText, Payload.get_cons, get_nil]

theorem separated_handoff (userId : String) (draw : Draw) {claims : Payload}
    (h : claims = [("purpose", .str handoffPurpose), ("sub", .str userId), ("jti", .str draw.nonce),
        ("iat", .int draw.iat), ("exp", .int draw.exp)]) :
    Separated (.handoff userId) claims := by
  subst h
  refine ⟨fun ctx hctx => ?_, ?_, fun _ => ⟨userId, rfl, ?_⟩, ?_⟩
  · obtain ⟨hservice, -⟩ | ⟨-, htenant, -⟩ := context_cases hctx
    · simp [Payload.isText, Payload.get_cons, get_nil] at hservice
    · simp [Payload.get_cons, get_nil, Json.truthy] at htenant
  · simp [Payload.isText, Payload.get_cons, get_nil]
  · simp [Payload.get_cons]
  · simp [Payload.isText, Payload.get_cons, handoffPurpose, statePurpose]

theorem separated_state (intent : String) (tenantId userId : Option String) (draw : Draw)
    {claims : Payload}
    (h : claims = [("purpose", .str statePurpose), ("intent", .str intent),
        ("nonce", .str draw.nonce), ("iat", .int draw.iat), ("exp", .int draw.exp)] ++
        ((given tenantId).map fun id => ("tenant_id", Json.str id)).toList ++
        ((given userId).map fun id => ("user_id", Json.str id)).toList) :
    Separated (.state intent) claims := by
  -- a state has no `sub` and no `type`, whatever tenant and user it carries
  have hkeys : claims.get "sub" = .null ∧ claims.get "type" = .null ∧
      claims.get "purpose" = .str statePurpose ∧ claims.get "intent" = .str intent := by
    subst h
    cases given tenantId <;> cases given userId <;> simp [Payload.get_cons, get_nil]
  obtain ⟨hsub, htype, hpurpose, hintent⟩ := hkeys
  refine ⟨fun ctx hctx => ?_, ?_, ?_, fun _ => ⟨intent, rfl, ?_⟩⟩
  · obtain ⟨hservice, -⟩ | ⟨-, -, hsubject, -⟩ := context_cases hctx
    · simp [Payload.isText, htype] at hservice
    · simp [hsub, Json.truthy] at hsubject
  · simp [Payload.isText, htype]
  · simp [Payload.isText, hpurpose, handoffPurpose, statePurpose]
  · rw [hintent, Json.pyStr_str]

theorem Minted.separated {env : Environment} {kind : Kind} {token : Jwt}
    (h : Minted env kind token) : Separated kind token.claims := by
  cases h with
  | access hmint =>
    obtain ⟨signing, -, rfl⟩ := map_eq_ok hmint
    exact separated_access _ _ rfl
  | refresh hmint =>
    obtain ⟨signing, -, rfl⟩ := map_eq_ok hmint
    exact separated_refresh _ _ rfl
  | service hmint =>
    obtain ⟨key, -, rfl⟩ := map_eq_ok hmint
    exact separated_service _ _ rfl
  | handoff hmint =>
    obtain ⟨signing, -, rfl⟩ := map_eq_ok hmint
    exact separated_handoff _ _ rfl
  | state hmint =>
    obtain ⟨key, -, rfl⟩ := map_eq_ok hmint
    exact separated_state _ _ _ _ rfl

section Accepting

variable {verifying : String → String → String} {env : Environment} {now : ℚ} {token : Jwt}

theorem jwtDecode_ok {key algorithm : String} {verifyAud : Bool} {claims : Payload}
    (h : jwtDecode verifying now token key algorithm verifyAud = .ok claims) :
    claims = token.claims := by
  unfold jwtDecode at h
  repeat' split at h
  all_goals cases h
  rfl

theorem decodeIf_some {key algorithm : String} {accept : Payload → Bool} {claims : Payload}
    (h : decodeIf verifying now token key algorithm accept = some claims) :
    claims = token.claims := by
  unfold decodeIf at h
  split at h
  · next hdecode =>
    split at h
    · cases h
      exact jwtDecode_ok hdecode
    · cases h
  · cases h

theorem decodeTokenClaims_some {args : KeyArguments} {claims : Payload}
    (h : decodeTokenClaims verifying env now args token = .ok (some claims)) :
    claims = token.claims := by
  unfold decodeTokenClaims at h
  simp only at h
  split at h
  · split at h
    · exact decodeIf_some (Except.ok.inj h)
    · split at h
      · cases h
      · obtain ⟨secret, -, hclaims⟩ := map_eq_ok h
        exact decodeIf_some hclaims
  · split at h
    · cases h
    · obtain ⟨secret, -, hclaims⟩ := map_eq_ok h
      exact decodeIf_some hclaims

theorem verifyCredential_some {args : KeyArguments} {ctx : TenantContext}
    (h : verifyCredential verifying env now args token = .ok (some ctx)) :
    contextFromClaims token.claims = some ctx := by
  obtain ⟨claims, hclaims, hctx⟩ := map_eq_ok h
  obtain ⟨claims, rfl, hctx⟩ := Option.bind_eq_some_iff.mp hctx
  rw [← decodeTokenClaims_some hclaims]
  exact hctx

theorem call_passed {m : AuthMiddleware} {request : Request} {ctx : TenantContext}
    (hbearer : request.bearerToken = some token)
    (h : m.call verifying env now request = .ok (.passed (some ctx))) :
    contextFromClaims token.claims = some ctx := by
  unfold AuthMiddleware.call at h
  split at h
  · cases h
  · split at h
    · cases h
    · split at h
      · cases h
      · rw [hbearer] at h
        obtain ⟨claims, hclaims, hctx⟩ := map_eq_ok h
        split at hctx
        · next claims ctx' hctx' =>
          split at hctx
          · cases hctx
          · cases hctx
            rw [← decodeTokenClaims_some hclaims]
            exact hctx'
        · cases hctx

theorem refreshToken_ok {isRevoked : Option (Payload → Bool)} {userId : String}
    (h : refreshToken verifying env now isRevoked token = .ok userId) :
    token.claims.isText "type" "refresh" ∧ (token.claims.get "sub").pyStr = userId := by
  unfold refreshToken at h
  split at h
  · cases h
  · split at h
    · cases h
    · cases h
    · next claims hclaims =>
      obtain rfl := jwtDecode_ok hclaims
      split at h
      · cases h
      · next htype =>
        split at h
        · cases h
        · split at h
          · cases h
          · exact ⟨by simpa using htype, Except.ok.inj h⟩

theorem verifyHandoff_some {handoff : Handoff}
    (h : verifyHandoff verifying env now token = some handoff) :
    token.claims.isText "purpose" handoffPurpose ∧
      (token.claims.get "sub").pyStr = handoff.userId := by
  unfold verifyHandoff at h
  split at h
  · cases h
  · split at h
    · cases h
    · next claims hclaims =>
      obtain rfl := jwtDecode_ok hclaims
      split at h
      · cases h
      · next hpurpose =>
        split at h
        · cases h
        · cases h
          exact ⟨by simpa using hpurpose, rfl⟩

theorem verifyState_some {secret : Option String} {state : OAuthState}
    (h : verifyState verifying env now secret token = .ok (some state)) :
    token.claims.isText "purpose" statePurpose ∧
      (token.claims.get "intent").pyStr = state.intent := by
  obtain ⟨key, -, h⟩ := map_eq_ok h
  split at h
  · cases h
  · next claims hclaims =>
    obtain rfl := jwtDecode_ok hclaims
    split at h
    · cases h
    · next hpurpose =>
      split at h
      · cases h
      · cases h
        exact ⟨by simpa using hpurpose, rfl⟩

end Accepting

/-- Each verifier accepts, of all tokens that were minted under any keys, only those of its kind,
and a context names the tenant and the user, or the service, of the mint. -/
theorem token_kinds_never_cross (verifying : String → String → String) {minting : Environment}
    {kind : Kind} {token : Jwt} (hminted : Minted minting kind token) (env : Environment) (now : ℚ) :
    (∀ args ctx, verifyCredential verifying env now args token = .ok (some ctx) → kind.Grants ctx) ∧
    (∀ (m : AuthMiddleware) (request : Request) (ctx : TenantContext),
      request.bearerToken = some token →
      m.call verifying env now request = .ok (.passed (some ctx)) → kind.Grants ctx) ∧
    (∀ isRevoked userId, refreshToken verifying env now isRevoked token = .ok userId →
      ∃ user, kind = .refresh user ∧ userId = user.id.text) ∧
    (∀ handoff, verifyHandoff verifying env now token = some handoff →
      kind = .handoff handoff.userId) ∧
    (∀ secret state, verifyState verifying env now secret token = .ok (some state) →
      kind = .state state.intent) := by
  have hseparated := hminted.separated
  refine ⟨fun args ctx h => ?_, fun m request ctx hbearer h => ?_, fun isRevoked userId h => ?_,
    fun handoff h => ?_, fun secret state h => ?_⟩
  · exact hseparated.context ctx (verifyCredential_some h)
  · exact hseparated.context ctx (call_passed hbearer h)
  · obtain ⟨htype, hsub⟩ := refreshToken_ok h
    obtain ⟨user, hkind, hid⟩ := hseparated.refresh htype
    exact ⟨user, hkind, hsub.symm.trans hid⟩
  · obtain ⟨hpurpose, hsub⟩ := verifyHandoff_some h
    obtain ⟨userId, hkind, hid⟩ := hseparated.handoff hpurpose
    rw [hkind, ← hid, hsub]
  · obtain ⟨hpurpose, hintent⟩ := verifyState_some h
    obtain ⟨intent, hkind, hid⟩ := hseparated.state hpurpose
    rw [hkind, ← hid, hintent]

namespace Sample

/-- The public half of a private key is named after it. -/
def publicHalf (algorithm key : String) : String :=
  if algorithm = asymmetricAlgorithm then "public " ++ key else key

def asymmetricKeys : Environment := ⟨some "shared", some "pem", some "public pem", true⟩

def owner : User := ⟨5, 10, "owner@example.com", "admin"⟩

def accessToken : Jwt :=
  ⟨"pem", "RS256", [("sub", .str owner.id.text), ("tenant_id", .str owner.tenantId.text),
    ("email", .str "owner@example.com"), ("roles", .list [.str "admin"]), ("type", .str "access"),
    ("jti", .str "0a"), ("iat", .int 1000), ("exp", .int 2800)]⟩

def ownerContext : TenantContext := ⟨10, 5, "owner@example.com", ["admin"], false, ""⟩

end Sample

/-- An access token is verified, and its context is that of its user. -/
theorem token_kinds_never_cross_access :
    verifyCredential Sample.publicHalf Sample.asymmetricKeys 1500 ⟨none, none, none⟩
      Sample.accessToken = .ok (some Sample.ownerContext) ∧
    Kind.Grants (.access Sample.owner) Sample.ownerContext := by
  have hverified : verifyCredential Sample.publicHalf Sample.asymmetricKeys 1500
      ⟨none, none, none⟩ Sample.accessToken = .ok (some Sample.ownerContext) := by
    rfl
  have hminted : Minted Sample.asymmetricKeys (.access Sample.owner) Sample.accessToken :=
    @Minted.access Sample.asymmetricKeys Sample.owner ⟨1000, 2800, "0a"⟩ _ rfl
  exact ⟨hverified, (token_kinds_never_cross Sample.publicHalf hminted Sample.asymmetricKeys 1500).1
    _ _ hverified⟩

end LlamaTrade.Credentials
