import TalentFlow.Gateway.Users

/-!
# Gateway.Auth

Signing in: the Passport strategies and guards that run before a handler, and `AuthService`.

A cookie is `none` when it is missing or not signed by the gateway; the secrets are configured,
since the strategies refuse to start without them.
-/

namespace TalentFlow

open Async

/-! ## Constants -/

def ACCOUNT_LOCKOUT_MAX_ATTEMPTS : Nat := 5
def ACCOUNT_LOCKOUT_DURATION_SECONDS : Nat := 15 * 60

/-- `JWT_ACCESS_TOKEN_EXPIRATION = '15m'`, in seconds -/
def JWT_ACCESS_TOKEN_EXPIRATION : Nat := 15 * 60
/-- `JWT_REFRESH_TOKEN_EXPIRATION = '7d'`, in seconds -/
def JWT_REFRESH_TOKEN_EXPIRATION : Nat := 7 * 24 * 60 * 60

/-! ## Strategies and guards -/

/-- What `JwtStrategy.validate` puts into the request. `tokenId` is never set. -/
structure UserPayload where
  id : String
  email : String
  role : Role
  fullName : String
  tokenId : Option String := none
  deriving DecidableEq

/-- What `JwtRefreshStrategy.validate` puts into the request. -/
structure RefreshUserPayload where
  id : String
  email : String
  tokenId : String
  deriving DecidableEq

/-- The payload of a cookie's token that has not expired (`ignoreExpiration: false`). -/
def verifyJwt {τ : Type} (exp : τ → Nat) (cookie : Option τ) : Prog Api τ := do
  let some token := cookie | throw (.unauthorized "Unauthorized")
  let now ← dateNow
  if now / 1000 < exp token then return token else throw (.unauthorized "Unauthorized")

theorem verifyJwt_some {τ : Type} (exp : τ → Nat) (token : τ) :
    verifyJwt exp (some token) =
      dateNow >>= fun now =>
        if now / 1000 < exp token then pure token else throw (.unauthorized "Unauthorized") := rfl

def JwtStrategy.validate (payload : AccessToken) : Prog Api UserPayload := do
  let user ← UsersService.findById payload.sub
  match user with
  | some user =>
    if user.deletedAt.isSome then throw (.unauthorized "User not found or deleted")
    return { id := user.id, email := user.email, role := user.role, fullName := user.fullName }
  | none => throw (.unauthorized "User not found or deleted")

def JwtAuthGuard.canActivate (cookie : Option AccessToken) : Prog Api UserPayload := do
  let payload ← verifyJwt AccessToken.exp cookie
  JwtStrategy.validate payload

def RolesGuard.canActivate (requiredRoles : List Role) (user : UserPayload) : Prog Api Unit :=
  if requiredRoles.any fun role => decide (user.role = role) then return ()
  else throw (.forbidden "Forbidden resource")

/-- The payload is that of the cookie itself: the strategy reads the cookie again and finds it. -/
def JwtRefreshStrategy.validate (token : RefreshToken) : Prog Api RefreshUserPayload := do
  let storedToken ← redis (.get (.refreshToken token.sub))
  if storedToken ≠ some token then throw (.unauthorized "Invalid refresh token")
  let isBlacklisted ← redis (.existsKey (.blacklist token.tokenId))
  if isBlacklisted ≠ 0 then throw (.unauthorized "Token has been revoked")
  return { id := token.sub, email := token.email, tokenId := token.tokenId }

def JwtRefreshGuard.canActivate (cookie : Option RefreshToken) : Prog Api RefreshUserPayload := do
  let payload ← verifyJwt RefreshToken.exp cookie
  JwtRefreshStrategy.validate payload

/-! ## AuthService -/

structure Tokens where
  accessToken : AccessToken
  refreshToken : RefreshToken
  deriving DecidableEq

/-- The user as `signup` and `login` return it. -/
structure UserSummary where
  id : String
  email : String
  fullName : String
  role : Role
  createdAt : Time
  deriving DecidableEq

def User.summary (u : User) : UserSummary where
  id := u.id
  email := u.email
  fullName := u.fullName
  role := u.role
  createdAt := u.createdAt

namespace AuthService

def signup (email password fullName : String) (role : Role) : Prog Api UserSummary := do
  let existingUser ← UsersService.findByEmail email
  if existingUser.isSome then throw (.conflict "Email already exists")
  let hashedPassword ← bcryptHash password
  let user ← UsersService.create email hashedPassword fullName role
  audit (.signup user.id user.email user.role)
  return user.summary

def getLoginAttempts (email : String) : Prog Api Nat := do
  let attempts ← redis (.get (.loginAttempts email))
  return attempts.getD (0 : Nat)

def getRemainingLockoutTime (email : String) : Prog Api Nat := do
  let ttl ← redis (.ttl (.loginAttempts email))
  return if ttl > (0 : Int) then ttl.toNat else 0

def checkAccountLockout (email : String) : Prog Api Unit := do
  let attempts ← getLoginAttempts email
  if ACCOUNT_LOCKOUT_MAX_ATTEMPTS ≤ attempts then
    let remainingTime ← getRemainingLockoutTime email
    let remainingMinutes := (remainingTime + 59) / 60
    audit (.loginBlocked email attempts remainingMinutes)
    throw (.unauthorized ("Account temporarily locked. Try again in " ++ toString remainingMinutes
      ++ " minute(s)."))

def handleFailedLogin (email : String) (context : LoginContext) (userId : Option String) :
    Prog Api Unit := do
  let attempts : Nat ← redis (.incr email)
  if attempts = 1 then
    let _ ← redis (.expire (.loginAttempts email) ACCOUNT_LOCKOUT_DURATION_SECONDS)
  audit (.loginFailed userId email context attempts ACCOUNT_LOCKOUT_MAX_ATTEMPTS)
  if ACCOUNT_LOCKOUT_MAX_ATTEMPTS ≤ attempts then
    audit (.accountLocked userId email context.ip (ACCOUNT_LOCKOUT_DURATION_SECONDS / 60))

def clearLoginAttempts (email : String) : Prog Api Unit := do
  let _ ← redis (.del (.loginAttempts email))

def generateTokens (user : User) : Prog Api Tokens := do
  let tokenId ← randomUUID
  let now ← dateNow
  -- signing dates a token in whole seconds
  let iat := now / 1000
  let accessToken : AccessToken :=
    { sub := user.id, email := user.email, role := user.role, iat,
      exp := iat + JWT_ACCESS_TOKEN_EXPIRATION }
  let refreshToken : RefreshToken :=
    { sub := user.id, email := user.email, role := user.role, tokenId, iat,
      exp := iat + JWT_REFRESH_TOKEN_EXPIRATION }
  return { accessToken, refreshToken }

def storeRefreshToken (userId : String) (refreshToken : RefreshToken) : Prog Api Unit :=
  redis (.set (.refreshToken userId) refreshToken (7 * 24 * 60 * 60))

def login (email password : String) (context : LoginContext) : Prog Api (Tokens × UserSummary) := do
  checkAccountLockout email
  let found ← UsersService.findByEmail email
  match found.filter fun user => user.deletedAt.isNone with
  | none =>
    handleFailedLogin email context none
    throw (.unauthorized "Invalid credentials")
  | some user =>
    let isPasswordValid ← bcryptCompare password user.password
    if isPasswordValid = false then
      handleFailedLogin email context (some user.id)
      throw (.unauthorized "Invalid credentials")
    clearLoginAttempts email
    let tokens ← generateTokens user
    storeRefreshToken user.id tokens.refreshToken
    audit (.loginSuccess user.id user.email context)
    return (tokens, user.summary)

def refresh (userId : String) (context : LoginContext) : Prog Api Tokens := do
  let found ← UsersService.findById userId
  match found.filter fun user => user.deletedAt.isNone with
  | none =>
    audit (.tokenRefreshFailed userId context.ip "User not found or deleted")
    throw (.unauthorized "User not found")
  | some user =>
    let tokens ← generateTokens user
    storeRefreshToken user.id tokens.refreshToken
    audit (.tokenRefresh user.id user.email context.ip)
    return tokens

def logout (userId tokenId : String) (context : LoginContext) : Prog Api Unit := do
  let _ ← redis (.del (.refreshToken userId))
  redis (.set (.blacklist tokenId) "true" (7 * 24 * 60 * 60))
  audit (.logout userId context.ip tokenId)

end AuthService

namespace AuthController

def refresh (cookie : Option RefreshToken) (context : LoginContext) : Prog Api Tokens := do
  let user ← JwtRefreshGuard.canActivate cookie
  AuthService.refresh user.id context

def logout (cookie : Option AccessToken) (context : LoginContext) : Prog Api Unit := do
  let user ← JwtAuthGuard.canActivate cookie
  AuthService.logout user.id (user.tokenId.getD "") context

end AuthController

end TalentFlow
