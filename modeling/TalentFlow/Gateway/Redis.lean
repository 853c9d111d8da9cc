import TalentFlow.Gateway.Schema
import TalentFlow.Data.Expiring

/-!
# Gateway.Redis

The keys the gateway keeps in Redis, what it stores under them, and the commands of
`RedisService`. Keys are built from three prefixes; `render_injective` says that the keys of
different users, tokens and emails never collide, so the store is keyed by what the key is for.

Tokens are symbolic: signing is deterministic and injective and only the gateway can sign, so a
well-signed token is its payload.
-/

namespace TalentFlow

open Data

/-- `RefreshTokenPayload` with the claims that signing adds: when the token was issued and when it
expires, in seconds. -/
structure RefreshToken where
  sub : String
  email : String
  role : Role
  tokenId : String
  iat : Nat
  exp : Nat
  deriving DecidableEq

/-- `TokenPayload` with the same claims. -/
structure AccessToken where
  sub : String
  email : String
  role : Role
  iat : Nat
  exp : Nat
  deriving DecidableEq

def LOGIN_ATTEMPTS_KEY_PREFIX : String := "login_attempts:"

inductive RedisKey where
  | refreshToken (userId : String)
  | blacklist (tokenId : String)
  | loginAttempts (email : String)
  deriving DecidableEq

namespace RedisKey

/-- The key as Redis sees it. -/
def render : RedisKey → String
  | refreshToken userId => "refresh_token:" ++ userId
  | blacklist tokenId => "blacklist:" ++ tokenId
  | loginAttempts email => LOGIN_ATTEMPTS_KEY_PREFIX ++ email

theorem render_injective {k k' : RedisKey} (h : k.render = k'.render) : k = k' := by
  have hl := congrArg String.toList h
  cases k <;> cases k' <;>
    simp [render, LOGIN_ATTEMPTS_KEY_PREFIX, String.toList_inj] at hl <;> simp [hl]

/-- What the gateway stores under a key: the signed token, `'true'`, a counter. -/
abbrev Value : RedisKey → Type
  | refreshToken _ => RefreshToken
  | blacklist _ => String
  | loginAttempts _ => Nat

end RedisKey

abbrev Redis := Expiring RedisKey RedisKey.Value

def seconds (n : Nat) : Time := n * 1000

inductive RedisCall where
  | get (k : RedisKey)
  | set (k : RedisKey) (v : k.Value) (ttl : Nat)
  | del (k : RedisKey)
  | existsKey (k : RedisKey)
  | incr (email : String)
  | expire (k : RedisKey) (ttl : Nat)
  | ttl (k : RedisKey)

namespace RedisCall

abbrev Value : RedisCall → Type
  | get k => Option k.Value
  | set _ _ _ => Unit
  | del _ => Nat
  | existsKey _ => Nat
  | incr _ => Nat
  | expire _ _ => Nat
  | ttl _ => Int

/-- What the command answers and leaves at time `now`. -/
def perform (now : Time) : (c : RedisCall) → Redis → c.Value × Redis
  | get k, s => (s.get now k, s)
  | set k v n, s => ((), s.set k v (if n = 0 then none else some (now + seconds n)))
  | del k, s => (if (s.get now k).isSome then 1 else 0, s.del k)
  | existsKey k, s => (if (s.get now k).isSome then 1 else 0, s)
  | incr email, s =>
    -- the counter starts at 0 without an expiry and keeps the expiry it has
    match s.get now (.loginAttempts email) with
    | none => (1, s.set (.loginAttempts email) (1 : Nat) none)
    | some (n : Nat) => (n + 1, s.set (.loginAttempts email) (n + 1 : Nat)
        ((s.entry (.loginAttempts email)).bind (·.expiresAt)))
  | expire k n, s =>
    match s.get now k with
    | none => (0, s)
    | some v => (1, s.set k v (some (now + seconds n)))
  | ttl k, s =>
    match s.get now k, (s.entry k).bind (·.expiresAt) with
    | none, _ => (-2, s)
    | some _, none => (-1, s)
    | some _, some t => (Int.ofNat ((t - now + 500) / 1000), s)

end RedisCall

end TalentFlow
