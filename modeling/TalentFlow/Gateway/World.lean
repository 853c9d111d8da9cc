import TalentFlow.Gateway.Prisma
import TalentFlow.Gateway.Redis
import TalentFlow.Async.Monitor

/-!
# Gateway.World

Everything the gateway's requests share: the database, Redis, the object store, the channel to the
broker, the clock and the source of random UUIDs; and the calls by which requests reach them. Each
call is one atomic step of `gateway`, the machine all requests run on.

A call to another process can fail (`Choice.fails`); it then has no effect. UUIDs never repeat: a
draw is only possible with a `Fresh` value. `drawn` records which request drew which value, for the
proofs only.
-/

namespace TalentFlow

open Data Async

/-- What a request can be rejected with. The first six are Nest's HTTP exceptions, the others
errors that no service turns into one. -/
inductive Exception where
  | badRequest (message : String)
  | unauthorized (message : String)
  | forbidden (message : String)
  | notFound (message : String)
  | conflict (message : String)
  | internalServerError (message : String)
  | prisma (e : PrismaError)
  | redis
  | storage
  | amqp
  | error (message : String)
  deriving DecidableEq

/-- The status `HttpExceptionFilter.catch` answers with. -/
def Exception.status : Exception → Nat
  | badRequest _ => 400
  | unauthorized _ => 401
  | forbidden _ => 403
  | notFound _ => 404
  | conflict _ => 409
  | internalServerError _ => 500
  | prisma _ => 500
  | redis => 500
  | storage => 500
  | amqp => 500
  | error _ => 500

/-! ## Object store -/

structure StoredObject where
  body : List UInt8
  contentType : String

structure Storage where
  bucketName : String
  publicUrl : Option String
  endpoint : String
  objects : String → Option StoredObject
  /-- a setting of a process cannot hold U+0000 -/
  settings : (isText bucketName && storable publicUrl && isText endpoint) = true

structure UploadResult where
  key : String
  url : String

def Storage.buildFileUrl (s : Storage) (key : String) : String :=
  match s.publicUrl with
  | some publicUrl => publicUrl ++ "/" ++ key
  | none => s.endpoint ++ "/" ++ s.bucketName ++ "/" ++ key

theorem Storage.isText_buildFileUrl (s : Storage) {key : String} (hkey : isText key = true) :
    isText (s.buildFileUrl key) = true := by
  have hslash : isText "/" = true := by decide
  have hsettings := s.settings
  simp only [Bool.and_eq_true] at hsettings
  obtain ⟨⟨hbucket, hpublic⟩, hendpoint⟩ := hsettings
  unfold Storage.buildFileUrl
  cases hurl : s.publicUrl with
  | none => simp only [isText_append, hendpoint, hslash, hbucket, hkey, Bool.and_self]
  | some publicUrl =>
    rw [hurl] at hpublic
    have hpublic : isText publicUrl = true := hpublic
    simp only [isText_append, hpublic, hslash, hkey, Bool.and_self]

inductive StorageCall where
  | upload (buffer : List UInt8) (key contentType : String)
  | getSignedUrl (key : String)
  | delete (key : String)
  | getBucketName

abbrev StorageCall.Value : StorageCall → Type
  | upload _ _ _ => UploadResult
  | getSignedUrl _ => String
  | delete _ => Unit
  | getBucketName => String

/-- `url` is the link the presigner signs. -/
def StorageCall.perform (url : String) : (c : StorageCall) → Storage → c.Value × Storage
  | upload buffer key contentType, s =>
    (⟨key, s.buildFileUrl key⟩,
      { s with objects := Function.update s.objects key (some ⟨buffer, contentType⟩) })
  | getSignedUrl _, s => (url, s)
  | delete key, s => ((), { s with objects := Function.update s.objects key none })
  | getBucketName, s => (s.bucketName, s)

/-! ## Broker channel -/

structure CvUploadedEvent where
  candidateId : String
  applicationId : String
  jobId : String
  bucket : String
  fileKey : String
  mimeType : String
  uploadedAt : Time
  deriving DecidableEq

/-- `this.channel` of `QueueService`. `queued` is what `publish` took and the socket has not sent
yet; `full` is whether `publish` signals back-pressure. -/
structure Channel where
  full : Bool := false
  queued : List CvUploadedEvent := []

/-! ## Security audit -/

structure LoginContext where
  ip : Option String := none
  userAgent : Option String := none

inductive SecurityEvent where
  | signup (userId email : String) (role : Role)
  | loginSuccess (userId email : String) (context : LoginContext)
  | loginFailed (userId : Option String) (email : String) (context : LoginContext)
      (attempts maxAttempts : Nat)
  | loginBlocked (email : String) (attempts remainingMinutes : Nat)
  | logout (userId : String) (ip : Option String) (tokenId : String)
  | tokenRefresh (userId email : String) (ip : Option String)
  | tokenRefreshFailed (userId : String) (ip : Option String) (reason : String)
  | accountLocked (userId : Option String) (email : String) (ip : Option String)
      (lockoutDurationMinutes : Nat)

/-! ## The machine -/

structure World where
  db : Db
  redis : Redis
  storage : Storage
  channel : Option Channel := some {}
  /-- what the broker has received -/
  broker : List CvUploadedEvent := []
  now : Time := 0
  /-- what `bcrypt.compare` answers for a password and a hash -/
  bcrypt : String → String → Bool
  /-- the UUIDs drawn so far, each with the request that drew it -/
  drawn : List (ℕ × String) := []
  audit : List SecurityEvent := []

inductive Call where
  | prisma (c : PrismaCall)
  | redis (c : RedisCall)
  | storage (c : StorageCall)
  /-- `this.channel?.publish(...)` of one event -/
  | publish (event : CvUploadedEvent)
  | randomUUID
  | dateNow
  | bcryptHash (plain : String)
  | bcryptCompare (plain hashed : String)
  | audit (event : SecurityEvent)

abbrev Call.Value : Call → Type
  | prisma c => c.Value
  | redis c => c.Value
  | storage c => c.Value
  | publish _ => Option Bool
  | randomUUID => String
  | dateNow => Time
  | bcryptHash _ => String
  | bcryptCompare _ _ => Bool
  | audit _ => Unit

abbrev Api : Interface := ⟨Call, Call.Value, Exception⟩

def prisma (c : PrismaCall) : Prog Api c.Value := Prog.await (I := Api) (.prisma c)
def redis (c : RedisCall) : Prog Api c.Value := Prog.await (I := Api) (.redis c)
def storage (c : StorageCall) : Prog Api c.Value := Prog.await (I := Api) (.storage c)
def publish (event : CvUploadedEvent) : Prog Api (Option Bool) :=
  Prog.await (I := Api) (.publish event)
def randomUUID : Prog Api String := Prog.await (I := Api) .randomUUID
def dateNow : Prog Api Time := Prog.await (I := Api) .dateNow
def bcryptHash (plain : String) : Prog Api String := Prog.await (I := Api) (.bcryptHash plain)
def bcryptCompare (plain hashed : String) : Prog Api Bool :=
  Prog.await (I := Api) (.bcryptCompare plain hashed)
def audit (event : SecurityEvent) : Prog Api Unit := Prog.await (I := Api) (.audit event)

/-- What the environment decides at a call: whether it fails, the UUID it draws, the order of the
rows of a sorted query, the text of a hash or a presigned link. -/
structure Choice where
  fails : Bool := false
  uuid : String := ""
  rows : Rows := {}
  text : String := ""

/-- Changes of the world that no request makes. -/
inductive Move where
  | tick (elapsed : Time)
  /-- the socket sends the oldest queued message -/
  | send
  | setFull (full : Bool)
  | channelLost
  | channelOpened

def World.move : Move → World → Option World
  | .tick elapsed, w => some { w with now := w.now + elapsed }
  | .send, w =>
    match w.channel with
    | some ch =>
      match ch.queued with
      | m :: ms =>
        some { w with channel := some { ch with queued := ms }, broker := w.broker ++ [m] }
      | [] => none
    | none => none
  | .setFull full, w => w.channel.map fun ch => { w with channel := some { ch with full := full } }
  | .channelLost, w => some { w with channel := none }
  | .channelOpened, w => some { w with channel := some {} }

namespace World

def uuids (w : World) : List String := w.drawn.map Prod.snd

/-- A UUID that can still be drawn. -/
def Fresh (w : World) (u : String) : Prop := (u ≠ "" ∧ isText u = true) ∧ u ∉ w.uuids

instance (w : World) (u : String) : Decidable (w.Fresh u) := inferInstanceAs (Decidable (_ ∧ _))

/-- The environment's choice is possible at this call. -/
def Allows (w : World) (ch : Choice) (c : PrismaCall) : Prop :=
  (c.drawsId = true → w.Fresh ch.uuid) ∧
    (∀ q ∈ c.sortedQuery, IsOrdering w.db q.1 q.2 ch.rows.applications) ∧
    ∀ q ∈ c.sortedInterviews, IsInterviewOrdering w.db q.1 q.2 ch.rows.interviews

instance (w : World) (ch : Choice) (c : PrismaCall) : Decidable (w.Allows ch c) :=
  inferInstanceAs (Decidable (_ ∧ _ ∧ _))

end World

/-- The world after request `i` made a Prisma call: the ids of new rows count as drawn. -/
def PrismaCall.exec (i : ℕ) (c : PrismaCall) (ch : Choice) (w : World) :
    Option (Api.Answer (.prisma c) × World) :=
  if w.Allows ch c then
    match c.perform w.now ch.uuid ch.rows w.db with
    | (.ok v, db) => some (.ok v,
        { w with db := db, drawn := if c.drawsId then w.drawn ++ [(i, ch.uuid)] else w.drawn })
    | (.error e, _) => some (.error (.prisma e), w)
  else none

/-- Answers a call that cannot fail or did not fail. -/
def Call.exec (i : ℕ) (ch : Choice) : (c : Call) → World → Option (Api.Answer c × World)
  | .prisma c, w => c.exec i ch w
  | .redis c, w =>
    some (.ok (c.perform w.now w.redis).1, { w with redis := (c.perform w.now w.redis).2 })
  | .storage c, w =>
    some (.ok (c.perform ch.text w.storage).1, { w with storage := (c.perform ch.text w.storage).2 })
  | .publish event, w =>
    match w.channel with
    | none => some (.ok none, w)
    | some chan => some (.ok (some (!chan.full)),
        { w with channel := some { chan with queued := chan.queued ++ [event] } })
  | .randomUUID, w =>
    if w.Fresh ch.uuid then some (.ok ch.uuid, { w with drawn := w.drawn ++ [(i, ch.uuid)] })
    else none
  | .dateNow, w => some (.ok w.now, w)
  | .bcryptHash plain, w => if w.bcrypt plain ch.text then some (.ok ch.text, w) else none
  | .bcryptCompare plain hashed, w => some (.ok (w.bcrypt plain hashed), w)
  | .audit event, w => some (.ok (), { w with audit := w.audit ++ [event] })

/-- What a failing call rejects with; `none` for what runs inside the process and cannot fail. -/
def Call.failure : Call → Option Exception
  | .prisma _ => some (.prisma .unavailable)
  | .redis _ => some .redis
  | .storage .getBucketName => none
  | .storage _ => some .storage
  | .publish _ => some .amqp
  | _ => none

def gateway : Machine Api ℕ World Choice Move where
  exec i c ch w :=
    match ch.fails, c.failure with
    | true, some e => some (.error e, w)
    | true, none => none
    | false, _ => c.exec i ch w
  move := World.move

end TalentFlow
