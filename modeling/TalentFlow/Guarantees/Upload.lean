import TalentFlow.Gateway.WellFormed

/-!
# Guarantees.Upload

`createWithCv` stores a file, inserts an application and publishes an event, in three systems that
share no transaction; when a step fails it deletes what it has left. Its effects are the successful
writes among its calls, in order.

* `createWithCv_effects`: the effects of a request that resolves, and of one that rejects.
* `uploadInv_call`: objects, rows and messages belong to the request that drew their UUIDs.
* `rollback_exec`: a rollback that does not fail leaves nothing.
* `rejected_not_delivered`: as long as it publishes nothing into a full buffer, no event of a
  request that rejects reaches the broker.
* `rejected_delivered`: a run in which the buffer is full.
-/

namespace TalentFlow

open Data Async

/-! ## Effects -/

inductive Effect where
  | drew (uuid : String)
  | stored (key : String)
  | inserted (application : Application)
  /-- `publish` returned `true` -/
  | handedOver (event : CvUploadedEvent)
  /-- `publish` returned `false`: the message is in the buffer all the same -/
  | buffered (event : CvUploadedEvent)
  /-- the application row was deleted, or found to be gone -/
  | rowGone (id : String)
  | rowKept (id : String)
  | objectGone (key : String)
  | objectKept (key : String)
  deriving DecidableEq

def effect? : Event Api → Option Effect
  | ⟨.randomUUID, .ok uuid⟩ => some (.drew uuid)
  | ⟨.storage (.upload _ key _), .ok _⟩ => some (.stored key)
  | ⟨.prisma (.applicationCreate _), .ok application⟩ => some (.inserted application)
  | ⟨.publish event, .ok (some true)⟩ => some (.handedOver event)
  | ⟨.publish event, .ok (some false)⟩ => some (.buffered event)
  | ⟨.prisma (.applicationDelete id), .ok _⟩ => some (.rowGone id)
  | ⟨.prisma (.applicationDelete id), .error (.prisma .recordNotFound)⟩ => some (.rowGone id)
  | ⟨.prisma (.applicationDelete id), .error _⟩ => some (.rowKept id)
  | ⟨.storage (.delete key), .ok _⟩ => some (.objectGone key)
  | ⟨.storage (.delete key), .error _⟩ => some (.objectKept key)
  | _ => none

def effects (cfg : Config Api ℕ World Response) (i : ℕ) : List Effect :=
  (cfg.trace i).filterMap effect?

/-- The key a request with this file gives it, from the UUID it draws. -/
def UploadedFile.key (file : UploadedFile) (uuid : String) : String :=
  cvFileKey uuid (safeExtension file.originalname)

def Request.file : Request → Option UploadedFile
  | .createApplicationWithCv _ file _ => some file
  | _ => none

/-- The event says that this application was submitted with the file stored under `key`. -/
def CvUploadedEvent.Names (event : CvUploadedEvent) (application : Application) (key : String) :
    Prop :=
  event.applicationId = application.id ∧ event.candidateId = application.candidateId ∧
    event.jobId = application.jobId ∧ event.fileKey = key

/-- What a request may write, after the effects it has had: only its own key, row and event. -/
def UploadAllows (r : Request) (s : List Effect) : Call → Prop
  | .storage (.upload _ key _) => ∃ file u, r.file = some file ∧ s = [.drew u] ∧ key = file.key u
  | .prisma (.applicationCreate d) => ∀ file, r.file = some file →
    ∃ u, s = [.drew u, .stored (file.key u)] ∧ d.cvFileKey = some (file.key u)
  | .publish event => ∃ file u a, r.file = some file ∧
    s = [.drew u, .stored (file.key u), .inserted a] ∧ event.Names a (file.key u)
  | .prisma (.applicationDelete id) => ∃ a, .inserted a ∈ s ∧ id = a.id
  | .storage (.delete key) => .stored key ∈ s
  | _ => True

/-- An insertion answers the row it was given. -/
def Inserts : (c : Call) → Api.Answer c → Prop
  | .prisma (.applicationCreate d), .ok a => ∃ id now, a = d.row id now
  | _, _ => True

def uploadMonitor (r : Request) : Monitor Api (List Effect) :=
  summary effect? (UploadAllows r) Inserts

/-- Nothing was handed over, and each write was taken back, or the attempt to do so has failed. -/
structure RolledBack (s : List Effect) : Prop where
  event : ∀ event, .handedOver event ∉ s
  row : ∀ a, .inserted a ∈ s → .rowGone a.id ∈ s ∨ .rowKept a.id ∈ s
  object : ∀ key, .stored key ∈ s → .objectGone key ∈ s ∨ .objectKept key ∈ s

/-- One object was stored, one application inserted and one event handed over, in that order. -/
def Delivered (file : UploadedFile) (response : UploadCvResponseDto) (s : List Effect) : Prop :=
  ∃ u a event, s = [.drew u, .stored (file.key u), .inserted a, .handedOver event] ∧
    a.cvFileKey = some (file.key u) ∧ event.Names a (file.key u) ∧
    response.applicationId = a.id ∧ response.fileKey = file.key u

/-- The effects of a `createWithCv` that has come to its end. -/
def UploadEnds (file : UploadedFile) (o : Except Exception UploadCvResponseDto)
    (s : List Effect) : Prop :=
  match o with
  | .ok response => Delivered file response s
  | .error _ => RolledBack s

section Programs

/-- A call that has no effect, whatever it is answered. -/
def Unseen (c : Call) : Prop := c.IsQuiet ∨ ∃ data, c = .prisma (.candidateCreate data)

theorem unseen_next {c : Call} (h : Unseen c) (r : Request) (s : List Effect) :
    UploadAllows r s c ∧ ∀ a, (uploadMonitor r).next s ⟨c, a⟩ = s := by
  have hnone : ∀ a, effect? ⟨c, a⟩ = none → (uploadMonitor r).next s ⟨c, a⟩ = s := by
    intro a ha
    simp [uploadMonitor, summary, ha]
  rcases h with hq | ⟨data, rfl⟩
  · cases c with
    | prisma c =>
      cases c <;> first | exact hq.elim | exact ⟨trivial, fun a => hnone a rfl⟩
    | storage c =>
      cases c <;> first | exact hq.elim | exact ⟨trivial, fun a => hnone a rfl⟩
    | dateNow => exact ⟨trivial, fun a => hnone a rfl⟩
    | audit event => exact ⟨trivial, fun a => hnone a rfl⟩
    | _ => exact hq.elim
  · exact ⟨trivial, fun a => hnone a rfl⟩

variable {α β : Type} {r : Request} {post : Except Exception β → List Effect → Prop}
  {s : List Effect}

theorem upload_unseen {p : Prog Api α} {f : α → Prog Api β} (hp : p.Calls Unseen)
    (hok : ∀ a, Obeys (uploadMonitor r) post (f a) s) (herr : ∀ e, post (.error e) s) :
    Obeys (uploadMonitor r) post (p >>= f) s := by
  refine obeys_bind (obeys_mono (obeys_of_calls hp fun c hc => unseen_next hc r s) ?_)
  intro o s' hs'
  subst hs'
  cases o with
  | ok a => exact hok a
  | error e => exact herr e

variable {file : UploadedFile}

theorem deleteObject_ends {key : String} (hstored : .stored key ∈ s)
    (hends : ∀ last ∈ [Effect.objectGone key, .objectKept key], RolledBack (s ++ [last])) :
    Obeys (uploadMonitor r) (UploadEnds file)
      (ApplicationsService.failCreateWithCv none key) s := by
  refine obeys_bind (obeys_tryCatch (obeys_await_last hstored fun a _ => ?_))
  cases a with
  | ok _ => exact hends (.objectGone key) (by simp)
  | error e => exact hends (.objectKept key) (by simp)

theorem failBeforeInsert_ends (u : String) :
    Obeys (uploadMonitor r) (UploadEnds file)
      (ApplicationsService.failCreateWithCv none (file.key u))
      [.drew u, .stored (file.key u)] := by
  refine deleteObject_ends (by simp) fun object hobject => ?_
  simp only [List.mem_cons, List.not_mem_nil, or_false] at hobject
  rcases hobject with rfl | rfl <;> exact ⟨by simp, by simp, by simp⟩

/-- The `catch` of `createWithCv` after the application was inserted; `t` is what `publish` did. -/
theorem failAfterInsert_ends {u : String} {a : Application} {t : List Effect}
    (ht : t = [] ∨ ∃ event, t = [.buffered event]) :
    Obeys (uploadMonitor r) (UploadEnds file)
      (ApplicationsService.failCreateWithCv (some a.id) (file.key u))
      ([.drew u, .stored (file.key u), .inserted a] ++ t) := by
  have hrest : ∀ row ∈ [Effect.rowGone a.id, .rowKept a.id],
      Obeys (uploadMonitor r) (UploadEnds file)
        (ApplicationsService.failCreateWithCv none (file.key u))
        ([.drew u, .stored (file.key u), .inserted a] ++ t ++ [row]) := by
    intro row hrow
    refine deleteObject_ends (by simp) fun object hobject => ?_
    simp only [List.mem_cons, List.not_mem_nil, or_false] at hrow hobject
    rcases ht with rfl | ⟨event, rfl⟩ <;> rcases hrow with rfl | rfl <;>
      rcases hobject with rfl | rfl <;> exact ⟨by simp, by simp, by simp⟩
  have hmem : .inserted a ∈ [Effect.drew u, .stored (file.key u), .inserted a] ++ t := by simp
  unfold ApplicationsService.failCreateWithCv ApplicationsService.rollbackCreateWithCv
  rw [bind_assoc]
  refine obeys_bind (obeys_tryCatch (obeys_await_last ⟨a, hmem, rfl⟩ fun answer _ => ?_))
  cases answer with
  | ok _ => exact hrest (.rowGone a.id) (by simp)
  | error e =>
    obtain ⟨row, hrow, hnext⟩ : ∃ row ∈ [Effect.rowGone a.id, .rowKept a.id],
        effect? ⟨.prisma (.applicationDelete a.id), .error e⟩ = some row := by
      by_cases he : e = .prisma .recordNotFound
      · subst he
        exact ⟨.rowGone a.id, by simp, rfl⟩
      · exact ⟨.rowKept a.id, by simp, by unfold effect?; split <;> simp_all⟩
    have hstate : (uploadMonitor r).next ([.drew u, .stored (file.key u), .inserted a] ++ t)
        ⟨.prisma (.applicationDelete a.id), .error e⟩ =
        [.drew u, .stored (file.key u), .inserted a] ++ t ++ [row] := by
      simp only [uploadMonitor, summary, hnext, Option.toList_some]
    dsimp only
    rw [hstate]
    exact hrest row hrow

/-- The event was handed over, or it is in the buffer or nowhere. -/
def Published (a : Application) (key : String) (o : Except Exception Unit) (t : List Effect) :
    Prop :=
  match o with
  | .ok _ => ∃ event, t = [.handedOver event] ∧ event.Names a key
  | .error _ => t = [] ∨ ∃ event, t = [.buffered event]

theorem publishApplication_ends {u : String} {a : Application} (hfile : r.file = some file)
    (mimeType : String) :
    Obeys (uploadMonitor r)
      (fun o s => ∃ t, s = [.drew u, .stored (file.key u), .inserted a] ++ t ∧
        Published a (file.key u) o t)
      (ApplicationsService.publishApplication a.candidateId a.id a.jobId (file.key u) mimeType)
      [.drew u, .stored (file.key u), .inserted a] := by
  refine obeys_await trivial (fun bucket _ => ?_) fun _ _ => ⟨[], rfl, .inl rfl⟩
  refine obeys_await trivial (fun now _ => ?_) fun _ _ => ⟨[], rfl, .inl rfl⟩
  have hnames : CvUploadedEvent.Names
      ⟨a.candidateId, a.id, a.jobId, bucket, file.key u, mimeType, now⟩ a (file.key u) :=
    ⟨rfl, rfl, rfl, rfl⟩
  refine obeys_await ⟨file, u, a, hfile, rfl, hnames⟩ (fun published _ => ?_)
    fun _ _ => ⟨[], rfl, .inl rfl⟩
  cases published with
  | none => exact ⟨[], rfl, .inl rfl⟩
  | some taken =>
    cases taken with
    | true => exact ⟨_, rfl, _, rfl, hnames⟩
    | false => exact ⟨_, rfl, .inr ⟨_, rfl⟩⟩

/-- What a `createWithCv` has done when it ends. -/
theorem createWithCv_effects {userId : String} {dto : UploadCvDto} (hfile : r.file = some file) :
    Obeys (uploadMonitor r) (UploadEnds file)
      (ApplicationsService.createWithCv userId file dto) [] := by
  have hunseen : ∀ c : Call, c.IsQuiet → Unseen c := fun c hc => .inl hc
  have herr : RolledBack [] := ⟨by simp, by simp, by simp⟩
  have hdrew : ∀ u, RolledBack [.drew u] := fun u => ⟨by simp, by simp, by simp⟩
  refine upload_unseen (findOpenJobOrThrow_calls hunseen dto.jobId) (fun _ => ?_) fun _ => herr
  refine upload_unseen (findOrCreateCandidateOrThrow_calls hunseen
    (fun data => .inr ⟨data, rfl⟩) userId) (fun candidate => ?_) fun _ => herr
  refine upload_unseen (ensureNoDuplicateApplication_calls hunseen dto.jobId candidate.id)
    (fun _ => ?_) fun _ => herr
  refine obeys_bind (obeys_bind (obeys_await trivial (fun u _ => ?_) fun e _ => herr))
  refine obeys_tryCatch (obeys_await ⟨file, u, hfile, rfl, rfl⟩ (fun uploaded _ => ?_)
    fun e _ => hdrew u)
  change Obeys _ _ (Prog.attempt _ >>= _) [Effect.drew u, .stored (file.key u)]
  refine obeys_attempt (obeys_await_last ?_ fun answer hanswer => ?_)
  · intro file' hfile'
    rw [hfile] at hfile'
    cases hfile'
    exact ⟨u, rfl, rfl⟩
  cases answer with
  | error e => exact failBeforeInsert_ends u
  | ok a =>
    obtain ⟨id, now, rfl⟩ := hanswer
    refine obeys_attempt (obeys_mono (publishApplication_ends hfile file.mimetype) ?_)
    rintro o s ⟨t, rfl, ht⟩
    cases o with
    | error e => exact failAfterInsert_ends ht
    | ok _ =>
      obtain ⟨event, rfl, hnames⟩ := ht
      have hdone : ∀ url, Delivered file ⟨id, file.key u, uploaded.url, url, "processing",
            "CV uploaded successfully. Processing started."⟩
          [.drew u, .stored (file.key u), .inserted _, .handedOver event] :=
        fun url => ⟨u, _, event, rfl, rfl, hnames, rfl, rfl⟩
      refine obeys_bind (obeys_tryCatch (obeys_await trivial (fun url _ => ?_) fun e _ => ?_))
      · exact hdone (some url)
      · exact hdone none

/-- What a request has done when it ends, if it uploads a file. -/
def RequestEnds (r : Request) (o : Except Exception Response) (s : List Effect) : Prop :=
  ∀ file, r.file = some file → ∃ o', o = o'.map Response.uploaded ∧ UploadEnds file o' s

/-- A request without a file stores and publishes nothing, and deletes no application. -/
theorem footprint_noFile (hfile : r.file = none) {c : Call} (hf : r.footprint c) :
    (∀ c', c ≠ .storage c') ∧ (∀ event, c ≠ .publish event) ∧
      ∀ id, c ≠ .prisma (.applicationDelete id) := by
  refine ⟨?_, ?_, ?_⟩ <;> rintro x rfl <;> cases r <;>
    simp [Request.file, Request.footprint] at hfile hf

/-- Every request keeps to what its upload allows. -/
theorem request_effects (r : Request) : Obeys (uploadMonitor r) (RequestEnds r) r.prog [] := by
  cases hfile : r.file with
  | some file =>
    cases r with
    | createApplicationWithCv userId file' dto =>
      cases hfile
      refine obeys_bind (obeys_mono (createWithCv_effects rfl) fun o s hs => ?_)
      cases o with
      | ok response =>
        intro file' hfile'
        cases hfile'
        exact ⟨.ok response, rfl, hs⟩
      | error e =>
        intro file' hfile'
        cases hfile'
        exact ⟨.error e, rfl, hs⟩
    | _ => cases hfile
  | none =>
    have hno : ∀ o s, RequestEnds r o s := by
      intro o s file hfile'
      rw [hfile] at hfile'
      cases hfile'
    refine obeys_mono (obeys_of_allowed (prog_calls r) fun s c hc => ?_) fun o s _ => hno o s
    rcases hc with hq | hf
    · exact (unseen_next (.inl hq) r s).1
    · obtain ⟨hstorage, hpublish, hdelete⟩ := footprint_noFile hfile hf
      change UploadAllows r s c
      unfold UploadAllows
      split
      · exact absurd rfl (hstorage _)
      · intro file hfile'
        rw [hfile] at hfile'
        cases hfile'
      · exact absurd rfl (hpublish _)
      · exact absurd rfl (hdelete _)
      · exact absurd rfl (hstorage _)
      · trivial

end Programs

/-! ## Keys and owners -/

/-- The key is one that `generateCvFileKey` can make of this UUID. -/
def CvKeyOf (uuid key : String) : Prop :=
  ∃ extension ∈ ALLOWED_EXTENSIONS, key = cvFileKey uuid extension

theorem UploadedFile.key_of (file : UploadedFile) (uuid : String) :
    CvKeyOf uuid (file.key uuid) := ⟨safeExtension file.originalname, safeExtension_allowed _, rfl⟩

theorem CvKeyOf.inj {u u' key : String} (h : CvKeyOf u key) (h' : CvKeyOf u' key) : u = u' := by
  obtain ⟨x, hx, rfl⟩ := h
  obtain ⟨y, hy, heq⟩ := h'
  have hlist : u.toList ++ ('.' :: x.toList) = u'.toList ++ ('.' :: y.toList) := by
    have := congrArg String.toList heq
    simpa [cvFileKey, String.toList_append] using this
  have hlast := congrArg List.getLast? hlist
  simp only [ALLOWED_EXTENSIONS, List.mem_cons, List.not_mem_nil, or_false] at hx hy
  have hxy : x = y := by
    rcases hx with rfl | rfl <;> rcases hy with rfl | rfl <;> simp at hlast ⊢
  subst hxy
  exact String.toList_inj.mp (List.append_cancel_right hlist)

/-- The request has drawn the UUID, for its file or for its application. -/
def Owns (s : List Effect) (u : String) : Prop :=
  .drew u ∈ s ∨ ∃ a, .inserted a ∈ s ∧ a.id = u

def World.messages (w : World) : List CvUploadedEvent :=
  w.broker ++ (w.channel.map Channel.queued).getD []

section Steps

variable {i : ℕ} {ch : Choice} {w w' : World} {c : Call} {a : Api.Answer c}

def Effect.Of (c : Call) : Effect → Prop
  | .drew _ => c = .randomUUID
  | .stored key => ∃ buffer contentType, c = .storage (.upload buffer key contentType)
  | .inserted _ => ∃ d, c = .prisma (.applicationCreate d)
  | .handedOver event => c = .publish event
  | .buffered event => c = .publish event
  | .rowGone id => c = .prisma (.applicationDelete id)
  | .rowKept id => c = .prisma (.applicationDelete id)
  | .objectGone key => c = .storage (.delete key)
  | .objectKept key => c = .storage (.delete key)

theorem effect_of {e : Event Api} {x : Effect} (h : effect? e = some x) : x.Of e.call := by
  unfold effect? at h
  split at h <;> cases h <;> first | rfl | exact ⟨_, rfl⟩ | exact ⟨_, _, rfl⟩

theorem mem_next {s : List Effect} {x : Effect} :
    x ∈ s ++ (effect? ⟨c, a⟩).toList ↔ x ∈ s ∨ effect? ⟨c, a⟩ = some x := by
  simp

theorem owns_exec (h : gateway.exec i c ch w = some (a, w')) {s : List Effect} {u : String}
    (hu : Owns (s ++ (effect? ⟨c, a⟩).toList) u) : Owns s u ∨ u ∉ w.uuids ∧ (i, u) ∈ w'.drawn := by
  rcases hu with hu | ⟨row, hrow, rfl⟩
  · obtain hu | heff := mem_next.mp hu
    · exact .inl (.inl hu)
    obtain rfl : c = .randomUUID := effect_of heff
    obtain ⟨v, hfresh, rfl, rfl⟩ := randomUUID_cases h
    cases heff
    exact .inr ⟨hfresh.2, by simp⟩
  · obtain hrow | heff := mem_next.mp hrow
    · exact .inl (.inr ⟨row, hrow, rfl⟩)
    obtain ⟨d, rfl⟩ : ∃ d, c = .prisma (.applicationCreate d) := effect_of heff
    obtain ⟨e, rfl, rfl⟩ | ⟨v, db, -, hallow, hp, rfl, rfl⟩ := prisma_cases h
    · cases heff
    cases heff
    obtain ⟨rfl, -⟩ := PrismaCall.perform_applicationCreate hp
    exact .inr ⟨(hallow.1 rfl).2, by simp [PrismaCall.drawsId, ApplicationCreate.row]⟩

theorem object_exec (h : gateway.exec i c ch w = some (a, w')) {key : String}
    (hkey : w'.storage.objects key ≠ none) :
    (w.storage.objects key ≠ none ∧ effect? ⟨c, a⟩ ≠ some (.objectGone key)) ∨
      effect? ⟨c, a⟩ = some (.stored key) := by
  by_cases hc : ∃ c', c = .storage c'
  · obtain ⟨c', rfl⟩ := hc
    obtain ⟨rfl, rfl⟩ | ⟨rfl, rfl⟩ := storage_cases h
    · left
      refine ⟨hkey, fun heff => ?_⟩
      cases c' <;> cases heff
    cases c' with
    | upload buffer key' contentType =>
      by_cases hk : key = key'
      · subst hk
        exact .inr rfl
      · left
        simp only [StorageCall.perform, Function.update_of_ne hk] at hkey
        exact ⟨hkey, fun heff => by cases heff⟩
    | delete key' =>
      by_cases hk : key = key'
      · subst hk
        simp [StorageCall.perform] at hkey
      · left
        simp only [StorageCall.perform, Function.update_of_ne hk] at hkey
        refine ⟨hkey, fun heff => ?_⟩
        cases heff
        exact hk rfl
    | getSignedUrl key' => exact .inl ⟨hkey, fun heff => by cases heff⟩
    | getBucketName => exact .inl ⟨hkey, fun heff => by cases heff⟩
  · left
    have hne : ∀ c', c ≠ .storage c' := fun c' hc' => hc ⟨c', hc'⟩
    rw [(exec_frame h).storage hne] at hkey
    refine ⟨hkey, fun heff => ?_⟩
    exact hne _ (effect_of heff)

theorem applicationDelete_notFound {id : String}
    (h : gateway.exec i (.prisma (.applicationDelete id)) ch w =
      some (.error (.prisma .recordNotFound), w')) : ¬ w'.db.applications.HasKey id := by
  obtain ⟨e, he, hr, rfl⟩ | ⟨-, h⟩ := exec_cases h
  · cases he
    cases hr
  · simp only [Call.exec, PrismaCall.exec, PrismaCall.perform] at h
    split at h
    · by_cases hkey : w.db.applications.HasKey id
      · rw [if_pos hkey] at h
        cases h
      · rw [if_neg hkey] at h
        cases h
        exact hkey
    · cases h

theorem row_exec (h : gateway.exec i c ch w = some (a, w')) {id : String}
    (hrow : w'.db.applications.HasKey id) :
    (w.db.applications.HasKey id ∧ effect? ⟨c, a⟩ ≠ some (.rowGone id)) ∨ id ∉ w.uuids := by
  have hgone : effect? ⟨c, a⟩ ≠ some (.rowGone id) := by
    intro heff
    obtain rfl : c = .prisma (.applicationDelete id) := effect_of heff
    obtain ⟨e, rfl, rfl⟩ | ⟨v, db, -, -, hp, rfl, rfl⟩ := prisma_cases h
    · by_cases he : e = .recordNotFound
      · subst he
        exact applicationDelete_notFound h hrow
      · cases e <;> first | exact he rfl | cases heff
    · obtain ⟨-, rfl⟩ := PrismaCall.perform_applicationDelete hp
      obtain ⟨row, hmem, rfl⟩ := hrow
      have := (Table.mem_remove.mp hmem).2
      simp at this
  by_cases hc : ∃ c', c = .prisma c'
  · obtain ⟨c', rfl⟩ := hc
    obtain ⟨e, rfl, rfl⟩ | ⟨v, db, -, hallow, hp, rfl, rfl⟩ := prisma_cases h
    · exact .inl ⟨hrow, hgone⟩
    obtain ⟨row, hmem, rfl⟩ := hrow
    obtain hold | ⟨d, rfl, rfl⟩ | ⟨d, row₀, rfl, hold, rfl⟩ := PrismaCall.mem_applications hp hmem
    · exact .inl ⟨⟨row, hold, rfl⟩, hgone⟩
    · exact .inr (hallow.1 rfl).2
    · exact .inl ⟨⟨row₀, hold, rfl⟩, hgone⟩
  · left
    refine ⟨?_, hgone⟩
    rwa [(exec_frame h).db fun c' hc' => hc ⟨c', hc'⟩] at hrow

/-- A row keeps its candidate and its file, is deleted by itself, or goes with the candidate. -/
theorem row_kept (h : gateway.exec i c ch w = some (a, w')) {x : Application}
    (hx : x ∈ w.db.applications.rows) :
    (∃ y ∈ w'.db.applications.rows, y.id = x.id ∧ y.candidateId = x.candidateId ∧
        y.cvFileKey = x.cvFileKey) ∨
      effect? ⟨c, a⟩ = some (.rowGone x.id) ∨
      ch.fails = false ∧
        (⟨c, a⟩ : Event Api) = ⟨.prisma (.candidateDelete x.candidateId), .ok ()⟩ := by
  by_cases hc : ∃ c', c = .prisma c'
  · obtain ⟨c', rfl⟩ := hc
    obtain ⟨e, -, rfl⟩ | ⟨v, db, hok, -, hp, rfl, rfl⟩ := prisma_cases h
    · exact .inl ⟨x, hx, rfl, rfl, rfl⟩
    cases c' with
    | candidateDelete id =>
      obtain ⟨-, rfl⟩ := PrismaCall.perform_candidateDelete hp
      by_cases hid : x.candidateId = id
      · exact .inr (.inr ⟨hok, by rw [hid]⟩)
      · exact .inl ⟨x, Table.mem_remove.mpr ⟨hx, by simpa using hid⟩, rfl, rfl, rfl⟩
    | applicationCreate d =>
      obtain ⟨-, -, -, hins, -⟩ := PrismaCall.perform_applicationCreate hp
      exact .inl ⟨x, (Table.mem_insert hins).mpr (.inl hx), rfl, rfl, rfl⟩
    | applicationUpdate id d =>
      obtain ⟨-, -, -, -, rfl⟩ := PrismaCall.perform_applicationUpdate hp
      by_cases hid : x.id = id
      · exact .inl ⟨d.apply w.now x, Db.mem_modifyApplication.mpr (.inr ⟨x, hx, hid, rfl⟩), rfl,
          rfl, rfl⟩
      · exact .inl ⟨x, Db.mem_modifyApplication.mpr (.inl ⟨hx, hid⟩), rfl, rfl, rfl⟩
    | applicationDelete id =>
      obtain ⟨-, rfl⟩ := PrismaCall.perform_applicationDelete hp
      by_cases hid : x.id = id
      · exact .inr (.inl (by rw [hid]; rfl))
      · exact .inl ⟨x, Table.mem_remove.mpr ⟨hx, by simpa using hid⟩, rfl, rfl, rfl⟩
    | _ =>
      rw [← (PrismaCall.perform_frame hp).applications (by simp) (by simp) (by simp) (by simp)] at hx
      exact .inl ⟨x, hx, rfl, rfl, rfl⟩
  · left
    rw [← (exec_frame h).db fun c' hc' => hc ⟨c', hc'⟩] at hx
    exact ⟨x, hx, rfl, rfl, rfl⟩

/-- An application that has been inserted is a row of the table. -/
theorem inserted_row {d : ApplicationCreate} {b : Application}
    (h : gateway.exec i (.prisma (.applicationCreate d)) ch w = some (.ok b, w')) :
    b ∈ w'.db.applications.rows ∧ b.cvFileKey = d.cvFileKey := by
  obtain ⟨e, he, -⟩ | ⟨v, db, -, -, hp, hv, rfl⟩ := prisma_cases h
  · cases he
  cases hv
  obtain ⟨rfl, -, -, hins, -⟩ := PrismaCall.perform_applicationCreate hp
  exact ⟨(Table.mem_insert hins).mpr (.inr rfl), rfl⟩

theorem message_exec (h : gateway.exec i c ch w = some (a, w')) {event : CvUploadedEvent}
    (hmem : event ∈ w'.messages) : event ∈ w.messages ∨
      effect? ⟨c, a⟩ = some (.handedOver event) ∨ effect? ⟨c, a⟩ = some (.buffered event) := by
  by_cases hc : ∃ event', c = .publish event'
  · obtain ⟨event', rfl⟩ := hc
    obtain ⟨-, rfl⟩ | ⟨-, -, rfl⟩ | ⟨chan, hchan, rfl, rfl⟩ := publish_cases h
    · exact .inl hmem
    · exact .inl hmem
    · simp only [World.messages, Option.map_some, Option.getD_some, hchan] at hmem ⊢
      rw [← List.append_assoc] at hmem
      rcases List.mem_append.mp hmem with hmem | hmem
      · exact .inl hmem
      · right
        rw [List.mem_singleton.mp hmem]
        cases chan.full
        · exact .inl rfl
        · exact .inr rfl
  · left
    have hframe := exec_frame h
    unfold World.messages at hmem ⊢
    rwa [hframe.broker, hframe.channel fun event' hc' => hc ⟨event', hc'⟩] at hmem

theorem message_move {mv : Move} (h : gateway.move mv w = some w') {event : CvUploadedEvent}
    (hmem : event ∈ w'.messages) : event ∈ w.messages := by
  cases mv with
  | tick elapsed =>
    cases h
    exact hmem
  | send =>
    simp only [gateway, World.move] at h
    rcases hc : w.channel with _ | ⟨full, _ | ⟨m, ms⟩⟩
    · rw [hc] at h
      cases h
    · rw [hc] at h
      cases h
    · rw [hc] at h
      cases h
      simpa [World.messages, hc] using hmem
  | setFull full =>
    obtain ⟨chan, hc, rfl⟩ := Option.map_eq_some_iff.mp h
    simpa [World.messages, hc] using hmem
  | channelLost =>
    cases h
    exact List.mem_append_left _ (by simpa [World.messages] using hmem)
  | channelOpened =>
    cases h
    exact List.mem_append_left _ (by simpa [World.messages] using hmem)

end Steps

/-! ## What uploads keep -/

/-- The message is about this request: about its application or its file. -/
def About (s : List Effect) (event : CvUploadedEvent) : Prop :=
  Owns s event.applicationId ∨ ∃ u, Owns s u ∧ CvKeyOf u event.fileKey

def NamesDrawn (w : World) (event : CvUploadedEvent) : Prop :=
  event.applicationId ∈ w.uuids ∧ ∀ u, CvKeyOf u event.fileKey → u ∈ w.uuids

structure UploadInv (w : World) (st : ℕ → List Effect) : Prop where
  wf : w.Wf
  owns : ∀ k u, Owns (st k) u → (k, u) ∈ w.drawn
  object : ∀ u key, CvKeyOf u key → w.storage.objects key ≠ none → u ∈ w.uuids ∧
    ∀ k, Owns (st k) u → .stored key ∈ st k ∧ .objectGone key ∉ st k
  row : ∀ k id, .rowGone id ∈ st k → id ∈ w.uuids ∧ ¬ w.db.applications.HasKey id
  message : ∀ event ∈ w.messages, NamesDrawn w event ∧
    ∀ k, About (st k) event → .handedOver event ∈ st k ∨ .buffered event ∈ st k

theorem UploadInv.owner {w : World} {st : ℕ → List Effect} (h : UploadInv w st) {j k : ℕ}
    {u : String} (hj : Owns (st j) u) (hk : Owns (st k) u) : j = k :=
  drawn_unique h.wf.uuids_nodup (h.owns j u hj) (h.owns k u hk)

section Call

variable {r : Request} {i : ℕ} {ch : Choice} {w w' : World} {c : Call} {a : Api.Answer c}
  {st : ℕ → List Effect}

def extend (st : ℕ → List Effect) (i : ℕ) (e : Event Api) : ℕ → List Effect :=
  Function.update st i (st i ++ (effect? e).toList)

theorem extend_self : extend st i ⟨c, a⟩ i = st i ++ (effect? ⟨c, a⟩).toList :=
  Function.update_self ..

theorem extend_ne {k : ℕ} (hk : k ≠ i) : extend st i ⟨c, a⟩ k = st k := Function.update_of_ne hk ..

theorem mem_extend {k : ℕ} {x : Effect} :
    x ∈ extend st i ⟨c, a⟩ k ↔ x ∈ st k ∨ k = i ∧ effect? ⟨c, a⟩ = some x := by
  by_cases hk : k = i
  · subst hk
    simp [extend_self]
  · simp [extend_ne hk, hk]

/-- What a request owned before the call, or else has only now drawn. -/
theorem owns_extend (h : gateway.exec i c ch w = some (a, w')) {k : ℕ} {u : String}
    (hu : Owns (extend st i ⟨c, a⟩ k) u) :
    Owns (st k) u ∨ u ∉ w.uuids ∧ (k, u) ∈ w'.drawn := by
  by_cases hk : k = i
  · subst hk
    rw [extend_self] at hu
    exact owns_exec h hu
  · rw [extend_ne hk] at hu
    exact .inl hu

theorem owned_before (h : gateway.exec i c ch w = some (a, w')) {k : ℕ} {u : String}
    (hu : Owns (extend st i ⟨c, a⟩ k) u) (hold : u ∈ w.uuids) :
    Owns (st k) u := by
  obtain hu | ⟨hnew, -⟩ := owns_extend h hu
  · exact hu
  · exact absurd hold hnew

/-- An object is one that was there before, or the one that its owner has stored. -/
theorem uploadInv_object (hinv : UploadInv w st) (hcall : UploadAllows r (st i) c)
    (h : gateway.exec i c ch w = some (a, w')) {u key : String} (hkey : CvKeyOf u key)
    (hobject : w'.storage.objects key ≠ none) : u ∈ w.uuids ∧
      ∀ k, Owns (extend st i ⟨c, a⟩ k) u →
        .stored key ∈ extend st i ⟨c, a⟩ k ∧ .objectGone key ∉ extend st i ⟨c, a⟩ k := by
  obtain ⟨hold, hkept⟩ | heff := object_exec h hobject
  · obtain ⟨hu, hstored⟩ := hinv.object u key hkey hold
    refine ⟨hu, fun k hk => ?_⟩
    obtain ⟨hin, hout⟩ := hstored k (owned_before h hk hu)
    refine ⟨mem_extend.mpr (.inl hin), fun hgone => ?_⟩
    obtain hgone | ⟨-, hgone⟩ := mem_extend.mp hgone
    · exact hout hgone
    · exact hkept hgone
  · obtain ⟨buffer, contentType, rfl⟩ := effect_of heff
    obtain ⟨file, v, -, hs, hv⟩ := hcall
    obtain rfl : u = v := hkey.inj (hv ▸ file.key_of v)
    have howns : Owns (st i) u := .inl (by simp [hs])
    have hu : u ∈ w.uuids := mem_uuids (hinv.owns i u howns)
    refine ⟨hu, fun k hk => ?_⟩
    obtain rfl : i = k := hinv.owner howns (owned_before h hk hu)
    rw [extend_self, heff, hs]
    simp

/-- A row that is gone does not come back: its id is not drawn again. -/
theorem uploadInv_row (hinv : UploadInv w st) (hcall : UploadAllows r (st i) c)
    (h : gateway.exec i c ch w = some (a, w')) {k : ℕ} {id : String}
    (hgone : .rowGone id ∈ extend st i ⟨c, a⟩ k) :
    id ∈ w.uuids ∧ ¬ w'.db.applications.HasKey id := by
  have hid : id ∈ w.uuids := by
    obtain hgone | ⟨-, heff⟩ := mem_extend.mp hgone
    · exact (hinv.row k id hgone).1
    · obtain rfl : c = .prisma (.applicationDelete id) := effect_of heff
      obtain ⟨row, hrow, rfl⟩ := hcall
      exact mem_uuids (hinv.owns i row.id (.inr ⟨row, hrow, rfl⟩))
  refine ⟨hid, fun hrow => ?_⟩
  obtain ⟨hold, hkept⟩ | hnew := row_exec h hrow
  · obtain hgone | ⟨-, heff⟩ := mem_extend.mp hgone
    · exact (hinv.row k id hgone).2 hold
    · exact hkept heff
  · exact hnew hid

/-- A message is about the request that published it, and about no other. -/
theorem uploadInv_message (hinv : UploadInv w st) (hcall : UploadAllows r (st i) c)
    (h : gateway.exec i c ch w = some (a, w')) {event : CvUploadedEvent}
    (hmem : event ∈ w'.messages) : NamesDrawn w event ∧
      ∀ k, About (extend st i ⟨c, a⟩ k) event →
        .handedOver event ∈ extend st i ⟨c, a⟩ k ∨ .buffered event ∈ extend st i ⟨c, a⟩ k := by
  have habout : ∀ k, NamesDrawn w event → About (extend st i ⟨c, a⟩ k) event →
      About (st k) event := by
    rintro k ⟨hid, hkey⟩ (hk | ⟨u, hu, hk⟩)
    · exact .inl (owned_before h hk hid)
    · exact .inr ⟨u, owned_before h hu (hkey u hk), hk⟩
  obtain hold | heff := message_exec h hmem
  · obtain ⟨hnames, hpublished⟩ := hinv.message event hold
    refine ⟨hnames, fun k hk => ?_⟩
    obtain hk | hk := hpublished k (habout k hnames hk)
    · exact .inl (mem_extend.mpr (.inl hk))
    · exact .inr (mem_extend.mpr (.inl hk))
  · obtain rfl : c = .publish event := by
      rcases heff with heff | heff
      · exact effect_of heff
      · exact effect_of heff
    obtain ⟨file, u, row, -, hs, hid, -, -, hkey⟩ := hcall
    have hrow : Owns (st i) event.applicationId := .inr ⟨row, by simp [hs], hid.symm⟩
    have hu : Owns (st i) u := .inl (by simp [hs])
    have hof : CvKeyOf u event.fileKey := hkey ▸ file.key_of u
    have hnames : NamesDrawn w event := by
      refine ⟨mem_uuids (hinv.owns i _ hrow), fun v hv => ?_⟩
      rw [hv.inj hof]
      exact mem_uuids (hinv.owns i u hu)
    refine ⟨hnames, fun k hk => ?_⟩
    have hki : k = i := by
      rcases habout k hnames hk with hk | ⟨v, hv, hkv⟩
      · exact hinv.owner hk hrow
      · rw [hkv.inj hof] at hv
        exact hinv.owner hv hu
    rcases heff with heff | heff
    · exact .inl (mem_extend.mpr (.inr ⟨hki, heff⟩))
    · exact .inr (mem_extend.mpr (.inr ⟨hki, heff⟩))

theorem uploadInv_call (hinv : UploadInv w st) (hcall : UploadAllows r (st i) c)
    (h : gateway.exec i c ch w = some (a, w')) :
    UploadInv w' (extend st i ⟨c, a⟩) where
  wf := wf_exec h hinv.wf
  owns k u hu := by
    obtain hu | ⟨-, hdrawn⟩ := owns_extend h hu
    · exact drawn_exec h (hinv.owns k u hu)
    · exact hdrawn
  object u key hkey hobject := by
    obtain ⟨hu, hrest⟩ := uploadInv_object hinv hcall h hkey hobject
    exact ⟨uuids_exec h hu, hrest⟩
  row k id hgone := by
    obtain ⟨hid, hrow⟩ := uploadInv_row hinv hcall h hgone
    exact ⟨uuids_exec h hid, hrow⟩
  message event hmem := by
    obtain ⟨⟨hid, hkey⟩, hrest⟩ := uploadInv_message hinv hcall h hmem
    exact ⟨⟨uuids_exec h hid, fun u hu => uuids_exec h (hkey u hu)⟩, hrest⟩

theorem uploadInv_move {mv : Move} (hinv : UploadInv w st) (h : gateway.move mv w = some w') :
    UploadInv w' st := by
  have hmsg : ∀ event ∈ w'.messages, event ∈ w.messages := fun event he => message_move h he
  obtain ⟨elapsed, -, rfl⟩ | ⟨channel, broker, rfl⟩ := move_cases h
  · exact ⟨wf_move h hinv.wf, hinv.owns, hinv.object, hinv.row,
      fun event he => hinv.message event (hmsg event he)⟩
  · exact ⟨wf_move h hinv.wf, hinv.owns, hinv.object, hinv.row,
      fun event he => hinv.message event (hmsg event he)⟩

/-- The row an insertion answers is the row it inserted. -/
theorem inserts_exec (h : gateway.exec i c ch w = some (a, w')) : Inserts c a := by
  unfold Inserts
  split
  · rename_i d row
    obtain ⟨e, he, -⟩ | ⟨v, db, -, -, hp, hv, -⟩ := prisma_cases h
    · cases he
    · cases hv
      exact ⟨ch.uuid, w.now, (PrismaCall.perform_applicationCreate hp).1⟩
  · trivial

end Call

/-! ## Runs -/

/-- No object and no message is named after a UUID that can still be drawn. -/
structure World.UploadReady (w : World) : Prop where
  wf : w.Wf
  object : ∀ u key, CvKeyOf u key → w.storage.objects key ≠ none → u ∈ w.uuids
  message : ∀ event ∈ w.messages, NamesDrawn w event

theorem owns_nil (u : String) : ¬ Owns [] u := by
  simp [Owns]

theorem uploadInv_start {w : World} (hw : w.UploadReady) : UploadInv w fun _ => [] where
  wf := hw.wf
  owns k u hu := absurd hu (owns_nil u)
  object u key hkey hobject :=
    ⟨hw.object u key hkey hobject, fun k hu => absurd hu (owns_nil u)⟩
  row k id hgone := by cases hgone
  message event hmem := by
    refine ⟨hw.message event hmem, fun k hk => ?_⟩
    rcases hk with hu | ⟨u, hu, -⟩
    · exact absurd hu (owns_nil _)
    · exact absurd hu (owns_nil u)

section Runs

variable {requests : ℕ → Request} {w : World} {ls : List (Label ℕ Choice Move)}
  {cfg cfg' : Config Api ℕ World Response} {i : ℕ}

/-- The stages of the monitors are the effects of the requests. -/
theorem stage_effects (requests : ℕ → Request) (cfg : Config Api ℕ World Response) :
    stage (fun i => uploadMonitor (requests i)) (fun _ => []) cfg = effects cfg :=
  funext fun i => stage_summary cfg i

/-- What holds of the effects and the world after any run, and of the effects of a request that has
come to its end. -/
theorem upload_run (hw : w.UploadReady)
    (hrun : gateway.run ls (.start w (Request.pool requests)) = some cfg) :
    UploadInv cfg.world (effects cfg) ∧
      ∀ i o, cfg.outcome? i = some o → RequestEnds (requests i) o (effects cfg i) := by
  obtain ⟨hobey, hinv⟩ := run_invariant_along (m := fun i => uploadMonitor (requests i)) UploadInv
    (fun hobey hinv _ hp hcall hx => ⟨inserts_exec hx, uploadInv_call hinv hcall hx⟩)
    (fun hinv hm => uploadInv_move hinv hm)
    (fun i => request_effects (requests i)) (uploadInv_start hw) (Machine.along_true ls _) hrun
  rw [stage_effects] at hinv
  refine ⟨hinv, fun i o ho => ?_⟩
  rw [← stage_effects requests]
  exact hobey.outcome ho

/-- An effect of request `i` is an earlier one or that of the step's call. -/
theorem effects_step {l : Label ℕ Choice Move} (hs : gateway.step l cfg = some cfg') {x : Effect}
    (hx : x ∈ effects cfg' i) : x ∈ effects cfg i ∨
      ∃ ch c k a w', l = .run i ch ∧ cfg.pool i = .call c k ∧
        gateway.exec i c ch cfg.world = some (a, w') ∧ effect? ⟨c, a⟩ = some x := by
  obtain ⟨j, ch, c, k, a, w', rfl, hp, hexec, rfl⟩ | ⟨m, w', rfl, -, rfl⟩ := Machine.step_cases hs
  · by_cases hj : i = j
    · subst hj
      rw [effects, cfg.answered_trace_self, List.filterMap_append, List.mem_append] at hx
      rcases hx with hx | hx
      · exact .inl hx
      · exact .inr ⟨ch, c, k, a, w', rfl, hp, hexec, by simpa using hx⟩
    · rw [effects, cfg.answered_trace_ne j a k w' hj] at hx
      exact .inl hx
  · exact .inl hx

theorem effects_along {P : Config Api ℕ World Response → Label ℕ Choice Move → Prop}
    {T : Effect → Prop}
    (hstep : ∀ {cfg : Config Api ℕ World Response} {ch c k a w' x}, P cfg (.run i ch) →
      cfg.pool i = .call c k → gateway.exec i c ch cfg.world = some (a, w') →
      effect? ⟨c, a⟩ = some x → ¬ T x)
    (halong : gateway.Along P ls (.start w (Request.pool requests)))
    (hrun : gateway.run ls (.start w (Request.pool requests)) = some cfg) :
    ∀ x ∈ effects cfg i, ¬ T x := by
  refine Machine.run_induction_along (fun cfg => ∀ x ∈ effects cfg i, ¬ T x)
    (fun {cfg l cfg'} h hP hs x hx => ?_) (fun x hx => by cases hx) halong hrun
  obtain hx | ⟨ch, c, k, a, w', rfl, hp, hexec, heff⟩ := effects_step hs hx
  · exact h x hx
  · exact hstep hP hp hexec heff

/-! ## Rollbacks -/

/-- The calls by which a failed upload takes back what it has left. -/
def Call.isRollback : Call → Bool
  | .prisma (.applicationDelete _) => true
  | .storage (.delete _) => true
  | _ => false

def Effect.IsLeft : Effect → Prop
  | .rowKept _ => True
  | .objectKept _ => True
  | _ => False

theorem rollback_exec {c : Call} {ch : Choice} {w w' : World} {a : Api.Answer c} {x : Effect}
    (hfails : c.isRollback = true → ch.fails = false) (h : gateway.exec i c ch w = some (a, w'))
    (heff : effect? ⟨c, a⟩ = some x) : ¬ x.IsLeft := by
  intro hleft
  cases x with
  | rowKept id =>
    obtain rfl : c = .prisma (.applicationDelete id) := effect_of heff
    rw [exec_of_ok _ (hfails rfl)] at h
    simp only [Call.exec, PrismaCall.exec, PrismaCall.perform] at h
    split at h
    · by_cases hkey : w.db.applications.HasKey id
      · rw [if_pos hkey] at h
        cases h
        cases heff
      · rw [if_neg hkey] at h
        cases h
        cases heff
    · cases h
  | objectKept key =>
    obtain rfl : c = .storage (.delete key) := effect_of heff
    rw [exec_of_ok _ (hfails rfl)] at h
    cases h
    cases heff
  | _ => exact hleft

/-! ## Events of requests that reject -/

def Call.isPublish : Call → Bool
  | .publish _ => true
  | _ => false

def World.bufferFull (w : World) : Bool := w.channel.any Channel.full

/-- Request `i` publishes nothing into a full buffer. -/
def BufferNotFull (i : ℕ) (cfg : Config Api ℕ World Response) : Label ℕ Choice Move → Prop
  | .run j ch => j = i → ch.fails = false → ∀ c ∈ (cfg.pool i).next?, c.isPublish = true →
    cfg.world.bufferFull = false
  | .move _ => True

instance (i : ℕ) (cfg : Config Api ℕ World Response) :
    ∀ l : Label ℕ Choice Move, Decidable (BufferNotFull i cfg l)
  | .run j ch => inferInstanceAs (Decidable (j = i → ch.fails = false → ∀ c ∈ (cfg.pool i).next?,
      c.isPublish = true → cfg.world.bufferFull = false))
  | .move _ => .isTrue trivial

/-- A message that is published into a buffer that is not full is handed over. -/
theorem buffered_exec {event event' : CvUploadedEvent} {ch : Choice} {w w' : World}
    {a : Api.Answer (.publish event)}
    (hfull : ch.fails = false → w.bufferFull = false)
    (h : gateway.exec i (.publish event) ch w = some (a, w')) :
    effect? ⟨.publish event, a⟩ ≠ some (.buffered event') := by
  intro heff
  obtain ⟨e, -, rfl, -⟩ | ⟨hok, -⟩ := exec_cases h
  · cases heff
  obtain ⟨rfl, -⟩ | ⟨-, rfl, -⟩ | ⟨chan, hchan, rfl, -⟩ := publish_cases h
  · cases heff
  · cases heff
  · have hnot : chan.full = false := by simpa [World.bufferFull, hchan] using hfull hok
    rw [hnot] at heff
    cases heff

/-- No event of a request that rejects is on its way to the broker, or has arrived there. -/
theorem rejected_not_delivered (hw : w.UploadReady)
    (halong : gateway.Along (BufferNotFull i) ls (.start w (Request.pool requests)))
    (hrun : gateway.run ls (.start w (Request.pool requests)) = some cfg)
    {userId : String} {file : UploadedFile} {dto : UploadCvDto}
    (hr : requests i = .createApplicationWithCv userId file dto) {e : Exception}
    (ho : cfg.outcome? i = some (.error e)) :
    ∀ event ∈ cfg.world.messages,
      (∀ a, .inserted a ∈ effects cfg i → event.applicationId ≠ a.id) ∧
      ∀ u, .drew u ∈ effects cfg i → event.fileKey ≠ file.key u := by
  obtain ⟨hinv, hends⟩ := upload_run hw hrun
  have hbuffered : ∀ x ∈ effects cfg i, ¬ ∃ event, x = .buffered event := by
    refine effects_along (fun {cfg ch c k a w' x} hP hp hexec heff => ?_) halong hrun
    rintro ⟨event, rfl⟩
    obtain rfl : c = .publish event := effect_of heff
    exact buffered_exec (fun hok => hP rfl hok (.publish event) (by simp [hp]) rfl) hexec heff
  have hfile : (requests i).file = some file := by rw [hr]; rfl
  obtain ⟨o, heq, hback⟩ := hends i _ ho file hfile
  cases o with
  | ok response => cases heq
  | error e' =>
    have hnot : ∀ event ∈ cfg.world.messages, ¬ About (effects cfg i) event := by
      intro event hmem habout
      obtain hover | hbuf := (hinv.message event hmem).2 i habout
      · exact hback.event event hover
      · exact hbuffered _ hbuf ⟨event, rfl⟩
    refine fun event hmem => ⟨fun a ha hid => ?_, fun u hu hkey => ?_⟩
    · exact hnot event hmem (.inl (.inr ⟨a, ha, hid.symm⟩))
    · exact hnot event hmem (.inr ⟨u, .inl hu, hkey ▸ file.key_of u⟩)

end Runs

/-! ## Three uploads -/

def iansCv : UploadedFile where
  originalname := "Ian.docx"
  mimetype := "application/vnd.openxmlformats-officedocument.wordprocessingml.document"
  buffer := [80, 75]

/-- Ian applies to the backend job with his CV; meanwhile his candidate may be deleted. -/
def ianUploads : ℕ → Request
  | 0 => .createApplicationWithCv "u-ian" iansCv { jobId := "j-backend" }
  | _ => .removeCandidate "c-ian"

def iansApplication : Application where
  id := "a-ian"
  jobId := "j-backend"
  candidateId := "c-ian"
  cvFileKey := some "cvs/f-ian.docx"
  cvFileUrl := some "http://localhost:9000/talentflow-cvs/cvs/f-ian.docx"
  appliedAt := 0
  createdAt := 0
  updatedAt := 0

def iansEvent : CvUploadedEvent where
  candidateId := "c-ian"
  applicationId := "a-ian"
  jobId := "j-backend"
  bucket := "talentflow-cvs"
  fileKey := "cvs/f-ian.docx"
  mimeType := iansCv.mimetype
  uploadedAt := 0

def untilInserted : List (Label ℕ Choice Move) :=
  List.replicate 3 (.run 0 {}) ++ .run 0 { uuid := "c-ian" } :: .run 0 {} ::
    .run 0 { uuid := "f-ian" } :: .run 0 {} :: [.run 0 { uuid := "a-ian" }]

def untilDelivered : List (Label ℕ Choice Move) :=
  untilInserted ++ List.replicate 4 (.run 0 {}) ++ [.move .send]

/-- Publishing fails, and the candidate is deleted before the rollback. -/
def untilRolledBack : List (Label ℕ Choice Move) :=
  untilInserted ++ [.run 0 {}, .run 0 {}, .run 0 { fails := true }, .run 1 {}, .run 1 {}] ++
    [.run 0 {}, .run 0 {}]

def intoFull : List (Label ℕ Choice Move) :=
  untilInserted ++ .move (.setFull true) :: List.replicate 5 (.run 0 {}) ++ [.move .send]

theorem seeded_uploadReady : seeded.UploadReady where
  wf := seeded_wf
  object u key _ hobject := absurd rfl hobject
  message event hmem := by cases hmem

/-- A message published into a full buffer is not handed over, and the request rejects; it is
delivered when the socket drains. -/
theorem rejected_delivered :
    ∃ cfg, gateway.run intoFull (.start seeded (Request.pool ianUploads)) = some cfg ∧
      (∃ e, cfg.outcome? 0 = some (.error e)) ∧
      ∃ event ∈ cfg.world.broker, (∃ a, .inserted a ∈ effects cfg 0 ∧ event.applicationId = a.id) ∧
        ∃ u, .drew u ∈ effects cfg 0 ∧ event.fileKey = iansCv.key u := by
  have h : (gateway.run intoFull (.start seeded (Request.pool ianUploads))).map
      (fun cfg => ((cfg.outcome? 0).map statusOf, effects cfg 0, cfg.world.broker)) =
        some (some 500, [.drew "f-ian", .stored "cvs/f-ian.docx", .inserted iansApplication,
          .buffered iansEvent, .rowGone "a-ian", .objectGone "cvs/f-ian.docx"], [iansEvent]) := by
    decide +kernel
  obtain ⟨cfg, hrun, hdone⟩ := Option.map_eq_some_iff.mp h
  obtain ⟨hstatus, hdone⟩ := Prod.mk.inj hdone
  obtain ⟨heffects, hbroker⟩ := Prod.mk.inj hdone
  obtain ⟨o, ho, hcode⟩ := Option.map_eq_some_iff.mp hstatus
  have hrejected : ∃ e, cfg.outcome? 0 = some (.error e) := by
    cases o with
    | ok result => cases hcode
    | error e => exact ⟨e, ho⟩
  refine ⟨cfg, hrun, hrejected, iansEvent, by simp [hbroker], ⟨iansApplication, ?_, rfl⟩, "f-ian", ?_,
    by decide⟩
  · simp [heffects]
  · simp [heffects]

theorem rejected_not_delivered_failed :
    ∃ cfg, gateway.run untilRolledBack (.start seeded (Request.pool ianUploads)) = some cfg ∧
      ∀ event ∈ cfg.world.messages, event.fileKey ≠ iansCv.key "f-ian" := by
  have h : (gateway.run untilRolledBack (.start seeded (Request.pool ianUploads))).map
      (fun cfg => ((cfg.outcome? 0).map statusOf, effects cfg 0)) =
        some (some 500, [.drew "f-ian", .stored "cvs/f-ian.docx", .inserted iansApplication,
          .rowGone "a-ian", .objectGone "cvs/f-ian.docx"]) := by decide +kernel
  obtain ⟨cfg, hrun, hdone⟩ := Option.map_eq_some_iff.mp h
  obtain ⟨hstatus, heffects⟩ := Prod.mk.inj hdone
  obtain ⟨o, ho, hcode⟩ := Option.map_eq_some_iff.mp hstatus
  cases o with
  | ok result => cases hcode
  | error e =>
    refine ⟨cfg, hrun, fun event hmem => ?_⟩
    exact (rejected_not_delivered seeded_uploadReady (by decide +kernel) hrun rfl ho event hmem).2
      _ (by simp [heffects])

end TalentFlow
