import TalentFlow.Async.Twins
import TalentFlow.Data.Matching
import TalentFlow.Gateway.Listings
import TalentFlow.Gateway.Routes

/-!
# Guarantees.Secrecy

What the stored hashes of passwords give away. Nearly every handler reads a user's row, hash and all.
Put two deployments side by side whose users have the same passwords, but other salts: whatever
requests to the handlers of `UserRoute` and `PublicRoute` run on both, with the same schedule, nobody
can tell them apart. Every request gets the same answer, and tokens, audit log, messages, files and
all other columns are the same. Of the other routes only `GET /users` looks at a hash: it takes any
column for `sortBy`, the password among them.

* `World.Twin`: two such worlds.
* `gateway_blind`: no call tells them apart, up to the hash in a user's row.
* `usersListed_twin`: neither does the list of users, if it is not sorted by the password.
* `http_discreet`: no handler does anything with a hash but compare a password with it.
* `hashes_secret`: so no run does.
-/

namespace TalentFlow

open Data Paging Async

/-! ## Worlds -/

/-- The same user, with a hash that accepts the same passwords. -/
structure SameUser (bcrypt : String → String → Bool) (u u' : User) : Prop where
  rest : u' = { u with password := u'.password }
  accepts : ∀ plain, bcrypt plain u'.password = bcrypt plain u.password

structure Db.Twin (bcrypt : String → String → Bool) (db db' : Db) : Prop where
  users : db.users.Matches (SameUser bcrypt) db'.users
  jobs : db'.jobs = db.jobs
  candidates : db'.candidates = db.candidates
  applications : db'.applications = db.applications
  interviews : db'.interviews = db.interviews

/-- The worlds differ in nothing but the hashes of the same passwords. -/
inductive World.Twin (w : World) : World → Prop where
  | rehashed {db : Db} (h : w.db.Twin w.bcrypt db) : World.Twin w { w with db := db }

theorem World.Twin.db {w w' : World} (h : w.Twin w') : w.db.Twin w.bcrypt w'.db := by
  cases h with
  | rehashed h => exact h

section Users

variable {bcrypt : String → String → Bool} {u u' : User}

theorem SameUser.refl (u : User) : SameUser bcrypt u u := ⟨rfl, fun _ => rfl⟩

theorem sameUser_id (u u' : User) (h : SameUser bcrypt u u') : u'.id = u.id := by rw [h.rest]

theorem sameUser_email (u u' : User) (h : SameUser bcrypt u u') : u'.email = u.email := by
  rw [h.rest]

theorem sameUser_apply {d : UserUpdate} {now : Time} (u u' : User) (h : SameUser bcrypt u u') :
    SameUser bcrypt (d.apply now u) (d.apply now u') := by
  refine ⟨?_, h.accepts⟩
  rw [h.rest]
  rfl

end Users

/-! ## Calls -/

/-- The same value of a call, but for the hashes in it. -/
def PrismaCall.SameValue (bcrypt : String → String → Bool) :
    (c : PrismaCall) → c.Value → c.Value → Prop
  | userFindUnique _, v, v' => Option.Rel (SameUser bcrypt) v v'
  | userCreate _, v, v' => SameUser bcrypt v v'
  | userUpdate _ _, v, v' => SameUser bcrypt v v'
  | _, v, v' => v = v'

/-- What a call does in two such databases. -/
inductive SameResult (bcrypt : String → String → Bool) (c : PrismaCall) :
    Except PrismaError c.Value × Db → Except PrismaError c.Value × Db → Prop where
  | ok {v v' : c.Value} {db db' : Db} (hv : c.SameValue bcrypt v v') (hdb : db.Twin bcrypt db') :
      SameResult bcrypt c (.ok v, db) (.ok v', db')
  | error {db db' : Db} (e : PrismaError) (hdb : db.Twin bcrypt db') :
      SameResult bcrypt c (.error e, db) (.error e, db')

section Perform

variable {bcrypt : String → String → Bool} {db db' : Db} {now : Time} {id : String} {rows : Rows}

theorem findUser_twin (h : db.Twin bcrypt db') (q : UserWhere) :
    Option.Rel (SameUser bcrypt) (db.findUser q) (db'.findUser q) := by
  cases q with
  | id id => exact Table.find?_matches sameUser_id h.users id
  | email email => exact Table.findUnique?_matches sameUser_email h.users email
  | live id =>
    have hrel := Table.find?_matches sameUser_id h.users id
    simp only [Db.findUser]
    generalize db.users.find? id = o at hrel
    generalize db'.users.find? id = o' at hrel
    cases hrel with
    | none => exact .none
    | @some u u' hu =>
      have hdeleted : u'.deletedAt = u.deletedAt := by rw [hu.rest]
      rw [Option.filter_some, Option.filter_some, hdeleted]
      split
      · exact .some hu
      · exact .none

theorem insertUser_twin (h : db.Twin bcrypt db') (u : User) (htext : u.isStorable = true) :
    Option.Rel (Db.Twin bcrypt) (db.insertUser u htext) (db'.insertUser u htext) := by
  have hrel := Table.insert?_matches sameUser_id sameUser_email h.users (SameUser.refl u)
  unfold Db.insertUser
  split
  · rename_i hnone
    rw [hnone] at hrel
    split
    · exact .none
    · rename_i hsome
      rw [hsome] at hrel
      cases hrel
  · rename_i users hsome
    rw [hsome] at hrel
    split
    · rename_i hnone
      rw [hnone] at hrel
      cases hrel
    · rename_i users' hsome'
      rw [hsome'] at hrel
      cases hrel with
      | some hrel => exact .some ⟨hrel, h.jobs, h.candidates, h.applications, h.interviews⟩

theorem insertCandidate_twin (h : db.Twin bcrypt db') (x : Candidate) :
    Option.Rel (Db.Twin bcrypt) (db.insertCandidate x) (db'.insertCandidate x) := by
  have hsame : db'.candidates.insert? x = db.candidates.insert? x := by rw [h.candidates]
  unfold Db.insertCandidate
  split
  · rename_i hnone
    split
    · exact .none
    · rename_i hsome
      rw [hsame, hnone] at hsome
      cases hsome
  · rename_i t hsome
    split
    · rename_i hnone
      rw [hsame, hsome] at hnone
      cases hnone
    · rename_i t' hsome'
      rw [hsame, hsome] at hsome'
      cases hsome'
      exact .some { h with candidates := rfl }

theorem insertApplication_twin (h : db.Twin bcrypt db') {a : Application}
    (hjob : db.jobs.HasKey a.jobId) (hjob' : db'.jobs.HasKey a.jobId)
    (hcand : db.candidates.HasKey a.candidateId) (hcand' : db'.candidates.HasKey a.candidateId) :
    Option.Rel (Db.Twin bcrypt) (db.insertApplication a hjob hcand)
      (db'.insertApplication a hjob' hcand') := by
  have hsame : db'.applications.insert? a = db.applications.insert? a := by rw [h.applications]
  unfold Db.insertApplication
  split
  · rename_i hnone
    split
    · exact .none
    · rename_i hsome
      rw [hsame, hnone] at hsome
      cases hsome
  · rename_i t hsome
    split
    · rename_i hnone
      rw [hsame, hsome] at hnone
      cases hnone
    · rename_i t' hsome'
      rw [hsame, hsome] at hsome'
      cases hsome'
      exact .some { h with applications := rfl }

theorem insertInterview_twin (h : db.Twin bcrypt db') {x : Interview}
    (happ : db.applications.HasKey x.applicationId) (happ' : db'.applications.HasKey x.applicationId)
    (hint : ∀ id ∈ x.interviewerId, db.users.HasKey id)
    (hint' : ∀ id ∈ x.interviewerId, db'.users.HasKey id) :
    Option.Rel (Db.Twin bcrypt) (db.insertInterview x happ hint)
      (db'.insertInterview x happ' hint') := by
  have hsame : db'.interviews.insert? x = db.interviews.insert? x := by rw [h.interviews]
  unfold Db.insertInterview
  split
  · rename_i hnone
    split
    · exact .none
    · rename_i hsome
      rw [hsame, hnone] at hsome
      cases hsome
  · rename_i t hsome
    split
    · rename_i hnone
      rw [hsame, hsome] at hnone
      cases hnone
    · rename_i t' hsome'
      rw [hsame, hsome] at hsome'
      cases hsome'
      exact .some { h with interviews := rfl }

theorem withRelations_twin (h : db.Twin bcrypt db') : db'.withRelations = db.withRelations := by
  funext a
  simp only [Db.withRelations, h.jobs, h.candidates]

theorem interviewer_twin (h : db.Twin bcrypt db') : db'.interviewer = db.interviewer := by
  funext x
  unfold Db.interviewer
  cases x.interviewerId with
  | none => rfl
  | some id =>
    have hrel := Table.find?_matches sameUser_id h.users id
    rw [Option.bind_some, Option.bind_some]
    generalize db.users.find? id = o at hrel
    generalize db'.users.find? id = o' at hrel
    cases hrel with
    | none => rfl
    | some hu =>
      rw [hu.rest]
      rfl

theorem matching_twin (h : db.Twin bcrypt db') : db'.matching = db.matching := by
  funext q
  unfold Db.matching Db.selects
  rw [h.applications, h.jobs]

theorem matchingInterviews_twin (h : db.Twin bcrypt db') :
    db'.matchingInterviews = db.matchingInterviews := by
  funext q
  unfold Db.matchingInterviews
  rw [h.interviews]

theorem loses_twin (h : db.Twin bcrypt db') : db'.loses = db.loses := by
  funext p x
  simp only [Db.loses, h.applications]

theorem perform_twin (h : db.Twin bcrypt db') (c : PrismaCall) :
    SameResult bcrypt c (c.perform now id rows db) (c.perform now id rows db') := by
  cases c with
  | userFindUnique q => exact .ok (findUser_twin h q) h
  | userCreate d =>
    simp only [PrismaCall.perform]
    split
    · rename_i hstorable
      have hrel := insertUser_twin h (d.row id now) hstorable
      generalize db.insertUser (d.row id now) hstorable = o at hrel
      generalize db'.insertUser (d.row id now) hstorable = o' at hrel
      cases hrel with
      | none => exact .error _ h
      | some hdb => exact .ok (.refl _) hdb
    · exact .error _ h
  | userUpdate key d =>
    have hrel := Table.find?_matches sameUser_id h.users key
    simp only [PrismaCall.perform]
    split
    · split
      · generalize db.users.find? key = o at hrel
        generalize db'.users.find? key = o' at hrel
        cases hrel with
        | none => exact .error _ h
        | some hu =>
          refine .ok (sameUser_apply _ _ hu) { h with users := ?_ }
          exact @Table.modify_matches _ _ _ _ _ _ _ _ _ sameUser_id h.users _
            (d.apply now) (fun _ => rfl) (fun _ => rfl) sameUser_apply
      · exact .error _ h
    · exact .error _ h
  | jobFindUnique key => exact .ok (show _ = _ by rw [h.jobs]) h
  | jobUpdate key d =>
    simp only [PrismaCall.perform, h.jobs]
    split
    · split
      · split
        · exact .ok rfl { h with jobs := by simp only [Db.modifyJob, h.jobs] }
        · exact .error _ h
      · exact .error _ h
    · exact .error _ h
  | candidateFindUnique q =>
    refine .ok (show _ = _ from ?_) h
    cases q <;> simp only [Db.findCandidate, h.candidates]
  | candidateCreate d =>
    have hrel := insertCandidate_twin h (d.row id now)
    simp only [PrismaCall.perform]
    split
    · generalize db.insertCandidate (d.row id now) = o at hrel
      generalize db'.insertCandidate (d.row id now) = o' at hrel
      cases hrel with
      | none => exact .error _ h
      | some hdb => exact .ok rfl hdb
    · exact .error _ h
  | candidateUpdate key d =>
    simp only [PrismaCall.perform, h.candidates]
    split
    · split
      · split
        · exact .ok rfl { h with candidates := by simp only [Db.modifyCandidate, h.candidates] }
        · exact .error _ h
      · exact .error _ h
    · exact .error _ h
  | candidateDelete key =>
    simp only [PrismaCall.perform, h.candidates]
    split
    · exact .ok rfl
        { h with
          candidates := by simp only [Db.deleteCandidate, h.candidates]
          applications := by simp only [Db.deleteCandidate, h.applications]
          interviews := by simp only [Db.deleteCandidate, h.interviews, loses_twin h] }
    · exact .error _ h
  | applicationFindUnique key => exact .ok (show _ = _ by rw [h.applications, withRelations_twin h]) h
  | applicationFindFirst jobId candidateId => exact .ok (show _ = _ by rw [h.applications]) h
  | applicationFindMany q p =>
    simp only [PrismaCall.perform, withRelations_twin h]
    split
    · exact .ok rfl h
    · exact .error _ h
  | applicationCount q => exact .ok (show _ = _ by rw [matching_twin h]) h
  | applicationCreate d =>
    by_cases hstorable : d.isStorable = true
    swap
    · simp only [PrismaCall.perform, if_neg hstorable]
      exact .error _ h
    simp only [PrismaCall.perform, if_pos hstorable]
    by_cases hjob : db.jobs.HasKey d.jobId
    · have hjob' : db'.jobs.HasKey d.jobId := h.jobs ▸ hjob
      by_cases hcand : db.candidates.HasKey d.candidateId
      · have hcand' : db'.candidates.HasKey d.candidateId := h.candidates ▸ hcand
        have hrel := @insertApplication_twin _ _ _ h (d.row id now) hjob hjob' hcand hcand'
        simp only [dif_pos hjob, dif_pos hjob', dif_pos hcand, dif_pos hcand']
        generalize db.insertApplication (d.row id now) hjob hcand = o at hrel
        generalize db'.insertApplication (d.row id now) hjob' hcand' = o' at hrel
        cases hrel with
        | none => exact .error _ h
        | some hdb => exact .ok rfl hdb
      · have hcand' : ¬ db'.candidates.HasKey d.candidateId := h.candidates ▸ hcand
        simp only [dif_pos hjob, dif_pos hjob', dif_neg hcand, dif_neg hcand']
        exact .error _ h
    · have hjob' : ¬ db'.jobs.HasKey d.jobId := h.jobs ▸ hjob
      simp only [dif_neg hjob, dif_neg hjob']
      exact .error _ h
  | applicationUpdate key d =>
    simp only [PrismaCall.perform, h.applications]
    split
    · split
      · split
        · exact .ok rfl
            { h with applications := by simp only [Db.modifyApplication, h.applications] }
        · exact .error _ h
      · exact .error _ h
    · exact .error _ h
  | applicationDelete key =>
    simp only [PrismaCall.perform, h.applications]
    split
    · exact .ok rfl
        { h with
          applications := by simp only [Db.deleteApplication, h.applications]
          interviews := by simp only [Db.deleteApplication, h.interviews, loses_twin h] }
    · exact .error _ h
  | candidateFindUniqueWithApplications key =>
    have hjobs : db'.withJob = db.withJob := by
      funext a
      simp only [Db.withJob, h.jobs]
    exact .ok (show _ = _ by rw [h.candidates, hjobs]) h
  | applicationFindLive key => exact .ok (show _ = _ by rw [h.applications]) h
  | interviewFindUnique key =>
    have hdetail : db'.interviewDetail = db.interviewDetail := by
      funext x
      simp only [Db.interviewDetail, h.applications, withRelations_twin h, interviewer_twin h]
    exact .ok (show _ = _ by rw [h.interviews, hdetail]) h
  | interviewFindById key => exact .ok (show _ = _ by rw [h.interviews]) h
  | interviewCreate d =>
    simp only [PrismaCall.perform]
    split
    · exact .error _ h
    rename_i scheduledAt _
    split
    swap
    · exact .error _ h
    by_cases happ : db.applications.HasKey d.applicationId
    · have happ' : db'.applications.HasKey d.applicationId := h.applications ▸ happ
      by_cases hint : ∀ u ∈ d.interviewerId, db.users.HasKey u
      · have hint' : ∀ u ∈ d.interviewerId, db'.users.HasKey u := fun u hu =>
          (Table.hasKey_matches sameUser_id h.users).mpr (hint u hu)
        have hrel := @insertInterview_twin _ _ _ h (d.row scheduledAt id now) happ happ' hint hint'
        simp only [dif_pos happ, dif_pos happ', dif_pos hint, dif_pos hint']
        generalize db.insertInterview (d.row scheduledAt id now) happ hint = o at hrel
        generalize db'.insertInterview (d.row scheduledAt id now) happ' hint' = o' at hrel
        cases hrel with
        | none => exact .error _ h
        | some hdb => exact .ok rfl hdb
      · have hint' : ¬ ∀ u ∈ d.interviewerId, db'.users.HasKey u := fun hall =>
          hint fun u hu => (Table.hasKey_matches sameUser_id h.users).mp (hall u hu)
        simp only [dif_pos happ, dif_pos happ', dif_neg hint, dif_neg hint']
        exact .error _ h
    · have happ' : ¬ db'.applications.HasKey d.applicationId := h.applications ▸ happ
      simp only [dif_neg happ, dif_neg happ']
      exact .error _ h
  | interviewUpdate key d =>
    have hmay : (∀ y ∈ db'.interviews.rows, y.id = key →
        ∀ u ∈ (d.apply now y).interviewerId, db'.users.HasKey u) ↔
        ∀ y ∈ db.interviews.rows, y.id = key →
          ∀ u ∈ (d.apply now y).interviewerId, db.users.HasKey u := by
      simp only [h.interviews, Table.hasKey_matches sameUser_id h.users]
    have hfind : db'.interviews.find? key = db.interviews.find? key := by rw [h.interviews]
    simp only [PrismaCall.perform]
    split
    · split
      · rw [hfind]
        split
        · by_cases hint : ∀ y ∈ db.interviews.rows, y.id = key →
              ∀ u ∈ (d.apply now y).interviewerId, db.users.HasKey u
          · rw [dif_pos hint, dif_pos (hmay.mpr hint)]
            exact .ok rfl { h with interviews := by simp only [Db.modifyInterview, h.interviews] }
          · rw [dif_neg hint, dif_neg (mt hmay.mp hint)]
            exact .error _ h
        · exact .error _ h
      · exact .error _ h
    · exact .error _ h
  | interviewFindMany q p =>
    have hlisted : db'.listedInterview = db.listedInterview := by
      funext x
      simp only [Db.listedInterview, h.applications, withRelations_twin h, interviewer_twin h]
    simp only [PrismaCall.perform, hlisted]
    split
    · exact .ok rfl h
    · exact .error _ h
  | interviewCount q => exact .ok (show _ = _ by rw [matchingInterviews_twin h]) h

end Perform

/-- The same call, but for the hash that a password is compared with. -/
inductive SameCall (bcrypt : String → String → Bool) : Call → Call → Prop where
  | same (c : Call) : SameCall bcrypt c c
  | compare (plain : String) {hashed hashed' : String}
      (h : ∀ plain, bcrypt plain hashed' = bcrypt plain hashed) :
      SameCall bcrypt (.bcryptCompare plain hashed) (.bcryptCompare plain hashed')

inductive SameValue (bcrypt : String → String → Bool) : (c c' : Call) → c.Value → c'.Value → Prop where
  | prisma {c : PrismaCall} {v v' : c.Value} (h : c.SameValue bcrypt v v') :
      SameValue bcrypt (.prisma c) (.prisma c) v v'
  | compare (plain hashed hashed' : String) (valid : Bool) :
      SameValue bcrypt (.bcryptCompare plain hashed) (.bcryptCompare plain hashed') valid valid
  | other {c : Call} (hc : ∀ c', c ≠ .prisma c') (v : c.Value) : SameValue bcrypt c c v v

/-- What two such deployments cannot tell apart. -/
def butHashes (bcrypt : String → String → Bool) : Likeness Api where
  call := SameCall bcrypt
  value := SameValue bcrypt

section Blind

variable {bcrypt : String → String → Bool} {i : ℕ} {ch : Choice} {w w' : World}

/-- Only queries look at the database. -/
theorem exec_otherDb {c : Call} (hc : ∀ c', c ≠ .prisma c') (db : Db) :
    gateway.exec i c ch { w with db := db } =
      (gateway.exec i c ch w).map fun rw => (rw.1, { rw.2 with db := db }) := by
  have hexec : c.exec i ch { w with db := db } =
      (c.exec i ch w).map fun rw => (rw.1, { rw.2 with db := db }) := by
    cases c with
    | prisma c => exact absurd rfl (hc c)
    | publish event =>
      simp only [Call.exec]
      split <;> rfl
    | randomUUID =>
      simp only [Call.exec]
      by_cases hu : w.Fresh ch.uuid
      · have hu' : World.Fresh { w with db := db } ch.uuid := hu
        rw [if_pos hu, if_pos hu']
        rfl
      · have hu' : ¬ World.Fresh { w with db := db } ch.uuid := hu
        rw [if_neg hu, if_neg hu']
        rfl
    | bcryptHash plain =>
      simp only [Call.exec]
      split <;> rfl
    | _ => rfl
  simp only [gateway]
  split
  · rfl
  · rfl
  · exact hexec

theorem move_otherDb (mv : Move) (db : Db) :
    gateway.move mv { w with db := db } = (gateway.move mv w).map fun w₁ => { w₁ with db := db } := by
  cases mv with
  | send =>
    simp only [gateway, World.move]
    split
    · split <;> rfl
    · rfl
  | setFull full =>
    simp only [gateway, World.move]
    cases w.channel <;> rfl
  | _ => rfl

theorem allows_twin {db : Db} (h : w.db.Twin w.bcrypt db) (c : PrismaCall) :
    World.Allows { w with db := db } ch c ↔ w.Allows ch c := by
  have hfresh : World.Fresh { w with db := db } ch.uuid ↔ w.Fresh ch.uuid := Iff.rfl
  simp only [World.Allows, IsOrdering, IsInterviewOrdering, matching_twin h,
    matchingInterviews_twin h, hfresh]

theorem prisma_blind {db : Db} (h : w.db.Twin w.bcrypt db) {c : PrismaCall}
    {r : Api.Answer (.prisma c)} (hx : gateway.exec i (.prisma c) ch w = some (r, w')) :
    ∃ r' w₁, gateway.exec i (.prisma c) ch { w with db := db } = some (r', w₁) ∧
      (butHashes w.bcrypt).Answers (.prisma c) (.prisma c) r r' ∧ w'.Twin w₁ := by
  simp only [gateway] at hx ⊢
  cases hfails : ch.fails with
  | true =>
    rw [hfails] at hx
    cases hx
    exact ⟨_, _, rfl, .error _, .rehashed h⟩
  | false =>
    rw [hfails] at hx
    simp only [Call.exec, PrismaCall.exec] at hx ⊢
    by_cases hallow : w.Allows ch c
    · rw [if_pos hallow] at hx
      rw [if_pos ((allows_twin h c).mpr hallow)]
      have hperform := @perform_twin _ _ _ w.now ch.uuid ch.rows h c
      generalize c.perform w.now ch.uuid ch.rows w.db = p at hperform hx
      generalize c.perform w.now ch.uuid ch.rows db = p' at hperform
      cases hperform with
      | ok hv hdb =>
        cases hx
        exact ⟨_, _, rfl, .ok (.prisma hv), .rehashed hdb⟩
      | error e hdb =>
        cases hx
        exact ⟨_, _, rfl, .error _, .rehashed h⟩
    · rw [if_neg hallow] at hx
      cases hx

theorem other_blind {db : Db} (h : w.db.Twin w.bcrypt db) {c : Call} {r : Api.Answer c}
    (hc : ∀ c', c ≠ .prisma c') (hx : gateway.exec i c ch w = some (r, w')) :
    gateway.exec i c ch { w with db := db } = some (r, { w' with db := db }) ∧
      w'.Twin { w' with db := db } := by
  have hframe := exec_frame hx
  refine ⟨?_, .rehashed ?_⟩
  · rw [exec_otherDb hc, hx]
    rfl
  · rw [hframe.db hc, hframe.bcrypt]
    exact h

theorem gateway_blind (bcrypt : String → String → Bool) :
    gateway.Blind (butHashes bcrypt) fun w w' => w.bcrypt = bcrypt ∧ w.Twin w' := by
  refine ⟨fun {i c c' ch w w' r w₁} hw hc hx => ?_, fun {mv w w' w₁} hw hm => ?_⟩
  · obtain ⟨rfl, @⟨db, h⟩⟩ := hw
    have hbcrypt := (exec_frame hx).bcrypt
    cases hc with
    | same c =>
      by_cases hc : ∀ c', c ≠ .prisma c'
      · obtain ⟨hx', htwin⟩ := other_blind h hc hx
        refine ⟨r, _, hx', ?_, hbcrypt, htwin⟩
        cases r with
        | ok v => exact .ok (.other hc v)
        | error e => exact .error e
      · push Not at hc
        obtain ⟨c, rfl⟩ := hc
        obtain ⟨r', w₁', hx', hr, htwin⟩ := prisma_blind h hx
        exact ⟨r', w₁', hx', hr, hbcrypt, htwin⟩
    | @compare plain hashed hashed' haccept =>
      have hok : ch.fails = false := by
        obtain ⟨e, he, -⟩ | ⟨hok, -⟩ := exec_cases hx
        · cases he
        · exact hok
      obtain ⟨rfl, rfl⟩ := bcryptCompare_cases hx
      refine ⟨.ok (w₁.bcrypt plain hashed'), { w₁ with db := db }, ?_, ?_, rfl, .rehashed h⟩
      · rw [exec_of_ok _ hok]
        rfl
      · rw [haccept]
        exact .ok (.compare ..)
  · obtain ⟨rfl, @⟨db, h⟩⟩ := hw
    have hbcrypt : w₁.bcrypt = w.bcrypt := by
      obtain ⟨elapsed, -, rfl⟩ | ⟨channel, broker, rfl⟩ := move_cases hm <;> rfl
    refine ⟨{ w₁ with db := db }, ?_, hbcrypt, .rehashed ?_⟩
    · rw [move_otherDb, hm]
      rfl
    · rw [db_of_move hm, hbcrypt]
      exact h

end Blind

/-! ## Programs -/

/-- The program makes nothing of hashes but to compare a password with them. -/
def Discreet {α : Type} (p : Prog Api α) : Prop := ∀ bcrypt, Alike (butHashes bcrypt) Eq p p

/-- The call has no hash in its value. -/
def Call.HashFree : Call → Prop
  | .prisma (.userFindUnique _) => False
  | .prisma (.userCreate _) => False
  | .prisma (.userUpdate _ _) => False
  | _ => True

theorem determines_hashFree (bcrypt : String → String → Bool) (c : Call) (hc : c.HashFree) :
    (butHashes bcrypt).Determines c := by
  refine ⟨.same c, fun v v' h => ?_⟩
  cases h with
  | @prisma c v v' h => cases c <;> first | exact hc.elim | exact h
  | compare => rfl
  | other => rfl

section Rules

variable {α β : Type}

theorem discreet_of_calls {p : Prog Api α} (hp : p.Calls Call.HashFree) : Discreet p :=
  fun bcrypt => alike_refl (calls_mono hp (determines_hashFree bcrypt))

theorem discreet_bind {p : Prog Api α} {f : α → Prog Api β} (hp : Discreet p)
    (hf : ∀ a, Discreet (f a)) : Discreet (p >>= f) := by
  refine fun bcrypt => alike_bind (hp bcrypt) fun a b hab => ?_
  cases hab
  exact hf a bcrypt

theorem discreet_attempt {p : Prog Api α} {f : Except Exception α → Prog Api β} (hp : Discreet p)
    (hf : ∀ r, Discreet (f r)) : Discreet (p.attempt >>= f) := by
  refine fun bcrypt => alike_attempt (hp bcrypt) (fun a b hab => ?_) fun e => hf (.error e) bcrypt
  cases hab
  exact hf (.ok a) bcrypt

theorem alike_prisma (bcrypt : String → String → Bool) (c : PrismaCall) :
    Alike (butHashes bcrypt) (c.SameValue bcrypt) (prisma c) (prisma c) := by
  refine .call (SameCall.same _) fun r r' h => ?_
  cases h with
  | ok h =>
    cases h with
    | prisma h => exact .ret h
    | other hc => exact absurd rfl (hc c)
  | error e => exact .throw e

theorem alike_user {bcrypt : String → String → Bool} {f : User → Prog Api α}
    (hf : ∀ u password, f { u with password := password } = f u) (hd : ∀ u, Discreet (f u))
    (u u' : User) (h : SameUser bcrypt u u') : Alike (butHashes bcrypt) Eq (f u) (f u') := by
  rw [h.rest, hf u u'.password]
  exact hd u bcrypt

theorem discreet_findUser {q : UserWhere} {f : Option User → Prog Api α}
    (hf : ∀ u password, f (some { u with password := password }) = f (some u))
    (hd : ∀ o, Discreet (f o)) : Discreet (prisma (.userFindUnique q) >>= f) := by
  refine fun bcrypt => alike_bind (alike_prisma bcrypt _) fun o o' (h : Option.Rel _ o o') => ?_
  cases h with
  | none => exact hd none bcrypt
  | some hu => exact @alike_user _ _ (fun u => f (some u)) hf (fun u => hd (some u)) _ _ hu

theorem discreet_updateUser {key : String} {d : UserUpdate} {f : User → Prog Api α}
    (hf : ∀ u password, f { u with password := password } = f u) (hd : ∀ u, Discreet (f u)) :
    Discreet (prisma (.userUpdate key d) >>= f) :=
  fun bcrypt => alike_bind (alike_prisma bcrypt _) (alike_user hf hd)

theorem discreet_createUser {d : UserCreate} {f : User → Prog Api α}
    (hf : ∀ u password, f { u with password := password } = f u) (hd : ∀ u, Discreet (f u)) :
    Discreet (prisma (.userCreate d) >>= f) :=
  fun bcrypt => alike_bind (alike_prisma bcrypt _) (alike_user hf hd)

end Rules

/-! ### Users, guards and sessions -/

section Auth

theorem verifyJwt_discreet {τ : Type} (exp : τ → Nat) (cookie : Option τ) :
    Discreet (verifyJwt exp cookie) := by
  cases cookie with
  | none => exact discreet_of_calls trivial
  | some token =>
    rw [verifyJwt_some]
    refine discreet_of_calls (calls_bind (calls_await trivial) fun now => ?_)
    split <;> trivial

theorem jwtAuthGuard_discreet (cookie : Option AccessToken) :
    Discreet (JwtAuthGuard.canActivate cookie) := by
  refine discreet_bind (verifyJwt_discreet _ cookie) fun payload => ?_
  refine discreet_findUser (fun _ _ => rfl) fun found => discreet_of_calls ?_
  cases found with
  | none => trivial
  | some user =>
    dsimp only
    split <;> trivial

theorem rolesGuard_discreet (roles : List Role) (user : UserPayload) :
    Discreet (RolesGuard.canActivate roles user) := by
  unfold RolesGuard.canActivate
  split <;> exact discreet_of_calls trivial

theorem findLiveOrThrow_discreet {α : Type} (id : String) {f : User → Prog Api α}
    (hf : ∀ u password, f { u with password := password } = f u) (hd : ∀ u, Discreet (f u)) :
    Discreet (UsersService.findLiveOrThrow id >>= f) := by
  unfold UsersService.findLiveOrThrow
  rw [bind_assoc]
  refine discreet_findUser (fun u password => hf u password) fun found => ?_
  cases found with
  | none => exact discreet_of_calls trivial
  | some user => exact hd user

theorem updateProfile_discreet (id requesterId requesterRole : String) (dto : UpdateUserDto) :
    Discreet (UsersService.updateProfile id requesterId requesterRole dto) := by
  unfold UsersService.updateProfile
  split
  · exact discreet_of_calls trivial
  refine findLiveOrThrow_discreet id (fun _ _ => rfl) fun _ => ?_
  exact discreet_updateUser (fun _ _ => rfl) fun _ => discreet_of_calls trivial

theorem updateRole_discreet (id : String) (role : Role) :
    Discreet (UsersService.updateRole id role) := by
  refine findLiveOrThrow_discreet id (fun _ _ => rfl) fun _ => ?_
  exact discreet_updateUser (fun _ _ => rfl) fun _ => discreet_of_calls trivial

theorem softDeleteUser_discreet (id : String) : Discreet (UsersService.softDeleteUser id) := by
  refine findLiveOrThrow_discreet id (fun _ _ => rfl) fun _ => ?_
  refine discreet_bind (discreet_of_calls (calls_await trivial)) fun _ => ?_
  exact discreet_updateUser (fun _ _ => rfl) fun _ => discreet_of_calls trivial

theorem signup_discreet (email password fullName : String) (role : Role) :
    Discreet (AuthService.signup email password fullName role) := by
  refine discreet_findUser (fun _ _ => rfl) fun found => ?_
  dsimp only
  split
  · exact discreet_of_calls trivial
  refine discreet_bind (discreet_of_calls (calls_await trivial)) fun hashed => ?_
  refine discreet_createUser (fun _ _ => rfl) fun user => ?_
  exact discreet_of_calls (calls_bind (calls_await trivial) fun _ => trivial)

theorem issue_discreet {α : Type} (user : User) (event : SecurityEvent) (f : Tokens → α) :
    Discreet (do
      let tokens ← AuthService.generateTokens user
      AuthService.storeRefreshToken user.id tokens.refreshToken
      audit event
      return f tokens) := by
  refine discreet_of_calls (calls_bind (calls_bind (calls_await trivial) fun _ =>
    calls_bind (calls_await trivial) fun _ => trivial) fun tokens => ?_)
  refine calls_bind (calls_await trivial) fun _ => ?_
  exact calls_bind (calls_await trivial) fun _ => trivial

theorem checkAccountLockout_discreet (email : String) :
    Discreet (AuthService.checkAccountLockout email) := by
  refine discreet_of_calls (calls_bind (calls_bind (calls_await trivial) fun _ => trivial) fun _ => ?_)
  split
  · refine calls_bind (calls_bind (calls_await trivial) fun _ => trivial) fun _ => ?_
    exact calls_bind (calls_await trivial) fun _ => trivial
  · trivial

theorem handleFailedLogin_discreet (email : String) (context : LoginContext)
    (userId : Option String) : Discreet (AuthService.handleFailedLogin email context userId) := by
  have hlast : ∀ n : Nat, (do
      audit (.loginFailed userId email context n ACCOUNT_LOCKOUT_MAX_ATTEMPTS)
      if ACCOUNT_LOCKOUT_MAX_ATTEMPTS ≤ n then
        audit (.accountLocked userId email context.ip
          (ACCOUNT_LOCKOUT_DURATION_SECONDS / 60)) : Prog Api Unit).Calls Call.HashFree := by
    intro n
    refine calls_bind (calls_await trivial) fun _ => ?_
    split
    · exact calls_await trivial
    · trivial
  refine discreet_of_calls (calls_bind (calls_await trivial) fun attempts => ?_)
  dsimp only
  split
  · exact calls_bind (calls_await trivial) fun _ => hlast _
  · exact hlast _

theorem sameValue_compare {bcrypt : String → String → Bool} {plain hashed hashed' : String}
    {valid valid' : Bool}
    (h : SameValue bcrypt (.bcryptCompare plain hashed) (.bcryptCompare plain hashed') valid valid') :
    valid' = valid := by
  cases h <;> rfl

/-- The one call that is given a hash asks what `bcrypt` accepts. -/
theorem compare_alike {bcrypt : String → String → Bool} {α : Type} (plain : String)
    {hashed hashed' : String} (h : ∀ plain, bcrypt plain hashed' = bcrypt plain hashed)
    {f : Bool → Prog Api α} (hf : ∀ valid, Discreet (f valid)) :
    Alike (butHashes bcrypt) Eq (bcryptCompare plain hashed >>= f)
      (bcryptCompare plain hashed' >>= f) := by
  have hawait : Alike (butHashes bcrypt)
      (SameValue bcrypt (.bcryptCompare plain hashed) (.bcryptCompare plain hashed'))
      (bcryptCompare plain hashed) (bcryptCompare plain hashed') :=
    @alike_await _ (butHashes bcrypt) _ _ (SameCall.compare plain h)
  refine alike_bind hawait fun valid valid' hvalid => ?_
  rw [sameValue_compare hvalid]
  exact hf valid bcrypt

theorem login_discreet (email password : String) (context : LoginContext) :
    Discreet (AuthService.login email password context) := by
  have hfailed : ∀ userId : Option String, Discreet (do
      AuthService.handleFailedLogin email context userId
      throw (.unauthorized "Invalid credentials") : Prog Api (Tokens × UserSummary)) := fun userId =>
    discreet_bind (handleFailedLogin_discreet email context userId) fun _ =>
      discreet_of_calls trivial
  unfold AuthService.login UsersService.findByEmail
  refine discreet_bind (checkAccountLockout_discreet email) fun _ => ?_
  intro bcrypt
  refine alike_bind (alike_prisma bcrypt (.userFindUnique (.email email))) fun found found' h => ?_
  change Option.Rel (SameUser bcrypt) found found' at h
  cases h with
  | none => exact hfailed none bcrypt
  | @some u u' hu =>
    obtain ⟨hrest, haccepts⟩ := hu
    generalize u'.password = hashed at hrest haccepts
    subst hrest
    rw [Option.filter_some, Option.filter_some]
    cases u.deletedAt.isNone with
    | false => exact hfailed none bcrypt
    | true =>
      refine compare_alike password haccepts fun valid => ?_
      cases valid with
      | false => exact hfailed (some u.id)
      | true =>
        refine discreet_bind (discreet_of_calls ?_) fun _ => issue_discreet u _ _
        exact calls_bind (calls_await trivial) fun _ => trivial

theorem jwtRefreshGuard_discreet (cookie : Option RefreshToken) :
    Discreet (JwtRefreshGuard.canActivate cookie) := by
  refine discreet_bind (verifyJwt_discreet _ cookie) fun payload => discreet_of_calls ?_
  refine calls_bind (calls_await trivial) fun stored => ?_
  dsimp only
  split
  · trivial
  refine calls_bind (calls_await trivial) fun listed => ?_
  split <;> trivial

theorem refresh_discreet (userId : String) (context : LoginContext) :
    Discreet (AuthService.refresh userId context) := by
  unfold AuthService.refresh UsersService.findById
  refine discreet_findUser (fun u password => ?_) fun found => ?_
  · rw [Option.filter_some, Option.filter_some]
    cases u.deletedAt.isNone <;> rfl
  · cases found.filter fun user => user.deletedAt.isNone with
    | none => exact discreet_of_calls (calls_bind (calls_await trivial) fun _ => trivial)
    | some user => exact issue_discreet user _ id

theorem logout_discreet (userId tokenId : String) (context : LoginContext) :
    Discreet (AuthService.logout userId tokenId context) := by
  refine discreet_of_calls (calls_bind (calls_await trivial) fun _ => ?_)
  exact calls_bind (calls_await trivial) fun _ => calls_await trivial

theorem authorize_discreet (route : UserRoute) (cookie : Option AccessToken) :
    Discreet (route.authorize cookie) := by
  refine discreet_bind (jwtAuthGuard_discreet cookie) fun user => ?_
  cases route.requiredRoles with
  | none => exact discreet_of_calls trivial
  | some roles =>
    exact discreet_bind (rolesGuard_discreet roles user) fun _ => discreet_of_calls trivial

end Auth

/-! ### Applications -/

section Applications

theorem findOpenJobOrThrow_discreet (jobId : String) :
    Discreet (ApplicationsService.findOpenJobOrThrow jobId) := by
  refine discreet_of_calls (calls_bind (calls_await trivial) fun found => ?_)
  split
  · trivial
  · dsimp only
    split <;> trivial

theorem findOrCreateCandidateOrThrow_discreet (userId : String) :
    Discreet (ApplicationsService.findOrCreateCandidateOrThrow userId) := by
  refine discreet_findUser (fun u password => ?_) fun found => discreet_of_calls ?_
  · refine congrArg (prisma (.candidateFindUnique (.email u.email)) >>= ·) (funext fun c => ?_)
    cases c <;> rfl
  cases found with
  | none => trivial
  | some user =>
    refine calls_bind (calls_await trivial) fun candidate => ?_
    cases candidate with
    | none => exact calls_await trivial
    | some candidate => trivial

theorem ensureNoDuplicateApplication_discreet (jobId candidateId : String) :
    Discreet (ApplicationsService.ensureNoDuplicateApplication jobId candidateId) := by
  refine discreet_of_calls (calls_bind (calls_await trivial) fun existing => ?_)
  split <;> trivial

theorem create_discreet (userId : String) (dto : CreateApplicationDto) :
    Discreet (ApplicationsService.create userId dto) := by
  refine discreet_bind (findOpenJobOrThrow_discreet dto.jobId) fun _ => ?_
  refine discreet_bind (findOrCreateCandidateOrThrow_discreet userId) fun candidate => ?_
  refine discreet_bind (ensureNoDuplicateApplication_discreet dto.jobId candidate.id) fun _ => ?_
  exact discreet_of_calls (calls_await trivial)

theorem uploadCvOrThrow_discreet (file : UploadedFile) :
    Discreet (ApplicationsService.uploadCvOrThrow file) := by
  refine discreet_of_calls (calls_bind (calls_bind (calls_await trivial) fun _ => trivial)
    fun fileKey => calls_tryCatch ?_ fun _ => trivial)
  exact calls_bind (calls_await trivial) fun _ => trivial

theorem failCreateWithCv_discreet (applicationId : Option String) (fileKey : String) :
    Discreet (ApplicationsService.failCreateWithCv applicationId fileKey) := by
  refine discreet_of_calls (calls_bind ?_ fun _ => trivial)
  cases applicationId with
  | none => exact calls_tryCatch (calls_await trivial) fun _ => trivial
  | some id =>
    refine calls_bind (calls_tryCatch (calls_await trivial) fun _ => trivial) fun _ => ?_
    exact calls_tryCatch (calls_await trivial) fun _ => trivial

theorem publishApplication_discreet (candidateId applicationId jobId fileKey mimeType : String) :
    Discreet (ApplicationsService.publishApplication candidateId applicationId jobId fileKey
      mimeType) := by
  refine discreet_of_calls (calls_bind (calls_await trivial) fun bucket => ?_)
  refine calls_bind (calls_await trivial) fun uploadedAt => ?_
  refine calls_bind (calls_await trivial) fun published => ?_
  split <;> trivial

theorem buildUploadResponse_discreet (applicationId fileKey uploadUrl : String) :
    Discreet (ApplicationsService.buildUploadResponse applicationId fileKey uploadUrl) := by
  refine discreet_of_calls (calls_bind (calls_tryCatch ?_ fun _ => trivial) fun _ => trivial)
  exact calls_bind (calls_await trivial) fun _ => trivial

theorem createWithCv_discreet (userId : String) (file : UploadedFile) (dto : UploadCvDto) :
    Discreet (ApplicationsService.createWithCv userId file dto) := by
  refine discreet_bind (findOpenJobOrThrow_discreet dto.jobId) fun _ => ?_
  refine discreet_bind (findOrCreateCandidateOrThrow_discreet userId) fun candidate => ?_
  refine discreet_bind (ensureNoDuplicateApplication_discreet dto.jobId candidate.id) fun _ => ?_
  refine discreet_bind (uploadCvOrThrow_discreet file) fun upload => ?_
  refine discreet_attempt (discreet_of_calls (calls_await trivial)) fun created => ?_
  cases created with
  | error e => exact failCreateWithCv_discreet none upload.1
  | ok application =>
    refine discreet_attempt (publishApplication_discreet _ _ _ _ _) fun handedOver => ?_
    cases handedOver with
    | error e => exact failCreateWithCv_discreet (some application.id) upload.1
    | ok _ => exact buildUploadResponse_discreet application.id upload.1 upload.2

theorem findCandidateOfUser_discreet (userId : String) :
    Discreet (ApplicationsService.findCandidateOfUser userId) := by
  refine discreet_findUser (fun _ _ => rfl) fun found => discreet_of_calls ?_
  cases found with
  | none => trivial
  | some user => exact calls_await trivial

theorem roleFilter_discreet (userId userRole : String) :
    Discreet (ApplicationsService.roleFilter userId userRole) := by
  have hcandidate : Discreet (do
      let candidate ← ApplicationsService.findCandidateOfUser userId
      return { candidateId := candidate.map Candidate.id } : Prog Api ApplicationWhere) :=
    discreet_bind (findCandidateOfUser_discreet userId) fun _ => discreet_of_calls trivial
  unfold ApplicationsService.roleFilter
  split
  · exact discreet_of_calls trivial
  split
  · exact hcandidate
  split
  · exact hcandidate
  · exact discreet_of_calls trivial

theorem findAllApplications_discreet (userId userRole : String) (query : QueryApplicationsDto) :
    Discreet (ApplicationsService.findAll userId userRole query) := by
  refine discreet_bind (roleFilter_discreet userId userRole) fun _ => discreet_of_calls ?_
  refine calls_bind (calls_await trivial) fun _ => ?_
  exact calls_bind (calls_await trivial) fun _ => trivial

theorem findOneApplication_discreet (id userId userRole : String) :
    Discreet (ApplicationsService.findOne id userId userRole) := by
  refine discreet_bind (discreet_of_calls (calls_await trivial)) fun found => ?_
  dsimp only
  split
  · exact discreet_of_calls trivial
  refine discreet_bind (findCandidateOfUser_discreet userId) fun candidate => discreet_of_calls ?_
  split <;> trivial

theorem updateApplication_discreet (id userId userRole : String) (dto : UpdateApplicationDto) :
    Discreet (ApplicationsService.update id userId userRole dto) := by
  refine discreet_bind (findOneApplication_discreet id userId userRole) fun application => ?_
  refine discreet_bind (findCandidateOfUser_discreet userId) fun candidate => discreet_of_calls ?_
  dsimp only
  split
  · trivial
  split
  · trivial
  refine calls_bind ?_ fun _ => calls_await trivial
  unfold ApplicationsService.updateData
  dsimp only
  split
  · split
    · exact calls_bind (calls_await trivial) fun _ => trivial
    · trivial
  · trivial

theorem removeApplication_discreet (id userId userRole : String) :
    Discreet (ApplicationsService.remove id userId userRole) := by
  refine discreet_bind (findOneApplication_discreet id userId userRole) fun application => ?_
  refine discreet_bind (findCandidateOfUser_discreet userId) fun candidate => discreet_of_calls ?_
  dsimp only
  split
  · trivial
  refine calls_bind (calls_await trivial) fun _ => ?_
  exact calls_bind (calls_await trivial) fun _ => trivial

end Applications

/-! ### Candidates, jobs and interviews -/

section Records

theorem findCandidateOrThrow_hashFree (id : String) :
    (CandidatesService.findOrThrow id).Calls Call.HashFree := by
  refine calls_bind (calls_await trivial) fun existing => ?_
  split <;> trivial

theorem findJob_hashFree (id : String) : (JobsService.findOne id).Calls Call.HashFree := by
  refine calls_bind (calls_await trivial) fun found => ?_
  split <;> trivial

theorem verifyInterviewer_discreet (interviewerId : Option String) :
    Discreet (InterviewsService.verifyInterviewer interviewerId) := by
  unfold InterviewsService.verifyInterviewer
  split
  · exact discreet_of_calls trivial
  refine discreet_findUser (fun _ _ => rfl) fun found => discreet_of_calls ?_
  split <;> trivial

theorem verifyFuture_hashFree (scheduledAt : Option Time) :
    (InterviewsService.verifyFuture scheduledAt).Calls Call.HashFree := by
  refine calls_bind (calls_await trivial) fun now => ?_
  split <;> trivial

theorem findInterviewOrThrow_hashFree (id : String) :
    (InterviewsService.findOrThrow id).Calls Call.HashFree := by
  refine calls_bind (calls_await trivial) fun existing => ?_
  split <;> trivial

theorem createInterview_discreet (dto : CreateInterviewDto) :
    Discreet (InterviewsService.create dto) := by
  refine discreet_bind (discreet_of_calls (calls_await trivial)) fun application => ?_
  cases application with
  | none => exact discreet_of_calls trivial
  | some application =>
    refine discreet_bind (verifyInterviewer_discreet dto.interviewerId) fun _ => ?_
    exact discreet_of_calls (calls_bind (verifyFuture_hashFree _) fun _ => calls_await trivial)

theorem updateInterview_discreet (id : String) (dto : UpdateInterviewDto) :
    Discreet (InterviewsService.update id dto) := by
  refine discreet_bind (discreet_of_calls (findInterviewOrThrow_hashFree id)) fun _ => ?_
  refine discreet_bind (discreet_of_calls ?_) fun _ => ?_
  · unfold InterviewsService.verifyNewDate
    split
    · exact verifyFuture_hashFree _
    · trivial
  · refine discreet_bind (verifyInterviewer_discreet _) fun _ => ?_
    exact discreet_of_calls (calls_await trivial)

end Records

/-! ## The list of users -/

/-- `r` is an answer to `GET /users`: the rows are taken in an order that `ORDER BY` allows. -/
def UsersListed (c : Collation) (db : Db) (query : QueryUsersDto) (page : ℕ)
    (r : Except PrismaError (PaginatedResult SafeUser)) : Prop :=
  ∃ answer, IsSorting ((UsersService.listing c db query).mayPrecede c)
      (UsersService.listing c db query).rows answer ∧
    (UsersService.listing c db query).findAll page answer = r

section Listed

variable {bcrypt : String → String → Bool} {db db' : Db} {c : Collation} {query : QueryUsersDto}

theorem SameUser.symm {u u' : User} (h : SameUser bcrypt u u') : SameUser bcrypt u' u := by
  refine ⟨?_, fun plain => (h.accepts plain).symm⟩
  rw [h.rest]

theorem Db.Twin.symm (h : db.Twin bcrypt db') : db'.Twin bcrypt db where
  users := h.users.flip.imp fun _ _ hu => hu.symm
  jobs := h.jobs.symm
  candidates := h.candidates.symm
  applications := h.applications.symm
  interviews := h.interviews.symm

theorem selects_same (u u' : User) (h : SameUser bcrypt u u') :
    UsersService.selects c query u' = UsersService.selects c query u := by
  rw [h.rest]
  rfl

theorem safe_same (u u' : User) (h : SameUser bcrypt u u') : u'.safe = u.safe := by
  rw [h.rest]
  rfl

theorem column_same {name : String} (hname : name ≠ "password") {column : User → SortKey}
    (hcolumn : UsersService.columns name = some column) (u u' : User) (h : SameUser bcrypt u u') :
    column u' = column u := by
  rw [h.rest]
  unfold UsersService.columns at hcolumn
  split at hcolumn
  all_goals first
    | exact absurd rfl hname
    | cases hcolumn
  all_goals rfl

theorem mayPrecede_same (hsort : query.sortBy ≠ some "password") (u v u' v' : User)
    (hu : SameUser bcrypt u u') (hv : SameUser bcrypt v v')
    (h : (UsersService.listing c db query).mayPrecede c u v = true) :
    (UsersService.listing c db' query).mayPrecede c u' v' = true := by
  have hname : query.sortBy.getD "createdAt" ≠ "password" := by
    cases hby : query.sortBy with
    | none => decide
    | some name => exact fun heq => hsort (hby.trans (congrArg some heq))
  simp only [Listing.mayPrecede, UsersService.listing] at h ⊢
  cases hcolumn : UsersService.columns (query.sortBy.getD "createdAt") with
  | none => rfl
  | some column =>
    rw [hcolumn] at h
    simp only [column_same hname hcolumn u u' hu, column_same hname hcolumn v v' hv]
    exact h

theorem usersListed_of_twin (h : db.Twin bcrypt db') (hsort : query.sortBy ≠ some "password")
    {page : ℕ} {r : Except PrismaError (PaginatedResult SafeUser)}
    (hr : UsersListed c db query page r) : UsersListed c db' query page r := by
  obtain ⟨answer, ⟨hperm, hsorted⟩, rfl⟩ := hr
  have hrows : List.Forall₂ (SameUser bcrypt) (UsersService.listing c db query).rows
      (UsersService.listing c db' query).rows :=
    List.rel_filter (fun u u' hu => (congrArg (· = true) (selects_same u u' hu).symm).to_iff) h.users
  obtain ⟨answer', hanswer, hperm'⟩ := List.perm_comp_forall₂ hperm hrows
  have hsafe : answer'.map User.safe = answer.map User.safe := forall₂_map_eq safe_same hanswer
  refine ⟨answer', ⟨hperm', forall₂_pairwise (mayPrecede_same hsort) hanswer hsorted⟩, ?_⟩
  have hshown : ∀ db : Db, (UsersService.listing c db query).shown = fun u => some u.safe :=
    fun _ => rfl
  have hdata : ∀ skip limit : ℕ, ((answer'.drop skip).take limit).filterMap (fun u => some u.safe) =
      ((answer.drop skip).take limit).filterMap fun u => some u.safe := by
    intro skip limit
    simp only [List.filterMap_eq_map', List.map_take, List.map_drop]
    exact congrArg (fun l => (l.drop skip).take limit) hsafe
  have htotal : (UsersService.listing c db' query).rows.length =
      (UsersService.listing c db query).rows.length := hrows.length_eq.symm
  have hvalid : (UsersService.listing c db' query).isValid =
      (UsersService.listing c db query).isValid := rfl
  simp only [Listing.findAll, hvalid, hshown, htotal, hdata]
  rfl

/-- Sorted by anything but the password, the list of users is the same. -/
theorem usersListed_twin (h : db.Twin bcrypt db') (hsort : query.sortBy ≠ some "password")
    {page : ℕ} {r : Except PrismaError (PaginatedResult SafeUser)} :
    UsersListed c db' query page r ↔ UsersListed c db query page r :=
  ⟨usersListed_of_twin h.symm hsort, usersListed_of_twin h hsort⟩

end Listed

/-! ## Requests -/

theorem pipe_discreet (file : Option MulterFile) : Discreet (UserRoute.pipe file) := by
  obtain ⟨accepted, -, hpipe⟩ | ⟨e, hpipe⟩ := pipe_cases file
  · rw [hpipe]
    exact discreet_of_calls trivial
  · rw [hpipe]
    exact discreet_of_calls trivial

theorem handle_discreet (context : LoginContext) (user : UserPayload) (route : UserRoute) :
    Discreet (route.handle context user) := by
  cases route with
  | logout =>
    exact discreet_bind (logout_discreet user.id (user.tokenId.getD "") context) fun _ =>
      discreet_of_calls trivial
  | updateProfile id dto =>
    exact discreet_bind (updateProfile_discreet id user.id user.role.toString dto) fun _ =>
      discreet_of_calls trivial
  | updateRole id role =>
    exact discreet_bind (updateRole_discreet id role) fun _ => discreet_of_calls trivial
  | softDeleteUser id =>
    exact discreet_bind (softDeleteUser_discreet id) fun _ => discreet_of_calls trivial
  | updateJob id dto =>
    refine discreet_of_calls (calls_bind (calls_bind (findJob_hashFree id) fun job => ?_) fun _ =>
      trivial)
    split
    · trivial
    · exact calls_await trivial
  | removeJob id =>
    refine discreet_of_calls (calls_bind (calls_bind (findJob_hashFree id) fun job => ?_) fun _ =>
      trivial)
    split
    · trivial
    · refine calls_bind (calls_await trivial) fun _ => ?_
      exact calls_bind (calls_await trivial) fun _ => trivial
  | createApplication dto =>
    exact discreet_bind (create_discreet user.id dto) fun _ => discreet_of_calls trivial
  | uploadCv file dto =>
    refine discreet_bind (pipe_discreet file) fun file => ?_
    exact discreet_bind (createWithCv_discreet user.id file.toUploadedFile dto) fun _ =>
      discreet_of_calls trivial
  | findAllApplications query =>
    exact discreet_bind (findAllApplications_discreet user.id user.role.toString query) fun _ =>
      discreet_of_calls trivial
  | findOneApplication id =>
    exact discreet_bind (findOneApplication_discreet id user.id user.role.toString) fun _ =>
      discreet_of_calls trivial
  | updateApplication id dto =>
    exact discreet_bind (updateApplication_discreet id user.id user.role.toString dto) fun _ =>
      discreet_of_calls trivial
  | removeApplication id =>
    exact discreet_bind (removeApplication_discreet id user.id user.role.toString) fun _ =>
      discreet_of_calls trivial
  | findOneCandidate id =>
    refine discreet_of_calls (calls_bind (calls_bind (calls_await trivial) fun found => ?_) fun _ =>
      trivial)
    split <;> trivial
  | updateCandidate id dto =>
    refine discreet_of_calls (calls_bind (calls_bind (findCandidateOrThrow_hashFree id) fun _ => ?_)
      fun _ => trivial)
    exact calls_await trivial
  | removeCandidate id =>
    refine discreet_of_calls (calls_bind (calls_bind (findCandidateOrThrow_hashFree id) fun _ => ?_)
      fun _ => trivial)
    exact calls_await trivial
  | createInterview dto =>
    exact discreet_bind (createInterview_discreet dto) fun _ => discreet_of_calls trivial
  | findAllInterviews query =>
    refine discreet_of_calls (calls_bind (calls_bind (calls_await trivial) fun _ => ?_) fun _ =>
      trivial)
    exact calls_bind (calls_await trivial) fun _ => trivial
  | findOneInterview id =>
    refine discreet_of_calls (calls_bind (calls_bind (calls_await trivial) fun found => ?_) fun _ =>
      trivial)
    split <;> trivial
  | updateInterview id dto =>
    exact discreet_bind (updateInterview_discreet id dto) fun _ => discreet_of_calls trivial
  | removeInterview id =>
    refine discreet_of_calls (calls_bind (calls_bind (findInterviewOrThrow_hashFree id) fun _ => ?_)
      fun _ => trivial)
    exact calls_bind (calls_await trivial) fun _ => trivial

/-- No handler does anything with a hash but compare a password with it. -/
theorem http_discreet (r : HttpRequest) : Discreet r.prog := by
  obtain ⟨accessToken, refreshToken, context, route⟩ := r
  rcases route with (⟨email, password, fullName, role⟩ | ⟨email, password⟩ | _) | route
  · exact discreet_bind (signup_discreet email password fullName role) fun _ =>
      discreet_of_calls trivial
  · exact discreet_bind (login_discreet email password context) fun _ => discreet_of_calls trivial
  · refine discreet_bind ?_ fun _ => discreet_of_calls trivial
    exact discreet_bind (jwtRefreshGuard_discreet refreshToken) fun user =>
      refresh_discreet user.id context
  · exact discreet_bind (authorize_discreet route accessToken) fun user =>
      handle_discreet context user route

/-! ## Runs -/

/-- Requests to these handlers tell nothing about the stored hashes: if the users have the same
passwords with other salts, the same schedule is a run, every request ends the same way, and the
worlds left behind again differ in nothing but the hashes. Nor does a list of the users tell them
apart then, unless it is sorted by the password. -/
theorem hashes_secret {incoming : ℕ → HttpRequest} {w w' : World} (hw : w.Twin w')
    {ls : List (Label ℕ Choice Move)} {cfg : Config Api ℕ World Response}
    (hrun : gateway.run ls (.start w (HttpRequest.pool incoming)) = some cfg) :
    ∃ cfg', gateway.run ls (.start w' (HttpRequest.pool incoming)) = some cfg' ∧
      (∀ i, cfg'.outcome? i = cfg.outcome? i) ∧ cfg.world.Twin cfg'.world ∧
      ∀ c query page r, query.sortBy ≠ some "password" →
        (UsersListed c cfg'.world.db query page r ↔ UsersListed c cfg.world.db query page r) := by
  have hstart : Twins (butHashes w.bcrypt) (fun v v' => v.bcrypt = w.bcrypt ∧ v.Twin v')
      (.start w (HttpRequest.pool incoming)) (.start w' (HttpRequest.pool incoming)) :=
    ⟨⟨rfl, hw⟩, fun i => http_discreet (incoming i) w.bcrypt⟩
  obtain ⟨cfg', hrun', htwins⟩ := twins_run (gateway_blind w.bcrypt) hstart hrun
  refine ⟨cfg', hrun', htwins.outcome, htwins.world.2, fun c query page r hsort => ?_⟩
  obtain ⟨-, hworld⟩ := htwins.world
  exact usersListed_twin hworld.db hsort

/-! ### Ada's hash with another salt -/

/-- `seeded`, where a hash may have been salted. -/
def salted : World := { seeded with bcrypt := fun plain hashed =>
  hashed = "hash:" ++ plain || hashed = "salt:" ++ plain }

/-- The same users after their passwords were hashed again. -/
def resalted : World := { salted with db := { salted.db with
  users := ⟨[{ ada with password := "salt:Ada-2024!" }, ray, ian], by decide, by decide⟩
  users_text := by decide +kernel
  jobs_created_by_id_fkey := by decide
  interviews_interviewer_id_fkey := fun _ hx => absurd hx List.not_mem_nil } }

theorem sameUser_ada : SameUser salted.bcrypt ada { ada with password := "salt:Ada-2024!" } := by
  refine ⟨rfl, fun plain => ?_⟩
  simp [salted, ada, ← String.toList_inj]

theorem salted_twin : salted.Twin resalted :=
  .rehashed
    { users := .cons sameUser_ada (.cons (.refl ray) (.cons (.refl ian) .nil))
      jobs := rfl
      candidates := rfl
      applications := rfl
      interviews := rfl }

def adaLogsIn (_ : ℕ) : HttpRequest := { route := .inl (.login ada.email "Ada-2024!") }

theorem hashes_secret_ada :
    ∃ cfg cfg', gateway.run (List.replicate 8 (.run 0 { uuid := "t-0" }))
        (.start salted (HttpRequest.pool adaLogsIn)) = some cfg ∧
      gateway.run (List.replicate 8 (.run 0 { uuid := "t-0" }))
        (.start resalted (HttpRequest.pool adaLogsIn)) = some cfg' ∧
      (∀ i, cfg'.outcome? i = cfg.outcome? i) ∧ cfg.world.Twin cfg'.world ∧
      ∀ c page r, UsersListed c cfg'.world.db { sortBy := some "email" } page r ↔
        UsersListed c cfg.world.db { sortBy := some "email" } page r := by
  obtain ⟨cfg, hrun⟩ := Option.isSome_iff_exists.mp (show (gateway.run
    (List.replicate 8 (.run 0 { uuid := "t-0" }))
    (.start salted (HttpRequest.pool adaLogsIn))).isSome = true by decide +kernel)
  obtain ⟨cfg', hrun', hout, hworld, hlisted⟩ := hashes_secret salted_twin hrun
  exact ⟨cfg, cfg', hrun, hrun', hout, hworld, fun c page r => hlisted c _ page r (by decide)⟩

end TalentFlow
