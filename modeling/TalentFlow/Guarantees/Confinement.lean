import TalentFlow.Guarantees.Viewing

/-!
# Guarantees.Confinement

What an applicant can change of their application. `update` refuses a stage, a status and notes from
anybody but the recruiter and admins, but asks only whether they are truthy; what it writes is the
whole DTO. Notes that are `null` or empty get past the check and are written.

* `finishes_update`: everything `update` can do, whether its calls fail or not.
* `update_confined_iff`: when an update by somebody who is neither recruiter nor admin leaves
  everything but the cover letter.
* `update_clears_notes`: an applicant clears the recruiter's notes.
-/

namespace TalentFlow

open Data Async

/-- The answers to the calls of request `i`, which may fail. -/
abbrev unreliable (i : ℕ) : Answering Api World := gateway.answers (fun _ => True) i

theorem unreliable_of_alone {i : ℕ} {α : Type} {p : Prog Api α} {w w' : World}
    {o : Except Exception α} (h : Finishes (alone i) p w o w') : Finishes (unreliable i) p w o w' :=
  finishes_mono (fun _ _ _ _ ⟨ch, _, hx⟩ => ⟨ch, trivial, hx⟩) h

/-- Nothing but the cover letter differs, and the time of the last write. -/
def Application.SameButLetter (a a' : Application) : Prop :=
  a' = { a with coverLetter := a'.coverLetter, updatedAt := a'.updatedAt }

/-- An update of this application changes at most its cover letter, and nothing at all when it
throws. -/
def UpdateConfined (w : World) (a : Application) (userId userRole : String)
    (dto : UpdateApplicationDto) : Prop :=
  ∀ i o w', Finishes (unreliable i) (ApplicationsService.update a.id userId userRole dto) w o w' →
    (∀ v, o = .ok v → ∃ a' ∈ w'.db.applications.rows, a.SameButLetter a') ∧
    ∀ e, o = .error e → w'.db = w.db

/-- The DTO gives falsy notes, which are not what the application has, and no stage or status; the
database takes its cover letter. -/
structure UpdateApplicationDto.SlipsNotes (dto : UpdateApplicationDto) (a : Application) : Prop where
  stage : dto.stage = .absent
  status : dto.status = .absent
  notes : dto.notes = .null ∨ dto.notes = .value ""
  differs : dto.notes.orKeep a.notes ≠ a.notes
  letter : storable dto.coverLetter.value? = true

section Update

variable {i : ℕ} {w w' : World} {id userId userRole : String} {dto : UpdateApplicationDto}

/-! ## What an update does -/

theorem reads_query {c : PrismaCall} (hc : c.IsRead) : Reads (unreliable i) w (prisma c)
    fun v => ∃ ch : Choice, c.perform w.now ch.uuid ch.rows w.db = (.ok v, w.db) := by
  intro o w' h
  obtain ⟨ch, -, hx⟩ := finishes_await.mp h
  obtain ⟨rfl, ⟨e, rfl⟩ | ⟨v, rfl, hperf⟩⟩ := read_cases hc hx
  · refine ⟨rfl, fun v hv => ?_⟩
    cases hv
  · refine ⟨rfl, fun v' hv => ?_⟩
    cases hv
    exact ⟨ch, hperf⟩

theorem reads_dateNow : Reads (unreliable i) w dateNow fun _ => True := by
  intro o w' h
  obtain ⟨ch, -, hx⟩ := finishes_await.mp h
  obtain ⟨-, rfl⟩ := dateNow_cases hx
  exact ⟨rfl, fun _ _ => trivial⟩

theorem reads_findCandidateOfUser :
    Reads (unreliable i) w (ApplicationsService.findCandidateOfUser userId)
      fun candidate => candidate = w.db.candidateOf userId := by
  refine reads_bind (reads_query (c := .userFindUnique (.id userId)) trivial) ?_
  rintro user ⟨ch, hperf⟩
  have hfound : w.db.users.find? userId = user := Except.ok.inj (congrArg Prod.fst hperf)
  cases user with
  | none =>
    refine reads_pure ?_
    rw [Db.candidateOf, hfound]
    rfl
  | some user =>
    refine reads_mono (reads_query (c := .candidateFindUnique (.email user.email)) trivial) ?_
    rintro candidate ⟨ch', hperf'⟩
    rw [Db.candidateOf, hfound]
    exact (Except.ok.inj (congrArg Prod.fst hperf')).symm

theorem reads_findOne : Reads (unreliable i) w (ApplicationsService.findOne id userId userRole)
    fun x => ∃ a ∈ w.db.applications.rows, a.id = id ∧ a.deletedAt = none ∧
      w.db.withRelations a = some x := by
  refine reads_bind (reads_query (c := .applicationFindUnique id) trivial) ?_
  rintro found ⟨ch, hperf⟩
  have hfound : (w.db.applications.find? id).bind w.db.withRelations = found :=
    Except.ok.inj (congrArg Prod.fst hperf)
  cases found with
  | none => exact reads_throw
  | some x =>
    obtain ⟨a, ha, hx⟩ := Option.bind_eq_some_iff.mp hfound
    obtain ⟨hmem, rfl⟩ := Table.find?_eq_some.mp ha
    obtain ⟨y, hy, heq, -⟩ := withRelations_of_mem hmem
    obtain rfl : x = y := Option.some.inj (hx.symm.trans hy)
    have hdeleted : x.deletedAt = a.deletedAt := congrArg Application.deletedAt heq
    by_cases hlive : a.deletedAt = none
    · simp only [Option.filter, hdeleted, hlive, Option.isNone_none, if_true]
      refine reads_bind reads_findCandidateOfUser fun candidate _ => ?_
      split
      · exact reads_throw
      · exact reads_pure ⟨a, hmem, rfl, hlive, hx⟩
    · have hgone : Option.filter (fun x : ApplicationWithRelations => x.deletedAt.isNone)
          (some x) = none := by simp [Option.filter, hdeleted, hlive]
      simp only [hgone]
      exact reads_throw

theorem reads_updateData {x : ApplicationWithRelations} :
    Reads (unreliable i) w (ApplicationsService.updateData x dto) dto.Writes := by
  have hkept : dto.Writes
      { stage := dto.stage
        status := dto.status
        notes := dto.notes
        coverLetter := dto.coverLetter } := ⟨.absent, .inl rfl, rfl⟩
  unfold ApplicationsService.updateData
  cases hs : dto.status with
  | absent => exact reads_pure (hs ▸ hkept)
  | null => exact reads_pure (hs ▸ hkept)
  | value status =>
    dsimp only
    split
    · refine reads_bind reads_dateNow fun now _ => ?_
      exact reads_pure ⟨.value now, .inr ⟨status, now, hs, rfl⟩, by rw [hs]⟩
    · exact reads_pure (hs ▸ hkept)

/-- An update changes nothing and throws, or has passed its checks and writes the whole DTO. -/
theorem finishes_update {o : Except Exception Application}
    (h : Finishes (unreliable i) (ApplicationsService.update id userId userRole dto) w o w') :
    ((∃ e, o = .error e) ∧ w'.db = w.db) ∨
      ∃ a x data v, o = .ok v ∧ a ∈ w.db.applications.rows ∧ a.id = id ∧ a.deletedAt = none ∧
        w.db.withRelations a = some x ∧ dto.Writes data ∧ data.isValid = true ∧
        data.isStorable = true ∧
        (dto.givesReview = true → ApplicationsService.isRecruiter x userId = true ∨
          ApplicationsService.isAdmin userRole = true) ∧
        (ApplicationsService.isRecruiter x userId = true ∨
          ApplicationsService.isAdmin userRole = true ∨
          ApplicationsService.isApplicant x (w.db.candidateOf userId) = true) ∧
        w'.db = w.db.modifyApplication id (data.apply w.now) (fun _ => rfl) fun _ => rfl := by
  unfold ApplicationsService.update at h
  obtain ⟨herr, rfl⟩ | ⟨x, ⟨a, ha, rfl, hlive, hx⟩, hrest⟩ := reads_cut reads_findOne h
  · exact .inl ⟨herr, rfl⟩
  obtain ⟨herr, rfl⟩ | ⟨candidate, rfl, hchecks⟩ := reads_cut reads_findCandidateOfUser hrest
  · exact .inl ⟨herr, rfl⟩
  dsimp only at hchecks
  split at hchecks
  · obtain ⟨rfl, rfl⟩ := hchecks
    exact .inl ⟨⟨_, rfl⟩, rfl⟩
  rename_i hreview
  split at hchecks
  · obtain ⟨rfl, rfl⟩ := hchecks
    exact .inl ⟨⟨_, rfl⟩, rfl⟩
  rename_i hparty
  obtain ⟨herr, rfl⟩ | ⟨data, hwrites, hwrite⟩ := reads_cut reads_updateData hchecks
  · exact .inl ⟨herr, rfl⟩
  obtain ⟨ch, -, hexec⟩ := finishes_await.mp hwrite
  obtain ⟨e, rfl, rfl⟩ | ⟨v, db, -, -, hperf, rfl, rfl⟩ := prisma_cases hexec
  · exact .inl ⟨⟨_, rfl⟩, rfl⟩
  obtain ⟨a', -, hvalid, -, hdb⟩ := PrismaCall.perform_applicationUpdate hperf
  have hstorable : data.isStorable = true := PrismaCall.perform_storable hperf
  refine .inr ⟨a, x, data, v, rfl, ha, rfl, hlive, hx, hwrites, hvalid, hstorable, ?_, ?_, hdb⟩
  · intro hgives
    simpa [hgives, or_iff_not_imp_left] using hreview
  · simp only [Bool.and_eq_true, Bool.not_eq_true', not_and, Bool.not_eq_false] at hparty
    by_cases hrecruiter : ApplicationsService.isRecruiter x userId = true
    · exact .inl hrecruiter
    by_cases hadmin : ApplicationsService.isAdmin userRole = true
    · exact .inr (.inl hadmin)
    · exact .inr (.inr (hparty ⟨by simpa using hrecruiter, by simpa using hadmin⟩))

end Update

section Confined

variable {w : World} {a : Application} {userId userRole : String} {dto : UpdateApplicationDto}

/-- A valid write without a review sets no stage and no status, and notes only to nothing. -/
theorem unreviewed_write (hgives : dto.givesReview = false) {data : ApplicationUpdate}
    (hwrites : dto.Writes data) (hvalid : data.isValid = true) :
    dto.stage = .absent ∧ dto.status = .absent ∧
      (dto.notes = .absent ∨ dto.notes = .null ∨ dto.notes = .value "") ∧
      data = { notes := dto.notes, coverLetter := dto.coverLetter } := by
  simp only [UpdateApplicationDto.givesReview, Bool.or_eq_false_iff] at hgives
  obtain ⟨⟨hstage, hstatus⟩, hnotes⟩ := hgives
  obtain ⟨reviewedAt, htime, rfl⟩ := hwrites
  simp only [ApplicationUpdate.isValid, Bool.and_eq_true, Bool.not_eq_true'] at hvalid
  have hstage : dto.stage = .absent := by
    cases hs : dto.stage with
    | absent => rfl
    | null => rw [hs] at hvalid; cases hvalid.1
    | value stage => rw [hs] at hstage; cases hstage
  have hstatus : dto.status = .absent := by
    cases hs : dto.status with
    | absent => rfl
    | null => rw [hs] at hvalid; cases hvalid.2
    | value status => rw [hs] at hstatus; cases hstatus
  obtain rfl : reviewedAt = .absent := by
    obtain rfl | ⟨status, now, hs, -⟩ := htime
    · rfl
    · rw [hstatus] at hs
      cases hs
  refine ⟨hstage, hstatus, ?_, by rw [hstage, hstatus]⟩
  cases hn : dto.notes with
  | absent => exact .inl rfl
  | null => exact .inr (.inl rfl)
  | value notes =>
    rw [hn] at hnotes
    obtain rfl : notes = "" := by simpa using hnotes
    exact .inr (.inr rfl)

theorem givesReview_of_slips (h : dto.SlipsNotes a) : dto.givesReview = false := by
  obtain hnotes | hnotes := h.notes
  · simp [UpdateApplicationDto.givesReview, h.stage, h.status, hnotes]
  · simp [UpdateApplicationDto.givesReview, h.stage, h.status, hnotes]

/-- The checks let falsy notes of the applicant through, and they are written. -/
theorem slipped_notes_written (i : ℕ) (ha : a ∈ w.db.applications.rows)
    (howner : ¬ w.db.OwnsJobOf userId a) (hrole : userRole ≠ "ADMIN") (hlive : a.deletedAt = none)
    (happlicant : w.db.IsApplicantOf userId a) (hslips : dto.SlipsNotes a) :
    ∃ v w', Finishes (unreliable i) (ApplicationsService.update a.id userId userRole dto) w (.ok v)
      w' ∧ ∀ a' ∈ w'.db.applications.rows, a'.id = a.id → a'.notes = dto.notes.orKeep a.notes := by
  obtain ⟨x, hx, -, -⟩ := withRelations_of_mem ha
  have hview : MayView w.db userId userRole x := (mayView_iff ha hx).mpr (.inl happlicant)
  have hrecruiter : ApplicationsService.isRecruiter x userId = false := by
    rw [Bool.eq_false_iff, ne_eq, isRecruiter_iff ha hx]
    exact howner
  have hadmin : ApplicationsService.isAdmin userRole = false := decide_eq_false hrole
  have happ : ApplicationsService.isApplicant x (w.db.candidateOf userId) = true :=
    (isApplicant_iff ha hx).mpr happlicant
  let data : ApplicationUpdate :=
    { stage := dto.stage, status := dto.status, notes := dto.notes, coverLetter := dto.coverLetter }
  have hvalid : data.isValid = true := by
    simp [data, ApplicationUpdate.isValid, hslips.stage, hslips.status, Field.isNull]
  have hstorable : data.isStorable = true := by
    have hnotes : storable dto.notes.value? = true := by
      obtain h | h := hslips.notes
      · rw [h]
        rfl
      · rw [h]
        decide
    simp [data, ApplicationUpdate.isStorable, hnotes, hslips.letter]
  have hfind : w.db.applications.find? a.id = some a := Table.find?_eq_some.mpr ⟨ha, rfl⟩
  let db := w.db.modifyApplication a.id (data.apply w.now) (fun _ => rfl) fun _ => rfl
  have hwrite : Finishes (alone i) (prisma (.applicationUpdate a.id data)) w
      (.ok (data.apply w.now a)) { w with db := db } := by
    refine finishes_await.mpr (alone_iff.mpr ⟨{}, rfl, ?_⟩)
    have hallow : w.Allows {} (.applicationUpdate a.id data) :=
      ⟨fun h => (by cases h), fun q hq => (by cases hq), fun q hq => (by cases hq)⟩
    simp only [Call.exec, PrismaCall.exec, if_pos hallow, PrismaCall.perform, hvalid, hstorable,
      if_true, hfind]
    rfl
  refine ⟨data.apply w.now a, { w with db := db }, unreliable_of_alone ?_, fun a' ha' hid => ?_⟩
  · unfold ApplicationsService.update
    rw [finishes_bind]
    refine .inl ⟨x, w, (finishes_findOne ha hlive hx _).mpr ⟨rfl, .inl ⟨hview, rfl⟩⟩, ?_⟩
    rw [finishes_bind_ok finishes_findCandidateOfUser]
    simp only [givesReview_of_slips hslips, hrecruiter, hadmin, happ, Bool.not_false,
      Bool.not_true, Bool.and_true, Bool.and_false, Bool.false_eq_true, if_false,
      ApplicationsService.updateData, hslips.status]
    change Finishes (alone i) (prisma (.applicationUpdate a.id _)) w _ _
    rw [← hslips.status]
    exact hwrite
  · obtain ⟨-, hne⟩ | ⟨a₀, ha₀, hid₀, rfl⟩ := Db.mem_modifyApplication.mp ha'
    · exact absurd hid hne
    · rw [w.db.applications.key_inj ha₀ ha hid₀]
      rfl

theorem update_confined (ha : a ∈ w.db.applications.rows) (howner : ¬ w.db.OwnsJobOf userId a)
    (hrole : userRole ≠ "ADMIN")
    (hnot : ¬ (a.deletedAt = none ∧ w.db.IsApplicantOf userId a ∧ dto.SlipsNotes a)) :
    UpdateConfined w a userId userRole dto := by
  intro i o w' h
  obtain ⟨⟨e, rfl⟩, hdb⟩ | ⟨b, x, data, v, rfl, hb, hid, hlive, hx, hwrites, hvalid, hstorable,
    hreview, hparty, hdb⟩ := finishes_update h
  · exact ⟨fun v hv => (by cases hv), fun e _ => hdb⟩
  obtain rfl : b = a := w.db.applications.key_inj hb ha hid
  refine ⟨fun _ _ => ?_, fun e he => (by cases he)⟩
  have hnoadmin : ¬ ApplicationsService.isAdmin userRole = true := by
    simpa [ApplicationsService.isAdmin] using hrole
  have hnorecruiter : ¬ ApplicationsService.isRecruiter x userId = true :=
    (isRecruiter_iff ha hx).not.mpr howner
  have happlicant : w.db.IsApplicantOf userId b := by
    rcases hparty with h | h | h
    · exact absurd h hnorecruiter
    · exact absurd h hnoadmin
    · exact (isApplicant_iff ha hx).mp h
  have hgives : dto.givesReview = false := by
    by_contra hgives
    rcases hreview (Bool.eq_true_of_not_eq_false hgives) with h | h
    · exact hnorecruiter h
    · exact hnoadmin h
  obtain ⟨hstage, hstatus, hnotes, rfl⟩ := unreviewed_write hgives hwrites hvalid
  have hkeeps : dto.notes.orKeep b.notes = b.notes := by
    by_contra hdiffers
    refine hnot ⟨hlive, happlicant, hstage, hstatus, hnotes.resolve_left fun habsent => ?_, hdiffers,
      ?_⟩
    · rw [habsent] at hdiffers
      exact hdiffers rfl
    · simp only [ApplicationUpdate.isStorable, Bool.and_eq_true] at hstorable
      exact hstorable.2
  rw [hdb]
  refine ⟨_, Db.mem_modifyApplication.mpr (.inr ⟨b, ha, rfl, rfl⟩), ?_⟩
  simp only [Application.SameButLetter, ApplicationUpdate.apply, hkeeps]
  rfl

/-- An update by somebody who is neither recruiter nor admin is confined to the cover letter, unless
it is the applicant of a live application who gives falsy notes, other than those it has, no stage
or status, and no cover letter that the database refuses. -/
theorem update_confined_iff (ha : a ∈ w.db.applications.rows)
    (howner : ¬ w.db.OwnsJobOf userId a) (hrole : userRole ≠ "ADMIN") :
    UpdateConfined w a userId userRole dto ↔
      ¬ (a.deletedAt = none ∧ w.db.IsApplicantOf userId a ∧ dto.SlipsNotes a) := by
  refine ⟨?_, update_confined ha howner hrole⟩
  rintro hconfined ⟨hlive, happlicant, hslips⟩
  obtain ⟨v, w', h, hnotes⟩ :=
    slipped_notes_written 0 ha howner hrole hlive happlicant hslips
  obtain ⟨a', ha', hsame⟩ := (hconfined 0 _ w' h).1 v rfl
  have hid : a'.id = a.id := by rw [hsame]
  have hkept : a'.notes = a.notes := by rw [hsame]
  exact hslips.differs ((hnotes a' ha' hid).symm.trans hkept)

end Confined

/-! ## Cleo's notes -/

def notedApplication : Application := { cleosApplication with notes := some "Strong in systems" }

def noted : World :=
  { withCleo with
    db := withCleo.db.modifyApplication "a-cleo"
      (fun a => { a with notes := some "Strong in systems" }) (fun _ => rfl) fun _ => rfl }

theorem noted_stored : notedApplication ∈ noted.db.applications.rows := by decide

theorem noted_not_owner : ¬ noted.db.OwnsJobOf "u-cleo" notedApplication := by
  show ¬ ∃ job ∈ [backend, frontend], job.id = "j-backend" ∧ job.createdById = "u-cleo"
  decide

theorem update_confined_cleo :
    UpdateConfined noted notedApplication "u-cleo" "RECRUITER" { coverLetter := .value "Dear Ray" } :=
  (update_confined_iff noted_stored noted_not_owner (by decide)).mpr fun h => h.2.2.differs rfl

/-- She can also clear Ray's notes. -/
theorem update_clears_notes :
    (∃ v w', Finishes (unreliable 0) (ApplicationsService.update "a-cleo" "u-cleo" "RECRUITER"
        { notes := .null }) noted (.ok v) w' ∧
      ∀ a' ∈ w'.db.applications.rows, a'.id = "a-cleo" → a'.notes = none) ∧
    ¬ UpdateConfined noted notedApplication "u-cleo" "RECRUITER" { notes := .null } := by
  have happlicant : noted.db.IsApplicantOf "u-cleo" notedApplication := ⟨cleo, by decide, rfl⟩
  have hslips : ({ notes := .null } : UpdateApplicationDto).SlipsNotes notedApplication :=
    ⟨rfl, rfl, .inl rfl, by decide, rfl⟩
  obtain ⟨v, w', h, hnotes⟩ := slipped_notes_written 0 noted_stored noted_not_owner
    (by decide : "RECRUITER" ≠ "ADMIN") rfl happlicant hslips
  refine ⟨⟨v, w', h, hnotes⟩, fun hconfined => ?_⟩
  obtain ⟨a', ha', hsame⟩ := (hconfined 0 _ w' h).1 v rfl
  have hid : a'.id = "a-cleo" := by rw [hsame]; rfl
  have hkept : a'.notes = some "Strong in systems" := by rw [hsame]; rfl
  rw [hnotes a' ha' hid] at hkept
  cases hkept

end TalentFlow
