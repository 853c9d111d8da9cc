import TalentFlow.Guarantees.Reapplying

/-!
# Guarantees.Scheduling

When interviews are scheduled for. `InterviewsService.create` and `update` refuse a date that is
not in the future; `update` writes `new Date(null)` unseen when it is told `null`.

* `createInterview_ahead`, `updateInterview_iff`: what a method that returns has checked.
* `scheduled_ahead_iff`: an update keeps the date or moves it into the future if and only if it is
  not `null`, or the update is refused for other reasons, or the interview is at the epoch already.
* `scheduled_at_epoch`: an interview that is moved to 1970.
-/

namespace TalentFlow

open Data Async

/-- The interview has the date it had, or one after the check. -/
def KeptOrAhead (id : String) (w w' : World) : Prop :=
  ∀ x ∈ w.db.interviews.find? id, ∃ y ∈ w'.db.interviews.find? id,
    y.scheduledAt = x.scheduledAt ∨ w.now < y.scheduledAt

/-- Nothing but the date can make `InterviewsService.update` refuse the DTO. -/
structure UpdateInterviewDto.Passes (dto : UpdateInterviewDto) (db : Db) : Prop where
  duration : dto.duration ≠ .null
  type : dto.type ≠ .null
  status : dto.status ≠ .null
  texts : storable dto.location.value? = true ∧ storable dto.notes.value? = true
  interviewer : ∀ id, dto.interviewerId = .value id → db.findUser (.live id) ≠ none

section Checks

open InterviewsService

variable {i : ℕ} {w w' : World}

theorem verifyInterviewer_returns (interviewerId : Option String) :
    Finishes (alone i) (verifyInterviewer interviewerId) w (.ok ()) w' ↔
      w' = w ∧ ∀ id ∈ truthy interviewerId, w.db.findUser (.live id) ≠ none := by
  unfold verifyInterviewer
  cases truthy interviewerId with
  | none => simp [finishes_ret]
  | some id =>
    rw [finishes_bind_ok (finishes_userFindUnique (.live id))]
    cases hfind : w.db.findUser (.live id) with
    | none =>
      constructor
      · rintro ⟨he, -⟩
        cases he
      · rintro ⟨-, h⟩
        exact absurd hfind (h id rfl)
    | some u => simp [finishes_ret, hfind]

theorem verifyFuture_returns (scheduledAt : Option Time) :
    Finishes (alone i) (verifyFuture scheduledAt) w (.ok ()) w' ↔
      w' = w ∧ ∀ t ∈ scheduledAt, w.now < t := by
  unfold verifyFuture
  rw [finishes_bind_ok finishes_dateNow]
  cases scheduledAt with
  | none => simp [finishes_ret]
  | some t =>
    by_cases ht : t ≤ w.now
    · rw [Option.any_some, if_pos (decide_eq_true ht)]
      constructor
      · rintro ⟨he, -⟩
        cases he
      · rintro ⟨-, h⟩
        exact absurd (h t rfl) (Nat.not_lt.mpr ht)
    · rw [Option.any_some, if_neg (by simpa using ht), finishes_pure]
      simp [Nat.not_le.mp ht]

theorem verifyNewDate_returns (date : Field (Option Time)) :
    Finishes (alone i) (verifyNewDate date) w (.ok ()) w' ↔
      w' = w ∧ ∀ t, date = .value (some t) → w.now < t := by
  cases date with
  | absent => simp [verifyNewDate, finishes_ret]
  | null => simp [verifyNewDate, finishes_ret]
  | value scheduledAt =>
    rw [verifyNewDate, verifyFuture_returns]
    simp

theorem findInterview_returns {id : String} {x : Interview} :
    Finishes (alone i) (findOrThrow id) w (.ok x) w' ↔
      w.db.interviews.find? id = some x ∧ w' = w := by
  unfold findOrThrow
  rw [finishes_bind_ok (finishes_query (c := .interviewFindById id) (fun _ _ => rfl) rfl ⟨rfl, rfl⟩)]
  cases w.db.interviews.find? id with
  | none =>
    constructor
    · rintro ⟨he, -⟩
      cases he
    · rintro ⟨he, -⟩
      cases he
  | some y => simp [finishes_ret, eq_comm]

theorem createInterview_ahead {dto : CreateInterviewDto} {x : Interview}
    (h : Finishes (alone i) (create dto) w (.ok x) w') :
    w'.db.interviews.find? x.id = some x ∧ w.now < x.scheduledAt := by
  unfold create at h
  rw [finishes_bind_ok (finishes_applicationFindLive dto.applicationId)] at h
  split at h
  · cases h.1
  · obtain ⟨⟨⟩, w₁, hinterviewer, hchecked⟩ := finishes_bind_returns.mp h
    obtain ⟨rfl, -⟩ := (verifyInterviewer_returns _).mp hinterviewer
    obtain ⟨⟨⟩, w₂, hfuture, hcreate⟩ := finishes_bind_returns.mp hchecked
    obtain ⟨rfl, hahead⟩ := (verifyFuture_returns _).mp hfuture
    obtain ⟨id, rows, -, hok, herror⟩ := alone_prisma (finishes_await.mp hcreate)
    rcases hperf : (PrismaCall.interviewCreate (createData dto)).perform w₂.now id rows w₂.db
      with ⟨e | v, db⟩
    · cases (herror e db hperf).1
    · obtain ⟨hv, hdb, -⟩ := hok v db hperf
      cases hv
      obtain ⟨t, ht, rfl, hins, -⟩ := PrismaCall.perform_interviewCreate hperf
      refine ⟨?_, hahead t ht⟩
      rw [hdb, Table.find?_eq_some]
      exact ⟨(Table.mem_insert hins).mpr (.inr rfl), rfl⟩

theorem updateInterview_iff {id : String} {dto : UpdateInterviewDto} {y : Interview} :
    Finishes (alone i) (update id dto) w (.ok y) w' ↔
      (∃ x, w.db.interviews.find? id = some x) ∧
      (∀ t, dto.scheduledAt = .value (some t) → w.now < t) ∧
      (∀ u ∈ truthy (dto.interviewerId.orKeep none), w.db.findUser (.live u) ≠ none) ∧
      Finishes (alone i) (prisma (.interviewUpdate id (updateData dto))) w (.ok y) w' := by
  unfold update
  constructor
  · intro h
    obtain ⟨x, w₁, hfind, hfound⟩ := finishes_bind_returns.mp h
    obtain ⟨hx, rfl⟩ := findInterview_returns.mp hfind
    obtain ⟨⟨⟩, w₂, hdate, hdated⟩ := finishes_bind_returns.mp hfound
    obtain ⟨rfl, hahead⟩ := (verifyNewDate_returns _).mp hdate
    obtain ⟨⟨⟩, w₃, hinterviewer, hwrite⟩ := finishes_bind_returns.mp hdated
    obtain ⟨rfl, hlive⟩ := (verifyInterviewer_returns _).mp hinterviewer
    exact ⟨⟨x, hx⟩, hahead, hlive, hwrite⟩
  · rintro ⟨⟨x, hx⟩, hahead, hlive, h⟩
    refine finishes_bind_returns.mpr ⟨x, w, findInterview_returns.mpr ⟨hx, rfl⟩, ?_⟩
    refine finishes_bind_returns.mpr ⟨(), w, (verifyNewDate_returns _).mpr ⟨rfl, hahead⟩, ?_⟩
    exact finishes_bind_returns.mpr
      ⟨(), w, (verifyInterviewer_returns _).mpr ⟨rfl, hlive⟩, h⟩

theorem isNull_eq_false {α : Type} {f : Field α} : f.isNull = false ↔ f ≠ .null := by
  cases f <;> simp [Field.isNull]

theorem isValid_iff (d : InterviewUpdate) : d.isValid = true ↔
    (d.scheduledAt ≠ .null ∧ d.scheduledAt ≠ .value none) ∧
      d.duration ≠ .null ∧ d.type ≠ .null ∧ d.status ≠ .null := by
  simp only [InterviewUpdate.isValid, Bool.and_eq_true, Bool.not_eq_true', isNull_eq_false,
    decide_eq_true_eq, and_assoc]

theorem updateData_isStorable (dto : UpdateInterviewDto) : (updateData dto).isStorable = true ↔
    storable dto.location.value? = true ∧ storable dto.notes.value? = true := by
  have hduration : dto.duration.value?.all (fitsInt ·) = true := by
    cases hd : dto.duration with
    | value d =>
      have hmax := dto.duration_max d hd
      have hfits : fitsInt d = true := decide_eq_true (by unfold INT4_MAX; omega)
      exact hfits
    | _ => rfl
  simp only [InterviewUpdate.isStorable, updateData, hduration, Bool.true_and, Bool.and_eq_true]

theorem hasKey_interviewer {dto : UpdateInterviewDto} {x : Interview} {id : String}
    (hpasses : dto.Passes w.db) (hx : w.db.interviews.find? id = some x) :
    ∀ u ∈ dto.interviewerId.orKeep x.interviewerId, w.db.users.HasKey u := by
  intro u hu
  cases hid : dto.interviewerId with
  | absent =>
    rw [hid] at hu
    exact w.db.interviews_interviewer_id_fkey x (Table.find?_eq_some.mp hx).1 u hu
  | null =>
    rw [hid] at hu
    cases hu
  | value v =>
    rw [hid] at hu
    cases hu
    obtain ⟨user, huser⟩ := Option.ne_none_iff_exists'.mp (hpasses.interviewer u hid)
    have hrow := Table.find?_eq_some.mp (Option.filter_eq_some_iff.mp huser).1
    exact ⟨user, hrow.1, hrow.2⟩

theorem updateInterview_returns {id : String} {dto : UpdateInterviewDto} {x : Interview}
    (hdate : dto.scheduledAt = .null) (hpasses : dto.Passes w.db)
    (hx : w.db.interviews.find? id = some x) :
    ∃ y w', Finishes (alone i) (update id dto) w (.ok y) w' := by
  obtain ⟨a, w', hcall⟩ := exists_answer i (.prisma (.interviewUpdate id (updateData dto)))
    (by simp) w
  obtain ⟨uuid, rows, -, hok, -⟩ := alone_prisma hcall
  have hexists : ∀ y ∈ w.db.interviews.rows, y.id = id →
      ∀ u ∈ ((updateData dto).apply w.now y).interviewerId, w.db.users.HasKey u := by
    intro y hy hid
    exact hasKey_interviewer hpasses (Table.find?_eq_some.mpr ⟨hy, hid⟩)
  have hvalid : (updateData dto).isValid = true := by
    refine (isValid_iff _).mpr ⟨?_, hpasses.duration, hpasses.type, hpasses.status⟩
    simp [updateData, hdate, newDate]
  have hstorable : (updateData dto).isStorable = true :=
    (updateData_isStorable dto).mpr hpasses.texts
  have hperf : (PrismaCall.interviewUpdate id (updateData dto)).perform w.now uuid rows w.db =
      (.ok ((updateData dto).apply w.now x), w.db.modifyInterview id
        ((updateData dto).apply w.now) (fun _ => rfl) (fun _ => rfl) hexists) := by
    simp only [PrismaCall.perform, if_pos hvalid, if_pos hstorable, hx, dif_pos hexists]
  refine ⟨(updateData dto).apply w.now x, w', updateInterview_iff.mpr ⟨⟨x, hx⟩, ?_, ?_, ?_⟩⟩
  · intro t ht
    rw [hdate] at ht
    cases ht
  · intro u hu
    refine hpasses.interviewer u ?_
    obtain ⟨hu, -⟩ := Option.filter_eq_some_iff.mp hu
    cases hid : dto.interviewerId with
    | value v =>
      rw [hid] at hu
      cases hu
      rfl
    | _ =>
      rw [hid] at hu
      cases hu
  · exact finishes_await.mpr ((hok _ _ hperf).1 ▸ hcall)

theorem passes_of_returns {id : String} {dto : UpdateInterviewDto} {y : Interview}
    (h : Finishes (alone i) (update id dto) w (.ok y) w')
    (hvalid : (updateData dto).isValid = true) (hstorable : (updateData dto).isStorable = true) :
    dto.Passes w.db := by
  obtain ⟨-, hduration, htype, hstatus⟩ := (isValid_iff _).mp hvalid
  obtain ⟨-, -, hlive, -⟩ := updateInterview_iff.mp h
  refine ⟨hduration, htype, hstatus, (updateData_isStorable dto).mp hstorable,
    fun u hu => hlive u ?_⟩
  rw [hu]
  exact Option.filter_eq_some_iff.mpr ⟨rfl, by simpa using dto.interviewerId_uuid u hu⟩

theorem updateInterview_date {id : String} {dto : UpdateInterviewDto} {x y : Interview}
    (h : Finishes (alone i) (update id dto) w (.ok y) w')
    (hx : w.db.interviews.find? id = some x) :
    w'.db.interviews.find? id = some y ∧
      ((updateData dto).isValid = true ∧ (updateData dto).isStorable = true) ∧
      y.scheduledAt = ((newDate dto.scheduledAt).orKeepRequired (some x.scheduledAt)).getD
        x.scheduledAt := by
  obtain ⟨-, -, -, hwrite⟩ := updateInterview_iff.mp h
  obtain ⟨uuid, rows, -, hok, herror⟩ := alone_prisma (finishes_await.mp hwrite)
  rcases hperf : (PrismaCall.interviewUpdate id (updateData dto)).perform w.now uuid rows w.db
    with ⟨e | v, db⟩
  · cases (herror e db hperf).1
  · obtain ⟨hv, hdb, -⟩ := hok v db hperf
    cases hv
    obtain ⟨hvalid, x', hx', rfl, hinterviewer, rfl⟩ := PrismaCall.perform_interviewUpdate hperf
    rw [hx] at hx'
    cases hx'
    refine ⟨?_, ⟨hvalid, PrismaCall.perform_storable hperf⟩, rfl⟩
    rw [hdb]
    obtain ⟨hmem, hid⟩ := Table.find?_eq_some.mp hx
    exact Table.find?_eq_some.mpr ⟨Db.mem_modifyInterview.mpr (.inr ⟨x, hmem, hid, rfl⟩), hid⟩

end Checks

/-- Interviews are scheduled ahead, for every new interview and every update of one: exactly if the
update does not say `null` for the date, or is refused for other reasons, or finds the interview at
the epoch. -/
theorem scheduled_ahead_iff {i : ℕ} (w : World) (new : CreateInterviewDto) (id : String)
    (dto : UpdateInterviewDto) :
    ((∀ x w', Finishes (alone i) (InterviewsService.create new) w (.ok x) w' →
        w'.db.interviews.find? x.id = some x ∧ w.now < x.scheduledAt) ∧
      ∀ y w', Finishes (alone i) (InterviewsService.update id dto) w (.ok y) w' →
        KeptOrAhead id w w') ↔
      (dto.scheduledAt = .null → dto.Passes w.db →
        ∀ x ∈ w.db.interviews.find? id, x.scheduledAt = 0) := by
  constructor
  · rintro ⟨-, hupdate⟩ hdate hpasses x hx
    obtain ⟨y, w', h⟩ := updateInterview_returns (i := i) hdate hpasses hx
    obtain ⟨hy, -, hepoch⟩ := updateInterview_date h hx
    rw [hdate] at hepoch
    obtain ⟨y', hy', hkept | hahead⟩ := hupdate y w' h x hx
    · rw [hy] at hy'
      cases hy'
      exact hkept.symm.trans hepoch
    · rw [hy] at hy'
      cases hy'
      rw [hepoch] at hahead
      exact absurd hahead (Nat.not_lt_zero _)
  · intro hcond
    refine ⟨fun x w' h => createInterview_ahead h, fun y w' h x hx => ?_⟩
    obtain ⟨hy, ⟨hvalid, hstorable⟩, hdate⟩ := updateInterview_date h hx
    refine ⟨y, hy, ?_⟩
    cases hgiven : dto.scheduledAt with
    | absent =>
      left
      rw [hdate, hgiven]
      rfl
    | null =>
      left
      rw [hcond hgiven (passes_of_returns h hvalid hstorable) x hx, hdate, hgiven]
      rfl
    | value scheduledAt =>
      right
      cases scheduledAt with
      | none =>
        obtain ⟨⟨-, hinvalid⟩, -⟩ := (isValid_iff _).mp hvalid
        exact absurd (by simp [InterviewsService.updateData, hgiven, InterviewsService.newDate])
          hinvalid
      | some t =>
        obtain ⟨-, hahead, -⟩ := updateInterview_iff.mp h
        rw [hdate, hgiven]
        exact hahead t hgiven

/-! ## An interview in 1970 -/

def upcoming : Interview where
  id := "i-cleo"
  applicationId := "a-cleo"
  scheduledAt := 90000
  interviewerId := some "u-ian"
  createdAt := 0
  updatedAt := 0

/-- A minute later, half a minute before the interview. -/
def beforehand : World :=
  { seeded with
    now := 60000
    db :=
      { seeded.db with
        interviews := ⟨[upcoming], by decide, by decide⟩
        interviews_application_id_fkey := by decide
        interviews_interviewer_id_fkey := by decide } }

/-- An update with `null` for the date returns, and the interview is at the epoch. -/
theorem scheduled_at_epoch : ∃ y w',
    Finishes (alone 0) (InterviewsService.update "i-cleo" { scheduledAt := .null }) beforehand (.ok y)
        w' ∧
      w'.db.interviews.find? "i-cleo" = some y ∧ y.scheduledAt = 0 ∧
      ¬ KeptOrAhead "i-cleo" beforehand w' := by
  have hx : beforehand.db.interviews.find? "i-cleo" = some upcoming := by decide
  have hreturns : ∃ y w', Finishes (alone 0)
      (InterviewsService.update "i-cleo" { scheduledAt := .null }) beforehand (.ok y) w' :=
    updateInterview_returns rfl ⟨nofun, nofun, nofun, ⟨rfl, rfl⟩, nofun⟩ hx
  obtain ⟨y, w', h⟩ := hreturns
  obtain ⟨hy, -, hdate⟩ := updateInterview_date h hx
  refine ⟨y, w', h, hy, hdate, fun hkept => ?_⟩
  obtain ⟨y', hy', hcase⟩ := hkept upcoming hx
  rw [hy] at hy'
  cases hy'
  rw [hdate] at hcase
  exact absurd hcase (by decide)

end TalentFlow
