import TalentFlow.Async.Guarded
import TalentFlow.Gateway.WellFormed

/-!
# Guarantees.Withdrawal

What becomes of an application once it is withdrawn. `remove` and `update` both read the row first
and write it by its id some steps later, so an update that read before a removal can write after it.

* `applications_exec`: everything a call of a request can do to an application.
* `writesLive_along`: as long as no removal is written between an update's read and its write, no
  update writes to a withdrawn row.
* `withdrawal_final`: then withdrawal is final.
* `late_update_revives`: the run in which one does.
-/

namespace TalentFlow

open Data Async

structure Application.SameReview (a a' : Application) : Prop where
  status : a'.status = a.status
  stage : a'.stage = a.stage
  notes : a'.notes = a.notes
  coverLetter : a'.coverLetter = a.coverLetter
  reviewedAt : a'.reviewedAt = a.reviewedAt

theorem Application.SameReview.refl (a : Application) : a.SameReview a := ⟨rfl, rfl, rfl, rfl, rfl⟩

theorem Application.SameReview.trans {a b c : Application} (h : a.SameReview b)
    (h' : b.SameReview c) : a.SameReview c :=
  ⟨h'.status.trans h.status, h'.stage.trans h.stage, h'.notes.trans h.notes,
    h'.coverLetter.trans h.coverLetter, h'.reviewedAt.trans h.reviewedAt⟩

/-- The update gives a field at all. -/
def UpdateApplicationDto.givesField (dto : UpdateApplicationDto) : Bool :=
  dto.stage.isPresent || dto.status.isPresent || dto.notes.isPresent || dto.coverLetter.isPresent

/-- The write of a `remove` request for `id` is among the events. -/
def RemovalIn (requests : ℕ → Request) (id : String) (log : List (ℕ × Event Api)) : Prop :=
  ∃ i userId userRole data v, requests i = .removeApplication id userId userRole ∧
    (i, ⟨.prisma (.applicationUpdate id data), .ok v⟩) ∈ log

/-- If the step is the write of an update request that gives a field, and the application is there,
then no removal of it has been written since the request read it. -/
def NotOvertaken (requests : ℕ → Request) (cfg : Config Api ℕ World Response)
    (l : Label ℕ Choice Move) : Prop :=
  ∀ i ch id data k userId userRole dto, l = .run i ch → ch.fails = false →
    cfg.pool i = .call (.prisma (.applicationUpdate id data)) k →
    requests i = .updateApplication id userId userRole dto → dto.givesField = true →
    cfg.world.db.applications.HasKey id → ∀ before after a,
      cfg.log = before ++ (i, ⟨.prisma (.applicationFindUnique id), .ok (some a)⟩) :: after →
        ¬ RemovalIn requests id after

/-- If the step is such a write, then the application is not withdrawn. -/
def WritesLive (requests : ℕ → Request) (cfg : Config Api ℕ World Response)
    (l : Label ℕ Choice Move) : Prop :=
  ∀ i ch id data k userId userRole dto, l = .run i ch → ch.fails = false →
    cfg.pool i = .call (.prisma (.applicationUpdate id data)) k →
    requests i = .updateApplication id userId userRole dto → dto.givesField = true →
    ∀ a ∈ cfg.world.db.applications.rows, a.id = id → a.deletedAt = none

theorem writes_nothing {dto : UpdateApplicationDto} {data : ApplicationUpdate}
    (hd : dto.Writes data) (hg : dto.givesField = false) : data = {} := by
  obtain ⟨reviewedAt, hr, rfl⟩ := hd
  simp only [UpdateApplicationDto.givesField, Bool.or_eq_false_iff] at hg
  obtain ⟨⟨⟨hstage, hstatus⟩, hnotes⟩, hletter⟩ := hg
  have absent_of : ∀ {α : Type} {f : Field α}, f.isPresent = false → f = .absent := by
    intro α f hf
    cases f <;> first | rfl | cases hf
  obtain rfl | ⟨status, now, hs, -⟩ := hr
  · rw [absent_of hstage, absent_of hstatus, absent_of hnotes, absent_of hletter]
  · rw [hs] at hstatus
    cases hstatus

theorem footprint_applicationUpdate {r : Request} {id : String} {data : ApplicationUpdate}
    (h : r.footprint (.prisma (.applicationUpdate id data))) :
    (∃ userId userRole dto, r = .updateApplication id userId userRole dto ∧ dto.Writes data) ∨
      ∃ userId userRole now, r = .removeApplication id userId userRole ∧
        data = { deletedAt := .value now, status := .value .withdrawn } := by
  cases r with
  | updateApplication id' userId userRole dto =>
    obtain ⟨data', hd, heq⟩ := h
    cases heq
    exact .inl ⟨userId, userRole, dto, rfl, hd⟩
  | removeApplication id' userId userRole =>
    obtain ⟨now, heq⟩ := h
    cases heq
    exact .inr ⟨userId, userRole, now, rfl, rfl⟩
  | _ => simp [Request.footprint] at h

/-! ## Updates read first -/

/-- An application is only written to after it has been read and found not to be withdrawn. -/
def ReadsFirst (h : List (Event Api)) : Call → Prop
  | .prisma (.applicationUpdate id _) => ∃ a : ApplicationWithRelations,
    (⟨.prisma (.applicationFindUnique id), .ok (some a)⟩ : Event Api) ∈ h ∧ a.deletedAt = none
  | _ => True

theorem readsFirst_quiet (c : Call) (hc : c.IsQuiet) (h : List (Event Api)) : ReadsFirst h c := by
  cases c with
  | prisma c => cases c <;> first | exact hc.elim | trivial
  | _ => trivial

/-- What `update` and `remove` begin with makes all their writes come after the read. -/
theorem readsFirst_findOne {α : Type} {id userId userRole : String}
    {f : ApplicationWithRelations → Prog Api α}
    (hcalls : (ApplicationsService.findOne id userId userRole >>= f).Calls
      fun c : Call => c.IsQuiet ∨ ∃ d, c = .prisma (.applicationUpdate id d)) :
    Obeys (recorder ReadsFirst) (fun _ _ => True)
      (ApplicationsService.findOne id userId userRole >>= f) [] := by
  rw [ApplicationsService.findOne, bind_assoc] at hcalls ⊢
  refine obeys_await trivial (fun found _ => ?_) fun _ _ => trivial
  cases hfound : found.filter fun application => application.deletedAt.isNone with
  | none => trivial
  | some a =>
    obtain ⟨rfl, hlive⟩ := Option.filter_eq_some_iff.mp hfound
    rw [← hfound]
    refine obeys_recorder (hcalls.2 (.ok (some a))) fun h' c hmem hc => ?_
    obtain hquiet | ⟨d, rfl⟩ := hc
    · exact readsFirst_quiet c hquiet h'
    · exact ⟨a, hmem _ (by simp [recorder, hfound]), by simpa using hlive⟩

theorem readsFirst (r : Request) : Obeys (recorder ReadsFirst) (fun _ _ => True) r.prog [] := by
  by_cases hwrites : ∃ id data, r.footprint (.prisma (.applicationUpdate id data))
  · obtain ⟨id, data, hfoot⟩ := hwrites
    obtain ⟨userId, userRole, dto, rfl, -⟩ | ⟨userId, userRole, now, rfl, -⟩ :=
      footprint_applicationUpdate hfoot
    · refine obeys_bind (obeys_mono (readsFirst_findOne ?_) fun o h _ => by cases o <;> trivial)
      exact updateApplication_calls (fun c hc => .inl hc) (fun d _ => .inr ⟨d, rfl⟩) userId userRole
    · refine obeys_bind (obeys_mono (readsFirst_findOne ?_) fun o h _ => by cases o <;> trivial)
      exact removeApplication_calls (fun c hc => .inl hc) (fun now => .inr ⟨_, rfl⟩) userId userRole
  · refine obeys_of_allowed (prog_calls r) fun h c hc => ?_
    change ReadsFirst h c
    unfold ReadsFirst
    split
    · obtain hquiet | hfoot := hc
      · exact hquiet.elim
      · exact absurd ⟨_, _, hfoot⟩ hwrites
    · trivial

/-- How an application of the new world relates to the old one: it was there, it is new, or a
request has written to it. -/
inductive ApplicationStep (w : World) (a : Application) : Prop where
  | same (h : a ∈ w.db.applications.rows)
  | created (hid : a.id ∉ w.uuids) (hd : a.deletedAt = none)
  | updated (a₀ : Application) (h : a₀ ∈ w.db.applications.rows) (hid : a.id = a₀.id)
      (hlive : a₀.deletedAt = none) (hd : a.deletedAt = none)
  | touched (a₀ : Application) (h : a₀ ∈ w.db.applications.rows) (hid : a.id = a₀.id)
      (hd : a.deletedAt = a₀.deletedAt) (hs : a₀.SameReview a)
  | removed (a₀ : Application) (h : a₀ ∈ w.db.applications.rows) (hid : a.id = a₀.id)
      (hd : a.deletedAt ≠ none) (hs : ({ a₀ with status := .withdrawn } : Application).SameReview a)

section Step

variable {requests : ℕ → Request} {cfg : Config Api ℕ World Response} {i : ℕ} {ch : Choice}
  {c : Call} {k : Api.Answer c → Prog Api Response} {r : Api.Answer c} {w : World}

theorem applications_exec (hfoot : KeepsFootprint requests cfg) (hp : cfg.pool i = .call c k)
    (hx : gateway.exec i c ch cfg.world = some (r, w)) (hlive : WritesLive requests cfg (.run i ch))
    {a : Application} (ha : a ∈ w.db.applications.rows) : ApplicationStep cfg.world a := by
  have hc := footprint_call hfoot hp
  cases c with
  | prisma c =>
    obtain ⟨e, -, rfl⟩ | ⟨v, db, hok, hallow, hperf, -, rfl⟩ := prisma_cases hx
    · exact .same ha
    obtain ha | ⟨d, rfl, rfl⟩ | ⟨d, a₀, rfl, ha₀, rfl⟩ := PrismaCall.mem_applications hperf ha
    · exact .same ha
    · exact .created (hallow.1 rfl).2 rfl
    · obtain hquiet | hfp := hc
      · exact hquiet.elim
      obtain ⟨userId, userRole, dto, hreq, hd⟩ | ⟨userId, userRole, now, hreq, rfl⟩ :=
        footprint_applicationUpdate hfp
      · have hdel : (d.apply cfg.world.now a₀).deletedAt = a₀.deletedAt := by
          obtain ⟨reviewedAt, -, rfl⟩ := hd
          rfl
        cases hg : dto.givesField with
        | true =>
          have hnone := hlive i ch a₀.id d k userId userRole dto rfl hok hp hreq hg a₀ ha₀ rfl
          exact .updated a₀ ha₀ rfl hnone (hdel.trans hnone)
        | false =>
          rw [writes_nothing hd hg]
          exact .touched a₀ ha₀ rfl rfl ⟨rfl, rfl, rfl, rfl, rfl⟩
      · exact .removed a₀ ha₀ rfl (by simp [ApplicationUpdate.apply, Field.orKeep])
          ⟨rfl, rfl, rfl, rfl, rfl⟩
  | _ =>
    rw [(exec_frame hx).db (by simp)] at ha
    exact .same ha

end Step

/-! ## Nobody is overtaken -/

/-- The read of the row by request `i` is in the log, and no removal of the row after it. -/
def ReadSince (requests : ℕ → Request) (cfg : Config Api ℕ World Response) (i : ℕ) (id : String) :
    Prop :=
  ∃ before after, ∃ a : ApplicationWithRelations,
    cfg.log = before ++ (i, ⟨.prisma (.applicationFindUnique id), .ok (some a)⟩) :: after ∧
      a.deletedAt = none ∧ ¬ RemovalIn requests id after

def LiveRow (w : World) (id : String) : Prop :=
  ∀ a ∈ w.db.applications.rows, a.id = id → a.deletedAt = none

/-- What is read first stays live until somebody removes it. -/
structure ReadsLive (requests : ℕ → Request) (cfg : Config Api ℕ World Response) : Prop where
  footprint : KeepsFootprint requests cfg
  obeys : ∀ i, Obeys (recorder ReadsFirst) (fun _ _ => True) (cfg.pool i) (cfg.trace i)
  live : ∀ i id, ReadSince requests cfg i id → LiveRow cfg.world id

section Reads

variable {requests : ℕ → Request} {cfg cfg' : Config Api ℕ World Response}
  {l : Label ℕ Choice Move} {ls : List (Label ℕ Choice Move)}

theorem RemovalIn.mono {id : String} {log log' : List (ℕ × Event Api)}
    (h : RemovalIn requests id log) (hmem : ∀ e ∈ log, e ∈ log') : RemovalIn requests id log' := by
  obtain ⟨i, userId, userRole, data, v, hreq, hlog⟩ := h
  exact ⟨i, userId, userRole, data, v, hreq, hmem _ hlog⟩

section Call

variable {i : ℕ} {ch : Choice} {c : Call} {k : Api.Answer c → Prog Api Response}
  {r : Api.Answer c} {w : World} {id : String}

theorem liveRow_exec (hfoot : KeepsFootprint requests cfg) (hp : cfg.pool i = .call c k)
    (hx : gateway.exec i c ch cfg.world = some (r, w))
    (hremoval : ¬ RemovalIn requests id [(i, ⟨c, r⟩)]) (h : LiveRow cfg.world id) :
    LiveRow w id := by
  intro a ha hid
  cases c with
  | prisma c =>
    obtain ⟨e, -, rfl⟩ | ⟨v, db, -, -, hperf, rfl, rfl⟩ := prisma_cases hx
    · exact h a ha hid
    obtain ha | ⟨d, rfl, rfl⟩ | ⟨d, a₀, rfl, ha₀, rfl⟩ := PrismaCall.mem_applications hperf ha
    · exact h a ha hid
    · rfl
    · obtain rfl : a₀.id = id := hid
      obtain hquiet | hfp := footprint_call hfoot hp
      · exact hquiet.elim
      obtain ⟨userId, userRole, dto, hreq, hd⟩ | ⟨userId, userRole, now, hreq, rfl⟩ :=
        footprint_applicationUpdate hfp
      · obtain ⟨reviewedAt, -, rfl⟩ := hd
        exact h a₀ ha₀ rfl
      · exact absurd ⟨i, userId, userRole, _, v, hreq, List.mem_cons_self⟩ hremoval
  | _ =>
    rw [(exec_frame hx).db (by simp)] at ha
    exact h a ha hid

/-- A row that has just been read and found live is live. -/
theorem liveRow_of_read {w' : World} {a : ApplicationWithRelations} (hlive : a.deletedAt = none)
    (hx : gateway.exec i (.prisma (.applicationFindUnique id)) ch w = some (.ok (some a), w')) :
    LiveRow w' id := by
  obtain ⟨e, he, -⟩ | ⟨v, db, -, -, hperf, hv, rfl⟩ := prisma_cases hx
  · cases he
  obtain rfl : some a = v := Except.ok.inj hv
  obtain ⟨hfound, rfl⟩ := Prod.mk.inj hperf
  obtain ⟨row, hrow, hwith⟩ := Option.bind_eq_some_iff.mp (Except.ok.inj hfound)
  obtain ⟨hmem, hid⟩ := Table.find?_eq_some.mp hrow
  obtain ⟨y, hy, hsame, -⟩ := withRelations_of_mem hmem
  obtain rfl : y = a := Option.some.inj (hy.symm.trans hwith)
  intro row' hrow' hid'
  have hrows : row' = row := w.db.applications.key_inj hrow' hmem (hid'.trans hid.symm)
  rw [hrows, ← hsame]
  exact hlive

theorem readSince_answered {j : ℕ} (h : ReadSince requests (cfg.answered i r k w) j id) :
    (ReadSince requests cfg j id ∧ ¬ RemovalIn requests id [(i, ⟨c, r⟩)]) ∨
      ∃ a : ApplicationWithRelations, a.deletedAt = none ∧
        (⟨c, r⟩ : Event Api) = ⟨.prisma (.applicationFindUnique id), .ok (some a)⟩ := by
  obtain ⟨before, after, a, hlog, hlive, hno⟩ := h
  rw [Config.answered_log] at hlog
  obtain rfl | ⟨after, e, rfl⟩ := after.eq_nil_or_concat'
  · obtain ⟨-, heq⟩ := List.append_inj' hlog rfl
    cases heq
    exact .inr ⟨a, hlive, rfl⟩
  · rw [← List.cons_append, ← List.append_assoc] at hlog
    obtain ⟨hbefore, heq⟩ := List.append_inj' hlog rfl
    cases heq
    refine .inl ⟨⟨before, after, a, hbefore, hlive, fun h => hno (h.mono ?_)⟩, fun h => hno (h.mono ?_)⟩
    · exact fun e he => List.mem_append_left _ he
    · exact fun e he => List.mem_append_right _ he

end Call

theorem readsLive_step (h : ReadsLive requests cfg) (hs : gateway.step l cfg = some cfg') :
    ReadsLive requests cfg' := by
  refine ⟨footprint_step h.footprint hs, recorded_step h.obeys hs, fun j id hread => ?_⟩
  obtain ⟨i, ch, c, k, r, w, rfl, hp, hx, rfl⟩ | ⟨mv, w, rfl, hm, rfl⟩ := Machine.step_cases hs
  · obtain ⟨hbefore, hno⟩ | ⟨a, hlive, heq⟩ := readSince_answered hread
    · exact liveRow_exec h.footprint hp hx hno (h.live j id hbefore)
    · cases heq
      exact liveRow_of_read hlive hx
  · intro a ha hid
    rw [db_of_move hm] at ha
    exact h.live j id hread a ha hid

theorem readsLive_start (w : World) : ReadsLive requests (.start w (Request.pool requests)) where
  footprint := footprint_start requests w
  obeys i := readsFirst (requests i)
  live i id h := by
    obtain ⟨before, after, a, hlog, -⟩ := h
    simp at hlog

theorem writesLive_of_notOvertaken (h : ReadsLive requests cfg) (hturns : NotOvertaken requests cfg l) :
    WritesLive requests cfg l := by
  intro i ch id data k userId userRole dto hl hfails hp hreq hgives a ha hid
  have hobeys := h.obeys i
  rw [hp] at hobeys
  obtain ⟨x, hread, hlive⟩ := hobeys.1
  obtain ⟨before, after, hlog⟩ := List.append_of_mem (Config.mem_trace.mp hread)
  exact h.live i id ⟨before, after, x, hlog, hlive, hturns i ch id data k userId userRole dto hl hfails
    hp hreq hgives ⟨a, ha, hid⟩ before after x hlog⟩ a ha hid

theorem writesLive_along {w : World}
    (h : gateway.Along (NotOvertaken requests) ls (.start w (Request.pool requests))) :
    gateway.Along (WritesLive requests) ls (.start w (Request.pool requests)) :=
  Machine.along_of_invariant (ReadsLive requests) (fun h _ hs => readsLive_step h hs)
    writesLive_of_notOvertaken (readsLive_start w) h

end Reads

/-! ## Runs -/

/-- Whatever is withdrawn has the status for it. -/
def WithdrawnMarked (w : World) : Prop :=
  ∀ a ∈ w.db.applications.rows, a.deletedAt ≠ none → a.status = .withdrawn

/-- The application with the id of `a` is withdrawn, or gone, and its review is that of `a`. -/
structure Settled (a : Application) (w : World) : Prop where
  drawn : a.id ∈ w.uuids
  rows : ∀ a' ∈ w.db.applications.rows, a'.id = a.id → a'.deletedAt ≠ none ∧ a.SameReview a'

structure Closed (id : String) (w : World) : Prop where
  drawn : id ∈ w.uuids
  rows : ∀ a ∈ w.db.applications.rows, a.id = id → a.deletedAt ≠ none

def Removed (requests : ℕ → Request) (cfg : Config Api ℕ World Response) (id : String) : Prop :=
  RemovalIn requests id cfg.log

section Run

variable {requests : ℕ → Request} {cfg cfg' : Config Api ℕ World Response}
  {l : Label ℕ Choice Move} {ls : List (Label ℕ Choice Move)}

theorem applications_step (hfoot : KeepsFootprint requests cfg) (hlive : WritesLive requests cfg l)
    (hs : gateway.step l cfg = some cfg') {a : Application}
    (ha : a ∈ cfg'.world.db.applications.rows) : ApplicationStep cfg.world a := by
  obtain ⟨i, ch, c, k, r, w, rfl, hp, hx, rfl⟩ | ⟨mv, w, rfl, hm, rfl⟩ := Machine.step_cases hs
  · exact applications_exec hfoot hp hx hlive ha
  · exact .same (db_of_move hm ▸ ha)

theorem marked_step (hfoot : KeepsFootprint requests cfg) (hlive : WritesLive requests cfg l)
    (hs : gateway.step l cfg = some cfg') (hm : WithdrawnMarked cfg.world) :
    WithdrawnMarked cfg'.world := by
  intro a ha hd
  cases applications_step hfoot hlive hs ha with
  | same h => exact hm a h hd
  | created _ hnone => exact absurd hnone hd
  | updated a₀ _ _ _ hnone => exact absurd hnone hd
  | touched a₀ h _ hda hsame =>
    rw [hsame.status]
    exact hm a₀ h (hda ▸ hd)
  | removed a₀ _ _ _ hsame => exact hsame.status

theorem settled_step {a : Application} (hfoot : KeepsFootprint requests cfg)
    (hlive : WritesLive requests cfg l) (hs : gateway.step l cfg = some cfg')
    (ha : a.status = .withdrawn) (h : Settled a cfg.world) : Settled a cfg'.world := by
  refine ⟨uuids_step h.drawn hs, fun a' ha' hid => ?_⟩
  cases applications_step hfoot hlive hs ha' with
  | same hmem => exact h.rows a' hmem hid
  | created hfresh _ => exact absurd h.drawn (hid ▸ hfresh)
  | updated a₀ hmem hid₀ hlive₀ _ =>
    exact absurd hlive₀ (h.rows a₀ hmem (hid₀.symm.trans hid)).1
  | touched a₀ hmem hid₀ hd hsame =>
    obtain ⟨hd₀, hsame₀⟩ := h.rows a₀ hmem (hid₀.symm.trans hid)
    exact ⟨hd ▸ hd₀, hsame₀.trans hsame⟩
  | removed a₀ hmem hid₀ hd hsame =>
    -- a second removal writes the status that is already there
    obtain ⟨-, hsame₀⟩ := h.rows a₀ hmem (hid₀.symm.trans hid)
    have hagain : a.SameReview { a₀ with status := .withdrawn } :=
      ⟨ha.symm, hsame₀.stage, hsame₀.notes, hsame₀.coverLetter, hsame₀.reviewedAt⟩
    exact ⟨hd, hagain.trans hsame⟩

theorem closed_step {id : String} (hfoot : KeepsFootprint requests cfg)
    (hlive : WritesLive requests cfg l) (hs : gateway.step l cfg = some cfg')
    (h : Closed id cfg.world) : Closed id cfg'.world := by
  refine ⟨uuids_step h.drawn hs, fun a ha hid => ?_⟩
  cases applications_step hfoot hlive hs ha with
  | same hmem => exact h.rows a hmem hid
  | created hfresh _ => exact absurd h.drawn (hid ▸ hfresh)
  | updated a₀ hmem hid₀ hlive₀ _ => exact absurd hlive₀ (h.rows a₀ hmem (hid₀.symm.trans hid))
  | touched a₀ hmem hid₀ hd _ => exact hd ▸ h.rows a₀ hmem (hid₀.symm.trans hid)
  | removed a₀ _ _ hd _ => exact hd

/-- A removal that is carried out closes the application. -/
theorem removal_closes {i : ℕ} {ch : Choice} {id userId userRole : String}
    {data : ApplicationUpdate} {v : Application} {w w' : World} (hw : w.Wf)
    (hfoot : (Request.removeApplication id userId userRole).footprint
      (.prisma (.applicationUpdate id data)))
    (hx : gateway.exec i (.prisma (.applicationUpdate id data)) ch w = some (.ok v, w')) :
    Closed id w' := by
  obtain ⟨now, heq⟩ := hfoot
  cases heq
  obtain ⟨e, he, -⟩ | ⟨v', db, -, -, hperf, -, rfl⟩ := prisma_cases hx
  · cases he
  obtain ⟨a₀, hfind, -, -, rfl⟩ := PrismaCall.perform_applicationUpdate hperf
  obtain ⟨ha₀, rfl⟩ := Table.find?_eq_some.mp hfind
  refine ⟨uuids_exec hx (hw.applications a₀ ha₀), fun a ha hid => ?_⟩
  obtain ⟨-, hne⟩ | ⟨a₁, -, -, rfl⟩ := Db.mem_modifyApplication.mp ha
  · exact absurd hid hne
  · simp [ApplicationUpdate.apply, Field.orKeep]

theorem removed_closed_step (hw : cfg.world.Wf) (hfoot : KeepsFootprint requests cfg)
    (hlive : WritesLive requests cfg l) (hs : gateway.step l cfg = some cfg')
    (h : ∀ id, Removed requests cfg id → Closed id cfg.world) :
    ∀ id, Removed requests cfg' id → Closed id cfg'.world := by
  rintro id ⟨j, userId, userRole, data, v, hreq, hlog⟩
  have hold : ∀ id, Removed requests cfg id → Closed id cfg'.world :=
    fun id hr => closed_step hfoot hlive hs (h id hr)
  obtain ⟨i, ch, c, k, r, w, rfl, hp, hx, rfl⟩ | ⟨mv, w, rfl, hm, rfl⟩ := Machine.step_cases hs
  · rw [Config.answered_log, List.mem_append, List.mem_singleton] at hlog
    obtain hlog | heq := hlog
    · exact hold id ⟨j, userId, userRole, data, v, hreq, hlog⟩
    · cases heq
      obtain hquiet | hfp := footprint_call hfoot hp
      · exact hquiet.elim
      rw [hreq] at hfp
      exact removal_closes hw hfp hx
  · exact hold id ⟨j, userId, userRole, data, v, hreq, hlog⟩

/-- What holds of the world in every state of a run whose updates write to live applications. -/
structure WithdrawalInv (requests : ℕ → Request) (cfg : Config Api ℕ World Response) : Prop where
  wf : cfg.world.Wf
  footprint : KeepsFootprint requests cfg
  marked : WithdrawnMarked cfg.world
  removed : ∀ id, Removed requests cfg id → Closed id cfg.world

theorem withdrawalInv_start {w : World} (hw : w.Wf) (hm : WithdrawnMarked w) :
    WithdrawalInv requests (.start w (Request.pool requests)) := by
  refine ⟨hw, footprint_start requests w, hm, ?_⟩
  rintro id ⟨i, userId, userRole, data, v, -, hlog⟩
  cases hlog

theorem withdrawalInv_run (h : WithdrawalInv requests cfg)
    (hlive : gateway.Along (WritesLive requests) ls cfg) (hrun : gateway.run ls cfg = some cfg') :
    WithdrawalInv requests cfg' := by
  refine Machine.run_induction_along (WithdrawalInv requests) (fun hI hl hs => ?_) h hlive hrun
  exact ⟨wf_step hI.wf hs, footprint_step hI.footprint hs, marked_step hI.footprint hl hs hI.marked,
    removed_closed_step hI.wf hI.footprint hl hs hI.removed⟩

theorem settled_run {a : Application} (h : WithdrawalInv requests cfg)
    (hlive : gateway.Along (WritesLive requests) ls cfg) (hrun : gateway.run ls cfg = some cfg')
    (ha : a.status = .withdrawn) (hset : Settled a cfg.world) : Settled a cfg'.world := by
  have hinv := Machine.run_induction_along
    (fun cfg => KeepsFootprint requests cfg ∧ Settled a cfg.world)
    (fun {cfg l cfg'} hI hl hs =>
      ⟨footprint_step hI.1 hs, settled_step hI.1 hl hs ha hI.2⟩) ⟨h.footprint, hset⟩ hlive hrun
  exact hinv.2

/-- As long as no removal is written between an update's read and its write, whatever is withdrawn is
marked so, and once the write of a `remove` has been carried out the review of its application never
changes. -/
theorem withdrawal_final {w : World} {ls' : List (Label ℕ Choice Move)} (hw : w.Wf)
    (hm : WithdrawnMarked w)
    (hrun : gateway.run ls (.start w (Request.pool requests)) = some cfg)
    (hrun' : gateway.run ls' cfg = some cfg')
    (hturns : gateway.Along (NotOvertaken requests) (ls ++ ls')
      (.start w (Request.pool requests))) :
    WithdrawnMarked cfg'.world ∧
      ∀ id, Removed requests cfg id → ∀ a ∈ cfg.world.db.applications.rows, a.id = id →
        ∀ a' ∈ cfg'.world.db.applications.rows, a'.id = id → a.SameReview a' := by
  obtain ⟨hlive₁, hlive₂⟩ := Machine.along_append (writesLive_along hturns) hrun
  have hinv := withdrawalInv_run (withdrawalInv_start hw hm) hlive₁ hrun
  refine ⟨(withdrawalInv_run hinv hlive₂ hrun').marked, ?_⟩
  rintro id hremoved a ha rfl a' ha' hid
  have hclosed := hinv.removed a.id hremoved
  have hset : Settled a cfg.world := by
    refine ⟨hclosed.drawn, fun b hb hbid => ?_⟩
    have hba : b = a := cfg.world.db.applications.key_inj hb ha hbid
    rw [hba]
    exact ⟨hclosed.rows a ha rfl, .refl a⟩
  have hstatus := hinv.marked a ha (hclosed.rows a ha rfl)
  exact ((settled_run hinv hlive₂ hrun' hstatus hset).rows a' ha' hid).2

end Run

/-! ## The run in which an update comes too late -/

/-- Ray reviews the application, Ada withdraws it, and Ray has something to add. -/
def reviewAndRemove : ℕ → Request
  | 0 => .updateApplication "a-cleo" "u-ray" "RECRUITER" { status := .value .reviewing }
  | 1 => .removeApplication "a-cleo" "u-ada" "ADMIN"
  | _ => .updateApplication "a-cleo" "u-ray" "RECRUITER" { notes := .value "Call her back" }

def removal : List (Label ℕ Choice Move) := List.replicate 7 (.run 1 {})

/-- The review reads the application, then the removal runs. -/
def removalDuringReview : List (Label ℕ Choice Move) := List.replicate 6 (.run 0 {}) ++ removal

/-- The removal waits until the review has been written. -/
def removalAfterReview : List (Label ℕ Choice Move) := List.replicate 7 (.run 0 {}) ++ removal

/-- Since the request has begun, no other has taken a step. -/
def Uninterrupted (cfg : Config Api ℕ World Response) : Label ℕ Choice Move → Prop
  | .run i _ => ∀ e ∈ cfg.log.dropWhile (fun e => e.1 ≠ i), e.1 = i
  | .move _ => True

instance (cfg : Config Api ℕ World Response) : ∀ l, Decidable (Uninterrupted cfg l)
  | .run i _ => inferInstanceAs (Decidable (∀ e ∈ cfg.log.dropWhile (fun e => e.1 ≠ i), e.1 = i))
  | .move _ => .isTrue trivial

theorem mem_dropWhile {α : Type} {p : α → Bool} {x y : α} (hx : p x = false)
    (before : List α) {after : List α} (hy : y ∈ after) :
    y ∈ (before ++ x :: after).dropWhile p := by
  induction before with
  | nil => simp [hx, hy]
  | cons b before ih =>
    rw [List.cons_append, List.dropWhile_cons]
    split
    · exact ih
    · simp [hy]

theorem notOvertaken_of_uninterrupted {requests : ℕ → Request} {cfg : Config Api ℕ World Response}
    {l : Label ℕ Choice Move} (h : Uninterrupted cfg l) : NotOvertaken requests cfg l := by
  rintro i ch id data k userId userRole dto rfl - - hreq - - before after a hlog
    ⟨j, userId', userRole', data', v, hreq', hremoval⟩
  have hj : j = i := h _ (by rw [hlog]; exact mem_dropWhile (by simp) before hremoval)
  rw [hj, hreq] at hreq'
  cases hreq'

def written? : Event Api → Option String
  | ⟨.prisma (.applicationUpdate id _), .ok _⟩ => some id
  | _ => none

theorem removed_of_written {requests : ℕ → Request} {cfg : Config Api ℕ World Response} {i : ℕ}
    {id userId userRole : String} (hreq : requests i = .removeApplication id userId userRole)
    (h : ∃ e ∈ cfg.log, e.1 = i ∧ written? e.2 = some id) : Removed requests cfg id := by
  obtain ⟨⟨j, e⟩, he, rfl, hwritten⟩ := h
  dsimp only at hwritten
  unfold written? at hwritten
  split at hwritten
  · cases hwritten
    exact ⟨j, userId, userRole, _, _, hreq, he⟩
  · cases hwritten

/-- The review is written, the application withdrawn, and what Ray adds is refused: nothing changes
any more. -/
theorem withdrawal_final_removal :
    ∃ cfg cfg', gateway.run removalAfterReview (.start seeded (Request.pool reviewAndRemove)) =
        some cfg ∧
      gateway.run [.run 2 {}, .move (.tick 1000)] cfg = some cfg' ∧
      (List.range 3).map (fun i => (cfg'.outcome? i).map statusOf) = [some 200, some 200, some 404] ∧
      WithdrawnMarked cfg'.world ∧
      ∃ a ∈ cfg.world.db.applications.rows, a.id = "a-cleo" ∧ a.deletedAt ≠ none ∧
        ∀ a' ∈ cfg'.world.db.applications.rows, a'.id = "a-cleo" → a.SameReview a' := by
  have h : ((gateway.run removalAfterReview (.start seeded (Request.pool reviewAndRemove))).bind
      fun cfg => (gateway.run [.run 2 {}, .move (.tick 1000)] cfg).map fun cfg' =>
        ((List.range 3).map fun i => (cfg'.outcome? i).map statusOf,
          decide (∃ e ∈ cfg.log, e.1 = 1 ∧ written? e.2 = some "a-cleo"),
          decide (∃ a ∈ cfg.world.db.applications.rows, a.id = "a-cleo" ∧ a.deletedAt ≠ none))) =
      some ([some 200, some 200, some 404], true, true) := by decide +kernel
  obtain ⟨cfg, hrun, h⟩ := Option.bind_eq_some_iff.mp h
  obtain ⟨cfg', hrun', h⟩ := Option.map_eq_some_iff.mp h
  obtain ⟨hstatus, h⟩ := Prod.mk.inj h
  obtain ⟨hwritten, hgone⟩ := Prod.mk.inj h
  obtain ⟨a, ha, hid, hdeleted⟩ := of_decide_eq_true hgone
  have hmarked : WithdrawnMarked seeded := by
    show ∀ a ∈ [cleosApplication], a.deletedAt ≠ none → a.status = .withdrawn
    decide
  have hturns : gateway.Along Uninterrupted (removalAfterReview ++ [.run 2 {}, .move (.tick 1000)])
      (.start seeded (Request.pool reviewAndRemove)) := by decide +kernel
  obtain ⟨hmarked', hsame⟩ := withdrawal_final seeded_wf hmarked hrun hrun'
    (Machine.along_mono hturns fun _ _ => notOvertaken_of_uninterrupted)
  have hremoved : Removed reviewAndRemove cfg "a-cleo" :=
    removed_of_written (show reviewAndRemove 1 = _ from rfl) (of_decide_eq_true hwritten)
  exact ⟨cfg, cfg', hrun, hrun', hstatus, hmarked', a, ha, hid, hdeleted,
    hsame "a-cleo" hremoved a ha hid⟩

/-- After the removal has run the application is withdrawn; the step after it, the write of the
review, makes it one under review, still with the time of its removal. -/
theorem late_update_revives :
    (gateway.run removalDuringReview (.start seeded (Request.pool reviewAndRemove))).map
        (fun cfg => cfg.world.db.applications.rows.map fun a => (a.id, a.status, a.deletedAt)) =
      some [("a-cleo", .withdrawn, some 0)] ∧
    (gateway.run (removalDuringReview ++ [.run 0 {}])
        (.start seeded (Request.pool reviewAndRemove))).map
        (fun cfg => cfg.world.db.applications.rows.map fun a => (a.id, a.status, a.deletedAt)) =
      some [("a-cleo", .reviewing, some 0)] := by
  decide +kernel

end TalentFlow
