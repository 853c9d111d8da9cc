import TalentFlow.Guarantees.Withdrawal

/-!
# Guarantees.Reviewing

The review time of an application. `update` stamps it when the status it writes differs from the one
it has read, which may be out of date by the time of the write. That does no harm: a status other
than `SUBMITTED` was read off a row that had its review time, and a review time is never cleared.

* `update_reviews`: what `update` writes, after what it has read.
* `reviewInv_call`: the reads that are still under way are part of the invariant.
* `reviewed_with_time`: live applications that have left `SUBMITTED` have a review time, in every
  state of every run, and none loses it.
-/

namespace TalentFlow

open Data Async

/-- A live application that has been reviewed says when. -/
def Application.IsTimed (a : Application) : Prop :=
  a.deletedAt = none → a.status ≠ .submitted → a.reviewedAt ≠ none

instance (a : Application) : Decidable a.IsTimed := inferInstanceAs (Decidable (_ → _ → _))

def World.Reviewed (w : World) : Prop := ∀ a ∈ w.db.applications.rows, a.IsTimed

instance (w : World) : Decidable w.Reviewed :=
  inferInstanceAs (Decidable (∀ a ∈ w.db.applications.rows, _))

structure Timed (id : String) (w : World) : Prop where
  drawn : id ∈ w.uuids
  rows : ∀ a ∈ w.db.applications.rows, a.id = id → a.reviewedAt ≠ none

/-! ## Programs -/

def lastRead : Option Application → Event Api → Option Application
  | _, ⟨.prisma (.applicationFindUnique _), .ok (some a)⟩ => some a.toApplication
  | s, _ => s

/-- A status goes with a review time, unless it is that of the live row that was read. -/
def StatusTimed (s : Option Application) (id : String) (d : ApplicationUpdate) : Prop :=
  ∀ status, d.status = .value status → (∃ now, d.reviewedAt = .value now) ∨
    ∃ a ∈ s, a.id = id ∧ a.deletedAt = none ∧ a.status = status

/-- What a request may write to an application, after what it has read. -/
structure ReviewAllows (s : Option Application) (id : String) (d : ApplicationUpdate) : Prop where
  reviewedAt : d.reviewedAt ≠ .null
  deletedAt : d.deletedAt ≠ .null
  status : (∃ now, d.deletedAt = .value now) ∨ StatusTimed s id d

def FindsId : (c : Call) → Api.Answer c → Prop
  | .prisma (.applicationFindUnique id), .ok (some a) => a.id = id
  | _, _ => True

def reviewMonitor : Monitor Api (Option Application) where
  next := lastRead
  call s
    | .prisma (.applicationUpdate id d) => ReviewAllows s id d
    | _ => True
  answer _ := FindsId

section Programs

variable {s : Option Application} {id userId : String}

theorem findCandidateOfUser_reviews {β : Type} {f : Option Candidate → Prog Api β}
    (hf : ∀ candidate, Obeys reviewMonitor (fun _ _ => True) (f candidate) s) :
    Obeys reviewMonitor (fun _ _ => True) (ApplicationsService.findCandidateOfUser userId >>= f)
      s := by
  refine obeys_bind (obeys_await trivial (fun user _ => ?_) fun _ _ => trivial)
  cases user with
  | none => exact hf none
  | some user =>
    refine obeys_await_last trivial fun answer _ => ?_
    cases answer with
    | ok candidate => exact hf candidate
    | error e => trivial

/-- After `findOne`, the row it returns is the one that was read last. -/
theorem findOne_reviews {userRole : String} {β : Type} {f : ApplicationWithRelations → Prog Api β}
    (hf : ∀ a : ApplicationWithRelations, a.id = id → a.deletedAt = none →
      Obeys reviewMonitor (fun _ _ => True) (f a) (some a.toApplication)) :
    Obeys reviewMonitor (fun _ _ => True) (ApplicationsService.findOne id userId userRole >>= f)
      s := by
  unfold ApplicationsService.findOne
  rw [bind_assoc]
  refine obeys_await trivial (fun found hfound => ?_) fun _ _ => trivial
  cases found with
  | none => trivial
  | some a =>
    by_cases hlive : a.deletedAt = none
    · simp only [Option.filter, hlive, Option.isNone_none, if_true]
      rw [bind_assoc]
      refine findCandidateOfUser_reviews fun candidate => ?_
      split
      · trivial
      · exact hf a hfound hlive
    · have hfilter :
          Option.filter (fun a : ApplicationWithRelations => a.deletedAt.isNone) (some a) = none := by
        simp [Option.filter, hlive]
      simp only [hfilter]
      trivial

theorem update_reviews (userRole : String) (dto : UpdateApplicationDto) :
    Obeys reviewMonitor (fun _ _ => True) (ApplicationsService.update id userId userRole dto) s := by
  refine findOne_reviews fun a hid hlive => ?_
  refine findCandidateOfUser_reviews fun candidate => ?_
  dsimp only
  split
  · trivial
  split
  · trivial
  unfold ApplicationsService.updateData
  cases hs : dto.status with
  | absent => exact obeys_await_last ⟨by simp, by simp, .inr (by simp [StatusTimed])⟩ fun _ _ => trivial
  | null => exact obeys_await_last ⟨by simp, by simp, .inr (by simp [StatusTimed])⟩ fun _ _ => trivial
  | value status =>
    dsimp only
    split
    · rw [bind_assoc]
      refine obeys_await trivial (fun now _ => ?_) fun _ _ => trivial
      refine obeys_await_last ⟨by simp, by simp, .inr ?_⟩ fun _ _ => trivial
      exact fun _ _ => .inl ⟨now, rfl⟩
    · -- the status is the one that was read
      rename_i hsame
      refine obeys_await_last ⟨by simp, by simp, .inr ?_⟩ fun _ _ => trivial
      intro status' hstatus'
      cases hstatus'
      exact .inr ⟨a.toApplication, rfl, hid, hlive, not_not.mp hsame⟩

/-- Every request writes a status with its review time, or one that it has read. -/
theorem request_reviews (r : Request) : Obeys reviewMonitor (fun _ _ => True) r.prog none := by
  have hplain : (∀ id userId userRole dto, r ≠ .updateApplication id userId userRole dto) →
      Obeys reviewMonitor (fun _ _ => True) r.prog none := by
    intro hne
    refine obeys_of_allowed (prog_calls r) fun s c hc => ?_
    cases c with
    | prisma c =>
      cases c with
      | applicationUpdate id d =>
        obtain hquiet | hfoot := hc
        · exact hquiet.elim
        obtain ⟨userId, userRole, dto, rfl, -⟩ | ⟨userId, userRole, now, rfl, rfl⟩ :=
          footprint_applicationUpdate hfoot
        · exact absurd rfl (hne id userId userRole dto)
        · exact ⟨by simp, by simp, .inl ⟨now, rfl⟩⟩
      | _ => trivial
    | _ => trivial
  cases r with
  | updateApplication id userId userRole dto =>
    refine obeys_bind (obeys_mono (update_reviews userRole dto) fun o s _ => ?_)
    cases o <;> trivial
  | _ => exact hplain (by simp)

end Programs

/-! ## Steps -/

section Step

variable {i : ℕ} {ch : Choice} {w w' : World} {c : Call} {a : Api.Answer c}
  {s : Option Application}

theorem found_exec {id : String} {x : ApplicationWithRelations}
    (h : gateway.exec i (.prisma (.applicationFindUnique id)) ch w = some (.ok (some x), w')) :
    x.toApplication ∈ w'.db.applications.rows ∧ x.id = id := by
  obtain ⟨rfl, ⟨e, he⟩ | ⟨v, hv, hperf⟩⟩ := read_cases (c := .applicationFindUnique id) trivial h
  · cases he
  cases hv
  have hfound : (w'.db.applications.find? id).bind w'.db.withRelations = some x :=
    Except.ok.inj (congrArg Prod.fst hperf)
  obtain ⟨y, hy, hx⟩ := Option.bind_eq_some_iff.mp hfound
  unfold Db.withRelations at hx
  split at hx
  · cases hx
    exact Table.find?_eq_some.mp hy
  · cases hx

theorem findsId_exec (h : gateway.exec i c ch w = some (a, w')) : FindsId c a := by
  unfold FindsId
  split
  · exact (found_exec h).2
  · trivial

theorem lastRead_exec (h : gateway.exec i c ch w = some (a, w')) {x : Application}
    (hx : x ∈ lastRead s ⟨c, a⟩) : x ∈ s ∨ x ∈ w'.db.applications.rows := by
  unfold lastRead at hx
  split at hx
  · rename_i id y heq
    cases heq
    cases hx
    exact .inr (found_exec h).1
  · exact .inl hx

/-- Where an application of the new world comes from, when the call is one the monitor allows. -/
theorem review_exec (hcall : reviewMonitor.call s c) (h : gateway.exec i c ch w = some (a, w'))
    {x : Application} (hx : x ∈ w'.db.applications.rows) :
    x ∈ w.db.applications.rows ∨ (x.id ∉ w.uuids ∧ x.status = .submitted) ∨
      ∃ d x₀, x₀ ∈ w.db.applications.rows ∧ x = d.apply w.now x₀ ∧ ReviewAllows s x₀.id d := by
  cases c with
  | prisma c =>
    obtain ⟨e, -, rfl⟩ | ⟨v, db, -, hallow, hp, -, rfl⟩ := prisma_cases h
    · exact .inl hx
    obtain hold | ⟨d, rfl, rfl⟩ | ⟨d, x₀, rfl, hold, rfl⟩ := PrismaCall.mem_applications hp hx
    · exact .inl hold
    · exact .inr (.inl ⟨(hallow.1 rfl).2, rfl⟩)
    · exact .inr (.inr ⟨d, x₀, hold, rfl, hcall⟩)
  | _ =>
    rw [(exec_frame h).db (by simp)] at hx
    exact .inl hx

theorem ApplicationUpdate.reviewedAt_kept {d : ApplicationUpdate} (hd : d.reviewedAt ≠ .null)
    {x : Application} (hx : x.reviewedAt ≠ none) (now : Time) :
    (d.apply now x).reviewedAt ≠ none := Field.orKeep_ne_none hd hx

theorem timed_exec {id : String} (hcall : reviewMonitor.call s c)
    (h : gateway.exec i c ch w = some (a, w')) (ht : Timed id w) : Timed id w' := by
  refine ⟨uuids_exec h ht.drawn, fun x hx hid => ?_⟩
  obtain hold | ⟨hnew, -⟩ | ⟨d, x₀, hold, rfl, hd⟩ := review_exec hcall h hx
  · exact ht.rows x hold hid
  · exact absurd (hid ▸ ht.drawn) hnew
  · exact ApplicationUpdate.reviewedAt_kept hd.reviewedAt (ht.rows x₀ hold hid) _

end Step

/-- Reviewed applications have their times, also those whose rows somebody has read and not yet
written back. -/
structure ReviewInv (w : World) (st : ℕ → Option Application) : Prop where
  wf : w.Wf
  reviewed : w.Reviewed
  read : ∀ k, ∀ a ∈ st k, a.deletedAt = none → a.status ≠ .submitted → Timed a.id w

section Call

variable {i : ℕ} {ch : Choice} {w w' : World} {c : Call} {a : Api.Answer c}
  {st : ℕ → Option Application}

theorem isTimed_written (hinv : ReviewInv w st) {x : Application}
    (hx : x ∈ w.db.applications.rows) {d : ApplicationUpdate} (hd : ReviewAllows (st i) x.id d)
    (now : Time) : (d.apply now x).IsTimed := by
  intro hlive hstatus
  obtain ⟨t, ht⟩ | htimed := hd.status
  · simp [ApplicationUpdate.apply, ht, Field.orKeep] at hlive
  have hold : x.deletedAt = none := Field.eq_none_of_orKeep hd.deletedAt hlive
  have hsame : x.status ≠ .submitted → (d.apply now x).reviewedAt ≠ none := fun hs =>
    ApplicationUpdate.reviewedAt_kept hd.reviewedAt (hinv.reviewed x hx hold hs) now
  simp only [ApplicationUpdate.apply] at hstatus
  obtain hkept | hs := Field.orKeepRequired_cases d.status x.status
  · exact hsame (hkept ▸ hstatus)
  · obtain ⟨t, ht⟩ | ⟨b, hb, hid, hblive, hbs⟩ := htimed _ hs
    · simp [ApplicationUpdate.apply, ht, Field.orKeep]
    · have hb : Timed b.id w := hinv.read i b hb hblive (hbs ▸ hstatus)
      exact ApplicationUpdate.reviewedAt_kept hd.reviewedAt (hb.rows x hx hid.symm) now

theorem reviewInv_call (hinv : ReviewInv w st) (hcall : reviewMonitor.call (st i) c)
    (h : gateway.exec i c ch w = some (a, w')) :
    ReviewInv w' (Function.update st i (lastRead (st i) ⟨c, a⟩)) := by
  have hwf : w'.Wf := wf_exec h hinv.wf
  have hreviewed : w'.Reviewed := by
    intro x hx
    obtain hold | ⟨-, hnew⟩ | ⟨d, x₀, hold, rfl, hd⟩ := review_exec hcall h hx
    · exact hinv.reviewed x hold
    · exact fun _ hs => absurd hnew hs
    · exact isTimed_written hinv hold hd _
  refine ⟨hwf, hreviewed, fun k x hx hlive hs => ?_⟩
  have hbefore : ∀ k, x ∈ st k → Timed x.id w' := fun k hk =>
    timed_exec hcall h (hinv.read k x hk hlive hs)
  by_cases hk : k = i
  · subst hk
    rw [Function.update_self] at hx
    obtain hx | hrow := lastRead_exec h hx
    · exact hbefore k hx
    · refine ⟨hwf.applications x hrow, fun y hy hid => ?_⟩
      rw [w'.db.applications.key_inj hy hrow hid]
      exact hreviewed x hrow hlive hs
  · rw [Function.update_of_ne hk] at hx
    exact hbefore k hx

theorem reviewInv_move {mv : Move} (hinv : ReviewInv w st) (h : gateway.move mv w = some w') :
    ReviewInv w' st := by
  have hwf := wf_move h hinv.wf
  obtain ⟨elapsed, -, rfl⟩ | ⟨channel, broker, rfl⟩ := move_cases h
  · exact ⟨hwf, hinv.reviewed, fun k a ha hl hs => ⟨(hinv.read k a ha hl hs).drawn,
      (hinv.read k a ha hl hs).rows⟩⟩
  · exact ⟨hwf, hinv.reviewed, fun k a ha hl hs => ⟨(hinv.read k a ha hl hs).drawn,
      (hinv.read k a ha hl hs).rows⟩⟩

end Call

/-! ## Runs -/

section Run

variable {requests : ℕ → Request} {w : World} {ls ls' : List (Label ℕ Choice Move)}
  {cfg cfg' : Config Api ℕ World Response}

def readBy (cfg : Config Api ℕ World Response) : ℕ → Option Application :=
  stage (fun _ => reviewMonitor) (fun _ => none) cfg

/-- Requests do what the monitor says, and what it says keeps the review times. -/
structure ReviewingInv (cfg : Config Api ℕ World Response) : Prop where
  obeys : AllObey (fun _ => reviewMonitor) (fun _ => none) (fun _ _ _ => True) cfg
  review : ReviewInv cfg.world (readBy cfg)

theorem reviewingInv_run (h : ReviewingInv cfg) (hrun : gateway.run ls cfg = some cfg') :
    ReviewingInv cfg' := by
  obtain ⟨hobey, hinv⟩ := run_invariant_along (m := fun _ : ℕ => reviewMonitor) ReviewInv
    (fun _ hinv _ _ hcall hx => ⟨findsId_exec hx, reviewInv_call hinv hcall hx⟩)
    (fun hinv hm => reviewInv_move hinv hm) h.obeys h.review (Machine.along_true ls cfg) hrun
  exact ⟨hobey, hinv⟩

theorem timed_run (h : ReviewingInv cfg) {id : String} (ht : Timed id cfg.world)
    (hrun : gateway.run ls cfg = some cfg') : Timed id cfg'.world := by
  obtain ⟨-, hinv⟩ := run_invariant_along (m := fun _ : ℕ => reviewMonitor)
    (fun w _ => Timed id w)
    (fun _ hinv _ _ hcall hx => ⟨findsId_exec hx, timed_exec hcall hx hinv⟩)
    (fun {mv w w' _} hinv hm => by
      obtain ⟨elapsed, -, rfl⟩ | ⟨channel, broker, rfl⟩ := move_cases hm
      · exact ⟨hinv.drawn, hinv.rows⟩
      · exact ⟨hinv.drawn, hinv.rows⟩) h.obeys ht (Machine.along_true ls cfg) hrun
  exact hinv

theorem reviewingInv_start (hw : w.Wf) (hr : w.Reviewed) :
    ReviewingInv (.start w (Request.pool requests)) :=
  ⟨fun i => request_reviews (requests i), hw, hr, fun k a ha => (by cases ha)⟩

/-- Whatever requests run, and however they interleave: every live application whose status is not
`SUBMITTED` has a review time, and an application that has one has one for ever. -/
theorem reviewed_with_time (hw : w.Wf) (hr : w.Reviewed)
    (hrun : gateway.run ls (.start w (Request.pool requests)) = some cfg)
    (hrun' : gateway.run ls' cfg = some cfg') :
    cfg.world.Reviewed ∧ ∀ a ∈ cfg.world.db.applications.rows, a.reviewedAt ≠ none →
      ∀ a' ∈ cfg'.world.db.applications.rows, a'.id = a.id → a'.reviewedAt ≠ none := by
  have hinv : ReviewingInv cfg := reviewingInv_run (reviewingInv_start hw hr) hrun
  refine ⟨hinv.review.reviewed, fun a ha ht a' ha' hid => ?_⟩
  have htimed : Timed a.id cfg.world := by
    refine ⟨hinv.review.wf.applications a ha, fun x hx hxid => ?_⟩
    rwa [cfg.world.db.applications.key_inj hx ha hxid]
  exact (timed_run hinv htimed hrun').rows a' ha' hid

end Run

def review : List (Label ℕ Choice Move) := List.replicate 7 (.run 0 {})

theorem reviewed_with_time_ray :
    ∃ cfg cfg', gateway.run review (.start seeded (Request.pool reviewAndRemove)) = some cfg ∧
      gateway.run removal cfg = some cfg' ∧ cfg.world.Reviewed ∧
      ∃ a ∈ cfg.world.db.applications.rows, a.status = .reviewing ∧ a.reviewedAt ≠ none ∧
        ∀ a' ∈ cfg'.world.db.applications.rows, a'.id = a.id → a'.reviewedAt ≠ none := by
  have h : ((gateway.run review (.start seeded (Request.pool reviewAndRemove))).bind fun cfg =>
      (gateway.run removal cfg).map fun _ => decide (∃ a ∈ cfg.world.db.applications.rows,
        a.status = .reviewing ∧ a.reviewedAt ≠ none)) = some true := by decide +kernel
  obtain ⟨cfg, hrun, h⟩ := Option.bind_eq_some_iff.mp h
  obtain ⟨cfg', hrun', h⟩ := Option.map_eq_some_iff.mp h
  obtain ⟨a, ha, hstatus, htime⟩ := of_decide_eq_true h
  have hseeded : seeded.Reviewed := by decide
  obtain ⟨hreviewed, hkept⟩ := reviewed_with_time seeded_wf hseeded hrun hrun'
  exact ⟨cfg, cfg', hrun, hrun', hreviewed, a, ha, hstatus, htime, hkept a ha htime⟩

end TalentFlow
