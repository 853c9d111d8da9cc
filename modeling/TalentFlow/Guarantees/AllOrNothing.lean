import TalentFlow.Guarantees.Delivery

/-!
# Guarantees.AllOrNothing

What an upload has left when it comes to its end, in the store, the table and the messages.

* `rowsKept_run`: an application that was inserted is in the table with the key of its file, until
  its request takes it back or its candidate is deleted.
* `createWithCv_all_or_nothing`: whatever else runs, an upload that rejects has left nothing, and one
  that resolves has left its file, its application and its event.
-/

namespace TalentFlow

open Data Async

/-! ## Rows are kept -/

def CandidateDeleted (cfg : Config Api ℕ World Response) (candidateId : String) : Prop :=
  ∃ e ∈ cfg.log, e.2 = ⟨.prisma (.candidateDelete candidateId), .ok ()⟩

/-- The application is a row of the table, with the candidate and the file it was inserted with. -/
def World.Holds (w : World) (a : Application) : Prop :=
  ∃ row ∈ w.db.applications.rows, row.id = a.id ∧ row.candidateId = a.candidateId ∧
    row.cvFileKey = a.cvFileKey

/-- What was inserted is there, or its own request or the deletion of its candidate has removed it. -/
def RowsKept (cfg : Config Api ℕ World Response) : Prop :=
  ∀ k a, .inserted a ∈ effects cfg k →
    cfg.world.Holds a ∨ .rowGone a.id ∈ effects cfg k ∨ CandidateDeleted cfg a.candidateId

section Runs

variable {requests : ℕ → Request} {w : World} {ls : List (Label ℕ Choice Move)}
  {l : Label ℕ Choice Move} {cfg cfg' : Config Api ℕ World Response} {i : ℕ}

theorem CandidateDeleted.answered {candidateId : String} (h : CandidateDeleted cfg candidateId)
    (i : ℕ) {c : Call} (a : Api.Answer c) (k : Api.Answer c → Prog Api Response) (w : World) :
    CandidateDeleted (cfg.answered i a k w) candidateId := by
  obtain ⟨e, he, hdeleted⟩ := h
  exact ⟨e, by simp [he], hdeleted⟩

theorem Uploading.deletes_own (h : Uploading requests cfg) {j : ℕ} {x : Application}
    {k : Api.Answer (.prisma (.applicationDelete x.id)) → Prog Api Response}
    (hp : cfg.pool i = .call (.prisma (.applicationDelete x.id)) k)
    (hx : .inserted x ∈ effects cfg j) : i = j := by
  obtain ⟨y, hy, hid⟩ := h.allows hp
  exact h.inv.owner (.inr ⟨y, hy, hid.symm⟩) (.inr ⟨x, hx, rfl⟩)

theorem rowsKept_answered (h : Uploading requests cfg) (hk : RowsKept cfg) {ch : Choice} {c : Call}
    {k : Api.Answer c → Prog Api Response} {a : Api.Answer c} {w' : World}
    (hp : cfg.pool i = .call c k) (hx : gateway.exec i c ch cfg.world = some (a, w')) :
    RowsKept (cfg.answered i a k w') := by
  intro j x hinserted
  rw [effects_answered] at hinserted ⊢
  obtain hold | ⟨rfl, heff⟩ := mem_extend.mp hinserted
  · obtain ⟨row, hrow, hid, hcand, hcv⟩ | hgone | hdeleted := hk j x hold
    · obtain ⟨y, hy, hyid, hycand, hycv⟩ | heff | ⟨-, hdelete⟩ := row_kept hx hrow
      · exact .inl ⟨y, hy, hyid.trans hid, hycand.trans hcand, hycv.trans hcv⟩
      · right; left
        rw [hid] at heff
        obtain rfl : c = .prisma (.applicationDelete x.id) := effect_of heff
        exact mem_extend.mpr (.inr ⟨(h.deletes_own hp hold).symm, heff⟩)
      · right; right
        rw [hcand] at hdelete
        exact ⟨(i, ⟨c, a⟩), by simp, hdelete⟩
    · exact .inr (.inl (mem_extend.mpr (.inl hgone)))
    · exact .inr (.inr (hdeleted.answered i a k w'))
  · obtain ⟨d, rfl⟩ : ∃ d, c = .prisma (.applicationCreate d) := effect_of heff
    cases a with
    | error e => cases heff
    | ok row =>
      cases heff
      exact .inl ⟨x, (inserted_row hx).1, rfl, rfl, rfl⟩

theorem rowsKept_step (h : Uploading requests cfg) (hk : RowsKept cfg)
    (hs : gateway.step l cfg = some cfg') : RowsKept cfg' := by
  obtain ⟨i, ch, c, k, a, w', rfl, hp, hx, rfl⟩ | ⟨mv, w', rfl, hm, rfl⟩ := Machine.step_cases hs
  · exact rowsKept_answered h hk hp hx
  · intro j x hinserted
    obtain ⟨row, hrow, hsame⟩ | hremoved := hk j x hinserted
    · refine .inl ⟨row, ?_, hsame⟩
      rw [db_of_move hm]
      exact hrow
    · exact .inr hremoved

theorem rowsKept_run (hw : w.UploadReady)
    (hrun : gateway.run ls (.start w (Request.pool requests)) = some cfg) : RowsKept cfg :=
  (Machine.run_induction (fun cfg => Uploading requests cfg ∧ RowsKept cfg)
    (fun h hs => ⟨uploading_step h.1 hs, rowsKept_step h.1 h.2 hs⟩)
    ⟨uploading_start hw requests, fun _ _ hinserted => (by cases hinserted)⟩ hrun).2

/-! ## All or nothing -/

/-- The rollback of request `i` does not fail. -/
def RollbackSucceeds (i : ℕ) (cfg : Config Api ℕ World Response) : Label ℕ Choice Move → Prop
  | .run j ch => j = i → ∀ c ∈ (cfg.pool i).next?, c.isRollback = true → ch.fails = false
  | .move _ => True

instance (i : ℕ) (cfg : Config Api ℕ World Response) :
    ∀ l : Label ℕ Choice Move, Decidable (RollbackSucceeds i cfg l)
  | .run j ch => inferInstanceAs (Decidable (j = i → ∀ c ∈ (cfg.pool i).next?,
      c.isRollback = true → ch.fails = false))
  | .move _ => .isTrue trivial

/-- What request `i` has left in the store and the table when its upload resolved. Only the deletion
of the candidate takes the application away. -/
structure Left (i : ℕ) (cfg : Config Api ℕ World Response) (file : UploadedFile)
    (response : UploadCvResponseDto) : Prop where
  object : cfg.world.storage.objects response.fileKey = some ⟨file.buffer, file.mimetype⟩
  row : ∀ a, .inserted a ∈ effects cfg i →
    cfg.world.Holds a ∨ CandidateDeleted cfg a.candidateId
  named : ∀ row ∈ cfg.world.db.applications.rows, row.id = response.applicationId →
    row.cvFileKey = some response.fileKey

/-- One message about the application is on its way or has arrived, and it names the file. -/
def Sent (cfg : Config Api ℕ World Response) (response : UploadCvResponseDto) : Prop :=
  ∃ event ∈ cfg.world.messages, event.fileKey = response.fileKey ∧
    ∀ event' ∈ cfg.world.messages, event'.applicationId = response.applicationId ↔ event' = event

theorem Delivered.left (hw : w.UploadReady)
    (hrun : gateway.run ls (.start w (Request.pool requests)) = some cfg) {file : UploadedFile}
    (hfile : (requests i).file = some file) {response : UploadCvResponseDto}
    (hdone : Delivered file response (effects cfg i)) :
    Left i cfg file response := by
  have hkept := (kept_run hw hrun).2
  obtain ⟨u, a, event, hs, hkey, -, hid, hfileKey⟩ := hdone
  have hinserted : .inserted a ∈ effects cfg i := by simp [hs]
  constructor
  · rw [hfileKey]
    exact hkept.object i file (file.key u) hfile (by simp [hs]) (by simp [hs])
  · intro b hb
    obtain hholds | hgone | hdeleted := rowsKept_run hw hrun i b hb
    · exact .inl hholds
    · simp [hs] at hgone
    · exact .inr hdeleted
  · intro row hrow hrowId
    rw [hkept.row i a hinserted row hrow (hrowId.trans hid), hkey, hfileKey]

theorem Delivered.sent (hw : w.UploadReady)
    (hrun : gateway.run ls (.start w (Request.pool requests)) = some cfg)
    (hheld : cfg.world.messages = w.messages ++ published cfg) {file : UploadedFile}
    {response : UploadCvResponseDto} (hdone : Delivered file response (effects cfg i)) :
    Sent cfg response := by
  obtain ⟨u, a, event, hs, -, hnames, hid, hfileKey⟩ := hdone
  have hpublished : event ∈ published cfg := handedOver_published (i := i) (by simp [hs])
  refine ⟨event, ?_, hnames.2.2.2.trans hfileKey.symm, fun event' hevent' => ⟨fun hsame => ?_, ?_⟩⟩
  · rw [hheld]
    exact List.mem_append_right _ hpublished
  · -- a message about the application is one that its request has handed over
    have habout : About (effects cfg i) event' :=
      .inl (.inr ⟨a, by simp [hs], (hsame.trans hid).symm⟩)
    obtain hover | hbuffered := ((kept_run hw hrun).1.inv.message event' hevent').2 i habout
    · simpa [hs] using hover
    · simp [hs] at hbuffered
  · rintro rfl
    exact hnames.1.trans hid.symm

/-- Whatever fails and whatever else runs, an upload that rejects leaves no row and no object, and
one that resolves has stored its file, inserted its application and handed over its event, in that
order, and has left all three (the event, if the connection was not lost). -/
theorem createWithCv_all_or_nothing (hw : w.UploadReady)
    (halong : gateway.Along (RollbackSucceeds i) ls (.start w (Request.pool requests)))
    (hrun : gateway.run ls (.start w (Request.pool requests)) = some cfg)
    {userId : String} {file : UploadedFile} {dto : UploadCvDto}
    (hr : requests i = .createApplicationWithCv userId file dto) :
    (∀ e, cfg.outcome? i = some (.error e) →
      (∀ a, .inserted a ∈ effects cfg i → ¬ cfg.world.db.applications.HasKey a.id) ∧
      ∀ u, .drew u ∈ effects cfg i → cfg.world.storage.objects (file.key u) = none) ∧
    ∀ result, cfg.outcome? i = some (.ok result) → ∃ response,
      result = .uploaded response ∧ Delivered file response (effects cfg i) ∧
      Left i cfg file response ∧
      (gateway.Along ConnectionHolds ls (.start w (Request.pool requests)) → Sent cfg response) := by
  obtain ⟨hinv, hends⟩ := upload_run hw hrun
  have hleft : ∀ x ∈ effects cfg i, ¬ x.IsLeft := by
    refine effects_along (fun {cfg ch c k a w' x} hP hp hexec heff => ?_) halong hrun
    exact rollback_exec (fun hc => hP rfl c (by simp [hp]) hc) hexec heff
  have hfile : (requests i).file = some file := by rw [hr]; rfl
  constructor
  · intro e ho
    obtain ⟨o, heq, hback⟩ := hends i _ ho file hfile
    cases o with
    | ok response => cases heq
    | error e' =>
      refine ⟨fun a ha => ?_, fun u hu => ?_⟩
      · obtain hgone | hkept := hback.row a ha
        · exact (hinv.row i a.id hgone).2
        · exact absurd trivial (hleft _ hkept)
      · by_contra hobject
        obtain ⟨-, hstored⟩ := hinv.object u _ (file.key_of u) hobject
        obtain ⟨hin, hout⟩ := hstored i (.inl hu)
        obtain hgone | hkept := hback.object _ hin
        · exact hout hgone
        · exact absurd trivial (hleft _ hkept)
  · intro result ho
    obtain ⟨o, heq, hdone⟩ := hends i _ ho file hfile
    cases o with
    | ok response =>
      cases heq
      have hheld := (announced_once hw hrun).2.2.2
      exact ⟨response, rfl, hdone, hdone.left hw hrun hfile, fun h => hdone.sent hw hrun (hheld h)⟩
    | error e => cases heq

end Runs

/-! ## Two uploads -/

/-- Publishing fails and the row is gone before the rollback: the row and the object are gone at the
end. Where nothing fails, all is delivered. -/
theorem createWithCv_both_ways :
    (∃ cfg, gateway.run untilRolledBack (.start seeded (Request.pool ianUploads)) = some cfg ∧
      (cfg.outcome? 0).map statusOf = some 500 ∧
      .inserted iansApplication ∈ effects cfg 0 ∧ .drew "f-ian" ∈ effects cfg 0 ∧
      ¬ cfg.world.db.applications.HasKey "a-ian" ∧
      cfg.world.storage.objects (iansCv.key "f-ian") = none) ∧
    ∃ cfg, gateway.run untilDelivered (.start seeded (Request.pool ianUploads)) = some cfg ∧
      (cfg.outcome? 0).map statusOf = some 200 ∧
      ∃ response, Delivered iansCv response (effects cfg 0) ∧ Left 0 cfg iansCv response ∧
        Sent cfg response := by
  constructor
  · have h : (gateway.run untilRolledBack (.start seeded (Request.pool ianUploads))).map
        (fun cfg => ((cfg.outcome? 0).map statusOf, effects cfg 0)) =
          some (some 500, [.drew "f-ian", .stored "cvs/f-ian.docx", .inserted iansApplication,
            .rowGone "a-ian", .objectGone "cvs/f-ian.docx"]) := by decide +kernel
    obtain ⟨cfg, hrun, hdone⟩ := Option.map_eq_some_iff.mp h
    obtain ⟨hstatus, heffects⟩ := Prod.mk.inj hdone
    have hinserted : .inserted iansApplication ∈ effects cfg 0 := by simp [heffects]
    have hdrew : .drew "f-ian" ∈ effects cfg 0 := by simp [heffects]
    obtain ⟨o, ho, hcode⟩ := Option.map_eq_some_iff.mp hstatus
    cases o with
    | ok result => cases hcode
    | error e =>
      obtain ⟨hrow, hobject⟩ := (createWithCv_all_or_nothing (i := 0) seeded_uploadReady
        (by decide +kernel) hrun rfl).1 e ho
      exact ⟨cfg, hrun, hstatus, hinserted, hdrew, hrow _ hinserted, hobject _ hdrew⟩
  · have h : (gateway.run untilDelivered (.start seeded (Request.pool ianUploads))).map
        (fun cfg => (cfg.outcome? 0).map statusOf) = some (some 200) := by decide +kernel
    obtain ⟨cfg, hrun, hstatus⟩ := Option.map_eq_some_iff.mp h
    obtain ⟨o, ho, hcode⟩ := Option.map_eq_some_iff.mp hstatus
    cases o with
    | error e =>
      exfalso
      cases e <;> cases hcode
    | ok result =>
      obtain ⟨response, -, hdone, hleft, hsent⟩ := (createWithCv_all_or_nothing (i := 0)
        seeded_uploadReady (by decide +kernel) hrun rfl).2 result ho
      exact ⟨cfg, hrun, hstatus, response, hdone, hleft, hsent (by decide +kernel)⟩

end TalentFlow
