import TalentFlow.Guarantees.Upload

/-!
# Guarantees.Orphans

Stored files and the applications that refer to them. An upload that fails takes its file back; the
deletion of a candidate takes their applications away, by a cascade of the database, and leaves the
files where they are.

* `fileInv_call`: as long as no such deletion happens, the row of an application and its file go
  together.
* `stored_files_referenced`: then every stored file of a request that has come to its end is
  referred to by an application.
* `stored_file_orphaned`: Ian's candidate is deleted after his upload.
-/

namespace TalentFlow

open Data Async

/-- Some application refers to the file. -/
def World.Refers (w : World) (key : String) : Prop :=
  ∃ a ∈ w.db.applications.rows, a.cvFileKey = some key

instance (w : World) (key : String) : Decidable (w.Refers key) :=
  inferInstanceAs (Decidable (∃ a ∈ w.db.applications.rows, _))

/-- Deleting the candidate leaves no stored file behind. -/
def World.HasNoFiles (w : World) (candidateId : String) : Prop :=
  ∀ a ∈ w.db.applications.rows, a.candidateId = candidateId → ∀ key ∈ a.cvFileKey,
    (w.storage.objects key).isNone = true

instance (w : World) (candidateId : String) : Decidable (w.HasNoFiles candidateId) :=
  inferInstanceAs (Decidable (∀ a ∈ w.db.applications.rows, _))

def Call.deletedCandidate? : Call → Option String
  | .prisma (.candidateDelete id) => some id
  | _ => none

/-- A candidate is only deleted while none of their applications refers to a stored file. -/
def DeletesNoFiles (cfg : Config Api ℕ World Response) : Label ℕ Choice Move → Prop
  | .run i ch => ch.fails = false → ∀ c ∈ (cfg.pool i).next?, ∀ id ∈ c.deletedCandidate?,
    cfg.world.HasNoFiles id
  | .move _ => True

def RollbacksSucceed (cfg : Config Api ℕ World Response) : Label ℕ Choice Move → Prop
  | .run i ch => ∀ c ∈ (cfg.pool i).next?, c.isRollback = true → ch.fails = false
  | .move _ => True

instance (cfg : Config Api ℕ World Response) :
    ∀ l : Label ℕ Choice Move, Decidable (DeletesNoFiles cfg l)
  | .run i ch => inferInstanceAs (Decidable (ch.fails = false → ∀ c ∈ (cfg.pool i).next?,
      ∀ id ∈ c.deletedCandidate?, cfg.world.HasNoFiles id))
  | .move _ => .isTrue trivial

instance (cfg : Config Api ℕ World Response) :
    ∀ l : Label ℕ Choice Move, Decidable (RollbacksSucceed cfg l)
  | .run i ch => inferInstanceAs (Decidable (∀ c ∈ (cfg.pool i).next?,
      c.isRollback = true → ch.fails = false))
  | .move _ => .isTrue trivial

/-- Every request has come to its end or has not begun. -/
def NoneInFlight (cfg : Config Api ℕ World Response) : Prop :=
  ∀ i, cfg.trace i = [] ∨ (cfg.outcome? i).isSome = true

/-! ## Rows and their files -/

structure FileInv (requests : ℕ → Request) (w : World) (st : ℕ → List Effect) : Prop where
  upload : UploadInv w st
  filed : ∀ k key, .stored key ∈ st k → ∃ file u, (requests k).file = some file ∧
    .drew u ∈ st k ∧ key = file.key u
  row : ∀ k key a, .stored key ∈ st k → .inserted a ∈ st k → w.storage.objects key ≠ none →
    (∃ x ∈ w.db.applications.rows, x.id = a.id ∧ x.cvFileKey = some key) ∨ .rowGone a.id ∈ st k

section Call

variable {requests : ℕ → Request} {i : ℕ} {ch : Choice} {w w' : World} {c : Call}
  {a : Api.Answer c} {st : ℕ → List Effect}

theorem fileInv_filed (hinv : FileInv requests w st) (hcall : UploadAllows (requests i) (st i) c)
    {k : ℕ} {key : String} (hstored : .stored key ∈ extend st i ⟨c, a⟩ k) :
    ∃ file u, (requests k).file = some file ∧ .drew u ∈ extend st i ⟨c, a⟩ k ∧ key = file.key u := by
  obtain hold | ⟨rfl, heff⟩ := mem_extend.mp hstored
  · obtain ⟨file, u, hfile, hu, hkey⟩ := hinv.filed k key hold
    exact ⟨file, u, hfile, mem_extend.mpr (.inl hu), hkey⟩
  · obtain ⟨buffer, contentType, rfl⟩ := effect_of heff
    obtain ⟨file, u, hfile, hs, hkey⟩ := hcall
    exact ⟨file, u, hfile, mem_extend.mpr (.inl (by simp [hs])), hkey⟩

theorem fileInv_row (hinv : FileInv requests w st) (hcall : UploadAllows (requests i) (st i) c)
    (hfiles : ch.fails = false → ∀ id ∈ c.deletedCandidate?, w.HasNoFiles id)
    (h : gateway.exec i c ch w = some (a, w')) {k : ℕ} {key : String} {b : Application}
    (hstored : .stored key ∈ st k) (hb : .inserted b ∈ st k)
    (hobject : w'.storage.objects key ≠ none) :
    (∃ x ∈ w'.db.applications.rows, x.id = b.id ∧ x.cvFileKey = some key) ∨
      .rowGone b.id ∈ extend st i ⟨c, a⟩ k := by
  obtain ⟨file, u, -, hu, hkey⟩ := hinv.filed k key hstored
  have hof : CvKeyOf u key := hkey ▸ file.key_of u
  have hbefore : w.storage.objects key ≠ none := by
    obtain ⟨hbefore, -⟩ | heff := object_exec h hobject
    · exact hbefore
    · -- a second request would have to draw the same UUID, the same one does not store again
      obtain ⟨buffer, contentType, rfl⟩ := effect_of heff
      obtain ⟨file', u', -, hs, hkey'⟩ := hcall
      have hsame : u' = u := CvKeyOf.inj (hkey' ▸ file'.key_of u') hof
      obtain rfl : i = k :=
        hinv.upload.owner (.inl (by simp [hs, hsame]) : Owns (st i) u) (.inl hu)
      rw [hs] at hb
      simp at hb
  obtain ⟨x, hx, hid, hfile⟩ | hgone := hinv.row k key b hstored hb hbefore
  · obtain ⟨y, hy, hyid, -, hycv⟩ | heff | ⟨hok, hdeleted⟩ := row_kept h hx
    · exact .inl ⟨y, hy, hyid.trans hid, hycv.trans hfile⟩
    · right
      rw [hid] at heff
      obtain rfl : c = .prisma (.applicationDelete b.id) := effect_of heff
      obtain ⟨b', hb', hsame⟩ := hcall
      have hik : i = k := hinv.upload.owner (.inr ⟨b', hb', hsame.symm⟩) (.inr ⟨b, hb, rfl⟩)
      exact mem_extend.mpr (.inr ⟨hik.symm, heff⟩)
    · obtain rfl : c = .prisma (.candidateDelete x.candidateId) := congrArg Event.call hdeleted
      have hnone := hfiles hok x.candidateId rfl x hx rfl key hfile
      rw [Option.isNone_iff_eq_none] at hnone
      exact absurd hnone hbefore
  · exact .inr (mem_extend.mpr (.inl hgone))

theorem fileInv_call (hinv : FileInv requests w st) (hcall : UploadAllows (requests i) (st i) c)
    (hfiles : ch.fails = false → ∀ id ∈ c.deletedCandidate?, w.HasNoFiles id)
    (h : gateway.exec i c ch w = some (a, w')) : FileInv requests w' (extend st i ⟨c, a⟩) where
  upload := uploadInv_call hinv.upload hcall h
  filed k key hstored := fileInv_filed hinv hcall hstored
  row k key b hstored hb hobject := by
    obtain hold | ⟨rfl, heff⟩ := mem_extend.mp hb
    · obtain hstored | ⟨rfl, heff⟩ := mem_extend.mp hstored
      · exact fileInv_row hinv hcall hfiles h hstored hold hobject
      · -- nothing is inserted before the file is stored
        obtain ⟨buffer, contentType, rfl⟩ := effect_of heff
        obtain ⟨file, u, -, hs, -⟩ := hcall
        rw [hs] at hold
        simp at hold
    · obtain ⟨d, rfl⟩ : ∃ d, c = .prisma (.applicationCreate d) := effect_of heff
      obtain hstored | ⟨-, heff'⟩ := mem_extend.mp hstored
      · obtain ⟨file, u, hfile, -, -⟩ := hinv.filed k key hstored
        obtain ⟨u', hs, hd⟩ := hcall file hfile
        have hkey : key = file.key u' := by
          rw [hs] at hstored
          simpa using hstored
        cases a with
        | error e => cases heff
        | ok row =>
          cases heff
          obtain ⟨hrow, hcv⟩ := inserted_row h
          exact .inl ⟨b, hrow, rfl, by rw [hcv, hd, hkey]⟩
      · rw [heff] at heff'
        cases heff'

end Call

theorem fileInv_move {requests : ℕ → Request} {w w' : World} {st : ℕ → List Effect} {mv : Move}
    (hinv : FileInv requests w st) (h : gateway.move mv w = some w') : FileInv requests w' st := by
  have hupload := uploadInv_move hinv.upload h
  obtain ⟨elapsed, -, rfl⟩ | ⟨channel, broker, rfl⟩ := move_cases h
  · exact ⟨hupload, hinv.filed, hinv.row⟩
  · exact ⟨hupload, hinv.filed, hinv.row⟩

/-! ## Runs -/

section Runs

variable {requests : ℕ → Request} {w : World} {ls : List (Label ℕ Choice Move)}
  {cfg : Config Api ℕ World Response}

theorem fileInv_run (hw : w.UploadReady)
    (hfiles : gateway.Along DeletesNoFiles ls (.start w (Request.pool requests)))
    (hrun : gateway.run ls (.start w (Request.pool requests)) = some cfg) :
    FileInv requests cfg.world (effects cfg) := by
  have hstart : FileInv requests w fun _ => [] :=
    ⟨uploadInv_start hw, fun k key h => (by cases h), fun k key a h => (by cases h)⟩
  obtain ⟨-, hinv⟩ := run_invariant_along (m := fun i => uploadMonitor (requests i))
    (FileInv requests)
    (fun hobey hinv hP hp hcall hx => ⟨inserts_exec hx, fileInv_call hinv hcall
      (fun hok id hid => hP hok _ (by rw [hp]; rfl) id hid) hx⟩)
    (fun hinv hm => fileInv_move hinv hm)
    (fun i => request_effects (requests i)) hstart hfiles hrun
  rw [stage_effects] at hinv
  exact hinv

/-- A request that has come to its end without deleting its file has left the row with it. -/
theorem stored_file_referenced (hw : w.UploadReady)
    (hrollback : gateway.Along RollbacksSucceed ls (.start w (Request.pool requests)))
    (hfiles : gateway.Along DeletesNoFiles ls (.start w (Request.pool requests)))
    (hrun : gateway.run ls (.start w (Request.pool requests)) = some cfg) {i : ℕ}
    {o : Except Exception Response} (ho : cfg.outcome? i = some o) {key : String}
    (hstored : .stored key ∈ effects cfg i) (hobject : cfg.world.storage.objects key ≠ none) :
    cfg.world.Refers key := by
  have hinv := fileInv_run hw hfiles hrun
  have hleft : ∀ x ∈ effects cfg i, ¬ x.IsLeft := by
    refine effects_along (fun {cfg ch c k a w' x} hP hp hexec heff => ?_) hrollback hrun
    exact rollback_exec (fun hc => hP c (by rw [hp]; rfl) hc) hexec heff
  obtain ⟨file, u, hfile, hu, hkey⟩ := hinv.filed i key hstored
  obtain ⟨o', -, hends⟩ := (upload_run hw hrun).2 i o ho file hfile
  cases o' with
  | error e =>
    obtain hgone | hkept := hends.object key hstored
    · exact absurd hgone ((hinv.upload.object u key (hkey ▸ file.key_of u) hobject).2 i (.inl hu)).2
    · exact absurd trivial (hleft _ hkept)
  | ok response =>
    obtain ⟨u', a, event, hs, -⟩ := hends
    have ha : .inserted a ∈ effects cfg i := by simp [hs]
    obtain ⟨x, hx, -, hcv⟩ | hgone := hinv.row i key a hstored ha hobject
    · exact ⟨x, hx, hcv⟩
    · rw [hs] at hgone
      simp at hgone

/-- Whatever else fails: as long as no rollback does and no candidate is deleted whose applications
refer to stored files, no upload leaves a file that no application refers to. -/
theorem stored_files_referenced (hw : w.UploadReady)
    (hrollback : gateway.Along RollbacksSucceed ls (.start w (Request.pool requests)))
    (hfiles : gateway.Along DeletesNoFiles ls (.start w (Request.pool requests)))
    (hrun : gateway.run ls (.start w (Request.pool requests)) = some cfg)
    (hidle : NoneInFlight cfg) :
    ∀ i key, .stored key ∈ effects cfg i → cfg.world.storage.objects key ≠ none →
      cfg.world.Refers key := by
  intro i key hstored hobject
  obtain hnone | hsome := hidle i
  · rw [effects, hnone] at hstored
    cases hstored
  · obtain ⟨o, ho⟩ := Option.isSome_iff_exists.mp hsome
    exact stored_file_referenced hw hrollback hfiles hrun ho hstored hobject

end Runs

/-! ## Ian's file -/

theorem noneInFlight_of_log {cfg : Config Api ℕ World Response}
    (h : ∀ i ∈ cfg.log.map Prod.fst, (cfg.outcome? i).isSome = true) : NoneInFlight cfg := by
  intro i
  rcases cfg.trace_eq_nil_or i with hnil | hmem
  · exact .inl hnil
  · exact .inr (h i hmem)

theorem stored_files_referenced_ian :
    ∃ cfg, gateway.run untilDelivered (.start seeded (Request.pool ianUploads)) = some cfg ∧
      NoneInFlight cfg ∧ .stored (iansCv.key "f-ian") ∈ effects cfg 0 ∧
      cfg.world.Refers (iansCv.key "f-ian") := by
  have h : (gateway.run untilDelivered (.start seeded (Request.pool ianUploads))).map
      (fun cfg => (decide (∀ i ∈ cfg.log.map Prod.fst, (cfg.outcome? i).isSome = true),
        decide (.stored "cvs/f-ian.docx" ∈ effects cfg 0),
        (cfg.world.storage.objects "cvs/f-ian.docx").isSome)) = some (true, true, true) := by
    decide +kernel
  obtain ⟨cfg, hrun, hdone⟩ := Option.map_eq_some_iff.mp h
  obtain ⟨hidle, hdone⟩ := Prod.mk.inj hdone
  obtain ⟨hstored, hobject⟩ := Prod.mk.inj hdone
  have hnone := noneInFlight_of_log (of_decide_eq_true hidle)
  have hfile : iansCv.key "f-ian" = "cvs/f-ian.docx" := by decide
  rw [hfile]
  refine ⟨cfg, hrun, hnone, of_decide_eq_true hstored, ?_⟩
  exact stored_files_referenced seeded_uploadReady (by decide +kernel) (by decide +kernel) hrun
    hnone 0 _ (of_decide_eq_true hstored) (Option.isSome_iff_ne_none.mp hobject)

/-- When his candidate is deleted, the application goes and the file stays. -/
theorem stored_file_orphaned :
    ∃ cfg, gateway.run (untilDelivered ++ [.run 1 {}, .run 1 {}])
        (.start seeded (Request.pool ianUploads)) = some cfg ∧
      gateway.Along RollbacksSucceed (untilDelivered ++ [.run 1 {}, .run 1 {}])
        (.start seeded (Request.pool ianUploads)) ∧
      NoneInFlight cfg ∧ .stored "cvs/f-ian.docx" ∈ effects cfg 0 ∧
      cfg.world.storage.objects "cvs/f-ian.docx" ≠ none ∧
      ¬ cfg.world.Refers "cvs/f-ian.docx" := by
  have h : (gateway.run (untilDelivered ++ [.run 1 {}, .run 1 {}])
      (.start seeded (Request.pool ianUploads))).map
      (fun cfg => (decide (∀ i ∈ cfg.log.map Prod.fst, (cfg.outcome? i).isSome = true),
        decide (.stored "cvs/f-ian.docx" ∈ effects cfg 0),
        (cfg.world.storage.objects "cvs/f-ian.docx").isSome,
        decide (cfg.world.Refers "cvs/f-ian.docx"))) =
      some (true, true, true, false) := by
    decide +kernel
  obtain ⟨cfg, hrun, hdone⟩ := Option.map_eq_some_iff.mp h
  obtain ⟨hidle, hdone⟩ := Prod.mk.inj hdone
  obtain ⟨hstored, hdone⟩ := Prod.mk.inj hdone
  obtain ⟨hobject, hrefers⟩ := Prod.mk.inj hdone
  exact ⟨cfg, hrun, by decide +kernel, noneInFlight_of_log (of_decide_eq_true hidle),
    of_decide_eq_true hstored, Option.isSome_iff_ne_none.mp hobject, of_decide_eq_false hrefers⟩

end TalentFlow
