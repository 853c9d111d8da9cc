import TalentFlow.Guarantees.Upload

/-!
# Guarantees.Delivery

What the CV parser can rely on. It reads events off the broker, in any order of uploads, failures and
reconnections, and fetches the file each one names.

* `announced_once`: the broker gets published events in the order in which they were published, none
  invented and none twice, each after its file was stored and its application inserted; and while
  the connection holds none is lost.
* `cv_kept`: what a resolved upload has stored stays under its key, and its application keeps naming
  that key.
-/

namespace TalentFlow

open Data Async

/-! ## Events -/

def buffered? : Event Api → Option CvUploadedEvent
  | ⟨.publish event, .ok (some _)⟩ => some event
  | _ => none

def published (cfg : Config Api ℕ World Response) : List CvUploadedEvent :=
  cfg.log.filterMap fun e => buffered? e.2

/-- A request with these effects has published the event, which names what it had stored and inserted
before; it has published no other. -/
def Announced (r : Request) (s : List Effect) (event : CvUploadedEvent) : Prop :=
  ∃ file u a handing rest, r.file = some file ∧
    s = [.drew u, .stored (file.key u), .inserted a, handing] ++ rest ∧
    (handing = .handedOver event ∨ handing = .buffered event) ∧ event.Names a (file.key u)

/-- The label does not lose the channel, nor what is in its buffer. -/
def ConnectionHolds (_ : Config Api ℕ World Response) : Label ℕ Choice Move → Prop
  | .move .channelLost => False
  | .move .channelOpened => False
  | _ => True

instance (cfg : Config Api ℕ World Response) : ∀ l, Decidable (ConnectionHolds cfg l)
  | .run _ _ => isTrue trivial
  | .move .channelLost => isFalse id
  | .move .channelOpened => isFalse id
  | .move (.tick _) => isTrue trivial
  | .move (.setFull _) => isTrue trivial
  | .move .send => isTrue trivial

theorem Announced.append {r : Request} {s : List Effect} {event : CvUploadedEvent}
    (h : Announced r s event) (t : List Effect) : Announced r (s ++ t) event := by
  obtain ⟨file, u, a, handing, rest, hfile, rfl, hhanding, hnames⟩ := h
  exact ⟨file, u, a, handing, rest ++ t, hfile, by simp, hhanding, hnames⟩

theorem Announced.owns {r : Request} {s : List Effect} {event : CvUploadedEvent}
    (h : Announced r s event) : Owns s event.applicationId := by
  obtain ⟨file, u, a, handing, rest, -, rfl, -, hid, -⟩ := h
  exact .inr ⟨a, by simp, hid.symm⟩

/-- What a request may publish, if it has published nothing before. -/
theorem Announced.of_allowed {r : Request} {s : List Effect} {event : CvUploadedEvent}
    (hcall : UploadAllows r s (.publish event)) (taken : Bool) :
    s.length = 3 ∧ Owns s event.applicationId ∧
      Announced r (s ++ (effect? ⟨.publish event, .ok (some taken)⟩).toList) event := by
  obtain ⟨file, u, a, hfile, rfl, hnames⟩ := hcall
  refine ⟨rfl, .inr ⟨a, by simp, hnames.1.symm⟩, ?_⟩
  cases taken with
  | true => exact ⟨file, u, a, .handedOver event, [], hfile, rfl, .inl rfl, hnames⟩
  | false => exact ⟨file, u, a, .buffered event, [], hfile, rfl, .inr rfl, hnames⟩

theorem buffered_cases {e : Event Api} {event : CvUploadedEvent} (h : buffered? e = some event) :
    ∃ taken, e = ⟨.publish event, .ok (some taken)⟩ := by
  unfold buffered? at h
  split at h
  · cases h
    exact ⟨_, rfl⟩
  · cases h

section Steps

variable {i : ℕ} {ch : Choice} {w w' : World} {c : Call} {a : Api.Answer c}

/-- Publishing adds to the messages at the end, and no other call touches them. -/
theorem messages_exec (h : gateway.exec i c ch w = some (a, w')) :
    w'.messages = w.messages ++ (buffered? ⟨c, a⟩).toList := by
  by_cases hc : ∃ event, c = .publish event
  · obtain ⟨event, rfl⟩ := hc
    obtain ⟨rfl, rfl⟩ | ⟨-, rfl, rfl⟩ | ⟨chan, hchan, rfl, rfl⟩ := publish_cases h
    · simp [buffered?]
    · simp [buffered?]
    · simp [World.messages, buffered?, hchan]
  · have hframe := exec_frame h
    have hnone : buffered? ⟨c, a⟩ = none := by
      by_contra hsome
      obtain ⟨event, hevent⟩ := Option.ne_none_iff_exists'.mp hsome
      obtain ⟨taken, heq⟩ := buffered_cases hevent
      exact hc ⟨event, congrArg Event.call heq⟩
    rw [hnone, World.messages, World.messages, hframe.broker,
      hframe.channel fun event hevent => hc ⟨event, hevent⟩]
    simp

theorem messages_move {mv : Move} (h : gateway.move mv w = some w') :
    w'.messages.Sublist w.messages ∧
      (mv ≠ .channelLost → mv ≠ .channelOpened → w'.messages = w.messages) := by
  have hsame : w'.messages = w.messages → w'.messages.Sublist w.messages ∧
      (mv ≠ .channelLost → mv ≠ .channelOpened → w'.messages = w.messages) := fun heq =>
    ⟨heq ▸ List.Sublist.refl _, fun _ _ => heq⟩
  cases mv with
  | tick elapsed =>
    cases h
    exact hsame rfl
  | send =>
    simp only [gateway, World.move] at h
    rcases hc : w.channel with _ | ⟨full, _ | ⟨m, ms⟩⟩
    · rw [hc] at h
      cases h
    · rw [hc] at h
      cases h
    · rw [hc] at h
      cases h
      exact hsame (by simp [World.messages, hc])
  | setFull full =>
    obtain ⟨chan, hc, rfl⟩ := Option.map_eq_some_iff.mp h
    exact hsame (by simp [World.messages, hc])
  | channelLost =>
    cases h
    exact ⟨by simp [World.messages], fun hmv => absurd rfl hmv⟩
  | channelOpened =>
    cases h
    exact ⟨by simp [World.messages], fun _ hmv => absurd rfl hmv⟩

end Steps

section Runs

variable {requests : ℕ → Request} {w : World} {ls : List (Label ℕ Choice Move)}
  {l : Label ℕ Choice Move} {cfg cfg' : Config Api ℕ World Response}

theorem effects_answered (cfg : Config Api ℕ World Response) (i : ℕ) {c : Call} (a : Api.Answer c)
    (k : Api.Answer c → Prog Api Response) (w : World) :
    effects (cfg.answered i a k w) = extend (effects cfg) i ⟨c, a⟩ := by
  funext j
  by_cases hj : j = i
  · subst hj
    rw [extend_self, effects, effects, Config.answered_trace_self, List.filterMap_append]
    cases h : effect? ⟨c, a⟩ <;> simp [h]
  · rw [extend_ne hj, effects, effects, Config.answered_trace_ne _ _ _ _ _ hj]

theorem published_answered (cfg : Config Api ℕ World Response) (i : ℕ) {c : Call}
    (a : Api.Answer c) (k : Api.Answer c → Prog Api Response) (w : World) :
    published (cfg.answered i a k w) = published cfg ++ (buffered? ⟨c, a⟩).toList := by
  rw [published, published, Config.answered_log, List.filterMap_append]
  cases h : buffered? ⟨c, a⟩ <;> simp [h]

/-- Every message was there at the start or has been published, and is in its place. -/
theorem messages_step (hs : gateway.step l cfg = some cfg')
    (h : cfg.world.messages.Sublist (w.messages ++ published cfg)) :
    cfg'.world.messages.Sublist (w.messages ++ published cfg') := by
  obtain ⟨i, ch, c, k, a, w', rfl, -, hx, rfl⟩ | ⟨mv, w', rfl, hm, rfl⟩ := Machine.step_cases hs
  · rw [Config.answered_world, messages_exec hx, published_answered, ← List.append_assoc]
    exact h.append (List.Sublist.refl _)
  · exact (messages_move hm).1.trans h

theorem messages_held (hl : ConnectionHolds cfg l) (hs : gateway.step l cfg = some cfg')
    (h : cfg.world.messages = w.messages ++ published cfg) :
    cfg'.world.messages = w.messages ++ published cfg' := by
  obtain ⟨i, ch, c, k, a, w', rfl, -, hx, rfl⟩ | ⟨mv, w', rfl, hm, rfl⟩ := Machine.step_cases hs
  · rw [Config.answered_world, messages_exec hx, published_answered, h, List.append_assoc]
  · refine ((messages_move hm).2 ?_ ?_).trans h
    · rintro rfl
      exact hl
    · rintro rfl
      exact hl

/-- Requests that keep to what their uploads allow, and what that keeps. -/
structure Uploading (requests : ℕ → Request) (cfg : Config Api ℕ World Response) : Prop where
  obey : AllObey (fun i => uploadMonitor (requests i)) (fun _ => [])
    (fun i => RequestEnds (requests i)) cfg
  inv : UploadInv cfg.world (effects cfg)
  footprint : KeepsFootprint requests cfg

theorem uploading_start (hw : w.UploadReady) (requests : ℕ → Request) :
    Uploading requests (.start w (Request.pool requests)) where
  obey i := request_effects (requests i)
  inv := uploadInv_start hw
  footprint := footprint_start requests w

theorem Uploading.allows (h : Uploading requests cfg) {i : ℕ} {c : Call}
    {k : Api.Answer c → Prog Api Response} (hp : cfg.pool i = .call c k) :
    UploadAllows (requests i) (effects cfg i) c := by
  have hcall := h.obey.call hp
  rwa [stage_effects] at hcall

theorem uploading_step (h : Uploading requests cfg) (hs : gateway.step l cfg = some cfg') :
    Uploading requests cfg' where
  obey := by
    obtain ⟨i, ch, c, k, a, w', rfl, hp, hx, rfl⟩ | ⟨mv, w', rfl, -, rfl⟩ := Machine.step_cases hs
    · exact h.obey.answered hp w' (inserts_exec hx)
    · exact h.obey
  inv := by
    obtain ⟨i, ch, c, k, a, w', rfl, hp, hx, rfl⟩ | ⟨mv, w', rfl, hm, rfl⟩ := Machine.step_cases hs
    · rw [effects_answered]
      exact uploadInv_call h.inv (h.allows hp) hx
    · exact uploadInv_move h.inv hm
  footprint := footprint_step h.footprint hs

/-! ## Events are published once -/

/-- Every published event was announced by its request, and no two name one application. -/
structure AnnouncedOnce (requests : ℕ → Request) (cfg : Config Api ℕ World Response) : Prop where
  announced : ∀ event ∈ published cfg, ∃ i, Announced (requests i) (effects cfg i) event
  once : ((published cfg).map CvUploadedEvent.applicationId).Nodup

/-- An event announced before is about another application than the one now published: its request
has had more effects. -/
theorem announced_apart (h : Uploading requests cfg) {i j : ℕ} {event event' : CvUploadedEvent}
    (hlength : (effects cfg i).length = 3) (howns : Owns (effects cfg i) event.applicationId)
    (hold : Announced (requests j) (effects cfg j) event') :
    event'.applicationId ≠ event.applicationId := by
  intro hid
  have hown := hold.owns
  rw [hid] at hown
  obtain rfl : j = i := h.inv.owner hown howns
  obtain ⟨file, u, a, handing, rest, -, hs, -⟩ := hold
  rw [hs] at hlength
  simp at hlength

theorem announcedOnce_step (h : Uploading requests cfg) (ha : AnnouncedOnce requests cfg)
    (hs : gateway.step l cfg = some cfg') : AnnouncedOnce requests cfg' := by
  obtain ⟨i, ch, c, k, a, w', rfl, hp, hx, rfl⟩ | ⟨mv, w', rfl, -, rfl⟩ := Machine.step_cases hs
  swap
  · exact ⟨ha.announced, ha.once⟩
  have hgrown : ∀ event ∈ published cfg,
      ∃ j, Announced (requests j) (effects (cfg.answered i a k w') j) event := by
    intro event hevent
    obtain ⟨j, hj⟩ := ha.announced event hevent
    refine ⟨j, ?_⟩
    rw [effects_answered]
    by_cases hji : j = i
    · subst hji
      rw [extend_self]
      exact hj.append _
    · rwa [extend_ne hji]
  cases hb : buffered? ⟨c, a⟩ with
  | none =>
    have hsame : published (cfg.answered i a k w') = published cfg := by
      simp [published_answered, hb]
    exact ⟨hsame ▸ hgrown, hsame ▸ ha.once⟩
  | some event =>
    obtain ⟨taken, heq⟩ := buffered_cases hb
    cases heq
    obtain ⟨hlength, howns, hnow⟩ := Announced.of_allowed (h.allows hp) taken
    have hpublished : published (cfg.answered i (Except.ok (some taken)) k w') =
        published cfg ++ [event] := by
      rw [published_answered, hb]
      rfl
    constructor
    · intro event' hevent'
      rw [hpublished] at hevent'
      obtain hold | hnew := List.mem_append.mp hevent'
      · exact hgrown event' hold
      · rw [List.mem_singleton.mp hnew]
        refine ⟨i, ?_⟩
        rw [effects_answered, extend_self]
        exact hnow
    · rw [hpublished, List.map_append]
      refine List.nodup_append.mpr ⟨ha.once, by simp, ?_⟩
      intro id hid id' hid'
      obtain ⟨event', hevent', rfl⟩ := List.mem_map.mp hid
      obtain ⟨j, hj⟩ := ha.announced event' hevent'
      rw [List.map_singleton, List.mem_singleton] at hid'
      rw [hid']
      exact announced_apart h hlength howns hj

theorem announcedOnce_run (hw : w.UploadReady)
    (hrun : gateway.run ls (.start w (Request.pool requests)) = some cfg) :
    AnnouncedOnce requests cfg :=
  (Machine.run_induction (fun cfg => Uploading requests cfg ∧ AnnouncedOnce requests cfg)
    (fun h hs => ⟨uploading_step h.1 hs, announcedOnce_step h.1 h.2 hs⟩)
    ⟨uploading_start hw requests, by simp [published], by simp [published]⟩ hrun).2

/-- In every run the messages on their way or arrived are, in order, some of those published; no
application is announced twice, and none before it was inserted and its file stored. While the
connection holds, they are all of those published. -/
theorem announced_once (hw : w.UploadReady)
    (hrun : gateway.run ls (.start w (Request.pool requests)) = some cfg) :
    cfg.world.messages.Sublist (w.messages ++ published cfg) ∧
      ((published cfg).map CvUploadedEvent.applicationId).Nodup ∧
      (∀ event ∈ published cfg, ∃ i, Announced (requests i) (effects cfg i) event) ∧
      (gateway.Along ConnectionHolds ls (.start w (Request.pool requests)) →
        cfg.world.messages = w.messages ++ published cfg) := by
  have hannounced := announcedOnce_run hw hrun
  refine ⟨?_, hannounced.once, hannounced.announced, fun halong => ?_⟩
  · exact Machine.run_induction (fun cfg => cfg.world.messages.Sublist (w.messages ++ published cfg))
      (fun h hs => messages_step hs h) (by simp [published]) hrun
  · exact Machine.run_induction_along
      (fun cfg => cfg.world.messages = w.messages ++ published cfg)
      (fun h hl hs => messages_held hl hs h) (by simp [published]) halong hrun

/-! ## Files are kept -/

/-- What the requests have stored and inserted is as they left it. -/
structure FilesKept (requests : ℕ → Request) (cfg : Config Api ℕ World Response) : Prop where
  key : ∀ k key, .stored key ∈ effects cfg k → ∃ u, Owns (effects cfg k) u ∧ CvKeyOf u key
  object : ∀ k file key, (requests k).file = some file → .stored key ∈ effects cfg k →
    .objectGone key ∉ effects cfg k →
    cfg.world.storage.objects key = some ⟨file.buffer, file.mimetype⟩
  row : ∀ k a, .inserted a ∈ effects cfg k → ∀ row ∈ cfg.world.db.applications.rows,
    row.id = a.id → row.cvFileKey = a.cvFileKey

theorem footprint_upload {r : Request} {buffer : List UInt8} {key contentType : String}
    (h : (Call.storage (.upload buffer key contentType)).IsQuiet ∨
      r.footprint (.storage (.upload buffer key contentType))) {file : UploadedFile}
    (hfile : r.file = some file) : buffer = file.buffer ∧ contentType = file.mimetype := by
  obtain hquiet | hfoot := h
  · exact hquiet.elim
  cases r with
  | createApplicationWithCv userId file' dto =>
    cases hfile
    simpa [Request.footprint] using hfoot
  | _ => cases hfile

section Call

variable {i : ℕ} {ch : Choice} {c : Call} {k : Api.Answer c → Prog Api Response}
  {a : Api.Answer c} {w' : World}

/-- No request writes under a key that another has stored under, or deletes it. -/
theorem stored_apart (h : Uploading requests cfg) (hk : FilesKept requests cfg)
    (hp : cfg.pool i = .call c k) {j : ℕ} {key : String} (hstored : .stored key ∈ effects cfg j) :
    (∀ buffer contentType, c ≠ .storage (.upload buffer key contentType)) ∧
      (c = .storage (.delete key) → i = j) := by
  obtain ⟨u, howns, hof⟩ := hk.key j key hstored
  have hallows := h.allows hp
  constructor
  · rintro buffer contentType rfl
    obtain ⟨file, v, -, hs, hkey⟩ := hallows
    obtain rfl : u = v := hof.inj (hkey ▸ file.key_of v)
    obtain rfl : j = i := h.inv.owner howns (.inl (by simp [hs]))
    simp [hs] at hstored
  · rintro rfl
    obtain ⟨v, hv, hof'⟩ := hk.key i key hallows
    obtain rfl : u = v := hof.inj hof'
    exact h.inv.owner hv howns

theorem object_same (h : Uploading requests cfg) (hk : FilesKept requests cfg)
    (hp : cfg.pool i = .call c k) (hx : gateway.exec i c ch cfg.world = some (a, w'))
    {j : ℕ} {key : String} (hstored : .stored key ∈ effects cfg j)
    (hgone : .objectGone key ∉ extend (effects cfg) i ⟨c, a⟩ j) :
    w'.storage.objects key = cfg.world.storage.objects key := by
  obtain ⟨hupload, hdelete⟩ := stored_apart h hk hp hstored
  by_cases hc : ∃ c', c = .storage c'
  swap
  · rw [(exec_frame hx).storage fun c' hc' => hc ⟨c', hc'⟩]
  obtain ⟨c', rfl⟩ := hc
  obtain ⟨-, rfl⟩ | ⟨rfl, rfl⟩ := storage_cases hx
  · rfl
  cases c' with
  | upload buffer key' contentType =>
    refine Function.update_of_ne ?_ _ _
    rintro rfl
    exact hupload buffer contentType rfl
  | delete key' =>
    refine Function.update_of_ne ?_ _ _
    rintro rfl
    exact hgone (mem_extend.mpr (.inr ⟨(hdelete rfl).symm, rfl⟩))
  | getSignedUrl key' => rfl
  | getBucketName => rfl

theorem kept_object (h : Uploading requests cfg) (hk : FilesKept requests cfg)
    (hp : cfg.pool i = .call c k) (hx : gateway.exec i c ch cfg.world = some (a, w'))
    {j : ℕ} {file : UploadedFile} {key : String} (hfile : (requests j).file = some file)
    (hstored : .stored key ∈ extend (effects cfg) i ⟨c, a⟩ j)
    (hgone : .objectGone key ∉ extend (effects cfg) i ⟨c, a⟩ j) :
    w'.storage.objects key = some ⟨file.buffer, file.mimetype⟩ := by
  obtain hstored | ⟨rfl, heff⟩ := mem_extend.mp hstored
  · rw [object_same h hk hp hx hstored hgone]
    exact hk.object j file key hfile hstored fun hg => hgone (mem_extend.mpr (.inl hg))
  · obtain ⟨buffer, contentType, rfl⟩ := effect_of heff
    obtain ⟨rfl, -⟩ | ⟨rfl, rfl⟩ := storage_cases hx
    · cases heff
    obtain ⟨rfl, rfl⟩ := footprint_upload (footprint_call h.footprint hp) hfile
    exact Function.update_self ..

theorem kept_key (h : Uploading requests cfg) (hk : FilesKept requests cfg)
    (hp : cfg.pool i = .call c k) {j : ℕ} {key : String}
    (hstored : .stored key ∈ extend (effects cfg) i ⟨c, a⟩ j) :
    ∃ u, Owns (extend (effects cfg) i ⟨c, a⟩ j) u ∧ CvKeyOf u key := by
  obtain hstored | ⟨rfl, heff⟩ := mem_extend.mp hstored
  · obtain ⟨u, hu | ⟨row, hrow, hid⟩, hof⟩ := hk.key j key hstored
    · exact ⟨u, .inl (mem_extend.mpr (.inl hu)), hof⟩
    · exact ⟨u, .inr ⟨row, mem_extend.mpr (.inl hrow), hid⟩, hof⟩
  · obtain ⟨buffer, contentType, rfl⟩ := effect_of heff
    obtain ⟨file, u, -, hs, rfl⟩ := h.allows hp
    exact ⟨u, .inl (mem_extend.mpr (.inl (by simp [hs]))), file.key_of u⟩

theorem kept_row (h : Uploading requests cfg) (hk : FilesKept requests cfg)
    (hx : gateway.exec i c ch cfg.world = some (a, w')) {j : ℕ} {x row : Application}
    (hinserted : .inserted x ∈ extend (effects cfg) i ⟨c, a⟩ j)
    (hrow : row ∈ w'.db.applications.rows) (hid : row.id = x.id) :
    row.cvFileKey = x.cvFileKey := by
  obtain hold | ⟨rfl, heff⟩ := mem_extend.mp hinserted
  · have hx_mem : x.id ∈ cfg.world.uuids := mem_uuids (h.inv.owns j x.id (.inr ⟨x, hold, rfl⟩))
    cases c with
    | prisma c =>
      obtain ⟨e, -, rfl⟩ | ⟨v, db, -, hallow, hperf, -, rfl⟩ := prisma_cases hx
      · exact hk.row j x hold row hrow hid
      obtain hrow | ⟨d, rfl, rfl⟩ | ⟨d, row₀, rfl, hrow₀, rfl⟩ :=
        PrismaCall.mem_applications hperf hrow
      · exact hk.row j x hold row hrow hid
      · rw [← hid] at hx_mem
        exact absurd hx_mem (hallow.1 rfl).2
      · exact hk.row j x hold row₀ hrow₀ hid
    | _ =>
      rw [(exec_frame hx).db (by simp)] at hrow
      exact hk.row j x hold row hrow hid
  · obtain ⟨d, rfl⟩ : ∃ d, c = .prisma (.applicationCreate d) := effect_of heff
    obtain ⟨e, rfl, -⟩ | ⟨v, db, -, hallow, hperf, rfl, rfl⟩ := prisma_cases hx
    · cases heff
    cases heff
    obtain ⟨rfl, -⟩ := PrismaCall.perform_applicationCreate hperf
    obtain hrow | ⟨d', heq, rfl⟩ | ⟨d', row₀, heq, -⟩ := PrismaCall.mem_applications hperf hrow
    · -- the id was drawn for this row, so no earlier row has it
      have hold := h.inv.wf.applications row hrow
      rw [hid] at hold
      exact absurd hold (hallow.1 rfl).2
    · cases heq
      rfl
    · cases heq

end Call

theorem kept_step (h : Uploading requests cfg) (hk : FilesKept requests cfg)
    (hs : gateway.step l cfg = some cfg') : FilesKept requests cfg' := by
  obtain ⟨i, ch, c, k, a, w', rfl, hp, hx, rfl⟩ | ⟨mv, w', rfl, hm, rfl⟩ := Machine.step_cases hs
  · rw [← Config.answered_world cfg i a k w'] at hx
    constructor
    all_goals simp only [effects_answered]
    · exact fun j key hstored => kept_key h hk hp hstored
    · exact fun j file key hfile hstored hgone => kept_object h hk hp hx hfile hstored hgone
    · exact fun j x hinserted row hrow hid => kept_row h hk hx hinserted hrow hid
  · refine ⟨hk.key, fun j file key hfile hstored hgone => ?_, fun j x hinserted row hrow hid => ?_⟩
    · obtain ⟨elapsed, -, rfl⟩ | ⟨channel, broker, rfl⟩ := move_cases hm <;>
        exact hk.object j file key hfile hstored hgone
    · rw [db_of_move hm] at hrow
      exact hk.row j x hinserted row hrow hid

theorem kept_run (hw : w.UploadReady)
    (hrun : gateway.run ls (.start w (Request.pool requests)) = some cfg) :
    Uploading requests cfg ∧ FilesKept requests cfg :=
  Machine.run_induction (fun cfg => Uploading requests cfg ∧ FilesKept requests cfg)
    (fun h hs => ⟨uploading_step h.1 hs, kept_step h.1 h.2 hs⟩)
    ⟨uploading_start hw requests,
      fun _ _ hstored => (by cases hstored), fun _ _ _ _ hstored => (by cases hstored),
      fun _ _ hinserted => (by cases hinserted)⟩ hrun

theorem handedOver_published {i : ℕ} {event : CvUploadedEvent}
    (h : .handedOver event ∈ effects cfg i) : event ∈ published cfg := by
  obtain ⟨⟨c, a⟩, he, heff⟩ := List.mem_filterMap.mp h
  obtain rfl : c = .publish event := effect_of heff
  refine List.mem_filterMap.mpr ⟨_, Config.mem_trace.mp he, ?_⟩
  rcases a with e | _ | taken
  · cases heff
  · cases heff
  · rfl

/-- From the moment an upload resolves, whatever else runs, its file is in the store under the key it
answered, and its application names that key as long as it is there; one event about it has been
published, with that key. -/
theorem cv_kept (hw : w.UploadReady)
    (hrun : gateway.run ls (.start w (Request.pool requests)) = some cfg) {i : ℕ}
    {file : UploadedFile} (hfile : (requests i).file = some file) {result : Response}
    (ho : cfg.outcome? i = some (.ok result)) :
    ∃ response event, result = .uploaded response ∧
      cfg.world.storage.objects response.fileKey = some ⟨file.buffer, file.mimetype⟩ ∧
      (∀ row ∈ cfg.world.db.applications.rows, row.id = response.applicationId →
        row.cvFileKey = some response.fileKey) ∧
      event ∈ published cfg ∧ event.fileKey = response.fileKey ∧
      ∀ event' ∈ published cfg, event'.applicationId = response.applicationId ↔ event' = event := by
  obtain ⟨huploading, hkept⟩ := kept_run hw hrun
  have hannounced := announcedOnce_run hw hrun
  have hends := huploading.obey.outcome ho
  rw [stage_effects] at hends
  obtain ⟨o, hresult, hdone⟩ := hends file hfile
  cases o with
  | error e => cases hresult
  | ok response =>
    cases hresult
    obtain ⟨u, a, event, hs, hkey, hnames, hid, hfileKey⟩ := hdone
    have hpublished : event ∈ published cfg :=
      handedOver_published (i := i) (by simp [hs])
    refine ⟨response, event, rfl, ?_, fun row hrow hrowId => ?_, hpublished, ?_,
      fun event' hevent' => ⟨fun hsame => ?_, ?_⟩⟩
    · have hstored : .stored (file.key u) ∈ effects cfg i := by simp [hs]
      have hgone : .objectGone (file.key u) ∉ effects cfg i := by simp [hs]
      rw [hfileKey]
      exact hkept.object i file (file.key u) hfile hstored hgone
    · rw [hkept.row i a (by simp [hs]) row hrow (hrowId.trans hid), hkey, hfileKey]
    · rw [hfileKey, hnames.2.2.2]
    · exact List.inj_on_of_nodup_map hannounced.once hevent' hpublished
        (hsame.trans (hid.trans hnames.1.symm))
    · rintro rfl
      exact hnames.1.trans hid.symm

end Runs

/-! ## Ian -/

theorem announced_once_ian :
    ∃ cfg, gateway.run untilDelivered (.start seeded (Request.pool ianUploads)) = some cfg ∧
      ((published cfg).map CvUploadedEvent.applicationId).Nodup ∧
      cfg.world.broker = seeded.messages ++ published cfg := by
  have h : (gateway.run untilDelivered (.start seeded (Request.pool ianUploads))).map
      (fun cfg => cfg.world.channel.map Channel.queued) = some (some []) := by decide +kernel
  obtain ⟨cfg, hrun, hqueued⟩ := Option.map_eq_some_iff.mp h
  obtain ⟨-, honce, -, hheld⟩ := announced_once seeded_uploadReady hrun
  refine ⟨cfg, hrun, honce, ?_⟩
  have hall := hheld (by decide +kernel)
  rwa [World.messages, hqueued, Option.getD_some, List.append_nil] at hall

theorem cv_kept_ian :
    ∃ cfg, ∃ response : UploadCvResponseDto,
      gateway.run untilDelivered (.start seeded (Request.pool ianUploads)) = some cfg ∧
      cfg.world.storage.objects response.fileKey = some ⟨iansCv.buffer, iansCv.mimetype⟩ := by
  have h : (gateway.run untilDelivered (.start seeded (Request.pool ianUploads))).map
      (fun cfg => (cfg.outcome? 0).map statusOf) = some (some 200) := by decide +kernel
  obtain ⟨cfg, hrun, hstatus⟩ := Option.map_eq_some_iff.mp h
  obtain ⟨o, ho, hcode⟩ := Option.map_eq_some_iff.mp hstatus
  cases o with
  | error e =>
    exfalso
    cases e <;> cases hcode
  | ok result =>
    obtain ⟨response, -, -, hobject, -⟩ := cv_kept seeded_uploadReady hrun rfl ho
    exact ⟨cfg, response, hrun, hobject⟩

end TalentFlow
