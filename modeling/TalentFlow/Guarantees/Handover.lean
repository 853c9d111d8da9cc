import TalentFlow.Gateway.FileValidation
import TalentFlow.Gateway.WellFormed
import TalentFlow.Parser.Validation

/-!
# Guarantees.Handover

The event with which the gateway hands an uploaded CV over to the parser. Producer and parser state
their rules separately; the rules of the parser hold of everything that is published.

* `accepted_event`: an event with canonical ids, a bucket that `validateBucket` lets through and
  the key and type of an accepted file meets all rules of the parser.
* `createWithCv_publishes`: such are the events of `createWithCv`, as long as its calls are answered
  with canonical ids and such a bucket.
* `published_accepted`: in every run.
-/

namespace TalentFlow

open Data Async CvParser

/-! ## The parser's rules -/

/-- Five groups of hexadecimal digits, of 8, 4, 4, 4 and 12, with a hyphen in between. -/
def IsUuid (u : String) : Prop :=
  ∃ groups : List (List Char), groups.map List.length = [8, 4, 4, 4, 12] ∧
    (∀ g ∈ groups, ∀ c ∈ g, hexDigit c = true) ∧ u.toList = ['-'].intercalate groups

theorem IsUuid.groups {u : String} (h : IsUuid u) : ∃ a b c d e : List Char,
    a.length = 8 ∧ b.length = 4 ∧ c.length = 4 ∧ d.length = 4 ∧ e.length = 12 ∧
      (∀ x ∈ a ++ b ++ c ++ d ++ e, hexDigit x = true) ∧
      u.toList = a ++ ('-' :: (b ++ '-' :: (c ++ '-' :: (d ++ '-' :: e)))) := by
  obtain ⟨groups, hlen, hhex, hu⟩ := h
  obtain ⟨a, _, rfl, ha, hlen⟩ := List.map_eq_cons_iff.mp hlen
  obtain ⟨b, _, rfl, hb, hlen⟩ := List.map_eq_cons_iff.mp hlen
  obtain ⟨c, _, rfl, hc, hlen⟩ := List.map_eq_cons_iff.mp hlen
  obtain ⟨d, _, rfl, hd, hlen⟩ := List.map_eq_cons_iff.mp hlen
  obtain ⟨e, _, rfl, he, hlen⟩ := List.map_eq_cons_iff.mp hlen
  obtain rfl := List.map_eq_nil_iff.mp hlen
  refine ⟨a, b, c, d, e, ha, hb, hc, hd, he, ?_, ?_⟩
  · intro x hx
    simp only [List.mem_append] at hx
    simp only [List.mem_cons, List.not_mem_nil, or_false, forall_eq_or_imp, forall_eq] at hhex
    obtain ⟨h₁, h₂, h₃, h₄, h₅⟩ := hhex
    rcases hx with (((hx | hx) | hx) | hx) | hx
    · exact h₁ x hx
    · exact h₂ x hx
    · exact h₃ x hx
    · exact h₄ x hx
    · exact h₅ x hx
  · simpa [List.intercalate, List.intersperse] using hu

theorem spells_char {c : Char} : (char c).Spells [c] := ⟨c, by simp, rfl⟩

theorem uuid_pattern {u : String} (h : IsUuid u) : UUID_PATTERN.isMatch u = true := by
  obtain ⟨a, b, c, d, e, ha, hb, hc, hd, he, hhex, hu⟩ := h.groups
  have hgroup : ∀ {n : ℕ} {g : List Char}, g.length = n →
      (∀ x ∈ g, x ∈ a ++ b ++ c ++ d ++ e) → (Regex.times n (.one hexDigit)).Spells g :=
    fun hn hg => Regex.spells_times_one.mpr ⟨hn, fun x hx => hhex x (hg x hx)⟩
  rw [Regex.isMatch_iff, hu]
  refine .seq (hgroup ha ?_) (.seq spells_char (.seq (hgroup hb ?_) (.seq spells_char
    (.seq (hgroup hc ?_) (.seq spells_char (.seq (hgroup hd ?_) (.seq spells_char
      (hgroup he ?_))))))))
  all_goals
    intro x hx
    simp [hx]

theorem notBlank_of_mem {s : String} {c : Char} (hc : c ∈ s.toList) (h : ' ' < c) :
    notBlank (some s) = true := by
  simp only [notBlank, Option.any_some, List.any_eq_true, decide_eq_true_eq]
  exact ⟨c, hc, h⟩

theorem notBlank_uuid {u : String} (h : IsUuid u) : notBlank (some u) = true := by
  obtain ⟨a, b, c, d, e, -, -, -, -, -, -, hu⟩ := h.groups
  refine notBlank_of_mem (c := '-') ?_ (by decide)
  rw [hu]
  simp

theorem isLower_iff {c : Char} : c.isLower = true ↔ 'a' ≤ c ∧ c ≤ 'z' := by
  change (decide ('a' ≤ c) && decide (c ≤ 'z')) = true ↔ _
  rw [Bool.and_eq_true, decide_eq_true_eq, decide_eq_true_eq]

theorem isUpper_iff {c : Char} : c.isUpper = true ↔ 'A' ≤ c ∧ c ≤ 'Z' := by
  change decide ('A' ≤ c ∧ c ≤ 'Z') = true ↔ _
  rw [decide_eq_true_eq]

theorem isDigit_iff {c : Char} : c.isDigit = true ↔ '0' ≤ c ∧ c ≤ '9' := by
  change (decide ('0' ≤ c) && decide (c ≤ '9')) = true ↔ _
  rw [Bool.and_eq_true, decide_eq_true_eq, decide_eq_true_eq]

theorem fileKeyChar_iff {c : Char} : fileKeyChar c = true ↔
    ('A' ≤ c ∧ c ≤ 'Z') ∨ ('a' ≤ c ∧ c ≤ 'z') ∨ ('0' ≤ c ∧ c ≤ '9') ∨
      c = '/' ∨ c = '_' ∨ c = '.' ∨ c = '-' := by
  change ((c.isUpper || c.isLower || c.isDigit) || c == '/' || c == '_' || c == '.' ||
    c == '-') = true ↔ _
  simp only [Bool.or_eq_true, isUpper_iff, isLower_iff, isDigit_iff, beq_iff_eq, or_assoc]

theorem fileKeyChar_bounds {c : Char} (h : fileKeyChar c = true) : ' ' < c ∧ c.val ≤ 0xFFFF := by
  have hrange : ∀ {lo hi : Char}, ' ' < lo → hi.val ≤ 0xFFFF → lo ≤ c ∧ c ≤ hi →
      ' ' < c ∧ c.val ≤ 0xFFFF := fun hlo hhi hc =>
    ⟨UInt32.lt_of_lt_of_le hlo hc.1, UInt32.le_trans hc.2 hhi⟩
  obtain h | h | h | rfl | rfl | rfl | rfl := fileKeyChar_iff.mp h
  · exact hrange (by decide) (by decide) h
  · exact hrange (by decide) (by decide) h
  · exact hrange (by decide) (by decide) h
  all_goals decide

theorem fileKeyChar_of_bucketChar {c : Char} (h : bucketChar c = true) : fileKeyChar c = true := by
  simp only [bucketChar, bucketEnd, Bool.or_eq_true, isLower_iff, isDigit_iff, beq_iff_eq] at h
  rw [fileKeyChar_iff]
  tauto

theorem bucketChar_of_bucketEnd {c : Char} (h : bucketEnd c = true) : bucketChar c = true := by
  simp [bucketChar, h]

/-- Java counts the characters of a bucket name one by one. -/
theorem length_bucket {cs : List Char} (h : ∀ c ∈ cs, bucketChar c = true) :
    (cs.map fun c => if c.val ≤ 0xFFFF then 1 else 2).sum = cs.length := by
  induction cs with
  | nil => rfl
  | cons c cs ih =>
    have hc := (fileKeyChar_bounds (fileKeyChar_of_bucketChar (h c List.mem_cons_self))).2
    rw [List.map_cons, List.sum_cons, if_pos hc, ih fun x hx => h x (List.mem_cons_of_mem _ hx),
      List.length_cons]
    omega

/-- The validator's rule for bucket names is not more liberal than the event's. -/
theorem bucket_pattern {b : String} (h : FileValidator.validateBucket (some b) = .ok ()) :
    pattern BUCKET_PATTERN (some b) = true ∧ notBlank (some b) = true := by
  unfold FileValidator.validateBucket at h
  dsimp only at h
  split at h
  · cases h
  split at h
  · cases h
  rename_i hlen
  split at h
  · cases h
  rename_i hmatch
  have hspells := Regex.isMatch_iff.mp (by simpa using hmatch)
  obtain ⟨_, _, ⟨x, hx, rfl⟩, ⟨mid, _, hmid, ⟨y, hy, rfl⟩, rfl⟩, hb⟩ := hspells
  have hmid := Regex.spells_star_one.mp hmid
  have hchars : ∀ c ∈ b.toList, bucketChar c = true := by
    intro c hc
    simp only [hb, List.mem_append, List.mem_singleton] at hc
    rcases hc with rfl | hc | rfl
    · exact bucketChar_of_bucketEnd hx
    · exact hmid c hc
    · exact bucketChar_of_bucketEnd hy
  have hcount : FileValidator.length b = mid.length + 2 := by
    unfold FileValidator.length
    rw [length_bucket hchars, hb]
    simp
  constructor
  · rw [pattern, Option.all_some, Regex.isMatch_iff, hb]
    refine .seq ⟨x, hx, rfl⟩ (.seq ?_ ⟨y, hy, rfl⟩)
    exact (Regex.spells_between_one (by decide)).mpr ⟨by omega, by omega, hmid⟩
  · refine notBlank_of_mem (c := x) ?_ ?_
    · rw [hb]
      exact List.mem_append_left _ (List.mem_singleton_self x)
    · exact (fileKeyChar_bounds (fileKeyChar_of_bucketChar (bucketChar_of_bucketEnd hx))).1

/-! ### File keys -/

theorem eq_of_toLower_eq {c d : Char} (hc : c.toLower = c) (hlow : c.val < 97)
    (h : d.toLower = c.toLower) : d = c := by
  rw [hc] at h
  unfold Char.toLower at h
  split at h
  · rename_i hd
    subst h
    simp only [UInt32.lt_iff_toNat_lt, UInt32.le_iff_toNat_le, UInt32.toNat_add] at hlow hd
    simp at hlow hd
    omega
  · exact h

/-- What looks like a path traversal has a percent sign or two dots in it. -/
theorem traversal_spells {m : List Char} (h : FileValidator.PATH_TRAVERSAL_PATTERN.Spells m) :
    '%' ∈ m ∨ 2 ≤ m.count '.' := by
  have hdots : ∀ {s : String} {rest : List Char}, s.toList = '.' :: '.' :: rest →
      (FileValidator.caseless s).Spells m → 2 ≤ m.count '.' := by
    intro s rest hs hm
    rw [FileValidator.caseless, Regex.spells_word, hs, List.map_cons, List.map_cons] at hm
    cases hm with
    | cons hx hm =>
      cases hm with
      | cons hy _ =>
        obtain rfl := eq_of_toLower_eq rfl (by decide) (beq_iff_eq.mp hx)
        obtain rfl := eq_of_toLower_eq rfl (by decide) (beq_iff_eq.mp hy)
        simp
  have hpercent : ∀ {s : String} {rest : List Char}, s.toList = '%' :: rest →
      (FileValidator.caseless s).Spells m → '%' ∈ m := by
    intro s rest hs hm
    rw [FileValidator.caseless, Regex.spells_word, hs, List.map_cons] at hm
    cases hm with
    | cons hx _ =>
      obtain rfl := eq_of_toLower_eq rfl (by decide) (beq_iff_eq.mp hx)
      exact List.mem_cons_self
  rcases h with h | h | h | h | h | h
  · exact .inr (hdots rfl h)
  · exact .inr (hdots rfl h)
  · exact .inl (hpercent rfl h)
  · exact .inl (hpercent rfl h)
  · exact .inr (hdots rfl h)
  · exact .inl (hpercent rfl h)

/-- A key of allowed characters with at most one dot and one slash, which is not in front. -/
theorem validateFileKey_ok {key : String} {c : Char} {cs : List Char} (hkey : key.toList = c :: cs)
    (hchars : ∀ x ∈ key.toList, fileKeyChar x = true) (hdots : key.toList.count '.' ≤ 1)
    (hslashes : key.toList.count '/' ≤ 1) (hc : c ≠ '/') :
    FileValidator.validateFileKey (some key) = .ok () := by
  have hne : key ≠ "" := by
    rintro rfl
    cases hkey
  have htraversal : FileValidator.PATH_TRAVERSAL_PATTERN.find key = false := by
    rw [Bool.eq_false_iff]
    intro hfind
    obtain ⟨m, hm, hpart⟩ := Regex.find_iff.mp hfind
    obtain hpercent | htwo := traversal_spells hm
    · have hbad := hchars '%' (hpart.subset hpercent)
      revert hbad
      decide
    · have hcount := hpart.sublist.count_le '.'
      omega
  have hmatch : VALID_FILE_KEY_PATTERN.isMatch key = true :=
    Regex.isMatch_iff.mpr (Regex.spells_plus_one.mpr ⟨by simp [hkey], hchars⟩)
  have hdouble : ¬ ['/', '/'] <:+: key.toList := by
    intro hpart
    have hcount := hpart.sublist.count_le '/'
    have htwo : ['/', '/'].count '/' = 2 := rfl
    omega
  have hfront : ¬ ['/'] <+: key.toList := by
    rw [hkey, List.cons_prefix_cons]
    exact fun h => hc h.1.symm
  unfold FileValidator.validateFileKey
  dsimp only
  rw [if_neg hne, htraversal, hmatch, if_neg hdouble, if_neg hfront]
  rfl

theorem hexDigit_fileKeyChar {c : Char} (h : hexDigit c = true) :
    fileKeyChar c = true ∧ c ≠ '.' ∧ c ≠ '/' := by
  refine ⟨?_, ?_, ?_⟩
  · simp only [hexDigit, Bool.or_eq_true, decide_eq_true_eq, isDigit_iff] at h
    rw [fileKeyChar_iff]
    rcases h with (h | ⟨hl, hu⟩) | ⟨hl, hu⟩
    · exact .inr (.inr (.inl h))
    · exact .inr (.inl ⟨hl, UInt32.le_trans hu (by decide)⟩)
    · exact .inl ⟨hl, UInt32.le_trans hu (by decide)⟩
  · rintro rfl
    revert h
    decide
  · rintro rfl
    revert h
    decide

theorem IsUuid.chars {u : String} (h : IsUuid u) {x : Char} (hx : x ∈ u.toList) :
    fileKeyChar x = true ∧ x ≠ '.' ∧ x ≠ '/' := by
  obtain ⟨a, b, c, d, e, -, -, -, -, -, hhex, hu⟩ := h.groups
  by_cases hdash : x = '-'
  · subst hdash
    decide
  · refine hexDigit_fileKeyChar (hhex x ?_)
    rw [hu] at hx
    simp only [List.mem_append, List.mem_cons, hdash, false_or] at hx ⊢
    tauto

theorem allowedExtension_chars {extension : String} (h : extension ∈ ALLOWED_EXTENSIONS) :
    ∀ x ∈ extension.toList, fileKeyChar x = true ∧ x ≠ '.' ∧ x ≠ '/' := by
  have hall : ALLOWED_EXTENSIONS.all (fun e => e.toList.all fun x =>
      fileKeyChar x && (decide (x ≠ '.') && decide (x ≠ '/'))) = true := by decide
  intro x hx
  have hx' := List.all_eq_true.mp (List.all_eq_true.mp hall extension h) x hx
  simpa only [Bool.and_eq_true, decide_eq_true_eq] using hx'

theorem cvFileKey_ok {uuid extension : String} (huuid : IsUuid uuid)
    (hext : extension ∈ ALLOWED_EXTENSIONS) :
    FileValidator.validateFileKey (some (cvFileKey uuid extension)) = .ok () ∧
      pattern VALID_FILE_KEY_PATTERN (some (cvFileKey uuid extension)) = true ∧
      notBlank (some (cvFileKey uuid extension)) = true := by
  have hkey : (cvFileKey uuid extension).toList =
      'c' :: 'v' :: 's' :: '/' :: (uuid.toList ++ '.' :: extension.toList) := by
    simp [cvFileKey, String.toList_append]
  have hparts : ∀ x ∈ uuid.toList ++ extension.toList, fileKeyChar x = true ∧ x ≠ '.' ∧ x ≠ '/' := by
    intro x hx
    rcases List.mem_append.mp hx with hx | hx
    · exact huuid.chars hx
    · exact allowedExtension_chars hext x hx
  have hchars : ∀ x ∈ (cvFileKey uuid extension).toList, fileKeyChar x = true := by
    intro x hx
    rw [hkey] at hx
    simp only [List.mem_cons, List.mem_append] at hx
    rcases hx with rfl | rfl | rfl | rfl | hx | rfl | hx
    all_goals first
      | decide
      | exact (hparts x (by simp [hx])).1
  have hcount : ∀ x, (∀ y ∈ uuid.toList ++ extension.toList, y ≠ x) →
      uuid.toList.count x = 0 ∧ extension.toList.count x = 0 := by
    intro x hne
    constructor
    · exact List.count_eq_zero.mpr fun hx => hne x (List.mem_append_left _ hx) rfl
    · exact List.count_eq_zero.mpr fun hx => hne x (List.mem_append_right _ hx) rfl
  obtain ⟨hdot₁, hdot₂⟩ := hcount '.' fun y hy => (hparts y hy).2.1
  obtain ⟨hslash₁, hslash₂⟩ := hcount '/' fun y hy => (hparts y hy).2.2
  refine ⟨validateFileKey_ok hkey hchars ?_ ?_ (by decide), ?_, ?_⟩
  · simp [hkey, List.count_append, hdot₁, hdot₂]
  · simp [hkey, List.count_append, hslash₁, hslash₂]
  · rw [pattern, Option.all_some, Regex.isMatch_iff]
    exact Regex.spells_plus_one.mpr ⟨by simp [hkey], hchars⟩
  · exact notBlank_of_mem (by rw [hkey]; exact List.mem_cons_self) (by decide)

/-! ## Messages -/

section Messages

variable {Instant : Type} (toISOString : Time → String) (readInstant : String → Option Instant)

/-- The event as it arrives: `uploadedAt` is written by `toISOString` and read by Jackson. -/
def readMessage (e : CvUploadedEvent) : CvParser.CvUploadedEvent Instant where
  candidateId := some e.candidateId
  applicationId := some e.applicationId
  jobId := some e.jobId
  bucket := some e.bucket
  fileKey := some e.fileKey
  mimeType := some e.mimeType
  uploadedAt := readInstant (toISOString e.uploadedAt)

/-- The event meets all rules of the parser. -/
structure ParserAccepts (e : CvUploadedEvent) : Prop where
  violations : (readMessage toISOString readInstant e).violations = []
  fileKey : FileValidator.validateFileKey (some e.fileKey) = .ok ()
  mimeType : e.mimeType ∈ FileValidator.allowedTypes

variable {toISOString readInstant}
  (reads : ∀ t, (readInstant (toISOString t)).isSome = true)

include reads in
theorem accepted_event {e : CvUploadedEvent} (hcandidate : IsUuid e.candidateId)
    (happlication : IsUuid e.applicationId) (hjob : IsUuid e.jobId)
    (hbucket : FileValidator.validateBucket (some e.bucket) = .ok ()) {uuid extension : String}
    (hkey : e.fileKey = cvFileKey uuid extension) (huuid : IsUuid uuid)
    (hext : extension ∈ ALLOWED_EXTENSIONS) (hmime : e.mimeType ∈ FileValidator.allowedTypes) :
    ParserAccepts toISOString readInstant e := by
  obtain ⟨hfile, hpattern, hkeyBlank⟩ := cvFileKey_ok huuid hext
  obtain ⟨hbucketPattern, hbucketBlank⟩ := bucket_pattern hbucket
  have hmimeBlank : notBlank (some e.mimeType) = true := by
    rcases List.mem_pair.mp hmime with h | h <;> rw [h] <;> decide
  have huuids : ∀ {u : String}, IsUuid u → pattern UUID_PATTERN (some u) = true :=
    fun h => uuid_pattern h
  rw [← hkey] at hfile hpattern hkeyBlank
  refine ⟨?_, hfile, hmime⟩
  simp only [CvParser.CvUploadedEvent.violations, readMessage, constraint,
    notBlank_uuid hcandidate, notBlank_uuid happlication, notBlank_uuid hjob, huuids hcandidate,
    huuids happlication, huuids hjob, hbucketBlank, hbucketPattern, hkeyBlank, hpattern,
    hmimeBlank, reads, if_true, List.append_nil]

/-- What a file looks like after `FileValidationPipe`. -/
theorem transform_mimetype {file : MulterFile}
    (h : FileValidationPipe.transform (some file) = .ok file) :
    file.mimetype ∈ FileValidator.allowedTypes := by
  unfold FileValidationPipe.transform at h
  dsimp only at h
  split at h
  · cases h
  rename_i hmime
  have hallowed : file.mimetype ∈ FileValidationPipe.ALLOWED_MIME_TYPES := by simpa using hmime
  exact hallowed

end Messages

/-! ## Programs -/

/-- Ids are canonical, and the bucket is one that the validator lets through. -/
def IsCanonical : (c : Call) → Api.Answer c → Prop
  | .prisma (.jobFindUnique id), .ok (some job) => job.id = id ∧ IsUuid job.id
  | .prisma (.candidateFindUnique _), .ok (some candidate) => IsUuid candidate.id
  | .prisma (.candidateCreate _), .ok candidate => IsUuid candidate.id
  | .prisma (.applicationCreate _), .ok application => IsUuid application.id
  | .storage .getBucketName, .ok bucket => FileValidator.validateBucket (some bucket) = .ok ()
  | .randomUUID, .ok uuid => IsUuid uuid
  | _, _ => True

/-- Watches the events that are published. -/
def handoverMonitor (accepts : CvUploadedEvent → Prop) : Monitor Api Unit where
  next s _ := s
  call _
    | .publish event => accepts event
    | _ => True
  answer _ := IsCanonical

section Programs

variable {accepts : CvUploadedEvent → Prop}

theorem handover_of_calls {α : Type} {p : Prog Api α}
    (hp : p.Calls fun c : Call => ∀ event, c ≠ .publish event) :
    Obeys (handoverMonitor accepts) (fun _ _ => True) p () := by
  refine obeys_of_allowed hp fun s c hc => ?_
  cases c with
  | publish event => exact absurd rfl (hc event)
  | _ => trivial

/-- The candidate of the user, found or created, has a canonical id. -/
theorem handover_candidate {α : Type} {userId : String} {f : Candidate → Prog Api α}
    (hf : ∀ c : Candidate, IsUuid c.id →
      Obeys (handoverMonitor accepts) (fun _ _ => True) (f c) ()) :
    Obeys (handoverMonitor accepts) (fun _ _ => True)
      (ApplicationsService.findOrCreateCandidateOrThrow userId >>= f) () := by
  refine obeys_bind (obeys_await trivial (fun user _ => ?_) fun _ _ => trivial)
  cases user with
  | none => trivial
  | some user =>
    refine obeys_await trivial (fun candidate hfound => ?_) fun _ _ => trivial
    cases candidate with
    | some candidate => exact hf candidate hfound
    | none =>
      refine obeys_await_last trivial fun created hcreated => ?_
      cases created with
      | ok candidate => exact hf candidate hcreated
      | error e => trivial

/-- The events of `createWithCv` are those of accepted files and canonical ids. -/
theorem createWithCv_publishes (userId : String) (file : UploadedFile) (dto : UploadCvDto)
    (haccepts : ∀ e : CvUploadedEvent, IsUuid e.candidateId → IsUuid e.applicationId →
      IsUuid e.jobId → FileValidator.validateBucket (some e.bucket) = .ok () →
        (∃ uuid, IsUuid uuid ∧ e.fileKey = cvFileKey uuid (safeExtension file.originalname)) →
          e.mimeType = file.mimetype → accepts e) :
    Obeys (handoverMonitor accepts) (fun _ _ => True)
      (ApplicationsService.createWithCv userId file dto) () := by
  have hfail : ∀ id key, Obeys (handoverMonitor accepts) (fun _ _ => True)
      (ApplicationsService.failCreateWithCv id key) () := fun id key =>
    handover_of_calls (failCreateWithCv_calls (by simp) (by simp) id key)
  unfold ApplicationsService.createWithCv
  refine obeys_bind (obeys_await trivial (fun found hfound => ?_) fun _ _ => trivial)
  cases hjob : found.filter fun job => job.deletedAt.isNone with
  | none => trivial
  | some job =>
    dsimp only
    split
    · trivial
    obtain ⟨rfl, hlive⟩ := Option.filter_eq_some_iff.mp hjob
    obtain ⟨hid, hjobUuid⟩ := hfound
    refine handover_candidate fun candidate hcandidate => ?_
    refine obeys_bind (obeys_await trivial (fun existing _ => ?_) fun _ _ => trivial)
    cases existing with
    | some a => trivial
    | none =>
    refine obeys_bind (obeys_bind (obeys_await trivial (fun uuid huuid => ?_) fun _ _ => trivial))
    refine obeys_tryCatch (obeys_await trivial (fun uploaded _ => ?_) fun _ _ => trivial)
    refine obeys_attempt (obeys_await_last trivial fun created hcreated => ?_)
    cases created with
    | error e => exact hfail none _
    | ok application =>
      refine obeys_attempt (obeys_await trivial (fun bucket hbucket => ?_) fun e _ => ?_)
      · refine obeys_await trivial (fun uploadedAt _ => ?_) fun e _ => hfail _ _
        refine obeys_await ?_ (fun published _ => ?_) fun e _ => hfail _ _
        · exact haccepts _ hcandidate hcreated (hid ▸ hjobUuid) hbucket ⟨uuid, huuid, rfl⟩ rfl
        · cases published with
          | none => exact hfail _ _
          | some sent =>
            cases sent with
            | false => exact hfail _ _
            | true =>
              exact handover_of_calls (buildUploadResponse_calls (by
                rintro c hc event rfl
                exact hc) _ _ _)
      · exact hfail _ _

theorem request_publishes {r : Request}
    (hupload : ∀ userId file dto, r = .createApplicationWithCv userId file dto →
      Obeys (handoverMonitor accepts) (fun _ _ => True)
        (ApplicationsService.createWithCv userId file dto) ()) :
    Obeys (handoverMonitor accepts) (fun _ _ => True) r.prog () := by
  have hplain : (∀ userId file dto, r ≠ .createApplicationWithCv userId file dto) →
      Obeys (handoverMonitor accepts) (fun _ _ => True) r.prog () := by
    intro hne
    refine handover_of_calls (calls_mono (prog_calls r) ?_)
    rintro c hc event rfl
    obtain hquiet | hfoot := hc
    · exact hquiet
    · cases r with
      | createApplicationWithCv userId file dto => exact absurd rfl (hne userId file dto)
      | _ => simp [Request.footprint] at hfoot
  cases r with
  | createApplicationWithCv userId file dto =>
    refine obeys_bind (obeys_mono (hupload userId file dto rfl) fun o s _ => ?_)
    cases o <;> trivial
  | _ => exact hplain (by simp)

end Programs

/-! ## Steps -/

/-- Where the parser's rules come from: all ids are canonical, and the bucket has a valid name. -/
structure HandoverInv (w : World) : Prop where
  wf : w.Wf
  uuids : ∀ u ∈ w.uuids, IsUuid u
  jobs : ∀ j ∈ w.db.jobs.rows, IsUuid j.id
  bucket : FileValidator.validateBucket (some w.storage.bucketName) = .ok ()

section Step

variable {i : ℕ} {ch : Choice} {w w' : World} {c : Call} {r : Api.Answer c}

theorem jobs_exec (h : gateway.exec i c ch w = some (r, w')) {j : Job}
    (hj : j ∈ w'.db.jobs.rows) : ∃ j₀ ∈ w.db.jobs.rows, j₀.id = j.id := by
  cases c with
  | prisma c =>
    obtain ⟨e, -, rfl⟩ | ⟨v, db, -, -, hperf, -, rfl⟩ := prisma_cases h
    · exact ⟨j, hj, rfl⟩
    · cases c with
      | jobUpdate key d =>
        obtain ⟨-, -, -, -, rfl⟩ := PrismaCall.perform_jobUpdate hperf
        obtain ⟨hj, -⟩ | ⟨j₀, hj₀, -, rfl⟩ :=
          (@Db.mem_modifyJob w.db key (d.apply w.now) (fun _ => rfl) (fun _ => rfl) j).mp hj
        · exact ⟨j, hj, rfl⟩
        · exact ⟨j₀, hj₀, rfl⟩
      | _ =>
        rw [(PrismaCall.perform_frame hperf).jobs (by simp)] at hj
        exact ⟨j, hj, rfl⟩
  | _ =>
    rw [(exec_frame h).db (by simp)] at hj
    exact ⟨j, hj, rfl⟩

theorem bucketName_exec (h : gateway.exec i c ch w = some (r, w')) :
    w'.storage.bucketName = w.storage.bucketName := by
  cases c with
  | storage c =>
    obtain ⟨-, rfl⟩ | ⟨-, rfl⟩ := storage_cases h
    · rfl
    · cases c <;> rfl
  | _ => rw [(exec_frame h).storage (by simp)]

theorem handoverInv_exec (hinv : HandoverInv w) (huuids : ∀ u ∈ w'.uuids, IsUuid u)
    (h : gateway.exec i c ch w = some (r, w')) : HandoverInv w' := by
  refine ⟨wf_exec h hinv.wf, huuids, fun j hj => ?_, ?_⟩
  · obtain ⟨j₀, hj₀, hid⟩ := jobs_exec h hj
    exact hid ▸ hinv.jobs j₀ hj₀
  · rw [bucketName_exec h]
    exact hinv.bucket

theorem handoverInv_move {mv : Move} (hinv : HandoverInv w) (h : gateway.move mv w = some w') :
    HandoverInv w' := by
  have hwf := wf_move h hinv.wf
  obtain ⟨elapsed, -, rfl⟩ | ⟨channel, broker, rfl⟩ := move_cases h
  · exact ⟨hwf, hinv.uuids, hinv.jobs, hinv.bucket⟩
  · exact ⟨hwf, hinv.uuids, hinv.jobs, hinv.bucket⟩

theorem isCanonical_exec (hinv : HandoverInv w) (huuids : ∀ u ∈ w'.uuids, IsUuid u)
    (h : gateway.exec i c ch w = some (r, w')) : IsCanonical c r := by
  unfold IsCanonical
  split
  · rename_i id job
    obtain ⟨rfl, ⟨e, he⟩ | ⟨v, hv, hperf⟩⟩ := read_cases (c := .jobFindUnique id) trivial h
    · cases he
    · cases hv
      obtain ⟨hjob, hid⟩ := Table.find?_eq_some.mp (Except.ok.inj (congrArg Prod.fst hperf))
      exact ⟨hid, hinv.jobs job hjob⟩
  · rename_i wh candidate
    obtain ⟨rfl, ⟨e, he⟩ | ⟨v, hv, hperf⟩⟩ := read_cases (c := .candidateFindUnique wh) trivial h
    · cases he
    · cases hv
      have hfind : w'.db.findCandidate wh = some candidate :=
        Except.ok.inj (congrArg Prod.fst hperf)
      have hrow : candidate ∈ w'.db.candidates.rows := by
        cases wh with
        | id id => exact (Table.find?_eq_some.mp hfind).1
        | email email => exact (Table.findUnique?_eq_some.mp hfind).1
      exact hinv.uuids _ (hinv.wf.candidates candidate hrow)
  · rename_i d candidate
    obtain ⟨e, he, -⟩ | ⟨v, db, -, -, hperf, hv, rfl⟩ := prisma_cases h
    · cases he
    · cases hv
      obtain ⟨rfl, -⟩ := PrismaCall.perform_candidateCreate hperf
      exact huuids _ (by simp [World.uuids, PrismaCall.drawsId, CandidateCreate.row])
  · rename_i d application
    obtain ⟨e, he, -⟩ | ⟨v, db, -, -, hperf, hv, rfl⟩ := prisma_cases h
    · cases he
    · cases hv
      obtain ⟨rfl, -⟩ := PrismaCall.perform_applicationCreate hperf
      exact huuids _ (by simp [World.uuids, PrismaCall.drawsId, ApplicationCreate.row])
  · rename_i bucket
    obtain ⟨he, -⟩ | ⟨hok, -⟩ := storage_cases h
    · cases he
    · cases hok
      exact hinv.bucket
  · rename_i uuid
    obtain ⟨u, -, hok, rfl⟩ := randomUUID_cases h
    cases hok
    exact huuids uuid (by simp [World.uuids])
  · trivial

end Step

/-! ## Runs -/

section Run

variable {ls : List (Label ℕ Choice Move)} {cfg cfg' : Config Api ℕ World Response}

/-- Every UUID was canonical when it was drawn, if all that are drawn in the end are. -/
theorem along_uuids (hrun : gateway.run ls cfg = some cfg')
    (huuids : ∀ u ∈ cfg'.world.uuids, IsUuid u) :
    gateway.Along (fun cfg l => ∀ cfg₁, gateway.step l cfg = some cfg₁ →
      ∀ u ∈ cfg₁.world.uuids, IsUuid u) ls cfg := by
  induction ls generalizing cfg with
  | nil => trivial
  | cons l ls ih =>
    obtain ⟨cfg₂, hs, hrest⟩ := Machine.run_cons.mp hrun
    have hsame : ∀ cfg₁, gateway.step l cfg = some cfg₁ → cfg₁ = cfg₂ := fun cfg₁ h =>
      Option.some.inj (h.symm.trans hs)
    refine ⟨fun cfg₁ h u hu => ?_, fun cfg₁ h => ?_⟩
    · rw [hsame cfg₁ h] at hu
      exact huuids u (uuids_run hu hrest)
    · rw [hsame cfg₁ h]
      exact ih hrest

def publishing? : Prog Api Response → Option CvUploadedEvent
  | .call (.publish event) _ => some event
  | _ => none

theorem publishing?_eq_some {p : Prog Api Response} {e : CvUploadedEvent}
    (h : publishing? p = some e) : ∃ k, p = .call (.publish e) k := by
  unfold publishing? at h
  split at h
  · cases h
    exact ⟨_, rfl⟩
  · cases h

variable {Instant : Type} {toISOString : Time → String} {readInstant : String → Option Instant}

/-- Whatever requests run, and however they interleave: every event that is about to be published
meets all rules of the parser. The files have passed the pipe, `randomUUID` and the database yield
canonical ids, the bucket is one that the parser's validator lets through, and Jackson reads the
instants that `toISOString` writes. -/
theorem published_accepted (reads : ∀ t, (readInstant (toISOString t)).isSome = true)
    {requests : ℕ → Request}
    (hfiles : ∀ i userId file dto, requests i = .createApplicationWithCv userId file dto →
      ∃ f : MulterFile, FileValidationPipe.transform (some f) = .ok f ∧ f.toUploadedFile = file)
    {w : World} (hw : w.Wf) (hjobs : ∀ j ∈ w.db.jobs.rows, IsUuid j.id)
    (hbucket : FileValidator.validateBucket (some w.storage.bucketName) = .ok ())
    (hrun : gateway.run ls (.start w (Request.pool requests)) = some cfg)
    (huuids : ∀ u ∈ cfg.world.uuids, IsUuid u) {i : ℕ} {e : CvUploadedEvent}
    (hnext : publishing? (cfg.pool i) = some e) : ParserAccepts toISOString readInstant e := by
  have hobey : AllObey (fun _ => handoverMonitor (ParserAccepts toISOString readInstant))
      (fun _ => ()) (fun _ _ _ => True) (Config.start w (Request.pool requests)) := by
    intro i
    refine request_publishes fun userId file dto hr => ?_
    obtain ⟨f, haccepted, rfl⟩ := hfiles i userId file dto hr
    refine createWithCv_publishes userId _ dto fun e hc ha hj hb hkey hmime => ?_
    obtain ⟨uuid, huuid, hkey⟩ := hkey
    refine accepted_event reads hc ha hj hb hkey huuid (safeExtension_allowed _) ?_
    rw [hmime]
    exact transform_mimetype haccepted
  have hstart : HandoverInv w :=
    ⟨hw, fun u hu => huuids u (@uuids_run _ _ (.start w (Request.pool requests)) _ _ hu hrun),
      hjobs, hbucket⟩
  obtain ⟨hobey', -⟩ := run_invariant_along (fun w _ => HandoverInv w)
    (fun _ hinv hl hp _ hx => by
      have hdrawn := hl _ (Machine.step_run hp hx)
      exact ⟨isCanonical_exec hinv hdrawn hx, handoverInv_exec hinv hdrawn hx⟩)
    (fun hinv hm => handoverInv_move hinv hm) hobey hstart (along_uuids hrun huuids) hrun
  obtain ⟨k, hk⟩ := publishing?_eq_some hnext
  exact hobey'.call hk

end Run

/-! ## A published event -/

def nia : User where
  id := "3f0c2b1e-8a4d-4c57-9b60-1d2e3f4a5b6c"
  email := "nia@mail.dev"
  password := "hash:nia"
  fullName := "Nia"
  createdAt := 0
  updatedAt := 0

def designer : Job where
  id := "7b1d9c80-52aa-4f3e-8e11-0a9b8c7d6e5f"
  title := "Designer"
  status := .open
  createdById := nia.id
  createdAt := 0
  updatedAt := 0

def hiring : World :=
  { seeded with
    db :=
      { Db.empty with
        users := ⟨[nia], by decide, by decide⟩
        users_text := by decide +kernel
        jobs := ⟨[designer], by decide, by decide⟩
        jobs_created_by_id_fkey := by decide
        applications_job_id_fkey := fun _ hx => absurd hx List.not_mem_nil
        interviews_interviewer_id_fkey := fun _ hx => absurd hx List.not_mem_nil }
    drawn := [(0, nia.id), (0, designer.id)] }

/-- A name with blanks, dots and no ASCII in it. -/
def niasFile : MulterFile where
  originalname := "../Curriculum Vitæ 2.0.PDF"
  mimetype := "application/pdf"
  buffer := [0x25, 0x50, 0x44, 0x46, 0x2D, 0x31]
  size := 6

def niasRequests (_ : ℕ) : Request :=
  .createApplicationWithCv nia.id niasFile.toUploadedFile { jobId := designer.id }

/-- Nia's request up to the publication: a candidate, a key and an application get their ids. -/
def niasUpload : List (Label ℕ Choice Move) :=
  [.run 0 {}, .run 0 {}, .run 0 {}, .run 0 { uuid := "11111111-2222-4333-8444-555555555555" },
    .run 0 {}, .run 0 { uuid := "aaaaaaaa-bbbb-4ccc-8ddd-eeeeeeeeeeee" }, .run 0 {},
    .run 0 { uuid := "99999999-8888-4777-8666-000000000000" }, .run 0 {}, .run 0 {}]

/-- The text is five such groups. -/
def splitsAsUuid (u : String) : Bool :=
  let groups := u.toList.splitOn '-'
  decide (groups.map List.length = [8, 4, 4, 4, 12]) && groups.all (·.all hexDigit) &&
    decide (u.toList = ['-'].intercalate groups)

theorem isUuid_of_splits {u : String} (h : splitsAsUuid u = true) : IsUuid u := by
  simp only [splitsAsUuid, Bool.and_eq_true, decide_eq_true_eq, List.all_eq_true] at h
  exact ⟨_, h.1.1, h.1.2, h.2⟩

theorem published_accepted_nia :
    ∃ cfg e, gateway.run niasUpload (.start hiring (Request.pool niasRequests)) = some cfg ∧
      publishing? (cfg.pool 0) = some e ∧
      e.fileKey = "cvs/aaaaaaaa-bbbb-4ccc-8ddd-eeeeeeeeeeee.pdf" ∧
      ParserAccepts (fun _ => "1970-01-01T00:00:00.000Z")
        (fun s => if s = "1970-01-01T00:00:00.000Z" then some 0 else none) e := by
  have h : ((gateway.run niasUpload (.start hiring (Request.pool niasRequests))).bind fun cfg =>
      (publishing? (cfg.pool 0)).map fun e =>
        (cfg.world.uuids.all splitsAsUuid, e.fileKey)) =
      some (true, "cvs/aaaaaaaa-bbbb-4ccc-8ddd-eeeeeeeeeeee.pdf") := by decide +kernel
  obtain ⟨cfg, hrun, h⟩ := Option.bind_eq_some_iff.mp h
  obtain ⟨e, he, h⟩ := Option.map_eq_some_iff.mp h
  obtain ⟨huuids, hkey⟩ : cfg.world.uuids.all splitsAsUuid = true ∧
      e.fileKey = "cvs/aaaaaaaa-bbbb-4ccc-8ddd-eeeeeeeeeeee.pdf" := by
    simpa only [Prod.mk.injEq] using h
  refine ⟨cfg, e, hrun, he, hkey, published_accepted ?_ ?_ ?_ ?_ ?_ hrun ?_ he⟩
  · exact fun _ => rfl
  · rintro i userId file dto ⟨⟩
    exact ⟨niasFile, rfl, rfl⟩
  · refine ⟨by decide, by decide, ?_, ?_⟩
    · exact fun _ hx => absurd hx List.not_mem_nil
    · exact fun _ hx => absurd hx List.not_mem_nil
  · intro j hj
    obtain rfl := List.mem_singleton.mp hj
    exact isUuid_of_splits (by decide +kernel)
  · decide +kernel
  · exact fun u hu => isUuid_of_splits (List.all_eq_true.mp huuids u hu)

end TalentFlow
