import TalentFlow.Gateway.Alone
import TalentFlow.Guarantees.Handover

/-!
# Guarantees.FileChecks

What the checks on file keys, bucket names and uploads let through.

* `accepted_key_stays_inside`: a key that `validateFileKey` accepts stays below the directory it is
  resolved in, unless its last segment is `..`; `parent_key_accepted` is such a key.
* `accepted_file_consistent`: type, name and content of a file that the pipe accepts denote one
  format if the declared type is that of the extension; `mislabelled_file_accepted` is a file for
  which it is not.
* `validateBucket_iff`: the two rules for bucket names are the same.
* `stored_extension_iff`: the key of an accepted file ends with the extension that was checked,
  unless the name is nothing but `docx`; `bare_docx_stored_as_pdf` is such a file.
-/

namespace TalentFlow

open Data Async CvParser

/-! ## File keys -/

namespace CvParser.FileValidator

def segments (k : String) : List (List Char) := k.toList.splitOn '/'

/-- The directory in which a path ends that starts in `dir`. -/
def resolve (dir : List (List Char)) : List (List Char) → List (List Char)
  | [] => dir
  | s :: rest =>
    if s = ['.', '.'] then resolve dir.dropLast rest
    else if s = [] ∨ s = ['.'] then resolve dir rest
    else resolve (dir ++ [s]) rest

/-- Resolving a key does not leave the directory. -/
structure StaysInside (k : String) : Prop where
  not_empty : k ≠ ""
  no_parent : ['.', '.'] ∉ segments k
  below : ∀ dir, dir <+: resolve dir (segments k)
  relative : ¬ ['/'] <+: k.toList
  inner : ∀ s ∈ (segments k).tail.dropLast, s ≠ []

/-- The last segment of the key is the parent directory. -/
def EndsInParent (k : String) : Prop := k = ".." ∨ ['/', '.', '.'] <:+ k.toList

theorem resolve_below {segs : List (List Char)} (h : ['.', '.'] ∉ segs)
    (dir : List (List Char)) : dir <+: resolve dir segs := by
  induction segs generalizing dir with
  | nil => exact List.prefix_rfl
  | cons s rest ih =>
    obtain ⟨hs, hrest⟩ := not_or.mp fun hmem => h (List.mem_cons.mpr hmem)
    rw [resolve, if_neg (Ne.symm hs)]
    split
    · exact ih hrest dir
    · exact (List.prefix_append dir [s]).trans (ih hrest _)

/-- Where a segment stands in its key: a slash on each side, or the key ends there. -/
theorem segment_place {cs : List Char} {before after : List (List Char)} {s : List Char}
    (h : cs.splitOn '/' = before ++ s :: after) :
    ∃ u v, cs = u ++ s ++ v ∧
      (before = [] ∧ u = [] ∨ before ≠ [] ∧ ∃ u', u = u' ++ ['/']) ∧
      (after = [] ∧ v = [] ∨ after ≠ [] ∧ ∃ v', v = '/' :: v') := by
  have hcs : cs = ['/'].intercalate (before ++ s :: after) := by
    rw [← h, List.intercalate_splitOn]
  clear h
  have htail : ∃ v, ['/'].intercalate (s :: after) = s ++ v ∧
      (after = [] ∧ v = [] ∨ after ≠ [] ∧ ∃ v', v = '/' :: v') := by
    cases after with
    | nil => exact ⟨[], by simp, .inl ⟨rfl, rfl⟩⟩
    | cons t after =>
      exact ⟨'/' :: ['/'].intercalate (t :: after), by simp [List.intercalate_cons_cons],
        .inr ⟨by simp, _, rfl⟩⟩
  obtain ⟨v, hv, hafter⟩ := htail
  induction before generalizing cs with
  | nil => exact ⟨[], v, by rw [hcs, List.nil_append, hv, List.nil_append], .inl ⟨rfl, rfl⟩, hafter⟩
  | cons b before ih =>
    obtain ⟨u, v', hu, hbefore, hv'⟩ := ih rfl
    refine ⟨b ++ '/' :: u, v', ?_, .inr ⟨by simp, ?_⟩, hv'⟩
    · rw [hcs, List.cons_append, List.intercalate_cons_of_ne_nil (by simp), hu]
      simp
    · rcases hbefore with ⟨-, rfl⟩ | ⟨-, u', rfl⟩
      · exact ⟨b, rfl⟩
      · exact ⟨b ++ '/' :: u', by simp⟩

theorem validateFileKey_inv {k : String} (h : validateFileKey (some k) = .ok ()) :
    k ≠ "" ∧ PATH_TRAVERSAL_PATTERN.find k = false ∧ ¬ ['/', '/'] <:+: k.toList ∧
      ¬ ['/'] <+: k.toList := by
  unfold validateFileKey at h
  dsimp only at h
  split at h
  · cases h
  split at h
  · cases h
  split at h
  · cases h
  split at h
  · cases h
  split at h
  · cases h
  rename_i hempty htraversal _ hdouble hfront
  exact ⟨hempty, by simpa using htraversal, hdouble, hfront⟩

theorem no_parent_slash {k : String} (h : PATH_TRAVERSAL_PATTERN.find k = false) :
    ¬ ['.', '.', '/'] <:+: k.toList := by
  intro hpart
  have hspells : PATH_TRAVERSAL_PATTERN.Spells ['.', '.', '/'] := by
    refine .inl (Regex.spells_word.mpr ?_)
    exact .cons (by decide) (.cons (by decide) (.cons (by decide) .nil))
  have hfind := Regex.find_iff.mpr ⟨_, hspells, hpart⟩
  rw [h] at hfind
  cases hfind

/-- Only the last segment of an accepted key can be the parent directory. -/
theorem parent_segment {k : String} (h : PATH_TRAVERSAL_PATTERN.find k = false) :
    ['.', '.'] ∈ segments k ↔ EndsInParent k := by
  constructor
  · intro hmem
    obtain ⟨before, after, hsegs⟩ := List.append_of_mem hmem
    obtain ⟨u, v, hk, hbefore, hafter⟩ := segment_place hsegs
    rcases hafter with ⟨-, rfl⟩ | ⟨-, v', rfl⟩
    · rcases hbefore with ⟨-, rfl⟩ | ⟨-, u', rfl⟩
      · exact .inl (String.toList_inj.mp (by simpa using hk))
      · exact .inr ⟨u', by simp [hk]⟩
    · exact absurd ⟨u, v', by simp [hk]⟩ (no_parent_slash h)
  · rintro (rfl | ⟨u, hu⟩)
    · decide
    · have hsegs : segments k = u.splitOn '/' ++ ['.', '.'].splitOn '/' := by
        rw [segments, ← hu, List.splitOn_append_cons_self]
      rw [hsegs]
      exact List.mem_append_right _ (by decide)

theorem inner_segment {k : String} (h : ¬ ['/', '/'] <:+: k.toList) {s : List Char}
    (hs : s ∈ (segments k).tail.dropLast) : s ≠ [] := by
  rintro rfl
  obtain ⟨before, after, hinner⟩ := List.append_of_mem hs
  have hne : (segments k).tail ≠ [] := by
    intro hnil
    rw [hnil] at hs
    cases hs
  have hsegs : segments k = ((segments k).head (List.splitOn_ne_nil _ _) :: before) ++
      [] :: (after ++ [(segments k).tail.getLast hne]) := by
    have htail : (segments k).tail = before ++ [] :: (after ++ [(segments k).tail.getLast hne]) := by
      conv_lhs => rw [← List.dropLast_append_getLast hne, hinner]
      simp
    rw [List.cons_append, ← htail]
    exact (List.cons_head_tail (List.splitOn_ne_nil '/' k.toList)).symm
  obtain ⟨u, v, hk, hbefore, hafter⟩ := segment_place hsegs
  rcases hbefore with ⟨hnil, -⟩ | ⟨-, u', rfl⟩
  · cases hnil
  rcases hafter with ⟨hnil, -⟩ | ⟨-, v', rfl⟩
  · simp at hnil
  exact h ⟨u', v', by simp [hk]⟩

theorem accepted_key_stays_inside {k : String} (h : validateFileKey (some k) = .ok ()) :
    StaysInside k ↔ ¬ EndsInParent k := by
  obtain ⟨hempty, htraversal, hdouble, hfront⟩ := validateFileKey_inv h
  constructor
  · exact fun hin hend => hin.no_parent ((parent_segment htraversal).mpr hend)
  · intro hend
    have hparent : ['.', '.'] ∉ segments k := fun hmem => hend ((parent_segment htraversal).mp hmem)
    exact {
      not_empty := hempty
      no_parent := hparent
      below := resolve_below hparent
      relative := hfront
      inner := fun s hs => inner_segment hdouble hs }

theorem accepted_key_stays_inside_cv :
    StaysInside "cvs/a.b-c.pdf" ↔ ¬ EndsInParent "cvs/a.b-c.pdf" :=
  accepted_key_stays_inside (k := "cvs/a.b-c.pdf") (by decide)

/-- The parent of the directory is an accepted key, and so is any path that ends there. -/
theorem parent_key_accepted :
    validateFileKey (some "..") = .ok () ∧ resolve [['c', 'v', 's']] (segments "..") = [] ∧
      validateFileKey (some "a/..") = .ok () ∧ ¬ StaysInside "a/.." := by
  refine ⟨by decide, by decide, by decide, ?_⟩
  intro h
  exact absurd h.no_parent (by decide)

/-! ## Bucket names -/

theorem spells_bucket {m : List Char} : CvParser.BUCKET_PATTERN.Spells m ↔
    ∃ x mid y, m = x :: (mid ++ [y]) ∧ bucketEnd x = true ∧ bucketEnd y = true ∧
      1 ≤ mid.length ∧ mid.length ≤ 61 ∧ ∀ c ∈ mid, bucketChar c = true := by
  constructor
  · rintro ⟨_, _, ⟨x, hx, rfl⟩, ⟨mid, _, hmid, ⟨y, hy, rfl⟩, rfl⟩, rfl⟩
    obtain ⟨hmin, hmax, hchars⟩ := (Regex.spells_between_one (by decide)).mp hmid
    exact ⟨x, mid, y, rfl, hx, hy, hmin, hmax, hchars⟩
  · rintro ⟨x, mid, y, rfl, hx, hy, hmin, hmax, hchars⟩
    have hmid := (Regex.spells_between_one (k := 1) (n := 61) (by decide)).mpr
      ⟨hmin, hmax, hchars⟩
    exact Regex.Spells.seq (u := [x]) ⟨x, hx, rfl⟩ (.seq hmid ⟨y, hy, rfl⟩)

theorem validateBucket_of_pattern {b : String} (h : CvParser.BUCKET_PATTERN.isMatch b = true) :
    validateBucket (some b) = .ok () := by
  obtain ⟨x, mid, y, hb, hx, hy, hmin, hmax, hmid⟩ := spells_bucket.mp (Regex.isMatch_iff.mp h)
  have hchars : ∀ c ∈ b.toList, bucketChar c = true := by
    intro c hc
    simp only [hb, List.mem_cons, List.mem_append, List.not_mem_nil, or_false] at hc
    rcases hc with rfl | hc | rfl
    · exact bucketChar_of_bucketEnd hx
    · exact hmid c hc
    · exact bucketChar_of_bucketEnd hy
  have hcount : length b = mid.length + 2 := by
    unfold length
    rw [length_bucket hchars, hb]
    simp
  have hne : b ≠ "" := by
    rintro rfl
    cases hb
  have hmatch : BUCKET_PATTERN.isMatch b = true := by
    rw [Regex.isMatch_iff, hb]
    have hstar := Regex.spells_star_one.mpr hmid
    exact Regex.Spells.seq (u := [x]) ⟨x, hx, rfl⟩ (.seq hstar ⟨y, hy, rfl⟩)
  have hlength : ¬ (length b < 3 ∨ 63 < length b) := by omega
  simp only [validateBucket, hne, hlength, hmatch, if_false, Bool.not_true, Bool.false_eq_true]
  rfl

/-- `validateBucket` and the constraints of the event accept the same names. -/
theorem validateBucket_iff (b : String) : validateBucket (some b) = .ok () ↔
    notBlank (some b) = true ∧ pattern CvParser.BUCKET_PATTERN (some b) = true := by
  constructor
  · intro h
    obtain ⟨hmatch, hblank⟩ := bucket_pattern h
    exact ⟨hblank, hmatch⟩
  · rintro ⟨-, hmatch⟩
    exact validateBucket_of_pattern hmatch

end CvParser.FileValidator

/-! ## Uploads -/

namespace FileValidationPipe

inductive Format where
  | pdf
  | docx
deriving DecidableEq

namespace Format

def mimetype : Format → String
  | pdf => "application/pdf"
  | docx => "application/vnd.openxmlformats-officedocument.wordprocessingml.document"

def extension : Format → String
  | pdf => "pdf"
  | docx => "docx"

def signed (buffer : List UInt8) : Format → Bool
  | pdf => hasSignature buffer PDF_SIGNATURE
  | docx => ZIP_SIGNATURES.any (hasSignature buffer)

end Format

/-- Type, name and content of the file denote one format. -/
def Consistent (file : MulterFile) : Prop :=
  ∃ f : Format, file.mimetype = f.mimetype ∧ extensionOf file.originalname = f.extension ∧
    f.signed file.buffer = true

/-- The declared type is that of the extension. -/
def TypeOfExtension (file : MulterFile) : Prop :=
  ∀ f : Format, extensionOf file.originalname = f.extension → file.mimetype = f.mimetype

theorem validateFileSignature_inv {file : MulterFile} {f : Format}
    (h : validateFileSignature file f.extension = .ok ()) : f.signed file.buffer = true := by
  by_contra hsigned
  unfold validateFileSignature at h
  by_cases hempty : file.buffer.isEmpty = true
  · rw [if_pos hempty] at h
    cases h
  rw [if_neg hempty] at h
  cases f with
  | pdf =>
    have hpdf : Format.pdf.extension = "pdf" ∧ (!hasSignature file.buffer PDF_SIGNATURE) = true :=
      ⟨rfl, by simpa [Format.signed] using hsigned⟩
    rw [if_pos hpdf] at h
    cases h
  | docx =>
    have hdocx : Format.docx.extension = "docx" ∧
        (!ZIP_SIGNATURES.any (hasSignature file.buffer)) = true :=
      ⟨rfl, by simpa [Format.signed] using hsigned⟩
    have hpdf : ¬ (Format.docx.extension = "pdf" ∧
        (!hasSignature file.buffer PDF_SIGNATURE) = true) := by
      rintro ⟨hext, -⟩
      exact absurd hext (by decide)
    rw [if_neg hpdf, if_pos hdocx] at h
    cases h

theorem transform_inv {file : MulterFile} (h : transform (some file) = .ok file) :
    ∃ f : Format, extensionOf file.originalname = f.extension ∧ f.signed file.buffer = true := by
  unfold transform at h
  dsimp only at h
  split at h
  · cases h
  split at h
  · cases h
  rename_i hext
  have hmem : extensionOf file.originalname ∈ ALLOWED_EXTENSIONS :=
    List.contains_iff_mem.mp (by simpa using (not_or.mp hext).2)
  have hsigned : validateFileSignature file (extensionOf file.originalname) = .ok () := by
    cases hsig : validateFileSignature file (extensionOf file.originalname) with
    | error e =>
      rw [hsig] at h
      cases h
    | ok u => rfl
  rcases List.mem_pair.mp hmem with hpdf | hdocx
  · rw [hpdf] at hsigned
    exact ⟨.pdf, hpdf, validateFileSignature_inv (f := .pdf) hsigned⟩
  · rw [hdocx] at hsigned
    exact ⟨.docx, hdocx, validateFileSignature_inv (f := .docx) hsigned⟩

theorem accepted_file_consistent {file : MulterFile} (h : transform (some file) = .ok file) :
    Consistent file ↔ TypeOfExtension file := by
  obtain ⟨f, hext, hsigned⟩ := transform_inv h
  constructor
  · rintro ⟨g, hmime, hext', -⟩ f' hf'
    have hinj : g = f' := by
      rw [hext'] at hf'
      revert hf'
      cases g <;> cases f' <;> decide
    rw [hmime, hinj]
  · intro htype
    exact ⟨f, htype f hext, hext, hsigned⟩

theorem accepted_file_consistent_pdf :
    Consistent ⟨⟨"CV.PDF", "application/pdf", [0x25, 0x50, 0x44, 0x46, 0x2D]⟩, 5⟩ ↔
      TypeOfExtension ⟨⟨"CV.PDF", "application/pdf", [0x25, 0x50, 0x44, 0x46, 0x2D]⟩, 5⟩ :=
  accepted_file_consistent rfl

/-- A ZIP archive with a name of a DOCX file that is declared to be a PDF file. -/
theorem mislabelled_file_accepted :
    let file : MulterFile := ⟨⟨"cv.docx", "application/pdf", [0x50, 0x4B, 0x03, 0x04]⟩, 4⟩
    transform (some file) = .ok file ∧ ¬ Consistent file := by
  refine ⟨rfl, ?_⟩
  rintro ⟨f, hmime, hext, -⟩
  cases f with
  | pdf => exact absurd hext (by decide)
  | docx => exact absurd hmime (by decide)

/-! ## Stored keys -/

def afterLastDot (s : String) : String := String.ofList ((s.toList.splitOn '.').getLastD [])

/-- The name is the word `docx`, in some letter case, and has no extension. -/
def IsBareDocx (name : String) : Prop :=
  '.' ∉ name.toList ∧ String.ofList (name.toList.map Char.toLower) = "docx"

instance (name : String) : Decidable (IsBareDocx name) := inferInstanceAs (Decidable (_ ∧ _))

theorem extensionOf_of_no_dot {name : String} (h : '.' ∉ name.toList) :
    extensionOf name = String.ofList (name.toList.map Char.toLower) := by
  rw [extensionOf, List.splitOn_eq_singleton h]
  rfl

theorem safeExtension_of_dot {name : String} (hdot : '.' ∈ name.toList)
    (hallowed : extensionOf name ∈ TalentFlow.ALLOWED_EXTENSIONS) :
    safeExtension name = extensionOf name := by
  obtain ⟨u, v, hname⟩ := List.append_of_mem hdot
  have hparts : 1 < (name.toList.splitOn '.').length := by
    rw [hname, List.splitOn_append_cons_self, List.length_append]
    have hu := List.length_pos_iff.mpr (List.splitOn_ne_nil '.' u)
    have hv := List.length_pos_iff.mpr (List.splitOn_ne_nil '.' v)
    omega
  unfold safeExtension
  simp only [if_pos hparts]
  exact if_pos (List.contains_iff_mem.mpr hallowed)

theorem safeExtension_of_no_dot {name : String} (h : '.' ∉ name.toList) :
    safeExtension name = "pdf" := by
  have hparts : ¬ 1 < (name.toList.splitOn '.').length := by
    rw [List.splitOn_eq_singleton h]
    simp
  unfold safeExtension
  simp only [if_neg hparts]
  rfl

theorem afterLastDot_cvFileKey {uuid extension : String} (h : '.' ∉ extension.toList) :
    afterLastDot (cvFileKey uuid extension) = extension := by
  have hkey : (cvFileKey uuid extension).toList =
      ("cvs/" ++ uuid).toList ++ '.' :: extension.toList := by
    simp [cvFileKey]
  rw [afterLastDot, hkey, List.splitOn_append_cons_self, List.splitOn_eq_singleton h,
    List.getLastD_concat]
  exact String.ofList_toList

theorem finishes_generateCvFileKey {name : String} {i : ℕ} {w w' : World} {key : String}
    (h : Finishes (alone i) (generateCvFileKey name) w (.ok key) w') :
    ∃ uuid, key = cvFileKey uuid (safeExtension name) := by
  obtain ⟨uuid, w₁, -, hkey⟩ | ⟨e, -, he⟩ := finishes_bind.mp h
  · obtain ⟨hkey, -⟩ := finishes_pure.mp hkey
    exact ⟨uuid, Except.ok.inj hkey⟩
  · cases he

theorem stored_extension_iff {file : MulterFile} {i : ℕ} {w w' : World} {key : String}
    (h : transform (some file) = .ok file)
    (hkey : Finishes (alone i) (generateCvFileKey file.originalname) w (.ok key) w') :
    afterLastDot key = extensionOf file.originalname ↔ ¬ IsBareDocx file.originalname := by
  obtain ⟨f, hext, -⟩ := transform_inv h
  obtain ⟨uuid, rfl⟩ := finishes_generateCvFileKey hkey
  have hallowed : extensionOf file.originalname ∈ TalentFlow.ALLOWED_EXTENSIONS := by
    rw [hext]
    cases f <;> decide
  have hno : ∀ extension ∈ TalentFlow.ALLOWED_EXTENSIONS, '.' ∉ extension.toList := by decide
  rw [afterLastDot_cvFileKey (hno _ (safeExtension_allowed _))]
  by_cases hdot : '.' ∈ file.originalname.toList
  · rw [safeExtension_of_dot hdot hallowed]
    exact iff_of_true rfl fun hbare => hbare.1 hdot
  · rw [safeExtension_of_no_dot hdot, hext]
    have hname := extensionOf_of_no_dot hdot
    rw [hext] at hname
    cases f with
    | pdf =>
      refine iff_of_true rfl fun hbare => ?_
      exact absurd (hname.trans hbare.2) (by decide)
    | docx =>
      exact iff_of_false (by decide) fun hnot => hnot ⟨hdot, hname.symm⟩

theorem stored_extension_docx :
    afterLastDot "cvs/u.docx" = extensionOf "my.CV..DOCX" ↔ ¬ IsBareDocx "my.CV..DOCX" :=
  @stored_extension_iff ⟨⟨"my.CV..DOCX", Format.docx.mimetype, [0x50, 0x4B, 0x03, 0x04]⟩, 4⟩
    0 seeded _ _ rfl (finishes_bind.mpr (.inl ⟨"u", _, (finishes_randomUUID _ _).mpr
      ⟨"u", by decide, rfl, rfl⟩, rfl, rfl⟩))

/-- A DOCX file whose name is nothing but `docx` is stored under a key that ends in `.pdf`. -/
theorem bare_docx_stored_as_pdf :
    let file : MulterFile := ⟨⟨"docx", Format.docx.mimetype, [0x50, 0x4B, 0x03, 0x04]⟩, 4⟩
    transform (some file) = .ok file ∧ extensionOf file.originalname = "docx" ∧
      ∃ key w', Finishes (alone 0) (generateCvFileKey file.originalname) seeded (.ok key) w' ∧
        afterLastDot key = "pdf" := by
  refine ⟨rfl, by decide, cvFileKey "u" "pdf",
    { seeded with drawn := seeded.drawn ++ [(0, "u")] }, ?_, by decide⟩
  exact finishes_bind.mpr (.inl ⟨"u", _,
    (finishes_randomUUID _ _).mpr ⟨"u", by decide, rfl, rfl⟩, rfl, rfl⟩)

end FileValidationPipe

end TalentFlow
