import TalentFlow.Data.Ranges
import TalentFlow.Guarantees.Paging

/-!
# Guarantees.JobFilters

What the salary and skill filters of `JobsService.findAll` select, beside what they are for.

* `selects_eq`: the two filters are conditions of their own in the where-clause.
* `salary_filter_iff`: the salary filter selects a job exactly when the two ranges overlap, if the
  ranges are apart, or if the job has the bounds that are asked for just when neither range is
  inverted. `salary_filter_fails` has a job without a maximum, and two inverted ranges.
* `skills_filter_iff`: the skill filter selects a job exactly when it lists every part of the query
  up to letter case, if some part is listed in no spelling, or all are in lower case.
  `skills_filter_fails` has a job that lists a capital letter.
-/

namespace TalentFlow.JobsService

open Data Ranges

variable {c : Collation} {query : QueryJobsDto} {job : Job}

/-! ## The conditions -/

def passesSalary (query : QueryJobsDto) (job : Job) : Bool :=
  query.salaryMin.all (fun salaryMin =>
    job.salaryMax.any fun max => decide ((salaryMin : Int) ≤ max)) &&
  query.salaryMax.all (fun salaryMax =>
    job.salaryMin.any fun min => decide (min ≤ (salaryMax : Int)))

def passesSkills (c : Collation) (query : QueryJobsDto) (job : Job) : Bool :=
  (truthy query.skills).all fun skills => hasSkills job (skillList c skills)

/-- The where-clause is these conditions and those of the query without them. -/
theorem selects_eq (c : Collation) (query : QueryJobsDto) (job : Job) : selects c query job =
    (selects c { query with salaryMin := none, salaryMax := none, skills := none } job &&
      passesSalary query job && passesSkills c query job) := by
  simp [selects, passesSalary, passesSkills, truthy, Bool.and_assoc]

/-! ## Salaries -/

/-- Some amount is in the range of the job and in the range that is asked for. -/
def SalariesOverlap (query : QueryJobsDto) (job : Job) : Prop :=
  ∃ amount : Int, Within job.salaryMin job.salaryMax amount ∧
    Within (query.salaryMin.map Int.ofNat) (query.salaryMax.map Int.ofNat) amount

/-- One of the ranges ends before the other begins. -/
def SalariesApart (query : QueryJobsDto) (job : Job) : Prop :=
  ¬ (InOrder job.salaryMin (query.salaryMax.map Int.ofNat) ∧
    InOrder (query.salaryMin.map Int.ofNat) job.salaryMax)

/-- The job has the bounds that those of the query are compared with. -/
def HasBoundsFor (query : QueryJobsDto) (job : Job) : Prop :=
  (query.salaryMin ≠ none → job.salaryMax ≠ none) ∧
    (query.salaryMax ≠ none → job.salaryMin ≠ none)

/-- Neither range is inverted. -/
def SalariesInOrder (query : QueryJobsDto) (job : Job) : Prop :=
  InOrder job.salaryMin job.salaryMax ∧
    InOrder (query.salaryMin.map Int.ofNat) (query.salaryMax.map Int.ofNat)

theorem all_any_le {p : Option ℕ} {b : Option Int} :
    (p.all fun n => b.any fun u => decide ((n : Int) ≤ u)) = true ↔
      (p ≠ none → b ≠ none) ∧ InOrder (p.map Int.ofNat) b := by
  cases p with
  | none => simp
  | some n => cases b <;> simp

theorem all_any_ge {q : Option ℕ} {a : Option Int} :
    (q.all fun n => a.any fun l => decide (l ≤ (n : Int))) = true ↔
      (q ≠ none → a ≠ none) ∧ InOrder a (q.map Int.ofNat) := by
  cases q with
  | none => simp
  | some n => cases a <;> simp

/-- A comparison with a missing bound does not hold. -/
theorem passesSalary_iff (query : QueryJobsDto) (job : Job) :
    passesSalary query job = true ↔ HasBoundsFor query job ∧ ¬ SalariesApart query job := by
  unfold passesSalary SalariesApart HasBoundsFor
  rw [Bool.and_eq_true, all_any_le, all_any_ge, not_not]
  constructor
  · rintro ⟨⟨hmax, hbelow⟩, hmin, habove⟩
    exact ⟨⟨hmax, hmin⟩, habove, hbelow⟩
  · rintro ⟨⟨hmax, hmin⟩, habove, hbelow⟩
    exact ⟨⟨hmax, hbelow⟩, hmin, habove⟩

theorem salariesOverlap_iff (query : QueryJobsDto) (job : Job) :
    SalariesOverlap query job ↔ SalariesInOrder query job ∧ ¬ SalariesApart query job := by
  unfold SalariesOverlap SalariesInOrder SalariesApart
  rw [exists_within_iff, not_not]

/-- The filter selects the jobs whose range overlaps the one asked for exactly when the ranges are
apart, or the job has the bounds asked for just when neither range is inverted. -/
theorem salary_filter_iff (query : QueryJobsDto) (job : Job) :
    (passesSalary query job = true ↔ SalariesOverlap query job) ↔
      SalariesApart query job ∨ (HasBoundsFor query job ↔ SalariesInOrder query job) := by
  rw [passesSalary_iff, salariesOverlap_iff]
  by_cases hapart : SalariesApart query job
  · simp [hapart]
  · simp [hapart]

def openEnded : Job := { backend with salaryMin := some 50000 }

def inverted : Job := { backend with salaryMin := some 90000, salaryMax := some 60000 }

/-- A job without a maximum is not found by those who ask for a minimum; an inverted range is found,
and so is a job by an inverted query. -/
theorem salary_filter_fails :
    (passesSalary { salaryMin := some 40000 } openEnded = false ∧
      SalariesOverlap { salaryMin := some 40000 } openEnded) ∧
    (passesSalary { salaryMin := some 50000, salaryMax := some 95000 } inverted = true ∧
      ¬ SalariesOverlap { salaryMin := some 50000, salaryMax := some 95000 } inverted) ∧
    passesSalary { salaryMin := some 80000, salaryMax := some 70000 }
        { backend with salaryMin := some 60000, salaryMax := some 90000 } = true ∧
      ¬ SalariesOverlap { salaryMin := some 80000, salaryMax := some 70000 }
        { backend with salaryMin := some 60000, salaryMax := some 90000 } := by
  refine ⟨⟨by decide, 50000, by simp [Within, openEnded, backend], by simp [Within]⟩,
    ⟨by decide, ?_⟩, by decide, ?_⟩
  · rintro ⟨amount, hjob, -⟩
    exact absurd (hjob.inOrder hjob) (by decide)
  · rintro ⟨amount, -, hquery⟩
    exact absurd (hquery.inOrder hquery) (by decide)

/-! ## Skills -/

def parts (skills : String) : List String := (skills.splitOn ",").map trim

/-- The part is listed in some spelling. -/
def ListsUpToCase (c : Collation) (listed : List String) (part : String) : Prop :=
  ∃ skill ∈ listed, c.toLowerCase skill = c.toLowerCase part

/-- The job lists all parts that are not empty, in some spelling. -/
def ListsAllUpToCase (c : Collation) (listed : List String) (skills : String) : Prop :=
  ∀ part ∈ parts skills, part ≠ "" → ListsUpToCase c listed part

theorem hasSkills_iff {listed : List String} {skills : String}
    (hjob : job.requirements.bind (·.get? [.key "skills"]) = some (.array (listed.map .string))) :
    hasSkills job (skillList c skills) = true ↔
      ∀ part ∈ parts skills, c.toLowerCase part ∈ listed := by
  have hmem : ∀ skill : String,
      (.string skill : JsonValue) ∈ listed.map Json.string ↔ skill ∈ listed := by
    intro skill
    simp
  unfold hasSkills skillList
  simp only [hjob, List.all_eq_true, decide_eq_true_eq, hmem, parts, List.mem_map,
    forall_exists_index, and_imp, forall_apply_eq_imp_iff₂]

theorem parts_empty : parts "" = [""] := by
  have hsplit : "".splitOn "," = [""] := by
    rw [String.splitOn, if_neg (by decide), String.splitOnAux, if_pos (by decide)]
    decide
  rw [parts, hsplit]
  decide

theorem listsAll_empty (listed : List String) : ListsAllUpToCase c listed "" := by
  intro part hpart hne
  rw [parts_empty] at hpart
  exact absurd (List.mem_singleton.mp hpart) hne

section Query

variable {listed : List String} {skills : String}
  (hjob : job.requirements.bind (·.get? [.key "skills"]) = some (.array (listed.map .string)))
  (hquery : query.skills = some skills)

include hjob hquery

/-- Every part of the query that is not empty altogether is asked for in lower case. -/
theorem passesSkills_iff (hne : skills ≠ "") : passesSkills c query job = true ↔
    ∀ part ∈ parts skills, c.toLowerCase part ∈ listed := by
  rw [← hasSkills_iff hjob, passesSkills, hquery, truthy,
    Option.filter_some_pos (by simpa using hne), Option.all_some]

/-- The filter selects no job that does not list the skills asked for. -/
theorem listsAll_of_passesSkills (hlower : ∀ s, c.toLowerCase (c.toLowerCase s) = c.toLowerCase s)
    (h : passesSkills c query job = true) : ListsAllUpToCase c listed skills := by
  by_cases hempty : skills = ""
  · subst hempty
    exact listsAll_empty listed
  · intro part hpart _
    exact ⟨_, (passesSkills_iff hjob hquery hempty).mp h part hpart, hlower part⟩

end Query

/-- The filter selects the jobs that list the skills asked for exactly when the query is empty, or
some part of it is listed in no spelling, or every part, empty ones included, is listed in lower
case. Lower-casing a text twice is lower-casing it once (`hlower`). -/
theorem skills_filter_iff {listed : List String} {skills : String}
    (hlower : ∀ s, c.toLowerCase (c.toLowerCase s) = c.toLowerCase s)
    (hjob : job.requirements.bind (·.get? [.key "skills"]) = some (.array (listed.map .string)))
    (hquery : query.skills = some skills) :
    (passesSkills c query job = true ↔ ListsAllUpToCase c listed skills) ↔
      skills = "" ∨ (∃ part ∈ parts skills, part ≠ "" ∧ ¬ ListsUpToCase c listed part) ∨
        ∀ part ∈ parts skills, c.toLowerCase part ∈ listed := by
  have honly := listsAll_of_passesSkills hjob hquery hlower
  have hnone : (∃ part ∈ parts skills, part ≠ "" ∧ ¬ ListsUpToCase c listed part) ↔
      ¬ ListsAllUpToCase c listed skills := by
    simp [ListsAllUpToCase]
  by_cases hempty : skills = ""
  · subst hempty
    refine iff_of_true (iff_of_true ?_ (listsAll_empty listed)) (.inl rfl)
    simp [passesSkills, hquery, truthy]
  · rw [hnone, ← passesSkills_iff hjob hquery hempty]
    constructor
    · intro h
      by_cases hall : ListsAllUpToCase c listed skills
      · exact .inr (.inr (h.mpr hall))
      · exact .inr (.inl hall)
    · rintro (h | h | h)
      · exact absurd h hempty
      · exact iff_of_false (fun hpasses => h (honly hpasses)) h
      · exact iff_of_true h (honly h)

def embeddedJob : Job :=
  { backend with
    requirements := some (.object [("skills", .array (["C", "rust"].map .string))]) }

theorem toLower_cases (d : Char) :
    d.toLower = d ∨ 97 ≤ d.toLower.toNat ∧ d.toLower.toNat ≤ 122 := by
  unfold Char.toLower
  split
  · rename_i hd
    right
    have hlow : 65 ≤ d.val.toNat := UInt32.le_iff_toNat_le.mp hd.1
    have hhigh : d.val.toNat ≤ 90 := UInt32.le_iff_toNat_le.mp hd.2
    have hadd : (d.val + ('a'.val - 'A'.val)).toNat = (d.val.toNat + 32) % 2 ^ 32 :=
      UInt32.toNat_add d.val ('a'.val - 'A'.val)
    show 97 ≤ (d.val + ('a'.val - 'A'.val)).toNat ∧ (d.val + ('a'.val - 'A'.val)).toNat ≤ 122
    omega
  · exact .inl rfl

theorem toLower_of_small {d : Char} (h : 97 ≤ d.toNat) : d.toLower = d := by
  unfold Char.toLower
  split
  · rename_i hd
    have hhigh : d.toNat ≤ 90 := UInt32.le_iff_toNat_le.mp hd.2
    omega
  · rfl

theorem toLower_idem (d : Char) : d.toLower.toLower = d.toLower := by
  obtain h | ⟨h, -⟩ := toLower_cases d
  · rw [h, h]
  · exact toLower_of_small h

theorem toLowerChar_idem (d : Char) :
    (Sanitize.toLowerChar d).flatMap Sanitize.toLowerChar = Sanitize.toLowerChar d := by
  by_cases hk : d.val = 0x212A
  · rw [Sanitize.toLowerChar, if_pos hk]
    decide
  by_cases hi : d.val = 0x0130
  · rw [Sanitize.toLowerChar, if_neg hk, if_pos hi]
    decide
  have hval : d.toLower.val ≠ 0x212A ∧ d.toLower.val ≠ 0x0130 := by
    obtain h | ⟨-, h⟩ := toLower_cases d
    · rw [h]
      exact ⟨hk, hi⟩
    · constructor
      · intro heq
        rw [Char.toNat, heq] at h
        exact absurd h (by decide)
      · intro heq
        rw [Char.toNat, heq] at h
        exact absurd h (by decide)
  rw [Sanitize.toLowerChar, if_neg hk, if_neg hi, List.flatMap_singleton, Sanitize.toLowerChar,
    if_neg hval.1, if_neg hval.2, toLower_idem]

theorem toLowerCase_idem (s : String) :
    Sanitize.toLowerCase (Sanitize.toLowerCase s) = Sanitize.toLowerCase s := by
  rw [Sanitize.toLowerCase, Sanitize.toLowerCase, String.toList_ofList, List.flatMap_assoc]
  simp only [toLowerChar_idem]

theorem skills_filter_c :
    (passesSkills byCodePoint { skills := some "C" } embeddedJob = true ↔
      ListsAllUpToCase byCodePoint ["C", "rust"] "C") ↔
    "C" = "" ∨ (∃ part ∈ parts "C", part ≠ "" ∧ ¬ ListsUpToCase byCodePoint ["C", "rust"] part) ∨
      ∀ part ∈ parts "C", byCodePoint.toLowerCase part ∈ ["C", "rust"] :=
  skills_filter_iff toLowerCase_idem rfl rfl

/-- Nobody who asks for `C` finds the job that lists it. -/
theorem skills_filter_fails :
    passesSkills byCodePoint { skills := some "C" } embeddedJob = false ∧
      ListsAllUpToCase byCodePoint ["C", "rust"] "C" := by
  have hsplit : "C".splitOn "," = ["C"] := by
    rw [String.splitOn, if_neg (by decide), String.splitOnAux, if_neg (by decide),
      if_neg (by decide), String.splitOnAux, if_pos (by decide)]
    decide
  constructor
  · rw [passesSkills, show truthy (some "C") = some "C" from rfl, Option.all_some, skillList,
      hsplit]
    decide
  · intro part hpart _
    rw [parts, hsplit] at hpart
    exact ⟨"C", by decide, by rw [List.mem_singleton.mp hpart]; decide⟩

end TalentFlow.JobsService
