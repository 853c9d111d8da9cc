import TalentFlow.Gateway.Listings
import TalentFlow.Gateway.Sanitize
import TalentFlow.Guarantees.Disclosure
import Mathlib.Data.String.Basic

/-!
# Guarantees.Paging

The pages of a listing against the rows it selects. `findAll` sorts by one column, and the database
may give rows with equal keys in another order for every page.

* `listsAll_iff`: the pages hold every matching row once exactly when the sort is valid and no page
  boundary runs between rows with equal keys.
* `finishes_listing`, `finishes_interviewListing`: the requests show what the listings say.
-/

namespace TalentFlow

open Data Paging Async

namespace Listing

variable {ρ δ : Type} {c : Collation} {l : Listing ρ δ}

/-- Every matching row is fetched once, in whatever order each of the queries is answered. -/
def ListsAll (c : Collation) (l : Listing ρ δ) : Prop :=
  ∀ answers : ℕ → List ρ, (∀ k, IsSorting (l.mayPrecede c) l.rows (answers k)) →
    ∃ items, l.fetchAll answers = .ok items ∧ (items.map l.itemKey).Perm (l.rows.map l.key)

/-- The sort is valid, and no two rows with equal keys are on different sides of a page boundary. -/
def CleanPages (c : Collation) (l : Listing ρ δ) : Prop :=
  l.isValid = true ∧ ∀ k, IsCut (l.mayPrecede c) l.rows (k * l.limit)

theorem rows_nodup (l : Listing ρ δ) : l.rows.Nodup := List.Nodup.of_map l.key l.keys_nodup

theorem mayPrecede_trans (a b d : ρ) (hab : l.mayPrecede c a b = true)
    (hbd : l.mayPrecede c b d = true) : l.mayPrecede c a d = true := by
  unfold mayPrecede at hab hbd ⊢
  cases hcolumn : l.columns l.sortBy with
  | none => rfl
  | some column =>
    simp only [hcolumn] at hab hbd ⊢
    by_cases hasc : l.sortOrder = "asc"
    · rw [if_pos hasc] at hab hbd ⊢
      exact c.le_trans _ _ _ hab hbd
    · rw [if_neg hasc] at hab hbd ⊢
      exact c.le_trans _ _ _ hbd hab

theorem mayPrecede_total (a b : ρ) : l.mayPrecede c a b = true ∨ l.mayPrecede c b a = true := by
  unfold mayPrecede
  split
  · by_cases hasc : l.sortOrder = "asc"
    · rw [if_pos hasc, if_pos hasc]
      exact c.le_total _ _
    · rw [if_neg hasc, if_neg hasc]
      exact c.le_total _ _
  · exact .inl rfl

/-! ## What the pages hold -/

theorem findAll_succ (hvalid : l.isValid = true) (k : ℕ) (answer : List ρ) :
    l.findAll (k + 1) answer = .ok
      { data := (page l.limit answer k).filterMap l.shown
        pagination := ⟨l.rows.length, k + 1, l.limit, pageCount l.limit l.rows.length⟩ } := by
  unfold findAll
  rw [if_pos hvalid]
  rfl

theorem fetchAll_eq (hvalid : l.isValid = true) (answers : ℕ → List ρ) :
    l.fetchAll answers = .ok ((fetch l.limit answers
      (pageCount l.limit l.rows.length - 1 + 1)).filterMap l.shown) := by
  have hothers : (fun k => l.findAll (k + 2) (answers (k + 1))) = fun k => pure
      { data := (page l.limit (answers (k + 1)) (k + 1)).filterMap l.shown
        pagination := ⟨l.rows.length, k + 2, l.limit, pageCount l.limit l.rows.length⟩ } :=
    funext fun k => findAll_succ hvalid (k + 1) (answers (k + 1))
  unfold fetchAll
  rw [findAll_succ hvalid 0, hothers]
  simp only [List.mapM_pure]
  change Except.ok _ = Except.ok _
  rw [fetch, List.range_succ_eq_map, List.flatMap_cons, List.filterMap_append, List.flatMap_map,
    List.filterMap_flatMap, List.flatMap_map]

/-- Where there are no rows, a page that nobody asked for is empty. -/
theorem fetch_pages {answers : ℕ → List ρ}
    (hanswers : ∀ k, IsSorting (l.mayPrecede c) l.rows (answers k)) :
    fetch l.limit answers (pageCount l.limit l.rows.length - 1 + 1) =
      fetch l.limit answers (pageCount l.limit l.rows.length) := by
  rcases Nat.eq_zero_or_pos (pageCount l.limit l.rows.length) with hzero | hpos
  · have hnone : l.rows.length = 0 := by
      have hle := length_le_pageCount l.limit_pos l.rows.length
      rw [hzero, Nat.zero_mul] at hle
      exact Nat.le_zero.mp hle
    have hempty : answers 0 = [] := by
      rw [← List.length_eq_zero_iff, (hanswers 0).1.length_eq, hnone]
    rw [hzero, fetch_succ, page, hempty]
    simp
  · rw [Nat.sub_add_cancel hpos]

theorem keys_filterMap {part : List ρ} (hsub : part ⊆ l.rows) :
    (part.filterMap l.shown).map l.itemKey = part.map l.key := by
  induction part with
  | nil => rfl
  | cons r part ih =>
    obtain ⟨hr, hpart⟩ := List.cons_subset.mp hsub
    obtain ⟨d, hd, hkey⟩ := l.shown_key r hr
    rw [List.filterMap_cons_some hd, List.map_cons, List.map_cons, hkey, ih hpart]

theorem listsAll_iff_lists (hvalid : l.isValid = true) :
    l.ListsAll c ↔ Lists (l.mayPrecede c) l.limit l.rows := by
  have hsub : ∀ answers : ℕ → List ρ,
      (∀ k, IsSorting (l.mayPrecede c) l.rows (answers k)) → ∀ n, fetch l.limit answers n ⊆ l.rows := by
    intro answers hanswers n x hx
    obtain ⟨k, -, hk⟩ := List.mem_flatMap.mp hx
    exact subset_of_isSorting (hanswers k) l.limit k hk
  constructor
  · intro hlists answers hanswers
    obtain ⟨items, hitems, hperm⟩ := hlists answers hanswers
    rw [fetchAll_eq hvalid, fetch_pages hanswers] at hitems
    obtain rfl := Except.ok.inj hitems
    rw [keys_filterMap (hsub answers hanswers _)] at hperm
    exact perm_of_map_perm l.keys_nodup (hsub answers hanswers _) hperm
  · intro hlists answers hanswers
    refine ⟨_, fetchAll_eq hvalid answers, ?_⟩
    rw [keys_filterMap (hsub answers hanswers _), fetch_pages hanswers]
    exact (hlists answers hanswers).map l.key

/-- The pages lose and repeat nothing exactly where no boundary runs between equal keys. -/
theorem listsAll_iff (c : Collation) (l : Listing ρ δ) : l.ListsAll c ↔ l.CleanPages c := by
  unfold CleanPages
  cases hvalid : l.isValid with
  | true =>
    rw [listsAll_iff_lists hvalid, lists_iff mayPrecede_trans mayPrecede_total l.limit_pos
      l.rows_nodup]
    simp
  | false =>
    simp only [Bool.false_eq_true, false_and, iff_false]
    intro hlists
    obtain ⟨answer, hanswer⟩ :=
      exists_isSorting (mayPrecede_trans (c := c) (l := l)) mayPrecede_total l.rows
    obtain ⟨items, hitems, -⟩ := hlists (fun _ => answer) fun _ => hanswer
    unfold fetchAll findAll at hitems
    rw [if_neg (by rw [hvalid]; exact Bool.false_ne_true)] at hitems
    cases hitems

theorem cleanPages_of_unique (hvalid : l.isValid = true)
    (hunique : ∀ a ∈ l.rows, ∀ b ∈ l.rows, l.mayPrecede c a b = true → l.mayPrecede c b a = true →
      a = b) : l.CleanPages c :=
  ⟨hvalid, fun _ => isCut_of_antisymm l.rows_nodup hunique _⟩

theorem cleanPages_of_text (hvalid : l.isValid = true) {text : ρ → String}
    (hcolumn : l.columns l.sortBy = some fun r => .text (text r))
    (hinj : ∀ a ∈ l.rows, ∀ b ∈ l.rows, text a = text b → a = b) : l.CleanPages c := by
  refine cleanPages_of_unique hvalid fun a ha b hb hab hba => hinj a ha b hb ?_
  simp only [mayPrecede, hcolumn] at hab hba
  by_cases hasc : l.sortOrder = "asc"
  · rw [if_pos hasc] at hab hba
    exact c.le_text_antisymm _ _ hab hba
  · rw [if_neg hasc] at hab hba
    exact c.le_text_antisymm _ _ hba hab

end Listing

/-! ## The requests -/

section Requests

variable {c : Collation} {i : ℕ} {w : World}

theorem isValid_applications (db : Db) (userId userRole : String) (query : QueryApplicationsDto) :
    (ApplicationsService.listing db userId userRole query).isValid = query.pageRequest.isValid := by
  have hcolumns : ∀ s, (ApplicationsService.columns s).isSome = applicationColumns.contains s := by
    intro s
    unfold ApplicationsService.columns
    split <;> simp_all [applicationColumns]
  exact congrArg (· && _) ((Bool.true_and _).trans (hcolumns _))

theorem mayPrecede_applications {db : Db} {userId userRole : String} {query : QueryApplicationsDto}
    {a b : Application}
    (h : (ApplicationsService.listing db userId userRole query).mayPrecede c a b = true) :
    query.pageRequest.mayPrecede a b = true := by
  unfold PageRequest.mayPrecede
  extract_lets le
  split
  all_goals first
    | rfl
    | (rename_i hcolumn
       change query.sortBy.getD "appliedAt" = _ at hcolumn
       simp only [Listing.mayPrecede, ApplicationsService.listing, hcolumn,
         ApplicationsService.columns, SortKey.time, c.le_number, Int.ofNat_le] at h
       exact h)

theorem finishes_listing {userId userRole : String} {query : QueryApplicationsDto}
    {answer : List Application} {shown : PaginatedResult ApplicationWithRelations}
    (hanswer : IsSorting ((ApplicationsService.listing w.db userId userRole query).mayPrecede c)
      (ApplicationsService.listing w.db userId userRole query).rows answer)
    (hshown : (ApplicationsService.listing w.db userId userRole query).findAll
      (query.page.getD 1) answer = .ok shown) :
    Finishes (alone i) (ApplicationsService.findAll userId userRole query) w
      (.ok ⟨shown.data, shown.pagination⟩) w := by
  unfold Listing.findAll at hshown
  rw [isValid_applications] at hshown
  split at hshown
  · rename_i hvalid
    obtain rfl := Except.ok.inj hshown
    exact finishes_findAll.mpr ⟨rfl, hvalid, answer,
      ⟨hanswer.1, hanswer.2.imp fun hab => mayPrecede_applications hab⟩, rfl⟩
  · cases hshown

theorem isValid_interviews (db : Db) (query : QueryInterviewsDto) :
    (InterviewsService.listing db query).isValid = query.pageRequest.isValidForInterviews := by
  have hcolumns : ∀ s, (InterviewsService.columns s).isSome = interviewColumns.contains s := by
    intro s
    unfold InterviewsService.columns
    split <;> simp_all [interviewColumns]
  exact congrArg (· && _) ((Bool.true_and _).trans (hcolumns _))

theorem mayPrecede_interviews {db : Db} {query : QueryInterviewsDto} {x y : Interview}
    (h : (InterviewsService.listing db query).mayPrecede c x y = true) :
    query.pageRequest.mayPrecedeInterview x y = true := by
  unfold PageRequest.mayPrecedeInterview
  extract_lets le
  split
  all_goals first
    | rfl
    | (rename_i hcolumn
       change query.sortBy.getD "scheduledAt" = _ at hcolumn
       simp only [Listing.mayPrecede, InterviewsService.listing, hcolumn,
         InterviewsService.columns, SortKey.time, c.le_number, Int.ofNat_le] at h
       exact h)

theorem finishes_interviewListing {query : QueryInterviewsDto} {answer : List Interview}
    {shown : PaginatedResult InterviewListed}
    (hanswer : IsSorting ((InterviewsService.listing w.db query).mayPrecede c)
      (InterviewsService.listing w.db query).rows answer)
    (hshown : (InterviewsService.listing w.db query).findAll (query.page.getD 1) answer =
      .ok shown) :
    Finishes (alone i) (InterviewsService.findAll query) w
      (.ok ⟨shown.data, shown.pagination⟩) w := by
  unfold Listing.findAll at hshown
  rw [isValid_interviews] at hshown
  split at hshown
  · rename_i hvalid
    obtain rfl := Except.ok.inj hshown
    exact finishes_findInterviews.mpr ⟨rfl, hvalid, answer,
      ⟨hanswer.1, hanswer.2.imp fun hxy => mayPrecede_interviews hxy⟩, rfl⟩
  · cases hshown

end Requests

/-! ## All five listings -/

/-- The pages of each of the five listings hold every matching row once, exactly where no page
boundary runs between rows with equal keys. -/
theorem pages_list_all_iff (c : Collation) (db : Db) :
    (∀ userId userRole query, (ApplicationsService.listing db userId userRole query).ListsAll c ↔
      (ApplicationsService.listing db userId userRole query).CleanPages c) ∧
    (∀ query, (JobsService.listing c db query).ListsAll c ↔
      (JobsService.listing c db query).CleanPages c) ∧
    (∀ query, (UsersService.listing c db query).ListsAll c ↔
      (UsersService.listing c db query).CleanPages c) ∧
    (∀ query, (CandidatesService.listing c db query).ListsAll c ↔
      (CandidatesService.listing c db query).CleanPages c) ∧
    ∀ query, (InterviewsService.listing db query).ListsAll c ↔
      (InterviewsService.listing db query).CleanPages c :=
  ⟨fun _ _ _ => Listing.listsAll_iff c _, fun _ => Listing.listsAll_iff c _,
    fun _ => Listing.listsAll_iff c _, fun _ => Listing.listsAll_iff c _,
    fun _ => Listing.listsAll_iff c _⟩

/-- By their email, which is unique, users are always paged cleanly. -/
theorem users_by_email (c : Collation) (db : Db) {query : QueryUsersDto}
    (hby : query.sortBy = some "email") (hvalid : (UsersService.listing c db query).isValid = true) :
    (UsersService.listing c db query).CleanPages c := by
  have hcolumn : (UsersService.listing c db query).columns
      (UsersService.listing c db query).sortBy = some fun u => .text (User.email u) := by
    simp only [UsersService.listing, hby]
    rfl
  exact Listing.cleanPages_of_text hvalid hcolumn fun a ha b hb =>
    db.users.ukey_inj (List.mem_of_mem_filter ha) (List.mem_of_mem_filter hb)

/-! ## Two jobs without a salary -/

/-- Numbers before texts before JSON before `NULL`. -/
def SortKey.kind : SortKey → ℕ
  | .number _ => 0
  | .text _ => 1
  | .json _ => 2
  | .null => 3

/-- Texts are compared by their code points. -/
def SortKey.le : SortKey → SortKey → Bool
  | .number m, .number n => decide (m ≤ n)
  | .text s, .text t => decide (s ≤ t)
  | k, l => decide (k.kind ≤ l.kind)

theorem SortKey.le_of_le {a b d : SortKey} (hab : a.le b = true) (hbd : b.le d = true) :
    a.le d = true := by
  cases a <;> cases b <;> cases d <;> simp [SortKey.le, SortKey.kind] at hab hbd ⊢ <;>
    exact le_trans hab hbd

theorem SortKey.le_or_le (a b : SortKey) : a.le b = true ∨ b.le a = true := by
  cases a <;> cases b <;> simp [SortKey.le, SortKey.kind] <;> exact le_total _ _

def byCodePoint : Collation where
  le := SortKey.le
  le_trans _ _ _ := SortKey.le_of_le
  le_total := SortKey.le_or_le
  le_number _ _ := rfl
  le_text_antisymm _ _ hst hts := le_antisymm (of_decide_eq_true hst) (of_decide_eq_true hts)
  contains s term := decide (Sanitize.includes (Sanitize.toLowerCase s) (Sanitize.toLowerCase term))
  toLowerCase := Sanitize.toLowerCase

/-- The backend job and the frontend job, neither with a salary, one on a page. -/
def bySalary : Listing Job JobListed :=
  JobsService.listing byCodePoint seeded.db
    { limit := some 1
      sortBy := some "salaryMin"
      limit_min := fun _ h => (Option.some.inj h).le
      limit_max := fun _ h => (Option.some.inj h).ge.trans (by decide) }

/-- Each page is answered in an order that `ORDER BY salary_min` allows; the backend job is on
both of them and the frontend job on neither. -/
theorem pages_lose_a_job :
    (∃ answers : ℕ → List Job,
      (∀ k, IsSorting (bySalary.mayPrecede byCodePoint) bySalary.rows (answers k)) ∧
      ∃ items, bySalary.fetchAll answers = .ok items ∧
        items.map bySalary.itemKey = ["j-backend", "j-backend"]) ∧
    ¬ bySalary.ListsAll byCodePoint := by
  let answers : ℕ → List Job := fun k => if k = 0 then [backend, frontend] else [frontend, backend]
  have hanswers : ∀ k, IsSorting (bySalary.mayPrecede byCodePoint) bySalary.rows (answers k) := by
    intro k
    by_cases hk : k = 0
    · simp only [answers, hk, if_true]
      decide +kernel
    · simp only [answers, hk, if_false]
      decide +kernel
  obtain ⟨items, hitems, hkeys⟩ : ∃ items, bySalary.fetchAll answers = .ok items ∧
      items.map bySalary.itemKey = ["j-backend", "j-backend"] := ⟨_, rfl, rfl⟩
  refine ⟨⟨answers, hanswers, items, hitems, hkeys⟩, fun hlists => ?_⟩
  obtain ⟨items', hitems', hperm⟩ := hlists answers hanswers
  obtain rfl : items = items' := Except.ok.inj (hitems.symm.trans hitems')
  rw [hkeys] at hperm
  exact absurd hperm (by decide +kernel)

end TalentFlow
