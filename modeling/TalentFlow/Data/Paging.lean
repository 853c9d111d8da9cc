import Mathlib.Data.List.Nodup
import Mathlib.Data.List.Perm.Subperm
import Mathlib.Tactic.Ring

/-!
# Data.Paging

A sorted listing fetched page by page. Every page comes from an answer of its own, and rows with
equal sort keys may stand in a different order in each.

* `take_perm_of_isCut`: which rows come before a clean cut does not depend on the answer.
* `lists_iff`: the pages together hold every row once, whatever the answers, exactly when every page
  boundary is a clean cut.
-/

namespace Data.Paging

variable {ρ : Type} {le : ρ → ρ → Bool}

/-- An order in which the rows may be answered. -/
def IsSorting (le : ρ → ρ → Bool) (rows answer : List ρ) : Prop :=
  answer.Perm rows ∧ answer.Pairwise fun a b => le a b = true

instance [DecidableEq ρ] (rows answer : List ρ) : Decidable (IsSorting le rows answer) :=
  inferInstanceAs (Decidable (_ ∧ _))

/-- Page `k`, counted from 0. -/
def page (limit : ℕ) (answer : List ρ) (k : ℕ) : List ρ := (answer.drop (k * limit)).take limit

def pageCount (limit total : ℕ) : ℕ := (total + limit - 1) / limit

/-- The first `n` pages, page `k` taken from answer `k`. -/
def fetch (limit : ℕ) (answers : ℕ → List ρ) (n : ℕ) : List ρ :=
  (List.range n).flatMap fun k => page limit (answers k) k

/-- Whatever the answers, the pages together are the rows. -/
def Lists (le : ρ → ρ → Bool) (limit : ℕ) (rows : List ρ) : Prop :=
  ∀ answers : ℕ → List ρ, (∀ k, IsSorting le rows (answers k)) →
    (fetch limit answers (pageCount limit rows.length)).Perm rows

/-- Each of the first `n` rows sorts strictly before each of the others. -/
def IsCut (le : ρ → ρ → Bool) (rows : List ρ) (n : ℕ) : Prop :=
  ∀ answer, IsSorting le rows answer →
    ∀ x ∈ answer.take n, ∀ y ∈ answer.drop n, le y x = false

theorem fetch_succ (limit : ℕ) (answers : ℕ → List ρ) (n : ℕ) :
    fetch limit answers (n + 1) = fetch limit answers n ++ page limit (answers n) n := by
  simp [fetch, List.range_succ]

theorem take_append_page (limit : ℕ) (answer : List ρ) (k : ℕ) :
    answer.take (k * limit) ++ page limit answer k = answer.take ((k + 1) * limit) := by
  have hsum : (k + 1) * limit = k * limit + limit := by ring
  rw [hsum, List.take_add, page]

theorem length_le_pageCount {limit : ℕ} (hlimit : 0 < limit) (total : ℕ) :
    total ≤ pageCount limit total * limit := by
  have hmod := Nat.mod_lt (total + limit - 1) hlimit
  have hdiv := Nat.div_add_mod (total + limit - 1) limit
  rw [Nat.mul_comm] at hdiv
  unfold pageCount
  omega

theorem lt_pageCount {limit total k : ℕ} (hlimit : 0 < limit) (h : k * limit < total) :
    k < pageCount limit total := by
  refine (Nat.le_div_iff_mul_le hlimit).mpr ?_
  change (k + 1) * limit ≤ _
  have hsucc : (k + 1) * limit = k * limit + limit := by ring
  omega

/-- What comes before a clean cut does not depend on the answer. -/
theorem take_perm_of_isCut {rows a b : List ρ} {n : ℕ} (hnodup : rows.Nodup)
    (hcut : IsCut le rows n) (ha : IsSorting le rows a) (hb : IsSorting le rows b) :
    (b.take n).Perm (a.take n) := by
  have haNodup : a.Nodup := ha.1.nodup_iff.mpr hnodup
  have hbNodup : b.Nodup := hb.1.nodup_iff.mpr hnodup
  have hlen : (b.take n).length = (a.take n).length := by
    rw [List.length_take, List.length_take, ha.1.length_eq, hb.1.length_eq]
  have hsubset : b.take n ⊆ a.take n := by
    intro y hy
    by_contra hyA
    -- `y` has taken the place of some `x`, which then stands after it
    obtain ⟨x, hxA, hxB⟩ : ∃ x ∈ a.take n, x ∉ b.take n := by
      by_contra hall
      have hsub : a.take n ⊆ b.take n := fun x hx => by
        by_contra hxB
        exact hall ⟨x, hx, hxB⟩
      have hperm := (List.Nodup.subperm (haNodup.sublist (List.take_sublist n a))
        hsub).perm_of_length_le hlen.le
      exact hyA (hperm.mem_iff.mpr hy)
    have hyDrop : y ∈ a.drop n := by
      have hya : y ∈ a := (ha.1.trans hb.1.symm).mem_iff.mpr (List.mem_of_mem_take hy)
      rw [← List.take_append_drop n a] at hya
      exact (List.mem_append.mp hya).resolve_left hyA
    have hxDrop : x ∈ b.drop n := by
      have hxb : x ∈ b := (hb.1.trans ha.1.symm).mem_iff.mpr (List.mem_of_mem_take hxA)
      rw [← List.take_append_drop n b] at hxb
      exact (List.mem_append.mp hxb).resolve_left hxB
    have hle : le y x = true := by
      have hpair := hb.2
      rw [← List.take_append_drop n b, List.pairwise_append] at hpair
      exact hpair.2.2 y hy x hxDrop
    rw [hcut a ha x hxA y hyDrop] at hle
    cases hle
  exact (List.Nodup.subperm (hbNodup.sublist (List.take_sublist n b))
    hsubset).perm_of_length_le hlen.ge

/-- With clean cuts at the boundaries, the first pages hold what any one answer begins with. -/
theorem fetch_perm_take {limit : ℕ} {rows answer : List ρ} {answers : ℕ → List ρ}
    (hnodup : rows.Nodup) (hcut : ∀ k, IsCut le rows (k * limit))
    (hanswers : ∀ k, IsSorting le rows (answers k)) (hanswer : IsSorting le rows answer) (n : ℕ) :
    (fetch limit answers n).Perm (answer.take (n * limit)) := by
  induction n with
  | zero => simp [fetch]
  | succ n ih =>
    rw [fetch_succ]
    have hstart : (fetch limit answers n).Perm ((answers n).take (n * limit)) :=
      ih.trans (take_perm_of_isCut hnodup (hcut n) (hanswers n) hanswer)
    refine (hstart.append_right _).trans ?_
    rw [take_append_page]
    exact take_perm_of_isCut hnodup (hcut (n + 1)) hanswer (hanswers n)

/-- Rows whose keys never tie leave a clean cut everywhere. -/
theorem isCut_of_antisymm {rows : List ρ} (hnodup : rows.Nodup)
    (antisymm : ∀ a ∈ rows, ∀ b ∈ rows, le a b = true → le b a = true → a = b) (n : ℕ) :
    IsCut le rows n := by
  intro answer hanswer x hx y hy
  have hle : le x y = true := by
    have hpair := hanswer.2
    rw [← List.take_append_drop n answer, List.pairwise_append] at hpair
    exact hpair.2.2 x hx y hy
  have hne : x ≠ y := by
    have hsplit : (answer.take n ++ answer.drop n).Nodup := by
      rw [List.take_append_drop]
      exact hanswer.1.nodup_iff.mpr hnodup
    exact (List.nodup_append.mp hsplit).2.2 x hx y hy
  by_contra hback
  have hxRow : x ∈ rows := hanswer.1.mem_iff.mp (List.mem_of_mem_take hx)
  have hyRow : y ∈ rows := hanswer.1.mem_iff.mp (List.mem_of_mem_drop hy)
  exact hne (antisymm x hxRow y hyRow hle (by simpa using hback))

theorem exists_isSorting (trans : ∀ a b c, le a b = true → le b c = true → le a c = true)
    (total : ∀ a b, le a b = true ∨ le b a = true) (rows : List ρ) :
    ∃ answer, IsSorting le rows answer :=
  ⟨rows.mergeSort le, List.mergeSort_perm _ _, List.pairwise_mergeSort trans
    (fun a b => Bool.or_eq_true _ _ ▸ total a b) rows⟩

theorem perm_of_map_perm {κ : Type} {key : ρ → κ} {part rows : List ρ}
    (hnodup : (rows.map key).Nodup) (hsub : part ⊆ rows)
    (h : (part.map key).Perm (rows.map key)) : part.Perm rows := by
  have hpart : part.Nodup := List.Nodup.of_map key (h.nodup_iff.mpr hnodup)
  have hlen : rows.length = part.length := by
    simpa using h.length_eq.symm
  exact (List.Nodup.subperm hpart hsub).perm_of_length_le hlen.le

theorem subset_of_isSorting {rows answer : List ρ} (h : IsSorting le rows answer) (limit k : ℕ) :
    page limit answer k ⊆ rows :=
  fun _ hx => h.1.mem_iff.mp (List.mem_of_mem_drop (List.mem_of_mem_take hx))

theorem IsSorting.swap {rows p q : List ρ} {x y : ρ} (h : IsSorting le rows (p ++ x :: y :: q))
    (hle : le y x = true) : IsSorting le rows (p ++ y :: x :: q) := by
  refine ⟨((List.Perm.swap x y q).append_left p).trans h.1, ?_⟩
  have hpair := h.2
  simp only [List.pairwise_append, List.pairwise_cons, List.mem_cons, forall_eq_or_imp] at hpair ⊢
  obtain ⟨hp, ⟨⟨-, hxq⟩, hyq, hq⟩, hpq⟩ := hpair
  exact ⟨hp, ⟨⟨hle, hyq⟩, hxq, hq⟩, fun z hz => ⟨(hpq z hz).2.1, (hpq z hz).1, (hpq z hz).2.2⟩⟩

theorem mem_page {limit : ℕ} {answer : List ρ} {k i : ℕ} {x : ρ} (hi : i < limit)
    (h : answer[k * limit + i]? = some x) : x ∈ page limit answer k := by
  refine List.mem_of_getElem? (i := i) ?_
  rw [page, List.getElem?_take_of_lt hi, List.getElem?_drop]
  exact h

/-- A boundary that is no clean cut has rows with equal keys on both sides. -/
theorem exists_tie {rows : List ρ} (trans : ∀ a b c, le a b = true → le b c = true → le a c = true)
    (total : ∀ a b, le a b = true ∨ le b a = true) {n : ℕ} (hcut : ¬ IsCut le rows n) :
    ∃ p x y q, IsSorting le rows (p ++ x :: y :: q) ∧ p.length + 1 = n ∧ le y x = true := by
  have hrefl : ∀ a, le a a = true := fun a => (total a a).elim id id
  unfold IsCut at hcut
  push Not at hcut
  obtain ⟨answer, hanswer, x, hx, y, hy, hle⟩ := hcut
  cases hdrop : answer.drop n with
  | nil =>
    rw [hdrop] at hy
    cases hy
  | cons v q =>
    obtain ⟨p, u, htake⟩ := List.eq_nil_or_concat (answer.take n) |>.resolve_left fun hnil => by
      rw [hnil] at hx
      cases hx
    rw [List.concat_eq_append] at htake
    have hsplit : answer = p ++ u :: v :: q := by
      rw [← List.take_append_drop n answer, htake, hdrop]
      simp
    have hpair := hanswer.2
    rw [hsplit, List.pairwise_append] at hpair
    obtain ⟨-, htail, hpq⟩ := hpair
    -- `x` is at most `u`, and `v` at most `y`
    have hxu : le x u = true := by
      rw [htake] at hx
      rcases List.mem_append.mp hx with hx | hx
      · exact hpq x hx u List.mem_cons_self
      · rw [List.mem_singleton.mp hx]
        exact hrefl u
    have hvy : le v y = true := by
      rw [hdrop] at hy
      rcases List.mem_cons.mp hy with rfl | hy
      · exact hrefl y
      · exact (List.pairwise_cons.mp (List.pairwise_cons.mp htail).2).1 y hy
    have hyx : le y x = true := by simpa using hle
    refine ⟨p, u, v, q, hsplit ▸ hanswer, ?_, trans v x u (trans v y x hvy hyx) hxu⟩
    have hlen : n ≤ answer.length := by
      by_contra hgt
      rw [List.drop_eq_nil_of_le (by omega)] at hdrop
      cases hdrop
    have htakeLen := congrArg List.length htake
    rw [List.length_take_of_le hlen] at htakeLen
    simpa using htakeLen.symm

/-- Everything is listed once, whatever the answers, exactly when the pages begin at clean cuts. -/
theorem lists_iff {rows : List ρ} (trans : ∀ a b c, le a b = true → le b c = true → le a c = true)
    (total : ∀ a b, le a b = true ∨ le b a = true) {limit : ℕ} (hlimit : 0 < limit)
    (hnodup : rows.Nodup) : Lists le limit rows ↔ ∀ k, IsCut le rows (k * limit) := by
  constructor
  · intro hlists k
    by_contra hcut
    obtain ⟨p, x, y, q, hsorted, hp, hle⟩ := exists_tie trans total hcut
    have hk : 0 < k := by
      rcases Nat.eq_zero_or_pos k with rfl | hk
      · omega
      · exact hk
    -- the page before the boundary shows `x` last, the page after it shows `x` first
    let answers : ℕ → List ρ := fun j => if j = k then p ++ y :: x :: q else p ++ x :: y :: q
    have hanswers : ∀ j, IsSorting le rows (answers j) := by
      intro j
      by_cases hj : j = k
      · simp only [answers, hj, if_true]
        exact hsorted.swap hle
      · simp only [answers, hj, if_false]
        exact hsorted
    have htotal : k * limit < rows.length := by
      rw [← hsorted.1.length_eq, ← hp]
      simp only [List.length_append, List.length_cons]
      omega
    have hfetch : (fetch limit answers (pageCount limit rows.length)).Nodup :=
      (hlists answers hanswers).nodup_iff.mpr hnodup
    have hkCount : k < pageCount limit rows.length := lt_pageCount hlimit htotal
    have hdisjoint := List.pairwise_iff_getElem.mp (List.nodup_flatMap.mp hfetch).2 (k - 1) k
      (by rw [List.length_range]; omega) (by rwa [List.length_range]) (by omega)
    simp only [List.getElem_range] at hdisjoint
    have hstart : (k - 1) * limit + (limit - 1) = p.length := by
      obtain ⟨j, rfl⟩ := Nat.exists_eq_succ_of_ne_zero hk.ne'
      have hsucc : (j + 1) * limit = j * limit + limit := by ring
      simp only [Nat.succ_eq_add_one, Nat.add_sub_cancel] at hp ⊢
      omega
    have hbefore : x ∈ page limit (answers (k - 1)) (k - 1) := by
      refine mem_page (i := limit - 1) (by omega) ?_
      simp only [answers, if_neg (show k - 1 ≠ k by omega), hstart]
      simp
    have hafter : x ∈ page limit (answers k) k := by
      refine mem_page (i := 0) hlimit ?_
      simp only [answers, if_true, Nat.add_zero, ← hp]
      simp
    exact hdisjoint hbefore hafter
  · intro hcut answers hanswers
    refine (fetch_perm_take hnodup hcut hanswers (hanswers 0) _).trans ?_
    rw [List.take_of_length_le]
    · exact (hanswers 0).1
    · rw [(hanswers 0).1.length_eq]
      exact length_le_pageCount hlimit _

end Data.Paging
