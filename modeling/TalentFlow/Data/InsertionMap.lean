import Mathlib.Algebra.Order.Ring.Int
import Mathlib.Data.List.Basic
import Mathlib.Data.List.Nodup
import Mathlib.Data.List.Range

/-!
# Data.InsertionMap

Maps as lists of entries in the order in which their keys were first set. A key that is set again
keeps its place.

* `keys_upsert`, `lookup_upsert_self`, `lookup_upsert_ne`: keys and values after one entry is set.
* `keys_upsertAll`: after many, the keys are those of before and the new ones as they come up.
* `collect_eq_run_iff`: when numbers, as they come up, are the numbers from one on.
* `lookup_tally`, `sum_tally`: counting occurrences in a map.
-/

namespace Data.InsertionMap

variable {κ α : Type} [DecidableEq κ]

/-- Sets the entry of a key, by the value that it has. -/
def upsert (k : κ) (f : Option α → α) : List (κ × α) → List (κ × α)
  | [] => [(k, f none)]
  | (k', a) :: rest => if k' = k then (k, f (some a)) :: rest else (k', a) :: upsert k f rest

def upsertAll (f : Option α → α) (keys : List κ) (m : List (κ × α)) : List (κ × α) :=
  keys.foldl (fun m k => upsert k f m) m

/-- The keys with those of a list that are not among them, each where it comes up first. -/
def collect (seen : List κ) : List κ → List κ
  | [] => seen
  | k :: keys => collect (if k ∈ seen then seen else seen ++ [k]) keys

/-! ## Keys -/

theorem keys_upsert (k : κ) (f : Option α → α) (m : List (κ × α)) :
    (upsert k f m).map Prod.fst =
      if k ∈ m.map Prod.fst then m.map Prod.fst else m.map Prod.fst ++ [k] := by
  induction m with
  | nil => rfl
  | cons entry rest ih =>
    obtain ⟨k', a⟩ := entry
    by_cases hk : k' = k
    · simp [upsert, hk]
    · rw [upsert, if_neg hk, List.map_cons, ih]
      by_cases hmem : k ∈ rest.map Prod.fst
      · rw [if_pos hmem, List.map_cons, if_pos (List.mem_cons_of_mem _ hmem)]
      · have hnot : k ∉ k' :: rest.map Prod.fst := by
          rw [List.mem_cons, not_or]
          exact ⟨fun h => hk h.symm, hmem⟩
        rw [if_neg hmem, List.map_cons, if_neg hnot, List.cons_append]

theorem keys_upsertAll (f : Option α → α) (keys : List κ) (m : List (κ × α)) :
    (upsertAll f keys m).map Prod.fst = collect (m.map Prod.fst) keys := by
  unfold upsertAll
  induction keys generalizing m with
  | nil => rfl
  | cons k keys ih => rw [List.foldl_cons, ih, keys_upsert, collect]

theorem mem_collect {seen keys : List κ} {k : κ} : k ∈ collect seen keys ↔ k ∈ seen ∨ k ∈ keys := by
  induction keys generalizing seen with
  | nil => simp [collect]
  | cons k' keys ih =>
    rw [collect, ih]
    by_cases hk : k' ∈ seen
    · rw [if_pos hk, List.mem_cons]
      constructor
      · rintro (h | h)
        · exact .inl h
        · exact .inr (.inr h)
      · rintro (h | rfl | h)
        · exact .inl h
        · exact .inl hk
        · exact .inr h
    · rw [if_neg hk, List.mem_append, List.mem_singleton, List.mem_cons, or_assoc]

theorem prefix_collect (seen keys : List κ) : seen <+: collect seen keys := by
  induction keys generalizing seen with
  | nil => exact List.prefix_refl seen
  | cons k keys ih =>
    rw [collect]
    by_cases hk : k ∈ seen
    · rw [if_pos hk]
      exact ih seen
    · rw [if_neg hk]
      exact (List.prefix_append seen [k]).trans (ih (seen ++ [k]))

/-- Keys that come up in order, after those that are there, stay in order. -/
theorem pairwise_collect {r : κ → κ → Prop} {seen keys : List κ} (hseen : seen.Pairwise r)
    (hkeys : keys.Pairwise fun a b => a = b ∨ r a b)
    (hnew : ∀ k ∈ keys, k ∈ seen ∨ ∀ s ∈ seen, r s k) : (collect seen keys).Pairwise r := by
  induction keys generalizing seen with
  | nil => exact hseen
  | cons k keys ih =>
    obtain ⟨hfirst, hrest⟩ := List.pairwise_cons.mp hkeys
    rw [collect]
    by_cases hk : k ∈ seen
    · rw [if_pos hk]
      exact ih hseen hrest fun k' hk' => hnew k' (List.mem_cons_of_mem _ hk')
    · rw [if_neg hk]
      have habove : ∀ s ∈ seen, r s k := (hnew k List.mem_cons_self).resolve_left hk
      refine ih (List.pairwise_append.mpr ⟨hseen, List.pairwise_singleton r k, ?_⟩) hrest ?_
      · intro s hs k' hk'
        rw [List.mem_singleton.mp hk']
        exact habove s hs
      · intro k' hk'
        obtain rfl | hafter := hfirst k' hk'
        · exact .inl (List.mem_append_right _ List.mem_cons_self)
        · obtain hmem | hall := hnew k' (List.mem_cons_of_mem _ hk')
          · exact .inl (List.mem_append_left _ hmem)
          · refine .inr fun s hs => ?_
            obtain hs | hs := List.mem_append.mp hs
            · exact hall s hs
            · rw [List.mem_singleton.mp hs]
              exact hafter

theorem nodup_collect {seen : List κ} (hseen : seen.Nodup) (keys : List κ) :
    (collect seen keys).Nodup := by
  induction keys generalizing seen with
  | nil => exact hseen
  | cons k keys ih =>
    rw [collect]
    by_cases hk : k ∈ seen
    · rw [if_pos hk]
      exact ih hseen
    · rw [if_neg hk]
      exact ih (List.nodup_append'.mpr ⟨hseen, List.nodup_singleton k, by simpa using hk⟩)

theorem collect_append (seen xs ys : List κ) :
    collect seen (xs ++ ys) = collect (collect seen xs) ys := by
  induction xs generalizing seen with
  | nil => rfl
  | cons k xs ih => rw [List.cons_append, collect, collect, ih]

/-! ## Runs of numbers -/

def run (a : ℤ) (n : ℕ) : List ℤ := (List.range n).map fun (i : ℕ) => a + i

theorem mem_run {a d : ℤ} {n : ℕ} : d ∈ run a n ↔ a ≤ d ∧ d < a + n := by
  rw [run, List.mem_map]
  constructor
  · rintro ⟨i, hi, rfl⟩
    have hlt : i < n := List.mem_range.mp hi
    omega
  · rintro ⟨hle, hlt⟩
    exact ⟨(d - a).toNat, List.mem_range.mpr (by omega), by omega⟩

theorem length_run (a : ℤ) (n : ℕ) : (run a n).length = n := by
  rw [run, List.length_map, List.length_range]

theorem run_succ (a : ℤ) (n : ℕ) : run a (n + 1) = run a n ++ [a + n] := by
  rw [run, run, List.range_succ, List.map_append, List.map_singleton]

theorem sorted_run (a : ℤ) (n : ℕ) : (run a n).Pairwise (· < ·) := by
  rw [run, List.pairwise_map]
  exact List.pairwise_lt_range.imp fun hij => by omega

theorem eq_run_of_prefix {xs : List ℤ} {a : ℤ} {n : ℕ} (h : xs <+: run a n) :
    xs = run a xs.length := by
  have hle : xs.length ≤ n := by
    have hlength := h.length_le
    rwa [length_run] at hlength
  have htake : xs = (run a n).take xs.length := List.prefix_iff_eq_take.mp h
  rw [run, ← List.map_take, List.take_range, Nat.min_eq_left hle] at htake
  exact htake

variable (m : ℕ → ℤ)

theorem collect_range_succ (n : ℕ) : collect [] ((List.range (n + 1)).map m) =
    if m n ∈ collect [] ((List.range n).map m) then collect [] ((List.range n).map m)
    else collect [] ((List.range n).map m) ++ [m n] := by
  rw [List.range_succ, List.map_append, collect_append, List.map_singleton, collect, collect]

theorem mem_collect_range {n : ℕ} {d : ℤ} :
    d ∈ collect [] ((List.range n).map m) ↔ ∃ i < n, m i = d := by
  simp [mem_collect]

theorem prefix_collect_range {i n : ℕ} (h : i ≤ n) :
    collect [] ((List.range i).map m) <+: collect [] ((List.range n).map m) := by
  induction n, h using Nat.le_induction with
  | base => exact List.prefix_refl _
  | succ n hin ih =>
    rw [collect_range_succ]
    by_cases hmem : m n ∈ collect [] ((List.range n).map m)
    · rw [if_pos hmem]
      exact ih
    · rw [if_neg hmem]
      exact ih.trans (List.prefix_append _ _)

/-- Numbers that never fall below the first one, and never leave one out, give a run. -/
theorem exists_collect_eq_run {n : ℕ} (hfirst : ∀ i ≤ n, m 0 ≤ m i)
    (hgap : ∀ i < n, ∃ k ≤ i, m (i + 1) ≤ m k + 1) :
    ∃ l, collect [] ((List.range (n + 1)).map m) = run (m 0) l := by
  induction n with
  | zero => exact ⟨1, by simp [collect, run]⟩
  | succ n ih =>
    obtain ⟨l, hl⟩ := ih (fun i hi => hfirst i (by omega)) (fun i hi => hgap i (by omega))
    rw [collect_range_succ, hl]
    by_cases hmem : m (n + 1) ∈ run (m 0) l
    · rw [if_pos hmem]
      exact ⟨l, rfl⟩
    · obtain ⟨k, hk, hle⟩ := hgap n (Nat.lt_succ_self n)
      have hseen : m k ∈ run (m 0) l := by
        rw [← hl, mem_collect_range]
        exact ⟨k, by omega, rfl⟩
      have hnext : m (n + 1) = m 0 + l := by
        have habove := hfirst (n + 1) le_rfl
        rw [mem_run] at hmem hseen
        omega
      rw [if_neg hmem, hnext, ← run_succ]
      exact ⟨l + 1, rfl⟩

theorem gap_of_collect_eq_run {n l : ℕ} {a : ℤ}
    (h : collect [] ((List.range (n + 1)).map m) = run a l) :
    ∀ i < n, ∃ k ≤ i, m (i + 1) ≤ m k + 1 := by
  intro i hi
  by_cases hmem : m (i + 1) ∈ collect [] ((List.range (i + 1)).map m)
  · obtain ⟨k, hk, heq⟩ := (mem_collect_range m).mp hmem
    exact ⟨k, by omega, by omega⟩
  · -- the number is new, so it is the one after those before it
    have hbegins : ∀ j ≤ n + 1, collect [] ((List.range j).map m) <+: run a l := by
      intro j hj
      rw [← h]
      exact prefix_collect_range m hj
    obtain ⟨l₀, hbefore⟩ : ∃ l₀, collect [] ((List.range (i + 1)).map m) = run a l₀ :=
      ⟨_, eq_run_of_prefix (hbegins (i + 1) (by omega))⟩
    have hnow := hbegins (i + 1 + 1) (by omega)
    rw [collect_range_succ m (i + 1), if_neg hmem, hbefore] at hnow
    have hnext : m (i + 1) = a + l₀ := by
      have heq := eq_run_of_prefix hnow
      rw [List.length_append, length_run, List.length_singleton, run_succ] at heq
      simpa using heq
    have hfirst : m 0 ∈ run a l₀ := by
      rw [← hbefore, mem_collect_range]
      exact ⟨0, Nat.succ_pos i, rfl⟩
    have hlast : a + l₀ - 1 ∈ run a l₀ := by
      rw [mem_run] at hfirst ⊢
      omega
    rw [← hbefore, mem_collect_range] at hlast
    obtain ⟨k, hk, heq⟩ := hlast
    exact ⟨k, by omega, by omega⟩

theorem first_of_collect_eq_run {n l : ℕ} {a : ℤ}
    (h : collect [] ((List.range (n + 1)).map m) = run a l) : m 0 = a := by
  have hbegins : [m 0] <+: run a l := by
    rw [← h]
    exact prefix_collect_range m (Nat.succ_le_succ (Nat.zero_le n))
  simpa [run] using eq_run_of_prefix hbegins

/-- Numbers as they come up are a run from the first one on if none is below it and no number
between them is left out. -/
theorem collect_eq_run_iff (n : ℕ) : (∃ l, collect [] ((List.range (n + 1)).map m) = run (m 0) l) ↔
    (∀ i ≤ n, m 0 ≤ m i) ∧ ∀ i < n, ∃ k ≤ i, m (i + 1) ≤ m k + 1 := by
  constructor
  · rintro ⟨l, hl⟩
    refine ⟨fun i hi => ?_, gap_of_collect_eq_run m hl⟩
    have hmem : m i ∈ run (m 0) l := by
      rw [← hl, mem_collect_range]
      exact ⟨i, by omega, rfl⟩
    exact (mem_run.mp hmem).1
  · rintro ⟨hfirst, hgap⟩
    exact exists_collect_eq_run m hfirst hgap

/-! ## Values -/

theorem lookup_cons_ne {k k' : κ} (h : k' ≠ k) (a : α) (rest : List (κ × α)) :
    ((k, a) :: rest).lookup k' = rest.lookup k' := by
  rw [List.lookup_cons, beq_eq_false_iff_ne.mpr h]

theorem lookup_upsert_self (k : κ) (f : Option α → α) (m : List (κ × α)) :
    (upsert k f m).lookup k = some (f (m.lookup k)) := by
  induction m with
  | nil => simp [upsert]
  | cons entry rest ih =>
    obtain ⟨k', a⟩ := entry
    by_cases hk : k' = k
    · simp [upsert, hk]
    · rw [upsert, if_neg hk, lookup_cons_ne (Ne.symm hk), lookup_cons_ne (Ne.symm hk), ih]

theorem lookup_upsert_ne {k k' : κ} (h : k' ≠ k) (f : Option α → α) (m : List (κ × α)) :
    (upsert k f m).lookup k' = m.lookup k' := by
  induction m with
  | nil => exact lookup_cons_ne h _ _
  | cons entry rest ih =>
    obtain ⟨k₀, a⟩ := entry
    by_cases h₀ : k₀ = k
    · rw [upsert, if_pos h₀, h₀, lookup_cons_ne h, lookup_cons_ne h]
    · rw [upsert, if_neg h₀, List.lookup_cons, List.lookup_cons, ih]

theorem forall_upsert {p : α → Prop} {f : Option α → α} (hf : ∀ a, p (f a)) (k : κ)
    {m : List (κ × α)} (hm : ∀ entry ∈ m, p entry.2) : ∀ entry ∈ upsert k f m, p entry.2 := by
  induction m with
  | nil => simpa [upsert] using hf none
  | cons first rest ih =>
    obtain ⟨hfirst, hrest⟩ := List.forall_mem_cons.mp hm
    by_cases hk : first.1 = k
    · rw [upsert, if_pos hk]
      exact List.forall_mem_cons.mpr ⟨hf _, hrest⟩
    · rw [upsert, if_neg hk]
      exact List.forall_mem_cons.mpr ⟨hfirst, ih hrest⟩

theorem forall_upsertAll {p : α → Prop} {f : Option α → α} (hf : ∀ a, p (f a)) (keys : List κ)
    {m : List (κ × α)} (hm : ∀ entry ∈ m, p entry.2) :
    ∀ entry ∈ upsertAll f keys m, p entry.2 := by
  unfold upsertAll
  induction keys generalizing m with
  | nil => exact hm
  | cons k keys ih => exact ih (forall_upsert hf k hm)

theorem mem_of_lookup {m : List (κ × α)} {k : κ} {a : α} (h : m.lookup k = some a) :
    (k, a) ∈ m := by
  obtain ⟨_, _, rfl, -⟩ := List.lookup_eq_some_iff.mp h
  exact List.mem_append_right _ List.mem_cons_self

def tally (keys : List κ) (m : List (κ × ℕ)) : List (κ × ℕ) :=
  upsertAll (fun n => n.getD 0 + 1) keys m

theorem lookup_tally (keys : List κ) (m : List (κ × ℕ)) (k : κ) :
    ((tally keys m).lookup k).getD 0 = (m.lookup k).getD 0 + keys.count k := by
  unfold tally upsertAll
  induction keys generalizing m with
  | nil => simp
  | cons k' keys ih =>
    rw [List.foldl_cons, ih]
    by_cases hk : k = k'
    · rw [hk, lookup_upsert_self, List.count_cons_self, Option.getD_some]
      omega
    · rw [lookup_upsert_ne hk, List.count_cons_of_ne (Ne.symm hk)]

theorem sum_upsert (k : κ) (m : List (κ × ℕ)) :
    ((upsert k (fun n => n.getD 0 + 1) m).map Prod.snd).sum = (m.map Prod.snd).sum + 1 := by
  induction m with
  | nil => rfl
  | cons entry rest ih =>
    obtain ⟨k', n⟩ := entry
    by_cases hk : k' = k
    · simp [upsert, hk]
      omega
    · simp only [upsert, if_neg hk, List.map_cons, List.sum_cons, ih]
      omega

theorem sum_tally (keys : List κ) (m : List (κ × ℕ)) :
    ((tally keys m).map Prod.snd).sum = (m.map Prod.snd).sum + keys.length := by
  unfold tally upsertAll
  induction keys generalizing m with
  | nil => rfl
  | cons k keys ih =>
    rw [List.foldl_cons, ih, sum_upsert, List.length_cons]
    omega

theorem lookup_of_mem {m : List (κ × α)} (hnodup : (m.map Prod.fst).Nodup) {entry : κ × α}
    (h : entry ∈ m) : m.lookup entry.1 = some entry.2 := by
  induction m with
  | nil => cases h
  | cons first rest ih =>
    obtain ⟨hfirst, hrest⟩ := List.nodup_cons.mp hnodup
    obtain rfl | h := List.mem_cons.mp h
    · exact List.lookup_cons_self
    · have hne : entry.1 ≠ first.1 := by
        intro heq
        exact hfirst (heq ▸ List.mem_map_of_mem h)
      rw [lookup_cons_ne hne]
      exact ih hrest h

end Data.InsertionMap
