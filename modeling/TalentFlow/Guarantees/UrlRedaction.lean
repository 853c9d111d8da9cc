import TalentFlow.Gateway.SanitizeUrl

/-!
# Guarantees.UrlRedaction

What `sanitizeUrl` does to the query parameters of a URL: which of them it replaces, compared with
the keys that `sanitize` replaces, and when the value of a replaced one has no influence on what is
logged.

* `getAll_redactParams`: the values after the loop over the sensitive keys.
* `sanitizeUrl_eq`: the result when something is replaced.
* `param_agrees_iff`, `value_hidden_iff`: the two results.
-/

namespace TalentFlow.Sanitize

open Data.Percent Data.Url

/-! ## The loop over the keys -/

section Params

variable {params : Params} {name key value : String}

theorem has_iff : params.has name = true ↔ params.getAll name ≠ [] := by
  simp [Params.has, Params.getAll, List.filter_eq_nil_iff]

theorem getAll_cons (p : String × String) : Params.getAll (p :: params) name =
    if p.1 = name then p.2 :: params.getAll name else params.getAll name := by
  by_cases h : p.1 = name
  · simp [Params.getAll, h]
  · simp [Params.getAll, h]

theorem getAll_set : (params.set key value).getAll name =
    if name = key then [value] else params.getAll name := by
  induction params with
  | nil =>
    rw [Params.set, getAll_cons]
    by_cases h : name = key
    · simp [h, Params.getAll]
    · simp [h, Ne.symm h, Params.getAll]
  | cons p params ih =>
    rw [Params.set]
    split
    · rename_i hp
      rw [getAll_cons, getAll_cons, hp]
      by_cases h : name = key
      · subst h
        simp [Params.getAll, List.filter_filter]
      · rw [if_neg (Ne.symm h), if_neg h, if_neg (Ne.symm h), Params.getAll, Params.getAll,
          List.filter_filter]
        congr 1
        refine List.filter_congr fun q _ => ?_
        by_cases hq : q.1 = name
        · simp [hq, h]
        · simp [hq]
    · rename_i hp
      rw [getAll_cons, getAll_cons, ih]
      by_cases h : name = key
      · subst h
        simp [hp]
      · simp [h]

theorem has_set (h : params.has name = true) : (params.set key value).has name = true := by
  rw [has_iff, getAll_set]
  split
  · simp
  · exact has_iff.mp h

/-- The loop on the parameters alone. -/
def redactParams (keys : List String) (params : Params) : Params :=
  keys.foldl (fun ps key => if ps.has key then ps.set key "[REDACTED]" else ps) params

theorem redactParams_cons {keys : List String} : redactParams (key :: keys) params =
    redactParams keys (if params.has key then params.set key "[REDACTED]" else params) := rfl

/-- A parameter with the name of a key has one value after the loop, the others have theirs. -/
theorem getAll_redactParams {keys : List String} (h : params.has name = true) :
    (redactParams keys params).getAll name =
      if name ∈ keys then ["[REDACTED]"] else params.getAll name := by
  induction keys generalizing params with
  | nil => simp [redactParams]
  | cons key keys ih =>
    rw [redactParams_cons]
    by_cases hk : name = key
    · subst hk
      rw [if_pos h, ih (has_set h), getAll_set, if_pos rfl, if_pos List.mem_cons_self, ite_self]
    · by_cases hkey : params.has key = true
      · rw [if_pos hkey, ih (has_set h), getAll_set, if_neg hk]
        simp [hk]
      · rw [if_neg hkey, ih h]
        simp [hk]

theorem redactParams_of_absent {keys : List String} (h : keys.any params.has = false) :
    redactParams keys params = params := by
  induction keys with
  | nil => rfl
  | cons key keys ih =>
    rw [List.any_cons, Bool.or_eq_false_iff] at h
    rw [redactParams_cons, h.1]
    exact ih h.2

theorem foldl_redactParam (keys : List String) (url : UrlRecord) :
    keys.foldl redactParam url = if keys.any url.searchParams.has = true then
      { url with query := serialize (redactParams keys url.searchParams),
                 searchParams := redactParams keys url.searchParams } else url := by
  induction keys generalizing url with
  | nil => rfl
  | cons key keys ih =>
    rw [List.foldl_cons, List.any_cons, redactParams_cons]
    by_cases hkey : url.searchParams.has key = true
    · rw [hkey, Bool.true_or, if_pos rfl, redactParam, if_pos hkey, ih, if_pos rfl]
      split
      · rfl
      · rename_i habsent
        have hsame := redactParams_of_absent (eq_false_of_ne_true habsent)
        rw [show redactParams keys (Params.set key "[REDACTED]" url.searchParams) = _ from hsame]
        rfl
    · rw [redactParam, if_neg hkey, ih, if_neg hkey, Bool.eq_false_iff.mpr hkey, Bool.false_or]

end Params

variable {parser : BaseParser} {url : String} {parsed : UrlRecord}

theorem foldl_searchParams (keys : List String) :
    (keys.foldl redactParam parsed).searchParams = redactParams keys parsed.searchParams := by
  rw [foldl_redactParam]
  split
  · rfl
  · rename_i habsent
    exact (redactParams_of_absent (eq_false_of_ne_true habsent)).symm

theorem redactUrl_searchParams :
    (redactUrl parsed).searchParams = redactParams SENSITIVE_KEYS parsed.searchParams :=
  foldl_searchParams _

theorem question_of_param {name : String} (h : parseUrl parser url.toList = some parsed)
    (hname : name ∈ parsed.searchParams.map Prod.fst) : '?' ∈ url.toList := by
  by_contra hnone
  obtain ⟨base, -, rfl⟩ := Option.map_eq_some_iff.mp h
  have hmain : '?' ∉ (stripped url.toList).takeWhile (· ≠ '#') := by
    intro hmem
    have hstripped := (List.takeWhile_subset _) hmem
    rw [stripped, List.mem_filter, List.mem_reverse] at hstripped
    have hdropped := (List.dropWhile_subset _) hstripped.1
    rw [List.mem_reverse] at hdropped
    exact hnone ((List.dropWhile_subset _) hdropped)
  have hquery : queryOf ((stripped url.toList).takeWhile (· ≠ '#')) = [] := by
    rw [queryOf, List.dropWhile_eq_nil_iff.mpr, List.tail_nil]
    intro c hc
    rw [decide_eq_true_eq]
    rintro rfl
    exact hmain hc
  simp only [hquery] at hname
  cases hname

/-! ## Which parameters are replaced -/

/-- What `sanitize` asks of the name of a field. -/
def NameIsSensitive (name : String) : Prop :=
  ∃ term ∈ SENSITIVE_KEYS, includes (toLowerCase name) term

instance (name : String) : Decidable (NameIsSensitive name) :=
  inferInstanceAs (Decidable (∃ term ∈ SENSITIVE_KEYS, includes (toLowerCase name) term))

theorem isSensitive_iff (key : PropertyName) : IsSensitive key ↔ NameIsSensitive key.name := Iff.rfl

/-- Whether a parameter is treated as `sanitize` treats a field of its name: its values are replaced
if the name is sensitive, and stay if it is not. -/
structure Agrees (parser : BaseParser) (url : String) (parsed : UrlRecord) (out : List Char)
    (name : String) : Prop where
  returned : sanitizeUrl parser url = String.ofList out
  replaced : NameIsSensitive name → (redactUrl parsed).searchParams.getAll name = ["[REDACTED]"]
  kept : ¬ NameIsSensitive name →
    (redactUrl parsed).searchParams.getAll name = parsed.searchParams.getAll name

theorem keys_sensitive {key : String} (h : key ∈ SENSITIVE_KEYS) : NameIsSensitive key := by
  have hlower : SENSITIVE_KEYS.all (fun key => toLowerCase key == key) = true := by decide +kernel
  refine ⟨key, h, ?_⟩
  rw [eq_of_beq (List.all_eq_true.mp hlower key h)]
  exact List.infix_refl key.toList

/-- A parameter is treated as a field exactly when its name is spelled as a key, or is not sensitive
(or there was nothing else to replace). -/
theorem param_agrees_iff (parser : BaseParser) {url : String} {parsed : UrlRecord} {out : List Char}
    (hparse : parseUrl parser url.toList = some parsed)
    (hout : decodeURIComponent ((redactUrl parsed).pathname ++ (redactUrl parsed).search) = some out)
    {name : String} (hname : name ∈ parsed.searchParams.map Prod.fst) :
    Agrees parser url parsed out name ↔
      name ∈ SENSITIVE_KEYS ∨ ¬ NameIsSensitive name ∨
        parsed.searchParams.getAll name = ["[REDACTED]"] := by
  have hreturned : sanitizeUrl parser url = String.ofList out := by
    rw [sanitizeUrl, if_pos (question_of_param hparse hname), hparse]
    simp only [hout]
  have hhas : parsed.searchParams.has name = true := by
    obtain ⟨p, hp, rfl⟩ := List.mem_map.mp hname
    exact List.any_eq_true.mpr ⟨p, hp, beq_self_eq_true _⟩
  have hafter : (redactUrl parsed).searchParams.getAll name =
      if name ∈ SENSITIVE_KEYS then ["[REDACTED]"] else parsed.searchParams.getAll name := by
    rw [redactUrl_searchParams, getAll_redactParams hhas]
  constructor
  · intro h
    by_cases hkey : name ∈ SENSITIVE_KEYS
    · exact .inl hkey
    · by_cases hs : NameIsSensitive name
      · have hreplaced := h.replaced hs
        rw [hafter, if_neg hkey] at hreplaced
        exact .inr (.inr hreplaced)
      · exact .inr (.inl hs)
  · intro h
    refine ⟨hreturned, fun hs => ?_, fun hs => ?_⟩
    · rw [hafter]
      rcases h with hkey | hs' | hvalues
      · rw [if_pos hkey]
      · exact absurd hs hs'
      · rw [hvalues, ite_self]
    · rw [hafter, if_neg fun hkey => hs (keys_sensitive hkey)]

/-- A path of an http URL that needs no escapes is its own pathname. -/
def pathOnly : BaseParser := fun before _ => some ⟨before, true⟩

theorem param_agrees_token :
    Agrees pathOnly "/api/users?token=secret123&id=1"
      ⟨"/api/users".toList, "token=secret123&id=1".toList, [("token", "secret123"), ("id", "1")]⟩
      "/api/users?token=[REDACTED]&id=1".toList "token" :=
  (param_agrees_iff pathOnly (by decide +kernel) (by decide +kernel) (by decide +kernel)).mpr
    (.inl (by decide +kernel))

theorem token_kept :
    NameIsSensitive "Token" ∧ NameIsSensitive "userPassword" ∧
      (parseUrl pathOnly "/a?Token=x&userPassword=y".toList).map (·.searchParams) =
        some [("Token", "x"), ("userPassword", "y")] ∧
      sanitizeUrl pathOnly "/a?Token=x&userPassword=y" = "/a?Token=x&userPassword=y" := by
  decide +kernel

/-! ## Values without influence -/

/-- The same parameters but for the values under a name. -/
def AgreeOff (name : String) : Params → Params → Prop :=
  List.Forall₂ fun p q => p.1 = q.1 ∧ (p.1 ≠ name → p = q)

section AgreeOff

variable {ps qs : Params} {name key value : String}

theorem has_agreeOff (h : AgreeOff name ps qs) : ps.has key = qs.has key := by
  induction h with
  | nil => rfl
  | cons hpq _ ih =>
    simp only [Params.has, List.any_cons] at ih ⊢
    rw [hpq.1, ih]

theorem filter_agreeOff (h : AgreeOff name ps qs) :
    AgreeOff name (ps.filter fun p => p.1 ≠ key) (qs.filter fun p => p.1 ≠ key) := by
  induction h with
  | nil => exact .nil
  | cons hpq _ ih =>
    simp only [List.filter_cons, hpq.1]
    split
    · exact .cons hpq ih
    · exact ih

theorem filter_eq (h : AgreeOff name ps qs) :
    ps.filter (fun p => p.1 ≠ name) = qs.filter fun p => p.1 ≠ name := by
  induction h with
  | nil => rfl
  | cons hpq _ ih =>
    rw [List.filter_cons, List.filter_cons, ih, hpq.1]
    split
    · rename_i hne
      rw [← hpq.1, decide_eq_true_eq] at hne
      rw [hpq.2 hne]
    · rfl

theorem set_agreeOff (h : AgreeOff name ps qs) :
    AgreeOff name (ps.set key value) (qs.set key value) := by
  induction h with
  | nil => exact .cons ⟨rfl, fun _ => rfl⟩ .nil
  | cons hpq hrest ih =>
    rw [Params.set, Params.set, hpq.1]
    split
    · exact .cons ⟨rfl, fun _ => rfl⟩ (filter_agreeOff hrest)
    · exact .cons hpq ih

theorem set_eq (h : AgreeOff name ps qs) : ps.set name value = qs.set name value := by
  induction h with
  | nil => rfl
  | cons hpq hrest ih =>
    rw [Params.set, Params.set, hpq.1, ih]
    split
    · rw [filter_eq hrest]
    · rename_i hne
      rw [hpq.2 (hpq.1 ▸ hne)]

theorem redactParams_agreeOff {keys : List String} (h : AgreeOff name ps qs) (hkey : name ∈ keys)
    (hhas : ps.has name = true) : redactParams keys ps = redactParams keys qs := by
  induction keys generalizing ps qs with
  | nil => cases hkey
  | cons key keys ih =>
    rw [redactParams_cons, redactParams_cons, ← has_agreeOff h]
    by_cases hname : name = key
    · subst hname
      rw [if_pos hhas, if_pos hhas, set_eq h]
    · have hkeys : name ∈ keys := (List.mem_cons.mp hkey).resolve_left hname
      split
      · exact ih (set_agreeOff h) hkeys (has_set hhas)
      · exact ih h hkeys hhas

end AgreeOff

theorem serialize_ne_nil {params : Params} (h : params ≠ []) : serialize params ≠ [] := by
  cases params with
  | nil => exact absurd rfl h
  | cons p params =>
    cases params with
    | nil => simp [serialize]
    | cons q params => simp [serialize, List.intercalate_cons_cons]

theorem foldl_target {keys : List String} {key : String} (hkey : key ∈ keys)
    (hhas : parsed.searchParams.has key = true) :
    (keys.foldl redactParam parsed).pathname ++ (keys.foldl redactParam parsed).search =
      parsed.pathname ++ '?' :: serialize (redactParams keys parsed.searchParams) := by
  have hany : keys.any parsed.searchParams.has = true := List.any_eq_true.mpr ⟨key, hkey, hhas⟩
  have hne : redactParams keys parsed.searchParams ≠ [] := by
    intro hnil
    have hvalues := @getAll_redactParams _ _ keys hhas
    rw [hnil, if_pos hkey] at hvalues
    cases hvalues
  rw [foldl_redactParam, if_pos hany]
  simp only [UrlRecord.search, if_neg (serialize_ne_nil hne)]

/-- The result when something is replaced: the decoded path with the parameters as they are shown,
or the URL itself if the path does not decode. -/
theorem sanitizeUrl_eq (hquestion : '?' ∈ url.toList)
    (hparse : parseUrl parser url.toList = some parsed) {key : String} (hkey : key ∈ SENSITIVE_KEYS)
    (hhas : parsed.searchParams.has key = true) :
    sanitizeUrl parser url = ((decodeURIComponent parsed.pathname).map fun path =>
      String.ofList (path ++
        '?' :: shownQuery (redactParams SENSITIVE_KEYS parsed.searchParams))).getD url := by
  rw [sanitizeUrl, if_pos hquestion, hparse]
  simp only [redactUrl]
  rw [foldl_target hkey hhas, decodeURIComponent_query]
  cases decodeURIComponent parsed.pathname with
  | none => rfl
  | some path => rfl

/-- The value of a parameter under a key has no influence on the result exactly when the path
decodes. -/
theorem value_hidden_iff (parser : BaseParser) (hole : Hole) {base : Base}
    (hbase : hole.base parser = some base) (hname : hole.nameIn base ∈ SENSITIVE_KEYS)
    {v w : List Char} (hv : '&' ∉ v ∧ '#' ∉ v) (hw : '&' ∉ w ∧ '#' ∉ w) :
    sanitizeUrl parser (String.ofList (hole.fill v)) =
      sanitizeUrl parser (String.ofList (hole.fill w)) ↔
    v = w ∨ (decodeURIComponent base.pathname).isSome = true := by
  obtain ⟨l, r, hparse⟩ := Hole.parseUrl_fill hbase
  obtain ⟨x, q, hx⟩ := hparse v hv.1 hv.2
  obtain ⟨y, q', hy⟩ := hparse w hw.1 hw.2
  have hquestion : ∀ v, '?' ∈ (String.ofList (hole.fill v)).toList := by
    intro v
    simp [Hole.fill]
  have hhas : ∀ x, Params.has (l ++ (hole.nameIn base, x) :: r) (hole.nameIn base) = true := by
    intro x
    simp [Params.has]
  have hagree : AgreeOff (hole.nameIn base) (l ++ (hole.nameIn base, x) :: r)
      (l ++ (hole.nameIn base, y) :: r) := by
    have hsame : ∀ ps : Params, AgreeOff (hole.nameIn base) ps ps :=
      fun ps => List.forall₂_same.mpr fun _ _ => ⟨rfl, fun _ => rfl⟩
    exact List.rel_append (hsame l) (.cons ⟨rfl, fun hne => absurd rfl hne⟩ (hsame r))
  rw [← String.toList_ofList (l := hole.fill v)] at hx
  rw [← String.toList_ofList (l := hole.fill w)] at hy
  rw [sanitizeUrl_eq (hquestion v) hx hname (hhas x), sanitizeUrl_eq (hquestion w) hy hname (hhas y),
    redactParams_agreeOff hagree hname (hhas x)]
  cases decodeURIComponent base.pathname with
  | some path => simp
  | none =>
    simp only [Option.map_none, Option.getD_none, String.ofList_inj, Option.isSome_none,
      Bool.false_eq_true, or_false]
    simp [Hole.fill]

/-- `path?x=1&token=`, and a fragment after the value. -/
def usersByToken (path : List Char) (h : '?' ∉ path ∧ '#' ∉ path) : Hole where
  before := path
  pairs := "x=1&".toList
  name := "token".toList
  rest := "#top".toList
  before_plain := h
  pairs_end := .inr ⟨"x=1".toList, rfl⟩
  pairs_plain := by decide
  name_plain := by decide
  rest_start := .inr ⟨"top".toList, .inr rfl⟩

theorem value_hidden_users :
    sanitizeUrl pathOnly (String.ofList ((usersByToken "/api/users".toList (by decide)).fill ['a'])) =
      sanitizeUrl pathOnly
        (String.ofList ((usersByToken "/api/users".toList (by decide)).fill "%b=c".toList)) :=
  (value_hidden_iff pathOnly _ rfl (by decide +kernel) (by decide) (by decide)).mpr
    (.inr (by decide +kernel))

/-- A malformed escape in the path. -/
theorem value_shown :
    sanitizeUrl pathOnly "/%zz?token=abc" = "/%zz?token=abc" ∧
      sanitizeUrl pathOnly "/%zz?token=xyz" = "/%zz?token=xyz" := by
  decide +kernel

end TalentFlow.Sanitize
