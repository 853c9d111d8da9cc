import TalentFlow.Data.Percent

/-!
# Data.Url

The format of query strings and the parts of a URL, as in the URL standard. What stands before the
query of a URL (scheme, host and path) is left to a parameter: it does not depend on the query.

* `decodeURIComponent_query`: a path with a serialized query decodes if the path does.
* `Hole.parseUrl_fill`: the parameters of a URL, around one of them.
-/

namespace Data.Url

open Percent

/-! ## Query strings -/

/-- The `application/x-www-form-urlencoded` percent-encode set leaves these as they are. -/
def formKept (c : Char) : Bool := c.isAlphanum || c == '*' || c == '-' || c == '.' || c == '_'

def formEncode (s : String) : List Char :=
  s.toList.flatMap fun c => if c = ' ' then ['+'] else if formKept c then [c] else encodeChar c

def formDecode (s : List Char) : String :=
  String.ofList (decodeLossy {} (percentDecode (s.map fun c => if c = '+' then ' ' else c)))

/-- A component as `decodeURIComponent` shows it. -/
def shown (s : String) : List Char := s.toList.map fun c => if c = ' ' then '+' else c

theorem octets_formEncode (s : String) (t : List Char) :
    octets (formEncode s ++ t) = (octets t).map (utf8 (shown s) ++ ·) := by
  rw [formEncode, shown]
  induction s.toList with
  | nil => simp [utf8]
  | cons c cs ih =>
    rw [List.flatMap_cons, List.append_assoc, List.map_cons]
    split
    · rw [List.singleton_append, octets_literal (by decide), ih, Option.map_map]
      simp [utf8, Function.comp_def]
    · split
      · rename_i hkept
        have hc : c ≠ '%' := by
          rintro rfl
          exact absurd hkept (by decide)
        rw [List.singleton_append, octets_literal hc, ih, Option.map_map]
        simp [utf8, Function.comp_def]
      · rw [encodeChar, octets_escapes, ih, Option.map_map]
        simp [utf8, Function.comp_def]

abbrev Params := List (String × String)

def serialize (params : Params) : List Char :=
  ['&'].intercalate (params.map fun (name, value) => formEncode name ++ '=' :: formEncode value)

/-- A query as `decodeURIComponent` shows it. -/
def shownQuery (params : Params) : List Char :=
  ['&'].intercalate (params.map fun (name, value) => shown name ++ '=' :: shown value)

theorem octets_pair (name value : String) (t : List Char) :
    octets (formEncode name ++ '=' :: formEncode value ++ t) =
      (octets t).map (utf8 (shown name ++ '=' :: shown value) ++ ·) := by
  rw [List.append_assoc, List.cons_append, octets_formEncode, octets_literal (by decide),
    octets_formEncode, Option.map_map, Option.map_map]
  simp [utf8, Function.comp_def]

theorem octets_serialize (params : Params) :
    octets (serialize params) = some (utf8 (shownQuery params)) := by
  induction params with
  | nil => rfl
  | cons p params ih =>
    obtain ⟨name, value⟩ := p
    cases params with
    | nil =>
      have hpair := octets_pair name value []
      rw [List.append_nil] at hpair
      simp only [serialize, shownQuery, List.map_cons, List.map_nil, List.intercalate_singleton]
      rw [hpair]
      simp [octets]
    | cons q params =>
      simp only [serialize, shownQuery, List.map_cons, List.intercalate_cons_cons,
        List.append_assoc _ ['&'], List.singleton_append] at ih ⊢
      rw [octets_pair, octets_literal (by decide), ih]
      simp [utf8]

theorem decodeURIComponent_query (path : List Char) (params : Params) :
    decodeURIComponent (path ++ '?' :: serialize params) =
      (decodeURIComponent path).map (· ++ '?' :: shownQuery params) := by
  have hquestion : String.utf8EncodeChar '?' = [0x3F] := by decide
  rw [decodeURIComponent, octets_question, octets_serialize, decodeURIComponent]
  cases octets path with
  | none => rfl
  | some a =>
    simp only [Option.bind_some, Option.map_some]
    rw [decodeUtf8_cut hquestion (by decide), decodeUtf8_eq_some.mpr rfl]
    cases decodeUtf8 a with
    | none => rfl
    | some s => rfl

def parseQuery (query : List Char) : Params :=
  ((query.splitOn '&').filter (· ≠ [])).map fun s =>
    (formDecode (s.takeWhile (· ≠ '=')), formDecode (s.dropWhile (· ≠ '=')).tail)

namespace Params

def has (params : Params) (name : String) : Bool := params.any fun p => p.1 == name

/-- `URLSearchParams.set`: the first value is replaced, the others go. -/
def set (name value : String) : Params → Params
  | [] => [(name, value)]
  | p :: params =>
    if p.1 = name then (name, value) :: params.filter fun q => q.1 ≠ name
    else p :: set name value params

def getAll (params : Params) (name : String) : List String :=
  (params.filter fun p => p.1 = name).map Prod.snd

end Params

/-! ## URLs -/

/-- What comes before the query of a URL. -/
structure Base where
  /-- as `pathname` gives it, with its percent-encoding -/
  pathname : List Char
  /-- the scheme is one of the special schemes -/
  special : Bool

/-- What the URL parser makes of the text before the query, given the character that ends it. -/
abbrev BaseParser := List Char → Option Char → Option Base

structure UrlRecord where
  pathname : List Char
  /-- empty when there is none -/
  query : List Char
  searchParams : Params
deriving DecidableEq

def UrlRecord.search (url : UrlRecord) : List Char :=
  if url.query = [] then [] else '?' :: url.query

/-- `searchParams.set` also updates the query. -/
def UrlRecord.set (url : UrlRecord) (name value : String) : UrlRecord :=
  let params := Params.set name value url.searchParams
  { url with query := serialize params, searchParams := params }

def controlOrSpace (c : Char) : Bool := c.val ≤ 0x20

def tabOrNewline (c : Char) : Bool := c.val == 0x09 || c.val == 0x0A || c.val == 0x0D

/-- The input without leading and trailing control characters and spaces, and without tabs and
newlines. -/
def stripped (input : List Char) : List Char :=
  (((input.dropWhile controlOrSpace).reverse.dropWhile controlOrSpace).reverse).filter
    fun c => !tabOrNewline c

/-- The query percent-encode set, and the special one. -/
def querySet (special : Bool) (c : Char) : Bool :=
  c.val ≤ 0x20 || 0x7E < c.val || c.val == 0x22 || c == '#' || c == '<' || c == '>' ||
    (special && c.val == 0x27)

/-- The query of a text without fragment, from the first question mark on. -/
def queryOf (s : List Char) : List Char := (s.dropWhile (· ≠ '?')).tail

def parseUrl (parser : BaseParser) (input : List Char) : Option UrlRecord :=
  let s := stripped input
  let main := s.takeWhile (· ≠ '#')
  let before := main.takeWhile (· ≠ '?')
  (parser before (s.drop before.length).head?).map fun base =>
    let query := percentEncode (querySet base.special) (queryOf main)
    { pathname := base.pathname, query := query, searchParams := parseQuery query }

/-! ## A URL around one of its parameters -/

/-- What of a text is left in front of a character that is not stripped. -/
def leading (s : List Char) : List Char :=
  (s.dropWhile controlOrSpace).filter fun c => !tabOrNewline c

/-- What of a text is left after such a character. -/
def trailing (s : List Char) : List Char :=
  (s.reverse.dropWhile controlOrSpace).reverse.filter fun c => !tabOrNewline c

theorem dropWhile_append_cons {p : Char → Bool} {d : Char} (hd : p d = false) (s t : List Char) :
    (s ++ d :: t).dropWhile p = s.dropWhile p ++ d :: t := by
  induction s with
  | nil => rw [List.nil_append, List.dropWhile_cons, hd]; rfl
  | cons c s ih =>
    rw [List.cons_append, List.dropWhile_cons, List.dropWhile_cons, ih]
    split
    · rfl
    · rfl

theorem takeWhile_append_cons {p : Char → Bool} {d : Char} (hd : p d = false) {s : List Char}
    (hs : ∀ c ∈ s, p c = true) (t : List Char) : (s ++ d :: t).takeWhile p = s := by
  rw [List.takeWhile_append_of_pos hs, List.takeWhile_cons, hd]
  simp

theorem stripped_append {d : Char} (hd : controlOrSpace d = false) (htab : tabOrNewline d = false)
    (s t : List Char) : stripped (s ++ d :: t) = leading s ++ d :: trailing t := by
  rw [stripped, dropWhile_append_cons hd, List.reverse_append, List.reverse_cons, List.append_assoc,
    List.singleton_append, dropWhile_append_cons hd]
  simp [leading, trailing, htab]

theorem trailing_append {d : Char} (hd : controlOrSpace d = false) (htab : tabOrNewline d = false)
    (s t : List Char) :
    trailing (s ++ d :: t) = s.filter (fun c => !tabOrNewline c) ++ d :: trailing t := by
  rw [trailing, List.reverse_append, List.reverse_cons, List.append_assoc, List.singleton_append,
    dropWhile_append_cons hd]
  simp [trailing, htab]

theorem percentEncode_append (set : Char → Bool) (s t : List Char) :
    percentEncode set (s ++ t) = percentEncode set s ++ percentEncode set t := List.flatMap_append

theorem percentEncode_cons {set : Char → Bool} {d : Char} (hd : set d = false) (s : List Char) :
    percentEncode set (d :: s) = d :: percentEncode set s := by
  rw [percentEncode, List.flatMap_cons, if_neg (by simp [hd])]
  rfl

theorem not_mem_escape {d : Char} (hd : d = '&' ∨ d = '=') (b : UInt8) : d ∉ escape b := by
  have hb : b.toNat < 256 := b.toNat_lt
  have hall : ∀ n < 16, hexDigit n ≠ '&' ∧ hexDigit n ≠ '=' := by decide
  obtain ⟨h₁, h₂⟩ := hall (b.toNat / 16) (by omega)
  obtain ⟨h₃, h₄⟩ := hall (b.toNat % 16) (by omega)
  rw [escape, List.mem_cons, List.mem_cons, List.mem_singleton]
  rcases hd with rfl | rfl
  · rintro (h | h | h)
    · cases h
    · exact h₁ h.symm
    · exact h₃ h.symm
  · rintro (h | h | h)
    · cases h
    · exact h₂ h.symm
    · exact h₄ h.symm

theorem not_mem_percentEncode {set : Char → Bool} {d : Char} (hd : d = '&' ∨ d = '=')
    {s : List Char} (h : d ∉ s) : d ∉ percentEncode set s := by
  intro hmem
  obtain ⟨c, hc, hin⟩ := List.mem_flatMap.mp hmem
  split at hin
  · obtain ⟨b, -, hb⟩ := List.mem_flatMap.mp hin
    exact not_mem_escape hd b hb
  · exact h (List.mem_singleton.mp hin ▸ hc)

theorem parseQuery_append (s t : List Char) :
    parseQuery (s ++ '&' :: t) = parseQuery s ++ parseQuery t := by
  rw [parseQuery, List.splitOn_append_cons_self, List.filter_append, List.map_append]
  rfl

theorem parseQuery_pair {name value : List Char} (hname : '=' ∉ name) (hn : '&' ∉ name)
    (hv : '&' ∉ value) :
    parseQuery (name ++ '=' :: value) = [(formDecode name, formDecode value)] := by
  have hsequence : '&' ∉ name ++ '=' :: value := by simp [hn, hv]
  have hkept : ∀ c ∈ name, decide (c ≠ '=') = true := by
    intro c hc
    rw [decide_eq_true_eq]
    rintro rfl
    exact hname hc
  have hdropped : name.dropWhile (· ≠ '=') = [] := List.dropWhile_eq_nil_iff.mpr hkept
  have hfilter : [name ++ '=' :: value].filter (· ≠ []) = [name ++ '=' :: value] := by simp
  rw [parseQuery, List.splitOn_eq_singleton hsequence, hfilter, List.map_singleton]
  rw [takeWhile_append_cons (by decide) hkept, dropWhile_append_cons (by decide), hdropped]
  rfl

theorem parseQuery_around {before after : List Char} (hb : before = [] ∨ ∃ s, before = s ++ ['&'])
    (ha : after = [] ∨ ∃ s, after = '&' :: s) :
    ∃ l r, ∀ name value, '=' ∉ name → '&' ∉ name → '&' ∉ value →
      parseQuery (before ++ (name ++ '=' :: (value ++ after))) =
        l ++ (formDecode name, formDecode value) :: r := by
  obtain ⟨r, hr⟩ : ∃ r, ∀ name value, '=' ∉ name → '&' ∉ name → '&' ∉ value →
      parseQuery (name ++ '=' :: (value ++ after)) = (formDecode name, formDecode value) :: r := by
    rcases ha with rfl | ⟨s, rfl⟩
    · refine ⟨[], fun name value hname hn hv => ?_⟩
      rw [List.append_nil, parseQuery_pair hname hn hv]
    · refine ⟨parseQuery s, fun name value hname hn hv => ?_⟩
      rw [← List.cons_append, ← List.append_assoc, parseQuery_append, parseQuery_pair hname hn hv]
      rfl
  rcases hb with rfl | ⟨s, rfl⟩
  · refine ⟨[], r, fun name value hname hn hv => ?_⟩
    rw [List.nil_append, hr name value hname hn hv, List.nil_append]
  · refine ⟨parseQuery s, r, fun name value hname hn hv => ?_⟩
    rw [List.append_assoc, List.singleton_append, parseQuery_append, hr name value hname hn hv]

theorem of_not_mem {d : Char} {s : List Char} (h : d ∉ s) : ∀ c ∈ s, decide (c ≠ d) = true := by
  intro c hc
  rw [decide_eq_true_eq]
  rintro rfl
  exact h hc

theorem parseUrl_of_stripped {parser : BaseParser} {base : Base} {input b q f : List Char}
    (h : stripped input = b ++ '?' :: (q ++ f)) (hb : '?' ∉ b ∧ '#' ∉ b) (hq : '#' ∉ q)
    (hf : f = [] ∨ ∃ s, f = '#' :: s) (hbase : parser b (some '?') = some base) :
    parseUrl parser input = some ⟨base.pathname, percentEncode (querySet base.special) q,
      parseQuery (percentEncode (querySet base.special) q)⟩ := by
  have hmain : (stripped input).takeWhile (· ≠ '#') = b ++ '?' :: q := by
    have hplain : '#' ∉ b ++ '?' :: q := by simp [hb.2, hq]
    rw [h, ← List.cons_append, ← List.append_assoc]
    rcases hf with rfl | ⟨s, rfl⟩
    · rw [List.append_nil]
      exact List.takeWhile_eq_self_iff.mpr (of_not_mem hplain)
    · exact takeWhile_append_cons (by decide) (of_not_mem hplain) s
  have hbefore : (b ++ '?' :: q).takeWhile (· ≠ '?') = b :=
    takeWhile_append_cons (by decide) (of_not_mem hb.1) q
  have hquery : queryOf (b ++ '?' :: q) = q := by
    rw [queryOf, dropWhile_append_cons (by decide), List.dropWhile_eq_nil_iff.mpr (of_not_mem hb.1)]
    rfl
  have hnext : ((stripped input).drop b.length).head? = some '?' := by
    rw [h, List.drop_left]
    rfl
  rw [parseUrl]
  simp only [hmain, hbefore, hnext, hbase, hquery, Option.map_some]

/-- A URL without the value of one of its query parameters. -/
structure Hole where
  /-- up to the question mark -/
  before : List Char
  /-- the parameters in front -/
  pairs : List Char
  name : List Char
  /-- the other parameters, and the fragment -/
  rest : List Char
  before_plain : '?' ∉ before ∧ '#' ∉ before
  pairs_end : pairs = [] ∨ ∃ s, pairs = s ++ ['&']
  pairs_plain : '#' ∉ pairs
  name_plain : '=' ∉ name ∧ '&' ∉ name ∧ '#' ∉ name
  rest_start : rest = [] ∨ ∃ s, rest = '&' :: s ∨ rest = '#' :: s

namespace Hole

variable (hole : Hole)

def fill (value : List Char) : List Char :=
  hole.before ++ '?' :: (hole.pairs ++ (hole.name ++ '=' :: (value ++ hole.rest)))

def base (parser : BaseParser) : Option Base := parser (leading hole.before) (some '?')

/-- The name of the parameter, decoded. -/
def nameIn (base : Base) : String :=
  formDecode (percentEncode (querySet base.special) (hole.name.filter fun c => !tabOrNewline c))

variable {hole}

/-- What comes after the value stays the same whatever the value is. -/
theorem trailing_rest (hole : Hole) :
    ∃ rest, (rest = [] ∨ ∃ s, rest = '&' :: s ∨ rest = '#' :: s) ∧
      ∀ value, ∃ v, v ⊆ value ∧ trailing (value ++ hole.rest) = v ++ rest := by
  have hcut : ∀ {d : Char}, controlOrSpace d = false → tabOrNewline d = false → ∀ s value,
      ∃ v, v ⊆ value ∧ trailing (value ++ d :: s) = v ++ d :: trailing s := by
    intro d hd htab s value
    exact ⟨value.filter fun c => !tabOrNewline c, List.filter_sublist.subset,
      trailing_append hd htab value s⟩
  rcases hole.rest_start with h | ⟨s, h | h⟩
  · refine ⟨[], .inl rfl, fun value => ⟨trailing value, ?_, by rw [h]; simp⟩⟩
    intro c hc
    have hdropped := (List.mem_filter.mp hc).1
    rw [List.mem_reverse] at hdropped
    exact List.mem_reverse.mp ((List.dropWhile_subset _) hdropped)
  · refine ⟨'&' :: trailing s, .inr ⟨_, .inl rfl⟩, ?_⟩
    rw [h]
    exact hcut (by decide) (by decide) s
  · refine ⟨'#' :: trailing s, .inr ⟨_, .inr rfl⟩, ?_⟩
    rw [h]
    exact hcut (by decide) (by decide) s

theorem stripped_fill {value v rest : List Char} (h : trailing (value ++ hole.rest) = v ++ rest) :
    stripped (hole.fill value) = leading hole.before ++
      '?' :: (hole.pairs.filter (fun c => !tabOrNewline c) ++
        (hole.name.filter (fun c => !tabOrNewline c) ++ '=' :: (v ++ rest))) := by
  rw [fill, stripped_append (by decide) (by decide), ← List.append_assoc hole.pairs,
    trailing_append (by decide) (by decide), h, List.filter_append, List.append_assoc]

theorem leading_subset (s : List Char) : leading s ⊆ s :=
  fun _ hc => (List.dropWhile_subset _) (List.mem_filter.mp hc).1

theorem querySet_delimiter (special : Bool) :
    querySet special '&' = false ∧ querySet special '=' = false := by
  cases special <;> decide

theorem exists_fragment {rest : List Char}
    (h : rest = [] ∨ ∃ s, rest = '&' :: s ∨ rest = '#' :: s) :
    ∃ more f, rest = more ++ f ∧ (more = [] ∨ ∃ s, more = '&' :: s) ∧ '#' ∉ more ∧
      (f = [] ∨ ∃ s, f = '#' :: s) := by
  rcases h with rfl | ⟨s, rfl | rfl⟩
  · exact ⟨[], [], rfl, .inl rfl, by simp, .inl rfl⟩
  · by_cases hmem : '#' ∈ s
    · obtain ⟨s₁, s₂, rfl, hs₁⟩ := List.eq_append_cons_of_mem hmem
      exact ⟨'&' :: s₁, '#' :: s₂, rfl, .inr ⟨s₁, rfl⟩, by simp [hs₁], .inr ⟨s₂, rfl⟩⟩
    · exact ⟨'&' :: s, [], by simp, .inr ⟨s, rfl⟩, by simp [hmem], .inl rfl⟩
  · exact ⟨[], '#' :: s, rfl, .inl rfl, by simp, .inr ⟨s, rfl⟩⟩

/-- What is encoded before the parameter is nothing, or ends with `&`. -/
theorem pairs_encoded (special : Bool) :
    percentEncode (querySet special) (hole.pairs.filter fun c => !tabOrNewline c) = [] ∨
    ∃ s, percentEncode (querySet special) (hole.pairs.filter fun c => !tabOrNewline c) =
      s ++ ['&'] := by
  rcases hole.pairs_end with h | ⟨s, h⟩
  · exact .inl (by rw [h]; rfl)
  · refine .inr ⟨percentEncode (querySet special) (s.filter fun c => !tabOrNewline c), ?_⟩
    have hlast : ['&'].filter (fun c => !tabOrNewline c) = ['&'] := by decide
    rw [h, List.filter_append, hlast, percentEncode_append,
      percentEncode_cons (querySet_delimiter special).1]
    rfl

theorem parseUrl_fill {parser : BaseParser} {base : Base} (hbase : hole.base parser = some base) :
    ∃ l r, ∀ value, '&' ∉ value → '#' ∉ value → ∃ v query,
      parseUrl parser (hole.fill value) =
        some ⟨base.pathname, query, l ++ (hole.nameIn base, v) :: r⟩ := by
  obtain ⟨rest, hrest, htrailing⟩ := hole.trailing_rest
  obtain ⟨more, f, rfl, hmore, hplain, hf⟩ := exists_fragment hrest
  obtain ⟨hamp, heq⟩ := querySet_delimiter base.special
  have hothers : percentEncode (querySet base.special) more = [] ∨
      ∃ s, percentEncode (querySet base.special) more = '&' :: s := by
    rcases hmore with rfl | ⟨s, rfl⟩
    · exact .inl rfl
    · exact .inr ⟨_, percentEncode_cons hamp s⟩
  obtain ⟨l, r, hquery⟩ := parseQuery_around (hole.pairs_encoded base.special) hothers
  refine ⟨l, r, fun value hvamp hvhash => ?_⟩
  obtain ⟨v, hv, hvalue⟩ := htrailing value
  have hname := hole.name_plain
  have hsub : (hole.name.filter fun c => !tabOrNewline c) ⊆ hole.name := List.filter_sublist.subset
  have hcut : stripped (hole.fill value) = leading hole.before ++
      '?' :: ((hole.pairs.filter (fun c => !tabOrNewline c) ++
        (hole.name.filter (fun c => !tabOrNewline c) ++ '=' :: (v ++ more))) ++ f) := by
    rw [stripped_fill hvalue]
    simp
  have hparams : parseQuery (percentEncode (querySet base.special)
      (hole.pairs.filter (fun c => !tabOrNewline c) ++
        (hole.name.filter (fun c => !tabOrNewline c) ++ '=' :: (v ++ more)))) =
      l ++ (hole.nameIn base, formDecode (percentEncode (querySet base.special) v)) :: r := by
    simp only [percentEncode_append, percentEncode_cons heq]
    rw [hquery]
    · rfl
    · exact not_mem_percentEncode (.inr rfl) fun hmem => hname.1 (hsub hmem)
    · exact not_mem_percentEncode (.inl rfl) fun hmem => hname.2.1 (hsub hmem)
    · exact not_mem_percentEncode (.inl rfl) fun hmem => hvamp (hv hmem)
  have hparsed := parseUrl_of_stripped hcut
    ⟨fun hmem => hole.before_plain.1 (leading_subset _ hmem),
      fun hmem => hole.before_plain.2 (leading_subset _ hmem)⟩ (by
    simp only [List.mem_append, List.mem_cons, not_or]
    exact ⟨fun hmem => hole.pairs_plain (List.filter_sublist.subset hmem),
      fun hmem => hname.2.2 (hsub hmem), by decide, fun hmem => hvhash (hv hmem), hplain⟩) hf hbase
  rw [hparams] at hparsed
  exact ⟨_, _, hparsed⟩

end Hole

end Data.Url
