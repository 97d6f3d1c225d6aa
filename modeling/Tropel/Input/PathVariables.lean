import Mathlib.Algebra.Order.BigOperators.Group.List
import Mathlib.Data.List.Find
import Mathlib.Data.List.Infix
import Tropel.Input.Insomnia
import Tropel.Lib.SortBy

/-!
# Path parameters

The parameters of a path stand in it as segments `:name`, in Insomnia also as `{name}`.

* `insomniaUrl`, `bruUrl`: the tokens are replaced one after the other, wherever they stand;
* `urls_iff`: when every replacement substitutes the segments of the path;
* `buildUrl`: the scan of Postman, which looks for tokens at the ends of segments;
* `buildUrl_iff`: when it substitutes the segments of the path.
-/

namespace Tropel.PathVariables

open Lib List

/-! ## Replacements -/

def colonToken (name : Text) : Text := ':' :: name

def braceToken (name : Text) : Text := '{' :: (name ++ ['}'])

def replaceAll (rs : List (Text × Text)) (url : Text) : Text :=
  rs.foldl (fun url r => replacePattern r.1 r.2 url) url

def insomniaUrl (url : Text) (params : List (Text × Text)) : Text :=
  params.foldl (fun url p =>
    let val := Insomnia.normalizeVariables p.2
    replacePattern (colonToken p.1) val (replacePattern (braceToken p.1) val url))
    (Insomnia.normalizeVariables url)

structure BruParam where
  name : Option Text
  value : Option Text
  paramType : Option Text
  enabled : Option Bool

def bruUrl (url : Text) (params : List BruParam) : Text :=
  ((params.filter fun p => p.enabled.getD true).filter fun p => p.paramType =
    some "path".toList).foldl
    (fun url p => match p.name with
      | some name => replacePattern (colonToken name) (p.value.getD []) url
      | none => url) url

/-- The tokens with their values, in the order in which they are replaced. -/
def insomniaTokens (params : List (Text × Text)) : List (Text × Text) :=
  params.flatMap fun p =>
    [(braceToken p.1, Insomnia.normalizeVariables p.2),
      (colonToken p.1, Insomnia.normalizeVariables p.2)]

def bruTokens (params : List BruParam) : List (Text × Text) :=
  ((params.filter fun p => p.enabled.getD true).filter fun p => p.paramType =
    some "path".toList).filterMap
    fun p => p.name.map fun name => (colonToken name, p.value.getD [])

theorem insomniaUrl_eq (url : Text) (params : List (Text × Text)) :
    insomniaUrl url params =
      replaceAll (insomniaTokens params) (Insomnia.normalizeVariables url) := by
  rw [insomniaUrl, replaceAll, insomniaTokens, foldl_flatMap]
  rfl

theorem bruUrl_eq (url : Text) (params : List BruParam) :
    bruUrl url params = replaceAll (bruTokens params) url := by
  rw [bruUrl, replaceAll, bruTokens, foldl_filterMap]
  congr 1
  funext url p
  cases p.name <;> rfl

/-! ## Substitution of segments -/

section

variable {α β : Type} {f g : α → List β} {l : List α}

theorem length_flatMap_le (h : ∀ a ∈ l, (f a).length ≤ (g a).length) :
    (l.flatMap f).length ≤ (l.flatMap g).length := by
  rw [length_flatMap, length_flatMap]
  exact sum_le_sum h

/-- Concatenations are equal part by part, if the parts of one are not longer than those of the
    other. -/
theorem flatMap_inj_of_length_le (h : ∀ a ∈ l, (f a).length ≤ (g a).length)
    (heq : l.flatMap f = l.flatMap g) : ∀ a ∈ l, f a = g a := by
  induction l with
  | nil => exact forall_mem_nil _
  | cons a l ih =>
    obtain ⟨ha, hl⟩ := forall_mem_cons.1 h
    have hle := length_flatMap_le hl
    rw [flatMap_cons, flatMap_cons] at heq
    have hlength := congrArg List.length heq
    rw [length_append, length_append] at hlength
    obtain ⟨hfirst, hrest⟩ := append_inj heq (by omega)
    exact forall_mem_cons.2 ⟨hfirst, ih hl hrest⟩

end

/-- A piece of a URL, and whether it is a segment of the path. -/
abbrev Piece := Bool × Text

/-- A URL, cut at slashes, question marks and hashes. -/
structure Url where
  first : Piece
  others : List (Char × Piece)
  separators : ∀ p ∈ others, p.1 ∈ ['/', '?', '#']

/-- The value of a text that is a token. -/
def substitute (rs : List (Text × Text)) (s : Text) : Text :=
  ((rs.find? (·.1 = s)).map Prod.snd).getD s

def substitutePiece (rs : List (Text × Text)) (p : Piece) : Text :=
  if p.1 then substitute rs p.2 else p.2

namespace Url

def pieces (u : Url) : List Piece := u.first :: u.others.map Prod.snd

def render (u : Url) (g : Piece → Text) : Text := g u.first ++ u.others.flatMap fun p =>
    p.1 :: g p.2

def text (u : Url) : Text := u.render Prod.snd

/-- All segments are substituted at once, and the rest stays as it is. -/
def substituted (u : Url) (rs : List (Text × Text)) : Text := u.render (substitutePiece rs)

/-- With the tokens of `rs` substituted, that of `r` stands in the URL only as a segment of its own;
    or it is its own value. -/
def Clear (u : Url) (rs : List (Text × Text)) (r : Text × Text) : Prop :=
  r.2 = r.1 ∨ ∀ p ∈ u.pieces, p ≠ (true, r.1) → ¬r.1 <:+: substitutePiece rs p

/-- Each token is clear when its turn comes, after those of `rs`. -/
def AllClear (u : Url) (rs : List (Text × Text)) : List (Text × Text) → Prop
  | [] => True
  | r :: rs' => u.Clear rs r ∧ u.AllClear (rs ++ [r]) rs'

instance (u : Url) (rs : List (Text × Text)) (r : Text × Text) : Decidable (u.Clear rs r) :=
  inferInstanceAs (Decidable (_ ∨ _))

instance decidableAllClear (u : Url) : ∀ rs rs', Decidable (u.AllClear rs rs')
  | _, [] => .isTrue trivial
  | rs, r :: rs' => have := decidableAllClear u (rs ++ [r]) rs'; inferInstanceAs (Decidable (_ ∧ _))

variable {u : Url} {g h : Piece → Text}

theorem render_congr (heq : ∀ p ∈ u.pieces, g p = h p) : u.render g = u.render h := by
  obtain ⟨hfirst, hothers⟩ := forall_mem_cons.1 heq
  rw [forall_mem_map] at hothers
  rw [render, render, hfirst, flatMap_congr fun p hp => congrArg (p.1 :: ·) (hothers p hp)]

theorem render_inj_of_length_le (hle : ∀ p ∈ u.pieces, (g p).length ≤ (h p).length)
    (heq : u.render g = u.render h) : ∀ p ∈ u.pieces, g p = h p := by
  obtain ⟨hfirst, hothers⟩ := forall_mem_cons.1 hle
  rw [forall_mem_map] at hothers
  have hcons : ∀ p ∈ u.others, (p.1 :: g p.2).length ≤ (p.1 :: h p.2).length := fun p hp =>
    Nat.succ_le_succ (hothers p hp)
  have hlength := congrArg List.length heq
  have hrest := length_flatMap_le hcons
  rw [render, render, length_append, length_append] at hlength
  obtain ⟨hfirst, hrest⟩ := append_inj heq (by omega)
  exact forall_mem_cons.2 ⟨hfirst, forall_mem_map.2 fun p hp =>
    (List.cons.inj (flatMap_inj_of_length_le hcons hrest p hp)).2⟩

end Url

def IsToken (t : Text) : Prop := t ≠ [] ∧ ∀ c ∈ ['/', '?', '#'], c ∉ t

section

variable {u : Url} {rs : List (Text × Text)} {r : Text × Text} {s t v : Text}

/-- A token has no separator, so it is replaced in each piece of a URL. -/
theorem replacePattern_render (ht : IsToken t) (u : Url) (g : Piece → Text) :
    replacePattern t v (u.render g) = u.render fun p => replacePattern t v (g p) := by
  have hall (a : Text) (l : List (Char × Piece)) (hl : ∀ p ∈ l, p.1 ∈ ['/', '?', '#']) :
      replacePattern t v (a ++ l.flatMap fun p => p.1 :: g p.2) =
        replacePattern t v a ++ l.flatMap fun p => p.1 :: replacePattern t v (g p.2) := by
    induction l generalizing a with
    | nil => rw [flatMap_nil, flatMap_nil, append_nil, append_nil]
    | cons p l ih =>
      obtain ⟨hp, hl⟩ := forall_mem_cons.1 hl
      rw [flatMap_cons, flatMap_cons, cons_append, replacePattern_append_cons ht.1 (ht.2 _ hp),
        ih _ hl, cons_append]
  exact hall _ _ u.separators

theorem length_le_replacePattern (hp : t ≠ []) (hle : t.length ≤ v.length) (x : Text) :
    x.length ≤ (replacePattern t v x).length := by
  obtain ⟨n, -, hlength⟩ := exists_length_replacePattern hp v x
  have := Nat.mul_le_mul_left n hle
  omega

theorem length_replacePattern_le (hp : t ≠ []) (hle : v.length ≤ t.length) (x : Text) :
    (replacePattern t v x).length ≤ x.length := by
  obtain ⟨n, -, hlength⟩ := exists_length_replacePattern hp v x
  have := Nat.mul_le_mul_left n hle
  omega

theorem substitute_of_not_mem (h : s ∉ rs.map Prod.fst) : substitute rs s = s := by
  rw [substitute, find?_eq_none.2]
  · rfl
  · exact fun r hr heq => h (of_decide_eq_true heq ▸ mem_map_of_mem hr)

theorem substitutePiece_append (h : r.1 ∉ rs.map Prod.fst) (p : Piece) :
    substitutePiece (rs ++ [r]) p = if p = (true, r.1) then r.2 else substitutePiece rs p := by
  obtain ⟨segment, s⟩ := p
  cases segment with
  | false => simp [substitutePiece]
  | true =>
    rw [substitutePiece, substitutePiece, if_pos rfl, if_pos rfl, substitute, find?_append,
      find?_singleton]
    by_cases hs : s = r.1
    · have hnone : rs.find? (·.1 = r.1) = none := find?_eq_none.2 fun r' hr' heq =>
        h (of_decide_eq_true heq ▸ mem_map_of_mem hr')
      simp [hs, hnone]
    · simp [hs, Ne.symm hs, substitute]

/-- A token is replaced as it should be just when it is clear. -/
theorem replacePattern_substituted_iff (ht : IsToken r.1) (hnot : r.1 ∉ rs.map Prod.fst) :
    replacePattern r.1 r.2 (u.substituted rs) = u.substituted (rs ++ [r]) ↔ u.Clear rs r := by
  have htoken : replacePattern r.1 r.2 (substitutePiece rs (true, r.1)) =
      substitutePiece (rs ++ [r]) (true, r.1) := by
    have hself : replacePattern r.1 r.2 (r.1 ++ []) = _ := replacePattern_append ht.1 []
    rw [append_nil, replacePattern_of_absent (t := []) ht.1 (mt infix_nil.1 ht.1), append_nil]
      at hself
    rw [substitutePiece_append hnot, if_pos rfl, substitutePiece, if_pos rfl,
      substitute_of_not_mem hnot, hself]
  have hother {p : Piece} (hp : p ≠ (true, r.1)) : substitutePiece (rs ++ [r]) p =
      substitutePiece rs p := by
    rw [substitutePiece_append hnot, if_neg hp]
  have hpieces : replacePattern r.1 r.2 (u.substituted rs) = u.substituted (rs ++ [r]) ↔
      ∀ p ∈ u.pieces,
        replacePattern r.1 r.2 (substitutePiece rs p) = substitutePiece (rs ++ [r]) p := by
    rw [Url.substituted, replacePattern_render ht, Url.substituted]
    refine ⟨fun heq => ?_, Url.render_congr⟩
    rcases Nat.le_total r.1.length r.2.length with hle | hle
    · refine fun p hp => (Url.render_inj_of_length_le (fun p _ => ?_) heq.symm p hp).symm
      by_cases hp : p = (true, r.1)
      · rw [hp, htoken]
      · rw [hother hp]
        exact length_le_replacePattern ht.1 hle _
    · refine Url.render_inj_of_length_le (fun p _ => ?_) heq
      by_cases hp : p = (true, r.1)
      · rw [hp, htoken]
      · rw [hother hp]
        exact length_replacePattern_le ht.1 hle _
  have hpiece (p : Piece) : replacePattern r.1 r.2 (substitutePiece rs p) =
      substitutePiece (rs ++ [r]) p ↔
      r.2 = r.1 ∨ (p ≠ (true, r.1) → ¬r.1 <:+: substitutePiece rs p) := by
    by_cases hp : p = (true, r.1)
    · exact iff_of_true (hp ▸ htoken) (.inr fun h => absurd hp h)
    · rw [hother hp, replacePattern_eq_self_iff ht.1, or_comm, forall_prop_of_true hp]
  simp only [hpieces, hpiece, Url.Clear]
  by_cases hself : r.2 = r.1 <;> simp [hself]

theorem replaceAll_iff {rs' : List (Text × Text)} (htokens : ∀ r ∈ rs', IsToken r.1)
    (hnodup : ((rs ++ rs').map Prod.fst).Nodup) :
    (∀ done, done <+: rs' → replaceAll done (u.substituted rs) = u.substituted (rs ++ done)) ↔
      u.AllClear rs rs' := by
  induction rs' generalizing rs with
  | nil =>
    refine iff_of_true (fun done hdone => ?_) trivial
    rw [prefix_nil.1 hdone, append_nil]
    rfl
  | cons r rs' ih =>
    obtain ⟨ht, htokens⟩ := forall_mem_cons.1 htokens
    have hnot : r.1 ∉ rs.map Prod.fst := by
      rw [map_append, nodup_append'] at hnodup
      exact fun h => hnodup.2.2 h mem_cons_self
    rw [append_cons] at hnodup
    rw [Url.AllClear, ← replacePattern_substituted_iff ht hnot, ← ih htokens hnodup]
    refine ⟨fun h => ?_, fun ⟨hr, h⟩ done hdone => ?_⟩
    · have hr := h [r] (cons_prefix_cons.2 ⟨rfl, nil_prefix⟩)
      refine ⟨hr, fun done hdone => ?_⟩
      rw [← append_cons, ← h _ (cons_prefix_cons.2 ⟨rfl, hdone⟩), ← hr]
      rfl
    · cases done with
      | nil =>
        rw [append_nil]
        rfl
      | cons r' done =>
        obtain ⟨rfl, hdone'⟩ := cons_prefix_cons.1 hdone
        rw [append_cons, ← h done hdone', ← hr]
        rfl

end

def isNameChar (c : Char) : Bool := c.isAlphanum || c = '_' || c = '-'

theorem isToken_of_name {name : Text} (h : ∀ c ∈ name, isNameChar c) :
    IsToken (colonToken name) ∧ IsToken (braceToken name) := by
  have hnot {d : Char} (hd : isNameChar d = false) : d ∉ name := fun hmem =>
    Bool.false_ne_true (hd.symm.trans (h d hmem))
  have hslash := hnot (d := '/') (by decide)
  have hquery := hnot (d := '?') (by decide)
  have hfragment := hnot (d := '#') (by decide)
  constructor <;> simp [IsToken, colonToken, braceToken, hslash, hquery, hfragment]

theorem nodup_insomniaTokens {params : List (Text × Text)} (h : (params.map Prod.fst).Nodup) :
    ((insomniaTokens params).map Prod.fst).Nodup := by
  have hcross (a b : Text) : braceToken a ≠ colonToken b :=
    fun h => absurd (List.cons.inj h).1 (by decide)
  rw [insomniaTokens, map_flatMap, nodup_flatMap]
  refine ⟨fun p _ => nodup_cons.2 ⟨mt mem_singleton.1 (hcross p.1 p.1), nodup_singleton _⟩,
    (pairwise_map.1 h).imp fun {p q} hpq t hp hq => hpq ?_⟩
  rcases mem_pair.1 hp with rfl | rfl <;> rcases mem_pair.1 hq with heq | heq
  · exact append_cancel_right (List.cons.inj heq).2
  · exact absurd heq (hcross _ _)
  · exact absurd heq.symm (hcross _ _)
  · exact (List.cons.inj heq).2

/-- Both importers make one replacement after the other, and each substitutes whole segments just
    when the tokens are clear. -/
theorem urls_iff (u : Url) :
    (∀ url params, Insomnia.normalizeVariables url = u.text →
      (∀ p ∈ params, ∀ c ∈ p.1, isNameChar c) → (params.map Prod.fst).Nodup →
      insomniaUrl url params = replaceAll (insomniaTokens params) u.text ∧
      ((∀ rs, rs <+: insomniaTokens params → replaceAll rs u.text = u.substituted rs) ↔
        u.AllClear [] (insomniaTokens params))) ∧
    ∀ params, (∀ p ∈ params, ∀ name ∈ p.name, ∀ c ∈ name, isNameChar c) →
      ((bruTokens params).map Prod.fst).Nodup →
      bruUrl u.text params = replaceAll (bruTokens params) u.text ∧
      ((∀ rs, rs <+: bruTokens params → replaceAll rs u.text = u.substituted rs) ↔
        u.AllClear [] (bruTokens params)) := by
  have htext : u.text = u.substituted [] := by
    refine Url.render_congr fun p _ => ?_
    rw [substitutePiece]
    split <;> rfl
  refine ⟨fun url params hurl hnames hnodup => ⟨?_, ?_⟩,
    fun params hnames hnodup => ⟨bruUrl_eq _ _, ?_⟩⟩
  · rw [insomniaUrl_eq, hurl]
  · rw [htext]
    refine replaceAll_iff (fun r hr => ?_) (nodup_insomniaTokens hnodup)
    obtain ⟨p, hp, hr⟩ := mem_flatMap.1 hr
    rcases mem_pair.1 hr with rfl | rfl
    · exact (isToken_of_name (hnames p hp)).2
    · exact (isToken_of_name (hnames p hp)).1
  · rw [htext]
    refine replaceAll_iff (fun r hr => ?_) hnodup
    obtain ⟨p, hp, hr⟩ := mem_filterMap.1 hr
    obtain ⟨name, hname, rfl⟩ := Option.map_eq_some_iff.1 hr
    exact (isToken_of_name (hnames p (mem_of_mem_filter (mem_of_mem_filter hp)) name hname)).1

def usersUrl : Url where
  first := (false, "http:".toList)
  others := [('/', (false, [])), ('/', (false, "host:80".toList)), ('/', (true, "users".toList)),
    ('/', (true, ":id".toList)), ('?', (false, "a".toList))]
  separators := by decide

theorem urls_iff_users :
    insomniaUrl "http://host:80/users/:id?a".toList
      [("id".toList, "42".toList), ("b".toList, ":id".toList)] =
        "http://host:80/users/42?a".toList ∧
      bruUrl usersUrl.text [⟨some "id".toList, some "42".toList, some "path".toList, none⟩] =
        "http://host:80/users/42?a".toList := by
  obtain ⟨hinsomnia, hbru⟩ := urls_iff usersUrl
  refine ⟨?_, ?_⟩
  · obtain ⟨hurl, hiff⟩ := hinsomnia "http://host:80/users/:id?a".toList
      [("id".toList, "42".toList), ("b".toList, ":id".toList)] (by decide)
      (forall_mem_cons.2 ⟨all_iff_forall_prop.1 rfl,
        forall_mem_singleton.2 (all_iff_forall_prop.1 rfl)⟩) (by decide)
    rw [hurl, hiff.2 (by decide) _ prefix_rfl]
    decide
  · obtain ⟨hurl, hiff⟩ := hbru [⟨some "id".toList, some "42".toList, some "path".toList, none⟩]
      (forall_mem_singleton.2 fun name hname => Option.some.inj hname ▸ all_iff_forall_prop.1 rfl)
        (by decide)
    rw [hurl, hiff.2 (by decide) _ prefix_rfl]
    decide

theorem urls_rewritten : insomniaUrl "/users/:idx" [("id", "42")] = "/users/42x" ∧
      bruUrl "http://host:80/" [⟨some "80", some "42", some "path", none⟩] =
        "http://host42/" := by
  decide

/-! ## Postman -/

structure Variable where
  key : Text
  value : Option Text

def usable (declared : List Variable) : List (Text × Text) :=
  sortByKey (fun v => OrderDual.toDual (utf8 v.1).length)
    ((declared.filter fun v => v.key ≠ []).filterMap fun v => v.value.map (v.key, ·))

def isBoundary (c : Char) : Bool := c = '/' || c = '?' || c = '#'

def matched (vars : List (Text × Text)) (t : Text) : Option (Text × Text) :=
  vars.find? fun v => v.1.isPrefixOf t && (t.drop v.1.length).head?.all isBoundary

def scan (vars : List (Text × Text)) : ℕ → Text → Text
  | _, [] => []
  | k + 1, _ :: t => scan vars k t
  | 0, c :: t =>
    if c ≠ ':' then c :: scan vars 0 t
    else match matched vars t with
      | some (key, value) => value ++ scan vars key.length t
      | none => ':' :: scan vars 0 t

def buildUrl (raw : Text) (declared : List Variable) : Text := scan (usable declared) 0 raw

/-- A URL with an authority and a path. -/
def pathUrl (scheme authority : Text) (segments : List Text) : Url where
  first := (false, scheme ++ [':'])
  others := ((false, []) :: (false, authority) :: segments.map (true, ·)).map ('/', ·)
  separators := by simp

/-- The value of a segment that is the token of a variable with a value. -/
def substituteVariable (declared : List Variable) (s : Text) : Text :=
  ((declared.find? fun v => v.value.isSome && colonToken v.key = s).bind Variable.value).getD s

/-- A text that ends with the token of a variable with a value, the longest of which has another
    value. -/
def Rewritten (declared : List Variable) (s : Text) : Prop :=
  ∃ v ∈ declared, ∃ value ∈ v.value, colonToken v.key <:+ s ∧ value ≠ colonToken v.key ∧
    ∀ v' ∈ declared, v'.value.isSome = true → colonToken v'.key <:+ s → v'.key.length ≤ v.key.length

section

variable {vars : List (Text × Text)} {s t : Text}

theorem scan_length_append (a t : Text) : scan vars a.length (a ++ t) = scan vars 0 t := by
  induction a with
  | nil => rfl
  | cons c a ih => rw [length_cons, cons_append, scan, ih]

/-- In a segment, only its end can be a key. -/
theorem matched_append (hkeys : ∀ v ∈ vars, '/' ∉ v.1) (hs : ∀ c ∈ s, isBoundary c = false)
    (ht : ∀ d ∈ t.head?, d = '/') : matched vars (s ++ t) = vars.find? fun v => v.1 = s := by
  have hpred : ∀ v ∈ vars,
      (v.1.isPrefixOf (s ++ t) && ((s ++ t).drop v.1.length).head?.all isBoundary) =
      decide (v.1 = s) := by
    intro v hv
    rw [Bool.eq_iff_iff, Bool.and_eq_true_iff, List.isPrefixOf_iff_prefix, decide_eq_true_eq]
    constructor
    · rintro ⟨hkey, hend⟩
      rcases prefix_or_prefix_of_prefix hkey (prefix_append s t) with ⟨r, hr⟩ | ⟨q, hq⟩
      · -- The key ends at a boundary, and the segment has none.
        cases r with
        | nil => rw [← hr, append_nil]
        | cons c r =>
          rw [← hr, append_assoc, drop_left] at hend
          exact absurd hend (by simp [hs c (hr ▸ mem_append_right _ mem_cons_self)])
      · cases q with
        | nil => rw [← hq, append_nil]
        | cons c q =>
          rw [← hq, prefix_append_right_inj] at hkey
          obtain ⟨t, rfl⟩ := hkey
          have hc : c = '/' := ht c rfl
          exact absurd (hq ▸ hc ▸ mem_append_right _ mem_cons_self) (hkeys v hv)
    · rintro rfl
      refine ⟨prefix_append _ _, ?_⟩
      rw [drop_left]
      cases t with
      | nil => rfl
      | cons d t => rw [ht d rfl]; rfl
  exact find?_congr hpred

/-- A segment is scanned by itself. -/
theorem scan_append (hkeys : ∀ v ∈ vars, '/' ∉ v.1) (hs : ∀ c ∈ s, isBoundary c = false)
    (ht : ∀ d ∈ t.head?, d = '/') : scan vars 0 (s ++ t) = scan vars 0 s ++ scan vars 0 t := by
  induction s with
  | nil => rfl
  | cons c s ih =>
    obtain ⟨-, hs⟩ := forall_mem_cons.1 hs
    rw [cons_append, scan, scan]
    split
    · rw [ih hs, cons_append]
    · have hnil := matched_append (t := []) hkeys hs (by simp)
      rw [append_nil] at hnil
      rw [hnil, matched_append hkeys hs ht]
      cases hfind : vars.find? fun v => v.1 = s with
      | none => exact congrArg _ (ih hs)
      | some v =>
        obtain rfl : v.1 = s := by simpa using find?_some hfind
        have hend := @scan_length_append vars v.1 []
        rw [append_nil, scan] at hend
        simp only
        rw [scan_length_append, hend, append_nil]

/-- A segment ends with no token, or its longest one is replaced. -/
theorem scan_cases (hkeys : ∀ v ∈ vars, '/' ∉ v.1) (hs : ∀ c ∈ s, isBoundary c = false) :
    (scan vars 0 s = s ∧ ∀ v ∈ vars, ¬colonToken v.1 <:+ s) ∨
      ∃ v ∈ vars, ∃ a, s = a ++ colonToken v.1 ∧ scan vars 0 s = a ++ v.2 ∧
        ∀ v' ∈ vars, colonToken v'.1 <:+ s → v'.1.length ≤ v.1.length := by
  induction s with
  | nil => exact .inl ⟨rfl, fun v _ h => by simp [colonToken] at h⟩
  | cons c s ih =>
    obtain ⟨-, hs⟩ := forall_mem_cons.1 hs
    -- Tokens at the end of the whole text are those of `s`, unless it is one itself.
    have hcons (hnot : ∀ v ∈ vars,
        colonToken v.1 ≠ c :: s) (hscan : scan vars 0 (c :: s) = c :: scan vars 0 s) :
        (scan vars 0 (c :: s) = c :: s ∧ ∀ v ∈ vars, ¬colonToken v.1 <:+ c :: s) ∨
          ∃ v ∈ vars, ∃ a, c :: s = a ++ colonToken v.1 ∧ scan vars 0 (c :: s) = a ++ v.2 ∧
            ∀ v' ∈ vars, colonToken v'.1 <:+ c :: s → v'.1.length ≤ v.1.length := by
      rw [hscan]
      rcases ih hs with ⟨heq, h⟩ | ⟨v, hv, a, ha, heq, h⟩
      · refine .inl ⟨by rw [heq], fun v hv hsuffix => ?_⟩
        exact (suffix_cons_iff.1 hsuffix).elim (hnot v hv) (h v hv)
      · refine .inr ⟨v, hv,
          c :: a, by rw [ha, cons_append], by rw [heq, cons_append], fun v' hv' hsuffix => ?_⟩
        exact (suffix_cons_iff.1 hsuffix).elim (fun h => absurd h (hnot v' hv')) (h v' hv')
    by_cases hc : c = ':'
    · have hnil := matched_append (t := []) hkeys hs (by simp)
      rw [append_nil] at hnil
      cases hfind : vars.find? fun v => v.1 = s with
      | none =>
        refine hcons (fun v hv heq => ?_) ?_
        · exact absurd (List.cons.inj heq).2
            (of_decide_eq_false (Bool.eq_false_iff.2 (find?_eq_none.1 hfind v hv)))
        · rw [scan, if_neg (not_not_intro hc), hnil, hfind, hc]
      | some v =>
        obtain rfl : v.1 = s := by simpa using find?_some hfind
        refine .inr ⟨v, mem_of_find?_eq_some hfind, [], by rw [hc]; rfl, ?_, fun v' _ hsuffix => ?_⟩
        · have hend := @scan_length_append vars v.1 []
          rw [append_nil, scan] at hend
          rw [scan, if_neg (not_not_intro hc), hnil, hfind]
          simp only
          rw [hend, append_nil, nil_append]
        · exact Nat.le_of_succ_le_succ hsuffix.length_le
    · exact hcons (fun v _ heq => hc (List.cons.inj heq).1.symm) (by rw [scan, if_pos hc])

theorem scan_pieces (hkeys : ∀ v ∈ vars, '/' ∉ v.1) {a : Text} {l : List Piece}
    (ha : ∀ c ∈ a, isBoundary c = false) (hl : ∀ p ∈ l, ∀ c ∈ p.2, isBoundary c = false) :
    scan vars 0 (a ++ l.flatMap fun p => '/' :: p.2) = scan vars 0 a ++ l.flatMap fun p =>
      '/' :: scan vars 0 p.2 := by
  induction l generalizing a with
  | nil => rw [flatMap_nil, flatMap_nil, append_nil, append_nil]
  | cons p l ih =>
    obtain ⟨hp, hl⟩ := forall_mem_cons.1 hl
    rw [flatMap_cons, flatMap_cons, scan_append hkeys ha (by simp), cons_append, scan,
      if_pos (by decide), ih hp hl, cons_append]

/-- Texts with slashes are equal piece by piece, if the pieces that differ have no slash in one of
    them. -/
theorem flatMap_inj_of_slash {α : Type} {f g : α → Text} {l : List α}
    (h : ∀ a ∈ l, f a = g a ∨ '/' ∉ g a)
    (heq : (l.flatMap fun a => '/' :: f a) = l.flatMap fun a => '/' :: g a) :
    ∀ a ∈ l, f a = g a := by
  have hcount {l : List α} (h : ∀ a ∈ l, f a = g a ∨ '/' ∉ g a) :
      (l.flatMap fun a => '/' :: g a).count '/' ≤ (l.flatMap fun a => '/' :: f a).count '/' := by
    rw [count_flatMap, count_flatMap]
    refine sum_le_sum fun a ha => ?_
    rcases h a ha with heq | hnot
    · simp [heq]
    · simp [count_eq_zero.2 hnot]
  induction l with
  | nil => exact forall_mem_nil _
  | cons a l ih =>
    obtain ⟨ha, hl⟩ := forall_mem_cons.1 h
    have hle := hcount hl
    rw [flatMap_cons, flatMap_cons] at heq
    have hfirst : f a = g a := by
      refine ha.elim id fun hnot => ?_
      have hslashes := congrArg (count '/') heq
      rw [count_append, count_append, count_cons_self, count_cons_self, count_eq_zero.2 hnot]
        at hslashes
      have hnot' : '/' ∉ f a := count_eq_zero.1 (by omega)
      have heq := (List.cons.inj heq).2
      cases l with
      | nil => simpa using heq
      | cons b l => exact ((append_cons_inj_of_not_mem hnot' hnot).1 heq).1
    rw [hfirst, append_cancel_left_eq] at heq
    exact forall_mem_cons.2 ⟨hfirst, ih hl heq⟩

end

section

variable {declared : List Variable} {s : Text}

theorem mem_usable_iff {v : Text × Text} :
    v ∈ usable declared ↔ ∃ d ∈ declared, d.key ≠ [] ∧ d.key = v.1 ∧ d.value = some v.2 := by
  rw [usable, (perm_sortByKey _ _).mem_iff, mem_filterMap]
  simp only [mem_filter, decide_eq_true_eq, Option.map_eq_some_iff, Prod.ext_iff]
  aesop

/-- The keys are as those of a list of path variables: distinct, not empty, and without a slash. -/
structure Keys (declared : List Variable) : Prop where
  nodup : (declared.map Variable.key).Nodup
  ne_nil : ∀ v ∈ declared, v.key ≠ []
  no_slash : ∀ v ∈ declared, '/' ∉ v.key

theorem Keys.mem_usable (h : Keys declared) {v : Variable} (hv : v ∈ declared) {value : Text} :
    (v.key, value) ∈ usable declared ↔ v.value = some value := by
  rw [mem_usable_iff]
  refine ⟨?_, fun hvalue => ⟨v, hv, h.ne_nil v hv, rfl, hvalue⟩⟩
  rintro ⟨d, hd, -, hkey, hvalue⟩
  rwa [inj_on_of_nodup_map h.nodup hd hv hkey] at hvalue

theorem Keys.slash (h : Keys declared) : ∀ v ∈ usable declared, '/' ∉ v.1 := by
  intro v hv
  obtain ⟨d, hd, -, hkey, -⟩ := mem_usable_iff.1 hv
  exact hkey ▸ h.no_slash d hd

theorem Keys.scan_eq_self_iff (h : Keys declared) (hs : ∀ c ∈ s, isBoundary c = false) :
    scan (usable declared) 0 s = s ↔ ¬Rewritten declared s := by
  rcases scan_cases h.slash hs with ⟨heq, hnone⟩ | ⟨⟨key, value⟩, hv, a, ha, heq, hlongest⟩
  · refine iff_of_true heq ?_
    rintro ⟨d, hd, value, hvalue, hsuffix, -⟩
    exact hnone _ ((h.mem_usable hd).2 hvalue) hsuffix
  · obtain ⟨d, hd, -, rfl, hvalue⟩ := mem_usable_iff.1 hv
    have hrewritten : Rewritten declared s ↔ value ≠ colonToken d.key := by
      constructor
      · rintro ⟨d', hd', value', hvalue', hsuffix, hne, hlongest'⟩ hself
        -- Both tokens are the longest ones, so they are the same.
        have hle := hlongest _ ((h.mem_usable hd').2 hvalue') hsuffix
        have hle' := hlongest' d hd (by rw [hvalue]; rfl) ⟨a, ha.symm⟩
        have hkey : colonToken d'.key = colonToken d.key :=
          (suffix_of_suffix_length_le hsuffix ⟨a, ha.symm⟩ (Nat.succ_le_succ hle)).eq_of_length
            (congrArg Nat.succ (le_antisymm hle hle'))
        obtain rfl := inj_on_of_nodup_map h.nodup hd' hd (List.cons.inj hkey).2
        cases hvalue.symm.trans hvalue'
        exact hne hself
      · refine fun hne => ⟨d, hd, value, hvalue, ⟨a, ha.symm⟩, hne, fun d' hd' hsome hsuffix => ?_⟩
        obtain ⟨value', hvalue'⟩ := Option.isSome_iff_exists.1 hsome
        exact hlongest _ ((h.mem_usable hd').2 hvalue') hsuffix
    rw [hrewritten, not_not, heq, ha, append_cancel_left_eq]

theorem Keys.scan_token (h : Keys declared) {v : Variable} (hv : v ∈ declared) {value : Text}
    (hvalue : v.value = some value) (hs : ∀ c ∈ colonToken v.key, isBoundary c = false) :
    scan (usable declared) 0 (colonToken v.key) = value := by
  have hmem := (h.mem_usable hv).2 hvalue
  rcases scan_cases h.slash hs with ⟨-, hnone⟩ | ⟨⟨key, value'⟩, hv', a, ha, heq, hlongest⟩
  · exact absurd suffix_rfl (hnone _ hmem)
  · have hle := hlongest _ hmem suffix_rfl
    have hlength := congrArg List.length ha
    simp only [colonToken, length_append, length_cons] at hlength
    obtain rfl : a = [] := length_eq_zero_iff.1 (by simp only at hle; omega)
    obtain rfl : v.key = key := (List.cons.inj ha).2
    cases ((h.mem_usable hv).1 hv').symm.trans hvalue
    exact heq

theorem Keys.substituteVariable_token (h : Keys declared) {v : Variable} (hv : v ∈ declared)
    {value : Text} (hvalue : v.value = some value) :
    substituteVariable declared (colonToken v.key) = value := by
  have hsome :
      (declared.find? fun d => d.value.isSome && colonToken d.key = colonToken v.key).isSome =
        true :=
    find?_isSome.2 ⟨v, hv, by simp [hvalue]⟩
  obtain ⟨d, hd⟩ := Option.isSome_iff_exists.1 hsome
  have hkey := find?_some hd
  rw [Bool.and_eq_true, decide_eq_true_eq] at hkey
  obtain rfl := inj_on_of_nodup_map h.nodup (mem_of_find?_eq_some hd) hv (List.cons.inj hkey.2).2
  rw [substituteVariable, hd, Option.bind_some, hvalue, Option.getD_some]

theorem substituteVariable_other
    (h : ∀ v ∈ declared, v.value.isSome = true → s ≠ colonToken v.key) :
    substituteVariable declared s = s := by
  rw [substituteVariable, find?_eq_none.2]
  · rfl
  · intro v hv heq
    rw [Bool.and_eq_true, decide_eq_true_eq] at heq
    exact h v hv heq.1 heq.2.symm

theorem Keys.scan_scheme (h : Keys declared) (hs : ∀ c ∈ s ++ [':'], isBoundary c = false)
    (hcolon : ':' ∉ s) : scan (usable declared) 0 (s ++ [':']) = s ++ [':'] := by
  refine (h.scan_eq_self_iff hs).2 ?_
  -- A key is not empty, so a token does not end with the colon of the scheme.
  rintro ⟨v, hv, -, -, ⟨a, ha⟩, -⟩
  rcases eq_nil_or_concat v.key with hnil | ⟨key, c, hkey⟩
  · exact h.ne_nil v hv hnil
  · rw [colonToken, hkey, concat_eq_append, ← cons_append, ← append_assoc] at ha
    exact hcolon (append_inj_left' ha rfl ▸ mem_append_right _ mem_cons_self)

theorem not_slash_mem (hs : ∀ c ∈ s, isBoundary c = false) : '/' ∉ s := fun hmem =>
  absurd (hs _ hmem) (by decide)

/-- A token is its value in both. Another segment is to stay as it is, without a slash. -/
theorem Keys.scan_segment (h : Keys declared) (hs : ∀ c ∈ s, isBoundary c = false) :
    (scan (usable declared) 0 s = substituteVariable declared s ↔ (Rewritten declared s →
      ∃ v ∈ declared, v.value.isSome = true ∧ s = colonToken v.key)) ∧
    (scan (usable declared) 0 s = substituteVariable declared s ∨
      '/' ∉ substituteVariable declared s) := by
  by_cases htoken : ∃ v ∈ declared, v.value.isSome = true ∧ s = colonToken v.key
  · have heq : scan (usable declared) 0 s = substituteVariable declared s := by
      obtain ⟨v, hv, hsome, rfl⟩ := htoken
      obtain ⟨value, hvalue⟩ := Option.isSome_iff_exists.1 hsome
      exact (h.scan_token hv hvalue hs).trans (h.substituteVariable_token hv hvalue).symm
    exact ⟨iff_of_true heq fun _ => htoken, .inl heq⟩
  · rw [substituteVariable_other fun v hv hsome heq => htoken ⟨v, hv, hsome, heq⟩]
    refine ⟨(h.scan_eq_self_iff hs).trans ?_, .inr (not_slash_mem hs)⟩
    exact ⟨fun hnot hrewritten => absurd hrewritten hnot,
      fun himp hrewritten => htoken (himp hrewritten)⟩

end

/-- Whole segments are substituted, just when neither the authority nor another segment is
    rewritten. -/
theorem buildUrl_iff {scheme authority : Text} {segments : List Text} {declared : List Variable}
    (hscheme : ':' ∉ scheme)
    (hparts : ∀ s ∈ scheme :: authority :: segments, s.all fun c => !isBoundary c)
    (hkeys : Keys declared) :
    let u := pathUrl scheme authority segments
    buildUrl u.text declared =
      u.render (fun p => if p.1 then substituteVariable declared p.2 else p.2) ↔
      ¬Rewritten declared authority ∧ ∀ s ∈ segments, Rewritten declared s →
        ∃ v ∈ declared, v.value.isSome = true ∧ s = colonToken v.key := by
  intro u
  simp only [all_eq_true, Bool.not_eq_true'] at hparts
  obtain ⟨hschemeParts, hparts⟩ := forall_mem_cons.1 hparts
  obtain ⟨hauthority, hsegments⟩ := forall_mem_cons.1 hparts
  have hbound : ∀ c ∈ scheme ++ [':'], isBoundary c = false :=
    forall_mem_append.2 ⟨hschemeParts, forall_mem_singleton.2 (by decide)⟩
  let f (p : Piece) : Text := scan (usable declared) 0 p.2
  let g (p : Piece) : Text := if p.1 then substituteVariable declared p.2 else p.2
  let l : List Piece := (false, []) :: (false, authority) :: segments.map (true, ·)
  have hl : ∀ p ∈ l, ∀ c ∈ p.2, isBoundary c = false :=
    forall_mem_cons.2 ⟨forall_mem_nil _, forall_mem_cons.2 ⟨hauthority, forall_mem_map.2 hsegments⟩⟩
  have hsame : ∀ p ∈ l, f p = g p ∨ '/' ∉ g p :=
    forall_mem_cons.2 ⟨.inl rfl, forall_mem_cons.2 ⟨.inr (not_slash_mem hauthority),
      forall_mem_map.2 fun s hs => (hkeys.scan_segment (hsegments s hs)).2⟩⟩
  have hpieces : buildUrl u.text declared = u.render g ↔ ∀ p ∈ l, f p = g p := by
    have hrender (h : Piece → Text) : u.render h = h (false, scheme ++ [':']) ++ l.flatMap fun p =>
      '/' :: h p := by
      rw [Url.render, show u.others = l.map ('/', ·) from rfl, flatMap_map]
      rfl
    rw [buildUrl, Url.text, hrender, hrender, scan_pieces hkeys.slash hbound hl,
      hkeys.scan_scheme hbound hscheme]
    refine ⟨fun heq => flatMap_inj_of_slash hsame (append_cancel_left heq), fun h => ?_⟩
    exact congrArg _ (flatMap_congr fun p hp => congrArg _ (h p hp))
  rw [hpieces, forall_mem_cons, forall_mem_cons, forall_mem_map,
    and_iff_right (show f (false, []) = g (false, []) from rfl)]
  exact and_congr (hkeys.scan_eq_self_iff hauthority)
    (forall₂_congr fun s hs => (hkeys.scan_segment (hsegments s hs)).1)

def hostVariables : List Variable := [⟨"id".toList, some "42".toList⟩, ⟨"80".toList, none⟩]

theorem buildUrl_iff_users : buildUrl "http://host:80/users/:id".toList hostVariables =
    "http://host:80/users/42".toList := by
  have hkeys : Keys hostVariables := ⟨by decide, by decide, by decide⟩
  refine ((@buildUrl_iff "http".toList "host:80".toList ["users".toList, ":id".toList]
    hostVariables (by decide) (by decide) hkeys).2 ⟨?_, ?_⟩).trans (by decide)
  · rintro ⟨v, hv, value, hvalue, hsuffix, -⟩
    rcases mem_pair.1 hv with rfl | rfl
    · exact absurd hsuffix (by decide)
    · cases hvalue
  · refine forall_mem_cons.2 ⟨?_, forall_mem_singleton.2 fun _ => ⟨_, mem_cons_self, rfl, rfl⟩⟩
    rintro ⟨v, hv, value, hvalue, hsuffix, -⟩
    rcases mem_pair.1 hv with rfl | rfl
    · exact absurd hsuffix (by decide)
    · cases hvalue

theorem buildUrl_rewritten :
    buildUrl "http://host:80/users:id" [⟨"80", some "42"⟩, ⟨"id", some "7"⟩] =
      "http://host42/users7" := by
  decide

end Tropel.PathVariables
