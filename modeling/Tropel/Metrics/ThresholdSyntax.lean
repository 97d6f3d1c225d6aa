import Tropel.Lib.Text

/-!
# Reading thresholds

A threshold is made of *clauses* `<metric> <op> <value>`, joined by `&&` and `||`.
-/

namespace Tropel

open Lib List Bool

/-! ## The validator -/

def braceDepth (depth : ℕ) (c : Char) : ℕ :=
  if c = '{' then depth + 1 else if c = '}' then depth - 1 else depth

def nonEmpty (t : Text) : List Text := if t = [] then [] else [t]

def compoundScan (inner : Text → List Text) (depth : ℕ) (cur : Text) : Text → List Text
  | [] => nonEmpty (trim cur)
  | [x] => nonEmpty (trim (cur ++ [x]))
  | x :: y :: t =>
    if depth = 0 ∧ x = '&' ∧ y = '&' then nonEmpty (trim cur) ++ compoundScan inner 0 [] t
    else if depth = 0 ∧ x = '|' ∧ y = '|' then
      (if trim cur = [] then [] else inner (trim cur)) ++ compoundScan inner 0 [] t
    else compoundScan inner (braceDepth depth x) (cur ++ [x]) (y :: t)

def compoundClausesFuel : ℕ → Text → List Text
  | 0, e => [e]
  | fuel + 1, e =>
    if hasTwice '&' e || hasTwice '|' e then
      match compoundScan (compoundClausesFuel fuel) 0 [] e with
      | [] => [e]
      | clauses => clauses
    else [e]

def compoundClauses (e : Text) : List Text := compoundClausesFuel (e.length + 1) e

def braceAwareSplitFrom (depth : ℕ) (cur : Text) : Text → List Text
  | [] => nonEmpty cur
  | c :: t =>
    if (c = ' ' ∨ c = '\t') ∧ depth = 0 then nonEmpty cur ++ braceAwareSplitFrom 0 [] t
    else braceAwareSplitFrom (braceDepth depth c) (cur ++ [c]) t

def braceAwareSplit (clause : Text) : List Text := braceAwareSplitFrom 0 [] clause

/-! ## Cutting at connectives -/

def consClause (c : Char) : List (List Text) → List (List Text)
  | [] => [[[c]]]
  | g :: gs => consHead c g :: gs

def openClause : List (List Text) → List (List Text)
  | [] => [[[]]]
  | g :: gs => ([] :: g) :: gs

def connectives (aware : Bool) (depth : ℕ) : Text → List (List Text)
  | [] => [[[]]]
  | [x] => [[[x]]]
  | x :: y :: t =>
    if (aware = true → depth = 0) ∧ x = '&' ∧ y = '&' then openClause (connectives aware depth t)
    else if (aware = true → depth = 0) ∧ x = '|' ∧ y = '|' then [[]] :: connectives aware depth t
    else consClause x (connectives aware (braceDepth depth x) (y :: t))

def tidyClauses (clauses : List Text) : List Text := (clauses.map trim).filter (· ≠ [])

variable (groups : List (List Text))

def tidy : List (List Text) := (groups.map tidyClauses).filter (· ≠ [])

def braceGroups (e : Text) : List (List Text) := tidy (connectives true 0 e)

def plainGroups (e : Text) : List (List Text) := tidy ((splitTwice '|' e).map (splitTwice '&'))

def braceReads (e : Text) : List (List (List Text)) := (braceGroups (trim e)).map fun g =>
    g.map braceAwareSplit

def plainReads (e : Text) : List (List (List Text)) :=
  (plainGroups e).map fun g => g.map splitWhitespace

/-! ## The clauses of the validator -/

theorem exists_connectives_cons (aware : Bool) (depth : ℕ) (y : Char) (t : Text) :
    ∃ p ps gs, connectives aware depth (y :: t) = (p :: ps) :: gs ∧
      (p = [] ∨ ∃ p', p = y :: p') := by
  induction t generalizing depth y with
  | nil => exact ⟨[y], [], [], rfl, .inr ⟨[], rfl⟩⟩
  | cons z t ih =>
    rw [connectives]
    split_ifs
    · rcases connectives aware depth t with _ | ⟨g, gs⟩
      · exact ⟨[], [], [], rfl, .inl rfl⟩
      · exact ⟨[], g, gs, rfl, .inl rfl⟩
    · exact ⟨[], [], _, rfl, .inl rfl⟩
    · obtain ⟨p, ps, gs, h, -⟩ := ih (braceDepth depth y) z
      rw [h]
      exact ⟨y :: p, ps, gs, rfl, .inr ⟨p, rfl⟩⟩

def Unsplit (depth : ℕ) : Text → Prop
  | [] => True
  | [_] => True
  | x :: y :: t =>
    ¬ (depth = 0 ∧ x = '&' ∧ y = '&') ∧ ¬ (depth = 0 ∧ x = '|' ∧ y = '|') ∧
      Unsplit (braceDepth depth x) (y :: t)

variable {t s e p cur : Text} {c x : Char} {depth : ℕ} {ts : List Text}

theorem Unsplit.connectives_eq (h : Unsplit depth t) : connectives true depth t = [[t]] := by
  induction t generalizing depth with
  | nil => rfl
  | cons x t ih =>
    cases t with
    | nil => rfl
    | cons y t =>
      obtain ⟨h₁, h₂, h⟩ := h
      rw [connectives, if_neg fun h => h₁ ⟨h.1 rfl, h.2⟩, if_neg fun h => h₂ ⟨h.1 rfl, h.2⟩, ih h]
      rfl

theorem unsplit_of_not_hasTwice (h₁ : hasTwice '&' t = false) (h₂ : hasTwice '|' t = false) :
    Unsplit depth t := by
  induction t generalizing depth with
  | nil => trivial
  | cons x t ih =>
    cases t with
    | nil => trivial
    | cons y t =>
      rw [hasTwice, or_eq_false_iff] at h₁ h₂
      refine ⟨?_, ?_, ih h₁.2 h₂.2⟩
      · rintro ⟨-, rfl, rfl⟩
        exact absurd h₁.1 (by decide)
      · rintro ⟨-, rfl, rfl⟩
        exact absurd h₂.1 (by decide)

theorem Unsplit.of_append (h : Unsplit depth (t ++ s)) : Unsplit depth t := by
  induction t generalizing depth with
  | nil => trivial
  | cons x t ih =>
    cases t with
    | nil => trivial
    | cons y t => exact ⟨h.1, h.2.1, ih h.2.2⟩

theorem braceDepth_of_isWhitespace (depth : ℕ) (h : isWhitespace c) :
    braceDepth depth c = depth := by
  have h₁ : c ≠ '{' := by rintro rfl; revert h; decide
  have h₂ : c ≠ '}' := by rintro rfl; revert h; decide
  rw [braceDepth, if_neg h₁, if_neg h₂]

theorem Unsplit.of_cons (h : Unsplit depth (x :: t)) (hx : isWhitespace x) : Unsplit depth t := by
  cases t with
  | nil => trivial
  | cons y t =>
    rw [← braceDepth_of_isWhitespace depth hx]
    exact h.2.2

theorem Unsplit.trim (h : Unsplit depth t) : Unsplit depth (trim t) := by
  obtain ⟨a, b, ht, ha, hb⟩ := exists_trim t
  rw [ht] at h
  have hleft : ∀ u : Text, (∀ c ∈ u, isWhitespace c) → ∀ v, Unsplit depth (u ++ v) →
      Unsplit depth v := by
    intro u
    induction u with
    | nil => exact fun _ v h => h
    | cons x u ih =>
      intro hu v h
      exact ih (fun c hc => hu c (mem_cons_of_mem _ hc)) v (h.of_cons (hu x mem_cons_self))
  exact (hleft a ha _ h).of_append

theorem unsplit_connectives (depth : ℕ) (t : Text) :
    ∃ p ps gs, connectives true depth t = (p :: ps) :: gs ∧ Unsplit depth p ∧
      ∀ q ∈ ps ++ gs.flatten, Unsplit 0 q := by
  fun_induction connectives true depth t with
  | case1 depth => exact ⟨[], [], [], rfl, trivial, nofun⟩
  | case2 depth x => exact ⟨[x], [], [], rfl, trivial, nofun⟩
  | case3 depth x y t h ih =>
    obtain ⟨p, ps, gs, hc, hp, hq⟩ := ih
    obtain rfl := h.1 rfl
    rw [hc]
    refine ⟨[], p :: ps, gs, rfl, trivial, ?_⟩
    rintro q hq'
    rcases mem_cons.1 hq' with rfl | hq'
    · exact hp
    · exact hq q hq'
  | case4 depth x y t h₁ h ih =>
    obtain ⟨p, ps, gs, hc, hp, hq⟩ := ih
    obtain rfl := h.1 rfl
    rw [hc]
    refine ⟨[], [], (p :: ps) :: gs, rfl, trivial, ?_⟩
    rintro q hq'
    rcases mem_cons.1 hq' with rfl | hq'
    · exact hp
    · exact hq q hq'
  | case5 depth x y t h₁ h₂ ih =>
    obtain ⟨p, ps, gs, hc, hp, hq⟩ := ih
    obtain ⟨p', ps', gs', hc', hstart⟩ := exists_connectives_cons true (braceDepth depth x) y t
    rw [hc] at hc' ⊢
    obtain ⟨⟨rfl, rfl⟩, rfl⟩ : (p = p' ∧ ps = ps') ∧ gs = gs' := by simpa using hc'
    refine ⟨x :: p, ps, gs, rfl, ?_, hq⟩
    obtain rfl | ⟨p', rfl⟩ := hstart
    · trivial
    · exact ⟨fun h => h₁ ⟨fun _ => h.1, h.2⟩, fun h => h₂ ⟨fun _ => h.1, h.2⟩, hp⟩

def prependClause (cur : Text) : List (List Text) → List (List Text)
  | (p :: ps) :: gs => ((cur ++ p) :: ps) :: gs
  | gs => gs

theorem tidyClauses_cons (p : Text) (ps : List Text) :
    tidyClauses (p :: ps) = nonEmpty (trim p) ++ tidyClauses ps := by
  rw [tidyClauses, map_cons, filter_cons, nonEmpty]
  by_cases h : trim p = [] <;> simp [h, tidyClauses]

theorem tidyClauses_append (ps qs : List Text) :
    tidyClauses (ps ++ qs) = tidyClauses ps ++ tidyClauses qs := by
  rw [tidyClauses, map_append, filter_append, tidyClauses, tidyClauses]

theorem flatten_tidy : (tidy groups).flatten = tidyClauses groups.flatten := by
  induction groups with
  | nil => rfl
  | cons g gs ih =>
    rw [flatten_cons, tidyClauses_append, ← ih, tidy, map_cons, filter_cons, ← tidy]
    by_cases h : tidyClauses g = [] <;> simp [h]

theorem compoundScan_eq {inner : Text → List Text} (depth : ℕ) (cur t : Text)
    (hinner : ∀ p ∈ (prependClause cur (connectives true depth t)).flatten, trim p ≠ [] →
      inner (trim p) = [trim p]) :
    compoundScan inner depth cur t =
      tidyClauses (prependClause cur (connectives true depth t)).flatten := by
  fun_induction connectives true depth t generalizing cur with
  | case1 depth =>
    rw [compoundScan, prependClause, append_nil, flatten_singleton, tidyClauses_cons]
    exact (append_nil _).symm
  | case2 depth x =>
    rw [compoundScan, prependClause, flatten_singleton, tidyClauses_cons]
    exact (append_nil _).symm
  | case3 depth x y t h ih =>
    obtain ⟨p, ps, gs, hc, -⟩ := unsplit_connectives depth t
    obtain ⟨hdepth, hxy⟩ := h
    obtain rfl := hdepth rfl
    rw [hc] at ih hinner ⊢
    have hrest : compoundScan inner 0 [] t = tidyClauses ((p :: ps) :: gs).flatten :=
      ih [] fun q hq => hinner q (mem_cons_of_mem _ hq)
    rw [compoundScan, if_pos ⟨rfl, hxy⟩, hrest, openClause, prependClause, append_nil]
    exact (tidyClauses_cons cur _).symm
  | case4 depth x y t h₁ h ih =>
    obtain ⟨p, ps, gs, hc, -⟩ := unsplit_connectives depth t
    obtain ⟨hdepth, hxy⟩ := h
    obtain rfl := hdepth rfl
    rw [hc] at ih hinner ⊢
    have hrest : compoundScan inner 0 [] t = tidyClauses ((p :: ps) :: gs).flatten :=
      ih [] fun q hq => hinner q (mem_cons_of_mem _ hq)
    have hgroup : (if trim cur = [] then [] else inner (trim cur)) = nonEmpty (trim cur) := by
      rw [nonEmpty]
      split
      · rfl
      next hne =>
        refine hinner cur ?_ hne
        simp [prependClause]
    rw [compoundScan, if_neg fun h => h₁ ⟨fun _ => rfl, h.2⟩, if_pos ⟨rfl, hxy⟩, hgroup, hrest,
      prependClause, append_nil]
    exact (tidyClauses_cons cur _).symm
  | case5 depth x y t h₁ h₂ ih =>
    obtain ⟨p, ps, gs, hc, -⟩ := unsplit_connectives (braceDepth depth x) (y :: t)
    rw [hc] at ih hinner ⊢
    have hcur : prependClause cur (consClause x ((p :: ps) :: gs)) =
        prependClause (cur ++ [x]) ((p :: ps) :: gs) := by
      simp [prependClause, consClause, consHead]
    rw [hcur] at hinner ⊢
    rw [compoundScan, if_neg fun h => h₁ ⟨fun _ => h.1, h.2⟩,
      if_neg fun h => h₂ ⟨fun _ => h.1, h.2⟩, ih _ hinner]

theorem compoundClausesFuel_of_unsplit (fuel : ℕ) (h : Unsplit 0 e) (htrim : trim e = e)
    (hne : e ≠ []) : compoundClausesFuel fuel e = [e] := by
  induction fuel with
  | zero => rfl
  | succ fuel ih =>
    have hscan : compoundScan (compoundClausesFuel fuel) 0 [] e = [e] := by
      rw [compoundScan_eq, h.connectives_eq]
      · simp [prependClause, tidyClauses, htrim, hne]
      · intro p hp _
        rw [h.connectives_eq] at hp
        obtain rfl : p = e := by simpa [prependClause] using hp
        rw [htrim, ih]
    rw [compoundClausesFuel, hscan]
    split <;> rfl

theorem compoundClauses_eq (htrim : trim e = e) : compoundClauses e =
      if (braceGroups e).flatten = [] then [e] else (braceGroups e).flatten := by
  have hscan : ∀ fuel,
      compoundScan (compoundClausesFuel fuel) 0 [] e = (braceGroups e).flatten := by
    intro fuel
    obtain ⟨p, ps, gs, hc, hp, hq⟩ := unsplit_connectives 0 e
    rw [compoundScan_eq, braceGroups, flatten_tidy, hc]
    · rfl
    · intro q hq' hne
      refine compoundClausesFuel_of_unsplit fuel (Unsplit.trim ?_) (trim_trim q) hne
      rw [hc] at hq'
      rcases mem_cons.1 hq' with rfl | hq'
      · exact hp
      · exact hq q hq'
  rw [compoundClauses, compoundClausesFuel, hscan]
  split
  · rcases (braceGroups e).flatten with _ | ⟨c, cs⟩ <;> rfl
  next h =>
    rw [not_eq_true, or_eq_false_iff] at h
    rw [braceGroups, (unsplit_of_not_hasTwice h.1 h.2).connectives_eq, flatten_tidy]
    rcases eq_or_ne e [] with rfl | hne
    · rfl
    · simp [tidyClauses, htrim, hne]

/-! ## The clauses of the evaluator -/

theorem map_splitTwice (depth : ℕ) (t : Text) :
    (splitTwice '|' t).map (splitTwice '&') = connectives false depth t := by
  fun_induction connectives false depth t with
  | case1 depth | case2 depth x => rfl
  | case3 depth x y t h ih =>
    obtain ⟨-, rfl, rfl⟩ := h
    rw [← ih, splitTwice_cons_cons (by decide)]
    cases t with
    | nil => rfl
    | cons z t =>
      rw [splitTwice_cons_cons fun h => absurd h.1 (by decide)]
      obtain ⟨g, gs, hg, -⟩ := exists_splitTwice_cons '|' z t
      rw [hg]
      rfl
  | case4 depth x y t h₁ h ih =>
    obtain ⟨-, rfl, rfl⟩ := h
    rw [splitTwice, if_pos ⟨rfl, rfl⟩, map_cons, ih]
    rfl
  | case5 depth x y t h₁ h₂ ih =>
    rw [← ih, splitTwice_cons_cons fun h => h₂ ⟨by simp, h⟩]
    obtain ⟨g, gs, hg, hstart⟩ := exists_splitTwice_cons '|' y t
    rw [hg]
    obtain rfl | ⟨g', rfl⟩ := hstart
    · rfl
    · rw [consHead, map_cons, map_cons, consClause,
        splitTwice_cons_cons fun h => h₁ ⟨by simp, h⟩]

theorem flatten_openClause : (openClause groups).flatten = [] :: groups.flatten := by
  cases groups <;> rfl

theorem hasTwice_cons_eq_false (hp : hasTwice c p = false)
    (hx : ∀ p', p = c :: p' → x ≠ c) : hasTwice c (x :: p) = false := by
  cases p with
  | nil => rfl
  | cons y p =>
    rw [hasTwice, hp, Bool.or_false, Bool.and_eq_false_iff, decide_eq_false_iff_not,
      decide_eq_false_iff_not]
    by_cases hy : y = c
    · exact .inl (hx p (by rw [hy]))
    · exact .inr hy

theorem not_hasTwice_connectives (depth : ℕ) (t : Text) :
    ∀ p ∈ (connectives false depth t).flatten, hasTwice '&' p = false ∧ hasTwice '|' p = false := by
  fun_induction connectives false depth t with
  | case1 depth | case2 depth x => simp [hasTwice]
  | case3 depth x y t h ih =>
    intro p hp
    rw [flatten_openClause] at hp
    rcases mem_cons.1 hp with rfl | hp
    · exact ⟨rfl, rfl⟩
    · exact ih p hp
  | case4 depth x y t h₁ h ih =>
    intro p hp
    rcases mem_cons.1 hp with rfl | hp
    · exact ⟨rfl, rfl⟩
    · exact ih p hp
  | case5 depth x y t h₁ h₂ ih =>
    obtain ⟨q, ps, gs, hc, hstart⟩ := exists_connectives_cons false (braceDepth depth x) y t
    rw [hc] at ih ⊢
    intro p hp
    rcases mem_cons.1 hp with rfl | hp
    · obtain ⟨hq₁, hq₂⟩ := ih q mem_cons_self
      refine ⟨hasTwice_cons_eq_false hq₁ fun q' hq' hx => h₁ ⟨by simp, hx, ?_⟩,
        hasTwice_cons_eq_false hq₂ fun q' hq' hx => h₂ ⟨by simp, hx, ?_⟩⟩
      all_goals
        rw [hq'] at hstart
        obtain h | ⟨_, h⟩ := hstart
        · cases h
        · exact (List.cons.inj h).1.symm
    · exact ih p (mem_cons_of_mem _ hp)

theorem hasTwice_of_cons (h : hasTwice c (x :: p) = false) : hasTwice c p = false := by
  cases p with
  | nil => rfl
  | cons y p => exact (or_eq_false_iff.1 h).2

theorem connectives_inside (h : depth ≠ 0) (y : Char) (t : Text) :
    ∃ p ps gs, connectives true depth (y :: t) = ((y :: p) :: ps) :: gs := by
  cases t with
  | nil => exact ⟨[], [], [], rfl⟩
  | cons z t =>
    obtain ⟨p, ps, gs, hc, -⟩ := exists_connectives_cons true (braceDepth depth y) z t
    rw [connectives, if_neg fun hd => h (hd.1 rfl), if_neg fun hd => h (hd.1 rfl), hc]
    exact ⟨p, ps, gs, rfl⟩

theorem connectives_eq_of_not_hasTwice
    (h : ∀ p ∈ (connectives true depth t).flatten, hasTwice '&' p = false ∧ hasTwice '|' p = false)
    (depth' : ℕ) : connectives true depth t = connectives false depth' t := by
  fun_induction connectives true depth t generalizing depth' with
  | case1 depth | case2 depth x => rfl
  | case3 depth x y t hxy ih =>
    rw [connectives, if_pos ⟨nofun, hxy.2⟩, ih _ depth']
    intro p hp
    rw [flatten_openClause] at h
    exact h p (mem_cons_of_mem _ hp)
  | case4 depth x y t h₁ hxy ih =>
    have hand : ¬ (x = '&' ∧ y = '&') := fun hand => by
      rw [hxy.2.1] at hand
      exact absurd hand.1 (by decide)
    rw [connectives, if_neg fun h => hand h.2, if_pos ⟨nofun, hxy.2⟩, ih _ depth']
    intro p hp
    exact h p (mem_cons_of_mem _ hp)
  | case5 depth x y t h₁ h₂ ih =>
    obtain ⟨q, ps, gs, hc, -⟩ := exists_connectives_cons true (braceDepth depth x) y t
    rw [hc] at h ih
    obtain ⟨hq₁, hq₂⟩ := h (x :: q) mem_cons_self
    -- A connective inside of braces would be in the first clause.
    have hinside : ∀ c, braceDepth depth c = depth → hasTwice c (x :: q) = false →
        (depth = 0 → ¬ (x = c ∧ y = c)) → ¬ (x = c ∧ y = c) := by
      intro c hdepth hq hzero hxy
      have hne : braceDepth depth x ≠ 0 := by
        rw [hxy.1, hdepth]
        exact fun h => hzero h hxy
      obtain ⟨q', ps', gs', hc'⟩ := connectives_inside hne y t
      rw [hc, List.cons.injEq, List.cons.injEq] at hc'
      rw [hc'.1.1, hasTwice] at hq
      simp [hxy.1, hxy.2] at hq
    have hand := hinside '&' rfl hq₁ fun hd hxy => h₁ ⟨fun _ => hd, hxy⟩
    have hor := hinside '|' rfl hq₂ fun hd hxy => h₂ ⟨fun _ => hd, hxy⟩
    rw [connectives, if_neg fun h => hand h.2, if_neg fun h => hor h.2, hc,
      ih ?_ (braceDepth depth' x)]
    intro p hp
    rcases mem_cons.1 hp with rfl | hp
    · exact ⟨hasTwice_of_cons hq₁, hasTwice_of_cons hq₂⟩
    · exact h p (mem_cons_of_mem _ hp)

theorem ne_of_isWhitespace (hx : isWhitespace x) (hc : isWhitespace c = false) : x ≠ c := by
  rintro rfl
  exact false_ne_true (hc.symm.trans hx)

theorem connectives_false_of_not_hasTwice (depth : ℕ) (h₁ : hasTwice '&' t = false)
    (h₂ : hasTwice '|' t = false) : connectives false depth t = [[t]] := by
  rw [← map_splitTwice, splitTwice_of_not_hasTwice h₂, map_singleton, splitTwice_of_not_hasTwice h₁]

theorem exists_connectives_append (depth : ℕ) (t : Text) (hs : ∀ c ∈ s, isWhitespace c) :
    ∃ gs ps p, connectives false depth t = gs ++ [ps ++ [p]] ∧
      connectives false depth (t ++ s) = gs ++ [ps ++ [p ++ s]] := by
  have hblank (c : Char) (hc : isWhitespace c = false) : hasTwice c s = false := by
    rw [← append_nil s, hasTwice_append_left fun x hx => ne_of_isWhitespace (hs x hx) hc]
    rfl
  fun_induction connectives false depth t with
  | case1 depth =>
    exact ⟨[], [], [], rfl,
      connectives_false_of_not_hasTwice depth (hblank '&' rfl) (hblank '|' rfl)⟩
  | case2 depth x =>
    refine ⟨[], [], [x], rfl, ?_⟩
    refine connectives_false_of_not_hasTwice depth ?_ ?_
    all_goals exact hasTwice_append_right [x] fun y hy => ne_of_isWhitespace (hs y hy) rfl
  | case3 depth x y t h ih =>
    obtain ⟨gs, ps, p, h₁, h₂⟩ := ih
    rw [cons_append, cons_append, connectives, if_pos h, h₁, h₂]
    cases gs with
    | nil => exact ⟨[], [] :: ps, p, rfl, rfl⟩
    | cons g gs => exact ⟨([] :: g) :: gs, ps, p, rfl, rfl⟩
  | case4 depth x y t hand h ih =>
    obtain ⟨gs, ps, p, h₁, h₂⟩ := ih
    rw [cons_append, cons_append, connectives, if_neg hand, if_pos h, h₁, h₂]
    exact ⟨[[]] :: gs, ps, p, rfl, rfl⟩
  | case5 depth x y t hand hor ih =>
    obtain ⟨gs, ps, p, h₁, h₂⟩ := ih
    rw [cons_append] at h₂
    rw [cons_append, cons_append, connectives, if_neg hand, if_neg hor, h₁, h₂]
    cases gs with
    | nil =>
      cases ps with
      | nil => exact ⟨[], [], x :: p, rfl, rfl⟩
      | cons q ps => exact ⟨[], (x :: q) :: ps, p, rfl, rfl⟩
    | cons g gs => exact ⟨consHead x g :: gs, ps, p, rfl, rfl⟩

theorem plainGroups_eq (depth : ℕ) (e : Text) :
    plainGroups e = tidy (connectives false depth e) := by
  rw [plainGroups, map_splitTwice depth]

theorem plainGroups_append_right (t : Text) (hs : ∀ c ∈ s, isWhitespace c) :
    plainGroups (t ++ s) = plainGroups t := by
  obtain ⟨gs, ps, p, h₁, h₂⟩ := exists_connectives_append 0 t hs
  rw [plainGroups_eq 0, plainGroups_eq 0, h₁, h₂, tidy, tidy, map_append, map_append,
    map_singleton, map_singleton, tidyClauses_append, tidyClauses_append, tidyClauses_cons,
    tidyClauses_cons, trim_append_right _ hs]

theorem plainGroups_cons (hx : isWhitespace x) (t : Text) :
    plainGroups (x :: t) = plainGroups t := by
  have htrim (p : Text) : trim (x :: p) = trim p :=
    trim_append_left (a := [x]) (fun c hc => mem_singleton.1 hc ▸ hx) p
  cases t with
  | nil =>
    rw [plainGroups, plainGroups]
    simp [splitTwice, tidy, tidyClauses, htrim]
  | cons y t =>
    obtain ⟨p, ps, gs, hc, -⟩ := exists_connectives_cons false (braceDepth 0 x) y t
    rw [plainGroups_eq 0, plainGroups_eq (braceDepth 0 x), connectives,
      if_neg fun h => ne_of_isWhitespace hx rfl h.2.1, if_neg fun h =>
        ne_of_isWhitespace hx rfl h.2.1, hc,
      consClause, consHead, tidy, tidy, map_cons, map_cons, tidyClauses_cons, tidyClauses_cons,
      htrim]

theorem plainGroups_trim (e : Text) : plainGroups (trim e) = plainGroups e := by
  have hleft : ∀ a : Text, (∀ c ∈ a, isWhitespace c) →
      ∀ t, plainGroups (a ++ t) = plainGroups t := by
    intro a
    induction a with
    | nil => exact fun _ t => rfl
    | cons x a ih =>
      intro ha t
      rw [cons_append, plainGroups_cons (ha x mem_cons_self),
        ih fun c hc => ha c (mem_cons_of_mem _ hc)]
  obtain ⟨a, b, he, ha, hb⟩ := exists_trim e
  conv_rhs => rw [he, hleft a ha, plainGroups_append_right _ hb]

/-! ## Tokens -/

theorem exists_braceAwareSplitFrom_cons (hcur : cur ≠ []) (depth : ℕ) (t : Text) :
    ∃ u rest, braceAwareSplitFrom depth cur t = (cur ++ u) :: rest := by
  induction t generalizing depth cur with
  | nil => exact ⟨[], [], by rw [braceAwareSplitFrom, nonEmpty, if_neg hcur, append_nil]⟩
  | cons c t ih =>
    rw [braceAwareSplitFrom]
    split
    · rw [nonEmpty, if_neg hcur]
      exact ⟨[], braceAwareSplitFrom 0 [] t, by rw [append_nil]; rfl⟩
    · have hne : cur ++ [c] ≠ [] := by simp
      obtain ⟨u, rest, h⟩ := ih hne (braceDepth depth c)
      exact ⟨c :: u, rest, by rw [h, append_assoc]; rfl⟩

theorem braceAwareSplitFrom_eq
    (h : ∀ w ∈ braceAwareSplitFrom depth cur t, ∀ c ∈ w, isWhitespace c = false) :
    braceAwareSplitFrom depth cur t = wordsFrom isWhitespace cur t := by
  induction t generalizing depth cur with
  | nil => rfl
  | cons c t ih =>
    rw [braceAwareSplitFrom] at h ⊢
    rw [wordsFrom]
    split at h
    next hsep =>
      have hc : isWhitespace c := by
        obtain ⟨rfl | rfl, -⟩ := hsep <;> decide
      rw [if_pos hsep, if_pos hc, ih fun w hw => h w (mem_append_right _ hw), nonEmpty]
      split <;> rfl
    next hsep =>
      have hne : cur ++ [c] ≠ [] := by simp
      obtain ⟨u, rest, htoken⟩ := exists_braceAwareSplitFrom_cons hne (braceDepth depth c) t
      have hc : isWhitespace c = false :=
        h (cur ++ [c] ++ u) (by rw [htoken]; exact mem_cons_self) c (by simp)
      rw [if_neg hsep, hc, if_neg Bool.false_ne_true, ih h]

theorem exists_hasTwice_braceAwareSplitFrom (hc : isWhitespace c = false) (depth : ℕ)
    (cur : Text) (h : hasTwice c (cur ++ t)) : ∃ w ∈ braceAwareSplitFrom depth cur t,
      hasTwice c w := by
  induction t generalizing depth cur with
  | nil =>
    rw [append_nil] at h
    rw [braceAwareSplitFrom, nonEmpty, if_neg]
    · exact ⟨cur, mem_cons_self, h⟩
    · rintro rfl
      cases h
  | cons x t ih =>
    rw [braceAwareSplitFrom]
    split
    next hsep =>
      have hx : isWhitespace x := by
        obtain ⟨rfl | rfl, -⟩ := hsep <;> decide
      rw [hasTwice_append_cons (ne_of_isWhitespace hx hc), or_eq_true] at h
      rcases h with h | h
      · refine ⟨cur, mem_append_left _ ?_, h⟩
        rw [nonEmpty, if_neg]
        · exact mem_cons_self
        · rintro rfl
          cases h
      · obtain ⟨w, hw, h⟩ := ih 0 [] h
        exact ⟨w, mem_append_right _ hw, h⟩
    next hsep =>
      refine ih _ _ ?_
      rwa [append_assoc]

theorem mem_of_mem_braceAwareSplitFrom {cur t w : Text}
    (hw : w ∈ braceAwareSplitFrom depth cur t) (hc : c ∈ w) : c ∈ cur ++ t := by
  have hcur : ∀ cur : Text, w ∈ nonEmpty cur → c ∈ cur := by
    intro cur hw
    rw [nonEmpty] at hw
    split at hw
    · cases hw
    · exact mem_singleton.1 hw ▸ hc
  induction t generalizing depth cur with
  | nil => exact mem_append_left _ (hcur cur hw)
  | cons x t ih =>
    rw [braceAwareSplitFrom] at hw
    split at hw
    · rcases mem_append.1 hw with hw | hw
      · exact mem_append_left _ (hcur cur hw)
      · exact mem_append_right _ (mem_cons_of_mem _ (ih hw))
    · have := ih hw
      rwa [append_assoc] at this

theorem mem_clause_of_mem (aware : Bool) (depth : ℕ) (hc : c ∈ t) (hand : c ≠ '&')
    (hor : c ≠ '|') : ∃ p ∈ (connectives aware depth t).flatten, c ∈ p := by
  fun_induction connectives aware depth t with
  | case1 depth => cases hc
  | case2 depth x => exact ⟨[x], by simp, hc⟩
  | case3 depth x y t h ih =>
    rw [h.2.1, h.2.2] at hc
    obtain ⟨p, hp, hcp⟩ := ih (by simpa [hand] using hc)
    exact ⟨p, by rw [flatten_openClause]; exact mem_cons_of_mem _ hp, hcp⟩
  | case4 depth x y t h₁ h ih =>
    rw [h.2.1, h.2.2] at hc
    obtain ⟨p, hp, hcp⟩ := ih (by simpa [hor] using hc)
    exact ⟨p, mem_cons_of_mem _ hp, hcp⟩
  | case5 depth x y t h₁ h₂ ih =>
    obtain ⟨q, ps, gs, hq, -⟩ := exists_connectives_cons aware (braceDepth depth x) y t
    rw [hq] at ih ⊢
    rcases mem_cons.1 hc with rfl | hc
    · exact ⟨c :: q, mem_cons_self, mem_cons_self⟩
    · obtain ⟨p, hp, hcp⟩ := ih hc
      rcases mem_cons.1 hp with rfl | hp
      · exact ⟨x :: p, mem_cons_self, mem_cons_of_mem _ hcp⟩
      · exact ⟨p, mem_cons_of_mem _ hp, hcp⟩

theorem flatten_braceGroups_ne_nil (hc : c ∈ e) (hand : c ≠ '&') (hor : c ≠ '|')
    (hblank : isWhitespace c = false) : (braceGroups e).flatten ≠ [] := by
  obtain ⟨p, hp, hcp⟩ := mem_clause_of_mem true 0 hc hand hor
  have htrim : trim p ≠ [] := by
    obtain ⟨a, b, hab, ha, hb⟩ := exists_trim p
    intro hnil
    rw [hnil, nil_append] at hab
    rw [hab] at hcp
    rcases mem_append.1 hcp with h | h
    · exact false_ne_true (hblank.symm.trans (ha c h))
    · exact false_ne_true (hblank.symm.trans (hb c h))
  rw [braceGroups, flatten_tidy, tidyClauses]
  exact ne_nil_of_mem (mem_filter.2 ⟨mem_map_of_mem hp, decide_eq_true htrim⟩)

def IsPlain (w : Text) : Prop :=
  (∀ c ∈ w, isWhitespace c = false) ∧ hasTwice '&' w = false ∧ hasTwice '|' w = false

instance (w : Text) : Decidable (IsPlain w) :=
  decidable_of_iff ((w.all fun c => !isWhitespace c) = true ∧ hasTwice '&' w = false ∧
    hasTwice '|' w = false) (by simp [IsPlain])

theorem plainReads_eq_iff (e : Text) : plainReads e = braceReads e ↔
      ∀ clause ∈ (braceGroups (trim e)).flatten, ∀ w ∈ braceAwareSplit clause, IsPlain w := by
  constructor
  · intro h clause hclause w hw
    -- The tokens of the clause are the words of a clause of the evaluator.
    have hmem : braceAwareSplit clause ∈ (plainReads e).flatten := by
      rw [h, braceReads, ← map_flatten]
      exact mem_map_of_mem hclause
    rw [plainReads, ← map_flatten] at hmem
    obtain ⟨q, hq, htokens⟩ := mem_map.1 hmem
    rw [plainGroups_eq 0, flatten_tidy, tidyClauses, mem_filter] at hq
    obtain ⟨p, hp, rfl⟩ := mem_map.1 hq.1
    obtain ⟨h₁, h₂⟩ := not_hasTwice_connectives 0 e p hp
    rw [← htokens] at hw
    have hpair (c : Char) (hc : isWhitespace c = false) (hp : hasTwice c p = false) :
        hasTwice c w = false := by
      rw [eq_false_iff]
      intro htwice
      have := hasTwice_of_mem_wordsFrom hc hw htwice
      rw [nil_append, hasTwice_trim hc, hp] at this
      cases this
    exact ⟨not_of_mem_wordsFrom (fun c hc => absurd hc not_mem_nil) hw, hpair '&' rfl h₁,
      hpair '|' rfl h₂⟩
  · intro h
    have hclause (c : Char) (hc : isWhitespace c = false)
        (hplain : ∀ w, IsPlain w → hasTwice c w = false) :
        ∀ p ∈ (connectives true 0 (trim e)).flatten, hasTwice c p = false := by
      intro p hp
      rw [eq_false_iff, ← hasTwice_trim hc]
      intro htwice
      have hmem : trim p ∈ (braceGroups (trim e)).flatten := by
        rw [braceGroups, flatten_tidy, tidyClauses, mem_filter]
        refine ⟨mem_map_of_mem hp, decide_eq_true ?_⟩
        intro hnil
        rw [hnil] at htwice
        cases htwice
      obtain ⟨w, hw, hw'⟩ := exists_hasTwice_braceAwareSplitFrom hc 0 [] htwice
      rw [hplain w (h _ hmem w hw)] at hw'
      cases hw'
    have hgroups : braceGroups (trim e) = plainGroups e := by
      rw [← plainGroups_trim, plainGroups_eq 0, braceGroups]
      refine congrArg tidy (connectives_eq_of_not_hasTwice (fun p hp => ?_) 0)
      exact ⟨hclause '&' rfl (fun w hw => hw.2.1) p hp, hclause '|' rfl (fun w hw => hw.2.2) p hp⟩
    rw [plainReads, braceReads, ← hgroups]
    refine map_congr_left fun g hg => map_congr_left fun clause hclause => ?_
    exact (braceAwareSplitFrom_eq fun w hw =>
      (h clause (mem_flatten.2 ⟨g, hg, hclause⟩) w hw).1).symm

end Tropel
