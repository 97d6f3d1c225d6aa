import Tropel.Variables.JsonBody

/-!
# What a deep resolution reports

A deep resolution repeats the pass until the text settles or the passes run out, and reports that
and the names that are left.

* `deepOutcome_iff`: when the report is right.
-/

namespace Tropel

open Lib List Nat Brackets

def names (text : Text) : List Text := (braces.holes text).map trim

def written (name : Text) : Text := '{' :: '{' :: name ++ ['}', '}']

theorem names_eq_nil_of_not_hasTwice {t : Text} (h : hasTwice '{' t = false) : names t = [] := by
  rw [names, holes, pieces_of_not_hasTwice h, List.filterMap_map, List.map_eq_nil_iff,
    List.filterMap_eq_nil_iff]
  exact fun _ _ => rfl

theorem mem_names_of_written {t text n : Text} (hn : n ∈ names t) (hne : n ≠ [])
    (h : written n <:+: text) :
    n ∈ names text := by
  obtain ⟨inner, hinner, rfl⟩ := mem_map.1 hn
  obtain ⟨s, u, rfl⟩ := h
  have hname : ∀ x ∈ trim inner, braces.isName x = true := fun x hx =>
    isName_of_mem_holes hinner x ((trimMatches_isInfix isWhitespace inner).subset hx)
  have hhole :=
    mem_holes_of_infix (B := braces) (a := '{') (b := '{') (c := '}') (d := '}') rfl rfl rfl rfl
    hne hname s u
  have htext : s ++ written (trim inner) ++ u =
      s ++ '{' :: '{' :: (trim inner ++ '}' :: '}' :: u) := by simp [written]
  rw [htext, names, mem_map]
  exact ⟨trim inner, hhole, trim_trim inner⟩

/-! ## The passes -/

namespace VariableScope

variable {catalog : Catalog} {scope : VariableScope} {mode : EscapeMode}

theorem mem_collect {text : Text} {out : List Text} {n : Text} :
    n ∈ collect text out ↔ n ∈ out ∨ n ∈ names text := by
  rw [collect, ← names]
  induction names text generalizing out with
  | nil => simp
  | cons a l ih =>
    rw [foldl_cons, ih]
    split <;> grind

theorem nodup_collect {text : Text} {out : List Text} (h : out.Nodup) :
    (collect text out).Nodup := by
  rw [collect]
  induction (braces.holes text).map trim generalizing out with
  | nil => exact h
  | cons a l ih =>
    rw [foldl_cons]
    split
    · exact ih h
    next hnot => exact ih (nodup_append.2 ⟨h, nodup_singleton a, by grind⟩)

theorem settled_deepLoop_iff (n : ℕ) (result : Text) (unresolved : List Text) :
    (scope.deepLoop catalog mode n result unresolved).2.2 = true ↔
      ∃ k < n, (scope.resolveWith catalog mode)^[k + 1] result =
        (scope.resolveWith catalog mode)^[k] result := by
  fun_induction deepLoop catalog scope mode n result unresolved with
  | case1 => exact iff_of_false Bool.false_ne_true fun ⟨_, hk, _⟩ => not_lt_zero _ hk
  | case2 n result unresolved htwice =>
    exact iff_of_true rfl ⟨0,
      succ_pos n, by rw [Function.iterate_one, resolveWith, if_pos htwice]; rfl⟩
  | case3 n result unresolved htwice _ _ hsettled => exact iff_of_true rfl ⟨0, succ_pos n, hsettled⟩
  | case4 n result unresolved htwice _ _ hchanged ih =>
    rw [ih]
    constructor
    · rintro ⟨k, hk, h⟩
      exact ⟨k + 1, succ_lt_succ hk, h⟩
    · rintro ⟨k, hk, h⟩
      cases k with
      | zero => exact absurd h hchanged
      | succ k => exact ⟨k, lt_of_succ_lt_succ hk, h⟩

theorem nodup_deepLoop (n : ℕ) (result : Text) {unresolved : List Text} (h : unresolved.Nodup) :
    (scope.deepLoop catalog mode n result unresolved).2.1.Nodup := by
  fun_induction deepLoop catalog scope mode n result unresolved with
  | case1 | case2 => exact h
  | case3 => exact nodup_collect h
  | case4 _ _ _ _ _ _ _ ih => exact ih (nodup_collect h)

theorem mem_names_of_fixed {result x : Text} (h : scope.resolveWith catalog mode result = result)
    (n : ℕ) :
    (∃ k ≤ n, x ∈ names ((scope.resolveWith catalog mode)^[k] result)) ↔ x ∈ names result := by
  constructor
  · rintro ⟨k, -, hk⟩
    rwa [Function.iterate_fixed h] at hk
  · exact fun hx => ⟨0, zero_le n, hx⟩

theorem mem_collect_deepLoop (n : ℕ) (result : Text) (unresolved : List Text) (x : Text) :
    x ∈ collect (scope.deepLoop catalog mode n result unresolved).1
        (scope.deepLoop catalog mode n result unresolved).2.1 ↔
      x ∈ unresolved ∨ ∃ k ≤ n, x ∈ names ((scope.resolveWith catalog mode)^[k] result) := by
  fun_induction deepLoop catalog scope mode n result unresolved with
  | case1 result unresolved =>
    rw [mem_collect]
    refine or_congr_right ⟨fun h => ⟨0, le_rfl, h⟩, ?_⟩
    rintro ⟨k, hk, h⟩
    obtain rfl := le_zero.1 hk
    exact h
  | case2 n result unresolved htwice =>
    have hfixed : scope.resolveWith catalog mode result = result := by
      rw [resolveWith, if_pos htwice]
    rw [mem_collect]
    exact or_congr_right (mem_names_of_fixed hfixed _).symm
  | case3 n result unresolved htwice _ _ hsettled =>
    rw [mem_collect, mem_collect, or_assoc, or_self]
    exact or_congr_right (mem_names_of_fixed hsettled _).symm
  | case4 n result unresolved htwice _ _ hchanged ih =>
    rw [ih, mem_collect, or_assoc]
    refine or_congr_right ⟨?_, ?_⟩
    · rintro (h | ⟨k, hk, h⟩)
      · exact ⟨0, zero_le _, h⟩
      · exact ⟨k + 1, succ_le_succ hk, h⟩
    · rintro ⟨k, hk, h⟩
      cases k with
      | zero => exact .inl h
      | succ k => exact .inr ⟨k, le_of_succ_le_succ hk, h⟩

/-! ## The report -/

section

variable (catalog : Catalog) (scope : VariableScope) (mode : EscapeMode) (input : Text)
  {maxPasses : ℕ}

theorem exists_settled_iff {f : Text → Text} (hpasses : 1 ≤ maxPasses) :
    (∃ k < maxPasses, f^[k + 1] input = f^[k] input) ↔
      f^[maxPasses] input = f^[maxPasses - 1] input := by
  constructor
  · rintro ⟨k, hk, h⟩
    rw [Function.iterate_succ_apply'] at h
    obtain ⟨m, rfl⟩ := Nat.exists_eq_add_of_lt hk
    have hlater : ∀ m, f^[m + k] input = f^[k] input := by
      intro m
      rw [Function.iterate_add_apply, Function.iterate_fixed h]
    rw [Nat.add_sub_cancel, Nat.add_comm k m, hlater, Nat.add_right_comm, hlater]
  · intro h
    refine ⟨maxPasses - 1, by omega, ?_⟩
    rwa [Nat.sub_add_cancel hpasses]

theorem hitCap_iff (hpasses : 1 ≤ maxPasses) :
    (scope.resolveDeepReporting catalog mode input maxPasses).hitCap = true ↔
      (scope.resolveWith catalog mode)^[maxPasses] input ≠
        (scope.resolveWith catalog mode)^[maxPasses - 1] input := by
  rw [Ne, ← exists_settled_iff input hpasses, ← settled_deepLoop_iff maxPasses input [],
    resolveDeepReporting]
  split
  next htwice =>
    obtain ⟨n, rfl⟩ := Nat.exists_eq_add_of_le' hpasses
    rw [deepLoop, if_pos htwice]
    exact iff_of_false Bool.false_ne_true fun h => h rfl
  next => simp

theorem mem_unresolved_iff
    (hcap : (scope.resolveDeepReporting catalog mode input maxPasses).hitCap = false) (n : Text) :
    n ∈ (scope.resolveDeepReporting catalog mode input maxPasses).unresolved ↔
      (∃ k ≤ maxPasses, n ∈ names ((scope.resolveWith catalog mode)^[k] input)) ∧
        written n <:+: (scope.resolveDeepReporting catalog mode input maxPasses).value := by
  rw [resolveDeepReporting] at hcap ⊢
  split
  next htwice =>
    have hfixed : scope.resolveWith catalog mode input = input := by rw [resolveWith, if_pos htwice]
    rw [mem_names_of_fixed hfixed, names_eq_nil_of_not_hasTwice htwice]
    exact iff_of_false not_mem_nil fun h => not_mem_nil h.1
  next htwice =>
    rw [if_neg htwice] at hcap
    have hsettled : (scope.deepLoop catalog mode maxPasses input []).2.2 = true := by
      simpa using hcap
    have hmem := @mem_collect_deepLoop catalog scope mode maxPasses input [] n
    rw [mem_nil_iff, false_or] at hmem
    dsimp only
    rw [if_pos hsettled, mem_filter, hmem, decide_eq_true_eq]
    rfl

theorem nodup_unresolved :
    (scope.resolveDeepReporting catalog mode input maxPasses).unresolved.Nodup := by
  have hnodup : (collect (scope.deepLoop catalog mode maxPasses input []).1
      (scope.deepLoop catalog mode maxPasses input []).2.1).Nodup :=
    nodup_collect (nodup_deepLoop maxPasses input nodup_nil)
  rw [resolveDeepReporting]
  split
  · exact nodup_nil
  · dsimp only
    split
    · exact hnodup.filter _
    · exact hnodup

/-- The report is right about the passes unless the last one settles the text, and about
    the names if every reference that is left also stands without white space, and no braces
    are left of a reference without a name. -/
theorem deepOutcome_iff (hpasses : 1 ≤ maxPasses) :
    let pass := scope.resolveWith catalog mode
    let text := pass^[maxPasses] input
    let outcome := scope.resolveDeepReporting catalog mode input maxPasses
    outcome.value = text ∧
    ((outcome.hitCap = true ↔ pass outcome.value ≠ outcome.value) ↔
      ¬ (text ≠ pass^[maxPasses - 1] input ∧ pass text = text)) ∧
    (outcome.hitCap = false → outcome.unresolved.Nodup ∧
      ((∀ n, n ∈ outcome.unresolved ↔ n ∈ names outcome.value) ↔
        (∀ n ∈ names text, written n <:+: text) ∧
        ((∃ k ≤ maxPasses, [] ∈ names (pass^[k] input)) → written [] <:+: text →
          [] ∈ names text))) := by
  intro pass text outcome
  have hvalue : outcome.value = pass^[maxPasses] input := value_resolveDeepReporting input maxPasses
  have htext : text = outcome.value := hvalue.symm
  rw [htext]
  have hcap : outcome.hitCap = true ↔ outcome.value ≠ pass^[maxPasses - 1] input := by
    rw [hvalue]
    exact hitCap_iff catalog scope mode input hpasses
  refine ⟨rfl, ?_, fun hsettled => ⟨nodup_unresolved catalog scope mode input, ?_⟩⟩
  · -- once settled, the text stays as it is
    have hstays : outcome.value = pass^[maxPasses - 1] input →
        pass outcome.value = outcome.value := by
      intro h
      have hlast : pass (pass^[maxPasses - 1] input) = outcome.value := by
        rw [← Function.iterate_succ_apply' pass, Nat.succ_eq_add_one, Nat.sub_add_cancel hpasses,
          hvalue]
      rwa [← h] at hlast
    rw [hcap]
    tauto
  · have hmem := mem_unresolved_iff catalog scope mode input hsettled
    constructor
    · intro h
      refine ⟨fun n hn => ((hmem n).1 ((h n).2 hn)).2, fun hseen hwritten => ?_⟩
      exact (h []).1 ((hmem []).2 ⟨hseen, hwritten⟩)
    · rintro ⟨hplain, hempty⟩ n
      rw [hmem]
      constructor
      · rintro ⟨⟨k, hk, hn⟩, hwritten⟩
        by_cases hne : n = []
        · rw [hne] at hn hwritten ⊢
          exact hempty ⟨k, hk, hn⟩ hwritten
        · exact mem_names_of_written hn hne hwritten
      · intro hn
        refine ⟨⟨maxPasses, le_rfl, ?_⟩, hplain n hn⟩
        rwa [hvalue] at hn

end

end VariableScope

def oneVariable : VariableScope := envScope ((∅ : IndexMap Text Text).insert "a" "x")

theorem deepOutcome_iff_twoPasses :
    let outcome :=
      oneVariable.resolveDeepReporting
        (fun _ _ => none) .none "\x7b\x7ba\x7d\x7d \x7b\x7bb\x7d\x7d" 2
    (outcome.hitCap = true ↔
      oneVariable.resolveWith (fun _ _ => none) .none outcome.value ≠ outcome.value) ∧
      ∀ n, n ∈ outcome.unresolved ↔ n ∈ names outcome.value := by
  intro outcome
  have h := VariableScope.deepOutcome_iff (fun _ _ => none) oneVariable .none
    "\x7b\x7ba\x7d\x7d \x7b\x7bb\x7d\x7d" (show 1 ≤ 2 by decide)
  have hcap : outcome.hitCap = false := by decide +kernel
  have hplain : ∀ n ∈ names outcome.value, written n <:+: outcome.value := by decide +kernel
  have hempty : ¬ written [] <:+: outcome.value := by decide +kernel
  rw [h.1] at hplain hempty
  refine ⟨h.2.1.2 (by decide +kernel),
    (h.2.2 hcap).2.2 ⟨hplain, fun _ hwritten => absurd hwritten hempty⟩⟩

theorem deepOutcome_wrong :
    (let outcome := oneVariable.resolveDeepReporting
      (fun _ _ => none) .none "\x7b\x7ba\x7d\x7d".toList 1
    outcome.hitCap = true ∧ oneVariable.resolveWith (fun _ _ => none) .none outcome.value =
      outcome.value) ∧
    (let outcome := oneVariable.resolveDeepReporting
      (fun _ _ => none) .none "\x7b\x7b $b \x7d\x7d".toList 2
    outcome.hitCap = false ∧ outcome.unresolved = [] ∧ names outcome.value = ["$b".toList]) ∧
    (let outcome := oneVariable.resolveDeepReporting
      (fun _ _ => none) .none "\x7b\x7b \x7d\x7d".toList 2
    outcome.hitCap = false ∧ outcome.unresolved = [[]] ∧ names outcome.value = []) := by
  decide +kernel

end Tropel
